import JarGraph.Archive.EndRecord
import JarGraph.Archive.Inflate
import JarGraph.Archive.Record
/-!
# Archives

The entries of an archive, in the order of its directory. An entry whose own header is in order has
its data, unless it is encrypted or compressed in an unknown way, or the compressed data is corrupt
or cut, or does not have the checksum that the directory names. Checksums are those of the cyclic
redundancy check of 32 bits, with its polynomial in the reflected form.
-/

namespace JarGraph.Archive

/-- The reflected polynomial. -/
def polynomial : UInt32 := 0xEDB88320

/-- Divides by the polynomial, one bit at a time. -/
def shiftOut : Nat → UInt32 → UInt32
  | 0, register => register
  | n + 1, register =>
    shiftOut n (if register &&& 1 = 1 then (register >>> 1) ^^^ polynomial else register >>> 1)

/-- The checksum of some data. -/
def checksum (data : Bytes) : UInt32 :=
  (data.foldl (fun register b => shiftOut 8 (register ^^^ b.toUInt32)) 0xFFFFFFFF) ^^^ 0xFFFFFFFF

/-- What is behind an entry's name. -/
inductive Body where
  | data (content : Bytes)
  /-- The entry's data cannot be read to its end. -/
  | unreadable (cause : IoError)
  /-- The entry as a whole is refused. -/
  | refused (cause : Error)
  deriving DecidableEq, Repr, Inhabited

/-- One entry of an archive. -/
structure Entry where
  name : String
  body : Body
  deriving DecidableEq, Repr, Inhabited

/-- An entry that stands for a directory has a name that ends like one. -/
def Entry.isDirectory (entry : Entry) : Bool :=
  match entry.name.toList.getLast? with
  | some c => c == '/' || c == '\\'
  | none => false

/-- The data of an entry as it stands in the archive; it is shorter where the file ends before. -/
def stored (data : Bytes) (r : Record) : Except Error Bytes := do
  let here := data.drop r.header
  let mark ← number here 0 4
  if mark ≠ 0x04034B50 then throw .badLocalHeader
  let nameLength ← number here 26 2
  let extraLength ← number here 28 2
  return (here.drop (30 + nameLength + extraLength)).take r.size

/-- The data of an entry, if it has the checksum that the directory says. -/
def checked (r : Record) (content : Bytes) : Body :=
  if (checksum content).toNat = r.checksum then .data content else .unreadable .checksum

/-- What is behind an entry of the directory. The mark of an encrypted entry counts at once; a
cipher that only an extra field tells of comes after the entry's own header and its method. -/
def body (data : Bytes) (r : Record) : Body :=
  if r.encrypted then .refused .passwordRequired
  else
    match stored data r with
    | .error cause => .refused cause
    | .ok content =>
      if r.method ≠ 0 ∧ r.method ≠ 8 then .refused .unknownMethod
      else if r.hasCipher then .refused .passwordRequired
      else if r.method = 0 then checked r content
      else
        match Inflate.inflate content with
        | .ok content => checked r content
        | .error .corrupt => .unreadable .corruptStream
        | .error .cut => .unreadable .cutStream

/-- The entries of an archive, in the order of its directory. -/
def read (data : Bytes) : Except Error (List Entry) := do
  let found ← endRecord data
  let all ← records found.moved found.count (data.drop found.start)
  return all.map fun r => ⟨r.name, body data r⟩

end JarGraph.Archive
