import JarGraph.Archive.CodePage
import JarGraph.Archive.Error
import JarGraph.Text.Utf8
/-!
# The records of a directory

What the directory of an archive says of every entry. Extra fields correct a record: numbers that do
not fit into it stand there at full width, and so does what an entry in cipher is compressed with.
Extra fields may stop anywhere.
-/

namespace JarGraph.Archive

/-- What the directory says of an entry. -/
structure Record where
  name : String
  encrypted : Bool
  /-- Whether an extra field says more of the entry's cipher. -/
  hasCipher : Bool
  method : Nat
  checksum : Nat
  /-- The size of the entry's data in the archive. -/
  size : Nat
  /-- The size of the entry's data. -/
  plainSize : Nat
  /-- The position of the entry's own header. -/
  header : Nat
  deriving Repr, Inhabited

namespace Record

/-- The number that stands for one that does not fit. -/
def widened : Nat := 0xFFFFFFFF

/-- The way of compression that says that an entry is in cipher. -/
def cipherMethod : Nat := 99

/-- Puts the next number of full width in the place of one that does not fit. -/
def widen (n : Nat) (data : Bytes) : Option (Nat × Bytes) :=
  if n = widened then (data.number? 0 8).map fun wide => (wide, data.drop 8) else some (n, data)

/-- The record with its numbers at full width, as far as they are there, and the data after them. -/
def widenAll (r : Record) (data : Bytes) : Record × Option Bytes :=
  match widen r.plainSize data with
  | none => (r, none)
  | some (plainSize, data) =>
    let r := { r with plainSize := plainSize }
    match widen r.size data with
    | none => (r, none)
    | some (size, data) =>
      let r := { r with size := size }
      match widen r.header data with
      | none => (r, none)
      | some (header, data) => ({ r with header := header }, some data)

/-- What a field of some length says of the cipher of an entry: the way in which its data is
compressed. There is none where the data ends before. -/
def cipherField (length : Nat) (data : Bytes) : Except Error (Option Nat) :=
  if length ≠ 7 then .error .cipherLength
  else
    match data.number? 0 2, data.number? 2 2, data.number? 4 1, data.number? 5 2 with
    | some version, some vendor, some strength, some method =>
      if vendor ≠ 0x4541 then .error .cipherVendor
      else if version ≠ 1 && version ≠ 2 then .error .cipherVersion
      else if strength = 0 || strength > 3 then .error .cipherStrength
      else .ok (some method)
    | _, _, _, _ => .ok none

/-- Corrects a record by extra fields, of which there are no more than bytes. A field about a cipher
takes up the room of two. -/
def correct : Nat → Bytes → Record → Except Error Record
  | 0, _, r => .ok r
  | n + 1, data, r =>
    match data.number? 0 2, data.number? 2 2 with
    | some 1, some length =>
      let content := data.drop 4
      match r.widenAll content with
      | (r, none) => .ok r
      | (r, some rest) =>
        correct n (content.drop (max length (content.length - rest.length))) r
    | some 0x9901, some length =>
      match cipherField length (data.drop 4) with
      | .error cause => .error cause
      | .ok none => .ok r
      | .ok (some method) =>
        correct n (data.drop (4 + 2 * length)) { r with method := method, hasCipher := true }
    | some _, some length => correct n (data.drop (4 + length)) r
    | _, _ => .ok r

end Record

/-- The record at the front of some data, and the data after it. -/
def record (moved : Nat) (here : Bytes) : Except Error (Record × Bytes) := do
  let mark ← number here 0 4
  if mark ≠ 0x02014B50 then throw .badDirectoryHeader
  let flags ← number here 8 2
  let method ← number here 10 2
  let checksum ← number here 16 4
  let size ← number here 20 4
  let plainSize ← number here 24 4
  let nameLength ← number here 28 2
  let extraLength ← number here 30 2
  let commentLength ← number here 32 2
  let header ← number here 42 4
  let rawName ← field here 46 nameLength
  let extra ← field here (46 + nameLength) extraLength
  let _comment ← field here (46 + nameLength + extraLength) commentLength
  let name := if flags.testBit 11 then Text.utf8Lossy rawName else codePageText rawName
  let r ← Record.correct extra.length extra
    ⟨name, flags.testBit 0, false, method, checksum, size, plainSize, header⟩
  if r.method = Record.cipherMethod && !r.hasCipher then throw .cipherUnknown
  if r.header + moved ≥ placeLimit then throw .headerTooFar
  return ({ r with header := r.header + moved },
    here.drop (46 + nameLength + extraLength + commentLength))

/-- As many records as asked, from the front of some data on. -/
def records (moved : Nat) : Nat → Bytes → Except Error (List Record)
  | 0, _ => return []
  | n + 1, here => do
    let (first, next) ← record moved here
    let more ← records moved n next
    return first :: more

end JarGraph.Archive
