import JarGraph.Archive.Error
/-!
# The end record of an archive

Where the directory of an archive is. The end record stands at the end of the file, before a
comment, and is searched from the back. What does not fit into its fields stands in a wide end
record, which a locator just before the end record points to; bytes in front of the archive move it
backwards, and so it is searched from the named place on.
-/

namespace JarGraph.Archive

/-- What an end record says: where the directory starts, by how much all places are moved, and how
many entries there are. -/
structure EndRecord where
  start : Nat
  moved : Nat
  count : Nat
  deriving Repr, Inhabited

/-- How many bytes stand before the first of some marks, among so many positions. -/
def findMark (mark : Bytes) : Nat → Bytes → Option Nat
  | 0, _ => none
  | _ + 1, [] => none
  | n + 1, b :: rest =>
    if mark.isPrefixOf (b :: rest) then some 0 else (findMark mark n rest).map (· + 1)

/-- The bytes that mark the end record, last first. -/
def endMarkBackwards : Bytes := [6, 5, 0x4B, 0x50]

/-- The position of the last mark of an end record, which leaves room for the record, that is for 18
bytes more, and is followed by no more than a comment can hold. -/
def findEndRecord (data : Bytes) : Option Nat :=
  (findMark endMarkBackwards 65536 (data.reverse.drop 18)).map fun after =>
    data.length - 18 - 4 - after

/-- What the locator of a wide end record says. -/
structure Locator where
  /-- The part of the archive that holds the directory. -/
  disk : Nat
  /-- The position of the wide end record, as if there were no bytes in front of the archive. -/
  position : Nat
  deriving Repr, Inhabited

/-- The locator of a wide end record, if there is one. -/
def locator (data : Bytes) (commentLength : Nat) : Except Error (Option Locator) := do
  let behind := 42 + commentLength
  if data.length < behind then return none
  let here := data.drop (data.length - behind)
  let mark ← number here 0 4
  if mark ≠ 0x07064B50 then return none
  let disk ← number here 4 4
  let position ← number here 8 8
  return some ⟨disk, position⟩

/-- The bytes that mark a wide end record. -/
def wideMark : Bytes := [0x50, 0x4B, 6, 6]

/-- Finds and reads a wide end record in front of the end record at a position. Both records and the
locator have to find room. -/
def wideRecord (data : Bytes) (l : Locator) (position : Nat) : Except Error EndRecord := do
  if position < 60 then throw .noRoomForWideRecord
  match findMark wideMark (position - 60 + 1 - l.position) (data.drop l.position) with
  | none => throw .noWideRecord
  | some moved =>
    let here := data.drop (l.position + moved)
    let disk ← number here 16 4
    let directoryDisk ← number here 20 4
    let count ← number here 32 8
    let offset ← number here 48 8
    if disk ≠ directoryDisk then throw .severalDisks
    if offset + moved ≥ placeLimit then throw .badDirectoryPlace
    return ⟨offset + moved, moved, count⟩

/-- Finds and reads the end record. -/
def endRecord (data : Bytes) : Except Error EndRecord := do
  if data.length < 22 then throw .tooShort
  match findEndRecord data with
  | none => throw .noEndRecord
  | some position =>
    let here := data.drop position
    let disk ← number here 4 2
    let directoryDisk ← number here 6 2
    let count ← number here 8 2
    let total ← number here 10 2
    let size ← number here 12 4
    let offset ← number here 16 4
    let commentLength ← number here 20 2
    let _comment ← field here 22 commentLength
    let isNarrow := disk = 0xFFFF || directoryDisk = 0xFFFF || count = 0xFFFF || total = 0xFFFF
      || size = 0xFFFFFFFF || offset = 0xFFFFFFFF
    if !isNarrow && disk ≠ directoryDisk then throw .severalDisks
    match ← locator data commentLength with
    | none =>
      if position < size + offset then throw .badDirectoryPlace
      let moved := position - size - offset
      return ⟨offset + moved, moved, count⟩
    | some l =>
      if !isNarrow && disk ≠ l.disk then throw .severalDisks
      wideRecord data l position

end JarGraph.Archive
