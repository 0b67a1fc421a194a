import JarGraph.Text.Utf8
/-!
# Inflating

The reverse of the *deflate* compression. Compressed data is a row of bits, read from the low end of
each byte: blocks that hold bytes as they are, or codes of letters and of copies from what was
written before. The letters are written in prefix codes, which are binary trees here. A stream is
refused as soon as its bits make no sense; one that makes sense so far and ends too soon is cut.
-/

namespace JarGraph.Archive.Inflate

/-- Why a stream has no data. -/
inductive Fault where
  /-- The bits make no sense. -/
  | corrupt
  /-- The bits run out before the end. -/
  | cut
  deriving DecidableEq, Repr, Inhabited

/-- A reader of bits. -/
abbrev BitReader (α : Type) := StateT (List Bool) (Except Fault) α

/-- The bits of some bytes, low end first. -/
def bits (data : Bytes) : List Bool :=
  data.flatMap fun b => (List.range 8).map fun i => b.toNat.testBit i

/-- One bit. -/
def bit : BitReader Bool := do
  match ← get with
  | [] => throw .cut
  | b :: rest =>
    set rest
    return b

/-- A number of `n` bits, low end first. -/
def number : Nat → BitReader Nat
  | 0 => return 0
  | n + 1 => do
    let b ← bit
    let rest ← number n
    return b.toNat + 2 * rest

/-- A prefix code: each path from the root to a leaf writes a letter. -/
inductive Code where
  /-- No letter is written like this. -/
  | unused
  | letter (value : Nat)
  | fork (zero one : Code)
  deriving Repr, Inhabited

namespace Code

/-- Gives a path its letter. -/
def insert (value : Nat) : List Bool → Code → Code
  | [], _ => letter value
  | false :: path, fork zero one => fork (insert value path zero) one
  | true :: path, fork zero one => fork zero (insert value path one)
  | false :: path, _ => fork (insert value path unused) unused
  | true :: path, _ => fork unused (insert value path unused)

/-- The letter at the start of the bits. -/
def read : Code → BitReader Nat
  | unused => throw .corrupt
  | letter value => return value
  | fork zero one => do
    if ← bit then read one else read zero

/-- The path of `width` bits that writes a number, high end first. -/
def path (width number : Nat) : List Bool :=
  ((List.range width).map fun i => number.testBit i).reverse

/-- How many letters have paths of each length from 1 to 15. -/
def census (lengths : List Nat) : List Nat :=
  (List.range 15).map fun i => lengths.count (i + 1)

/-- The first path of each length from 1 to 15, as a number. -/
def firstPaths : Nat → List Nat → List Nat
  | _, [] => []
  | start, count :: counts => start :: firstPaths ((start + count) * 2) counts

/-- The number of paths of length 15. -/
def pathCount : Nat := 1 <<< 15

/-- How many of all paths of length 15 the letters take up. -/
def taken (lengths : List Nat) : Nat :=
  (lengths.filter (· != 0)).foldr (fun length count => 1 <<< (15 - length) + count) 0

/-- Whether the letters take up all paths. -/
def isFull (lengths : List Nat) : Bool := taken lengths == pathCount

/-- Whether there is no letter at all, or a single one with the shortest path there is. -/
def isTrivial (lengths : List Nat) : Bool :=
  let used := lengths.filter (· != 0)
  used.isEmpty || used == [1]

/-- Gives the letters from `value` on their paths; `next` holds the next path of each length. -/
def insertAll (value : Nat) : List Nat → List Nat → Code → Code
  | [], _, code => code
  | length :: more, next, code =>
    if length = 0 then insertAll (value + 1) more next code
    else
      let number := (next[length - 1]?).getD 0
      insertAll (value + 1) more (next.set (length - 1) (number + 1))
        (insert value (path length number) code)

/-- The code in which the letter `i` has a path of the `i`-th length, none if that is 0. Shorter
paths come first, and among paths of one length smaller letters. Each path has one bit at least,
also one that no letter takes. -/
def ofLengths (lengths : List Nat) : Code :=
  insertAll 0 lengths (firstPaths 0 (census lengths)) (fork unused unused)

/-- The code of some lengths, of which all paths have to be taken. -/
def full (lengths : List Nat) : BitReader Code :=
  if isFull lengths then return ofLengths lengths else throw .corrupt

/-- The code of some lengths, of which all paths have to be taken, unless it has hardly a letter. -/
def fullOrTrivial (lengths : List Nat) : BitReader Code :=
  if isFull lengths || isTrivial lengths then return ofLengths lengths else throw .corrupt

end Code

/-- Least lengths of copies, and how many further bits give the length, from letter 257 on. -/
def copyLengths : List (Nat × Nat) :=
  [(3, 0), (4, 0), (5, 0), (6, 0), (7, 0), (8, 0), (9, 0), (10, 0), (11, 1), (13, 1), (15, 1),
    (17, 1), (19, 2), (23, 2), (27, 2), (31, 2), (35, 3), (43, 3), (51, 3), (59, 3), (67, 4),
    (83, 4), (99, 4), (115, 4), (131, 5), (163, 5), (195, 5), (227, 5), (258, 0)]

/-- Least distances of copies, and how many further bits give the distance. -/
def copyDistances : List (Nat × Nat) :=
  [(1, 0), (2, 0), (3, 0), (4, 0), (5, 1), (7, 1), (9, 2), (13, 2), (17, 3), (25, 3), (33, 4),
    (49, 4), (65, 5), (97, 5), (129, 6), (193, 6), (257, 7), (385, 7), (513, 8), (769, 8),
    (1025, 9), (1537, 9), (2049, 10), (3073, 10), (4097, 11), (6145, 11), (8193, 12), (12289, 12),
    (16385, 13), (24577, 13)]

/-- A length or a distance that a letter starts. -/
def extended (table : List (Nat × Nat)) (letter : Nat) : BitReader Nat := do
  match table[letter]? with
  | some (least, width) =>
    let more ← number width
    return least + more
  | none => throw .corrupt

/-- Writes `length` bytes once more, from `distance` bytes back. What lies before the start counts
as zero. -/
def copy (distance : Nat) : Nat → Array UInt8 → Array UInt8
  | 0, out => out
  | length + 1, out =>
    let b := if distance ≤ out.size then (out[out.size - distance]?).getD 0 else 0
    copy distance length (out.push b)

/-- What one step of a block comes to. -/
inductive Item where
  | byte (value : UInt8)
  | copy (distance length : Nat)
  | blockEnd
  deriving Repr, Inhabited

/-- One letter of a block, with what it is followed by. -/
def item (letters distances : Code) : BitReader Item := do
  let letter ← letters.read
  if letter < 256 then return .byte (UInt8.ofNat letter)
  else if letter = 256 then return .blockEnd
  else
    let length ← extended copyLengths (letter - 257)
    let far ← distances.read
    let distance ← extended copyDistances far
    return .copy distance length

/-- What has been written after some bits, and the bits that follow. -/
abbrev Written := Except Fault (Array UInt8 × List Bool)

/-- The items of a block up to its end. Every item takes a bit at least, and so there are no more
items than bits. -/
def items (letters distances : Code) : Nat → Array UInt8 → List Bool → Written
  | 0, _, _ => .error .cut
  | n + 1, out, bits =>
    match (item letters distances).run bits with
    | .error fault => .error fault
    | .ok (.byte value, rest) => items letters distances n (out.push value) rest
    | .ok (.copy distance length, rest) =>
      items letters distances n (copy distance length out) rest
    | .ok (.blockEnd, rest) => .ok (out, rest)

/-- The code of letters of a block that brings no codes. -/
def fixedLetters : Code :=
  Code.ofLengths
    (List.replicate 144 8 ++ List.replicate 112 9 ++ List.replicate 24 7 ++ List.replicate 8 8)

/-- The code of distances of a block that brings no codes. -/
def fixedDistances : Code :=
  Code.ofLengths (List.replicate 32 5)

/-- The order in which the lengths of the code of lengths are written. -/
def lengthOrder : List Nat :=
  [16, 17, 18, 0, 8, 7, 9, 6, 10, 5, 11, 4, 12, 3, 13, 2, 14, 1, 15]

/-- `n` numbers of three bits. -/
def shortLengths : Nat → BitReader (List Nat)
  | 0 => return []
  | n + 1 => do
    let first ← number 3
    let more ← shortLengths n
    return first :: more

/-- The lengths of both codes of a block, given those read so far, latest first. Every step reads at
least one of those that are to come. -/
def codeLengths (lengths : Code) (total : Nat) : Nat → List Nat → BitReader (List Nat)
  | 0, so => return so.reverse
  | n + 1, so => do
    if so.length ≥ total then return so.reverse
    else
      let letter ← lengths.read
      if letter < 16 then codeLengths lengths total n (letter :: so)
      else
        let (value, least, width) ←
          match letter, so with
          | 16, last :: _ => pure (last, 3, 2)
          | 16, [] => throw .corrupt
          | 17, _ => pure (0, 3, 3)
          | _, _ => pure (0, 11, 7)
        let more ← number width
        codeLengths lengths total n (List.replicate (least + more) value ++ so)

/-- The two codes that a block brings. -/
def blockCodes : BitReader (Code × Code) := do
  let letterCount := 257 + (← number 5)
  let distanceCount := 1 + (← number 5)
  let lengthCount := 4 + (← number 4)
  if letterCount > 286 || distanceCount > 30 then throw .corrupt
  let short ← shortLengths lengthCount
  let table := lengthOrder.zip short
  let lengths ← Code.full ((List.range 19).map fun i => (table.lookup i).getD 0)
  let total := letterCount + distanceCount
  let all ← codeLengths lengths total total []
  if all.length ≠ total then throw .corrupt
  let letters ← Code.fullOrTrivial (all.take letterCount)
  let distances ← Code.fullOrTrivial (all.drop letterCount)
  return (letters, distances)

/-- The value of eight bits, low end first. -/
def byteOf (bits : List Bool) : UInt8 :=
  UInt8.ofNat (bits.foldr (fun b n => b.toNat + 2 * n) 0)

/-- Bytes as they are, as many as asked. -/
def plain : Nat → Array UInt8 → List Bool → Written
  | 0, out, bits => .ok (out, bits)
  | n + 1, out, bits =>
    let first := bits.take 8
    if first.length < 8 then .error .cut else plain n (out.push (byteOf first)) (bits.drop 8)

/-- A block of bytes as they are: it starts with a whole byte, and its length is written twice, once
with every bit turned over. -/
def plainBlock (out : Array UInt8) (bits : List Bool) : Written :=
  let lengths : BitReader Nat := do
    let length ← number 16
    let turned ← number 16
    if length + turned ≠ 0xFFFF then throw .corrupt
    return length
  match lengths.run (bits.drop (bits.length % 8)) with
  | .error fault => .error fault
  | .ok (length, rest) => plain length out rest

/-- One block, by the number of its sort. -/
def block (sort : Nat) (out : Array UInt8) (bits : List Bool) : Written :=
  let coded (codes : BitReader (Code × Code)) : Written :=
    match codes.run bits with
    | .error fault => .error fault
    | .ok ((letters, distances), rest) => items letters distances (rest.length + 1) out rest
  match sort with
  | 0 => plainBlock out bits
  | 1 => coded (return (fixedLetters, fixedDistances))
  | 2 => coded blockCodes
  | _ => .error .corrupt

/-- Blocks up to the last one. Every block takes a bit at least. -/
def blocks : Nat → Array UInt8 → List Bool → Written
  | 0, _, _ => .error .cut
  | n + 1, out, bits =>
    let head : BitReader (Bool × Nat) := do
      let last ← bit
      let sort ← number 2
      return (last, sort)
    match head.run bits with
    | .error fault => .error fault
    | .ok ((last, sort), rest) =>
      match block sort out rest with
      | .error fault => .error fault
      | .ok (out, rest) => if last then .ok (out, rest) else blocks n out rest

/-- The data that a stream stands for. -/
def inflate (data : Bytes) : Except Fault Bytes :=
  let all := bits data
  (blocks (all.length + 1) #[] all).map fun written => written.1.toList

end JarGraph.Archive.Inflate
