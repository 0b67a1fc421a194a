import JarGraph.ClassFile.Reader
import JarGraph.Text.Utf8
/-!
# Modified UTF-8

The text constants of a class file are sequences of 16-bit units, each written in one, two or three
bytes: the unit zero takes two bytes, and so no byte of a text is zero; a character outside the
basic plane is two units and so six bytes. A unit that is half of no pair becomes the replacement
character. Where every unit takes one byte, the bytes are UTF-8 as well and are read as such.
-/

namespace JarGraph.ClassFile.ModifiedUtf8

/-- The second and third byte of a group. -/
def isContinuation (b : UInt8) : Bool :=
  0x80 ≤ b.toNat && b.toNat < 0xC0

/-- The low six bits of a continuation byte. -/
def payload (b : UInt8) : Nat :=
  b.toNat % 64

/-- The units that the bytes stand for; nothing if the bytes do not split into groups. -/
def units? : Bytes → Option (List UInt16)
  | [] => some []
  | a :: rest =>
    if a.toNat < 0x80 then
      if a.toNat = 0 then none
      else (units? rest).map (UInt16.ofNat a.toNat :: ·)
    else if 0xC0 ≤ a.toNat && a.toNat < 0xE0 then
      match rest with
      | b :: rest =>
        if isContinuation b then
          (units? rest).map (UInt16.ofNat (a.toNat % 32 * 64 + payload b) :: ·)
        else none
      | [] => none
    else if 0xE0 ≤ a.toNat && a.toNat < 0xF0 then
      match rest with
      | b :: c :: rest =>
        if isContinuation b && isContinuation c then
          (units? rest).map
            (UInt16.ofNat (a.toNat % 16 * 4096 + payload b * 64 + payload c) :: ·)
        else none
      | _ => none
    else none

/-- The character that stands for half a pair. -/
def replacement : Char := Char.ofNat 0xFFFD

/-- The first half of a pair of units. -/
def isHigh (u : UInt16) : Bool :=
  0xD800 ≤ u.toNat && u.toNat < 0xDC00

/-- The second half of a pair of units. -/
def isLow (u : UInt16) : Bool :=
  0xDC00 ≤ u.toNat && u.toNat < 0xE000

/-- The character of a pair of units. -/
def joined (high low : UInt16) : Char :=
  Char.ofNat (0x10000 + (high.toNat - 0xD800) * 1024 + (low.toNat - 0xDC00))

/-- The characters of a sequence of units; half a pair becomes the replacement character. -/
def chars : List UInt16 → List Char
  | [] => []
  | u :: rest =>
    if isHigh u then
      match rest with
      | v :: rest =>
        if isLow v then joined u v :: chars rest else replacement :: chars (v :: rest)
      | [] => [replacement]
    else if isLow u then replacement :: chars rest
    else Char.ofNat u.toNat :: chars rest

/-- A byte that is a group of its own. -/
def isPlain (b : UInt8) : Bool :=
  b.toNat != 0 && b.toNat < 0x80

/-- The text of plain bytes. -/
def decodePlain (data : Bytes) : Except Error String :=
  match Text.utf8? data with
  | some text => .ok text
  | none => .error .badModifiedUtf8

/-- The text of groups of any length. -/
def decodeGroups (data : Bytes) : Except Error String :=
  match units? data with
  | some units => .ok (String.ofList (chars units))
  | none => .error .badModifiedUtf8

/-- The text of a constant. -/
def decode (data : Bytes) : Except Error String :=
  if data.all isPlain then decodePlain data else decodeGroups data

/-- The bytes of one unit. -/
def encodeUnit (u : UInt16) : Bytes :=
  let n := u.toNat
  if 0 < n && n < 0x80 then [UInt8.ofNat n]
  else if n < 0x800 then [UInt8.ofNat (0xC0 + n / 64), UInt8.ofNat (0x80 + n % 64)]
  else
    [UInt8.ofNat (0xE0 + n / 4096), UInt8.ofNat (0x80 + n / 64 % 64), UInt8.ofNat (0x80 + n % 64)]

/-- The bytes of a sequence of units. -/
def encode (units : List UInt16) : Bytes :=
  units.flatMap encodeUnit

end JarGraph.ClassFile.ModifiedUtf8
