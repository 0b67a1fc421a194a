/-!
# Bytes and UTF-8

Raw data, and what it is as a text. The characters of some bytes are read one after the other; bytes
that are part of no character give a gap, one for each longest run that starts like a character. A
text can be read strictly, where no gap may be, or leniently, where a gap becomes the replacement
character.
-/

namespace JarGraph

/-- Raw data. -/
abbrev Bytes := List UInt8

namespace Text

/-- A byte between two bounds, both included. -/
def between (low high : Nat) (b : UInt8) : Bool :=
  low ≤ b.toNat && b.toNat ≤ high

/-- The bounds of the second byte after a given first one, and how many bytes follow the first. -/
def follow (a : UInt8) : Option (Nat × Nat × Nat) :=
  let n := a.toNat
  if n < 0xC2 then none
  else if n < 0xE0 then some (1, 0x80, 0xBF)
  else if n = 0xE0 then some (2, 0xA0, 0xBF)
  else if n = 0xED then some (2, 0x80, 0x9F)
  else if n < 0xF0 then some (2, 0x80, 0xBF)
  else if n = 0xF0 then some (3, 0x90, 0xBF)
  else if n < 0xF4 then some (3, 0x80, 0xBF)
  else if n = 0xF4 then some (3, 0x80, 0x8F)
  else none

/-- The value of a group of bytes, given the bits of its first byte. -/
def groupChar (lead : Nat) (more : Bytes) : Char :=
  Char.ofNat (more.foldl (fun n b => n * 64 + b.toNat % 64) lead)

/-- The characters of some bytes, and the gaps between them. -/
def utf8Chars : Bytes → List (Option Char)
  | [] => []
  | a :: rest =>
    if a.toNat < 0x80 then some (Char.ofNat a.toNat) :: utf8Chars rest
    else
      match follow a, rest with
      | none, rest => none :: utf8Chars rest
      | some _, [] => [none]
      | some (count, low, high), b :: rest =>
        if !between low high b then none :: utf8Chars (b :: rest)
        else if count = 1 then some (groupChar (a.toNat % 32) [b]) :: utf8Chars rest
        else
          match rest with
          | [] => [none]
          | c :: rest =>
            if !between 0x80 0xBF c then none :: utf8Chars (c :: rest)
            else if count = 2 then some (groupChar (a.toNat % 16) [b, c]) :: utf8Chars rest
            else
              match rest with
              | [] => [none]
              | d :: rest =>
                if !between 0x80 0xBF d then none :: utf8Chars (d :: rest)
                else some (groupChar (a.toNat % 8) [b, c, d]) :: utf8Chars rest

/-- The text of some bytes, unless there is a gap in it. -/
def utf8? (data : Bytes) : Option String :=
  ((utf8Chars data).mapM id).map String.ofList

/-- The text of some bytes, with the replacement character for every gap. -/
def utf8Lossy (data : Bytes) : String :=
  String.ofList ((utf8Chars data).map fun c => c.getD (Char.ofNat 0xFFFD))

/-- The bytes of a text. -/
def utf8Bytes (s : String) : Bytes :=
  s.toUTF8.data.toList

end Text

end JarGraph
