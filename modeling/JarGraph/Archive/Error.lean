import JarGraph.IoError
import JarGraph.Text.Utf8
/-!
# Failures of archives

Why an archive, or an entry of it, is refused, and the fields of an archive, which have to be there.
Numbers are written with their low byte first.
-/

namespace JarGraph

namespace Bytes

/-- The number that the bytes write, low byte first. -/
def littleEndian : Bytes → Nat
  | [] => 0
  | b :: rest => b.toNat + 256 * littleEndian rest

/-- The bytes of a field: how many there are to be from which position on, if they are all there. -/
def field? (data : Bytes) (position width : Nat) : Option Bytes :=
  let part := (data.drop position).take width
  if part.length = width then some part else none

/-- The number in a field. -/
def number? (data : Bytes) (position width : Nat) : Option Nat :=
  (field? data position width).map littleEndian

end Bytes

namespace Archive

/-- Why an archive, or an entry of it, is refused. -/
inductive Error where
  /-- The file is too short for an end record. -/
  | tooShort
  /-- There is no end record. -/
  | noEndRecord
  /-- The archive is one part of several. -/
  | severalDisks
  /-- The directory lies before the start of the file, or too far behind it. -/
  | badDirectoryPlace
  /-- There is no room for the wide end record that the archive is to have. -/
  | noRoomForWideRecord
  /-- The wide end record that the archive is to have is not there. -/
  | noWideRecord
  /-- An entry of the directory does not start like one. -/
  | badDirectoryHeader
  /-- An entry's own header lies too far behind the start of the file. -/
  | headerTooFar
  /-- What an entry says of its cipher has a wrong length. -/
  | cipherLength
  /-- What an entry says of its cipher is in a form of somebody else. -/
  | cipherVendor
  /-- What an entry says of its cipher is in an unknown version of that form. -/
  | cipherVersion
  /-- The key of an entry's cipher has no known length. -/
  | cipherStrength
  /-- An entry is in cipher and says no more of it. -/
  | cipherUnknown
  /-- An entry's own header does not start like one. -/
  | badLocalHeader
  /-- An entry is encrypted. -/
  | passwordRequired
  /-- An entry is compressed in a way that is not known. -/
  | unknownMethod
  /-- The archive could not be read. -/
  | io (cause : IoError)
  deriving DecidableEq, Repr, Inhabited

/-- The words of a cause. -/
def Error.message : Error → String
  | tooShort => "invalid Zip archive: Invalid zip header"
  | noEndRecord => "invalid Zip archive: Could not find central directory end"
  | severalDisks => "unsupported Zip archive: Support for multi-disk files is not implemented"
  | badDirectoryPlace => "invalid Zip archive: Invalid central directory size or offset"
  | noRoomForWideRecord => "invalid Zip archive: File cannot contain ZIP64 central directory end"
  | noWideRecord => "invalid Zip archive: Could not find ZIP64 central directory end"
  | badDirectoryHeader => "invalid Zip archive: Invalid Central Directory header"
  | headerTooFar => "invalid Zip archive: Archive header is too large"
  | cipherLength => "unsupported Zip archive: AES extra data field has an unsupported length"
  | cipherVendor => "invalid Zip archive: Invalid AES vendor"
  | cipherVersion => "invalid Zip archive: Invalid AES vendor version"
  | cipherStrength => "invalid Zip archive: Invalid AES encryption strength"
  | cipherUnknown => "invalid Zip archive: AES encryption without AES extra data field"
  | badLocalHeader => "invalid Zip archive: Invalid local file header"
  | passwordRequired => "unsupported Zip archive: Password required to decrypt file"
  | unknownMethod => "unsupported Zip archive: Compression method not supported"
  | io cause => cause.message

/-- A number of the archive; none is there where the file ends before. -/
def number (data : Bytes) (position width : Nat) : Except Error Nat :=
  match data.number? position width with
  | some n => .ok n
  | none => .error (.io .endOfData)

/-- Bytes of the archive; none are there where the file ends before. -/
def field (data : Bytes) (position width : Nat) : Except Error Bytes :=
  match data.field? position width with
  | some part => .ok part
  | none => .error (.io .endOfData)

/-- The first number that does not fit into eight bytes. -/
def placeLimit : Nat := 0x10000000000000000

end Archive

end JarGraph
