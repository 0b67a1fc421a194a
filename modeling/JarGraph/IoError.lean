/-!
# Failures of reading and writing

Why the operating system refuses a path, and what else can go wrong with the data of a file or of an
archive's entry.
-/

namespace JarGraph

/-- Why the operating system refuses an operation on a path. -/
inductive OsError where
  | notFound
  | alreadyThere
  | noSuchDevice
  | notADirectory
  | isADirectory
  | invalid
  | nameTooLong
  | notEmpty
  | busy
  deriving DecidableEq, Repr, Inhabited

namespace OsError

/-- The number that the operating system gives the cause. -/
def code : OsError → Nat
  | notFound => 2
  | busy => 16
  | alreadyThere => 17
  | noSuchDevice => 19
  | notADirectory => 20
  | isADirectory => 21
  | invalid => 22
  | nameTooLong => 36
  | notEmpty => 39

/-- The words that the operating system has for the cause. -/
def words : OsError → String
  | notFound => "No such file or directory"
  | busy => "Device or resource busy"
  | alreadyThere => "File exists"
  | noSuchDevice => "No such device"
  | notADirectory => "Not a directory"
  | isADirectory => "Is a directory"
  | invalid => "Invalid argument"
  | nameTooLong => "File name too long"
  | notEmpty => "Directory not empty"

/-- The words and the number of the cause. -/
def message (e : OsError) : String :=
  e.words ++ " (os error " ++ toString e.code ++ ")"

end OsError

/-- Why data could not be read or written. -/
inductive IoError where
  | os (cause : OsError)
  /-- A path holds a character that no path may hold. -/
  | badName
  /-- An empty path was to be made absolute. -/
  | emptyPath
  /-- A text is not UTF-8. -/
  | invalidText
  /-- The data ends inside an item. -/
  | endOfData
  /-- The data of an entry does not have the checksum that the archive says. -/
  | checksum
  /-- The compressed data of an entry makes no sense. -/
  | corruptStream
  /-- The compressed data of an entry stops before its end. -/
  | cutStream
  deriving DecidableEq, Repr, Inhabited

/-- The words of a failure. -/
def IoError.message : IoError → String
  | os cause => cause.message
  | badName => "file name contained an unexpected NUL byte"
  | emptyPath => "cannot make an empty path absolute"
  | invalidText => "stream did not contain valid UTF-8"
  | endOfData => "failed to fill whole buffer"
  | checksum => "Invalid checksum"
  | corruptStream => "corrupt deflate stream"
  | cutStream => "incomplete deflate stream"

end JarGraph
