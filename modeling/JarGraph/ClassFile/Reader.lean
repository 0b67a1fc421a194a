import JarGraph.ClassFile.Error
import JarGraph.Text.Utf8
/-!
# Reading bytes from the front

A reader takes bytes from the front of its data and leaves the rest, also when it fails: a failed
read of an item takes nothing of that item. Numbers are written with their high byte first.
-/

namespace JarGraph.ClassFile

/-- A reader answers with a value or a failure, and with the data it has not taken. -/
def Reader (α : Type) := Bytes → Except Error α × Bytes

namespace Reader

variable {α β : Type}

/-- Answers without taking anything. -/
def pure (a : α) : Reader α :=
  fun data => (.ok a, data)

/-- Fails without taking anything. -/
def fail (cause : Error) : Reader α :=
  fun data => (.error cause, data)

/-- Reads on from where the first reader stopped, unless it failed. -/
def bind (first : Reader α) (next : α → Reader β) : Reader β :=
  fun data =>
    match first data with
    | (.ok a, rest) => next a rest
    | (.error cause, rest) => (.error cause, rest)

instance : Monad Reader where
  pure := pure
  bind := bind

/-- An answer that is already known, or its failure. -/
def ofExcept (answer : Except Error α) : Reader α :=
  fun data => (answer, data)

/-- Splits off as many bytes as asked, if there are so many. -/
def split? : Nat → Bytes → Option (Bytes × Bytes)
  | 0, rest => some ([], rest)
  | _ + 1, [] => none
  | n + 1, b :: rest => (split? n rest).map fun halves => (b :: halves.1, halves.2)

/-- The next `n` bytes. -/
def take (n : Nat) : Reader Bytes :=
  fun data =>
    match split? n data with
    | some (taken, rest) => (.ok taken, rest)
    | none => (.error .unexpectedEnd, data)

/-- Passes over the next `n` bytes. -/
def skip (n : Nat) : Reader Unit := do
  let _ ← take n
  pure ()

/-- A number of one byte. -/
def u1 : Reader UInt8 :=
  fun data =>
    match data with
    | a :: rest => (.ok a, rest)
    | [] => (.error .unexpectedEnd, data)

/-- A number of two bytes. -/
def u2 : Reader UInt16 :=
  fun data =>
    match data with
    | a :: b :: rest => (.ok (UInt16.ofNat (a.toNat * 256 + b.toNat)), rest)
    | _ => (.error .unexpectedEnd, data)

/-- A number of four bytes. -/
def u4 : Reader UInt32 :=
  fun data =>
    match data with
    | a :: b :: c :: d :: rest =>
      (.ok (UInt32.ofNat (((a.toNat * 256 + b.toNat) * 256 + c.toNat) * 256 + d.toNat)), rest)
    | _ => (.error .unexpectedEnd, data)

/-- Reads an item `n` times in a row. -/
def times (n : Nat) (item : Reader α) : Reader (List α) :=
  match n with
  | 0 => pure []
  | n + 1 => do
    let a ← item
    let more ← times n item
    pure (a :: more)

/-- Reads an item `n` times, each time carrying on from the value before. -/
def fold (n : Nat) (item : α → Reader α) (a : α) : Reader α :=
  match n with
  | 0 => pure a
  | n + 1 => do
    let b ← item a
    fold n item b

/-- Succeeds only where no data is left. -/
def atEnd : Reader Unit :=
  fun data => (if data.isEmpty then .ok () else .error .trailingBytes, data)

/-- Reads the given bytes with `item`, which need not take them all, and leaves the outer data as it
is. -/
def within (part : Bytes) (item : Reader α) : Reader α :=
  fun data => ((item part).1, data)

end Reader

end JarGraph.ClassFile
