import JarGraph.ClassFile.Pool
/-!
# Marks on classes and members

Reading the annotations of a class, a field or a method for the type descriptors that they name: the
type of each annotation, the types of enum constants, and class literals, nested values included.
What has been noted before a failure is kept beside the failure.
-/

namespace JarGraph.ClassFile

/-- The outcome of a read that notes descriptors on its way. -/
structure Noted where
  /-- The descriptors noted, in document order. -/
  notes : List String
  /-- Whether the read came to its end. -/
  outcome : Except Error Unit
  /-- The data that was not taken. -/
  rest : Bytes

/-- A read that notes descriptors. -/
abbrev Noting := Bytes → Noted

namespace Noting

/-- Notes nothing and takes nothing. -/
def done : Noting :=
  fun data => ⟨[], .ok (), data⟩

/-- Notes a descriptor. -/
def note (descriptor : String) : Noting :=
  fun data => ⟨[descriptor], .ok (), data⟩

/-- Two reads in a row; the second is left out when the first fails. -/
def andThen (first second : Noting) : Noting :=
  fun data =>
    let a := first data
    match a.outcome with
    | .ok () =>
      let b := second a.rest
      ⟨a.notes ++ b.notes, b.outcome, b.rest⟩
    | .error _ => a

/-- Reads an item that notes nothing, and goes on with it. -/
def reading {α : Type} (item : Reader α) (next : α → Noting) : Noting :=
  fun data =>
    match item data with
    | (.ok a, rest) => next a rest
    | (.error cause, rest) => ⟨[], .error cause, rest⟩

/-- The same read `n` times in a row. -/
def times (n : Nat) (item : Noting) : Noting :=
  match n with
  | 0 => done
  | n + 1 => andThen item (times n item)

/-- A read of given bytes, which need not take them all. -/
def within (part : Bytes) (item : Noting) : Noting :=
  fun data => { item part with rest := data }

/-- The read as a reader of the notes. -/
def toReader (item : Noting) : Reader (List String) :=
  fun data =>
    let a := item data
    match a.outcome with
    | .ok () => (.ok a.notes, a.rest)
    | .error cause => (.error cause, a.rest)

end Noting

open Noting

/-- Notes the descriptor that the next index leads to. -/
def noteIndex (pool : Pool) : Noting :=
  reading Reader.u2 fun index => reading (Reader.ofExcept (pool.utf8 index)) note

/-- One annotation, by a reader of element values: its type, and its named values. -/
def markWith (pool : Pool) (value : Noting) : Noting :=
  andThen (noteIndex pool) <|
    reading Reader.u2 fun pairs =>
      times pairs.toNat (reading Reader.u2 fun _name => value)

/-- One element value that nests no deeper than `depth`. A value takes at least one byte before it
opens another, so that data of `depth` bytes holds none that is deeper. -/
def elementValueWithin (pool : Pool) : Nat → Noting
  | 0 => reading (Reader.fail .unexpectedEnd) fun () => done
  | depth + 1 =>
    reading Reader.u1 fun tag =>
      match Char.ofNat tag.toNat with
      | 'B' | 'C' | 'D' | 'F' | 'I' | 'J' | 'S' | 'Z' | 's' =>
        reading (Reader.skip 2) fun () => done
      | 'e' => andThen (noteIndex pool) (reading (Reader.skip 2) fun () => done)
      | 'c' => noteIndex pool
      | '@' => markWith pool (elementValueWithin pool depth)
      | '[' =>
        reading Reader.u2 fun count => times count.toNat (elementValueWithin pool depth)
      | _ => reading (Reader.fail (.badElementTag tag)) fun () => done

/-- One element value. -/
def elementValue (pool : Pool) : Noting :=
  fun data => elementValueWithin pool data.length data

/-- One annotation. -/
def mark (pool : Pool) : Noting :=
  fun data => markWith pool (elementValueWithin pool data.length) data

/-- A counted list of annotations. -/
def marks (pool : Pool) : Noting :=
  reading Reader.u2 fun count => times count.toNat (mark pool)

/-- The annotations of the parameters of a method. -/
def parameterMarks (pool : Pool) : Noting :=
  reading Reader.u1 fun parameters => times parameters.toNat (marks pool)

end JarGraph.ClassFile
