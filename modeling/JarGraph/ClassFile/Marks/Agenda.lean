import JarGraph.ClassFile.Marks
/-!
# Annotations by an agenda

The annotations of a class, read one task after the other. A task that is taken up reads what
stands at the front and answers with the tasks that have to follow it, before those that were
waiting. Nothing bounds how deep values are nested: what a run is given is a number of tasks that it
may take up, and it has no answer if these are not enough.
-/

namespace JarGraph.ClassFile

/-- Something among annotations that is to be read. -/
inductive Task where
  /-- One annotation. -/
  | mark
  /-- One element value. -/
  | value
  /-- One element value behind its name. -/
  | namedValue
  /-- A counted list of annotations. -/
  | marks
  /-- The annotations of the parameters of a method. -/
  | parameterMarks
  deriving DecidableEq, Repr, Inhabited

/-- What it comes to when a task is taken up. -/
structure Opened where
  /-- The descriptors noted. -/
  notes : List String
  /-- The tasks that have to follow. -/
  outcome : Except Error (List Task)
  /-- The data that was not taken. -/
  rest : Bytes

namespace Opened

/-- What a read notes, and then the tasks that follow. -/
def after (first : Noting) (next : Reader (List Task)) (data : Bytes) : Opened :=
  let a := first data
  match a.outcome with
  | .error cause => ⟨a.notes, .error cause, a.rest⟩
  | .ok () =>
    let (tasks, rest) := next a.rest
    ⟨a.notes, tasks, rest⟩

end Opened

open Opened Noting

/-- As many tasks of one sort as a count says. -/
def repeated (task : Task) (count : Nat) : Reader (List Task) :=
  Reader.pure (List.replicate count task)

/-- What follows the tag of an element value. -/
def takeUpValue (pool : Pool) (tag : UInt8) : Bytes → Opened :=
  match Char.ofNat tag.toNat with
  | 'B' | 'C' | 'D' | 'F' | 'I' | 'J' | 'S' | 'Z' | 's' =>
    after done ((Reader.skip 2).bind fun () => .pure [])
  | 'e' => after (noteIndex pool) ((Reader.skip 2).bind fun () => .pure [])
  | 'c' => after (noteIndex pool) (.pure [])
  | '@' => after done (.pure [.mark])
  | '[' => after done (Reader.u2.bind fun count => repeated .value count.toNat)
  | _ => after done (.fail (.badElementTag tag))

/-- What a task reads by itself. -/
def Task.takeUp (pool : Pool) : Task → Bytes → Opened
  | mark => after (noteIndex pool) (Reader.u2.bind fun pairs => repeated namedValue pairs.toNat)
  | value => fun data =>
    match Reader.u1 data with
    | (.ok tag, rest) => takeUpValue pool tag rest
    | (.error cause, rest) => ⟨[], .error cause, rest⟩
  | namedValue => after done (Reader.u2.bind fun _name => .pure [value])
  | marks => after done (Reader.u2.bind fun count => repeated mark count.toNat)
  | parameterMarks =>
    after done (Reader.u1.bind fun parameters => repeated marks parameters.toNat)

/-- Reads some tasks with all that follows from them. No more tasks than given are taken up; there
is no answer where more would have to be. -/
def runAgenda (pool : Pool) : Nat → List Task → Bytes → Option Noted
  | _, [], data => some ⟨[], .ok (), data⟩
  | 0, _ :: _, _ => none
  | steps + 1, task :: waiting, data =>
    let a := task.takeUp pool data
    match a.outcome with
    | .error cause => some ⟨a.notes, .error cause, a.rest⟩
    | .ok tasks =>
      (runAgenda pool steps (tasks ++ waiting) a.rest).map fun b =>
        ⟨a.notes ++ b.notes, b.outcome, b.rest⟩

/-- The read of all that a task stands for. -/
def Task.read (pool : Pool) : Task → Noting
  | mark => ClassFile.mark pool
  | value => elementValue pool
  | namedValue => reading Reader.u2 fun _name => elementValue pool
  | marks => ClassFile.marks pool
  | parameterMarks => ClassFile.parameterMarks pool

end JarGraph.ClassFile
