import JarGraph.Archive.Basic
import JarGraph.Extraction
import JarGraph.Scan
/-!
# Events of a walk

What listeners are told while a walk goes through its containers, and what can go wrong on the way.
-/

namespace JarGraph.Walk

/-- Why a container fails. -/
inductive Error where
  /-- A file, or an entry of an archive, cannot be read. -/
  | unreadable (file : Path) (cause : IoError)
  /-- A file is no archive that can be read. -/
  | badArchive (file : Path) (cause : Archive.Error)
  /-- A class cannot be decoded. -/
  | badClass (file : Path) (cause : ClassFile.Error)
  /-- The starting point of a scan cannot be read. -/
  | scan (file : Path) (cause : ScanError)
  deriving DecidableEq, Repr, Inhabited

namespace Error

/-- The file at fault. -/
def file : Error → Path
  | unreadable file _ => file
  | badArchive file _ => file
  | badClass file _ => file
  | scan file _ => file

/-- The words of the failure. -/
def message : Error → String
  | unreadable file cause => "failed to read " ++ file.text ++ ": " ++ cause.message
  | badArchive file cause => "failed to read archive " ++ file.text ++ ": " ++ cause.message
  | badClass file cause => "failed to decode class in " ++ file.text ++ ": " ++ cause.message
  | scan file cause => "failed to enumerate " ++ file.text ++ ": " ++ cause.message

end Error

/-- What a listener is told. Progress is a percentage: of the containers when one is opened, of its
entries when a class is handed over. -/
inductive Event where
  | started (base : Path)
  | opened (progress : Nat) (file : Path)
  | classData (progress : Nat) (data : Bytes)
  | closed
  | finished
  | failed (file : Path) (cause : Error)
  /-- A remark, made in debug mode only. -/
  | remark (message : String)
  deriving DecidableEq, Repr, Inhabited

/-- What reacts to the events of a walk, on a state that all listeners of the walk share. Only the
answer to a class can be a refusal. -/
structure Listener (σ : Type) where
  /-- The reaction to an event that brings no class. -/
  notice : Event → σ → σ
  /-- The reaction to a class. -/
  examine : Nat → Bytes → σ → σ × Option ClassFile.Error

/-- An event and the number of the listener that it went to. -/
structure Delivery where
  listener : Nat
  event : Event
  deriving DecidableEq, Repr, Inhabited

/-- The state of a walk: that of the listeners, and what was delivered so far, latest first. -/
structure State (σ : Type) where
  listeners : σ
  delivered : List Delivery

namespace State

variable {σ : Type}

/-- Tells all listeners of an event, from a number on. -/
def tellFrom (event : Event) : Nat → List (Listener σ) → State σ → State σ
  | _, [], s => s
  | i, l :: more, s =>
    tellFrom event (i + 1) more ⟨l.notice event s.listeners, ⟨i, event⟩ :: s.delivered⟩

/-- Tells all listeners of an event, in the order in which they were attached. -/
def tell (all : List (Listener σ)) (event : Event) (s : State σ) : State σ :=
  tellFrom event 0 all s

/-- Hands a class to the listeners from a number on, up to the first that refuses it. -/
def offerFrom (progress : Nat) (data : Bytes) :
    Nat → List (Listener σ) → State σ → State σ × Option ClassFile.Error
  | _, [], s => (s, none)
  | i, l :: more, s =>
    let (after, refusal) := l.examine progress data s.listeners
    let s := ⟨after, ⟨i, .classData progress data⟩ :: s.delivered⟩
    match refusal with
    | some cause => (s, some cause)
    | none => offerFrom progress data (i + 1) more s

/-- Hands a class to the listeners, in the order in which they were attached. -/
def offer (all : List (Listener σ)) (progress : Nat) (data : Bytes) (s : State σ) :
    State σ × Option ClassFile.Error :=
  offerFrom progress data 0 all s

end State

end JarGraph.Walk
