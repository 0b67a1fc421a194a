import JarGraph.Walk.Event
/-!
# Walking containers

A walk goes through containers one after the other and hands the data of every class to its
listeners. A strict walk ends with the first failure; a lenient one tells the listeners of it and
goes on with the next container.
-/

namespace JarGraph.Walk

/-- What to do when a container fails. -/
inductive Policy where
  | strict
  | lenient
  deriving DecidableEq, Repr, Inhabited

/-- Where the containers come from. -/
inductive Source where
  /-- The files below a directory that a filter accepts. -/
  | directory (base : Path) (filter : PathFilter)
  /-- A list of files; the base is only what listeners are told. -/
  | files (base : Path) (list : List Path)
  deriving Inhabited

/-- The base that listeners are told. -/
def Source.base : Source → Path
  | directory base _ => base
  | files base _ => base

/-- What a walk comes to. -/
structure Summary where
  /-- The number of containers that were walked to their end. -/
  files : Nat
  classes : Nat
  /-- The files that failed, in order. -/
  failed : List Path
  deriving DecidableEq, Repr, Inhabited

/-- How a walk is done. -/
structure Plan (σ : Type) where
  policy : Policy
  /-- Whether listeners hear remarks. -/
  debug : Bool
  listeners : List (Listener σ)

/-- The part that is done, as a percentage. -/
def percent (done total : Nat) : Nat :=
  if total = 0 then 100 else min (done * 100 / total) 100

variable {σ : Type}

namespace Plan

/-- Tells all listeners of an event. -/
def tell (plan : Plan σ) (event : Event) (s : State σ) : State σ :=
  s.tell plan.listeners event

/-- Makes a remark, in debug mode. -/
def remark (plan : Plan σ) (message : String) (s : State σ) : State σ :=
  if plan.debug then plan.tell (.remark message) s else s

/-- Hands a class of a container to the listeners. -/
def process (plan : Plan σ) (file : Path) (progress : Nat) (data : Bytes) (s : State σ) :
    State σ × Except Error Unit :=
  match s.offer plan.listeners progress data with
  | (s, some cause) => (s, .error (.badClass file cause))
  | (s, none) => (s, .ok ())

/-- Walks the entries of an archive that are left, given how many were passed and how many classes
they held. -/
def walkEntries (plan : Plan σ) (file : Path) (total : Nat) :
    Nat → Nat → List Archive.Entry → State σ → State σ × Except Error Nat
  | _, classes, [], s => (s, .ok classes)
  | passed, classes, entry :: more, s =>
    match entry.body with
    | .refused cause => (s, .error (.badArchive file cause))
    | body =>
      if entry.isDirectory then plan.walkEntries file total (passed + 1) classes more s
      else
        match Container.ofPath ⟨entry.name⟩ with
        | .other => plan.walkEntries file total (passed + 1) classes more s
        | .archive =>
          let message :=
            "Not expanding nested archive " ++ entry.name ++ " in " ++ file.text
          plan.walkEntries file total (passed + 1) classes more (plan.remark message s)
        | .classFile =>
          match body with
          | .data content =>
            let s := plan.remark ("Processing " ++ entry.name ++ " from " ++ file.text) s
            match plan.process file (percent (passed + 1) total) content s with
            | (s, .error cause) => (s, .error cause)
            | (s, .ok ()) => plan.walkEntries file total (passed + 1) (classes + 1) more s
          | .unreadable cause => (s, .error (.unreadable file cause))
          | .refused cause => (s, .error (.badArchive file cause))

/-- What the walk of one container comes to: whether it was opened, and its classes. -/
structure Visited where
  opened : Bool
  classes : Except Error Nat

/-- Walks an archive. -/
def walkArchive (plan : Plan σ) (fs : FileSystem) (file : Path) (progress : Nat) (s : State σ) :
    State σ × Visited :=
  match fs.mapFile file with
  | .error cause => (s, ⟨false, .error (.unreadable file cause)⟩)
  | .ok data =>
    match Archive.read data with
    | .error cause => (s, ⟨false, .error (.badArchive file cause)⟩)
    | .ok entries =>
      let (s, classes) :=
        plan.walkEntries file entries.length 0 0 entries (plan.tell (.opened progress file) s)
      (s, ⟨true, classes⟩)

/-- Walks a class file. -/
def walkClassFile (plan : Plan σ) (fs : FileSystem) (file : Path) (progress : Nat) (s : State σ) :
    State σ × Visited :=
  match fs.readFile file with
  | .error cause => (s, ⟨false, .error (.unreadable file cause)⟩)
  | .ok data =>
    let (s, done) := plan.process file 100 data (plan.tell (.opened progress file) s)
    (s, ⟨true, done.map fun () => 1⟩)

/-- Walks one container from its opening to its closing. -/
def walkContainer (plan : Plan σ) (fs : FileSystem) (kind : Container) (file : Path)
    (progress : Nat) (s : State σ) : State σ × Except Error Nat :=
  let (s, visited) :=
    match kind with
    | .archive => plan.walkArchive fs file progress s
    | _ => plan.walkClassFile fs file progress s
  (if visited.opened then plan.tell .closed s else s, visited.classes)

/-- Deals with a failure as the policy says. -/
def fail (plan : Plan σ) (cause : Error) (summary : Summary) (s : State σ) :
    State σ × Except Error Summary :=
  match plan.policy with
  | .strict => (s, .error cause)
  | .lenient =>
    (plan.tell (.failed cause.file cause) s,
      .ok { summary with failed := summary.failed ++ [cause.file] })

/-- Walks the containers that are left, given how many were passed. -/
def walkContainers (plan : Plan σ) (fs : FileSystem) (total : Nat) :
    Nat → Summary → List (Path × Container) → State σ → State σ × Except Error Summary
  | _, summary, [], s => (s, .ok summary)
  | passed, summary, (file, kind) :: more, s =>
    match plan.walkContainer fs kind file (percent (passed + 1) total) s with
    | (s, .ok classes) =>
      let summary :=
        { summary with files := summary.files + 1, classes := summary.classes + classes }
      plan.walkContainers fs total (passed + 1) summary more s
    | (s, .error cause) =>
      match plan.fail cause summary s with
      | (s, .error cause) => (s, .error cause)
      | (s, .ok summary) => plan.walkContainers fs total (passed + 1) summary more s

/-- The files that are containers, with a remark on each that is none. -/
def containers (plan : Plan σ) : List Path → State σ → List (Path × Container) × State σ
  | [], s => ([], s)
  | file :: more, s =>
    match Container.ofPath file with
    | .other => plan.containers more (plan.remark ("Skipping " ++ file.text) s)
    | kind =>
      let (others, s) := plan.containers more s
      ((file, kind) :: others, s)

/-- The files of a source, and what of it cannot be read. -/
def filesOf (fs : FileSystem) : Source → List Path × List Error
  | .directory base filter =>
    let scan := fs.scan base filter
    (scan.files, scan.errors.map fun cause => .scan cause.path cause)
  | .files _ list => (list, [])

/-- Deals with failures one after the other. -/
def failAll (plan : Plan σ) : List Error → Summary → State σ → State σ × Except Error Summary
  | [], summary, s => (s, .ok summary)
  | cause :: more, summary, s =>
    match plan.fail cause summary s with
    | (s, .error cause) => (s, .error cause)
    | (s, .ok summary) => plan.failAll more summary s

/-- Walks every container of a source once. -/
def run (plan : Plan σ) (fs : FileSystem) (source : Source) (start : σ) :
    State σ × Except Error Summary :=
  let s := plan.tell (.started source.base) ⟨start, []⟩
  let (files, failures) := filesOf fs source
  match plan.failAll failures ⟨0, 0, []⟩ s with
  | (s, .error cause) => (s, .error cause)
  | (s, .ok summary) =>
    let (found, s) := plan.containers files s
    match plan.walkContainers fs found.length 0 summary found s with
    | (s, .error cause) => (s, .error cause)
    | (s, .ok summary) => (plan.tell .finished s, .ok summary)

end Plan

end JarGraph.Walk
