import JarGraph.Proofs.Walk.Feeding
import JarGraph.Walk.Transcript
/-!
# What a listener hears

The events that one listener is told of while a walk deals with one
container (`hears_walkContainer`): none, where the container cannot be
opened, and else its opening, what happens to its classes, and its
closing, whatever breaks in between.

`Hears` says what one listener was told between two states. A class goes
to the listeners in turn up to the first that refuses it, so that of a
container that breaks some listeners may hear less than others; of one
that is walked to its end each hears all.
-/

namespace JarGraph.Walk

variable {σ : Type} {plan : Plan σ} {fs : FileSystem} {file : Path} {listener : Nat}
variable {s s' s'' : State σ} {events more : List Event}

/-! ## One event -/

/-- What one listener was told between two states. -/
def Hears (listener : Nat) (s : State σ) (events : List Event) (s' : State σ) : Prop :=
  s'.heard listener = s.heard listener ++ events

namespace Hears

theorem refl (s : State σ) : Hears listener s [] s :=
  (List.append_nil _).symm

theorem trans (h : Hears listener s events s') (h' : Hears listener s' more s'') :
    Hears listener s (events ++ more) s'' := by
  unfold Hears at *
  rw [h', h, List.append_assoc]

end Hears

theorem heard_cons (after : σ) (d : Delivery) (s : State σ) :
    State.heard ⟨after, d :: s.delivered⟩ listener =
      s.heard listener ++ if d.listener = listener then [d.event] else [] := by
  by_cases h : d.listener = listener <;> simp [State.heard, List.filterMap_append, h]

theorem heard_tellFrom (listener : Nat) (event : Event) (first : Nat) (all : List (Listener σ))
    (s : State σ) :
    (s.tellFrom event first all).heard listener =
      s.heard listener ++
        if first ≤ listener ∧ listener < first + all.length then [event] else [] := by
  induction all generalizing first s with
  | nil =>
    have hout : ¬ (first ≤ listener ∧ listener < first + ([] : List (Listener σ)).length) := by
      simp
    rw [if_neg hout, List.append_nil]
    rfl
  | cons l all ih =>
    rw [State.tellFrom, ih, heard_cons, List.append_assoc]
    congr 1
    rw [List.length_cons]
    rcases Nat.lt_trichotomy first listener with h | rfl | h
    · rw [if_neg (Nat.ne_of_lt h), List.nil_append]
      exact if_congr (by omega) rfl rfl
    · rw [if_pos rfl, if_neg (by omega), if_pos (by omega), List.append_nil]
    · rw [if_neg (Nat.ne_of_gt h), if_neg (by omega), if_neg (by omega), List.append_nil]

/-- **Every listener is told of an event** that brings no class. -/
theorem hears_tell (hl : listener < plan.listeners.length) (event : Event) (s : State σ) :
    Hears listener s [event] (plan.tell event s) := by
  have h := heard_tellFrom listener event 0 plan.listeners s
  rwa [if_pos (by omega)] at h

/-- A class goes to the listeners in turn, and to no more of them after the first that refuses. -/
theorem heard_offerFrom (listener progress : Nat) (data : Bytes) (first : Nat)
    (all : List (Listener σ)) (s : State σ) :
    ∃ events, Hears listener s events (s.offerFrom progress data first all).1 ∧
      (events = [] ∨ first ≤ listener ∧ events = [.classData progress data]) ∧
      ((s.offerFrom progress data first all).2 = none → first ≤ listener →
        listener < first + all.length → events = [.classData progress data]) := by
  induction all generalizing first s with
  | nil => exact ⟨[], .refl s, .inl rfl, fun _ _ h => by simp at h; omega⟩
  | cons l all ih =>
    rw [State.offerFrom]
    obtain ⟨after, refusal⟩ := l.examine progress data s.listeners
    have hone : Hears listener s (if first = listener then [.classData progress data] else [])
        ⟨after, ⟨first, .classData progress data⟩ :: s.delivered⟩ := heard_cons ..
    cases refusal with
    | some cause =>
      refine ⟨_, hone, ?_, by rintro ⟨⟩⟩
      split
      · exact .inr ⟨by omega, rfl⟩
      · exact .inl rfl
    | none =>
      obtain ⟨events, hevents, hall, hnone⟩ := ih (first + 1)
        ⟨after, ⟨first, .classData progress data⟩ :: s.delivered⟩
      refine ⟨_, hone.trans hevents, ?_, fun h hle hlt => ?_⟩
      · rcases hall with rfl | ⟨hle, rfl⟩
        · split
          · exact .inr ⟨by omega, rfl⟩
          · exact .inl rfl
        · rw [if_neg (by omega)]
          exact .inr ⟨by omega, rfl⟩
      · rw [List.length_cons] at hlt
        by_cases hfirst : first = listener
        -- The listeners after this one have heard of the class, this one has not again.
        · obtain rfl : events = [] := hall.resolve_right (by omega)
          rw [if_pos hfirst, List.append_nil]
        · rw [if_neg hfirst, hnone h (by omega) (by omega), List.nil_append]

/-! ## An open container -/

/-- The data of the classes among some details. -/
def handed (details : List Detail) : List Bytes :=
  details.filterMap fun
    | .classData _ data => some data
    | .remark _ => none

/-- The details that one listener was told between two states, with remarks in debug mode only. -/
structure Overhears (plan : Plan σ) (listener : Nat) (s : State σ) (details : List Detail)
    (s' : State σ) : Prop where
  hears : Hears listener s (details.map Detail.event) s'
  quiet : plan.debug = false → ∀ message, .remark message ∉ details

namespace Overhears

variable {details others : List Detail}

theorem refl (s : State σ) : Overhears plan listener s [] s :=
  ⟨.refl s, fun _ _ => List.not_mem_nil⟩

theorem trans (h : Overhears plan listener s details s')
    (h' : Overhears plan listener s' others s'') :
    Overhears plan listener s (details ++ others) s'' := by
  refine ⟨?_, fun hdebug message => ?_⟩
  · rw [List.map_append]
    exact h.hears.trans h'.hears
  · rw [List.mem_append, not_or]
    exact ⟨h.quiet hdebug message, h'.quiet hdebug message⟩

end Overhears

/-- A remark is heard in debug mode, and in it only. -/
theorem hears_remark (hl : listener < plan.listeners.length) (message : String) (s : State σ) :
    Hears listener s (if plan.debug then [.remark message] else []) (plan.remark message s) := by
  unfold Plan.remark
  split
  · exact hears_tell hl _ s
  · exact .refl s

theorem overhears_remark (hl : listener < plan.listeners.length) (message : String)
    (s : State σ) :
    ∃ details, Overhears plan listener s details (plan.remark message s) ∧
      handed details = [] := by
  have h := hears_remark hl message s
  cases hdebug : plan.debug with
  | false =>
    rw [hdebug] at h
    exact ⟨[], ⟨h, fun _ _ => List.not_mem_nil⟩, rfl⟩
  | true =>
    rw [hdebug] at h
    exact ⟨[.remark message], ⟨h, fun hfalse => by simp [hdebug] at hfalse⟩, rfl⟩

/-- A class that nobody refuses is handed to every listener. -/
theorem overhears_process (hl : listener < plan.listeners.length) {progress : Nat} {data : Bytes}
    {outcome : Except Error Unit} (h : plan.process file progress data s = (s', outcome)) :
    ∃ details, Overhears plan listener s details s' ∧
      (outcome = .ok () → handed details = [data]) ∧
      ∀ cause, outcome = .error cause → cause.file = file := by
  obtain ⟨events, hevents, hall, hnone⟩ :=
    heard_offerFrom listener progress data 0 plan.listeners s
  simp only [Plan.process, State.offer] at h
  generalize s.offerFrom progress data 0 plan.listeners = offered at *
  obtain ⟨after, refusal⟩ := offered
  have hdetails : ∃ details, Overhears plan listener s details after ∧
      (refusal = none → handed details = [data]) := by
    rcases hall with rfl | ⟨-, rfl⟩
    · refine ⟨[], ⟨hevents, fun _ _ => List.not_mem_nil⟩, fun hrefusal => ?_⟩
      cases hnone hrefusal (by omega) (by omega)
    · exact ⟨[.classData progress data], ⟨hevents, fun _ _ => by simp⟩, fun _ => rfl⟩
  obtain ⟨details, hover, hhanded⟩ := hdetails
  cases refusal with
  | some cause =>
    obtain ⟨rfl, rfl⟩ := Prod.mk.inj h
    refine ⟨details, hover, by rintro ⟨⟩, ?_⟩
    rintro _ ⟨⟩
    rfl
  | none =>
    obtain ⟨rfl, rfl⟩ := Prod.mk.inj h
    exact ⟨details, hover, fun _ => hhanded rfl, fun _ h => by cases h⟩

/-- What a listener hears of the entries of an archive that are left, given how many classes were
handed over before, and how that goes. -/
structure Presents (plan : Plan σ) (listener : Nat) (file : Path) (entries : List Archive.Entry)
    (classes : Nat) (s : State σ) (details : List Detail) (outcome : Except Error Nat)
    (s' : State σ) : Prop where
  overhears : Overhears plan listener s details s'
  ok : ∀ n, outcome = .ok n →
    handed details = Archive.classesOf entries ∧ n = classes + (handed details).length
  error : ∀ cause, outcome = .error cause → cause.file = file

namespace Presents

variable {entry : Archive.Entry} {entries : List Archive.Entry} {classes count : Nat}
  {details others : List Detail} {outcome : Except Error Nat}

theorem nil (s : State σ) : Presents plan listener file [] classes s [] (.ok classes) s where
  overhears := .refl s
  ok := by
    rintro n ⟨⟩
    exact ⟨rfl, rfl⟩
  error := fun _ h => by cases h

/-- An entry is passed after some details, which are the data of its class, if it is one. -/
theorem cons (hentry : Overhears plan listener s details s')
    (hclass : handed details = classData entry) (hcount : count = classes + (handed details).length)
    (h : Presents plan listener file entries count s' others outcome s'') :
    Presents plan listener file (entry :: entries) classes s (details ++ others) outcome s'' where
  overhears := hentry.trans h.overhears
  ok := by
    intro n hn
    obtain ⟨hhanded, hn⟩ := h.ok n hn
    have happend : handed (details ++ others) = handed details ++ handed others :=
      List.filterMap_append
    rw [happend, classesOf_cons, hclass, hhanded, List.length_append, ← hclass, ← hhanded]
    exact ⟨rfl, by omega⟩
  error := h.error

/-- The walk breaks off at an entry. -/
theorem stop (hentry : Overhears plan listener s details s') {cause : Error}
    (hcause : cause.file = file) :
    Presents plan listener file entries classes s details (.error cause) s' where
  overhears := hentry
  ok := fun _ h => by cases h
  error := by
    rintro _ ⟨⟩
    exact hcause

end Presents

/-- **The entries of an archive.** A walk that goes through all of them hands over all classes among
them, and counts them. -/
theorem presents_walkEntries (hl : listener < plan.listeners.length)
    {entries : List Archive.Entry} {total passed classes : Nat} {outcome : Except Error Nat}
    (h : plan.walkEntries file total passed classes entries s = (s', outcome)) :
    ∃ details, Presents plan listener file entries classes s details outcome s' := by
  induction entries generalizing passed classes s with
  | nil =>
    obtain ⟨rfl, rfl⟩ := Prod.mk.inj h
    exact ⟨[], .nil s⟩
  | cons entry entries ih =>
    obtain ⟨cause, -, hcause, rfl, rfl⟩ | ⟨u, hclass, -, hu, h⟩ |
      ⟨content, message, progress, cause, hclass, hbody, hprocess, rfl⟩ |
      ⟨content, message, progress, u, hclass, hbody, hprocess, h⟩ := walkEntries_cases h
    · exact ⟨[], .stop (.refl _) hcause⟩
    · have hpassed : ∃ details, Overhears plan listener s details u ∧ handed details = [] := by
        rcases hu with rfl | ⟨message, rfl⟩
        · exact ⟨[], .refl _, rfl⟩
        · exact overhears_remark hl message s
      obtain ⟨details, hover, hnone⟩ := hpassed
      obtain ⟨others, hothers⟩ := ih h
      refine ⟨_, .cons hover ?_ ?_ hothers⟩
      · rw [hnone, classData, hclass]
        rfl
      · rw [hnone]
        rfl
    · obtain ⟨before, hremark, -⟩ := overhears_remark hl message s
      obtain ⟨details, hover, -, herror⟩ := overhears_process hl hprocess
      exact ⟨_, .stop (hremark.trans hover) (herror cause rfl)⟩
    · obtain ⟨before, hremark, hnone⟩ := overhears_remark hl message s
      obtain ⟨details, hover, hok, -⟩ := overhears_process hl hprocess
      obtain ⟨others, hothers⟩ := ih h
      have hhanded : handed (before ++ details) = [content] := by
        rw [handed, List.filterMap_append]
        exact congrArg₂ (· ++ ·) hnone (hok rfl)
      refine ⟨_, .cons (hremark.trans hover) ?_ ?_ hothers⟩
      · rw [hhanded]
        simp [classData, hclass, hbody, Archive.Body.content?]
      · rw [hhanded]
        rfl

/-! ## One container -/

/-- What a listener heard of a container while a walk dealt with it, and how that went. -/
structure Visits (plan : Plan σ) (fs : FileSystem) (file : Path) (progress : Nat)
    (opening : Option Opening) (outcome : Except Error Nat) : Prop where
  progress : ∀ o ∈ opening, o.progress = progress
  quiet : plan.debug = false → ∀ o ∈ opening, ∀ message, .remark message ∉ o.details
  /-- A container that is walked to its end was opened, and its classes were handed over. -/
  ok : ∀ n, outcome = .ok n →
    ∃ o ∈ opening, handed o.details = fs.classesIn file ∧ n = (handed o.details).length
  error : ∀ cause, outcome = .error cause → cause.file = file

/-- A container that cannot be opened. -/
theorem Visits.closed {progress : Nat} {cause : Error} (h : cause.file = file) :
    Visits plan fs file progress none (.error cause) where
  progress := nofun
  quiet := nofun
  ok := nofun
  error := by
    rintro _ ⟨⟩
    exact h

/-- A container that is opened. -/
theorem Overhears.visits {details : List Detail} {outcome : Except Error Nat}
    (h : Overhears plan listener s details s') (progress : Nat)
    (ok : ∀ n, outcome = .ok n →
      handed details = fs.classesIn file ∧ n = (handed details).length)
    (error : ∀ cause, outcome = .error cause → cause.file = file) :
    Visits plan fs file progress (some ⟨progress, details⟩) outcome where
  progress := by
    rintro _ ⟨⟩
    rfl
  quiet := by
    rintro hdebug _ ⟨⟩
    exact h.quiet hdebug
  ok := fun n hn => ⟨_, rfl, ok n hn⟩
  error := error

/-- What is heard of a container from its opening to its closing. -/
theorem hears_openEvents (hl : listener < plan.listeners.length) {progress : Nat}
    {details : List Detail}
    (h : Overhears plan listener (plan.tell (.opened progress file) s) details s') :
    Hears listener s (Episode.openEvents file ⟨progress, details⟩) (plan.tell .closed s') :=
  ((hears_tell hl _ s).trans h.hears).trans (hears_tell hl _ s')

theorem hears_walkArchive (hl : listener < plan.listeners.length)
    (hkind : Container.ofPath file = .archive) {progress : Nat} {visited : Plan.Visited}
    (h : plan.walkArchive fs file progress s = (s', visited)) :
    ∃ opening, Hears listener s (opening.elim [] (Episode.openEvents file))
        (if visited.opened then plan.tell .closed s' else s') ∧
      Visits plan fs file progress opening visited.classes := by
  obtain ⟨cause, -, rfl, rfl⟩ | ⟨data, cause, -, -, rfl, rfl⟩ |
    ⟨data, entries, outcome, hdata, hentries, hwalk, rfl⟩ := walkArchive_cases h
  · exact ⟨none, .refl _, .closed rfl⟩
  · exact ⟨none, .refl _, .closed rfl⟩
  · obtain ⟨details, hover, hok, herror⟩ := presents_walkEntries hl hwalk
    refine ⟨some ⟨progress, details⟩, hears_openEvents hl hover,
      hover.visits progress (fun n hn => ?_) herror⟩
    obtain ⟨hhanded, hn⟩ := hok n hn
    have hclasses : fs.classesIn file = Archive.classesOf entries := by
      simp only [FileSystem.classesIn, hkind, hdata, hentries, Archive.classesOf]
    rw [Nat.zero_add] at hn
    exact ⟨by rw [hhanded, hclasses], hn⟩

theorem hears_walkClassFile (hl : listener < plan.listeners.length)
    (hkind : Container.ofPath file = .classFile) {progress : Nat} {visited : Plan.Visited}
    (h : plan.walkClassFile fs file progress s = (s', visited)) :
    ∃ opening, Hears listener s (opening.elim [] (Episode.openEvents file))
        (if visited.opened then plan.tell .closed s' else s') ∧
      Visits plan fs file progress opening visited.classes := by
  obtain ⟨cause, -, rfl, rfl⟩ | ⟨data, done, hdata, hprocess, rfl⟩ := walkClassFile_cases h
  · exact ⟨none, .refl _, .closed rfl⟩
  · obtain ⟨details, hover, hok, herror⟩ := overhears_process hl hprocess
    refine ⟨some ⟨progress, details⟩, hears_openEvents hl hover,
      hover.visits progress (fun n hn => ?_) fun cause hcause => ?_⟩
    · have hclasses : fs.classesIn file = [data] := by
        simp only [FileSystem.classesIn, hkind, mapFile_of_readFile hdata]
      cases done with
      | error cause => cases hn
      | ok =>
        obtain rfl : 1 = n := Except.ok.inj hn
        rw [hok rfl, hclasses]
        exact ⟨rfl, rfl⟩
    · cases done with
      | error c =>
        obtain rfl : c = cause := Except.error.inj hcause
        exact herror c rfl
      | ok => cases hcause

/-- **A container is opened and closed again, or neither.** Whatever breaks in between, it is closed
before its failure is dealt with. -/
theorem hears_walkContainer (hl : listener < plan.listeners.length)
    (hkind : Container.ofPath file ≠ .other) {progress : Nat} {outcome : Except Error Nat}
    (h : plan.walkContainer fs (Container.ofPath file) file progress s = (s', outcome)) :
    ∃ opening, Hears listener s (opening.elim [] (Episode.openEvents file)) s' ∧
      Visits plan fs file progress opening outcome := by
  unfold Plan.walkContainer at h
  obtain ⟨rfl, rfl⟩ := Prod.mk.inj h
  cases hfile : Container.ofPath file with
  | other => exact absurd hfile hkind
  | archive => exact hears_walkArchive hl hfile rfl
  | classFile => exact hears_walkClassFile hl hfile rfl

end JarGraph.Walk
