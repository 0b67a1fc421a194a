import JarGraph.Proofs.Walk.Policies
/-!
# How events go out

What the listeners of a walk are told, all of them together. A walk goes
through rounds: in each, one event goes to the listeners in the order in
which they were attached. An event that brings no class goes to all of
them; a class goes no further than to the first listener that refuses it
(`fannedOut_run`), so that the listeners after that one hear less than
those before it (`exists_heard_apart`).

`Serves` follows one round from listener to listener, and `Sends` puts
the rounds between two states of a walk together.
-/

namespace JarGraph.Walk

variable {σ : Type} {plan : Plan σ} {all rest : List (Listener σ)} {event : Event}
variable {s s' s'' : State σ} {first reach i : Nat}

/-- Whether an event brings a class. -/
def Event.isClass : Event → Bool
  | .classData _ _ => true
  | _ => false

namespace Listener

/-- The reaction of a listener to an event of either sort. -/
def react (l : Listener σ) (event : Event) (s : σ) : σ :=
  match event with
  | .classData progress data => (l.examine progress data s).1
  | _ => l.notice event s

/-- Whether a listener refuses an event. Only a class can be refused. -/
def refuses (l : Listener σ) (event : Event) (s : σ) : Bool :=
  match event with
  | .classData progress data => (l.examine progress data s).2.isSome
  | _ => false

theorem react_of_not_isClass (l : Listener σ) (h : event.isClass = false) (s : σ) :
    l.react event s = l.notice event s := by
  cases event with
  | classData => cases h
  | started | opened | closed | finished | failed | remark => rfl

theorem refuses_of_not_isClass (l : Listener σ) (h : event.isClass = false) (s : σ) :
    l.refuses event s = false := by
  cases event with
  | classData => cases h
  | started | opened | closed | finished | failed | remark => rfl

end Listener

/-! ## One round -/

/-- The state after the first listeners of a row have reacted to an event. -/
def afterFirst (all : List (Listener σ)) (event : Event) (count : Nat) (s : σ) : σ :=
  (all.take count).foldl (fun s l => l.react event s) s

/-- How many listeners of a row are told of an event. -/
structure Reaches (all : List (Listener σ)) (event : Event) (reach : Nat) (s : σ) : Prop where
  le_length : reach ≤ all.length
  /-- A listener is told exactly if none of those before it refuses. -/
  lt_iff : ∀ i < all.length, i < reach ↔
    ∀ j < i, ∀ l ∈ all[j]?, l.refuses event (afterFirst all event j s) = false

/-- The listeners of a row, which are numbered from some number on, are told of an event in turn. -/
structure Serves (rest : List (Listener σ)) (event : Event) (first reach : Nat)
    (s s' : State σ) : Prop where
  reaches : Reaches rest event reach s.listeners
  listeners : s'.listeners = afterFirst rest event reach s.listeners
  delivered : s'.delivered.reverse =
    s.delivered.reverse ++ (List.range' first reach).map fun i => ⟨i, event⟩

namespace Serves

theorem nil (event : Event) (first : Nat) (s : State σ) : Serves [] event first 0 s s where
  reaches := ⟨Nat.le_refl 0, nofun⟩
  listeners := rfl
  delivered := (List.append_nil _).symm

/-- The first listener of the row refuses, and nobody else is told. -/
theorem stop {l : Listener σ} (refused : l.refuses event s.listeners = true) :
    Serves (l :: rest) event first 1 s
      ⟨l.react event s.listeners, ⟨first, event⟩ :: s.delivered⟩ where
  reaches := by
    refine ⟨Nat.le_add_left 1 _, fun i _ => ⟨fun hi j hj => by omega, fun h => ?_⟩⟩
    by_contra hi
    have haccepted := h 0 (by omega) l rfl
    rw [afterFirst, List.take_zero, List.foldl_nil, refused] at haccepted
    cases haccepted
  listeners := rfl
  delivered := by simp

/-- The first listener of the row does not refuse, and the others are told after it. -/
theorem cons {l : Listener σ} (accepted : l.refuses event s.listeners = false)
    (h : Serves rest event (first + 1) reach
      ⟨l.react event s.listeners, ⟨first, event⟩ :: s.delivered⟩ s') :
    Serves (l :: rest) event first (reach + 1) s s' where
  reaches := by
    refine ⟨Nat.succ_le_succ h.reaches.le_length, fun i hi => ?_⟩
    cases i with
    | zero => exact iff_of_true (Nat.succ_pos _) fun _ hj => absurd hj (Nat.not_lt_zero _)
    | succ i =>
      -- One of the others is told if none of them before it refuses, and the first one does not.
      rw [Nat.succ_lt_succ_iff, h.reaches.lt_iff i (Nat.lt_of_succ_lt_succ hi)]
      constructor
      · intro hbefore j hj other hother
        cases j with
        | zero =>
          obtain rfl := Option.some.inj hother
          exact accepted
        | succ j => exact hbefore j (Nat.lt_of_succ_lt_succ hj) other hother
      · exact fun hbefore j hj => hbefore (j + 1) (Nat.succ_lt_succ hj)
  listeners := h.listeners
  delivered := by simp [h.delivered, List.range'_succ]

end Serves

/-- An event without a class goes to every listener. -/
theorem serves_tellFrom (h : event.isClass = false) (first : Nat) (rest : List (Listener σ))
    (s : State σ) : Serves rest event first rest.length s (s.tellFrom event first rest) := by
  induction rest generalizing first s with
  | nil => exact .nil event first s
  | cons l rest ih =>
    refine .cons (l.refuses_of_not_isClass h _) ?_
    rw [l.react_of_not_isClass h]
    exact ih (first + 1) _

/-- A class goes from listener to listener until one refuses it. -/
theorem serves_offerFrom (progress : Nat) (data : Bytes) (first : Nat) (rest : List (Listener σ))
    (s : State σ) :
    ∃ reach, Serves rest (.classData progress data) first reach s
      (s.offerFrom progress data first rest).1 := by
  induction rest generalizing first s with
  | nil => exact ⟨0, .nil _ first s⟩
  | cons l rest ih =>
    rw [State.offerFrom]
    generalize hexamine : l.examine progress data s.listeners = examined
    obtain ⟨after, refusal⟩ := examined
    have hreact : l.react (.classData progress data) s.listeners = after := by
      rw [Listener.react, hexamine]
    have hrefuses : l.refuses (.classData progress data) s.listeners = refusal.isSome := by
      rw [Listener.refuses, hexamine]
    cases refusal with
    | some cause => exact ⟨1, hreact ▸ .stop hrefuses⟩
    | none =>
      obtain ⟨reach, hreach⟩ :=
        ih (first + 1) ⟨after, ⟨first, .classData progress data⟩ :: s.delivered⟩
      exact ⟨reach + 1, .cons hrefuses (hreact ▸ hreach)⟩

/-! ## Rounds -/

/-- An event, and how many listeners were told of it. -/
structure Round where
  event : Event
  reach : Nat
  deriving DecidableEq, Repr

/-- The deliveries of a round: to its listeners, in the order in which they were attached. -/
def Round.deliveries (r : Round) : List Delivery :=
  (List.range r.reach).map fun i => ⟨i, r.event⟩

/-- The rounds that lie between two states of the listeners. Each reaches as many of them as their
answers allow. -/
inductive Rounds (all : List (Listener σ)) : σ → List Round → σ → Prop where
  | nil (s : σ) : Rounds all s [] s
  | cons {s s' : σ} {r : Round} {more : List Round} (reaches : Reaches all r.event r.reach s)
      (rest : Rounds all (afterFirst all r.event r.reach s) more s') :
      Rounds all s (r :: more) s'

theorem Rounds.append {t t' t'' : σ} {rounds more : List Round} (h : Rounds all t rounds t')
    (h' : Rounds all t' more t'') : Rounds all t (rounds ++ more) t'' := by
  induction h with
  | nil => exact h'
  | cons reaches rest ih => exact .cons reaches (ih h')

/-- The rounds that lie between two states of a walk, with all that was delivered. -/
structure Sends (all : List (Listener σ)) (rounds : List Round) (s s' : State σ) : Prop where
  made : Rounds all s.listeners rounds s'.listeners
  delivered : s'.delivered.reverse = s.delivered.reverse ++ rounds.flatMap Round.deliveries

/-- Between two states of a walk there are rounds, and nothing else. -/
def Sending (all : List (Listener σ)) (s s' : State σ) : Prop :=
  ∃ rounds, Sends all rounds s s'

theorem Sending.refl (s : State σ) : Sending all s s :=
  ⟨[], .nil _, (List.append_nil _).symm⟩

theorem Sending.trans (h : Sending all s s') (h' : Sending all s' s'') : Sending all s s'' := by
  obtain ⟨rounds, hrounds, hdelivered⟩ := h
  obtain ⟨more, hmore, hdelivered'⟩ := h'
  refine ⟨rounds ++ more, hrounds.append hmore, ?_⟩
  rw [hdelivered', hdelivered, List.flatMap_append, List.append_assoc]

theorem Serves.sending (h : Serves all event 0 reach s s') : Sending all s s' := by
  refine ⟨[⟨event, reach⟩], .cons h.reaches (h.listeners ▸ .nil _), ?_⟩
  rw [h.delivered, List.flatMap_singleton, Round.deliveries, List.range_eq_range']

/-! ## The parts of a walk -/

theorem sending_tell (h : event.isClass = false) (s : State σ) :
    Sending plan.listeners s (plan.tell event s) :=
  (serves_tellFrom h 0 plan.listeners s).sending

theorem sending_remark (message : String) (s : State σ) :
    Sending plan.listeners s (plan.remark message s) := by
  unfold Plan.remark
  split
  · exact sending_tell rfl s
  · exact .refl s

theorem sending_process {file : Path} {progress : Nat} {data : Bytes}
    {outcome : Except Error Unit} (h : plan.process file progress data s = (s', outcome)) :
    Sending plan.listeners s s' := by
  obtain ⟨reach, hserves⟩ := serves_offerFrom progress data 0 plan.listeners s
  unfold Plan.process State.offer at h
  split at h
  all_goals
    rename_i hoffer
    obtain ⟨rfl, -⟩ := Prod.mk.inj h
    rw [hoffer] at hserves
    exact hserves.sending

theorem sending_walkEntries {file : Path} {entries : List Archive.Entry}
    {total passed classes : Nat} {outcome : Except Error Nat}
    (h : plan.walkEntries file total passed classes entries s = (s', outcome)) :
    Sending plan.listeners s s' := by
  induction entries generalizing passed classes s with
  | nil =>
    obtain ⟨rfl, -⟩ := Prod.mk.inj h
    exact .refl s
  | cons entry entries ih =>
    obtain ⟨cause, -, -, rfl, -⟩ | ⟨u, -, -, hu, hrest⟩ |
      ⟨content, message, progress, cause, -, -, hprocess, -⟩ |
      ⟨content, message, progress, u, -, -, hprocess, hrest⟩ := walkEntries_cases h
    · exact .refl _
    · rcases hu with rfl | ⟨message, rfl⟩
      · exact ih hrest
      · exact (sending_remark message s).trans (ih hrest)
    · exact (sending_remark message s).trans (sending_process hprocess)
    · exact ((sending_remark message s).trans (sending_process hprocess)).trans (ih hrest)

section

variable {fs : FileSystem} {file : Path}

theorem sending_walkArchive {progress : Nat} {visited : Plan.Visited}
    (h : plan.walkArchive fs file progress s = (s', visited)) : Sending plan.listeners s s' := by
  obtain ⟨cause, -, rfl, -⟩ | ⟨data, cause, -, -, rfl, -⟩ |
    ⟨data, entries, outcome, -, -, hwalk, -⟩ := walkArchive_cases h
  · exact .refl _
  · exact .refl _
  · exact (sending_tell rfl s).trans (sending_walkEntries hwalk)

theorem sending_walkClassFile {progress : Nat} {visited : Plan.Visited}
    (h : plan.walkClassFile fs file progress s = (s', visited)) :
    Sending plan.listeners s s' := by
  obtain ⟨cause, -, rfl, -⟩ | ⟨data, done, -, hprocess, -⟩ := walkClassFile_cases h
  · exact .refl _
  · exact (sending_tell rfl s).trans (sending_process hprocess)

theorem sending_walkContainer (plan : Plan σ) (fs : FileSystem) (kind : Container) (file : Path)
    (progress : Nat) (s : State σ) :
    Sending plan.listeners s (plan.walkContainer fs kind file progress s).1 := by
  have close {walked : State σ × Plan.Visited} (h : Sending plan.listeners s walked.1) :
      Sending plan.listeners s
        (if walked.2.opened then plan.tell .closed walked.1 else walked.1) := by
    split
    · exact h.trans (sending_tell rfl _)
    · exact h
  cases kind with
  | archive => exact close (sending_walkArchive rfl)
  | classFile | other => exact close (sending_walkClassFile rfl)

theorem sending_containers (plan : Plan σ) (files : List Path) (s : State σ) :
    Sending plan.listeners s (plan.containers files s).2 := by
  induction files generalizing s with
  | nil => exact .refl s
  | cons file files ih =>
    simp only [Plan.containers]
    split
    · exact (sending_remark _ s).trans (ih _)
    · exact ih s

theorem sending_fail (plan : Plan σ) (cause : Error) (before : Summary) (s : State σ) :
    Sending plan.listeners s (plan.fail cause before s).1 := by
  unfold Plan.fail
  split
  · exact .refl s
  · exact sending_tell rfl s

theorem sending_failAll (plan : Plan σ) (failures : List Error) (before : Summary)
    (s : State σ) :
    Sending plan.listeners s (plan.failAll failures before s).1 := by
  induction failures generalizing before s with
  | nil => exact .refl s
  | cons cause failures ih =>
    have hfail := sending_fail plan cause before s
    simp only [Plan.failAll]
    split
    · rename_i hstop
      rwa [hstop] at hfail
    · rename_i hgo
      rw [hgo] at hfail
      exact hfail.trans (ih _ _)

theorem sending_walkContainers (plan : Plan σ) (fs : FileSystem) (files : List (Path × Container))
    (total passed : Nat) (before : Summary) (s : State σ) :
    Sending plan.listeners s (plan.walkContainers fs total passed before files s).1 := by
  induction files generalizing passed before s with
  | nil => exact .refl s
  | cons first files ih =>
    obtain ⟨file, kind⟩ := first
    have hwalk := sending_walkContainer plan fs kind file
      (percent (passed + 1) total) s
    simp only [Plan.walkContainers]
    split
    · rename_i hok
      rw [hok] at hwalk
      exact hwalk.trans (ih _ _ _)
    · rename_i u cause herror
      rw [herror] at hwalk
      have hfail := sending_fail plan cause before u
      split
      · rename_i hstop
        rw [hstop] at hfail
        exact hwalk.trans hfail
      · rename_i hgo
        rw [hgo] at hfail
        exact (hwalk.trans hfail).trans (ih _ _ _)

theorem sending_afterScan (plan : Plan σ) (fs : FileSystem) (files : List Path)
    (before : Summary) (s : State σ) :
    Sending plan.listeners s (plan.afterScan fs files before s).1 := by
  have hremarks := sending_containers plan files s
  have hwalk := sending_walkContainers plan fs (plan.containers files s).1
    (plan.containers files s).1.length 0 before (plan.containers files s).2
  unfold Plan.afterScan
  dsimp only
  split
  · rename_i hstop
    rw [hstop] at hwalk
    exact hremarks.trans hwalk
  · rename_i hgo
    rw [hgo] at hwalk
    exact (hremarks.trans hwalk).trans (sending_tell rfl _)

/-- **A whole walk is a row of rounds**, from before its first event. -/
theorem sending_run (plan : Plan σ) (fs : FileSystem) (source : Source) (start : σ) :
    Sending plan.listeners ⟨start, []⟩ (plan.run fs source start).1 := by
  have hstarted : Sending plan.listeners ⟨start, []⟩
      (plan.tell (.started source.base) ⟨start, []⟩) := sending_tell rfl _
  have hscan := sending_failAll plan (Plan.filesOf fs source).2 ⟨0, 0, []⟩
    (plan.tell (.started source.base) ⟨start, []⟩)
  rw [run_eq]
  split
  · rename_i hstop
    rw [hstop] at hscan
    exact hstarted.trans hscan
  · rename_i hgo
    rw [hgo] at hscan
    exact (hstarted.trans hscan).trans (sending_afterScan ..)

end

/-! ## What each listener hears -/

theorem filterMap_deliveries (r : Round) (i : Nat) :
    (r.deliveries.filterMap fun d => if d.listener = i then some d.event else none) =
      if i < r.reach then [r.event] else [] := by
  rw [Round.deliveries, List.filterMap_map]
  generalize r.reach = reach
  induction reach with
  | zero => rfl
  | succ reach ih =>
    rw [List.range_succ, List.filterMap_append, ih]
    rcases Nat.lt_trichotomy reach i with h | rfl | h
    · simp [Nat.ne_of_lt h, Nat.not_lt_of_gt h, show ¬ i < reach + 1 by omega]
    · simp
    · simp [Nat.ne_of_gt h, h, show i < reach + 1 by omega]

/-- Of some rounds a listener hears the events of those that reach it. -/
theorem filterMap_flatMap_deliveries (rounds : List Round) (i : Nat) :
    ((rounds.flatMap Round.deliveries).filterMap fun d =>
        if d.listener = i then some d.event else none) =
      (rounds.filter fun r => i < r.reach).map Round.event := by
  induction rounds with
  | nil => rfl
  | cons r rounds ih =>
    rw [List.flatMap_cons, List.filterMap_append, filterMap_deliveries, ih, List.filter_cons]
    by_cases h : i < r.reach <;> simp [h]

theorem Sends.heard {rounds : List Round} (h : Sends all rounds s s') (i : Nat) :
    s'.heard i = s.heard i ++ (rounds.filter fun r => i < r.reach).map Round.event := by
  rw [State.heard, h.delivered, List.filterMap_append, ← State.heard, filterMap_flatMap_deliveries]

/-- Where no listener refuses an event, all are told of it. -/
theorem Reaches.eq_length {t : σ} (h : Reaches all event reach t)
    (accepted : ∀ l ∈ all, ∀ u, l.refuses event u = false) : reach = all.length := by
  by_contra hne
  have hlt : reach < all.length := Nat.lt_of_le_of_ne h.le_length hne
  refine Nat.lt_irrefl reach ((h.lt_iff reach hlt).2 fun j _ l hl => ?_)
  exact accepted l (List.mem_of_getElem? hl) _

theorem Rounds.exists_reaches {t t' : σ} {rounds : List Round} (h : Rounds all t rounds t') :
    ∀ r ∈ rounds, ∃ u, Reaches all r.event r.reach u := by
  induction h with
  | nil => exact fun _ h => absurd h List.not_mem_nil
  | cons reaches rest ih => exact List.forall_mem_cons.2 ⟨⟨_, reaches⟩, ih⟩

/-- How the events of a walk went out to its listeners. -/
structure FannedOut (all : List (Listener σ)) (start : σ) (rounds : List Round)
    (s : State σ) : Prop where
  /-- Each event goes from listener to listener until one refuses it. -/
  made : Rounds all start rounds s.listeners
  /-- All of its deliveries come before those of the next event. -/
  delivered : s.delivered.reverse = rounds.flatMap Round.deliveries
  /-- A listener hears the events that reach it, and nothing else. -/
  heard : ∀ i, s.heard i = (rounds.filter fun r => i < r.reach).map Round.event
  /-- An event that brings no class reaches every listener. -/
  told : ∀ r ∈ rounds, r.event.isClass = false → r.reach = all.length
  /-- The later a listener was attached, the less it hears. -/
  fewer : ∀ i j, i ≤ j → (s.heard j).Sublist (s.heard i)
  /-- Where no listener ever refuses, each hears all events. -/
  alike : (∀ l ∈ all, ∀ event u, l.refuses event u = false) →
    ∀ i < all.length, s.heard i = rounds.map Round.event

/-- **How events go out.** Whatever the source, the files, the policy and the listeners are, and
however the walk ends, each of its events goes to the listeners in the order in which they were
attached: one that brings no class to all of them, and a class as far as to the first that refuses
it. -/
theorem fannedOut_run (plan : Plan σ) (fs : FileSystem) (source : Source) (start : σ) :
    ∃ rounds, FannedOut plan.listeners start rounds (plan.run fs source start).1 := by
  obtain ⟨rounds, hsends⟩ := sending_run plan fs source start
  have hheard (i : Nat) := hsends.heard i
  simp only [heard_start, List.nil_append] at hheard
  have hreaches := hsends.made.exists_reaches
  refine ⟨rounds, hsends.made, hsends.delivered, hheard, fun r hr hclass => ?_,
    fun i j hij => ?_, fun accepted i hi => ?_⟩
  · obtain ⟨u, hu⟩ := hreaches r hr
    exact hu.eq_length fun l _ => l.refuses_of_not_isClass hclass
  -- The rounds that reach a later listener are among those that reach an earlier one.
  · rw [hheard, hheard]
    refine (List.monotone_filter_right rounds fun r hr => ?_).map _
    simp only [decide_eq_true_eq] at hr ⊢
    omega
  · rw [hheard, List.filter_eq_self.2 fun r hr => ?_]
    obtain ⟨u, hu⟩ := hreaches r hr
    rw [hu.eq_length fun l hl => accepted l hl r.event]
    exact decide_eq_true hi

/-! ## A class that is refused -/

/-- A listener that refuses every class. -/
def refusing : Listener Unit where
  notice := fun _ s => s
  examine := fun _ _ s => (s, some .trailingBytes)

/-- A lenient walk for a listener that refuses every class and one that does nothing. -/
def refusingFirst : Plan Unit :=
  ⟨.lenient, false, [refusing, silent]⟩

/-- **Listeners do not all hear the same.** A class that the first of them refuses is not handed to
the second. -/
theorem exists_heard_apart :
    ¬ ∀ (plan : Plan Unit) (fs : FileSystem) (source : Source) (i j : Nat),
      i < plan.listeners.length → j < plan.listeners.length →
        (plan.run fs source ()).1.heard i = (plan.run fs source ()).1.heard j := by
  intro same
  have first : (refusingFirst.run oneHalfBroken (.files ⟨"bin"⟩ [⟨"bin/a.jar"⟩]) ()).1.heard 0 =
      [.started ⟨"bin"⟩, .opened 100 ⟨"bin/a.jar"⟩, .classData 50 ((halfBroken.drop 37).take 31),
        .closed, .failed ⟨"bin/a.jar"⟩ (.badClass ⟨"bin/a.jar"⟩ .trailingBytes), .finished] := by
    decide +kernel
  have second : (refusingFirst.run oneHalfBroken (.files ⟨"bin"⟩ [⟨"bin/a.jar"⟩]) ()).1.heard 1 =
      [.started ⟨"bin"⟩, .opened 100 ⟨"bin/a.jar"⟩, .closed,
        .failed ⟨"bin/a.jar"⟩ (.badClass ⟨"bin/a.jar"⟩ .trailingBytes), .finished] := by
    decide +kernel
  have equal := same refusingFirst oneHalfBroken (.files ⟨"bin"⟩ [⟨"bin/a.jar"⟩]) 0 1
    (by decide) (by decide)
  rw [first, second] at equal
  cases equal

end JarGraph.Walk
