import JarGraph.Proofs.Walk.Transcript
/-!
# Strict and lenient walks

Two walks over the same containers that differ in their policy alone agree
up to the first failure (`strict_run`). The policy is read only where a
failure is dealt with, so that one container comes to the same under both;
`Compared` says how parts of the two walks stand to each other, from a
state that both are in: they come to the same without a failure, or the
strict one ends with the failure that the lenient one tells of next.
-/

namespace JarGraph.Walk

variable {σ : Type} {plan : Plan σ} {policy : Policy} {fs : FileSystem}
variable {s s' s'' : State σ}

/-- Whether an event tells of a failure. -/
def Event.isFailure : Event → Bool
  | .failed _ _ => true
  | _ => false

/-- The events before the first that tells of a failure. -/
def beforeFailure (events : List Event) : List Event :=
  events.takeWhile fun e => !e.isFailure

/-- The plan under another policy. -/
def Plan.under (plan : Plan σ) (policy : Policy) : Plan σ :=
  { plan with policy }

/-! ## What does not read the policy -/

@[simp]
theorem tell_under : (plan.under policy).tell = plan.tell :=
  rfl

@[simp]
theorem remark_under : (plan.under policy).remark = plan.remark :=
  rfl

@[simp]
theorem process_under : (plan.under policy).process = plan.process :=
  rfl

theorem walkEntries_under (file : Path) (total passed classes : Nat)
    (entries : List Archive.Entry) (s : State σ) :
    (plan.under policy).walkEntries file total passed classes entries s =
      plan.walkEntries file total passed classes entries s := by
  induction entries generalizing passed classes s with
  | nil => rfl
  | cons entry entries ih => simp only [Plan.walkEntries, ih, remark_under, process_under]

theorem walkArchive_under (file : Path) (progress : Nat) (s : State σ) :
    (plan.under policy).walkArchive fs file progress s =
      plan.walkArchive fs file progress s := by
  unfold Plan.walkArchive
  simp only [walkEntries_under, tell_under]

theorem walkClassFile_under (file : Path) (progress : Nat) (s : State σ) :
    (plan.under policy).walkClassFile fs file progress s =
      plan.walkClassFile fs file progress s :=
  rfl

/-- One container comes to the same under every policy. -/
@[simp]
theorem walkContainer_under (kind : Container) (file : Path) (progress : Nat) (s : State σ) :
    (plan.under policy).walkContainer fs kind file progress s =
      plan.walkContainer fs kind file progress s := by
  unfold Plan.walkContainer
  simp only [walkArchive_under, walkClassFile_under, tell_under]

@[simp]
theorem containers_under (files : List Path) (s : State σ) :
    (plan.under policy).containers files s = plan.containers files s := by
  induction files generalizing s with
  | nil => rfl
  | cons file files ih => simp only [Plan.containers, ih, remark_under]

/-! ## Parts without a failure -/

/-- No listener heard of a failure between two states. -/
def Quiet (plan : Plan σ) (s s' : State σ) : Prop :=
  ∀ listener < plan.listeners.length,
    ∃ events, Hears listener s events s' ∧ ∀ e ∈ events, e.isFailure = false

namespace Quiet

theorem refl (s : State σ) : Quiet plan s s := fun _ _ =>
  ⟨[], .refl s, fun _ h => absurd h List.not_mem_nil⟩

theorem trans (h : Quiet plan s s') (h' : Quiet plan s' s'') : Quiet plan s s'' := by
  intro listener hl
  obtain ⟨events, hevents, hnone⟩ := h listener hl
  obtain ⟨more, hmore, hnone'⟩ := h' listener hl
  exact ⟨events ++ more, hevents.trans hmore, fun e he =>
    (List.mem_append.1 he).elim (hnone e) (hnone' e)⟩

end Quiet

theorem Hears.isPrefix {listener : Nat} {events : List Event} (h : Hears listener s events s') :
    s.heard listener <+: s'.heard listener :=
  ⟨events, h.symm⟩

theorem quiet_tell {event : Event} (h : event.isFailure = false) (s : State σ) :
    Quiet plan s (plan.tell event s) := fun _ hl =>
  ⟨[event], hears_tell hl event s, List.forall_mem_singleton.2 h⟩

theorem quiet_containers (files : List Path) (s : State σ) :
    Quiet plan s (plan.containers files s).2 := by
  intro listener hl
  obtain ⟨remarks, hremarks, -⟩ := hears_containers hl files s
  refine ⟨_, hremarks, fun e he => ?_⟩
  obtain ⟨message, -, rfl⟩ := List.mem_map.1 he
  rfl

theorem isFailure_of_mem_openEvents {file : Path} {o : Opening} {e : Event}
    (h : e ∈ Episode.openEvents file o) : e.isFailure = false := by
  rcases List.mem_append.1 h with h | h
  · rcases List.mem_cons.1 h with rfl | h
    · rfl
    · obtain ⟨detail, -, rfl⟩ := List.mem_map.1 h
      cases detail <;> rfl
  · rw [List.mem_singleton.1 h]
    rfl

/-- The failure of a container is dealt with after it, and not told of by its walk. -/
theorem quiet_walkContainer {file : Path} (hkind : Container.ofPath file ≠ .other)
    {progress : Nat} {outcome : Except Error Nat}
    (h : plan.walkContainer fs (Container.ofPath file) file progress s = (s', outcome)) :
    Quiet plan s s' := by
  intro listener hl
  obtain ⟨opening, hopening, -⟩ := hears_walkContainer hl hkind h
  refine ⟨_, hopening, fun e he => ?_⟩
  cases opening with
  | none => exact absurd he List.not_mem_nil
  | some o => exact isFailure_of_mem_openEvents he

/-! ## Two walks from one state -/

/-- How a part of a strict walk stands to the same part of a lenient one, from a state and a summary
that both have come to. -/
inductive Compared (plan : Plan σ) (s : State σ) (before : Summary) :
    State σ × Except Error Summary → State σ × Except Error Summary → Prop where
  /-- Nothing fails, and both come to the same. -/
  | together {u : State σ} {after : Summary} (quiet : Quiet plan s u)
      (failed : after.failed = before.failed) : Compared plan s before (u, .ok after) (u, .ok after)
  /-- The strict walk ends with a failure. The lenient one goes on from there, and tells of it
  first. -/
  | apart {u v : State σ} {cause : Error} {after : Summary} (quiet : Quiet plan s u)
      (failed : before.failed ++ [cause.file] <+: after.failed)
      (heard : ∀ listener < plan.listeners.length,
        u.heard listener ++ [.failed cause.file cause] <+: v.heard listener) :
      Compared plan s before (u, .error cause) (v, .ok after)

namespace Compared

variable {before mid : Summary} {strict lenient : State σ × Except Error Summary}

/-- Something without a failure comes first. -/
theorem after (hquiet : Quiet plan s s') (hfailed : mid.failed = before.failed)
    (h : Compared plan s' mid strict lenient) : Compared plan s before strict lenient := by
  cases h with
  | together quiet failed => exact .together (hquiet.trans quiet) (failed.trans hfailed)
  | apart quiet failed heard => exact .apart (hquiet.trans quiet) (hfailed ▸ failed) heard

/-- The lenient walk always goes on, and what it had come to stays. -/
theorem goes_on (h : Compared plan s before strict lenient) :
    ∃ v after, lenient = (v, .ok after) ∧ before.failed <+: after.failed ∧
      ∀ listener < plan.listeners.length, s.heard listener <+: v.heard listener := by
  cases h with
  | together quiet failed =>
    refine ⟨_, _, rfl, failed ▸ List.prefix_rfl, fun listener hl => ?_⟩
    obtain ⟨events, hevents, -⟩ := quiet listener hl
    exact hevents.isPrefix
  | apart quiet failed heard =>
    refine ⟨_, _, rfl, (List.prefix_append _ _).trans failed, fun listener hl => ?_⟩
    obtain ⟨events, hevents, -⟩ := quiet listener hl
    exact hevents.isPrefix.trans ((List.prefix_append _ _).trans (heard listener hl))

/-- A failure: the strict walk ends, and the lenient one tells of it before anything else. -/
theorem ofFailure {cause : Error} {rest : State σ × Except Error Summary}
    (h : Compared plan (plan.tell (.failed cause.file cause) s)
      { before with failed := before.failed ++ [cause.file] } rest lenient) :
    Compared plan s before (s, .error cause) lenient := by
  obtain ⟨v, after, rfl, hfailed, hheard⟩ := h.goes_on
  refine .apart (.refl s) hfailed fun listener hl => ?_
  have htold : Hears listener s [.failed cause.file cause] _ := hears_tell hl _ s
  exact htold ▸ hheard listener hl

end Compared

/-- The failures of a scan. -/
theorem compared_failAll (plan : Plan σ) (failures : List Error) (before : Summary)
    (s : State σ) :
    Compared plan s before ((plan.under .strict).failAll failures before s)
      ((plan.under .lenient).failAll failures before s) := by
  induction failures generalizing before s with
  | nil => exact .together (.refl s) rfl
  | cons cause failures ih => exact .ofFailure (ih _ _)

/-- **A row of containers**, under both policies. -/
theorem compared_walkContainers (plan : Plan σ) (fs : FileSystem) {files : List Path}
    (hfiles : ∀ file ∈ files, Container.ofPath file ≠ .other) (total passed : Nat)
    (before : Summary) (s : State σ) :
    Compared plan s before
      ((plan.under .strict).walkContainers fs total passed before
        (files.map fun file => (file, Container.ofPath file)) s)
      ((plan.under .lenient).walkContainers fs total passed before
        (files.map fun file => (file, Container.ofPath file)) s) := by
  induction files generalizing passed before s with
  | nil => exact .together (.refl s) rfl
  | cons file files ih =>
    have hrest := ih fun f hf => hfiles f (List.mem_cons_of_mem _ hf)
    simp only [List.map_cons, Plan.walkContainers, walkContainer_under]
    generalize hwalk : plan.walkContainer fs (Container.ofPath file) file
      (percent (passed + 1) total) s = walked
    obtain ⟨u, outcome⟩ := walked
    have hquiet := quiet_walkContainer (hfiles file List.mem_cons_self) hwalk
    cases outcome with
    | ok classes =>
      refine .after hquiet ?_ (hrest (passed + 1) _ u)
      rfl
    | error cause => exact .after hquiet rfl (.ofFailure (hrest (passed + 1) _ _))

/-! ## Whole walks -/

/-- What a walk does after its scan. -/
def Plan.afterScan (plan : Plan σ) (fs : FileSystem) (files : List Path) (before : Summary)
    (s : State σ) : State σ × Except Error Summary :=
  let (found, s) := plan.containers files s
  match plan.walkContainers fs found.length 0 before found s with
  | (s, .error cause) => (s, .error cause)
  | (s, .ok summary) => (plan.tell .finished s, .ok summary)

theorem run_eq (plan : Plan σ) (fs : FileSystem) (source : Source) (start : σ) :
    plan.run fs source start =
      match plan.failAll (Plan.filesOf fs source).2 ⟨0, 0, []⟩
        (plan.tell (.started source.base) ⟨start, []⟩) with
      | (s, .error cause) => (s, .error cause)
      | (s, .ok summary) => plan.afterScan fs (fs.filesOf source) summary s := by
  have hfiles : (Plan.filesOf fs source).1 = fs.filesOf source := by cases source <;> rfl
  rw [← hfiles]
  rfl

theorem compared_afterScan (plan : Plan σ) (fs : FileSystem) (files : List Path)
    (before : Summary) (s : State σ) :
    Compared plan s before ((plan.under .strict).afterScan fs files before s)
      ((plan.under .lenient).afterScan fs files before s) := by
  have hkinds : ∀ file ∈ files.filter fun file => Container.ofPath file != .other,
      Container.ofPath file ≠ .other := fun file hf => bne_iff_ne.1 (List.mem_filter.1 hf).2
  refine .after (quiet_containers files s) rfl ?_
  have hwalk := compared_walkContainers plan fs hkinds (plan.containers files s).1.length 0
    before (plan.containers files s).2
  rw [← containers_fst plan files s] at hwalk
  simp only [Plan.afterScan, containers_under, tell_under]
  generalize (plan.under .strict).walkContainers fs _ 0 before _ _ = strict at *
  generalize (plan.under .lenient).walkContainers fs _ 0 before _ _ = lenient at *
  cases hwalk with
  | together quiet failed => exact .together (quiet.trans (quiet_tell rfl _)) failed
  | apart quiet failed heard =>
    refine .apart quiet failed fun listener hl => ?_
    exact (heard listener hl).trans (hears_tell hl .finished _).isPrefix

/-- **Whole walks**, under both policies. -/
theorem compared_run (plan : Plan σ) (fs : FileSystem) (source : Source) (start : σ) :
    Compared plan ⟨start, []⟩ ⟨0, 0, []⟩ ((plan.under .strict).run fs source start)
      ((plan.under .lenient).run fs source start) := by
  have hstarted : Quiet plan ⟨start, []⟩ (plan.tell (.started source.base) ⟨start, []⟩) :=
    quiet_tell rfl _
  have hscan := compared_failAll plan (Plan.filesOf fs source).2 ⟨0, 0, []⟩
    (plan.tell (.started source.base) ⟨start, []⟩)
  refine .after hstarted rfl ?_
  rw [run_eq, run_eq, tell_under, tell_under]
  generalize (plan.under .strict).failAll (Plan.filesOf fs source).2 ⟨0, 0, []⟩ _ = strict at *
  generalize (plan.under .lenient).failAll (Plan.filesOf fs source).2 ⟨0, 0, []⟩ _ = lenient at *
  cases hscan with
  | together quiet failed => exact .after quiet failed (compared_afterScan ..)
  | @apart u v cause before quiet failed heard =>
    -- The failure that ends the strict walk stands in the summary that the other one goes on with.
    obtain ⟨w, after, hafter, hkept, hmore⟩ :=
      (compared_afterScan plan fs (fs.filesOf source) before v).goes_on
    dsimp only
    rw [hafter]
    exact .apart quiet (failed.trans hkept) fun listener hl =>
      (heard listener hl).trans (hmore listener hl)

/-! ## What a strict walk leaves out -/

/-- How what a strict walk comes to stands to a lenient walk with a summary. -/
structure Foreshortens (listeners : Nat) (strict : State σ × Except Error Summary)
    (lenient : State σ) (summary : Summary) : Prop where
  /-- Each listener of the lenient walk is told of a failure exactly if there is one. -/
  told : ∀ listener < listeners,
    (∃ e ∈ lenient.heard listener, e.isFailure = true) ↔ summary.failed ≠ []
  /-- Without a failure both come to the same. -/
  same : summary.failed = [] → strict = (lenient, .ok summary)
  /-- Else the strict walk ends with the first failure. Its listeners have heard what those of the
  lenient walk had heard before they were told of one, which was this one. -/
  stopped : ∀ file more, summary.failed = file :: more →
    ∃ cause, strict.2 = .error cause ∧ cause.file = file ∧
      ∀ listener < listeners,
        strict.1.heard listener = beforeFailure (lenient.heard listener) ∧
        strict.1.heard listener ++ [.failed file cause] <+: lenient.heard listener

theorem beforeFailure_eq {quiet events : List Event} {cause : Error}
    (hquiet : ∀ e ∈ quiet, e.isFailure = false)
    (h : quiet ++ [.failed cause.file cause] <+: events) : beforeFailure events = quiet := by
  obtain ⟨more, rfl⟩ := h
  rw [beforeFailure, List.append_assoc, List.takeWhile_append_of_pos]
  · exact List.append_nil _
  · simpa using hquiet

/-- Two whole walks, each from before its first event. -/
theorem Compared.foreshortens {start : σ} {strict lenient : State σ × Except Error Summary}
    (h : Compared plan ⟨start, []⟩ ⟨0, 0, []⟩ strict lenient) :
    ∃ summary, lenient.2 = .ok summary ∧
      Foreshortens plan.listeners.length strict lenient.1 summary := by
  have hquiet {u : State σ} (quiet : Quiet plan ⟨start, []⟩ u) :
      ∀ listener < plan.listeners.length, ∀ e ∈ u.heard listener, e.isFailure = false := by
    intro listener hl
    obtain ⟨events, hevents, hnone⟩ := quiet listener hl
    rw [Hears, heard_start, List.nil_append] at hevents
    rwa [hevents]
  cases h with
  | together quiet failed =>
    refine ⟨_, rfl, fun listener hl => ?_, fun _ => rfl, fun file more hfile => ?_⟩
    · have hnone := hquiet quiet listener hl
      simp only [failed, ne_eq, not_true_eq_false, iff_false, not_exists, not_and]
      intro e he
      simp [hnone e he]
    · rw [failed] at hfile
      cases hfile
  | @apart u v cause after quiet failed heard =>
    obtain ⟨others, hothers⟩ := failed
    rw [List.nil_append, List.singleton_append] at hothers
    refine ⟨_, rfl, fun listener hl => ?_, fun hnone => ?_, fun file more hfile => ?_⟩
    · have hmem : Event.failed cause.file cause ∈ v.heard listener :=
        (heard listener hl).subset (List.mem_append_right _ List.mem_cons_self)
      exact iff_of_true ⟨_, hmem, rfl⟩ (hothers ▸ List.cons_ne_nil _ _)
    · rw [← hothers] at hnone
      cases hnone
    · rw [← hothers] at hfile
      obtain ⟨rfl, -⟩ := List.cons.inj hfile
      exact ⟨cause, rfl, rfl, fun listener hl =>
        ⟨(beforeFailure_eq (hquiet quiet listener hl) (heard listener hl)).symm,
          heard listener hl⟩⟩

/-- **A strict walk is a lenient one up to the first failure.** The lenient walk always comes to a
summary. Where it lists no failed file the strict walk comes to the same: the same summary, the same
listeners, and the same events. Else the strict walk ends with the first of them, and each listener
has heard what it hears of the lenient walk before that is told of its first failure. -/
theorem strict_run (plan : Plan σ) (fs : FileSystem) (source : Source) (start : σ) :
    ∃ summary, ((plan.under .lenient).run fs source start).2 = .ok summary ∧
      Foreshortens plan.listeners.length ((plan.under .strict).run fs source start)
        ((plan.under .lenient).run fs source start).1 summary :=
  (compared_run plan fs source start).foreshortens

end JarGraph.Walk
