import JarGraph.Proofs.Walk.Hearing
import Mathlib.Algebra.Ring.Nat
/-!
# Transcripts of walks

Every walk, strict or lenient and however it ends, is to each of its
listeners a transcript (`heard_run`): the start, the failures of the
scan, one episode for each container in order, and the end where the walk
comes to one. The summary of a walk is read off the transcript. `Row` is
the invariant: it says what the episodes of the containers that are left
look like, and it grows by one episode at the front.
-/

namespace JarGraph.Walk

variable {σ : Type} {plan : Plan σ} {fs : FileSystem} {file : Path} {listener : Nat}
variable {s s' : State σ}

/-! ## Episodes -/

namespace Episode

/-- The data of the classes that the listener was handed. -/
def classes (e : Episode) : List Bytes :=
  e.opening.elim [] fun o => handed o.details

/-- An episode as a walk can bring it about. -/
structure Sound (plan : Plan σ) (e : Episode) : Prop where
  /-- Something is heard of the container: it is opened, or it fails. -/
  heard : e.opening.isSome ∨ e.failure.isSome
  file : ∀ cause ∈ e.failure, cause.file = e.file
  strict : plan.policy = .strict → e.failure = none
  quiet : plan.debug = false → ∀ o ∈ e.opening, ∀ message, .remark message ∉ o.details

theorem classCount_eq (e : Episode) : e.classCount = e.classes.length := by
  unfold classCount classes
  cases e.opening with
  | none => rfl
  | some o =>
    simp only [Option.elim_some, handed]
    induction o.details with
    | nil => rfl
    | cons d details ih => cases d <;> simp [ih]

end Episode

/-- What some episodes add to a summary. Each counts once: among the files that were walked to their
end, with all of their classes, or by its name among those that failed. -/
structure Tally (fs : FileSystem) (episodes : List Episode) (before after : Summary) : Prop where
  files : after.files = before.files + episodes.countP Episode.isWhole
  classes : after.classes = before.classes +
    ((episodes.filter Episode.isWhole).map Episode.classCount).sum
  failed : after.failed = before.failed ++
    (episodes.filter fun e => !e.isWhole).map Episode.file
  whole : ∀ e ∈ episodes, e.isWhole → e.classes = fs.classesIn e.file

namespace Tally

variable {e : Episode} {episodes : List Episode} {before between after : Summary}

theorem refl (before : Summary) : Tally fs [] before before where
  files := rfl
  classes := rfl
  failed := (List.append_nil _).symm
  whole := fun _ h => absurd h List.not_mem_nil

theorem cons (h : Tally fs [e] before between) (h' : Tally fs episodes between after) :
    Tally fs (e :: episodes) before after := by
  have hsplit : e :: episodes = [e] ++ episodes := rfl
  refine ⟨?_, ?_, ?_, ?_⟩
  · rw [h'.files, h.files, hsplit, List.countP_append, Nat.add_assoc]
  · rw [h'.classes, h.classes, hsplit, List.filter_append, List.map_append, List.sum_append,
      Nat.add_assoc]
  · rw [h'.failed, h.failed, hsplit, List.filter_append, List.map_append, List.append_assoc]
  · intro x hx
    rcases List.mem_cons.1 hx with rfl | hx
    · exact h.whole x List.mem_cons_self
    · exact h'.whole x hx

end Tally

theorem percent_le {done later total : Nat} (h : done ≤ later) :
    percent done total ≤ percent later total := by
  unfold percent
  split
  · exact Nat.le_refl _
  · have := Nat.div_le_div_right (c := total) (Nat.mul_le_mul_right 100 h)
    omega

/-- The progress of every opening among some episodes. -/
def openings (episodes : List Episode) : List Nat :=
  episodes.filterMap fun e => e.opening.map Opening.progress

/-- What a listener heard of a row of containers while a walk dealt with them, and how that went. -/
structure Row (plan : Plan σ) (fs : FileSystem) (total passed : Nat) (files : List Path)
    (before : Summary) (outcome : Except Error Summary) (episodes : List Episode) : Prop where
  order : episodes.map Episode.file <+: files
  sound : ∀ e ∈ episodes, e.Sound plan
  low : ∀ p ∈ openings episodes, percent (passed + 1) total ≤ p
  rising : (openings episodes).Pairwise (· ≤ ·)
  ok : ∀ after, outcome = .ok after →
    episodes.map Episode.file = files ∧ Tally fs episodes before after

namespace Row

variable {total passed : Nat} {files : List Path} {before between : Summary}
  {outcome : Except Error Summary} {episodes : List Episode}

theorem nil : Row plan fs total passed [] before (.ok before) [] where
  order := List.prefix_rfl
  sound := fun _ h => absurd h List.not_mem_nil
  low := fun _ h => absurd h List.not_mem_nil
  rising := .nil
  ok := by
    rintro _ ⟨⟩
    exact ⟨rfl, .refl before⟩

theorem cons {e : Episode} (hsound : e.Sound plan)
    (hprogress : ∀ o ∈ e.opening, o.progress = percent (passed + 1) total)
    (htally : Tally fs [e] before between)
    (h : Row plan fs total (passed + 1) files between outcome episodes) :
    Row plan fs total passed (e.file :: files) before outcome (e :: episodes) := by
  have hlow : ∀ p ∈ openings episodes, percent (passed + 1) total ≤ p := fun p hp =>
    Nat.le_trans (percent_le (Nat.le_succ _)) (h.low p hp)
  have hopenings : openings (e :: episodes) =
      (e.opening.map fun _ => percent (passed + 1) total).toList ++ openings episodes := by
    cases ho : e.opening with
    | none => simp [openings, ho]
    | some o => simp [openings, ho, hprogress o ho]
  refine ⟨?_, ?_, ?_, ?_, fun after hafter => ?_⟩
  · rw [List.map_cons]
    exact List.cons_prefix_cons.2 ⟨rfl, h.order⟩
  · intro x hx
    rcases List.mem_cons.1 hx with rfl | hx
    · exact hsound
    · exact h.sound x hx
  · rw [hopenings]
    cases e.opening with
    | none => exact hlow
    | some o => exact List.forall_mem_cons.2 ⟨Nat.le_refl _, hlow⟩
  · rw [hopenings]
    cases e.opening with
    | none => exact h.rising
    | some o => exact .cons hlow h.rising
  · obtain ⟨hfiles, hmore⟩ := h.ok after hafter
    exact ⟨by rw [List.map_cons, hfiles], htally.cons hmore⟩

end Row

/-! ## A row of containers -/

theorem Visits.isSome_of_ok {progress n : Nat} {opening : Option Opening}
    (h : Visits plan fs file progress opening (.ok n)) : opening.isSome := by
  obtain ⟨o, ho, -⟩ := h.ok n rfl
  rw [Option.mem_def.1 ho]
  rfl

/-- The episode of a container that is walked to its end. -/
theorem Visits.sound {progress n : Nat} {opening : Option Opening}
    (h : Visits plan fs file progress opening (.ok n)) :
    Episode.Sound plan ⟨file, opening, none⟩ where
  heard := .inl h.isSome_of_ok
  file := fun _ h => by cases h
  strict := fun _ => rfl
  quiet := h.quiet

theorem Visits.tally {progress n : Nat} {opening : Option Opening}
    (h : Visits plan fs file progress opening (.ok n)) (before : Summary) :
    Tally fs [⟨file, opening, none⟩] before
      { before with files := before.files + 1, classes := before.classes + n } := by
  obtain ⟨o, ho, hhanded, hn⟩ := h.ok n rfl
  obtain rfl := Option.mem_def.1 ho
  have hcount : Episode.classCount ⟨file, some o, none⟩ = n := by
    rw [Episode.classCount_eq, hn]
    rfl
  refine ⟨by simp [Episode.isWhole], ?_, by simp [Episode.isWhole], ?_⟩
  · simp [Episode.isWhole, hcount]
  · rintro _ hx -
    obtain rfl := List.mem_singleton.1 hx
    exact hhanded

/-- A failed container counts by its name. -/
theorem tally_failed {opening : Option Opening} {cause : Error} (h : cause.file = file)
    (before : Summary) :
    Tally fs [⟨file, opening, some cause⟩] before
      { before with failed := before.failed ++ [cause.file] } := by
  refine ⟨by simp [Episode.isWhole], by simp [Episode.isWhole], by simp [Episode.isWhole, h], ?_⟩
  rintro _ hx hwhole
  obtain rfl := List.mem_singleton.1 hx
  simp [Episode.isWhole] at hwhole

/-- A strict walk that ends with a container tells no more than that it was opened and closed. -/
theorem Visits.stopped {total passed : Nat} {files : List Path} {opening : Option Opening}
    {before : Summary} {cause : Error}
    (h : Visits plan fs file (percent (passed + 1) total) opening (.error cause)) :
    Row plan fs total passed (file :: files) before (.error cause)
      (opening.toList.map fun o => ⟨file, some o, none⟩) where
  order := by
    cases opening with
    | none => exact List.nil_prefix
    | some o => exact List.cons_prefix_cons.2 ⟨rfl, List.nil_prefix⟩
  sound := by
    intro e he
    obtain ⟨o, ho, rfl⟩ := List.mem_map.1 he
    obtain rfl := Option.mem_toList.1 ho
    exact ⟨.inl rfl, fun _ h => (by cases h), fun _ => rfl, h.quiet⟩
  low := by
    cases opening with
    | none => simp [openings]
    | some o => simp [openings, h.progress o rfl]
  rising := by
    cases opening <;> simp [openings]
  ok := fun _ h => by cases h

/-- **A row of containers** is heard as one episode for each. A strict walk ends with the first that
fails, of which no more is heard than that it was opened and closed. -/
theorem hears_walkContainers (hl : listener < plan.listeners.length) {files : List Path}
    (hfiles : ∀ file ∈ files, Container.ofPath file ≠ .other) {total passed : Nat}
    {before : Summary} {outcome : Except Error Summary}
    (h : plan.walkContainers fs total passed before
      (files.map fun file => (file, Container.ofPath file)) s = (s', outcome)) :
    ∃ episodes, Hears listener s (episodes.flatMap Episode.events) s' ∧
      Row plan fs total passed files before outcome episodes := by
  induction files generalizing passed before s with
  | nil =>
    obtain ⟨rfl, rfl⟩ := Prod.mk.inj h
    exact ⟨[], .refl _, .nil⟩
  | cons file files ih =>
    have hrest : ∀ f ∈ files, Container.ofPath f ≠ .other := fun f hf =>
      hfiles f (List.mem_cons_of_mem _ hf)
    simp only [List.map_cons, Plan.walkContainers] at h
    split at h
    · rename_i u n hwalk
      obtain ⟨opening, hopening, hvisits⟩ :=
        hears_walkContainer hl (hfiles file List.mem_cons_self) hwalk
      obtain ⟨episodes, hmore, hrow⟩ := ih hrest h
      refine ⟨⟨file, opening, none⟩ :: episodes, ?_,
        .cons hvisits.sound hvisits.progress (hvisits.tally before) hrow⟩
      rw [List.flatMap_cons]
      refine Hears.trans ?_ hmore
      simpa [Episode.events, Episode.failureEvents] using hopening
    · rename_i u cause hwalk
      obtain ⟨opening, hopening, hvisits⟩ :=
        hears_walkContainer hl (hfiles file List.mem_cons_self) hwalk
      have hcause := hvisits.error cause rfl
      unfold Plan.fail at h
      cases hpolicy : plan.policy with
      | strict =>
        simp only [hpolicy] at h
        obtain ⟨rfl, rfl⟩ := Prod.mk.inj h
        refine ⟨_, ?_, hvisits.stopped⟩
        cases opening with
        | none => exact hopening
        | some o => simpa [Episode.events, Episode.failureEvents] using hopening
      | lenient =>
        simp only [hpolicy] at h
        obtain ⟨episodes, hmore, hrow⟩ := ih hrest h
        refine ⟨⟨file, opening, some cause⟩ :: episodes, ?_, .cons ?_ hvisits.progress
          (tally_failed hcause before) hrow⟩
        · rw [List.flatMap_cons]
          exact (hopening.trans (hears_tell hl _ u)).trans hmore
        · refine ⟨.inr rfl, ?_, fun hstrict => ?_, hvisits.quiet⟩
          · rintro _ ⟨⟩
            exact hcause
          · rw [hpolicy] at hstrict
            cases hstrict

/-! ## A whole walk -/

/-- There is a remark on each file that is no container, in debug mode. -/
theorem hears_containers (hl : listener < plan.listeners.length) (files : List Path)
    (s : State σ) :
    ∃ remarks : List String, Hears listener s (remarks.map .remark) (plan.containers files s).2 ∧
      (plan.debug = false → remarks = []) := by
  induction files generalizing s with
  | nil => exact ⟨[], .refl s, fun _ => rfl⟩
  | cons file files ih =>
    simp only [Plan.containers]
    split
    · obtain ⟨remarks, hremarks, hquiet⟩ := ih (plan.remark ("Skipping " ++ file.text) s)
      have hfirst := hears_remark hl ("Skipping " ++ file.text) s
      cases hdebug : plan.debug with
      | false =>
        rw [hdebug] at hfirst
        exact ⟨remarks, hfirst.trans hremarks, fun _ => hquiet hdebug⟩
      | true =>
        rw [hdebug] at hfirst
        exact ⟨("Skipping " ++ file.text) :: remarks, hfirst.trans hremarks, by rintro ⟨⟩⟩
    · exact ih s

/-- The failures of a scan are heard of a lenient walk; a strict one ends with the first. -/
theorem hears_failAll (hl : listener < plan.listeners.length) {failures : List Error}
    {before : Summary} {outcome : Except Error Summary}
    (h : plan.failAll failures before s = (s', outcome)) :
    Hears listener s
        (Episode.failureEvents (if plan.policy = .strict then [] else failures)) s' ∧
      ∀ after, outcome = .ok after → after = { before with failed := before.failed ++
        (if plan.policy = .strict then [] else failures).map Error.file } := by
  induction failures generalizing before s with
  | nil =>
    obtain ⟨rfl, rfl⟩ := Prod.mk.inj h
    rw [ite_self]
    refine ⟨.refl _, ?_⟩
    rintro _ ⟨⟩
    simp
  | cons cause failures ih =>
    simp only [Plan.failAll, Plan.fail] at h
    cases hpolicy : plan.policy with
    | strict =>
      simp only [hpolicy] at h
      obtain ⟨rfl, rfl⟩ := Prod.mk.inj h
      exact ⟨.refl _, by rintro _ ⟨⟩⟩
    | lenient =>
      simp only [hpolicy] at h
      obtain ⟨hmore, hok⟩ := ih h
      rw [hpolicy] at hmore hok
      refine ⟨(hears_tell hl (.failed cause.file cause) s).trans hmore, fun after hafter => ?_⟩
      rw [hok after hafter]
      simp

/-- A walk that comes to its end is accounted for: every container of the source has its episode, and
is counted among the files if it was walked to its end, and by its name among the failed ones if
not. -/
structure Complete (fs : FileSystem) (source : Source) (t : Transcript) (summary : Summary) :
    Prop where
  containers : t.episodes.map Episode.file = fs.containersOf source
  files : summary.files = t.episodes.countP Episode.isWhole
  classes : summary.classes =
    ((t.episodes.filter Episode.isWhole).map Episode.classCount).sum
  failed : summary.failed = t.scanFailures.map Error.file ++
    (t.episodes.filter fun e => !e.isWhole).map Episode.file
  /-- Of a container that was walked to its end all classes were handed over. -/
  whole : ∀ e ∈ t.episodes, e.isWhole → e.classes = fs.classesIn e.file

/-- A transcript that a walk brings about. -/
structure Recounts (plan : Plan σ) (fs : FileSystem) (source : Source)
    (outcome : Except Error Summary) (t : Transcript) : Prop where
  base : t.base = source.base
  /-- Failures of the scan are told of by a lenient walk. -/
  scanFailures : t.scanFailures =
    if plan.policy = .strict then [] else (Plan.filesOf fs source).2
  remarks : plan.debug = false → t.remarks = []
  /-- The episodes are those of the containers, in order. -/
  order : t.episodes.map Episode.file <+: fs.containersOf source
  episodes : ∀ e ∈ t.episodes, e.Sound plan
  progress : t.progress.Pairwise (· ≤ ·)
  strict : plan.policy = .strict → t.failures = []
  finished : t.finished = true ↔ ∃ summary, outcome = .ok summary
  ok : ∀ summary, outcome = .ok summary → Complete fs source t summary

theorem failures_eq_nil {t : Transcript} (hscan : t.scanFailures = [])
    (hepisodes : ∀ e ∈ t.episodes, e.failure = none) : t.failures = [] := by
  rw [Transcript.failures, hscan, List.nil_append, List.filterMap_eq_nil_iff]
  exact hepisodes

theorem heard_start (start : σ) : State.heard ⟨start, []⟩ listener = [] :=
  rfl

/-- What is heard of the containers of a source, before a walk comes to its end or does not. -/
theorem hears_source (hl : listener < plan.listeners.length) {source : Source}
    {reported : List Error} {before : Summary} {outcome : Except Error Summary}
    (hreported : reported = if plan.policy = .strict then [] else (Plan.filesOf fs source).2)
    (hbefore : before = ⟨0, 0, reported.map Error.file⟩) {total : Nat}
    (h : plan.walkContainers fs total 0 before (plan.containers (fs.filesOf source) s).1
      (plan.containers (fs.filesOf source) s).2 = (s', outcome)) :
    ∃ remarks episodes,
      Hears listener s (remarks.map .remark ++ episodes.flatMap Episode.events) s' ∧
      ∀ finished, (finished = true ↔ ∃ summary, outcome = .ok summary) →
        Recounts plan fs source outcome ⟨source.base, reported, remarks, episodes, finished⟩ := by
  obtain ⟨remarks, hremarks, hquiet⟩ := hears_containers hl (fs.filesOf source) s
  rw [containers_fst] at h
  have hkinds : ∀ file ∈ fs.containersOf source, Container.ofPath file ≠ .other := fun file hf =>
    bne_iff_ne.1 (List.mem_filter.1 hf).2
  obtain ⟨episodes, hepisodes, hrow⟩ := hears_walkContainers hl hkinds h
  refine ⟨remarks, episodes, hremarks.trans hepisodes, fun finished hfinished => ?_⟩
  refine ⟨rfl, hreported, hquiet, hrow.order, hrow.sound, hrow.rising, fun hpolicy => ?_,
    hfinished, fun summary hsummary => ?_⟩
  · refine failures_eq_nil ?_ fun e he => (hrow.sound e he).strict hpolicy
    rw [hreported, if_pos hpolicy]
  · obtain ⟨hcontainers, htally⟩ := hrow.ok summary hsummary
    subst hbefore
    refine ⟨hcontainers, ?_, ?_, htally.failed, htally.whole⟩
    · rw [htally.files, Nat.zero_add]
    · rw [htally.classes, Nat.zero_add]

/-- **What one listener hears of a walk** is a transcript, whatever the source, the files, the policy
and the listeners are, and however the walk ends: its start, the failures of the scan, remarks, the
containers one after the other, each opened and closed again or neither, and its end exactly if
there is a summary. -/
theorem heard_run (plan : Plan σ) (fs : FileSystem) (source : Source) (start : σ)
    (hl : listener < plan.listeners.length) :
    ∃ t : Transcript, (plan.run fs source start).1.heard listener = t.events ∧
      Recounts plan fs source (plan.run fs source start).2 t := by
  have hfiles : (Plan.filesOf fs source).1 = fs.filesOf source := by cases source <;> rfl
  have hstarted := hears_tell hl (.started source.base) ⟨start, []⟩
  generalize hrun : plan.run fs source start = result
  obtain ⟨s', outcome⟩ := result
  simp only [Plan.run, hfiles] at hrun
  split at hrun
  -- A strict walk that ends with the scan.
  · rename_i u cause hscan
    obtain ⟨rfl, rfl⟩ := Prod.mk.inj hrun
    have hheard := hstarted.trans (hears_failAll hl hscan).1
    have hnone : ∀ e ∈ ([] : List Episode), e.failure = none := fun _ h =>
      absurd h List.not_mem_nil
    refine ⟨⟨source.base, if plan.policy = .strict then [] else (Plan.filesOf fs source).2, [], [],
      false⟩, ?_, rfl, rfl, fun _ => rfl, List.nil_prefix, fun _ h => absurd h List.not_mem_nil,
      .nil, fun hpolicy => failures_eq_nil (if_pos hpolicy) hnone, by simp, fun _ h => by cases h⟩
    simpa [Hears, Transcript.events, heard_start] using hheard
  · rename_i u before hscan
    obtain ⟨hfailures, hbefore⟩ := hears_failAll hl hscan
    have hheard := hstarted.trans hfailures
    split at hrun
    · rename_i w cause hwalk
      obtain ⟨rfl, rfl⟩ := Prod.mk.inj hrun
      obtain ⟨remarks, episodes, hmore, hrecounts⟩ := hears_source hl rfl (hbefore _ rfl) hwalk
      refine ⟨_, ?_, hrecounts false (by simp)⟩
      simpa [Hears, Transcript.events, heard_start] using hheard.trans hmore
    · rename_i w summary hwalk
      obtain ⟨rfl, rfl⟩ := Prod.mk.inj hrun
      obtain ⟨remarks, episodes, hmore, hrecounts⟩ := hears_source hl rfl (hbefore _ rfl) hwalk
      refine ⟨_, ?_, hrecounts true (by simp)⟩
      have hall := (hheard.trans hmore).trans (hears_tell hl .finished w)
      simpa [Hears, Transcript.events, heard_start] using hall

/-! ## A walk that breaks off inside an archive -/

/-- The bytes of an archive of two entries: a class `A`, and one with a compression method that is
not known. -/
def halfBroken : Bytes :=
  [80, 75, 3, 4, 20, 0, 0, 0, 0, 0, 0, 0, 0, 0, 97, 2, 206, 82, 31, 0, 0, 0, 31, 0, 0, 0, 7, 0, 0,
    0, 65, 46, 99, 108, 97, 115, 115, 202, 254, 186, 190, 0, 0, 0, 52, 0, 3, 1, 0, 1, 65, 7, 0, 1,
    0, 33, 0, 2, 0, 0, 0, 0, 0, 0, 0, 0, 0, 0, 80, 75, 3, 4, 20, 0, 0, 0, 1, 0, 0, 0, 0, 0, 0, 0,
    0, 0, 0, 0, 0, 0, 0, 0, 0, 0, 1, 0, 0, 0, 120, 80, 75, 1, 2, 20, 0, 20, 0, 0, 0, 0, 0, 0, 0,
    0, 0, 97, 2, 206, 82, 31, 0, 0, 0, 31, 0, 0, 0, 7, 0, 0, 0, 0, 0, 0, 0, 0, 0, 0, 0, 0, 0, 0,
    0, 0, 0, 65, 46, 99, 108, 97, 115, 115, 80, 75, 1, 2, 20, 0, 20, 0, 0, 0, 1, 0, 0, 0, 0, 0, 0,
    0, 0, 0, 0, 0, 0, 0, 0, 0, 0, 0, 1, 0, 0, 0, 0, 0, 0, 0, 0, 0, 0, 0, 0, 0, 68, 0, 0, 0, 120,
    80, 75, 5, 6, 0, 0, 0, 0, 2, 0, 2, 0, 100, 0, 0, 0, 99, 0, 0, 0, 0, 0]

/-- The archive, among the binaries. -/
def oneHalfBroken : FileSystem where
  root := .folder (.folder "work"
    (.folder "bin" (.file "a.jar" halfBroken 0 .nil) 0 .nil) 0 .nil) 0
  workingNames := ["work"]
  home := ⟨"/work"⟩
  clock := 1

/-- A listener that does nothing. -/
def silent : Listener Unit where
  notice := fun _ s => s
  examine := fun _ _ s => (s, none)

/-- A lenient walk with remarks, for two listeners. -/
def lenientWalk : Plan Unit :=
  ⟨.lenient, true, [silent, silent]⟩

theorem heard_run_halfBroken :
    1 < lenientWalk.listeners.length ∧
      (∃ t : Transcript,
        (lenientWalk.run oneHalfBroken (.files ⟨"bin"⟩ [⟨"bin/a.jar"⟩]) ()).1.heard 1 = t.events ∧
        Recounts lenientWalk oneHalfBroken (.files ⟨"bin"⟩ [⟨"bin/a.jar"⟩])
          (lenientWalk.run oneHalfBroken (.files ⟨"bin"⟩ [⟨"bin/a.jar"⟩]) ()).2 t) ∧
      (lenientWalk.run oneHalfBroken (.files ⟨"bin"⟩ [⟨"bin/a.jar"⟩]) ()).1.heard 1 =
        [.started ⟨"bin"⟩, .opened 100 ⟨"bin/a.jar"⟩,
          .remark "Processing A.class from bin/a.jar", .classData 50 ((halfBroken.drop 37).take 31),
          .closed, .failed ⟨"bin/a.jar"⟩ (.badArchive ⟨"bin/a.jar"⟩ .unknownMethod), .finished] :=
  ⟨by decide, heard_run lenientWalk oneHalfBroken _ () (by decide), by decide +kernel⟩

end JarGraph.Walk
