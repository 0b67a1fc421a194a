import JarGraph.Proofs.FileSystem.Sight
import JarGraph.Proofs.Walk.Policies
/-!
# Walks that are repeated

Whether a container comes through a walk can be said without the walk: it
can be read, and the walk gets past all that it holds (`walkContainer_ok_iff`).
So a strict walk over containers that all come through comes to its end,
and a lenient one always does. A walk that came to its end does so again
in every tree in which it meets the same containers and these read alike
(`exists_run_of_alike`), and it takes in the same classes
(`takenFrom_congr`).
-/

namespace JarGraph

namespace Walk

/-- Whether a walk comes through a container with some data. -/
def comesThrough (file : Path) (depth : Depth) (data : Bytes) : Bool :=
  match Container.ofPath file with
  | .classFile => (extract data file depth).toOption.isSome
  | .archive =>
    match Archive.read data with
    | .ok entries => entries.all (·.isSound file depth)
    | .error _ => false
  | .other => false

end Walk

namespace FileSystem

variable {fs fs' : FileSystem} {file : Path} {depth : Depth} {source : Walk.Source}

/-- Whether a walk comes through a container. -/
def isSound (fs : FileSystem) (depth : Depth) (file : Path) : Bool :=
  (fs.readFile file).toOption.any (Walk.comesThrough file depth)

theorem isSound_congr (h : ReadsAlike fs fs' file) (depth : Depth) :
    fs'.isSound depth file = fs.isSound depth file := by
  rw [isSound, isSound, h]

/-- A file that reads alike is looked at in place alike. -/
theorem ReadsAlike.cases (h : ReadsAlike fs fs' file) :
    (∃ data, fs.mapFile file = .ok data ∧ fs'.mapFile file = .ok data) ∨
      ∃ cause cause', fs.mapFile file = .error cause ∧ fs'.mapFile file = .error cause' := by
  rw [ReadsAlike, ← Walk.toOption_mapFile, ← Walk.toOption_mapFile] at h
  cases hdata : fs.mapFile file with
  | ok data =>
    rw [hdata] at h
    exact .inl ⟨data, rfl, Answer.toOption_eq_some.1 h.symm⟩
  | error cause =>
    cases hdata' : fs'.mapFile file with
    | ok data =>
      rw [hdata, hdata'] at h
      cases h
    | error cause' => exact .inr ⟨cause, cause', rfl, rfl⟩

theorem classesBeforeBreak_congr (h : ReadsAlike fs fs' file) (depth : Depth) :
    fs'.classesBeforeBreak depth file = fs.classesBeforeBreak depth file := by
  unfold classesBeforeBreak
  rcases h.cases with ⟨data, hdata, hdata'⟩ | ⟨cause, cause', hdata, hdata'⟩
  · rw [hdata, hdata']
  · rw [hdata, hdata']
    cases Container.ofPath file <;> rfl

/-- A walk meets the same containers in two trees, and they read alike. -/
structure SourceAlike (fs fs' : FileSystem) (source : Walk.Source) : Prop where
  containers : fs'.containersOf source = fs.containersOf source
  reads : ∀ file ∈ fs.containersOf source, ReadsAlike fs fs' file

/-- **What a walk takes in** is the same where it meets the same containers. -/
theorem takenFrom_congr (h : SourceAlike fs fs' source) (depth : Depth) :
    fs'.takenFrom depth source = fs.takenFrom depth source := by
  rw [takenFrom, takenFrom, h.containers]
  refine List.flatMap_congr fun file hfile => ?_
  rw [classesBeforeBreak_congr (h.reads file hfile)]

end FileSystem

namespace Walk

variable {plan : Plan AnalysisState} {t t' : State AnalysisState} {fs fs' : FileSystem}
variable {file : Path} {source : Source}

/-! ## One container -/

/-- The entries of an archive are walked to their end if the walk gets past each. -/
theorem exists_walkEntries (only : plan.listeners = [analysisListener])
    {entries : List Archive.Entry} (hfile : t.listeners.tracker.current = some file)
    (hsound : ∀ entry ∈ entries, entry.isSound file t.listeners.depth = true)
    (total passed classes : Nat) :
    ∃ u n, plan.walkEntries file total passed classes entries t = (u, .ok n) := by
  induction entries generalizing passed classes t with
  | nil => exact ⟨t, classes, rfl⟩
  | cons entry entries ih =>
    obtain ⟨hentry, hmore⟩ := List.forall_mem_cons.1 hsound
    generalize hwalk : plan.walkEntries file total passed classes (entry :: entries) t = walked
    obtain ⟨u', outcome⟩ := walked
    obtain ⟨cause, hbroken, -, -, -⟩ | ⟨u, -, -, hu, h⟩ |
      ⟨content, message, progress, cause, hclass, hbody, hprocess, -⟩ |
      ⟨content, message, progress, u, -, -, hprocess, h⟩ := walkEntries_cases hwalk
    · rw [hbroken] at hentry
      cases hentry
    · have hsame := listeners_of_remarked only hu
      exact h ▸ ih (hsame ▸ hfile) (hsame ▸ hmore) _ _
    · have hremark := listeners_remark only message t
      have haccepted := (examined_process only (hremark ▸ hfile) hprocess).accepted
      rw [hremark, ← isSound_of_isClass hbody hclass, hentry] at haccepted
      cases haccepted
    · have hremark := listeners_remark only message t
      obtain ⟨hfeeds, hcurrent, -⟩ := examined_process only (hremark ▸ hfile) hprocess
      have hdepth := hfeeds.depth
      rw [hremark] at hdepth
      exact h ▸ ih hcurrent (hdepth ▸ hmore) _ _

/-- An archive is walked to its end exactly if it is sound. -/
theorem walkArchive_ok_iff (only : plan.listeners = [analysisListener])
    (hkind : Container.ofPath file = .archive) (progress : Nat) :
    (∃ n, (plan.walkArchive fs file progress t).2.classes = .ok n) ↔
      fs.isSound t.listeners.depth file = true := by
  rw [FileSystem.isSound, ← toOption_mapFile]
  unfold Plan.walkArchive
  cases hdata : fs.mapFile file with
  | error cause => exact iff_of_false (fun ⟨_, h⟩ => nomatch h) Bool.false_ne_true
  | ok data =>
    dsimp only [Except.toOption]
    rw [Option.any_some, comesThrough, hkind]
    cases hentries : Archive.read data with
    | error cause => exact iff_of_false (fun ⟨_, h⟩ => nomatch h) Bool.false_ne_true
    | ok entries =>
      have hopened := (feeds_tell only (.opened progress file) t).depth
      have hcurrent := current_tell_opened only progress file t
      dsimp only
      rw [List.all_eq_true, ← hopened]
      constructor
      · rintro ⟨n, hn⟩
        exact (passes_walkEntries only hcurrent rfl).sound n hn
      · intro hsound
        obtain ⟨u, n, hwalk⟩ := exists_walkEntries only hcurrent hsound entries.length 0 0
        exact ⟨n, congrArg Prod.snd hwalk⟩

/-- A class file is walked to its end exactly if it is sound. -/
theorem walkClassFile_ok_iff (only : plan.listeners = [analysisListener])
    (hkind : Container.ofPath file = .classFile) (progress : Nat) :
    (∃ n, (plan.walkClassFile fs file progress t).2.classes = .ok n) ↔
      fs.isSound t.listeners.depth file = true := by
  rw [FileSystem.isSound]
  unfold Plan.walkClassFile
  cases hdata : fs.readFile file with
  | error cause => exact iff_of_false (fun ⟨_, h⟩ => nomatch h) Bool.false_ne_true
  | ok data =>
    have hopened := (feeds_tell only (.opened progress file) t).depth
    have hcurrent := current_tell_opened only progress file t
    dsimp only [Except.toOption]
    rw [Option.any_some, comesThrough, hkind]
    generalize hprocess : plan.process file 100 data (plan.tell (.opened progress file) t) =
      processed
    obtain ⟨u, outcome⟩ := processed
    have haccepted := (examined_process only hcurrent hprocess).accepted
    rw [hopened] at haccepted
    dsimp only
    rw [← haccepted]
    cases outcome with
    | ok => exact iff_of_true ⟨1, rfl⟩ rfl
    | error cause => exact iff_of_false (fun ⟨_, h⟩ => nomatch h) Bool.false_ne_true

/-- **A container is walked to its end** exactly if the walk comes through it. -/
theorem walkContainer_ok_iff (only : plan.listeners = [analysisListener])
    (hkind : Container.ofPath file ≠ .other) (progress : Nat) :
    (∃ n, (plan.walkContainer fs (Container.ofPath file) file progress t).2 = .ok n) ↔
      fs.isSound t.listeners.depth file = true := by
  cases hfile : Container.ofPath file with
  | other => exact absurd hfile hkind
  | archive => exact walkArchive_ok_iff only hfile progress
  | classFile => exact walkClassFile_ok_iff only hfile progress

/-! ## A row of containers -/

theorem depth_walkContainer (only : plan.listeners = [analysisListener])
    (hkind : Container.ofPath file ≠ .other) {progress : Nat} {outcome : Except Error Nat}
    (h : plan.walkContainer fs (Container.ofPath file) file progress t = (t', outcome)) :
    t'.listeners.depth = t.listeners.depth :=
  (takesIn_walkContainer only hkind h).feeds.depth

/-- Containers that a walk comes through are walked to the end of the row. -/
theorem exists_walkContainers (only : plan.listeners = [analysisListener]) {files : List Path}
    (hfiles : ∀ file ∈ files, Container.ofPath file ≠ .other)
    (hsound : ∀ file ∈ files, fs.isSound t.listeners.depth file = true) (total passed : Nat)
    (before : Summary) :
    ∃ u after, plan.walkContainers fs total passed before
      (files.map fun file => (file, Container.ofPath file)) t = (u, .ok after) := by
  induction files generalizing passed before t with
  | nil => exact ⟨t, before, rfl⟩
  | cons file files ih =>
    obtain ⟨hkind, hkinds⟩ := List.forall_mem_cons.1 hfiles
    obtain ⟨hfile, hmore⟩ := List.forall_mem_cons.1 hsound
    obtain ⟨n, hn⟩ := (walkContainer_ok_iff only hkind (percent (passed + 1) total)).2 hfile
    rw [List.map_cons, Plan.walkContainers]
    generalize hwalk : plan.walkContainer fs (Container.ofPath file) file
      (percent (passed + 1) total) t = walked at hn
    obtain ⟨u, outcome⟩ := walked
    obtain rfl : outcome = .ok n := hn
    exact ih hkinds (depth_walkContainer only hkind hwalk ▸ hmore) _ _

/-- A strict walk comes to the end of a row only if it comes through all containers in it. -/
theorem isSound_of_walkContainers (only : plan.listeners = [analysisListener])
    (strict : plan.policy = .strict) {files : List Path}
    (hfiles : ∀ file ∈ files, Container.ofPath file ≠ .other) {total passed : Nat}
    {before after : Summary}
    (h : plan.walkContainers fs total passed before
      (files.map fun file => (file, Container.ofPath file)) t = (t', .ok after)) :
    ∀ file ∈ files, fs.isSound t.listeners.depth file = true := by
  induction files generalizing passed before t with
  | nil => exact fun _ hmem => nomatch hmem
  | cons file files ih =>
    obtain ⟨hkind, hkinds⟩ := List.forall_mem_cons.1 hfiles
    rw [List.map_cons, Plan.walkContainers] at h
    split at h
    · rename_i u n hwalk
      have hrest := ih hkinds h
      rw [depth_walkContainer only hkind hwalk] at hrest
      refine List.forall_mem_cons.2 ⟨?_, hrest⟩
      exact (walkContainer_ok_iff only hkind _).1 ⟨n, congrArg Prod.snd hwalk⟩
    · rename_i u cause hwalk
      have hfail : plan.fail cause before u = (u, .error cause) := by
        rw [Plan.fail, strict]
      rw [hfail] at h
      cases (Prod.mk.inj h).2

/-! ## Whole walks -/

theorem ne_other_of_mem_containersOf (h : file ∈ fs.containersOf source) :
    Container.ofPath file ≠ .other :=
  bne_iff_ne.1 (List.mem_filter.1 h).2

/-- A walk over containers that it comes through comes to its end, if all of the source can be
read. -/
theorem exists_run_of_sound (only : plan.listeners = [analysisListener]) {start : AnalysisState}
    (hscan : (Plan.filesOf fs source).2 = [])
    (hsound : ∀ file ∈ fs.containersOf source, fs.isSound start.depth file = true) :
    ∃ u summary, plan.run fs source start = (u, .ok summary) := by
  rw [run_eq, hscan, Plan.failAll]
  dsimp only
  have hstarted := (feeds_tell only (.started source.base) ⟨start, []⟩).depth
  generalize plan.tell (.started source.base) ⟨start, []⟩ = begun at *
  have hlisteners := listeners_containers only (fs.filesOf source) begun
  obtain ⟨u, after, hwalk⟩ := exists_walkContainers (t := (plan.containers (fs.filesOf source)
    begun).2) only (fun _ hf => ne_other_of_mem_containersOf hf)
    (by rw [hlisteners, hstarted]; exact hsound)
    (plan.containers (fs.filesOf source) begun).1.length 0 ⟨0, 0, []⟩
  rw [FileSystem.containersOf, ← containers_fst plan (fs.filesOf source) begun] at hwalk
  unfold Plan.afterScan
  dsimp only
  rw [hwalk]
  exact ⟨_, after, rfl⟩

/-- A strict walk comes to its end only if it comes through all containers. -/
theorem isSound_of_run (only : plan.listeners = [analysisListener])
    (strict : plan.policy = .strict) {start : AnalysisState} {summary : Summary}
    (h : plan.run fs source start = (t', .ok summary)) :
    ∀ file ∈ fs.containersOf source, fs.isSound start.depth file = true := by
  have hstarted := (feeds_tell only (.started source.base) ⟨start, []⟩).depth
  rw [run_eq] at h
  split at h
  · cases (Prod.mk.inj h).2
  rename_i begun before hscan
  have hbegun := (feeds_failAll only hscan).depth
  rw [hstarted] at hbegun
  have hlisteners := listeners_containers only (fs.filesOf source) begun
  unfold Plan.afterScan at h
  dsimp only at h
  split at h
  · cases (Prod.mk.inj h).2
  rename_i u after hwalk
  rw [containers_fst] at hwalk
  have hsound := isSound_of_walkContainers only strict
    (fun _ hf => ne_other_of_mem_containersOf hf) hwalk
  rw [hlisteners, hbegun] at hsound
  exact hsound

/-- **A walk that came to its end** comes to its end again where it meets the same containers and
can read all of the source. -/
theorem exists_run_of_alike (only : plan.listeners = [analysisListener]) {start : AnalysisState}
    {summary : Summary} (h : plan.run fs source start = (t', .ok summary))
    (halike : fs.SourceAlike fs' source) (hscan : (Plan.filesOf fs' source).2 = []) :
    ∃ u after, plan.run fs' source start = (u, .ok after) := by
  cases hpolicy : plan.policy with
  | strict =>
    have hsound := isSound_of_run only hpolicy h
    refine exists_run_of_sound only hscan fun file hfile => ?_
    rw [halike.containers] at hfile
    rw [FileSystem.isSound_congr (halike.reads file hfile)]
    exact hsound file hfile
  | lenient =>
    obtain ⟨u, after, hrun, -⟩ := (compared_run plan fs' source start).goes_on
    have hunder : plan.under .lenient = plan := by
      rw [Plan.under, ← hpolicy]
    rw [hunder] at hrun
    exact ⟨u, after, hrun⟩

end Walk

end JarGraph
