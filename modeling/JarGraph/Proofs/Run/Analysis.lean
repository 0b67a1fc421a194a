import JarGraph.Proofs.Run.Found
import JarGraph.Proofs.Walk.Feeding
import JarGraph.Run
/-!
# What an analysis comes to

A run over up to three walks, judged by the files alone. The classes
that are analysed and those that are only listed are said without a walk
(`analysed`, `listed`); where no container failed, the analyser has gone
through exactly their history (`analyse_ok`), and where no class lies in
two containers that history says what the files say
(`analyse_faithful`).
-/

namespace JarGraph

namespace Logged

variable {α β : Type}

theorem bind_ok {first : Logged α} {next : α → Logged β} {b : β}
    (h : (first >>= next).answer = .ok b) :
    ∃ a, first.answer = .ok a ∧ (next a).answer = .ok b := by
  change (first.bind next).answer = .ok b at h
  unfold bind at h
  split at h
  · cases h
  · rename_i a ha
    exact ⟨a, ha, h⟩

theorem within_ok {remark : String} {l : Logged α} {a : α} (h : (l.within remark).answer = .ok a) :
    l.answer = .ok a := by
  obtain ⟨answer, log⟩ := l
  cases answer with
  | error cause => cases h
  | ok b => exact h

end Logged

namespace Analysis

open Analyser (Call)

variable {fs : FileSystem} {s : Settings} {a : Analysis}

/-! ## The classes of a run -/

/-- The classes that a run analyses: those below the binaries that the filter takes. -/
def analysed (fs : FileSystem) (s : Settings) : List (Path × Extraction) :=
  match PathFilter.ofPatterns s.libsIncludes s.libsExcludes with
  | .ok filter => fs.extractionsOf .dependencies (.directory s.binaries filter)
  | .error _ => []

/-- The classes below the binaries that a run only lists, if it is to list any. -/
def listedBelow (fs : FileSystem) (s : Settings) : List (Path × Extraction) :=
  if s.hasDepsWalk then
    match PathFilter.ofPatterns s.depsIncludes s.depsExcludes with
    | .ok filter => fs.extractionsOf .inventory (.directory s.binaries filter)
    | .error _ => []
  else []

/-- The classes in the files that a run only lists. -/
def listedFiles (fs : FileSystem) (s : Settings) : List (Path × Extraction) :=
  fs.extractionsOf .inventory (.files s.binaries s.dependencyFiles)

/-- The classes that a run only lists. -/
def listed (fs : FileSystem) (s : Settings) : List (Path × Extraction) :=
  listedBelow fs s ++ listedFiles fs s

theorem exists_extract_of_mem {depth : Depth} {source : Walk.Source} {p : Path} {x : Extraction}
    (h : (p, x) ∈ fs.extractionsOf depth source) : ∃ data, extract data p depth = .ok x := by
  obtain ⟨file, -, h⟩ := List.mem_flatMap.1 h
  obtain ⟨rfl, data, -, hx⟩ := Walk.mem_extractions.1 h
  exact ⟨data, hx⟩

theorem exists_extract_of_mem_analysed {p : Path} {x : Extraction} (h : (p, x) ∈ analysed fs s) :
    ∃ data, extract data p .dependencies = .ok x := by
  unfold analysed at h
  split at h
  · exact exists_extract_of_mem h
  · cases h

theorem exists_extract_of_mem_listed {p : Path} {x : Extraction} (h : (p, x) ∈ listed fs s) :
    ∃ data, extract data p .inventory = .ok x := by
  rcases List.mem_append.1 h with h | h
  · unfold listedBelow at h
    split at h
    · split at h
      · exact exists_extract_of_mem h
      · cases h
    · cases h
  · exact exists_extract_of_mem h

theorem extracted_analysed_listed (fs : FileSystem) (s : Settings) :
    Extracted (analysed fs s ++ listed fs s) := by
  intro p x h
  rcases List.mem_append.1 h with h | h
  · obtain ⟨data, hx⟩ := exists_extract_of_mem_analysed h
    exact ⟨data, .dependencies, hx⟩
  · obtain ⟨data, hx⟩ := exists_extract_of_mem_listed h
    exact ⟨data, .inventory, hx⟩

/-- A class that is only listed brings no references. -/
theorem references_append_listed {file : Path} {source target : String} :
    References (analysed fs s ++ listed fs s) file source target ↔
      References (analysed fs s) file source target := by
  constructor
  · rintro ⟨p, x, h, hsame, hname, hmem⟩
    rcases List.mem_append.1 h with h | h
    · exact ⟨p, x, h, hsame, hname, hmem⟩
    · obtain ⟨data, hx⟩ := exists_extract_of_mem_listed h
      cases (Extraction.of_reference_mem_sightings hx hmem).1
  · rintro ⟨p, x, h, rest⟩
    exact ⟨p, x, List.mem_append_left _ h, rest⟩

/-! ## The walks of a run -/

/-- What some classes report, taken in by an analyser. -/
def feed (analyser : Analyser) (found : List (Path × Extraction)) : Analyser :=
  (found.flatMap (·.2.sightings)).foldl Analyser.receive analyser

theorem feed_append (analyser : Analyser) (found more : List (Path × Extraction)) :
    feed analyser (found ++ more) = feed (feed analyser found) more := by
  rw [feed, List.flatMap_append, List.foldl_append]
  rfl

/-- **A walk of a run** feeds what it takes in from its source; where it reports no failed container
these are all classes of the source. -/
theorem walk_fed {analyser : Analyser} {depth : Depth} {source : Walk.Source} {walked : Walked}
    (ok : (walk fs s analyser depth source).answer = .ok walked) :
    walked.analyser = feed analyser (fs.takenFrom depth source) ∧
      walked.containers =
        ((fs.takenFrom depth source).map Prod.fst).foldl OrderedSet.insert .empty ∧
      (walked.summary.failed = [] → fs.takenFrom depth source = fs.extractionsOf depth source) := by
  unfold walk at ok
  dsimp only at ok
  split at ok
  · cases ok
  · rename_i summary hrun
    obtain rfl := Except.ok.inj ok
    obtain ⟨hfeeds, hwhole⟩ := Walk.feeds_run rfl (Prod.ext rfl hrun)
    dsimp only
    split
    · exact ⟨hfeeds.analyser, hfeeds.containers, hwhole⟩
    · exact ⟨hfeeds.analyser, hfeeds.containers, hwhole⟩

/-- A walk of a run that reports no failed container feeds the classes of its source. -/
theorem walk_ok {analyser : Analyser} {depth : Depth} {source : Walk.Source} {walked : Walked}
    (ok : (walk fs s analyser depth source).answer = .ok walked)
    (hfailed : walked.summary.failed = []) :
    walked.analyser = feed analyser (fs.extractionsOf depth source) ∧
      walked.containers =
        ((fs.extractionsOf depth source).map Prod.fst).foldl OrderedSet.insert .empty := by
  obtain ⟨hanalyser, hcontainers, hwhole⟩ := walk_fed ok
  rw [← hwhole hfailed]
  exact ⟨hanalyser, hcontainers⟩

/-- The walk over the binaries is a walk. -/
theorem walkLibs_cases {analyser : Analyser} {walked : Walked}
    (ok : (walkLibs fs s analyser).answer = .ok walked) :
    ∃ filter, PathFilter.ofPatterns s.libsIncludes s.libsExcludes = .ok filter ∧
      (walk fs s analyser .dependencies (.directory s.binaries filter)).answer = .ok walked := by
  unfold walkLibs at ok
  cases hfilter : PathFilter.ofPatterns s.libsIncludes s.libsExcludes with
  | error cause =>
    rw [hfilter] at ok
    cases ok
  | ok filter =>
    rw [hfilter] at ok
    exact ⟨filter, rfl, Logged.within_ok ok⟩

/-- The classes below the binaries are listed by a walk, or not at all. -/
theorem walkDeps_cases {analyser after : Analyser} {summaries : List Walk.Summary}
    (ok : (walkDeps fs s analyser).answer = .ok (after, summaries)) :
    (s.hasDepsWalk = false ∧ after = analyser) ∨
      ∃ filter walked, s.hasDepsWalk = true ∧
        PathFilter.ofPatterns s.depsIncludes s.depsExcludes = .ok filter ∧
        (walk fs s analyser .inventory (.directory s.binaries filter)).answer = .ok walked ∧
        after = walked.analyser ∧ summaries = [walked.summary] := by
  unfold walkDeps at ok
  split at ok
  · rename_i hwalk
    cases hfilter : PathFilter.ofPatterns s.depsIncludes s.depsExcludes with
    | error cause =>
      rw [hfilter] at ok
      cases ok
    | ok filter =>
      rw [hfilter] at ok
      obtain ⟨walked, hwalked, hafter⟩ := Logged.bind_ok ok
      obtain ⟨rfl, rfl⟩ := Prod.mk.inj (Except.ok.inj hafter)
      exact .inr ⟨filter, walked, hwalk, rfl, Logged.within_ok hwalked, rfl, rfl⟩
  · rename_i hwalk
    exact .inl ⟨Bool.eq_false_iff.2 hwalk, (Prod.mk.inj (Except.ok.inj ok)).1.symm⟩

/-- The given files are listed by a walk, unless there are none. -/
theorem walkDependencyFiles_cases {analyser after : Analyser} {summaries : List Walk.Summary}
    (ok : (walkDependencyFiles fs s analyser).answer = .ok (after, summaries)) :
    (s.dependencyFiles = [] ∧ after = analyser) ∨
      ∃ walked,
        (walk fs s analyser .inventory (.files s.binaries s.dependencyFiles)).answer = .ok walked ∧
        after = walked.analyser ∧ summaries = [walked.summary] := by
  unfold walkDependencyFiles at ok
  split at ok
  · rename_i hempty
    exact .inl ⟨List.isEmpty_iff.1 hempty, (Prod.mk.inj (Except.ok.inj ok)).1.symm⟩
  · obtain ⟨walked, hwalked, hafter⟩ := Logged.bind_ok ok
    obtain ⟨rfl, rfl⟩ := Prod.mk.inj (Except.ok.inj hafter)
    exact .inr ⟨walked, Logged.within_ok hwalked, rfl, rfl⟩

theorem walkLibs_ok {analyser : Analyser} {walked : Walked}
    (ok : (walkLibs fs s analyser).answer = .ok walked) (hfailed : walked.summary.failed = []) :
    walked.analyser = feed analyser (analysed fs s) ∧
      walked.containers = ((analysed fs s).map Prod.fst).foldl OrderedSet.insert .empty := by
  obtain ⟨filter, hfilter, hwalk⟩ := walkLibs_cases ok
  simp only [analysed, hfilter]
  exact walk_ok hwalk hfailed

theorem walkDeps_ok {analyser after : Analyser} {summaries : List Walk.Summary}
    (ok : (walkDeps fs s analyser).answer = .ok (after, summaries))
    (hfailed : ∀ summary ∈ summaries, summary.failed = []) :
    after = feed analyser (listedBelow fs s) := by
  rcases walkDeps_cases ok with ⟨hwalk, rfl⟩ | ⟨filter, walked, hwalk, hfilter, hok, rfl, rfl⟩
  · simp only [listedBelow, hwalk]
    rfl
  · simp only [listedBelow, hwalk, hfilter, if_true]
    exact (walk_ok hok (hfailed _ List.mem_cons_self)).1

theorem walkDependencyFiles_ok {analyser after : Analyser} {summaries : List Walk.Summary}
    (ok : (walkDependencyFiles fs s analyser).answer = .ok (after, summaries))
    (hfailed : ∀ summary ∈ summaries, summary.failed = []) :
    after = feed analyser (listedFiles fs s) := by
  rcases walkDependencyFiles_cases ok with ⟨hempty, rfl⟩ | ⟨walked, hok, rfl, rfl⟩
  -- Without files there is no walk, and no class that one could find.
  · rw [listedFiles, hempty]
    rfl
  · exact (walk_ok hok (hfailed _ List.mem_cons_self)).1

/-! ## The whole run -/

/-- An analyser with the patterns of the settings has gone through their calls. -/
theorem foldlM_addProvided {patterns : List String} {before after : Analyser}
    (ok : patterns.foldlM Analyser.addProvided before = .ok after) :
    after = (patterns.map Call.addProvided).foldl Analyser.apply before := by
  induction patterns generalizing before with
  | nil => exact (Except.ok.inj ok).symm
  | cons pattern patterns ih =>
    cases hpattern : before.addProvided pattern with
    | error cause =>
      rw [List.foldlM_cons, hpattern] at ok
      cases ok
    | ok next =>
      rw [List.foldlM_cons, hpattern] at ok
      have happly : before.apply (.addProvided pattern) = next := by
        rw [Analyser.apply, hpattern]
        rfl
      rw [List.map_cons, List.foldl_cons, happly]
      exact ih ok

theorem feed_replay (patterns : List String) (found : List (Path × Extraction)) :
    feed (.replay (patterns.map Call.addProvided)) found = .replay (calls patterns found) := by
  rw [feed, foldl_receive, Analyser.replay, Analyser.replay, calls, List.foldl_append]

/-- The walks of a run that comes to its end, from the patterns of the settings on. -/
structure Walks (fs : FileSystem) (s : Settings) (a : Analysis) (libs : Walked)
    (afterDeps afterFiles : Analyser) (below files : List Walk.Summary) : Prop where
  ofLibs : (walkLibs fs s (.replay (s.allProvided.map Call.addProvided))).answer = .ok libs
  ofDeps : (walkDeps fs s libs.analyser).answer = .ok (afterDeps, below)
  ofFiles : (walkDependencyFiles fs s afterDeps).answer = .ok (afterFiles, files)
  eq : a = ⟨afterFiles.result, libs.containers, libs.summary, below ++ files⟩

theorem analyse_cases (ok : (analyse fs s).answer = .ok a) :
    ∃ libs afterDeps afterFiles below files,
      Walks fs s a libs afterDeps afterFiles below files := by
  obtain ⟨start, hstart, ok⟩ := Logged.bind_ok ok
  obtain ⟨libs, hlibs, ok⟩ := Logged.bind_ok ok
  obtain ⟨⟨afterDeps, below⟩, hdeps, ok⟩ := Logged.bind_ok ok
  obtain ⟨⟨afterFiles, files⟩, hfiles, ok⟩ := Logged.bind_ok ok
  have hpatterns : start = .replay (s.allProvided.map Call.addProvided) := by
    cases hanalyser : analyser s with
    | error cause =>
      rw [hanalyser] at hstart
      cases hstart
    | ok found =>
      rw [hanalyser] at hstart
      obtain rfl := Except.ok.inj hstart
      exact foldlM_addProvided hanalyser
  exact ⟨libs, afterDeps, afterFiles, below, files, hpatterns ▸ hlibs, hdeps, hfiles,
    (Except.ok.inj ok).symm⟩

/-- **A run that comes to its end without a failed container** has gone through the history of the
classes that it analyses and of those that it lists. -/
theorem analyse_ok (ok : (analyse fs s).answer = .ok a) (hlibs : a.libs.failed = [])
    (hdeps : ∀ summary ∈ a.deps, summary.failed = []) :
    a.result = (Analyser.replay (calls s.allProvided (analysed fs s ++ listed fs s))).result ∧
      a.containers = ((analysed fs s).map Prod.fst).foldl OrderedSet.insert .empty := by
  obtain ⟨libs, afterDeps, afterFiles, below, files, hwalkLibs, hwalkDeps, hwalkFiles, rfl⟩ :=
    analyse_cases ok
  obtain ⟨hanalysed, hcontainers⟩ := walkLibs_ok hwalkLibs hlibs
  have hbelow := walkDeps_ok hwalkDeps fun x hx => hdeps x (List.mem_append_left _ hx)
  have hfiles := walkDependencyFiles_ok hwalkFiles fun x hx => hdeps x (List.mem_append_right _ hx)
  refine ⟨?_, hcontainers⟩
  rw [← feed_replay, feed_append, listed, feed_append, ← hanalysed, ← hbelow, ← hfiles]

/-- What an analysis says is what the found classes say. -/
structure Faithful (fs : FileSystem) (s : Settings) (a : Analysis) : Prop where
  /-- Each name is mapped to the container that holds it, and no other name is mapped. -/
  classes : ∀ name file, (∃ p ∈ a.result.classes.get? name, p.same file = true) ↔
    Holds (analysed fs s ++ listed fs s) file name
  /-- The containers are those of the analysed classes. -/
  containers : ∀ file, a.containers.contains file = true ↔ ∃ name, Holds (analysed fs s) file name
  /-- A container depends on another one where an analysed class in it has a reference into the
  other one that no pattern matches. -/
  fileEdges : ∀ d, a.result.fileEdges.contains d = true ↔
    ∃ source target, d = .edge source target ∧ source.same target = false ∧
      ∃ user name, References (analysed fs s) source user name ∧
        ¬ IsProvided s.allProvided name ∧ Holds (analysed fs s ++ listed fs s) target name
  /-- A reference of an analysed class is unresolved where its target was found nowhere, is no
  platform class, and no pattern matches it. -/
  unresolved : ∀ d, a.result.unresolved.contains d = true ↔
    ∃ name user, d = .edge name user ∧ (∃ file, References (analysed fs s) file user name) ∧
      (∀ file, ¬ Holds (analysed fs s ++ listed fs s) file name) ∧
      isPlatformClass name = false ∧ ¬ IsProvided s.allProvided name

/-- **What an analysis comes to**, from the files to the result: a run that comes to its end, in
which no container fails and no name is found in two containers, says what the found classes
say. -/
theorem analyse_faithful (ok : (analyse fs s).answer = .ok a) (hlibs : a.libs.failed = [])
    (hdeps : ∀ summary ∈ a.deps, summary.failed = [])
    (unambiguous : Unambiguous (analysed fs s ++ listed fs s)) : Faithful fs s a := by
  obtain ⟨hresult, hcontainers⟩ := analyse_ok ok hlibs hdeps
  have extracted := extracted_analysed_listed fs s
  have hsub : analysed fs s ⊆ analysed fs s ++ listed fs s := List.subset_append_left ..
  have shown := Analyser.shown_result (Analyser.records_replay _) (Analyser.fresh_replay
    (calls s.allProvided (analysed fs s ++ listed fs s)))
  rw [← hresult] at shown
  refine ⟨fun name file => ?_, fun file => ?_, fun d => ?_, fun d => ?_⟩
  · rw [(shown.homes name).exists_same_iff, lastHome?_calls extracted unambiguous]
  · rw [hcontainers, contains_containers]
  -- A reference counts for the container that its class was last found in, which is the one that the
  -- reference was extracted in.
  · rw [shown.fileEdges]
    simp only [Call.LeadsTo, lastHome?_calls extracted unambiguous, edge_mem_pairs_calls extracted,
      references_append_listed]
    refine exists_congr fun source => exists_congr fun target => and_congr_right fun _ =>
      and_congr_right fun _ => exists_congr fun user => exists_congr fun name => ?_
    rw [references_iff hsub unambiguous]
    tauto
  · rw [shown.unresolved]
    simp only [Call.IsMissing, lastHome?_calls_eq_none extracted, edge_mem_pairs_calls extracted,
      references_append_listed, ← Bool.not_eq_true, isMatch_provided_calls]
    refine exists_congr fun name => exists_congr fun user => and_congr_right fun _ => ?_
    tauto

/-! ## A run over two classes -/

/-- The bytes of a class `B` that references nothing. -/
def plainClass : Bytes :=
  [0xCA, 0xFE, 0xBA, 0xBE, 0, 0, 0, 52, 0, 3, 1, 0, 1, 66, 7, 0, 1,
    0, 33, 0, 2, 0, 0, 0, 0, 0, 0, 0, 0, 0, 0]

/-- A class `A` among the binaries that references `B` and `C`, and a class `B` beside them. -/
def twoClasses : FileSystem where
  root := .folder (.folder "work"
    (.folder "bin" (.file "A.class" Extraction.selfReferring 0 .nil) 0
      (.file "B.class" plainClass 0 .nil)) 0 .nil) 0
  workingNames := ["work"]
  home := ⟨"/work"⟩
  clock := 1

/-- Settings that analyse the binaries and list the class beside them. -/
def besideBinaries : Settings :=
  { Settings.default with
    binaries := ⟨"bin"⟩
    dependencyFiles := [⟨"B.class"⟩]
    machineProvided := some [] }

theorem analyse_faithful_twoClasses :
    ∃ a, (analyse twoClasses besideBinaries).answer = .ok a ∧ a.libs.failed = [] ∧
      (∀ summary ∈ a.deps, summary.failed = []) ∧
      Unambiguous (analysed twoClasses besideBinaries ++ listed twoClasses besideBinaries) ∧
      Faithful twoClasses besideBinaries a ∧
      a.result.fileEdges.contains (.edge ⟨"bin/A.class"⟩ ⟨"B.class"⟩) = true ∧
      a.result.unresolved.contains (.edge "C" "A") = true := by
  have check : (analyse twoClasses besideBinaries).answer.toOption.map (fun a =>
      (a.libs.failed, a.deps.map Walk.Summary.failed,
        a.result.fileEdges.contains (.edge ⟨"bin/A.class"⟩ ⟨"B.class"⟩),
        a.result.unresolved.contains (.edge "C" "A"))) = some ([], [[]], true, true) := by
    decide +kernel
  have unambiguous :
      Unambiguous (analysed twoClasses besideBinaries ++ listed twoClasses besideBinaries) := by
    have names : ∀ y ∈ analysed twoClasses besideBinaries ++ listed twoClasses besideBinaries,
        ∀ z ∈ analysed twoClasses besideBinaries ++ listed twoClasses besideBinaries,
          y.2.name = z.2.name → y.1.same z.1 = true := by decide +kernel
    rintro name file other ⟨p, x, hx, hfile, hname⟩ ⟨q, y, hy, hother, hname'⟩
    have hsame := names (p, x) hx (q, y) hy (hname.trans hname'.symm)
    rw [Path.same_comm] at hfile
    exact Path.same_trans hfile (Path.same_trans hsame hother)
  cases ok : (analyse twoClasses besideBinaries).answer with
  | error cause => simp [ok, Except.toOption] at check
  | ok a =>
    simp only [ok, Except.toOption, Option.map_some, Option.some.injEq, Prod.mk.injEq] at check
    obtain ⟨hlibs, hfailed, hedge, hmissing⟩ := check
    have hdeps : ∀ summary ∈ a.deps, summary.failed = [] := fun summary hx =>
      List.mem_singleton.1 (hfailed ▸ List.mem_map_of_mem hx)
    exact ⟨a, rfl, hlibs, hdeps, unambiguous, analyse_faithful ok hlibs hdeps unambiguous, hedge,
      hmissing⟩

end Analysis

end JarGraph
