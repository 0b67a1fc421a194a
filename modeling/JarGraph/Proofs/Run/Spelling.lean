import JarGraph.Proofs.Ordered
import JarGraph.Proofs.Run.Listed
import JarGraph.Proofs.Run.Repeating
import JarGraph.Proofs.Run.Skipping
import JarGraph.Proofs.Walk.Spelling
import Mathlib.Data.List.Forall2
/-!
# Settings whose paths are spelled in another way

The checks of settings make the paths of the binaries and of the result
absolute, so that a run does not depend on how these are spelled
(`validate_respelled`). They leave the repository and the files that are
only listed as they are. An analysis sees nothing of the repository and
reads the files that are listed by any of their spellings, so that it
comes to the same unresolved classes (`ReadAlike.unresolved_eq`). But a
description and a report compare the paths of files with the one of the
repository, and a run can fail for one spelling and come to its end for
the other (`exists_respelled_apart`).
-/

namespace JarGraph

open FileSystem (NamesFile)

/-! ## Files that read alike -/

namespace FileSystem

variable {fs : FileSystem} {base base' : Path} {files files' : List Path} {depth : Depth}

/-- A walk over files takes in classes of the names that it takes in from files that read alike. -/
theorem ReadsAmong.holds {name : String} (h : fs.ReadsAmong files files') (base : Path)
    (hholds : ∃ file, Analysis.Holds (fs.takenFrom depth (.files base' files')) file name) :
    ∃ file, Analysis.Holds (fs.takenFrom depth (.files base files)) file name := by
  obtain ⟨-, q, x, hx, -, rfl⟩ := hholds
  obtain ⟨container, hcontainer, hx⟩ := List.mem_flatMap.1 hx
  obtain ⟨rfl, data, hdata, hextract⟩ := Walk.mem_extractions.1 hx
  obtain ⟨p, hp, hreads⟩ := h.containersOf base base' q hcontainer
  have hname := map_name_extract data p q depth
  rw [hextract] at hname
  obtain ⟨y, hy, hsame⟩ := Option.map_eq_some_iff.1 hname.symm
  rw [hreads.classesBeforeBreak] at hdata
  refine ⟨p, p, y, List.mem_flatMap.2 ⟨p, hp, ?_⟩, Path.same_self p, hsame⟩
  exact Walk.mem_extractions.2 ⟨rfl, data, hdata, Answer.toOption_eq_some.1 hy⟩

end FileSystem

namespace Analysis

variable {fs : FileSystem} {s s' : Settings} {a : Analysis} {file : Path} {name user : String}

/-- Settings that differ only in the repository, and in the files that are listed, which read
alike. -/
structure ReadAlike (fs : FileSystem) (s s' : Settings) : Prop where
  rest : s' = { s with repository := s'.repository, dependencyFiles := s'.dependencyFiles }
  files : fs.ReadsAmong s.dependencyFiles s'.dependencyFiles
  back : fs.ReadsAmong s'.dependencyFiles s.dependencyFiles

theorem ReadAlike.analyser_eq (h : ReadAlike fs s s') : analyser s' = analyser s := by
  rw [h.rest]
  rfl

theorem ReadAlike.walkLibs_eq (h : ReadAlike fs s s') (analyser : Analyser) :
    walkLibs fs s' analyser = walkLibs fs s analyser := by
  rw [h.rest]
  rfl

theorem ReadAlike.walkDeps_eq (h : ReadAlike fs s s') (analyser : Analyser) :
    walkDeps fs s' analyser = walkDeps fs s analyser := by
  rw [h.rest]
  rfl

theorem exists_walkDependencyFiles_of_readAlike {analyser after : Analyser}
    {summaries : List Walk.Summary} (h : ReadAlike fs s s')
    (ok : (walkDependencyFiles fs s analyser).answer = .ok (after, summaries)) :
    ∃ others, (walkDependencyFiles fs s' analyser).answer = .ok others := by
  unfold walkDependencyFiles
  by_cases hempty : s'.dependencyFiles.isEmpty = true
  · rw [if_pos hempty]
    exact ⟨_, rfl⟩
  · rw [if_neg hempty]
    rcases walkDependencyFiles_cases ok with ⟨hnone, -⟩ | ⟨walked, hwalk, -, -⟩
    · -- Where one list is empty the other is, as each file reads as one of the other list.
      exfalso
      obtain ⟨q, more, hsome⟩ := List.exists_cons_of_ne_nil (mt List.isEmpty_iff.2 hempty)
      obtain ⟨p, hp, -⟩ := h.files q (hsome ▸ List.mem_cons_self)
      rw [hnone] at hp
      cases hp
    · have hagain : ∃ again, (walk fs s' analyser .inventory
          (.files s'.binaries s'.dependencyFiles)).answer = .ok again := by
        rw [h.rest]
        unfold walk at hwalk ⊢
        dsimp only at hwalk ⊢
        split at hwalk
        · cases hwalk
        rename_i summary hrun
        obtain ⟨u, after, hafter⟩ :=
          Walk.exists_run_of_readsAmong rfl h.files (Prod.ext rfl hrun)
        rw [hafter]
        exact ⟨_, rfl⟩
      obtain ⟨again, hagain⟩ := hagain
      exact ⟨_, Logged.bind_of_ok (Logged.within_of_ok hagain) rfl⟩

/-- An analysis that came to its end does so with files that read alike. -/
theorem exists_analyse_of_readAlike (h : ReadAlike fs s s') (ok : (analyse fs s).answer = .ok a) :
    ∃ again, (analyse fs s').answer = .ok again := by
  obtain ⟨start, hstart, ok⟩ := Logged.bind_ok ok
  obtain ⟨libs, hlibs, ok⟩ := Logged.bind_ok ok
  obtain ⟨⟨afterDeps, below⟩, hdeps, ok⟩ := Logged.bind_ok ok
  obtain ⟨⟨afterFiles, files⟩, hfiles, -⟩ := Logged.bind_ok ok
  obtain ⟨⟨afterFiles', files'⟩, hfiles'⟩ := exists_walkDependencyFiles_of_readAlike h hfiles
  rw [← h.analyser_eq] at hstart
  rw [← h.walkLibs_eq] at hlibs
  rw [← h.walkDeps_eq] at hdeps
  exact ⟨⟨afterFiles'.result, libs.containers, libs.summary, below ++ files'⟩,
    Logged.bind_of_ok hstart (Logged.bind_of_ok hlibs (Logged.bind_of_ok hdeps
      (Logged.bind_of_ok hfiles' rfl)))⟩

/-- Only analysed classes bring references. -/
theorem references_taken_iff :
    References (taken fs s) file user name ↔ References (takenAnalysed fs s) file user name := by
  rw [taken_eq]
  constructor
  · rintro ⟨p, x, hx, hsame, hname, hmem⟩
    rcases List.mem_append.1 hx with hx | hx
    · exact ⟨p, x, hx, hsame, hname, hmem⟩
    · -- A class that is only listed tells of no reference.
      obtain ⟨data, hextract⟩ := exists_extract_of_mem_takenListed hx
      cases (Extraction.of_reference_mem_sightings hextract hmem).1
  · rintro ⟨p, x, hx, rest⟩
    exact ⟨p, x, List.mem_append_left _ hx, rest⟩

/-- **What is unresolved** after an analysis: what an analysed class references and no class that
was taken in, pattern or platform supplies. -/
theorem contains_unresolved_iff (ok : (analyse fs s).answer = .ok a) (d : Dependency String) :
    a.result.unresolved.contains d = true ↔
      ∃ name user, d = .edge name user ∧
        (∃ file, References (takenAnalysed fs s) file user name) ∧
        (∀ file, ¬ Holds (taken fs s) file name) ∧
        isPlatformClass name = false ∧ ¬ IsProvided s.allProvided name := by
  have extracted := extracted_taken fs s
  have shown := Analyser.shown_result (Analyser.records_replay _) (Analyser.fresh_replay
    (calls s.allProvided (taken fs s)))
  rw [← (analyse_taken ok).1] at shown
  rw [shown.unresolved]
  simp only [Analyser.Call.IsMissing, lastHome?_calls_eq_none extracted,
    edge_mem_pairs_calls extracted, references_taken_iff, ← Bool.not_eq_true,
    isMatch_provided_calls]
  refine exists_congr fun name => exists_congr fun user => and_congr_right fun _ => ?_
  tauto

theorem ReadAlike.symm (h : ReadAlike fs s s') : ReadAlike fs s' s := by
  refine ⟨?_, h.back, h.files⟩
  rw [h.rest]

theorem ReadAlike.takenAnalysed_eq (h : ReadAlike fs s s') :
    takenAnalysed fs s' = takenAnalysed fs s := by
  rw [h.rest]
  rfl

/-- Classes of the same names are taken in from files that read alike. -/
theorem ReadAlike.holds (h : ReadAlike fs s s') (hholds : ∃ file, Holds (taken fs s') file name) :
    ∃ file, Holds (taken fs s) file name := by
  have hfront :
      takenBy fs (libsWalk s' ++ depsWalk s') = takenBy fs (libsWalk s ++ depsWalk s) := by
    rw [h.rest]
    rfl
  obtain ⟨file, p, x, hx, hsame, hname⟩ := hholds
  rw [taken, walksOf, takenBy_append, hfront, takenBy_singleton] at hx
  rw [taken, walksOf, takenBy_append, takenBy_singleton]
  rcases List.mem_append.1 hx with hx | hx
  · exact ⟨file, p, x, List.mem_append_left _ hx, hsame, hname⟩
  · obtain ⟨other, hother⟩ :=
      h.files.holds s.binaries ⟨file, p, x, hx, hsame, hname⟩
    exact ⟨other, hother.mono (List.subset_append_right _ _)⟩

/-- **Files that read alike** make no difference to the containers that are analysed and to what is
unresolved. -/
theorem ReadAlike.unresolved_eq {again : Analysis} (h : ReadAlike fs s s')
    (ok : (analyse fs s).answer = .ok a) (ok' : (analyse fs s').answer = .ok again) :
    again.containers = a.containers ∧ again.result.unresolved = a.result.unresolved := by
  refine ⟨?_, OrderedSet.ext_contains fun d => ?_⟩
  · rw [(analyse_taken ok).2, (analyse_taken ok').2]
    exact congrArg _ (congrArg (List.map Prod.fst) h.takenAnalysed_eq)
  · have hprovided : s'.allProvided = s.allProvided := by
      rw [h.rest]
      rfl
    have hholds : ∀ name, (∀ file, ¬ Holds (taken fs s') file name) ↔
        ∀ file, ¬ Holds (taken fs s) file name := by
      intro name
      rw [← not_exists, ← not_exists]
      exact not_congr ⟨h.holds, h.symm.holds⟩
    rw [contains_unresolved_iff ok, contains_unresolved_iff ok', h.takenAnalysed_eq, hprovided]
    simp only [hholds]

end Analysis

/-! ## Checked settings -/

theorem exists_mem_of_forall₂ {α : Type} {R : α → α → Prop} {xs ys : List α}
    (h : List.Forall₂ R xs ys) : ∀ y ∈ ys, ∃ x ∈ xs, R x y := by
  induction h with
  | nil => exact fun _ hy => nomatch hy
  | cons hfirst _ ih =>
    refine List.forall_mem_cons.2 ⟨⟨_, List.mem_cons_self, hfirst⟩, fun y hy => ?_⟩
    obtain ⟨x, hx, hxy⟩ := ih y hy
    exact ⟨x, List.mem_cons_of_mem _ hx, hxy⟩

namespace Settings

variable {fs : FileSystem} {given given' s s' : Settings}

/-- Two settings differ in nothing but how their paths are spelled. -/
structure Respelled (fs : FileSystem) (given given' : Settings) : Prop where
  binaries : fs.SpelledAlike given.binaries given'.binaries
  output : fs.SpelledAlike given.output given'.output
  repository : Option.Rel fs.SpelledAlike given.repository given'.repository
  dependencyFiles : List.Forall₂ fs.SpelledAlike given.dependencyFiles given'.dependencyFiles
  rest : given' = { given with
    binaries := given'.binaries
    output := given'.output
    repository := given'.repository
    dependencyFiles := given'.dependencyFiles }

/-- **The checks** make the paths of the binaries and of the result absolute, and leave those of the
repository and of the files that are only listed as they are. -/
theorem validate_respelled (inOrder : fs.InOrder) (h : Respelled fs given given')
    (hs : validate fs given = .ok s) (hs' : validate fs given' = .ok s') :
    s.repository = given.repository.or (some (defaultRepository fs)) ∧
      s.dependencyFiles = given.dependencyFiles ∧
      s' = { s with
        repository := given'.repository.or (some (defaultRepository fs))
        dependencyFiles := given'.dependencyFiles } := by
  obtain ⟨binaries, output, hbinaries, -, houtput, rfl, -⟩ := validate_eq_ok.1 hs
  obtain ⟨binaries', output', hbinaries', -, houtput', rfl, -⟩ := validate_eq_ok.1 hs'
  obtain rfl := FileSystem.canonical_spelledAlike h.binaries inOrder hbinaries hbinaries'
  obtain rfl := FileSystem.absolute_spelledAlike h.output inOrder houtput houtput'
  refine ⟨rfl, rfl, ?_⟩
  rw [located, h.rest]
  rfl

/-- Files that are spelled in another way read alike. -/
theorem readAlike_of_respelled (inOrder : fs.InOrder) (h : Respelled fs given given')
    (hs : validate fs given = .ok s) (hs' : validate fs given' = .ok s')
    (hreach : fs.hasFolder fs.workingDirectory = true)
    (hfiles : ∀ file ∈ given.dependencyFiles ++ given'.dependencyFiles, NamesFile file) :
    Analysis.ReadAlike fs s s' := by
  obtain ⟨-, hlisted, hrest⟩ := validate_respelled inOrder h hs hs'
  obtain ⟨hgiven, hgiven'⟩ := List.forall_mem_append.1 hfiles
  have hlisted' : s'.dependencyFiles = given'.dependencyFiles := by rw [hrest]
  refine ⟨by rw [hrest], ?_, ?_⟩
  · rw [hlisted, hlisted']
    intro q hq
    obtain ⟨p, hp, halike⟩ := exists_mem_of_forall₂ h.dependencyFiles q hq
    exact ⟨p, hp, FileSystem.readsAs_spelledAlike halike inOrder hreach (hgiven p hp)
      (hgiven' q hq)⟩
  · rw [hlisted, hlisted']
    intro p hp
    obtain ⟨q, hq, halike⟩ := exists_mem_of_forall₂ h.dependencyFiles.flip p hp
    exact ⟨q, hq, FileSystem.readsAs_spelledAlike (FileSystem.SpelledAlike.symm halike) inOrder
      hreach (hgiven' q hq) (hgiven p hp)⟩

end Settings

/-- **How paths are spelled** makes no difference to where a run writes. It makes none to the run at
all where only the paths of the binaries and of the result are spelled in another way, which the
checks make absolute. Where files that are only listed are spelled in another way, or the
repository, the analysis still comes to its end for the one if it does for the other, with the same
containers and the same unresolved classes. -/
theorem run_of_respelled {fs : FileSystem} {given given' s s' : Settings} (inOrder : fs.InOrder)
    (h : Settings.Respelled fs given given') (hs : Settings.validate fs given = .ok s)
    (hs' : Settings.validate fs given' = .ok s') :
    (s'.binaries = s.binaries ∧ s'.output = s.output) ∧
    (given'.repository = given.repository → given'.dependencyFiles = given.dependencyFiles →
      ∀ now breakdown, run now s' breakdown = run now s breakdown) ∧
    (fs.hasFolder fs.workingDirectory = true →
      (∀ file ∈ given.dependencyFiles ++ given'.dependencyFiles, NamesFile file) →
      ((∃ a, (analyse fs s).answer = .ok a) ↔ ∃ a, (analyse fs s').answer = .ok a) ∧
      ∀ a again, (analyse fs s).answer = .ok a → (analyse fs s').answer = .ok again →
        again.containers = a.containers ∧ again.result.unresolved = a.result.unresolved) := by
  obtain ⟨hrepository, hlisted, hrest⟩ := Settings.validate_respelled inOrder h hs hs'
  refine ⟨⟨by rw [hrest], by rw [hrest]⟩, ?_, ?_⟩
  · intro hsame hfiles now breakdown
    have heq : s' = s := by rw [hrest, hsame, hfiles, ← hrepository, ← hlisted]
    rw [heq]
  · intro hreach hfiles
    have halike := Settings.readAlike_of_respelled inOrder h hs hs' hreach hfiles
    refine ⟨⟨?_, ?_⟩, fun a again => halike.unresolved_eq⟩
    · exact fun ⟨a, ok⟩ => Analysis.exists_analyse_of_readAlike halike ok
    · exact fun ⟨a, ok⟩ => Analysis.exists_analyse_of_readAlike halike.symm ok

/-! ## Two spellings of one run -/

open Analysis (secondA listingSecondA)

/-- The settings of `Analysis.listingSecondA`, with all of their paths spelled out. -/
def listingWhole : Settings :=
  { listingSecondA with
    binaries := ⟨"/work/bin"⟩
    output := ⟨"/work/target/mavenizer/mavenizer.xml"⟩
    dependencyFiles := [⟨"/work/A.class"⟩] }

theorem run_of_respelled_secondA :
    ∃ s s' a again, Settings.validate secondA listingSecondA = .ok s ∧
      Settings.validate secondA listingWhole = .ok s' ∧
      (analyse secondA s).answer = .ok a ∧ (analyse secondA s').answer = .ok again ∧
      s'.output = s.output ∧ again.result.unresolved = a.result.unresolved := by
  have inOrder : secondA.InOrder := ⟨by decide +kernel, by decide +kernel⟩
  have respelled : Settings.Respelled secondA listingSecondA listingWhole := by
    refine ⟨.inr (.inl ⟨?_, ?_⟩), .inr (.inl ⟨?_, ?_⟩), .none,
      .cons (.inr (.inl ⟨?_, ?_⟩)) .nil, rfl⟩ <;> decide +kernel
  have files : ∀ file ∈ listingSecondA.dependencyFiles ++ listingWhole.dependencyFiles,
      NamesFile file := by
    have short : ∀ file ∈ listingSecondA.dependencyFiles ++ listingWhole.dependencyFiles,
        file.fileName.isSome = true ∧ FileSystem.isLongPath file = false := by decide +kernel
    exact fun file hfile => ⟨(short file hfile).1, (short file hfile).2⟩
  have check : (Settings.validate secondA listingSecondA).toOption.any (fun s =>
      (analyse secondA s).answer.toOption.isSome) = true := by decide +kernel
  have check' : (Settings.validate secondA listingWhole).toOption.isSome = true := by
    decide +kernel
  generalize hs : Settings.validate secondA listingSecondA = checked at check
  generalize hs' : Settings.validate secondA listingWhole = checked' at check'
  cases checked with
  | error cause => cases check
  | ok s =>
    cases checked' with
    | error cause => cases check'
    | ok s' =>
      cases ok : (analyse secondA s).answer with
      | error cause => simp [ok, Except.toOption] at check
      | ok a =>
        obtain ⟨⟨-, houtput⟩, -, hanalyse⟩ := run_of_respelled inOrder respelled hs hs'
        obtain ⟨hends, hsame⟩ := hanalyse (by decide +kernel) files
        obtain ⟨again, ok'⟩ := hends.1 ⟨a, ok⟩
        exact ⟨s, s', a, again, rfl, rfl, ok, ok', houtput, (hsame a again ok ok').2⟩

/-- An archive in a repository, below the working directory. -/
def storedArchive : FileSystem where
  root := .folder (.folder "work" (.folder "m2" (.folder "g" (.folder "a" (.folder "1"
    (.file "a-1.jar" onlyClass 0 .nil) 0 .nil) 0 .nil) 0 .nil) 0 .nil) 0 .nil) 0
  workingNames := ["work"]
  home := ⟨"/work"⟩
  clock := 5

/-- Settings that analyse the files of the repository. -/
def storedRun (repository : Path) : Settings :=
  { Settings.default with
    binaries := ⟨"m2"⟩
    output := ⟨"out.xml"⟩
    repository := some repository
    machineProvided := some [] }

/-- **How the repository is spelled** decides whether a run comes to its end: the files below the
binaries have absolute paths, and none of these starts with a relative one. -/
theorem exists_respelled_apart :
    ¬ ∀ (fs : FileSystem) (given given' s s' : Settings), fs.InOrder →
      Settings.Respelled fs given given' → Settings.validate fs given = .ok s →
      Settings.validate fs given' = .ok s' →
        (run fs s none).answer.toOption.isSome = (run fs s' none).answer.toOption.isSome := by
  intro same
  have inOrder : storedArchive.InOrder := ⟨by decide +kernel, by decide +kernel⟩
  have respelled : Settings.Respelled storedArchive (storedRun ⟨"m2"⟩) (storedRun ⟨"/work/m2"⟩) :=
    ⟨.refl _, .refl _, .some (.inr (.inl ⟨by decide +kernel, by decide +kernel⟩)), .nil, rfl⟩
  have relative : (Settings.validate storedArchive (storedRun ⟨"m2"⟩)).toOption.map (fun s =>
      (run storedArchive s none).answer.toOption.isSome) = some false := by decide +kernel
  have whole : (Settings.validate storedArchive (storedRun ⟨"/work/m2"⟩)).toOption.map (fun s =>
      (run storedArchive s none).answer.toOption.isSome) = some true := by decide +kernel
  generalize hs : Settings.validate storedArchive (storedRun ⟨"m2"⟩) = checked at relative
  generalize hs' : Settings.validate storedArchive (storedRun ⟨"/work/m2"⟩) = checked' at whole
  cases checked with
  | error cause => cases relative
  | ok s =>
    cases checked' with
    | error cause => cases whole
    | ok s' =>
      have hfails : (run storedArchive s none).answer.toOption.isSome = false :=
        Option.some.inj relative
      have hends : (run storedArchive s' none).answer.toOption.isSome = true :=
        Option.some.inj whole
      have heq := same _ _ _ s s' inOrder respelled hs hs'
      rw [hfails, hends] at heq
      cases heq

end JarGraph
