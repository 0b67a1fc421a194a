import JarGraph.Proofs.FileSystem.Scanning
import JarGraph.Proofs.Freshness
import JarGraph.Proofs.Ordered
import JarGraph.Proofs.Run.Repeating
import JarGraph.Proofs.Settings.Validate
/-!
# Runs that are skipped

A run is skipped where the result is newer than all files below the
binaries. The decision sees what was added there or changed, and nothing
else: not what is gone, and not what lies elsewhere. Where nothing of that
has happened, a run that is skipped would have written what the run before
it wrote (`forced_run_of_skipped`). Where a file is gone it need not
(`exists_skipped_run_stale`).
-/

namespace JarGraph

namespace Container

/-- A temporary file is no container. -/
theorem ofPath_temporary {p : Path} (habsolute : p.isAbsolute = true)
    (hp : FileSystem.IsWritable p) : ofPath (AtomicWrite.temporary p) = .other := by
  obtain ⟨above, name, -, hname, -, htemporary, -⟩ := Path.exists_ends habsolute hp.name hp.file
  have hlast : (AtomicWrite.temporary p).fileName = some (name ++ ".tmp") := by
    rw [Path.fileName, htemporary, List.getLast?_concat]
    rfl
  have hsplit : Path.splitName (name ++ ".tmp") = (name, some "tmp") := by
    rw [← Path.splitName_append hname (by decide : '.' ∉ "tmp".toList), String.append_assoc]
    rfl
  have hending : (AtomicWrite.temporary p).extension = some "tmp" := by
    rw [Path.extension, hlast, Option.bind_some, hsplit]
  have hlower : lower "tmp" ≠ "class" ∧ archiveEndings.contains (lower "tmp") = false := by decide
  rw [ofPath, hending]
  dsimp only
  rw [if_neg hlower.1, hlower.2, if_neg Bool.false_ne_true]

end Container

namespace FileSystem

variable {fs fs' : FileSystem} {base p : Path} {filter : PathFilter}

/-! ## The containers below a directory -/

theorem mem_containersOf :
    p ∈ fs.containersOf (.directory base filter) ↔
      fs.Finds base p ∧ filter.accepts (p.relativeSlash base) = true ∧
        Container.ofPath p ≠ .other := by
  rw [containersOf, List.mem_filter, filesOf, mem_files_scan, bne_iff_ne, and_assoc]

theorem ascending_containersOf (hfs : fs.root.WellFormed) :
    (fs.containersOf (.directory base filter)).Pairwise (compare · · = .lt) :=
  List.Pairwise.filter _ (ascending_files_scan hfs)

/-- **Two trees in which the same containers are found** have them in the same order. -/
theorem containersOf_congr (hfs : fs.root.WellFormed) (hfs' : fs'.root.WellFormed)
    (h : ∀ p, Container.ofPath p ≠ .other → filter.accepts (p.relativeSlash base) = true →
      (fs'.Finds base p ↔ fs.Finds base p)) :
    fs'.containersOf (.directory base filter) = fs.containersOf (.directory base filter) := by
  refine eq_of_ascending id (ascending_containersOf hfs') (ascending_containersOf hfs) fun p => ?_
  rw [mem_containersOf, mem_containersOf]
  constructor
  · rintro ⟨hfinds, haccepts, hkind⟩
    exact ⟨(h p hkind haccepts).1 hfinds, haccepts, hkind⟩
  · rintro ⟨hfinds, haccepts, hkind⟩
    exact ⟨(h p hkind haccepts).2 hfinds, haccepts, hkind⟩

/-- Where the result is up to date, all of the directory could be read. -/
theorem filesOf_snd_eq_nil {result : Path} (hfresh : fs.isUpToDate base result = .ok true)
    (filter : PathFilter) : (Walk.Plan.filesOf fs (.directory base filter)).2 = [] := by
  obtain ⟨_, -, hall⟩ := of_isUpToDate hfresh
  have hnone : (fs.scan base filter).errors = [] := by
    refine List.filterMap_eq_nil_iff.2 fun x hx => ?_
    obtain ⟨f, rfl, -⟩ := hall x (findings_subset _ _ _ hx)
    rfl
  rw [Walk.Plan.filesOf, hnone]
  rfl

/-- An absolute path does not stand for the standard input. -/
theorem same_standardInput_of_isAbsolute (h : base.isAbsolute = true) :
    base.same standardInput = false := by
  obtain ⟨rest, hrest⟩ := Path.components_of_isAbsolute h
  have hdash : standardInput.components = [.name "-"] := by decide
  rw [← Bool.not_eq_true, Path.same_iff, hrest, hdash]
  exact nofun

theorem ReadsAlike.trans {fs'' : FileSystem} (h : ReadsAlike fs fs' p)
    (h' : ReadsAlike fs' fs'' p) : ReadsAlike fs fs'' p :=
  Eq.trans h h'

end FileSystem

/-! ## What a run that is done does -/

variable {fs fs' : FileSystem} {s : Settings} {breakdown : Option Breakdown} {a : Analysis}

/-- A run is skipped where it is not forced and the result is up to date. -/
theorem answer_run_eq_none_iff :
    (run fs s breakdown).answer = .ok none ↔
      s.force = false ∧ fs.isUpToDate s.binaries s.output = .ok true := by
  have hdone : (analyseAndWrite fs s breakdown).answer ≠ .ok none := by
    unfold analyseAndWrite
    dsimp only
    split
    · exact nofun
    split
    · exact nofun
    split <;> exact nofun
  unfold run
  cases hforce : s.force with
  | true =>
    rw [if_pos rfl]
    exact iff_of_false hdone nofun
  | false =>
    rw [if_neg Bool.false_ne_true]
    cases hfresh : fs.isUpToDate s.binaries s.output with
    | error cause => exact iff_of_false nofun nofun
    | ok fresh =>
      cases fresh with
      | true => exact iff_of_true rfl ⟨rfl, rfl⟩
      | false => exact iff_of_false hdone nofun

/-- A run that comes to its end without being skipped has written the report of its analysis. -/
theorem written_of_run (h : (run fs s breakdown).answer = .ok (some a)) :
    ∃ set, (analyse fs s).answer = .ok a ∧ (describe fs s a).answer = .ok set ∧
      AtomicWrite.write fs s.output (Text.utf8Bytes (render s set)) breakdown =
        ((run fs s breakdown).files, .ok ()) := by
  have hrun : run fs s breakdown = analyseAndWrite fs s breakdown := by
    unfold run at h ⊢
    split at h
    · cases h
    · cases h
    · rfl
  rw [hrun] at h ⊢
  unfold analyseAndWrite at h ⊢
  dsimp only at h ⊢
  cases hanalysed : (analyse fs s).answer with
  | error cause =>
    rw [hanalysed] at h
    cases h
  | ok b =>
    rw [hanalysed] at h
    dsimp only at h ⊢
    cases hdescribed : ((describe fs s b).within
        "Error while describing the analysed artifacts").answer with
    | error cause =>
      rw [hdescribed] at h
      cases h
    | ok set =>
      rw [hdescribed] at h
      dsimp only at h ⊢
      split at h
      · cases h
      · rename_i written hwrite
        obtain rfl := Option.some.inj (Except.ok.inj h)
        exact ⟨set, rfl, Logged.within_ok hdescribed, by rw [hwrite]⟩

/-- A run that is forced writes the report of its analysis. -/
theorem run_of_forced {set : Artifact.ArtifactSet} (hforce : s.force = true)
    (hanalyse : (analyse fs s).answer = .ok a) (hdescribe : (describe fs s a).answer = .ok set)
    (hwrite : AtomicWrite.write fs s.output (Text.utf8Bytes (render s set)) breakdown =
      (fs', .ok ())) :
    (run fs s breakdown).answer = .ok (some a) ∧ (run fs s breakdown).files = fs' := by
  have hrun : run fs s breakdown = analyseAndWrite fs s breakdown := by
    rw [run, hforce, if_pos rfl]
  rw [hrun]
  unfold analyseAndWrite
  dsimp only
  rw [hanalyse]
  dsimp only
  rw [Logged.within_of_ok hdescribe]
  dsimp only
  rw [hwrite]
  exact ⟨rfl, rfl⟩

/-! ## Whether a run is forced -/

section

variable (fs : FileSystem) (s : Settings) (force : Bool)

theorem walk_force : Analysis.walk fs { s with force } = Analysis.walk fs s :=
  rfl

/-- That a run is forced does not show in its analysis. -/
theorem analyse_force : analyse fs { s with force } = analyse fs s := by
  have hlibs : Analysis.walkLibs fs { s with force } = Analysis.walkLibs fs s := by
    unfold Analysis.walkLibs
    rw [walk_force]
  have hdeps : Analysis.walkDeps fs { s with force } = Analysis.walkDeps fs s := by
    unfold Analysis.walkDeps
    rw [walk_force]
    rfl
  have hfiles : Analysis.walkDependencyFiles fs { s with force } =
      Analysis.walkDependencyFiles fs s := by
    unfold Analysis.walkDependencyFiles
    rw [walk_force]
  unfold analyse
  rw [hlibs, hdeps, hfiles]
  rfl

theorem describe_force (a : Analysis) : describe fs { s with force } a = describe fs s a :=
  rfl

theorem render_force (set : Artifact.ArtifactSet) : render { s with force } set = render s set :=
  rfl

end

/-! ## What may have changed -/

/-- A walk of a run takes a file at the path for one of its containers, if the file is found below
the binaries. -/
def Settings.Takes (s : Settings) (p : Path) : Prop :=
  Container.ofPath p ≠ .other ∧ ∃ walk ∈ Analysis.walksOf s, ∃ filter,
    walk.2 = .directory s.binaries filter ∧ filter.accepts (p.relativeSlash s.binaries) = true

/-- The result lies where a walk takes it for one of its containers. -/
def TakesResult (fs : FileSystem) (s : Settings) : Prop :=
  ∃ names more, fs.route s.binaries = .ok names ∧ fs.route s.output = .ok (names ++ more) ∧
    fs.Finds s.binaries (s.binaries.below more) ∧ s.Takes (s.binaries.below more)

/-- What may have changed since a run that was done in one tree, `before`, and left another one,
`after`: nothing that the run had read is gone or reads otherwise, unless what took its place was
changed no earlier than the result was. -/
structure ChangedOpenly (s : Settings) (before after now : FileSystem) : Prop where
  /-- A container below the binaries was there and reads as it did, or it was changed no earlier
  than the result. -/
  changed : ∀ f, .ok f ∈ now.findings s.binaries bookkeepingNames.contains → s.Takes f.path →
    (after.Finds s.binaries f.path ∧ after.ReadsAlike now f.path) ∨
      ∀ written, now.modified? s.output = some written → written ≤ f.modified
  /-- None that was there is gone. -/
  kept : ∀ p, s.Takes p → after.Finds s.binaries p → now.Finds s.binaries p
  /-- The containers that are given one by one read as they did when the run read them. -/
  given : ∀ p ∈ s.dependencyFiles, Container.ofPath p ≠ .other → before.ReadsAlike now p
  /-- The result is still a file. -/
  result : now.IsFile s.output
  /-- No directory has taken the place of the temporary file. -/
  free : now.hasFolder (AtomicWrite.temporary s.output) = false

/-- A run has written its result, to which the settings give an absolute path, as they do to the
directory that the walks start from. -/
structure RunLeft (s : Settings) (before : FileSystem) (content : Bytes) (after : FileSystem) :
    Prop extends FileSystem.Written before s.output content after where
  ordered : before.InOrder
  hasBinaries : before.hasFolder s.binaries = true
  absoluteBinaries : s.binaries.isAbsolute = true
  absoluteOutput : s.output.isAbsolute = true
  writable : FileSystem.IsWritable s.output
  apart : ¬ TakesResult after s

namespace RunLeft

variable {before after : FileSystem} {content : Bytes} {p : Path}

/-- The binaries are where they were. -/
theorem exists_route (h : RunLeft s before content after) :
    ∃ names, before.route s.binaries = .ok names ∧ before.see names = some .folder ∧
      after.route s.binaries = .ok names ∧ after.see names = some .folder := by
  obtain ⟨names, hroute, hsee⟩ := FileSystem.hasFolder_iff.1 h.hasBinaries
  obtain ⟨except, hkeeps, -⟩ := h.keeps
  have hsee' := hkeeps.folders names hsee
  refine ⟨names, hroute, hsee, ?_, hsee'⟩
  exact FileSystem.route_of_keeps h.ordered.working hkeeps hroute (by rw [hsee']; rfl)

theorem same_standardInput (h : RunLeft s before content after) :
    s.binaries.same FileSystem.standardInput = false :=
  FileSystem.same_standardInput_of_isAbsolute h.absoluteBinaries

/-- A row of names that is open and leads to the result is none that a walk takes. -/
theorem ne_of_takes (h : RunLeft s before content after) {names more : List String}
    (hroute : after.route s.binaries = .ok names) (hsee : after.see names = some .folder)
    (hopen : IsOpen bookkeepingNames.contains s.binaries more)
    (htakes : s.Takes (s.binaries.below more)) :
    after.route s.output ≠ .ok (names ++ more) := by
  intro hplace
  obtain ⟨place, modified, hplace', hfile⟩ := FileSystem.readFile_eq_ok.1 h.reads
  obtain rfl := Except.ok.inj (hplace.symm.trans hplace')
  have hfinds := (FileSystem.finds_iff h.inOrder.wellFormed h.same_standardInput hroute hsee).2
    ⟨more, content, modified, hopen, hfile, rfl⟩
  exact h.apart ⟨names, more, hroute, hplace, hfinds, htakes⟩

/-- The two files that the run touched are no containers that a walk takes. -/
theorem finds_iff (h : RunLeft s before content after) (hp : s.Takes p) :
    (before.Finds s.binaries p ↔ after.Finds s.binaries p) ∧
      (before.Finds s.binaries p → before.ReadsAlike after p) := by
  obtain ⟨names, hroute, hsee, hroute', hsee'⟩ := h.exists_route
  obtain ⟨except, hkeeps, hexcept⟩ := h.keeps
  refine FileSystem.finds_of_keeps h.ordered h.inOrder hkeeps h.same_standardInput hroute hsee ?_
  rintro more hentries hopen rfl hmem
  have hmore : more ≠ [] := by
    rintro rfl
    exact hopen
  rcases hexcept _ hmem with hplace | hstaged
  · exact h.ne_of_takes hroute' hsee' hopen hp hplace
  · rw [List.getLast?_append_of_ne_nil _ hmore, ← FileSystem.fileName_below
      (FileSystem.ne_nil_of_route hroute) hmore hentries] at hstaged
    exact hp.1 ((Container.ofPath_of_fileName hstaged).trans
      (Container.ofPath_temporary h.absoluteOutput h.writable))

/-- No other tree has a container at the path of the result, either. -/
theorem not_same (h : RunLeft s before content after) {now : FileSystem} (hnow : now.InOrder)
    {f : ScannedFile} (hf : .ok f ∈ now.findings s.binaries bookkeepingNames.contains)
    (htakes : s.Takes f.path) : f.path.same s.output = false := by
  rw [← Bool.not_eq_true]
  intro hsame
  obtain ⟨names, -, -, hroute, hsee⟩ := h.exists_route
  obtain ⟨place, modified, hplace, hfile⟩ := FileSystem.readFile_eq_ok.1 h.reads
  obtain ⟨more, hentries, hmore, hpath⟩ :=
    FileSystem.exists_below_of_mem_findings hnow.wellFormed hf
  rw [hpath] at hsame htakes
  obtain rfl := FileSystem.eq_of_route_below h.absoluteBinaries hroute hentries hplace hsame
  rcases hmore with rfl | hopen
  · rw [List.append_nil, hsee] at hfile
    cases hfile
  · exact h.ne_of_takes hroute hsee hopen htakes hplace

end RunLeft

namespace ChangedOpenly

variable {before after now : FileSystem} {content : Bytes}

/-- Where the result is up to date, the containers below the binaries are those that the run left,
and read as they did. -/
theorem finds_iff (h : ChangedOpenly s before after now) (hleft : RunLeft s before content after)
    (hnow : now.InOrder) (hfresh : now.isUpToDate s.binaries s.output = .ok true) {p : Path}
    (hp : s.Takes p) :
    (now.Finds s.binaries p ↔ after.Finds s.binaries p) ∧
      (now.Finds s.binaries p → after.ReadsAlike now p) := by
  obtain ⟨written, hwritten, hall⟩ := FileSystem.of_isUpToDate hfresh
  have hold : now.Finds s.binaries p → after.Finds s.binaries p ∧ after.ReadsAlike now p := by
    rintro ⟨f, hf, rfl⟩
    refine (h.changed f hf hp).resolve_right fun hlate => ?_
    obtain ⟨g, hg, hlt⟩ := hall _ (FileSystem.findings_subset _ _ _ hf)
    obtain rfl := Except.ok.inj hg
    exact absurd (hlate written hwritten) (Nat.not_le_of_lt (hlt (hleft.not_same hnow hf hp)))
  exact ⟨⟨fun hfinds => (hold hfinds).1, h.kept p hp⟩, fun hfinds => (hold hfinds).2⟩

/-- **The walks of a run** that is skipped would meet the same as those of the run before it. -/
theorem walksAlike (h : ChangedOpenly s before after now) (hleft : RunLeft s before content after)
    (hnow : now.InOrder) (hfresh : now.isUpToDate s.binaries s.output = .ok true) :
    Analysis.WalksAlike before now s := by
  have hsame : ∀ p, s.Takes p →
      (now.Finds s.binaries p ↔ before.Finds s.binaries p) ∧
        (before.Finds s.binaries p → before.ReadsAlike now p) := by
    intro p hp
    obtain ⟨hafter, hreads⟩ := h.finds_iff hleft hnow hfresh hp
    obtain ⟨hbefore, hreads'⟩ := hleft.finds_iff hp
    have hfinds := hafter.trans hbefore.symm
    exact ⟨hfinds, fun hfound => (hreads' hfound).trans (hreads (hfinds.2 hfound))⟩
  intro walk hwalk
  rcases Analysis.source_of_mem_walksOf hwalk with ⟨filter, hsource⟩ | hsource
  · rw [hsource]
    refine ⟨⟨?_, fun file hfile => ?_⟩, FileSystem.filesOf_snd_eq_nil hfresh filter⟩
    · exact FileSystem.containersOf_congr hleft.ordered.wellFormed hnow.wellFormed
        fun p hkind haccepts => (hsame p ⟨hkind, walk, hwalk, filter, hsource, haccepts⟩).1
    · obtain ⟨hfinds, haccepts, hkind⟩ := FileSystem.mem_containersOf.1 hfile
      exact (hsame file ⟨hkind, walk, hwalk, filter, hsource, haccepts⟩).2 hfinds
  · rw [hsource]
    refine ⟨⟨rfl, fun file hfile => ?_⟩, rfl⟩
    have hmem : file ∈ s.dependencyFiles := (List.mem_filter.1 hfile).1
    exact h.given file hmem (Walk.ne_other_of_mem_containersOf hfile)

end ChangedOpenly

/-- **A run that is skipped** would have written what the run before it wrote, if nothing that this
one had read is gone or changed behind its back. -/
theorem forced_run_of_skipped {given : Settings} {before now : FileSystem}
    {breakdown' : Option Breakdown} (hbefore : before.InOrder) (hnow : now.InOrder)
    (hvalid : Settings.validate before given = .ok s)
    (hrun : (run before s breakdown).answer = .ok (some a))
    (hapart : ¬ TakesResult (run before s breakdown).files s)
    (hchanged : ChangedOpenly s before (run before s breakdown).files now)
    (hskip : (run now s breakdown').answer = .ok none) :
    ∃ content again, (run before s breakdown).files.readFile s.output = .ok content ∧
      (run now { s with force := true } none).answer = .ok (some again) ∧
      (run now { s with force := true } none).files.readFile s.output = .ok content := by
  obtain ⟨hbinaries, hstart, habsolute⟩ := Settings.of_validate hvalid
  have hfresh := (answer_run_eq_none_iff.1 hskip).2
  obtain ⟨set, hanalyse, hdescribe, hwrite⟩ := written_of_run hrun
  have hwritten := FileSystem.written_of_write hbefore hwrite
  have hwritable := FileSystem.isWritable_of_write hbefore hwrite
  have halike := hchanged.walksAlike
    ⟨hwritten, hbefore, hbinaries, hstart, habsolute, hwritable, hapart⟩ hnow hfresh
  obtain ⟨again, hagain, hresult, hcontainers⟩ := Analysis.exists_analyse_of_alike hanalyse halike
  have hdescribe' := Analysis.describe_of_alike hanalyse halike hresult hcontainers hdescribe
  obtain ⟨after, hafter⟩ := FileSystem.write_of_isFile hwritable habsolute hnow hchanged.result
    hchanged.free (Text.utf8Bytes (render s set))
  rw [← analyse_force now s true] at hagain
  rw [← describe_force now s true] at hdescribe'
  have hafter' := hafter
  rw [← render_force s true] at hafter'
  obtain ⟨hanswer, hfiles⟩ := run_of_forced rfl hagain hdescribe' hafter'
  refine ⟨_, again, hwritten.reads, hanswer, ?_⟩
  rw [hfiles]
  exact (FileSystem.written_of_write hnow hafter).reads

/-! ## Skipped runs over one archive -/

/-- The bytes of an archive of one class `A`. -/
def onlyClass : Bytes :=
  [80, 75, 3, 4, 20, 0, 0, 0, 0, 0, 0, 0, 0, 0, 97, 2, 206, 82, 31, 0, 0, 0, 31, 0, 0, 0, 7, 0, 0,
    0, 65, 46, 99, 108, 97, 115, 115, 202, 254, 186, 190, 0, 0, 0, 52, 0, 3, 1, 0, 1, 65, 7, 0, 1,
    0, 33, 0, 2, 0, 0, 0, 0, 0, 0, 0, 0, 0, 0, 80, 75, 1, 2, 20, 0, 20, 0, 0, 0, 0, 0, 0, 0, 0, 0,
    97, 2, 206, 82, 31, 0, 0, 0, 31, 0, 0, 0, 7, 0, 0, 0, 0, 0, 0, 0, 0, 0, 0, 0, 0, 0, 0, 0, 0, 0,
    65, 46, 99, 108, 97, 115, 115, 80, 75, 5, 6, 0, 0, 0, 0, 1, 0, 1, 0, 53, 0, 0, 0, 68, 0, 0, 0,
    0, 0]

/-- The archive, among the binaries. -/
def oneArchive : FileSystem where
  root := .folder (.folder "work"
    (.folder "bin" (.file "a-1.jar" onlyClass 0 .nil) 0 .nil) 0 .nil) 0
  workingNames := ["work"]
  home := ⟨"/work"⟩
  clock := 5

/-- Settings of a run over the binaries, as they are checked. -/
def archiveRun : Settings :=
  { Settings.default with
    binaries := ⟨"/work/bin"⟩
    output := ⟨"/work/m.xml"⟩
    repository := some ⟨"/work/.m2/repository"⟩
    machineProvided := some []
    artifacts := [{ Artifact.Hint.empty with groupId := some "g" }] }

/-- The report of the run. -/
def archiveReport : String :=
  "<?xml version=\"1.0\" encoding=\"UTF-8\"?>\n<artifacts>\n  <artifact name=\"a-1.jar\">\n" ++
    "    <groupid>g</groupid>\n    <artifactid>a</artifactid>\n    <version>1</version>\n" ++
    "  </artifact>\n</artifacts>\n"

/-- Some binaries, and beside them what the run has written. -/
def reported (binaries : Listing) : FileSystem where
  root := .folder (.folder "work"
    (.folder "bin" binaries 0 (.file "m.xml" (Text.utf8Bytes archiveReport) 5 .nil)) 7 .nil) 0
  workingNames := ["work"]
  home := ⟨"/work"⟩
  clock := 8

/-- After the run, an old note is put beside the archive. -/
def noted : FileSystem :=
  reported (.file "a-1.jar" onlyClass 0 (.file "note.txt" [120] 0 .nil))

/-- After the run, the archive is removed. -/
def emptied : FileSystem :=
  (reported (.file "a-1.jar" onlyClass 0 .nil)).removeNode (["work", "bin"] ++ ["a-1.jar"])

theorem validate_archiveRun :
    Settings.validate oneArchive { archiveRun with
      binaries := ⟨"bin"⟩, output := ⟨"m.xml"⟩, repository := none } = .ok archiveRun :=
  Answer.toOption_eq_some.1 (by decide +kernel)

theorem inOrder_oneArchive : oneArchive.InOrder :=
  ⟨by decide +kernel, by decide +kernel⟩

theorem exists_of_done {answer : Except Failure (Option Analysis)}
    (h : answer.toOption.any Option.isSome = true) : ∃ a, answer = .ok (some a) := by
  rcases answer with cause | _ | a
  · cases h
  · cases h
  · exact ⟨a, rfl⟩

theorem exists_run_archiveRun : ∃ a, (run oneArchive archiveRun none).answer = .ok (some a) :=
  exists_of_done (by decide +kernel)

theorem files_run_archiveRun :
    (run oneArchive archiveRun none).files = reported (.file "a-1.jar" onlyClass 0 .nil) := by
  decide +kernel

/-- The result of the run lies beside the binaries. -/
theorem not_takesResult_archiveRun (binaries : Listing) :
    ¬ TakesResult (reported binaries) archiveRun := by
  rintro ⟨names, more, hbinaries, houtput, -⟩
  have hbinaries' : (reported binaries).route archiveRun.binaries = .ok ["work", "bin"] := by rfl
  have houtput' : (reported binaries).route archiveRun.output = .ok ["work", "m.xml"] := by rfl
  obtain rfl := Except.ok.inj (hbinaries.symm.trans hbinaries')
  have hnames := Except.ok.inj (houtput.symm.trans houtput')
  simp at hnames

/-- Nothing that the run had read was touched. -/
theorem changedOpenly_noted :
    ChangedOpenly archiveRun oneArchive (reported (.file "a-1.jar" onlyClass 0 .nil)) noted := by
  have hafter : (reported (.file "a-1.jar" onlyClass 0 .nil)).findings archiveRun.binaries
      bookkeepingNames.contains = [.ok ⟨⟨"/work/bin/a-1.jar"⟩, 0⟩] := by decide +kernel
  have hnow : noted.findings archiveRun.binaries bookkeepingNames.contains =
      [.ok ⟨⟨"/work/bin/a-1.jar"⟩, 0⟩, .ok ⟨⟨"/work/bin/note.txt"⟩, 0⟩] := by decide +kernel
  refine ⟨fun f hf htakes => .inl ?_, ?_, nofun, by decide +kernel, by decide +kernel⟩
  · rw [hnow, List.mem_pair] at hf
    rcases hf with hf | hf
    · obtain rfl := Except.ok.inj hf
      refine ⟨⟨_, ?_, rfl⟩, by decide +kernel⟩
      rw [hafter]
      exact List.mem_singleton_self _
    · obtain rfl := Except.ok.inj hf
      exact absurd (by decide +kernel) htakes.1
  · rintro p - ⟨f, hf, rfl⟩
    rw [hafter, List.mem_singleton] at hf
    refine ⟨f, ?_, rfl⟩
    rw [hnow, hf]
    exact List.mem_cons_self

theorem forced_run_of_skipped_noted :
    ∃ content again,
      (run oneArchive archiveRun none).files.readFile archiveRun.output = .ok content ∧
        (run noted { archiveRun with force := true } none).answer = .ok (some again) ∧
        (run noted { archiveRun with force := true } none).files.readFile archiveRun.output =
          .ok content := by
  obtain ⟨a, hrun⟩ := exists_run_archiveRun
  have hnow : noted.InOrder := ⟨by decide +kernel, by decide +kernel⟩
  have hskip : (run noted archiveRun none).answer = .ok none :=
    answer_run_eq_none_iff.2 ⟨rfl, by decide +kernel⟩
  refine forced_run_of_skipped inOrder_oneArchive hnow validate_archiveRun hrun ?_ ?_ hskip
  · rw [files_run_archiveRun]
    exact not_takesResult_archiveRun _
  · rw [files_run_archiveRun]
    exact changedOpenly_noted

/-- **A skipped run can leave a result that is stale**, although no file is there that was changed
since: a file is gone. -/
theorem exists_skipped_run_stale :
    ¬ ∀ (before now : FileSystem) (given s : Settings) (a : Analysis),
      before.InOrder → now.InOrder → Settings.validate before given = .ok s →
      (run before s none).answer = .ok (some a) →
      (∀ names content modified, now.see names = some (.file content modified) →
        (run before s none).files.see names = some (.file content modified) ∨
          ∀ written, now.modified? s.output = some written → written ≤ modified) →
      (run now s none).answer = .ok none →
        ∃ content again, now.readFile s.output = .ok content ∧
          (run now { s with force := true } none).answer = .ok (some again) ∧
          (run now { s with force := true } none).files.readFile s.output = .ok content := by
  intro always
  obtain ⟨a, hrun⟩ := exists_run_archiveRun
  have hnow : emptied.InOrder := ⟨by decide +kernel, by decide +kernel⟩
  have hchanged : ∀ names content modified, emptied.see names = some (.file content modified) →
      (run oneArchive archiveRun none).files.see names = some (.file content modified) := by
    intro names content modified hsee
    rw [emptied] at hsee
    rw [files_run_archiveRun]
    by_cases hprefix : ["work", "bin"] ++ ["a-1.jar"] <+: names
    · obtain ⟨more, rfl⟩ := hprefix
      rw [FileSystem.see_removeNode_self] at hsee
      cases hsee
    · rwa [FileSystem.see_removeNode_other hprefix] at hsee
  have hskip : (run emptied archiveRun none).answer = .ok none :=
    answer_run_eq_none_iff.2 ⟨rfl, by decide +kernel⟩
  have hstale : (run emptied { archiveRun with force := true } none).files.readFile
      archiveRun.output ≠ emptied.readFile archiveRun.output := by decide +kernel
  obtain ⟨content, again, hleft, -, hforced⟩ := always oneArchive emptied _ archiveRun a
    inOrder_oneArchive hnow validate_archiveRun hrun
    (fun names content modified hsee => .inl (hchanged names content modified hsee)) hskip
  exact hstale (hforced.trans hleft.symm)

end JarGraph
