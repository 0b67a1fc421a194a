import JarGraph.Proofs.FileSystem.Canonical
import JarGraph.Proofs.Run.Skipping
/-!
# The run after a run

A run that wrote its result leaves a tree in which the same settings are
in order again, and name the same places (`Settings.validate_of_keeps`).
Whether the next run is skipped is told by the files that the first one
left (`skipped_again_iff`): everything below the binaries has to be
readable and older than the result. The result itself is left out if it
lies there, but only where its path spells out the names that lead to it.
With a step up in it, it is taken for another file, which is not older
than itself, and no run is ever skipped (`exists_run_repeated`).
-/

namespace JarGraph

/-! ## The home directory -/

namespace FileSystem

variable {fs fs' : FileSystem} {p : Path} {content : Bytes} {names : List String}
variable {breakdown : Option Breakdown}

theorem home_putNode (fs : FileSystem) (names : List String) (node : Node) :
    (fs.putNode names node).home = fs.home := by
  unfold putNode
  split <;> rfl

theorem home_removeNode (fs : FileSystem) (names : List String) :
    (fs.removeNode names).home = fs.home := by
  unfold removeNode
  split <;> rfl

theorem home_makeFolder (h : fs.makeFolder p = .ok fs') : fs'.home = fs.home := by
  obtain ⟨found, -, hmake⟩ := Answer.bind_eq_ok.1 h
  cases hthere : found.node with
  | some node =>
    rw [hthere] at hmake
    cases hmake
  | none =>
    rw [hthere] at hmake
    obtain rfl := Except.ok.inj hmake
    exact home_putNode _ _ _

/-- Directories that are made leave the home directory where it is. -/
theorem home_makeFoldersBy_go {steps : Nat} {answer : Except IoError Unit}
    (h : makeFoldersBy.go makeFolder fs p steps = (fs', answer)) : fs'.home = fs.home := by
  induction steps generalizing fs fs' p answer with
  | zero =>
    obtain ⟨rfl, -⟩ := Prod.mk.inj h
    rfl
  | succ steps ih =>
    obtain ⟨between, hbefore, hthen⟩ := makeFoldersBy_go_cases h
    have hbetween : between.home = fs.home := by
      rcases hbefore with rfl | ⟨above, first, habove⟩
      · rfl
      · exact ih habove
    rw [← hbetween]
    rcases hthen with hmade | ⟨rfl, -⟩
    · exact home_makeFolder hmade
    · rfl

open AtomicWrite in
theorem home_prepare (h : prepare fs p breakdown = (fs', .ok ())) : fs'.home = fs.home := by
  unfold prepare at h
  split at h
  · obtain ⟨rfl, -⟩ := Prod.mk.inj h
    rfl
  dsimp only at h
  split at h
  · cases (Prod.mk.inj h).2
  split at h
  · rename_i made hmade
    obtain ⟨rfl, -⟩ := Prod.mk.inj h
    exact home_makeFoldersBy_go hmade
  · cases (Prod.mk.inj h).2

open AtomicWrite in
/-- A write leaves the home directory where it is. -/
theorem home_write (hfs : fs.InOrder) (h : write fs p content breakdown = (fs', .ok ())) :
    fs'.home = fs.home := by
  obtain ⟨prepared, staged, hprepare, hstage, hpublish⟩ := write_eq_ok.1 h
  obtain ⟨hprepared, -, -⟩ := of_prepare hfs hprepare
  obtain ⟨dir, name, -, -, -, -, -, rfl⟩ := of_writeFile hprepared (of_stage hstage)
  obtain ⟨old, new, bytes, time, -, -, -, -, -, -, rfl⟩ := of_moveFile (of_publish hpublish)
  rw [home_putNode, home_removeNode, home_putNode, home_prepare hprepare]

/-! ## Results that are older than nothing else -/

variable {binaries result : Path} {start : List String}

/-- Everything below a directory is seen, with its time, by one who goes through all of it, and but
for a result it is older than a time. -/
structure Outdates (fs : FileSystem) (binaries result : Path) (start : List String)
    (written : Instant) : Prop where
  /-- Every directory can be read. -/
  readable : ∀ more, fs.see (start ++ more) = some .folder →
    isLongPath (binaries.below more) = false
  /-- Every file but the result is older. One whose path is too long counts as the oldest. -/
  older : ∀ more bytes modified, fs.see (start ++ more) = some (.file bytes modified) →
    (binaries.below more).same result = false →
      (ScannedFile.at (binaries.below more) modified).modified < written

/-- Where the directories that are come to can be read, all of them can: the first on a way that
cannot is come to. -/
theorem short_of_open (hroute : fs.route binaries = .ok start)
    (h : ∀ more, IsReadable binaries more → more ≠ [] → fs.see (start ++ more) = some .folder →
      isLongPath (binaries.below more) = false) :
    ∀ more, fs.see (start ++ more) = some .folder → isLongPath (binaries.below more) = false := by
  intro more
  induction hlength : more.length using Nat.strong_induction_on generalizing more with
  | _ length ih =>
    intro hfolder
    by_cases hmore : more = []
    · subst hmore
      exact (route_eq_ok.1 hroute).1.short
    refine h more ?_ hmore hfolder
    rintro above next rfl - hnext
    refine ih above.length ?_ above rfl ?_
    · have := List.length_pos_iff.2 hnext
      rw [← hlength, List.length_append]
      omega
    · refine see_prefix_folder _ hnext ?_
      rw [List.append_assoc, hfolder]
      rfl

/-- **When a result below or beside a directory is up to date.** -/
theorem isUpToDate_iff_outdates (hfs : fs.root.WellFormed)
    (hstart : binaries.same standardInput = false) (hroute : fs.route binaries = .ok start)
    (hsee : fs.see start = some .folder) :
    fs.isUpToDate binaries result = .ok true ↔
      ∃ written, fs.modified? result = some written ∧
        fs.Outdates binaries result start written := by
  rw [isUpToDate_iff]
  refine exists_congr fun written => and_congr_right fun _ => ?_
  have hopen {more : List String} (hmore : more ≠ []) :
      IsOpen (fun _ => false) binaries more ↔ IsReadable binaries more := by
    rw [isOpen_iff]
    simp [hmore]
  constructor
  · intro hall
    have hreadable := short_of_open hroute fun more hreadable hmore hfolder => by
      rw [← Bool.not_eq_true]
      intro hlong
      have hfound : .error ⟨binaries.below more, .os .nameTooLong⟩ ∈
          fs.findings binaries fun _ => false :=
        (mem_findings_of_folder hfs hstart hroute hsee).2
          ⟨more, .folder, (hopen hmore).2 hreadable, hfolder, if_pos hlong⟩
      obtain ⟨f, hf, -⟩ := hall _ hfound
      cases hf
    refine ⟨hreadable, fun more bytes modified hfile hother => ?_⟩
    have hmore : more ≠ [] := by
      rintro rfl
      rw [List.append_nil, hsee] at hfile
      cases hfile
    have hfound : .ok (.at (binaries.below more) modified) ∈
        fs.findings binaries fun _ => false :=
      (mem_findings_of_folder hfs hstart hroute hsee).2 ⟨more, _,
        (hopen hmore).2 (isReadable_of_short hreadable hfile), hfile, rfl⟩
    obtain ⟨f, hf, hlt⟩ := hall _ hfound
    obtain rfl := Except.ok.inj hf
    exact hlt hother
  · rintro ⟨hreadable, hall⟩ x hx
    obtain ⟨more, sight, hmore, hat, hfound⟩ :=
      (mem_findings_of_folder hfs hstart hroute hsee).1 hx
    cases sight with
    | folder =>
      rw [Sight.finding?, hreadable more hat, if_neg Bool.false_ne_true] at hfound
      cases hfound
    | file bytes modified =>
      obtain rfl := Option.some.inj hfound
      exact ⟨_, rfl, hall more bytes modified hat⟩

end FileSystem

/-! ## The next run -/

section

variable {before after : FileSystem} {given s : Settings} {a : Analysis}
variable {breakdown : Option Breakdown} {except : List (List String)}

/-- Settings that were in order are in order again where the directories are kept, and come to the
same, whether or not a run is to be forced. -/
theorem Settings.validate_of_keeps (hbefore : before.InOrder)
    (hkeeps : FileSystem.Keeps except before after) (hhome : after.home = before.home)
    (hvalid : validate before given = .ok s) (force : Bool) :
    validate after { given with force } = .ok { s with force } := by
  obtain ⟨binaries, output, hbinaries, hfolder, houtput, rfl, hcontents⟩ := validate_eq_ok.1 hvalid
  refine validate_eq_ok.2 ⟨binaries, output,
    FileSystem.canonical_of_keeps hbefore hkeeps hbinaries hfolder, ?_, ?_, ?_, hcontents⟩
  · obtain ⟨start, hroute, hsee⟩ := FileSystem.hasFolder_iff.1 hfolder
    have hsee' := hkeeps.folders start hsee
    exact FileSystem.hasFolder_iff.2 ⟨start,
      FileSystem.route_of_keeps hbefore.working hkeeps hroute (by rw [hsee']; rfl), hsee'⟩
  · rw [FileSystem.absolute, FileSystem.workingDirectory, hkeeps.working]
    exact houtput
  · rw [located, located, defaultRepository, defaultRepository, hhome]

theorem FileSystem.modified?_of_route {p : Path} {names : List String} {content : Bytes}
    {modified : Instant} (hroute : after.route p = .ok names)
    (hsee : after.see names = some (.file content modified)) :
    after.modified? p = some modified := by
  obtain ⟨node, hnode, hsight⟩ := Option.map_eq_some_iff.1 hsee
  have hfound : after.node p = .ok (⟨names, some node⟩, node) :=
    node_eq_ok.2 ⟨hroute, hnode, rfl⟩
  rw [modified?, hfound]
  cases node with
  | file bytes time =>
    obtain ⟨-, rfl⟩ := Sight.file.inj hsight
    rfl
  | folder inside time => cases hsight

/-- A run that is skipped leaves everything as it was. -/
theorem files_run_of_skipped (h : (run after s breakdown).answer = .ok none) :
    (run after s breakdown).files = after := by
  obtain ⟨hforce, hfresh⟩ := answer_run_eq_none_iff.1 h
  rw [run, hforce, if_neg Bool.false_ne_true, hfresh]

/-- **The result is fresh**, as it was left below or beside the binaries: the names that lead to the
two are given, and the time of the result. -/
structure LeftFresh (after : FileSystem) (s : Settings) (start place : List String)
    (written : Instant) : Prop where
  /-- Every directory below the binaries can be read. -/
  readable : ∀ more, after.see (start ++ more) = some .folder →
    FileSystem.isLongPath (s.binaries.below more) = false
  /-- Every other file there is older. One whose path is too long counts as the oldest. -/
  older : ∀ more bytes modified, after.see (start ++ more) = some (.file bytes modified) →
    start ++ more ≠ place → (ScannedFile.at (s.binaries.below more) modified).modified < written
  /-- The path of the result does not step up, if the result lies there. -/
  known : start <+: place → .up ∉ s.output.components

section

variable {start place more : List String} {written : Instant} {content : Bytes} {sight : Sight}

/-- What lies below binaries that are in order is spelled by the names that lead there. -/
theorem below_eq_pathOf (hbefore : before.InOrder) (hvalid : Settings.validate before given = .ok s)
    (hwell : after.root.WellFormed) (hroute : after.route s.binaries = .ok start)
    (hmore : after.see (start ++ more) = some sight) :
    s.binaries.below more = FileSystem.pathOf (start ++ more) := by
  obtain ⟨hspelled, hnames⟩ : s.binaries = FileSystem.pathOf start ∧
      ∀ name ∈ start, IsEntryName name := by
    obtain ⟨binaries, output, hbinaries, -, -, rfl, -⟩ := Settings.validate_eq_ok.1 hvalid
    exact FileSystem.eq_pathOf_of_canonical hbefore hbinaries hroute
  rw [hspelled, Path.pathOf_eq_below hnames,
    Path.pathOf_eq_below (FileSystem.isEntryName_of_see hwell hmore), Path.below, Path.below,
    Path.below, List.foldl_append]

/-- The result is known by its path where it lies below the binaries, unless the path steps up. -/
theorem same_output_iff (hbefore : before.InOrder) (hvalid : Settings.validate before given = .ok s)
    (hwell : after.root.WellFormed) (hroute : after.route s.binaries = .ok start)
    (hplace : after.route s.output = .ok place) (hmore : after.see (start ++ more) = some sight) :
    (s.binaries.below more).same s.output = true ↔
      start ++ more = place ∧ .up ∉ s.output.components := by
  obtain ⟨-, -, houtput⟩ := Settings.of_validate hvalid
  rw [below_eq_pathOf hbefore hvalid hwell hroute hmore, FileSystem.same_pathOf_iff
    (FileSystem.isEntryName_of_see hwell hmore) houtput hplace]

/-- A result is fresh if it is newer than all else. It is not newer than itself, so it must not be
taken for another file. -/
theorem outdates_iff_leftFresh (hbefore : before.InOrder)
    (hvalid : Settings.validate before given = .ok s) (hwell : after.root.WellFormed)
    (hroute : after.route s.binaries = .ok start) (hplace : after.route s.output = .ok place)
    (hfile : after.see place = some (.file content written)) :
    after.Outdates s.binaries s.output start written ↔ LeftFresh after s start place written := by
  have hsame {more : List String} {sight : Sight} (hmore : after.see (start ++ more) = some sight) :=
    same_output_iff hbefore hvalid hwell hroute hplace hmore
  constructor
  · rintro ⟨hreadable, hall⟩
    refine ⟨hreadable, fun more bytes modified hmore hne => ?_, ?_⟩
    · refine hall more bytes modified hmore ?_
      rw [← Bool.not_eq_true, hsame hmore]
      exact fun h => hne h.1
    · rintro ⟨more, rfl⟩ hup
      have hother : (s.binaries.below more).same s.output = false := by
        rw [← Bool.not_eq_true, hsame hfile]
        exact fun h => h.2 hup
      have hlt := hall more _ written hfile hother
      obtain ⟨-, -, houtput⟩ := Settings.of_validate hvalid
      rw [ScannedFile.at, below_eq_pathOf hbefore hvalid hwell hroute hfile,
        FileSystem.isLongPath_pathOf_of_route houtput hplace] at hlt
      exact absurd hlt (Nat.lt_irrefl _)
  · rintro ⟨hreadable, holder, hknown⟩
    refine ⟨hreadable, fun more bytes modified hmore hother => ?_⟩
    refine holder more bytes modified hmore fun hsamePlace => ?_
    rw [← Bool.not_eq_true, hsame hmore] at hother
    exact hother ⟨hsamePlace, hknown (hsamePlace ▸ List.prefix_append start more)⟩

end

/-- **The run after a run** that wrote its result, with the same settings and not forced. The
settings are in order again. The run is skipped exactly where the first one left everything below
the binaries older than the result, and then it leaves everything as it was. -/
theorem skipped_again_iff (hbefore : before.InOrder)
    (hvalid : Settings.validate before given = .ok s)
    (hrun : (run before s breakdown).answer = .ok (some a))
    (hafter : (run before s breakdown).files = after) :
    Settings.validate after { given with force := false } = .ok { s with force := false } ∧
      ∃ start place content written, after.route s.binaries = .ok start ∧
        after.route s.output = .ok place ∧ after.see place = some (.file content written) ∧
        ∀ breakdown', ((run after { s with force := false } breakdown').answer = .ok none ↔
            LeftFresh after s start place written) ∧
          ((run after { s with force := false } breakdown').answer = .ok none →
            (run after { s with force := false } breakdown').files = after) := by
  obtain ⟨set, -, -, hwrite⟩ := written_of_run hrun
  rw [hafter] at hwrite
  have hwritten := FileSystem.written_of_write hbefore hwrite
  obtain ⟨except, hkeeps, -⟩ := hwritten.keeps
  refine ⟨Settings.validate_of_keeps hbefore hkeeps (FileSystem.home_write hbefore hwrite) hvalid
    false, ?_⟩
  obtain ⟨hfolder, habsolute, -⟩ := Settings.of_validate hvalid
  obtain ⟨start, hroute, hsee⟩ := FileSystem.hasFolder_iff.1 hfolder
  have hsee' := hkeeps.folders start hsee
  have hroute' := FileSystem.route_of_keeps hbefore.working hkeeps hroute (by rw [hsee']; rfl)
  obtain ⟨place, written, hplace, hfile⟩ := FileSystem.readFile_eq_ok.1 hwritten.reads
  refine ⟨start, place, _, written, hroute', hplace, hfile, fun breakdown' =>
    ⟨?_, files_run_of_skipped⟩⟩
  have hwell := hwritten.inOrder.wellFormed
  rw [answer_run_eq_none_iff, FileSystem.isUpToDate_iff_outdates hwell
    (FileSystem.same_standardInput_of_isAbsolute habsolute) hroute' hsee',
    FileSystem.modified?_of_route hplace hfile]
  simp only [Option.some.injEq, exists_eq_left', true_and]
  exact outdates_iff_leftFresh hbefore hvalid hwell hroute' hplace hfile

end

/-! ## Results among the binaries -/

/-- The archive of `oneArchive`, and beside it the result of a run, newer than the archive. -/
def reportedAmong : FileSystem where
  root := .folder (.folder "work" (.folder "bin" (.file "a-1.jar" onlyClass 0
    (.file "m.xml" (Text.utf8Bytes archiveReport) 5 .nil)) 7 .nil) 0 .nil) 0
  workingNames := ["work"]
  home := ⟨"/work"⟩
  clock := 8

/-- The run over the archive, with the result among the binaries. -/
def amongRun : Settings :=
  { archiveRun with output := ⟨"/work/bin/m.xml"⟩ }

/-- The same run, where the path of the result steps up. -/
def steppingRun : Settings :=
  { archiveRun with output := ⟨"/work/bin/../bin/m.xml"⟩ }

/-- There are two files among the binaries, and no directory. -/
theorem see_reportedAmong {more : List String} {sight : Sight}
    (h : reportedAmong.see (["work", "bin"] ++ more) = some sight) :
    more = [] ∨ more = ["a-1.jar"] ∧ sight = .file onlyClass 0 ∨
      more = ["m.xml"] ∧ sight = .file (Text.utf8Bytes archiveReport) 5 := by
  rcases more with _ | ⟨name, more⟩
  · exact .inl rfl
  have hentry : reportedAmong.see (["work", "bin"] ++ name :: more) =
      ((if "a-1.jar" = name then some (Node.file onlyClass 0)
        else if "m.xml" = name then some (.file (Text.utf8Bytes archiveReport) 5)
        else none).bind (Node.at? more)).map Node.sight := rfl
  rw [hentry] at h
  by_cases harchive : "a-1.jar" = name
  · rw [if_pos harchive, Option.bind_some] at h
    cases more with
    | nil => exact .inr (.inl ⟨by rw [harchive], (Option.some.inj h).symm⟩)
    | cons next more => cases h
  rw [if_neg harchive] at h
  by_cases hresult : "m.xml" = name
  · rw [if_pos hresult, Option.bind_some] at h
    cases more with
    | nil => exact .inr (.inr ⟨by rw [hresult], (Option.some.inj h).symm⟩)
    | cons next more => cases h
  · rw [if_neg hresult] at h
    cases h

/-- A result among the binaries whose path does not step up is left out, and the next run is
skipped. -/
theorem skipped_again_iff_among :
    (run oneArchive amongRun none).files = reportedAmong ∧
      (run reportedAmong amongRun none).answer = .ok none := by
  have hvalid : Settings.validate oneArchive { archiveRun with
      binaries := ⟨"bin"⟩, output := ⟨"bin/m.xml"⟩, repository := none } = .ok amongRun :=
    Answer.toOption_eq_some.1 (by decide +kernel)
  have hafter : (run oneArchive amongRun none).files = reportedAmong := by decide +kernel
  obtain ⟨a, hrun⟩ : ∃ a, (run oneArchive amongRun none).answer = .ok (some a) :=
    exists_of_done (by decide +kernel)
  obtain ⟨-, start, place, content, written, hstart, hplace, hfile, hnext⟩ :=
    skipped_again_iff inOrder_oneArchive hvalid hrun hafter
  have hstart' : reportedAmong.route amongRun.binaries = .ok ["work", "bin"] := rfl
  have hplace' : reportedAmong.route amongRun.output = .ok ["work", "bin", "m.xml"] := rfl
  obtain rfl := Except.ok.inj (hstart'.symm.trans hstart)
  obtain rfl := Except.ok.inj (hplace'.symm.trans hplace)
  have hfile' : reportedAmong.see ["work", "bin", "m.xml"] =
      some (.file (Text.utf8Bytes archiveReport) 5) := rfl
  obtain ⟨-, rfl⟩ := Sight.file.inj (Option.some.inj (hfile'.symm.trans hfile))
  refine ⟨hafter, (hnext none).1.2 ⟨fun more hfolder => ?_, fun more bytes modified hmore hne => ?_,
    fun _ => by decide +kernel⟩⟩
  · rcases see_reportedAmong hfolder with rfl | ⟨-, hsight⟩ | ⟨-, hsight⟩
    · decide +kernel
    · cases hsight
    · cases hsight
  · rcases see_reportedAmong hmore with rfl | ⟨rfl, hsight⟩ | ⟨rfl, -⟩
    · cases hmore
    · obtain ⟨-, rfl⟩ := Sight.file.inj hsight
      decide +kernel
    · exact absurd rfl hne

/-- **A run is done again**, although every other file below the binaries is older than the result,
where the result lies among them and its path steps up. -/
theorem exists_run_repeated :
    ¬ ∀ (before after : FileSystem) (given s : Settings) (a : Analysis)
        (start place : List String) (content : Bytes) (written : Instant),
      before.InOrder → Settings.validate before given = .ok s →
      (run before s none).answer = .ok (some a) → (run before s none).files = after →
      after.route s.binaries = .ok start → after.route s.output = .ok place →
      after.see place = some (.file content written) →
      (∀ more bytes modified, after.see (start ++ more) = some (.file bytes modified) →
        start ++ more ≠ place → modified < written) →
      (run after { s with force := false } none).answer = .ok none := by
  intro always
  have hvalid : Settings.validate oneArchive { archiveRun with
      binaries := ⟨"bin"⟩, output := ⟨"bin/../bin/m.xml"⟩, repository := none } =
        .ok steppingRun := Answer.toOption_eq_some.1 (by decide +kernel)
  have hafter : (run oneArchive steppingRun none).files = reportedAmong := by decide +kernel
  obtain ⟨a, hrun⟩ : ∃ a, (run oneArchive steppingRun none).answer = .ok (some a) :=
    exists_of_done (by decide +kernel)
  have hskip := always oneArchive reportedAmong _ steppingRun a ["work", "bin"]
    ["work", "bin", "m.xml"] _ 5 inOrder_oneArchive hvalid hrun hafter rfl rfl rfl ?_
  · have hfresh := (answer_run_eq_none_iff.1 hskip).2
    have hstale : reportedAmong.isUpToDate steppingRun.binaries steppingRun.output = .ok false := by
      decide +kernel
    exact absurd (hstale.symm.trans hfresh) nofun
  · intro more bytes modified hmore hne
    rcases see_reportedAmong hmore with rfl | ⟨rfl, hsight⟩ | ⟨rfl, -⟩
    · cases hmore
    · obtain ⟨-, rfl⟩ := Sight.file.inj hsight
      decide
    · exact absurd rfl hne

end JarGraph
