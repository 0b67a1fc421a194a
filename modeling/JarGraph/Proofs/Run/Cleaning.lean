import JarGraph.Program
import JarGraph.Proofs.FileSystem.Absolute
import JarGraph.Proofs.FileSystem.AllOrNothing
import JarGraph.Proofs.Run.Skipping
/-!
# Cleaning up after an analysis

An analysis makes the path of its result absolute before it writes, and
cleaning takes the path as it is written. The two name the same file unless
the path as it is written is too long or asks for a directory, which its
absolute form need not do (`cleans_iff`): a `/.` at its end is lost, so that
the analysis writes a file, which cleaning does not find
(`exists_result_left`). Nor is anything removed where the analysis moved
the settings away, which lay where the result was staged.
-/

namespace JarGraph

namespace FileSystem

variable {fs : FileSystem} {p : Path} {names place : List String} {content : Bytes}
variable {modified : Instant}

/-! ## Removing a file -/

theorem hasNode_iff :
    fs.hasNode p = true ↔ ∃ names, fs.route p = .ok names ∧ (fs.see names).isSome = true := by
  unfold hasNode
  constructor
  · intro h
    cases hnode : fs.node p with
    | error cause =>
      rw [hnode] at h
      cases h
    | ok there =>
      obtain ⟨found, node⟩ := there
      refine ⟨found.names, (node_eq_ok.1 hnode).1, ?_⟩
      rw [isSome_see_of_node hnode]
      rfl
  · rintro ⟨names, hroute, hsome⟩
    obtain ⟨sight, hsight⟩ := Option.isSome_iff_exists.1 hsome
    obtain ⟨node, hnode, -⟩ := Option.map_eq_some_iff.1 hsight
    have hfound : fs.node p = .ok (⟨names, some node⟩, node) := node_eq_ok.2 ⟨hroute, hnode, rfl⟩
    rw [hfound]
    rfl

theorem node_of_route (hroute : fs.route p = .ok names)
    (hfile : fs.see names = some (.file content modified)) :
    ∃ found, fs.node p = .ok (found, .file content modified) ∧ found.names = names := by
  obtain ⟨node, hnode, hsight⟩ := Option.map_eq_some_iff.1 hfile
  refine ⟨⟨names, some node⟩, ?_, rfl⟩
  cases node with
  | file bytes time =>
    obtain ⟨rfl, rfl⟩ := Sight.file.inj hsight
    exact node_eq_ok.2 ⟨hroute, hnode, rfl⟩
  | folder inside time => cases hsight

theorem removeFile_of_route (hroute : fs.route p = .ok names)
    (hfile : fs.see names = some (.file content modified)) :
    fs.removeFile p = .ok (fs.removeNode names) := by
  obtain ⟨found, hnode, rfl⟩ := node_of_route hroute hfile
  exact Answer.bind_eq_ok.2 ⟨_, hnode, rfl⟩

theorem removeIfThere_of_route (hroute : fs.route p = .ok names)
    (hfile : fs.see names = some (.file content modified)) :
    removeIfThere fs p = (fs.removeNode names, .ok true) := by
  have hthere : fs.hasNode p = true := hasNode_iff.2 ⟨names, hroute, by rw [hfile]; rfl⟩
  rw [removeIfThere, if_pos hthere, removeFile_of_route hroute hfile]

/-- A file that is removed is gone, and nothing else. -/
theorem see_removeNode_of_file (hfs : fs.see fs.workingNames = some .folder)
    (hroute : fs.route p = .ok place) (hfile : fs.see place = some (.file content modified)) :
    (fs.removeNode place).see place = none ∧ Keeps [place] fs (fs.removeNode place) ∧
      ∀ names, names ≠ place → (fs.removeNode place).see names = fs.see names := by
  have hfree : fs.see place ≠ some .folder := by
    rw [hfile]
    exact nofun
  obtain ⟨dir, name, rfl, -⟩ := exists_entry_of_route hfs hroute hfree
  have hself := see_removeNode_self fs dir name []
  rw [List.append_nil] at hself
  refine ⟨hself, keeps_removeNode hfree, fun names hnames => ?_⟩
  by_cases hprefix : dir ++ [name] <+: names
  · obtain ⟨more, rfl⟩ := hprefix
    have hmore : more ≠ [] := fun hnil => hnames (by rw [hnil, List.append_nil])
    have hbefore : fs.see (dir ++ [name] ++ more) = none :=
      Option.not_isSome_iff_eq_none.1 fun hsome => hfree (see_prefix_folder _ hmore hsome)
    rw [see_removeNode_self, hbefore]
  · exact see_removeNode_other hprefix

end FileSystem

/-! ## Settings that are read again -/

namespace Settings

variable {fs fs' : FileSystem} {config output : Option Path} {given : Settings} {written c : Path}
variable {except : List (List String)} {names : List String}

/-- Settings are loaded from the text of a file that writes some. -/
theorem load_eq_ok :
    load fs c = .ok given ↔
      ∃ content text, fs.readFile c = .ok content ∧ Text.utf8? content = some text ∧
        ofText? text = some given := by
  unfold load remarking FileSystem.readText
  cases fs.readFile c with
  | error cause => simp [bind, Except.bind, Except.mapError]
  | ok content =>
    cases htext : Text.utf8? content with
    | none => simp [bind, Except.bind, Except.mapError, htext, throw, throwThe, MonadExceptOf.throw]
    | some text =>
      cases hsettings : ofText? text with
      | none => simp [bind, Except.bind, Except.mapError, htext, hsettings, pure, Except.pure, throw,
          throwThe, MonadExceptOf.throw]
      | some settings =>
        simp [bind, Except.bind, Except.mapError, htext, hsettings, pure, Except.pure]

/-- Where settings are loaded from, there is a file. -/
theorem exists_file_of_load (h : load fs c = .ok given) :
    ∃ names content modified, fs.route c = .ok names ∧
      fs.see names = some (.file content modified) := by
  obtain ⟨content, -, hread, -, -⟩ := load_eq_ok.1 h
  obtain ⟨names, modified, hroute, hfile⟩ := FileSystem.readFile_eq_ok.1 hread
  exact ⟨names, content, modified, hroute, hfile⟩

/-- A file that is kept holds the settings that it held. -/
theorem load_of_keeps (hfs : fs.see fs.workingNames = some .folder)
    (hkeeps : FileSystem.Keeps except fs fs')
    (hapart : ∀ names ∈ except, fs.route c ≠ .ok names) (h : load fs c = .ok given) :
    load fs' c = .ok given := by
  obtain ⟨content, text, hread, hsettings⟩ := load_eq_ok.1 h
  obtain ⟨names, modified, hroute, hfile⟩ := FileSystem.readFile_eq_ok.1 hread
  have hfile' := (hkeeps.files names (fun hmem => hapart names hmem hroute) content modified).2
    hfile
  have hroute' : fs'.route c = .ok names := by
    refine FileSystem.route_of_keeps hfs hkeeps hroute ?_
    rw [hfile', ← hfile]
    exact (FileSystem.route_eq_ok.1 hroute).2.2.2
  have hread' := FileSystem.readFile_eq_ok.2 ⟨names, modified, hroute', hfile'⟩
  exact load_eq_ok.2 ⟨content, text, hread', hsettings⟩

/-- **The path of the result is told as before** where the settings are kept, or not asked. -/
theorem outputOf_of_keeps (hfs : fs.see fs.workingNames = some .folder)
    (hkeeps : FileSystem.Keeps except fs fs')
    (hapart : output = none → ∀ c, config = some c → ∀ names ∈ except, fs.route c ≠ .ok names)
    (h : outputOf fs config output = .ok written) : outputOf fs' config output = .ok written := by
  cases output with
  | some path => exact h
  | none =>
    obtain ⟨given, hstart, hgiven⟩ := Answer.map_eq_ok.1 h
    refine Answer.map_eq_ok.2 ⟨given, ?_, hgiven⟩
    cases config with
    | none => exact hstart
    | some c => exact load_of_keeps hfs hkeeps (hapart rfl c rfl) hstart

open AtomicWrite in
/-- After a write, and when its file is removed again, the path of the result is told as before, if
the settings lie neither where the file was written nor where it was staged. -/
theorem outputOf_of_changedAt {p : Path} {place : List String} {content : Bytes}
    {modified : Instant} (hfs : fs.InOrder)
    (hchanged : FileSystem.ChangedAt [temporary p, p] fs fs') (hplace : fs'.route p = .ok place)
    (hfile : fs'.see place = some (.file content modified))
    (hapart : ∀ c, config = some c → fs.route c ≠ fs'.route p)
    (hstaged : output = none → ∀ c, config = some c → fs.route c ≠ fs'.route (temporary p))
    (h : outputOf fs config output = .ok written) :
    outputOf fs' config output = .ok written ∧
      outputOf (fs'.removeNode place) config output = .ok written := by
  obtain ⟨except, hkeeps, hexcept⟩ := hchanged.keeps
  obtain ⟨-, hkeeps', -⟩ :=
    FileSystem.see_removeNode_of_file hchanged.inOrder.working hplace hfile
  have hkept : output = none → ∀ c, config = some c → ∀ names ∈ except,
      fs.route c ≠ .ok names := by
    intro hnone c hc names hnames
    obtain ⟨q, hq, -, hroute⟩ := hexcept names hnames
    rw [← hroute]
    rcases List.mem_cons.1 hq with rfl | hq
    · exact hstaged hnone c hc
    · rw [List.mem_singleton.1 hq]
      exact hapart c hc
  have hkept' : output = none → ∀ c, config = some c → ∀ names ∈ except ++ [place],
      fs.route c ≠ .ok names := by
    intro hnone c hc names hnames
    rcases List.mem_append.1 hnames with hnames | hnames
    · exact hkept hnone c hc names hnames
    · rw [List.mem_singleton.1 hnames, ← hplace]
      exact hapart c hc
  exact ⟨outputOf_of_keeps hfs.working hkeeps hkept h,
    outputOf_of_keeps hfs.working (hkeeps.trans hkeeps') hkept' h⟩

/-- The result of checked settings has the absolute form of the path that cleaning would take. -/
theorem exists_outputOf_of_resolve {args : CommandLine.AnalysisArgs} {debug : Bool} {s : Settings}
    (h : resolve fs config debug args = .ok s) :
    ∃ written, outputOf fs config args.output = .ok written ∧
      fs.absolute written = .ok s.output := by
  obtain ⟨given, hstart, hvalid⟩ := Answer.bind_eq_ok.1 h
  obtain ⟨binaries, output, -, -, habsolute, rfl, -⟩ := validate_eq_ok.1 hvalid
  refine ⟨args.output.getD given.output, ?_, habsolute⟩
  cases houtput : args.output with
  | some path => rfl
  | none => exact Answer.map_eq_ok.2 ⟨given, hstart, rfl⟩

end Settings

/-! ## Cleaning -/

variable {fs : FileSystem} {argv argv' : List String} {args : CommandLine.AnalysisArgs}
variable {config output : Option Path} {debug debug' : Bool} {s : Settings} {a : Analysis}
variable {place : List String} {written : Path} {content : Bytes} {modified : Instant}

/-- **Arguments clean up** what is at a row of names: called with them, the program succeeds, and
removes this and nothing else; called again, it succeeds and changes nothing. -/
structure Cleans (fs : FileSystem) (argv : List String) (place : List String) : Prop where
  succeeds : (runProgram fs argv).code = 0
  removed : (runProgram fs argv).files.see place = none
  others : ∀ names, names ≠ place → (runProgram fs argv).files.see names = fs.see names
  succeedsAgain : (runProgram (runProgram fs argv).files argv).code = 0
  unchanged : (runProgram (runProgram fs argv).files argv).files = (runProgram fs argv).files

theorem runProgram_clean (hargv : CommandLine.parse argv = .ok ⟨.clean output, config, debug⟩)
    (houtput : Settings.outputOf fs config output = .ok written)
    {removed : FileSystem} {there : Bool}
    (hremove : removeIfThere fs written = (removed, .ok there)) :
    (runProgram fs argv).code = 0 ∧ (runProgram fs argv).files = removed := by
  rw [runProgram, hargv]
  dsimp only
  rw [runClean, houtput]
  dsimp only
  rw [hremove]
  cases there <;> exact ⟨rfl, rfl⟩

/-- **What is cleaned up** is what the path leads to that the arguments and the settings tell, if
they tell it also when it is gone. -/
theorem cleans_iff_route (hfs : fs.see fs.workingNames = some .folder)
    (hargv : CommandLine.parse argv = .ok ⟨.clean output, config, debug⟩)
    (houtput : Settings.outputOf fs config output = .ok written)
    (hagain : Settings.outputOf (fs.removeNode place) config output = .ok written)
    (hfile : fs.see place = some (.file content modified))
    (honly : ∀ names, fs.route written = .ok names → names = place) :
    Cleans fs argv place ↔ fs.route written = .ok place := by
  constructor
  · intro h
    refine Decidable.by_contra fun hroute => ?_
    have hnone : removeIfThere fs written = (fs, .ok false) := by
      refine if_neg fun hnode => ?_
      obtain ⟨names, hnames, -⟩ := FileSystem.hasNode_iff.1 hnode
      exact hroute (honly names hnames ▸ hnames)
    have hremoved := h.removed
    rw [(runProgram_clean hargv houtput hnone).2, hfile] at hremoved
    cases hremoved
  · intro hroute
    obtain ⟨hgone, hkeeps, hothers⟩ := FileSystem.see_removeNode_of_file hfs hroute hfile
    obtain ⟨hcode, hfiles⟩ := runProgram_clean hargv houtput
      (FileSystem.removeIfThere_of_route hroute hfile)
    have hnone : removeIfThere (fs.removeNode place) written =
        (fs.removeNode place, .ok false) := by
      refine if_neg fun hnode => ?_
      obtain ⟨names, hnames, hsome⟩ := FileSystem.hasNode_iff.1 hnode
      rw [FileSystem.eq_of_route hkeeps.working hroute hnames, hgone] at hsome
      cases hsome
    obtain ⟨hcode', hfiles'⟩ := runProgram_clean hargv hagain hnone
    rw [← hfiles] at hgone hothers hcode' hfiles'
    exact ⟨hcode, hgone, hothers, hcode', hfiles'⟩

/-- Without its settings, nothing is cleaned up. -/
theorem not_cleans_of_gone {c : Path} {names : List String}
    {after : FileSystem} (hargv : CommandLine.parse argv = .ok ⟨.clean none, some c, debug⟩)
    (hroute : fs.route c = .ok names)
    (hworking : after.workingNames = fs.workingNames) (hgone : after.see names = none) :
    ¬ Cleans after argv place := by
  intro h
  have hfails : ∀ again, Settings.load after c ≠ .ok again := by
    intro again hagain
    obtain ⟨names', content, modified, hroute', hfile⟩ := Settings.exists_file_of_load hagain
    rw [FileSystem.eq_of_route hworking hroute hroute', hgone] at hfile
    cases hfile
  have hcode := h.succeeds
  rw [runProgram, hargv] at hcode
  dsimp only at hcode
  rw [runClean, Settings.outputOf, Settings.start] at hcode
  cases hagain : Settings.load after c with
  | ok again => exact hfails again hagain
  | error cause =>
    rw [hagain] at hcode
    cases hcode

theorem files_runProgram_analyze
    (hargv : CommandLine.parse argv = .ok ⟨.analyze args, config, debug⟩)
    (hsettings : Settings.resolve fs config debug args = .ok s)
    (hrun : (run fs s none).answer = .ok (some a)) :
    (runProgram fs argv).files = (run fs s none).files := by
  rw [runProgram, hargv]
  dsimp only
  rw [runAnalyze]
  dsimp only
  rw [hsettings]
  dsimp only
  rw [hrun]
  rfl

open AtomicWrite in
/-- **Cleaning undoes an analysis** that wrote its result to another file than the settings, with
the same settings and the same option for the result, if and only if the path of the result is short
enough as it is written and asks for no directory, and the settings, where they are needed, did not
lie where the result was staged. -/
theorem cleans_iff (hfs : fs.InOrder)
    (hargv : CommandLine.parse argv = .ok ⟨.analyze args, config, debug⟩)
    (hargv' : CommandLine.parse argv' = .ok ⟨.clean args.output, config, debug'⟩)
    (hsettings : Settings.resolve fs config debug args = .ok s)
    (hrun : (run fs s none).answer = .ok (some a))
    (hapart : ∀ c, config = some c → fs.route c ≠ (runProgram fs argv).files.route s.output) :
    ∃ place written, (runProgram fs argv).files.route s.output = .ok place ∧
      (runProgram fs argv).files.IsFile s.output ∧
      Settings.outputOf fs config args.output = .ok written ∧
      (Cleans (runProgram fs argv).files argv' place ↔
        FileSystem.isLongPath written = false ∧ FileSystem.asksForFolder written = false ∧
          (args.output = none → ∀ c, config = some c →
            fs.route c ≠ (runProgram fs argv).files.route (temporary s.output))) := by
  obtain ⟨written, houtput, habsolute⟩ := Settings.exists_outputOf_of_resolve hsettings
  obtain ⟨set, -, -, hwrite⟩ := written_of_run hrun
  rw [← files_runProgram_analyze hargv hsettings hrun] at hwrite
  generalize (runProgram fs argv).files = after at hwrite hapart ⊢
  have hreads := (FileSystem.written_of_write hfs hwrite).reads
  have hchanged := FileSystem.changedAt_write hfs hwrite
  obtain ⟨_, hkeeps, -⟩ := hchanged.keeps
  obtain ⟨place, modified, hplace, hfile⟩ := FileSystem.readFile_eq_ok.1 hreads
  have hworking := hchanged.inOrder.working
  have habsolute' : after.absolute written = .ok s.output := by
    rw [FileSystem.absolute, FileSystem.workingDirectory, hkeeps.working]
    exact habsolute
  refine ⟨place, written, hplace, FileSystem.isFile_iff.2 (by rw [hreads]; rfl), houtput, ?_⟩
  by_cases hstaged : args.output = none → ∀ c, config = some c →
      fs.route c ≠ after.route (temporary s.output)
  · obtain ⟨houtput', hagain⟩ :=
      Settings.outputOf_of_changedAt hfs hchanged hplace hfile hapart hstaged houtput
    rw [cleans_iff_route hworking hargv' houtput' hagain hfile fun names hnames =>
      FileSystem.eq_of_route_absolute hchanged.inOrder habsolute' hplace hnames,
      FileSystem.route_iff_of_absolute hchanged.inOrder habsolute' hplace hfile]
    exact ⟨fun h => ⟨h.1, h.2, hstaged⟩, fun h => ⟨h.1, h.2.1⟩⟩
  · -- The settings lay where the result was staged, and were moved away with it.
    refine iff_of_false ?_ fun h => hstaged h.2.2
    simp only [not_forall, not_not, exists_prop] at hstaged
    obtain ⟨hnone, c, rfl, hsame⟩ := hstaged
    rw [hnone] at hargv' houtput
    obtain ⟨given, hload, -⟩ := Answer.map_eq_ok.1 houtput
    obtain ⟨names, -, -, hroute, -⟩ := Settings.exists_file_of_load hload
    refine not_cleans_of_gone hargv' hroute hkeeps.working ?_
    refine Option.not_isSome_iff_eq_none.1 fun hsome => ?_
    have hnode := FileSystem.hasNode_iff.2 ⟨names, hsame ▸ hroute, hsome⟩
    rw [FileSystem.not_hasNode_temporary hfs hwrite] at hnode
    cases hnode

/-! ## A result that is left -/

/-- A directory for binaries, in which there are none. -/
def noBinaries : FileSystem where
  root := .folder (.folder "work" (.folder "bin" .nil 0 .nil) 0 .nil) 0
  workingNames := ["work"]
  home := ⟨"/work"⟩
  clock := 5

/-- Arguments that give the binaries and the result, and nothing else. -/
def plainArgs (output : Path) : CommandLine.AnalysisArgs :=
  { binaries := some ⟨"bin"⟩
    output := some output
    localRepository := none
    includes := []
    excludes := []
    depsIncludes := []
    depsExcludes := []
    dependencyFiles := []
    jvmProvided := []
    provided := []
    artifacts := []
    lenient := false
    force := false }

/-- The settings that they come to, however the result is written. -/
def plainRun : Settings :=
  { Settings.default with
    binaries := ⟨"/work/bin"⟩
    output := ⟨"/work/m.xml"⟩
    repository := some ⟨"/work/.m2/repository"⟩ }

theorem exists_run_plainRun : ∃ a, (run noBinaries plainRun none).answer = .ok (some a) :=
  exists_of_done (by decide +kernel)

theorem cleans_iff_plain :
    ∃ place, Cleans (runProgram noBinaries ["analyze", "bin", "-o", "./m.xml"]).files
      ["clean", "-o", "./m.xml"] place := by
  obtain ⟨a, hrun⟩ := exists_run_plainRun
  have hargv : CommandLine.parse ["analyze", "bin", "-o", "./m.xml"] =
      .ok ⟨.analyze (plainArgs ⟨"./m.xml"⟩), none, false⟩ :=
    Answer.toOption_eq_some.1 (by decide +kernel)
  have hargv' : CommandLine.parse ["clean", "-o", "./m.xml"] =
      .ok ⟨.clean (some ⟨"./m.xml"⟩), none, false⟩ :=
    Answer.toOption_eq_some.1 (by decide +kernel)
  have hsettings : Settings.resolve noBinaries none false (plainArgs ⟨"./m.xml"⟩) = .ok plainRun :=
    Answer.toOption_eq_some.1 (by decide +kernel)
  have hordered : noBinaries.InOrder := ⟨by decide +kernel, by decide +kernel⟩
  obtain ⟨place, written, -, -, hwritten, hcleans⟩ :=
    cleans_iff hordered hargv hargv' hsettings hrun nofun
  obtain rfl := Except.ok.inj hwritten
  exact ⟨place, hcleans.2 ⟨by decide +kernel, by decide +kernel, nofun⟩⟩

/-- **Cleaning need not undo an analysis**, although it is given the same path for the result: the
`/.` at its end is lost where the path is made absolute. -/
theorem exists_result_left :
    ¬ ∀ (fs : FileSystem) (argv argv' : List String) (args : CommandLine.AnalysisArgs)
        (config : Option Path) (debug debug' : Bool) (s : Settings) (a : Analysis),
      fs.InOrder →
      CommandLine.parse argv = .ok ⟨.analyze args, config, debug⟩ →
      CommandLine.parse argv' = .ok ⟨.clean args.output, config, debug'⟩ →
      Settings.resolve fs config debug args = .ok s →
      (run fs s none).answer = .ok (some a) →
      (∀ c, config = some c → fs.route c ≠ (runProgram fs argv).files.route s.output) →
        ∃ place, (runProgram fs argv).files.route s.output = .ok place ∧
          Cleans (runProgram fs argv).files argv' place := by
  intro always
  obtain ⟨a, hrun⟩ := exists_run_plainRun
  have hargv : CommandLine.parse ["analyze", "bin", "-o", "m.xml/."] =
      .ok ⟨.analyze (plainArgs ⟨"m.xml/."⟩), none, false⟩ :=
    Answer.toOption_eq_some.1 (by decide +kernel)
  have hargv' : CommandLine.parse ["clean", "-o", "m.xml/."] =
      .ok ⟨.clean (some ⟨"m.xml/."⟩), none, false⟩ :=
    Answer.toOption_eq_some.1 (by decide +kernel)
  have hsettings : Settings.resolve noBinaries none false (plainArgs ⟨"m.xml/."⟩) = .ok plainRun :=
    Answer.toOption_eq_some.1 (by decide +kernel)
  have hordered : noBinaries.InOrder := ⟨by decide +kernel, by decide +kernel⟩
  have hleft : ((runProgram (runProgram noBinaries ["analyze", "bin", "-o", "m.xml/."]).files
      ["clean", "-o", "m.xml/."]).files.see ["work", "m.xml"]).isSome = true := by
    decide +kernel
  have hroute : (runProgram noBinaries ["analyze", "bin", "-o", "m.xml/."]).files.route
      plainRun.output = .ok ["work", "m.xml"] := Answer.toOption_eq_some.1 (by decide +kernel)
  obtain ⟨place, hplace, hcleans⟩ := always _ _ _ _ _ _ _ _ a hordered hargv hargv' hsettings hrun
    nofun
  obtain rfl := Except.ok.inj (hplace.symm.trans hroute)
  rw [hcleans.removed] at hleft
  cases hleft

end JarGraph
