import JarGraph.Proofs.FileSystem.Writing
/-!
# A write leaves all or nothing

Whatever was on the disk, and in whichever step a write fails, no part of
the contents is left at the path: there is all of them or no file
(`write_all_or_nothing`). `ChangedAt` says what carries the argument from
step to step. Directories are only added, and a file only comes, changes
or goes where one of two paths leads, that of the file and the temporary
one; and since no directory is lost, these paths lead in the end where
they led when the file was touched.
-/

namespace JarGraph.FileSystem

variable {fs fs' fs'' : FileSystem} {p q source target : Path} {paths : List Path}
variable {content : Bytes} {names : List String}

/-! ## Changes at some paths -/

/-- Between the two trees no directory was lost, and files changed only where some of the paths
lead. -/
structure ChangedAt (paths : List Path) (fs fs' : FileSystem) : Prop where
  inOrder : fs'.InOrder
  keeps : ∃ except, Keeps except fs fs' ∧
    ∀ names ∈ except, ∃ p ∈ paths, asksForFolder p = false ∧ fs'.route p = .ok names

namespace ChangedAt

theorem of_keeps (hfs' : fs'.InOrder) (h : Keeps [] fs fs') : ChangedAt paths fs fs' :=
  ⟨hfs', [], h, fun _ hnames => nomatch hnames⟩

theorem refl (hfs : fs.InOrder) : ChangedAt paths fs fs :=
  of_keeps hfs (.refl fs)

/-- **One change after another.** What the first one touched is where its path leads after the
second one as well. -/
theorem trans (h : ChangedAt paths fs fs') (h' : ChangedAt paths fs' fs'') :
    ChangedAt paths fs fs'' := by
  obtain ⟨except, hkeeps, hexcept⟩ := h.keeps
  obtain ⟨more, hkeeps', hmore⟩ := h'.keeps
  refine ⟨h'.inOrder, except ++ more, hkeeps.trans hkeeps', fun names hnames => ?_⟩
  rcases List.mem_append.1 hnames with hnames | hnames
  · obtain ⟨p, hp, hasks, hroute⟩ := hexcept names hnames
    refine ⟨p, hp, hasks, route_of_keeps h.inOrder.working hkeeps' hroute ?_⟩
    rw [hasks, Bool.and_false]
  · exact hmore names hnames

/-- Files that none of the paths leads to are as they were. -/
theorem files (h : ChangedAt paths fs fs') (hnames : ∀ p ∈ paths, fs'.route p ≠ .ok names)
    (data : Bytes) (modified : Instant) :
    fs'.see names = some (.file data modified) ↔ fs.see names = some (.file data modified) := by
  obtain ⟨except, hkeeps, hexcept⟩ := h.keeps
  refine hkeeps.files names (fun hmem => ?_) data modified
  obtain ⟨p, hp, -, hroute⟩ := hexcept names hmem
  exact hnames p hp hroute

end ChangedAt

/-! ## The changes that a write makes -/

theorem changedAt_writeFile (hfs : fs.InOrder) (hp : p ∈ paths) (hasks : asksForFolder p = false)
    (h : fs.writeFile p content = .ok fs') : ChangedAt paths fs fs' := by
  obtain ⟨dir, name, hroute, hdir, hname, -, hfree, rfl⟩ := of_writeFile hfs h
  have hkeeps := keeps_putNode hdir hfree content fs.clock
  refine ⟨hfs.putNode hdir hname hfree content fs.clock, _, hkeeps, fun names hnames => ?_⟩
  rw [List.mem_singleton.1 hnames]
  refine ⟨p, hp, hasks, route_of_keeps hfs.working hkeeps hroute ?_⟩
  rw [hasks, Bool.and_false]

/-- A file that is removed is an entry of a directory, at a path that asks for none. -/
theorem of_removeFile (h : fs.removeFile p = .ok fs') :
    ∃ dir name, fs.route p = .ok (dir ++ [name]) ∧ fs.see (dir ++ [name]) ≠ some .folder ∧
      asksForFolder p = false ∧ fs' = fs.removeNode (dir ++ [name]) := by
  obtain ⟨⟨found, node⟩, hnode, hremove⟩ := Answer.bind_eq_ok.1 h
  cases node with
  | folder inside modified => cases hremove
  | file data modified =>
    obtain rfl := Except.ok.inj hremove
    obtain ⟨dir, name, hnames⟩ := exists_concat_of_file hnode
    have hsee := isSome_see_of_node hnode
    have hroute := (node_eq_ok.1 hnode).1
    obtain ⟨-, -, -, hend⟩ := route_eq_ok.1 hroute
    rw [hnames] at hroute hsee hend
    rw [hsee] at hend
    refine ⟨dir, name, hroute, ?_, hend, by rw [hnames]⟩
    rw [hsee]
    exact nofun

theorem changedAt_removeFileLeniently (hfs : fs.InOrder) (hp : p ∈ paths) :
    ChangedAt paths fs (fs.removeFileLeniently p) := by
  unfold removeFileLeniently
  split
  · rename_i changed hremove
    obtain ⟨dir, name, hroute, hfile, hasks, rfl⟩ := of_removeFile hremove
    have hkeeps := keeps_removeNode hfile
    refine ⟨hfs.removeNode hfile, _, hkeeps, fun names hnames => ?_⟩
    rw [List.mem_singleton.1 hnames]
    refine ⟨p, hp, hasks, route_of_keeps hfs.working hkeeps hroute ?_⟩
    rw [hasks, Bool.and_false]
  · exact .refl hfs

theorem changedAt_moveFile (hfs : fs.InOrder) (hsource : source ∈ paths) (htarget : target ∈ paths)
    (hasks : asksForFolder source = false) (h : fs.moveFile source target = .ok fs') :
    ChangedAt paths fs fs' := by
  obtain ⟨old, new, data, modified, hold, hsee, -, -, -, hasks', -⟩ := of_moveFile h
  obtain ⟨dir, key, rfl, -⟩ := exists_entry_of_route hfs.working hold (by rw [hsee]; exact nofun)
  obtain ⟨hmoved, -, place, hkeeps, hplace⟩ := written_of_move hfs hold hsee h
  refine ⟨hmoved, _, hkeeps, fun names hnames => ?_⟩
  rcases List.mem_cons.1 hnames with rfl | hnames
  · refine ⟨source, hsource, hasks, route_of_keeps hfs.working hkeeps hold ?_⟩
    rw [hasks, Bool.and_false]
  · rw [List.mem_singleton.1 hnames]
    exact ⟨target, htarget, hasks', hplace⟩

/-- A file that is moved to a path of another name is not at its old path any more. -/
theorem not_hasNode_of_moveFile (hfs : fs.InOrder) (hne : source.fileName ≠ target.fileName)
    (h : fs.moveFile source target = .ok fs') : fs'.hasNode source = false := by
  obtain ⟨old, new, data, modified, hold, hsee, hnew, hfree, -, -, rfl⟩ := of_moveFile h
  obtain ⟨dir, key, rfl, -, -, hkey⟩ :=
    exists_entry_of_route hfs.working hold (by rw [hsee]; exact nofun)
  obtain ⟨dir', name, rfl, -, -, hname⟩ := exists_entry_of_route hfs.working hnew hfree
  -- The new place is neither the old one nor a directory above it.
  have hapart : ¬ dir' ++ [name] <+: dir ++ [key] := by
    rintro ⟨more, hmore⟩
    by_cases hnil : more = []
    · rw [hnil, List.append_nil] at hmore
      have hlast := congrArg List.getLast? hmore
      rw [List.getLast?_concat, List.getLast?_concat, ← hname, ← hkey] at hlast
      exact hne hlast.symm
    · exact hfree (see_prefix_folder _ hnil (by rw [hmore, hsee]; rfl))
  have hgone : ((fs.removeNode (dir ++ [key])).putNode (dir' ++ [name])
      (.file data modified)).see (dir ++ [key]) = none := by
    have hremoved := see_removeNode_self fs dir key []
    rw [List.append_nil] at hremoved
    rw [see_putNode_other hapart, hremoved]
  rw [hasNode]
  cases hnode : ((fs.removeNode (dir ++ [key])).putNode (dir' ++ [name])
      (.file data modified)).node source with
  | error cause => rfl
  | ok there =>
    obtain ⟨found, node⟩ := there
    have hsight := isSome_see_of_node hnode
    have hsame := eq_of_route ((workingNames_putNode _ _ _).trans (workingNames_removeNode _ _))
      hold (node_eq_ok.1 hnode).1
    rw [hsame, hgone] at hsight
    cases hsight

/-- What is a file after a file was removed was one before. -/
theorem isFile_of_removeFileLeniently
    (h : (fs.removeFileLeniently p).IsFile q) : fs.IsFile q := by
  unfold removeFileLeniently at h
  split at h
  · rename_i changed hremove
    obtain ⟨dir, name, -, -, -, rfl⟩ := of_removeFile hremove
    obtain ⟨found, data, modified, hnode⟩ := h
    obtain ⟨other, hother, hkind⟩ := node_mono (within_removeNode fs dir name)
      (workingNames_removeNode fs _) hnode
    cases other with
    | folder inside modified => cases hkind
    | file data modified => exact ⟨_, data, modified, hother⟩
  · exact h

/-! ## The steps -/

open AtomicWrite

variable {breakdown : Option Breakdown} {answer : Except Failure Unit}

theorem changedAt_stage (hfs : fs.InOrder) (h : stage fs p content breakdown = (fs', answer)) :
    ChangedAt [temporary p, p] fs fs' := by
  have hwritten : ∀ {data : Bytes} {written : FileSystem},
      fs.writeFile (temporary p) data = .ok written → ChangedAt [temporary p, p] fs written :=
    fun hwrite => changedAt_writeFile hfs List.mem_cons_self (Path.asksForFolder_temporary p) hwrite
  unfold stage at h
  dsimp only at h
  split at h <;> split at h <;> obtain ⟨rfl, -⟩ := Prod.mk.inj h
  · exact hwritten ‹_›
  · exact .refl hfs
  · exact hwritten ‹_›
  · exact .refl hfs

theorem changedAt_publish (hfs : fs.InOrder) (h : publish fs p breakdown = (fs', answer)) :
    ChangedAt [temporary p, p] fs fs' := by
  unfold publish at h
  dsimp only at h
  split at h
  · obtain ⟨rfl, -⟩ := Prod.mk.inj h
    exact .refl hfs
  split at h <;> obtain ⟨rfl, -⟩ := Prod.mk.inj h
  · rename_i hmove
    exact changedAt_moveFile hfs List.mem_cons_self (List.mem_cons_of_mem _ List.mem_cons_self)
      (Path.asksForFolder_temporary p) hmove
  · exact .refl hfs

theorem changedAt_attempt (hfs : fs.InOrder) (h : attempt fs p content breakdown = (fs', answer)) :
    ChangedAt [temporary p, p] fs fs' := by
  unfold attempt at h
  split at h
  · rename_i prepared cause hprepare
    obtain ⟨rfl, -⟩ := Prod.mk.inj h
    obtain ⟨hprepared, hkeeps, -⟩ := keeps_prepare hfs hprepare
    exact .of_keeps hprepared hkeeps
  rename_i prepared hprepare
  obtain ⟨hprepared, hkeeps, -⟩ := keeps_prepare hfs hprepare
  refine ChangedAt.trans (.of_keeps hprepared hkeeps) ?_
  split at h
  · rename_i staged cause hstage
    obtain ⟨rfl, -⟩ := Prod.mk.inj h
    exact changedAt_stage hprepared hstage
  · rename_i staged hstage
    have hstaged := changedAt_stage hprepared hstage
    exact hstaged.trans (changedAt_publish hstaged.inOrder h)

/-- A write touches the file at its path and the temporary one, whether it succeeds or fails. -/
theorem changedAt_write (hfs : fs.InOrder) (h : write fs p content breakdown = (fs', answer)) :
    ChangedAt [temporary p, p] fs fs' := by
  unfold write at h
  split at h
  · rename_i attempted hattempt
    obtain ⟨rfl, -⟩ := Prod.mk.inj h
    exact changedAt_attempt hfs hattempt
  · rename_i attempted cause hattempt
    obtain ⟨rfl, -⟩ := Prod.mk.inj h
    have hchanged := changedAt_attempt hfs hattempt
    have hcleaned : ChangedAt [temporary p, p] attempted (attempted.removeFileLeniently
        (temporary p)) := changedAt_removeFileLeniently hchanged.inOrder List.mem_cons_self
    exact (hchanged.trans hcleaned).trans (changedAt_removeFileLeniently hcleaned.inOrder
      (List.mem_cons_of_mem _ List.mem_cons_self))

/-- A write that succeeds moves the temporary file away. -/
theorem not_hasNode_temporary (hfs : fs.InOrder)
    (h : write fs p content breakdown = (fs', .ok ())) : fs'.hasNode (temporary p) = false := by
  obtain ⟨prepared, staged, hprepare, hstage, hpublish⟩ := write_eq_ok.1 h
  have hstaged := changedAt_stage (of_prepare hfs hprepare).1 hstage
  have hmove := of_publish hpublish
  obtain ⟨-, -, -, -, -, -, -, -, hends, hasks, -⟩ := of_moveFile hmove
  obtain ⟨name, hname, htemporary⟩ := Path.fileName_temporary hends hasks
  refine not_hasNode_of_moveFile hstaged.inOrder (fun hsame => ?_) hmove
  rw [hname, htemporary] at hsame
  have hlength := congrArg String.length (Option.some.inj hsame)
  rw [String.length_append] at hlength
  have htmp : ".tmp".length = 4 := rfl
  omega

/-- A write that fails leaves a file at neither of its paths. -/
theorem not_isFile_of_write {failure : Failure}
    (h : write fs p content breakdown = (fs', .error failure)) :
    ¬ fs'.IsFile (temporary p) ∧ ¬ fs'.IsFile p := by
  unfold write at h
  split at h
  · cases (Prod.mk.inj h).2
  · rename_i attempted cause hattempt
    obtain ⟨rfl, -⟩ := Prod.mk.inj h
    refine ⟨fun hfile => ?_, not_isFile_removeFileLeniently _ p⟩
    exact not_isFile_removeFileLeniently attempted (temporary p)
      (isFile_of_removeFileLeniently hfile)

/-- **A write leaves all or nothing.** When it succeeds, the file has the contents and the temporary
file is gone; when it fails, in whichever step, there is no file at either path. Wherever else the
two paths lead, no file has come, changed or gone. -/
theorem write_all_or_nothing (fs : FileSystem) (p : Path) (content : Bytes)
    (breakdown : Option Breakdown) (fs' : FileSystem) (answer : Except Failure Unit)
    (hfs : fs.InOrder) (h : write fs p content breakdown = (fs', answer)) :
    (answer = .ok () → fs'.readFile p = .ok content ∧ fs'.hasNode (temporary p) = false) ∧
      (∀ failure, answer = .error failure → ¬ fs'.IsFile (temporary p) ∧ ¬ fs'.IsFile p) ∧
      ∀ names, fs'.route p ≠ .ok names → fs'.route (temporary p) ≠ .ok names →
        ∀ data modified, fs'.see names = some (.file data modified) ↔
          fs.see names = some (.file data modified) := by
  refine ⟨?_, ?_, fun names hpath htemporary => ?_⟩
  · rintro rfl
    exact ⟨(written_of_write hfs h).reads, not_hasNode_temporary hfs h⟩
  · rintro failure rfl
    exact not_isFile_of_write h
  · refine (changedAt_write hfs h).files fun q hq => ?_
    rcases List.mem_cons.1 hq with rfl | hq
    · exact htemporary
    · rw [List.mem_singleton.1 hq]
      exact hpath

/-- A directory with an old result, a temporary file that was left behind, and another result. -/
def withLeftover : FileSystem where
  root := .folder (.folder "w" (.file "m.xml" [1] 1 (.file "m.xml.tmp" [9] 2
    (.file "n.xml" [3] 3 .nil))) 3 .nil) 3
  workingNames := ["w"]
  home := ⟨"/"⟩
  clock := 4

/-- Over the old result, a write that breaks down after one of its two bytes leaves no file, one
that succeeds leaves both bytes, and the other result stays in either case. -/
theorem write_over_leftover :
    (∃ fs' failure,
      write withLeftover ⟨"m.xml"⟩ [5, 6] (some (.writing 1 (.os .busy))) = (fs', .error failure) ∧
        ¬ fs'.IsFile ⟨"m.xml.tmp"⟩ ∧ ¬ fs'.IsFile ⟨"m.xml"⟩ ∧
        fs'.see ["w", "n.xml"] = some (.file [3] 3)) ∧
    ∃ fs', write withLeftover ⟨"m.xml"⟩ [5, 6] none = (fs', .ok ()) ∧
      fs'.readFile ⟨"m.xml"⟩ = .ok [5, 6] ∧ fs'.hasNode ⟨"m.xml.tmp"⟩ = false ∧
        fs'.see ["w", "n.xml"] = some (.file [3] 3) := by
  have hfs : withLeftover.InOrder := ⟨by decide, by decide⟩
  constructor
  · obtain ⟨-, hfailure, hothers⟩ := write_all_or_nothing withLeftover ⟨"m.xml"⟩ [5, 6]
      (some (.writing 1 (.os .busy))) _ _ hfs rfl
    obtain ⟨htemporary, hpath⟩ := hfailure _ rfl
    exact ⟨_, _, rfl, htemporary, hpath,
      (hothers ["w", "n.xml"] (ne_of_apply_ne Except.toOption (by decide +kernel))
        (ne_of_apply_ne Except.toOption (by decide +kernel)) [3] 3).2 (by decide)⟩
  · obtain ⟨hsuccess, -, hothers⟩ := write_all_or_nothing withLeftover ⟨"m.xml"⟩ [5, 6] none
      _ _ hfs rfl
    obtain ⟨hreads, htemporary⟩ := hsuccess rfl
    exact ⟨_, rfl, hreads, htemporary,
      (hothers ["w", "n.xml"] (ne_of_apply_ne Except.toOption (by decide +kernel))
        (ne_of_apply_ne Except.toOption (by decide +kernel)) [3] 3).2 (by decide)⟩

end JarGraph.FileSystem
