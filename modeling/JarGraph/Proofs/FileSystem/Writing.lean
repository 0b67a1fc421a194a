import JarGraph.AtomicWrite
import JarGraph.Proofs.FileSystem.Keeping
import JarGraph.Proofs.Path.Ends
/-!
# What a write comes to

Directories are made from the top, and those that were made stay where a
further one is refused (`deepened_makeFoldersBy`). A write that succeeds
makes the directories that it needs, and leaves the contents at the path.
All else is kept, but for the two files that it moves about, which bear
the name at the end of the path and the temporary one
(`written_of_write`). Once a file is at a path by a write, another write
to it cannot fail, unless something stands in the way of the temporary
file or the disk breaks down (`write_of_isFile`).
-/

namespace JarGraph.FileSystem

variable {fs fs' : FileSystem} {p source target : Path} {content : Bytes} {names : List String}

/-! ## Making directories -/

/-- A directory is made where nothing was. -/
theorem of_makeFolder (hfs : fs.InOrder) (h : fs.makeFolder p = .ok fs') :
    fs'.InOrder ∧ Keeps [] fs fs' ∧ fs'.hasFolder p = true := by
  obtain ⟨found, hfound, hmake⟩ := Answer.bind_eq_ok.1 h
  obtain ⟨hroute, hnode⟩ := locate_eq_ok.1 hfound
  cases hthere : found.node with
  | some node =>
    rw [hthere] at hmake
    cases hmake
  | none =>
    rw [hthere] at hmake
    obtain rfl := Except.ok.inj hmake
    have hfree : fs.see found.names = none := by
      rw [see, hnode, hthere]
      rfl
    obtain ⟨dir, name, hnames, hdir, hname, -⟩ :=
      exists_entry_of_route hfs.working hroute (by rw [hfree]; exact (Option.some_ne_none _).symm)
    rw [hnames] at hfree hroute ⊢
    have hkeeps := keeps_putFolder hdir hfree fs.clock
    have hself := see_putNode_entry hdir name (.folder .nil fs.clock)
    refine ⟨hfs.of_keeps hkeeps (wellFormed_putNode hname trivial hfs.wellFormed), hkeeps, ?_⟩
    refine hasFolder_iff.2 ⟨_, route_of_keeps hfs.working hkeeps hroute ?_, hself⟩
    rw [hself]
    rfl

/-- What comes of making the directories down to a path: nothing is lost, and the directory is there
if the answer says so. -/
structure Deepened (p : Path) (fs fs' : FileSystem) (answer : Except IoError Unit) : Prop where
  inOrder : fs'.InOrder
  keeps : Keeps [] fs fs'
  folder : answer = .ok () → p.text.isEmpty = true ∨ fs'.hasFolder p = true

namespace Deepened

variable {answer : Except IoError Unit} {cause : IoError}

/-- A directory is made at the end. -/
theorem made (hfs : fs.InOrder) (h : fs.makeFolder p = .ok fs') : Deepened p fs fs' answer := by
  obtain ⟨horder, hkeeps, hfolder⟩ := of_makeFolder hfs h
  exact ⟨horder, hkeeps, fun _ => .inr hfolder⟩

/-- Nothing has to be made. -/
theorem still (hfs : fs.InOrder) (h : p.text.isEmpty = true ∨ fs.hasFolder p = true) :
    Deepened p fs fs answer :=
  ⟨hfs, .refl fs, fun _ => h⟩

/-- Nothing can be made. -/
theorem refused (hfs : fs.InOrder) : Deepened p fs fs (.error cause) :=
  ⟨hfs, .refl fs, nofun⟩

/-- Directories that were made before stay. -/
theorem after {between : FileSystem} (hkeeps : Keeps [] fs between)
    (h : Deepened p between fs' answer) : Deepened p fs fs' answer :=
  ⟨h.inOrder, hkeeps.trans h.keeps, h.folder⟩

end Deepened

/-- All that one step of making directories can come to. The directories above may have been made
first. Then this one is made, or it need not be, or it cannot be. -/
theorem makeFoldersBy_go_cases {make : FileSystem → Path → Except IoError FileSystem} {steps : Nat}
    {answer : Except IoError Unit} (h : makeFoldersBy.go make fs p (steps + 1) = (fs', answer)) :
    ∃ between, (between = fs ∨ ∃ above first,
        makeFoldersBy.go make fs above steps = (between, first)) ∧
      (make between p = .ok fs' ∨ fs' = between ∧
        ((p.text.isEmpty = true ∨ between.hasFolder p = true) ∨
          ∃ cause, answer = .error cause)) := by
  rw [makeFoldersBy.go] at h
  split at h
  · rename_i hempty
    obtain ⟨rfl, -⟩ := Prod.mk.inj h
    exact ⟨_, .inl rfl, .inr ⟨rfl, .inl (.inl hempty)⟩⟩
  split at h
  · rename_i made hmade
    obtain ⟨rfl, -⟩ := Prod.mk.inj h
    exact ⟨_, .inl rfl, .inl hmade⟩
  · split at h
    · obtain ⟨rfl, rfl⟩ := Prod.mk.inj h
      exact ⟨_, .inl rfl, .inr ⟨rfl, .inr ⟨_, rfl⟩⟩⟩
    split at h
    · rename_i between cause habove
      obtain ⟨rfl, rfl⟩ := Prod.mk.inj h
      exact ⟨_, .inr ⟨_, _, habove⟩, .inr ⟨rfl, .inr ⟨_, rfl⟩⟩⟩
    -- The directory above is there now.
    rename_i between habove
    refine ⟨between, .inr ⟨_, _, habove⟩, ?_⟩
    split at h
    · rename_i made hmade
      obtain ⟨rfl, -⟩ := Prod.mk.inj h
      exact .inl hmade
    · split at h
      · rename_i hfolder
        obtain ⟨rfl, -⟩ := Prod.mk.inj h
        exact .inr ⟨rfl, .inl (.inr hfolder)⟩
      · obtain ⟨rfl, rfl⟩ := Prod.mk.inj h
        exact .inr ⟨rfl, .inr ⟨_, rfl⟩⟩
  · split at h
    · rename_i hfolder
      obtain ⟨rfl, -⟩ := Prod.mk.inj h
      exact ⟨_, .inl rfl, .inr ⟨rfl, .inl (.inr hfolder)⟩⟩
    · obtain ⟨rfl, rfl⟩ := Prod.mk.inj h
      exact ⟨_, .inl rfl, .inr ⟨rfl, .inr ⟨_, rfl⟩⟩⟩

/-- **Directories are made from the top**, and those that were made stay where one is refused. -/
theorem deepened_makeFoldersBy_go {make : FileSystem → Path → Except IoError FileSystem}
    (hmake : ∀ fs p made, make fs p = .ok made → fs.makeFolder p = .ok made) {steps : Nat}
    {answer : Except IoError Unit} (hfs : fs.InOrder)
    (h : makeFoldersBy.go make fs p steps = (fs', answer)) : Deepened p fs fs' answer := by
  induction steps generalizing fs fs' p answer with
  | zero =>
    obtain ⟨rfl, rfl⟩ := Prod.mk.inj h
    exact .refused hfs
  | succ steps ih =>
    obtain ⟨between, hbefore, hthen⟩ := makeFoldersBy_go_cases h
    obtain ⟨hbetween, hkeeps⟩ : between.InOrder ∧ Keeps [] fs between := by
      rcases hbefore with rfl | ⟨above, first, habove⟩
      · exact ⟨hfs, .refl _⟩
      · have hdeepened := ih hfs habove
        exact ⟨hdeepened.inOrder, hdeepened.keeps⟩
    refine .after hkeeps ?_
    rcases hthen with hmade | ⟨rfl, hthere | ⟨cause, rfl⟩⟩
    · exact .made hbetween (hmake _ _ _ hmade)
    · exact .still hbetween hthere
    · exact .refused hbetween

theorem deepened_makeFoldersBy {make : FileSystem → Path → Except IoError FileSystem}
    (hmake : ∀ fs p made, make fs p = .ok made → fs.makeFolder p = .ok made)
    {answer : Except IoError Unit} (hfs : fs.InOrder)
    (h : fs.makeFoldersBy make p = (fs', answer)) : Deepened p fs fs' answer :=
  deepened_makeFoldersBy_go hmake hfs h

/-- Where the directory is there, none is made. -/
theorem makeFoldersBy_of_hasFolder (h : fs.hasFolder p = true) :
    fs.makeFoldersBy makeFolder p = (fs, .ok ()) := by
  obtain ⟨names, hroute, hsee⟩ := hasFolder_iff.1 h
  obtain ⟨node, hnode, -⟩ := Option.map_eq_some_iff.1 hsee
  have hlocate : fs.locate p = .ok ⟨names, some node⟩ := locate_eq_ok.2 ⟨hroute, hnode⟩
  have hmake : fs.makeFolder p = .error (.os .alreadyThere) := by
    rw [makeFolder, hlocate]
    rfl
  rw [makeFoldersBy, makeFoldersBy.go, hmake, h]
  dsimp only
  split <;> rfl

/-! ## Writing and moving a file -/

/-- A file is written as an entry of a directory. -/
theorem of_writeFile (hfs : fs.InOrder) (h : fs.writeFile p content = .ok fs') :
    ∃ dir name, fs.route p = .ok (dir ++ [name]) ∧ fs.see dir = some .folder ∧
      IsEntryName name ∧ p.fileName = some name ∧ fs.see (dir ++ [name]) ≠ some .folder ∧
      fs' = fs.putNode (dir ++ [name]) (.file content fs.clock) := by
  obtain ⟨found, hwritable, hput⟩ := Answer.bind_eq_ok.1 h
  obtain ⟨other, hlocate, hkind⟩ := Answer.bind_eq_ok.1 hwritable
  obtain ⟨hroute, hnode⟩ := locate_eq_ok.1 hlocate
  have hsame : other = found ∧ fs.see other.names ≠ some .folder := by
    rw [see, hnode]
    split at hkind
    · cases hkind
    · rename_i hthere
      rw [hthere]
      exact ⟨Except.ok.inj hkind, by rintro ⟨⟩⟩
    · rename_i hthere
      split at hkind
      · cases hkind
      · rw [hthere]
        exact ⟨Except.ok.inj hkind, by rintro ⟨⟩⟩
  obtain ⟨rfl, hfree⟩ := hsame
  obtain ⟨dir, name, hnames, hdir, hname, hlast⟩ := exists_entry_of_route hfs.working hroute hfree
  rw [hnames] at hroute hfree hput
  exact ⟨dir, name, hroute, hdir, hname, hlast, hfree, (Except.ok.inj hput).symm⟩

/-- A file is moved to an entry of a directory. -/
theorem of_moveFile (h : fs.moveFile source target = .ok fs') :
    ∃ old new content modified, fs.route source = .ok old ∧
      fs.see old = some (.file content modified) ∧ fs.route target = .ok new ∧
      fs.see new ≠ some .folder ∧ endsInName target = true ∧ asksForFolder target = false ∧
      fs' = (fs.removeNode old).putNode new (.file content modified) := by
  obtain ⟨⟨found, node⟩, hsource, h⟩ := Answer.bind_eq_ok.1 h
  obtain ⟨place, htarget, h⟩ := Answer.bind_eq_ok.1 h
  obtain ⟨hroute, hnode⟩ := locate_eq_ok.1 htarget
  dsimp only at h
  split at h
  · cases h
  rename_i hname
  split at h
  · cases h
  rename_i hfile
  split at h
  · cases h
  rename_i hasks
  cases node with
  | folder inside modified => exact absurd rfl hfile
  | file content modified =>
    have hfree : fs.see place.names ≠ some .folder ∧
        fs' = (fs.removeNode found.names).putNode place.names (.file content modified) := by
      rw [see, hnode]
      split at h
      · cases h
      · rename_i hnot
        refine ⟨fun hfolder => ?_, (Except.ok.inj h).symm⟩
        obtain ⟨there, hthere, hsight⟩ := Option.map_eq_some_iff.1 hfolder
        cases there with
        | file _ _ => cases hsight
        | folder inside modified => exact hnot inside modified hthere
    refine ⟨found.names, place.names, content, modified, (node_eq_ok.1 hsource).1,
      isSome_see_of_node hsource, hroute, hfree.1, ?_, ?_, hfree.2⟩
    · simpa using hname
    · simpa using hasks

/-- What is no directory does not become one when a file is removed. -/
theorem see_removeNode_ne_folder {dir : List String} {name : String}
    (h : fs.see names ≠ some .folder) :
    (fs.removeNode (dir ++ [name])).see names ≠ some .folder := by
  by_cases hprefix : dir ++ [name] <+: names
  · obtain ⟨more, rfl⟩ := hprefix
    rw [see_removeNode_self]
    exact (Option.some_ne_none _).symm
  · rw [see_removeNode_other hprefix]
    exact h

/-! ## The steps of a write -/

open AtomicWrite

variable {breakdown : Option Breakdown}

/-- The first step makes directories and nothing else, also when it fails. -/
theorem keeps_prepare {answer : Except Failure Unit} (hfs : fs.InOrder)
    (h : prepare fs p breakdown = (fs', answer)) :
    fs'.InOrder ∧ Keeps [] fs fs' ∧ (answer = .ok () →
      ∀ parent, parentFolder p = some parent → fs'.hasFolder parent = true) := by
  unfold prepare at h
  split at h
  · rename_i hnone
    obtain ⟨rfl, -⟩ := Prod.mk.inj h
    refine ⟨hfs, .refl fs, fun _ parent hparent => ?_⟩
    rw [hnone] at hparent
    cases hparent
  rename_i parent hparent
  dsimp only at h
  split at h
  · rename_i limit cause
    have hmake : ∀ tree path made, makeFolderBefore (fs.clock + limit) cause tree path = .ok made →
        tree.makeFolder path = .ok made := by
      intro tree path made hmade
      unfold makeFolderBefore at hmade
      split at hmade
      · exact hmade
      · cases hmade
    obtain ⟨rfl, rfl⟩ := Prod.mk.inj h
    have hdeepened := deepened_makeFoldersBy hmake (p := parent) hfs rfl
    exact ⟨hdeepened.inOrder, hdeepened.keeps, nofun⟩
  split at h
  · rename_i made hmade
    obtain ⟨rfl, -⟩ := Prod.mk.inj h
    have hdeepened := deepened_makeFoldersBy (fun _ _ _ => id) hfs hmade
    refine ⟨hdeepened.inOrder, hdeepened.keeps, fun _ other hother => ?_⟩
    rw [hparent] at hother
    obtain rfl := Option.some.inj hother
    have htext : parent.text.isEmpty = false := by
      have := (Option.filter_eq_some_iff.1 hparent).2
      simpa using this
    have hfolder := hdeepened.folder rfl
    rw [htext] at hfolder
    exact hfolder.resolve_left Bool.false_ne_true
  · rename_i made cause hmade
    obtain ⟨rfl, rfl⟩ := Prod.mk.inj h
    have hdeepened := deepened_makeFoldersBy (fun _ _ _ => id) hfs hmade
    exact ⟨hdeepened.inOrder, hdeepened.keeps, nofun⟩

theorem of_prepare (hfs : fs.InOrder) (h : prepare fs p breakdown = (fs', .ok ())) :
    fs'.InOrder ∧ Keeps [] fs fs' ∧
      ∀ parent, parentFolder p = some parent → fs'.hasFolder parent = true := by
  obtain ⟨horder, hkeeps, hfolder⟩ := keeps_prepare hfs h
  exact ⟨horder, hkeeps, hfolder rfl⟩

theorem of_stage (h : stage fs p content breakdown = (fs', .ok ())) :
    fs.writeFile (temporary p) content = .ok fs' := by
  unfold stage at h
  dsimp only at h
  split at h
  · split at h <;> cases (Prod.mk.inj h).2
  · split at h
    · rename_i written hwritten
      obtain ⟨rfl, -⟩ := Prod.mk.inj h
      exact hwritten
    · cases (Prod.mk.inj h).2

theorem of_publish (h : publish fs p breakdown = (fs', .ok ())) :
    fs.moveFile (temporary p) p = .ok fs' := by
  unfold publish at h
  dsimp only at h
  split at h
  · cases (Prod.mk.inj h).2
  · split at h
    · rename_i moved hmoved
      obtain ⟨rfl, -⟩ := Prod.mk.inj h
      exact hmoved
    · cases (Prod.mk.inj h).2

/-- A write succeeds in all of its steps. -/
theorem write_eq_ok :
    write fs p content breakdown = (fs', .ok ()) ↔
      ∃ prepared staged, prepare fs p breakdown = (prepared, .ok ()) ∧
        stage prepared p content breakdown = (staged, .ok ()) ∧
        publish staged p breakdown = (fs', .ok ()) := by
  constructor
  · intro h
    unfold write at h
    split at h
    · rename_i hattempt
      obtain ⟨rfl, -⟩ := Prod.mk.inj h
      unfold attempt at hattempt
      split at hattempt
      · cases (Prod.mk.inj hattempt).2
      rename_i prepared hprepare
      split at hattempt
      · cases (Prod.mk.inj hattempt).2
      rename_i staged hstage
      exact ⟨prepared, staged, hprepare, hstage, hattempt⟩
    · cases (Prod.mk.inj h).2
  · rintro ⟨prepared, staged, hprepare, hstage, hpublish⟩
    rw [write, attempt, hprepare]
    dsimp only
    rw [hstage]
    dsimp only
    rw [hpublish]

/-! ## A write that succeeds -/

/-- What a write leaves: the contents at the path, and all else but what bears the temporary
name. -/
structure Written (fs : FileSystem) (p : Path) (content : Bytes) (fs' : FileSystem) : Prop where
  inOrder : fs'.InOrder
  keeps : ∃ except, Keeps except fs fs' ∧ ∀ names ∈ except,
    fs'.route p = .ok names ∨ names.getLast? = (temporary p).fileName
  reads : fs'.readFile p = .ok content

/-- What the text of a path has to be for a write to it. -/
structure IsWritable (p : Path) : Prop where
  name : endsInName p = true
  file : asksForFolder p = false
  plain : IsPlain (temporary p)
  parent : ∀ parent, parentFolder p = some parent → IsPlain parent
  short : ∀ name, (temporary p).fileName = some name → isLongName name = false

/-- A file that is moved lies at the new place, and not at the old one. -/
theorem written_of_move {moved : FileSystem} {dir : List String} {key : String}
    {modified : Instant} (hfs : fs.InOrder) (hsource : fs.route source = .ok (dir ++ [key]))
    (hsee : fs.see (dir ++ [key]) = some (.file content modified))
    (h : fs.moveFile source target = .ok moved) :
    moved.InOrder ∧ moved.readFile target = .ok content ∧
      ∃ place, Keeps [dir ++ [key], place] fs moved ∧ moved.route target = .ok place := by
  obtain ⟨old, new, bytes, time, hold, hfile, htarget, hfree, -, hasks, rfl⟩ := of_moveFile h
  obtain rfl := eq_of_route rfl hsource hold
  rw [hsee] at hfile
  obtain ⟨rfl, rfl⟩ := Sight.file.inj (Option.some.inj hfile)
  obtain ⟨dir', name, rfl, hdir, hname, -⟩ := exists_entry_of_route hfs.working htarget hfree
  have hfile : fs.see (dir ++ [key]) ≠ some .folder := by
    rw [hsee]
    rintro ⟨⟩
  have hremoved := keeps_removeNode hfile
  have hdir' := hremoved.folders _ hdir
  have hfree' : (fs.removeNode (dir ++ [key])).see (dir' ++ [name]) ≠ some .folder :=
    see_removeNode_ne_folder hfree
  have hkeeps := hremoved.trans (keeps_putNode hdir' hfree' content modified)
  have hplace := route_of_keeps hfs.working hkeeps htarget (by rw [hasks, Bool.and_false])
  refine ⟨(hfs.removeNode hfile).putNode hdir' hname hfree' content modified, ?_, dir' ++ [name],
    hkeeps, hplace⟩
  exact readFile_eq_ok.2 ⟨_, modified, hplace,
    see_putNode_entry hdir' name (.file content modified)⟩

/-- **A write that succeeds** leaves the contents, and all other files. -/
theorem written_of_write (hfs : fs.InOrder) (h : write fs p content breakdown = (fs', .ok ())) :
    Written fs p content fs' := by
  obtain ⟨prepared, staged, hprepare, hstage, hpublish⟩ := write_eq_ok.1 h
  obtain ⟨hprepared, hkeeps, -⟩ := of_prepare hfs hprepare
  obtain ⟨dir, name, hroute, hdir, hname, hlast, hfree, rfl⟩ :=
    of_writeFile hprepared (of_stage hstage)
  have hput := keeps_putNode hdir hfree content prepared.clock
  have hsee := see_putNode_entry hdir name (.file content prepared.clock)
  have horder := hprepared.putNode hdir hname hfree content prepared.clock
  have hmove := of_publish hpublish
  -- The temporary file is where it was written.
  have hsource : (prepared.putNode (dir ++ [name]) (.file content prepared.clock)).route
      (temporary p) = .ok (dir ++ [name]) := by
    obtain ⟨old, -, -, -, hold, -⟩ := of_moveFile hmove
    rw [eq_of_route hput.working hroute hold] at hold
    exact hold
  obtain ⟨hmoved, hreads, place, hkeeps', hplace⟩ := written_of_move horder hsource hsee hmove
  refine ⟨hmoved, ⟨_, (hkeeps.trans hput).trans hkeeps', ?_⟩, hreads⟩
  have hstaged : (dir ++ [name]).getLast? = (temporary p).fileName := by
    rw [List.getLast?_concat, hlast]
  intro names hnames
  simp only [List.nil_append, List.singleton_append, List.mem_cons, List.not_mem_nil,
    or_false] at hnames
  rcases hnames with rfl | rfl | rfl
  · exact .inr hstaged
  · exact .inr hstaged
  · exact .inl hplace

/-- The last component of a route is no long name. -/
theorem isLongName_of_route {name : String} (h : fs.route p = .ok names)
    (hlast : p.fileName = some name) : isLongName name = false := by
  obtain ⟨-, -, hleads, -⟩ := route_eq_ok.1 h
  obtain ⟨component, hcomponent, hname⟩ := Option.bind_eq_some_iff.1 hlast
  cases component with
  | root | here | up => cases hname
  | name text =>
    obtain rfl := Option.some.inj hname
    exact hleads.short text (List.mem_of_getLast? hcomponent)

/-- A path that was written to can be written to. -/
theorem isWritable_of_write (hfs : fs.InOrder) (h : write fs p content breakdown = (fs', .ok ())) :
    IsWritable p := by
  obtain ⟨prepared, staged, hprepare, hstage, hpublish⟩ := write_eq_ok.1 h
  obtain ⟨hprepared, -, hfolder⟩ := of_prepare hfs hprepare
  obtain ⟨dir, name, hroute, -⟩ := of_writeFile hprepared (of_stage hstage)
  obtain ⟨-, -, -, -, -, -, -, -, hends, hasks, -⟩ := of_moveFile (of_publish hpublish)
  refine ⟨hends, hasks, (route_eq_ok.1 hroute).1, fun parent hparent => ?_,
    fun name => isLongName_of_route hroute⟩
  obtain ⟨names, hnames, -⟩ := hasFolder_iff.1 (hfolder parent hparent)
  exact (route_eq_ok.1 hnames).1

/-! ## A write over a file -/

/-- A file can be written where no directory is. -/
theorem writeFile_of_route (hroute : fs.route p = .ok names) (hfree : fs.see names ≠ some .folder)
    (hasks : asksForFolder p = false) :
    fs.writeFile p content = .ok (fs.putNode names (.file content fs.clock)) := by
  have hlocate : fs.locate p = .ok ⟨names, fs.root.at? names⟩ := locate_eq_ok.2 ⟨hroute, rfl⟩
  have hwritable : fs.writable p = .ok ⟨names, fs.root.at? names⟩ := by
    rw [writable, hlocate]
    rw [see] at hfree
    cases hthere : fs.root.at? names with
    | none =>
      show (if asksForFolder p then _ else _) = _
      rw [hasks, if_neg Bool.false_ne_true]
      rfl
    | some node =>
      cases node with
      | file content modified => rfl
      | folder inside modified =>
        rw [hthere] at hfree
        exact absurd rfl hfree
  rw [writeFile, hwritable]
  rfl

/-- A file can be moved where no directory is. -/
theorem moveFile_of_route {old new : List String} {modified : Instant}
    (hsource : fs.route source = .ok old) (hsee : fs.see old = some (.file content modified))
    (htarget : fs.route target = .ok new) (hfree : fs.see new ≠ some .folder)
    (hname : endsInName target = true) (hasks : asksForFolder target = false) :
    fs.moveFile source target =
      .ok ((fs.removeNode old).putNode new (.file content modified)) := by
  obtain ⟨node, hnode, hsight⟩ := Option.map_eq_some_iff.1 hsee
  cases node with
  | folder inside time => cases hsight
  | file bytes time =>
    obtain ⟨rfl, rfl⟩ := Sight.file.inj hsight
    have hfound : fs.node source = .ok (⟨old, _⟩, _) := node_eq_ok.2 ⟨hsource, hnode, rfl⟩
    have hlocate : fs.locate target = .ok ⟨new, fs.root.at? new⟩ :=
      locate_eq_ok.2 ⟨htarget, rfl⟩
    refine Answer.bind_eq_ok.2 ⟨_, hfound, Answer.bind_eq_ok.2 ⟨_, hlocate, ?_⟩⟩
    simp only [hname, hasks]
    rw [see] at hfree
    cases hthere : fs.root.at? new with
    | none => rfl
    | some other =>
      cases other with
      | file content' modified' => rfl
      | folder inside modified' =>
        rw [hthere] at hfree
        exact absurd rfl hfree

/-- A file that was written stands in a directory, which is there, and its temporary file belongs
beside it. -/
theorem exists_place (hp : IsWritable p) (habsolute : p.isAbsolute = true)
    (hfile : fs.IsFile p) :
    ∃ dir name old modified, fs.see dir = some .folder ∧ prepare fs p none = (fs, .ok ()) ∧
      fs.route p = .ok (dir ++ [name]) ∧ fs.see (dir ++ [name]) = some (.file old modified) ∧
      fs.route (temporary p) = .ok (dir ++ [name ++ ".tmp"]) ∧
      asksForFolder (temporary p) = false := by
  obtain ⟨above, name, -, -, hcomponents, htemporary, hasks, parent, hparent, hparents⟩ :=
    Path.exists_ends habsolute hp.name hp.file
  obtain ⟨found, old, modified, hnode⟩ := hfile
  have hroute := (node_eq_ok.1 hnode).1
  have hsee := isSome_see_of_node hnode
  obtain ⟨-, hworking, hleads, -⟩ := route_eq_ok.1 hroute
  rw [hcomponents] at hleads
  obtain ⟨dir, hdir, hfolder, -, hnames⟩ := leadsTo_concat.1 hleads
  rw [hnames] at hroute hsee
  have hhas : fs.hasFolder parent = true := by
    refine hasFolder_iff.2 ⟨dir, route_eq_ok.2 ⟨hp.parent parent hparent, hworking, ?_, ?_⟩,
      hfolder⟩
    · rw [hparents]
      exact hdir
    · rw [hfolder]
      rfl
  have hprepare : prepare fs p none = (fs, .ok ()) := by
    rw [prepare, hparent]
    dsimp only
    rw [makeFoldersBy_of_hasFolder hhas]
  have hshort : isLongName (name ++ ".tmp") = false := by
    refine hp.short _ ?_
    rw [Path.fileName, htemporary, List.getLast?_concat]
    rfl
  refine ⟨dir, name, old, modified, hfolder, hprepare, hroute, hsee, ?_, hasks⟩
  refine route_eq_ok.2 ⟨hp.plain, hworking, ?_, ?_⟩
  · rw [htemporary]
    exact leadsTo_concat.2 ⟨dir, hdir, hfolder, hshort, rfl⟩
  · rw [hasks, Bool.and_false]

/-- **A file that was written can be written again**, with any contents, as long as no directory
has taken the place of the temporary file. -/
theorem write_of_isFile (hp : IsWritable p) (habsolute : p.isAbsolute = true) (hfs : fs.InOrder)
    (hfile : fs.IsFile p) (hfree : fs.hasFolder (temporary p) = false) (content : Bytes) :
    ∃ fs', write fs p content none = (fs', .ok ()) := by
  obtain ⟨dir, name, old, modified, hfolder, hprepare, hroute, hsee, hstaged, hasks⟩ :=
    exists_place hp habsolute hfile
  have hnone : fs.see (dir ++ [name ++ ".tmp"]) ≠ some .folder := by
    intro hthere
    rw [hasFolder_iff.2 ⟨_, hstaged, hthere⟩] at hfree
    cases hfree
  have hstage : stage fs p content none =
      (fs.putNode (dir ++ [name ++ ".tmp"]) (.file content fs.clock), .ok ()) := by
    unfold stage
    dsimp only
    rw [writeFile_of_route hstaged hnone hasks]
  -- The temporary file is another one than the one that it replaces.
  have hkeeps := keeps_putNode hfolder hnone content fs.clock
  have hne : dir ++ [name] ∉ [dir ++ [name ++ ".tmp"]] := by
    intro hmem
    have hsame := List.append_cancel_left (List.mem_singleton.1 hmem)
    have hlength := congrArg String.length (List.cons.inj hsame).1
    rw [String.length_append] at hlength
    have htmp : ".tmp".length = 4 := rfl
    omega
  have hthere := (hkeeps.files _ hne old modified).2 hsee
  have hmove := moveFile_of_route
    (route_of_keeps hfs.working hkeeps hstaged (by rw [hasks, Bool.and_false]))
    (see_putNode_entry hfolder _ (.file content fs.clock))
    (route_of_keeps hfs.working hkeeps hroute (by rw [hp.file, Bool.and_false]))
    (by rw [hthere]; rintro ⟨⟩) hp.name hp.file
  have hpublish : ∃ moved, publish
      (fs.putNode (dir ++ [name ++ ".tmp"]) (.file content fs.clock)) p none = (moved, .ok ()) := by
    unfold publish
    dsimp only
    rw [hmove]
    exact ⟨_, rfl⟩
  obtain ⟨moved, hmoved⟩ := hpublish
  exact ⟨moved, write_eq_ok.2 ⟨_, _, hprepare, hstage, hmoved⟩⟩

end JarGraph.FileSystem
