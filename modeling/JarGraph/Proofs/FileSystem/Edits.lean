import JarGraph.Proofs.FileSystem.AllOrNothing
/-!
# Trees that come about

What is said of runs is said of trees that are in order, and between two
runs anything may happen to a tree. A tree in order stays so whatever is
made, written, moved, touched or removed in it (`inOrder_editAll`), unless
the working directory itself is taken away. From then on no edit changes
anything, for no path leads anywhere any more (`edit_of_gone`).
-/

namespace JarGraph.FileSystem

variable {fs fs' : FileSystem} {p : Path} {content : Bytes}

/-- What may be done to a tree. -/
inductive Edit where
  | makeFolders (p : Path)
  | writeFile (p : Path) (content : Bytes)
  | moveFile (source target : Path)
  | setModified (p : Path) (time : Instant)
  | removeFile (p : Path)
  /-- Removes a file or a directory with everything in it. -/
  | removeAll (p : Path)

/-- Tries an edit. -/
def Edit.perform (fs : FileSystem) : Edit → Except IoError FileSystem
  | makeFolders p => fs.makeFolders p
  | writeFile p content => fs.writeFile p content
  | moveFile source target => fs.moveFile source target
  | setModified p time => fs.setModified p time
  | removeFile p => fs.removeFile p
  | removeAll p => fs.removeAll p

/-- The tree after an edit; one that is refused changes nothing. -/
def edit (fs : FileSystem) (e : Edit) : FileSystem :=
  (e.perform fs).toOption.getD fs

/-- The tree after some edits. -/
def editAll (fs : FileSystem) (edits : List Edit) : FileSystem :=
  edits.foldl edit fs

/-! ## One edit of a tree in order -/

theorem inOrder_makeFolders (hfs : fs.InOrder) (h : fs.makeFolders p = .ok fs') : fs'.InOrder := by
  unfold makeFolders at h
  split at h
  · rename_i made hmade
    obtain rfl := Except.ok.inj h
    exact (deepened_makeFoldersBy (fun _ _ _ => id) hfs hmade).inOrder
  · cases h

theorem inOrder_writeFile (hfs : fs.InOrder) (h : fs.writeFile p content = .ok fs') :
    fs'.InOrder := by
  obtain ⟨dir, name, -, hdir, hname, -, hfree, rfl⟩ := of_writeFile hfs h
  exact hfs.putNode hdir hname hfree content fs.clock

theorem inOrder_moveFile {source target : Path} (hfs : fs.InOrder)
    (h : fs.moveFile source target = .ok fs') : fs'.InOrder := by
  obtain ⟨old, -, data, modified, hold, hsee, -⟩ := of_moveFile h
  obtain ⟨dir, key, rfl, -⟩ := exists_entry_of_route hfs.working hold (by rw [hsee]; exact nofun)
  exact (written_of_move hfs hold hsee h).1

/-- A file with another time takes the place of the file. -/
theorem inOrder_setModified {time : Instant} (hfs : fs.InOrder)
    (h : fs.setModified p time = .ok fs') : fs'.InOrder := by
  obtain ⟨⟨found, node⟩, hnode, hput⟩ := Answer.bind_eq_ok.1 h
  cases node with
  | folder inside modified => cases hput
  | file data modified =>
    obtain rfl := Except.ok.inj hput
    have hfile : fs.see found.names ≠ some .folder := by
      rw [isSome_see_of_node hnode]
      exact nofun
    obtain ⟨dir, name, hnames, hdir, hname, -⟩ :=
      exists_entry_of_route hfs.working (node_eq_ok.1 hnode).1 hfile
    rw [hnames] at hfile ⊢
    exact hfs.putNode hdir hname hfile data time

theorem inOrder_removeFile (hfs : fs.InOrder) (h : fs.removeFile p = .ok fs') : fs'.InOrder := by
  obtain ⟨dir, name, -, hfile, -, rfl⟩ := of_removeFile h
  exact hfs.removeNode hfile

/-- The working directory is gone, or it never was there. -/
def Gone (fs : FileSystem) : Prop :=
  fs.see fs.workingNames = none

/-- What is removed may be the working directory or one that it is in. -/
theorem inOrder_or_gone_removeAll (hfs : fs.InOrder) (h : fs.removeAll p = .ok fs') :
    fs'.InOrder ∨ fs'.Gone := by
  obtain ⟨⟨found, node⟩, -, hremove⟩ := Answer.bind_eq_ok.1 h
  obtain rfl := Except.ok.inj hremove
  have hwell := wellFormed_removeNode hfs.wellFormed found.names
  rw [Gone, workingNames_removeNode]
  obtain hnil | ⟨dir, name, hnames⟩ := List.eq_nil_or_concat found.names
  · rw [hnil]
    exact .inl hfs
  · rw [hnames, List.concat_eq_append] at hwell ⊢
    by_cases hprefix : dir ++ [name] <+: fs.workingNames
    · obtain ⟨more, hmore⟩ := hprefix
      refine .inr ?_
      rw [← hmore]
      exact see_removeNode_self fs dir name more
    · refine .inl ⟨hwell, ?_⟩
      rw [workingNames_removeNode, see_removeNode_other hprefix]
      exact hfs.working

/-- **One edit** leaves a tree in order, or without its working directory. -/
theorem inOrder_or_gone_edit (hfs : fs.InOrder) (e : Edit) :
    (fs.edit e).InOrder ∨ (fs.edit e).Gone := by
  unfold edit
  cases hperform : e.perform fs with
  | error cause => exact .inl hfs
  | ok fs' =>
    show fs'.InOrder ∨ fs'.Gone
    cases e with
    | makeFolders p => exact .inl (inOrder_makeFolders hfs hperform)
    | writeFile p content => exact .inl (inOrder_writeFile hfs hperform)
    | moveFile source target => exact .inl (inOrder_moveFile hfs hperform)
    | setModified p time => exact .inl (inOrder_setModified hfs hperform)
    | removeFile p => exact .inl (inOrder_removeFile hfs hperform)
    | removeAll p => exact inOrder_or_gone_removeAll hfs hperform

/-! ## A tree without its working directory -/

theorem locate_of_gone (h : fs.Gone) (p : Path) : ∃ cause, fs.locate p = .error cause := by
  cases hlocate : fs.locate p with
  | error cause => exact ⟨cause, rfl⟩
  | ok found =>
    obtain ⟨-, hworking, -⟩ := route_eq_ok.1 (locate_eq_ok.1 hlocate).1
    rw [h] at hworking
    cases hworking

theorem node_of_gone (h : fs.Gone) (p : Path) : ∃ cause, fs.node p = .error cause := by
  obtain ⟨cause, hlocate⟩ := locate_of_gone h p
  refine ⟨cause, ?_⟩
  rw [node, hlocate]
  rfl

theorem makeFolder_of_gone (h : fs.Gone) (p : Path) : ∃ cause, fs.makeFolder p = .error cause := by
  obtain ⟨cause, hlocate⟩ := locate_of_gone h p
  refine ⟨cause, ?_⟩
  rw [makeFolder, hlocate]
  rfl

/-- However far up the tries go, none of them makes a directory. -/
theorem makeFoldersBy_go_of_gone (h : fs.Gone) {steps : Nat} {answer : Except IoError Unit}
    (hgo : makeFoldersBy.go makeFolder fs p steps = (fs', answer)) : fs' = fs := by
  induction steps generalizing p fs' answer with
  | zero => exact (Prod.mk.inj hgo).1.symm
  | succ steps ih =>
    obtain ⟨between, hbefore, hthen⟩ := makeFoldersBy_go_cases hgo
    obtain rfl : between = fs := by
      rcases hbefore with rfl | ⟨above, first, habove⟩
      · rfl
      · exact ih habove
    obtain ⟨cause, hrefused⟩ := makeFolder_of_gone h p
    rcases hthen with hmade | ⟨hsame, -⟩
    · cases hrefused.symm.trans hmade
    · exact hsame

/-- At most the tree itself is the answer. -/
theorem makeFolders_of_gone (h : fs.Gone) (hmake : fs.makeFolders p = .ok fs') : fs' = fs := by
  unfold makeFolders at hmake
  split at hmake
  · rename_i made hmade
    obtain rfl := Except.ok.inj hmake
    exact makeFoldersBy_go_of_gone h hmade
  · cases hmake

/-- Without a working directory nothing can be done. -/
theorem edit_of_gone (h : fs.Gone) (e : Edit) : fs.edit e = fs := by
  unfold edit
  cases hperform : e.perform fs with
  | error cause => rfl
  | ok fs' =>
    show fs' = fs
    -- All but the first start by looking for the file or the directory.
    cases e with
    | makeFolders p => exact makeFolders_of_gone h hperform
    | writeFile p content =>
      obtain ⟨found, hwritable, -⟩ := Answer.bind_eq_ok.1 hperform
      obtain ⟨found, hlocate, -⟩ := Answer.bind_eq_ok.1 hwritable
      obtain ⟨cause, hrefused⟩ := locate_of_gone h p
      cases hrefused.symm.trans hlocate
    | moveFile source target =>
      obtain ⟨found, hfound, -⟩ := Answer.bind_eq_ok.1 hperform
      obtain ⟨cause, hrefused⟩ := node_of_gone h source
      cases hrefused.symm.trans hfound
    | setModified p time | removeFile p | removeAll p =>
      obtain ⟨found, hfound, -⟩ := Answer.bind_eq_ok.1 hperform
      obtain ⟨cause, hrefused⟩ := node_of_gone h p
      cases hrefused.symm.trans hfound

/-! ## Any edits -/

/-- **A tree in order stays so** through any edits, up to one that takes its working directory
away. -/
theorem inOrder_editAll (hfs : fs.InOrder) (edits : List Edit) :
    (fs.editAll edits).InOrder ∨ (fs.editAll edits).Gone := by
  suffices h : ∀ fs : FileSystem, fs.InOrder ∨ fs.Gone →
      (fs.editAll edits).InOrder ∨ (fs.editAll edits).Gone from h fs (.inl hfs)
  induction edits with
  | nil => exact fun fs h => h
  | cons e edits ih =>
    rintro fs (hfs | hgone)
    · exact ih _ (inOrder_or_gone_edit hfs e)
    · refine ih _ (.inr ?_)
      rw [edit_of_gone hgone]
      exact hgone

end JarGraph.FileSystem
