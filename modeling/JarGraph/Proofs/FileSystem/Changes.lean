import JarGraph.FileSystem.Change
import JarGraph.Proofs.FileSystem.Route
/-!
# What a change of the tree is seen to change

A change acts on the entries of one directory, and everything that does
not stand below this directory is seen as before (`sight_changeAt_other`).
So a node that is put or removed is seen at its own row of names, and
nothing else changes (`see_putNode_self`, `see_removeNode_self`). In
particular a file that is removed by its path is not at its path any more
(`not_isFile_of_removeFile`), whatever the path goes through.
-/

namespace JarGraph

namespace Node

variable {dir other : List String} {root node : Node}

/-- A change in a directory is not seen from outside. -/
theorem sight_changeAt_other (change : Listing → Listing) (now : Instant)
    (h : dir <+: other → other = dir) :
    ((root.changeAt change now dir).at? other).map sight = (root.at? other).map sight := by
  induction dir generalizing root other with
  | nil =>
    rw [h List.nil_prefix]
    cases root <;> rfl
  | cons name dir ih =>
    cases root with
    | file content modified => rfl
    | folder inside modified =>
      rw [changeAt]
      cases hchild : inside.find? name with
      | none => rfl
      | some child =>
        cases other with
        | nil => rfl
        | cons first other =>
          dsimp only
          rw [at?, at?]
          by_cases hname : first = name
          · subst hname
            rw [Listing.find?_put_self, hchild]
            refine ih fun hdir => ?_
            exact (List.cons.inj (h (List.cons_prefix_cons.2 ⟨rfl, hdir⟩))).2
          · rw [Listing.find?_put_of_ne _ _ (Ne.symm hname)]

/-- A change reaches the directory at the end of the names. -/
theorem at?_changeAt_self (change : Listing → Listing) (now : Instant) {inside : Listing}
    {modified : Instant} (h : root.at? dir = some (.folder inside modified)) :
    (root.changeAt change now dir).at? dir = some (.folder (change inside) now) := by
  induction dir generalizing root with
  | nil =>
    obtain rfl := Option.some.inj h
    rfl
  | cons name dir ih =>
    cases root with
    | file content modified => cases h
    | folder inside' modified' =>
      rw [at?] at h
      obtain ⟨child, hchild, hdir⟩ := Option.bind_eq_some_iff.1 h
      rw [changeAt, hchild]
      dsimp only
      rw [at?, Listing.find?_put_self]
      exact ih hdir

/-- Where there is no directory, nothing is seen to change. -/
theorem sight_changeAt_of_not_folder (change : Listing → Listing) (now : Instant)
    (h : (root.at? dir).map sight ≠ some .folder) :
    ((root.changeAt change now dir).at? other).map sight = (root.at? other).map sight := by
  induction dir generalizing root other with
  | nil =>
    cases root with
    | file content modified => rfl
    | folder inside modified => exact absurd rfl h
  | cons name dir ih =>
    cases root with
    | file content modified => rfl
    | folder inside modified =>
      rw [changeAt]
      cases hchild : inside.find? name with
      | none => rfl
      | some child =>
        cases other with
        | nil => rfl
        | cons first other =>
          dsimp only
          rw [at?, at?]
          by_cases hname : first = name
          · subst hname
            rw [at?, hchild] at h
            rw [Listing.find?_put_self, hchild]
            exact ih h
          · rw [Listing.find?_put_of_ne _ _ (Ne.symm hname)]

end Node

namespace FileSystem

variable {fs fs' : FileSystem} {p : Path} {dir other : List String} {name : String} {node : Node}

theorem workingNames_putNode (fs : FileSystem) (names : List String) (node : Node) :
    (fs.putNode names node).workingNames = fs.workingNames := by
  unfold putNode
  split <;> rfl

theorem workingNames_removeNode (fs : FileSystem) (names : List String) :
    (fs.removeNode names).workingNames = fs.workingNames := by
  unfold removeNode
  split <;> rfl

/-- Names that do not go on below an entry are not touched by a change of the entry. -/
theorem see_changeFolder_other (change : Listing → Listing)
    (hchange : ∀ inside key, key ≠ name → (change inside).find? key = inside.find? key)
    (h : ¬ dir ++ [name] <+: other) : (fs.changeFolder dir change).see other = fs.see other := by
  by_cases hbelow : dir <+: other ∧ other ≠ dir
  · obtain ⟨⟨more, rfl⟩, hne⟩ := hbelow
    cases more with
    | nil => exact absurd (List.append_nil dir) hne
    | cons key more =>
      have hkey : key ≠ name := by
        rintro rfl
        exact h ⟨more, by rw [List.append_assoc]; rfl⟩
      by_cases hfolder : fs.see dir = some .folder
      · obtain ⟨folder, hat, hsight⟩ := Option.map_eq_some_iff.1 hfolder
        cases folder with
        | file content modified => cases hsight
        | folder inside modified =>
          rw [changeFolder, see, see, Node.at?_append, Node.at?_append,
            Node.at?_changeAt_self change fs.clock hat, hat, Option.bind_some, Option.bind_some,
            Node.at?, Node.at?, hchange inside key hkey]
      · exact Node.sight_changeAt_of_not_folder change fs.clock hfolder
  · refine Node.sight_changeAt_other change fs.clock fun hdir => ?_
    exact Classical.not_not.1 fun hne => hbelow ⟨hdir, hne⟩

/-- **An entry that is removed** is gone with all that is below it. -/
theorem see_removeNode_self (fs : FileSystem) (dir : List String) (name : String)
    (more : List String) : (fs.removeNode (dir ++ [name])).see (dir ++ [name] ++ more) = none := by
  rw [removeNode, List.getLast?_concat, List.dropLast_concat, List.append_assoc]
  dsimp only
  by_cases hfolder : fs.see dir = some .folder
  · obtain ⟨folder, hat, hsight⟩ := Option.map_eq_some_iff.1 hfolder
    cases folder with
    | file content modified => cases hsight
    | folder inside modified =>
      rw [changeFolder, see, Node.at?_append, Node.at?_changeAt_self _ fs.clock hat,
        Option.bind_some, List.singleton_append, Node.at?, Listing.find?_remove_self]
      rfl
  · have hnone : fs.see (dir ++ ([name] ++ more)) = none := by
      refine Option.not_isSome_iff_eq_none.1 fun hsome => hfolder ?_
      exact see_prefix_folder dir (List.cons_ne_nil name more) hsome
    rw [← hnone]
    exact Node.sight_changeAt_of_not_folder _ fs.clock hfolder

/-- All else stays. -/
theorem see_removeNode_other (h : ¬ dir ++ [name] <+: other) :
    (fs.removeNode (dir ++ [name])).see other = fs.see other := by
  rw [removeNode, List.getLast?_concat, List.dropLast_concat]
  exact see_changeFolder_other _ (fun inside key hkey =>
    Listing.find?_remove_of_ne inside (Ne.symm hkey)) h

/-- **An entry that is put** into a directory is there, with what is below it. -/
theorem see_putNode_self (hfolder : fs.see dir = some .folder) (more : List String) :
    (fs.putNode (dir ++ [name]) node).see (dir ++ [name] ++ more) =
      (node.at? more).map Node.sight := by
  rw [putNode, List.getLast?_concat, List.dropLast_concat, List.append_assoc]
  obtain ⟨folder, hat, hsight⟩ := Option.map_eq_some_iff.1 hfolder
  cases folder with
  | file content modified => cases hsight
  | folder inside modified =>
    dsimp only
    rw [changeFolder, see, Node.at?_append, Node.at?_changeAt_self _ fs.clock hat,
      Option.bind_some, List.singleton_append, Node.at?, Listing.find?_put_self, Option.bind_some]

/-- The entry itself is there. -/
theorem see_putNode_entry (hfolder : fs.see dir = some .folder) (name : String) (node : Node) :
    (fs.putNode (dir ++ [name]) node).see (dir ++ [name]) = some node.sight := by
  have hself : (fs.putNode (dir ++ [name]) node).see (dir ++ [name] ++ []) = _ :=
    see_putNode_self hfolder []
  rw [List.append_nil] at hself
  exact hself

/-- All else stays. -/
theorem see_putNode_other (h : ¬ dir ++ [name] <+: other) :
    (fs.putNode (dir ++ [name]) node).see other = fs.see other := by
  rw [putNode, List.getLast?_concat, List.dropLast_concat]
  exact see_changeFolder_other _ (fun inside key hkey =>
    Listing.find?_put_of_ne node inside (Ne.symm hkey)) h

/-! ## A file that is removed -/

theorem within_removeNode (fs : FileSystem) (dir : List String) (name : String) :
    Within (fs.removeNode (dir ++ [name])).see fs.see := by
  intro names sight hsight
  by_cases hprefix : dir ++ [name] <+: names
  · obtain ⟨more, rfl⟩ := hprefix
    rw [see_removeNode_self] at hsight
    cases hsight
  · rw [see_removeNode_other hprefix] at hsight
    exact ⟨sight, hsight, rfl⟩

/-- **A file that was removed** is not at its path any more. -/
theorem not_isFile_of_removeFile (h : fs.removeFile p = .ok fs') : ¬ fs'.IsFile p := by
  obtain ⟨⟨found, node⟩, hnode, hremove⟩ := Answer.bind_eq_ok.1 h
  cases node with
  | folder inside modified => cases hremove
  | file content modified =>
    obtain rfl := Except.ok.inj hremove
    obtain ⟨dir, name, hnames⟩ := exists_concat_of_file hnode
    rintro ⟨found', content', modified', hnode'⟩
    -- What the path leads to now it led to before, and that is gone.
    obtain ⟨other, hbefore, -⟩ := node_mono (hnames ▸ within_removeNode fs dir name)
      (workingNames_removeNode fs found.names) hnode'
    rw [hnode] at hbefore
    have hsame : found.names = found'.names := by
      rw [(Prod.mk.inj (Except.ok.inj hbefore)).1]
    have hsight := isSome_see_of_node hnode'
    have hgone := see_removeNode_self fs dir name []
    rw [List.append_nil, ← hnames] at hgone
    rw [← hsame, hgone] at hsight
    cases hsight

theorem removeFile_of_isFile (h : fs.IsFile p) : ∃ fs', fs.removeFile p = .ok fs' := by
  obtain ⟨found, content, modified, hnode⟩ := h
  exact ⟨_, Answer.bind_eq_ok.2 ⟨_, hnode, rfl⟩⟩

theorem not_isFile_removeFileLeniently (fs : FileSystem) (p : Path) :
    ¬ (fs.removeFileLeniently p).IsFile p := by
  unfold removeFileLeniently
  split
  · rename_i fs' hremove
    exact not_isFile_of_removeFile hremove
  · rename_i cause hremove
    intro hfile
    obtain ⟨fs', hremove'⟩ := removeFile_of_isFile hfile
    rw [hremove] at hremove'
    cases hremove'

end FileSystem

end JarGraph
