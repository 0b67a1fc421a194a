import JarGraph.Proofs.FileSystem.Changes
import JarGraph.Proofs.FileSystem.Order
/-!
# What a change of the tree keeps

A program only ever adds directories, and changes files one at a time.
`Keeps` says this of two trees: every directory of the one is there in the
other, and every file that is not excepted. Where directories are kept, a
path goes on leading where it led (`route_of_keeps`).
-/

namespace JarGraph.FileSystem

variable {fs fs' fs'' : FileSystem} {p : Path} {names dir trail : List String} {name : String}
variable {except more : List (List String)}

/-! ## Trees in order -/

/-- The tree is well formed, and the working directory is there. -/
structure InOrder (fs : FileSystem) : Prop where
  wellFormed : fs.root.WellFormed
  working : fs.see fs.workingNames = some .folder

/-! ## What is kept -/

/-- Directories stay, and so do files at names that are not excepted. -/
structure Keeps (except : List (List String)) (fs fs' : FileSystem) : Prop where
  working : fs'.workingNames = fs.workingNames
  folders : ∀ names, fs.see names = some .folder → fs'.see names = some .folder
  files : ∀ names, names ∉ except → ∀ content modified,
    fs'.see names = some (.file content modified) ↔ fs.see names = some (.file content modified)

namespace Keeps

theorem refl (fs : FileSystem) : Keeps [] fs fs :=
  ⟨rfl, fun _ h => h, fun _ _ _ _ => Iff.rfl⟩

theorem trans (h : Keeps except fs fs') (h' : Keeps more fs' fs'') :
    Keeps (except ++ more) fs fs'' where
  working := h'.working.trans h.working
  folders := fun names hnames => h'.folders names (h.folders names hnames)
  files := by
    intro names hnames content modified
    obtain ⟨hfirst, hsecond⟩ := not_or.1 (mt List.mem_append.2 hnames)
    exact (h'.files names hsecond content modified).trans (h.files names hfirst content modified)

/-- The working directory stays. -/
theorem see_working (h : Keeps except fs fs') (hfs : fs.see fs.workingNames = some .folder) :
    fs'.see fs'.workingNames = some .folder := by
  rw [h.working]
  exact h.folders _ hfs

end Keeps

/-- Where there was no directory, an entry can come and go. -/
theorem keeps_of_entry {entry : List String} (hworking : fs'.workingNames = fs.workingNames)
    (hfree : fs.see entry ≠ some .folder)
    (hbelow : ∀ more, more ≠ [] → fs'.see (entry ++ more) = none)
    (helse : ∀ names, ¬ entry <+: names → fs'.see names = fs.see names) :
    Keeps [entry] fs fs' := by
  -- Below the entry there is nothing, before and after.
  have hbefore : ∀ more, more ≠ [] → fs.see (entry ++ more) = none := fun more hmore =>
    Option.not_isSome_iff_eq_none.1 fun hsome => hfree (see_prefix_folder _ hmore hsome)
  have hsame : ∀ names, names ≠ entry → fs'.see names = fs.see names := by
    intro names hnames
    by_cases hprefix : entry <+: names
    · obtain ⟨more, rfl⟩ := hprefix
      have hmore : more ≠ [] := fun hnil => hnames (hnil ▸ List.append_nil entry)
      rw [hbelow more hmore, hbefore more hmore]
    · exact helse names hprefix
  refine ⟨hworking, fun names hnames => ?_, fun names hnames content modified => ?_⟩
  · have hne : names ≠ entry := fun heq => hfree (heq ▸ hnames)
    rw [hsame names hne]
    exact hnames
  · rw [hsame names fun heq => hnames (List.mem_singleton.2 heq)]

/-- A file is put in a directory, in the place of a file that may be there. -/
theorem keeps_putNode (hdir : fs.see dir = some .folder)
    (hfree : fs.see (dir ++ [name]) ≠ some .folder) (content : Bytes) (modified : Instant) :
    Keeps [dir ++ [name]] fs (fs.putNode (dir ++ [name]) (.file content modified)) := by
  refine keeps_of_entry (workingNames_putNode _ _ _) hfree (fun more hmore => ?_)
    fun names hnames => see_putNode_other hnames
  rw [see_putNode_self hdir]
  cases more with
  | nil => exact absurd rfl hmore
  | cons key more => rfl

/-- A file is removed. -/
theorem keeps_removeNode (hfile : fs.see (dir ++ [name]) ≠ some .folder) :
    Keeps [dir ++ [name]] fs (fs.removeNode (dir ++ [name])) :=
  keeps_of_entry (workingNames_removeNode _ _) hfile
    (fun more _ => see_removeNode_self fs dir name more) fun _ hnames => see_removeNode_other hnames

/-- An empty directory is put where nothing is. -/
theorem keeps_putFolder (hdir : fs.see dir = some .folder)
    (hfree : fs.see (dir ++ [name]) = none) (modified : Instant) :
    Keeps [] fs (fs.putNode (dir ++ [name]) (.folder .nil modified)) := by
  have hself := see_putNode_entry hdir name (.folder .nil modified)
  have hentry : Keeps [dir ++ [name]] fs (fs.putNode (dir ++ [name]) (.folder .nil modified)) := by
    refine keeps_of_entry (workingNames_putNode _ _ _) (by rw [hfree]; exact nofun)
      (fun more hmore => ?_) fun names hnames => see_putNode_other hnames
    rw [see_putNode_self hdir]
    cases more with
    | nil => exact absurd rfl hmore
    | cons key more => rfl
  refine ⟨hentry.working, hentry.folders, fun names _ content t => ?_⟩
  by_cases hnames : names = dir ++ [name]
  · rw [hnames, hself, hfree]
    exact iff_of_false (fun h => nomatch h) nofun
  · exact hentry.files names (mt List.mem_singleton.1 hnames) content t

theorem InOrder.of_keeps (hfs : fs.InOrder)
    (hkeeps : Keeps except fs fs') (h : fs'.root.WellFormed) : fs'.InOrder :=
  ⟨h, hkeeps.see_working hfs.working⟩

theorem InOrder.putNode (hfs : fs.InOrder)
    (hdir : fs.see dir = some .folder) (hname : IsEntryName name)
    (hfree : fs.see (dir ++ [name]) ≠ some .folder) (content : Bytes) (modified : Instant) :
    (fs.putNode (dir ++ [name]) (.file content modified)).InOrder :=
  hfs.of_keeps (keeps_putNode hdir hfree content modified)
    (wellFormed_putNode hname trivial hfs.wellFormed)

theorem InOrder.removeNode (hfs : fs.InOrder)
    (hfile : fs.see (dir ++ [name]) ≠ some .folder) :
    (fs.removeNode (dir ++ [name])).InOrder :=
  hfs.of_keeps (keeps_removeNode hfile) (wellFormed_removeNode hfs.wellFormed _)

/-! ## Where paths lead -/

/-- **Steps that come to their end** come to the same end wherever the directories are kept. -/
theorem LeadsTo.of_keeps {steps : List Component} (h : LeadsTo fs.see trail steps names)
    (hkeeps : Keeps except fs fs') (hsteps : ∀ component ∈ steps, IsStep component) :
    LeadsTo fs'.see trail steps names := by
  induction h with
  | done => exact .done
  | root => exact absurd rfl (hsteps _ List.mem_cons_self)
  | here hfolder _ ih =>
    exact .here (hkeeps.folders _ hfolder) (ih (List.forall_mem_cons.1 hsteps).2)
  | up hfolder _ _ ih =>
    have habove := hkeeps.folders _ (see_tail hfolder)
    exact .up (hkeeps.folders _ hfolder) (by rw [habove]; rfl) (ih (List.forall_mem_cons.1 hsteps).2)
  | @name trail name rest names hfolder hshort _ hmore ih =>
    have hrest := (List.forall_mem_cons.1 hsteps).2
    cases rest with
    | nil =>
      -- It does not matter whether there is something at the end.
      rw [hmore.eq_destination]
      exact .last (hkeeps.folders _ hfolder) hshort
    | cons next rest =>
      have hchild := hkeeps.folders _ (hmore.folder (hrest next List.mem_cons_self))
      exact .name (hkeeps.folders _ hfolder) hshort (by rw [hchild]; rfl) (ih hrest)
  | last hfolder hshort => exact .last (hkeeps.folders _ hfolder) hshort

/-- **A path goes on leading where it led** as long as the directories are kept, unless there is a
file now where it asks for a directory. -/
theorem route_of_keeps (hfs : fs.see fs.workingNames = some .folder)
    (hkeeps : Keeps except fs fs') (h : fs.route p = .ok names)
    (hend : ((fs'.see names).any Sight.isFile && asksForFolder p) = false) :
    fs'.route p = .ok names := by
  obtain ⟨hplain, -, hleads, -⟩ := route_eq_ok.1 h
  obtain ⟨trail, steps, hsteps, -, -, hwhole⟩ := exists_steps hfs p
  refine route_eq_ok.2 ⟨hplain, ?_, ?_, hend⟩
  · rw [hkeeps.see_working hfs]
    rfl
  · rw [hkeeps.working, hwhole]
    exact ((hwhole _ _).1 hleads).of_keeps hkeeps hsteps

end JarGraph.FileSystem
