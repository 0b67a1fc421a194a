import JarGraph.Proofs.FileSystem.Writing
import JarGraph.Scan
import Mathlib.Data.List.Basic
/-!
# What a scan finds

A scan passes through a tree entry by entry. What it comes upon is said
here by the rows of names that lead there (`mem_findings`), and these
only depend on what stands at their ends: on every row each directory may
be entered, whatever stands beside it. In a tree that is in order a scan
goes in the strict order of paths (`ascending_findings`), so that two
scans find the same list where they find the same files.
-/

namespace JarGraph

namespace Path

variable {p q : Path} {name : String} {names : List String}

/-- The path of what lies below a directory. -/
def below (directory : Path) (names : List String) : Path :=
  names.foldl child directory

theorem toList_child_ne_nil (hp : p.text.toList ≠ []) (hname : IsEntryName name) :
    (p.child name).text.toList ≠ [] := by
  intro hempty
  have hcomponents := components_child hp hname
  have hnone : (p.child name).components = [] := by
    rw [components, lead, pieces, hempty]
    rfl
  rw [hnone] at hcomponents
  exact List.cons_ne_nil _ _ (List.append_eq_nil_iff.1 hcomponents.symm).2

theorem components_below (hp : p.text.toList ≠ []) (hnames : ∀ name ∈ names, IsEntryName name) :
    (p.below names).components = p.components ++ names.map Component.name := by
  induction names generalizing p with
  | nil => exact (List.append_nil _).symm
  | cons name names ih =>
    obtain ⟨hname, hmore⟩ := List.forall_mem_cons.1 hnames
    have hbelow : p.below (name :: names) = (p.child name).below names := rfl
    rw [hbelow, ih (toList_child_ne_nil hp hname) hmore, components_child hp hname,
      List.append_assoc]
    rfl

theorem compare_name {first second : String} (h : first < second) :
    compare (Component.name first) (.name second) = .lt := by
  show (compare 3 3).then (compareOfLessAndEq first second) = .lt
  rw [compareOfLessAndEq, if_pos h]
  rfl

/-- What lies below the earlier of two entries of a directory comes before what lies below the
other. -/
theorem compare_eq_lt {above more others : List Component} {first second : String}
    (h : first < second) (hp : p.components = above ++ .name first :: more)
    (hq : q.components = above ++ .name second :: others) : compare p q = .lt := by
  show List.compareLex compare p.components q.components = .lt
  rw [hp, hq]
  clear hp hq
  induction above with
  | nil =>
    rw [List.nil_append, List.nil_append, List.compareLex_cons_cons, compare_name h]
    rfl
  | cons component above ih =>
    have hself : compare component component = .eq := Std.ReflCmp.compare_self
    rw [List.cons_append, List.cons_append, List.compareLex_cons_cons, hself, ih]
    rfl

end Path

/-! ## Rows of names -/

/-- What a scan comes upon at an entry whose path is given. -/
def Node.findings (skipped : String → Bool) (path : Path) : Node → List Finding
  | .file _ modified => [.ok ⟨path, if FileSystem.isLongPath path then 0 else modified⟩]
  | .folder inside _ =>
    if FileSystem.isLongPath path then [.error ⟨path, .os .nameTooLong⟩]
    else inside.findings skipped path

namespace Listing

variable {skipped : String → Bool} {directory : Path} {name key : String} {node child : Node}
variable {rest l : Listing} {found : Finding} {f : ScannedFile} {content : Bytes}

theorem findings_cons :
    (cons name node rest).findings skipped directory =
      (if skipped name then [] else node.findings skipped (directory.child name)) ++
        rest.findings skipped directory := by
  cases node <;> rfl

theorem mem_names_of_find? (h : l.find? name = some node) : name ∈ l.names := by
  induction l using rec_cons with
  | nil => cases h
  | cons key child rest ih =>
    rw [find?_cons] at h
    rw [names_cons]
    split at h
    · rename_i heq
      rw [heq]
      exact List.mem_cons_self
    · exact List.mem_cons_of_mem key (ih h)

/-- A directory is scanned entry by entry. -/
theorem mem_findings_iff_find? (h : l.WellFormed) :
    found ∈ l.findings skipped directory ↔
      ∃ name node, l.find? name = some node ∧ skipped name = false ∧
        found ∈ node.findings skipped (directory.child name) := by
  induction l using rec_cons with
  | nil => exact iff_of_false List.not_mem_nil fun ⟨_, _, h, _⟩ => nomatch h
  | cons key child rest ih =>
    obtain ⟨-, -, hbelow, hrest⟩ := wellFormed_cons.1 h
    rw [findings_cons, List.mem_append, ih hrest]
    constructor
    · rintro (hfirst | ⟨name, node, hfind, hkept, hfound⟩)
      · split at hfirst
        · cases hfirst
        · rename_i hkept
          refine ⟨key, child, ?_, Bool.not_eq_true _ ▸ hkept, hfirst⟩
          rw [find?_cons, if_pos rfl]
      · have hne : key ≠ name := by
          rintro rfl
          exact String.lt_irrefl key (hbelow key (mem_names_of_find? hfind))
        refine ⟨name, node, ?_, hkept, hfound⟩
        rw [find?_cons, if_neg hne, hfind]
    · rintro ⟨name, node, hfind, hkept, hfound⟩
      rw [find?_cons] at hfind
      split at hfind
      · rename_i heq
        subst heq
        obtain rfl := Option.some.inj hfind
        rw [hkept, if_neg Bool.false_ne_true]
        exact .inl hfound
      · exact .inr ⟨name, node, hfind, hkept, hfound⟩

end Listing

/-- Whether a scan that comes to a directory goes on along a row of names: none of them is skipped,
and the directories on the way can be read. -/
def IsOpen (skipped : String → Bool) (directory : Path) : List String → Prop
  | [] => False
  | [name] => skipped name = false
  | name :: more =>
    skipped name = false ∧ FileSystem.isLongPath (directory.child name) = false ∧
      IsOpen skipped (directory.child name) more

/-- A file that a scan finds at a path. -/
def ScannedFile.at (path : Path) (modified : Instant) : ScannedFile :=
  ⟨path, if FileSystem.isLongPath path then 0 else modified⟩

/-- What a scan comes upon where a row of names ends: a file, or a directory that it cannot read. -/
def Sight.finding? (path : Path) : Sight → Option Finding
  | .file _ modified => some (.ok (.at path modified))
  | .folder =>
    if FileSystem.isLongPath path then some (.error ⟨path, .os .nameTooLong⟩) else none

/-- The path that a scan came upon. -/
def Finding.path : Finding → Path
  | .ok f => f.path
  | .error cause => cause.path

theorem Sight.path_of_finding? {sight : Sight} {path : Path} {found : Finding}
    (h : sight.finding? path = some found) : found.path = path := by
  cases sight with
  | file content modified =>
    obtain rfl := Option.some.inj h
    rfl
  | folder =>
    rw [finding?] at h
    split at h
    · obtain rfl := Option.some.inj h
      rfl
    · cases h

namespace Listing

variable {skipped : String → Bool} {directory : Path} {l : Listing} {found : Finding}

/-- What holds of a directory if it holds of those in it holds of every directory. -/
theorem induction_find? {p : Listing → Prop}
    (step : ∀ l : Listing, (∀ name inside modified,
      l.find? name = some (.folder inside modified) → p inside) → p l) (l : Listing) : p l := by
  have hinside : ∀ l : Listing, ∀ name inside modified,
      l.find? name = some (.folder inside modified) → p inside := by
    intro l
    induction l with
    | nil => exact fun _ _ _ h => nomatch h
    | file key content time rest ih =>
      intro name inside modified h
      rw [find?] at h
      split at h
      · cases h
      · exact ih name inside modified h
    | folder key below time rest ihbelow ih =>
      intro name inside modified h
      rw [find?] at h
      split at h
      · obtain ⟨rfl, -⟩ := Node.folder.inj (Option.some.inj h)
        exact step below ihbelow
      · exact ih name inside modified h
  exact step l (hinside l)

/-- What stands at the end of a row of one name is come upon there. -/
theorem mem_findings_of_finding? {node : Node} {path : Path}
    (h : node.sight.finding? path = some found) : found ∈ node.findings skipped path := by
  cases node with
  | file content modified =>
    obtain rfl := Option.some.inj h
    exact List.mem_singleton_self _
  | folder inside modified =>
    rw [Node.sight, Sight.finding?] at h
    split at h
    · rename_i hlong
      obtain rfl := Option.some.inj h
      rw [Node.findings, if_pos hlong]
      exact List.mem_singleton_self _
    · cases h

/-- **A scan of a directory** comes upon what stands at the ends of rows of names that are open. -/
theorem mem_findings (h : l.WellFormed) (time : Instant) :
    found ∈ l.findings skipped directory ↔
      ∃ names node, IsOpen skipped directory names ∧ (Node.folder l time).at? names = some node ∧
        node.sight.finding? (directory.below names) = some found := by
  -- A row goes on in a directory that is an entry, and there the induction speaks of the rest of it.
  induction l using induction_find? generalizing directory time with
  | step l ih =>
    rw [mem_findings_iff_find? h]
    constructor
    · rintro ⟨name, node, hfind, hkept, hfound⟩
      have hone : (Node.folder l time).at? [name] = some node := by
        rw [Node.at?, hfind]
        rfl
      cases node with
      | file content modified =>
        exact ⟨[name], _, hkept, hone, congrArg some (List.mem_singleton.1 hfound).symm⟩
      | folder inside modified =>
        rw [Node.findings] at hfound
        split at hfound
        · rename_i hlong
          refine ⟨[name], _, hkept, hone, ?_⟩
          rw [List.mem_singleton.1 hfound]
          exact if_pos hlong
        rename_i hshort
        have hinside := (wellFormed_of_find? h hfind).2
        obtain ⟨names, node, hopen, hat, hnode⟩ :=
          (ih name inside modified hfind hinside modified).1 hfound
        refine ⟨name :: names, node, ?_, ?_, hnode⟩
        · cases names with
          | nil => exact hopen.elim
          | cons next names => exact ⟨hkept, Bool.not_eq_true _ ▸ hshort, hopen⟩
        · rw [Node.at?, hfind]
          exact hat
    · rintro ⟨names, node, hopen, hat, hnode⟩
      cases names with
      | nil => exact hopen.elim
      | cons name names =>
        obtain ⟨first, hfind, hfirst⟩ := Option.bind_eq_some_iff.1 hat
        cases names with
        | nil =>
          obtain rfl := Option.some.inj hfirst
          exact ⟨name, _, hfind, hopen, mem_findings_of_finding? hnode⟩
        | cons next names =>
          obtain ⟨hkept, hshort, hopen⟩ := hopen
          cases first with
          | file bytes t => cases hfirst
          | folder inside t =>
            refine ⟨name, _, hfind, hkept, ?_⟩
            rw [Node.findings, hshort, if_neg Bool.false_ne_true]
            exact (ih name inside t hfind (wellFormed_of_find? h hfind).2 t).2
              ⟨next :: names, node, hopen, hfirst, hnode⟩

/-- A scan that skips nothing comes upon all that one that skips something comes upon. -/
theorem findings_subset (skipped : String → Bool) (directory : Path) (l : Listing) :
    l.findings skipped directory ⊆ l.findings (fun _ => false) directory := by
  induction l generalizing directory with
  | nil => exact List.Subset.refl _
  | file name content modified rest ih =>
    rw [findings, findings]
    refine List.append_subset.2 ⟨List.subset_append_of_subset_left _ ?_,
      List.subset_append_of_subset_right _ (ih directory)⟩
    split
    · exact List.nil_subset _
    · exact List.Subset.refl _
  | folder name inside modified rest ihinside ih =>
    rw [findings, findings]
    refine List.append_subset.2 ⟨List.subset_append_of_subset_left _ ?_,
      List.subset_append_of_subset_right _ (ih directory)⟩
    split
    · exact List.nil_subset _
    · rw [if_neg Bool.false_ne_true]
      split
      · exact List.Subset.refl _
      · exact ihinside _

/-- What a scan comes upon below a directory lies below one of its entries. -/
theorem exists_name_of_mem_findings (h : l.WellFormed) (hd : directory.text.toList ≠ [])
    (hfound : found ∈ l.findings skipped directory) :
    ∃ name ∈ l.names, ∃ more,
      found.path.components = directory.components ++ .name name :: more := by
  obtain ⟨names, node, hopen, hat, hnode⟩ := (mem_findings h 0).1 hfound
  have hwell : (Node.folder l 0).WellFormed := h
  have hnames := (Node.wellFormed_of_at? hwell hat).2
  rw [Sight.path_of_finding? hnode]
  cases names with
  | nil => exact hopen.elim
  | cons name names =>
    obtain ⟨first, hfind, -⟩ := Option.bind_eq_some_iff.1 hat
    exact ⟨name, mem_names_of_find? hfind, names.map .name, Path.components_below hd hnames⟩

end Listing

/-- The paths of two things that a scan comes upon stand in their order. -/
def Ascends (first second : Finding) : Prop :=
  compare first.path second.path = .lt

namespace Listing

variable {skipped : String → Bool} {directory : Path} {name : String} {node : Node}
variable {rest l : Listing}

/-- What is come upon at an entry comes before what is at the entries after it. -/
theorem ascending_cons (h : (cons name node rest).WellFormed) (hd : directory.text.toList ≠ [])
    (hfirst : (node.findings skipped (directory.child name)).Pairwise Ascends)
    (hbelow : ∀ found ∈ node.findings skipped (directory.child name),
      ∃ more, found.path.components = directory.components ++ .name name :: more)
    (hrest : (rest.findings skipped directory).Pairwise Ascends) :
    ((cons name node rest).findings skipped directory).Pairwise Ascends := by
  obtain ⟨-, -, hafter, hwell⟩ := wellFormed_cons.1 h
  rw [findings_cons, List.pairwise_append]
  split
  · exact ⟨.nil, hrest, fun _ hmem => nomatch hmem⟩
  refine ⟨hfirst, hrest, ?_⟩
  intro first hmem second hmem'
  obtain ⟨more, hmore⟩ := hbelow first hmem
  obtain ⟨other, hother, others, hothers⟩ := exists_name_of_mem_findings hwell hd hmem'
  exact Path.compare_eq_lt (hafter other hother) hmore hothers

/-- **A scan goes in the order of paths.** -/
theorem ascending_findings (h : l.WellFormed) (hd : directory.text.toList ≠ []) :
    (l.findings skipped directory).Pairwise Ascends := by
  induction l generalizing directory with
  | nil => exact .nil
  | file name content modified rest ih =>
    have hwell : (cons name (.file content modified) rest).WellFormed := h
    obtain ⟨hname, -, -, hrest⟩ := wellFormed_cons.1 hwell
    refine ascending_cons hwell hd (List.pairwise_singleton _ _) (fun found hfound => ?_)
      (ih hrest hd)
    rw [List.mem_singleton.1 hfound]
    exact ⟨[], Path.components_child hd hname⟩
  | folder name inside modified rest ihinside ih =>
    have hwell : (cons name (.folder inside modified) rest).WellFormed := h
    obtain ⟨hname, hinside, -, hrest⟩ := wellFormed_cons.1 hwell
    have hchild := Path.toList_child_ne_nil hd hname
    refine ascending_cons hwell hd ?_ (fun found hfound => ?_) (ih hrest hd)
    · rw [Node.findings]
      split
      · exact List.pairwise_singleton _ _
      · exact ihinside hinside hchild
    · rw [Node.findings] at hfound
      split at hfound
      · rw [List.mem_singleton.1 hfound]
        exact ⟨[], Path.components_child hd hname⟩
      · obtain ⟨key, -, more, hmore⟩ := exists_name_of_mem_findings hinside hchild hfound
        rw [Path.components_child hd hname, List.append_assoc] at hmore
        exact ⟨.name key :: more, hmore⟩

end Listing

/-! ## Scans of a tree -/

namespace FileSystem

variable {fs fs' : FileSystem} {base : Path} {skipped : String → Bool} {names : List String}
variable {f : ScannedFile} {p : Path} {sight : Sight}

theorem ne_nil_of_route (h : fs.route base = .ok names) : base.text.toList ≠ [] := by
  intro hempty
  have hplain := (route_eq_ok.1 h).1.nonempty
  rw [String.toList_eq_nil_iff.1 hempty] at hplain
  cases hplain

/-- **A scan from a directory on** comes upon what stands at the ends of rows of names that are
open. -/
theorem mem_findings_of_folder {found : Finding} (hfs : fs.root.WellFormed)
    (hstart : base.same standardInput = false) (hroute : fs.route base = .ok names)
    (hsee : fs.see names = some .folder) :
    found ∈ fs.findings base skipped ↔
      ∃ more sight, IsOpen skipped base more ∧ fs.see (names ++ more) = some sight ∧
        sight.finding? (base.below more) = some found := by
  obtain ⟨node, hat, hsight⟩ := Option.map_eq_some_iff.1 hsee
  cases node with
  | file content modified => cases hsight
  | folder inside time =>
    have hnode : fs.node base = .ok (⟨names, some (.folder inside time)⟩, .folder inside time) :=
      node_eq_ok.2 ⟨hroute, hat, rfl⟩
    have hinside : inside.WellFormed := (Node.wellFormed_of_at? hfs hat).1
    rw [findings, hstart, if_neg Bool.false_ne_true, hnode]
    simp only [see, Node.at?_append, hat, Option.bind_some, Option.map_eq_some_iff]
    rw [Listing.mem_findings hinside time]
    constructor
    · rintro ⟨more, node, hopen, hmore, hfound⟩
      exact ⟨more, node.sight, hopen, ⟨node, hmore, rfl⟩, hfound⟩
    · rintro ⟨more, _, hopen, ⟨node, hmore, rfl⟩, hfound⟩
      exact ⟨more, node, hopen, hmore, hfound⟩

/-- The files that a scan finds from a directory on. -/
theorem mem_files_of_folder (hfs : fs.root.WellFormed) (hstart : base.same standardInput = false)
    (hroute : fs.route base = .ok names) (hsee : fs.see names = some .folder) :
    .ok f ∈ fs.findings base skipped ↔
      ∃ more content modified, IsOpen skipped base more ∧
        fs.see (names ++ more) = some (.file content modified) ∧
        f = .at (base.below more) modified := by
  rw [mem_findings_of_folder hfs hstart hroute hsee]
  constructor
  · rintro ⟨more, sight, hopen, hmore, hfound⟩
    cases sight with
    | file content modified =>
      exact ⟨more, content, modified, hopen, hmore, (Except.ok.inj (Option.some.inj hfound)).symm⟩
    | folder =>
      rw [Sight.finding?] at hfound
      split at hfound <;> cases hfound
  · rintro ⟨more, content, modified, hopen, hmore, rfl⟩
    exact ⟨more, _, hopen, hmore, rfl⟩

/-- A file that is found lies below the starting point, which may be the file itself. -/
theorem exists_below_of_mem_findings (hfs : fs.root.WellFormed)
    (hf : .ok f ∈ fs.findings base skipped) :
    ∃ more, (∀ name ∈ more, IsEntryName name) ∧ (more = [] ∨ IsOpen skipped base more) ∧
      f.path = base.below more := by
  unfold findings at hf
  split at hf
  · cases hf
  split at hf
  · cases List.mem_singleton.1 hf
  · obtain rfl := Except.ok.inj (List.mem_singleton.1 hf)
    exact ⟨[], List.forall_mem_nil _, .inl rfl, rfl⟩
  · rename_i found inside time hnode
    obtain ⟨-, hat, -⟩ := node_eq_ok.1 hnode
    have hinside : inside.WellFormed := (Node.wellFormed_of_at? hfs hat).1
    obtain ⟨more, node, hopen, hmore, hfound⟩ := (Listing.mem_findings hinside time).1 hf
    have hwell : (Node.folder inside time).WellFormed := hinside
    exact ⟨more, (Node.wellFormed_of_at? hwell hmore).2, .inr hopen,
      Sight.path_of_finding? hfound⟩

/-- A scan goes in the order of paths. -/
theorem ascending_findings (hfs : fs.root.WellFormed) (base : Path) (skipped : String → Bool) :
    (fs.findings base skipped).Pairwise Ascends := by
  unfold findings
  split
  · exact .nil
  split
  · exact List.pairwise_singleton _ _
  · exact List.pairwise_singleton _ _
  · rename_i found inside time hnode
    obtain ⟨hroute, hat, -⟩ := node_eq_ok.1 hnode
    have hinside : inside.WellFormed := (Node.wellFormed_of_at? hfs hat).1
    exact Listing.ascending_findings hinside (ne_nil_of_route hroute)

/-- A scan that skips nothing comes upon all that one that skips something comes upon. -/
theorem findings_subset (fs : FileSystem) (base : Path) (skipped : String → Bool) :
    fs.findings base skipped ⊆ fs.findings base fun _ => false := by
  unfold findings
  split
  · exact List.Subset.refl _
  split
  · exact List.Subset.refl _
  · exact List.Subset.refl _
  · exact Listing.findings_subset ..

/-! ## Reading what was found -/

/-- Wherever the tree comes from, a path that is written below an absolute one leads below it. -/
theorem eq_of_route_below {more row : List String} (habsolute : base.isAbsolute = true)
    (hroute : fs.route base = .ok names) (hentries : ∀ name ∈ more, IsEntryName name)
    (hp : fs'.route p = .ok row) (hsame : (base.below more).same p = true) :
    row = names ++ more := by
  obtain ⟨-, -, hleads, -⟩ := route_eq_ok.1 hroute
  obtain ⟨-, -, hleads', -⟩ := route_eq_ok.1 hp
  obtain ⟨rest, hrest⟩ := Path.components_of_isAbsolute habsolute
  rw [hleads.eq_destination, hleads'.eq_destination, ← Path.same_iff.1 hsame,
    Path.components_below (ne_nil_of_route hroute) hentries, destination_names, hrest]
  rfl

/-- **What was found below a directory is read** if its path allows it, whatever else there is. -/
theorem readFile_below {more : List String} {content bytes : Bytes} {modified : Instant}
    (hroute : fs.route base = .ok names) (hfolder : fs.see names = some .folder)
    (hentries : ∀ name ∈ more, IsEntryName name)
    (hsee : fs.see (names ++ more) = some (.file content modified)) :
    fs.readFile (base.below more) = .ok bytes ↔
      IsPlain (base.below more) ∧ (∀ name ∈ more, isLongName name = false) ∧
        asksForFolder (base.below more) = false ∧ bytes = content := by
  obtain ⟨-, hworking, hleads, -⟩ := route_eq_ok.1 hroute
  have hcomponents := Path.components_below (ne_nil_of_route hroute) hentries
  rw [readFile_eq_ok]
  constructor
  · rintro ⟨there, time, hthere, hread⟩
    obtain ⟨hplain, -, hleads', hend⟩ := route_eq_ok.1 hthere
    rw [hcomponents] at hleads'
    have hsame : there = names ++ more := by
      rw [hleads'.eq_destination, destination_names, ← hleads.eq_destination]
    rw [hread] at hend
    rw [hsame, hsee] at hread
    obtain ⟨rfl, -⟩ := Sight.file.inj (Option.some.inj hread)
    exact ⟨hplain, fun name hname => hleads'.short name
      (List.mem_append_right _ (List.mem_map_of_mem hname)), hend, rfl⟩
  · rintro ⟨hplain, hshort, hasks, rfl⟩
    refine ⟨names ++ more, modified, route_eq_ok.2 ⟨hplain, hworking, ?_, ?_⟩, hsee⟩
    · rw [hcomponents]
      exact hleads.append (by rw [hfolder]; rfl) (leadsTo_names hshort (by rw [hsee]; rfl))
    · rw [hasks, Bool.and_false]

/-! ## Files that are kept -/

/-- A scan that leaves out bookkeeping finds a file at the path. -/
def Finds (fs : FileSystem) (base p : Path) : Prop :=
  ∃ f, .ok f ∈ fs.findings base bookkeepingNames.contains ∧ f.path = p

/-- The file name of what lies below a directory is the last of the names that lead there. -/
theorem fileName_below {more : List String} (hbase : base.text.toList ≠ []) (hmore : more ≠ [])
    (hentries : ∀ name ∈ more, IsEntryName name) :
    (base.below more).fileName = more.getLast? := by
  have hne : more.map Component.name ≠ [] := mt List.map_eq_nil_iff.1 hmore
  rw [Path.fileName, Path.components_below hbase hentries, List.getLast?_append_of_ne_nil _ hne,
    List.getLast?_map]
  cases more.getLast? <;> rfl

theorem isEntryName_of_see (hfs : fs.root.WellFormed) (h : fs.see names = some sight) :
    ∀ name ∈ names, IsEntryName name := by
  obtain ⟨node, hnode, -⟩ := Option.map_eq_some_iff.1 h
  exact (Node.wellFormed_of_at? hfs hnode).2

theorem finds_iff (hfs : fs.root.WellFormed) (hstart : base.same standardInput = false)
    (hroute : fs.route base = .ok names) (hsee : fs.see names = some .folder) :
    Finds fs base p ↔ ∃ more content modified, IsOpen bookkeepingNames.contains base more ∧
      fs.see (names ++ more) = some (.file content modified) ∧ base.below more = p := by
  constructor
  · rintro ⟨f, hf, rfl⟩
    obtain ⟨more, content, modified, hopen, hfile, rfl⟩ :=
      (mem_files_of_folder hfs hstart hroute hsee).1 hf
    exact ⟨more, content, modified, hopen, hfile, rfl⟩
  · rintro ⟨more, content, modified, hopen, hfile, rfl⟩
    exact ⟨_, (mem_files_of_folder hfs hstart hroute hsee).2
      ⟨more, content, modified, hopen, hfile, rfl⟩, rfl⟩

/-- **Files that are kept are found again**, and read alike. -/
theorem finds_of_keeps {except : List (List String)} (hfs : fs.InOrder) (hfs' : fs'.InOrder)
    (hkeeps : Keeps except fs fs') (hstart : base.same standardInput = false)
    (hroute : fs.route base = .ok names) (hsee : fs.see names = some .folder)
    (hp : ∀ more, (∀ name ∈ more, IsEntryName name) → IsOpen bookkeepingNames.contains base more →
      base.below more = p → names ++ more ∉ except) :
    (Finds fs base p ↔ Finds fs' base p) ∧ (Finds fs base p → ReadsAlike fs fs' p) := by
  have hsee' := hkeeps.folders names hsee
  have hroute' : fs'.route base = .ok names :=
    route_of_keeps hfs.working hkeeps hroute (by rw [hsee']; rfl)
  have hentries : ∀ {fs : FileSystem} {more content modified}, fs.InOrder →
      fs.see (names ++ more) = some (.file content modified) → ∀ name ∈ more, IsEntryName name :=
    fun hfs hfile name hname =>
      isEntryName_of_see hfs.wellFormed hfile name (List.mem_append_right _ hname)
  rw [finds_iff hfs.wellFormed hstart hroute hsee, finds_iff hfs'.wellFormed hstart hroute' hsee']
  refine ⟨?_, ?_⟩
  · constructor
    · rintro ⟨more, content, modified, hopen, hfile, hbelow⟩
      have hkept := hp more (hentries hfs hfile) hopen hbelow
      exact ⟨more, content, modified, hopen, (hkeeps.files _ hkept _ _).2 hfile, hbelow⟩
    · rintro ⟨more, content, modified, hopen, hfile, hbelow⟩
      have hkept := hp more (hentries hfs' hfile) hopen hbelow
      exact ⟨more, content, modified, hopen, (hkeeps.files _ hkept _ _).1 hfile, hbelow⟩
  · rintro ⟨more, content, modified, hopen, hfile, hbelow⟩
    have hmore := hentries hfs hfile
    have hfile' := (hkeeps.files _ (hp more hmore hopen hbelow) content modified).2 hfile
    rw [← hbelow, readsAlike_iff]
    intro bytes
    rw [readFile_below hroute hsee hmore hfile, readFile_below hroute' hsee' hmore hfile']

end FileSystem

end JarGraph
