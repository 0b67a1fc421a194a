import JarGraph.FileSystem.WellFormed
import JarGraph.Proofs.FileSystem.Leading
/-!
# Where paths lead

A path is followed by sight (`follow_eq`). The names that it comes to, from
the working directory or from the root, are its route (`route_eq_ok`), and
what is at a path is what is seen at the end of its route (`node_eq_ok`,
`readFile_eq_ok`). Where the one of two trees has nothing that the other
has not, every path that leads to something in it leads to the same place
in the other (`node_mono`).
-/

namespace JarGraph.FileSystem

variable {fs fs' : FileSystem} {p : Path} {found : Location} {node : Node} {content : Bytes}
variable {names trail : List String} {name : String}

theorem see_of_at? (h : fs.root.at? trail.reverse = some node) :
    fs.see trail.reverse = some .folder ↔ node.isFolder = true := by
  rw [see, h, Option.map_some, Option.some.injEq, Node.sight_eq_folder]

/-- **A path is followed by sight.** -/
theorem follow_eq {components : List Component} (h : fs.root.at? trail.reverse = some node) :
    follow fs trail node components =
      (trace fs.see trail components).map fun names => ⟨names, fs.root.at? names⟩ := by
  have hsee := @see_of_at? fs
  induction components generalizing trail node with
  | nil => simp [follow, trace, Except.map, h]
  | cons component rest ih =>
    cases component with
    | root =>
      have hroot : fs.root.at? ([] : List String).reverse = some fs.root := rfl
      exact ih hroot
    | here =>
      rw [follow.eq_def, trace]
      dsimp only
      by_cases hfolder : node.isFolder = true
      · rw [if_pos hfolder, if_pos ((hsee h).2 hfolder), ih h]
      · rw [if_neg hfolder, if_neg (mt (hsee h).1 hfolder)]
        rfl
    | up =>
      rw [follow.eq_def, trace]
      dsimp only
      by_cases hfolder : node.isFolder = true
      · rw [if_pos hfolder, if_pos ((hsee h).2 hfolder), see]
        cases habove : fs.root.at? trail.tail.reverse with
        | none => rfl
        | some above => exact ih habove
      · rw [if_neg hfolder, if_neg (mt (hsee h).1 hfolder)]
        rfl
    | name name =>
      rw [follow.eq_def, trace]
      cases node with
      | file content modified =>
        rw [if_neg (mt (hsee h).1 Bool.false_ne_true)]
        rfl
      | folder inside modified =>
        dsimp only
        rw [if_pos ((hsee h).2 rfl)]
        cases isLongName name with
        | true => rfl
        | false =>
          have hchild : fs.root.at? (name :: trail).reverse = inside.find? name := by
            rw [List.reverse_cons, Node.at?_append, h, Option.bind_some, Node.at?]
            exact Option.bind_fun_some _
          rw [if_neg Bool.false_ne_true, if_neg Bool.false_ne_true, see, hchild]
          cases hfind : inside.find? name with
          | some child => exact ih (hchild.trans hfind)
          | none =>
            cases rest with
            | nil =>
              have hnone := hchild.trans hfind
              simp [Except.map, List.reverse_cons ▸ hnone]
            | cons component rest => rfl

/-- The names at whose end a path leads, if it is not too long and no step leads nowhere. -/
def route (fs : FileSystem) (p : Path) : Except IoError (List String) :=
  if isLongPath p && !holdsZero p then .error (.os .nameTooLong)
  else if holdsZero p then .error .badName
  else if p.text.isEmpty then .error (.os .notFound)
  else if (fs.see fs.workingNames).isSome then
    match trace fs.see fs.workingNames.reverse p.components with
    | .error cause => .error (.os cause)
    | .ok names =>
      if (fs.see names).any Sight.isFile && asksForFolder p then .error (.os .notADirectory)
      else .ok names
  else .error (.os .notFound)

/-- A text that can be given to the operating system as a path. -/
structure IsPlain (p : Path) : Prop where
  short : isLongPath p = false
  noZero : holdsZero p = false
  nonempty : p.text.isEmpty = false

theorem route_eq_ok :
    fs.route p = .ok names ↔
      IsPlain p ∧ (fs.see fs.workingNames).isSome = true ∧
        LeadsTo fs.see fs.workingNames.reverse p.components names ∧
        ((fs.see names).any Sight.isFile && asksForFolder p) = false := by
  rw [← trace_eq_ok]
  unfold route
  constructor
  · intro h
    split at h
    · cases h
    rename_i hlong
    split at h
    · cases h
    rename_i hzero
    split at h
    · cases h
    rename_i hempty
    split at h
    · rename_i hstart
      split at h
      · cases h
      rename_i there htrace
      split at h
      · cases h
      rename_i hfile
      obtain rfl := Except.ok.inj h
      rw [Bool.not_eq_true] at hlong hzero hempty hfile
      refine ⟨⟨?_, hzero, hempty⟩, hstart, htrace, hfile⟩
      rwa [hzero, Bool.not_false, Bool.and_true] at hlong
    · cases h
  · rintro ⟨⟨hshort, hzero, hempty⟩, hstart, htrace, hfile⟩
    rw [hshort, hzero, hempty, htrace]
    simp only [Bool.false_and, Bool.false_eq_true, if_false, hstart, if_true, hfile]

theorem locate_eq (fs : FileSystem) (p : Path) :
    fs.locate p = (fs.route p).map fun names => ⟨names, fs.root.at? names⟩ := by
  unfold locate resolve route
  split
  · rfl
  split
  · rfl
  split
  · rfl
  rw [see]
  cases hstart : fs.root.at? fs.workingNames with
  | none => rfl
  | some start =>
    rw [← List.reverse_reverse fs.workingNames] at hstart
    dsimp only [Option.map_some, Option.isSome_some]
    rw [if_pos rfl, follow_eq hstart]
    cases trace fs.see fs.workingNames.reverse p.components with
    | error cause => rfl
    | ok names =>
      simp only [Except.map, see]
      obtain ⟨there, hthere⟩ : ∃ there, fs.root.at? names = there := ⟨_, rfl⟩
      simp only [hthere]
      rcases there with _ | ⟨content, modified⟩ | ⟨inside, modified⟩
      · simp [hthere]
      · cases asksForFolder p <;> simp [Node.sight, Sight.isFile, hthere]
      · simp [Node.sight, Sight.isFile, hthere]

/-! ## What is at the end of a route -/

theorem locate_eq_ok {found : Location} :
    fs.locate p = .ok found ↔
      fs.route p = .ok found.names ∧ fs.root.at? found.names = found.node := by
  rw [locate_eq, Answer.map_eq_ok]
  constructor
  · rintro ⟨names, hroute, rfl⟩
    exact ⟨hroute, rfl⟩
  · rintro ⟨hroute, hnode⟩
    exact ⟨found.names, hroute, by rw [hnode]⟩

/-- **A path leads to a node** that stands at the end of its route. -/
theorem node_eq_ok :
    fs.node p = .ok (found, node) ↔
      fs.route p = .ok found.names ∧ fs.root.at? found.names = some node ∧
        found.node = some node := by
  rw [FileSystem.node, Answer.bind_eq_ok, locate_eq]
  constructor
  · rintro ⟨at', hat, hexisting⟩
    obtain ⟨names, hroute, rfl⟩ := Answer.map_eq_ok.1 hat
    unfold Location.existing at hexisting
    split at hexisting
    · rename_i there hthere
      obtain ⟨rfl, rfl⟩ := Prod.mk.inj (Except.ok.inj hexisting)
      exact ⟨hroute, hthere, hthere⟩
    · cases hexisting
  · rintro ⟨hroute, hnode, hfound⟩
    refine ⟨found, Answer.map_eq_ok.2 ⟨found.names, hroute, ?_⟩, ?_⟩
    · rw [hnode, ← hfound]
    · rw [Location.existing, hfound]

/-- What a path leads to is not nothing. -/
theorem isSome_see_of_node (h : fs.node p = .ok (found, node)) :
    fs.see found.names = some node.sight := by
  rw [see, (node_eq_ok.1 h).2.1]
  rfl

theorem hasFolder_iff :
    fs.hasFolder p = true ↔ ∃ names, fs.route p = .ok names ∧ fs.see names = some .folder := by
  unfold hasFolder
  constructor
  · intro h
    split at h
    · rename_i found node hnode
      refine ⟨found.names, (node_eq_ok.1 hnode).1, ?_⟩
      rw [isSome_see_of_node hnode, Node.sight_eq_folder.2 h]
    · cases h
  · rintro ⟨names, hroute, hsee⟩
    obtain ⟨node, hnode, hsight⟩ := Option.map_eq_some_iff.1 hsee
    have hfound : fs.node p = .ok (⟨names, some node⟩, node) := node_eq_ok.2 ⟨hroute, hnode, rfl⟩
    rw [hfound]
    exact Node.sight_eq_folder.1 hsight

/-- A file is read from the end of the route. -/
theorem readFile_eq_ok :
    fs.readFile p = .ok content ↔
      ∃ names modified, fs.route p = .ok names ∧ fs.see names = some (.file content modified) := by
  unfold readFile
  rw [Answer.bind_eq_ok]
  constructor
  · rintro ⟨⟨found, node⟩, hnode, hread⟩
    have hsee := isSome_see_of_node hnode
    cases node with
    | folder inside modified => cases hread
    | file content' modified =>
      obtain rfl := Except.ok.inj hread
      exact ⟨found.names, modified, (node_eq_ok.1 hnode).1, hsee⟩
  · rintro ⟨names, modified, hroute, hsee⟩
    obtain ⟨node, hnode, hsight⟩ := Option.map_eq_some_iff.1 hsee
    cases node with
    | folder inside modified => cases hsight
    | file content' modified' =>
      obtain ⟨rfl, rfl⟩ := Sight.file.inj hsight
      have hfound : fs.node p = .ok (⟨names, _⟩, _) := node_eq_ok.2 ⟨hroute, hnode, rfl⟩
      exact ⟨_, hfound, rfl⟩

theorem route_mono (h : Within fs'.see fs.see) (hworking : fs'.workingNames = fs.workingNames)
    (hroute : fs'.route p = .ok names) (hsome : (fs'.see names).isSome = true) :
    fs.route p = .ok names := by
  obtain ⟨hplain, hstart, hleads, hend⟩ := route_eq_ok.1 hroute
  rw [hworking] at hstart hleads
  refine route_eq_ok.2 ⟨hplain, h.isSome hstart, hleads.mono h, ?_⟩
  rwa [h.any_isFile hsome]

/-- **A path that leads to something** leads to the same place in a tree that holds more. -/
theorem node_mono (h : Within fs'.see fs.see) (hworking : fs'.workingNames = fs.workingNames)
    (hnode : fs'.node p = .ok (found, node)) :
    ∃ other, fs.node p = .ok (⟨found.names, some other⟩, other) ∧
      other.sight.isFile = node.sight.isFile := by
  have hsight := isSome_see_of_node hnode
  obtain ⟨hroute, -, -⟩ := node_eq_ok.1 hnode
  obtain ⟨sight, hsee, hkind⟩ := h _ _ hsight
  obtain ⟨other, hother, rfl⟩ := Option.map_eq_some_iff.1 hsee
  have hroute' := route_mono h hworking hroute (by rw [hsight]; rfl)
  exact ⟨other, node_eq_ok.2 ⟨hroute', hother, rfl⟩, hkind⟩

/-! ## The components of a path -/

theorem component?_ne_root {piece : List Char} : Path.component? piece ≠ some .root := by
  unfold Path.component?
  split
  · simp
  · split <;> simp

theorem isStep_of_component? {piece : List Char} {component : Component}
    (h : Path.component? piece = some component) : IsStep component :=
  fun hroot => component?_ne_root (hroot ▸ h)

/-- The root can only be the first component of a path. -/
theorem components_cases (p : Path) :
    (∃ steps, p.components = .root :: steps ∧ ∀ component ∈ steps, IsStep component) ∨
      ∀ component ∈ p.components, IsStep component := by
  have hsteps : ∀ component ∈ p.pieces.filterMap Path.component?, IsStep component := by
    intro component hmem
    obtain ⟨piece, -, hpiece⟩ := List.mem_filterMap.1 hmem
    exact isStep_of_component? hpiece
  cases hlead : p.lead with
  | none =>
    rw [Path.components, hlead]
    exact .inr hsteps
  | some first =>
    rw [Path.components, hlead]
    by_cases hroot : first = .root
    · subst hroot
      exact .inl ⟨_, rfl, hsteps⟩
    · exact .inr (List.forall_mem_cons.2 ⟨hroot, hsteps⟩)

/-- A name in a path is one that an entry can have. -/
theorem isEntryName_of_mem_components (h : .name name ∈ p.components) : IsEntryName name := by
  rcases List.mem_append.1 h with h | h
  · exfalso
    unfold Path.lead at h
    split at h <;> simp at h
  · obtain ⟨piece, hpiece, hname⟩ := List.mem_filterMap.1 h
    unfold Path.component? at hname
    split at hname
    · cases hname
    rename_i hbusy
    split at hname
    · cases hname
    rename_i hup
    obtain rfl := Component.name.inj (Option.some.inj hname)
    have hidle := Bool.eq_false_iff.2 hbusy
    rw [Path.isIdle, Bool.or_eq_false_iff, beq_eq_false_iff_ne, beq_eq_false_iff_ne] at hidle
    refine ⟨?_, ?_, ?_, ?_⟩
    · exact fun heq => hidle.1 (by rw [← String.toList_ofList (l := piece), heq]; rfl)
    · exact fun heq => hidle.2 (by rw [← String.toList_ofList (l := piece), heq]; rfl)
    · exact fun heq => hup (by rw [← String.toList_ofList (l := piece), heq]; rfl)
    · rw [String.toList_ofList]
      exact Text.not_mem_of_mem_pieces hpiece

/-- The start of a path is a directory, whether this is the root or the working directory. -/
theorem exists_steps (hfs : fs.see fs.workingNames = some .folder) (p : Path) :
    ∃ trail steps, (∀ component ∈ steps, IsStep component) ∧ steps <:+ p.components ∧
      fs.see trail.reverse = some .folder ∧
      ∀ see names, LeadsTo see fs.workingNames.reverse p.components names ↔
        LeadsTo see trail steps names := by
  rcases components_cases p with ⟨steps, hp, hsteps⟩ | hsteps
  · refine ⟨[], steps, hsteps, ?_, see_root hfs, fun see names => ?_⟩
    · rw [hp]
      exact List.suffix_cons _ _
    · rw [hp, ← trace_eq_ok, ← trace_eq_ok, trace]
  · refine ⟨fs.workingNames.reverse, p.components, hsteps, List.suffix_rfl, ?_,
      fun _ _ => Iff.rfl⟩
    rw [List.reverse_reverse]
    exact hfs

/-- Two trees with one working directory do not differ in where a path leads, if it leads somewhere
in both. -/
theorem eq_of_route {names' : List String} (hworking : fs'.workingNames = fs.workingNames)
    (h : fs.route p = .ok names) (h' : fs'.route p = .ok names') : names' = names := by
  obtain ⟨-, -, hleads, -⟩ := route_eq_ok.1 h
  obtain ⟨-, -, hleads', -⟩ := route_eq_ok.1 h'
  rw [hworking] at hleads'
  rw [hleads.eq_destination, hleads'.eq_destination]

/-- What a path leads to that is no directory, or nothing, is an entry by the path's file name. -/
theorem exists_entry_of_route (hfs : fs.see fs.workingNames = some .folder)
    (h : fs.route p = .ok names) (hnot : fs.see names ≠ some .folder) :
    ∃ dir name, names = dir ++ [name] ∧ fs.see dir = some .folder ∧ IsEntryName name ∧
      p.fileName = some name := by
  obtain ⟨-, -, hleads, -⟩ := route_eq_ok.1 h
  obtain ⟨trail, steps, hsteps, ⟨before, hbefore⟩, hstart, hwhole⟩ := exists_steps hfs p
  obtain ⟨dir, name, hnames, hdir, hlast⟩ :=
    (((hwhole _ _).1 hleads).exists_entry hsteps hstart).resolve_left hnot
  have hlast' : p.components.getLast? = some (.name name) := by
    rw [← hbefore, List.getLast?_append, hlast, Option.some_or]
  refine ⟨dir, name, hnames, hdir, ?_, ?_⟩
  · exact isEntryName_of_mem_components (List.mem_of_getLast? hlast')
  · rw [Path.fileName, hlast']
    rfl

/-! ## Files and the root -/

/-- A path of roots alone asks for a directory. -/
theorem asksForFolder_of_roots (h : ∀ component ∈ p.components, component = .root) :
    asksForFolder p = true := by
  unfold asksForFolder
  have hidle : ∀ piece ∈ p.pieces, Path.isIdle piece = true := by
    intro piece hpiece
    refine Decidable.by_contra fun hbusy => ?_
    cases hcomponent : Path.component? piece with
    | none =>
      rw [Path.component?, if_neg hbusy] at hcomponent
      split at hcomponent <;> cases hcomponent
    | some component =>
      have hmem : component ∈ p.components :=
        List.mem_append_right _ (List.mem_filterMap.2 ⟨piece, hpiece, hcomponent⟩)
      rw [h component hmem] at hcomponent
      exact component?_ne_root hcomponent
  cases hlast : p.pieces.getLast? with
  | none => exact absurd (List.getLast?_eq_none_iff.1 hlast) (Text.pieces_ne_nil _ _)
  | some piece => exact hidle piece (List.mem_of_getLast? hlast)

/-- Where the root is no directory, nothing but the root leads anywhere. -/
theorem roots_of_leadsTo {see : List String → Option Sight} {components : List Component}
    {names : List String} (hroot : see [] ≠ some .folder) (h : LeadsTo see [] components names) :
    ∀ component ∈ components, component = .root := by
  induction components with
  | nil => exact fun _ hmem => nomatch hmem
  | cons component rest ih =>
    cases h with
    | root hmore => exact List.forall_mem_cons.2 ⟨rfl, ih hmore⟩
    | here hfolder | up hfolder | name hfolder | last hfolder => exact absurd hfolder hroot

/-- A file stands in a directory, for no path leads to a file that is the root itself. -/
theorem exists_concat_of_file {found : Location} {content : Bytes} {modified : Instant}
    (h : fs.node p = .ok (found, .file content modified)) :
    ∃ dir name, found.names = dir ++ [name] := by
  rcases List.eq_nil_or_concat found.names with hnil | ⟨dir, name, hconcat⟩
  · exfalso
    have hsight := isSome_see_of_node h
    obtain ⟨-, hstart, hleads, hend⟩ := route_eq_ok.1 (node_eq_ok.1 h).1
    rw [hnil] at hsight hend
    have hroot : fs.see [] ≠ some .folder := by
      rw [hsight]
      exact fun heq => nomatch heq
    have hworking : fs.workingNames = [] := Decidable.by_contra fun hne =>
      hroot (see_prefix_folder [] hne hstart)
    rw [hworking] at hleads
    rw [hsight, asksForFolder_of_roots (roots_of_leadsTo hroot hleads)] at hend
    cases hend
  · exact ⟨dir, name, hconcat.trans List.concat_eq_append⟩

end JarGraph.FileSystem
