import JarGraph.Proofs.FileSystem.Finding
import JarGraph.Proofs.Path.Spelling
/-!
# Canonical paths

A canonical path spells out the names that a path leads to
(`canonical_eq_ok`). It is told by sight, as every other path is, so that
the canonical path of a directory stays the same wherever the directories
are kept (`canonical_of_keeps`). An absolute path is not always spelled by
names alone: steps up stay in it, and then it is another path than the
canonical one (`same_pathOf_iff`), though never a shorter one
(`isLongPath_pathOf_of_route`).
-/

namespace JarGraph.FileSystem

variable {fs fs' : FileSystem} {p x : Path} {names place : List String}
variable {except : List (List String)}

/-- A path of any length is followed by sight. -/
theorem resolve_eq_ok {found : Location} :
    fs.resolve p = .ok found ↔
      (holdsZero p = false ∧ p.text.isEmpty = false) ∧ (fs.see fs.workingNames).isSome = true ∧
        LeadsTo fs.see fs.workingNames.reverse p.components found.names ∧
        ((fs.see found.names).any Sight.isFile && asksForFolder p) = false ∧
        fs.root.at? found.names = found.node := by
  obtain ⟨there, node⟩ := found
  unfold resolve
  rw [← trace_eq_ok, see]
  by_cases hplain : holdsZero p = false ∧ p.text.isEmpty = false
  · rw [hplain.1, hplain.2, if_neg Bool.false_ne_true, if_neg Bool.false_ne_true]
    simp only [true_and, and_self]
    cases hstart : fs.root.at? fs.workingNames with
    | none => simp
    | some start =>
      rw [← List.reverse_reverse fs.workingNames] at hstart
      dsimp only
      rw [follow_eq hstart, Option.map_some, Option.isSome_some]
      simp only [true_and]
      cases trace fs.see fs.workingNames.reverse p.components with
      | error cause => simp [Except.map]
      | ok names =>
        dsimp only [Except.map]
        by_cases hnames : names = there
        · subst hnames
          rcases hnode : fs.root.at? names with _ | ⟨content, modified⟩ | ⟨inside, modified⟩
          · simp [see, hnode]
          · cases asksForFolder p <;> simp [see, hnode, Node.sight, Sight.isFile]
          · simp [see, hnode, Node.sight, Sight.isFile]
        · rcases fs.root.at? names with _ | ⟨content, modified⟩ | ⟨inside, modified⟩
          · simp [hnames]
          · cases asksForFolder p <;> simp [hnames]
          · simp [hnames]
  · rw [iff_false_right fun h => hplain h.1]
    split
    · intro h
      cases h
    split
    · intro h
      cases h
    rename_i hzero hempty
    exact absurd ⟨Bool.not_eq_true _ ▸ hzero, Bool.not_eq_true _ ▸ hempty⟩ hplain

theorem existing_eq_ok {found there : Location} {node : Node} :
    found.existing = .ok (there, node) ↔ found = there ∧ found.node = some node := by
  unfold Location.existing
  cases found.node with
  | none => simp
  | some other => simp

/-- **A canonical path** spells out the names that a path leads to, if something is there. -/
theorem canonical_eq_ok :
    fs.canonical p = .ok x ↔
      (holdsZero p = false ∧ p.text.isEmpty = false) ∧ (fs.see fs.workingNames).isSome = true ∧
        ∃ names, LeadsTo fs.see fs.workingNames.reverse p.components names ∧
          ((fs.see names).any Sight.isFile && asksForFolder p) = false ∧
          (fs.see names).isSome = true ∧ isLongPath (pathOf names) = false ∧ pathOf names = x := by
  have hwhole (names : List String) :
      (if isLongPath (pathOf names) then throw (.os .nameTooLong) else pure (pathOf names) :
        Except IoError Path) = .ok x ↔ isLongPath (pathOf names) = false ∧ pathOf names = x := by
    cases isLongPath (pathOf names) with
    | true => exact iff_of_false nofun nofun
    | false => exact ⟨fun h => ⟨rfl, Except.ok.inj h⟩, fun h => congrArg Except.ok h.2⟩
  unfold canonical
  rw [Answer.bind_eq_ok]
  constructor
  · rintro ⟨⟨found, node⟩, hfound, h⟩
    obtain ⟨found, hresolve, hexisting⟩ := Answer.bind_eq_ok.1 hfound
    obtain ⟨rfl, hsome⟩ := existing_eq_ok.1 hexisting
    obtain ⟨hplain, hworking, hleads, hend, hnode⟩ := resolve_eq_ok.1 hresolve
    have hsee : (fs.see found.names).isSome = true := by
      rw [see, hnode, hsome]
      rfl
    exact ⟨hplain, hworking, found.names, hleads, hend, hsee, (hwhole _).1 h⟩
  · rintro ⟨hplain, hworking, names, hleads, hend, hsee, h⟩
    obtain ⟨sight, hsight⟩ := Option.isSome_iff_exists.1 hsee
    obtain ⟨node, hnode, -⟩ := Option.map_eq_some_iff.1 hsight
    have hresolve : fs.resolve p = .ok ⟨names, some node⟩ :=
      resolve_eq_ok.2 ⟨hplain, hworking, hleads, hend, hnode⟩
    exact ⟨(⟨names, some node⟩, node),
      Answer.bind_eq_ok.2 ⟨_, hresolve, existing_eq_ok.2 ⟨rfl, rfl⟩⟩, (hwhole names).2 h⟩

/-- A row of names that leads to a directory is where its own path leads. -/
theorem eq_of_route_pathOf (hnames : ∀ name ∈ names, IsEntryName name)
    (hroute : fs.route (pathOf names) = .ok place) : place = names := by
  obtain ⟨-, -, hleads, -⟩ := route_eq_ok.1 hroute
  rw [hleads.eq_destination, Path.components_pathOf hnames]
  exact destination_names [] [] names

/-- **The canonical path of a directory** stays where the directories are kept. -/
theorem canonical_of_keeps (hfs : fs.InOrder) (hkeeps : Keeps except fs fs')
    (h : fs.canonical p = .ok x) (hfolder : fs.hasFolder x = true) : fs'.canonical p = .ok x := by
  obtain ⟨hplain, hworking, names, hleads, hend, hsome, hshort, rfl⟩ := canonical_eq_ok.1 h
  obtain ⟨sight, hsight⟩ := Option.isSome_iff_exists.1 hsome
  have hsee : fs.see names = some .folder := by
    obtain ⟨place, hroute, hplace⟩ := hasFolder_iff.1 hfolder
    rwa [eq_of_route_pathOf (isEntryName_of_see hfs.wellFormed hsight) hroute] at hplace
  have hsee' := hkeeps.folders names hsee
  obtain ⟨trail, steps, hsteps, -, -, hwhole⟩ := exists_steps hfs.working p
  refine canonical_eq_ok.2 ⟨hplain, ?_, names, ?_, ?_, ?_, hshort, rfl⟩
  · rw [hkeeps.see_working hfs.working]
    rfl
  · rw [hkeeps.working, hwhole]
    exact ((hwhole _ _).1 hleads).of_keeps hkeeps hsteps
  · rw [hsee']
    rfl
  · rw [hsee']
    rfl

/-- A canonical path spells the names that it leads to. -/
theorem eq_pathOf_of_canonical (hfs : fs.InOrder) (h : fs.canonical p = .ok x)
    (hroute : fs'.route x = .ok place) :
    x = pathOf place ∧ ∀ name ∈ place, IsEntryName name := by
  obtain ⟨-, -, names, -, -, hsome, -, rfl⟩ := canonical_eq_ok.1 h
  obtain ⟨sight, hsight⟩ := Option.isSome_iff_exists.1 hsome
  have hnames := isEntryName_of_see hfs.wellFormed hsight
  rw [eq_of_route_pathOf hnames hroute]
  exact ⟨rfl, hnames⟩

/-! ## Steps up -/

/-- A row of components without steps up is a row of names. -/
theorem exists_names (hup : .up ∉ p.steps) : ∃ names : List String, p.steps = names.map .name := by
  have hname : ∀ component ∈ p.steps, ∃ name, component = .name name := by
    intro component hmem
    obtain ⟨piece, -, hpiece⟩ := List.mem_filterMap.1 hmem
    unfold Path.component? at hpiece
    split at hpiece
    · cases hpiece
    split at hpiece
    · obtain rfl := Option.some.inj hpiece
      exact absurd hmem hup
    · exact ⟨_, (Option.some.inj hpiece).symm⟩
  clear hup
  generalize p.steps = steps at hname ⊢
  induction steps with
  | nil => exact ⟨[], rfl⟩
  | cons component steps ih =>
    obtain ⟨⟨name, rfl⟩, hmore⟩ := List.forall_mem_cons.1 hname
    obtain ⟨names, rfl⟩ := ih hmore
    exact ⟨name :: names, rfl⟩

/-- **A path that is spelled by names** is the same as another one that leads there, unless that
one steps up. -/
theorem same_pathOf_iff (hnames : ∀ name ∈ names, IsEntryName name) (hp : p.isAbsolute = true)
    (hroute : fs.route p = .ok place) :
    (pathOf names).same p = true ↔ names = place ∧ .up ∉ p.components := by
  obtain ⟨-, -, hleads, -⟩ := route_eq_ok.1 hroute
  have hdestination (names : List String) : destination [] (names.map .name) = names :=
    destination_names [] [] names
  rw [Path.same_iff, Path.components_pathOf hnames]
  constructor
  · intro hsame
    rw [hleads.eq_destination, ← hsame]
    refine ⟨(hdestination _).symm, fun hup => ?_⟩
    obtain ⟨name, -, hname⟩ := List.mem_map.1 ((List.mem_cons.1 hup).resolve_left nofun)
    cases hname
  · rintro ⟨rfl, hup⟩
    rw [Path.components_eq_root_steps hp, List.mem_cons, not_or] at hup
    obtain ⟨spelled, hspelled⟩ := exists_names hup.2
    rw [Path.components_eq_root_steps hp, hspelled] at hleads ⊢
    rw [hleads.eq_destination]
    exact congrArg _ (congrArg _ (hdestination spelled))

/-! ## How long canonical paths are -/

/-- The bytes of some names, each with a slash. -/
def spelledBytes : List String → Nat
  | [] => 0
  | name :: names => name.utf8ByteSize + 1 + spelledBytes names

theorem spelledBytes_cons (name : String) (names : List String) :
    spelledBytes (name :: names) = name.utf8ByteSize + 1 + spelledBytes names :=
  rfl

theorem spelledBytes_append (names more : List String) :
    spelledBytes (names ++ more) = spelledBytes names + spelledBytes more := by
  induction names with
  | nil => rw [List.nil_append, spelledBytes, Nat.zero_add]
  | cons name names ih =>
    rw [List.cons_append, spelledBytes_cons, spelledBytes_cons, ih]
    omega

theorem spelledBytes_reverse (names : List String) :
    spelledBytes names.reverse = spelledBytes names := by
  induction names with
  | nil => rfl
  | cons name names ih =>
    rw [List.reverse_cons, spelledBytes_append, ih, spelledBytes_cons, spelledBytes_cons,
      spelledBytes, Nat.add_zero, Nat.add_comm]

/-- The names at the end of a way are among those that were there or came up on it. -/
theorem spelledBytes_destination (trail : List String) (components : List Component) :
    spelledBytes (destination trail components) ≤
      spelledBytes trail + spelledBytes (components.filterMap Component.name?) := by
  induction components generalizing trail with
  | nil => exact Nat.le_of_eq (spelledBytes_reverse trail)
  | cons component components ih =>
    cases component with
    | root =>
      have hmore := ih []
      simp only [destination, spelledBytes, List.filterMap_cons, Component.name?] at hmore ⊢
      omega
    | here => exact ih trail
    | up =>
      have hmore := ih trail.tail
      have htail : spelledBytes trail.tail ≤ spelledBytes trail := by
        cases trail with
        | nil => exact Nat.le_refl _
        | cons name trail =>
          rw [spelledBytes_cons, List.tail_cons]
          omega
      simp only [destination, List.filterMap_cons, Component.name?] at hmore ⊢
      omega
    | name name =>
      have hmore := ih (name :: trail)
      simp only [destination, List.filterMap_cons, Component.name?, spelledBytes_cons] at hmore ⊢
      omega

theorem utf8ByteSize_pathOf (hnames : names ≠ []) :
    (pathOf names).text.utf8ByteSize = spelledBytes names := by
  have hslash : ("/" : String).utf8ByteSize = 1 := rfl
  rw [pathOf, String.utf8ByteSize_append, hslash]
  induction names with
  | nil => exact absurd rfl hnames
  | cons name names ih =>
    cases names with
    | nil => simp [spelledBytes, Nat.add_comm]
    | cons next names =>
      rw [String.intercalate_cons_cons, String.utf8ByteSize_append, String.utf8ByteSize_append,
        hslash, spelledBytes_cons, ← ih (List.cons_ne_nil _ _)]
      omega

/-- Pieces take as many bytes as their text, each with a slash. -/
theorem spelledBytes_pieces {all : List (List Char)} (hall : all ≠ []) :
    spelledBytes (all.map String.ofList) =
      (String.ofList (Text.join '/' all)).utf8ByteSize + 1 := by
  induction all with
  | nil => exact absurd rfl hall
  | cons piece all ih =>
    rw [List.map_cons, spelledBytes_cons]
    cases all with
    | nil => rfl
    | cons next all =>
      have hjoin : String.ofList (Text.join '/' (piece :: next :: all)) =
          String.ofList piece ++ "/" ++ String.ofList (Text.join '/' (next :: all)) := by
        rw [← String.toList_inj]
        simp [Text.join]
      have hslash : ("/" : String).utf8ByteSize = 1 := rfl
      rw [ih (List.cons_ne_nil _ _), hjoin, String.utf8ByteSize_append, String.utf8ByteSize_append,
        hslash]
      omega

theorem eq_of_component? {piece : List Char} {text : String}
    (h : Path.component? piece = some (.name text)) : text = String.ofList piece := by
  unfold Path.component? at h
  split at h
  · cases h
  split at h
  · cases h
  · exact (Component.name.inj (Option.some.inj h)).symm

/-- The names in an absolute path take no more bytes than the path. -/
theorem spelledBytes_steps (hp : p.isAbsolute = true) :
    spelledBytes (p.steps.filterMap Component.name?) ≤ p.text.utf8ByteSize := by
  have hnames : ∀ all : List (List Char),
      spelledBytes ((all.filterMap Path.component?).filterMap Component.name?) ≤
        spelledBytes (all.map String.ofList) := by
    intro all
    induction all with
    | nil => exact Nat.le_refl _
    | cons piece all ih =>
      rw [List.map_cons, spelledBytes_cons]
      cases hpiece : Path.component? piece with
      | none =>
        rw [List.filterMap_cons_none hpiece]
        omega
      | some component =>
        rw [List.filterMap_cons_some hpiece]
        cases component with
        | root | here | up =>
          rw [List.filterMap_cons_none rfl]
          omega
        | name text =>
          have hname : Component.name? (.name text) = some text := rfl
          rw [List.filterMap_cons_some hname, spelledBytes_cons, eq_of_component? hpiece]
          omega
  obtain ⟨rest, hpieces⟩ := Path.pieces_of_isAbsolute hp
  have htext := spelledBytes_pieces (Text.pieces_ne_nil '/' p.text.toList)
  rw [Text.join_pieces, String.ofList_toList] at htext
  have hrest := hnames (Text.pieces '/' rest)
  rw [Path.pieces] at hpieces
  rw [hpieces, List.map_cons, spelledBytes_cons] at htext
  have hempty : (String.ofList []).utf8ByteSize = 0 := rfl
  have hsteps : p.steps = (Text.pieces '/' rest).filterMap Path.component? := by
    rw [Path.steps, Path.pieces, hpieces, List.filterMap_cons_none rfl]
  rw [hsteps]
  omega

/-- **The canonical path of a place** is not too long, if a path that leads there is not. -/
theorem isLongPath_pathOf_of_route (hp : p.isAbsolute = true) (hroute : fs.route p = .ok place) :
    isLongPath (pathOf place) = false := by
  obtain ⟨hplain, -, hleads, -⟩ := route_eq_ok.1 hroute
  have hshort := hplain.short
  rw [isLongPath, decide_eq_false_iff_not] at hshort ⊢
  by_cases hplace : place = []
  · subst hplace
    decide
  have hdestination : place = destination [] p.steps := by
    rw [hleads.eq_destination, Path.components_eq_root_steps hp]
    rfl
  have hway := spelledBytes_destination [] p.steps
  have hsteps := spelledBytes_steps hp
  have hnone : spelledBytes [] = 0 := rfl
  rw [utf8ByteSize_pathOf hplace, hdestination]
  omega

end JarGraph.FileSystem
