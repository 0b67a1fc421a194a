import JarGraph.AtomicWrite
import JarGraph.FileSystem.WellFormed
/-!
# The ends of paths

What a path that is written from another one has for components: the path
of an entry of a directory (`components_child`), and for the path of a
file in a directory its temporary name and the directory
(`exists_ends`). Only the last component differs, however the paths are
spelled before it. A name ends in what follows its last dot
(`splitName_append`).
-/

namespace JarGraph.Path

variable {p q : Path} {name : String} {front : List (List Char)} {last piece : List Char}

/-- What a path of several pieces starts with is told by the first. -/
theorem lead_eq {first second : List Char} {rest : List (List Char)}
    (hp : p.pieces = first :: second :: rest) :
    p.lead = if first = [] then some .root else if first = ['.'] then some .here else none := by
  unfold lead
  rw [hp]
  by_cases hempty : first = []
  · subst hempty
    rfl
  · rw [if_neg hempty]
    by_cases hhere : first = ['.']
    · subst hhere
      rfl
    · rw [if_neg hhere]
      split
      · rename_i heq
        exact absurd (List.cons.inj heq).1 hempty
      · rename_i heq
        exact absurd (List.cons.inj heq).1 hhere
      · rfl

/-- The last piece of several does not count for what a path starts with. -/
theorem lead_congr (hfront : front ≠ []) (hp : p.pieces = front ++ [piece])
    (hq : q.pieces = front ++ [last]) : p.lead = q.lead := by
  cases front with
  | nil => exact absurd rfl hfront
  | cons first front =>
    cases front with
    | nil => rw [lead_eq hp, lead_eq hq]
    | cons second front => rw [lead_eq hp, lead_eq hq]

/-- Nor does a piece that is added, unless there was none before. -/
theorem lead_concat (hp : p.text.toList ≠ []) (hq : q.pieces = p.pieces ++ [piece]) :
    q.lead = p.lead := by
  cases hpieces : p.pieces with
  | nil => exact absurd hpieces (Text.pieces_ne_nil _ _)
  | cons first rest =>
    rw [hpieces] at hq
    cases rest with
    | cons second rest => rw [lead_eq hpieces, lead_eq hq]
    | nil =>
      -- A single piece is the whole text.
      have hfirst : first = p.text.toList := by
        rw [← Text.join_pieces '/' p.text.toList, ← pieces, hpieces]
        rfl
      rw [lead_eq hq, if_neg (hfirst ▸ hp)]
      unfold lead
      rw [hpieces]
      by_cases hhere : first = ['.']
      · subst hhere
        rfl
      · rw [if_neg hhere]
        split
        · rename_i heq
          cases heq
        · rename_i heq
          exact absurd (List.cons.inj heq).1 hhere
        · rfl

theorem component?_of_busy (hidle : isIdle piece = false) (hup : piece ≠ ['.', '.']) :
    component? piece = some (.name (String.ofList piece)) := by
  rw [component?, hidle, if_neg Bool.false_ne_true, if_neg hup]

theorem component?_name (hname : IsEntryName name) :
    component? name.toList = some (.name name) := by
  obtain ⟨hempty, hhere, hup, -⟩ := hname
  have hidle : isIdle name.toList = false := by
    rw [isIdle, Bool.or_eq_false_iff, beq_eq_false_iff_ne, beq_eq_false_iff_ne]
    refine ⟨fun h => hempty (String.toList_eq_nil_iff.1 h), fun h => hhere ?_⟩
    rw [← String.ofList_toList (s := name), h]
  have hnot : name.toList ≠ ['.', '.'] := by
    intro h
    refine hup ?_
    rw [← String.ofList_toList (s := name), h]
  rw [component?_of_busy hidle hnot, String.ofList_toList]

/-- A name that an entry can have is a path of this name alone. -/
theorem components_of_isEntryName (h : IsEntryName name) :
    components ⟨name⟩ = [.name name] := by
  have hpieces : pieces ⟨name⟩ = [name.toList] := Text.pieces_eq_singleton h.2.2.2
  have hlead : lead ⟨name⟩ = none := by
    unfold lead
    rw [hpieces]
    split
    · rename_i heq
      exact absurd (String.toList_eq_nil_iff.1 (List.cons.inj heq).1) h.1
    · rename_i heq
      exact absurd (String.toList_inj.1 (List.cons.inj heq).1) h.2.1
    · rfl
  rw [components, hlead, hpieces, List.filterMap_cons_some (component?_name h)]
  rfl

/-- **The path of an entry** has one component more than the path of the directory. -/
theorem components_child (hp : p.text.toList ≠ []) (hname : IsEntryName name) :
    (p.child name).components = p.components ++ [.name name] := by
  have hslash : '/' ∉ name.toList := hname.2.2.2
  have hpieces := Text.pieces_eq_singleton hslash
  have hcomponent : [name.toList].filterMap component? = [.name name] := by
    rw [List.filterMap_cons_some (component?_name hname), List.filterMap_nil]
  have habsolute : isAbsolute ⟨name⟩ = false := by
    rw [isAbsolute, beq_eq_false_iff_ne]
    exact fun h => hslash (List.mem_of_head? h)
  have hchild : p.child name = append p ⟨name⟩ := rfl
  rw [append, habsolute, if_neg Bool.false_ne_true] at hchild
  by_cases hends : p.text.toList.getLast? = some '/'
  · obtain ⟨before, hbefore⟩ := List.getLast?_eq_some_iff.1 hends
    have hp' : p.pieces = Text.pieces '/' before ++ [[]] := by
      rw [pieces, hbefore, Text.pieces_append]
      rfl
    have hq : (p.child name).pieces = Text.pieces '/' before ++ [name.toList] := by
      rw [hchild, hends]
      show Text.pieces '/' (p.text ++ name).toList = _
      rw [String.toList_append, hbefore, List.append_assoc, List.singleton_append,
        Text.pieces_append, hpieces]
    have hnone : [([] : List Char)].filterMap component? = [] := rfl
    rw [components, components, lead_congr (Text.pieces_ne_nil _ _) hq hp', hq, hp',
      List.filterMap_append, List.filterMap_append, hcomponent, hnone, List.append_nil,
      List.append_assoc]
  · have hq : (p.child name).pieces = p.pieces ++ [name.toList] := by
      rw [hchild]
      split
      · rename_i hnone
        exact absurd (List.getLast?_eq_none_iff.1 hnone) hp
      · rename_i hslash'
        exact absurd hslash' hends
      · rw [pieces, String.toList_append, String.toList_append, List.append_assoc]
        show Text.pieces '/' (p.text.toList ++ '/' :: name.toList) = _
        rw [Text.pieces_append, hpieces, pieces]
    rw [components, components, lead_concat hp hq, hq, List.filterMap_append, hcomponent,
      List.append_assoc]

/-! ## A file in a directory -/

/-- Idle pieces at the end stand for no component. -/
theorem filterMap_dropIdleEnd (all : List (List Char)) :
    (dropIdleEnd all).filterMap component? = all.filterMap component? := by
  have hidle : ∀ back : List (List Char),
      (back.dropWhile isIdle).filterMap component? = back.filterMap component? := by
    intro back
    induction back with
    | nil => rfl
    | cons piece back ih =>
      rw [List.dropWhile_cons]
      split
      · rename_i h
        have hnone : component? piece = none := by rw [component?, if_pos h]
        rw [ih, List.filterMap_cons_none hnone]
      · rfl
  rw [dropIdleEnd, List.filterMap_reverse, hidle, List.filterMap_reverse, List.reverse_reverse]

theorem dropIdleEnd_concat (hpiece : isIdle piece = false) :
    dropIdleEnd (front ++ [piece]) = front ++ [piece] := by
  rw [dropIdleEnd, List.reverse_append, List.reverse_singleton, List.singleton_append,
    List.dropWhile_cons, hpiece, if_neg Bool.false_ne_true, List.reverse_cons,
    List.reverse_reverse]

theorem mem_of_mem_dropIdleEnd {all : List (List Char)} (h : piece ∈ dropIdleEnd all) :
    piece ∈ all := by
  rw [dropIdleEnd, List.mem_reverse] at h
  exact List.mem_reverse.1 ((List.dropWhile_sublist isIdle).subset h)

/-- A path that starts with the root, from its further pieces. -/
theorem components_root {all : List (List Char)} (h : ∀ piece ∈ all, '/' ∉ piece) :
    components ⟨String.ofList ('/' :: Text.join '/' all)⟩ =
      .root :: all.filterMap component? := by
  have hpieces : pieces ⟨String.ofList ('/' :: Text.join '/' all)⟩ =
      [] :: Text.pieces '/' (Text.join '/' all) := by
    rw [pieces, String.toList_ofList]
    rfl
  have hrest : (Text.pieces '/' (Text.join '/' all)).filterMap component? =
      all.filterMap component? := by
    by_cases hall : all = []
    · rw [hall]
      rfl
    · rw [Text.pieces_join h hall]
  have hlead : lead ⟨String.ofList ('/' :: Text.join '/' all)⟩ = some .root := by
    cases hcut : Text.pieces '/' (Text.join '/' all) with
    | nil => exact absurd hcut (Text.pieces_ne_nil _ _)
    | cons second rest =>
      rw [hcut] at hpieces
      rw [lead_eq hpieces, if_pos rfl]
  rw [components, hlead, hpieces, List.filterMap_cons_none rfl, hrest]
  rfl

/-- A path with a root starts with an empty piece. -/
theorem pieces_of_isAbsolute (habsolute : p.isAbsolute = true) :
    ∃ rest, p.pieces = [] :: Text.pieces '/' rest := by
  obtain ⟨rest, hrest⟩ : ∃ rest, p.text.toList = '/' :: rest := by
    rw [isAbsolute, beq_iff_eq] at habsolute
    exact List.head?_eq_some_iff.1 habsolute
  refine ⟨rest, ?_⟩
  rw [pieces, hrest]
  rfl

theorem components_of_isAbsolute (habsolute : p.isAbsolute = true) :
    ∃ rest, p.components = .root :: rest := by
  obtain ⟨rest, hpieces⟩ := pieces_of_isAbsolute habsolute
  obtain ⟨first, more, hrest⟩ := List.exists_cons_of_ne_nil (Text.pieces_ne_nil '/' rest)
  rw [hrest] at hpieces
  rw [components, lead_eq hpieces, if_pos rfl]
  exact ⟨_, rfl⟩

/-- The pieces of a path with a root that ends in a name. -/
theorem exists_pieces (habsolute : p.isAbsolute = true)
    (hname : FileSystem.endsInName p = true) (hfile : FileSystem.asksForFolder p = false) :
    ∃ front piece, p.pieces = [] :: front ++ [piece] ∧ isIdle piece = false ∧
      piece ≠ ['.', '.'] := by
  obtain ⟨rest, hpieces⟩ := pieces_of_isAbsolute habsolute
  obtain ⟨front, piece, hcut⟩ : ∃ front piece, Text.pieces '/' rest = front ++ [piece] := by
    rcases List.eq_nil_or_concat (Text.pieces '/' rest) with hnil | ⟨front, piece, hconcat⟩
    · exact absurd hnil (Text.pieces_ne_nil _ _)
    · exact ⟨front, piece, hconcat.trans List.concat_eq_append⟩
  rw [hcut] at hpieces
  have hidle : isIdle piece = false := by
    rw [FileSystem.asksForFolder, hpieces, ← List.cons_append, List.getLast?_concat] at hfile
    exact hfile
  refine ⟨front, piece, hpieces, hidle, ?_⟩
  rintro rfl
  rw [FileSystem.endsInName, hpieces, ← List.cons_append, List.reverse_append] at hname
  cases hname

/-- The components of a path with a root, from its pieces. -/
theorem components_concat {component : Component} (hp : p.pieces = [] :: front ++ [piece])
    (hpiece : component? piece = some component) :
    p.lead = some .root ∧
      p.components = .root :: front.filterMap component? ++ [component] := by
  have hlead : p.lead = some .root := by
    cases front with
    | nil => rw [lead_eq hp, if_pos rfl]
    | cons second front => rw [lead_eq hp, if_pos rfl]
  refine ⟨hlead, ?_⟩
  rw [components, hlead, hp, List.cons_append, List.filterMap_cons_none rfl,
    List.filterMap_append, List.filterMap_cons_some hpiece]
  rfl

/-- A temporary name takes the place of the name, whatever stands before it. -/
theorem pieces_temporary (hp : p.pieces = front ++ [piece]) :
    (AtomicWrite.temporary p).pieces = front ++ [piece ++ ".tmp".toList] := by
  have hslash : ∀ other ∈ front ++ [piece], '/' ∉ other := by
    rw [← hp]
    exact fun other hother => Text.not_mem_of_mem_pieces hother
  have hpiece : '/' ∉ piece ++ ".tmp".toList := by
    rw [List.mem_append, not_or]
    exact ⟨hslash piece (List.mem_append_right _ (List.mem_singleton_self piece)), by decide⟩
  have htext : (AtomicWrite.temporary p).text.toList =
      Text.join '/' (front ++ [piece ++ ".tmp".toList]) := by
    rw [AtomicWrite.temporary, String.toList_append, ← Text.join_pieces '/' p.text.toList, ← pieces,
      hp]
    by_cases hfront : front = []
    · rw [hfront]
      rfl
    · rw [Text.join_concat hfront, Text.join_concat hfront, List.append_assoc, List.cons_append]
  rw [pieces, htext]
  refine Text.pieces_join ?_ (by simp)
  intro other hother
  rcases List.mem_append.1 hother with hother | hother
  · exact hslash other (List.mem_append_left _ hother)
  · rw [List.mem_singleton.1 hother]
    exact hpiece

/-- A piece that ends in `.tmp` stands for a name. -/
theorem component?_temporary (piece : List Char) :
    component? (piece ++ ".tmp".toList) = some (.name (String.ofList piece ++ ".tmp")) := by
  have hlong : 2 < (piece ++ ".tmp".toList).length := by
    rw [List.length_append]
    show 2 < piece.length + 4
    omega
  have hidle : isIdle (piece ++ ".tmp".toList) = false := by
    rw [isIdle, Bool.or_eq_false_iff, beq_eq_false_iff_ne, beq_eq_false_iff_ne]
    constructor <;> intro h <;> rw [h] at hlong <;> simp at hlong
  have hup : piece ++ ".tmp".toList ≠ ['.', '.'] := by
    intro h
    rw [h] at hlong
    simp at hlong
  rw [component?_of_busy hidle hup, String.ofList_append, String.ofList_toList]

/-- A temporary path never asks for a directory, even if the path itself does. -/
theorem asksForFolder_temporary (p : Path) :
    FileSystem.asksForFolder (AtomicWrite.temporary p) = false := by
  rcases List.eq_nil_or_concat p.pieces with hnil | ⟨front, piece, hconcat⟩
  · exact absurd hnil (Text.pieces_ne_nil _ _)
  have htemporary := pieces_temporary (hconcat.trans List.concat_eq_append)
  have hcomponent := component?_temporary piece
  rw [FileSystem.asksForFolder, htemporary, List.getLast?_concat]
  dsimp only
  rw [← Bool.not_eq_true]
  intro hidle
  rw [component?, if_pos hidle] at hcomponent
  cases hcomponent

/-- The temporary name of a file is its own name with an ending. -/
theorem fileName_temporary (hname : FileSystem.endsInName p = true)
    (hfile : FileSystem.asksForFolder p = false) :
    ∃ name, p.fileName = some name ∧
      (AtomicWrite.temporary p).fileName = some (name ++ ".tmp") := by
  rcases List.eq_nil_or_concat p.pieces with hnil | ⟨front, piece, hconcat⟩
  · exact absurd hnil (Text.pieces_ne_nil _ _)
  have hp := hconcat.trans List.concat_eq_append
  have hidle : isIdle piece = false := by
    rw [FileSystem.asksForFolder, hp, List.getLast?_concat] at hfile
    exact hfile
  have hup : piece ≠ ['.', '.'] := by
    rintro rfl
    rw [FileSystem.endsInName, hp, List.reverse_append] at hname
    cases hname
  have hpiece := component?_of_busy hidle hup
  -- What the last piece stands for is the last component.
  have hlast : ∀ {q : Path} {last : List Char} {component : Component},
      q.pieces = front ++ [last] → component? last = some component →
        q.components.getLast? = some component := by
    intro q last component hq hcomponent
    rw [components, hq, List.filterMap_append, List.filterMap_cons_some hcomponent,
      List.filterMap_nil, ← List.append_assoc, List.getLast?_concat]
  refine ⟨String.ofList piece, ?_, ?_⟩
  · rw [fileName, hlast hp hpiece]
    rfl
  · rw [fileName, hlast (pieces_temporary hp) (component?_temporary piece)]
    rfl

/-- The directory of a file has the components before the last. -/
theorem exists_parent (hp : p.pieces = [] :: front ++ [piece]) (hidle : isIdle piece = false)
    (hup : piece ≠ ['.', '.']) :
    ∃ parent, AtomicWrite.parentFolder p = some parent ∧
      parent.components = .root :: front.filterMap component? := by
  obtain ⟨hlead, hcomponents⟩ := components_concat hp (component?_of_busy hidle hup)
  have hbody : dropIdleEnd p.body = front ++ [piece] := by
    rw [body, hlead, hp]
    exact dropIdleEnd_concat hidle
  have hslash : ∀ other ∈ dropIdleEnd front, '/' ∉ other := by
    intro other hother
    have hmem : other ∈ p.pieces := by
      rw [hp]
      exact List.mem_append_left _ (List.mem_cons_of_mem _ (mem_of_mem_dropIdleEnd hother))
    exact Text.not_mem_of_mem_pieces hmem
  refine ⟨⟨String.ofList ('/' :: Text.join '/' (dropIdleEnd front))⟩, ?_, ?_⟩
  · have hparent : p.parent? = some ⟨String.ofList ('/' :: Text.join '/' (dropIdleEnd front))⟩ := by
      rw [parent?, hcomponents, List.getLast?_concat]
      dsimp only
      rw [hbody, if_neg (by simp), List.dropLast_concat, withBody, hlead]
    rw [AtomicWrite.parentFolder, hparent, Option.filter_some, if_pos (by simp)]
  · rw [components_root hslash, filterMap_dropIdleEnd]

/-- **A file in a directory** by its path: the components of the path itself, of its temporary
name, and of the directory. -/
theorem exists_ends (habsolute : p.isAbsolute = true)
    (hname : FileSystem.endsInName p = true) (hfile : FileSystem.asksForFolder p = false) :
    ∃ (above : List Component) (name : String),
      (∀ component ∈ above, component ≠ .root) ∧ name ≠ "" ∧
      p.components = .root :: above ++ [.name name] ∧
      (AtomicWrite.temporary p).components = .root :: above ++ [.name (name ++ ".tmp")] ∧
      FileSystem.asksForFolder (AtomicWrite.temporary p) = false ∧
      ∃ parent, AtomicWrite.parentFolder p = some parent ∧
        parent.components = .root :: above := by
  obtain ⟨front, piece, hpieces, hidle, hup⟩ := exists_pieces habsolute hname hfile
  refine ⟨front.filterMap component?, String.ofList piece, ?_, ?_,
    (components_concat hpieces (component?_of_busy hidle hup)).2,
    (components_concat (pieces_temporary hpieces) (component?_temporary piece)).2,
    asksForFolder_temporary p, exists_parent hpieces hidle hup⟩
  · intro component hmem
    obtain ⟨other, -, hother⟩ := List.mem_filterMap.1 hmem
    rintro rfl
    unfold component? at hother
    split at hother
    · cases hother
    · split at hother <;> cases hother
  · intro hempty
    have hnil : piece = [] := String.toList_eq_nil_iff.2 hempty ▸ String.toList_ofList.symm
    rw [hnil] at hidle
    cases hidle

/-- The ending of a name is what follows its last dot. -/
theorem splitName_append {stem ending : String} (hstem : stem ≠ "")
    (hending : '.' ∉ ending.toList) : splitName (stem ++ "." ++ ending) = (stem, some ending) := by
  have hcut : Text.cutLast '.' (stem ++ "." ++ ending).toList =
      some (stem.toList, ending.toList) := by
    rw [Text.cutLast_eq_some, String.toList_append, String.toList_append, List.append_assoc]
    exact ⟨rfl, hending⟩
  rw [splitName, hcut]
  cases htext : stem.toList with
  | nil => exact absurd (String.toList_eq_nil_iff.1 htext) hstem
  | cons c rest =>
    dsimp only
    rw [← htext, String.ofList_toList, String.ofList_toList]

end JarGraph.Path
