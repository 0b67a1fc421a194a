import JarGraph.Proofs.FileSystem.Finding
import JarGraph.Proofs.Settings.Validate
import Mathlib.Data.List.Induction
/-!
# Relative paths and their absolute spelling

A relative path that is taken from an absolute one has the components of
both (`components_append`), where the `.` that it may start with no longer
counts. The path of a row of names is such an absolute path
(`components_pathOf`), so that the absolute form of a relative path is
that of the same path spelled from the root (`absolute?_append`).
-/

namespace JarGraph.Path

variable {p q : Path} {names : List String} {name : String}

/-- The components of a path without what it starts with as a whole, the root or a `.`. -/
def steps (p : Path) : List Component :=
  p.pieces.filterMap component?

theorem components_eq_steps (p : Path) : p.components = p.lead.toList ++ p.steps := rfl

theorem components_eq_root_steps (hp : p.isAbsolute = true) : p.components = .root :: p.steps := by
  obtain ⟨rest, hpieces⟩ := pieces_of_isAbsolute hp
  obtain ⟨first, more, hrest⟩ := List.exists_cons_of_ne_nil (Text.pieces_ne_nil '/' rest)
  rw [hrest] at hpieces
  rw [components_eq_steps, lead_eq hpieces, if_pos rfl]
  rfl

/-- A relative path starts with a step, or with a `.` that changes nothing. -/
theorem lead_eq_none_or_here (hp : p.isAbsolute = false) : p.lead = none ∨ p.lead = some .here := by
  unfold lead
  split
  · rename_i hpieces
    rw [isAbsolute, beq_eq_false_iff_ne] at hp
    rw [pieces] at hpieces
    cases htext : p.text.toList with
    | nil =>
      rw [htext] at hpieces
      cases hpieces
    | cons c rest =>
      have hc : c ≠ '/' := fun hc => hp (by rw [htext, hc]; rfl)
      rw [htext, Text.pieces, if_neg hc] at hpieces
      split at hpieces <;> cases hpieces
  · exact .inr rfl
  · exact .inl rfl

/-- A path is taken from another one after a slash, which is there or is put there. -/
theorem exists_text_append (hp : p.text.toList ≠ []) (hq : q.isAbsolute = false) :
    ∃ before, (p ++ q).text.toList = before ++ '/' :: q.text.toList ∧
      (p.text.toList = before ∨ p.text.toList = before ++ ['/']) := by
  have happend : p ++ q = p.append q := rfl
  rw [append, hq, if_neg Bool.false_ne_true] at happend
  split at happend
  · rename_i hnone
    exact absurd (List.getLast?_eq_none_iff.1 hnone) hp
  · rename_i hslash
    obtain ⟨before, hbefore⟩ := List.getLast?_eq_some_iff.1 hslash
    refine ⟨before, ?_, .inr hbefore⟩
    rw [happend, String.toList_append, hbefore, List.append_assoc, List.singleton_append]
  · refine ⟨p.text.toList, ?_, .inl rfl⟩
    rw [happend, String.toList_append, String.toList_append, List.append_assoc]
    rfl

/-- The pieces of a path that is taken from another one are its own after those of the other. -/
theorem exists_pieces_append (hp : p.text.toList ≠ []) (hq : q.isAbsolute = false) :
    ∃ front, (p ++ q).pieces = front ++ q.pieces ∧ front.filterMap component? = p.steps := by
  obtain ⟨before, htext, hbefore⟩ := exists_text_append hp hq
  refine ⟨Text.pieces '/' before, ?_, ?_⟩
  · rw [pieces, htext, Text.pieces_append]
    rfl
  · rcases hbefore with hbefore | hbefore
    · rw [steps, pieces, hbefore]
    · rw [steps, pieces, hbefore, Text.pieces_append, List.filterMap_append]
      exact (List.append_nil _).symm

theorem text_ne_nil_of_isAbsolute (hp : p.isAbsolute = true) : p.text.toList ≠ [] := by
  rw [isAbsolute, beq_iff_eq] at hp
  exact fun h => by rw [h] at hp; cases hp

theorem steps_append (hp : p.text.toList ≠ []) (hq : q.isAbsolute = false) :
    (p ++ q).steps = p.steps ++ q.steps := by
  obtain ⟨front, hpieces, hfront⟩ := exists_pieces_append hp hq
  rw [steps, hpieces, List.filterMap_append, hfront]
  rfl

/-- **A relative path that is taken from an absolute one** has the components of both. -/
theorem components_append (hp : p.isAbsolute = true) (hq : q.isAbsolute = false) :
    (p ++ q).components = p.components ++ q.steps := by
  rw [components_eq_root_steps (isAbsolute_append hp), components_eq_root_steps hp,
    steps_append (text_ne_nil_of_isAbsolute hp) hq, List.cons_append]

theorem asksForFolder_append (hp : p.text.toList ≠ []) (hq : q.isAbsolute = false) :
    FileSystem.asksForFolder (p ++ q) = FileSystem.asksForFolder q := by
  obtain ⟨front, hpieces, -⟩ := exists_pieces_append hp hq
  rw [FileSystem.asksForFolder, FileSystem.asksForFolder, hpieces, List.getLast?_append]
  cases hlast : q.pieces.getLast? with
  | none => exact absurd (List.getLast?_eq_none_iff.1 hlast) (Text.pieces_ne_nil _ _)
  | some piece => rfl

/-! ## The path of a row of names -/

theorem intercalate_concat (separator : String) (hnames : names ≠ []) :
    separator.intercalate (names ++ [name]) = separator.intercalate names ++ separator ++ name := by
  induction names with
  | nil => exact absurd rfl hnames
  | cons first names ih =>
    cases names with
    | nil => simp
    | cons second names =>
      have hrest := ih (List.cons_ne_nil second names)
      rw [List.cons_append] at hrest
      rw [List.cons_append, List.cons_append, String.intercalate_cons_cons, hrest,
        String.intercalate_cons_cons]
      simp only [String.append_assoc]

theorem child_eq (hname : IsEntryName name) :
    p.child name =
      match p.text.toList.getLast? with
      | none => ⟨name⟩
      | some '/' => ⟨p.text ++ name⟩
      | some _ => ⟨p.text ++ "/" ++ name⟩ := by
  have habsolute : isAbsolute ⟨name⟩ = false := by
    rw [isAbsolute, beq_eq_false_iff_ne]
    exact fun h => hname.2.2.2 (List.mem_of_head? h)
  exact if_neg (Bool.eq_false_iff.1 habsolute)

/-- The path of a row of names is made name by name from the root. -/
theorem pathOf_concat (hnames : ∀ name ∈ names, IsEntryName name) (hname : IsEntryName name) :
    FileSystem.pathOf (names ++ [name]) = (FileSystem.pathOf names).child name := by
  rw [child_eq hname]
  rcases List.eq_nil_or_concat names with rfl | ⟨front, last, hconcat⟩
  · have hroot : (FileSystem.pathOf []).text.toList.getLast? = some '/' := by decide
    rw [hroot, List.nil_append, FileSystem.pathOf, FileSystem.pathOf]
    simp
  · rw [List.concat_eq_append] at hconcat
    subst hconcat
    obtain ⟨hempty, -, -, hslash⟩ : IsEntryName last := hnames last (by simp)
    -- The text ends with that of the last name, and so with no slash.
    obtain ⟨before, hbefore⟩ : ∃ before, (FileSystem.pathOf (front ++ [last])).text =
        before ++ last := by
      by_cases hfront : front = []
      · exact ⟨"/", by rw [hfront]; simp [FileSystem.pathOf]⟩
      · refine ⟨"/" ++ (String.intercalate "/" front ++ "/"), ?_⟩
        rw [FileSystem.pathOf, intercalate_concat "/" hfront]
        simp only [String.append_assoc]
    have hlast : last.toList ≠ [] := fun h => hempty (String.toList_eq_nil_iff.1 h)
    have hend : (FileSystem.pathOf (front ++ [last])).text.toList.getLast? =
        some (last.toList.getLast hlast) := by
      rw [hbefore, String.toList_append, List.getLast?_append, List.getLast?_eq_some_getLast hlast,
        Option.some_or]
    have hne : last.toList.getLast hlast ≠ '/' :=
      fun h => hslash (h ▸ List.getLast_mem hlast)
    rw [hend]
    split
    · rename_i hnone
      cases hnone
    · rename_i hsome
      exact absurd (Option.some.inj hsome) hne
    · rw [FileSystem.pathOf, FileSystem.pathOf, intercalate_concat "/" (by simp)]
      simp only [String.append_assoc]

theorem pathOf_eq_below (hnames : ∀ name ∈ names, IsEntryName name) :
    FileSystem.pathOf names = below ⟨"/"⟩ names := by
  induction names using List.reverseRecOn with
  | nil => decide
  | append_singleton names name ih =>
    obtain ⟨hmore, hname⟩ := List.forall_mem_append.1 hnames
    rw [pathOf_concat hmore (hname name (List.mem_singleton_self name)), ih hmore, below, below,
      List.foldl_append]
    rfl

theorem components_pathOf (hnames : ∀ name ∈ names, IsEntryName name) :
    (FileSystem.pathOf names).components = .root :: names.map .name := by
  rw [pathOf_eq_below hnames, components_below (by decide) hnames]
  rfl

theorem steps_pathOf (hnames : ∀ name ∈ names, IsEntryName name) :
    (FileSystem.pathOf names).steps = names.map .name := by
  have hcomponents := components_pathOf hnames
  rw [components_eq_root_steps (Settings.isAbsolute_pathOf names)] at hcomponents
  exact (List.cons.inj hcomponents).2

/-! ## Absolute forms -/

/-- The path that some steps lead to from a directory. -/
def taking (directory : Path) (steps : List Component) : Path :=
  steps.foldl (fun p step => p.child step.text) directory

theorem taking_append (directory : Path) (first rest : List Component) :
    directory.taking (first ++ rest) = (directory.taking first).taking rest :=
  List.foldl_append ..

theorem taking_names (directory : Path) (names : List String) :
    directory.taking (names.map .name) = directory.below names :=
  List.foldl_map ..

/-- The absolute form of a path that does not start with two slashes. -/
theorem absolute?_eq (directory : Path) (hempty : p.text.isEmpty = false)
    (hroot : p.text.toList.take 2 ≠ ['/', '/']) :
    p.absolute? directory =
      some (let whole := (if p.isAbsolute then (⟨"/"⟩ : Path) else directory).taking p.steps
        if p.text.toList.getLast? == some '/' then whole.child "" else whole) := by
  rw [absolute?, hempty, if_neg Bool.false_ne_true, beq_false_of_ne hroot, Bool.false_and]
  rfl

/-- At most one slash stands in front of a path that is spelled from the root. -/
theorem take_two_ne (hnames : ∀ name ∈ names, IsEntryName name) (hq : q.isAbsolute = false) :
    (FileSystem.pathOf names ++ q).text.toList.take 2 ≠ ['/', '/'] := by
  have hcut : ∀ {c : Char} {rest : List Char}, c ≠ '/' →
      ('/' :: c :: rest).take 2 ≠ ['/', '/'] := by
    intro c rest hc h
    exact hc (List.cons.inj (List.cons.inj h).2).1
  cases names with
  | nil =>
    have hroot : (FileSystem.pathOf []).text.toList.getLast? = some '/' := by decide
    have htext : (FileSystem.pathOf [] ++ q).text.toList = '/' :: q.text.toList := by
      show (append _ q).text.toList = _
      rw [append, hq, if_neg Bool.false_ne_true, hroot]
      exact String.toList_append
    rw [htext]
    rw [isAbsolute, beq_eq_false_iff_ne] at hq
    cases hrest : q.text.toList with
    | nil =>
      intro h
      cases (List.cons.inj h).2
    | cons c rest => exact hcut fun hc => hq (by rw [hrest, hc]; rfl)
  | cons first more =>
    obtain ⟨hempty, -, -, hslash⟩ := hnames first List.mem_cons_self
    obtain ⟨c, tail, hfirst⟩ := List.exists_cons_of_ne_nil
      (fun h => hempty (String.toList_eq_nil_iff.1 h) : first.toList ≠ [])
    obtain ⟨after, hpath⟩ : ∃ after, (FileSystem.pathOf (first :: more)).text.toList =
        '/' :: c :: after := by
      rw [FileSystem.pathOf, String.toList_append]
      cases more with
      | nil => exact ⟨tail, by simp [hfirst]⟩
      | cons second more => exact ⟨_, by simp [String.intercalate_cons_cons, hfirst]; rfl⟩
    obtain ⟨rest, hrest⟩ : ∃ rest, (FileSystem.pathOf (first :: more) ++ q).text.toList =
        (FileSystem.pathOf (first :: more)).text.toList ++ rest := by
      obtain ⟨before, htext, hbefore | hbefore⟩ := exists_text_append
        (text_ne_nil_of_isAbsolute (Settings.isAbsolute_pathOf (first :: more))) hq
      · exact ⟨_, hbefore ▸ htext⟩
      · exact ⟨q.text.toList, by rw [htext, hbefore, List.append_assoc]; rfl⟩
    rw [hrest, hpath]
    exact hcut fun hc => hslash (by rw [hfirst, hc]; exact List.mem_cons_self)

theorem getLast?_append (hp : p.text.toList ≠ []) (hq : q.isAbsolute = false)
    (hempty : q.text.isEmpty = false) :
    (p ++ q).text.toList.getLast? = q.text.toList.getLast? := by
  obtain ⟨before, htext, -⟩ := exists_text_append hp hq
  have hne : q.text.toList ≠ [] := fun h => by
    rw [String.toList_eq_nil_iff.1 h] at hempty
    cases hempty
  rw [htext, List.getLast?_append, List.getLast?_cons, List.getLast?_eq_some_getLast hne]
  rfl

/-- **A relative path has the absolute form** of the path that spells it from the root. -/
theorem absolute?_append (hnames : ∀ name ∈ names, IsEntryName name) (hq : q.isAbsolute = false)
    (hempty : q.text.isEmpty = false) :
    (FileSystem.pathOf names ++ q).absolute? (FileSystem.pathOf names) =
      q.absolute? (FileSystem.pathOf names) := by
  have habsolute := Settings.isAbsolute_pathOf names
  have hpath := text_ne_nil_of_isAbsolute habsolute
  have hwhole := isAbsolute_append (q := q) habsolute
  have hfull : (FileSystem.pathOf names ++ q).text.isEmpty = false := by
    rw [Bool.eq_false_iff]
    exact fun h => text_ne_nil_of_isAbsolute hwhole
      (String.toList_eq_nil_iff.2 (String.isEmpty_iff.1 h))
  have hrelative : q.text.toList.take 2 ≠ ['/', '/'] := by
    rw [isAbsolute, beq_eq_false_iff_ne] at hq
    intro h
    cases htext : q.text.toList with
    | nil => rw [htext] at h; cases h
    | cons c rest =>
      rw [htext] at h hq
      exact hq (congrArg some (List.cons.inj h).1)
  rw [absolute?_eq _ hempty hrelative, absolute?_eq _ hfull (take_two_ne hnames hq), hwhole, hq,
    getLast?_append hpath hq hempty, steps_append hpath hq, steps_pathOf hnames, if_pos rfl,
    if_neg Bool.false_ne_true, taking_append, taking_names, ← pathOf_eq_below hnames]

end JarGraph.Path
