import JarGraph.Proofs.Descriptor.Reading
/-!
# The names of any descriptor

Whatever text is scanned as a descriptor, the names that are found are not
empty, hold no semicolon, and are made of characters of the text
(`madeOf_of_mem_classNames`). The same is true of the class that a class constant
stands for (`madeOf_of_internalName`). Nothing more can be said of a text that is
no descriptor: a character that no class name holds is a part of a name
for the scanner, unless it is a semicolon.
-/

namespace JarGraph.Descriptor

variable {cs row : List Char} {own : Option (List Char)} {name text : String}

/-- A name that is not empty, without a semicolon, and of some characters only. -/
structure MadeOf (cs : List Char) (name : String) : Prop where
  nonempty : name ≠ ""
  no_semicolon : ';' ∉ name.toList
  subset : name.toList ⊆ cs

theorem MadeOf.mono {cs' : List Char} (h : MadeOf cs name) (hsub : cs ⊆ cs') : MadeOf cs' name :=
  ⟨h.nonempty, h.no_semicolon, fun _ hc => hsub (h.subset hc)⟩

theorem MadeOf.ofClassName (name : ClassName) : MadeOf name.chars name.toString := by
  refine ⟨fun hempty => name.nonempty ?_, ?_, ?_⟩
  · have := congrArg String.toList hempty
    rwa [ClassName.toString, String.toList_ofList] at this
  · rw [ClassName.toString, String.toList_ofList]
    exact name.no_semicolon
  · rw [ClassName.toString, String.toList_ofList]
    exact List.Subset.refl _

/-! ## Scanned names -/

theorem madeOf_of_mem_emit (hrow : ';' ∉ row) (h : name ∈ emit row) : MadeOf row name := by
  unfold emit at h
  split at h
  · cases h
  · rename_i hne
    rw [List.mem_singleton] at h
    have hreverse : row.reverse ≠ [] := mt List.reverse_eq_nil_iff.1 hne
    have hsemicolon : ';' ∉ row.reverse := mt List.mem_reverse.1 hrow
    have hname := MadeOf.ofClassName ⟨row.reverse, hreverse, hsemicolon⟩
    rw [h]
    exact hname.mono fun c hc => List.mem_reverse.1 hc

/-- **Scanned names** are made of what is scanned and of what was read of a name before. -/
theorem madeOf_of_mem_scan (hown : ∀ row ∈ own, ';' ∉ row) (h : name ∈ scan own cs) :
    MadeOf (own.getD [] ++ cs) name := by
  fun_induction scan own cs with
  | case1 => cases h
  | case2 rest ih =>
    have hempty : ∀ row ∈ some [], ';' ∉ row := by
      rintro row hrow
      obtain rfl := Option.some.inj hrow
      exact List.not_mem_nil
    exact (ih hempty h).mono (List.subset_cons_self _ _)
  | case3 c rest hc hmarker ih => exact (ih nofun h).mono (List.subset_cons_self _ _)
  | case4 => cases h
  | case5 row =>
    rw [Option.getD_some, List.append_nil]
    exact madeOf_of_mem_emit (hown row rfl) h
  | case6 row rest ih =>
    rcases List.mem_append.1 h with h | h
    · exact (madeOf_of_mem_emit (hown row rfl) h).mono (List.subset_append_left _ _)
    · exact (ih nofun h).mono fun c hc =>
        List.mem_append_right _ (List.mem_cons_of_mem _ hc)
  | case7 row c rest hc ih =>
    -- The character belongs to the name that is being read.
    have hrow : ∀ longer ∈ some (c :: row), ';' ∉ longer := by
      rintro longer hlonger
      obtain rfl := Option.some.inj hlonger
      exact fun hmem => (List.mem_cons.1 hmem).elim (hc ·.symm) (hown row rfl)
    refine (ih hrow h).mono fun d hd => ?_
    rw [Option.getD_some] at hd ⊢
    simp only [List.cons_append, List.mem_cons, List.mem_append] at hd ⊢
    tauto

/-- **Whatever is scanned**, the names are made of its characters. -/
theorem madeOf_of_mem_classNames (h : name ∈ classNames text) : MadeOf text.toList name := by
  have hnone : ∀ row ∈ (none : Option (List Char)), ';' ∉ row := nofun
  exact madeOf_of_mem_scan hnone h

/-! ## Class constants -/

theorem FieldType.madeOf (type : FieldType) (h : type.className? = some name) :
    MadeOf type.chars name := by
  induction type with
  | primitive => cases h
  | object own =>
    obtain rfl := Option.some.inj h
    refine (MadeOf.ofClassName own).mono fun c hc => ?_
    exact List.mem_cons_of_mem _ (List.mem_append_left _ hc)
  | array element ih => exact (ih h).mono (List.subset_cons_self _ _)

theorem ClassConstant.text_ne_empty (constant : ClassConstant) : constant.text ≠ "" := by
  intro hempty
  have hchars : constant.chars = [] := by
    rw [← String.toList_ofList (l := constant.chars), ← text, hempty]
    rfl
  cases constant with
  | plain own => exact own.nonempty hchars
  | wrapped | array => cases hchars

/-- **The class of a constant** is made of the characters of the constant. -/
theorem madeOf_of_internalName {constant : ClassConstant}
    (h : internalName constant.text = some name) : MadeOf constant.text.toList name := by
  rw [internalName_constant] at h
  rw [ClassConstant.text, String.toList_ofList]
  cases constant with
  | plain own =>
    obtain rfl := Option.some.inj h
    exact .ofClassName own
  | wrapped own => exact (FieldType.object own).madeOf h
  | array element => exact (FieldType.array element).madeOf h

end JarGraph.Descriptor
