import JarGraph.Descriptor.Grammar
import Mathlib.Data.List.Basic
/-!
# Reading descriptors

The scanner finds the classes that a descriptor of the grammar names, in
order and as often as they stand there (`classNames_chars`). `Brings`
says which names a row of characters brings, whatever comes after it: a
type always ends where the scanner looks for the next one, so no
character of a name is taken for a mark. A class constant that holds the
descriptor of an array stands for the class of its innermost elements
(`internalName_array`), by a reading of its own.
-/

namespace JarGraph.Descriptor

variable {cs cs' name rest : List Char} {names names' : List String} {c : Char}

/-- Where a type may start, some characters bring some names and lead to such a place again. -/
def Brings (cs : List Char) (names : List String) : Prop :=
  ∀ rest, scan none (cs ++ rest) = names ++ scan none rest

namespace Brings

theorem nil : Brings [] [] :=
  fun _ => rfl

theorem append (h : Brings cs names) (h' : Brings cs' names') :
    Brings (cs ++ cs') (names ++ names') := by
  intro rest
  rw [List.append_assoc, h, h', List.append_assoc]

/-- A marker brings nothing by itself. -/
theorem marker (hc : isMarker c = true) (h : Brings cs names) : Brings (c :: cs) names := by
  intro rest
  have hne : c ≠ 'L' := by
    rintro rfl
    cases hc
  rw [List.cons_append, scan, if_neg hne, if_pos hc]
  exact h rest

/-- A row of parts brings what each of them brings. -/
theorem flatMap {α : Type} {chars : α → List Char} {found : α → List String} {parts : List α}
    (h : ∀ a ∈ parts, Brings (chars a) (found a)) :
    Brings (parts.flatMap chars) (parts.flatMap found) := by
  induction parts with
  | nil => exact nil
  | cons a more ih =>
    obtain ⟨ha, hmore⟩ := List.forall_mem_cons.1 h
    exact ha.append (ih hmore)

end Brings

/-! ## The scanner on types -/

/-- Up to its semicolon a name is kept, last character first. -/
theorem scan_name (own : List Char) (h : ';' ∉ name) :
    scan (some own) (name ++ ';' :: rest) = emit (name.reverse ++ own) ++ scan none rest := by
  induction name generalizing own with
  | nil => rfl
  | cons c name ih =>
    obtain ⟨hc, hname⟩ := not_or.1 (mt List.mem_cons.2 h)
    rw [List.cons_append, scan, if_neg (Ne.symm hc), ih (c :: own) hname, List.reverse_cons,
      List.append_assoc, List.singleton_append]

theorem emit_name (name : ClassName) : emit name.chars.reverse = [name.toString] := by
  have hne : name.chars.reverse ≠ [] := mt List.reverse_eq_nil_iff.1 name.nonempty
  rw [emit, if_neg hne, List.reverse_reverse, ClassName.toString]

theorem isMarker_letter (type : Primitive) : isMarker type.letter = true := by
  cases type <;> rfl

/-- **A type brings its class**, if it has one. -/
theorem FieldType.brings (type : FieldType) : Brings type.chars type.className?.toList := by
  induction type with
  | primitive type => exact Brings.nil.marker (isMarker_letter type)
  | object name =>
    intro rest
    have hname : scan (some []) (name.chars ++ ';' :: rest) =
        emit (name.chars.reverse ++ []) ++ scan none rest := scan_name [] name.no_semicolon
    rw [List.append_nil, emit_name] at hname
    rw [chars, List.cons_append, List.cons_append, List.append_assoc, scan, if_pos rfl]
    exact hname
  | array element ih => exact ih.marker rfl

/-- The types of a row bring their classes, in order. -/
theorem brings_types (types : List FieldType) :
    Brings (types.flatMap FieldType.chars) (types.filterMap FieldType.className?) := by
  rw [List.filterMap_eq_flatMap_toList]
  exact .flatMap fun type _ => type.brings

theorem Tree.classNames_field (type : FieldType) :
    (field type).classNames = type.className?.toList := by
  rw [classNames, types, List.filterMap_eq_flatMap_toList, List.flatMap_singleton]

/-- **A descriptor brings its classes**, those of the parameters before that of the result. -/
theorem Tree.brings (tree : Tree) : Brings tree.chars tree.classNames := by
  cases tree with
  | field type =>
    rw [classNames_field]
    exact type.brings
  | method parameters result =>
    have hresult : Brings (result.elim ['V'] FieldType.chars)
        (result.toList.filterMap FieldType.className?) := by
      cases result with
      | none => exact Brings.nil.marker rfl
      | some type =>
        have htype := classNames_field type
        rw [classNames, types] at htype
        rw [Option.toList_some, htype]
        exact type.brings
    rw [classNames, types, List.filterMap_append]
    -- The parentheses and the mark of no result are markers: only the types bring anything.
    exact ((brings_types parameters).append (hresult.marker rfl)).marker rfl

theorem classNames_chars (tree : Tree) : classNames tree.text = tree.classNames := by
  have htree := tree.brings []
  rw [List.append_nil, scan, List.append_nil] at htree
  rw [classNames, Tree.text, String.toList_ofList, htree]

/-! ## Class constants -/

/-- The array marks of a type are dropped up to the marks of its innermost element. -/
theorem dropWhile_array (type : FieldType) :
    (∃ primitive, type.chars.dropWhile (· == '[') = [Primitive.letter primitive] ∧
      type.className? = none) ∨
    ∃ name : ClassName, type.chars.dropWhile (· == '[') = 'L' :: name.chars ++ [';'] ∧
      type.className? = some name.toString := by
  induction type with
  | primitive type => exact .inl ⟨type, by cases type <;> rfl, rfl⟩
  | object name => exact .inr ⟨name, rfl, rfl⟩
  | array element ih => exact ih

/-- **The descriptor of an array** stands for the class of its innermost elements, if these have
one. -/
theorem internalName_array (element : FieldType) :
    internalName (Tree.field (.array element)).text = element.className? := by
  have hhead : ('[' :: element.chars).head? = some '[' := rfl
  have hdrop : ('[' :: element.chars).dropWhile (· == '[') =
      element.chars.dropWhile (· == '[') := rfl
  rw [internalName, Tree.text, Tree.chars, FieldType.chars, String.toList_ofList]
  simp only [if_pos hhead, hdrop]
  obtain ⟨primitive, hchars, hclass⟩ | ⟨name, hchars, hclass⟩ := dropWhile_array element
  · rw [hchars, hclass]
    cases primitive <;> rfl
  · have hend : Text.dropEnd? [';'] (name.chars ++ [';']) = some name.chars :=
      Text.dropEnd?_eq_some.2 rfl
    rw [hchars, hclass]
    simp only [List.cons_append, hend, Option.getD_some, nonEmpty?, if_neg name.nonempty,
      ClassName.toString]

/-- A name by itself is not unwrapped. -/
theorem internalName_plain (name : ClassName) (h : name.chars.head? ≠ some '[') :
    internalName name.toString = some name.toString := by
  have hwhole : nonEmpty? name.chars = some name.toString := if_neg name.nonempty
  rw [internalName, ClassName.toString, String.toList_ofList]
  simp only [if_neg h]
  split
  · rename_i rest hchars
    have hnone : Text.dropEnd? [';'] rest = none := by
      refine Option.eq_none_iff_forall_ne_some.2 fun front hfront => name.no_semicolon ?_
      rw [hchars, Text.dropEnd?_eq_some.1 hfront]
      simp
    rw [hnone]
    exact hwhole
  · exact hwhole

theorem internalName_wrapped (name : ClassName) :
    internalName (ClassConstant.wrapped name).text = some name.toString := by
  have hend : Text.dropEnd? [';'] (name.chars ++ [';']) = some name.chars :=
    Text.dropEnd?_eq_some.2 rfl
  rw [internalName, ClassConstant.text, ClassConstant.chars, FieldType.chars, String.toList_ofList]
  simp only [List.cons_append, hend]
  exact if_neg name.nonempty

/-- **A class constant** is read as the class that it stands for, however it is written. -/
theorem internalName_constant (constant : ClassConstant) :
    internalName constant.text = constant.className? := by
  cases constant with
  | plain name h => exact internalName_plain name h
  | wrapped name => exact internalName_wrapped name
  | array element => exact internalName_array element

/-- **The two readings agree.** A descriptor is read as the classes of its types, in order and with
repetitions. The descriptor of an array is read as the class of its innermost elements, alone or as
a class constant, and as none if these are primitive. -/
theorem names_of_descriptor :
    (∀ tree : Tree, classNames tree.text = tree.classNames) ∧
      ∀ element : FieldType,
        internalName (Tree.field (.array element)).text = element.className? ∧
          classNames (Tree.field (.array element)).text = element.className?.toList := by
  refine ⟨classNames_chars, fun element => ⟨internalName_array element, ?_⟩⟩
  rw [classNames_chars, Tree.classNames_field, FieldType.className?]

/-- Names may look like markers: `(LL(I;[LV;)LI;` names `L(I`, `V` and `I`. -/
example : classNames "(LL(I;[LV;)LI;" = ["L(I", "V", "I"] := by
  decide

end JarGraph.Descriptor
