import JarGraph.ByPosition
import JarGraph.Proofs.Artifact.Group
import JarGraph.Proofs.Descriptor.Reading
import JarGraph.Proofs.Signature.Cursor
/-!
# Names by positions

The programs that take names out of a text by positions answer as the readers
of characters do, for any text: no position is past the end or inside a
character, and no loop runs out of rounds. Every position is that of a
mark of ASCII, which is one byte of its own, or one that comes from a start
that two texts share, which is a start of either.
-/

namespace JarGraph

open Text

/-! ## Descriptors -/

namespace Descriptor

variable {rest before after name : List Char}

theorem scan_of_not_mem (h : 'L' ∉ rest) : scan none rest = [] := by
  induction rest with
  | nil => rfl
  | cons c rest ih =>
    obtain ⟨hc, hrest⟩ := not_or.1 (mt List.mem_cons.2 h)
    rw [scan, if_neg (Ne.symm hc), ih hrest, ite_self]

/-- Up to the letter of a class type, the scan passes over markers. -/
theorem scan_letter (h : 'L' ∉ before) :
    scan none (before ++ 'L' :: after) =
      if before.all isMarker then scan (some []) after else [] := by
  induction before with
  | nil => rfl
  | cons c before ih =>
    obtain ⟨hc, hbefore⟩ := not_or.1 (mt List.mem_cons.2 h)
    rw [List.cons_append, scan, if_neg (Ne.symm hc), List.all_cons, ih hbefore]
    cases isMarker c <;> rfl

/-- A name that nothing ends runs to the end of the text. -/
theorem scan_name_of_not_mem (own : List Char) (h : ';' ∉ name) :
    scan (some own) name = emit (name.reverse ++ own) := by
  induction name generalizing own with
  | nil => rfl
  | cons c name ih =>
    obtain ⟨hc, hname⟩ := not_or.1 (mt List.mem_cons.2 h)
    rw [scan, if_neg (Ne.symm hc), ih (c :: own) hname, List.reverse_cons, List.append_assoc]
    rfl

theorem emit_reverse (name : List Char) :
    emit name.reverse = if name.isEmpty then [] else [String.ofList name] := by
  cases name with
  | nil => rfl
  | cons c name => simp [emit]

theorem addClassNames_eq {rounds : Nat} (hrounds : rest.length < rounds) (names : List String) :
    addClassNames rounds rest names = .ok (names ++ scan none rest) := by
  induction rounds generalizing rest names with
  | zero => exact absurd hrounds (Nat.not_lt_zero _)
  | succ rounds ih =>
    rw [addClassNames]
    cases hletter : find? 'L' rest with
    | none =>
      rw [scan_of_not_mem (find?_eq_none.1 hletter), List.append_nil]
    | some position =>
      obtain ⟨before, after, rfl, hbefore, rfl⟩ := find?_eq_some.1 hletter
      have hmarkers : (encoded before).all (isOneOf markers) = before.all isMarker := by
        rw [all_encoded (by decide)]
        exact congrArg before.all (funext fun c => (List.contains_eq_mem c markers).symm)
      rw [List.length_append, List.length_cons] at hrounds
      rw [scan_letter hbefore]
      dsimp only
      rw [sliceTo_size, sliceFrom_mark (by decide), checked_ok_bind, hmarkers]
      cases before.all isMarker with
      | false => rw [if_neg Bool.false_ne_true, List.append_nil]; rfl
      | true =>
        rw [if_pos rfl, Bool.not_true, if_neg Bool.false_ne_true, checked_ok_bind]
        cases hend : find? ';' after with
        | none =>
          rw [scan_name_of_not_mem [] (find?_eq_none.1 hend), List.append_nil, emit_reverse]
          cases after <;> simp [Pure.pure, Except.pure]
        | some stop =>
          obtain ⟨name, more, rfl, hname, rfl⟩ := find?_eq_some.1 hend
          rw [List.length_append, List.length_cons] at hrounds
          dsimp only
          rw [sliceTo_size, sliceFrom_mark (by decide), checked_ok_bind, checked_ok_bind,
            ih (by omega), scan_name [] hname, List.append_nil, emit_reverse]
          cases name with
          | nil => rfl
          | cons c name =>
            have hpos : 0 < size (c :: name) :=
              Nat.pos_of_ne_zero (mt size_eq_zero.1 (List.cons_ne_nil c name))
            rw [if_pos hpos]
            simp

/-- **Descriptors by positions** have the class names that the scan of their characters finds. -/
theorem classNamesByPosition_eq (descriptor : String) :
    classNamesByPosition descriptor = .ok (classNames descriptor) := by
  have hrounds := Nat.lt_succ_of_le (length_le_size descriptor.toList)
  rw [classNamesByPosition, addClassNames_eq hrounds, List.nil_append, classNames]

end Descriptor

namespace Artifact

open Identification

variable {stem before rest current candidate : List Char}

/-! ## File names -/

theorem cutVersion_cons (c : Char) (rest : List Char) :
    cutVersion (c :: rest) =
      if c = '-' ∧ rest.head?.any Char.isDigit then some ([], rest)
      else (cutVersion rest).map fun halves => (c :: halves.1, halves.2) := by
  by_cases hc : c = '-'
  · subst hc
    cases rest with
    | nil => rfl
    | cons d rest =>
      rw [cutVersion]
      cases hd : d.isDigit <;> simp [hd]
  · rw [if_neg fun h => hc h.1]
    cases rest <;> simp [cutVersion, hc]

theorem cutVersion_eq_some {name version : List Char} (h : cutVersion stem = some (name, version)) :
    stem = name ++ '-' :: version := by
  induction stem generalizing name with
  | nil => cases h
  | cons c rest ih =>
    rw [cutVersion_cons] at h
    split at h
    · rename_i hdash
      obtain ⟨rfl, rfl⟩ := Prod.mk.inj (Option.some.inj h)
      rw [hdash.1]
      rfl
    · obtain ⟨⟨front, back⟩, hcut, heq⟩ := Option.map_eq_some_iff.1 h
      obtain ⟨rfl, rfl⟩ := Prod.mk.inj heq
      exact congrArg (c :: ·) (ih hcut)

/-- The first dash before a digit, at its position. -/
theorem dashBeforeDigit_eq (before rest : List Char) :
    dashBeforeDigit (before ++ rest) (size before) rest =
      .ok ((cutVersion rest).map fun halves => size before + size halves.1) := by
  induction rest generalizing before with
  | nil => rfl
  | cons c rest ih =>
    have hmore := ih (before ++ [c])
    rw [List.append_assoc, List.singleton_append, size_append] at hmore
    have hsize : size before + size [c] = size before + c.utf8Size := rfl
    -- What the rounds to come find is the same with or without this character in front.
    have hrest : dashBeforeDigit (before ++ c :: rest) (size before + c.utf8Size) rest =
        .ok (((cutVersion rest).map fun halves => (c :: halves.1, halves.2)).map
          fun halves => size before + size halves.1) := by
      rw [← hsize, hmore, Option.map_map]
      simp only [Function.comp_def, size, Nat.add_assoc, Nat.add_zero]
    rw [dashBeforeDigit, cutVersion_cons]
    by_cases hc : c = '-'
    · subst hc
      rw [if_pos rfl, sliceFrom_mark (by decide), checked_ok_bind]
      cases hdigit : rest.head?.any Char.isDigit with
      | true => rfl
      | false =>
        rw [if_neg Bool.false_ne_true, hrest, if_neg fun h => Bool.false_ne_true h.2]
    · rw [if_neg hc, if_neg fun h => hc h.1, hrest]

theorem splitFileNameByPosition_eq (file : Path) :
    splitFileNameByPosition file = .ok (splitFileName file) := by
  unfold splitFileNameByPosition splitFileName
  cases file.stem with
  | none => rfl
  | some stem =>
    have hdash := dashBeforeDigit_eq [] stem.toList
    have hnil : size [] = 0 := rfl
    rw [List.nil_append, hnil] at hdash
    dsimp only
    rw [hdash]
    cases hcut : cutVersion stem.toList with
    | none => rfl
    | some halves =>
      obtain ⟨name, version⟩ := halves
      rw [Option.map_some, Nat.zero_add]
      show splitAtDash stem (some (size name)) = _
      rw [splitAtDash, cutVersion_eq_some hcut, sliceTo_size, sliceFrom_mark (by decide),
        checked_ok_bind, checked_ok_bind]
      rfl

/-! ## Common packages -/

theorem firstDifference_getD (position : Nat) (a b : List Char) :
    (firstDifference position a b).getD (position + min (size a) (size b)) =
      position + size (sharedStart a b) := by
  induction a generalizing position b with
  | nil => simp [firstDifference, sharedStart, size]
  | cons c a ih =>
    cases b with
    | nil => simp [firstDifference, sharedStart, size]
    | cons d b =>
      rw [firstDifference, sharedStart]
      by_cases hcd : c = d
      · subst hcd
        rw [if_pos rfl, if_pos rfl, size, size, size, Nat.add_min_add_left, ← Nat.add_assoc, ih,
          Nat.add_assoc]
      · rw [if_neg hcd, if_neg hcd]
        rfl

/-- Two texts have the bytes of the start that they share in common. -/
theorem sharedSize_eq (a b : List Char) : sharedSize a b = size (sharedStart a b) := by
  have h := firstDifference_getD 0 a b
  rwa [Nat.zero_add, Nat.zero_add] at h

theorem narrowByPosition_eq (current candidate : List Char) :
    narrowByPosition current candidate = .ok (narrow current candidate) := by
  have hshared := (isPrefix_sharedStart.1 (List.prefix_refl (sharedStart current candidate))).1
  unfold narrowByPosition narrow
  dsimp only
  rw [sharedSize_eq]
  generalize sharedStart current candidate = shared at hshared
  obtain ⟨rest, rfl⟩ := hshared
  rw [List.drop_left, size_append]
  obtain _ | ⟨c, rest⟩ := rest
  · rw [List.append_nil]
    exact if_pos (Nat.le_refl _)
  have hpos := c.utf8Size_pos
  rw [if_neg (by rw [size]; omega)]
  obtain ⟨b, hb, hbyte⟩ := byteAt_size shared c rest
  rw [hbyte, checked_ok_bind, isOneOf_of_mem (by decide) hb]
  by_cases hdot : c = '.'
  · subst hdot
    rw [if_pos (by decide)]
    show cutAtDot (shared ++ '.' :: rest) (some (size shared)) = _
    rw [cutAtDot, sliceTo_size]
    rfl
  rw [if_neg (by simpa using hdot), lastDot, sliceTo_size, checked_ok_bind]
  show cutAtDot (shared ++ c :: rest) (findLast? '.' shared) = _
  split
  · rename_i hnil
    cases hnil
  · rename_i hcons
    exact absurd (List.cons.inj hcons).1 hdot
  rw [findLast?]
  cases hlast : cutLast '.' shared with
  | none => rfl
  | some halves =>
    obtain ⟨before, after⟩ := halves
    rw [(cutLast_eq_some.1 hlast).1, Option.map_some, cutAtDot, List.append_assoc, sliceTo_size]
    rfl

/-- Narrowing by one package after the other. -/
theorem narrowAllByPosition_eq (initial fallback : Option String) (current : List Char)
    (packages : List (List Char)) :
    narrowAllByPosition initial fallback current packages =
      .ok (match narrowAll (fallback.map String.toList) current packages with
        | some text => some (String.ofList text)
        | none => initial) := by
  induction packages generalizing current with
  | nil =>
    rw [narrowAllByPosition, narrowAll]
    cases current.isEmpty <;> rfl
  | cons candidate packages ih =>
    rw [narrowAllByPosition, narrowAll]
    cases current.isEmpty with
    | true => rfl
    | false =>
      rw [if_neg Bool.false_ne_true, if_neg Bool.false_ne_true, narrowByPosition_eq]
      cases narrow current candidate with
      | some next => exact ih next
      | none => cases fallback <;> simp <;> rfl

theorem commonPackagePrefixByPosition_eq (initial : Option String) (packages : List String) :
    commonPackagePrefixByPosition initial packages =
      .ok (commonPackagePrefix initial packages) := by
  unfold commonPackagePrefixByPosition commonPackagePrefix
  dsimp only
  cases initial.filter fun p => !isIgnoredPackage p with
  | some start => exact narrowAllByPosition_eq initial (some start) start.toList _
  | none =>
    cases (packages.filter fun p => !isIgnoredPackage p).map String.toList with
    | nil => rfl
    | cons first more => exact narrowAllByPosition_eq initial none first more

end Artifact

/-- **No wrong position.** For any text, and for any initial package and packages, the programs
over positions come to an end, and never ask for a byte past the end of a text or for a cut inside a
character: signatures are refused only where they are no signatures, and all answer as the readers
of characters do. -/
theorem positions_never_fault :
    (∀ signature : String, Signature.classNamesByPosition signature =
      (Signature.classNames signature).mapError .refused) ∧
    (∀ descriptor : String, Descriptor.classNamesByPosition descriptor =
      .ok (Descriptor.classNames descriptor)) ∧
    (∀ file : Path, Artifact.splitFileNameByPosition file =
      .ok (Artifact.Identification.splitFileName file)) ∧
    ∀ (initial : Option String) (packages : List String),
      Artifact.commonPackagePrefixByPosition initial packages =
        .ok (Artifact.commonPackagePrefix initial packages) :=
  ⟨Signature.classNamesByPosition_eq, Descriptor.classNamesByPosition_eq,
    Artifact.splitFileNameByPosition_eq, Artifact.commonPackagePrefixByPosition_eq⟩

end JarGraph
