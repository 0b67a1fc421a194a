import JarGraph.Ordered.Map
import JarGraph.Ordered.Set
import Mathlib.Data.List.Sort
/-!
# What ordered collections are told apart by

A strictly ascending list is determined by its members, whatever order
they came in. So an ordered set is determined by what it contains, and
an ordered map by the values that it gives, where elements that compare
equal are one. Where they are not, as spellings of one path are not, it
is so up to what compares equal (`sameElements_of_contains`), and for a
map up to a relation on its values (`forall₂_of_get?`).
-/

namespace JarGraph

variable {α κ β : Type} [Ord κ] [Std.TransOrd κ]

/-- Two lists that ascend strictly by a key and have the same members are the same list. -/
theorem eq_of_ascending (key : α → κ) {xs ys : List α}
    (hxs : xs.Pairwise fun a b => compare (key a) (key b) = .lt)
    (hys : ys.Pairwise fun a b => compare (key a) (key b) = .lt) (h : ∀ a, a ∈ xs ↔ a ∈ ys) :
    xs = ys := by
  have hirrefl : Std.Irrefl fun a b : α => compare (key a) (key b) = .lt := by
    refine ⟨fun a hlt => ?_⟩
    have hself : compare (key a) (key a) = .eq := Std.ReflCmp.compare_self
    rw [hself] at hlt
    cases hlt
  have hantisymm : Std.Antisymm fun a b : α => compare (key a) (key b) = .lt := by
    refine ⟨fun a b hlt hgt => ?_⟩
    have hswap : compare (key b) (key a) = (compare (key a) (key b)).swap :=
      Std.OrientedCmp.eq_swap
    rw [hlt, hgt] at hswap
    cases hswap
  exact hxs.eq_of_mem_iff hys h

namespace OrderedSet

omit [Std.TransOrd κ] in
/-- Two sets hold equal elements if their elements are equal one by one. -/
theorem sameElements_of_forall₂ {s t : OrderedSet κ}
    (h : List.Forall₂ (compare · · = .eq) s.toList t.toList) : s.sameElements t = true := by
  unfold sameElements
  generalize s.toList = xs, t.toList = ys at h
  induction h with
  | nil => rfl
  | cons hxy _ ih => simp [sameElements.go, hxy, ih]

/-- The least element of one ascending list is that of another one that covers the same. -/
theorem compare_head_eq {x y : κ} {xs ys : List κ}
    (hxs : (x :: xs).Pairwise (compare · · = .lt)) (hys : (y :: ys).Pairwise (compare · · = .lt))
    (hx : ∃ z ∈ y :: ys, compare x z = .eq) (hy : ∃ z ∈ x :: xs, compare y z = .eq) :
    compare x y = .eq := by
  obtain ⟨below, -⟩ := List.pairwise_cons.1 hxs
  obtain ⟨below', -⟩ := List.pairwise_cons.1 hys
  obtain ⟨u, hu, hxu⟩ := hx
  obtain ⟨v, hv, hyv⟩ := hy
  rcases List.mem_cons.1 hu with rfl | hu
  · exact hxu
  rcases List.mem_cons.1 hv with rfl | hv
  · exact Std.OrientedCmp.eq_symm hyv
  -- Each of the two would be below the other one.
  have hswap : compare y x = (compare x y).swap := Std.OrientedCmp.eq_swap
  rw [Std.TransCmp.congr_right hxu, below' u hu, Std.TransCmp.congr_right hyv, below v hv] at hswap
  cases hswap

/-- What equals an element above another one does not equal that one. -/
theorem compare_ne_of_above {x z : κ} {ys : List κ} (above : ∀ y ∈ ys, compare x y = .lt)
    (hz : ∃ y ∈ ys, compare z y = .eq) : compare z x ≠ .eq := by
  obtain ⟨y, hy, hzy⟩ := hz
  intro hzx
  have hlt := above y hy
  rw [← Std.TransCmp.congr_left hzx, hzy] at hlt
  cases hlt

/-- Two ascending lists with equal elements agree one by one. -/
theorem forall₂_of_covered {xs ys : List κ} (hxs : xs.Pairwise (compare · · = .lt))
    (hys : ys.Pairwise (compare · · = .lt))
    (h : ∀ z, (∃ x ∈ xs, compare z x = .eq) ↔ ∃ y ∈ ys, compare z y = .eq) :
    List.Forall₂ (compare · · = .eq) xs ys := by
  induction xs generalizing ys with
  | nil =>
    cases ys with
    | nil => exact .nil
    | cons y ys =>
      obtain ⟨x, hx, -⟩ := (h y).2 ⟨y, List.mem_cons_self, Std.ReflOrd.compare_self⟩
      cases hx
  | cons x xs ih =>
    cases ys with
    | nil =>
      obtain ⟨y, hy, -⟩ := (h x).1 ⟨x, List.mem_cons_self, Std.ReflOrd.compare_self⟩
      cases hy
    | cons y ys =>
      have hxy := compare_head_eq hxs hys
        ((h x).1 ⟨x, List.mem_cons_self, Std.ReflOrd.compare_self⟩)
        ((h y).2 ⟨y, List.mem_cons_self, Std.ReflOrd.compare_self⟩)
      obtain ⟨below, hxs⟩ := List.pairwise_cons.1 hxs
      obtain ⟨below', hys⟩ := List.pairwise_cons.1 hys
      refine .cons hxy (ih hxs hys fun z => ?_)
      have hfirst : compare z x = .eq ↔ compare z y = .eq := by
        rw [Std.TransCmp.congr_right hxy]
      have hz := h z
      simp only [List.mem_cons, exists_eq_or_imp, hfirst] at hz
      constructor
      · intro hx
        exact (hz.1 (.inr hx)).resolve_left fun heq => compare_ne_of_above below hx (hfirst.2 heq)
      · intro hy
        exact (hz.2 (.inr hy)).resolve_left (compare_ne_of_above below' hy)

/-- **Sets that contain the same hold equal elements**, however these are spelled. -/
theorem sameElements_of_contains {s t : OrderedSet κ}
    (h : ∀ x, s.contains x = true ↔ t.contains x = true) : s.sameElements t = true := by
  refine sameElements_of_forall₂ (forall₂_of_covered s.ascending t.ascending fun x => ?_)
  rw [← contains_iff, h, contains_iff]

/-- Sets hold equal elements exactly if they contain the same. -/
theorem sameElements_iff {s t : OrderedSet κ} :
    s.sameElements t = true ↔ ∀ x, s.contains x = t.contains x := by
  refine ⟨fun h x => ?_, fun h => sameElements_of_contains fun x => by rw [h]⟩
  unfold sameElements at h
  unfold contains
  generalize s.toList = xs, t.toList = ys at h
  induction xs generalizing ys with
  | nil =>
    cases ys with
    | nil => rfl
    | cons y ys => cases h
  | cons a xs ih =>
    cases ys with
    | nil => cases h
    | cons b ys =>
      rw [sameElements.go, Bool.and_eq_true, beq_iff_eq] at h
      rw [List.any_cons, List.any_cons, ih ys h.2, Std.TransCmp.congr_right h.1]

theorem sameElements_self (s : OrderedSet κ) : s.sameElements s = true :=
  sameElements_iff.2 fun _ => rfl

theorem sameElements_symm {s t : OrderedSet κ} (h : s.sameElements t = true) :
    t.sameElements s = true :=
  sameElements_iff.2 fun x => (sameElements_iff.1 h x).symm

theorem sameElements_trans {s t u : OrderedSet κ} (h : s.sameElements t = true)
    (h' : t.sameElements u = true) : s.sameElements u = true :=
  sameElements_iff.2 fun x => (sameElements_iff.1 h x).trans (sameElements_iff.1 h' x)

theorem isEmpty_iff {s : OrderedSet κ} : s.isEmpty = true ↔ ∀ x, s.contains x = false := by
  unfold isEmpty contains
  cases s.toList with
  | nil => simp
  | cons a xs =>
    simp only [List.isEmpty_cons, Bool.false_eq_true, false_iff, not_forall]
    exact ⟨a, by simp⟩

/-- A set with the elements of an empty one is empty. -/
theorem isEmpty_of_sameElements {s t : OrderedSet κ} (h : s.sameElements t = true)
    (ht : t.isEmpty = true) : s.isEmpty = true :=
  isEmpty_iff.2 fun x => (sameElements_iff.1 h x).trans (isEmpty_iff.1 ht x)

theorem sameElements_of_isEmpty {s t : OrderedSet κ} (hs : s.isEmpty = true)
    (ht : t.isEmpty = true) : s.sameElements t = true :=
  sameElements_iff.2 fun x => (isEmpty_iff.1 hs x).trans (isEmpty_iff.1 ht x).symm

end OrderedSet

variable [Std.LawfulEqOrd κ]

/-- Sets that contain the same are the same. -/
theorem OrderedSet.ext_contains {s t : OrderedSet κ}
    (h : ∀ x, s.contains x = true ↔ t.contains x = true) : s = t := by
  refine OrderedSet.ext (eq_of_ascending id s.ascending t.ascending fun x => ?_)
  rw [← contains_iff_mem, h, contains_iff_mem]

namespace OrderedMap

omit [Std.TransOrd κ] in
/-- Where equal keys are one, a map gives a key the value that stands beside it. -/
theorem get?_eq_some_iff {m : OrderedMap κ β} {k : κ} {v : β} :
    m.get? k = some v ↔ (k, v) ∈ m.toList := by
  obtain ⟨pairs, ascending⟩ := m
  unfold get?
  induction pairs with
  | nil => simp
  | cons p pairs ih =>
    obtain ⟨below, rest⟩ := List.pairwise_cons.1 ascending
    rw [List.find?_cons, List.mem_cons]
    split
    · rename_i hkey
      obtain rfl : k = p.1 := Std.LawfulEqOrd.eq_of_compare (beq_iff_eq.1 hkey)
      -- The key stands here, so it does not stand further back.
      have hback : (p.1, v) ∉ pairs := by
        intro hmem
        have hlt := below _ hmem
        have hself : compare p.1 p.1 = .eq := Std.ReflOrd.compare_self
        rw [hself] at hlt
        cases hlt
      rw [or_iff_left hback]
      constructor
      · intro h
        exact Prod.ext rfl (Option.some.inj h).symm
      · intro h
        rw [← h]
        rfl
    · rename_i hkey
      have hne : (k, v) ≠ p := by
        rintro rfl
        rw [Std.ReflOrd.compare_self, beq_self_eq_true] at hkey
        cases hkey
      rw [ih rest, or_iff_right hne]

/-- Maps that give every key the same value are the same. -/
theorem ext_get? {m n : OrderedMap κ β} (h : ∀ k, m.get? k = n.get? k) : m = n := by
  refine OrderedMap.ext (eq_of_ascending Prod.fst m.ascending n.ascending fun p => ?_)
  rw [← get?_eq_some_iff, h, get?_eq_some_iff]

omit [Ord κ] [Std.TransOrd κ] [Std.LawfulEqOrd κ] in
/-- Two lists with the same first parts stand in a relation if their second parts do, for each first
part. -/
theorem forall₂_of_map_fst {R : β → β → Prop} {xs ys : List (κ × β)}
    (hfst : xs.map Prod.fst = ys.map Prod.fst)
    (h : ∀ k v w, (k, v) ∈ xs → (k, w) ∈ ys → R v w) :
    List.Forall₂ (fun p q => p.1 = q.1 ∧ R p.2 q.2) xs ys := by
  induction xs generalizing ys with
  | nil =>
    obtain rfl := List.map_eq_nil_iff.1 hfst.symm
    exact .nil
  | cons x xs ih =>
    cases ys with
    | nil => cases hfst
    | cons y ys =>
      obtain ⟨hkey, hrest⟩ := List.cons.inj hfst
      refine .cons ⟨hkey, h x.1 x.2 y.2 List.mem_cons_self (hkey ▸ List.mem_cons_self)⟩ ?_
      exact ih hrest fun k v w hv hw =>
        h k v w (List.mem_cons_of_mem _ hv) (List.mem_cons_of_mem _ hw)

/-- **Maps whose values stand in a relation**, key by key, have the same keys. -/
theorem forall₂_of_get? {R : β → β → Prop} {m n : OrderedMap κ β}
    (h : ∀ k, Option.Rel R (m.get? k) (n.get? k)) :
    List.Forall₂ (fun p q => p.1 = q.1 ∧ R p.2 q.2) m.toList n.toList := by
  have keys (l : OrderedMap κ β) (k : κ) :
      k ∈ l.toList.map Prod.fst ↔ (l.get? k).isSome = true := by
    simp [Option.isSome_iff_exists, get?_eq_some_iff]
  refine forall₂_of_map_fst (eq_of_ascending id ?_ ?_ fun k => ?_) fun k v w hv hw => ?_
  · exact List.pairwise_map.2 m.ascending
  · exact List.pairwise_map.2 n.ascending
  · rw [keys, keys]
    have hk := h k
    revert hk
    generalize m.get? k = v, n.get? k = w
    rintro (_ | _) <;> simp
  · have hk := h k
    rw [get?_eq_some_iff.2 hv, get?_eq_some_iff.2 hw] at hk
    cases hk with
    | some hvw => exact hvw

end OrderedMap

end JarGraph
