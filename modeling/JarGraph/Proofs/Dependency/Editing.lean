import JarGraph.Dependency.Edit
import JarGraph.Path.Basic
import JarGraph.Proofs.Ordered
import Mathlib.Data.Set.Card
/-!
# What edited dependency sets denote

However a dependency set came about, it denotes a set of pairs, and what is
asked of it agrees with that set (`Denotes`): what it contains and how much
that is, the order in which it lists its pairs, and its edges. What a set
contains settles all of it (`denotes_of_contains`). One edit does to the set
what it does to the pairs (`contains_apply`), so the induction over the edits
is on what is contained, and two ways to the same pairs end in the same set
(`applyAll_denotes`). Keys that compare equal are the same key throughout, so
the pairs are counted up to that.
-/

namespace JarGraph

variable {κ : Type} [Ord κ]

namespace OrderedSet

variable {α : Type} [Ord α] [Std.TransOrd α] {s : OrderedSet α} {x y : α}

/-- After a removal, an element is there if it was there before and is not the one removed. -/
theorem contains_erase :
    (s.erase x).contains y = true ↔ compare y x ≠ .eq ∧ s.contains y = true := by
  rw [contains_iff, contains_iff, toList_erase]
  constructor
  · rintro ⟨z, hz, hyz⟩
    obtain ⟨hz, hxz⟩ := List.mem_filter.1 hz
    refine ⟨fun hyx => ?_, z, hz, hyz⟩
    rw [Std.TransCmp.congr_left (Std.OrientedCmp.eq_symm hyx), hyz] at hxz
    cases hxz
  · rintro ⟨hyx, z, hz, hyz⟩
    refine ⟨z, List.mem_filter.2 ⟨hz, bne_iff_ne.2 fun hxz => hyx ?_⟩, hyz⟩
    exact Std.TransCmp.eq_trans hyz (Std.OrientedCmp.eq_symm hxz)

/-- A set that is made of a list contains what is in the list. -/
theorem contains_ofList {xs : List α} :
    (ofList xs).contains x = true ↔ ∃ y ∈ xs, compare x y = .eq := by
  unfold ofList
  induction xs with
  | nil => simp
  | cons y ys ih =>
    rw [List.foldr_cons, contains_insert, Bool.or_eq_true, beq_iff_eq, ih]
    simp only [List.mem_cons, exists_eq_or_imp]

end OrderedSet

namespace Dependency

/-- A pair comes before another one: its source does, or the sources are the same and it is the
marker, or its target comes first as well. -/
def Precedes (d e : Dependency κ) : Prop :=
  compare d.source e.source = .lt ∨
    compare d.source e.source = .eq ∧
      match d.target, e.target with
      | none, some _ => True
      | some target, some target' => compare target target' = .lt
      | _, none => False

/-- Pairs are ordered by their sources, the marker, and their targets. -/
theorem compare_eq_lt_iff {d e : Dependency κ} : compare d e = .lt ↔ d.Precedes e := by
  obtain ⟨source, target⟩ := d
  obtain ⟨source', target'⟩ := e
  have hthen : compare (Dependency.mk source target) ⟨source', target'⟩ =
      (compare source source').then (compare target target') := rfl
  rw [hthen, Ordering.then_eq_lt]
  refine or_congr_right (and_congr_right fun _ => ?_)
  cases target <;> cases target' <;> simp [compare]

variable [Std.TransOrd κ]

/-- Pairs whose ends compare equal are the same pair. -/
def sameSetoid : Setoid (Dependency κ) where
  r d e := compare d e = .eq
  iseqv :=
    ⟨fun _ => Std.ReflOrd.compare_self, Std.OrientedCmp.eq_symm, Std.TransCmp.eq_trans⟩

/-- The pairs with a property, each of them once however it is written. -/
def distinct (pairs : Dependency κ → Prop) : Set (Quotient (sameSetoid (κ := κ))) :=
  (fun d => Quotient.mk _ d) '' {d | pairs d}

end Dependency

namespace DependencySet

variable [Std.TransOrd κ] {s t : DependencySet κ} {pairs : Dependency κ → Prop}

/-- Two edges with the same target and, however it is written, the same source. -/
def SameEdge (edge edge' : κ × κ) : Prop :=
  compare edge.1 edge'.1 = .eq ∧ edge.2 = edge'.2

/-- The sources of a set, each of them once. -/
def sources (s : DependencySet κ) : OrderedSet κ :=
  .ofList (s.toList.map (·.source))

theorem contains_sources {source : κ} :
    (sources s).contains source = true ↔ ∃ d ∈ s.toList, compare source d.source = .eq := by
  simp only [sources, OrderedSet.contains_ofList, List.mem_map, exists_exists_and_eq_and]

/-- What is asked of a set of dependencies agrees with a set of pairs. -/
structure Denotes (s : DependencySet κ) (pairs : Dependency κ → Prop) : Prop where
  contains_iff : ∀ d, s.contains d = true ↔ pairs d
  size_eq : s.size = (Dependency.distinct pairs).ncard
  isEmpty_iff : s.isEmpty = true ↔ ∀ d, ¬ pairs d
  /-- The pairs are listed by their sources, the marker, and their targets. -/
  ascending : s.toList.Pairwise Dependency.Precedes
  /-- The edges are what is listed, less the markers. -/
  edges_eq : (edges s).map (fun edge => .edge edge.1 edge.2) = s.toList.filter (·.target.isSome)
  sources_iff : ∀ source, (sources s).contains source = true ↔
    ∃ d, pairs d ∧ compare source d.source = .eq
  /-- The edges are the targets of one source after those of another one. -/
  edges_forall₂ : List.Forall₂ SameEdge (edges s)
    ((sources s).toList.flatMap fun source => (targetsOf s source).map (source, ·))

/-- No pair is listed twice, so that there are as many as are listed. -/
theorem size_eq_ncard (s : DependencySet κ) :
    s.size = (Dependency.distinct fun d => s.contains d = true).ncard := by
  classical
  have hnodup : (s.toList.map fun d => Quotient.mk Dependency.sameSetoid d).Nodup := by
    refine List.pairwise_map.2 (s.ascending.imp fun {d e} hlt heq => ?_)
    have hcompare : compare d e = .eq := Quotient.exact heq
    rw [hlt] at hcompare
    cases hcompare
  have hlisted : Dependency.distinct (fun d => s.contains d = true) =
      ((s.toList.map fun d => Quotient.mk Dependency.sameSetoid d).toFinset : Set _) := by
    ext c
    simp only [Dependency.distinct, Set.mem_image, Set.mem_ofPred_eq, OrderedSet.contains_iff,
      List.coe_toFinset, List.mem_map]
    constructor
    · rintro ⟨d, ⟨e, he, hde⟩, rfl⟩
      exact ⟨e, he, Quotient.sound (Std.OrientedCmp.eq_symm hde)⟩
    · rintro ⟨e, he, rfl⟩
      exact ⟨e, ⟨e, he, Std.ReflOrd.compare_self⟩, rfl⟩
  rw [hlisted, Set.ncard_coe_finset, List.toFinset_card_of_nodup hnodup, List.length_map]
  rfl

omit [Std.TransOrd κ] in
theorem map_edges (s : DependencySet κ) :
    (edges s).map (fun edge => .edge edge.1 edge.2) = s.toList.filter (·.target.isSome) := by
  unfold edges
  induction s.toList with
  | nil => rfl
  | cons d ds ih =>
    obtain ⟨source, target⟩ := d
    cases target with
    | none => simpa using ih
    | some target => simpa [Dependency.edge] using ih

/-- The pairs of a set, one source after another. -/
theorem toList_eq_flatMap (s : DependencySet κ) :
    s.toList = (sources s).toList.flatMap fun source =>
      s.toList.filter fun d => compare d.source source == .eq := by
  refine eq_of_ascending id s.ascending ?_ fun d => ?_
  · refine List.pairwise_flatMap.2 ⟨fun source _ => s.ascending.filter _, ?_⟩
    refine (sources s).ascending.imp fun {source source'} hlt d hd e he => ?_
    -- The sources of the two pairs compare as the sources that they are listed under.
    have hd := beq_iff_eq.1 (List.mem_filter.1 hd).2
    have he := beq_iff_eq.1 (List.mem_filter.1 he).2
    have hsource : compare d.source e.source = .lt := by
      rw [Std.TransCmp.congr_left hd, Std.TransCmp.congr_right he, hlt]
    exact Dependency.compare_eq_lt_iff.2 (.inl hsource)
  · rw [List.mem_flatMap]
    constructor
    · intro hd
      have hsource : (sources s).contains d.source = true :=
        contains_sources.2 ⟨d, hd, Std.ReflOrd.compare_self⟩
      obtain ⟨source, hmem, hsame⟩ := OrderedSet.contains_iff.1 hsource
      exact ⟨source, hmem, List.mem_filter.2 ⟨hd, beq_iff_eq.2 hsame⟩⟩
    · rintro ⟨source, -, hd⟩
      exact (List.mem_filter.1 hd).1

omit [Std.TransOrd κ] in
/-- The edges of one source are its targets. -/
theorem forall₂_targetsOf (s : DependencySet κ) (source : κ) :
    List.Forall₂ SameEdge
      ((s.toList.filter fun d => compare d.source source == .eq).filterMap fun d =>
        d.target.map fun target => (d.source, target))
      ((targetsOf s source).map (source, ·)) := by
  unfold targetsOf
  induction s.toList with
  | nil => exact .nil
  | cons d ds ih =>
    obtain ⟨source', target⟩ := d
    by_cases hsame : compare source' source = .eq
    · cases target with
      | none => simpa [hsame] using ih
      | some target => simpa [hsame, SameEdge] using ih
    · simpa [hsame] using ih

/-- **The edges are the targets of the sources**, one source after another. -/
theorem edges_forall₂_targetsOf (s : DependencySet κ) :
    List.Forall₂ SameEdge (edges s)
      ((sources s).toList.flatMap fun source => (targetsOf s source).map (source, ·)) := by
  have hedges : edges s = (sources s).toList.flatMap fun source =>
      (s.toList.filter fun d => compare d.source source == .eq).filterMap fun d =>
        d.target.map fun target => (d.source, target) := by
    conv_lhs => rw [edges, toList_eq_flatMap s, List.filterMap_flatMap]
  rw [hedges]
  induction (sources s).toList with
  | nil => exact .nil
  | cons source rest ih => exact List.rel_append (forall₂_targetsOf s source) ih

/-- **What a set contains settles what is asked of it.** -/
theorem denotes_of_contains (h : ∀ d, s.contains d = true ↔ pairs d) : s.Denotes pairs where
  contains_iff := h
  size_eq := by
    obtain rfl : (fun d => s.contains d = true) = pairs := funext fun d => propext (h d)
    exact size_eq_ncard s
  isEmpty_iff := by
    rw [OrderedSet.isEmpty_iff]
    refine forall_congr' fun d => ?_
    rw [← h, Bool.not_eq_true]
  ascending := s.ascending.imp Dependency.compare_eq_lt_iff.1
  edges_eq := map_edges s
  sources_iff source := by
    rw [contains_sources]
    constructor
    · rintro ⟨d, hd, hsource⟩
      exact ⟨d, (h d).1 (OrderedSet.contains_iff.2 ⟨d, hd, Std.ReflOrd.compare_self⟩), hsource⟩
    · rintro ⟨d, hd, hsource⟩
      obtain ⟨e, he, hde⟩ := OrderedSet.contains_iff.1 ((h d).2 hd)
      exact ⟨e, he, Std.TransCmp.eq_trans hsource (Dependency.compare_eq_iff.1 hde).1⟩
  edges_forall₂ := edges_forall₂_targetsOf s

namespace Edit

variable {before : Dependency κ → Prop}

/-- One edit does to what a set contains what it does to the pairs. -/
theorem contains_apply (edit : Edit κ) (h : ∀ d, s.contains d = true ↔ before d)
    (d : Dependency κ) : (edit.apply s).1.contains d = true ↔ edit.Leaves before d := by
  cases edit with
  | add e => rw [apply, OrderedSet.contains_insert, Bool.or_eq_true, beq_iff_eq, h, Leaves]
  | remove e => rw [apply, OrderedSet.contains_erase, h, Leaves]
  | clear => simp [apply, Leaves]

/-- Some edits do so one after another. -/
theorem contains_applyAll (edits : List (Edit κ)) (d : Dependency κ) :
    (applyAll edits).contains d = true ↔ LeftBy edits d := by
  induction edits using List.reverseRecOn generalizing d with
  | nil => simp [applyAll, LeftBy]
  | append_singleton edits edit ih =>
    rw [applyAll, LeftBy, List.foldl_concat, List.foldl_concat]
    exact contains_apply edit ih d

/-- An edit tells whether it changes the pairs. -/
theorem changed_iff (edit : Edit κ) (h : ∀ d, s.contains d = true ↔ before d) :
    (edit.apply s).2 = true ↔ ∃ d, ¬ (edit.Leaves before d ↔ before d) := by
  cases edit with
  | add e =>
    rw [apply, Bool.not_eq_true', ← Bool.not_eq_true, h]
    constructor
    · exact fun hnew => ⟨e, fun hsame => hnew (hsame.1 (.inl Std.ReflOrd.compare_self))⟩
    · rintro ⟨d, hd⟩ he
      refine hd (or_iff_right_of_imp fun hde => ?_)
      rwa [← h, OrderedSet.contains_congr s hde, h]
  | remove e =>
    rw [apply, h]
    constructor
    · exact fun hold => ⟨e, fun hsame => (hsame.2 hold).1 Std.ReflOrd.compare_self⟩
    · rintro ⟨d, hd⟩
      by_contra he
      refine hd (and_iff_right_of_imp fun hbefore hde => he ?_)
      rwa [← h, ← OrderedSet.contains_congr s hde, h]
  | clear =>
    rw [apply, Bool.not_eq_true', ← Bool.not_eq_true, OrderedSet.isEmpty_iff, not_forall]
    refine exists_congr fun d => ?_
    rw [Bool.not_eq_false, h]
    simp [Leaves]

/-- **An edited set is the set of the pairs that its edits leave.** What is asked of it agrees with
these pairs, the answer of a further edit tells whether it changes them, and other edits that leave
the same pairs end in an equal set that lists equal pairs. -/
theorem applyAll_denotes (edits : List (Edit κ)) :
    (applyAll edits).Denotes (LeftBy edits) ∧
      (∀ edit, (edit.apply (applyAll edits)).2 = true ↔
        ∃ d, ¬ (LeftBy (edits ++ [edit]) d ↔ LeftBy edits d)) ∧
      ∀ others, (∀ d, LeftBy edits d ↔ LeftBy others d) →
        (applyAll edits).sameElements (applyAll others) = true ∧
        List.Forall₂ (compare · · = .eq) (applyAll edits).toList (applyAll others).toList ∧
        ((∀ k k' : κ, compare k k' = .eq → k = k') → applyAll edits = applyAll others) := by
  refine ⟨denotes_of_contains (contains_applyAll edits), fun edit => ?_, fun others h => ?_⟩
  · rw [changed_iff edit (contains_applyAll edits)]
    simp only [LeftBy, List.foldl_concat]
  · have hcontains (d : Dependency κ) :
        (applyAll edits).contains d = true ↔ (applyAll others).contains d = true := by
      rw [contains_applyAll, h, contains_applyAll]
    refine ⟨OrderedSet.sameElements_of_contains hcontains, ?_, fun heq => ?_⟩
    · refine OrderedSet.forall₂_of_covered (applyAll edits).ascending (applyAll others).ascending ?_
      intro d
      rw [← OrderedSet.contains_iff, hcontains, OrderedSet.contains_iff]
    · have : Std.LawfulEqOrd κ := { eq_of_compare := heq _ _ }
      exact OrderedSet.ext_contains hcontains

/-- An edge and the marker of its source, added in one spelling of their paths. -/
def edgeThenMarker : List (Edit Path) :=
  [.add (.edge ⟨"a/b"⟩ ⟨"c"⟩), .add (.observed ⟨"a/b"⟩)]

/-- The same in another spelling and the other order, with a pair between that is taken out. -/
def markerThenEdge : List (Edit Path) :=
  [.add (.observed ⟨"a//b"⟩), .add (.edge ⟨"a"⟩ ⟨"c"⟩), .remove (.edge ⟨"a/"⟩ ⟨"c"⟩),
    .add (.edge ⟨"a/./b"⟩ ⟨"c/"⟩)]

/-- The two lists of edits leave the same pairs. -/
theorem leftBy_edgeThenMarker (d : Dependency Path) :
    LeftBy edgeThenMarker d ↔ LeftBy markerThenEdge d := by
  have hmarker : compare (Dependency.observed (Path.mk "a//b")) (.observed ⟨"a/b"⟩) = .eq := by
    decide +kernel
  have hedge : compare (Dependency.edge (Path.mk "a/./b") ⟨"c/"⟩) (.edge ⟨"a/b"⟩ ⟨"c"⟩) = .eq := by
    decide +kernel
  have hout : compare (Dependency.edge (Path.mk "a/") ⟨"c"⟩) (.edge ⟨"a"⟩ ⟨"c"⟩) = .eq := by
    decide +kernel
  have hapart : compare d (.observed ⟨"a/b"⟩) = .eq → compare d (.edge ⟨"a"⟩ ⟨"c"⟩) ≠ .eq := by
    intro hd
    rw [Std.TransCmp.congr_left hd]
    decide +kernel
  simp only [LeftBy, edgeThenMarker, markerThenEdge, List.foldl_cons, List.foldl_nil, Leaves,
    Std.TransCmp.congr_right hmarker, Std.TransCmp.congr_right hedge,
    Std.TransCmp.congr_right hout, or_false]
  constructor
  · rintro (hd | hd)
    · exact .inr ⟨hapart hd, .inr hd⟩
    · exact .inl hd
  · rintro (hd | ⟨hnot, hd | hd⟩)
    · exact .inr hd
    · exact absurd hd hnot
    · exact .inl hd

/-- The two end in equal sets of two pairs, the marker first, and the marker is not new to them. -/
theorem applyAll_denotes_spellings :
    (applyAll edgeThenMarker).Denotes (LeftBy edgeThenMarker) ∧
      (applyAll edgeThenMarker).toList = [.observed ⟨"a/b"⟩, .edge ⟨"a/b"⟩ ⟨"c"⟩] ∧
      (applyAll edgeThenMarker).sameElements (applyAll markerThenEdge) = true ∧
      (apply (applyAll edgeThenMarker) (.add (.observed ⟨"a/b/"⟩))).2 = false := by
  obtain ⟨hdenotes, -, hothers⟩ := applyAll_denotes edgeThenMarker
  exact ⟨hdenotes, by decide +kernel, (hothers markerThenEdge leftBy_edgeThenMarker).1,
    by decide +kernel⟩

end Edit

end DependencySet

end JarGraph
