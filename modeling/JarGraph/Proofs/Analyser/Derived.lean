import JarGraph.Analyser
/-!
# The derived sets

What the two derived sets of an analyser hold, said by membership. The
code folds over the class edges and keeps both sets at once; each edge
adds at most one pair to either, so that the fold is two insertions of
lists (`foldl_deriveEdge`), and membership is read off those
(`contains_fileEdges_derived`, `contains_unresolved_derived`).

The derived sets read the recorded facts alone: where classes are, what
is provided, and the class edges (`derived_congr`).
-/

namespace JarGraph.Analyser

variable {a b : Analyser} {name user : String} {file source target : Path}

/-- A class is at home in every spelling of the container that is known for it. -/
theorem isHome_iff :
    a.isHome file name = true ↔ ∃ p, a.containerOf name = some p ∧ p.same file = true := by
  unfold isHome
  cases a.containerOf name <;> simp

/-- The pair of containers that one class edge brings, if it leads from one container to another. -/
def fileEdge? (a : Analyser) (edge : String × String) : Option (Dependency Path) :=
  match a.containerOf edge.1, a.containerOf edge.2 with
  | some source, some target => if source.same target then none else some (.edge source target)
  | _, _ => none

/-- The pair of a missing class and its user that one class edge brings, if its target is missing. -/
def missing? (a : Analyser) (edge : String × String) : Option (Dependency String) :=
  if (a.containerOf edge.2).isNone && a.isMissing edge.2 then some (.edge edge.2 edge.1) else none

/-- The derived sets grow by what the edges bring, and by nothing else. -/
theorem foldl_deriveEdge (a : Analyser) (edges : List (String × String)) (d : Derived) :
    edges.foldl a.deriveEdge d =
      ⟨(edges.filterMap a.fileEdge?).foldl OrderedSet.insert d.fileEdges,
        (edges.filterMap a.missing?).foldl OrderedSet.insert d.unresolved⟩ := by
  induction edges generalizing d with
  | nil => rfl
  | cons edge edges ih =>
    rw [List.foldl_cons, ih]
    unfold deriveEdge
    -- An edge brings a missing class or a pair of containers, and never both.
    cases ht : a.containerOf edge.2 with
    | none =>
      have hfile : a.fileEdge? edge = none := by
        unfold fileEdge?
        rw [ht]
        cases a.containerOf edge.1 <;> rfl
      by_cases hm : a.isMissing edge.2 <;> simp [missing?, ht, hm, hfile]
    | some target =>
      have hmiss : a.missing? edge = none := by simp [missing?, ht]
      cases hs : a.containerOf edge.1 with
      | none => simp [fileEdge?, hs, ht, hmiss]
      | some source =>
        by_cases h : source.same target <;>
          simp [fileEdge?, hs, ht, h, hmiss]

theorem fileEdge?_eq_some {e : Dependency Path} :
    a.fileEdge? (user, name) = some e ↔ ∃ p q, a.containerOf user = some p ∧
      a.containerOf name = some q ∧ p.same q = false ∧ e = .edge p q := by
  unfold fileEdge?
  cases a.containerOf user with
  | none => simp
  | some p =>
    cases a.containerOf name with
    | none => simp
    | some q => cases hpq : p.same q <;> simp [hpq, eq_comm (a := e)]

theorem missing?_eq_some {e : Dependency String} :
    a.missing? (user, name) = some e ↔
      a.containerOf name = none ∧ a.isMissing name = true ∧ e = .edge name user := by
  unfold missing?
  cases a.containerOf name <;> cases a.isMissing name <;> simp [eq_comm (a := e)]

/-- **The derived dependencies between containers.** They lead from the container of a class to the
container of a class that it references, where these differ. -/
theorem contains_fileEdges_derived {d : Dependency Path} :
    a.derived.fileEdges.contains d = true ↔
      ∃ source target, d = .edge source target ∧ source.same target = false ∧
        ∃ user name, a.classEdges.contains (.edge user name) = true ∧
          a.isHome source user = true ∧ a.isHome target name = true := by
  rw [derived, foldl_deriveEdge, OrderedSet.contains_foldl_insert]
  simp only [OrderedSet.contains_empty, Bool.false_eq_true, false_or, List.mem_filterMap,
    Prod.exists, OrderedSet.contains_iff_mem (s := a.classEdges), ← DependencySet.mem_edges,
    fileEdge?_eq_some, isHome_iff]
  constructor
  -- The stored pair and `d` may spell their containers differently.
  · rintro ⟨_, ⟨user, name, hedge, p, q, hp, hq, hpq, rfl⟩, hd⟩
    obtain ⟨source, target?⟩ := d
    cases target? with
    | none => exact absurd hd Dependency.compare_observed_edge
    | some target =>
      obtain ⟨hs, ht⟩ := Dependency.compare_edge_edge.1 hd
      rw [Path.compare_eq_iff_same] at hs ht
      exact ⟨source, target, rfl, by rw [Path.same_congr hs ht, hpq], user, name, hedge,
        ⟨p, hp, by rw [Path.same_comm, hs]⟩, ⟨q, hq, by rw [Path.same_comm, ht]⟩⟩
  · rintro ⟨source, target, rfl, hne, user, name, hedge, ⟨p, hp, hps⟩, ⟨q, hq, hqt⟩⟩
    refine ⟨.edge p q, ⟨user, name, hedge, p, q, hp, hq, ?_, rfl⟩, ?_⟩
    · rw [Path.same_congr hps hqt, hne]
    · rw [Dependency.compare_edge_edge, Path.compare_eq_iff_same, Path.compare_eq_iff_same]
      exact ⟨by rw [Path.same_comm, hps], by rw [Path.same_comm, hqt]⟩

/-- **The derived unresolved classes.** They are the referenced classes that are in no container and
count as missing, each with the class that references it. -/
theorem contains_unresolved_derived {d : Dependency String} :
    a.derived.unresolved.contains d = true ↔
      ∃ name user, d = .edge name user ∧ a.classEdges.contains (.edge user name) = true ∧
        a.containerOf name = none ∧ a.isMissing name = true := by
  rw [derived, foldl_deriveEdge, OrderedSet.contains_foldl_insert]
  simp only [OrderedSet.contains_empty, Bool.false_eq_true, false_or, List.mem_filterMap,
    Prod.exists, OrderedSet.contains_iff_mem (s := a.classEdges), ← DependencySet.mem_edges,
    missing?_eq_some, Std.LawfulEqOrd.compare_eq_iff_eq]
  constructor
  · rintro ⟨_, ⟨user, name, hedge, hnone, hmiss, rfl⟩, rfl⟩
    exact ⟨name, user, rfl, hedge, hnone, hmiss⟩
  · rintro ⟨name, user, rfl, hedge, hnone, hmiss⟩
    exact ⟨_, ⟨user, name, hedge, hnone, hmiss, rfl⟩, rfl⟩

/-! ## What the derived sets read -/

/-- Two analysers hold the same facts: where classes are, what is provided, and the class edges. -/
structure SameFacts (a b : Analyser) : Prop where
  classes : a.classes = b.classes
  provided : a.provided = b.provided
  classEdges : a.classEdges = b.classEdges

/-- **The derived sets read the facts and nothing else.** -/
theorem derived_congr (h : SameFacts a b) : a.derived = b.derived := by
  cases a
  cases b
  obtain ⟨rfl, rfl, rfl⟩ := h
  rfl

/-- The stored sets are up to date: where nothing is pending they are what a recomputation gives. -/
def Fresh (a : Analyser) : Prop :=
  a.isResolved = true → a.fileEdges = a.derived.fileEdges ∧ a.unresolved = a.derived.unresolved

theorem fresh_empty : Fresh .empty :=
  fun _ => ⟨rfl, rfl⟩

/-- A state with something pending has nothing to be out of date. -/
theorem fresh_of_pending (h : a.isResolved = false) : a.Fresh :=
  fun h' => absurd (h.symm.trans h') Bool.false_ne_true

theorem resolve_of_resolved (h : a.isResolved = true) : a.resolve = a := by
  rw [resolve, if_pos h]

theorem resolve_of_pending (h : a.isResolved = false) :
    a.resolve = { a with
      fileEdges := a.derived.fileEdges, unresolved := a.derived.unresolved, isResolved := true } := by
  rw [resolve, if_neg (by simp [h])]

/-- Bringing the derived sets up to date touches no fact. -/
theorem sameFacts_resolve (a : Analyser) : SameFacts a.resolve a := by
  cases h : a.isResolved with
  | true => rw [resolve_of_resolved h]; exact ⟨rfl, rfl, rfl⟩
  | false => rw [resolve_of_pending h]; exact ⟨rfl, rfl, rfl⟩

theorem isResolved_resolve (a : Analyser) : a.resolve.isResolved = true := by
  cases h : a.isResolved with
  | true => rw [resolve_of_resolved h, h]
  | false => rw [resolve_of_pending h]

theorem fresh_resolve (h : a.Fresh) : a.resolve.Fresh := by
  cases hr : a.isResolved with
  | true => rwa [resolve_of_resolved hr]
  | false =>
    rw [resolve_of_pending hr]
    exact fun _ => ⟨rfl, rfl⟩

/-- **What a fresh state comes to** is its facts and their derived sets, whatever is pending. -/
theorem result_of_fresh (h : a.Fresh) :
    a.result = ⟨a.classes, a.classEdges, a.derived.fileEdges, a.derived.unresolved⟩ := by
  have facts := sameFacts_resolve a
  obtain ⟨hf, hu⟩ := fresh_resolve h (isResolved_resolve a)
  rw [derived_congr facts] at hf hu
  simp only [result, facts.classes, facts.classEdges, hf, hu]

end JarGraph.Analyser
