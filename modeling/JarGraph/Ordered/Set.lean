/-!
# Ordered sets

A set of elements in ascending order, kept as a list. Two elements that compare equal count as the
same element, and the one inserted first stays: this is how a set of paths keeps the spelling with
which a path was first written.

Main statements: `contains_insert` says what an insertion adds, and `insert_eq_self` that inserting
what is there changes nothing.
-/

namespace JarGraph

/-- A strictly ascending list of elements. -/
structure OrderedSet (α : Type) [Ord α] where
  /-- The elements, in ascending order. -/
  toList : List α
  /-- No two elements compare equal, and each is below those after it. -/
  ascending : toList.Pairwise (compare · · = .lt)

namespace OrderedSet

variable {α : Type} [Ord α]

/-- The set without elements. -/
def empty : OrderedSet α := ⟨[], .nil⟩

instance : EmptyCollection (OrderedSet α) := ⟨empty⟩
instance : Inhabited (OrderedSet α) := ⟨empty⟩

/-- Puts an element into an ascending list, unless an equal one is there. -/
def insertList (x : α) : List α → List α
  | [] => [x]
  | y :: ys =>
    match compare x y with
    | .lt => x :: y :: ys
    | .eq => y :: ys
    | .gt => y :: insertList x ys

/-- Takes every element that compares equal out of a list. -/
def eraseList (x : α) (ys : List α) : List α :=
  ys.filter fun y => compare x y != .eq

theorem mem_of_mem_insertList {x z : α} {ys : List α} (h : z ∈ insertList x ys) :
    z = x ∨ z ∈ ys := by
  induction ys with
  | nil => simpa [insertList] using h
  | cons y ys ih =>
    unfold insertList at h
    split at h
    · simpa using h
    · exact .inr h
    · rcases List.mem_cons.1 h with rfl | h
      · exact .inr (by simp)
      · exact (ih h).imp_right (List.mem_cons_of_mem y)

section Laws

variable [Std.TransOrd α]

theorem ascending_insertList {x : α} {ys : List α} (h : ys.Pairwise (compare · · = .lt)) :
    (insertList x ys).Pairwise (compare · · = .lt) := by
  induction ys with
  | nil => simp [insertList]
  | cons y ys ih =>
    have ⟨below, rest⟩ := List.pairwise_cons.1 h
    unfold insertList
    split
    · rename_i hxy
      refine List.pairwise_cons.2 ⟨fun z hz => ?_, h⟩
      rcases List.mem_cons.1 hz with rfl | hz
      · exact hxy
      · exact Std.TransCmp.lt_trans hxy (below z hz)
    · exact h
    · rename_i hxy
      refine List.pairwise_cons.2 ⟨fun z hz => ?_, ih rest⟩
      rcases mem_of_mem_insertList hz with rfl | hz
      · exact Std.OrientedCmp.lt_of_gt hxy
      · exact below z hz

/-- The set with one element more, unless it holds an equal one. -/
def insert (s : OrderedSet α) (x : α) : OrderedSet α :=
  ⟨insertList x s.toList, ascending_insertList s.ascending⟩

/-- The set of the elements of a list. Of those that compare equal the last one stays. -/
def ofList (xs : List α) : OrderedSet α :=
  xs.foldr (fun x s => s.insert x) empty

end Laws

/-- The set without the element. -/
def erase (s : OrderedSet α) (x : α) : OrderedSet α :=
  ⟨eraseList x s.toList, s.ascending.filter _⟩

/-- Whether the set holds an element that compares equal. -/
def contains (s : OrderedSet α) (x : α) : Bool :=
  s.toList.any fun y => compare x y == .eq

/-- The number of elements. -/
def size (s : OrderedSet α) : Nat :=
  s.toList.length

/-- Whether there is no element. -/
def isEmpty (s : OrderedSet α) : Bool :=
  s.toList.isEmpty

/-- Whether two sets hold equal elements. -/
def sameElements (s t : OrderedSet α) : Bool :=
  go s.toList t.toList
where
  /-- Compares two lists element by element. -/
  go : List α → List α → Bool
    | [], [] => true
    | x :: xs, y :: ys => compare x y == .eq && go xs ys
    | _, _ => false

@[simp] theorem toList_empty : (empty : OrderedSet α).toList = [] := rfl

@[ext] theorem ext {s t : OrderedSet α} (h : s.toList = t.toList) : s = t := by
  cases s; cases t; simp_all

@[simp] theorem toList_erase (s : OrderedSet α) (x : α) :
    (s.erase x).toList = s.toList.filter fun y => compare x y != .eq := rfl

theorem contains_iff {s : OrderedSet α} {x : α} :
    s.contains x = true ↔ ∃ y ∈ s.toList, compare x y = .eq := by
  simp [contains]

section Laws

variable [Std.TransOrd α]

/-- A set holds with an element all that compare equal to it. -/
theorem contains_congr (s : OrderedSet α) {x y : α} (h : compare x y = .eq) :
    s.contains x = s.contains y := by
  have helements : (fun z : α => compare x z == .eq) = fun z => compare y z == .eq :=
    funext fun z => by rw [Std.TransCmp.congr_left h]
  rw [contains, contains, helements]

/-- After an insertion, an element is there if it was there before or is the one inserted. -/
theorem contains_insert (s : OrderedSet α) (x z : α) :
    (s.insert x).contains z = (compare z x == .eq || s.contains z) := by
  have key : ∀ ys : List α, (insertList x ys).any (fun y => compare z y == .eq)
      = (compare z x == .eq || ys.any fun y => compare z y == .eq) := by
    intro ys
    induction ys with
    | nil => simp [insertList]
    | cons y ys ih =>
      unfold insertList
      split
      · simp
      · rename_i hxy
        have : compare z x = compare z y := Std.TransCmp.congr_right hxy
        simp [this]
      · simp only [List.any_cons, ih]
        cases compare z x == .eq <;> cases compare z y == .eq <;> simp
  exact key s.toList

/-- Inserting an element that is there changes nothing. -/
theorem insert_eq_self {s : OrderedSet α} {x : α} (h : s.contains x = true) : s.insert x = s := by
  have key : ∀ ys : List α, ys.Pairwise (compare · · = .lt) →
      (ys.any fun y => compare x y == .eq) = true → insertList x ys = ys := by
    intro ys
    induction ys with
    | nil => simp
    | cons y ys ih =>
      intro hs hx
      have ⟨below, rest⟩ := List.pairwise_cons.1 hs
      unfold insertList
      split
      · rename_i hxy
        have none : ∀ z ∈ ys, compare x z = .lt := fun z hz =>
          Std.TransCmp.lt_trans hxy (below z hz)
        have : (ys.any fun z => compare x z == .eq) = false := by
          simp only [List.any_eq_false, beq_iff_eq]
          intro z hz
          simp [none z hz]
        simp [hxy, this] at hx
      · rfl
      · rename_i hxy
        simp only [List.any_cons, hxy] at hx
        rw [ih rest (by simpa using hx)]
  exact OrderedSet.ext (key s.toList s.ascending h)

/-- After some insertions, an element is there if it was there before or is one of those. -/
theorem contains_foldl_insert (xs : List α) (s : OrderedSet α) (z : α) :
    (xs.foldl insert s).contains z = true ↔
      s.contains z = true ∨ ∃ x ∈ xs, compare z x = .eq := by
  induction xs generalizing s with
  | nil => simp
  | cons x xs ih =>
    rw [List.foldl_cons, ih, contains_insert]
    simp only [Bool.or_eq_true, beq_iff_eq, List.mem_cons, exists_eq_or_imp]
    rw [or_comm (a := compare z x = .eq), or_assoc]

end Laws

@[simp] theorem contains_empty (x : α) : (empty : OrderedSet α).contains x = false := rfl

/-- Where equal elements are one, a set holds the elements of its list. -/
theorem contains_iff_mem [Std.LawfulEqOrd α] {s : OrderedSet α} {x : α} :
    s.contains x = true ↔ x ∈ s.toList := by
  rw [contains_iff]
  constructor
  · rintro ⟨y, hy, h⟩
    rwa [Std.LawfulEqOrd.eq_of_compare h]
  · exact fun h => ⟨x, h, Std.ReflOrd.compare_self⟩

end OrderedSet

end JarGraph
