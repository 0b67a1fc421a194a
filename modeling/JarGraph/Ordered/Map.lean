/-!
# Ordered maps

A map in ascending order of its keys, kept as a list of pairs. A new value for a key that is there
replaces the value and leaves the key as it was first written.
-/

namespace JarGraph

/-- A list of keys and values, strictly ascending in the keys. -/
structure OrderedMap (κ β : Type) [Ord κ] where
  /-- The pairs, in ascending order of the keys. -/
  toList : List (κ × β)
  /-- No two keys compare equal, and each is below those after it. -/
  ascending : toList.Pairwise (compare ·.1 ·.1 = .lt)

namespace OrderedMap

variable {κ β : Type} [Ord κ]

/-- The map without keys. -/
def empty : OrderedMap κ β := ⟨[], .nil⟩

instance : EmptyCollection (OrderedMap κ β) := ⟨empty⟩
instance : Inhabited (OrderedMap κ β) := ⟨empty⟩

/-- Gives a key of an ascending list its value. -/
def putList (k : κ) (v : β) : List (κ × β) → List (κ × β)
  | [] => [(k, v)]
  | p :: ps =>
    match compare k p.1 with
    | .lt => (k, v) :: p :: ps
    | .eq => (p.1, v) :: ps
    | .gt => p :: putList k v ps

/-- The value of a key. -/
def get? (m : OrderedMap κ β) (k : κ) : Option β :=
  (m.toList.find? fun p => compare k p.1 == .eq).map Prod.snd

/-- Whether the key has a value. -/
def contains (m : OrderedMap κ β) (k : κ) : Bool :=
  m.toList.any fun p => compare k p.1 == .eq

/-- The number of keys. -/
def size (m : OrderedMap κ β) : Nat :=
  m.toList.length

theorem fst_mem_putList {k : κ} {v : β} {q : κ × β} {ps : List (κ × β)}
    (h : q ∈ putList k v ps) : q.1 = k ∨ ∃ p ∈ ps, q.1 = p.1 := by
  induction ps with
  | nil => simp_all [putList]
  | cons p ps ih =>
    unfold putList at h
    split at h
    · rcases List.mem_cons.1 h with rfl | h
      · exact .inl rfl
      · exact .inr ⟨q, h, rfl⟩
    · rcases List.mem_cons.1 h with rfl | h
      · exact .inr ⟨p, by simp, rfl⟩
      · exact .inr ⟨q, by simp [h], rfl⟩
    · rcases List.mem_cons.1 h with rfl | h
      · exact .inr ⟨q, by simp, rfl⟩
      · rcases ih h with h | ⟨p', hp', e⟩
        · exact .inl h
        · exact .inr ⟨p', by simp [hp'], e⟩

section Laws

variable [Std.TransOrd κ]

theorem ascending_putList {k : κ} {v : β} {ps : List (κ × β)}
    (h : ps.Pairwise (compare ·.1 ·.1 = .lt)) :
    (putList k v ps).Pairwise (compare ·.1 ·.1 = .lt) := by
  induction ps with
  | nil => simp [putList]
  | cons p ps ih =>
    have ⟨below, rest⟩ := List.pairwise_cons.1 h
    unfold putList
    split
    · rename_i hk
      refine List.pairwise_cons.2 ⟨fun q hq => ?_, h⟩
      rcases List.mem_cons.1 hq with rfl | hq
      · exact hk
      · exact Std.TransCmp.lt_trans hk (below q hq)
    · exact List.pairwise_cons.2 ⟨below, rest⟩
    · rename_i hk
      refine List.pairwise_cons.2 ⟨fun q hq => ?_, ih rest⟩
      rcases fst_mem_putList hq with e | ⟨q', hq', e⟩
      · rw [e]; exact Std.OrientedCmp.lt_of_gt hk
      · rw [e]; exact below q' hq'

/-- Gives a key its value. -/
def put (m : OrderedMap κ β) (k : κ) (v : β) : OrderedMap κ β :=
  ⟨putList k v m.toList, ascending_putList m.ascending⟩

end Laws

@[ext] theorem ext {m n : OrderedMap κ β} (h : m.toList = n.toList) : m = n := by
  cases m; cases n; simp_all

@[simp] theorem get?_empty (k : κ) : (empty : OrderedMap κ β).get? k = none := rfl

section Laws

variable [Std.TransOrd κ]

/-- Keys that compare equal have one value. -/
theorem get?_congr (m : OrderedMap κ β) {j k : κ} (h : compare j k = .eq) :
    m.get? j = m.get? k := by
  have hkeys : (fun p : κ × β => compare j p.1 == .eq) = fun p => compare k p.1 == .eq :=
    funext fun p => by rw [Std.TransCmp.congr_left h]
  rw [get?, get?, hkeys]

/-- After a value is put, its key has it and every other key has what it had. -/
theorem get?_put (m : OrderedMap κ β) (k j : κ) (v : β) :
    (m.put k v).get? j = if compare j k = .eq then some v else m.get? j := by
  have key : ∀ ps : List (κ × β), ps.Pairwise (compare ·.1 ·.1 = .lt) →
      ((putList k v ps).find? fun p => compare j p.1 == .eq).map Prod.snd
      = if compare j k = .eq then some v
        else (ps.find? fun p => compare j p.1 == .eq).map Prod.snd := by
    intro ps
    induction ps with
    | nil =>
      intro _
      by_cases h : compare j k = .eq <;> simp [putList, h]
    | cons p ps ih =>
      intro hs
      have ⟨below, rest⟩ := List.pairwise_cons.1 hs
      unfold putList
      split
      · by_cases h : compare j k = .eq <;> simp [h]
      · rename_i hk
        have e : compare j k = compare j p.1 := Std.TransCmp.congr_right hk
        by_cases h : compare j p.1 = .eq <;> simp [e, h]
      · rename_i hk
        by_cases h : compare j p.1 = .eq
        · have : compare j k ≠ .eq := by
            intro e
            have : compare k p.1 = compare j p.1 :=
              (Std.TransCmp.congr_left e).symm
            simp [this, h] at hk
          simp [this, h]
        · simpa [List.find?_cons, h] using ih rest
  exact key m.toList m.ascending

/-- To give a key the value that it has changes nothing. -/
theorem put_eq_self {m : OrderedMap κ β} {k : κ} {v : β} (h : m.get? k = some v) :
    m.put k v = m := by
  have key : ∀ ps : List (κ × β), ps.Pairwise (compare ·.1 ·.1 = .lt) →
      (ps.find? fun p => compare k p.1 == .eq).map Prod.snd = some v → putList k v ps = ps := by
    intro ps
    induction ps with
    | nil => exact fun _ hnone => nomatch hnone
    | cons p ps ih =>
      intro hs hfind
      obtain ⟨below, rest⟩ := List.pairwise_cons.1 hs
      unfold putList
      rw [List.find?_cons] at hfind
      split
      · -- A key below the first one has no value.
        rename_i hlt
        rw [hlt] at hfind
        obtain ⟨q, hq, -⟩ := Option.map_eq_some_iff.1 hfind
        have hbelow : compare k q.1 = .lt :=
          Std.TransCmp.lt_trans hlt (below q (List.mem_of_find?_eq_some hq))
        have hfound := List.find?_some hq
        rw [hbelow] at hfound
        cases hfound
      · rename_i heq
        rw [heq] at hfind
        rw [← Option.some.inj hfind]
      · rename_i hgt
        rw [hgt] at hfind
        rw [ih rest hfind]
  exact OrderedMap.ext (key m.toList m.ascending h)

end Laws

end OrderedMap

end JarGraph
