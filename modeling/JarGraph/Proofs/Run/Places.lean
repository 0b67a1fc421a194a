import JarGraph.Proofs.Analyser.Reordering
import JarGraph.Proofs.Run.Analysis
/-!
# Where fed classes end up

What an analyser knows after some classes were fed to it, from what it
knew before. Its homes are settled class by class, from the places that
each was found in (`containerOf_feed`), and its class edges grow by what
the classes reference (`contains_classEdges_feed`).

A class clashes where it is found in another place than the one that is
known for it. There is no clash exactly if every class was found in one
place only, the known one where there is one (`clashes_eq_zero_iff`);
then each class is at home wherever it was found (`isHome_feed`), the
order of the classes does not show (`alike_feed_of_perm`), and to feed
them again changes nothing (`feed_again`).
-/

namespace JarGraph

namespace Analyser

variable {a : Analyser}

/-- A call that says nothing new changes nothing. -/
theorem apply_eq_self {call : Call} (addition : call.isAddition = true)
    (home : ∀ name, ∀ p ∈ Call.home? name call, a.isHome p name = true)
    (pair : ∀ d ∈ Call.pair? a.provided call, a.classEdges.contains d = true) :
    a.apply call = a := by
  cases call with
  | addClass container name =>
    rw [apply, addClass, if_pos (home name container (if_pos rfl))]
  | addDependency source target =>
    rw [apply, addDependency_fst]
    cases hpair : Call.pair? a.provided (.addDependency source target) with
    | none => rfl
    | some d => rw [Option.elim_some, addPair, if_pos (pair d hpair)]
  | addProvided | resolve => cases addition

theorem foldl_apply_eq_self {calls : List Call} (h : ∀ call ∈ calls, a.apply call = a) :
    calls.foldl apply a = a := by
  induction calls with
  | nil => rfl
  | cons call calls ih =>
    obtain ⟨hcall, hcalls⟩ := List.forall_mem_cons.1 h
    rw [List.foldl_cons, hcall, ih hcalls]

end Analyser

namespace Analysis

open Analyser (Call OnePlace SameFacts settle)

variable {a b : Analyser} {found more : List (Path × Extraction)} {file : Path} {name : String}

/-! ## Places -/

/-- The places that a class was found in, one after the other. -/
def placesOf (found : List (Path × Extraction)) (name : String) : List Path :=
  (found.filter fun y => y.2.name = name).map Prod.fst

theorem mem_placesOf : file ∈ placesOf found name ↔ ∃ x, (file, x) ∈ found ∧ x.name = name := by
  simp [placesOf]

theorem holds_iff : Holds found file name ↔ ∃ p ∈ placesOf found name, p.same file = true := by
  simp only [mem_placesOf, Holds]
  constructor
  · rintro ⟨p, x, hx, hsame, hname⟩
    exact ⟨p, ⟨x, hx, hname⟩, hsame⟩
  · rintro ⟨p, ⟨x, hx, hname⟩, hsame⟩
    exact ⟨p, x, hx, hsame, hname⟩

theorem placesOf_cons (y : Path × Extraction) (found : List (Path × Extraction)) (name : String) :
    placesOf (y :: found) name =
      if y.2.name = name then y.1 :: placesOf found name else placesOf found name := by
  by_cases h : y.2.name = name <;> simp [placesOf, h]

/-- No name lies in two containers exactly if each is found in one place only. -/
theorem unambiguous_iff : Unambiguous found ↔ ∀ name, OnePlace (placesOf found name) := by
  simp only [Unambiguous, holds_iff]
  constructor
  · exact fun h name p hp q hq => h name p q ⟨p, hp, p.same_self⟩ ⟨q, hq, q.same_self⟩
  · rintro h name file other ⟨p, hp, hfile⟩ ⟨q, hq, hother⟩
    rw [Path.same_comm] at hfile
    exact Path.same_trans hfile (Path.same_trans (h name p hp q hq) hother)

theorem Extracted.of_cons {y : Path × Extraction} (h : Extracted (y :: found)) :
    Extracted found :=
  fun p x hx => h p x (List.mem_cons_of_mem y hx)

/-- An extraction says of its own class where it is, once, and of no other class. -/
theorem filterMap_home?_sightings {data : Bytes} {p : Path} {depth : Depth} {x : Extraction}
    (h : extract data p depth = .ok x) (name : String) :
    (x.sightings.filterMap fun sighting => Call.home? name (call sighting)) =
      if x.name = name then [p] else [] := by
  obtain ⟨names, hsightings⟩ := Extraction.exists_sightings h
  rw [hsightings]
  by_cases hname : x.name = name <;> cases depth <;> simp [call, Call.home?, hname]

theorem filterMap_home?_eq_placesOf (extracted : Extracted found) (name : String) :
    ((found.flatMap (·.2.sightings)).filterMap fun sighting => Call.home? name (call sighting)) =
      placesOf found name := by
  induction found with
  | nil => rfl
  | cons y found ih =>
    obtain ⟨data, depth, hx⟩ := extracted y.1 y.2 List.mem_cons_self
    rw [List.flatMap_cons, List.filterMap_append, filterMap_home?_sightings hx, placesOf_cons,
      ih extracted.of_cons]
    split <;> rfl

/-! ## Feeding -/

theorem feed_eq_foldl (a : Analyser) (found : List (Path × Extraction)) :
    feed a found = ((found.flatMap (·.2.sightings)).map call).foldl Analyser.apply a :=
  foldl_receive ..

theorem isAddition_of_mem_map_call {sightings : List Sighting} :
    ∀ c ∈ sightings.map call, c.isAddition = true := by
  intro c hc
  obtain ⟨sighting, -, rfl⟩ := List.mem_map.1 hc
  cases sighting <;> rfl

theorem provided_feed (a : Analyser) (found : List (Path × Extraction)) :
    (feed a found).provided = a.provided := by
  rw [feed_eq_foldl]
  exact Analyser.provided_foldl a isAddition_of_mem_map_call

/-- **The home of a class** is settled by the places that it was found in, one after the other. -/
theorem containerOf_feed (extracted : Extracted found) (a : Analyser) (name : String) :
    (feed a found).containerOf name =
      (placesOf found name).foldl settle (a.containerOf name) := by
  rw [feed_eq_foldl, Analyser.containerOf_foldl, List.filterMap_map,
    ← filterMap_home?_eq_placesOf extracted]
  rfl

/-- A class is still nowhere if it was nowhere before and was not found. -/
theorem containerOf_feed_eq_none (extracted : Extracted found) :
    (feed a found).containerOf name = none ↔
      a.containerOf name = none ∧ ¬ ∃ file, Holds found file name := by
  rw [containerOf_feed extracted, Analyser.foldl_settle_eq_none]
  refine and_congr_right fun _ => ?_
  simp only [holds_iff, List.eq_nil_iff_forall_not_mem, not_exists, not_and]
  constructor
  · exact fun h _ p hp => absurd hp (h p)
  · exact fun h p hp => h p p hp p.same_self

/-- A class that is at home somewhere was so before, or was found there. -/
theorem isHome_or_holds_of_feed (extracted : Extracted found)
    (h : (feed a found).isHome file name = true) :
    a.isHome file name = true ∨ Holds found file name := by
  obtain ⟨p, hp, hsame⟩ := Analyser.isHome_iff.1 h
  rw [containerOf_feed extracted] at hp
  rcases Analyser.mem_of_foldl_settle hp with hknown | hmem
  · exact .inl (Analyser.isHome_iff.2 ⟨p, hknown, hsame⟩)
  · exact .inr (holds_iff.2 ⟨p, hmem, hsame⟩)

/-- **The class edges** grow by the pairs of what is fed. -/
theorem contains_classEdges_feed {d : Dependency String} :
    (feed a found).classEdges.contains d = true ↔ a.classEdges.contains d = true ∨
      ∃ sighting ∈ found.flatMap (·.2.sightings),
        Call.pair? a.provided (call sighting) = some d := by
  rw [feed_eq_foldl, Analyser.contains_classEdges_foldl a isAddition_of_mem_map_call]
  simp only [List.mem_map, exists_exists_and_eq_and]

theorem fresh_feed (fresh : a.Fresh) (found : List (Path × Extraction)) : (feed a found).Fresh := by
  rw [feed_eq_foldl]
  generalize (found.flatMap (·.2.sightings)).map call = calls
  induction calls generalizing a with
  | nil => exact fresh
  | cons c calls ih => exact ih (Analyser.fresh_apply fresh c)

/-- A class that references another one was found, if the reference was not known before. -/
theorem exists_holds_of_classEdges_feed {user : String} (extracted : Extracted found)
    (h : (feed a found).classEdges.contains (.edge user name) = true) :
    a.classEdges.contains (.edge user name) = true ∨ ∃ file, Holds found file user := by
  rcases contains_classEdges_feed.1 h with hknown | ⟨sighting, hsighting, hpair⟩
  · exact .inl hknown
  · obtain ⟨rfl, -⟩ := pair?_call.1 hpair
    obtain ⟨⟨p, x⟩, hx, hmem⟩ := List.mem_flatMap.1 hsighting
    obtain ⟨data, depth, hextract⟩ := extracted p x hx
    obtain ⟨-, rfl⟩ := Extraction.of_reference_mem_sightings hextract hmem
    exact .inr ⟨p, p, x, hx, p.same_self, rfl⟩

/-- Classes that are only listed bring no class edge. -/
theorem classEdges_feed_of_inventory
    (listed : ∀ p x, (p, x) ∈ found → ∃ data, extract data p .inventory = .ok x) (a : Analyser) :
    (feed a found).classEdges = a.classEdges := by
  refine OrderedSet.ext_contains fun d => ?_
  rw [contains_classEdges_feed]
  refine or_iff_left ?_
  rintro ⟨sighting, hsighting, hpair⟩
  obtain ⟨⟨p, x⟩, hx, hmem⟩ := List.mem_flatMap.1 hsighting
  obtain ⟨data, hextract⟩ := listed p x hx
  obtain ⟨names, hsightings⟩ := Extraction.exists_sightings hextract
  dsimp only at hmem
  rw [hsightings, List.mem_singleton] at hmem
  rw [hmem] at hpair
  cases hpair

/-! ## Clashes -/

/-- Counts a class that is found in another place than the known one. -/
def clash (a : Analyser) (file : Path) (name : String) : Nat :=
  if (a.containerOf name).any fun p => !p.same file then 1 else 0

/-- How often a class is found in another place than the one known by then. -/
def clashes (a : Analyser) : List (Path × Extraction) → Nat
  | [] => 0
  | y :: found => clash a y.1 y.2.name + clashes (feed a [y]) found

theorem clash_eq_zero_iff :
    clash a file name = 0 ↔ ∀ p ∈ a.containerOf name, p.same file = true := by
  unfold clash
  cases a.containerOf name <;> simp

theorem clashes_append (a : Analyser) (found more : List (Path × Extraction)) :
    clashes a (found ++ more) = clashes a found + clashes (feed a found) more := by
  induction found generalizing a with
  | nil => rw [clashes, Nat.zero_add]; rfl
  | cons y found ih =>
    have hfeed : feed (feed a [y]) found = feed a (y :: found) := (feed_append a [y] found).symm
    rw [List.cons_append, clashes, clashes, ih, hfeed, Nat.add_assoc]

/-- **There is no clash** exactly if each class was found in one place only, the known one where
there is one. -/
theorem clashes_eq_zero_iff (extracted : Extracted found) :
    clashes a found = 0 ↔
      ∀ name, OnePlace ((a.containerOf name).toList ++ placesOf found name) := by
  induction found generalizing a with
  | nil =>
    refine iff_of_true rfl fun name => ?_
    cases a.containerOf name with
    | none => exact fun p hp => absurd hp List.not_mem_nil
    | some p => exact Analyser.onePlace_cons.2 fun q hq => absurd hq List.not_mem_nil
  | cons y found ih =>
    have first : Extracted [y] := fun p x hx =>
      extracted p x (List.mem_cons.2 (.inl (List.mem_singleton.1 hx)))
    rw [clashes, Nat.add_eq_zero_iff, clash_eq_zero_iff, ih extracted.of_cons]
    -- The first class settles its own home and no other.
    have hother (name : String) (hname : y.2.name ≠ name) :
        OnePlace (((feed a [y]).containerOf name).toList ++ placesOf found name) ↔
          OnePlace ((a.containerOf name).toList ++ placesOf (y :: found) name) := by
      rw [containerOf_feed first, placesOf_cons, if_neg hname, placesOf_cons, if_neg hname]
      rfl
    have hown : ((∀ p ∈ a.containerOf y.2.name, p.same y.1 = true) ∧
        OnePlace (((feed a [y]).containerOf y.2.name).toList ++ placesOf found y.2.name)) ↔
          OnePlace ((a.containerOf y.2.name).toList ++ placesOf (y :: found) y.2.name) := by
      rw [containerOf_feed first, placesOf_cons, if_pos rfl, placesOf_cons, if_pos rfl]
      exact Analyser.onePlace_settle.symm
    constructor
    · rintro ⟨hsame, hrest⟩ name
      by_cases hname : y.2.name = name
      · subst hname
        exact hown.1 ⟨hsame, hrest _⟩
      · exact (hother name hname).1 (hrest name)
    · intro h
      refine ⟨(hown.2 (h _)).1, fun name => ?_⟩
      by_cases hname : y.2.name = name
      · subst hname
        exact (hown.2 (h _)).2
      · exact (hother name hname).2 (h name)

/-- **Without a clash a class is at home wherever it was found**, and where it was before. -/
theorem isHome_feed (extracted : Extracted found) (hclashes : clashes a found = 0) :
    (feed a found).isHome file name = true ↔
      a.isHome file name = true ∨ Holds found file name := by
  have one := (clashes_eq_zero_iff extracted).1 hclashes name
  rw [Analyser.isHome_iff, Analyser.isHome_iff, holds_iff, containerOf_feed extracted]
  refine (Analyser.exists_mem_foldl_settle one).trans ?_
  simp only [List.mem_append, Option.mem_toList, or_and_right, exists_or]

/-! ## Feeding in another order -/

theorem Extracted.perm (extracted : Extracted found) (perm : found.Perm more) : Extracted more :=
  fun p x hx => extracted p x (perm.mem_iff.2 hx)

theorem clashes_eq_zero_of_perm (extracted : Extracted found) (hclashes : clashes a found = 0)
    (perm : found.Perm more) : clashes a more = 0 := by
  rw [clashes_eq_zero_iff extracted] at hclashes
  rw [clashes_eq_zero_iff (extracted.perm perm)]
  intro name
  have places : (placesOf found name).Perm (placesOf more name) := (perm.filter _).map _
  have among := fun p => (places.append_left (a.containerOf name).toList).mem_iff (a := p)
  exact fun p hp q hq => hclashes name p ((among p).2 hp) q ((among q).2 hq)

/-- **The order in which classes are fed does not show** where none of them clashes, but in how
their containers are spelled. -/
theorem alike_feed_of_perm (extracted : Extracted found) (hclashes : clashes a found = 0)
    (perm : found.Perm more) : Analyser.Alike (feed a found) (feed a more) where
  isHome := by
    intro file name
    rw [isHome_feed extracted hclashes, isHome_feed (extracted.perm perm)
      (clashes_eq_zero_of_perm extracted hclashes perm)]
    simp only [Holds, perm.mem_iff]
  classEdges := by
    refine OrderedSet.ext_contains fun d => ?_
    rw [contains_classEdges_feed, contains_classEdges_feed]
    simp only [(perm.flatMap_right _).mem_iff]
  isMatch := by
    intro name
    rw [provided_feed, provided_feed]

/-! ## Feeding again -/

/-- **To feed the same classes again changes nothing** where none of them clashed, and none clashes
then. It does not matter whether the derived sets were brought up to date in between. -/
theorem feed_again (extracted : Extracted found) (hclashes : clashes a found = 0)
    (facts : SameFacts b (feed a found)) : feed b found = b ∧ clashes b found = 0 := by
  have homes (name : String) : b.containerOf name = (feed a found).containerOf name := by
    rw [Analyser.containerOf, Analyser.containerOf, facts.classes]
  have provided : b.provided = a.provided := facts.provided.trans (provided_feed a found)
  constructor
  · rw [feed_eq_foldl]
    refine Analyser.foldl_apply_eq_self fun c hc => ?_
    refine Analyser.apply_eq_self (isAddition_of_mem_map_call c hc) (fun name p hp => ?_)
      fun d hd => ?_
    · have hplace : p ∈ placesOf found name := by
        rw [← filterMap_home?_eq_placesOf extracted]
        obtain ⟨sighting, hsighting, rfl⟩ := List.mem_map.1 hc
        exact List.mem_filterMap.2 ⟨sighting, hsighting, hp⟩
      have home := (isHome_feed extracted hclashes).2 (.inr (holds_iff.2 ⟨p, hplace, p.same_self⟩))
      rwa [Analyser.isHome, ← homes] at home
    · obtain ⟨sighting, hsighting, rfl⟩ := List.mem_map.1 hc
      rw [provided] at hd
      rw [facts.classEdges]
      exact contains_classEdges_feed.2 (.inr ⟨sighting, hsighting, hd⟩)
  -- What is known now is one of the places from before, and these are all one.
  · rw [clashes_eq_zero_iff extracted] at hclashes ⊢
    intro name
    have among : ∀ p ∈ (b.containerOf name).toList ++ placesOf found name,
        p ∈ (a.containerOf name).toList ++ placesOf found name := by
      intro p hp
      rcases List.mem_append.1 hp with hp | hp
      · rw [homes, containerOf_feed extracted, Option.mem_toList] at hp
        exact List.mem_append.2 ((Analyser.mem_of_foldl_settle hp).imp_left Option.mem_toList.2)
      · exact List.mem_append_right _ hp
    exact fun p hp q hq => hclashes name p (among p hp) q (among q hq)

end Analysis

end JarGraph
