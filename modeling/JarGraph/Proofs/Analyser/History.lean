import JarGraph.Analyser.History
import JarGraph.Proofs.Analyser.Derived
import Mathlib.Data.List.Basic
import Mathlib.Data.List.Induction
/-!
# What a history says

The state of an analyser against the calls that led to it. Two
invariants carry this. `Records` ties the facts of a state to the calls,
and `Fresh` ties its derived sets to its facts unless a change is
pending. A call keeps both (`records_apply`, `fresh_apply`), also one
that is refused or changes nothing, so that what the analysis comes to
after any history is read off the calls alone (`shown_result`).
-/

namespace JarGraph.Analyser

variable {a b : Analyser} {calls : List Call}

/-! ## One call more -/

namespace Call

theorem lastHome?_concat (calls : List Call) (call : Call) (name : String) :
    lastHome? (calls ++ [call]) name = (home? name call).or (lastHome? calls name) := by
  unfold lastHome?
  rw [List.filterMap_append]
  cases h : home? name call <;> simp [h]

theorem provided_concat (calls : List Call) (call : Call) :
    provided (calls ++ [call]) = ⟨(provided calls).patterns ++ (pattern? call).toList⟩ := by
  unfold provided
  rw [List.filterMap_append]
  cases h : pattern? call <;> simp [h]

/-- The pairs before a call do not depend on it, since each counts as its own call was made. -/
theorem pairs_concat (calls : List Call) (call : Call) :
    pairs (calls ++ [call]) = pairs calls ++ (pair? (provided calls) call).toList := by
  unfold pairs
  rw [List.zipIdx_append, List.filterMap_append]
  congr 1
  · refine List.filterMap_congr fun ⟨c, n⟩ h => ?_
    have hn : n ≤ calls.length := Nat.le_of_lt (List.mem_zipIdx' h).1
    simp only [List.take_append_of_le_length hn]
  · cases h : pair? (provided calls) call <;> simp [h]

/-- Calls that make no pattern known leave the patterns as they were. -/
theorem provided_append_of_none {calls more : List Call} (h : ∀ call ∈ more, pattern? call = none) :
    provided (calls ++ more) = provided calls := by
  have hnone : more.filterMap pattern? = [] := List.filterMap_eq_nil_iff.2 h
  rw [provided, List.filterMap_append, hnone, List.append_nil, provided]

/-- Their pairs all count by the patterns from before. -/
theorem pairs_append_of_none {calls more : List Call} (h : ∀ call ∈ more, pattern? call = none) :
    pairs (calls ++ more) = pairs calls ++ more.filterMap (pair? (provided calls)) := by
  induction more using List.reverseRecOn with
  | nil => simp
  | append_singleton more call ih =>
    have hmore : ∀ c ∈ more, pattern? c = none := fun c hc => h c (List.mem_append_left _ hc)
    rw [← List.append_assoc, pairs_concat, ih hmore, provided_append_of_none hmore,
      List.filterMap_append, List.append_assoc]
    cases hpair : pair? (provided calls) call <;> simp [hpair]

end Call

/-! ## The invariants -/

/-- Two accounts of where a class is: the same container, however it is spelled, or none. -/
abbrev SameHome : Option Path → Option Path → Prop :=
  Option.Rel fun p q => p.same q = true

/-- The facts of a state are what the calls say. -/
structure Records (calls : List Call) (a : Analyser) : Prop where
  homes : ∀ name, SameHome (a.containerOf name) (Call.lastHome? calls name)
  provided : a.provided = Call.provided calls
  classEdges : ∀ d, a.classEdges.contains d = true ↔ d ∈ Call.pairs calls

theorem records_empty : Records [] .empty :=
  ⟨fun _ => .none, rfl, fun _ => by simp [empty, Call.pairs]⟩

/-- A pair that is added is recorded, also where it was before. -/
theorem contains_classEdges_addPair (a : Analyser) (d e : Dependency String) :
    (a.addPair d).1.classEdges.contains e = true ↔ a.classEdges.contains e = true ∨ e = d := by
  unfold addPair
  split
  · rename_i h
    constructor
    · exact .inl
    · rintro (h' | rfl)
      · exact h'
      · exact h
  · simp [OrderedSet.contains_insert, or_comm]

theorem addPair_classes (a : Analyser) (d : Dependency String) :
    (a.addPair d).1.classes = a.classes := by
  unfold addPair
  split <;> rfl

theorem addPair_provided (a : Analyser) (d : Dependency String) :
    (a.addPair d).1.provided = a.provided := by
  unfold addPair
  split <;> rfl

/-- What a reference or a marker does to the state: it adds the pair that the call stands for. -/
theorem addDependency_fst (a : Analyser) (source : String) (target : Option String) :
    (a.addDependency source target).1 =
      ((Call.pair? a.provided (.addDependency source target)).elim a fun d => (a.addPair d).1) := by
  cases target with
  | none => rfl
  | some name =>
    simp only [addDependency, Call.pair?]
    split <;> rfl

/-! ## One step -/

theorem SameHome.refl : (o : Option Path) → SameHome o o
  | none => .none
  | some p => .some p.same_self

/-- Accounts that agree lead to the same containers. -/
theorem SameHome.exists_same_iff {o o' : Option Path} (h : SameHome o o') {file : Path} :
    (∃ p ∈ o, p.same file = true) ↔ ∃ p ∈ o', p.same file = true := by
  cases h with
  | none => simp
  | some hpq => simp [Path.same_congr hpq file.same_self]

/-- The container of a class after the class was found once more: one that is known stays as it is
spelled. -/
def settle (known : Option Path) (container : Path) : Option Path :=
  if known.any fun p => p.same container then known else some container

theorem sameHome_settle (known : Option Path) (container : Path) :
    SameHome (settle known container) (some container) := by
  unfold settle
  cases known with
  | none => exact .refl _
  | some p =>
    cases h : p.same container with
    | true => simp [h]
    | false => simp [h]

/-- **The container of a class after it was added** is the one it was added with, up to spelling, and
no other class has moved. -/
theorem containerOf_addClass (a : Analyser) (container : Path) (found name : String) :
    (a.addClass container found).1.containerOf name =
      if found = name then settle (a.containerOf name) container else a.containerOf name := by
  have home : a.isHome container found =
      (a.containerOf found).any fun p => p.same container := by
    unfold isHome
    cases a.containerOf found <;> rfl
  unfold addClass settle
  by_cases hn : found = name
  · subst hn
    rw [if_pos rfl, home]
    split
    · rfl
    · have hself : compare found found = .eq := Std.ReflOrd.compare_self
      rw [containerOf, OrderedMap.get?_put, if_pos hself]
  · rw [if_neg hn]
    have hne : compare name found ≠ .eq := fun heq => hn (Std.LawfulEqOrd.eq_of_compare heq).symm
    split
    · rfl
    · rw [containerOf, OrderedMap.get?_put, if_neg hne, containerOf]

/-- A pattern is taken in where it is well formed, and the state is left alone where it is not. -/
theorem apply_addProvided (a : Analyser) (pattern : String) :
    a.apply (.addProvided pattern) =
      ((Call.pattern? (.addProvided pattern)).elim a fun p =>
        { a with provided := ⟨a.provided.patterns ++ [p]⟩, isResolved := false }) := by
  simp only [apply, addProvided, ProvidedClasses.add, Call.pattern?]
  cases ProvidedPattern.compile pattern <;> rfl

/-- A call moves a class as it says, and no other class. -/
theorem containerOf_apply (a : Analyser) (call : Call) (name : String) :
    (a.apply call).containerOf name =
      (Call.home? name call).toList.foldl settle (a.containerOf name) := by
  cases call with
  | addClass container found =>
    rw [apply, containerOf_addClass, Call.home?]
    split <;> rfl
  | addDependency source target =>
    rw [apply, addDependency_fst]
    cases Call.pair? a.provided (.addDependency source target) with
    | none => rfl
    | some d =>
      rw [Option.elim_some, containerOf, addPair_classes]
      rfl
  | addProvided pattern =>
    rw [apply_addProvided]
    cases Call.pattern? (.addProvided pattern) <;> rfl
  | resolve =>
    rw [apply, containerOf, (sameFacts_resolve a).classes]
    rfl

/-- **Where a class is depends on the calls for that class alone**, in their order. -/
theorem containerOf_foldl (a : Analyser) (calls : List Call) (name : String) :
    (calls.foldl apply a).containerOf name =
      (calls.filterMap (Call.home? name)).foldl settle (a.containerOf name) := by
  induction calls generalizing a with
  | nil => rfl
  | cons call calls ih =>
    rw [List.foldl_cons, ih, containerOf_apply, ← List.foldl_append]
    congr 1
    cases h : Call.home? name call <;> simp [h]

/-- A class that is in a container was there before, or was found there, as the container is
spelled. -/
theorem mem_of_foldl_settle {known : Option Path} {homes : List Path} {file : Path}
    (h : homes.foldl settle known = some file) : known = some file ∨ file ∈ homes := by
  induction homes generalizing known with
  | nil => exact .inl h
  | cons container homes ih =>
    rcases ih h with hsettled | hmem
    · unfold settle at hsettled
      split at hsettled
      · exact .inl hsettled
      · exact .inr (List.mem_cons.2 (.inl (Option.some.inj hsettled).symm))
    · exact .inr (List.mem_cons_of_mem _ hmem)

theorem settle_ne_none (known : Option Path) (container : Path) :
    settle known container ≠ none := by
  unfold settle
  split
  · rename_i h
    rintro rfl
    cases h
  · exact Option.some_ne_none container

/-- A class is nowhere if it was nowhere before and was not found. -/
theorem foldl_settle_eq_none {known : Option Path} {homes : List Path} :
    homes.foldl settle known = none ↔ known = none ∧ homes = [] := by
  induction homes generalizing known with
  | nil => simp
  | cons container homes ih => simp [ih, settle_ne_none]

/-- Some paths are all one path, however each is spelled. -/
def OnePlace (places : List Path) : Prop :=
  ∀ p ∈ places, ∀ q ∈ places, p.same q = true

theorem onePlace_cons {p : Path} {places : List Path} :
    OnePlace (p :: places) ↔ ∀ q ∈ places, p.same q = true := by
  constructor
  · exact fun h q hq => h p List.mem_cons_self q (List.mem_cons_of_mem p hq)
  · intro h q hq r hr
    have first : ∀ q ∈ p :: places, p.same q = true := List.forall_mem_cons.2 ⟨p.same_self, h⟩
    exact Path.same_trans (Path.same_comm q p ▸ first q hq) (first r hr)

/-- A class was found in one place only if each time the place was the known one. -/
theorem onePlace_settle {known : Option Path} {container : Path} {homes : List Path} :
    OnePlace (known.toList ++ container :: homes) ↔
      (∀ p ∈ known, p.same container = true) ∧
        OnePlace ((settle known container).toList ++ homes) := by
  cases known with
  | none => simp [settle]
  | some p =>
    rw [Option.toList_some, List.singleton_append, onePlace_cons, List.forall_mem_cons]
    cases h : p.same container with
    | true => simp [settle, h, onePlace_cons]
    | false => simp [h]

/-- **Where a class was found in one place only**, it is there in the end. -/
theorem exists_mem_foldl_settle {known : Option Path} {homes : List Path} {file : Path}
    (one : OnePlace (known.toList ++ homes)) :
    (∃ p ∈ homes.foldl settle known, p.same file = true) ↔
      ∃ p ∈ known.toList ++ homes, p.same file = true := by
  constructor
  · rintro ⟨p, hp, hsame⟩
    refine ⟨p, List.mem_append.2 ?_, hsame⟩
    exact (mem_of_foldl_settle hp).imp_left Option.mem_toList.2
  · rintro ⟨p, hp, hsame⟩
    cases hlast : homes.foldl settle known with
    | none =>
      obtain ⟨rfl, rfl⟩ := foldl_settle_eq_none.1 hlast
      cases hp
    | some q =>
      refine ⟨q, rfl, Path.same_trans (one q ?_ p hp) hsame⟩
      exact List.mem_append.2 ((mem_of_foldl_settle hlast).imp_left Option.mem_toList.2)

theorem provided_apply (a : Analyser) (call : Call) :
    (a.apply call).provided = ⟨a.provided.patterns ++ (Call.pattern? call).toList⟩ := by
  cases call with
  | addClass container found => simp [apply, addClass, Call.pattern?, apply_ite]
  | addDependency source target =>
    rw [apply, addDependency_fst]
    cases Call.pair? a.provided (.addDependency source target) <;>
      simp [addPair_provided, Call.pattern?]
  | addProvided pattern =>
    rw [apply_addProvided]
    cases Call.pattern? (.addProvided pattern) <;> simp
  | resolve => simp [apply, (sameFacts_resolve a).provided, Call.pattern?]

theorem contains_classEdges_apply (a : Analyser) (call : Call) (d : Dependency String) :
    (a.apply call).classEdges.contains d = true ↔
      a.classEdges.contains d = true ∨ Call.pair? a.provided call = some d := by
  cases call with
  | addClass container found => simp [apply, addClass, Call.pair?, apply_ite]
  | addDependency source target =>
    rw [apply, addDependency_fst]
    cases Call.pair? a.provided (.addDependency source target) with
    | none => simp
    | some e => simp [contains_classEdges_addPair, eq_comm (a := d)]
  | addProvided pattern =>
    rw [apply_addProvided]
    cases Call.pattern? (.addProvided pattern) <;> simp [Call.pair?]
  | resolve => simp [apply, (sameFacts_resolve a).classEdges, Call.pair?]

/-- **A call keeps the record**, also one that is refused or changes nothing. -/
theorem records_apply (h : Records calls a) (call : Call) :
    Records (calls ++ [call]) (a.apply call) := by
  refine ⟨fun name => ?_, ?_, fun d => ?_⟩
  · rw [Call.lastHome?_concat, containerOf_apply]
    cases Call.home? name call with
    | none => exact h.homes name
    | some container => exact sameHome_settle _ container
  · rw [provided_apply, h.provided, Call.provided_concat]
  · rw [contains_classEdges_apply, h.classEdges, h.provided, Call.pairs_concat]
    simp

/-- **A call keeps the derived sets up to date**, or leaves the state with something pending. -/
theorem fresh_apply (h : a.Fresh) (call : Call) : (a.apply call).Fresh := by
  cases call with
  | addClass container found =>
    simp only [apply, addClass]
    split
    · exact h
    · exact fresh_of_pending rfl
  | addDependency source target =>
    rw [apply, addDependency_fst]
    cases Call.pair? a.provided (.addDependency source target) with
    | none => exact h
    | some d =>
      simp only [Option.elim_some, addPair]
      split
      · exact h
      · exact fresh_of_pending rfl
  | addProvided pattern =>
    rw [apply_addProvided]
    cases Call.pattern? (.addProvided pattern) with
    | none => exact h
    | some p => exact fresh_of_pending rfl
  | resolve => exact fresh_resolve h

/-! ## A whole history -/

theorem replay_concat (calls : List Call) (call : Call) :
    replay (calls ++ [call]) = (replay calls).apply call :=
  List.foldl_concat ..

theorem records_replay (calls : List Call) : Records calls (replay calls) := by
  induction calls using List.reverseRecOn with
  | nil => exact records_empty
  | append_singleton calls call ih =>
    rw [replay_concat]
    exact records_apply ih call

theorem fresh_replay (calls : List Call) : (replay calls).Fresh := by
  induction calls using List.reverseRecOn with
  | nil => exact fresh_empty
  | append_singleton calls call ih =>
    rw [replay_concat]
    exact fresh_apply ih call

/-! ## What the calls come to -/

/-- A result shows what the calls say. -/
structure Shown (calls : List Call) (r : AnalysisResult) : Prop where
  /-- Each class is in the container that it was last found in. -/
  homes : ∀ name, SameHome (r.classes.get? name) (Call.lastHome? calls name)
  /-- The class edges are the pairs that counted when their calls were made. -/
  classEdges : ∀ d, r.classEdges.contains d = true ↔ d ∈ Call.pairs calls
  fileEdges : ∀ d, r.fileEdges.contains d = true ↔
    ∃ source target, d = .edge source target ∧ Call.LeadsTo calls source target
  unresolved : ∀ d, r.unresolved.contains d = true ↔
    ∃ name user, d = .edge name user ∧ Call.IsMissing calls name user

theorem Records.isHome_iff (h : Records calls a) {file : Path} {name : String} :
    a.isHome file name = true ↔ ∃ p ∈ Call.lastHome? calls name, p.same file = true := by
  rw [Analyser.isHome_iff]
  exact (h.homes name).exists_same_iff

theorem Records.containerOf_eq_none (h : Records calls a) {name : String} :
    a.containerOf name = none ↔ Call.lastHome? calls name = none := by
  have := h.homes name
  revert this
  generalize a.containerOf name = known
  generalize Call.lastHome? calls name = last
  intro hrel
  cases hrel <;> simp

/-- **A fresh state that records the calls comes to what they say.** -/
theorem shown_result (h : Records calls a) (fresh : a.Fresh) : Shown calls a.result := by
  rw [result_of_fresh fresh]
  refine ⟨h.homes, h.classEdges, fun d => ?_, fun d => ?_⟩
  · rw [contains_fileEdges_derived]
    simp only [h.classEdges, h.isHome_iff, Call.LeadsTo]
  · rw [contains_unresolved_derived]
    simp only [h.classEdges, h.containerOf_eq_none, isMissing, h.provided, Call.IsMissing,
      Bool.and_eq_true, Bool.not_eq_true']

end JarGraph.Analyser
