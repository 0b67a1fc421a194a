import JarGraph.Proofs.Analyser.Views
import JarGraph.Proofs.Ordered
/-!
# Calls in another order

Two analysers that start from the same facts and take the same classes
and references, in orders that agree on where each single class was
found, come to the same, whatever was asked on the way
(`look_of_reordered`). Three facts carry this. Where a class is depends
on the calls for that class alone, in their order (`containerOf_foldl`).
The class edges are a set that every call for a reference adds to by
itself (`contains_classEdges_foldl`). And what an analyser comes to is
determined by where classes are, by the class edges and by which classes
its patterns match (`result_of_agree`), so that neither the order of the
patterns nor the times of resolution show. How a container is spelled
shows in the spelling of its paths and nowhere else (`sameViews_result`).
-/

namespace JarGraph.Analyser

variable {a b : Analyser} {calls calls' : List Call}

/-! ## Classes and references -/

namespace Call

/-- Whether a call adds a class or a reference. -/
def isAddition : Call → Bool
  | addClass _ _ => true
  | addDependency _ _ => true
  | addProvided _ => false
  | resolve => false

theorem pattern?_of_isAddition {call : Call} (h : call.isAddition = true) :
    pattern? call = none := by
  cases call with
  | addClass | addDependency | resolve => rfl
  | addProvided => cases h

/-- What a call records depends on which classes the patterns match. -/
theorem pair?_congr {known known' : ProvidedClasses}
    (h : ∀ name, known.isMatch name = known'.isMatch name) (call : Call) :
    pair? known call = pair? known' call := by
  cases call with
  | addDependency source target => cases target <;> simp [pair?, h]
  | addClass | addProvided | resolve => rfl

end Call

/-- Additions leave the patterns alone. -/
theorem provided_apply_of_isAddition (a : Analyser) {call : Call} (h : call.isAddition = true) :
    (a.apply call).provided = a.provided := by
  rw [provided_apply, Call.pattern?_of_isAddition h, Option.toList_none, List.append_nil]

theorem provided_foldl (a : Analyser) (additions : ∀ call ∈ calls, call.isAddition = true) :
    (calls.foldl apply a).provided = a.provided := by
  induction calls generalizing a with
  | nil => rfl
  | cons call calls ih =>
    obtain ⟨hcall, hcalls⟩ := List.forall_mem_cons.1 additions
    rw [List.foldl_cons, ih _ hcalls, provided_apply_of_isAddition a hcall]

/-- **The class edges are a set that each addition adds to by itself.** -/
theorem contains_classEdges_foldl (a : Analyser)
    (additions : ∀ call ∈ calls, call.isAddition = true) {d : Dependency String} :
    (calls.foldl apply a).classEdges.contains d = true ↔
      a.classEdges.contains d = true ∨ ∃ call ∈ calls, Call.pair? a.provided call = some d := by
  induction calls generalizing a with
  | nil => simp
  | cons call calls ih =>
    obtain ⟨hcall, hcalls⟩ := List.forall_mem_cons.1 additions
    have hprovided := provided_apply_of_isAddition a hcall
    rw [List.foldl_cons, ih _ hcalls, contains_classEdges_apply, hprovided, or_assoc]
    simp only [List.mem_cons, exists_eq_or_imp]

/-! ## What an analyser comes to -/

/-- Two analysers agree on where classes are, on the class edges, and on which classes are provided,
by whatever patterns. -/
structure Agree (a b : Analyser) : Prop where
  classes : a.classes = b.classes
  classEdges : a.classEdges = b.classEdges
  isMatch : ∀ name, a.provided.isMatch name = b.provided.isMatch name

theorem Agree.of_sameFacts (h : SameFacts a b) : Agree a b :=
  ⟨h.classes, h.classEdges, fun _ => by rw [h.provided]⟩

theorem Agree.symm (h : Agree a b) : Agree b a :=
  ⟨h.classes.symm, h.classEdges.symm, fun name => (h.isMatch name).symm⟩

theorem Agree.trans {c : Analyser} (h : Agree a b) (h' : Agree b c) : Agree a c :=
  ⟨h.classes.trans h'.classes, h.classEdges.trans h'.classEdges,
    fun name => (h.isMatch name).trans (h'.isMatch name)⟩

/-- The derived sets read the patterns for what they match. -/
theorem derived_of_agree (h : Agree a b) : a.derived = b.derived := by
  have home (name : String) : a.containerOf name = b.containerOf name := by
    simp only [containerOf, h.classes]
  have file : a.fileEdge? = b.fileEdge? := by
    funext edge
    simp only [fileEdge?, home]
  have missing : a.missing? = b.missing? := by
    funext edge
    rw [missing?, missing?, isMissing, isMissing, home, h.isMatch]
  rw [derived, derived, foldl_deriveEdge, foldl_deriveEdge, h.classEdges, file, missing]

theorem result_of_agree (h : Agree a b) (ha : a.Fresh) (hb : b.Fresh) : a.result = b.result := by
  rw [result_of_fresh ha, result_of_fresh hb, derived_of_agree h, h.classes, h.classEdges]

/-- **Additions in another order come to the same facts.** -/
theorem agree_foldl (h : Agree a b) (additions : ∀ call ∈ calls, call.isAddition = true)
    (perm : calls.Perm calls')
    (order : ∀ name, calls.filterMap (Call.home? name) = calls'.filterMap (Call.home? name)) :
    Agree (calls.foldl apply a) (calls'.foldl apply b) := by
  have additions' : ∀ call ∈ calls', call.isAddition = true :=
    fun call hcall => additions call (perm.mem_iff.2 hcall)
  refine ⟨OrderedMap.ext_get? fun name => ?_, OrderedSet.ext_contains fun d => ?_, fun name => ?_⟩
  · have home := containerOf_foldl a calls name
    rw [order name, containerOf, containerOf, h.classes] at home
    exact home.trans (containerOf_foldl b calls' name).symm
  · rw [contains_classEdges_foldl a additions, contains_classEdges_foldl b additions', h.classEdges]
    simp only [perm.mem_iff, Call.pair?_congr h.isMatch]
  · rw [provided_foldl a additions, provided_foldl b additions', h.isMatch]

/-! ## Containers in another spelling -/

/-- Two analysers agree on where classes are, up to how containers are spelled, on the class edges,
and on which classes are provided. -/
structure Alike (a b : Analyser) : Prop where
  isHome : ∀ file name, a.isHome file name = true ↔ b.isHome file name = true
  classEdges : a.classEdges = b.classEdges
  isMatch : ∀ name, a.provided.isMatch name = b.provided.isMatch name

theorem Alike.sameHome (h : Alike a b) (name : String) :
    SameHome (a.containerOf name) (b.containerOf name) := by
  have home := fun file => h.isHome file name
  simp only [Analyser.isHome_iff] at home
  cases ha : a.containerOf name with
  | none =>
    cases hb : b.containerOf name with
    | none => exact .none
    | some q =>
      obtain ⟨p, hp, -⟩ := (home q).2 ⟨q, hb, q.same_self⟩
      cases ha.symm.trans hp
  | some p =>
    obtain ⟨q, hq, hsame⟩ := (home p).1 ⟨p, ha, p.same_self⟩
    rw [hq]
    exact .some (Path.same_comm q p ▸ hsame)

/-- Two results are equal, where paths that are the same count as equal. -/
structure SameViews (r r' : AnalysisResult) : Prop where
  classes : List.Forall₂ (fun p q => p.1 = q.1 ∧ p.2.same q.2 = true)
    r.classes.toList r'.classes.toList
  classEdges : r.classEdges = r'.classEdges
  fileEdges : r.fileEdges.sameElements r'.fileEdges = true
  unresolved : r.unresolved = r'.unresolved

/-- **How containers are spelled shows in the spelling of paths only.** -/
theorem sameViews_result (h : Alike a b) (ha : a.Fresh) (hb : b.Fresh) :
    SameViews a.result b.result := by
  have nowhere (name : String) : a.containerOf name = none ↔ b.containerOf name = none := by
    have home := h.sameHome name
    revert home
    generalize a.containerOf name = home, b.containerOf name = home'
    rintro (_ | _) <;> simp
  rw [result_of_fresh ha, result_of_fresh hb]
  refine ⟨OrderedMap.forall₂_of_get? h.sameHome, h.classEdges,
    OrderedSet.sameElements_of_contains fun d => ?_, OrderedSet.ext_contains fun d => ?_⟩
  · simp only [contains_fileEdges_derived, h.classEdges, h.isHome]
  · simp only [contains_unresolved_derived, h.classEdges, isMissing, h.isMatch, nowhere]

/-! ## Two runs -/

/-- A run that goes on comes to the facts of the mutating calls that it goes on with. -/
theorem agree_run_append (before steps : List Operation) :
    Agree (run (before ++ steps)) ((mutations steps).foldl apply (replay (mutations before))) := by
  have facts := Agree.of_sameFacts (sameFacts_run (before ++ steps))
  have hreplay : replay (mutations (before ++ steps)) =
      (mutations steps).foldl apply (replay (mutations before)) := by
    rw [mutations, List.filterMap_append, replay, List.foldl_append]
    rfl
  rwa [hreplay] at facts

/-- Patterns alone record no class and no reference. -/
theorem replay_of_patterns (h : ∀ call ∈ calls, ∃ pattern, call = .addProvided pattern) :
    (replay calls).classes = .empty ∧ (replay calls).classEdges = .empty := by
  induction calls using List.reverseRecOn with
  | nil => exact ⟨rfl, rfl⟩
  | append_singleton calls call ih =>
    obtain ⟨hcalls, hcall⟩ := List.forall_mem_append.1 h
    obtain ⟨pattern, rfl⟩ := hcall call (List.mem_singleton_self _)
    rw [replay_concat, apply_addProvided]
    cases Call.pattern? (.addProvided pattern) <;> exact ih hcalls

/-- **Analysers that hold the same patterns and nothing else agree**, in whatever order and however
often the patterns were given. -/
theorem agree_of_patterns {before before' : List Operation}
    (h : ∀ call ∈ mutations before, ∃ pattern, call = .addProvided pattern)
    (h' : ∀ call ∈ mutations before', ∃ pattern, call = .addProvided pattern)
    (same : ∀ p, p ∈ (run before).provided.patterns ↔ p ∈ (run before').provided.patterns) :
    Agree (run before) (run before') := by
  have facts := sameFacts_run before
  have facts' := sameFacts_run before'
  obtain ⟨hclasses, hedges⟩ := replay_of_patterns h
  obtain ⟨hclasses', hedges'⟩ := replay_of_patterns h'
  refine ⟨?_, ?_, fun name => ?_⟩
  · rw [facts.classes, facts'.classes, hclasses, hclasses']
  · rw [facts.classEdges, facts'.classEdges, hedges, hedges']
  · rw [Bool.eq_iff_iff, ProvidedClasses.isMatch, ProvidedClasses.isMatch, List.any_eq_true,
      List.any_eq_true]
    simp only [same]

/-- **The order of classes and references does not show.** Let two analysers agree, as those do that
were given the same patterns and nothing else. If both then take the same classes and references,
each class in the same containers one after the other, then every question has one answer, spelled
alike and in the same order, wherever either of them brought its derived sets up to date. -/
theorem look_of_reordered {before before' steps steps' : List Operation}
    (start : Agree (run before) (run before'))
    (additions : ∀ call ∈ mutations steps, call.isAddition = true)
    (perm : (mutations steps).Perm (mutations steps'))
    (order : ∀ name, (mutations steps).filterMap (Call.home? name) =
      (mutations steps').filterMap (Call.home? name)) {β : Type} (view : View β) :
    (view.look (run (before ++ steps))).2 = (view.look (run (before' ++ steps'))).2 := by
  have replayed : Agree (replay (mutations before)) (replay (mutations before')) :=
    (Agree.of_sameFacts (sameFacts_run before)).symm.trans
      (start.trans (.of_sameFacts (sameFacts_run before')))
  have facts : Agree (run (before ++ steps)) (run (before' ++ steps')) :=
    (agree_run_append before steps).trans
      ((agree_foldl replayed additions perm order).trans (agree_run_append before' steps').symm)
  rw [look_eq_of_result, look_eq_of_result, result_of_agree facts (fresh_run _) (fresh_run _)]

/-- A class that moves to another container, and one that it references. -/
def classesFirst : List Operation :=
  [.call (.addClass ⟨"a.jar"⟩ "A"), .call (.addClass ⟨"b.jar"⟩ "A"), .ask .fileEdges,
    .call (.addClass ⟨"c.jar"⟩ "B"), .call (.addDependency "A" (some "B"))]

/-- The same with the reference before its classes. -/
def referencesFirst : List Operation :=
  [.call (.addDependency "A" (some "B")), .ask .unresolved, .call (.addClass ⟨"c.jar"⟩ "B"),
    .call (.addClass ⟨"a.jar"⟩ "A"), .call .resolve, .call (.addClass ⟨"b.jar"⟩ "A")]

/-- Two patterns of provided classes, one after the other. -/
def providing (first second : String) : List Operation :=
  [.call (.addProvided first), .call (.addProvided second)]

theorem agree_providing (first second : String) :
    Agree (run (providing first second)) (run (providing second first)) := by
  have only (one other : String) :
      ∀ call ∈ mutations (providing one other), ∃ pattern, call = .addProvided pattern := by
    intro call hcall
    rcases List.mem_pair.1 hcall with rfl | rfl
    · exact ⟨one, rfl⟩
    · exact ⟨other, rfl⟩
  have provided (one other : String) : (run (providing one other)).provided =
      Call.provided ([.addProvided one] ++ [.addProvided other]) :=
    (sameFacts_run _).provided.trans (records_replay _).provided
  refine agree_of_patterns (only _ _) (only _ _) fun p => ?_
  rw [provided, provided, Call.provided, Call.provided, List.filterMap_append,
    List.filterMap_append, List.mem_append, List.mem_append, or_comm]

/-- Neither the order of the patterns shows, nor that `B` was missing for a while. -/
theorem look_of_reordered_moved :
    Agree (run (providing "x.*" "y.*")) (run (providing "y.*" "x.*")) ∧
    (∀ call ∈ mutations classesFirst, call.isAddition = true) ∧
    (mutations classesFirst).Perm (mutations referencesFirst) ∧
    (∀ name, (mutations classesFirst).filterMap (Call.home? name) =
      (mutations referencesFirst).filterMap (Call.home? name)) ∧
    (View.result.look (run (providing "x.*" "y.*" ++ classesFirst))).2 =
      (View.result.look (run (providing "y.*" "x.*" ++ referencesFirst))).2 := by
  have additions : ∀ call ∈ mutations classesFirst, call.isAddition = true := by decide
  have perm : (mutations classesFirst).Perm (mutations referencesFirst) := by decide
  have order (name : String) : (mutations classesFirst).filterMap (Call.home? name) =
      (mutations referencesFirst).filterMap (Call.home? name) := by
    have first : mutations classesFirst = [.addClass ⟨"a.jar"⟩ "A", .addClass ⟨"b.jar"⟩ "A",
      .addClass ⟨"c.jar"⟩ "B", .addDependency "A" (some "B")] := rfl
    have second : mutations referencesFirst = [.addDependency "A" (some "B"),
      .addClass ⟨"c.jar"⟩ "B", .addClass ⟨"a.jar"⟩ "A", .addClass ⟨"b.jar"⟩ "A"] := rfl
    have skipped (target : Option String) : Call.home? name (.addDependency "A" target) = none :=
      rfl
    have placed (container : Path) (found : String) : Call.home? name (.addClass container found) =
      if found = name then some container else none := rfl
    rw [first, second]
    by_cases hA : "A" = name
    · subst hA
      decide
    · by_cases hB : "B" = name <;>
        simp only [List.filterMap_cons, List.filterMap_nil, skipped, placed, hA, hB, if_true,
          if_false]
  have start := agree_providing "x.*" "y.*"
  exact ⟨start, additions, perm, order, look_of_reordered start additions perm order .result⟩

end JarGraph.Analyser
