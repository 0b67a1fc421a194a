import JarGraph.Proofs.Analyser.History
/-!
# Questions at any time

Whatever is asked of an analyser, and whenever, the answer is what the
mutating calls before the question say by themselves
(`answers_of_history`). When the derived sets were brought up to date,
by a question or on request, does not show in any answer: two runs with
the same mutating calls hold the same facts (`sameFacts_run`), and a
fresh state comes to what its facts say.
-/

namespace JarGraph.Analyser

variable {a b : Analyser}

/-- What can be asked of an analyser, by the type of the answer. -/
inductive View : Type → Type where
  | classes : View (OrderedMap String Path)
  | containerOf (name : String) : View (Option Path)
  | classEdges : View (DependencySet String)
  | fileEdges : View (DependencySet Path)
  | unresolved : View (DependencySet String)
  /-- All of it, when the analysis ends. -/
  | result : View AnalysisResult

namespace View

/-- The answer, and the state after it. Who asks for a derived set has it brought up to date. -/
def look (a : Analyser) {β : Type} : View β → Analyser × β
  | classes => (a, a.classes)
  | containerOf name => (a, a.containerOf name)
  | classEdges => (a, a.classEdges)
  | fileEdges => (a.resolve, a.resolve.fileEdges)
  | unresolved => (a.resolve, a.resolve.unresolved)
  | result => (a.resolve, a.result)

/-- The answer that a result holds. -/
def of (r : AnalysisResult) {β : Type} : View β → β
  | classes => r.classes
  | containerOf name => r.classes.get? name
  | classEdges => r.classEdges
  | fileEdges => r.fileEdges
  | unresolved => r.unresolved
  | result => r

end View

/-- A step of a run: a call or a question. -/
inductive Operation : Type 1 where
  | call (call : Call)
  | ask {β : Type} (view : View β)

namespace Operation

/-- The state after a step. -/
def step (a : Analyser) : Operation → Analyser
  | call c => a.apply c
  | ask view => (view.look a).1

/-- The call that changes what is known, if the step makes one. -/
def mutation? : Operation → Option Call
  | call .resolve => none
  | call c => some c
  | ask _ => none

end Operation

/-- The state after some steps. -/
def run (steps : List Operation) : Analyser :=
  steps.foldl Operation.step .empty

/-- The mutating calls among some steps. -/
def mutations (steps : List Operation) : List Call :=
  steps.filterMap Operation.mutation?

/-! ## Questions leave the facts alone -/

theorem sameFacts_look (a : Analyser) {β : Type} (view : View β) :
    SameFacts (view.look a).1 a := by
  cases view with
  | fileEdges | unresolved | result => exact sameFacts_resolve a
  | classes | containerOf | classEdges => exact ⟨rfl, rfl, rfl⟩

theorem fresh_look (h : a.Fresh) {β : Type} (view : View β) : (view.look a).1.Fresh := by
  cases view with
  | fileEdges | unresolved | result => exact fresh_resolve h
  | classes | containerOf | classEdges => exact h

theorem look_eq_of_result (a : Analyser) {β : Type} (view : View β) :
    (view.look a).2 = view.of a.result := by
  have facts := sameFacts_resolve a
  cases view with
  | fileEdges | unresolved | result => rfl
  | classes => exact facts.classes.symm
  | containerOf name => exact congrArg (OrderedMap.get? · name) facts.classes.symm
  | classEdges => exact facts.classEdges.symm

/-- **What a call does to the facts depends on the facts alone.** -/
theorem sameFacts_apply (h : SameFacts a b) (call : Call) :
    SameFacts (a.apply call) (b.apply call) := by
  cases call with
  | addClass container found =>
    have hhome : a.isHome container found = b.isHome container found := by
      simp only [isHome, containerOf, h.classes]
    simp only [apply, addClass, hhome, h.classes]
    split
    · exact h
    · exact ⟨rfl, h.provided, h.classEdges⟩
  | addDependency source target =>
    rw [apply, apply, addDependency_fst, addDependency_fst, h.provided]
    cases Call.pair? b.provided (.addDependency source target) with
    | none => exact h
    | some d =>
      simp only [Option.elim_some, addPair, h.classEdges]
      split
      · exact h
      · exact ⟨h.classes, h.provided, rfl⟩
  | addProvided pattern =>
    rw [apply_addProvided, apply_addProvided, h.provided]
    cases Call.pattern? (.addProvided pattern) with
    | none => exact h
    | some p => exact ⟨h.classes, rfl, h.classEdges⟩
  | resolve =>
    have ha := sameFacts_resolve a
    have hb := sameFacts_resolve b
    exact ⟨ha.classes.trans (h.classes.trans hb.classes.symm),
      ha.provided.trans (h.provided.trans hb.provided.symm),
      ha.classEdges.trans (h.classEdges.trans hb.classEdges.symm)⟩

theorem SameFacts.trans {c : Analyser} (h : SameFacts a b) (h' : SameFacts b c) : SameFacts a c :=
  ⟨h.classes.trans h'.classes, h.provided.trans h'.provided, h.classEdges.trans h'.classEdges⟩

/-- A step brings the facts to where its mutating call brings them, if it makes one. -/
theorem sameFacts_step (h : SameFacts a b) (s : Operation) :
    SameFacts (s.step a) (s.mutation?.elim b b.apply) := by
  cases s with
  | ask view => exact (sameFacts_look a view).trans h
  | call c =>
    cases c with
    | resolve => exact (sameFacts_resolve a).trans h
    | addClass | addDependency | addProvided =>
      rw [Operation.step, Operation.mutation?, Option.elim_some]
      · exact sameFacts_apply h _
      · simp

theorem fresh_step (h : a.Fresh) (s : Operation) : (s.step a).Fresh := by
  cases s with
  | ask view => exact fresh_look h view
  | call c => exact fresh_apply h c

/-! ## A whole run -/

/-- **The facts after a run are those of its mutating calls.** -/
theorem sameFacts_run (steps : List Operation) :
    SameFacts (run steps) (replay (mutations steps)) := by
  induction steps using List.reverseRecOn with
  | nil => exact ⟨rfl, rfl, rfl⟩
  | append_singleton steps s ih =>
    have hrun : run (steps ++ [s]) = s.step (run steps) := List.foldl_concat ..
    have hreplay : replay (mutations (steps ++ [s])) =
        s.mutation?.elim (replay (mutations steps)) (replay (mutations steps)).apply := by
      unfold mutations
      rw [List.filterMap_append]
      cases h : s.mutation? with
      | none => simp [h]
      | some c => simpa [h] using replay_concat _ c
    rw [hrun, hreplay]
    exact sameFacts_step ih s

theorem fresh_run (steps : List Operation) : (run steps).Fresh := by
  induction steps using List.reverseRecOn with
  | nil => exact fresh_empty
  | append_singleton steps s ih =>
    have hrun : run (steps ++ [s]) = s.step (run steps) := List.foldl_concat ..
    rw [hrun]
    exact fresh_step ih s

/-- Two fresh states with the same facts come to the same. -/
theorem result_congr (h : SameFacts a b) (ha : a.Fresh) (hb : b.Fresh) : a.result = b.result := by
  rw [result_of_fresh ha, result_of_fresh hb, derived_congr h, h.classes, h.classEdges]

/-- **Every answer is a function of the mutating calls before the question.** It is the one that the
result of these calls holds, which in turn shows what the calls say; and the stored sets of a state
with nothing pending are those that a recomputation from its facts gives. -/
theorem answers_of_history (steps : List Operation) :
    (∀ {β : Type} (view : View β),
      (view.look (run steps)).2 = view.of (replay (mutations steps)).result) ∧
    Shown (mutations steps) (replay (mutations steps)).result ∧
    ((run steps).isResolved = true →
      (run steps).fileEdges = (run steps).derived.fileEdges ∧
        (run steps).unresolved = (run steps).derived.unresolved) := by
  refine ⟨fun {β} view => ?_, ?_, fresh_run steps⟩
  · rw [look_eq_of_result, result_congr (sameFacts_run steps) (fresh_run steps) (fresh_replay _)]
  · exact shown_result (records_replay _) (fresh_replay _)

end JarGraph.Analyser
