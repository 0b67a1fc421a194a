/-!
# Answers

What it takes for an answer that is put together from others to be an
answer and no failure.
-/

namespace JarGraph.Answer

variable {ε α β : Type} {a : α} {b : β}

/-- Two steps answer where the first one does, and the second one on what the first one answers. -/
theorem bind_eq_ok {first : Except ε α} {next : α → Except ε β} :
    first >>= next = .ok b ↔ ∃ a, first = .ok a ∧ next a = .ok b := by
  cases first with
  | error cause => simp [bind, Except.bind]
  | ok a => simp [bind, Except.bind]

theorem map_eq_ok {answer : Except ε α} {f : α → β} :
    answer.map f = .ok b ↔ ∃ a, answer = .ok a ∧ f a = b := by
  cases answer with
  | error cause => simp [Except.map]
  | ok a => simp [Except.map]

theorem map_eq_error {answer : Except ε α} {f : α → β} {e : ε} :
    answer.map f = .error e ↔ answer = .error e := by
  cases answer with
  | error cause => simp [Except.map]
  | ok a => simp [Except.map]

theorem toOption_eq_some {answer : Except ε α} : answer.toOption = some a ↔ answer = .ok a := by
  cases answer with
  | error cause => simp [Except.toOption]
  | ok b => simp [Except.toOption]

/-- Answers come to a list where all of them are answers. -/
theorem map_eq_of_mapM {ι : Type} {f : ι → Except ε α} {items : List ι} {all : List α}
    (h : items.mapM f = .ok all) : items.map f = all.map .ok := by
  induction items generalizing all with
  | nil =>
    obtain rfl := Except.ok.inj h
    rfl
  | cons item items ih =>
    rw [List.mapM_cons] at h
    obtain ⟨a, ha, h⟩ := bind_eq_ok.1 h
    obtain ⟨rest, hrest, h⟩ := bind_eq_ok.1 h
    obtain rfl := Except.ok.inj h
    rw [List.map_cons, List.map_cons, ← ih hrest, ← ha]

/-- Answers come to a list if none of them is a failure. -/
theorem exists_mapM {answers : List (Except ε α)} (h : ∀ x ∈ answers, ∃ a, x = .ok a) :
    ∃ all, answers.mapM id = .ok all := by
  induction answers with
  | nil => exact ⟨[], rfl⟩
  | cons answer answers ih =>
    obtain ⟨⟨a, rfl⟩, hmore⟩ := List.forall_mem_cons.1 h
    obtain ⟨all, hall⟩ := ih hmore
    refine ⟨a :: all, ?_⟩
    rw [List.mapM_cons, hall]
    rfl

end JarGraph.Answer
