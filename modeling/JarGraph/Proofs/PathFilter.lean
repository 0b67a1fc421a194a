import JarGraph.PathFilter
import JarGraph.Proofs.Answer
/-!
# What a filter accepts

The patterns of a filter are tried together, and some of them by the file
name of a path alone. Where a path has a file name, that is what each
pattern does for itself: the filter accepts the paths that some include
pattern matches, or all where there is none, unless an exclude pattern
matches (`accepts_iff`).
-/

namespace JarGraph.PathFilter

variable {patterns includes excludes : List String} {path : String}

/-- A user's pattern, taken for itself, matches the path. -/
def Matches (pattern path : String) : Prop :=
  ∃ g, Glob.compile '\\' true pattern = .ok g ∧ g.isMatch path = true

/-- Some include pattern matches the path, or there is none, and no exclude pattern does. -/
def Takes (includes excludes : List String) (path : String) : Prop :=
  (includes = [] ∨ ∃ pattern ∈ includes, Matches pattern path) ∧
    ¬ ∃ pattern ∈ excludes, Matches pattern path

theorem isMemberMatch_of_named (h : Glob.isNameless path = false) (g : Glob) :
    g.isMemberMatch path = g.isMatch path := by
  rw [Glob.isMemberMatch, h, Bool.false_and, Bool.not_false, Bool.true_and]

/-- A set of patterns matches what one of them matches for itself. -/
theorem anyMatch_iff {globs : List Glob} (h : compileAll patterns = .ok globs)
    (hnamed : Glob.isNameless path = false) :
    anyMatch globs path = true ↔ ∃ pattern ∈ patterns, Matches pattern path := by
  obtain ⟨all, hall, hset⟩ := Answer.bind_eq_ok.1 h
  obtain rfl : all = globs := by
    split at hset
    · exact Except.ok.inj hset
    · cases hset
  have hmem : ∀ g, g ∈ all ↔ ∃ pattern ∈ patterns, Glob.compile '\\' true pattern = .ok g := by
    intro g
    rw [← List.mem_map, Answer.map_eq_of_mapM hall, List.mem_map]
    simp only [Except.ok.injEq, exists_eq_right]
  rw [anyMatch, List.any_eq_true]
  simp only [isMemberMatch_of_named hnamed, hmem, Matches]
  grind

/-- The patterns that a filter comes from, or that there are no include patterns. -/
theorem of_ofPatterns {filter : PathFilter} (h : ofPatterns includes excludes = .ok filter) :
    (includes = [] ∧ filter.includes = none ∨
      includes ≠ [] ∧ ∃ globs, compileAll includes = .ok globs ∧ filter.includes = some globs) ∧
    compileAll excludes = .ok filter.excludes := by
  unfold ofPatterns at h
  dsimp only at h
  split at h
  · rename_i hnone
    obtain ⟨included, hincluded, h⟩ := Answer.bind_eq_ok.1 h
    obtain rfl := Except.ok.inj hincluded
    obtain ⟨excluded, hexcluded, h⟩ := Answer.bind_eq_ok.1 h
    obtain rfl := Except.ok.inj h
    exact ⟨.inl ⟨List.isEmpty_iff.1 hnone, rfl⟩, hexcluded⟩
  · rename_i hsome
    obtain ⟨included, hincluded, h⟩ := Answer.bind_eq_ok.1 h
    obtain ⟨globs, hglobs, rfl⟩ := Answer.map_eq_ok.1 hincluded
    obtain ⟨excluded, hexcluded, h⟩ := Answer.bind_eq_ok.1 h
    obtain rfl := Except.ok.inj h
    exact ⟨.inr ⟨mt List.isEmpty_iff.2 hsome, globs, hglobs, rfl⟩, hexcluded⟩

/-- **A filter accepts** a path with a file name by what its patterns do for themselves. -/
theorem accepts_iff {filter : PathFilter} (h : ofPatterns includes excludes = .ok filter)
    (hnamed : Glob.isNameless path = false) :
    filter.accepts path = true ↔ Takes includes excludes path := by
  obtain ⟨hincludes, hexcludes⟩ := of_ofPatterns h
  rw [accepts, Bool.and_eq_true, Bool.not_eq_true', ← Bool.not_eq_true,
    anyMatch_iff hexcludes hnamed, Takes, and_comm]
  refine and_congr_left fun _ => ?_
  rcases hincludes with ⟨hnone, hall⟩ | ⟨hsome, globs, hglobs, hall⟩
  · rw [hall]
    exact iff_of_true rfl (.inl hnone)
  · rw [hall, or_iff_right hsome]
    exact anyMatch_iff hglobs hnamed

end JarGraph.PathFilter
