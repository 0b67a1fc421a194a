import JarGraph.Proofs.Analyser.History
import JarGraph.Proofs.Extraction.Report
/-!
# What the found classes say

The classes that walks find, each with its container, as a history of an
analysis: first the patterns of the settings, then what each class
reports, in the order in which the classes are found. Since all patterns
come first, and no class lies in two containers, the history says of
each class and each reference what the found classes themselves say, and
the order no longer shows (`lastHome?_calls`, `edge_mem_pairs_calls`).
-/

namespace JarGraph.Analysis

open Analyser (Call)

variable {patterns : List String} {found : List (Path × Extraction)} {file : Path}
  {name source target : String}

/-! ## The found classes -/

/-- A class of the name was found in the container. -/
def Holds (found : List (Path × Extraction)) (file : Path) (name : String) : Prop :=
  ∃ p x, (p, x) ∈ found ∧ p.same file = true ∧ x.name = name

/-- A class of the name was found in the container and references another one. -/
def References (found : List (Path × Extraction)) (file : Path) (source target : String) : Prop :=
  ∃ p x, (p, x) ∈ found ∧ p.same file = true ∧ x.name = source ∧
    .reference source target ∈ x.sightings

/-- No name was found in two containers. -/
def Unambiguous (found : List (Path × Extraction)) : Prop :=
  ∀ name file other, Holds found file name → Holds found other name → file.same other = true

/-- Some pattern matches the class. -/
def IsProvided (patterns : List String) (name : String) : Prop :=
  ∃ pattern ∈ patterns, ∃ p, ProvidedPattern.compile pattern = .ok p ∧ p.glob.isMatch name = true

/-- Everything that was found was extracted from some data at its place. -/
def Extracted (found : List (Path × Extraction)) : Prop :=
  ∀ p x, (p, x) ∈ found → ∃ data depth, extract data p depth = .ok x

theorem Holds.mono {more : List (Path × Extraction)} (hsub : found ⊆ more)
    (h : Holds found file name) : Holds more file name := by
  obtain ⟨p, x, hx, rest⟩ := h
  exact ⟨p, x, hsub hx, rest⟩

theorem References.holds (h : References found file source target) : Holds found file source := by
  obtain ⟨p, x, hx, hsame, hname, -⟩ := h
  exact ⟨p, x, hx, hsame, hname⟩

/-- Where no class lies in two containers, a class that references another one does so from the
container that it was found in. -/
theorem references_iff {more : List (Path × Extraction)} (hsub : found ⊆ more)
    (unambiguous : Unambiguous more) :
    References found file source target ↔
      (∃ other, References found other source target) ∧ Holds more file source := by
  constructor
  · exact fun h => ⟨⟨file, h⟩, h.holds.mono hsub⟩
  · rintro ⟨⟨other, h⟩, hfile⟩
    have hsame := unambiguous source other file (h.holds.mono hsub) hfile
    obtain ⟨p, x, hx, hother, rest⟩ := h
    exact ⟨p, x, hx, Path.same_trans hother hsame, rest⟩

/-- The containers of some classes are those that hold one of them. -/
theorem contains_containers :
    ((found.map Prod.fst).foldl OrderedSet.insert OrderedSet.empty).contains file = true ↔
      ∃ name, Holds found file name := by
  simp only [OrderedSet.contains_foldl_insert, OrderedSet.contains_empty, Bool.false_eq_true,
    false_or, List.mem_map, Prod.exists, Path.compare_eq_iff_same]
  constructor
  · rintro ⟨_, ⟨p, x, hx, rfl⟩, hsame⟩
    exact ⟨x.name, p, x, hx, by rw [Path.same_comm, hsame], rfl⟩
  · rintro ⟨_, p, x, hx, hsame, -⟩
    exact ⟨p, ⟨p, x, hx, rfl⟩, by rw [Path.same_comm, hsame]⟩

/-! ## Their history -/

/-- The call that a sighting makes. -/
def call : Sighting → Call
  | .class container name => .addClass container name
  | .observed name => .addDependency name none
  | .reference source target => .addDependency source (some target)

/-- To take in what is reported is to make its calls. -/
theorem foldl_receive (sightings : List Sighting) (a : Analyser) :
    sightings.foldl Analyser.receive a = (sightings.map call).foldl Analyser.apply a := by
  have hstep : Analyser.receive = fun a sighting => a.apply (call sighting) :=
    funext₂ fun a sighting => by cases sighting <;> rfl
  rw [List.foldl_map, hstep]

/-- The history of the patterns and of what was found. -/
def calls (patterns : List String) (found : List (Path × Extraction)) : List Call :=
  patterns.map .addProvided ++ (found.flatMap (·.2.sightings)).map call

theorem pattern?_call (sighting : Sighting) : Call.pattern? (call sighting) = none := by
  cases sighting <;> rfl

theorem pattern?_of_mem_map_call {sightings : List Sighting} :
    ∀ c ∈ sightings.map call, Call.pattern? c = none := by
  intro c hc
  obtain ⟨sighting, -, rfl⟩ := List.mem_map.1 hc
  exact pattern?_call sighting

/-! ## Patterns -/

theorem isMatch_provided_calls (patterns : List String) (found : List (Path × Extraction))
    (name : String) :
    (Call.provided (calls patterns found)).isMatch name = true ↔ IsProvided patterns name := by
  rw [calls, Call.provided_append_of_none pattern?_of_mem_map_call, Call.provided,
    ProvidedClasses.isMatch, List.any_eq_true, List.filterMap_map]
  simp only [List.mem_filterMap, Function.comp_apply, Call.pattern?, IsProvided]
  constructor
  · rintro ⟨p, ⟨pattern, hmem, hp⟩, hmatch⟩
    cases hcompile : ProvidedPattern.compile pattern with
    | error cause => simp [hcompile, Except.toOption] at hp
    | ok q =>
      obtain rfl : q = p := by simpa [hcompile, Except.toOption] using hp
      exact ⟨pattern, hmem, q, hcompile, hmatch⟩
  · rintro ⟨pattern, hmem, p, hcompile, hmatch⟩
    exact ⟨p, ⟨pattern, hmem, by rw [hcompile]; rfl⟩, hmatch⟩

/-! ## Containers -/

/-- Where the history says that a class is, is where it was found, time after time. -/
theorem filterMap_home?_calls :
    (calls patterns found).filterMap (Call.home? name) =
      (found.flatMap (·.2.sightings)).filterMap fun sighting => Call.home? name (call sighting) := by
  have hnone : (patterns.map Call.addProvided).filterMap (Call.home? name) = [] := by
    rw [List.filterMap_map]
    exact List.filterMap_eq_nil_iff.2 fun _ _ => rfl
  rw [calls, List.filterMap_append, hnone, List.nil_append, List.filterMap_map]
  rfl

theorem home?_call {sighting : Sighting} :
    Call.home? name (call sighting) = some file ↔ sighting = .class file name := by
  cases sighting with
  | «class» container other => simp [call, Call.home?, and_comm]
  | observed | reference => simp [call, Call.home?]

theorem mem_filterMap_home? (patterns : List String) (extracted : Extracted found) :
    file ∈ (calls patterns found).filterMap (Call.home? name) ↔
      ∃ x, (file, x) ∈ found ∧ x.name = name := by
  rw [filterMap_home?_calls]
  simp only [List.mem_filterMap, List.mem_flatMap, home?_call]
  constructor
  · rintro ⟨_, ⟨⟨p, x⟩, hfound, hmem⟩, rfl⟩
    obtain ⟨data, depth, hx⟩ := extracted p x hfound
    obtain ⟨rfl, rfl⟩ := (Extraction.class_mem_sightings hx).1 hmem
    exact ⟨x, hfound, rfl⟩
  · rintro ⟨x, hfound, rfl⟩
    obtain ⟨data, depth, hx⟩ := extracted file x hfound
    exact ⟨_, ⟨(file, x), hfound, (Extraction.class_mem_sightings hx).2 ⟨rfl, rfl⟩⟩, rfl⟩

/-- Where a class was last found it was found. -/
theorem holds_of_lastHome? (extracted : Extracted found)
    (h : ∃ p ∈ Call.lastHome? (calls patterns found) name, p.same file = true) :
    Holds found file name := by
  obtain ⟨p, hlast, hsame⟩ := h
  have hmem := List.mem_of_getLast? hlast
  obtain ⟨x, hfound, hname⟩ := (mem_filterMap_home? _ extracted).1 hmem
  exact ⟨p, x, hfound, hsame, hname⟩

/-- **A class was last found in a container exactly if it was found there**, where no class is in
two of them. -/
theorem lastHome?_calls (extracted : Extracted found) (unambiguous : Unambiguous found) :
    (∃ p ∈ Call.lastHome? (calls patterns found) name, p.same file = true) ↔
      Holds found file name := by
  constructor
  · exact holds_of_lastHome? extracted
  · rintro ⟨p, x, hfound, hsame, hname⟩
    have hmem := (mem_filterMap_home? patterns extracted).2 ⟨x, hfound, hname⟩
    obtain ⟨q, hq⟩ := Option.isSome_iff_exists.1
      (List.getLast?_isSome.2 (List.ne_nil_of_mem hmem))
    obtain ⟨y, hfound', hname'⟩ := (mem_filterMap_home? _ extracted).1 (List.mem_of_getLast? hq)
    -- The last place is another one than this at most in its spelling.
    refine ⟨q, hq, unambiguous name q file ?_ ?_⟩
    · exact ⟨q, y, hfound', q.same_self, hname'⟩
    · exact ⟨p, x, hfound, hsame, hname⟩

theorem lastHome?_calls_eq_none (extracted : Extracted found) :
    Call.lastHome? (calls patterns found) name = none ↔ ∀ file, ¬ Holds found file name := by
  constructor
  · rintro hnone file ⟨p, x, hfound, -, hname⟩
    have hmem := (mem_filterMap_home? patterns extracted).2 ⟨x, hfound, hname⟩
    rw [List.getLast?_eq_none_iff.1 hnone] at hmem
    exact absurd hmem List.not_mem_nil
  · intro hnone
    refine List.getLast?_eq_none_iff.2 (List.eq_nil_iff_forall_not_mem.2 fun p hp => ?_)
    obtain ⟨x, hfound, hname⟩ := (mem_filterMap_home? _ extracted).1 hp
    exact hnone p ⟨p, x, hfound, p.same_self, hname⟩

/-! ## References -/

theorem pair?_call {known : ProvidedClasses} {sighting : Sighting} :
    Call.pair? known (call sighting) = some (.edge source target) ↔
      sighting = .reference source target ∧ known.isMatch target = false := by
  cases sighting with
  | reference a b =>
    constructor
    · intro h
      simp only [call, Call.pair?] at h
      split at h
      · cases h
      · rename_i hmatch
        obtain ⟨rfl, rfl⟩ : a = source ∧ b = target := by simpa [Dependency.edge] using h
        exact ⟨rfl, by simpa using hmatch⟩
    · rintro ⟨h, hmatch⟩
      cases h
      simp [call, Call.pair?, hmatch]
  | «class» | observed => simp [call, Call.pair?, Dependency.observed, Dependency.edge]

/-- **The pairs of the history are the references to classes that no pattern matches.** -/
theorem edge_mem_pairs_calls (extracted : Extracted found) :
    .edge source target ∈ Call.pairs (calls patterns found) ↔
      (∃ file, References found file source target) ∧ ¬ IsProvided patterns target := by
  have hnone : Call.pairs (patterns.map Call.addProvided) = [] := by
    refine List.filterMap_eq_nil_iff.2 fun ⟨c, n⟩ hc => ?_
    have hmem := List.mem_map.1 (List.fst_mem_of_mem_zipIdx hc)
    obtain ⟨pattern, -, rfl⟩ := hmem
    rfl
  have hprovided := isMatch_provided_calls patterns found target
  rw [calls, Call.provided_append_of_none pattern?_of_mem_map_call] at hprovided
  rw [calls, Call.pairs_append_of_none pattern?_of_mem_map_call, hnone, List.nil_append,
    List.filterMap_map, ← hprovided, Bool.not_eq_true]
  simp only [List.mem_filterMap, Function.comp_apply, List.mem_flatMap, pair?_call]
  constructor
  · rintro ⟨_, ⟨⟨p, x⟩, hfound, hmem⟩, rfl, hunmatched⟩
    obtain ⟨data, depth, hx⟩ := extracted p x hfound
    obtain ⟨-, rfl⟩ := Extraction.of_reference_mem_sightings hx hmem
    exact ⟨⟨p, p, x, hfound, p.same_self, rfl, hmem⟩, hunmatched⟩
  · rintro ⟨⟨file, p, x, hfound, -, -, hmem⟩, hunmatched⟩
    exact ⟨_, ⟨(p, x), hfound, hmem⟩, rfl, hunmatched⟩

end JarGraph.Analysis
