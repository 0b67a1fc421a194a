import JarGraph.Proofs.Extraction.Names
import JarGraph.Proofs.Run.Places
/-!
# The names that classes go by

A class goes by its class constant as it is written, wherever it is
reported; but what references it by any class constant asks for the name
that the constant stands for. The two differ where the constant of a class
is wrapped as a descriptor. So it is just such a class that references
itself, and that does not supply what is asked for
(`named_by_constant`).
-/

namespace JarGraph

open Descriptor (internalName ClassConstant)

/-! ## The report of a class -/

namespace Extraction

variable {data : Bytes} {c : ClassFile.Class} {container : Path} {x : Extraction}
variable {raw name : String}

/-- A class has its constant for a name at either depth. -/
theorem exists_extract_name (decoded : ClassFile.Class.parse data = .ok c) (container : Path)
    (depth : Depth) : ∃ x, extract data container depth = .ok x ∧ x.name = c.name := by
  cases depth with
  | inventory =>
    rw [extract_inventory_eq, ClassFile.parse_header_of_class decoded]
    exact ⟨_, rfl, rfl⟩
  | dependencies =>
    rw [extract_dependencies_eq, decoded]
    exact ⟨_, rfl, rfl⟩

/-- What a class references by a class constant of its pool is reported by the name that the
constant stands for, unless the class has this name itself. -/
theorem reference_mem_sightings (decoded : ClassFile.Class.parse data = .ok c)
    (hx : extract data container .dependencies = .ok x) (hraw : .class raw ∈ c.references)
    (hname : internalName raw = some name) :
    .reference c.name name ∈ x.sightings ↔ name ≠ c.name := by
  obtain rfl := Except.ok.inj ((extract_of_parse decoded container).symm.trans hx)
  have hmentioned : name ∈ mentioned c := (mem_mentioned decoded).2 (.inl ⟨raw, hraw, hname⟩)
  rw [reference_mem_report]
  exact ⟨fun h => h.2.2, fun hne => ⟨rfl, hmentioned, hne⟩⟩

end Extraction

/-! ## What supplies a reference -/

namespace Analysis

variable {a : Analyser} {found : List (Path × Extraction)} {file : Path} {x : Extraction}
variable {user name : String}

/-- **A reference that was fed is supplied** by a class that was fed and goes by just its name. -/
theorem contains_unresolved_feed (fresh : a.Fresh) (unknown : a.containerOf name = none)
    (missing : a.isMissing name = true) (extracted : Extracted found) (hx : (file, x) ∈ found)
    (hreference : .reference user name ∈ x.sightings) :
    (feed a found).result.unresolved.contains (.edge name user) = true ↔
      ∀ p y, (p, y) ∈ found → y.name ≠ name := by
  have hprovided : a.provided.isMatch name = false := by
    have := missing
    rw [Analyser.isMissing, Bool.and_eq_true] at this
    simpa using this.2
  have hedge : (feed a found).classEdges.contains (.edge user name) = true :=
    contains_classEdges_feed.2 (.inr ⟨_, List.mem_flatMap.2 ⟨_, hx, hreference⟩,
      pair?_call.2 ⟨rfl, hprovided⟩⟩)
  have hmissing : (feed a found).isMissing name = true := by
    rw [Analyser.isMissing, provided_feed]
    exact missing
  rw [Analyser.result_of_fresh (fresh_feed fresh found), Analyser.contains_unresolved_derived]
  have hnowhere : (feed a found).containerOf name = none ↔
      ∀ p y, (p, y) ∈ found → y.name ≠ name := by
    rw [containerOf_feed_eq_none extracted, and_iff_right unknown]
    constructor
    · exact fun h p y hy hname => h ⟨p, p, y, hy, p.same_self, hname⟩
    · rintro h ⟨-, p, y, hy, -, hname⟩
      exact h p y hy hname
  rw [← hnowhere]
  constructor
  · rintro ⟨other, _, hsame, -, hnone, -⟩
    obtain rfl : name = other := congrArg Dependency.source hsame
    exact hnone
  · exact fun hnone => ⟨name, user, rfl, hedge, hnone, hmissing⟩

end Analysis

/-! ## Constants and names -/

/-- **A class goes by its constant**, as it is written and at either depth: it is registered under
it, and its references come from it. A reference by any class constant goes to the name that the
constant stands for. So a class references itself exactly if its constant is not the name that it
stands for; and however the others are spelled, just a class whose constant is the name supplies a
reference to it. -/
theorem named_by_constant (data : Bytes) (c : ClassFile.Class) (container : Path)
    (decoded : ClassFile.Class.parse data = .ok c) :
    (∀ depth, ∃ x, extract data container depth = .ok x ∧ x.name = c.name ∧
      ∀ file name, .class file name ∈ x.sightings ↔ file = container ∧ name = c.name) ∧
    ∀ x, extract data container .dependencies = .ok x →
      (∀ source target, .reference source target ∈ x.sightings → source = c.name) ∧
      (∀ name, internalName c.name = some name →
        (.reference c.name name ∈ x.sightings ↔ name ≠ c.name)) ∧
      ∀ raw name, .class raw ∈ c.references → internalName raw = some name → name ≠ c.name →
        .reference c.name name ∈ x.sightings ∧
        ∀ (a : Analyser) (found : List (Path × Extraction)), a.Fresh → a.containerOf name = none →
          a.isMissing name = true → Analysis.Extracted found → (container, x) ∈ found →
            ((Analysis.feed a found).result.unresolved.contains (.edge name c.name) = true ↔
              ∀ p y, (p, y) ∈ found → y.name ≠ name) := by
  refine ⟨fun depth => ?_, fun x hx => ⟨fun source target hmem => ?_, fun name hname => ?_,
    fun raw name hraw hname hne => ?_⟩⟩
  · obtain ⟨x, hx, hname⟩ := Extraction.exists_extract_name decoded container depth
    refine ⟨x, hx, hname, fun file name => ?_⟩
    rw [Extraction.class_mem_sightings hx, hname]
  · obtain ⟨y, hy, hname⟩ := Extraction.exists_extract_name decoded container .dependencies
    obtain rfl := Except.ok.inj (hy.symm.trans hx)
    rw [← hname]
    exact (Extraction.of_reference_mem_sightings hx hmem).2
  · have hown := ClassFile.Class.name_mem_references decoded
    exact Extraction.reference_mem_sightings decoded hx hown hname
  · have hreference := (Extraction.reference_mem_sightings decoded hx hraw hname).2 hne
    exact ⟨hreference, fun a found fresh unknown missing extracted hfound =>
      Analysis.contains_unresolved_feed fresh unknown missing extracted hfound hreference⟩

/-- The bytes of a class whose constant is `Lp/A;`. -/
def wrappedA : Bytes :=
  [0xCA, 0xFE, 0xBA, 0xBE, 0, 0, 0, 52, 0, 3, 1, 0, 5, 76, 112, 47, 65, 59, 7, 0, 1,
    0, 33, 0, 2, 0, 0, 0, 0, 0, 0, 0, 0, 0, 0]

/-- The class of these bytes. -/
def wrappedAClass : ClassFile.Class where
  header := ⟨0, 52, 33, "Lp/A;", none, []⟩
  fields := []
  methods := []
  signature := none
  marks := []
  innerClasses := []
  references := [.class "Lp/A;"]

/-- What is extracted from them. -/
def wrappedAFound : Extraction :=
  ⟨"Lp/A;", [.class ⟨"a.jar"⟩ "Lp/A;", .observed "Lp/A;", .reference "Lp/A;" "p/A"]⟩

/-- The class references itself by its name, which nothing supplies. -/
theorem named_by_constant_wrappedA :
    ClassFile.Class.parse wrappedA = .ok wrappedAClass ∧
    extract wrappedA ⟨"a.jar"⟩ .dependencies = .ok wrappedAFound ∧
    .reference "Lp/A;" "p/A" ∈ wrappedAFound.sightings ∧
    (Analysis.feed .empty [(⟨"a.jar"⟩, wrappedAFound)]).result.unresolved.contains
      (.edge "p/A" "Lp/A;") = true := by
  obtain ⟨-, hreferences⟩ := named_by_constant wrappedA wrappedAClass ⟨"a.jar"⟩ rfl
  obtain ⟨-, -, hconstants⟩ := hreferences wrappedAFound rfl
  obtain ⟨hreference, hsupplied⟩ :=
    hconstants "Lp/A;" "p/A" (List.mem_singleton_self _) rfl (by decide)
  have extracted : Analysis.Extracted [(⟨"a.jar"⟩, wrappedAFound)] := by
    rintro p x hx
    obtain ⟨rfl, rfl⟩ := Prod.mk.inj (List.mem_singleton.1 hx)
    exact ⟨wrappedA, .dependencies, rfl⟩
  refine ⟨rfl, rfl, hreference, (hsupplied .empty _ Analyser.fresh_empty rfl (by decide) extracted
    (List.mem_singleton_self _)).2 ?_⟩
  rintro p y hy
  obtain ⟨-, rfl⟩ := Prod.mk.inj (List.mem_singleton.1 hy)
  decide

/-- **A wrapped constant sets a class apart from its name.** Although every constant is one of the
grammar, the class is not registered under its name, and a reference leads from the class to itself
and stays unresolved. -/
theorem exists_self_reference :
    ∃ data c container x name, ClassFile.Class.parse data = .ok c ∧
      (∀ raw, .class raw ∈ c.references → ∃ constant : ClassConstant, constant.text = raw) ∧
      extract data container .dependencies = .ok x ∧ internalName c.name = some name ∧
      .class container name ∉ x.sightings ∧ .reference c.name name ∈ x.sightings ∧
      (Analysis.feed .empty [(container, x)]).result.unresolved.contains
        (.edge name c.name) = true := by
  refine ⟨wrappedA, wrappedAClass, ⟨"a.jar"⟩, wrappedAFound, "p/A", rfl, fun raw hraw => ?_, rfl,
    rfl, by decide, by decide, by decide +kernel⟩
  obtain rfl : raw = "Lp/A;" := by simpa [wrappedAClass] using hraw
  exact ⟨.wrapped ⟨['p', '/', 'A'], by decide, by decide⟩, rfl⟩

end JarGraph
