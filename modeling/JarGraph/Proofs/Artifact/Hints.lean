import JarGraph.Proofs.Artifact.Layout
/-!
# What a hint decides

A hint for a file by its name goes before everything else that is known
of the file but its place: it comes before a hint for the artifact and
before the one without a name (`hintFor_of_named`), and each of its parts
before what the archive says. No request takes it away (`hasHint_performAll`),
so that at any time later a file that it names is described with all that
it gives (`coordinates_of_hinted`). A file whose place in the repository
tells its coordinates is the exception: no hint is asked for it at all
(`exists_hint_ignored`).
-/

namespace JarGraph.Artifact

/-- All that the hint gives is so in the coordinates. -/
structure Hint.Decides (hint : Hint) (c : Coordinates) : Prop where
  groupId : ∀ text, hint.groupId = some text → c.groupId = text
  artifactId : ∀ text, hint.artifactId = some text → c.artifactId = text
  version : ∀ text, hint.version = some text → c.version = text
  classifier : ∀ text, hint.classifier = some text → c.classifier = some text

namespace Registry

variable {fs : FileSystem} {file : Path} {c : Coordinates} {hint : Hint} {name : String}
variable {repository : Option Path} {requests : List Request}
variable {r r₁ r' : Registry} {known : Described}

/-- The place of a file in the repository of the registry tells its coordinates. -/
def PlaceTells (r : Registry) (file : Path) (c : Coordinates) : Prop :=
  c.isValid = true ∧ ∃ repository, r.repository = some repository ∧ Tells repository file c

theorem placeTells_iff :
    r.PlaceTells file c ↔
      (r.repository.bind fun repository => coordinatesInRepository file repository) = some c := by
  simp only [PlaceTells, Option.bind_eq_some_iff, coordinatesInRepository_eq_some]
  exact ⟨fun ⟨hvalid, place, hplace, htells⟩ => ⟨place, hplace, hvalid, htells⟩,
    fun ⟨place, hplace, hvalid, htells⟩ => ⟨hvalid, place, hplace, htells⟩⟩

/-! ## The hint for a file -/

theorem hint?_append {h : Hint} (name : Option String) :
    ({ r with hints := r.hints ++ [h] } : Registry).hint? name =
      (r.hint? name).or (if h.name == name then some h else none) := by
  rw [hint?, List.find?_append]
  congr 1
  rw [List.find?_singleton]

/-- The hint with the name of a file is the one that counts, whatever artifact the file is. -/
theorem hintFor_of_named (hfile : file.fileName = some name) (h : r.hint? (some name) = some hint)
    (artifactId : Option String) : r.hintFor file artifactId = hint := by
  rw [hintFor, hfile, Option.bind_some, h]
  rfl

/-- What is put together from an archive and a hint has every part that the hint gives. -/
theorem decides_of_merge {id : Identification} (h : merge file id hint = .ok c) :
    hint.Decides c := by
  obtain ⟨hgroupId, hartifactId, hversion, hclassifier, -⟩ := Coordinates.of_make_eq_ok h
  constructor
  · intro text htext
    rw [htext, Option.some_or] at hgroupId
    exact (Option.some.inj hgroupId).symm
  · intro text htext
    rw [htext, Option.some_or] at hartifactId
    exact (Option.some.inj hartifactId).symm
  · intro text htext
    rw [htext, Option.some_or] at hversion
    exact (Option.some.inj hversion).symm
  · exact fun text htext => hclassifier.symm.trans htext

/-! ## What becomes of a hint -/

/-- A registry has a hint for its name, and a repository. -/
structure HasHint (hint : Hint) (repository : Option Path) (r : Registry) : Prop where
  hint : r.hint? hint.name = some hint
  repository : r.repository = repository

theorem HasHint.of_onlyRecords (h : HasHint hint repository r) (honly : OnlyRecords r r') :
    HasHint hint repository r' := by
  refine ⟨?_, honly.repository.trans h.repository⟩
  rw [hint?, honly.hints]
  exact h.hint

theorem hasHint_of_addHint (h : r.addHint hint = .ok r₁) : HasHint hint r.repository r₁ := by
  obtain ⟨hnone, rfl⟩ := addHint_eq_ok.1 h
  refine ⟨?_, rfl⟩
  rw [hint?_append, hnone, beq_self_eq_true]
  rfl

theorem hasHint_addHint {other : Hint} (h : HasHint hint repository r)
    (hadd : r.addHint other = .ok r') : HasHint hint repository r' := by
  obtain ⟨-, rfl⟩ := addHint_eq_ok.1 hadd
  refine ⟨?_, h.repository⟩
  -- The first hint for a name counts, and what is added comes last.
  rw [hint?_append, h.hint, Option.some_or]

/-- A request adds hints or records, and takes nothing away. -/
theorem hasHint_perform (h : HasHint hint repository r) (request : Request) :
    HasHint hint repository (request.perform r).1 := by
  rcases perform_cases r request with ⟨other, -, hadd⟩ | honly
  · exact hasHint_addHint h hadd
  · exact h.of_onlyRecords honly

theorem hasHint_performAll (h : HasHint hint repository r) (requests : List Request) :
    HasHint hint repository (r.performAll requests) :=
  of_performAll (p := HasHint hint repository) (fun _ request hr => hasHint_perform hr request) h
    requests

/-! ## A file with a hint -/

/-- A file that is not known yet gets the coordinates that its place tells, or those of its archive
with the hint for it. -/
theorem coordinates_cases (hfirst : r.get? file = none)
    (h : r.describe fs file = .ok (r', known)) :
    r.PlaceTells file known.coordinates ∨
      (∀ c, ¬ r.PlaceTells file c) ∧ ∃ id, identify fs file = .ok id ∧
        merge file id (r.hintFor file id.artifactId) = .ok known.coordinates := by
  refine (coordinatesOf_cases (coordinatesOf_of_describe hfirst h)).imp placeTells_iff.2 ?_
  rintro ⟨hnowhere, hmerge⟩
  refine ⟨fun c htells => ?_, hmerge⟩
  cases hnowhere.symm.trans (placeTells_iff.1 htells)

/-- **A hint that names a file** decides all that it gives, at any time after it was added and
whatever the archive, other hints, and the default say, when the file is described for the first
time. Only where the place of the file in the repository tells its coordinates, it gets these,
whatever the hint says. -/
theorem coordinates_of_hinted (hadd : r.addHint hint = .ok r₁) (hname : hint.name = some name)
    (hfile : file.fileName = some name) (hfirst : (r₁.performAll requests).get? file = none)
    (hdescribe : (r₁.performAll requests).describe fs file = .ok (r', known)) :
    (∀ c, r.PlaceTells file c → known.coordinates = c) ∧
      ((∀ c, ¬ r.PlaceTells file c) → hint.Decides known.coordinates) := by
  have hhas := hasHint_performAll (hasHint_of_addHint hadd) requests
  have hplace : ∀ c, (r₁.performAll requests).PlaceTells file c ↔ r.PlaceTells file c := by
    intro c
    rw [placeTells_iff, placeTells_iff, hhas.repository]
  have hcases := coordinates_cases hfirst hdescribe
  simp only [hplace] at hcases
  rcases hcases with htells | ⟨hnowhere, id, -, hmerge⟩
  · -- No hint was asked for, but a place tells only one thing.
    refine ⟨fun c hc => ?_, fun hnowhere => absurd htells (hnowhere _)⟩
    exact Option.some.inj ((placeTells_iff.1 htells).symm.trans (placeTells_iff.1 hc))
  · refine ⟨fun c hc => absurd hc (hnowhere c), fun _ => ?_⟩
    have hhint := hhas.hint
    rw [hname] at hhint
    rw [hintFor_of_named hfile hhint] at hmerge
    exact decides_of_merge hmerge

open ArtifactSet (twoArchives groupHint)

/-- What a user says of the first of two archives. -/
def namedHint : Hint :=
  ⟨some "a-1.jar", some "h", none, some "2", some "c"⟩

/-- The hint with the name of a file, and not the one without a name, gives the group, and it gives
another version than the name of the file. -/
theorem coordinates_of_hinted_twice :
    ∃ r₁ r' known,
      (Registry.empty (some ⟨"m2"⟩)).addHint namedHint = .ok r₁ ∧
      (r₁.performAll [.addHint groupHint]).describe twoArchives ⟨"lib/a-1.jar"⟩ = .ok (r', known) ∧
      (∀ c, ¬ (Registry.empty (some ⟨"m2"⟩)).PlaceTells ⟨"lib/a-1.jar"⟩ c) ∧
      namedHint.Decides known.coordinates := by
  have hnowhere : ∀ c, ¬ (Registry.empty (some ⟨"m2"⟩)).PlaceTells ⟨"lib/a-1.jar"⟩ c := by
    intro c htells
    have hnone : coordinatesInRepository ⟨"lib/a-1.jar"⟩ ⟨"m2"⟩ = none := by decide +kernel
    cases hnone.symm.trans (placeTells_iff.1 htells)
  have hadd : (Registry.empty (some ⟨"m2"⟩)).addHint namedHint =
      .ok ⟨[namedHint], .empty, some ⟨"m2"⟩⟩ := rfl
  generalize h : (performAll ⟨[namedHint], .empty, some ⟨"m2"⟩⟩ [.addHint groupHint]).describe
    twoArchives ⟨"lib/a-1.jar"⟩ = described
  have hok : described.toBool = true := by
    rw [← h]
    decide +kernel
  cases described with
  | error cause => cases hok
  | ok described =>
    exact ⟨_, described.1, described.2, hadd, h, hnowhere,
      (coordinates_of_hinted hadd rfl (by decide +kernel) rfl h).2 hnowhere⟩

/-- A hint that names a file gives it none of its parts where the place of the file in the
repository tells the coordinates. -/
theorem exists_hint_ignored :
    ∃ r₁ r' known,
      (Registry.empty (some ⟨"lib"⟩)).addHint namedHint = .ok r₁ ∧
      namedHint.name = Path.fileName ⟨"lib/g/a/1/a-1.jar"⟩ ∧
      r₁.get? ⟨"lib/g/a/1/a-1.jar"⟩ = none ∧
      r₁.describe twoArchives ⟨"lib/g/a/1/a-1.jar"⟩ = .ok (r', known) ∧
      known.coordinates = ⟨"g", "a", "1", none⟩ ∧ ¬ namedHint.Decides known.coordinates := by
  have hadd : (Registry.empty (some ⟨"lib"⟩)).addHint namedHint =
      .ok ⟨[namedHint], .empty, some ⟨"lib"⟩⟩ := rfl
  generalize h : describe ⟨[namedHint], .empty, some ⟨"lib"⟩⟩ twoArchives
    ⟨"lib/g/a/1/a-1.jar"⟩ = described
  have hcoordinates :
      described.toOption.map (fun d => d.2.coordinates) = some ⟨"g", "a", "1", none⟩ := by
    rw [← h]
    decide +kernel
  cases described with
  | error cause => cases hcoordinates
  | ok described =>
    have hknown : described.2.coordinates = ⟨"g", "a", "1", none⟩ := Option.some.inj hcoordinates
    refine ⟨_, described.1, described.2, hadd, by decide +kernel, rfl, h, hknown, ?_⟩
    rw [hknown]
    exact fun hdecides => absurd (hdecides.groupId "h" rfl) (by decide)

end Registry

end JarGraph.Artifact
