import JarGraph.Proofs.FileSystem.Spelling
import JarGraph.Proofs.Walk.Repeating
/-!
# Walks over files by other paths

A path tells a walk the kind of the container and where to read it, and
nothing else of it counts for what can be extracted. So two paths of one
kind that read the same data (`ReadsAs`) are walked alike: the walk comes
through the one if it comes through the other (`ReadsAs.isSound`), has
passed the same classes where it breaks (`ReadsAs.classesBeforeBreak`),
and comes to its end over the one list of files if it does over the other
(`exists_run_of_readsAmong`).
-/

namespace JarGraph

/-- Whether a class can be extracted, and its name, do not depend on where it was found. -/
theorem map_name_extract (data : Bytes) (p q : Path) (depth : Depth) :
    (extract data q depth).toOption.map Extraction.name =
      (extract data p depth).toOption.map Extraction.name := by
  cases depth with
  | inventory =>
    simp only [extract]
    cases ClassFile.Header.parse data <;> rfl
  | dependencies =>
    simp only [extract]
    cases ClassFile.Class.parse data <;> rfl

theorem isSome_extract (data : Bytes) (p q : Path) (depth : Depth) :
    (extract data q depth).toOption.isSome = (extract data p depth).toOption.isSome := by
  rw [← Option.isSome_map (f := Extraction.name), map_name_extract data p q, Option.isSome_map]

theorem Archive.Entry.isSound_eq (entry : Archive.Entry) (p q : Path) (depth : Depth) :
    entry.isSound q depth = entry.isSound p depth := by
  unfold isSound
  split
  · rfl
  · rfl
  · rw [isSome_extract _ p q]

namespace FileSystem

variable {fs : FileSystem} {base base' p q : Path} {files files' : List Path}

theorem ReadsAs.isSound (h : fs.ReadsAs p q) (depth : Depth) :
    fs.isSound depth q = fs.isSound depth p := by
  have hthrough : Walk.comesThrough q depth = Walk.comesThrough p depth := by
    funext data
    simp only [Walk.comesThrough, h.kind, isSome_extract data p q,
      Archive.Entry.isSound_eq _ p q]
  rw [FileSystem.isSound, FileSystem.isSound, h.data, hthrough]

theorem ReadsAs.classesBeforeBreak (h : fs.ReadsAs p q) (depth : Depth) :
    fs.classesBeforeBreak depth q = fs.classesBeforeBreak depth p := by
  have hmap : (fs.mapFile q).toOption = (fs.mapFile p).toOption := by
    rw [Walk.toOption_mapFile, Walk.toOption_mapFile, h.data]
  unfold FileSystem.classesBeforeBreak
  rw [h.kind]
  simp only [Archive.Entry.isSound_eq _ p q]
  cases hp : fs.mapFile p with
  | ok data =>
    rw [hp] at hmap
    rw [Answer.toOption_eq_some.1 hmap]
  | error cause =>
    cases hq : fs.mapFile q with
    | ok data =>
      rw [hp, hq] at hmap
      cases hmap
    | error cause' => cases Container.ofPath p <;> rfl

/-- Each of the files reads as one of the others does. -/
def ReadsAmong (fs : FileSystem) (files files' : List Path) : Prop :=
  ∀ q ∈ files', ∃ p ∈ files, fs.ReadsAs p q

theorem ReadsAmong.containersOf (h : fs.ReadsAmong files files') (base base' : Path) :
    fs.ReadsAmong (fs.containersOf (.files base files))
      (fs.containersOf (.files base' files')) := by
  intro q hq
  obtain ⟨hmem, hkind⟩ := List.mem_filter.1 hq
  obtain ⟨p, hp, hreads⟩ := h q hmem
  exact ⟨p, List.mem_filter.2 ⟨hp, hreads.kind ▸ hkind⟩, hreads⟩

end FileSystem

namespace Walk

variable {plan : Plan AnalysisState} {fs : FileSystem} {base base' : Path}
variable {files files' : List Path} {t : State AnalysisState} {start : AnalysisState}

/-- **A walk over files that came to its end** does so over files that read alike. -/
theorem exists_run_of_readsAmong (only : plan.listeners = [analysisListener]) {summary : Summary}
    (h : fs.ReadsAmong files files')
    (hrun : plan.run fs (.files base files) start = (t, .ok summary)) :
    ∃ u after, plan.run fs (.files base' files') start = (u, .ok after) := by
  cases hpolicy : plan.policy with
  | strict =>
    have hsound := isSound_of_run only hpolicy hrun
    refine exists_run_of_sound only rfl fun q hq => ?_
    obtain ⟨p, hp, hreads⟩ := h.containersOf base base' q hq
    rw [hreads.isSound]
    exact hsound p hp
  | lenient =>
    obtain ⟨u, after, hagain, -⟩ := (compared_run plan fs (.files base' files') start).goes_on
    have hunder : plan.under .lenient = plan := by rw [Plan.under, ← hpolicy]
    exact ⟨u, after, hunder ▸ hagain⟩

end Walk

end JarGraph
