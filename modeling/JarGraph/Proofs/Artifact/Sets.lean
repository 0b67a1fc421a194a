import JarGraph.Artifact.Registry
import JarGraph.Proofs.Answer
import Mathlib.Data.List.Basic
/-!
# What a set of artifacts lists

The set that a registry makes of some roots and some dependencies between
files, judged by those alone (`describes_artifactSet`). A first pass
describes the roots, a second one the ends of the dependencies, and the
set is a copy of what is recorded then, so that a file that is recorded
too late, or not at all, would be missing from it without a word.
`Recorded` is the invariant of both passes: what the registry knows, and
which artifacts are noted, after some roots and some dependencies.
-/

namespace JarGraph.Artifact

variable {fs : FileSystem} {file other source target : Path}

/-! ## The artifacts of some roots and dependencies -/

/-- A file is an archive by its name. -/
def IsArchive (file : Path) : Prop :=
  Container.ofPath file = .archive

/-- An archive depends on another one. -/
def DependsOn (edges : List (Path × Path)) (source target : Path) : Prop :=
  IsArchive source ∧ IsArchive target ∧
    ∃ edge ∈ edges, edge.1.same source = true ∧ edge.2.same target = true

/-- A file is to be listed: it is an archive that was asked for, or one that depends on another. -/
def IsArtifact (roots : List Path) (edges : List (Path × Path)) (file : Path) : Prop :=
  (IsArchive file ∧ ∃ root ∈ roots, root.same file = true) ∨ ∃ target, DependsOn edges file target

variable {roots : List Path} {edges : List (Path × Path)}

theorem isArchive_congr (h : file.same other = true) : IsArchive file ↔ IsArchive other := by
  rw [IsArchive, IsArchive, Container.ofPath_congr h]

/-- The spelling of the first end does not count. -/
theorem dependsOn_congr (h : source.same other = true) :
    DependsOn edges source target ↔ DependsOn edges other target := by
  have hsame : ∀ p : Path, p.same source = p.same other := fun p =>
    Path.same_congr (Path.same_self p) h
  simp only [DependsOn, isArchive_congr h, hsame]

theorem dependsOn_concat {edge : Path × Path} :
    DependsOn (edges ++ [edge]) source target ↔ DependsOn edges source target ∨
      (IsArchive source ∧ IsArchive target ∧ edge.1.same source = true ∧
        edge.2.same target = true) := by
  simp only [DependsOn, List.mem_append, List.mem_singleton, or_and_right, exists_or,
    exists_eq_left, and_or_left]

theorem isArtifact_concat_root {root : Path} :
    IsArtifact (roots ++ [root]) edges file ↔
      IsArtifact roots edges file ∨ (IsArchive file ∧ root.same file = true) := by
  simp only [IsArtifact, List.mem_append, List.mem_singleton, or_and_right, exists_or,
    exists_eq_left, and_or_left]
  exact or_right_comm

theorem isArtifact_concat_edge {edge : Path × Path} :
    IsArtifact roots (edges ++ [edge]) file ↔ IsArtifact roots edges file ∨
      (IsArchive file ∧ IsArchive edge.2 ∧ edge.1.same file = true) := by
  simp only [IsArtifact, dependsOn_concat, exists_or, or_assoc]
  refine or_congr_right (or_congr_right ⟨?_, ?_⟩)
  · rintro ⟨target, hfile, htarget, hsource, hsame⟩
    exact ⟨hfile, (isArchive_congr hsame).2 htarget, hsource⟩
  · rintro ⟨hfile, htarget, hsource⟩
    exact ⟨edge.2, hfile, htarget, hsource, Path.same_self _⟩

/-- Dependencies lead between the ends of the pairs of a set. -/
theorem dependsOn_edges {s : DependencySet Path} :
    DependsOn (DependencySet.edges s) source target ↔
      IsArchive source ∧ IsArchive target ∧ s.contains (.edge source target) = true := by
  refine and_congr_right fun _ => and_congr_right fun _ => ?_
  rw [OrderedSet.contains_iff]
  constructor
  · rintro ⟨edge, hedge, hsource, htarget⟩
    refine ⟨_, DependencySet.mem_edges.1 hedge, Dependency.compare_edge_edge.2 ⟨?_, ?_⟩⟩
    · rwa [Path.compare_eq_iff_same, Path.same_comm]
    · rwa [Path.compare_eq_iff_same, Path.same_comm]
  · rintro ⟨⟨s', none | t'⟩, hmem, hcompare⟩
    · cases (Dependency.compare_eq_iff.1 hcompare).2
    · obtain ⟨hsource, htarget⟩ := Dependency.compare_edge_edge.1 hcompare
      rw [Path.compare_eq_iff_same, Path.same_comm] at hsource htarget
      exact ⟨(s', t'), DependencySet.mem_edges.2 hmem, hsource, htarget⟩

namespace Registry

variable {r r' : Registry} {artifacts : OrderedSet Path} {known : Described}

/-! ## What a registry records on the way -/

/-- What is recorded of a file after some dependencies: its own, and no other. -/
structure RecordOf (edges : List (Path × Path)) (file : Path) (known : Described) : Prop where
  same : known.file.same file = true
  valid : known.coordinates.isValid = true
  dependencies : ∀ target, known.dependencies.contains target = true ↔ DependsOn edges file target

/-- What is recorded after some roots and some dependencies. -/
structure Recorded (roots : List Path) (edges : List (Path × Path)) (r : Registry)
    (artifacts : OrderedSet Path) : Prop where
  artifacts : ∀ file, artifacts.contains file = true ↔ IsArtifact roots edges file
  sources : ∀ file, IsArtifact roots edges file → (r.get? file).isSome = true
  targets : ∀ source target, DependsOn edges source target → (r.get? target).isSome = true
  record : ∀ file known, r.get? file = some known → RecordOf edges file known

/-- Only what the roots and the dependencies come to counts. -/
theorem Recorded.congr {roots' : List Path} {edges' : List (Path × Path)}
    (h : Recorded roots edges r artifacts)
    (hartifact : ∀ file, IsArtifact roots' edges' file ↔ IsArtifact roots edges file)
    (hdepends : ∀ source target, DependsOn edges' source target ↔ DependsOn edges source target) :
    Recorded roots' edges' r artifacts where
  artifacts := fun file => (h.artifacts file).trans (hartifact file).symm
  sources := fun file hfile => h.sources file ((hartifact file).1 hfile)
  targets := fun source target hd => h.targets source target ((hdepends source target).1 hd)
  record := fun file known hknown =>
    have hrecord := h.record file known hknown
    ⟨hrecord.same, hrecord.valid, fun target =>
      (hrecord.dependencies target).trans (hdepends file target).symm⟩

/-- Nothing is recorded before the first root. -/
theorem recorded_empty (hints : List Hint) (repository : Option Path) :
    Recorded [] [] ⟨hints, .empty, repository⟩ .empty where
  artifacts := fun file => by simp [IsArtifact, DependsOn]
  sources := fun file h => by simp [IsArtifact, DependsOn] at h
  targets := fun source target h => by simp [DependsOn] at h
  record := fun file known h => by cases h

theorem get?_congr (r : Registry) (h : file.same other = true) : r.get? file = r.get? other :=
  OrderedMap.get?_congr _ (Path.compare_eq_iff_same.2 h)

theorem get?_put (r : Registry) (file other : Path) (record : Described) :
    get? { r with files := r.files.put file record } other =
      if other.same file = true then some record else r.get? other := by
  simp only [get?, OrderedMap.get?_put, Path.compare_eq_iff_same]

/-- The coordinates of a file are those of its place, or of its archive with the hint for it. -/
theorem coordinatesOf_cases {c : Coordinates} (h : r.coordinatesOf fs file = .ok c) :
    (r.repository.bind fun repository => coordinatesInRepository file repository) = some c ∨
      (r.repository.bind fun repository => coordinatesInRepository file repository) = none ∧
        ∃ id, identify fs file = .ok id ∧
          merge file id (r.hintFor file id.artifactId) = .ok c := by
  unfold coordinatesOf at h
  split at h
  · rename_i hplace
    exact .inl (hplace.trans (congrArg some (Except.ok.inj h)))
  · rename_i hnowhere
    exact .inr ⟨hnowhere, Answer.bind_eq_ok.1 h⟩

/-- Coordinates are well formed, wherever they come from. -/
theorem isValid_of_coordinatesOf {c : Coordinates} (h : r.coordinatesOf fs file = .ok c) :
    c.isValid = true := by
  rcases coordinatesOf_cases h with hplace | ⟨-, id, -, hmerge⟩
  · obtain ⟨repository, -, hplace⟩ := Option.bind_eq_some_iff.1 hplace
    obtain ⟨below, -, hplace⟩ := Option.bind_eq_some_iff.1 hplace
    obtain ⟨place, -, hplace⟩ := Option.bind_eq_some_iff.1 hplace
    obtain ⟨stem, -, hplace⟩ := Option.bind_eq_some_iff.1 hplace
    obtain ⟨classifier, -, hplace⟩ := Option.bind_eq_some_iff.1 hplace
    obtain ⟨-, -, -, -, hvalid⟩ :=
      Coordinates.of_make_eq_ok (Answer.toOption_eq_some.1 hplace)
    exact hvalid
  · obtain ⟨-, -, -, -, hvalid⟩ := Coordinates.of_make_eq_ok hmerge
    exact hvalid

/-- A hint is added at the end, unless there is one with its name. -/
theorem addHint_eq_ok {hint : Hint} :
    r.addHint hint = .ok r' ↔
      r.hint? hint.name = none ∧ { r with hints := r.hints ++ [hint] } = r' := by
  unfold addHint
  cases r.hint? hint.name with
  | some other => simp
  | none => simp

/-- A file that is described is known already, or is given coordinates of its own and nothing that
it depends on. -/
theorem describe_cases (h : r.describe fs file = .ok (r', known)) :
    (r' = r ∧ r.get? file = some known) ∨
      (r.get? file = none ∧ known.file = file ∧ known.coordinates.isValid = true ∧
        known.dependencies = .empty ∧ r' = { r with files := r.files.put file known }) := by
  unfold describe at h
  split at h
  · rename_i before hbefore
    obtain ⟨rfl, rfl⟩ := Prod.mk.inj (Except.ok.inj h)
    exact .inl ⟨rfl, hbefore⟩
  · rename_i hnone
    obtain ⟨c, hc, hregister⟩ := Answer.bind_eq_ok.1 h
    rw [register, hnone] at hregister
    obtain ⟨rfl, rfl⟩ := Prod.mk.inj (Except.ok.inj hregister)
    exact .inr ⟨hnone, rfl, isValid_of_coordinatesOf hc, rfl, rfl⟩

/-- A file that is not known yet gets the coordinates that it has at this time. -/
theorem coordinatesOf_of_describe (hfirst : r.get? file = none)
    (h : r.describe fs file = .ok (r', known)) :
    r.coordinatesOf fs file = .ok known.coordinates := by
  rw [describe, hfirst] at h
  obtain ⟨c, hc, hregister⟩ := Answer.bind_eq_ok.1 h
  rw [register, hfirst] at hregister
  obtain ⟨-, rfl⟩ := Prod.mk.inj (Except.ok.inj hregister)
  exact hc

/-- **A description** records what is described, and changes nothing else. -/
theorem recorded_describe (h : Recorded roots edges r artifacts)
    (hdescribe : r.describe fs file = .ok (r', known)) :
    Recorded roots edges r' artifacts ∧ (r'.get? file).isSome = true ∧
      ∀ other, (r.get? other).isSome = true → (r'.get? other).isSome = true := by
  rcases describe_cases hdescribe with ⟨rfl, hknown⟩ | ⟨hnone, rfl, hvalid, hempty, rfl⟩
  · exact ⟨h, by rw [hknown]; rfl, fun _ => id⟩
  have hgrows : ∀ other, (r.get? other).isSome = true →
      (get? { r with files := r.files.put known.file known } other).isSome = true := by
    intro other hother
    rw [get?_put]
    split
    · rfl
    · exact hother
  refine ⟨⟨h.artifacts, ?_, ?_, ?_⟩, ?_, hgrows⟩
  · exact fun other hother => hgrows other (h.sources other hother)
  · exact fun source target hdepends => hgrows target (h.targets source target hdepends)
  · intro other record hrecord
    rw [get?_put] at hrecord
    split at hrecord
    · rename_i hsame
      obtain rfl := Option.some.inj hrecord
      refine ⟨by rwa [Path.same_comm], hvalid, fun target => ?_⟩
      -- A file that is not known yet is no source of a dependency so far.
      have hnot : ¬ DependsOn edges other target := by
        intro hdepends
        have hsome := h.sources other (.inr ⟨target, hdepends⟩)
        rw [get?_congr r hsame, hnone] at hsome
        cases hsome
      simp [hempty, hnot]
    · exact h.record other record hrecord
  · rw [get?_put, if_pos (Path.same_self _)]
    rfl

/-! ## The passes over the roots and the dependencies -/

/-- What is not an archive is left out with a note; all else is described. -/
theorem addRoot_cases {d d' : Draft} (h : addRoot fs d file = (d', none)) :
    (¬ IsArchive file ∧ d'.registry = d.registry ∧ d'.artifacts = d.artifacts) ∨
      (IsArchive file ∧ d'.artifacts = d.artifacts.insert file ∧
        ∃ known, d.registry.describe fs file = .ok (d'.registry, known)) := by
  unfold addRoot checkArchive at h
  by_cases hkind : Container.ofPath file = .archive
  · rw [if_pos hkind] at h
    dsimp only at h
    unfold Draft.describe at h
    cases hdescribe : d.registry.describe fs file with
    | error cause => simp [hdescribe] at h
    | ok answer =>
      simp only [hdescribe] at h
      obtain ⟨rfl, -⟩ := Prod.mk.inj h
      exact .inr ⟨hkind, rfl, answer.2, rfl⟩
  · rw [if_neg hkind] at h
    obtain ⟨rfl, -⟩ := Prod.mk.inj h
    exact .inl ⟨hkind, rfl, rfl⟩

theorem addEdge_cases {d d' : Draft} {edge : Path × Path} (h : addEdge fs d edge = (d', none)) :
    (¬ (IsArchive edge.1 ∧ IsArchive edge.2) ∧ d'.registry = d.registry ∧
        d'.artifacts = d.artifacts) ∨
      (IsArchive edge.1 ∧ IsArchive edge.2 ∧ d'.artifacts = d.artifacts.insert edge.1 ∧
        ∃ r₁ r₂ known₁ known₂, d.registry.describe fs edge.2 = .ok (r₁, known₁) ∧
          r₁.describe fs edge.1 = .ok (r₂, known₂) ∧
          d'.registry = addDependency r₂ edge.1 edge.2) := by
  unfold addEdge checkArchive at h
  by_cases hsource : Container.ofPath edge.1 = .archive
  · by_cases htarget : Container.ofPath edge.2 = .archive
    · simp only [if_pos hsource, if_pos htarget] at h
      unfold Draft.describe at h
      cases hfirst : d.registry.describe fs edge.2 with
      | error cause => simp [hfirst] at h
      | ok first =>
        simp only [hfirst] at h
        cases hsecond : first.1.describe fs edge.1 with
        | error cause => simp [hsecond] at h
        | ok second =>
          simp only [hsecond] at h
          obtain ⟨rfl, -⟩ := Prod.mk.inj h
          exact .inr ⟨hsource, htarget, rfl, first.1, second.1, first.2, second.2, rfl, hsecond,
            rfl⟩
    · simp only [if_pos hsource, if_neg htarget] at h
      obtain ⟨rfl, -⟩ := Prod.mk.inj h
      exact .inl ⟨fun both => htarget both.2, rfl, rfl⟩
  · simp only [if_neg hsource] at h
    obtain ⟨rfl, -⟩ := Prod.mk.inj h
    exact .inl ⟨fun both => hsource both.1, rfl, rfl⟩

/-- A root is recorded, if it is an archive. -/
theorem recorded_addRoot {d d' : Draft} (h : Recorded roots edges d.registry d.artifacts)
    (hstep : addRoot fs d file = (d', none)) :
    Recorded (roots ++ [file]) edges d'.registry d'.artifacts := by
  rcases addRoot_cases hstep with ⟨hkind, hr, ha⟩ | ⟨hkind, ha, known, hdescribe⟩
  · rw [hr, ha]
    refine h.congr (fun other => ?_) fun _ _ => Iff.rfl
    rw [isArtifact_concat_root]
    exact or_iff_left fun ⟨hother, hfile⟩ => hkind ((isArchive_congr hfile).2 hother)
  · obtain ⟨h', hknown, -⟩ := recorded_describe h hdescribe
    refine ⟨fun other => ?_, fun other hother => ?_, h'.targets, h'.record⟩
    · rw [ha, OrderedSet.contains_insert, isArtifact_concat_root, Bool.or_eq_true, h'.artifacts,
        or_comm, beq_iff_eq, Path.compare_eq_iff_same, Path.same_comm other file]
      exact or_congr_right ⟨fun hfile => ⟨(isArchive_congr hfile).1 hkind, hfile⟩, And.right⟩
    · rcases isArtifact_concat_root.1 hother with hbefore | ⟨-, hfile⟩
      · exact h'.sources other hbefore
      · rw [← get?_congr _ hfile]
        exact hknown

theorem get?_addDependency (r : Registry) (source target other : Path) :
    (addDependency r source target).get? other =
      if other.same source = true then
        (r.get? source).map fun known =>
          { known with dependencies := known.dependencies.insert target }
      else r.get? other := by
  unfold addDependency
  cases hsource : r.get? source with
  | none =>
    dsimp only
    split
    · rename_i hsame
      rw [get?_congr r hsame, hsource]
      rfl
    · rfl
  | some known => exact get?_put r source other _

/-- A dependency is recorded for its source, if both ends are archives. -/
theorem recorded_addEdge {d d' : Draft} {edge : Path × Path}
    (h : Recorded roots edges d.registry d.artifacts) (hstep : addEdge fs d edge = (d', none)) :
    Recorded roots (edges ++ [edge]) d'.registry d'.artifacts := by
  rcases addEdge_cases hstep with
    ⟨hkinds, hr, ha⟩ | ⟨hsource, htarget, ha, r₁, r₂, known₁, known₂, hfirst, hsecond, hr⟩
  · rw [hr, ha]
    refine h.congr (fun file => ?_) fun source target => ?_
    · rw [isArtifact_concat_edge]
      exact or_iff_left fun ⟨hfile, htarget, hsame⟩ =>
        hkinds ⟨(isArchive_congr hsame).2 hfile, htarget⟩
    · rw [dependsOn_concat]
      exact or_iff_left fun ⟨hsource, htarget, hsame, hsame'⟩ =>
        hkinds ⟨(isArchive_congr hsame).2 hsource, (isArchive_congr hsame').2 htarget⟩
  obtain ⟨h₁, htargetKnown, -⟩ := recorded_describe h hfirst
  obtain ⟨h₂, hsourceKnown, hgrows⟩ := recorded_describe h₁ hsecond
  have hkeeps : ∀ file, (r₂.get? file).isSome = true →
      ((addDependency r₂ edge.1 edge.2).get? file).isSome = true := by
    intro file hfile
    rw [get?_addDependency]
    split
    · rwa [Option.isSome_map]
    · exact hfile
  rw [hr]
  refine ⟨fun file => ?_, fun file hfile => ?_, fun source target hdepends => ?_,
    fun file record hrecord => ?_⟩
  · rw [ha, OrderedSet.contains_insert, isArtifact_concat_edge, Bool.or_eq_true, h₂.artifacts,
      or_comm, beq_iff_eq, Path.compare_eq_iff_same, Path.same_comm file]
    exact or_congr_right
      ⟨fun hfile => ⟨(isArchive_congr hfile).1 hsource, htarget, hfile⟩, fun all => all.2.2⟩
  · rcases isArtifact_concat_edge.1 hfile with hbefore | ⟨-, -, hsame⟩
    · exact hkeeps file (h₂.sources file hbefore)
    · exact hkeeps file (get?_congr r₂ hsame ▸ hsourceKnown)
  · rcases dependsOn_concat.1 hdepends with hbefore | ⟨-, -, -, hsame⟩
    · exact hkeeps target (h₂.targets source target hbefore)
    · exact hkeeps target (get?_congr r₂ hsame ▸ hgrows _ htargetKnown)
  · rw [get?_addDependency] at hrecord
    split at hrecord
    -- The record of the source gains the target, and every other one stays.
    · rename_i hfile
      obtain ⟨known, hknown, rfl⟩ := Option.map_eq_some_iff.1 hrecord
      have hbefore := h₂.record edge.1 known hknown
      rw [Path.same_comm] at hfile
      refine ⟨Path.same_trans hbefore.same hfile, hbefore.valid, fun target => ?_⟩
      rw [OrderedSet.contains_insert, Bool.or_eq_true, hbefore.dependencies, dependsOn_concat,
        dependsOn_congr hfile, or_comm, beq_iff_eq, Path.compare_eq_iff_same,
        Path.same_comm target]
      exact or_congr_right ⟨fun hsame => ⟨(isArchive_congr hfile).1 hsource,
        (isArchive_congr hsame).1 htarget, hfile, hsame⟩, fun all => all.2.2.2⟩
    · rename_i hfile
      have hbefore := h₂.record file record hrecord
      refine ⟨hbefore.same, hbefore.valid, fun target => ?_⟩
      rw [hbefore.dependencies, dependsOn_concat]
      exact (or_iff_left fun ⟨_, _, hsame, _⟩ => hfile (by rwa [Path.same_comm])).symm

/-- **A pass that comes to its end** has taken all its steps: what each step keeps, and adds its own
item to, holds at the end of all of them. -/
theorem of_steps {α : Type} {step : Draft → α → Draft × Option Error} {p : List α → Draft → Prop}
    (hstep : ∀ done a d d', p done d → step d a = (d', none) → p (done ++ [a]) d')
    {done all : List α} {d d' : Draft} (h : p done d) (hsteps : steps step d all = (d', none)) :
    p (done ++ all) d' := by
  induction all generalizing done d with
  | nil =>
    obtain ⟨rfl, -⟩ := Prod.mk.inj hsteps
    rwa [List.append_nil]
  | cons a all ih =>
    rw [steps] at hsteps
    split at hsteps
    · cases (Prod.mk.inj hsteps).2
    · rename_i between hbetween
      rw [List.append_cons]
      exact ih (hstep done a d between h hbetween) hsteps

/-! ## The set that is collected -/

/-- The map that known files are put into holds what the registry knows of them. -/
theorem get?_foldl_addKnown (r : Registry) (files : List Path) (m : OrderedMap Path Described)
    (file : Path) :
    (files.foldl r.addKnown m).get? file =
      if ∃ f ∈ files, f.same file = true then (r.get? file).or (m.get? file) else m.get? file := by
  induction files generalizing m with
  | nil => simp
  | cons first files ih =>
    have hfirst : (r.addKnown m first).get? file =
        if first.same file = true then (r.get? file).or (m.get? file) else m.get? file := by
      unfold addKnown
      by_cases hsame : first.same file = true
      · rw [if_pos hsame, ← get?_congr r hsame]
        cases r.get? first with
        | none => rfl
        | some known =>
          rw [OrderedMap.get?_put, if_pos (by rwa [Path.compare_eq_iff_same, Path.same_comm])]
          rfl
      · rw [if_neg hsame]
        cases r.get? first with
        | none => rfl
        | some known =>
          rw [OrderedMap.get?_put, if_neg (by rwa [Path.compare_eq_iff_same, Path.same_comm])]
    rw [List.foldl_cons, ih, hfirst]
    simp only [List.exists_mem_cons_iff]
    by_cases hsame : first.same file = true <;>
      by_cases hrest : ∃ f ∈ files, f.same file = true <;>
        simp [hsame, hrest, ← Option.or_assoc]

theorem contains_iff_same {s : OrderedSet Path} :
    s.contains file = true ↔ ∃ p ∈ s.toList, p.same file = true := by
  simp only [OrderedSet.contains_iff, Path.compare_eq_iff_same, Path.same_comm file]

/-- The files that a set holds for an artifact. -/
def needed (r : Registry) (artifact : Path) : List Path :=
  match r.get? artifact with
  | some known => known.dependencies.toList ++ [artifact]
  | none => []

/-- A set is put together from the artifacts and what they depend on. -/
theorem get?_collect (h : Recorded roots edges r artifacts) {d : Described} :
    (r.collect artifacts).files.get? file = some d ↔
      (IsArtifact roots edges file ∨ ∃ source, DependsOn edges source file) ∧
        r.get? file = some d := by
  have hneeded : (∃ f ∈ artifacts.toList.flatMap r.needed, f.same file = true) ↔
      IsArtifact roots edges file ∨ ∃ source, DependsOn edges source file := by
    constructor
    · rintro ⟨f, hf, hsame⟩
      obtain ⟨artifact, hartifact, hf⟩ := List.mem_flatMap.1 hf
      cases hknown : r.get? artifact with
      | none => simp [needed, hknown] at hf
      | some known =>
        rw [needed, hknown] at hf
        rcases List.mem_append.1 hf with hf | hf
        · exact .inr ⟨artifact, ((h.record artifact known hknown).dependencies file).1
            (contains_iff_same.2 ⟨f, hf, hsame⟩)⟩
        · obtain rfl := List.mem_singleton.1 hf
          exact .inl ((h.artifacts file).1 (contains_iff_same.2 ⟨f, hartifact, hsame⟩))
    · rintro (hfile | ⟨source, hdepends⟩)
      · obtain ⟨artifact, hartifact, hsame⟩ := contains_iff_same.1 ((h.artifacts file).2 hfile)
        obtain ⟨known, hknown⟩ := Option.isSome_iff_exists.1 (h.sources file hfile)
        rw [← get?_congr r hsame] at hknown
        refine ⟨artifact, List.mem_flatMap.2 ⟨artifact, hartifact, ?_⟩, hsame⟩
        rw [needed, hknown]
        exact List.mem_append_right _ List.mem_cons_self
      · have hsource : IsArtifact roots edges source := .inr ⟨file, hdepends⟩
        obtain ⟨artifact, hartifact, hsame⟩ := contains_iff_same.1 ((h.artifacts source).2 hsource)
        obtain ⟨known, hknown⟩ := Option.isSome_iff_exists.1 (h.sources source hsource)
        obtain ⟨f, hf, hfile⟩ := contains_iff_same.1
          (((h.record source known hknown).dependencies file).2 hdepends)
        rw [← get?_congr r hsame] at hknown
        refine ⟨f, List.mem_flatMap.2 ⟨artifact, hartifact, ?_⟩, hfile⟩
        rw [needed, hknown]
        exact List.mem_append_left _ hf
  have hcollect : (r.collect artifacts).files =
      (artifacts.toList.flatMap r.needed).foldl r.addKnown .empty := rfl
  rw [hcollect, get?_foldl_addKnown, OrderedMap.get?_empty, Option.or_none, ← hneeded]
  split
  · rename_i hin
    exact (and_iff_right hin).symm
  · rename_i hout
    exact iff_of_false (Option.some_ne_none d).symm fun h => hout h.1

end Registry

/-! ## The set -/

namespace ArtifactSet

variable {files : OrderedMap Path Described} {listed : OrderedSet Path}

/-- What is known of the files of a set is listed in their order. -/
theorem pairwise_filterMap_get?
    (hsame : ∀ file d, files.get? file = some d → d.file.same file = true)
    (listed : OrderedSet Path) :
    (listed.toList.filterMap files.get?).Pairwise (compare ·.file ·.file = .lt) := by
  refine List.Pairwise.filterMap _ (fun p q hlt d hd e he => ?_) listed.ascending
  rw [Std.TransCmp.congr_left (Path.compare_eq_iff_same.2 (hsame p d hd)),
    Std.TransCmp.congr_right (Path.compare_eq_iff_same.2 (hsame q e he))]
  exact hlt

/-- Where something is known of every file of a set, every file is listed. -/
theorem exists_mem_filterMap_get?
    (hsame : ∀ file d, files.get? file = some d → d.file.same file = true)
    (hknown : ∀ file ∈ listed.toList, (files.get? file).isSome = true) (file : Path) :
    (∃ d ∈ listed.toList.filterMap files.get?, d.file.same file = true) ↔
      listed.contains file = true := by
  rw [Registry.contains_iff_same]
  constructor
  · rintro ⟨d, hd, hfile⟩
    obtain ⟨p, hp, hget⟩ := List.mem_filterMap.1 hd
    have hpd := hsame p d hget
    rw [Path.same_comm] at hpd
    exact ⟨p, hp, Path.same_trans hpd hfile⟩
  · rintro ⟨p, hp, hfile⟩
    obtain ⟨d, hd⟩ := Option.isSome_iff_exists.1 (hknown p hp)
    exact ⟨d, List.mem_filterMap.2 ⟨p, hp, hd⟩, Path.same_trans (hsame p d hd) hfile⟩

/-- What is said of a file somewhere in a set: among the artifacts, among what one of them depends
on, or when the set is asked for it. -/
inductive Mentions (set : ArtifactSet) (d : Described) : Prop where
  | artifact (h : d ∈ set.toList)
  | dependency {a : Described} (ha : a ∈ set.toList) (h : d ∈ set.dependenciesOf a)
  | answer {file : Path} (h : set.get? file = some d)

/-- What a set of artifacts says, given the roots and the dependencies that it was made for. -/
structure Describes (roots : List Path) (edges : DependencySet Path) (set : ArtifactSet) :
    Prop where
  /-- The artifacts stand in the order of their paths, each once. -/
  artifactsOrdered : set.toList.Pairwise (compare ·.file ·.file = .lt)
  /-- They are the archives among the roots and those that depend on another archive. -/
  artifacts : ∀ file, (∃ d ∈ set.toList, d.file.same file = true) ↔
    IsArchive file ∧ ((∃ root ∈ roots, root.same file = true) ∨
      ∃ target, edges.contains (.edge file target) = true ∧ IsArchive target)
  /-- What an artifact depends on stands in the order of paths, each file once. -/
  dependenciesOrdered : ∀ a ∈ set.toList,
    (set.dependenciesOf a).Pairwise (compare ·.file ·.file = .lt)
  /-- It depends on the archives that the dependencies lead to from it, roots or not. -/
  dependencies : ∀ a ∈ set.toList, ∀ file,
    (∃ d ∈ set.dependenciesOf a, d.file.same file = true) ↔
      edges.contains (.edge a.file file) = true ∧ IsArchive file
  /-- The set answers for every file that it mentions. -/
  answers : ∀ d, set.Mentions d → set.get? d.file = some d
  /-- A file has the same coordinates wherever it is mentioned. -/
  agree : ∀ d e, set.Mentions d → set.Mentions e → d.file.same e.file = true →
    d.coordinates = e.coordinates
  /-- All coordinates are well formed. -/
  valid : ∀ d, set.Mentions d → d.coordinates.isValid = true

theorem isArchive_of_isArtifact {edges : List (Path × Path)} (h : IsArtifact roots edges file) :
    IsArchive file := by
  rcases h with ⟨hfile, -⟩ | ⟨_, hfile, -⟩
  · exact hfile
  · exact hfile

theorem isArtifact_edges {edges : DependencySet Path} :
    IsArtifact roots (DependencySet.edges edges) file ↔
      IsArchive file ∧ ((∃ root ∈ roots, root.same file = true) ∨
        ∃ target, edges.contains (.edge file target) = true ∧ IsArchive target) := by
  simp only [IsArtifact, dependsOn_edges]
  constructor
  · rintro (⟨hfile, hroot⟩ | ⟨target, hfile, htarget, hedge⟩)
    · exact ⟨hfile, .inl hroot⟩
    · exact ⟨hfile, .inr ⟨target, hedge, htarget⟩⟩
  · rintro ⟨hfile, hroot | ⟨target, hedge, htarget⟩⟩
    · exact .inl ⟨hfile, hroot⟩
    · exact .inr ⟨target, hfile, htarget, hedge⟩

theorem describes_collect {edges : DependencySet Path} {r : Registry}
    {artifacts : OrderedSet Path}
    (h : Registry.Recorded roots (DependencySet.edges edges) r artifacts) :
    Describes roots edges (r.collect artifacts) := by
  have hrecord : ∀ file d, (r.collect artifacts).files.get? file = some d →
      Registry.RecordOf (DependencySet.edges edges) file d := fun file d hget =>
    h.record file d ((Registry.get?_collect h).1 hget).2
  have hsame := fun file d hget => (hrecord file d hget).same
  have hknown : ∀ file, (r.get? file).isSome = true →
      (IsArtifact roots (DependencySet.edges edges) file ∨
        ∃ source, DependsOn (DependencySet.edges edges) source file) →
      ((r.collect artifacts).files.get? file).isSome = true := by
    intro file hsome hneeded
    obtain ⟨d, hd⟩ := Option.isSome_iff_exists.1 hsome
    rw [(Registry.get?_collect h).2 ⟨hneeded, hd⟩]
    rfl
  -- All that is mentioned is read from one map.
  have hanswer : ∀ d, (r.collect artifacts).Mentions d →
      (r.collect artifacts).get? d.file = some d := by
    intro d hd
    have hread : ∃ file, (r.collect artifacts).files.get? file = some d := by
      cases hd with
      | artifact hd =>
        obtain ⟨file, -, hget⟩ := List.mem_filterMap.1 hd
        exact ⟨file, hget⟩
      | dependency ha hd =>
        obtain ⟨file, -, hget⟩ := List.mem_filterMap.1 hd
        exact ⟨file, hget⟩
      | answer hget => exact ⟨_, hget⟩
    obtain ⟨file, hget⟩ := hread
    rw [get?, OrderedMap.get?_congr _ (Path.compare_eq_iff_same.2 (hsame file d hget)), hget]
  -- What is recorded of a listed artifact is recorded under its own path.
  have hlisted : ∀ a ∈ (r.collect artifacts).toList,
      IsArchive a.file ∧ Registry.RecordOf (DependencySet.edges edges) a.file a := by
    intro a ha
    have hrecordA := hrecord a.file a (hanswer a (.artifact ha))
    obtain ⟨p, hp, hget⟩ := List.mem_filterMap.1 ha
    have hpa := hsame p a hget
    have hmem : artifacts.contains p = true :=
      Registry.contains_iff_same.2 ⟨p, hp, Path.same_self p⟩
    exact ⟨(isArchive_congr hpa).2 (isArchive_of_isArtifact ((h.artifacts p).1 hmem)), hrecordA⟩
  refine ⟨pairwise_filterMap_get? hsame artifacts, fun file => ?_, fun a ha =>
    pairwise_filterMap_get? hsame a.dependencies, fun a ha file => ?_, hanswer, ?_, ?_⟩
  · have hall : ∀ p ∈ artifacts.toList, ((r.collect artifacts).files.get? p).isSome = true := by
      intro p hp
      have hartifact := (h.artifacts p).1
        (Registry.contains_iff_same.2 ⟨p, hp, Path.same_self p⟩)
      exact hknown p (h.sources p hartifact) (.inl hartifact)
    rw [← isArtifact_edges, ← h.artifacts]
    exact exists_mem_filterMap_get? hsame hall file
  · obtain ⟨harchive, hrecordA⟩ := hlisted a ha
    have hall : ∀ p ∈ a.dependencies.toList,
        ((r.collect artifacts).files.get? p).isSome = true := by
      intro p hp
      have hdepends := (hrecordA.dependencies p).1
        (Registry.contains_iff_same.2 ⟨p, hp, Path.same_self p⟩)
      exact hknown p (h.targets a.file p hdepends) (.inr ⟨a.file, hdepends⟩)
    refine (exists_mem_filterMap_get? hsame hall file).trans ?_
    rw [hrecordA.dependencies, dependsOn_edges, and_iff_right harchive, and_comm]
  · intro d e hd he hfile
    have hsome := hanswer d hd
    rw [get?, OrderedMap.get?_congr _ (Path.compare_eq_iff_same.2 hfile)] at hsome
    rw [Option.some.inj (hsome.symm.trans (hanswer e he))]
  · exact fun d hd => (hrecord d.file d (hanswer d hd)).valid

/-- **What a set of artifacts lists**, where it is made by a registry that had nothing recorded. -/
theorem describes_artifactSet {hints : List Hint} {repository : Option Path} {r : Registry}
    {edges : DependencySet Path} {set : ArtifactSet} {log : List Walk.LogEntry}
    (h : Registry.artifactSet ⟨hints, .empty, repository⟩ fs edges roots = (r, .ok set, log)) :
    Describes roots edges set := by
  unfold Registry.artifactSet at h
  split at h
  · cases (Prod.mk.inj (Prod.mk.inj h).2).1
  rename_i d hroots
  split at h
  · cases (Prod.mk.inj (Prod.mk.inj h).2).1
  rename_i d' hedges
  obtain rfl := Except.ok.inj (Prod.mk.inj (Prod.mk.inj h).2).1
  have afterRoots := Registry.of_steps
    (p := fun done d => Registry.Recorded done [] d.registry d.artifacts)
    (fun _ _ _ _ => Registry.recorded_addRoot) (Registry.recorded_empty hints repository) hroots
  have afterEdges := Registry.of_steps
    (p := fun done d => Registry.Recorded roots done d.registry d.artifacts)
    (fun _ _ _ _ => Registry.recorded_addEdge) afterRoots hedges
  exact describes_collect afterEdges

/-! ## A class and two archives -/

/-- The bytes of an archive without entries. -/
def noEntries : Bytes :=
  [80, 75, 5, 6] ++ List.replicate 18 0

/-- Two archives in a directory. -/
def twoArchives : FileSystem where
  root := .folder (.folder "lib"
    (.file "a-1.jar" noEntries 0 (.file "b-2.jar" noEntries 0 .nil)) 0 .nil) 0
  workingNames := []
  home := ⟨"/"⟩
  clock := 1

/-- The group of every artifact. -/
def groupHint : Hint :=
  { Hint.empty with groupId := some "g" }

/-- A class depends on an archive, and that, under another spelling, on a second one. -/
def chain : DependencySet Path :=
  .ofList [.edge ⟨"C.class"⟩ ⟨"lib/a-1.jar"⟩, .edge ⟨"lib//a-1.jar"⟩ ⟨"lib/b-2.jar"⟩]

/-- The coordinates of the artifacts of a set, each with those of the files that it depends on. -/
def outline (set : ArtifactSet) : List (String × List String) :=
  set.toList.map fun a =>
    (a.coordinates.display, (set.dependenciesOf a).map fun d => d.coordinates.display)

theorem describes_artifactSet_chain :
    ∃ r set log,
      Registry.artifactSet ⟨[groupHint], .empty, none⟩ twoArchives chain [⟨"C.class"⟩] =
        (r, .ok set, log) ∧
      Describes [⟨"C.class"⟩] chain set ∧ outline set = [("g:a:1", ["g:b:2"])] := by
  have check : (Registry.artifactSet ⟨[groupHint], .empty, none⟩ twoArchives chain
      [⟨"C.class"⟩]).2.1.toOption.map outline = some [("g:a:1", ["g:b:2"])] := by
    decide +kernel
  generalize h : Registry.artifactSet ⟨[groupHint], .empty, none⟩ twoArchives chain
    [⟨"C.class"⟩] = made at check
  obtain ⟨r, answer, log⟩ := made
  cases answer with
  | error cause => simp [Except.toOption] at check
  | ok set => exact ⟨r, set, log, rfl, describes_artifactSet h, Option.some.inj check⟩

end ArtifactSet

end JarGraph.Artifact
