import JarGraph.Artifact.Registry.Request
import JarGraph.Proofs.Artifact.Sets
/-!
# What a registry keeps

Requests follow one another, some fail, and files change in between. What
is recorded of a file stays recorded (`keeps_performAll`): its coordinates
never change, and it can only gain dependencies. Only two operations write
records, a description and a dependency that is added, and so whatever
these two keep is kept by a set of artifacts, also by one that fails
halfway (`of_artifactSet`). Once a set was made, all that it needs is
recorded, and to make it again changes nothing (`artifactSet_again`).
-/

namespace JarGraph.Artifact

/-- A record has taken the place of another one: it is of the same file, with the same coordinates
and no dependency less. -/
structure Described.GrowsTo (known later : Described) : Prop where
  file : later.file = known.file
  coordinates : later.coordinates = known.coordinates
  dependencies : ∀ target, known.dependencies.contains target = true →
    later.dependencies.contains target = true

namespace Described.GrowsTo

variable {known later last : Described}

theorem refl (known : Described) : known.GrowsTo known :=
  ⟨rfl, rfl, fun _ h => h⟩

theorem trans (h : known.GrowsTo later) (h' : later.GrowsTo last) : known.GrowsTo last where
  file := h'.file.trans h.file
  coordinates := h'.coordinates.trans h.coordinates
  dependencies := fun target htarget => h'.dependencies target (h.dependencies target htarget)

/-- A dependency more. -/
theorem insert (known : Described) (target : Path) :
    known.GrowsTo { known with dependencies := known.dependencies.insert target } := by
  refine ⟨rfl, rfl, fun other hother => ?_⟩
  rw [OrderedSet.contains_insert, hother, Bool.or_true]

end Described.GrowsTo

namespace Registry

variable {fs fs' : FileSystem} {file source target : Path} {r r' r'' : Registry}
variable {known record : Described} {d d' : Draft}

/-! ## What one request keeps -/

/-- All that is recorded in the one registry is recorded in the other. -/
def Keeps (r r' : Registry) : Prop :=
  ∀ file known, r.get? file = some known → ∃ later, r'.get? file = some later ∧ known.GrowsTo later

namespace Keeps

theorem refl (r : Registry) : r.Keeps r :=
  fun _ known h => ⟨known, h, .refl known⟩

theorem trans (h : r.Keeps r') (h' : r'.Keeps r'') : r.Keeps r'' := by
  intro file known hknown
  obtain ⟨later, hlater, hgrows⟩ := h file known hknown
  obtain ⟨last, hlast, hgrows'⟩ := h' file later hlater
  exact ⟨last, hlast, hgrows.trans hgrows'⟩

end Keeps

/-- A record is put in the place of the one that is there, if any is. -/
theorem keeps_put (h : ∀ known, r.get? file = some known → known.GrowsTo record) :
    r.Keeps { r with files := r.files.put file record } := by
  intro other known hknown
  rw [get?_put]
  by_cases hsame : other.same file = true
  · rw [if_pos hsame]
    exact ⟨record, rfl, h known (get?_congr r hsame ▸ hknown)⟩
  · rw [if_neg hsame]
    exact ⟨known, hknown, .refl known⟩

theorem keeps_addHint {hint : Hint} (h : r.addHint hint = .ok r') : r.Keeps r' := by
  obtain ⟨-, rfl⟩ := addHint_eq_ok.1 h
  exact .refl r

/-- A registration puts a record in its place, and dependencies only where there were none. -/
theorem of_register {coordinates : Coordinates} {dependencies : Option (OrderedSet Path)}
    (h : r.register file coordinates dependencies = .ok (r', record)) :
    { r with files := r.files.put file record } = r' ∧
      ∀ known, r.get? file = some known → known.GrowsTo record := by
  unfold register at h
  split at h
  · rename_i before hbefore
    split at h
    · cases h
    · obtain ⟨hput, hrecord⟩ := Prod.mk.inj (Except.ok.inj h)
      refine ⟨hrecord ▸ hput, fun known hknown => ?_⟩
      obtain rfl : before = known := Option.some.inj (hbefore.symm.trans hknown)
      rw [← hrecord]
      split
      · rename_i hempty
        refine ⟨rfl, rfl, fun target htarget => ?_⟩
        obtain ⟨p, hp, -⟩ := OrderedSet.contains_iff.1 htarget
        rw [List.isEmpty_iff.1 hempty] at hp
        cases hp
      · exact .refl before
  · rename_i hnone
    obtain ⟨hput, hrecord⟩ := Prod.mk.inj (Except.ok.inj h)
    refine ⟨hrecord ▸ hput, fun known hknown => ?_⟩
    cases hnone.symm.trans hknown

theorem keeps_describe (h : r.describe fs file = .ok (r', known)) : r.Keeps r' := by
  rcases describe_cases h with ⟨rfl, -⟩ | ⟨hnone, -, -, -, rfl⟩
  · exact .refl r'
  · exact keeps_put fun other hother => by rw [hnone] at hother; cases hother

theorem keeps_addDependency (r : Registry) (source target : Path) :
    r.Keeps (addDependency r source target) := by
  unfold addDependency
  split
  · exact .refl r
  · rename_i before hbefore
    refine keeps_put fun other hother => ?_
    obtain rfl : before = other := Option.some.inj (hbefore.symm.trans hother)
    exact .insert before target

/-! ## What a set of artifacts keeps -/

section Passes

variable {p : Registry → Prop}

theorem checkArchive_registry (d : Draft) (file : Path) :
    (checkArchive d file).1.registry = d.registry := by
  unfold checkArchive
  split <;> rfl

theorem of_draftDescribe
    (hdescribe : ∀ r file r' known, p r → r.describe fs file = .ok (r', known) → p r')
    (h : p d.registry) (file : Path) : p (d.describe fs file).1.registry := by
  unfold Draft.describe
  split
  · rename_i registry known hok
    exact hdescribe _ _ _ _ h hok
  · exact h

theorem of_addRoot
    (hdescribe : ∀ r file r' known, p r → r.describe fs file = .ok (r', known) → p r')
    (h : p d.registry) (file : Path) : p (addRoot fs d file).1.registry := by
  have hchecked := checkArchive_registry d file
  unfold addRoot
  split
  · rename_i checked heq
    rw [heq] at hchecked
    exact hchecked ▸ h
  · rename_i checked heq
    rw [heq] at hchecked
    have hdescribed := of_draftDescribe hdescribe (hchecked ▸ h) file
    split
    · rename_i heq'
      rwa [heq'] at hdescribed
    · rename_i heq'
      rwa [heq'] at hdescribed

theorem of_addEdge
    (hdescribe : ∀ r file r' known, p r → r.describe fs file = .ok (r', known) → p r')
    (hadd : ∀ r source target, p r → p (addDependency r source target))
    (h : p d.registry) (edge : Path × Path) : p (addEdge fs d edge).1.registry := by
  have hsource := checkArchive_registry d edge.1
  unfold addEdge
  split
  · rename_i heq
    rw [heq] at hsource
    exact hsource ▸ h
  rename_i checked heq
  rw [heq] at hsource
  have htarget := checkArchive_registry checked edge.2
  split
  · rename_i heq'
    rw [heq'] at htarget
    exact htarget.trans hsource ▸ h
  rename_i checked' heq'
  rw [heq'] at htarget
  have hfirst := of_draftDescribe hdescribe (htarget.trans hsource ▸ h) edge.2
  split
  · rename_i heq''
    rwa [heq''] at hfirst
  rename_i between hbetween
  rw [hbetween] at hfirst
  have hsecond := of_draftDescribe hdescribe hfirst edge.1
  split
  · rename_i heq''
    rwa [heq''] at hsecond
  · rename_i heq''
    rw [heq''] at hsecond
    exact hadd _ _ _ hsecond

theorem of_steps_registry {α : Type} {step : Draft → α → Draft × Option Error}
    (hstep : ∀ d a, p d.registry → p (step d a).1.registry) (h : p d.registry) (all : List α) :
    p (steps step d all).1.registry := by
  induction all generalizing d with
  | nil => exact h
  | cons a all ih =>
    have hfirst := hstep d a h
    rw [steps]
    split
    · rename_i heq
      rwa [heq] at hfirst
    · rename_i heq
      rw [heq] at hfirst
      exact ih hfirst

/-- **A set of artifacts keeps** what descriptions and added dependencies keep, whether it is made
in the end or not. -/
theorem of_artifactSet
    (hdescribe : ∀ r file r' known, p r → r.describe fs file = .ok (r', known) → p r')
    (hadd : ∀ r source target, p r → p (addDependency r source target))
    (h : p r) (edges : DependencySet Path) (roots : List Path) :
    p (r.artifactSet fs edges roots).1 := by
  have hroots : p (steps (addRoot fs) ⟨r, .empty, []⟩ roots).1.registry :=
    of_steps_registry (fun _ file hd => of_addRoot hdescribe hd file) h roots
  unfold artifactSet
  split
  · rename_i heq
    rwa [heq] at hroots
  rename_i heq
  rw [heq] at hroots
  have hedges := of_steps_registry (fun _ edge hd => of_addEdge hdescribe hadd hd edge) hroots
    (DependencySet.edges edges)
  split
  · rename_i heq'
    rwa [heq'] at hedges
  · rename_i heq'
    rwa [heq'] at hedges

end Passes

theorem keeps_draftDescribe (d : Draft) (fs : FileSystem) (file : Path) :
    d.registry.Keeps (d.describe fs file).1.registry :=
  of_draftDescribe (fun _ _ _ _ h hdescribe => h.trans (keeps_describe hdescribe)) (.refl _) file

theorem keeps_addRoot (fs : FileSystem) (d : Draft) (file : Path) :
    d.registry.Keeps (addRoot fs d file).1.registry :=
  of_addRoot (fun _ _ _ _ h hdescribe => h.trans (keeps_describe hdescribe)) (.refl _) file

theorem keeps_addEdge (fs : FileSystem) (d : Draft) (edge : Path × Path) :
    d.registry.Keeps (addEdge fs d edge).1.registry :=
  of_addEdge (fun _ _ _ _ h hdescribe => h.trans (keeps_describe hdescribe))
    (fun _ _ _ h => h.trans (keeps_addDependency _ _ _)) (.refl _) edge

/-! ## A set that is made again -/

theorem describe_of_known (h : r.get? file = some known) (fs : FileSystem) :
    r.describe fs file = .ok (r, known) := by
  rw [describe, h]

/-- What was described is recorded from then on. -/
theorem exists_known_of_describe (h : r.describe fs file = .ok (r', known)) :
    r'.get? file = some known := by
  rcases describe_cases h with ⟨rfl, hknown⟩ | ⟨-, -, -, -, rfl⟩
  · exact hknown
  · rw [get?_put, if_pos (Path.same_self file)]

/-- A file that was described on the way to a registry is described by its record in it. -/
theorem exists_describe_again (h : r.describe fs file = .ok (r', known)) (hkeeps : r'.Keeps r'')
    (fs' : FileSystem) : ∃ later, r''.describe fs' file = .ok (r'', later) := by
  obtain ⟨later, hlater, -⟩ := hkeeps file known (exists_known_of_describe h)
  exact ⟨later, describe_of_known hlater fs'⟩

/-- To record a dependency that is recorded changes nothing. -/
theorem addDependency_eq_self (h : r.get? source = some known)
    (htarget : known.dependencies.contains target = true) :
    addDependency r source target = r := by
  rw [addDependency, h]
  dsimp only
  rw [OrderedSet.insert_eq_self htarget, OrderedMap.put_eq_self h]

theorem checkArchive_again (d : Draft) (r : Registry) (file : Path) :
    checkArchive { d with registry := r } file =
      ({ (checkArchive d file).1 with registry := r }, (checkArchive d file).2) := by
  unfold checkArchive
  split <;> rfl

theorem exists_known_of_draftDescribe (h : d.describe fs file = (d', none)) :
    ∃ known, d'.registry.get? file = some known := by
  unfold Draft.describe at h
  split at h
  · rename_i registry known hdescribe
    obtain ⟨rfl, -⟩ := Prod.mk.inj h
    exact ⟨known, exists_known_of_describe hdescribe⟩
  · cases (Prod.mk.inj h).2

theorem draftDescribe_again (h : d.describe fs file = (d', none)) (hkeeps : d'.registry.Keeps r)
    (fs' : FileSystem) :
    Draft.describe { d with registry := r } fs' file = ({ d' with registry := r }, none) := by
  unfold Draft.describe at h ⊢
  split at h
  · rename_i registry known hdescribe
    obtain ⟨rfl, -⟩ := Prod.mk.inj h
    obtain ⟨later, hlater⟩ := exists_describe_again hdescribe hkeeps fs'
    rw [hlater]
  · cases (Prod.mk.inj h).2

/-- A root is taken again by a registry that keeps what was recorded for it. -/
theorem addRoot_again (h : addRoot fs d file = (d', none)) (hkeeps : d'.registry.Keeps r)
    (fs' : FileSystem) :
    addRoot fs' { d with registry := r } file = ({ d' with registry := r }, none) := by
  unfold addRoot at h ⊢
  rw [checkArchive_again]
  split at h
  · rename_i checked hchecked
    obtain ⟨rfl, -⟩ := Prod.mk.inj h
    rw [hchecked]
  · rename_i checked hchecked
    rw [hchecked]
    split at h
    · cases (Prod.mk.inj h).2
    · rename_i described hdescribed
      obtain ⟨rfl, -⟩ := Prod.mk.inj h
      dsimp only
      rw [draftDescribe_again hdescribed hkeeps]

/-- A dependency between files is taken again, and is recorded by then. -/
theorem addEdge_again {edge : Path × Path} (h : addEdge fs d edge = (d', none))
    (hkeeps : d'.registry.Keeps r) (fs' : FileSystem) :
    addEdge fs' { d with registry := r } edge = ({ d' with registry := r }, none) := by
  unfold addEdge at h ⊢
  rw [checkArchive_again]
  split at h
  · rename_i checked hchecked
    obtain ⟨rfl, -⟩ := Prod.mk.inj h
    rw [hchecked]
  rename_i checked hchecked
  rw [hchecked]
  dsimp only
  rw [checkArchive_again]
  split at h
  · rename_i checked' hchecked'
    obtain ⟨rfl, -⟩ := Prod.mk.inj h
    rw [hchecked']
  rename_i checked' hchecked'
  rw [hchecked']
  dsimp only
  split at h
  · cases (Prod.mk.inj h).2
  rename_i first hfirst
  split at h
  · cases (Prod.mk.inj h).2
  rename_i second hsecond
  obtain ⟨rfl, -⟩ := Prod.mk.inj h
  have hadd := (keeps_addDependency second.registry edge.1 edge.2).trans hkeeps
  have hmore := keeps_draftDescribe first fs edge.1
  rw [hsecond] at hmore
  rw [draftDescribe_again hfirst (hmore.trans hadd)]
  dsimp only
  rw [draftDescribe_again hsecond hadd]
  dsimp only
  -- The source was described last, and has had the dependency since.
  obtain ⟨known, hknown⟩ := exists_known_of_draftDescribe hsecond
  obtain ⟨later, hlater, hgrows⟩ := hkeeps edge.1
    { known with dependencies := known.dependencies.insert edge.2 } (by
      rw [get?_addDependency, if_pos (Path.same_self _), hknown, Option.map_some])
  have htarget : later.dependencies.contains edge.2 = true := by
    refine hgrows.dependencies _ ?_
    rw [OrderedSet.contains_insert, Std.ReflOrd.compare_self, beq_self_eq_true, Bool.true_or]
  rw [addDependency_eq_self hlater htarget]

/-- Steps that succeeded are taken again by a registry that keeps what they have recorded. -/
theorem steps_again {α : Type} {step step' : Draft → α → Draft × Option Error}
    (hstep : ∀ (d : Draft) a, d.registry.Keeps (step d a).1.registry)
    (hagain : ∀ d a d', step d a = (d', none) → d'.registry.Keeps r →
      step' { d with registry := r } a = ({ d' with registry := r }, none))
    {all : List α} (h : steps step d all = (d', none)) (hkeeps : d'.registry.Keeps r) :
    steps step' { d with registry := r } all = ({ d' with registry := r }, none) := by
  induction all generalizing d with
  | nil =>
    obtain ⟨rfl, -⟩ := Prod.mk.inj h
    rfl
  | cons a all ih =>
    rw [steps] at h ⊢
    split at h
    · cases (Prod.mk.inj h).2
    rename_i between hbetween
    -- What the first step has recorded is kept by the steps after it, and so by the last registry.
    have hrest := of_steps_registry (p := between.registry.Keeps)
      (fun d a hp => hp.trans (hstep d a)) (Keeps.refl _) all
    rw [h] at hrest
    rw [hagain d a between hbetween (hrest.trans hkeeps)]
    exact ih h

/-- **A set of artifacts is made again** by the registry that it left, whatever has become of the
files: the same set, and the registry stays as it is. -/
theorem artifactSet_again {edges : DependencySet Path} {roots : List Path} {set : ArtifactSet}
    {log : List Walk.LogEntry} (h : r.artifactSet fs edges roots = (r', .ok set, log))
    (fs' : FileSystem) : r'.artifactSet fs' edges roots = (r', .ok set, log) := by
  unfold artifactSet at h
  split at h
  · cases (Prod.mk.inj (Prod.mk.inj h).2).1
  rename_i afterRoots hroots
  split at h
  · cases (Prod.mk.inj (Prod.mk.inj h).2).1
  rename_i afterEdges hedges
  obtain ⟨rfl, -⟩ := Prod.mk.inj h
  have hmore := of_steps_registry (p := afterRoots.registry.Keeps)
    (fun d edge hp => hp.trans (keeps_addEdge fs d edge)) (Keeps.refl _)
    (DependencySet.edges edges)
  rw [hedges] at hmore
  -- Both passes left their records in the registry at the end, which takes them again.
  have hroots' := steps_again (keeps_addRoot fs)
    (fun _ _ _ hstep hkeeps => addRoot_again hstep hkeeps fs') hroots hmore
  have hedges' := steps_again (keeps_addEdge fs)
    (fun _ _ _ hstep hkeeps => addEdge_again hstep hkeeps fs') hedges (Keeps.refl _)
  unfold artifactSet
  dsimp only at hroots' hedges' ⊢
  rw [hroots']
  dsimp only
  rw [hedges']
  exact h

/-! ## Requests in a row -/

/-- Nothing but records and what they depend on was added to a registry. -/
structure OnlyRecords (r r' : Registry) : Prop where
  keeps : r.Keeps r'
  hints : r'.hints = r.hints
  repository : r'.repository = r.repository

namespace OnlyRecords

theorem refl (r : Registry) : OnlyRecords r r :=
  ⟨.refl r, rfl, rfl⟩

theorem trans (h : OnlyRecords r r') (h' : OnlyRecords r' r'') : OnlyRecords r r'' :=
  ⟨h.keeps.trans h'.keeps, h'.hints.trans h.hints, h'.repository.trans h.repository⟩

end OnlyRecords

theorem onlyRecords_describe (h : r.describe fs file = .ok (r', known)) : OnlyRecords r r' := by
  have hkeeps := keeps_describe h
  rcases describe_cases h with ⟨rfl, -⟩ | ⟨-, -, -, -, rfl⟩
  · exact ⟨hkeeps, rfl, rfl⟩
  · exact ⟨hkeeps, rfl, rfl⟩

theorem onlyRecords_addDependency (r : Registry) (source target : Path) :
    OnlyRecords r (addDependency r source target) := by
  refine ⟨keeps_addDependency r source target, ?_, ?_⟩
  · unfold addDependency
    split <;> rfl
  · unfold addDependency
    split <;> rfl

theorem onlyRecords_register {coordinates : Coordinates} {dependencies : Option (OrderedSet Path)}
    (h : r.register file coordinates dependencies = .ok (r', record)) : OnlyRecords r r' := by
  obtain ⟨rfl, hgrows⟩ := of_register h
  exact ⟨keeps_put hgrows, rfl, rfl⟩

theorem onlyRecords_artifactSet (r : Registry) (fs : FileSystem) (edges : DependencySet Path)
    (roots : List Path) : OnlyRecords r (r.artifactSet fs edges roots).1 :=
  of_artifactSet (fun _ _ _ _ h hdescribe => h.trans (onlyRecords_describe hdescribe))
    (fun _ _ _ h => h.trans (onlyRecords_addDependency _ _ _)) (.refl r) edges roots

/-- All that one request can come to, whether it succeeds or fails: a hint more, or records. -/
theorem perform_cases (r : Registry) (request : Request) :
    (∃ hint, request = .addHint hint ∧ r.addHint hint = .ok (request.perform r).1) ∨
      OnlyRecords r (request.perform r).1 := by
  cases request with
  | addHint hint =>
    rw [Request.perform]
    split
    · rename_i hadd
      exact .inl ⟨hint, rfl, hadd⟩
    · exact .inr (.refl r)
  | describe fs file =>
    rw [Request.perform]
    split
    · rename_i hdescribe
      exact .inr (onlyRecords_describe hdescribe)
    · exact .inr (.refl r)
  | register file coordinates dependencies =>
    rw [Request.perform]
    split
    · rename_i hregister
      exact .inr (onlyRecords_register hregister)
    · exact .inr (.refl r)
  | artifactSet fs edges roots => exact .inr (onlyRecords_artifactSet r fs edges roots)

/-- **One request** keeps what is recorded. -/
theorem keeps_perform (r : Registry) (request : Request) : r.Keeps (request.perform r).1 := by
  rcases perform_cases r request with ⟨hint, -, hadd⟩ | honly
  · exact keeps_addHint hadd
  · exact honly.keeps

/-- What each request keeps is kept by requests in a row. -/
theorem of_performAll {p : Registry → Prop}
    (hperform : ∀ r request, p r → p (Request.perform r request).1) (h : p r)
    (requests : List Request) : p (r.performAll requests) := by
  induction requests generalizing r with
  | nil => exact h
  | cons request requests ih => exact ih (hperform r request h)

/-- **Requests in a row** keep what is recorded. -/
theorem keeps_performAll (r : Registry) (requests : List Request) :
    r.Keeps (r.performAll requests) :=
  of_performAll (fun between request h => h.trans (keeps_perform between request)) (.refl r) requests

/-- A request that fails leaves the registry as it was, but for a set of artifacts, which may have
recorded files on the way. -/
theorem perform_of_failed {request : Request} (h : (request.perform r).2 = false) :
    (request.perform r).1 = r ∨
      ∃ fs edges roots, request = .artifactSet fs edges roots ∧
        OnlyRecords r (request.perform r).1 := by
  cases request with
  | addHint hint =>
    refine .inl ?_
    rw [Request.perform] at h ⊢
    cases hadd : r.addHint hint with
    | ok after =>
      rw [hadd] at h
      cases h
    | error cause => rfl
  | describe fs file =>
    refine .inl ?_
    rw [Request.perform] at h ⊢
    cases hdescribe : r.describe fs file with
    | ok after =>
      rw [hdescribe] at h
      cases h
    | error cause => rfl
  | register file coordinates dependencies =>
    refine .inl ?_
    rw [Request.perform] at h ⊢
    cases hregister : r.register file coordinates dependencies with
    | ok after =>
      rw [hregister] at h
      cases h
    | error cause => rfl
  | artifactSet fs edges roots =>
    exact .inr ⟨fs, edges, roots, rfl, onlyRecords_artifactSet r fs edges roots⟩

/-- **A registry writes once.** Whatever is asked of it, in trees that may differ from request to
request: coordinates that are recorded do not change, and no record and no recorded dependency is
lost. A request that fails changes nothing, but for a set of artifacts, which may have recorded
files and dependencies. A set that was made is made again, and the registry stays as it is. -/
theorem writes_once (r : Registry) :
    (∀ requests, r.Keeps (r.performAll requests)) ∧
    (∀ request, (Request.perform r request).2 = false →
      (request.perform r).1 = r ∨ ∃ fs edges roots, request = .artifactSet fs edges roots ∧
        OnlyRecords r (request.perform r).1) ∧
    ∀ fs edges roots r' set log, r.artifactSet fs edges roots = (r', .ok set, log) →
      ∀ fs', r'.artifactSet fs' edges roots = (r', .ok set, log) :=
  ⟨keeps_performAll r, fun _ => perform_of_failed, fun _ _ _ _ _ _ => artifactSet_again⟩

open ArtifactSet (twoArchives groupHint chain)

/-- A set of two archives is made again after the archives are gone, and a hint that is refused
changes nothing. -/
theorem writes_once_chain :
    ∃ r' set log,
      artifactSet ⟨[groupHint], .empty, none⟩ twoArchives chain [⟨"C.class"⟩] =
        (r', .ok set, log) ∧
      artifactSet r' { twoArchives with root := .folder .nil 0 } chain [⟨"C.class"⟩] =
        (r', .ok set, log) ∧
      ((Request.addHint groupHint).perform r').2 = false ∧
      ((Request.addHint groupHint).perform r').1 = r' := by
  generalize h : artifactSet ⟨[groupHint], .empty, none⟩ twoArchives chain [⟨"C.class"⟩] = made
  have hmade : made.2.1.toBool = true := by
    rw [← h]
    decide +kernel
  have hhint : ((Request.addHint groupHint).perform made.1).2 = false := by
    rw [← h]
    decide +kernel
  obtain ⟨r', answer, log⟩ := made
  cases answer with
  | error cause => cases hmade
  | ok set =>
    refine ⟨r', set, log, rfl, (writes_once _).2.2 _ _ _ _ _ _ h _, hhint, ?_⟩
    have hcases := (writes_once r').2.1 _ hhint
    exact hcases.resolve_right fun ⟨_, _, _, hrequest, _⟩ => nomatch hrequest

end Registry

end JarGraph.Artifact
