import JarGraph.Artifact.Registry
/-!
# Which file a description fails for

Whatever goes wrong while a file is described, the failure names this file
(`names_describe`); `FailsAs` is put together along the description, from
the entries of an archive on. A set of artifacts fails for a file that was
asked for, or for an end of a dependency (`artifactSet_error`).
-/

namespace JarGraph.Artifact

/-- The file that a failure is about. -/
def Error.file? : Error → Option Path
  | .duplicateHint _ => none
  | .invalidCoordinates file _ | .mismatch file | .unreadable file _ | .badArchive file _ =>
    some file

/-- The file that cannot be identified, where that is what the failure says. -/
def Error.unidentified? : Error → Option Path
  | .unreadable file _ | .badArchive file _ => some file
  | .duplicateHint _ | .invalidCoordinates _ _ | .mismatch _ => none

theorem file?_of_unidentified? {cause : Error} {file : Path}
    (h : cause.unidentified? = some file) : cause.file? = some file := by
  cases cause with
  | unreadable | badArchive => exact h
  | duplicateHint | invalidCoordinates | mismatch => cases h

/-! ## Answers and how they fail -/

variable {α β : Type} {p : Error → Prop} {fs : FileSystem} {file : Path}

/-- Where there is a failure, it is of this kind. -/
def FailsAs (p : Error → Prop) (answer : Except Error α) : Prop :=
  ∀ cause, answer = .error cause → p cause

namespace FailsAs

theorem ok (a : α) : FailsAs p (.ok a) := fun _ h => by cases h

theorem error {cause : Error} (h : p cause) : FailsAs p (.error cause : Except Error α) := by
  rintro _ ⟨⟩
  exact h

theorem bind {first : Except Error α} {next : α → Except Error β} (h : FailsAs p first)
    (hnext : ∀ a, FailsAs p (next a)) : FailsAs p (first >>= next) := by
  cases first with
  | error cause => exact .error (h cause rfl)
  | ok a => exact hnext a

theorem map {answer : Except Error α} (h : FailsAs p answer) (f : α → β) :
    FailsAs p (answer.map f) := by
  cases answer with
  | error cause => exact .error (h cause rfl)
  | ok a => exact .ok _

theorem foldlM {step : β → α → Except Error β} (h : ∀ b a, FailsAs p (step b a)) (b : β)
    (all : List α) : FailsAs p (all.foldlM step b) := by
  induction all generalizing b with
  | nil => exact .ok b
  | cons a all ih =>
    rw [List.foldlM_cons]
    exact (h b a).bind ih

end FailsAs

/-- The failure is about the file. -/
def Names (file : Path) (cause : Error) : Prop :=
  cause.file? = some file

/-! ## Describing a file -/

theorem names_textOf (file : Path) (body : Archive.Body) :
    FailsAs (Names file) (Identification.textOf file body) := by
  unfold Identification.textOf
  split
  · exact .error rfl
  · exact .error rfl
  · split
    · exact .ok _
    · exact .error rfl

theorem names_inspect (file : Path) (f : Identification.Findings) (entry : Archive.Entry) :
    FailsAs (Names file) (Identification.inspect file f entry) := by
  unfold Identification.inspect
  dsimp only
  cases entry.body with
  | refused cause => exact .error rfl
  | _ =>
    dsimp only
    split
    · exact (names_textOf file _).bind fun text => .ok _
    · split
      · exact (names_textOf file _).bind fun text => .ok _
      · split
        · exact .ok _
        · exact .ok _

theorem names_identify (fs : FileSystem) (file : Path) :
    FailsAs (Names file) (Registry.identify fs file) := by
  unfold Registry.identify
  split
  · exact .error rfl
  · split
    · exact .error rfl
    · exact .map (.foldlM (names_inspect file) _ _) _

theorem names_make (file : Path) (groupId artifactId version classifier : Option String) :
    FailsAs (Names file) (Coordinates.make file groupId artifactId version classifier) := by
  unfold Coordinates.make
  dsimp only
  split
  · exact .error rfl
  · exact .error rfl
  · exact .error rfl
  · split
    · exact .error rfl
    split
    · exact .error rfl
    split
    · exact .error rfl
    split
    · split
      · exact .ok _
      · exact .error rfl
    · exact .ok _

theorem names_coordinatesOf (r : Registry) (fs : FileSystem) (file : Path) :
    FailsAs (Names file) (r.coordinatesOf fs file) := by
  unfold Registry.coordinatesOf
  split
  · exact .ok _
  · exact (names_identify fs file).bind fun id => names_make _ _ _ _ _

theorem names_register (r : Registry) (file : Path) (coordinates : Coordinates)
    (dependencies : Option (OrderedSet Path)) :
    FailsAs (Names file) (r.register file coordinates dependencies) := by
  unfold Registry.register
  split
  · split
    · exact .error rfl
    · exact .ok _
  · exact .ok _

/-- **A file that cannot be described** is named by the failure. -/
theorem names_describe (r : Registry) (fs : FileSystem) (file : Path) :
    FailsAs (Names file) (r.describe fs file) := by
  unfold Registry.describe
  split
  · exact .ok _
  · exact (names_coordinatesOf r fs file).bind fun coordinates => names_register _ _ _ _

/-- A hint that cannot be added is not about a file. -/
theorem failsAs_addHint (r : Registry) (h : Hint) :
    FailsAs (fun cause => cause.file? = none) (r.addHint h) := by
  unfold Registry.addHint
  split
  · exact .error rfl
  · exact .ok _

/-! ## Sets of artifacts -/

namespace Registry

theorem draftDescribe_error {d d' : Draft} {cause : Error}
    (h : d.describe fs file = (d', some cause)) : cause.file? = some file := by
  unfold Draft.describe at h
  split at h
  · cases (Prod.mk.inj h).2
  · rename_i hdescribe
    obtain ⟨-, hcause⟩ := Prod.mk.inj h
    obtain rfl := Option.some.inj hcause
    exact names_describe _ _ _ _ hdescribe

theorem addRoot_error {d d' : Draft} {cause : Error}
    (h : addRoot fs d file = (d', some cause)) : cause.file? = some file := by
  unfold addRoot at h
  split at h
  · cases (Prod.mk.inj h).2
  · split at h
    · rename_i hdescribe
      obtain ⟨-, hcause⟩ := Prod.mk.inj h
      obtain rfl := Option.some.inj hcause
      exact draftDescribe_error hdescribe
    · cases (Prod.mk.inj h).2

/-- An edge fails for one of its ends. -/
theorem addEdge_error {d d' : Draft} {edge : Path × Path} {cause : Error}
    (h : addEdge fs d edge = (d', some cause)) :
    cause.file? = some edge.1 ∨ cause.file? = some edge.2 := by
  unfold addEdge at h
  split at h
  · cases (Prod.mk.inj h).2
  split at h
  · cases (Prod.mk.inj h).2
  split at h
  · rename_i hdescribe
    obtain ⟨-, hcause⟩ := Prod.mk.inj h
    obtain rfl := Option.some.inj hcause
    exact .inr (draftDescribe_error hdescribe)
  split at h
  · rename_i hdescribe
    obtain ⟨-, hcause⟩ := Prod.mk.inj h
    obtain rfl := Option.some.inj hcause
    exact .inl (draftDescribe_error hdescribe)
  · cases (Prod.mk.inj h).2

/-- Steps that fail have a step that fails. -/
theorem steps_error {step : Draft → α → Draft × Option Error} {d d' : Draft} {all : List α}
    {cause : Error} (h : steps step d all = (d', some cause)) :
    ∃ a ∈ all, ∃ before after, step before a = (after, some cause) := by
  induction all generalizing d with
  | nil => cases (Prod.mk.inj h).2
  | cons a all ih =>
    rw [steps] at h
    split at h
    · rename_i hstep
      obtain ⟨-, hcause⟩ := Prod.mk.inj h
      obtain rfl := Option.some.inj hcause
      exact ⟨a, List.mem_cons_self, _, _, hstep⟩
    · obtain ⟨b, hb, rest⟩ := ih h
      exact ⟨b, List.mem_cons_of_mem _ hb, rest⟩

/-- **A set of artifacts fails** for a file that was asked for or for an end of a dependency. -/
theorem artifactSet_error {r r' : Registry} {edges : DependencySet Path} {roots : List Path}
    {cause : Error} {log : List Walk.LogEntry}
    (h : r.artifactSet fs edges roots = (r', .error cause, log)) :
    ∃ file, cause.file? = some file ∧
      (file ∈ roots ∨ ∃ source target, .edge source target ∈ edges.toList ∧
        (file = source ∨ file = target)) := by
  unfold artifactSet at h
  split at h
  · rename_i d failed hroots
    obtain ⟨-, h⟩ := Prod.mk.inj h
    obtain ⟨hcause, -⟩ := Prod.mk.inj h
    obtain rfl := Except.error.inj hcause
    obtain ⟨root, hroot, before, after, hstep⟩ := steps_error hroots
    exact ⟨root, addRoot_error hstep, .inl hroot⟩
  · split at h
    · rename_i hedges
      obtain ⟨-, h⟩ := Prod.mk.inj h
      obtain ⟨hcause, -⟩ := Prod.mk.inj h
      obtain rfl := Except.error.inj hcause
      obtain ⟨⟨source, target⟩, hedge, before, after, hstep⟩ := steps_error hedges
      have hmem := DependencySet.mem_edges.1 hedge
      rcases addEdge_error hstep with hfile | hfile
      · exact ⟨source, hfile, .inr ⟨source, target, hmem, .inl rfl⟩⟩
      · exact ⟨target, hfile, .inr ⟨source, target, hmem, .inr rfl⟩⟩
    · obtain ⟨-, h⟩ := Prod.mk.inj h
      cases (Prod.mk.inj h).1

end Registry

end JarGraph.Artifact
