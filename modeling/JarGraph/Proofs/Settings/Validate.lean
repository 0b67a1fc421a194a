import JarGraph.Proofs.Answer
import JarGraph.Settings.Resolve
/-!
# What checked settings are

Settings that passed their checks name a directory that is there and a
result, both by absolute paths (`of_validate`).
-/

namespace JarGraph

namespace Path

variable {p q whole directory : Path} {name : String}

/-- What is taken from an absolute path as its starting point is absolute. -/
theorem isAbsolute_append (hp : p.isAbsolute = true) : (p ++ q).isAbsolute = true := by
  obtain ⟨rest, hrest⟩ : ∃ rest, p.text.toList = '/' :: rest := by
    rw [isAbsolute, beq_iff_eq] at hp
    exact List.head?_eq_some_iff.1 hp
  show (p.append q).isAbsolute = true
  unfold append
  split
  · assumption
  split
  · rename_i hlast
    rw [List.getLast?_eq_none_iff.1 hlast] at hrest
    cases hrest
  · rw [isAbsolute, String.toList_append, hrest]
    rfl
  · rw [isAbsolute, String.toList_append, String.toList_append, hrest]
    rfl

theorem isAbsolute_absolute? (hdirectory : directory.isAbsolute = true)
    (h : p.absolute? directory = some whole) : whole.isAbsolute = true := by
  unfold absolute? at h
  split at h
  · cases h
  dsimp only at h
  obtain rfl := Option.some.inj h
  have hfold : ∀ (steps : List Component) (start : Path), start.isAbsolute = true →
      (steps.foldl (fun q c => q.child c.text) start).isAbsolute = true := by
    intro steps
    induction steps with
    | nil => exact fun _ hstart => hstart
    | cons step steps ih => exact fun start hstart => ih _ (isAbsolute_append hstart)
  have hstart : (if p.isAbsolute = true then
      if (p.text.toList.take 2 == ['/', '/'] && p.text.toList.take 3 != ['/', '/', '/']) = true
      then (⟨"//"⟩ : Path) else ⟨"/"⟩
    else directory).isAbsolute = true := by
    split
    · split <;> decide
    · exact hdirectory
  split
  · exact isAbsolute_append (hfold _ _ hstart)
  · exact hfold _ _ hstart

end Path

namespace Settings

variable {fs : FileSystem} {given s : Settings}

theorem isAbsolute_pathOf (names : List String) : (FileSystem.pathOf names).isAbsolute = true := by
  rw [FileSystem.pathOf, Path.isAbsolute, String.toList_append]
  rfl

theorem isAbsolute_canonical {p whole : Path} (h : fs.canonical p = .ok whole) :
    whole.isAbsolute = true := by
  unfold FileSystem.canonical at h
  obtain ⟨found, -, h⟩ := Answer.bind_eq_ok.1 h
  dsimp only at h
  split at h
  · cases h
  · obtain rfl := Except.ok.inj h
    exact isAbsolute_pathOf _

theorem isAbsolute_of_absolute {p whole : Path} (h : fs.absolute p = .ok whole) :
    whole.isAbsolute = true := by
  unfold FileSystem.absolute at h
  split at h
  · rename_i other hother
    obtain rfl := Except.ok.inj h
    exact Path.isAbsolute_absolute? (isAbsolute_pathOf _) hother
  · cases h

/-- Given settings with the paths that the checks found out for them. -/
def located (fs : FileSystem) (given : Settings) (binaries output : Path) : Settings :=
  { given with
    binaries := binaries
    output := output
    repository := given.repository.or (some (defaultRepository fs)) }

/-- **What the checks come to.** Settings pass where their binaries are a directory, their result
has an absolute path, and their contents are in order. -/
theorem validate_eq_ok :
    validate fs given = .ok s ↔
      ∃ binaries output, fs.canonical given.binaries = .ok binaries ∧
        fs.hasFolder binaries = true ∧ fs.absolute given.output = .ok output ∧
        s = located fs given binaries output ∧ checkContents s = .ok () := by
  unfold validate check resolveBinaries
  cases hbinaries : fs.canonical given.binaries with
  | error cause => simp
  | ok binaries =>
    by_cases hfolder : fs.hasFolder binaries = true
    · cases houtput : fs.absolute given.output with
      | error cause => simp [hfolder, resolveOutput, houtput]
      | ok output =>
        simp only [hfolder, if_true, resolveOutput, houtput, Except.ok.injEq, exists_and_left,
          exists_eq_left', true_and]
        show (match (located fs given binaries output,
            checkContents (located fs given binaries output)) with
          | (s, .ok ()) => Except.ok s
          | (_, .error cause) => Except.error cause) = .ok s ↔ _
        cases hcontents : checkContents (located fs given binaries output) with
        | error cause => simp +contextual [hcontents]
        | ok =>
          rw [Except.ok.injEq, eq_comm]
          exact ⟨fun h => ⟨h, h ▸ hcontents⟩, And.left⟩
    · simp [hfolder]

/-- **Settings that passed their checks** name a directory that is there and a result, both by
absolute paths. -/
theorem of_validate (h : validate fs given = .ok s) :
    fs.hasFolder s.binaries = true ∧ s.binaries.isAbsolute = true ∧
      s.output.isAbsolute = true := by
  obtain ⟨binaries, output, hbinaries, hfolder, houtput, rfl, -⟩ := validate_eq_ok.1 h
  exact ⟨hfolder, isAbsolute_canonical hbinaries, isAbsolute_of_absolute houtput⟩

end Settings

end JarGraph
