import JarGraph.Proofs.FileSystem.Changes
import JarGraph.Proofs.Run.Identifying
/-!
# What a run that fails leaves behind

Whatever fails after the walks, an earlier result is gone afterwards: a
failed description removes it, and so does a write that fails in any of
its steps (`not_isFile_of_failed_run`). A walk that fails leaves all files
as they were, and the earlier result with them
(`exists_failed_run_isFile`).
-/

namespace JarGraph

variable {fs fs' : FileSystem} {s : Settings} {breakdown : Option Breakdown} {failure : Failure}

theorem not_isFile_removeIfThere (fs : FileSystem) (p : Path) :
    ¬ (removeIfThere fs p).1.IsFile p := by
  unfold removeIfThere
  split
  · split
    · rename_i fs' hremove
      exact FileSystem.not_isFile_of_removeFile hremove
    · rename_i cause hremove
      intro hfile
      obtain ⟨fs', hremove'⟩ := FileSystem.removeFile_of_isFile hfile
      rw [hremove] at hremove'
      cases hremove'
  · rename_i hnone
    rintro ⟨found, content, modified, hnode⟩
    rw [FileSystem.hasNode, hnode] at hnone
    exact hnone rfl

/-- A write that fails in any of its steps leaves no file. -/
theorem not_isFile_of_failed_write {path : Path} {content : Bytes}
    (h : AtomicWrite.write fs path content breakdown = (fs', .error failure)) :
    ¬ fs'.IsFile path := by
  unfold AtomicWrite.write at h
  split at h
  · cases (Prod.mk.inj h).2
  · obtain ⟨rfl, -⟩ := Prod.mk.inj h
    exact FileSystem.not_isFile_removeFileLeniently _ path

/-- **A run that fails**, once it was found to be needed, leaves no result, unless a walk failed:
then it leaves everything as it was. -/
theorem not_isFile_of_failed_run
    (hneeded : s.force = true ∨ fs.isUpToDate s.binaries s.output = .ok false)
    (h : (run fs s breakdown).answer = .error failure) :
    ((analyse fs s).answer = .error failure ∧ (run fs s breakdown).files = fs) ∨
      ¬ (run fs s breakdown).files.IsFile s.output := by
  have hrun : run fs s breakdown = analyseAndWrite fs s breakdown := by
    have hstale : (if s.force then .ok false else fs.isUpToDate s.binaries s.output) =
        (.ok false : Except Failure Bool) := by
      rcases hneeded with hforce | hstale
      · rw [if_pos hforce]
      · rw [hstale, ite_self]
    rw [run, hstale]
  rw [hrun] at h ⊢
  unfold analyseAndWrite at h ⊢
  dsimp only at h ⊢
  cases hanalysed : (analyse fs s).answer with
  | error cause =>
    rw [hanalysed] at h
    dsimp only at h
    exact .inl ⟨congrArg _ (Except.error.inj h), rfl⟩
  | ok a =>
    rw [hanalysed] at h
    refine .inr ?_
    dsimp only at h ⊢
    split
    · exact not_isFile_removeIfThere fs s.output
    · rename_i set hdescribed
      rw [hdescribed] at h
      dsimp only at h
      split
      · rename_i fs' cause hwrite
        exact not_isFile_of_failed_write hwrite
      · rename_i fs' hwrite
        rw [hwrite] at h
        cases h

/-! ## Two runs that fail -/

/-- Some binary, and the result of an earlier run. -/
def withResult (binary : Bytes) : FileSystem where
  root := .folder (.folder "work"
    (.folder "bin" (.file "a.jar" binary 0 .nil) 0 (.file "m.xml" [120] 0 .nil)) 0 .nil) 0
  workingNames := ["work"]
  home := ⟨"/work"⟩
  clock := 1

/-- Settings of a run over the binary. -/
def resultRun (policy : Walk.Policy) : Settings :=
  { Settings.default with
    binaries := ⟨"bin"⟩
    output := ⟨"m.xml"⟩
    policy := policy
    machineProvided := some [] }

/-- The binary breaks after its first class: the walk only notes this, and the description fails. -/
theorem not_isFile_of_failed_run_halfBroken :
    ∃ failure, (run (withResult Walk.halfBroken) (resultRun .lenient) none).answer =
        .error failure ∧
      ¬ (run (withResult Walk.halfBroken) (resultRun .lenient) none).files.IsFile ⟨"m.xml"⟩ := by
  have hneeded : (withResult Walk.halfBroken).isUpToDate ⟨"bin"⟩ ⟨"m.xml"⟩ = .ok false :=
    Answer.toOption_eq_some.1 (by decide +kernel)
  have hanalysed : (analyse (withResult Walk.halfBroken) (resultRun .lenient)).answer.toBool =
      true := by decide +kernel
  have hfails : (run (withResult Walk.halfBroken) (resultRun .lenient) none).answer.toBool =
      false := by decide +kernel
  cases h : (run (withResult Walk.halfBroken) (resultRun .lenient) none).answer with
  | ok answer =>
    rw [h] at hfails
    cases hfails
  | error failure =>
    refine ⟨failure, rfl, ?_⟩
    rcases not_isFile_of_failed_run (.inr hneeded) h with ⟨hwalk, -⟩ | hgone
    · rw [hwalk] at hanalysed
      cases hanalysed
    · exact hgone

/-- **A run can fail and leave the result of an earlier one.** -/
theorem exists_failed_run_isFile :
    ¬ ∀ (fs : FileSystem) (s : Settings) (breakdown : Option Breakdown) (failure : Failure),
      (s.force = true ∨ fs.isUpToDate s.binaries s.output = .ok false) →
      (run fs s breakdown).answer = .error failure →
        ¬ (run fs s breakdown).files.IsFile s.output := by
  intro never
  have hneeded : (withResult [120]).isUpToDate ⟨"bin"⟩ ⟨"m.xml"⟩ = .ok false :=
    Answer.toOption_eq_some.1 (by decide +kernel)
  have hfails : (run (withResult [120]) (resultRun .strict) none).answer.toBool = false := by
    decide +kernel
  have hstays : (run (withResult [120]) (resultRun .strict) none).files.IsFile ⟨"m.xml"⟩ := by
    decide +kernel
  cases h : (run (withResult [120]) (resultRun .strict) none).answer with
  | ok answer =>
    rw [h] at hfails
    cases hfails
  | error failure => exact never _ _ none failure (.inr hneeded) h hstays

end JarGraph
