import JarGraph.Freshness
import JarGraph.Proofs.Answer
/-!
# What freshness says

A result that is fresh is newer than every file that a scan of the
directory finds, but for the result itself, and the scan could read all of
the directory (`of_isUpToDate`). A result of which this holds is fresh
(`isUpToDate_iff`).
-/

namespace JarGraph

/-- Where there is a time there is a range, and the time is no later than the newest in it. -/
theorem TimeRange.exists_newest {times : List Instant} {t : Instant} (h : t ∈ times) :
    ∃ range, TimeRange.ofList times = some range ∧ t ≤ range.newest := by
  induction times with
  | nil => cases h
  | cons first times ih =>
    rw [ofList]
    cases hmore : ofList times with
    | none =>
      rcases List.mem_cons.1 h with rfl | h
      · exact ⟨_, rfl, Nat.le_refl _⟩
      · obtain ⟨range, hrange, -⟩ := ih h
        rw [hmore] at hrange
        cases hrange
    | some before =>
      refine ⟨_, rfl, ?_⟩
      rcases List.mem_cons.1 h with rfl | h
      · exact Nat.le_max_right _ _
      · obtain ⟨range, hrange, hle⟩ := ih h
        rw [hmore] at hrange
        obtain rfl := Option.some.inj hrange
        exact Nat.le_trans hle (Nat.le_max_left _ _)

/-- The newest time of a range is one of its times. -/
theorem TimeRange.newest_mem {times : List Instant} {range : TimeRange}
    (h : TimeRange.ofList times = some range) : range.newest ∈ times := by
  induction times generalizing range with
  | nil => cases h
  | cons first times ih =>
    rw [ofList] at h
    cases hmore : ofList times with
    | none =>
      rw [hmore] at h
      obtain rfl := Option.some.inj h
      exact List.mem_cons_self
    | some before =>
      rw [hmore] at h
      obtain rfl := Option.some.inj h
      have hbefore := ih hmore
      show max before.newest first ∈ first :: times
      rcases Nat.le_total before.newest first with hle | hle
      · rw [Nat.max_eq_right hle]
        exact List.mem_cons_self
      · rw [Nat.max_eq_left hle]
        exact List.mem_cons_of_mem _ hbefore

namespace FileSystem

variable {fs : FileSystem} {binaries result : Path}

/-- **A result that is up to date** is newer than all files that are found below the directory. -/
theorem of_isUpToDate (h : fs.isUpToDate binaries result = .ok true) :
    ∃ written, fs.modified? result = some written ∧
      ∀ x ∈ fs.findings binaries fun _ => false,
        ∃ f, x = .ok f ∧ (f.path.same result = false → f.modified < written) := by
  unfold isUpToDate at h
  split at h
  · cases h
  rename_i written hwritten
  refine ⟨written, hwritten, ?_⟩
  unfold timeRange at h
  cases hfiles : (fs.findings binaries fun _ => false).mapM id with
  | error cause =>
    rw [hfiles] at h
    cases h
  | ok files =>
    rw [hfiles] at h
    rw [← List.map_id (fs.findings binaries fun _ => false), Answer.map_eq_of_mapM hfiles]
    dsimp only at h
    intro x hx
    obtain ⟨f, hf, rfl⟩ := List.mem_map.1 hx
    refine ⟨f, rfl, fun hother => ?_⟩
    have hcounted : f.modified ∈
        (files.filter fun file => !(some result).any file.path.same).map
          ScannedFile.modified := by
      refine List.mem_map_of_mem (List.mem_filter.2 ⟨hf, ?_⟩)
      rw [Option.any_some, hother]
      rfl
    obtain ⟨range, hrange, hnewest⟩ := TimeRange.exists_newest hcounted
    rw [hrange] at h
    have hlt : range.newest < written := of_decide_eq_true (Except.ok.inj h)
    exact Nat.lt_of_le_of_lt hnewest hlt

/-- A result that is newer than all other files that are found is up to date. -/
theorem isUpToDate_of_older {written : Instant} (hwritten : fs.modified? result = some written)
    (hall : ∀ x ∈ fs.findings binaries fun _ => false,
      ∃ f, x = .ok f ∧ (f.path.same result = false → f.modified < written)) :
    fs.isUpToDate binaries result = .ok true := by
  obtain ⟨files, hfiles⟩ := Answer.exists_mapM fun x hx => (hall x hx).imp fun _ => And.left
  have hfound := Answer.map_eq_of_mapM hfiles
  rw [List.map_id] at hfound
  rw [isUpToDate, hwritten]
  dsimp only
  rw [timeRange, hfiles]
  dsimp only
  split
  · rename_i heq
    cases heq
  · rfl
  · rename_i range hrange
    have hnewest := TimeRange.newest_mem (Except.ok.inj hrange)
    obtain ⟨f, hf, hmodified⟩ := List.mem_map.1 hnewest
    obtain ⟨hmem, hother⟩ := List.mem_filter.1 hf
    rw [Option.any_some, Bool.not_eq_true'] at hother
    have hin : .ok f ∈ fs.findings binaries fun _ => false := by
      rw [hfound]
      exact List.mem_map_of_mem hmem
    obtain ⟨g, hg, hlt⟩ := hall _ hin
    obtain rfl := Except.ok.inj hg
    rw [← hmodified, decide_eq_true (hlt hother)]

/-- **When a result is up to date.** -/
theorem isUpToDate_iff :
    fs.isUpToDate binaries result = .ok true ↔
      ∃ written, fs.modified? result = some written ∧
        ∀ x ∈ fs.findings binaries fun _ => false,
          ∃ f, x = .ok f ∧ (f.path.same result = false → f.modified < written) :=
  ⟨of_isUpToDate, fun ⟨_, hwritten, hall⟩ => isUpToDate_of_older hwritten hall⟩

end FileSystem

end JarGraph
