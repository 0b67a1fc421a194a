import JarGraph.Proofs.Extraction.Receiver
import JarGraph.Walk.Analysis
/-!
# A class that is refused

A class is decoded as a whole before anything of it is received, so that a
class that is refused leaves no trace in the listener or its analyser
(`refused_class_leaves_no_trace`).
-/

namespace JarGraph.Walk

open Extraction (Visit sendElement)

namespace AnalysisState

/-- A listener takes in all that a class reports, or nothing. -/
theorem examine_eq (data : Bytes) (s : AnalysisState) :
    s.examine data =
      match extract data s.container s.depth with
      | .error cause => (s, some cause)
      | .ok x =>
        let s' := x.sightings.foldl receive s
        ({ s' with
            tracker := s'.tracker.record
            containers := s'.containers.insert s.container },
          none) := by
  rw [examine, extractInto_eq]
  cases extract data s.container s.depth <;> rfl

end AnalysisState

/-- **A class that is refused leaves no trace.** A listener that refuses a class is in the state in
which it was, with its analyser, its container and all counts; no receiver gets anything of a class
that is refused, at either depth; and no step of the visit of a class fails. -/
theorem refused_class_leaves_no_trace :
    (∀ (data : Bytes) (s s' : AnalysisState) (cause : ClassFile.Error),
      s.examine data = (s', some cause) → s' = s) ∧
    (∀ (σ : Type) (receive : σ → Sighting → σ) (data : Bytes) (container : Path) (depth : Depth)
      (r r' : σ) (cause : ClassFile.Error),
      (extractInto receive data container depth).run.run r = (.error cause, r') → r' = r) ∧
    ∀ (σ : Type) (receive : σ → Sighting → σ) (container : Path) (element : ClassFile.Element)
      (v : Visit σ), ∃ v', (sendElement receive container element).run.run v = (.ok ⟨⟩, v') := by
  refine ⟨fun data s s' cause h => ?_, fun σ receive data container depth r r' cause h => ?_,
    fun σ receive container element v => ?_⟩
  · rw [AnalysisState.examine_eq] at h
    split at h
    · exact (congrArg Prod.fst h).symm
    · cases (Prod.mk.inj h).2
  · rw [extractInto_eq] at h
    split at h
    · exact (congrArg Prod.snd h).symm
    · cases (Prod.mk.inj h).1
  · exact ⟨_, Extraction.run_sendElement element ⟨v.current, v.seen, []⟩⟩

/-- A listener that has a container open, and has found a class in it. -/
def midway : AnalysisState :=
  let opened := (AnalysisState.start .empty .dependencies).notice (.opened 50 ⟨"a.jar"⟩)
  (opened.examine Extraction.selfReferring).1

/-- The class with a byte too many is refused, and what was found before stays as it was; a receiver
that lists sightings gets none. -/
theorem refused_class_midway :
    (∃ s', midway.examine (Extraction.selfReferring ++ [0]) = (s', some .trailingBytes) ∧
      s' = midway ∧ s'.tracker = ⟨some ⟨"a.jar"⟩, 1⟩ ∧
      s'.analyser.containerOf "A" = some ⟨"a.jar"⟩) ∧
    ∃ sent, (extractInto (fun sent sighting => sent ++ [sighting]) (Extraction.selfReferring ++ [0])
        ⟨"a.jar"⟩ .dependencies).run.run [] = (.error .trailingBytes, sent) ∧ sent = [] := by
  obtain ⟨hlistener, hreceiver, -⟩ := refused_class_leaves_no_trace
  have hdecode : extract (Extraction.selfReferring ++ [0]) ⟨"a.jar"⟩ .dependencies =
      .error .trailingBytes := rfl
  have hsent := extractInto_eq (fun sent sighting => sent ++ [sighting])
    (Extraction.selfReferring ++ [0]) ⟨"a.jar"⟩ .dependencies []
  rw [hdecode] at hsent
  have hcontainer : midway.container = ⟨"a.jar"⟩ := by decide +kernel
  have hdepth : midway.depth = .dependencies := by decide +kernel
  have hrefused := AnalysisState.examine_eq (Extraction.selfReferring ++ [0]) midway
  rw [hcontainer, hdepth, hdecode] at hrefused
  exact ⟨⟨_, hrefused, hlistener _ _ _ _ hrefused, by decide +kernel, by decide +kernel⟩, _, hsent,
    hreceiver _ _ _ _ _ _ _ _ hsent⟩

end JarGraph.Walk
