import JarGraph.Proofs.Walk.Following
/-!
# What conflicts tell

A listener that feeds a fresh analyser counts a conflict each time a
class is found in another container than the one it was found in last.
There is none exactly if no class was found in two containers, and then
neither the order of the containers shows nor whether they are fed once
or twice (`conflicts_visited`). All of it is read off what the events
bring (`accounts_visited`): the conflicts are the clashes among the
extractions, and the analyser has been fed with these.
-/

namespace JarGraph.Walk

open Analyser (Call SameFacts SameViews)
open Analysis (Extracted Unambiguous clashes feed)

variable {patterns : List String} {depth : Depth} {visits others : List Episode}

/-- A listener with a fresh analyser after some containers. -/
def visited (patterns : List String) (depth : Depth) (visits : List Episode) : AnalysisState :=
  analysisListener.follow (visits.flatMap Episode.events) (blank patterns depth)

theorem extracted_extractedFrom (depth : Depth) (visits : List Episode) :
    Extracted (extractedFrom depth visits) := by
  rw [← received_episodes depth ⟨""⟩]
  exact extracted_received _ _ _

/-- What the containers bring to a listener, whatever it did before. -/
theorem accounts_visits (visits : List Episode) (s : AnalysisState) :
    Accounts s (extractedFrom s.depth visits)
      (analysisListener.follow (visits.flatMap Episode.events) s) := by
  rw [← received_episodes s.depth s.container]
  exact accounts_follow ..

theorem accounts_visited (patterns : List String) (depth : Depth) (visits : List Episode) :
    Accounts (blank patterns depth) (extractedFrom depth visits) (visited patterns depth visits) :=
  accounts_visits visits (blank patterns depth)

theorem analyser_visited (patterns : List String) (depth : Depth) (visits : List Episode) :
    (visited patterns depth visits).analyser =
      feed (blank patterns depth).analyser (extractedFrom depth visits) :=
  (accounts_visited patterns depth visits).analyser

theorem fresh_visited (patterns : List String) (depth : Depth) (visits : List Episode) :
    (visited patterns depth visits).analyser.Fresh := by
  rw [analyser_visited]
  exact Analysis.fresh_feed (fresh_blank patterns depth) _

theorem conflicts_visited_eq (patterns : List String) (depth : Depth) (visits : List Episode) :
    (visited patterns depth visits).conflicts =
      clashes (blank patterns depth).analyser (extractedFrom depth visits) :=
  (accounts_visited patterns depth visits).conflicts.trans (Nat.zero_add _)

/-- **What conflicts tell.** Let some containers be fed to a fresh analyser, whatever its patterns
are. There is no conflict exactly if no class was extracted from two containers. If there is none,
the same containers in any other order give equal views; and if they are fed once more, to the same
listener or to another one of the same depth, after the derived sets were asked for or not, there is
no further conflict, and the analyser stays as it is: with all of its views, and resolved if it
was. -/
theorem conflicts_visited (patterns : List String) (depth : Depth) (visits : List Episode) :
    ((visited patterns depth visits).conflicts = 0 ↔
      Unambiguous (extractedFrom depth visits)) ∧
    ((visited patterns depth visits).conflicts = 0 →
      (∀ others, visits.Perm others →
        SameViews (visited patterns depth visits).analyser.result
          (visited patterns depth others).analyser.result) ∧
      ∀ again : AnalysisState, again.depth = depth →
        SameFacts again.analyser (visited patterns depth visits).analyser →
        (analysisListener.follow (visits.flatMap Episode.events) again).analyser = again.analyser ∧
        (analysisListener.follow (visits.flatMap Episode.events) again).conflicts =
          again.conflicts) := by
  have extracted := extracted_extractedFrom depth visits
  rw [conflicts_visited_eq]
  refine ⟨?_, fun hclashes => ⟨fun others perm => ?_, fun again hdepth facts => ?_⟩⟩
  · rw [Analysis.clashes_eq_zero_iff extracted, Analysis.unambiguous_iff]
    simp only [containerOf_blank, Option.toList_none, List.nil_append]
  · refine Analyser.sameViews_result ?_ (fresh_visited _ _ _) (fresh_visited _ _ _)
    rw [analyser_visited, analyser_visited]
    exact Analysis.alike_feed_of_perm extracted hclashes (perm.flatMap_right _)
  · have accounts := accounts_visits visits again
    rw [analyser_visited] at facts
    obtain ⟨hfeed, hnone⟩ := Analysis.feed_again extracted hclashes facts
    rw [hdepth] at accounts
    exact ⟨accounts.analyser.trans hfeed, accounts.conflicts.trans (by rw [hnone, Nat.add_zero])⟩

/-! ## Two archives -/

/-- An archive with a class `A` that references `B`, and one with `B`. -/
def twoArchives : List Episode :=
  [⟨⟨"a.jar"⟩, some ⟨50, [.classData 100 Extraction.selfReferring]⟩, none⟩,
    ⟨⟨"b.jar"⟩, some ⟨100, [.classData 100 Analysis.plainClass]⟩, none⟩]

/-- The listener that is fed again has another log and has brought its derived sets up to date. -/
theorem conflicts_visited_twoArchives :
    (visited ["C"] .dependencies twoArchives).conflicts = 0 ∧
    Unambiguous (extractedFrom .dependencies twoArchives) ∧
    twoArchives.Perm twoArchives.reverse ∧
    SameViews (visited ["C"] .dependencies twoArchives).analyser.result
      (visited ["C"] .dependencies twoArchives.reverse).analyser.result ∧
    (visited ["C"] .dependencies twoArchives).analyser.result.fileEdges.contains
      (.edge ⟨"a.jar"⟩ ⟨"b.jar"⟩) = true ∧
    SameFacts (visited ["C"] .dependencies twoArchives).analyser.resolve
      (visited ["C"] .dependencies twoArchives).analyser ∧
    (analysisListener.follow (twoArchives.flatMap Episode.events) (.start
        (visited ["C"] .dependencies twoArchives).analyser.resolve .dependencies)).analyser =
      (visited ["C"] .dependencies twoArchives).analyser.resolve := by
  have hnone : (visited ["C"] .dependencies twoArchives).conflicts = 0 := by decide +kernel
  have edge : (visited ["C"] .dependencies twoArchives).analyser.result.fileEdges.contains
      (.edge ⟨"a.jar"⟩ ⟨"b.jar"⟩) = true := by decide +kernel
  have perm : twoArchives.Perm twoArchives.reverse := twoArchives.reverse_perm.symm
  obtain ⟨hiff, hfed⟩ := conflicts_visited ["C"] .dependencies twoArchives
  obtain ⟨horder, hagain⟩ := hfed hnone
  -- What the listener came to is not looked at any more.
  generalize visited ["C"] .dependencies twoArchives = fed at *
  have facts := Analyser.sameFacts_resolve fed.analyser
  exact ⟨hnone, hiff.1 hnone, perm, horder _ perm, edge, facts,
    (hagain (.start fed.analyser.resolve .dependencies) rfl facts).1⟩

end JarGraph.Walk
