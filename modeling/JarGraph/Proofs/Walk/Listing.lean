import JarGraph.Proofs.Walk.Following
/-!
# Listing after an analysis

What a walk that only lists classes changes of what an earlier walk came
to, whatever it finds and however it ends (`listedAfter_run`). It brings
no class edge, and takes away the unresolved classes that it finds. Where
it finds no class in another container than the known one it only adds
dependencies between containers, each from a container that was analysed
to one that it lists. `Rooted` is what the earlier walk leaves for this:
a class that references another one is at home in one of its containers.
-/

namespace JarGraph

namespace Analyser

variable {a : Analyser} {file other : Path} {name : String}

/-- A class has one home. -/
theorem same_of_isHome (h : a.isHome file name = true) (h' : a.isHome other name = true) :
    file.same other = true := by
  obtain ⟨p, hp, hfile⟩ := isHome_iff.1 h
  obtain ⟨q, hq, hother⟩ := isHome_iff.1 h'
  obtain rfl := Option.some.inj (hp.symm.trans hq)
  rw [Path.same_comm] at hfile
  exact Path.same_trans hfile hother

theorem isHome_of_same (h : a.isHome file name = true) (hsame : file.same other = true) :
    a.isHome other name = true := by
  obtain ⟨p, hp, hfile⟩ := isHome_iff.1 h
  exact isHome_iff.2 ⟨p, hp, Path.same_trans hfile hsame⟩

theorem isHome_congr {b : Analyser} (h : SameFacts a b) (file : Path) (name : String) :
    a.isHome file name = b.isHome file name := by
  rw [isHome, isHome, containerOf, containerOf, h.classes]

/-- Fresh analysers with the same facts have one result. -/
theorem result_of_sameFacts {b : Analyser} (h : SameFacts a b) (ha : a.Fresh) (hb : b.Fresh) :
    a.result = b.result :=
  result_of_agree (.of_sameFacts h) ha hb

end Analyser

namespace Walk

open Analyser (SameFacts)
open Analysis (Extracted Holds clashes feed)

variable {a : Analyser} {found listed : List (Path × Extraction)} {containers : OrderedSet Path}

/-! ## What the earlier walk leaves -/

/-- A class that references another one is at home in one of some containers, and nowhere else. -/
def Rooted (a : Analyser) (containers : OrderedSet Path) : Prop :=
  ∀ user name, a.classEdges.contains (.edge user name) = true →
    (∃ file, a.isHome file user = true) ∧
      ∀ file, a.isHome file user = true → containers.contains file = true

/-- **An analysis of a fresh analyser is rooted** in the containers that it counts. -/
theorem rooted_follow (patterns : List String) (depth : Depth) (events : List Event) :
    Rooted (analysisListener.follow events (blank patterns depth)).analyser
      (analysisListener.follow events (blank patterns depth)).containers := by
  have accounts := accounts_follow events (blank patterns depth)
  have extracted := extracted_received (blank patterns depth).depth
    (blank patterns depth).container events
  generalize received _ _ events = found at accounts extracted
  have hanalyser : _ = feed (blank patterns depth).analyser found := accounts.analyser
  have hcontainers : _ = (found.map Prod.fst).foldl OrderedSet.insert .empty :=
    accounts.containers
  have nowhere (file : Path) (user : String) :
      (blank patterns depth).analyser.isHome file user ≠ true := by
    intro h
    obtain ⟨p, hp, -⟩ := Analyser.isHome_iff.1 h
    rw [containerOf_blank] at hp
    cases hp
  rw [hanalyser, hcontainers]
  intro user name hedge
  constructor
  -- A reference comes with the class that makes it, and a class that was found is somewhere.
  · have hknown : (feed (blank patterns depth).analyser found).containerOf user ≠ none := by
      intro hnone
      obtain ⟨-, hnowhere⟩ := (Analysis.containerOf_feed_eq_none extracted).1 hnone
      rcases Analysis.exists_holds_of_classEdges_feed extracted hedge with hblank | hholds
      · rw [(facts_blank patterns depth).2] at hblank
        cases hblank
      · exact hnowhere hholds
    obtain ⟨p, hp⟩ := Option.ne_none_iff_exists'.1 hknown
    exact ⟨p, Analyser.isHome_iff.2 ⟨p, hp, p.same_self⟩⟩
  · intro file hfile
    have hholds := (Analysis.isHome_or_holds_of_feed extracted hfile).resolve_left (nowhere _ _)
    exact Analysis.contains_containers.2 ⟨user, hholds⟩

/-! ## What a listing changes -/

/-- What classes that were only listed change of a result. -/
structure ListedAfter (before : AnalysisResult) (containers : OrderedSet Path)
    (listed : List (Path × Extraction)) (conflicts : Nat) (after : AnalysisResult) : Prop where
  classEdges : after.classEdges = before.classEdges
  /-- An unresolved class stays so unless it is listed. -/
  unresolved : ∀ d, after.unresolved.contains d = true ↔
    before.unresolved.contains d = true ∧ ¬ ∃ file, Holds listed file d.source
  /-- Without a conflict, dependencies between containers stay. -/
  kept : conflicts = 0 → ∀ d, before.fileEdges.contains d = true →
    after.fileEdges.contains d = true
  /-- Without a conflict, a new one leads from an analysed container to one with a listed class. -/
  new : conflicts = 0 → ∀ d, after.fileEdges.contains d = true →
    before.fileEdges.contains d = true ∨
      ∃ source target, d = .edge source target ∧ containers.contains source = true ∧
        ∃ name, Holds listed target name

/-- **What a listing changes**, said of an analyser that is fed with listed classes. -/
theorem listedAfter_feed (fresh : a.Fresh) (rooted : Rooted a containers)
    (inventory : ∀ p x, (p, x) ∈ listed → ∃ data, extract data p .inventory = .ok x) :
    ListedAfter a.result containers listed (clashes a listed) (feed a listed).result := by
  have extracted : Extracted listed := fun p x hx => by
    obtain ⟨data, hdata⟩ := inventory p x hx
    exact ⟨data, .inventory, hdata⟩
  have edges := Analysis.classEdges_feed_of_inventory inventory a
  rw [Analyser.result_of_fresh fresh, Analyser.result_of_fresh (Analysis.fresh_feed fresh listed)]
  refine ⟨edges, fun d => ?_, fun hclashes d hd => ?_, fun hclashes d hd => ?_⟩
  · simp only [Analyser.contains_unresolved_derived, edges, Analyser.isMissing,
      Analysis.provided_feed, Analysis.containerOf_feed_eq_none extracted]
    constructor
    · rintro ⟨name, user, rfl, hedge, ⟨hnone, hlisted⟩, hmissing⟩
      exact ⟨⟨name, user, rfl, hedge, hnone, hmissing⟩, hlisted⟩
    · rintro ⟨⟨name, user, rfl, hedge, hnone, hmissing⟩, hlisted⟩
      exact ⟨name, user, rfl, hedge, ⟨hnone, hlisted⟩, hmissing⟩
  · simp only [Analyser.contains_fileEdges_derived, edges] at hd ⊢
    obtain ⟨source, target, rfl, hne, user, name, hedge, hsource, htarget⟩ := hd
    exact ⟨source, target, rfl, hne, user, name, hedge,
      (Analysis.isHome_feed extracted hclashes).2 (.inl hsource),
      (Analysis.isHome_feed extracted hclashes).2 (.inl htarget)⟩
  · simp only [Analyser.contains_fileEdges_derived, edges] at hd ⊢
    obtain ⟨source, target, rfl, hne, user, name, hedge, hsource, htarget⟩ := hd
    -- The class that references the other one has not moved.
    obtain ⟨⟨file, hfile⟩, hroots⟩ := rooted user name hedge
    have hsame := Analyser.same_of_isHome
      ((Analysis.isHome_feed extracted hclashes).2 (.inl hfile)) hsource
    have hsource := Analyser.isHome_of_same hfile hsame
    rcases Analysis.isHome_or_holds_of_feed extracted htarget with htarget | hlisted
    · exact .inl ⟨source, target, rfl, hne, user, name, hedge, hsource, htarget⟩
    · exact .inr ⟨source, target, rfl, hroots source hsource, name, hlisted⟩

/-! ## Two walks -/

/-- A walk for an analysis alone. -/
def alone (policy : Policy) (debug : Bool) : Plan AnalysisState :=
  ⟨policy, debug, [analysisListener]⟩

/-- What a walk that analyses leaves of a listener with a fresh analyser. -/
def analysing (plan : Plan AnalysisState) (fs : FileSystem) (source : Source)
    (patterns : List String) : AnalysisState :=
  (plan.run fs source (blank patterns .dependencies)).1.listeners

/-- What a walk that only lists comes to with an analyser. -/
def listing (plan : Plan AnalysisState) (fs : FileSystem) (source : Source) (a : Analyser) :
    State AnalysisState :=
  (plan.run fs source (.start a .inventory)).1

/-- The classes that a walk lists: those that it hands over, each for the container that is open
then. -/
def listedIn (s : State AnalysisState) : List (Path × Extraction) :=
  received .inventory ⟨""⟩ (s.heard 0)

variable {policy policy' : Policy} {debug debug' : Bool} {fs fs' : FileSystem}
  {source source' : Source} {patterns : List String}

theorem analysing_eq (policy : Policy) (debug : Bool) (fs : FileSystem) (source : Source)
    (patterns : List String) :
    ∃ events, analysing (alone policy debug) fs source patterns =
      analysisListener.follow events (blank patterns .dependencies) :=
  ⟨_, listeners_run_of_single rfl fs source _⟩

theorem rooted_analysing :
    Rooted (analysing (alone policy debug) fs source patterns).analyser
      (analysing (alone policy debug) fs source patterns).containers := by
  obtain ⟨events, hevents⟩ := analysing_eq policy debug fs source patterns
  rw [hevents]
  exact rooted_follow patterns .dependencies events

theorem fresh_analysing : (analysing (alone policy debug) fs source patterns).analyser.Fresh := by
  obtain ⟨events, hevents⟩ := analysing_eq policy debug fs source patterns
  rw [hevents, (accounts_follow events _).analyser]
  exact Analysis.fresh_feed (fresh_blank patterns .dependencies) _

theorem accounts_listing (policy : Policy) (debug : Bool) (fs : FileSystem) (source : Source)
    (a : Analyser) :
    Accounts (.start a .inventory) (listedIn (listing (alone policy debug) fs source a))
      (listing (alone policy debug) fs source a).listeners := by
  have accounts := accounts_follow ((listing (alone policy debug) fs source a).heard 0)
    (.start a .inventory)
  rwa [listing, ← listeners_run_of_single rfl fs source] at accounts

/-- **What a listing changes.** Let one walk analyse any containers with a fresh analyser and
another walk list any others, each of them under any policy and however it ends. The second walk may
find the analyser as the first one left it, or after its derived sets were asked for. -/
theorem listedAfter_run
    (facts : SameFacts a (analysing (alone policy debug) fs source patterns).analyser)
    (fresh : a.Fresh) :
    ListedAfter (analysing (alone policy debug) fs source patterns).analyser.result
      (analysing (alone policy debug) fs source patterns).containers
      (listedIn (listing (alone policy' debug') fs' source' a))
      (listing (alone policy' debug') fs' source' a).listeners.conflicts
      (listing (alone policy' debug') fs' source' a).listeners.analyser.result := by
  have accounts := accounts_listing policy' debug' fs' source' a
  have hconflicts : (listing (alone policy' debug') fs' source' a).listeners.conflicts =
      clashes a (listedIn (listing (alone policy' debug') fs' source' a)) :=
    accounts.conflicts.trans (Nat.zero_add _)
  have hanalyser : (listing (alone policy' debug') fs' source' a).listeners.analyser =
      feed a (listedIn (listing (alone policy' debug') fs' source' a)) := accounts.analyser
  have rooted : Rooted a (analysing (alone policy debug) fs source patterns).containers := by
    intro user name hedge
    rw [facts.classEdges] at hedge
    simp only [Analyser.isHome_congr facts]
    exact rooted_analysing user name hedge
  rw [hconflicts, hanalyser, ← Analyser.result_of_sameFacts facts fresh fresh_analysing]
  exact listedAfter_feed fresh rooted fun p x hx => exists_extract_of_mem_received hx

/-! ## A class that is listed -/

/-- The class among the binaries is analysed. -/
def binariesAnalysed : AnalysisState :=
  analysing (alone .strict false) Analysis.twoClasses (.files ⟨"bin"⟩ [⟨"bin/A.class"⟩]) []

/-- The class beside them is listed twice, after the derived sets were asked for. -/
def besideListed : State AnalysisState :=
  listing (alone .lenient true) Analysis.twoClasses
    (.files ⟨"bin"⟩ [⟨"B.class"⟩, ⟨"B.class"⟩]) binariesAnalysed.analyser.resolve

theorem listedAfter_run_twoClasses :
    SameFacts binariesAnalysed.analyser.resolve binariesAnalysed.analyser ∧
      binariesAnalysed.analyser.resolve.Fresh ∧
      ListedAfter binariesAnalysed.analyser.result binariesAnalysed.containers
        (listedIn besideListed) besideListed.listeners.conflicts
        besideListed.listeners.analyser.result ∧
      besideListed.listeners.conflicts = 0 ∧
      binariesAnalysed.analyser.result.unresolved.contains (.edge "B" "A") = true ∧
      besideListed.listeners.analyser.result.unresolved.contains (.edge "B" "A") = false ∧
      binariesAnalysed.analyser.result.fileEdges.isEmpty = true ∧
      besideListed.listeners.analyser.result.fileEdges.contains
        (.edge ⟨"bin/A.class"⟩ ⟨"B.class"⟩) = true := by
  unfold besideListed binariesAnalysed
  have facts := Analyser.sameFacts_resolve (analysing (alone .strict false) Analysis.twoClasses
    (.files ⟨"bin"⟩ [⟨"bin/A.class"⟩]) []).analyser
  have fresh := Analyser.fresh_resolve (@fresh_analysing .strict false Analysis.twoClasses
    (.files ⟨"bin"⟩ [⟨"bin/A.class"⟩]) [])
  exact ⟨facts, fresh, listedAfter_run facts fresh, by decide +kernel, by decide +kernel,
    by decide +kernel, by decide +kernel, by decide +kernel⟩

end Walk

end JarGraph
