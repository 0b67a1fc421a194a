import JarGraph.Proofs.Run.Places
import JarGraph.Proofs.Walk.Sending
/-!
# What an analysis takes from what it hears

A listener that is alone on a walk is left in the state that it comes to
by following what it hears (`listeners_run_of_single`), however the walk
ends. So an analysis can be judged by its events: each class belongs to
the container that is open when it is handed over (`received`), and
`Accounts` says what lies between two states of the listener, its
conflicts included: these are the clashes among the received classes
(`accounts_follow`).
-/

namespace JarGraph.Walk

open Analyser (Call)
open Analysis (Extracted clash clashes feed)

/-! ## A listener alone -/

section

variable {σ : Type} {plan : Plan σ} {l : Listener σ}

/-- The state that a listener comes to by some events. -/
def Listener.follow (l : Listener σ) (events : List Event) (s : σ) : σ :=
  events.foldl (fun s event => l.react event s) s

/-- A listener alone is reached by every round. -/
theorem Rounds.of_single {t t' : σ} {rounds : List Round} (h : Rounds [l] t rounds t') :
    t' = l.follow (rounds.map Round.event) t ∧ ∀ r ∈ rounds, 0 < r.reach := by
  induction h with
  | nil => exact ⟨rfl, fun _ h => absurd h List.not_mem_nil⟩
  | @cons t t' r more reaches rest ih =>
    obtain ⟨hfollow, hreach⟩ := ih
    -- Nobody stands before it who could refuse.
    have hpos : 0 < r.reach :=
      (reaches.lt_iff 0 Nat.one_pos).2 fun _ hj => absurd hj (Nat.not_lt_zero _)
    have hone : r.reach = 1 := Nat.le_antisymm reaches.le_length hpos
    refine ⟨?_, List.forall_mem_cons.2 ⟨hpos, hreach⟩⟩
    rw [hfollow, hone]
    rfl

/-- **A listener that is alone on a walk** follows what it hears. -/
theorem listeners_run_of_single (only : plan.listeners = [l]) (fs : FileSystem) (source : Source)
    (start : σ) :
    (plan.run fs source start).1.listeners =
      l.follow ((plan.run fs source start).1.heard 0) start := by
  obtain ⟨rounds, hsends⟩ := sending_run plan fs source start
  have hheard := hsends.heard 0
  rw [only] at hsends
  obtain ⟨hfollow, hreach⟩ := hsends.made.of_single
  rw [heard_start, List.nil_append, List.filter_eq_self.2 fun r hr => decide_eq_true (hreach r hr)]
    at hheard
  rw [hfollow, hheard]

end

/-! ## Received classes -/

variable {s s' s'' : AnalysisState} {found more : List (Path × Extraction)}
variable {depth : Depth} {file : Path} {events others : List Event}

/-- The container that is open after an event; where there is none it is the empty path. -/
def openAfter (file : Path) : Event → Path
  | .opened _ next => next
  | .closed => ⟨""⟩
  | _ => file

/-- The extraction that an event brings, if it brings a class that can be decoded. -/
def brought (depth : Depth) (file : Path) : Event → List (Path × Extraction)
  | .classData _ data => extractions file depth [data]
  | _ => []

/-- What is extracted from the classes among some events, each for the container that is open when
it is handed over. -/
def received (depth : Depth) (file : Path) : List Event → List (Path × Extraction)
  | [] => []
  | event :: events => brought depth file event ++ received depth (openAfter file event) events

theorem received_append :
    received depth file (events ++ others) =
      received depth file events ++ received depth (events.foldl openAfter file) others := by
  induction events generalizing file with
  | nil => rfl
  | cons event events ih =>
    rw [List.cons_append, received, received, ih, List.append_assoc, List.foldl_cons]

theorem exists_extract_of_mem_received {p : Path} {x : Extraction}
    (h : (p, x) ∈ received depth file events) : ∃ data, extract data p depth = .ok x := by
  induction events generalizing file with
  | nil => cases h
  | cons event events ih =>
    rcases List.mem_append.1 h with h | h
    · cases event with
      | classData progress data =>
        obtain ⟨rfl, content, -, hx⟩ := mem_extractions.1 h
        exact ⟨content, hx⟩
      | started | opened | closed | finished | failed | remark => cases h
    · exact ih h

theorem extracted_received (depth : Depth) (file : Path) (events : List Event) :
    Extracted (received depth file events) := by
  intro p x h
  obtain ⟨data, hx⟩ := exists_extract_of_mem_received h
  exact ⟨data, depth, hx⟩

/-- The details of a container that is open bring its classes. -/
theorem received_details (depth : Depth) (file : Path) (details : List Detail) :
    received depth file (details.map Detail.event) = extractions file depth (handed details) ∧
      (details.map Detail.event).foldl openAfter file = file := by
  induction details with
  | nil => exact ⟨rfl, rfl⟩
  | cons detail details ih =>
    cases detail with
    | remark message => exact ih
    | classData progress data =>
      refine ⟨?_, ih.2⟩
      have hhanded : handed (.classData progress data :: details) = [data] ++ handed details := rfl
      rw [hhanded, extractions_append, ← ih.1]
      rfl

theorem received_failureEvents (depth : Depth) (file : Path) (failures : List Error) :
    received depth file (Episode.failureEvents failures) = [] := by
  induction failures with
  | nil => rfl
  | cons cause failures ih => exact ih

/-- **An episode brings the classes of its container**, whatever was open before. -/
theorem received_episode (depth : Depth) (file : Path) (e : Episode) :
    received depth file e.events = extractions e.file depth e.classes := by
  unfold Episode.events Episode.classes
  rw [received_append, received_failureEvents, List.append_nil]
  cases e.opening with
  | none => rfl
  | some o =>
    obtain ⟨hdetails, -⟩ := received_details depth e.file o.details
    change received depth e.file (o.details.map Detail.event ++ [.closed]) = _
    rw [received_append, hdetails]
    exact List.append_nil _

/-- What is extracted from the classes of some containers, one after the other. -/
def extractedFrom (depth : Depth) (visits : List Episode) : List (Path × Extraction) :=
  visits.flatMap fun visit => extractions visit.file depth visit.classes

theorem received_episodes (depth : Depth) (file : Path) (visits : List Episode) :
    received depth file (visits.flatMap Episode.events) = extractedFrom depth visits := by
  induction visits generalizing file with
  | nil => rfl
  | cons visit visits ih =>
    rw [List.flatMap_cons, received_append, received_episode, ih]
    rfl

/-! ## What lies between two states -/

/-- All that lies between two states of the listener but its tracker and its log: the extractions,
and the conflicts, which are the clashes among them. -/
structure Accounts (s : AnalysisState) (found : List (Path × Extraction))
    (s' : AnalysisState) : Prop extends Feeds s found s' where
  conflicts : s'.conflicts = s.conflicts + clashes s.analyser found

namespace Accounts

theorem refl (s : AnalysisState) : Accounts s [] s :=
  ⟨.refl s, rfl⟩

theorem trans (h : Accounts s found s') (h' : Accounts s' more s'') :
    Accounts s (found ++ more) s'' := by
  have hfeed : s'.analyser = feed s.analyser found := h.analyser
  refine ⟨h.toFeeds.trans h'.toFeeds, ?_⟩
  rw [h'.conflicts, h.conflicts, Analysis.clashes_append, hfeed, Nat.add_assoc]

end Accounts

/-- A conflict is a clash. -/
theorem conflicts_receive_class (s : AnalysisState) (file : Path) (name : String) :
    (s.receive (.class file name)).conflicts = s.conflicts + clash s.analyser file name := by
  simp only [AnalysisState.receive, AnalysisState.checkConflict, clash]
  cases s.analyser.containerOf name with
  | none => rfl
  | some known => cases h : known.same file <;> simp [h, AnalysisState.logging]

/-- Only the class of an extraction can bring a conflict. -/
theorem conflicts_foldl_receive {data : Bytes} {x : Extraction}
    (h : extract data file depth = .ok x) (s : AnalysisState) :
    (x.sightings.foldl AnalysisState.receive s).conflicts =
      s.conflicts + clash s.analyser file x.name := by
  have references (names : List String) (t : AnalysisState) :
      ((names.map (Sighting.reference x.name)).foldl AnalysisState.receive t).conflicts =
        t.conflicts := by
    induction names generalizing t with
    | nil => rfl
    | cons name names ih => exact ih _
  obtain ⟨names, hsightings⟩ := Extraction.exists_sightings h
  rw [hsightings, List.foldl_cons, ← conflicts_receive_class]
  cases depth with
  | inventory => rfl
  | dependencies => exact references names _

theorem conflicts_notice (event : Event) (s : AnalysisState) :
    (AnalysisState.notice event s).conflicts = s.conflicts := by
  cases event with
  | started | finished =>
    simp only [AnalysisState.notice]
    split <;> rfl
  | closed =>
    simp only [AnalysisState.notice]
    split
    · rfl
    · split <;> rfl
  | opened | classData | failed | remark => rfl

theorem container_notice (event : Event) (s : AnalysisState) :
    (AnalysisState.notice event s).container = openAfter s.container event := by
  cases event with
  | started | finished =>
    simp only [AnalysisState.notice]
    split <;> rfl
  | closed =>
    simp only [AnalysisState.notice, Tracker.close, AnalysisState.container]
    cases hcurrent : s.tracker.current with
    | none => simp [hcurrent, openAfter]
    | some file => cases s.depth <;> rfl
  | opened | classData | failed | remark => rfl

/-- A class is received for the container that is open, or refused and left out. -/
theorem accounts_examine (data : Bytes) (s : AnalysisState) :
    Accounts s (extractions s.container s.depth [data]) (AnalysisState.examine data s).1 ∧
      (AnalysisState.examine data s).1.container = s.container := by
  rw [AnalysisState.examine_eq]
  cases hx : extract data s.container s.depth with
  | error cause =>
    rw [extractions_refused (by rw [hx]; rfl)]
    exact ⟨.refl s, rfl⟩
  | ok x =>
    obtain ⟨hanalyser, htracking⟩ := foldl_receive x.sightings s
    have hconflicts := conflicts_foldl_receive hx s
    rw [extractions, List.filterMap_cons_some (by rw [hx]; rfl), List.filterMap_nil]
    refine ⟨⟨⟨?_, ?_, htracking.depth⟩, hconflicts⟩, ?_⟩
    · simpa using hanalyser
    · simp [htracking.containers]
    · simp [AnalysisState.container, Tracker.record, htracking.tracker]

theorem accounts_react (event : Event) (s : AnalysisState) :
    Accounts s (brought s.depth s.container event) (analysisListener.react event s) ∧
      (analysisListener.react event s).container = openAfter s.container event := by
  -- To take notice of an event touches the tracker and the log only.
  have bookkeeping : Accounts s [] (AnalysisState.notice event s) :=
    ⟨feeds_notice event s, conflicts_notice event s⟩
  have hopen := container_notice event s
  cases event with
  | classData progress data => exact accounts_examine data s
  | started | opened | closed | finished | failed | remark => exact ⟨bookkeeping, hopen⟩

/-- **What the events bring to an analysis** is what is received from them, and as many conflicts as
there are clashes. -/
theorem accounts_follow (events : List Event) (s : AnalysisState) :
    Accounts s (received s.depth s.container events) (analysisListener.follow events s) := by
  induction events generalizing s with
  | nil => exact .refl s
  | cons event events ih =>
    obtain ⟨hevent, hopen⟩ := accounts_react event s
    have hrest := ih (analysisListener.react event s)
    rw [hevent.depth, hopen] at hrest
    exact hevent.trans hrest

/-! ## A fresh analyser -/

/-- A listener before its first event, with an analyser that was given some patterns and nothing
else. -/
def blank (patterns : List String) (depth : Depth) : AnalysisState :=
  .start (.replay (patterns.map Call.addProvided)) depth

theorem fresh_blank (patterns : List String) (depth : Depth) :
    (blank patterns depth).analyser.Fresh :=
  Analyser.fresh_replay _

/-- It knows no class and no reference. -/
theorem facts_blank (patterns : List String) (depth : Depth) :
    (blank patterns depth).analyser.classes = .empty ∧
      (blank patterns depth).analyser.classEdges = .empty := by
  refine Analyser.replay_of_patterns fun call hcall => ?_
  obtain ⟨pattern, -, rfl⟩ := List.mem_map.1 hcall
  exact ⟨pattern, rfl⟩

theorem containerOf_blank (patterns : List String) (depth : Depth) (name : String) :
    (blank patterns depth).analyser.containerOf name = none := by
  rw [Analyser.containerOf, (facts_blank patterns depth).1]
  rfl

end JarGraph.Walk
