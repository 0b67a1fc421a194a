import JarGraph.Proofs.Walk.Refusal
import JarGraph.Walk.Contents
import Mathlib.Data.List.Basic
import Mathlib.Data.List.TakeWhile
/-!
# What a walk feeds to an analysis

A walk that comes to its end has fed the classes of its source to the
analysis, each with the container that it lies in, in order, and nothing
else; of a container that failed these are the classes before the break,
and where none failed they are all classes (`feeds_run`). `Feeds` is the
invariant: it says which extractions lie between two states of the
listener, and it is put together along the walk, from one class over the
entries of an archive and the containers of a source to the whole walk.
-/

namespace JarGraph.Walk

open AnalysisState (notice)

variable {s s' s'' : AnalysisState} {found more : List (Path × Extraction)}

/-- The extractions that lie between two states of the listener. Whatever else a walk changes is
bookkeeping. -/
structure Feeds (s : AnalysisState) (found : List (Path × Extraction)) (s' : AnalysisState) :
    Prop where
  analyser : s'.analyser = (found.flatMap (·.2.sightings)).foldl Analyser.receive s.analyser
  containers : s'.containers = (found.map Prod.fst).foldl OrderedSet.insert s.containers
  depth : s'.depth = s.depth

namespace Feeds

theorem refl (s : AnalysisState) : Feeds s [] s :=
  ⟨rfl, rfl, rfl⟩

theorem trans (h : Feeds s found s') (h' : Feeds s' more s'') : Feeds s (found ++ more) s'' := by
  refine ⟨?_, ?_, h'.depth.trans h.depth⟩
  · rw [h'.analyser, h.analyser, List.flatMap_append, List.foldl_append]
  · rw [h'.containers, h.containers, List.map_append, List.foldl_append]

/-- Bookkeeping before an extraction. -/
theorem after (h : Feeds s [] s') (h' : Feeds s' more s'') : Feeds s more s'' :=
  h.trans h'

/-- Bookkeeping after an extraction. -/
theorem before (h : Feeds s found s') (h' : Feeds s' [] s'') : Feeds s found s'' := by
  have := h.trans h'
  rwa [List.append_nil] at this

end Feeds

/-! ## One class -/

/-- Where the listener stands apart from its analyser and its log. -/
structure SameTracking (s s' : AnalysisState) : Prop where
  depth : s'.depth = s.depth
  tracker : s'.tracker = s.tracker
  containers : s'.containers = s.containers

theorem sameTracking_receive (s : AnalysisState) (sighting : Sighting) :
    SameTracking s (s.receive sighting) := by
  cases sighting with
  | «class» container name =>
    simp only [AnalysisState.receive, AnalysisState.checkConflict]
    split
    · exact ⟨rfl, rfl, rfl⟩
    · split <;> exact ⟨rfl, rfl, rfl⟩
  | observed | reference => exact ⟨rfl, rfl, rfl⟩

theorem analyser_receive (s : AnalysisState) (sighting : Sighting) :
    (s.receive sighting).analyser = s.analyser.receive sighting := by
  cases sighting with
  | «class» container name =>
    simp only [AnalysisState.receive, AnalysisState.checkConflict]
    split
    · rfl
    · split <;> rfl
  | observed | reference => rfl

theorem foldl_receive (sightings : List Sighting) (s : AnalysisState) :
    (sightings.foldl AnalysisState.receive s).analyser =
        sightings.foldl Analyser.receive s.analyser ∧
      SameTracking s (sightings.foldl AnalysisState.receive s) := by
  induction sightings generalizing s with
  | nil => exact ⟨rfl, rfl, rfl, rfl⟩
  | cons sighting more ih =>
    obtain ⟨hanalyser, htracking⟩ := ih (s.receive sighting)
    have hstep := sameTracking_receive s sighting
    rw [List.foldl_cons, List.foldl_cons]
    refine ⟨by rw [hanalyser, analyser_receive], htracking.depth.trans hstep.depth,
      htracking.tracker.trans hstep.tracker, htracking.containers.trans hstep.containers⟩

/-- The extractions from the data of some classes of a container. -/
def extractions (file : Path) (depth : Depth) (classes : List Bytes) : List (Path × Extraction) :=
  classes.filterMap fun data => (extract data file depth).toOption.map fun x => (file, x)

theorem extractions_append (file : Path) (depth : Depth) (first rest : List Bytes) :
    extractions file depth (first ++ rest) =
      extractions file depth first ++ extractions file depth rest :=
  List.filterMap_append

theorem mem_extractions {file p : Path} {depth : Depth} {classes : List Bytes} {x : Extraction} :
    (p, x) ∈ extractions file depth classes ↔
      p = file ∧ ∃ data ∈ classes, extract data file depth = .ok x := by
  unfold extractions
  rw [List.mem_filterMap]
  constructor
  · rintro ⟨data, hdata, h⟩
    cases hx : extract data file depth with
    | error cause => simp [hx, Except.toOption] at h
    | ok y =>
      rw [hx] at h
      obtain ⟨rfl, rfl⟩ := Prod.mk.inj (Option.some.inj h)
      exact ⟨rfl, data, hdata, hx⟩
  · rintro ⟨rfl, data, hdata, hx⟩
    exact ⟨data, hdata, by rw [hx]; rfl⟩

theorem extractions_refused {file : Path} {depth : Depth} {data : Bytes}
    (h : (extract data file depth).toOption.isSome = false) :
    extractions file depth [data] = [] := by
  rw [extractions, List.filterMap_cons_none (by simpa using h), List.filterMap_nil]

/-- What came of a class that was taken in for a container, or refused. -/
structure Examined (file : Path) (data : Bytes) (s : AnalysisState) (accepted : Bool)
    (s' : AnalysisState) : Prop where
  feeds : Feeds s (extractions file s.depth [data]) s'
  current : s'.tracker.current = some file
  accepted : accepted = (extract data file s.depth).toOption.isSome

/-- **A class is taken in completely, or refused and left out**, for the container that is open. -/
theorem examined_examine {data : Bytes} {file : Path} {refusal : Option ClassFile.Error}
    (hfile : s.tracker.current = some file)
    (h : AnalysisState.examine data s = (s', refusal)) :
    Examined file data s refusal.isNone s' := by
  have hcontainer : s.container = file := by rw [AnalysisState.container, hfile]; rfl
  rw [AnalysisState.examine_eq, hcontainer] at h
  cases hx : extract data file s.depth with
  | error cause =>
    rw [hx] at h
    obtain ⟨rfl, rfl⟩ := Prod.mk.inj h
    refine ⟨?_, hfile, by rw [hx]; rfl⟩
    rw [extractions_refused (by rw [hx]; rfl)]
    exact .refl s
  | ok x =>
    obtain ⟨hanalyser, htracking⟩ := foldl_receive x.sightings s
    rw [hx] at h
    obtain ⟨rfl, rfl⟩ := Prod.mk.inj h
    refine ⟨?_, ?_, by rw [hx]; rfl⟩
    · rw [extractions, List.filterMap_cons_some (by rw [hx]; rfl)]
      refine ⟨?_, ?_, htracking.depth⟩
      · simpa using hanalyser
      · simp [htracking.containers]
    · simpa [Tracker.record, htracking.tracker] using hfile

/-- Events that bring no class are bookkeeping. -/
theorem feeds_notice (event : Event) (s : AnalysisState) : Feeds s [] (notice event s) := by
  cases event with
  | started | finished =>
    simp only [notice]
    split <;> exact ⟨rfl, rfl, rfl⟩
  | closed =>
    simp only [notice]
    split
    · exact .refl s
    · split <;> exact ⟨rfl, rfl, rfl⟩
  | opened | classData | failed | remark => exact ⟨rfl, rfl, rfl⟩

/-! ## One container -/

/-- The data of an entry, if it is a class that can be read. -/
def classData (entry : Archive.Entry) : List Bytes :=
  if entry.isClass then entry.body.content?.toList else []

theorem classesOf_cons (entry : Archive.Entry) (entries : List Archive.Entry) :
    Archive.classesOf (entry :: entries) = classData entry ++ Archive.classesOf entries := by
  unfold Archive.classesOf classData
  by_cases h : entry.isClass = true
  · rw [List.filter_cons_of_pos h, if_pos h]
    cases hbody : entry.body.content? <;> simp [hbody]
  · rw [List.filter_cons_of_neg h, if_neg h, List.nil_append]

theorem isSound_of_not_isClass {entry : Archive.Entry} {file : Path} {depth : Depth}
    (horder : ∀ cause, entry.body ≠ .refused cause) (hclass : entry.isClass = false) :
    entry.isSound file depth = true := by
  unfold Archive.Entry.isSound
  split
  · rename_i cause hbody
    exact absurd hbody (horder cause)
  · simp [hclass]
  · simp [hclass]

theorem isSound_of_isClass {entry : Archive.Entry} {content : Bytes} {file : Path} {depth : Depth}
    (hbody : entry.body = .data content) (hclass : entry.isClass = true) :
    entry.isSound file depth = (extract content file depth).toOption.isSome := by
  simp [Archive.Entry.isSound, hbody, hclass]

/-- What a walk took in of some entries of a container that is open, and whether it came through. -/
structure Passes (file : Path) (entries : List Archive.Entry) (s : AnalysisState)
    (outcome : Except Error Nat) (s' : AnalysisState) : Prop where
  /-- The classes before the first entry that the walk does not get past. -/
  feeds : Feeds s
    (extractions file s.depth (Archive.classesOf (entries.takeWhile (·.isSound file s.depth)))) s'
  sound : ∀ n, outcome = .ok n → ∀ entry ∈ entries, entry.isSound file s.depth = true

namespace Passes

variable {file : Path} {entry : Archive.Entry} {entries : List Archive.Entry}
  {outcome : Except Error Nat}

theorem nil (s : AnalysisState) : Passes file [] s outcome s :=
  ⟨.refl s, fun _ _ _ h => absurd h List.not_mem_nil⟩

/-- The walk gets past an entry, and goes on from what it took in of it. -/
theorem cons (hsound : entry.isSound file s.depth = true)
    (hentry : Feeds s (extractions file s.depth (classData entry)) s')
    (h : Passes file entries s' outcome s'') : Passes file (entry :: entries) s outcome s'' := by
  obtain ⟨hfeeds, hall⟩ := h
  rw [hentry.depth] at hfeeds hall
  refine ⟨?_, fun n hn => List.forall_mem_cons.2 ⟨hsound, hall n hn⟩⟩
  rw [List.takeWhile_cons, if_pos hsound, classesOf_cons, extractions_append]
  exact hentry.trans hfeeds

/-- The walk breaks off at an entry. -/
theorem stop (hbroken : entry.isSound file s.depth = false) {cause : Error}
    (hentry : Feeds s [] s') : Passes file (entry :: entries) s (.error cause) s' := by
  refine ⟨?_, fun _ h => by cases h⟩
  rw [List.takeWhile_cons, hbroken]
  exact hentry

end Passes

section

variable {plan : Plan AnalysisState} {t t' : State AnalysisState} {fs : FileSystem} {file : Path}

theorem listeners_tell (only : plan.listeners = [analysisListener]) (event : Event)
    (t : State AnalysisState) : (plan.tell event t).listeners = notice event t.listeners := by
  simp only [Plan.tell, only]
  rfl

theorem listeners_remark (only : plan.listeners = [analysisListener]) (message : String)
    (t : State AnalysisState) : (plan.remark message t).listeners = t.listeners := by
  unfold Plan.remark
  split
  · exact listeners_tell only _ t
  · rfl

theorem listeners_of_remarked (only : plan.listeners = [analysisListener])
    (h : t' = t ∨ ∃ message, t' = plan.remark message t) : t'.listeners = t.listeners := by
  rcases h with rfl | ⟨message, rfl⟩
  · rfl
  · exact listeners_remark only message t

theorem feeds_tell (only : plan.listeners = [analysisListener]) (event : Event)
    (t : State AnalysisState) : Feeds t.listeners [] (plan.tell event t).listeners := by
  rw [listeners_tell only]
  exact feeds_notice event _

theorem current_tell_opened (only : plan.listeners = [analysisListener]) (progress : Nat)
    (file : Path) (t : State AnalysisState) :
    (plan.tell (.opened progress file) t).listeners.tracker.current = some file := by
  rw [listeners_tell only]
  rfl

/-- A class is handed over; the walk goes on after it exactly if it was taken in. -/
theorem examined_process (only : plan.listeners = [analysisListener])
    (hfile : t.listeners.tracker.current = some file) {progress : Nat} {data : Bytes}
    {outcome : Except Error Unit} (h : plan.process file progress data t = (t', outcome)) :
    Examined file data t.listeners outcome.toOption.isSome t'.listeners := by
  simp only [Plan.process, only, State.offer, State.offerFrom, analysisListener] at h
  generalize hexamine : AnalysisState.examine data t.listeners = examined at h
  obtain ⟨after, refusal⟩ := examined
  have hexamined := examined_examine hfile hexamine
  cases refusal with
  | some cause =>
    obtain ⟨rfl, rfl⟩ := Prod.mk.inj h
    exact hexamined
  | none =>
    obtain ⟨rfl, rfl⟩ := Prod.mk.inj h
    exact hexamined

/-- All that the walk of the entries of an archive can come to at the first of them: it breaks off
there, passes it over with a remark at most, or hands over its class, which is refused or not. -/
theorem walkEntries_cases {σ : Type} {plan : Plan σ} {u u' : State σ} {entry : Archive.Entry}
    {entries : List Archive.Entry} {total passed classes : Nat} {outcome : Except Error Nat}
    (h : plan.walkEntries file total passed classes (entry :: entries) u = (u', outcome)) :
    (∃ cause, (∀ depth, entry.isSound file depth = false) ∧ cause.file = file ∧ u' = u ∧
        outcome = .error cause) ∨
      (∃ v, entry.isClass = false ∧ (∀ depth, entry.isSound file depth = true) ∧
        (v = u ∨ ∃ message, v = plan.remark message u) ∧
        plan.walkEntries file total (passed + 1) classes entries v = (u', outcome)) ∨
      (∃ content message progress cause, entry.isClass = true ∧ entry.body = .data content ∧
        plan.process file progress content (plan.remark message u) = (u', .error cause) ∧
        outcome = .error cause) ∨
      ∃ content message progress v, entry.isClass = true ∧ entry.body = .data content ∧
        plan.process file progress content (plan.remark message u) = (v, .ok ()) ∧
        plan.walkEntries file total (passed + 1) (classes + 1) entries v = (u', outcome) := by
  simp only [Plan.walkEntries] at h
  split at h
  · rename_i cause hbody
    obtain ⟨rfl, rfl⟩ := Prod.mk.inj h
    exact .inl ⟨_, fun _ => by simp [Archive.Entry.isSound, hbody], rfl, rfl, rfl⟩
  rename_i horder
  split at h
  · rename_i hdirectory
    have hclass : entry.isClass = false := by simp [Archive.Entry.isClass, hdirectory]
    exact .inr (.inl ⟨u, hclass, fun _ => isSound_of_not_isClass horder hclass, .inl rfl, h⟩)
  rename_i hdirectory
  split at h
  · rename_i hkind
    have hclass : entry.isClass = false := by simp [Archive.Entry.isClass, hkind]
    exact .inr (.inl ⟨u, hclass, fun _ => isSound_of_not_isClass horder hclass, .inl rfl, h⟩)
  · rename_i hkind
    have hclass : entry.isClass = false := by simp [Archive.Entry.isClass, hkind]
    exact .inr (.inl ⟨_, hclass, fun _ => isSound_of_not_isClass horder hclass, .inr ⟨_, rfl⟩, h⟩)
  rename_i hkind
  have hclass : entry.isClass = true := by simp [Archive.Entry.isClass, hdirectory, hkind]
  split at h
  · rename_i content hbody
    split at h
    · rename_i v cause hprocess
      obtain ⟨rfl, rfl⟩ := Prod.mk.inj h
      exact .inr (.inr (.inl ⟨content, _, _, cause, hclass, hbody, hprocess, rfl⟩))
    · rename_i v hprocess
      exact .inr (.inr (.inr ⟨content, _, _, v, hclass, hbody, hprocess, h⟩))
  · rename_i cause hbody
    obtain ⟨rfl, rfl⟩ := Prod.mk.inj h
    exact .inl ⟨_, fun _ => by simp [Archive.Entry.isSound, hbody, hclass], rfl, rfl, rfl⟩
  · rename_i hbody
    exact absurd hbody (horder _)

/-- **The entries of an archive** hand over the classes among them up to the first entry that the
walk does not get past. -/
theorem passes_walkEntries (only : plan.listeners = [analysisListener])
    {entries : List Archive.Entry} {total passed classes : Nat} {outcome : Except Error Nat}
    (hfile : t.listeners.tracker.current = some file)
    (h : plan.walkEntries file total passed classes entries t = (t', outcome)) :
    Passes file entries t.listeners outcome t'.listeners := by
  induction entries generalizing passed classes t with
  | nil =>
    obtain ⟨rfl, -⟩ := Prod.mk.inj h
    exact .nil _
  | cons entry entries ih =>
    obtain ⟨cause, hbroken, -, rfl, rfl⟩ | ⟨u, hclass, hsound, hu, h⟩ |
      ⟨content, message, progress, cause, hclass, hbody, hprocess, rfl⟩ |
      ⟨content, message, progress, u, hclass, hbody, hprocess, h⟩ := walkEntries_cases h
    · exact .stop (hbroken _) (.refl _)
    · have hsame := listeners_of_remarked only hu
      refine .cons (hsound _) ?_ (hsame ▸ ih (hsame ▸ hfile) h)
      rw [classData, hclass]
      exact .refl _
    · have hremark := listeners_remark only message t
      obtain ⟨hfeeds, -, haccepted⟩ := examined_process only (hremark ▸ hfile) hprocess
      rw [hremark] at hfeeds haccepted
      rw [extractions_refused haccepted.symm] at hfeeds
      exact .stop ((isSound_of_isClass hbody hclass).trans haccepted.symm) hfeeds
    · have hremark := listeners_remark only message t
      obtain ⟨hfeeds, hcurrent, haccepted⟩ := examined_process only (hremark ▸ hfile) hprocess
      rw [hremark] at hfeeds haccepted
      have hdata : classData entry = [content] := by
        simp [classData, hclass, hbody, Archive.Body.content?]
      exact .cons ((isSound_of_isClass hbody hclass).trans haccepted.symm) (hdata ▸ hfeeds)
        (ih hcurrent h)

/-- A file that can be read can be looked at in place, and the other way round. -/
theorem toOption_mapFile (fs : FileSystem) (file : Path) :
    (fs.mapFile file).toOption = (fs.readFile file).toOption := by
  unfold FileSystem.mapFile FileSystem.readFile
  cases fs.node file with
  | error cause => rfl
  | ok found =>
    obtain ⟨place, node⟩ := found
    cases node <;> rfl

theorem mapFile_of_readFile {data : Bytes} (h : fs.readFile file = .ok data) :
    fs.mapFile file = .ok data := by
  have hsame := toOption_mapFile fs file
  rw [h] at hsame
  cases hmap : fs.mapFile file with
  | error cause =>
    rw [hmap] at hsame
    cases hsame
  | ok other =>
    rw [hmap] at hsame
    rw [Option.some.inj hsame]

/-- All that the walk of an archive can come to: it cannot be read, it is no archive, or its entries
are walked. -/
theorem walkArchive_cases {σ : Type} {plan : Plan σ} {u u' : State σ} {progress : Nat}
    {visited : Plan.Visited} (h : plan.walkArchive fs file progress u = (u', visited)) :
    (∃ cause, fs.mapFile file = .error cause ∧ u' = u ∧
        visited = ⟨false, .error (.unreadable file cause)⟩) ∨
      (∃ data cause, fs.mapFile file = .ok data ∧ Archive.read data = .error cause ∧ u' = u ∧
        visited = ⟨false, .error (.badArchive file cause)⟩) ∨
      ∃ data entries outcome, fs.mapFile file = .ok data ∧ Archive.read data = .ok entries ∧
        plan.walkEntries file entries.length 0 0 entries (plan.tell (.opened progress file) u) =
          (u', outcome) ∧
        visited = ⟨true, outcome⟩ := by
  unfold Plan.walkArchive at h
  cases hdata : fs.mapFile file with
  | error cause =>
    rw [hdata] at h
    obtain ⟨rfl, rfl⟩ := Prod.mk.inj h
    exact .inl ⟨cause, rfl, rfl, rfl⟩
  | ok data =>
    rw [hdata] at h
    cases hentries : Archive.read data with
    | error cause =>
      simp only [hentries] at h
      obtain ⟨rfl, rfl⟩ := Prod.mk.inj h
      exact .inr (.inl ⟨data, cause, rfl, hentries, rfl, rfl⟩)
    | ok entries =>
      simp only [hentries] at h
      obtain ⟨rfl, rfl⟩ := Prod.mk.inj h
      exact .inr (.inr ⟨data, entries, _, rfl, hentries, rfl, rfl⟩)

/-- All that the walk of a class file can come to: it cannot be read, or it is handed over. -/
theorem walkClassFile_cases {σ : Type} {plan : Plan σ} {u u' : State σ} {progress : Nat}
    {visited : Plan.Visited} (h : plan.walkClassFile fs file progress u = (u', visited)) :
    (∃ cause, fs.readFile file = .error cause ∧ u' = u ∧
        visited = ⟨false, .error (.unreadable file cause)⟩) ∨
      ∃ data done, fs.readFile file = .ok data ∧
        plan.process file 100 data (plan.tell (.opened progress file) u) = (u', done) ∧
        visited = ⟨true, done.map fun () => 1⟩ := by
  unfold Plan.walkClassFile at h
  cases hdata : fs.readFile file with
  | error cause =>
    rw [hdata] at h
    obtain ⟨rfl, rfl⟩ := Prod.mk.inj h
    exact .inl ⟨cause, rfl, rfl, rfl⟩
  | ok data =>
    rw [hdata] at h
    obtain ⟨rfl, rfl⟩ := Prod.mk.inj h
    exact .inr ⟨data, _, rfl, rfl, rfl⟩

/-- What a walk took in of a container, and whether it came through. -/
structure TakesIn (fs : FileSystem) (file : Path) (s : AnalysisState) (outcome : Except Error Nat)
    (s' : AnalysisState) : Prop where
  feeds : Feeds s (extractions file s.depth (fs.classesBeforeBreak s.depth file)) s'
  whole : ∀ n, outcome = .ok n → fs.classesBeforeBreak s.depth file = fs.classesIn file

/-- Nothing is taken in of a container that cannot be opened. -/
theorem takesIn_unopened {s : AnalysisState} {cause : Error}
    (h : fs.classesBeforeBreak s.depth file = []) : TakesIn fs file s (.error cause) s :=
  ⟨h ▸ .refl s, fun _ h => by cases h⟩

theorem takesIn_walkArchive (only : plan.listeners = [analysisListener])
    (hkind : Container.ofPath file = .archive) {progress : Nat} {visited : Plan.Visited}
    (h : plan.walkArchive fs file progress t = (t', visited)) :
    TakesIn fs file t.listeners visited.classes t'.listeners := by
  obtain ⟨cause, hdata, rfl, rfl⟩ | ⟨data, cause, hdata, hentries, rfl, rfl⟩ |
    ⟨data, entries, outcome, hdata, hentries, hwalk, rfl⟩ := walkArchive_cases h
  · exact takesIn_unopened (by simp only [FileSystem.classesBeforeBreak, hkind, hdata])
  · exact takesIn_unopened (by simp only [FileSystem.classesBeforeBreak, hkind, hdata, hentries])
  · have hopened := feeds_tell only (.opened progress file) t
    obtain ⟨hfeeds, hsound⟩ :=
      passes_walkEntries only (current_tell_opened only progress file t) hwalk
    rw [hopened.depth] at hfeeds hsound
    refine ⟨?_, fun n hn => ?_⟩
    · simp only [FileSystem.classesBeforeBreak, hkind, hdata, hentries]
      exact hopened.after hfeeds
    · simp only [FileSystem.classesBeforeBreak, FileSystem.classesIn, hkind, hdata, hentries]
      rw [List.takeWhile_eq_self_iff.2 (hsound n hn), Archive.classesOf]

theorem takesIn_walkClassFile (only : plan.listeners = [analysisListener])
    (hkind : Container.ofPath file = .classFile) {progress : Nat} {visited : Plan.Visited}
    (h : plan.walkClassFile fs file progress t = (t', visited)) :
    TakesIn fs file t.listeners visited.classes t'.listeners := by
  obtain ⟨cause, hdata, rfl, rfl⟩ | ⟨data, done, hdata, hprocess, rfl⟩ := walkClassFile_cases h
  · refine takesIn_unopened ?_
    cases hmap : fs.mapFile file with
    | error => simp only [FileSystem.classesBeforeBreak, hkind, hmap]
    | ok data =>
      have hsame := toOption_mapFile fs file
      rw [hmap, hdata] at hsame
      cases hsame
  · have hopened := feeds_tell only (.opened progress file) t
    have hfeeds :=
      (examined_process only (current_tell_opened only progress file t) hprocess).feeds
    rw [hopened.depth] at hfeeds
    have hmap := mapFile_of_readFile hdata
    refine ⟨?_, fun _ _ => ?_⟩
    · simp only [FileSystem.classesBeforeBreak, hkind, hmap]
      exact hopened.after hfeeds
    · simp only [FileSystem.classesBeforeBreak, FileSystem.classesIn, hkind, hmap]

/-- **A container** hands over its classes, up to where it breaks off. -/
theorem takesIn_walkContainer (only : plan.listeners = [analysisListener])
    (hkind : Container.ofPath file ≠ .other) {progress : Nat} {outcome : Except Error Nat}
    (h : plan.walkContainer fs (Container.ofPath file) file progress t = (t', outcome)) :
    TakesIn fs file t.listeners outcome t'.listeners := by
  -- Whether it was opened and is closed again is bookkeeping.
  have close {walked : State AnalysisState × Plan.Visited}
      (hu : TakesIn fs file t.listeners walked.2.classes walked.1.listeners) :
      TakesIn fs file t.listeners walked.2.classes
        (if walked.2.opened then plan.tell .closed walked.1 else walked.1).listeners := by
    cases walked.2.opened with
    | true => exact ⟨hu.feeds.before (feeds_tell only .closed walked.1), hu.whole⟩
    | false => exact hu
  unfold Plan.walkContainer at h
  obtain ⟨rfl, rfl⟩ := Prod.mk.inj h
  cases hfile : Container.ofPath file with
  | other => exact absurd hfile hkind
  | archive => exact close (takesIn_walkArchive only hfile rfl)
  | classFile => exact close (takesIn_walkClassFile only hfile rfl)

/-! ## All containers of a source -/

/-- The containers among some files. -/
theorem containers_fst {σ : Type} (plan : Plan σ) (files : List Path) (s : State σ) :
    (plan.containers files s).1 =
      (files.filter fun file => Container.ofPath file != .other).map
        fun file => (file, Container.ofPath file) := by
  induction files generalizing s with
  | nil => rfl
  | cons file files ih =>
    simp only [Plan.containers]
    split
    · rename_i hkind
      rw [ih]
      simp [hkind]
    · rename_i hkind
      have hkeep : (Container.ofPath file != .other) = true := bne_iff_ne.2 hkind
      simp only [List.filter_cons, hkeep, if_true, List.map_cons, ih]

/-- A file that is no container brings a remark at most. -/
theorem listeners_containers (only : plan.listeners = [analysisListener]) (files : List Path)
    (t : State AnalysisState) : (plan.containers files t).2.listeners = t.listeners := by
  induction files generalizing t with
  | nil => rfl
  | cons file files ih =>
    simp only [Plan.containers]
    split
    · rw [ih, listeners_remark only]
    · exact ih t

/-- A failure that a walk goes on after stands in its summary, and is bookkeeping. -/
theorem fail_ok (only : plan.listeners = [analysisListener]) {cause : Error}
    {before after : Summary} (h : plan.fail cause before t = (t', .ok after)) :
    after.failed = before.failed ++ [cause.file] ∧ Feeds t.listeners [] t'.listeners := by
  unfold Plan.fail at h
  split at h
  · cases (Prod.mk.inj h).2
  · obtain ⟨rfl, hsummary⟩ := Prod.mk.inj h
    obtain rfl := Except.ok.inj hsummary
    exact ⟨rfl, feeds_tell only _ t⟩

/-- What a walk took in of a row of containers. -/
structure TakesInAll (fs : FileSystem) (files : List Path) (s : AnalysisState)
    (before after : Summary) (s' : AnalysisState) : Prop where
  feeds : Feeds s
    (files.flatMap fun file => extractions file s.depth (fs.classesBeforeBreak s.depth file)) s'
  failed : before.failed <+: after.failed
  /-- Without a failure in the summary to the end, no container can have failed. -/
  whole : after.failed = [] →
    ∀ file ∈ files, fs.classesBeforeBreak s.depth file = fs.classesIn file

/-- **A row of containers** hands over its classes, of each up to where it breaks off. -/
theorem takesInAll_walkContainers (only : plan.listeners = [analysisListener]) {files : List Path}
    (hfiles : ∀ file ∈ files, Container.ofPath file ≠ .other) {total passed : Nat}
    {before after : Summary}
    (h : plan.walkContainers fs total passed before
      (files.map fun file => (file, Container.ofPath file)) t = (t', .ok after)) :
    TakesInAll fs files t.listeners before after t'.listeners := by
  induction files generalizing passed before t with
  | nil =>
    obtain ⟨rfl, hsummary⟩ := Prod.mk.inj h
    obtain rfl := Except.ok.inj hsummary
    exact ⟨.refl _, List.prefix_rfl, fun _ _ h => absurd h List.not_mem_nil⟩
  | cons file files ih =>
    have hrest := fun f hf => hfiles f (List.mem_cons_of_mem _ hf)
    simp only [List.map_cons, Plan.walkContainers] at h
    split at h
    · rename_i u classes hwalk
      obtain ⟨hfeeds, hwhole⟩ := takesIn_walkContainer only (hfiles file List.mem_cons_self) hwalk
      obtain ⟨hmore, hfailed, hall⟩ := ih hrest h
      rw [hfeeds.depth] at hmore hall
      exact ⟨hfeeds.trans hmore, hfailed, fun hnone =>
        List.forall_mem_cons.2 ⟨hwhole _ rfl, hall hnone⟩⟩
    · rename_i u cause hwalk
      obtain ⟨hfeeds, -⟩ := takesIn_walkContainer only (hfiles file List.mem_cons_self) hwalk
      split at h
      · cases (Prod.mk.inj h).2
      · rename_i v between hfail
        obtain ⟨hbetween, hv⟩ := fail_ok only hfail
        obtain ⟨hmore, hfailed, hall⟩ := ih hrest h
        rw [(hfeeds.before hv).depth] at hmore
        refine ⟨(hfeeds.before hv).trans hmore, ?_, fun hnone => ?_⟩
        · rw [hbetween] at hfailed
          exact (List.prefix_append _ _).trans hfailed
        · rw [hbetween, hnone] at hfailed
          simp at hfailed

/-- The failures of a scan are bookkeeping. -/
theorem feeds_failAll (only : plan.listeners = [analysisListener]) {failures : List Error}
    {before after : Summary} (h : plan.failAll failures before t = (t', .ok after)) :
    Feeds t.listeners [] t'.listeners := by
  induction failures generalizing before t with
  | nil =>
    obtain ⟨rfl, -⟩ := Prod.mk.inj h
    exact .refl _
  | cons cause failures ih =>
    simp only [Plan.failAll] at h
    split at h
    · cases (Prod.mk.inj h).2
    · rename_i hfail
      exact (fail_ok only hfail).2.trans (ih h)

/-- **What a walk that comes to its end feeds to an analysis** is what it takes in from its source,
and nothing else. Where it reports no failed container these are all classes of the source. -/
theorem feeds_run (only : plan.listeners = [analysisListener]) {source : Source}
    {start : AnalysisState} {summary : Summary}
    (h : plan.run fs source start = (t', .ok summary)) :
    Feeds start (fs.takenFrom start.depth source) t'.listeners ∧
      (summary.failed = [] →
        fs.takenFrom start.depth source = fs.extractionsOf start.depth source) := by
  have hstarted := feeds_tell only (.started source.base) ⟨start, []⟩
  have hfiles : (Plan.filesOf fs source).1 = fs.filesOf source := by cases source <;> rfl
  simp only [Plan.run, hfiles] at h
  split at h
  · cases (Prod.mk.inj h).2
  rename_i u before hscan
  split at h
  · cases (Prod.mk.inj h).2
  rename_i v after hwalk
  obtain ⟨hfinished, hsummary⟩ := Prod.mk.inj h
  obtain rfl := Except.ok.inj hsummary
  have hbefore := hstarted.after (feeds_failAll only hscan)
  rw [containers_fst] at hwalk
  obtain ⟨hfeeds, -, hwhole⟩ := takesInAll_walkContainers only (fun file hf => by
    simpa using (List.mem_filter.1 hf).2) hwalk
  rw [listeners_containers only, hbefore.depth] at hfeeds hwhole
  rw [← hfinished]
  refine ⟨(hbefore.after hfeeds).before (feeds_tell only .finished v), fun hnone => ?_⟩
  refine List.flatMap_congr fun file hf => ?_
  rw [hwhole hnone file hf]

end

end JarGraph.Walk
