import JarGraph.ClassFile.Description.Writing
import JarGraph.Extraction.Receiver
import JarGraph.Proofs.Extraction.Inventory
/-!
# What a receiver gets

A receiver gets what the report of a class lists, in its order, and it
gets nothing of a class that is refused (`extractInto_eq`). For a class is
decoded before its visit begins, and no step of a visit fails: it takes
one that has made some progress, and has sent what was reported by then,
to one that has made more (`run_sendElement`). So what is said of a report
is so for every receiver, and what is to be said of it is which names it
lists, and where (`extract_dependencies`).
-/

namespace JarGraph

open ClassFile (Element)

variable {σ : Type} {receive : σ → Sighting → σ} {r : σ} {container : Path}

namespace Extraction

/-! ## The visit -/

/-- Where a visit stands that has made a progress: what was reported has been received. -/
def Progress.sent (receive : σ → Sighting → σ) (r : σ) (p : Progress) : Visit σ :=
  ⟨p.current, p.seen, p.reported.reverse.foldl receive r⟩

theorem foldl_reported (sighting : Sighting) (reported : List Sighting) :
    (sighting :: reported).reverse.foldl receive r =
      receive (reported.reverse.foldl receive r) sighting := by
  rw [List.reverse_cons, List.foldl_append, List.foldl_cons, List.foldl_nil]

/-- Steps in a row succeed if each of them does. -/
theorem run_forM_of_step {α : Type} {act : α → VisitM σ PUnit} {next : Progress → α → Progress}
    (hstep : ∀ a p, (act a).run.run (p.sent receive r) = (.ok ⟨⟩, (next p a).sent receive r))
    (items : List α) (p : Progress) :
    (items.forM act).run.run (p.sent receive r) =
      (.ok ⟨⟩, (items.foldl next p).sent receive r) := by
  induction items generalizing p with
  | nil => rfl
  | cons a items ih =>
    calc ((a :: items).forM act).run.run (p.sent receive r)
        = (act a >>= fun _ => items.forM act).run.run (p.sent receive r) := rfl
      _ = (items.forM act).run.run ((next p a).sent receive r) := by
        rw [ExceptT.run_bind, StateT.run_bind, hstep]
        rfl
      _ = _ := ih _

theorem run_sendReference (name : String) (p : Progress) :
    (sendReference receive name).run.run (p.sent receive r) =
      (.ok ⟨⟩, (p.reference name).sent receive r) := by
  have step : (sendReference receive name).run.run (p.sent receive r) =
      (if name = p.current ∨ name ∈ p.seen then pure ⟨⟩ else do
        set { p.sent receive r with seen := name :: p.seen }
        send receive (.reference p.current name) : VisitM σ PUnit).run.run (p.sent receive r) := rfl
  rw [step, Progress.reference]
  split
  · rfl
  · rw [Progress.sent, Progress.sent, foldl_reported]
    rfl

/-- **No step of a visit fails**, and each sends what it reports. -/
theorem run_sendElement (element : Element) (p : Progress) :
    (sendElement receive container element).run.run (p.sent receive r) =
      (.ok ⟨⟩, (p.visit container element).sent receive r) := by
  cases element with
  | thisClass name =>
    rw [Progress.visit, Progress.sent, Progress.sent, foldl_reported, foldl_reported]
    rfl
  | _ => exact run_forM_of_step run_sendReference _ p

/-- Throughout the elements of a class it is the class that is walked. -/
theorem current_foldl_elements (c : ClassFile.Class) (container : Path) (p : Progress) :
    (c.elements.foldl (Progress.visit container) p).current = c.name := by
  have start : c.elements = .thisClass c.name :: c.elements.tail := rfl
  rw [start, List.foldl_cons, foldl_visit fun e he => ne_thisClass_of_mem_tail he, foldl_reference]
  rfl

/-- **A class sends its report.** -/
theorem run_sendClass (c : ClassFile.Class) :
    (sendClass receive container c).run.run r =
      (.ok c.name, (report container c).foldl receive r) := by
  have hreport : report container c =
      (c.elements.foldl (Progress.visit container) ⟨"", [], []⟩).reported.reverse := by
    rw [report, ClassFile.Class.visit_eq_forM, run_forM_visitElement]
  have hvisit : (c.visit (sendElement receive container)).run.run ⟨"", [], r⟩ =
      (.ok ⟨⟩, (c.elements.foldl (Progress.visit container) ⟨"", [], []⟩).sent receive r) := by
    rw [ClassFile.Class.visit_eq_forM]
    exact run_forM_of_step run_sendElement c.elements ⟨"", [], []⟩
  have step : (sendClass receive container c).run.run r =
      let done := (c.visit (sendElement receive container)).run.run ⟨"", [], r⟩
      (done.1.map fun _ => done.2.current, done.2.receiver) := rfl
  rw [step, hvisit, hreport, ← current_foldl_elements c container ⟨"", [], []⟩]
  rfl

end Extraction

/-! ## The extraction -/

/-- **A receiver gets what the report lists**, and nothing of a class that is refused. -/
theorem extractInto_eq (receive : σ → Sighting → σ) (data : Bytes) (container : Path)
    (depth : Depth) (r : σ) :
    (extractInto receive data container depth).run.run r =
      match extract data container depth with
      | .error cause => (.error cause, r)
      | .ok x => (.ok x.name, x.sightings.foldl receive r) := by
  cases depth with
  | inventory =>
    have step : (extractInto receive data container .inventory).run.run r =
        (liftM (ClassFile.Header.parse data) >>= fun header => do
          modify (receive · (.class container header.name))
          return header.name : ExceptT ClassFile.Error (StateM σ) String).run.run r := rfl
    rw [step, Extraction.extract_inventory_eq]
    cases ClassFile.Header.parse data <;> rfl
  | dependencies =>
    have step : (extractInto receive data container .dependencies).run.run r =
        (liftM (ClassFile.Class.parse data) >>= Extraction.sendClass receive container :
          ExceptT ClassFile.Error (StateM σ) String).run.run r := rfl
    rw [step, Extraction.extract_dependencies_eq]
    cases ClassFile.Class.parse data with
    | error cause => rfl
    | ok c => exact Extraction.run_sendClass c

namespace Extraction

/-! ## The whole of a report -/

/-- **Extraction reports a class completely.** Of every class that can be decoded, wherever it was
found, the report is the class, its marker, and then one reference for each of `names`, and this is
what every receiver gets. These are the names that the texts of the class mention other than its
own, each once, and in the order in which the class file first has them. -/
theorem extract_dependencies {data : Bytes} {c : ClassFile.Class}
    (decoded : ClassFile.Class.parse data = .ok c) (container : Path) :
    ∃ names : List String,
      extract data container .dependencies =
        .ok ⟨c.header.name, .class container c.header.name :: .observed c.header.name ::
          names.map (.reference c.header.name)⟩ ∧
      (∀ (σ : Type) (receive : σ → Sighting → σ) (r : σ),
        (extractInto receive data container .dependencies).run.run r =
          (.ok c.header.name, (names.map (.reference c.header.name)).foldl receive
            (receive (receive r (.class container c.header.name)) (.observed c.header.name)))) ∧
      names.Nodup ∧
      (∀ name, name ∈ names ↔ name ∈ mentioned c ∧ name ≠ c.header.name) ∧
      names.Pairwise fun a b => (mentioned c).idxOf a < (mentioned c).idxOf b := by
  have hextract : extract data container .dependencies =
      .ok ⟨c.name, .class container c.name :: .observed c.name ::
        (firstMentions c).map (.reference c.name)⟩ := by
    rw [extract_dependencies_eq, decoded, ← report_eq]
    rfl
  refine ⟨firstMentions c, hextract, fun σ receive r => ?_, nodup_eraseDups _,
    fun _ => mem_firstMentions, pairwise_idxOf_firstMentions c⟩
  rw [extractInto_eq, hextract]
  rfl

open ClassFile.Description (plainBytes)

/-- A class that has texts of every sort in all its parts: a signature that can be read, and one of
its field that is cut off, annotations of both, an exception, an inner class, and types of the pool
that nothing else in the class has. -/
def everySort : ClassFile.Description where
  minor := 0
  major := 52
  pool := [.utf8 (plainBytes "A"), .classEntry 1, .utf8 (plainBytes "B"), .classEntry 3,
    .utf8 (plainBytes "I"), .classEntry 5, .utf8 (plainBytes "Signature"),
    .utf8 (plainBytes "LB<LG;>;LI;"), .utf8 (plainBytes "RuntimeVisibleAnnotations"),
    .utf8 (plainBytes "LM;"), .utf8 (plainBytes "f"), .utf8 (plainBytes "[LT;"),
    .utf8 (plainBytes "LX<LT;"), .utf8 (plainBytes "LF;"), .utf8 (plainBytes "m"),
    .utf8 (plainBytes "(LA;)LO;"), .utf8 (plainBytes "Exceptions"), .utf8 (plainBytes "E"),
    .classEntry 18, .utf8 (plainBytes "InnerClasses"), .utf8 (plainBytes "A$N"), .classEntry 21,
    .utf8 (plainBytes "()LC;"), .nameAndType 15 23, .utf8 (plainBytes "(LD;)V"), .methodType 25,
    .utf8 (plainBytes "[LP;"), .classEntry 27]
  access := 0x21
  name := 2
  superclass := 4
  interfaces := [6]
  fields := [⟨0, 11, 12, [⟨7, .signature 13⟩, ⟨9, .marks .visible [.mk 14 []]⟩]⟩]
  methods := [⟨0, 15, 16, [⟨17, .exceptions [19]⟩]⟩]
  attributes := [⟨7, .signature 8⟩, ⟨9, .marks .visible [.mk 10 []]⟩,
    ⟨20, .innerClasses [⟨22, 2, 0, 0⟩]⟩]

/-- What is decoded from its bytes. -/
def everySortClass : ClassFile.Class where
  header := ⟨0, 52, 0x21, "A", some "B", ["I"]⟩
  fields := [⟨0, "f", "[LT;", some "LX<LT;", [], ["LF;"]⟩]
  methods := [⟨0, "m", "(LA;)LO;", none, ["E"], []⟩]
  signature := some "LB<LG;>;LI;"
  marks := ["LM;"]
  innerClasses := ["A$N", "A"]
  references := [.class "A", .class "B", .class "I", .class "E", .class "A$N",
    .descriptor "()LC;", .descriptor "(LD;)V", .class "[LP;"]

/-- Its own name and the repetitions are left out, and nothing else. The signature that is cut off
brings a name with a bracket. -/
theorem extract_dependencies_everySort :
    ClassFile.Class.parse everySort.bytes = .ok everySortClass ∧
    mentioned everySortClass = ["B", "I", "B", "G", "I", "M", "T", "X<LT", "F", "A", "O", "E",
      "A$N", "A", "A", "B", "I", "E", "A$N", "C", "D", "P"] ∧
    ∃ names : List String,
      names = ["B", "I", "G", "M", "T", "X<LT", "F", "O", "E", "A$N", "C", "D", "P"] ∧
      extract everySort.bytes ⟨"a.jar"⟩ .dependencies =
        .ok ⟨"A", .class ⟨"a.jar"⟩ "A" :: .observed "A" :: names.map (.reference "A")⟩ ∧
      (extractInto (fun sent sighting => sent ++ [sighting]) everySort.bytes ⟨"a.jar"⟩
        .dependencies).run.run [] =
          (.ok "A", .class ⟨"a.jar"⟩ "A" :: .observed "A" :: names.map (.reference "A")) := by
  have hparse : ClassFile.Class.parse everySort.bytes = .ok everySortClass := by decide +kernel
  obtain ⟨names, hextract, hinto, -⟩ := extract_dependencies hparse ⟨"a.jar"⟩
  have hreported : (extract everySort.bytes ⟨"a.jar"⟩ .dependencies).toOption.map
      Extraction.sightings = some (.class ⟨"a.jar"⟩ "A" :: .observed "A" ::
        ["B", "I", "G", "M", "T", "X<LT", "F", "O", "E", "A$N", "C", "D", "P"].map
          (.reference "A")) := by
    decide +kernel
  rw [hextract] at hreported
  have hnames := (List.cons.inj (List.cons.inj (Option.some.inj hreported)).2).2
  obtain rfl := List.map_injective_iff.2 (fun _ _ h => (Sighting.reference.inj h).2) hnames
  exact ⟨hparse, by decide +kernel, _, rfl, hextract, hinto _ _ []⟩

end Extraction

end JarGraph
