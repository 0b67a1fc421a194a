import JarGraph.Extraction
import Mathlib.Data.List.Basic
/-!
# What a class reports

The report of a class, said without the walk that makes it: the class
and its marker, and then every distinct name that the class references,
its own name apart, in order of first occurrence (`report_eq`). The
names stand in `mentioned` in the order of the class file and as often
as the file has them: a class is a row of texts (`Class.mentions`), and
each text is read as what it is, a class constant, a descriptor or a
signature. That the elements of a walk bring just these names, and none
of them is passed over, is `flatMap_names_elements`.

The walk keeps one list of the names seen so far, whatever scanner found
them. `foldl_reference` is the invariant that carries it: a run over
some names reports those that are new, each once.
-/

namespace JarGraph

/-! ## First occurrences -/

section FirstOccurrence

variable {α : Type} [BEq α] [LawfulBEq α]

/-- A filter keeps the order of first occurrence of what it keeps. -/
theorem idxOf_lt_of_idxOf_filter_lt (keep : α → Bool) {a b : α} (ha : keep a) (hb : keep b)
    {xs : List α} (h : (xs.filter keep).idxOf a < (xs.filter keep).idxOf b) :
    xs.idxOf a < xs.idxOf b := by
  induction xs with
  | nil => simp at h
  | cons x xs ih =>
    by_cases hx : keep x
    · rw [List.filter_cons_of_pos hx] at h
      by_cases hxb : x = b
      · subst hxb
        simp at h
      · by_cases hxa : x = a
        · subst hxa
          simp [List.idxOf_cons_ne _ hxb]
        · rw [List.idxOf_cons_ne _ hxa, List.idxOf_cons_ne _ hxb] at h ⊢
          exact Nat.succ_lt_succ (ih (Nat.lt_of_succ_lt_succ h))
    · rw [List.filter_cons_of_neg hx] at h
      have hxa : x ≠ a := fun e => hx (e ▸ ha)
      have hxb : x ≠ b := fun e => hx (e ▸ hb)
      rw [List.idxOf_cons_ne _ hxa, List.idxOf_cons_ne _ hxb]
      exact Nat.succ_lt_succ (ih h)

/-- Erasing repetitions leaves the elements in order of first occurrence. -/
theorem pairwise_idxOf_eraseDups (xs : List α) :
    xs.eraseDups.Pairwise fun a b => xs.idxOf a < xs.idxOf b := by
  induction h : xs.length using Nat.strongRecOn generalizing xs with
  | _ n ih =>
    cases xs with
    | nil => simp
    | cons x xs =>
      subst h
      have hlen : (xs.filter fun b => !b == x).length < (x :: xs).length := by
        have := List.length_filter_le (fun b => !b == x) xs
        simp only [List.length_cons]
        omega
      rw [List.eraseDups_cons, List.pairwise_cons]
      have other : ∀ b ∈ (xs.filter fun b => !b == x).eraseDups, (!b == x) = true := fun b hb =>
        (List.mem_filter.1 (List.mem_eraseDups.1 hb)).2
      have ne : ∀ b ∈ (xs.filter fun b => !b == x).eraseDups, x ≠ b := fun b hb e => by
        have := other b hb
        simp [e] at this
      refine ⟨fun b hb => ?_, (ih _ hlen _ rfl).imp_of_mem fun {a b} ha hb hab => ?_⟩
      · rw [List.idxOf_cons_self, List.idxOf_cons_ne _ (ne b hb)]
        omega
      · rw [List.idxOf_cons_ne _ (ne a ha), List.idxOf_cons_ne _ (ne b hb)]
        exact Nat.succ_lt_succ
          (idxOf_lt_of_idxOf_filter_lt (fun b => !b == x) (other a ha) (other b hb) hab)

/-- And no element twice. -/
theorem nodup_eraseDups (xs : List α) : xs.eraseDups.Nodup :=
  (pairwise_idxOf_eraseDups xs).imp fun hab e => by subst e; omega

end FirstOccurrence

namespace ClassFile

/-! ## The texts that name classes -/

/-- A text of a class file that names classes. -/
inductive Mention where
  /-- The text of a class constant. -/
  | constant (raw : String)
  | descriptor (text : String)
  | signature (text : String)
  deriving DecidableEq, Repr

namespace Mention

/-- A name of the pool. -/
def ofReference : Pool.Reference → Mention
  | .class raw => constant raw
  | .descriptor text => descriptor text

theorem ofReference_eq_constant {reference : Pool.Reference} {raw : String} :
    ofReference reference = constant raw ↔ reference = .class raw := by
  cases reference <;> simp [ofReference]

theorem ofReference_eq_descriptor {reference : Pool.Reference} {text : String} :
    ofReference reference = descriptor text ↔ reference = .descriptor text := by
  cases reference <;> simp [ofReference]

theorem ofReference_ne_signature {reference : Pool.Reference} {text : String} :
    ofReference reference ≠ signature text := by
  cases reference <;> simp [ofReference]

/-- The classes that a text names, in order. A signature that cannot be read is scanned as if it
were a descriptor. -/
def names : Mention → List String
  | constant raw => (Descriptor.internalName raw).toList
  | descriptor text => Descriptor.classNames text
  | signature text => (Signature.classNames text).toOption.getD (Descriptor.classNames text)

end Mention

/-- The texts of a field or a method. -/
def Member.mentions (m : Member) : List Mention :=
  .descriptor m.descriptor :: m.signature.toList.map .signature ++ m.exceptions.map .constant
    ++ m.marks.map .descriptor

/-- The texts of a class, in the order of the class file and as often as they stand there; those of
the constant pool come last. -/
def Class.mentions (c : Class) : List Mention :=
  c.header.superclass.toList.map .constant
    ++ c.header.interfaces.map .constant
    ++ c.signature.toList.map .signature
    ++ c.marks.map .descriptor
    ++ (c.fields ++ c.methods).flatMap Member.mentions
    ++ c.innerClasses.map .constant
    ++ c.references.map .ofReference

end ClassFile

namespace Extraction

open ClassFile (Element Mention)

/-! ## The names of a class -/

/-- The class names that a class references, in the order of the class file and as often as they
stand there. -/
def mentioned (c : ClassFile.Class) : List String :=
  c.mentions.flatMap Mention.names

/-- The distinct names that a class references, its own name apart, in order of first
occurrence. -/
def firstMentions (c : ClassFile.Class) : List String :=
  ((mentioned c).filter (· ≠ c.name)).eraseDups

/-- The names of a signature are those that its text names. -/
theorem signatureNames_eq : signatureNames = fun text => (Mention.signature text).names := by
  funext text
  rw [signatureNames, Mention.names]
  cases Signature.classNames text <;> rfl

/-- The names of a field or a method are those that its texts name. -/
theorem memberNames_eq : memberNames = fun m => m.mentions.flatMap Mention.names := by
  funext m
  simp only [memberNames, ClassFile.Member.mentions, List.flatMap_append, List.flatMap_cons,
    List.flatMap_map, List.filterMap_eq_flatMap_toList, signatureNames_eq, List.cons_append,
    Mention.names, List.append_assoc]

/-- The names of the elements of a class are the names that it references. -/
theorem flatMap_names_elements (c : ClassFile.Class) :
    c.elements.flatMap names = mentioned c := by
  simp only [ClassFile.Class.elements, mentioned, ClassFile.Class.mentions, List.flatMap_cons,
    List.flatMap_append, List.flatMap_map, List.flatMap_nil, List.flatMap_assoc, names,
    List.nil_append, List.append_nil, signatureNames_eq, memberNames_eq, Mention.names,
    List.append_assoc, List.append_cancel_left_eq]
  refine congrArg (List.flatMap · c.references) (funext fun reference => ?_)
  cases reference <;> rfl

theorem mem_firstMentions {c : ClassFile.Class} {name : String} :
    name ∈ firstMentions c ↔ name ∈ mentioned c ∧ name ≠ c.name := by
  simp [firstMentions, List.mem_eraseDups]

/-- The names reported stand in the order in which the class file first has them. -/
theorem pairwise_idxOf_firstMentions (c : ClassFile.Class) :
    (firstMentions c).Pairwise fun a b => (mentioned c).idxOf a < (mentioned c).idxOf b :=
  (pairwise_idxOf_eraseDups _).imp_of_mem fun ha hb hab =>
    idxOf_lt_of_idxOf_filter_lt _ (by simpa using (mem_firstMentions.1 ha).2)
      (by simpa using (mem_firstMentions.1 hb).2) hab

/-! ## The walk -/

/-- What one element makes of the report. -/
def Progress.visit (container : Path) (p : Progress) : Element → Progress
  | .thisClass name =>
    { p with
      current := name
      reported := .observed name :: .class container name :: p.reported }
  | element => (names element).foldl Progress.reference p

/-- A visit of elements in a row is a fold of `Progress.visit`. -/
theorem run_forM_visitElement (container : Path) (elements : List Element) (p : Progress) :
    (elements.forM (visitElement container)).run p =
      (⟨⟩, elements.foldl (Progress.visit container) p) := by
  induction elements generalizing p with
  | nil => rfl
  | cons element more ih =>
    have step : (visitElement container element).run p = (⟨⟩, p.visit container element) := by
      cases element <;> rfl
    calc ((element :: more).forM (visitElement container)).run p
        = (more.forM (visitElement container)).run
            ((visitElement container element).run p).2 := rfl
      _ = _ := by rw [step, ih]; rfl

/-- Past the class itself, the elements only count for the names that they reference. -/
theorem foldl_visit {container : Path} {elements : List Element}
    (h : ∀ e ∈ elements, ∀ name, e ≠ .thisClass name) (p : Progress) :
    elements.foldl (Progress.visit container) p =
      (elements.flatMap names).foldl Progress.reference p := by
  induction elements generalizing p with
  | nil => rfl
  | cons element more ih =>
    have step : p.visit container element = (names element).foldl Progress.reference p := by
      cases element with
      | thisClass name => exact absurd rfl (h _ (by simp) name)
      | _ => rfl
    rw [List.foldl_cons, List.flatMap_cons, List.foldl_append, step]
    exact ih (fun e he => h e (by simp [he])) _

/-- **A run over names reports the new ones, each once, in order of first occurrence.** New is
what is neither the class itself nor seen before the run. -/
theorem foldl_reference (walk : List String) (p : Progress) :
    walk.foldl Progress.reference p =
      let new := (walk.filter fun n => n ≠ p.current ∧ n ∉ p.seen).eraseDups
      { p with
        seen := new.reverse ++ p.seen
        reported := (new.map (.reference p.current)).reverse ++ p.reported } := by
  induction walk generalizing p with
  | nil => rfl
  | cons name walk ih =>
    by_cases known : name = p.current ∨ name ∈ p.seen
    · have hdrop : ¬ (name ≠ p.current ∧ name ∉ p.seen) := by tauto
      rw [List.foldl_cons, Progress.reference, if_pos known, ih,
        List.filter_cons_of_neg (by simpa using hdrop)]
    · have hkeep : name ≠ p.current ∧ name ∉ p.seen := by tauto
      rw [List.foldl_cons, Progress.reference, if_neg known, ih,
        List.filter_cons_of_pos (by simpa using hkeep), List.eraseDups_cons, List.filter_filter]
      -- The name counts as seen from here on, just as `eraseDups` drops it from the rest.
      have same : (walk.filter fun n => n ≠ p.current ∧ n ∉ name :: p.seen) =
          walk.filter fun n => (!n == name) && decide (n ≠ p.current ∧ n ∉ p.seen) :=
        List.filter_congr fun n _ => by by_cases h : n = name <;> simp [h]
      dsimp only
      rw [same]
      simp

/-- Past the class itself no element names another one as the class. -/
theorem ne_thisClass_of_mem_tail {c : ClassFile.Class} {element : Element}
    (h : element ∈ c.elements.tail) (name : String) : element ≠ .thisClass name := by
  rintro rfl
  simp only [ClassFile.Class.elements, List.cons_append, List.tail_cons, List.mem_append,
    List.mem_map, List.mem_singleton, reduceCtorEq, and_false, exists_false, false_or,
    or_false] at h
  obtain ⟨reference, -, h⟩ := h
  cases reference <;> cases h

/-- **The report of a class.** The class, its marker, and one reference for each distinct name
other than its own. -/
theorem report_eq (container : Path) (c : ClassFile.Class) :
    report container c =
      .class container c.name :: .observed c.name ::
        (firstMentions c).map (.reference c.name) := by
  have start : c.elements = .thisClass c.name :: c.elements.tail := rfl
  have rest : c.elements.tail.flatMap names = mentioned c := by
    rw [← flatMap_names_elements, start]
    rfl
  have walked : (c.visit (visitElement container)).run ⟨"", [], []⟩ =
      (⟨⟩, (mentioned c).foldl Progress.reference
        ⟨c.name, [], [.observed c.name, .class container c.name]⟩) := by
    rw [ClassFile.Class.visit_eq_forM, run_forM_visitElement, start, List.foldl_cons,
      foldl_visit fun e he => ne_thisClass_of_mem_tail he, rest]
    rfl
  rw [report, walked, foldl_reference]
  simp [firstMentions]

/-! ## Extraction -/

/-- What an extraction reports: the class where it was found, and with its dependencies a marker and
its references. -/
theorem exists_sightings {data : Bytes} {container : Path} {depth : Depth} {x : Extraction}
    (h : extract data container depth = .ok x) :
    ∃ names : List String, x.sightings = .class container x.name ::
      match depth with
      | .inventory => []
      | .dependencies => .observed x.name :: names.map (.reference x.name) := by
  cases depth with
  | inventory =>
    have : extract data container .inventory = (ClassFile.Header.parse data).bind fun header =>
        .ok ⟨header.name, [.class container header.name]⟩ := rfl
    rw [this] at h
    cases hheader : ClassFile.Header.parse data with
    | error cause => simp [hheader, Except.bind] at h
    | ok header =>
      rw [hheader] at h
      obtain rfl := Except.ok.inj h
      exact ⟨[], rfl⟩
  | dependencies =>
    have : extract data container .dependencies = (ClassFile.Class.parse data).bind fun c =>
        .ok ⟨c.name, report container c⟩ := rfl
    rw [this] at h
    cases hclass : ClassFile.Class.parse data with
    | error cause => simp [hclass, Except.bind] at h
    | ok c =>
      rw [hclass] at h
      obtain rfl := Except.ok.inj h
      exact ⟨firstMentions c, report_eq container c⟩

/-- An extraction reports its own class, in the container where it was found, and no other. -/
theorem class_mem_sightings {data : Bytes} {container file : Path} {depth : Depth}
    {x : Extraction} {name : String} (h : extract data container depth = .ok x) :
    .class file name ∈ x.sightings ↔ file = container ∧ name = x.name := by
  obtain ⟨names, hsightings⟩ := exists_sightings h
  rw [hsightings]
  cases depth <;> simp

/-- References are only reported with dependencies, and from the class itself. -/
theorem of_reference_mem_sightings {data : Bytes} {container : Path} {depth : Depth}
    {x : Extraction} {source target : String} (h : extract data container depth = .ok x)
    (hmem : .reference source target ∈ x.sightings) :
    depth = .dependencies ∧ source = x.name := by
  obtain ⟨names, hsightings⟩ := exists_sightings h
  rw [hsightings] at hmem
  cases depth with
  | inventory => simp at hmem
  | dependencies =>
    simp only [List.mem_cons, List.mem_map, reduceCtorEq, false_or] at hmem
    obtain ⟨name, -, hname⟩ := hmem
    injection hname with hsource
    exact ⟨rfl, hsource.symm⟩

/-- The bytes of a class `A` that extends `B`, has a field of its own type, and a method that takes
`B` and `C`. -/
def selfReferring : Bytes :=
  [0xCA, 0xFE, 0xBA, 0xBE, 0, 0, 0, 52, 0, 9,
    1, 0, 1, 65, 7, 0, 1, 1, 0, 1, 66, 7, 0, 3, 1, 0, 1, 102, 1, 0, 3, 76, 65, 59,
    1, 0, 1, 109, 1, 0, 9, 40, 76, 66, 59, 76, 67, 59, 41, 86,
    0, 33, 0, 2, 0, 4, 0, 0, 0, 1, 0, 0, 0, 5, 0, 6, 0, 0, 0, 1, 0, 0, 0, 7, 0, 8, 0, 0, 0, 0]

end Extraction

end JarGraph
