import JarGraph.Proofs.Descriptor.Names
import JarGraph.Proofs.Extraction.Inventory
import JarGraph.Proofs.Signature.Names
/-!
# What the names of a report are made of

A class mentions classes in its class constants, its descriptors and its
signatures, and nowhere else (`mem_mentioned`). What is found in them is
never empty and holds no semicolon. Nor does it hold an angle bracket,
which opens and closes type arguments, where constants and descriptors
hold none; but a signature that cannot be read is scanned as a descriptor,
for which a bracket is a part of a name like any other character
(`names_of_report`).
-/

namespace JarGraph

namespace ClassFile.Class

/-- A text is a descriptor of the pool, of an annotation, or of a field or a method. -/
def HoldsDescriptor (c : Class) (text : String) : Prop :=
  .descriptor text ∈ c.references ∨ text ∈ c.marks ∨
    ∃ m ∈ c.fields ++ c.methods, text = m.descriptor ∨ text ∈ m.marks

/-- A text is the signature of the class, or of a field or a method. -/
def HoldsSignature (c : Class) (text : String) : Prop :=
  c.signature = some text ∨ ∃ m ∈ c.fields ++ c.methods, m.signature = some text

end ClassFile.Class

/-- The names of classes in a sighting. -/
def Sighting.names : Sighting → List String
  | .class _ name => [name]
  | .observed name => [name]
  | .reference source target => [source, target]

/-- A text holds a character that opens or closes type arguments. -/
def HasBracket (text : String) : Prop :=
  '<' ∈ text.toList ∨ '>' ∈ text.toList

instance (text : String) : Decidable (HasBracket text) :=
  inferInstanceAs (Decidable (_ ∨ _))

namespace Extraction

open ClassFile (Mention)
open Descriptor (internalName ClassConstant MadeOf)

variable {data : Bytes} {c : ClassFile.Class} {container : Path} {name text : String}

/-! ## What a class mentions -/

/-- The texts of a class by their sorts. -/
theorem mem_mentions {mention : Mention} :
    mention ∈ c.mentions ↔ match mention with
      | .constant raw => raw ∈ c.header.superclass ∨ raw ∈ c.header.interfaces ∨
          (∃ m ∈ c.fields ++ c.methods, raw ∈ m.exceptions) ∨ raw ∈ c.innerClasses ∨
          .class raw ∈ c.references
      | .descriptor text => c.HoldsDescriptor text
      | .signature text => c.HoldsSignature text := by
  cases mention <;>
    simp only [ClassFile.Class.mentions, ClassFile.Member.mentions, List.mem_append, List.mem_map,
      List.mem_flatMap, List.mem_cons, reduceCtorEq, false_or, or_false, and_false, exists_false,
      Mention.constant.injEq, Mention.descriptor.injEq, Mention.signature.injEq, exists_eq_right,
      Mention.ofReference_eq_constant, Mention.ofReference_eq_descriptor, Option.mem_toList,
      Mention.ofReference_ne_signature, ClassFile.Class.HoldsDescriptor, Option.mem_def,
      ClassFile.Class.HoldsSignature, or_assoc]
  -- The descriptors of the pool stand last in the class file.
  exact or_rotate.symm

/-- Every class constant is one of the pool, where it is read again. -/
theorem constant_mem_mentions (decoded : ClassFile.Class.parse data = .ok c) {raw : String} :
    .constant raw ∈ c.mentions ↔ .class raw ∈ c.references := by
  have hpooled := ClassFile.Class.mem_references decoded
  simp only [ClassFile.Class.constants, ClassFile.Header.constants, List.cons_append,
    List.forall_mem_cons, List.forall_mem_append, List.mem_flatMap] at hpooled
  obtain ⟨-, ⟨⟨hsuper, hinterfaces⟩, hexceptions⟩, hinner⟩ := hpooled
  rw [mem_mentions]
  constructor
  · rintro (hraw | hraw | hraw | hraw | hraw)
    · exact hsuper raw (Option.mem_toList.2 hraw)
    · exact hinterfaces raw hraw
    · exact hexceptions raw hraw
    · exact hinner raw hraw
    · exact hraw
  · exact fun hraw => .inr (.inr (.inr (.inr hraw)))

/-- **What a class mentions** stands in a class constant of its pool, in a descriptor or in a
signature. -/
theorem mem_mentioned (decoded : ClassFile.Class.parse data = .ok c) :
    name ∈ mentioned c ↔
      (∃ raw, .class raw ∈ c.references ∧ internalName raw = some name) ∨
      (∃ text, c.HoldsDescriptor text ∧ name ∈ Descriptor.classNames text) ∨
      ∃ text, c.HoldsSignature text ∧ name ∈ (Mention.signature text).names := by
  rw [mentioned, List.mem_flatMap]
  constructor
  · rintro ⟨mention, hmention, hname⟩
    cases mention with
    | constant raw =>
      exact .inl ⟨raw, (constant_mem_mentions decoded).1 hmention, Option.mem_toList.1 hname⟩
    | descriptor text => exact .inr (.inl ⟨text, mem_mentions.1 hmention, hname⟩)
    | signature text => exact .inr (.inr ⟨text, mem_mentions.1 hmention, hname⟩)
  · rintro (⟨raw, hraw, hname⟩ | ⟨text, htext, hname⟩ | ⟨text, htext, hname⟩)
    · exact ⟨_, (constant_mem_mentions decoded).2 hraw, Option.mem_toList.2 hname⟩
    · exact ⟨.descriptor text, mem_mentions.2 htext, hname⟩
    · exact ⟨.signature text, mem_mentions.2 htext, hname⟩

/-! ## What is reported -/

/-- A class that can be decoded is extracted as its report. -/
theorem extract_of_parse (decoded : ClassFile.Class.parse data = .ok c) (container : Path) :
    extract data container .dependencies = .ok ⟨c.name, report container c⟩ := by
  rw [extract_dependencies_eq, decoded]
  rfl

theorem reference_mem_report {source target : String} :
    .reference source target ∈ report container c ↔
      source = c.name ∧ target ∈ mentioned c ∧ target ≠ c.name := by
  rw [report_eq, ← mem_firstMentions]
  simp only [List.mem_cons, List.mem_map, reduceCtorEq, false_or, Sighting.reference.injEq]
  constructor
  · rintro ⟨name, hname, rfl, rfl⟩
    exact ⟨rfl, hname⟩
  · rintro ⟨rfl, htarget⟩
    exact ⟨target, htarget, rfl, rfl⟩

/-- The report of a class names the class itself and what the class mentions. -/
theorem mem_names_report :
    (∃ sighting ∈ report container c, name ∈ sighting.names) ↔
      name = c.name ∨ name ∈ mentioned c := by
  constructor
  · rintro ⟨sighting, hsighting, hname⟩
    cases sighting with
    | reference source target =>
      obtain ⟨rfl, htarget, -⟩ := reference_mem_report.1 hsighting
      rcases List.mem_pair.1 hname with rfl | rfl
      · exact .inl rfl
      · exact .inr htarget
    | «class» file own =>
      have hown : file = container ∧ own = c.name := by simpa [report_eq] using hsighting
      exact .inl ((List.mem_singleton.1 hname).trans hown.2)
    | observed own =>
      have hown : own = c.name := by simpa [report_eq] using hsighting
      exact .inl ((List.mem_singleton.1 hname).trans hown)
  · intro hname
    by_cases hown : name = c.name
    · refine ⟨.class container c.name, ?_, List.mem_singleton.2 hown⟩
      rw [report_eq]
      exact List.mem_cons_self
    · refine ⟨.reference c.name name, ?_, List.mem_cons_of_mem _ List.mem_cons_self⟩
      exact reference_mem_report.2 ⟨rfl, hname.resolve_left hown, hown⟩

/-- Names that are found in a signature are not empty and hold no semicolon, and no bracket either
if the signature can be read. -/
theorem of_mem_names_signature (h : name ∈ (Mention.signature text).names) :
    name ≠ "" ∧ ';' ∉ name.toList ∧ (HasBracket name →
      (∃ cause, Signature.classNames text = .error cause) ∧ name ∈ Descriptor.classNames text) := by
  rw [Mention.names] at h
  cases hread : Signature.classNames text with
  | ok names =>
    rw [hread] at h
    obtain ⟨hne, hopen⟩ := Signature.isName_of_classNames hread name h
    have hends : ∀ ch, Signature.endsName ch = true → ch ∉ name.toList := fun ch hch hmem =>
      Bool.false_ne_true ((hopen ch hmem).symm.trans hch)
    refine ⟨?_, hends ';' rfl, ?_⟩
    · rintro rfl
      exact hne rfl
    · rintro (hbracket | hbracket)
      · exact absurd hbracket (hends '<' rfl)
      · exact absurd hbracket (hends '>' rfl)
  | error cause =>
    rw [hread] at h
    have hname := Descriptor.madeOf_of_mem_classNames h
    exact ⟨hname.nonempty, hname.no_semicolon, fun _ => ⟨⟨cause, rfl⟩, h⟩⟩

/-- What is made of the characters of a text has no bracket that the text has not. -/
theorem HasBracket.of_madeOf (h : MadeOf text.toList name) (hbracket : HasBracket name) :
    HasBracket text :=
  hbracket.imp (fun hmem => h.subset hmem) fun hmem => h.subset hmem

/-- What is mentioned by such class constants and descriptors, and by any signatures. -/
theorem of_mem_mentioned (decoded : ClassFile.Class.parse data = .ok c)
    (constants : ∀ raw, .class raw ∈ c.references →
      (∃ constant : ClassConstant, constant.text = raw) ∧ ¬ HasBracket raw)
    (descriptors : ∀ text, c.HoldsDescriptor text → ¬ HasBracket text) (h : name ∈ mentioned c) :
    name ≠ "" ∧ ';' ∉ name.toList ∧ (HasBracket name → ∃ text, c.HoldsSignature text ∧
      (∃ cause, Signature.classNames text = .error cause) ∧
        name ∈ Descriptor.classNames text) := by
  rcases (mem_mentioned decoded).1 h with ⟨raw, hraw, hname⟩ | ⟨text, htext, hname⟩ |
    ⟨text, htext, hname⟩
  · obtain ⟨⟨constant, rfl⟩, hplain⟩ := constants raw hraw
    have hmade := Descriptor.madeOf_of_internalName hname
    exact ⟨hmade.nonempty, hmade.no_semicolon, fun hbracket =>
      absurd (HasBracket.of_madeOf hmade hbracket) hplain⟩
  · have hmade := Descriptor.madeOf_of_mem_classNames hname
    exact ⟨hmade.nonempty, hmade.no_semicolon, fun hbracket =>
      absurd (HasBracket.of_madeOf hmade hbracket) (descriptors text htext)⟩
  · obtain ⟨hne, hsemicolon, hbracket⟩ := of_mem_names_signature hname
    exact ⟨hne, hsemicolon, fun h => ⟨text, htext, hbracket h⟩⟩

/-- **The names of a report.** Where the class constants of a class are those of the grammar, and
neither they nor the descriptors hold a bracket, nothing that is reported is empty; a semicolon is
only in the name of the class itself, if its constant is a descriptor and is not unwrapped; and the
names with brackets are those that are found by scanning a signature that cannot be read. -/
theorem names_of_report (data : Bytes) (c : ClassFile.Class) (container : Path)
    (decoded : ClassFile.Class.parse data = .ok c)
    (constants : ∀ raw, .class raw ∈ c.references →
      (∃ constant : ClassConstant, constant.text = raw) ∧ ¬ HasBracket raw)
    (descriptors : ∀ text, c.HoldsDescriptor text → ¬ HasBracket text) :
    ∃ x, extract data container .dependencies = .ok x ∧
      (∀ sighting ∈ x.sightings, ∀ name ∈ sighting.names, name ≠ "" ∧
        (';' ∈ name.toList → name = c.name ∧ internalName name ≠ some name)) ∧
      ∀ name, HasBracket name →
        ((∃ sighting ∈ x.sightings, name ∈ sighting.names) ↔
          ∃ text, c.HoldsSignature text ∧ (∃ cause, Signature.classNames text = .error cause) ∧
            name ∈ Descriptor.classNames text) := by
  have hown := ClassFile.Class.name_mem_references decoded
  obtain ⟨⟨own, hconstant⟩, hplain⟩ := constants c.name hown
  refine ⟨_, extract_of_parse decoded container, fun sighting hsighting name hname => ?_,
    fun name hbracket => ?_⟩
  · rcases mem_names_report.1 ⟨sighting, hsighting, hname⟩ with rfl | hmentioned
    · rw [← hconstant]
      refine ⟨own.text_ne_empty, fun hsemicolon => ⟨rfl, fun hself => ?_⟩⟩
      exact (Descriptor.madeOf_of_internalName hself).no_semicolon hsemicolon
    · obtain ⟨hne, hsemicolon, -⟩ := of_mem_mentioned decoded constants descriptors hmentioned
      exact ⟨hne, fun hmem => absurd hmem hsemicolon⟩
  · rw [mem_names_report]
    constructor
    · rintro (rfl | hmentioned)
      · exact absurd hbracket hplain
      · exact (of_mem_mentioned decoded constants descriptors hmentioned).2.2 hbracket
    · rintro ⟨text, htext, ⟨cause, hcause⟩, hname⟩
      refine .inr ((mem_mentioned decoded).2 (.inr (.inr ⟨text, htext, ?_⟩)))
      rw [Mention.names, hcause]
      exact hname

/-- The bytes of a class `A` whose signature is cut off, as `LB<LC;`. -/
def cutOff : Bytes :=
  [0xCA, 0xFE, 0xBA, 0xBE, 0, 0, 0, 52, 0, 5, 1, 0, 1, 65, 7, 0, 1,
    1, 0, 9, 83, 105, 103, 110, 97, 116, 117, 114, 101, 1, 0, 6, 76, 66, 60, 76, 67, 59,
    0, 33, 0, 2, 0, 0, 0, 0, 0, 0, 0, 0, 0, 1, 0, 3, 0, 0, 0, 2, 0, 4]

/-- The class of these bytes. -/
def cutOffClass : ClassFile.Class where
  header := ⟨0, 52, 33, "A", none, []⟩
  fields := []
  methods := []
  signature := some "LB<LC;"
  marks := []
  innerClasses := []
  references := [.class "A"]

theorem constant_cutOffClass {raw : String} (h : .class raw ∈ cutOffClass.references) :
    (∃ constant : ClassConstant, constant.text = raw) ∧ ¬ HasBracket raw := by
  obtain rfl : raw = "A" := by simpa [cutOffClass] using h
  exact ⟨⟨.plain ⟨['A'], by decide, by decide⟩ (by decide), rfl⟩, by decide⟩

theorem not_holdsDescriptor_cutOffClass (text : String) : ¬ cutOffClass.HoldsDescriptor text := by
  simp [ClassFile.Class.HoldsDescriptor, cutOffClass]

/-- The rest of the signature is taken for one name. -/
theorem names_of_report_cutOff :
    ClassFile.Class.parse cutOff = .ok cutOffClass ∧
    ∃ x, extract cutOff ⟨"a.jar"⟩ .dependencies = .ok x ∧
      ∃ sighting ∈ x.sightings, "B<LC" ∈ sighting.names := by
  obtain ⟨x, hextract, -, hbracket⟩ := names_of_report cutOff cutOffClass ⟨"a.jar"⟩ rfl
    (fun raw => constant_cutOffClass) fun text h => absurd h (not_holdsDescriptor_cutOffClass text)
  exact ⟨rfl, x, hextract, (hbracket "B<LC" (by decide)).2
    ⟨"LB<LC;", .inl rfl, ⟨.badSignature "LB<LC;", by decide⟩, by decide⟩⟩

/-- **A signature that is cut off can bring a name with a bracket**, although no class constant has
one and there is no descriptor. -/
theorem exists_name_bracket :
    ∃ data c container x sighting name, ClassFile.Class.parse data = .ok c ∧
      (∀ raw, .class raw ∈ c.references →
        (∃ constant : ClassConstant, constant.text = raw) ∧ ¬ HasBracket raw) ∧
      (∀ text, ¬ c.HoldsDescriptor text) ∧ extract data container .dependencies = .ok x ∧
      sighting ∈ x.sightings ∧ name ∈ sighting.names ∧ HasBracket name := by
  refine ⟨cutOff, cutOffClass, ⟨"a.jar"⟩, _, .reference "A" "B<LC", "B<LC", rfl,
    fun raw => constant_cutOffClass, not_holdsDescriptor_cutOffClass, rfl, ?_, by decide, by decide⟩
  exact List.mem_cons_of_mem _ (List.mem_cons_of_mem _ List.mem_cons_self)

end Extraction

end JarGraph
