import JarGraph.Proofs.ClassFile.Description.Attributes
import JarGraph.Proofs.ClassFile.Description.WellFormed
/-!
# Reading back a description

The bytes that a description is written as are read back as the class
that it describes (`parse_bytes`), whatever the pool holds and however
its entries are ordered, as long as every index leads to an entry of the
sort that its place asks for.
-/

namespace JarGraph.ClassFile.Description

variable {entries : List Entry} {d : Description}

theorem reads_member {m : Member} {member : ClassFile.Member} (fits : m.Fits)
    (h : m.meaning? entries = some member) :
    Reads (ClassFile.Member.read (poolOf entries)) m.bytes member := by
  obtain ⟨name, hname, h⟩ := Option.bind_eq_some_iff.1 h
  obtain ⟨descriptor, hdescriptor, h⟩ := Option.bind_eq_some_iff.1 h
  obtain ⟨attributes, hattributes, h⟩ := Option.bind_eq_some_iff.1 h
  obtain rfl := Option.some.inj h
  rw [Member.bytes, List.append_assoc, List.append_assoc]
  refine (Reads.u2 m.access).bind ((Reads.u2 m.name).bind (.check (utf8_poolOf hname) ?_))
  refine (Reads.u2 m.descriptor).bind (.check (utf8_poolOf hdescriptor) ?_)
  exact (reads_attributes fits hattributes).last (.pure _)

/-- The bytes of a description up to its fields. -/
def headerBytes (d : Description) : Bytes :=
  bigEndian 4 Header.magic.toNat ++ (bytes2 d.minor ++ (bytes2 d.major ++
    ((bigEndian 2 (indexCount d.pool) ++ d.pool.flatMap Entry.bytes) ++
      (bytes2 d.access ++ (bytes2 d.name ++ (bytes2 d.superclass ++
        counted bytes2 d.interfaces))))))

theorem bytes_eq (d : Description) :
    d.bytes = d.headerBytes ++ (counted Member.bytes d.fields ++
      (counted Member.bytes d.methods ++ counted Attribute.bytes d.attributes)) := by
  have hmagic : bigEndian 4 Header.magic.toNat = [0xCA, 0xFE, 0xBA, 0xBE] := rfl
  simp only [bytes, headerBytes, hmagic, List.append_assoc]

/-- The header is read back, and the pool with it. -/
theorem reads_header {header : Header} (fits : d.Fits) (h : d.header? = some header)
    {names : List (Option Pool.Reference)}
    (hpool : d.pool.mapM (Entry.reference? d.pool) = some names) :
    Reads Header.read d.headerBytes (header, poolOf d.pool) := by
  obtain ⟨name, hname, h⟩ := Option.bind_eq_some_iff.1 h
  obtain ⟨superclass, hsuper, h⟩ := Option.bind_eq_some_iff.1 h
  obtain ⟨interfaces, hinterfaces, h⟩ := Option.bind_eq_some_iff.1 h
  obtain rfl := Option.some.inj h
  refine (Reads.u4 Header.magic).bind ?_
  refine (Reads.u2 d.minor).bind ((Reads.u2 d.major).bind ?_)
  refine (reads_pool fits.pool fits.entries hpool).bind ?_
  refine (Reads.u2 d.access).bind ((Reads.u2 d.name).bind (.check (className_poolOf hname) ?_))
  refine (Reads.u2 d.superclass).bind (.check (className?_poolOf hsuper) ?_)
  exact Reads.counted fits.interfaces hinterfaces
    (fun index _ _ hi => (Reads.u2 index).last (.ofExcept (className_poolOf hi))) (.pure _)

/-- The bytes of a description that has a meaning are read as that, and nothing is left of them. -/
theorem parse_of_meaning {c : Class} (fits : d.Fits) (h : d.meaning? = some c) :
    Class.parse d.bytes = .ok c := by
  obtain ⟨header, hheader, h⟩ := Option.bind_eq_some_iff.1 h
  obtain ⟨fields, hfields, h⟩ := Option.bind_eq_some_iff.1 h
  obtain ⟨methods, hmethods, h⟩ := Option.bind_eq_some_iff.1 h
  obtain ⟨attributes, hattributes, h⟩ := Option.bind_eq_some_iff.1 h
  obtain ⟨names, hnames, h⟩ := Option.bind_eq_some_iff.1 h
  obtain rfl := Option.some.inj h
  rw [bytes_eq, Class.parse, Class.read, (reads_header fits hheader hnames).bind_apply]
  dsimp only
  rw [Reads.counted_apply fits.fields.1 hfields fun m hm _ => reads_member (fits.fields.2 m hm),
    Reads.counted_apply fits.methods.1 hmethods fun m hm _ => reads_member (fits.methods.2 m hm),
    ← List.append_nil (counted _ _), (reads_attributes fits.attributes hattributes).bind_apply]
  -- Nothing is left behind the attributes, and all that remains is to look up the references.
  rw [Reads.atEnd_apply]
  refine (Reads.check (references_poolOf hnames) ?_).answer
  exact .pure _

/-- **Reading undoes writing.** A well-formed description that fits the format means a class, and its
bytes are read as that class. -/
theorem parse_bytes (fits : d.Fits) (wellFormed : d.WellFormed) :
    ∃ c, d.meaning? = some c ∧ Class.parse d.bytes = .ok c := by
  obtain ⟨c, hc⟩ := wellFormed.exists_meaning
  exact ⟨c, hc, parse_of_meaning fits hc⟩

/-! ## A class with a wide constant and nested annotations -/

theorem isText_of_plain {data : Bytes} (h : ∀ b ∈ data, 0x01 ≤ b ∧ b ≤ 0x7F) : IsText data := by
  refine ⟨data.map .one, ?_, ?_⟩
  · intro g hg
    obtain ⟨b, hb, rfl⟩ := List.mem_map.1 hg
    exact h b hb
  · rw [List.flatMap_map]
    exact (List.flatMap_singleton' data).symm

/-- A class `A` with a field, an annotation that holds another one, and an attribute of its own. -/
def annotated : Description where
  minor := 0
  major := 52
  pool := [.long 7, .utf8 (plainBytes "A"), .classEntry 3, .utf8 (plainBytes "LB;"),
    .nameAndType 3 5, .utf8 (plainBytes "RuntimeVisibleAnnotations")]
  access := 0x21
  name := 4
  superclass := 0
  interfaces := []
  fields := [⟨0, 3, 5, []⟩]
  methods := []
  attributes := [⟨7, .marks .visible [.mk 5 [.mk 3 (.array [.nested (.mk 5 [])])]]⟩,
    ⟨3, .unknown "A" [1, 2, 3]⟩]

/-- What the description means. -/
def annotatedClass : Class where
  header := ⟨0, 52, 0x21, "A", none, []⟩
  fields := [⟨0, "A", "LB;", none, [], []⟩]
  methods := []
  signature := none
  marks := ["LB;", "LB;"]
  innerClasses := []
  references := [.class "A", .descriptor "LB;"]

theorem annotated_fits : annotated.Fits where
  pool := by decide
  entries := by simp [annotated, Entry.Fits, plainBytes, countLimit]
  interfaces := by decide
  fields := by simp [annotated, Member.Fits, AttributesFit, countLimit]
  methods := by simp [annotated, countLimit]
  attributes := by
    have short : ∀ a ∈ annotated.attributes, a.contents.bytes.length < 4294967296 := by
      decide +kernel
    refine ⟨by decide, fun a ha => ⟨?_, short a ha⟩⟩
    simp only [annotated, List.mem_cons, List.not_mem_nil, or_false] at ha
    rcases ha with rfl | rfl
    · simp [Contents.RowsFit, Mark.Fits, Pair.AllFit, Pair.Fits, Value.Fits, Value.AllFit,
        countLimit]
    · simp [Contents.RowsFit, Contents.knownLabels, Contents.label]

theorem annotated_wellFormed : annotated.WellFormed where
  entries := by
    have plain : (∀ b ∈ plainBytes "A", 0x01 ≤ b ∧ b ≤ 0x7F) ∧
        (∀ b ∈ plainBytes "LB;", 0x01 ≤ b ∧ b ≤ 0x7F) ∧
        ∀ b ∈ plainBytes "RuntimeVisibleAnnotations", 0x01 ≤ b ∧ b ≤ 0x7F := by decide +kernel
    simp only [annotated, List.forall_mem_cons, List.not_mem_nil, false_implies, implies_true,
      and_true]
    exact ⟨trivial, isText_of_plain plain.1, ⟨_, rfl⟩, isText_of_plain plain.2.1, ⟨_, rfl⟩,
      isText_of_plain plain.2.2⟩
  name := ⟨3, rfl, _, rfl⟩
  superclass := .inl rfl
  interfaces := by simp [annotated]
  fields := by
    simp only [annotated, List.mem_singleton, forall_eq]
    exact ⟨⟨_, rfl⟩, ⟨_, rfl⟩, by simp⟩
  methods := by simp [annotated]
  attributes := by
    simp only [annotated, List.forall_mem_cons, List.not_mem_nil, false_implies, implies_true,
      and_true]
    refine ⟨⟨by decide +kernel, ?_⟩, ⟨by decide +kernel, trivial⟩⟩
    simp only [Contents.Refers, List.forall_mem_singleton]
    exact ⟨⟨_, rfl⟩, ⟨⟨⟨⟨_, rfl⟩, trivial⟩, trivial⟩, trivial⟩⟩

theorem parse_bytes_annotated :
    annotated.Fits ∧ annotated.WellFormed ∧ annotated.meaning? = some annotatedClass ∧
      Class.parse annotated.bytes = .ok annotatedClass := by
  obtain ⟨c, hmeaning, hparse⟩ := parse_bytes annotated_fits annotated_wellFormed
  have hc : annotated.meaning? = some annotatedClass := by decide +kernel
  obtain rfl := Option.some.inj (hc.symm.trans hmeaning)
  exact ⟨annotated_fits, annotated_wellFormed, hc, hparse⟩

end JarGraph.ClassFile.Description
