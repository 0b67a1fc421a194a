import JarGraph.ClassFile.Description.Meaning
import JarGraph.Proofs.ClassFile.ModifiedUtf8
import JarGraph.Proofs.ClassFile.Reads
/-!
# Well-formed descriptions

A description is well formed where every index that names something
leads to an entry of the sort that its place asks for, and every text is
a row of proper groups of bytes. Well-formed descriptions have a meaning
(`WellFormed.exists_meaning`).
-/

namespace JarGraph.ClassFile.Description

variable {pool : List Entry} {index : UInt16}

/-! ## What well-formed indices lead to -/

/-- The bytes of a text: proper groups in a row. -/
def IsText (data : Bytes) : Prop :=
  ∃ groups : List ModifiedUtf8.Group, (∀ g ∈ groups, g.IsProper) ∧
    data = groups.flatMap ModifiedUtf8.Group.bytes

/-- An index leads to a text. -/
def LeadsToText (pool : List Entry) (index : UInt16) : Prop :=
  ∃ data, entryAt? pool index = some (.utf8 data)

/-- An index leads to a class, and the class to its name. -/
def LeadsToClass (pool : List Entry) (index : UInt16) : Prop :=
  ∃ name, entryAt? pool index = some (.classEntry name) ∧ LeadsToText pool name

/-- An index leads to a class or is 0, which stands for none. -/
def LeadsToClassOrNone (pool : List Entry) (index : UInt16) : Prop :=
  index = 0 ∨ LeadsToClass pool index

mutual

/-- The indices of an annotation lead to types. -/
def Mark.Refers (pool : List Entry) : Mark → Prop
  | .mk type pairs => LeadsToText pool type ∧ Pair.AllRefer pool pairs

/-- The indices of a named value lead to types. -/
def Pair.Refers (pool : List Entry) : Pair → Prop
  | .mk _ value => value.Refers pool

/-- The indices of named values in a row lead to types. -/
def Pair.AllRefer (pool : List Entry) : List Pair → Prop
  | [] => True
  | p :: more => p.Refers pool ∧ Pair.AllRefer pool more

/-- The indices of an element value lead to types. -/
def Value.Refers (pool : List Entry) : Value → Prop
  | .constant _ _ => True
  | .enumConstant type _ => LeadsToText pool type
  | .classLiteral descriptor => LeadsToText pool descriptor
  | .nested mark => mark.Refers pool
  | .array values => Value.AllRefer pool values

/-- The indices of element values in a row lead to types. -/
def Value.AllRefer (pool : List Entry) : List Value → Prop
  | [] => True
  | v :: more => v.Refers pool ∧ Value.AllRefer pool more

end

/-- The indices of a row of inner classes lead to classes. -/
def InnerRow.Refers (pool : List Entry) (row : InnerRow) : Prop :=
  LeadsToClass pool row.inner ∧ LeadsToClassOrNone pool row.outer

/-- The indices in the contents of an attribute lead to what they name. -/
def Contents.Refers (pool : List Entry) : Contents → Prop
  | signature text => LeadsToText pool text
  | exceptions classes => ∀ index ∈ classes, LeadsToClass pool index
  | innerClasses rows => ∀ row ∈ rows, row.Refers pool
  | marks _ list => ∀ m ∈ list, m.Refers pool
  | parameterMarks _ lists => ∀ list ∈ lists, ∀ m ∈ list, m.Refers pool
  | default value => value.Refers pool
  | unknown _ _ => True

/-- The name of an attribute is that of its contents. -/
structure Attribute.Refers (pool : List Entry) (a : Attribute) : Prop where
  name : textAt? pool a.name = some a.contents.label
  contents : a.contents.Refers pool

/-- The indices of a field or method lead to what they name. -/
structure Member.Refers (pool : List Entry) (m : Member) : Prop where
  name : LeadsToText pool m.name
  descriptor : LeadsToText pool m.descriptor
  attributes : ∀ a ∈ m.attributes, a.Refers pool

/-- An entry that names something leads to its text, and a text is one. -/
def Entry.Refers (pool : List Entry) : Entry → Prop
  | utf8 data => IsText data
  | classEntry name => LeadsToText pool name
  | nameAndType _ descriptor => LeadsToText pool descriptor
  | methodType descriptor => LeadsToText pool descriptor
  | _ => True

/-- Every index of a description that names something leads to an entry of the right sort, and its
texts are well formed. -/
structure WellFormed (d : Description) : Prop where
  entries : ∀ e ∈ d.pool, e.Refers d.pool
  name : LeadsToClass d.pool d.name
  superclass : LeadsToClassOrNone d.pool d.superclass
  interfaces : ∀ index ∈ d.interfaces, LeadsToClass d.pool index
  fields : ∀ m ∈ d.fields, m.Refers d.pool
  methods : ∀ m ∈ d.methods, m.Refers d.pool
  attributes : ∀ a ∈ d.attributes, a.Refers d.pool

/-! ## The meaning of well-formed descriptions -/

theorem exists_text_of_isText {data : Bytes} (h : IsText data) :
    ∃ text, Entry.text? (.utf8 data) = some text := by
  obtain ⟨groups, hproper, rfl⟩ := h
  exact ⟨_, by rw [Entry.text?, ModifiedUtf8.units?_flatMap_bytes hproper, Option.map_some]⟩

/-- What an index leads to stands in the pool. -/
theorem mem_of_entryAt? {e : Entry} (h : entryAt? pool index = some e) : e ∈ pool := by
  have hslots {row : List Entry} (hmem : some e ∈ slots row) : e ∈ row := by
    induction row with
    | nil => simp [slots] at hmem
    | cons e' row ih =>
      rw [slots] at hmem
      split at hmem
      · exact List.mem_cons_of_mem _ (ih (by simpa using hmem))
      · rcases List.mem_cons.1 hmem with heq | hrest
        · rw [Option.some.inj heq]
          exact List.mem_cons_self
        · exact List.mem_cons_of_mem _ (ih hrest)
  unfold entryAt? at h
  split at h
  · cases h
  · exact hslots (List.mem_of_getElem? (Option.join_eq_some_iff.1 h))

/-- A row of look-ups that all succeed one by one. -/
theorem exists_mapM {α β : Type} {f : α → Option β} {items : List α}
    (h : ∀ x ∈ items, ∃ b, f x = some b) : ∃ values, items.mapM f = some values := by
  induction items with
  | nil => exact ⟨[], rfl⟩
  | cons x items ih =>
    obtain ⟨b, hb⟩ := h x List.mem_cons_self
    obtain ⟨more, hmore⟩ := ih fun y hy => h y (List.mem_cons_of_mem _ hy)
    exact ⟨b :: more, mapM_cons_eq_some.2 ⟨b, more, hb, hmore, rfl⟩⟩

theorem LeadsToText.exists_text (entries : ∀ e ∈ pool, e.Refers pool)
    (h : LeadsToText pool index) :
    ∃ text, textAt? pool index = some text := by
  obtain ⟨data, hdata⟩ := h
  obtain ⟨text, htext⟩ := exists_text_of_isText (entries _ (mem_of_entryAt? hdata))
  exact ⟨text, Option.bind_eq_some_iff.2 ⟨_, hdata, htext⟩⟩

theorem LeadsToClass.exists_name (entries : ∀ e ∈ pool, e.Refers pool)
    (h : LeadsToClass pool index) :
    ∃ name, classAt? pool index = some name := by
  obtain ⟨i, hi, htext⟩ := h
  obtain ⟨name, hname⟩ := htext.exists_text entries
  exact ⟨name, by rw [classAt?, hi]; exact hname⟩

theorem LeadsToClassOrNone.exists_name (entries : ∀ e ∈ pool, e.Refers pool)
    (h : LeadsToClassOrNone pool index) :
    ∃ name, optionalClassAt? pool index = some name := by
  unfold optionalClassAt?
  split
  · exact ⟨none, rfl⟩
  · rename_i hne
    obtain ⟨name, hname⟩ := (h.resolve_left hne).exists_name entries
    exact ⟨some name, by rw [hname, Option.map_some]⟩

mutual

theorem Mark.exists_descriptors (entries : ∀ e ∈ pool, e.Refers pool) (m : Mark)
    (h : m.Refers pool) :
    ∃ found, m.descriptors? pool = some found := by
  match m, h with
  | .mk type pairs, ⟨htype, hpairs⟩ =>
    obtain ⟨first, hfirst⟩ := htype.exists_text entries
    obtain ⟨more, hmore⟩ := Pair.exists_allDescriptors entries pairs hpairs
    exact ⟨first :: more, by simp [Mark.descriptors?, hfirst, hmore]⟩

theorem Pair.exists_allDescriptors (entries : ∀ e ∈ pool, e.Refers pool) (pairs : List Pair)
    (h : Pair.AllRefer pool pairs) :
    ∃ found, Pair.allDescriptors? pool pairs = some found := by
  match pairs, h with
  | [], _ => exact ⟨[], rfl⟩
  | .mk _ value :: more, ⟨hvalue, hmore⟩ =>
    obtain ⟨first, hfirst⟩ := Value.exists_descriptors entries value hvalue
    obtain ⟨rest, hrest⟩ := Pair.exists_allDescriptors entries more hmore
    exact ⟨first ++ rest, by simp [Pair.allDescriptors?, Pair.descriptors?, hfirst, hrest]⟩

theorem Value.exists_descriptors (entries : ∀ e ∈ pool, e.Refers pool) (v : Value)
    (h : v.Refers pool) :
    ∃ found, v.descriptors? pool = some found := by
  match v, h with
  | .constant _ _, _ => exact ⟨[], rfl⟩
  | .enumConstant type _, h =>
    obtain ⟨text, ht⟩ := LeadsToText.exists_text entries h
    exact ⟨[text], by simp [Value.descriptors?, ht]⟩
  | .classLiteral descriptor, h =>
    obtain ⟨text, ht⟩ := LeadsToText.exists_text entries h
    exact ⟨[text], by simp [Value.descriptors?, ht]⟩
  | .nested mark, h => exact Mark.exists_descriptors entries mark h
  | .array values, h => exact Value.exists_allDescriptors entries values h

theorem Value.exists_allDescriptors (entries : ∀ e ∈ pool, e.Refers pool) (values : List Value)
    (h : Value.AllRefer pool values) :
    ∃ found, Value.allDescriptors? pool values = some found := by
  match values, h with
  | [], _ => exact ⟨[], rfl⟩
  | v :: more, ⟨hvalue, hmore⟩ =>
    obtain ⟨first, hfirst⟩ := Value.exists_descriptors entries v hvalue
    obtain ⟨rest, hrest⟩ := Value.exists_allDescriptors entries more hmore
    exact ⟨first ++ rest, by simp [Value.allDescriptors?, hfirst, hrest]⟩

end

theorem exists_marks (entries : ∀ e ∈ pool, e.Refers pool) {list : List Mark}
    (h : ∀ m ∈ list, m.Refers pool) : ∃ found, marks? pool list = some found := by
  obtain ⟨rows, hrows⟩ := exists_mapM fun m hm => Mark.exists_descriptors entries m (h m hm)
  exact ⟨rows.flatten, by rw [marks?, hrows, Option.map_some]⟩

theorem InnerRow.exists_names (entries : ∀ e ∈ pool, e.Refers pool) {row : InnerRow}
    (h : row.Refers pool) : ∃ names, row.names? pool = some names := by
  obtain ⟨inner, hinner⟩ := h.1.exists_name entries
  obtain ⟨outer, houter⟩ := h.2.exists_name entries
  exact ⟨inner :: outer.toList, by simp [InnerRow.names?, hinner, houter]⟩

theorem Contents.exists_meaning (entries : ∀ e ∈ pool, e.Refers pool) {c : Contents}
    (h : c.Refers pool) : ∃ m, c.meaning? pool = some m := by
  cases c with
  | signature index =>
    obtain ⟨text, ht⟩ := LeadsToText.exists_text entries h
    exact ⟨_, by rw [meaning?, ht, Option.map_some]⟩
  | exceptions classes =>
    obtain ⟨names, hnames⟩ := exists_mapM fun i hi => (h i hi).exists_name entries
    exact ⟨_, by rw [meaning?, hnames, Option.map_some]⟩
  | innerClasses rows =>
    obtain ⟨names, hnames⟩ := exists_mapM fun row hr => InnerRow.exists_names entries (h row hr)
    exact ⟨_, by rw [meaning?, hnames, Option.map_some]⟩
  | marks _ list =>
    obtain ⟨found, hfound⟩ := exists_marks entries h
    exact ⟨_, by rw [meaning?, hfound, Option.map_some]⟩
  | parameterMarks _ lists =>
    obtain ⟨rows, hrows⟩ := exists_mapM fun list hl => exists_marks entries (h list hl)
    exact ⟨_, by rw [meaning?, hrows, Option.map_some]⟩
  | default value =>
    obtain ⟨found, hfound⟩ := Value.exists_descriptors entries value h
    exact ⟨_, by rw [meaning?, hfound, Option.map_some]⟩
  | unknown => exact ⟨_, rfl⟩

theorem exists_attributes (entries : ∀ e ∈ pool, e.Refers pool) {list : List Attribute}
    (h : ∀ a ∈ list, a.Refers pool) : ∃ m, attributes? pool list = some m := by
  obtain ⟨all, hall⟩ := exists_mapM (f := Attribute.meaning? pool) fun a ha => by
    obtain ⟨m, hm⟩ := Contents.exists_meaning entries (h a ha).contents
    exact ⟨m, by rw [Attribute.meaning?, if_pos (h a ha).name, hm]⟩
  exact ⟨joined all, by rw [attributes?, hall, Option.map_some]⟩

theorem Member.exists_meaning (entries : ∀ e ∈ pool, e.Refers pool) {m : Member}
    (h : m.Refers pool) : ∃ member, m.meaning? pool = some member := by
  obtain ⟨name, hname⟩ := h.name.exists_text entries
  obtain ⟨descriptor, hdescriptor⟩ := h.descriptor.exists_text entries
  obtain ⟨attributes, hattributes⟩ := exists_attributes entries h.attributes
  exact ⟨_, by simp only [meaning?, hname, hdescriptor, hattributes]; rfl⟩

theorem Entry.exists_reference (entries : ∀ e ∈ pool, e.Refers pool) {e : Entry}
    (h : e.Refers pool) : ∃ name, e.reference? pool = some name := by
  cases e with
  | utf8 data =>
    obtain ⟨text, ht⟩ := exists_text_of_isText h
    exact ⟨none, by rw [reference?, ht, Option.map_some]⟩
  | classEntry i | nameAndType _ i | methodType i =>
    obtain ⟨text, ht⟩ := LeadsToText.exists_text entries h
    exact ⟨_, by rw [reference?, ht, Option.map_some]⟩
  | _ => exact ⟨none, rfl⟩

/-- **A well-formed description means a class.** -/
theorem WellFormed.exists_meaning {d : Description} (h : d.WellFormed) :
    ∃ c, d.meaning? = some c := by
  have entries := h.entries
  obtain ⟨name, hname⟩ := h.name.exists_name entries
  obtain ⟨superclass, hsuper⟩ := h.superclass.exists_name entries
  obtain ⟨interfaces, hinterfaces⟩ := exists_mapM fun i hi =>
    (h.interfaces i hi).exists_name entries
  have hheader : d.header? =
      some ⟨d.minor, d.major, d.access, name, superclass, interfaces⟩ := by
    simp only [header?, hname, hsuper, hinterfaces]
    rfl
  obtain ⟨fields, hfields⟩ := exists_mapM fun m hm => Member.exists_meaning entries (h.fields m hm)
  obtain ⟨methods, hmethods⟩ := exists_mapM fun m hm =>
    Member.exists_meaning entries (h.methods m hm)
  obtain ⟨attributes, hattributes⟩ := exists_attributes entries h.attributes
  obtain ⟨names, hnames⟩ := exists_mapM fun e he =>
    Entry.exists_reference entries (entries e he)
  exact ⟨_, by simp only [meaning?, hheader, hfields, hmethods, hattributes, hnames]; rfl⟩

end JarGraph.ClassFile.Description
