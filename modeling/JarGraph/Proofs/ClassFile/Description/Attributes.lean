import JarGraph.Proofs.ClassFile.Description.Marks
/-!
# The attributes of a description

Reading carries what the attributes so far say from one attribute to the
next, and each adds what it says by itself (`plus`). The sum of a row is
what the description joins from the row (`foldl_plus`). The contents of
an attribute are read inside their own length, so that those of an
unknown name, which are not looked at, do no harm to what follows.
-/

namespace JarGraph.ClassFile

open Description

variable {entries : List Entry} {before m : Attributes}

/-! ## Sums -/

namespace Attributes

/-- What attributes say together with later ones: of two signatures the later one counts. -/
def plus (before later : Attributes) : Attributes where
  signature := later.signature.or before.signature
  exceptions := before.exceptions ++ later.exceptions
  marks := before.marks ++ later.marks
  innerClasses := before.innerClasses ++ later.innerClasses

@[simp] theorem plus_empty (a : Attributes) : a.plus empty = a := by
  simp [plus, empty]

@[simp] theorem empty_plus (a : Attributes) : empty.plus a = a := by
  simp [plus, empty]

theorem plus_assoc (a b c : Attributes) : (a.plus b).plus c = a.plus (b.plus c) := by
  simp [plus, Option.or_assoc]

theorem joined_cons (a : Attributes) (all : List Attributes) :
    joined (a :: all) = a.plus (joined all) := by
  cases h : a.signature with
  | none => simp [joined, plus, h]
  | some text =>
    simp only [joined, plus, h, List.filterMap_cons, List.getLast?_cons, List.flatMap_cons]
    cases (all.filterMap signature).getLast? <;> rfl

/-- Adding up a row comes to what is joined from it. -/
theorem foldl_plus (before : Attributes) (all : List Attributes) :
    all.foldl plus before = before.plus (joined all) := by
  induction all generalizing before with
  | nil =>
    have : joined [] = empty := rfl
    rw [this, plus_empty, List.foldl_nil]
  | cons a all ih => rw [List.foldl_cons, ih, joined_cons, plus_assoc]

end Attributes

namespace Description

/-! ## One attribute -/

theorem reads_readInner {row : InnerRow} {names : List String}
    (h : row.names? entries = some names) :
    Reads (Attributes.readInner (poolOf entries)) row.bytes names := by
  obtain ⟨inner, hinner, h⟩ := Option.bind_eq_some_iff.1 h
  obtain ⟨outer, houter, h⟩ := Option.bind_eq_some_iff.1 h
  obtain rfl : inner :: outer.toList = names := Option.some.inj h
  rw [InnerRow.bytes, List.append_assoc, List.append_assoc]
  refine (Reads.u2 row.inner).bind ((Reads.u2 row.outer).bind ((Reads.skip (by simp)).last ?_))
  exact .check (className_poolOf hinner) (.check (className?_poolOf houter) (.pure _))

/-- Contents that note descriptors add what they note. -/
theorem readContents_of_lookup {name : String} {n : Noting} {xs : Bytes} {found : List String}
    (hname : name ≠ "Signature" ∧ name ≠ "Exceptions" ∧ name ≠ "InnerClasses")
    (hlookup : (Attributes.markReads (poolOf entries)).lookup name = some n)
    (h : Notes n xs found) :
    (Attributes.readContents (poolOf entries) name before xs).1 =
      .ok (before.plus { Attributes.empty with marks := found }) := by
  rw [Attributes.readContents, if_neg hname.1, if_neg hname.2.1, if_neg hname.2.2, hlookup]
  refine (h.toReader.last ?_).answer
  simpa [Attributes.plus, Attributes.empty] using Reads.pure _

/-- **The contents of an attribute add what they say by themselves.** -/
theorem readContents_eq {c : Contents} (fits : c.RowsFit) (h : c.meaning? entries = some m) :
    (Attributes.readContents (poolOf entries) c.label before c.bytes).1 = .ok (before.plus m) := by
  cases c with
  | signature index =>
    obtain ⟨text, ht, rfl⟩ := Option.map_eq_some_iff.1 h
    rw [Attributes.readContents, Contents.label, if_pos rfl]
    refine ((Reads.u2 index).last (.check (utf8_poolOf ht) ?_)).answer
    simpa [Attributes.plus, Attributes.empty] using Reads.pure _
  | exceptions classes =>
    obtain ⟨names, hnames, rfl⟩ := Option.map_eq_some_iff.1 h
    rw [Attributes.readContents, Contents.label, if_neg (by decide), if_pos rfl, Contents.bytes]
    refine (Reads.counted fits hnames (fun index _ name hname => ?_) ?_).answer
    · exact (Reads.u2 index).last (.ofExcept (className_poolOf hname))
    · simpa [Attributes.plus, Attributes.empty] using Reads.pure _
  | innerClasses rows =>
    obtain ⟨names, hnames, rfl⟩ := Option.map_eq_some_iff.1 h
    rw [Attributes.readContents, Contents.label, if_neg (by decide), if_neg (by decide), if_pos rfl,
      Contents.bytes]
    refine (Reads.counted fits hnames (fun row _ _ hrow => reads_readInner hrow) ?_).answer
    simpa [Attributes.plus, Attributes.empty] using Reads.pure _
  | marks visibility list =>
    obtain ⟨found, hfound, rfl⟩ := Option.map_eq_some_iff.1 h
    have hnotes := notes_marks fits.1 fits.2 hfound
    cases visibility <;> exact readContents_of_lookup (by simp [Contents.label]) rfl hnotes
  | parameterMarks visibility lists =>
    obtain ⟨rows, hrows, rfl⟩ := Option.map_eq_some_iff.1 h
    have hnotes := notes_parameterMarks fits.1 fits.2 hrows
    cases visibility <;> exact readContents_of_lookup (by simp [Contents.label]) rfl hnotes
  | default value =>
    obtain ⟨found, hfound, rfl⟩ := Option.map_eq_some_iff.1 h
    exact readContents_of_lookup (by simp [Contents.label]) rfl (notes_elementValue fits hfound)
  | unknown name data =>
    obtain rfl : Attributes.empty = m := Option.some.inj h
    simp only [Contents.RowsFit, Contents.knownLabels, List.mem_cons, List.not_mem_nil, or_false,
      not_or, Contents.label] at fits
    -- The name is none of those that reading knows, by a test or by the table.
    obtain ⟨h₁, h₂, h₃, h₄, h₅, h₆, h₇, h₈⟩ := fits
    have hlookup : (Attributes.markReads (poolOf entries)).lookup name = none := by
      simp only [Attributes.markReads, List.lookup_cons, List.lookup_nil, beq_eq_false_iff_ne.2 h₄,
        beq_eq_false_iff_ne.2 h₅, beq_eq_false_iff_ne.2 h₆, beq_eq_false_iff_ne.2 h₇,
        beq_eq_false_iff_ne.2 h₈]
    rw [Attributes.plus_empty, Attributes.readContents, Contents.label, if_neg h₁, if_neg h₂,
      if_neg h₃, hlookup]
    rfl

/-- An attribute is passed in full, however much of its contents is looked at. -/
theorem reads_readOne {a : Attribute} (fits : a.Fits) (h : a.meaning? entries = some m) :
    Reads (Attributes.readOne (poolOf entries) before) a.bytes (before.plus m) := by
  unfold Attribute.meaning? at h
  split at h
  · rename_i hname
    have hlength : (UInt32.ofNat a.contents.bytes.length).toNat = a.contents.bytes.length :=
      UInt32.toNat_ofNat_of_lt' fits.2
    have hu4 := Reads.u4 (UInt32.ofNat a.contents.bytes.length)
    rw [hlength] at hu4
    rw [Attribute.bytes, List.append_assoc]
    refine (Reads.u2 a.name).bind (.check (utf8_poolOf hname) (hu4.bind ?_))
    refine (Reads.take hlength.symm).last fun rest => ?_
    exact Prod.ext (readContents_eq fits.1 h) rfl
  · cases h

/-! ## A row of attributes -/

theorem reads_fold_readOne (before : Attributes) {list : List Attribute}
    (fits : ∀ a ∈ list, a.Fits)
    {all : List Attributes} (h : list.mapM (Attribute.meaning? entries) = some all) :
    Reads (Reader.fold list.length (Attributes.readOne (poolOf entries)) before)
      (list.flatMap Attribute.bytes) (all.foldl Attributes.plus before) := by
  induction list generalizing all before with
  | nil =>
    obtain rfl : [] = all := by simpa using h
    exact .pure _
  | cons a list ih =>
    obtain ⟨m, more, hm, hmore, rfl⟩ := mapM_cons_eq_some.1 h
    exact (reads_readOne (fits a List.mem_cons_self) hm).bind
      (ih _ (fun b hb => fits b (List.mem_cons_of_mem _ hb)) hmore)

/-- **A row of attributes is read back as what it says.** -/
theorem reads_attributes {list : List Attribute} (fits : AttributesFit list)
    (h : attributes? entries list = some m) :
    Reads (Attributes.read (poolOf entries)) (counted Attribute.bytes list) m := by
  obtain ⟨all, hall, rfl⟩ := Option.map_eq_some_iff.1 h
  have hfold := reads_fold_readOne .empty fits.2 hall
  rw [Attributes.foldl_plus, Attributes.empty_plus] at hfold
  refine (Reads.count fits.1).bind ?_
  rwa [UInt16.toNat_ofNat_of_lt' fits.1]

end Description

end JarGraph.ClassFile
