import JarGraph.Proofs.ClassFile.Description.Pool
/-!
# The annotations of a description

Annotations and element values are read back as the descriptors that
they name, nested to any depth. A read carries a bound on the depth, the
length of the data, and a value takes at least one byte before it opens
another: every bound from the length of its own bytes on is enough
(`Value.notes`).
-/

namespace JarGraph.ClassFile.Description

variable {entries : List Entry} {index : UInt16}

theorem notes_noteIndex {text : String} (h : textAt? entries index = some text) :
    Notes (noteIndex (poolOf entries)) (bytes2 index) [text] :=
  .last (.u2 index) (.last (.ofExcept (utf8_poolOf h)) (.note text))

/-- The bytes of an element value are its tag and what the tag asks for. -/
theorem exists_length_bytes (v : Value) : ∃ n, v.bytes.length = n + 1 := by
  cases v <;> exact ⟨_, rfl⟩

mutual

/-- **An element value is read back as its descriptors**, under every bound on the depth that its
length allows. -/
theorem Value.notes {found : List String} {depth : Nat} (v : Value) (fits : v.Fits)
    (h : v.descriptors? entries = some found) (hd : v.bytes.length ≤ depth) :
    Notes (elementValueWithin (poolOf entries) depth) v.bytes found := by
  obtain ⟨depth, rfl⟩ : ∃ d, depth = d + 1 := by
    obtain ⟨n, hn⟩ := exists_length_bytes v
    exact ⟨depth - 1, by omega⟩
  match v, fits, h, hd with
  | .constant tag index, _, h, _ =>
    obtain rfl : [] = found := by simpa [Value.descriptors?] using h
    refine Notes.byte _ ?_
    cases tag <;> exact .last (.skip (length_bytes2 index)) .done
  | .enumConstant type name, _, h, _ =>
    obtain ⟨text, ht, rfl⟩ := Option.map_eq_some_iff.1 h
    refine Notes.byte _ ?_
    exact (notes_noteIndex ht).andThen (.last (.skip (length_bytes2 name)) .done)
  | .classLiteral descriptor, _, h, _ =>
    obtain ⟨text, ht, rfl⟩ := Option.map_eq_some_iff.1 h
    exact Notes.byte _ (notes_noteIndex ht)
  -- What is nested has the whole bound but for the byte of the tag.
  | .nested mark, fits, h, hd =>
    have hlength : mark.bytes.length ≤ depth := Nat.le_of_succ_le_succ hd
    exact Notes.byte _ (mark.notes fits h hlength)
  | .array values, ⟨hcount, fits⟩, h, hd =>
    have hlength : (Value.allBytes values).length ≤ depth := by
      simp only [Value.bytes, List.length_append, List.length_cons] at hd
      omega
    refine Notes.byte _ (Notes.reading (.count hcount) ?_)
    rw [UInt16.toNat_ofNat_of_lt' hcount]
    exact Value.notes_all values fits h hlength

/-- An annotation is read back as its descriptors. -/
theorem Mark.notes {found : List String} {depth : Nat} (m : Mark) (fits : m.Fits)
    (h : m.descriptors? entries = some found) (hd : m.bytes.length ≤ depth) :
    Notes (markWith (poolOf entries) (elementValueWithin (poolOf entries) depth)) m.bytes found := by
  match m, fits, h, hd with
  | .mk type pairs, ⟨hcount, fits⟩, h, hd =>
    obtain ⟨first, hfirst, h⟩ := Option.bind_eq_some_iff.1 h
    obtain ⟨more, hmore, h⟩ := Option.bind_eq_some_iff.1 h
    obtain rfl : first :: more = found := Option.some.inj h
    have hlength : (Pair.allBytes pairs).length ≤ depth := by
      simp only [Mark.bytes, List.length_append] at hd
      omega
    have hpairs := Pair.notes_all pairs fits hmore hlength
    rw [Mark.bytes, List.append_assoc]
    refine (notes_noteIndex hfirst).andThen (Notes.reading (.count hcount) ?_)
    rwa [UInt16.toNat_ofNat_of_lt' hcount]

/-- Named values in a row are read back as their descriptors. -/
theorem Pair.notes_all {found : List String} {depth : Nat} (pairs : List Pair)
    (fits : Pair.AllFit pairs)
    (h : Pair.allDescriptors? entries pairs = some found)
    (hd : (Pair.allBytes pairs).length ≤ depth) :
    Notes (Noting.times pairs.length
      (.reading Reader.u2 fun _ => elementValueWithin (poolOf entries) depth))
      (Pair.allBytes pairs) found := by
  match pairs, fits, h, hd with
  | [], _, h, _ =>
    obtain rfl : [] = found := Option.some.inj h
    exact .done
  | .mk name value :: more, ⟨hfirst, hrest⟩, h, hd =>
    obtain ⟨first, hvalue, h⟩ := Option.bind_eq_some_iff.1 h
    obtain ⟨rest, hmore, h⟩ := Option.bind_eq_some_iff.1 h
    obtain rfl : first ++ rest = found := Option.some.inj h
    simp only [Pair.allBytes, Pair.bytes, List.length_append] at hd
    exact (Notes.reading (.u2 name) (value.notes hfirst hvalue (by omega))).andThen
      (Pair.notes_all more hrest hmore (by omega))

/-- Element values in a row are read back as their descriptors. -/
theorem Value.notes_all {found : List String} {depth : Nat} (values : List Value)
    (fits : Value.AllFit values)
    (h : Value.allDescriptors? entries values = some found)
    (hd : (Value.allBytes values).length ≤ depth) :
    Notes (Noting.times values.length (elementValueWithin (poolOf entries) depth))
      (Value.allBytes values) found := by
  match values, fits, h, hd with
  | [], _, h, _ =>
    obtain rfl : [] = found := Option.some.inj h
    exact .done
  | v :: more, ⟨hfirst, hrest⟩, h, hd =>
    obtain ⟨first, hvalue, h⟩ := Option.bind_eq_some_iff.1 h
    obtain ⟨rest, hmore, h⟩ := Option.bind_eq_some_iff.1 h
    obtain rfl : first ++ rest = found := Option.some.inj h
    simp only [Value.allBytes, List.length_append] at hd
    exact (v.notes hfirst hvalue (by omega)).andThen
      (Value.notes_all more hrest hmore (by omega))

end

/-! ## The bound that a read carries -/

variable {found : List String}

theorem notes_elementValue {v : Value} (fits : v.Fits) (h : v.descriptors? entries = some found) :
    Notes (elementValue (poolOf entries)) v.bytes found := by
  intro rest
  exact v.notes fits h (by simp) rest

theorem notes_mark {m : Mark} (fits : m.Fits) (h : m.descriptors? entries = some found) :
    Notes (mark (poolOf entries)) m.bytes found := by
  intro rest
  exact m.notes fits h (by simp) rest

/-- Annotations in a row are read back as the descriptors of all of them. -/
theorem notes_marks {list : List Mark} (hcount : list.length < countLimit)
    (fits : ∀ m ∈ list, m.Fits) (h : marks? entries list = some found) :
    Notes (marks (poolOf entries)) (counted Mark.bytes list) found := by
  obtain ⟨rows, hrows, rfl⟩ := Option.map_eq_some_iff.1 h
  refine Notes.reading (.count hcount) ?_
  rw [UInt16.toNat_ofNat_of_lt' hcount]
  exact .times hrows fun m hm _ => notes_mark (fits m hm)

/-- The rows of annotations of some parameters, of which there are at most 255. -/
theorem notes_parameterMarks {lists : List (List Mark)} {rows : List (List String)}
    (hcount : lists.length < 256)
    (fits : ∀ list ∈ lists, list.length < countLimit ∧ ∀ m ∈ list, m.Fits)
    (h : lists.mapM (marks? entries) = some rows) :
    Notes (parameterMarks (poolOf entries))
      (UInt8.ofNat lists.length :: lists.flatMap (counted Mark.bytes)) rows.flatten := by
  refine Notes.byte _ ?_
  rw [UInt8.toNat_ofNat_of_lt' hcount]
  exact .times h fun list hl _ => notes_marks (fits list hl).1 (fits list hl).2

end JarGraph.ClassFile.Description
