import JarGraph.ClassFile.Description.Meaning
import JarGraph.Proofs.ClassFile.ModifiedUtf8
import JarGraph.Proofs.ClassFile.Reads
/-!
# The pool of a description

The constants that reading makes of the entries of a description
(`poolOf`), and what its look-ups answer: what the description finds at
an index, the pool finds there too, so that the look-ups of a read never
fail where the description has a meaning. Both walk the same row of
slots, in which a wide entry stands twice.
-/

namespace JarGraph.ClassFile.Description

variable {entries : List Entry} {index : UInt16} {e : Entry}

/-- The constant that reading makes of an entry. -/
def Entry.constant : Entry → Constant
  | utf8 data => .utf8 ((text? (utf8 data)).getD "")
  | integer _ => .other .number
  | float _ => .other .number
  | long _ => .other .wide
  | double _ => .other .wide
  | classEntry name => .classEntry name
  | string _ => .other .named
  | fieldReference _ _ => .other .memberReference
  | methodReference _ _ => .other .memberReference
  | interfaceMethodReference _ _ => .other .memberReference
  | nameAndType _ descriptor => .nameAndType descriptor
  | methodHandle _ _ => .other .methodHandle
  | methodType descriptor => .methodType descriptor
  | dynamic _ _ => .other .dynamic
  | invokeDynamic _ _ => .other .dynamic
  | moduleEntry _ => .other .named
  | packageEntry _ => .other .named

/-- The constants of a row of entries, one for each index. -/
def constants (entries : List Entry) : List Constant :=
  (slots entries).map fun slot => slot.elim (.other .wide) Entry.constant

/-- The pool that reading makes of a row of entries. -/
def poolOf (entries : List Entry) : Pool :=
  ⟨constants entries⟩

theorem constants_cons (e : Entry) (more : List Entry) :
    constants (e :: more) =
      if e.isWide then .other .wide :: .other .wide :: constants more
      else e.constant :: constants more := by
  unfold constants
  rw [slots]
  split <;> rfl

/-- An entry is wide where its constant is, and nowhere else. -/
theorem constant_eq_wide : e.constant = .other .wide ↔ e.isWide = true := by
  cases e <;> simp [Entry.constant, Entry.isWide]

/-! ## Look-ups -/

/-- **What the description finds at an index, the pool finds there.** -/
theorem entry_poolOf (h : entryAt? entries index = some e) :
    (poolOf entries).entry index = .ok e.constant := by
  unfold entryAt? at h
  split at h
  · cases h
  rename_i hne
  obtain ⟨n, hn⟩ : ∃ n, index.toNat = n + 1 :=
    Nat.exists_eq_succ_of_ne_zero fun h0 => hne (UInt16.toNat_inj.1 h0)
  rw [hn, Nat.add_sub_cancel, Option.join_eq_some_iff] at h
  simp only [Pool.entry, hn, poolOf, constants, List.getElem?_map, h, Option.map_some,
    Option.elim_some]

theorem utf8_poolOf {text : String} (h : textAt? entries index = some text) :
    (poolOf entries).utf8 index = .ok text := by
  obtain ⟨e, he, ht⟩ := Option.bind_eq_some_iff.1 h
  cases e with
  | utf8 data =>
    have : Entry.constant (.utf8 data) = .utf8 text := by rw [Entry.constant, ht, Option.getD_some]
    rw [Pool.utf8, entry_poolOf he, this]
    rfl
  | _ => cases ht

theorem className_poolOf {name : String} (h : classAt? entries index = some name) :
    (poolOf entries).className index = .ok name := by
  unfold classAt? at h
  split at h
  · rename_i i he
    rw [Pool.className, entry_poolOf he]
    exact utf8_poolOf h
  · cases h

theorem className?_poolOf {name : Option String} (h : optionalClassAt? entries index = some name) :
    (poolOf entries).className? index = .ok name := by
  unfold optionalClassAt? at h
  split at h
  · subst index
    cases h
    rfl
  · rename_i hne
    obtain ⟨found, hfound, rfl⟩ := Option.map_eq_some_iff.1 h
    have : index.toNat ≠ 0 := fun h0 => hne (UInt16.toNat_inj.1 h0)
    rw [Pool.className?, if_neg this, className_poolOf hfound]
    rfl

/-! ## The names that the pool holds -/

theorem reference?_poolOf {name : Option Pool.Reference}
    (h : e.reference? entries = some name) :
    (poolOf entries).reference? e.constant = .ok name := by
  cases e with
  | classEntry i | nameAndType _ i | methodType i =>
    obtain ⟨text, ht, rfl⟩ := Option.map_eq_some_iff.1 h
    rw [Entry.constant, Pool.reference?, utf8_poolOf ht]
    rfl
  | utf8 data =>
    obtain ⟨text, -, rfl⟩ := Option.map_eq_some_iff.1 h
    rfl
  | _ =>
    cases h
    rfl

/-- A wide entry holds no name. -/
theorem reference?_of_isWide (h : e.isWide = true) : e.reference? entries = some none := by
  cases e <;> first | rfl | cases h

/-- The names of a row of entries, with look-ups in a pool around them. -/
theorem references_go_constants {row : List Entry} {names : List (Option Pool.Reference)}
    (h : row.mapM (Entry.reference? entries) = some names) :
    Pool.references.go (poolOf entries) (constants row) = .ok names.reduceOption := by
  induction row generalizing names with
  | nil =>
    obtain rfl : [] = names := by simpa using h
    rfl
  | cons e row ih =>
    obtain ⟨name, more, hname, hmore, rfl⟩ := mapM_cons_eq_some.1 h
    rw [constants_cons]
    split
    · rename_i wide
      obtain rfl : none = name := by simpa [reference?_of_isWide wide] using hname
      simp only [Pool.references.go, Pool.reference?, ih hmore]
      rfl
    · simp only [Pool.references.go, reference?_poolOf hname, ih hmore]
      cases name <;> rfl

theorem references_poolOf {names : List (Option Pool.Reference)}
    (h : entries.mapM (Entry.reference? entries) = some names) :
    (poolOf entries).references = .ok names.reduceOption :=
  references_go_constants h

/-! ## Reading the pool -/

/-- **Each entry is read back as its constant**, a text if its bytes decode. -/
theorem reads_readEntry {name : Option Pool.Reference} (fits : e.Fits)
    (meaning : e.reference? entries = some name) :
    Reads Pool.readEntry e.bytes e.constant := by
  refine Reads.byte e.tag ?_
  cases e with
  | utf8 data =>
    obtain ⟨text, ht, -⟩ := Option.map_eq_some_iff.1 meaning
    have hdecode : ModifiedUtf8.decode data = .ok text := by
      obtain ⟨units, hu, rfl⟩ := Option.map_eq_some_iff.1 ht
      rw [ModifiedUtf8.decode_eq, ModifiedUtf8.decodeGroups, hu]
    have hconstant : Entry.constant (.utf8 data) = .utf8 text := by
      rw [Entry.constant, ht, Option.getD_some]
    rw [hconstant]
    refine (Reads.count fits).bind ?_
    rw [UInt16.toNat_ofNat_of_lt' fits]
    exact (Reads.take rfl).last (.check hdecode (.pure _))
  | classEntry name => exact (Reads.u2 name).last (.pure _)
  | nameAndType name descriptor =>
    exact (Reads.u2 name).bind ((Reads.u2 descriptor).last (.pure _))
  | methodType descriptor => exact (Reads.u2 descriptor).last (.pure _)
  -- The other entries are passed over, each by the length of its body.
  | integer | float | long | double => exact (Reads.skip (by simp [Entry.body])).last (.pure _)
  | string | moduleEntry | packageEntry => exact (Reads.skip (by simp [Entry.body])).last (.pure _)
  | fieldReference | methodReference | interfaceMethodReference | dynamic | invokeDynamic =>
    exact (Reads.skip (by simp [Entry.body])).last (.pure _)
  | methodHandle => exact (Reads.skip (by simp [Entry.body])).last (.pure _)

theorem indexCount_eq (row : List Entry) : indexCount row = (slots row).length + 1 := by
  induction row with
  | nil => rfl
  | cons e row ih =>
    have hcons : indexCount (e :: row) = (if e.isWide then 2 else 1) + indexCount row := rfl
    rw [hcons, ih, slots]
    split <;> simp only [List.length_cons] <;> omega

/-- **A row of entries is read back as its constants.** A wide entry uses up two of the indices that
the count announces, and finds the second one there. -/
theorem reads_readEntries (declared : UInt16) {row : List Entry} (fits : ∀ e ∈ row, e.Fits)
    {names : List (Option Pool.Reference)}
    (meaning : row.mapM (Entry.reference? entries) = some names) :
    Reads (Pool.readEntries declared (slots row).length) (row.flatMap Entry.bytes)
      (constants row) := by
  induction row generalizing names with
  | nil => exact .pure []
  | cons e row ih =>
    obtain ⟨name, more, hname, hmore, -⟩ := mapM_cons_eq_some.1 meaning
    have hfirst := reads_readEntry (fits e List.mem_cons_self) hname
    have hrest := ih (fun e' he' => fits e' (List.mem_cons_of_mem _ he')) hmore
    rw [constants_cons, slots]
    by_cases wide : e.isWide = true
    · have hwide := constant_eq_wide.2 wide
      rw [if_pos wide, if_pos wide, List.length_cons, List.length_cons, Pool.readEntries]
      rw [hwide] at hfirst
      refine hfirst.bind ?_
      rw [if_pos rfl]
      exact hrest.last (.pure _)
    · have hwide : e.constant ≠ .other .wide := fun h => wide (constant_eq_wide.1 h)
      rw [if_neg wide, if_neg wide, List.length_cons, Pool.readEntries]
      refine hfirst.bind ?_
      rw [if_neg hwide]
      exact hrest.last (.pure _)

theorem reads_pool (hcount : indexCount entries < countLimit) (fits : ∀ e ∈ entries, e.Fits)
    {names : List (Option Pool.Reference)}
    (meaning : entries.mapM (Entry.reference? entries) = some names) :
    Reads Pool.read (bigEndian 2 (indexCount entries) ++ entries.flatMap Entry.bytes)
      (poolOf entries) := by
  refine (Reads.count hcount).bind ?_
  rw [UInt16.toNat_ofNat_of_lt' hcount, indexCount_eq, Nat.add_sub_cancel]
  exact (reads_readEntries _ fits meaning).last (.pure _)

end JarGraph.ClassFile.Description
