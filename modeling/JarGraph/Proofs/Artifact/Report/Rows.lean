import JarGraph.Artifact.Report.Reading
import JarGraph.Proofs.Markup.Reading
/-!
# The lines of a report as elements

A report is written line by line, and its lines are rows of elements: an
element that holds a text is a line of its own (`isRows_element`), and an
element that holds others is the lines of these between the lines of its
two tags (`exists_block`). The indents and line ends are blank texts
between the elements, which `parts` leaves out.
-/

namespace JarGraph.Artifact.Report

open Markup

variable {tag : String} {items : List Item} {rows : List Char} {depth : Nat}

/-! ## Escaped text -/

/-- An escaped character is the reference to an entity, or the character where it needs none. -/
theorem escapeChar_cases (c : Char) :
    (∃ name, (name, c) ∈ entities ∧ escapeChar c = '&' :: (name ++ [';'])) ∨
      (c ∉ ['<', '>', '&', '"'] ∧ escapeChar c = [c]) := by
  by_cases hc : c ∈ ['&', '<', '>', '"', '\'']
  · left
    simp only [List.mem_cons, List.not_mem_nil, or_false] at hc
    rcases hc with rfl | rfl | rfl | rfl | rfl
    · exact ⟨"amp".toList, by decide, rfl⟩
    · exact ⟨"lt".toList, by decide, rfl⟩
    · exact ⟨"gt".toList, by decide, rfl⟩
    · exact ⟨"quot".toList, by decide, rfl⟩
    · exact ⟨"apos".toList, by decide, rfl⟩
  · right
    simp only [List.mem_cons, List.not_mem_nil, or_false, not_or] at hc ⊢
    obtain ⟨hamp, hlt, hgt, hquot, hapos⟩ := hc
    refine ⟨⟨hlt, hgt, hamp, hquot⟩, ?_⟩
    rw [escapeChar, if_neg hamp, if_neg hlt, if_neg hgt, if_neg hquot, if_neg hapos]

theorem spells_escapeChar {c : Char} (hc : IsCharacter c) (hinline : c ∉ ['\t', '\n', '\r']) :
    Spells (escapeChar c) [c] ∧ ∀ d ∈ ['"', '\t', '\n'], d ∉ escapeChar c := by
  rcases escapeChar_cases c with ⟨name, hname, heq⟩ | ⟨hmarkup, heq⟩
  · rw [heq]
    refine ⟨.entity hname .nil, fun d hd hmem => ?_⟩
    rcases List.mem_cons.1 hmem with rfl | hmem
    · exact absurd hd (by decide)
    · rcases List.mem_append.1 hmem with hmem | hmem
      · have hfree := ((entities_spec hname).2 d hmem).2
        exact hfree (List.mem_append_right ['<', '>', '&', ';'] hd)
      · rw [List.mem_singleton.1 hmem] at hd
        exact absurd hd (by decide)
  · rw [heq]
    simp only [List.mem_cons, List.not_mem_nil, or_false, not_or] at hinline hmarkup
    refine ⟨.plain hc ?_ .nil, ?_⟩
    · simp [hmarkup, hinline]
    · simp [Ne.symm hmarkup.2.2.2, Ne.symm hinline.1, Ne.symm hinline.2.1]

/-- **An escaped text spells the text**, and holds nothing that could end a value or be read as
another character there. -/
theorem spells_escape {s : String} (hs : IsInline s) :
    Spells (escape s).toList s.toList ∧ ∀ d ∈ ['"', '\t', '\n'], d ∉ (escape s).toList := by
  unfold IsInline at hs
  rw [escape, String.toList_ofList]
  generalize s.toList = text at hs ⊢
  induction text with
  | nil => exact ⟨.nil, fun _ _ => List.not_mem_nil⟩
  | cons c text ih =>
    obtain ⟨⟨hc, hinline⟩, htext⟩ := List.forall_mem_cons.1 hs
    obtain ⟨hspells, hfree⟩ := ih htext
    obtain ⟨hspellsChar, hfreeChar⟩ := spells_escapeChar hc hinline
    rw [List.flatMap_cons]
    refine ⟨?_, fun d hd hmem => ?_⟩
    · exact hspellsChar.append hspells
    · exact (List.mem_append.1 hmem).elim (hfreeChar d hd) (hfree d hd)

/-! ## Rows -/

/-- The spaces in front of a line. -/
def indent (depth : Nat) : List Char :=
  (String.join (List.replicate depth "  ")).toList

theorem eq_space_of_mem_indent {c : Char} (h : c ∈ indent depth) : c = ' ' := by
  rw [indent, String.toList_join, List.mem_flatMap] at h
  obtain ⟨s, hs, hc⟩ := h
  rw [List.eq_of_mem_replicate hs] at hc
  simpa using hc

theorem toList_line (depth : Nat) (text : String) :
    (line depth text).toList = indent depth ++ (text.toList ++ ['\n']) := by
  simp [line, indent]

/-- Elements, each on lines of its own. -/
inductive IsRows : List Item → List Char → Prop
  | nil : IsRows [] []
  | cons {item : Item} {items : List Item} {chars rest : List Char} (depth : Nat)
      (hitem : IsElement item chars) (h : IsRows items rest) :
      IsRows (item :: items) (indent depth ++ (chars ++ '\n' :: rest))

theorem IsRows.append {items' : List Item} {rows' : List Char} (h : IsRows items rows)
    (h' : IsRows items' rows') : IsRows (items ++ items') (rows ++ rows') := by
  induction h with
  | nil => exact h'
  | cons depth hitem _ ih =>
    have hrows := IsRows.cons depth hitem ih
    simpa using hrows

theorem isRows_line {item : Item} {text : String} (h : IsElement item text.toList) :
    IsRows [item] (line depth text).toList := by
  rw [toList_line]
  exact .cons depth h .nil

/-- What each of some values has, row by row, a list of them has together. -/
theorem exists_rows {α β : Type} {read : Item → Option β} {f : α → β} {print : α → String}
    {l : List α}
    (h : ∀ a ∈ l, ∃ item, read item = some (f a) ∧ IsRows [item] (print a).toList) :
    ∃ items, items.mapM read = some (l.map f) ∧
      IsRows items (String.join (l.map print)).toList := by
  induction l with
  | nil => exact ⟨[], rfl, .nil⟩
  | cons a l ih =>
    obtain ⟨⟨item, hread, hrow⟩, hl⟩ := List.forall_mem_cons.1 h
    obtain ⟨items, hreads, hrows⟩ := ih hl
    refine ⟨item :: items, ?_, ?_⟩
    · simp [hread, hreads]
    · rw [List.map_cons, String.join_cons, String.toList_append]
      exact hrow.append hrows

/-! ## Elements of a report -/

/-- The element that holds a text. -/
def leaf (tag text : String) : Item :=
  .element tag [] (textItems text.toList)

theorem leaf?_leaf (tag text : String) : leaf? tag (leaf tag text) = some text := by
  unfold leaf textItems
  split
  · rename_i h
    rw [leaf?, if_pos rfl, String.toList_eq_nil_iff.1 h]
  · rw [leaf?, if_pos rfl, String.ofList_toList]

theorem isRows_element {text : String} (depth : Nat) (htag : IsName tag) (htext : IsInline text) :
    IsRows [leaf tag text] (element depth tag text).toList := by
  have hcontent : IsContent (textItems text.toList) (escape text).toList :=
    .text (spells_escape htext).1
  refine isRows_line ?_
  have helement := IsElement.nested htag .nil hcontent
  simpa [leaf] using helement

/-- Blanks around the rows of some elements are no parts of the content that they make. -/
theorem exists_content (h : IsRows items rows) (front back : List Char)
    (hfront : ∀ c ∈ front, c = ' ' ∨ c = '\n') (hback : ∀ c ∈ back, c = ' ' ∨ c = '\n') :
    ∃ children, IsContent children (front ++ (rows ++ back)) ∧ parts children = items := by
  have spells : ∀ {blanks : List Char}, (∀ c ∈ blanks, c = ' ' ∨ c = '\n') →
      Spells blanks blanks := by
    intro blanks hblanks
    refine Spells.self fun c hc => ?_
    rcases hblanks c hc with rfl | rfl <;> decide
  have idle : ∀ {blanks : List Char} (more : List Item), (∀ c ∈ blanks, c = ' ' ∨ c = '\n') →
      parts (textItems blanks ++ more) = parts more := by
    intro blanks more hblanks
    have hblank : blanks.all Text.isBlank = true := by
      refine List.all_eq_true.2 fun c hc => ?_
      rcases hblanks c hc with rfl | rfl <;> decide
    unfold textItems
    split <;> simp [parts, hblank]
  induction h generalizing front with
  | nil =>
    have hboth : ∀ c ∈ front ++ back, c = ' ' ∨ c = '\n' :=
      List.forall_mem_append.2 ⟨hfront, hback⟩
    refine ⟨textItems (front ++ back), .text (spells hboth), ?_⟩
    rw [← List.append_nil (textItems _), idle [] hboth]
    rfl
  | @cons item items chars rest depth hitem _ ih =>
    have hindent : ∀ c ∈ front ++ indent depth, c = ' ' ∨ c = '\n' :=
      List.forall_mem_append.2 ⟨hfront, fun c hc => .inl (eq_space_of_mem_indent hc)⟩
    -- The line end of a row stands in front of the next indent, in one text with it.
    obtain ⟨children, hchildren, hparts⟩ := ih ['\n'] (by simp)
    refine ⟨textItems (front ++ indent depth) ++ item :: children, ?_, ?_⟩
    · have hcontent := IsContent.element (spells hindent) hitem hchildren
      simpa using hcontent
    · rw [idle _ hindent]
      cases hitem <;> simpa [parts] using hparts

/-- An element around the rows of others has these for its parts. -/
theorem exists_element {attributes : List (String × String)} {inside : List Char} (depth : Nat)
    (htag : IsName tag) (hattributes : IsAttributes attributes inside) (h : IsRows items rows) :
    ∃ children, parts children = items ∧
      IsElement (.element tag attributes children)
        ("<" ++ tag ++ String.ofList inside ++ ">\n" ++ String.ofList (rows ++ indent depth) ++
          "</" ++ tag ++ ">").toList := by
  have hback : ∀ c ∈ indent depth, c = ' ' ∨ c = '\n' := fun c hc =>
    .inl (eq_space_of_mem_indent hc)
  obtain ⟨children, hchildren, hparts⟩ := exists_content h ['\n'] _ (by simp) hback
  refine ⟨children, hparts, ?_⟩
  have helement := IsElement.nested htag hattributes hchildren
  simpa using helement

/-- **An element around others** is the lines of these between the lines of its tags. -/
theorem exists_block {attributes : List (String × String)} {inside : List Char} (depth : Nat)
    (htag : IsName tag) (hattributes : IsAttributes attributes inside) (h : IsRows items rows) :
    ∃ children, parts children = items ∧
      IsRows [.element tag attributes children]
        ((line depth ("<" ++ tag ++ String.ofList inside ++ ">")).toList ++
          (rows ++ (line depth ("</" ++ tag ++ ">")).toList)) := by
  obtain ⟨children, hparts, helement⟩ := exists_element depth htag hattributes h
  refine ⟨children, hparts, ?_⟩
  have hrow := IsRows.cons depth helement .nil
  rw [toList_line, toList_line]
  simpa using hrow

end JarGraph.Artifact.Report
