import JarGraph.Artifact.Manifest.Writing
import JarGraph.Proofs.Artifact.Manifest.Occurrences
import JarGraph.Proofs.Text.Blank
/-!
# Manifests read after writing

A manifest that is written with distinct names gives each of them a value
and no other name one, wherever the values are cut into lines
(`lookup_written`). The value is the one that was written, except for
blanks before the first cut: the line of the name is trimmed and the lines
that go on with it are not, so that a value which is cut right after a
blank loses the blank (`exists_wrapped_apart`).
-/

namespace JarGraph.Artifact.Manifest

variable {w : Wrapped} {all : List Wrapped} {rest : List (List Char)} {line text : List Char}

/-! ## Lines that are written one by one -/

/-- A line that does not end in a carriage return itself is read as it was written. -/
theorem lines_ended (ending : LineEnd) (hfeed : '\n' ∉ line) (hlast : line.getLast? ≠ some '\r') :
    Text.lines (line ++ ending.chars ++ text) = line :: Text.lines text := by
  rw [List.append_assoc]
  cases ending with
  | feed =>
    have hline : Text.lines (line ++ '\n' :: text) = Text.dropReturn line :: Text.lines text :=
      Text.lines_append hfeed
    rw [Text.dropReturn_eq_self hlast] at hline
    exact hline
  | returnAndFeed =>
    have hboth : '\n' ∉ line ++ ['\r'] := by simp [hfeed]
    have hline : Text.lines ((line ++ ['\r']) ++ '\n' :: text) =
        Text.dropReturn (line ++ ['\r']) :: Text.lines text :=
      Text.lines_append hboth
    rw [Text.dropReturn_concat, List.append_assoc] at hline
    exact hline

/-- What follows a blank in a line ends the line without a carriage return if it has none. -/
theorem getLast?_after_blank (before : List Char) {piece : List Char} (h : '\r' ∉ piece) :
    (before ++ ' ' :: piece).getLast? ≠ some '\r' := by
  intro hlast
  rw [List.getLast?_append, List.getLast?_cons, Option.some_or, Option.some.injEq] at hlast
  cases hpiece : piece.getLast? with
  | none =>
    rw [hpiece] at hlast
    revert hlast
    decide
  | some c =>
    rw [hpiece, Option.getD_some] at hlast
    exact h (hlast ▸ List.mem_of_getLast? hpiece)

namespace Wrapped

/-- An attribute that a manifest can hold: the name goes up to the first colon and is not taken for
the end of another value, neither it nor the value spans lines, and no blank starts or ends the
value. -/
structure WellFormed (w : Wrapped) : Prop where
  name_colon : ':' ∉ w.name
  name_space : w.name.head? ≠ some ' '
  name_line : '\n' ∉ w.name
  value_line : '\n' ∉ w.value ∧ '\r' ∉ w.value
  value_trim : Text.trim w.value = w.value

/-- The line of the name and the lines that go on with it. -/
def lines (w : Wrapped) : List (List Char) :=
  (w.name ++ ':' :: ' ' :: w.first.1) :: w.more.map fun piece => ' ' :: piece.1

/-- The place at which the attribute stands. -/
def occurrence (w : Wrapped) : Occurrence :=
  ⟨w.first.1, w.more.map Prod.fst⟩

/-- The characters of the lines that go on with a value. -/
def moreChars (more : List (List Char × LineEnd)) : List Char :=
  more.flatMap fun piece => ' ' :: piece.1 ++ piece.2.chars

theorem lines_more {more : List (List Char × LineEnd)}
    (hmore : ∀ piece ∈ more, '\n' ∉ piece.1 ∧ '\r' ∉ piece.1) :
    Text.lines (moreChars more ++ text) =
      (more.map fun piece => ' ' :: piece.1) ++ Text.lines text := by
  induction more with
  | nil => rfl
  | cons piece more ih =>
    obtain ⟨⟨hfeed, hreturn⟩, hrest⟩ := List.forall_mem_cons.1 hmore
    have hline : Text.lines (' ' :: piece.1 ++ piece.2.chars ++ (moreChars more ++ text)) =
        (' ' :: piece.1) :: Text.lines (moreChars more ++ text) :=
      lines_ended piece.2 (by simp [hfeed]) (getLast?_after_blank [] hreturn)
    rw [moreChars, List.flatMap_cons, List.append_assoc, ← moreChars, hline, ih hrest]
    rfl

theorem WellFormed.pieces (h : w.WellFormed) :
    ('\n' ∉ w.first.1 ∧ '\r' ∉ w.first.1) ∧
      ∀ piece ∈ w.more, '\n' ∉ piece.1 ∧ '\r' ∉ piece.1 := by
  have hvalue := h.value_line
  simp only [value, List.mem_append, List.mem_flatMap, not_or, not_exists, not_and] at hvalue
  obtain ⟨⟨hfeed, hfeeds⟩, hreturn, hreturns⟩ := hvalue
  exact ⟨⟨hfeed, hreturn⟩, fun piece hpiece => ⟨hfeeds piece hpiece, hreturns piece hpiece⟩⟩

theorem lines_chars (h : w.WellFormed) :
    Text.lines (w.chars ++ text) = w.lines ++ Text.lines text := by
  obtain ⟨⟨hfeed, hreturn⟩, hmore⟩ := h.pieces
  have hline : Text.lines ((w.name ++ ':' :: ' ' :: w.first.1) ++ w.first.2.chars ++
      (moreChars w.more ++ text)) =
        (w.name ++ ':' :: ' ' :: w.first.1) :: Text.lines (moreChars w.more ++ text) := by
    refine lines_ended w.first.2 (by simp [h.name_line, hfeed]) ?_
    simpa using getLast?_after_blank (w.name ++ [':']) hreturn
  rw [lines_more hmore] at hline
  rw [lines, List.cons_append, ← hline, chars, moreChars]
  simp only [List.append_assoc, List.cons_append, List.nil_append]

end Wrapped

/-- **The lines of a written manifest** are those of its attributes. -/
theorem lines_written (hall : ∀ w ∈ all, w.WellFormed) :
    Text.lines (written all).toList = all.flatMap Wrapped.lines := by
  rw [written, String.toList_ofList]
  induction all with
  | nil => rfl
  | cons w all ih =>
    obtain ⟨hw, hrest⟩ := List.forall_mem_cons.1 hall
    rw [List.flatMap_cons, List.flatMap_cons, Wrapped.lines_chars hw, ih hrest]

/-! ## Where the attributes stand -/

theorem attribute?_written {name value : List Char} (h : ':' ∉ name) :
    attribute? (name ++ ':' :: ' ' :: value) = some (name, value) := by
  induction name with
  | nil => rfl
  | cons c name ih =>
    obtain ⟨hc, hname⟩ := not_or.1 (mt List.mem_cons.2 h)
    rw [List.cons_append, attribute?, ih hname, Option.map_some]
    exact fun rest heq => absurd heq.symm hc

theorem head?_lines (h : w.WellFormed) (value : List Char) :
    (w.name ++ ':' :: ' ' :: value).head? ≠ some ' ' := by
  cases hname : w.name with
  | nil => simp
  | cons c name =>
    have hspace := h.name_space
    rw [hname] at hspace
    exact hspace

theorem continuations_more (more : List (List Char × LineEnd)) :
    continuations ((more.map fun piece => ' ' :: piece.1) ++ rest) =
      more.map Prod.fst ++ continuations rest := by
  induction more with
  | nil => rfl
  | cons piece more ih => rw [List.map_cons, List.cons_append, continuations, ih]; rfl

theorem occurrences_more (name : String) (more : List (List Char × LineEnd)) :
    occurrences name ((more.map fun piece => ' ' :: piece.1) ++ rest) = occurrences name rest := by
  induction more with
  | nil => rfl
  | cons piece more ih => rw [List.map_cons, List.cons_append, occurrences_of_none rfl, ih]

/-- No line of an attribute goes on with the attribute before it. -/
theorem continuations_lines (hall : ∀ w ∈ all, w.WellFormed) :
    continuations (all.flatMap Wrapped.lines) = [] := by
  cases all with
  | nil => rfl
  | cons w all =>
    have hw := hall w List.mem_cons_self
    rw [List.flatMap_cons, Wrapped.lines, List.cons_append]
    exact continuations_of_ne (head?_lines hw w.first.1)

/-- **A name stands where an attribute of this name was written**, with the pieces of its value. -/
theorem occurrences_lines (name : String) (hall : ∀ w ∈ all, w.WellFormed) :
    occurrences name (all.flatMap Wrapped.lines) =
      (all.filter fun w => String.ofList w.name = name).map Wrapped.occurrence := by
  induction all with
  | nil => rfl
  | cons w all ih =>
    obtain ⟨hw, hrest⟩ := List.forall_mem_cons.1 hall
    have hnaming : naming? (w.name ++ ':' :: ' ' :: w.first.1) =
        some (String.ofList w.name, w.first.1) := by
      rw [naming?_of_ne (head?_lines hw w.first.1), attribute?_written hw.name_colon,
        Option.map_some]
    rw [List.flatMap_cons, Wrapped.lines, List.cons_append, occurrences_of_naming hnaming,
      continuations_more, continuations_lines hrest, occurrences_more, ih hrest, List.append_nil,
      List.filter_cons]
    by_cases hname : String.ofList w.name = name <;> simp [hname, Wrapped.occurrence]

theorem filter_name (hnames : (all.map Wrapped.name).Nodup) (hw : w ∈ all) :
    (all.filter fun v => String.ofList v.name = String.ofList w.name) = [w] := by
  induction all with
  | nil => exact nomatch hw
  | cons v all ih =>
    obtain ⟨hnew, hrest⟩ := List.nodup_cons.1 hnames
    rw [List.filter_cons]
    rcases List.mem_cons.1 hw with rfl | hw
    · have hnone : (all.filter fun v => String.ofList v.name = String.ofList w.name) = [] := by
        refine List.filter_eq_nil_iff.2 fun u hu heq => hnew ?_
        rw [← String.ofList_injective (of_decide_eq_true heq)]
        exact List.mem_map_of_mem hu
      rw [hnone]
      simp
    · have hother : ¬ String.ofList v.name = String.ofList w.name := by
        intro heq
        rw [String.ofList_injective heq] at hnew
        exact hnew (List.mem_map_of_mem hw)
      rw [ih hrest hw, decide_eq_false hother]
      simp

/-! ## What is read -/

namespace Wrapped

/-- The value that is read of an attribute. -/
def reading (w : Wrapped) : List Char :=
  Text.trimEnd w.first.1 ++ w.more.flatMap Prod.fst

/-- The first piece of a value starts with no blank, as the value does. -/
theorem WellFormed.text_occurrence (h : w.WellFormed) : w.occurrence.text = w.reading := by
  have hvalue := Text.trimStart_eq_self_iff.1 (Text.trimStart_of_trim h.value_trim)
  have hfirst : Text.trimStart w.first.1 = w.first.1 := by
    refine Text.trimStart_eq_self_iff.2 fun c hc => hvalue c ?_
    rw [value, List.head?_append, hc, Option.some_or]
  rw [Occurrence.text, reading, Text.trim]
  dsimp only [occurrence]
  rw [hfirst, List.flatMap_def]

/-- Only blanks before the first cut are lost. -/
theorem reading_eq_value_iff :
    w.reading = w.value ↔ ∀ c, w.first.1.getLast? = some c → Text.isBlank c = false := by
  rw [reading, value, List.append_left_inj, Text.trimEnd_eq_self_iff]

end Wrapped

/-- **A written manifest gives each name its value** exactly where the first cut of the value does
not stand right after a blank, and it gives no other name one. -/
theorem lookup_written (hnames : (all.map Wrapped.name).Nodup) (hall : ∀ w ∈ all, w.WellFormed) :
    (∀ w ∈ all,
      (parse (written all)).lookup (String.ofList w.name) = some (String.ofList w.reading) ∧
        ((parse (written all)).lookup (String.ofList w.name) = some (String.ofList w.value) ↔
          ∀ c, w.first.1.getLast? = some c → Text.isBlank c = false)) ∧
      ∀ name, (∀ w ∈ all, String.ofList w.name ≠ name) →
        (parse (written all)).lookup name = none := by
  have hplaces : ∀ name, occurrencesIn name (written all) =
      (all.filter fun w => String.ofList w.name = name).map Wrapped.occurrence := by
    intro name
    rw [occurrencesIn, lines_written hall, occurrences_lines name hall]
  constructor
  · intro w hw
    have hread : (parse (written all)).lookup (String.ofList w.name) =
        some (String.ofList w.reading) := by
      rw [lookup_parse, hplaces, filter_name hnames hw, List.map_singleton, gathered,
        (hall w hw).text_occurrence]
      simp
    refine ⟨hread, ?_⟩
    rw [hread, ← Wrapped.reading_eq_value_iff, Option.some.injEq]
    exact ⟨fun heq => String.ofList_injective heq, fun heq => congrArg String.ofList heq⟩
  · intro name hname
    have hnone : (all.filter fun w => String.ofList w.name = name) = [] :=
      List.filter_eq_nil_iff.2 fun w hw heq => hname w hw (of_decide_eq_true heq)
    rw [lookup_parse, hplaces, hnone]
    rfl

/-- Two attributes, of which one value is cut right after the colon and before a blank. -/
def vendored : List Wrapped :=
  [⟨"Vendor".toList, ([], .feed), [("com.acme".toList, .returnAndFeed), (" labs".toList, .feed)]⟩,
    ⟨"Title".toList, ("a tool".toList, .returnAndFeed), []⟩]

theorem wellFormed_vendored : ∀ w ∈ vendored, w.WellFormed := by
  refine List.forall_mem_cons.2 ⟨?_, List.forall_mem_singleton.2 ?_⟩
  · constructor <;> decide +kernel
  · constructor <;> decide +kernel

theorem lookup_written_vendored :
    (parse (written vendored)).lookup "Vendor" = some "com.acme labs" ∧
      (parse (written vendored)).lookup "Title" = some "a tool" ∧
      (parse (written vendored)).lookup "Version" = none := by
  obtain ⟨hgiven, hother⟩ := lookup_written (by decide +kernel) wellFormed_vendored
  have hvendor := (hgiven _ List.mem_cons_self).2.2 fun c hlast => nomatch hlast
  have htitle := (hgiven _ (List.mem_cons_of_mem _ List.mem_cons_self)).2.2 (by
    intro c hlast
    obtain rfl : 'l' = c := Option.some.inj hlast
    decide)
  refine ⟨hvendor.trans ?_, htitle.trans ?_, hother _ (by decide +kernel)⟩
  · decide +kernel
  · decide +kernel

/-- **A value that is cut right after a blank is read without the blank.** -/
theorem exists_wrapped_apart :
    ¬ ∀ all : List Wrapped, (all.map Wrapped.name).Nodup → (∀ w ∈ all, w.WellFormed) →
      ∀ w ∈ all,
        (parse (written all)).lookup (String.ofList w.name) = some (String.ofList w.value) := by
  intro always
  have hwrapped : ∀ w ∈ [⟨"Vendor".toList, ("a ".toList, .feed), [("b".toList, .feed)]⟩],
      Wrapped.WellFormed w := by
    refine List.forall_mem_singleton.2 ?_
    constructor <;> decide +kernel
  have hread := always _ (by decide +kernel) hwrapped _ List.mem_cons_self
  revert hread
  decide +kernel

end JarGraph.Artifact.Manifest
