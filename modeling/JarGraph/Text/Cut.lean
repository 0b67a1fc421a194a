import JarGraph.Text.Blank
/-!
# Cutting text

Cuts of a text at a separator, and the lines of a text. A line ends at a line feed; a carriage
return right before it belongs to the ending, and an ending at the very end of the text opens no
line.
-/

namespace JarGraph.Text

/-- What stands before and after the first character with the property, if there is one. -/
def cutWhere (p : Char → Bool) : List Char → Option (List Char × List Char)
  | [] => none
  | c :: rest =>
    if p c then some ([], rest)
    else (cutWhere p rest).map fun halves => (c :: halves.1, halves.2)

/-- The pieces between separators: one more than there are separators. -/
def pieces (separator : Char) : List Char → List (List Char)
  | [] => [[]]
  | c :: rest =>
    if c = separator then [] :: pieces separator rest
    else
      match pieces separator rest with
      | [] => [[c]]
      | first :: more => (c :: first) :: more

/-- Joins pieces with a separator between them. -/
def join (separator : Char) : List (List Char) → List Char
  | [] => []
  | [piece] => piece
  | piece :: more => piece ++ separator :: join separator more

/-- The rest of the text after a fixed beginning. -/
def dropStart? (start text : List Char) : Option (List Char) :=
  match start, text with
  | [], rest => some rest
  | _ :: _, [] => none
  | c :: start, d :: text => if c = d then dropStart? start text else none

/-- The rest of the text before a fixed ending. -/
def dropEnd? (ending text : List Char) : Option (List Char) :=
  (dropStart? ending.reverse text.reverse).map List.reverse

/-- What stands before and after the last separator, if there is one. -/
def cutLast (separator : Char) (text : List Char) : Option (List Char × List Char) :=
  (cutWhere (· == separator) text.reverse).map fun halves => (halves.2.reverse, halves.1.reverse)

/-- Puts one character in the place of another. -/
def replace (old new : Char) (s : String) : String :=
  String.ofList (s.toList.map fun c => if c = old then new else c)

/-- A line without the carriage return that belongs to its ending. -/
def dropReturn (line : List Char) : List Char :=
  (dropEnd? ['\r'] line).getD line

/-- The lines of a text. Only a line that a line feed ends can lose a carriage return. -/
def lines (text : List Char) : List (List Char) :=
  let parts := pieces '\n' text
  parts.dropLast.map dropReturn ++ (match parts.getLast? with
    | some (c :: rest) => [c :: rest]
    | _ => [])

theorem pieces_ne_nil (separator : Char) (text : List Char) : pieces separator text ≠ [] := by
  cases text with
  | nil => simp [pieces]
  | cons c rest =>
    unfold pieces
    split
    · simp
    · split <;> simp

/-- Joining undoes cutting into pieces. -/
theorem join_pieces (separator : Char) (text : List Char) :
    join separator (pieces separator text) = text := by
  induction text with
  | nil => rfl
  | cons c rest ih =>
    unfold pieces
    split
    · rename_i h
      cases hp : pieces separator rest with
      | nil => exact absurd hp (pieces_ne_nil separator rest)
      | cons first more => simp [join, ← hp, ih, h]
    · cases hp : pieces separator rest with
      | nil => exact absurd hp (pieces_ne_nil separator rest)
      | cons first more =>
        rw [hp] at ih
        cases more with
        | nil => simpa [join] using ih
        | cons second more => simpa [join] using ih

/-- Two texts with a separator between are cut apart. -/
theorem pieces_append (separator : Char) (text more : List Char) :
    pieces separator (text ++ separator :: more) =
      pieces separator text ++ pieces separator more := by
  induction text with
  | nil => simp [pieces]
  | cons c text ih =>
    rw [List.cons_append, pieces, pieces]
    split
    · rw [ih]
      rfl
    · rw [ih]
      cases hp : pieces separator text with
      | nil => exact absurd hp (pieces_ne_nil separator text)
      | cons first rest => rfl

theorem pieces_eq_singleton {separator : Char} {text : List Char} (h : separator ∉ text) :
    pieces separator text = [text] := by
  induction text with
  | nil => rfl
  | cons c text ih =>
    obtain ⟨hc, hrest⟩ := not_or.1 (mt List.mem_cons.2 h)
    rw [pieces, if_neg (Ne.symm hc), ih hrest]

/-- A text without separators in front of another belongs to its first piece. -/
theorem pieces_append_of_not_mem {separator : Char} {text rest first : List Char}
    {more : List (List Char)} (h : separator ∉ text)
    (hrest : pieces separator rest = first :: more) :
    pieces separator (text ++ rest) = (text ++ first) :: more := by
  induction text with
  | nil => exact hrest
  | cons c text ih =>
    obtain ⟨hc, htext⟩ := not_or.1 (mt List.mem_cons.2 h)
    rw [List.cons_append, pieces, if_neg (Ne.symm hc), ih htext]
    rfl

/-- Cutting into pieces undoes joining. -/
theorem pieces_join {separator : Char} {all : List (List Char)}
    (h : ∀ piece ∈ all, separator ∉ piece) (hne : all ≠ []) :
    pieces separator (join separator all) = all := by
  induction all with
  | nil => exact absurd rfl hne
  | cons piece all ih =>
    obtain ⟨hpiece, hall⟩ := List.forall_mem_cons.1 h
    cases all with
    | nil => exact pieces_eq_singleton hpiece
    | cons next all =>
      rw [join, pieces_append, pieces_eq_singleton hpiece, ih hall (List.cons_ne_nil next all)]
      · rfl
      · exact List.cons_ne_nil next all

/-- Two rows of pieces are joined with a separator between them. -/
theorem join_append {separator : Char} {front back : List (List Char)} (hfront : front ≠ [])
    (hback : back ≠ []) :
    join separator (front ++ back) = join separator front ++ separator :: join separator back := by
  induction front with
  | nil => exact absurd rfl hfront
  | cons first front ih =>
    cases front with
    | nil =>
      obtain ⟨next, more, rfl⟩ := List.exists_cons_of_ne_nil hback
      rfl
    | cons second front =>
      have hrest := ih (List.cons_ne_nil second front)
      show first ++ separator :: join separator (second :: front ++ back) =
        first ++ separator :: join separator (second :: front) ++ separator :: join separator back
      rw [hrest, List.append_assoc, List.cons_append]

theorem join_concat {separator : Char} {front : List (List Char)} {piece : List Char}
    (hfront : front ≠ []) :
    join separator (front ++ [piece]) = join separator front ++ separator :: piece :=
  join_append hfront (List.cons_ne_nil piece [])

/-- Joining is what the library calls intercalating. -/
theorem join_eq_intercalate (separator : Char) (all : List (List Char)) :
    join separator all = [separator].intercalate all := by
  induction all with
  | nil => rfl
  | cons piece all ih =>
    cases all with
    | nil => simp [join]
    | cons next all =>
      rw [join, ih, List.intercalate_cons_cons, List.append_assoc]
      · rfl
      · exact List.cons_ne_nil next all

theorem not_mem_of_mem_pieces {separator : Char} {text piece : List Char}
    (h : piece ∈ pieces separator text) : separator ∉ piece := by
  induction text generalizing piece with
  | nil =>
    rw [List.mem_singleton.1 h]
    exact List.not_mem_nil
  | cons c text ih =>
    rw [pieces] at h
    split at h
    · rcases List.mem_cons.1 h with rfl | h
      · exact List.not_mem_nil
      · exact ih h
    · rename_i hc
      cases hp : pieces separator text with
      | nil => exact absurd hp (pieces_ne_nil separator text)
      | cons first rest =>
        rw [hp] at h
        rcases List.mem_cons.1 h with rfl | h
        · have hfirst : separator ∉ first := ih (hp ▸ List.mem_cons_self)
          exact fun hmem => (List.mem_cons.1 hmem).elim (fun heq => hc heq.symm) hfirst
        · exact ih (hp ▸ List.mem_cons_of_mem first h)

/-- What holds of a separator and of all characters of pieces holds of the pieces joined. -/
theorem forall_join {P : Char → Prop} {separator : Char} {all : List (List Char)}
    (hseparator : P separator) (h : ∀ piece ∈ all, ∀ c ∈ piece, P c) :
    ∀ c ∈ join separator all, P c := by
  induction all with
  | nil => exact fun _ hc => nomatch hc
  | cons piece all ih =>
    obtain ⟨hpiece, hall⟩ := List.forall_mem_cons.1 h
    cases all with
    | nil => exact hpiece
    | cons next all =>
      exact List.forall_mem_append.2 ⟨hpiece, List.forall_mem_cons.2 ⟨hseparator, ih hall⟩⟩

theorem forall_pieces {P : Char → Prop} {separator : Char} {text : List Char}
    (h : ∀ c ∈ text, P c) :
    ∀ piece ∈ pieces separator text, ∀ c ∈ piece, P c := by
  induction text with
  | nil =>
    intro piece hpiece
    rw [List.mem_singleton.1 hpiece]
    exact h
  | cons c text ih =>
    obtain ⟨hc, htext⟩ := List.forall_mem_cons.1 h
    have hrest := ih htext
    rw [pieces]
    split
    · exact List.forall_mem_cons.2 ⟨(fun _ hd => nomatch hd), hrest⟩
    · cases hpieces : pieces separator text with
      | nil => exact absurd hpieces (pieces_ne_nil separator text)
      | cons first more =>
        rw [hpieces] at hrest
        obtain ⟨hfirst, hmore⟩ := List.forall_mem_cons.1 hrest
        exact List.forall_mem_cons.2 ⟨List.forall_mem_cons.2 ⟨hc, hfirst⟩, hmore⟩

/-- A cut takes out the first character with the property. -/
theorem cutWhere_eq_some {p : Char → Bool} {text before after : List Char} :
    cutWhere p text = some (before, after) ↔
      ∃ c, p c = true ∧ text = before ++ c :: after ∧ ∀ d ∈ before, p d = false := by
  induction text generalizing before with
  | nil => simp [cutWhere]
  | cons c rest ih =>
    unfold cutWhere
    by_cases h : p c = true
    · rw [if_pos h, Option.some.injEq, Prod.mk.injEq]
      constructor
      · rintro ⟨rfl, rfl⟩
        exact ⟨c, h, rfl, fun _ hd => nomatch hd⟩
      · rintro ⟨d, hd, htext, hbefore⟩
        cases before with
        | nil => exact ⟨rfl, (List.cons.inj htext).2⟩
        | cons e before =>
          obtain ⟨rfl, -⟩ := List.cons.inj htext
          rw [hbefore c List.mem_cons_self] at h
          cases h
    · rw [if_neg h, Option.map_eq_some_iff]
      constructor
      · rintro ⟨⟨first, last⟩, hcut, heq⟩
        obtain ⟨rfl, rfl⟩ := Prod.mk.inj heq
        obtain ⟨d, hd, rfl, hfirst⟩ := ih.1 hcut
        exact ⟨d, hd, rfl, List.forall_mem_cons.2 ⟨Bool.eq_false_iff.2 h, hfirst⟩⟩
      · rintro ⟨d, hd, htext, hbefore⟩
        cases before with
        | nil =>
          obtain ⟨rfl, -⟩ := List.cons.inj htext
          exact absurd hd h
        | cons e before =>
          obtain ⟨rfl, hrest⟩ := List.cons.inj htext
          exact ⟨(before, after), ih.2 ⟨d, hd, hrest, fun x hx =>
            hbefore x (List.mem_cons_of_mem _ hx)⟩, rfl⟩

theorem cutWhere_eq_none {p : Char → Bool} {text : List Char} :
    cutWhere p text = none ↔ ∀ c ∈ text, p c = false := by
  induction text with
  | nil => simp [cutWhere]
  | cons c rest ih =>
    unfold cutWhere
    cases h : p c <;> simp [h, ih]

/-- A cut at the first separator leaves none before it. -/
theorem cutWhere_separator_eq_some {separator : Char} {text before after : List Char} :
    cutWhere (· == separator) text = some (before, after) ↔
      text = before ++ separator :: after ∧ separator ∉ before := by
  rw [cutWhere_eq_some]
  simp only [beq_iff_eq, exists_eq_left, beq_eq_false_iff_ne]
  exact and_congr_right fun _ => ⟨fun h hmem => h _ hmem rfl, fun h c hc heq => h (heq ▸ hc)⟩

/-- A text is cut at its first separator in one way only. -/
theorem eq_of_append_cons {separator : Char} {before after before' after' : List Char}
    (h : separator ∉ before) (h' : separator ∉ before')
    (htext : before ++ separator :: after = before' ++ separator :: after') :
    before = before' ∧ after = after' := by
  have hcut := cutWhere_separator_eq_some.2 ⟨htext.symm, h⟩
  have hcut' := cutWhere_separator_eq_some.2 ⟨(rfl : _ = before' ++ separator :: after'), h'⟩
  exact Prod.mk.inj (Option.some.inj (hcut.symm.trans hcut'))

/-- A cut at the last separator leaves none behind it. -/
theorem cutLast_eq_some {separator : Char} {text before after : List Char} :
    cutLast separator text = some (before, after) ↔
      text = before ++ separator :: after ∧ separator ∉ after := by
  rw [cutLast, Option.map_eq_some_iff]
  constructor
  · rintro ⟨⟨first, last⟩, hcut, heq⟩
    obtain ⟨rfl, rfl⟩ := Prod.mk.inj heq
    obtain ⟨c, hc, htext, hfirst⟩ := cutWhere_eq_some.1 hcut
    obtain rfl := beq_iff_eq.1 hc
    refine ⟨?_, fun h => ?_⟩
    · rw [← List.reverse_reverse text, htext]
      simp
    · simpa using hfirst c (List.mem_reverse.1 h)
  · rintro ⟨rfl, hafter⟩
    refine ⟨(after.reverse, before.reverse), cutWhere_eq_some.2 ⟨separator, ?_, ?_, ?_⟩, ?_⟩
    · exact beq_self_eq_true separator
    · simp
    · intro d hd
      exact beq_false_of_ne fun h => hafter (h ▸ List.mem_reverse.1 hd)
    · simp

theorem cutLast_eq_none {separator : Char} {text : List Char} :
    cutLast separator text = none ↔ separator ∉ text := by
  rw [cutLast, Option.map_eq_none_iff, cutWhere_eq_none]
  simp only [List.mem_reverse, beq_eq_false_iff_ne, ne_eq]
  exact ⟨fun h hmem => h _ hmem rfl, fun h c hc heq => h (heq ▸ hc)⟩

theorem dropStart?_eq_some {start text rest : List Char} :
    dropStart? start text = some rest ↔ text = start ++ rest := by
  fun_induction dropStart? start text with
  | case1 => simp [eq_comm]
  | case2 => simp
  | case3 c start text ih => simpa using ih
  | case4 c start d text h =>
    simp [Ne.symm h]

theorem dropEnd?_eq_some {ending text rest : List Char} :
    dropEnd? ending text = some rest ↔ text = rest ++ ending := by
  rw [dropEnd?, Option.map_eq_some_iff]
  simp only [dropStart?_eq_some]
  constructor
  · rintro ⟨back, htext, rfl⟩
    rw [← List.reverse_reverse text, htext, List.reverse_append, List.reverse_reverse]
  · rintro rfl
    exact ⟨rest.reverse, List.reverse_append, List.reverse_reverse rest⟩

theorem dropReturn_concat (line : List Char) : dropReturn (line ++ ['\r']) = line := by
  have hdrop : dropEnd? ['\r'] (line ++ ['\r']) = some line := dropEnd?_eq_some.2 rfl
  rw [dropReturn, hdrop, Option.getD_some]

theorem dropReturn_eq_self {line : List Char} (h : line.getLast? ≠ some '\r') :
    dropReturn line = line := by
  have hnone : dropEnd? ['\r'] line = none := by
    refine Option.eq_none_iff_forall_ne_some.2 fun rest hrest => h ?_
    rw [dropEnd?_eq_some.1 hrest, List.getLast?_concat]
  rw [dropReturn, hnone, Option.getD_none]

/-- The first line of a text goes up to the first line feed. -/
theorem lines_append {line rest : List Char} (h : '\n' ∉ line) :
    lines (line ++ '\n' :: rest) = dropReturn line :: lines rest := by
  have hpieces : pieces '\n' (line ++ '\n' :: rest) = line :: pieces '\n' rest := by
    rw [pieces_append, pieces_eq_singleton h, List.singleton_append]
  obtain ⟨first, more, hrest⟩ := List.exists_cons_of_ne_nil (pieces_ne_nil '\n' rest)
  unfold lines
  rw [hpieces, hrest]
  rfl

end JarGraph.Text
