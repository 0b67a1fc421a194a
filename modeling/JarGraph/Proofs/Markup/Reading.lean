import JarGraph.Markup.Grammar
/-!
# Reading a document of the grammar

The reader takes in every document of the grammar, as the element that the
grammar says it holds (`read_of_isDocument`). It works in passes over the
whole document: it cuts at the brackets, makes a token of every piece, and
puts the tokens together with a stack of open elements. The grammar is
nested where the passes are not, so each part of it is followed through
all passes at once, in front of any rest that they accept.
-/

namespace JarGraph.Markup

variable {chars text front rest inside : List Char}

/-! ## Characters and entities -/

theorem isAllowed_of_isCharacter {c : Char} (h : IsCharacter c) (hreturn : c ≠ '\r') :
    isAllowed c = true := by
  have hspace : ' ' ≤ c ↔ 0x20 ≤ c.toNat := Char.le_def.trans UInt32.le_iff_toNat_le
  unfold isAllowed
  rcases h with rfl | rfl | rfl | h | h | h
  · decide
  · decide
  · exact absurd rfl hreturn
  all_goals
    simp only [Bool.or_eq_true, Bool.and_eq_true, decide_eq_true_eq, bne_iff_ne, hspace]
    omega

/-- A predefined entity is found under its name, which holds no sign of markup. -/
theorem entities_spec {name : List Char} {c : Char} (h : (name, c) ∈ entities) :
    entities.lookup name = some c ∧
      ∀ d ∈ name, isAllowed d = true ∧ d ∉ ['<', '>', '&', ';', '"', '\t', '\n'] := by
  have hcheck : (entities.all fun e => entities.lookup e.1 == some e.2 && e.1.all fun d =>
      isAllowed d && !(['<', '>', '&', ';', '"', '\t', '\n'].contains d)) = true := by
    decide
  have hentity := List.all_eq_true.1 hcheck (name, c) h
  rw [Bool.and_eq_true, beq_iff_eq, List.all_eq_true] at hentity
  refine ⟨hentity.1, fun d hd => ?_⟩
  simpa using hentity.2 d hd

namespace Spells

theorem append {chars' text' : List Char} (h : Spells chars text) (h' : Spells chars' text') :
    Spells (chars ++ chars') (text ++ text') := by
  induction h with
  | nil => exact h'
  | plain hc hmarkup _ ih => exact .plain hc hmarkup ih
  | entity hname _ ih =>
    rw [List.cons_append, List.append_assoc, List.cons_append]
    exact .entity hname ih

/-- A text without signs of markup spells itself. -/
theorem self (h : ∀ c ∈ text, IsCharacter c ∧ c ∉ ['<', '>', '&', '\r']) : Spells text text := by
  induction text with
  | nil => exact .nil
  | cons c text ih =>
    obtain ⟨⟨hc, hmarkup⟩, h⟩ := List.forall_mem_cons.1 h
    exact .plain hc hmarkup (ih h)

/-- Characters that spell a text are allowed, and no bracket is among them. -/
theorem forall_mem (h : Spells chars text) :
    ∀ c ∈ chars, isAllowed c = true ∧ c ∉ ['<', '>'] := by
  induction h with
  | nil => exact fun _ hc => nomatch hc
  | plain hc hmarkup _ ih =>
    simp only [List.mem_cons, not_or] at hmarkup
    refine List.forall_mem_cons.2 ⟨⟨isAllowed_of_isCharacter hc hmarkup.2.2.2.1, ?_⟩, ih⟩
    simp [hmarkup.1, hmarkup.2.1]
  | entity hname _ ih =>
    have hentity := (entities_spec hname).2
    refine List.forall_mem_cons.2 ⟨by decide, fun c hc => ?_⟩
    rcases List.mem_append.1 hc with hc | hc
    · obtain ⟨hallowed, hmarkup⟩ := hentity c hc
      exact ⟨hallowed, fun hmem => hmarkup (List.mem_append_left _ hmem)⟩
    · rcases List.mem_cons.1 hc with rfl | hc
      · decide
      · exact ih c hc

theorem not_mem_bracket (h : Spells chars text) : '<' ∉ chars ∧ '>' ∉ chars :=
  ⟨fun hc => (h.forall_mem _ hc).2 (by decide), fun hc => (h.forall_mem _ hc).2 (by decide)⟩

end Spells

theorem entity?_of_mem {name : List Char} {c : Char} (h : (name, c) ∈ entities) :
    entity? (name ++ ';' :: rest) = some (c, rest) := by
  obtain ⟨hlookup, hname⟩ := entities_spec h
  have hcut : Text.cutWhere (· == ';') (name ++ ';' :: rest) = some (name, rest) :=
    Text.cutWhere_separator_eq_some.2 ⟨rfl, fun hmem => (hname _ hmem).2 (by decide)⟩
  simp only [entity?, hcut, hlookup, Option.bind_eq_bind, Option.bind_some, Option.pure_def]

/-- The pieces of characters that spell a text: the first stands for itself, and every further one
starts with the name of an entity. -/
theorem exists_pieces (h : Spells chars text) :
    ∃ first more tail, Text.pieces '&' chars = first :: more ∧ decodePieces more = some tail ∧
      text = first ++ tail := by
  induction h with
  | nil => exact ⟨[], [], [], rfl, rfl, rfl⟩
  | @plain c chars text hc hmarkup h ih =>
    obtain ⟨first, more, tail, hpieces, hdecode, rfl⟩ := ih
    have hne : '&' ∉ [c] := by
      simp only [List.mem_cons, List.not_mem_nil, or_false, not_or] at hmarkup ⊢
      exact Ne.symm hmarkup.2.2.1
    exact ⟨c :: first, more, tail, Text.pieces_append_of_not_mem hne hpieces, hdecode, rfl⟩
  | @entity name chars text c hname h ih =>
    obtain ⟨first, more, tail, hpieces, hdecode, rfl⟩ := ih
    refine ⟨[], (name ++ ';' :: first) :: more, c :: first ++ tail, ?_, ?_, rfl⟩
    · have hne : '&' ∉ name ++ [';'] := by
        intro hmem
        rcases List.mem_append.1 hmem with hmem | hmem
        · exact ((entities_spec hname).2 _ hmem).2 (by decide)
        · exact absurd (List.mem_singleton.1 hmem) (by decide)
      have hentity := Text.pieces_append_of_not_mem hne hpieces
      rw [List.append_assoc, List.append_assoc, List.singleton_append,
        List.singleton_append] at hentity
      rw [Text.pieces, if_pos rfl, hentity]
    · rw [decodePieces, entity?_of_mem hname, hdecode]
      rfl

/-- **Reading undoes spelling.** -/
theorem decode?_of_spells (h : Spells chars text) :
    decode? chars = some (String.ofList text) := by
  obtain ⟨first, more, tail, hpieces, hdecode, rfl⟩ := exists_pieces h
  have hall : (chars.all fun c => isAllowed c && c != '<' && c != '>') = true := by
    refine List.all_eq_true.2 fun c hc => ?_
    obtain ⟨hallowed, hbracket⟩ := h.forall_mem c hc
    simp only [List.mem_cons, List.not_mem_nil, or_false, not_or] at hbracket
    simp [hallowed, hbracket.1, hbracket.2]
  rw [decode?, if_pos hall, hpieces]
  simp only [hdecode, Option.map_some]

/-! ## Tags -/

theorem name?_of_isName {name : String} (h : IsName name) : name? name.toList = some name := by
  have hall : name.toList.all Char.isAlpha = true := List.all_eq_true.2 h.2
  simp [name?, h.1, hall, String.ofList_toList]

theorem IsName.not_mem {name : String} (h : IsName name) {c : Char} (hc : c.isAlpha = false) :
    c ∉ name.toList :=
  fun hmem => absurd (h.2 c hmem) (by simp [hc])

theorem IsName.not_mem_bracket {name : String} (h : IsName name) :
    '<' ∉ name.toList ∧ '>' ∉ name.toList :=
  ⟨h.not_mem (by decide), h.not_mem (by decide)⟩

theorem value?_of_spells (h : Spells chars text) (hchars : ∀ c ∈ ['"', '\t', '\n'], c ∉ chars) :
    value? chars = some (String.ofList text) := by
  have hany : (chars.any fun c => c == '\t' || c == '\n') = false := by
    refine List.any_eq_false.2 fun c hc => ?_
    have htab : c ≠ '\t' := fun heq => hchars '\t' (by decide) (heq ▸ hc)
    have hline : c ≠ '\n' := fun heq => hchars '\n' (by decide) (heq ▸ hc)
    simp [htab, hline]
  rw [value?, hany, if_neg Bool.false_ne_true, decode?_of_spells h]

/-- The end of a tag, before its closing bracket. -/
def tagEnd (isWhole : Bool) : List Char :=
  if isWhole then ['/'] else []

theorem attributes?_of_isAttributes {attributes : List (String × String)}
    (h : IsAttributes attributes inside) (isWhole : Bool) :
    attributes? (Text.pieces '"' (inside ++ tagEnd isWhole)) = some (attributes, isWhole) := by
  induction h with
  | nil => cases isWhole <;> rfl
  | @cons key value chars rest others hkey hvalue hchars hnew _ ih =>
    have hquote : '"' ∉ chars := hchars '"' (by decide)
    have hkeyQuote : '"' ∉ ' ' :: (key.toList ++ ['=']) := by
      have := hkey.not_mem (c := '"') (by decide)
      simp [this]
    -- The quotes cut a tag into names and values in turn, and its end is the last piece.
    have hcut : Text.pieces '"'
        (' ' :: (key.toList ++ '=' :: '"' :: (chars ++ '"' :: rest)) ++ tagEnd isWhole) =
          (' ' :: (key.toList ++ ['='])) :: chars :: Text.pieces '"' (rest ++ tagEnd isWhole) := by
      have hsplit : ' ' :: (key.toList ++ '=' :: '"' :: (chars ++ '"' :: rest)) ++ tagEnd isWhole =
          (' ' :: (key.toList ++ ['='])) ++ '"' :: (chars ++ '"' :: (rest ++ tagEnd isWhole)) := by
        simp
      rw [hsplit, Text.pieces_append, Text.pieces_append, Text.pieces_eq_singleton hquote,
        Text.pieces_eq_singleton hkeyQuote]
      rfl
    have hstart : Text.dropStart? [' '] (' ' :: (key.toList ++ ['='])) =
        some (key.toList ++ ['=']) := Text.dropStart?_eq_some.2 rfl
    have hend : Text.dropEnd? ['='] (key.toList ++ ['=']) = some key.toList :=
      Text.dropEnd?_eq_some.2 rfl
    have hlookup : others.lookup key = none := by
      refine List.lookup_eq_none_iff.2 fun pair hpair => bne_iff_ne.2 ?_
      rintro rfl
      exact hnew (List.mem_map_of_mem hpair)
    rw [hcut, attributes?]
    simp only [hstart, hend, name?_of_isName hkey, value?_of_spells hvalue hchars, ih, hlookup,
      Option.bind_eq_bind, Option.bind_some, Option.isSome_none, Bool.false_eq_true, if_false,
      Option.pure_def]

theorem tag?_stop {tag : String} (h : IsName tag) :
    tag? ('/' :: tag.toList) = some (.stop tag) := by
  have hstart : Text.dropStart? ['/'] ('/' :: tag.toList) = some tag.toList :=
    Text.dropStart?_eq_some.2 rfl
  simp only [tag?, hstart, name?_of_isName h, Option.map_some]

theorem IsAttributes.not_mem_bracket {attributes : List (String × String)}
    (h : IsAttributes attributes inside) : '<' ∉ inside ∧ '>' ∉ inside := by
  induction h with
  | nil => exact ⟨List.not_mem_nil, List.not_mem_nil⟩
  | cons hkey hvalue _ _ _ ih =>
    simp [hkey.not_mem_bracket, hvalue.not_mem_bracket, ih]

/-- A tag's name ends where its attributes start. -/
theorem IsAttributes.head {attributes : List (String × String)}
    (h : IsAttributes attributes inside) (isWhole : Bool) :
    ∀ c ∈ (inside ++ tagEnd isWhole).head?, c.isAlpha = false := by
  cases h with
  | nil => cases isWhole <;> simp [tagEnd]
  | cons => simp

/-- A tag with attributes is read as one token. -/
theorem tag?_of_isAttributes {tag : String} {attributes : List (String × String)}
    (htag : IsName tag) (h : IsAttributes attributes inside) (isWhole : Bool) :
    tag? (tag.toList ++ (inside ++ tagEnd isWhole)) =
      some (if isWhole then .whole tag attributes else .start tag attributes) := by
  have hstart : Text.dropStart? ['/'] (tag.toList ++ (inside ++ tagEnd isWhole)) = none := by
    obtain ⟨c, name, heq⟩ := List.exists_cons_of_ne_nil htag.1
    have hne : '/' ≠ c := by
      rintro rfl
      exact htag.not_mem (by decide) (heq ▸ List.mem_cons_self)
    rw [heq, List.cons_append, Text.dropStart?, if_neg hne]
  have hspan : ∀ {after : List Char}, (∀ c ∈ after.head?, c.isAlpha = false) →
      after.takeWhile Char.isAlpha = [] ∧ after.dropWhile Char.isAlpha = after := by
    intro after hafter
    cases after with
    | nil => exact ⟨rfl, rfl⟩
    | cons c after => simp [hafter c rfl]
  -- So the name is what the letters at the front are.
  obtain ⟨htake, hdrop⟩ := hspan (h.head isWhole)
  rw [tag?, hstart]
  simp only [List.takeWhile_append_of_pos htag.2, List.dropWhile_append_of_pos htag.2, htake, hdrop,
    List.append_nil, name?_of_isName htag, attributes?_of_isAttributes h, Option.bind_eq_bind,
    Option.bind_some, Option.pure_def]

/-! ## Tokens -/

/-- The characters start with a text up to the first bracket, and from there on they are tokens. -/
def Tokenized (chars text : List Char) (tokens : List Token) : Prop :=
  ∃ first more, Text.pieces '<' chars = first :: more ∧ Spells first text ∧
    tokens? more = some tokens

namespace Tokenized

variable {tokens : List Token}

theorem of_spells (h : Spells chars text) : Tokenized chars text [] :=
  ⟨chars, [], Text.pieces_eq_singleton h.not_mem_bracket.1, h, rfl⟩

/-- A text in front joins the text that the characters start with. -/
theorem prepend {before : List Char} (hfront : Spells front before)
    (h : Tokenized chars text tokens) :
    Tokenized (front ++ chars) (before ++ text) tokens := by
  obtain ⟨first, more, hpieces, hspells, htokens⟩ := h
  have hcut := Text.pieces_append_of_not_mem hfront.not_mem_bracket.1 hpieces
  exact ⟨front ++ first, more, hcut, hfront.append hspells, htokens⟩

/-- A tag in front is one token more. -/
theorem tag {token : Token} (hinside : '<' ∉ inside ∧ '>' ∉ inside)
    (htag : tag? inside = some token) (h : Tokenized chars text tokens) :
    Tokenized ('<' :: (inside ++ '>' :: chars)) []
      (token :: .text (String.ofList text) :: tokens) := by
  obtain ⟨first, more, hpieces, hspells, htokens⟩ := h
  have hne : '<' ∉ inside ++ ['>'] := by
    simpa using hinside.1
  -- What follows the tag up to the next one is in one piece with it.
  have hcut : Text.pieces '<' (inside ++ '>' :: chars) = (inside ++ '>' :: first) :: more := by
    simpa using Text.pieces_append_of_not_mem hne hpieces
  have hclose : Text.cutWhere (· == '>') (inside ++ '>' :: first) = some (inside, first) :=
    Text.cutWhere_separator_eq_some.2 ⟨rfl, hinside.2⟩
  refine ⟨[], (inside ++ '>' :: first) :: more, ?_, .nil, ?_⟩
  · rw [Text.pieces, if_pos rfl, hcut]
  · simp only [tokens?, hclose, htag, decode?_of_spells hspells, htokens, Option.bind_eq_bind,
      Option.bind_some, Option.pure_def]

theorem tag_of_isAttributes {tag : String} {attributes : List (String × String)}
    (htag : IsName tag) (hattributes : IsAttributes attributes inside) (isWhole : Bool)
    (h : Tokenized chars text tokens) :
    Tokenized ('<' :: (tag.toList ++ (inside ++ tagEnd isWhole) ++ '>' :: chars)) []
      ((if isWhole then .whole tag attributes else .start tag attributes) ::
        .text (String.ofList text) :: tokens) := by
  refine Tokenized.tag ?_ (tag?_of_isAttributes htag hattributes isWhole) h
  cases isWhole <;> simp [htag.not_mem_bracket, hattributes.not_mem_bracket, tagEnd]

theorem tag_stop {tag : String} (htag : IsName tag) (h : Tokenized chars text tokens) :
    Tokenized ('<' :: ('/' :: tag.toList ++ '>' :: chars)) []
      (.stop tag :: .text (String.ofList text) :: tokens) := by
  refine Tokenized.tag ?_ (tag?_stop htag) h
  simpa using htag.not_mem_bracket

end Tokenized

/-! ## Elements -/

/-- What the reader does with an element that has come to its end: it goes on after it inside an
open element, and outside of any it is done. -/
def close (item : Item) (stack : List Open) (tokens : List Token) : Option Item :=
  match add item stack with
  | some around => build around tokens
  | none => if isOver tokens then some item else none

theorem build_text (o : Open) (around : List Open) (text : List Char) (tokens : List Token) :
    build (o :: around) (.text (String.ofList text) :: tokens) =
      build ({ o with content := (textItems text).reverse ++ o.content } :: around) tokens := by
  cases text with
  | nil => rfl
  | cons c text =>
    have hne : String.ofList (c :: text) ≠ "" := by simp
    rw [build, if_neg hne]
    rfl

-- The recursion is on the derivations. Any text may follow an element, but content ends at a tag,
-- so what follows it starts without a text.
mutual

/-- **An element is read as one item**, whatever follows it and whatever is open around it. -/
theorem exists_tokens_of_isElement {item : Item} {chars : List Char} (h : IsElement item chars) :
    ∀ {rest text : List Char} {tokens : List Token}, Tokenized rest text tokens →
      ∃ more, Tokenized (chars ++ rest) [] more ∧
        ∀ stack, build stack more = close item stack (.text (String.ofList text) :: tokens) := by
  intro rest text tokens hrest
  match h with
  | @IsElement.whole tag attributes _ htag hattributes =>
    refine ⟨.whole tag attributes :: .text (String.ofList text) :: tokens, ?_, fun stack => ?_⟩
    · simpa [tagEnd] using hrest.tag_of_isAttributes htag hattributes true
    · rw [build]
      rfl
  | @IsElement.nested tag attributes _ _ _ htag hattributes hcontent =>
    obtain ⟨text', more, htokens, hbuild⟩ :=
      exists_tokens_of_isContent hcontent (hrest.tag_stop htag)
    refine ⟨.start tag attributes :: .text (String.ofList text') :: more, ?_, fun stack => ?_⟩
    · simpa [tagEnd] using htokens.tag_of_isAttributes htag hattributes false
    · rw [build, hbuild, build, if_pos rfl, List.append_nil, List.reverse_reverse]
      rfl

/-- The content of an element is read into the innermost open element. -/
theorem exists_tokens_of_isContent {items : List Item} {chars : List Char}
    (h : IsContent items chars) :
    ∀ {rest : List Char} {tokens : List Token}, Tokenized rest [] tokens →
      ∃ text more, Tokenized (chars ++ rest) text more ∧
        ∀ o around, build (o :: around) (.text (String.ofList text) :: more) =
          build ({ o with content := items.reverse ++ o.content } :: around) tokens := by
  intro rest tokens hrest
  match h with
  | @IsContent.text _ text h =>
    refine ⟨text, tokens, ?_, fun o around => build_text o around text tokens⟩
    simpa using hrest.prepend h
  | @IsContent.element _ text _ _ _ _ hfront hitem h =>
    obtain ⟨text', more, htokens, hbuild⟩ := exists_tokens_of_isContent h hrest
    obtain ⟨more', htokens', hbuild'⟩ := exists_tokens_of_isElement hitem htokens
    refine ⟨text, more', ?_, fun o around => ?_⟩
    · simpa using htokens'.prepend hfront
    · rw [build_text, hbuild']
      simp [close, add, hbuild]

end

/-- **Every document of the grammar is read**, as the element that it holds. -/
theorem read_of_isDocument {root : Item} {document : List Char} (h : IsDocument root document) :
    read document = some root := by
  obtain ⟨chars, more, hroot, hmore, rfl⟩ := h
  have hspells : Spells more more := Spells.self fun c hc => by
    rw [hmore c hc]
    exact ⟨.inr (.inl rfl), by decide⟩
  obtain ⟨tokens, ⟨first, pieces, hpieces, hfirst, htokens⟩, hbuild⟩ :=
    exists_tokens_of_isElement hroot (Tokenized.of_spells hspells)
  -- Nothing stands in front of the element.
  cases hfirst
  have hover : isOver [.text (String.ofList more)] = true := by
    simpa [isOver] using hmore
  have hstart : Text.dropStart? declaration.toList (declaration.toList ++ (chars ++ more)) =
      some (chars ++ more) := Text.dropStart?_eq_some.2 rfl
  rw [read, hstart]
  simp only [Option.bind_eq_bind, Option.bind_some, hpieces, htokens, hbuild]
  simp only [close, add, hover, if_true]

/-- A document holds one element only. -/
theorem IsDocument.root_unique {root root' : Item} {document : List Char}
    (h : IsDocument root document) (h' : IsDocument root' document) : root = root' :=
  Option.some.inj ((read_of_isDocument h).symm.trans (read_of_isDocument h'))

end JarGraph.Markup
