import JarGraph.Proofs.Text.Utf8
import JarGraph.Text.Position
/-!
# Where a text can be cut

A position that counts the bytes of a start of a text is one where the text
can be cut, and there is no other (`cutAt_eq_ok`). A mark of ASCII is the
only character that any of its bytes stands for, and none of the bytes of
another character stands for it (`isOneOf_of_mem`): so a program that goes
from byte to byte and stops at a mark stops between two characters
(`takeWhile_encoded`).
-/

namespace JarGraph.Text

variable {text before after rest part : List Char} {marks : List Char} {c : Char} {b : UInt8}
variable {position : Nat}

/-! ## Sizes -/

theorem size_append (before after : List Char) :
    size (before ++ after) = size before + size after := by
  induction before with
  | nil => exact (Nat.zero_add _).symm
  | cons c before ih => rw [List.cons_append, size, size, ih, Nat.add_assoc]

theorem length_le_size (text : List Char) : text.length ≤ size text := by
  induction text with
  | nil => exact Nat.le_refl 0
  | cons c text ih =>
    have hpos := c.utf8Size_pos
    rw [List.length_cons, size]
    omega

theorem encoded_cons (c : Char) (rest : List Char) :
    encoded (c :: rest) = String.utf8EncodeChar c ++ encoded rest :=
  List.flatMap_cons

theorem encoded_append (before after : List Char) :
    encoded (before ++ after) = encoded before ++ encoded after :=
  List.flatMap_append

theorem length_encoded (text : List Char) : (encoded text).length = size text := by
  induction text with
  | nil => rfl
  | cons c text ih =>
    rw [encoded_cons, List.length_append, String.length_utf8EncodeChar, ih, size]

theorem size_eq_zero : size text = 0 ↔ text = [] := by
  cases text with
  | nil => exact iff_of_true rfl rfl
  | cons c rest =>
    have hpos := c.utf8Size_pos
    refine iff_of_false (fun h => ?_) (List.cons_ne_nil c rest)
    rw [size] at h
    omega

theorem utf8EncodeChar_eq_singleton (hc : c.toNat < 0x80) :
    String.utf8EncodeChar c = [c.toUInt8] := by
  have hval : c.val.toNat = c.toNat := rfl
  rw [String.utf8EncodeChar, hval, if_pos (Nat.le_of_lt_succ hc)]
  rfl

/-- A character of ASCII takes one byte. -/
theorem size_singleton (hc : c.toNat < 0x80) : size [c] = 1 := by
  rw [← length_encoded, encoded_cons, utf8EncodeChar_eq_singleton hc]
  rfl

/-! ## Cuts -/

/-- **A text can be cut** where a start of it ends, and nowhere else. -/
theorem cutAt_eq_ok :
    cutAt position text = .ok (before, after) ↔
      text = before ++ after ∧ size before = position := by
  fun_induction cutAt position text generalizing before with
  | case1 rest =>
    rw [size_eq_zero, Except.ok.injEq, Prod.mk.injEq]
    constructor
    · rintro ⟨rfl, rfl⟩
      exact ⟨rfl, rfl⟩
    · rintro ⟨rfl, rfl⟩
      exact ⟨rfl, rfl⟩
  | case2 n =>
    refine iff_of_false nofun ?_
    rintro ⟨htext, hsize⟩
    rw [(List.append_eq_nil_iff.1 htext.symm).1] at hsize
    cases hsize
  | case3 n c rest h =>
    refine iff_of_false nofun ?_
    rintro ⟨htext, hsize⟩
    obtain _ | ⟨d, before⟩ := before
    · cases hsize
    · obtain ⟨rfl, -⟩ := List.cons.inj htext
      rw [size] at hsize
      omega
  | case4 n c rest h ih =>
    constructor
    · intro hcut
      cases hrest : cutAt (n + 1 - c.utf8Size) rest with
      | error cause =>
        rw [hrest] at hcut
        cases hcut
      | ok halves =>
        rw [hrest] at hcut
        obtain ⟨rfl, rfl⟩ := Prod.mk.inj (Except.ok.inj hcut)
        obtain ⟨hsplit, hsize⟩ := ih.1 hrest
        refine ⟨congrArg (c :: ·) hsplit, ?_⟩
        rw [size, hsize]
        omega
    · rintro ⟨htext, hsize⟩
      obtain _ | ⟨d, before⟩ := before
      · cases hsize
      · obtain ⟨rfl, hrest⟩ := List.cons.inj htext
        have hbefore : size before = n + 1 - c.utf8Size := by
          rw [size] at hsize
          omega
        rw [ih.2 ⟨hrest, hbefore⟩]
        rfl

/-- Inside a character of two bytes there is no place to cut. -/
example : cutAt 1 ['é'] = .error .insideCharacter := by rfl

theorem cutAt_size (before after : List Char) :
    cutAt (size before) (before ++ after) = .ok (before, after) :=
  cutAt_eq_ok.2 ⟨rfl, rfl⟩

theorem sliceFrom_size (before after : List Char) :
    sliceFrom (before ++ after) (size before) = .ok after := by
  rw [sliceFrom, cutAt_size]
  rfl

theorem sliceTo_size (before after : List Char) :
    sliceTo (before ++ after) (size before) = .ok before := by
  rw [sliceTo, cutAt_size]
  rfl

/-- What stands behind a mark of ASCII, which takes one byte. -/
theorem sliceFrom_mark (hc : c.toNat < 0x80) (before after : List Char) :
    sliceFrom (before ++ c :: after) (size before + 1) = .ok after := by
  have hsize : size (before ++ [c]) = size before + 1 := by
    rw [size_append, size_singleton hc]
  rw [← hsize, ← List.singleton_append, ← List.append_assoc, sliceFrom_size]

/-- A read at a good position does not stop a program. -/
theorem checked_ok_bind {ε α β : Type} (a : α) (f : α → Except (Stop ε) β) :
    (checked (.ok a) >>= f) = f a :=
  rfl

theorem slice_size (before part after : List Char) :
    slice (before ++ (part ++ after)) (size before) (size before + size part) = .ok part := by
  rw [← List.append_assoc, ← size_append, slice, cutAt_size]
  show (do let halves ← cutAt (size before) (before ++ part); return halves.2) = _
  rw [cutAt_size]
  rfl

/-! ## Places of a character -/

theorem find?_eq_some : find? c text = some position ↔
    ∃ before after, text = before ++ c :: after ∧ c ∉ before ∧ size before = position := by
  rw [find?, Option.map_eq_some_iff]
  constructor
  · rintro ⟨⟨before, after⟩, hcut, rfl⟩
    obtain ⟨htext, hbefore⟩ := cutWhere_separator_eq_some.1 hcut
    exact ⟨before, after, htext, hbefore, rfl⟩
  · rintro ⟨before, after, htext, hbefore, rfl⟩
    exact ⟨(before, after), cutWhere_separator_eq_some.2 ⟨htext, hbefore⟩, rfl⟩

theorem find?_eq_none : find? c text = none ↔ c ∉ text := by
  rw [find?, Option.map_eq_none_iff, cutWhere_eq_none]
  simp only [beq_eq_false_iff_ne]
  exact ⟨fun h hmem => h c hmem rfl, fun h d hd heq => h (heq ▸ hd)⟩

/-! ## Bytes and marks -/

/-- Characters of ASCII, which the marks of a grammar are. -/
def AreAscii (marks : List Char) : Prop :=
  ∀ mark ∈ marks, mark.toNat < 0x80

/-- Whether they are is told mark by mark. -/
instance (marks : List Char) : Decidable (AreAscii marks) :=
  List.decidableBAll _ marks

theorem areAscii_singleton {mark : Char} (hmark : mark.toNat < 0x80) : AreAscii [mark] :=
  List.forall_mem_singleton.2 hmark

/-- **A mark of ASCII** is told from every other character by any byte. -/
theorem isOneOf_of_mem (hmarks : AreAscii marks)
    (hb : b ∈ String.utf8EncodeChar c) : isOneOf marks b = decide (c ∈ marks) := by
  rw [Bool.eq_iff_iff, isOneOf, List.any_eq_true, decide_eq_true_iff]
  constructor
  · rintro ⟨mark, hmark, heq⟩
    obtain rfl := beq_iff_eq.1 heq
    have hascii := hmarks mark hmark
    have hnat : mark.toUInt8.toNat = mark.toNat :=
      Nat.mod_eq_of_lt (Nat.lt_trans hascii (by decide))
    rw [ascii_mem_utf8EncodeChar (hnat.symm ▸ hascii), hnat] at hb
    rwa [Char.toNat_inj.1 hb]
  · intro hc
    rw [utf8EncodeChar_eq_singleton (hmarks c hc), List.mem_singleton] at hb
    exact ⟨c, hc, beq_iff_eq.2 hb⟩

theorem isOneOf_toUInt8 (hmarks : AreAscii marks) (hc : c.toNat < 0x80) :
    isOneOf marks c.toUInt8 = decide (c ∈ marks) :=
  isOneOf_of_mem hmarks (by rw [utf8EncodeChar_eq_singleton hc]; exact List.mem_singleton_self _)

theorem isOneOf_singleton_eq_false {mark : Char} (hmark : mark.toNat < 0x80)
    (hb : b ∈ String.utf8EncodeChar c) (hc : c ≠ mark) : isOneOf [mark] b = false := by
  rw [isOneOf_of_mem (areAscii_singleton hmark) hb]
  exact decide_eq_false fun hmem => hc (List.mem_singleton.1 hmem)

theorem isOneOf_singleton_self {mark : Char} (hmark : mark.toNat < 0x80) :
    isOneOf [mark] mark.toUInt8 = true := by
  rw [isOneOf_toUInt8 (areAscii_singleton hmark) hmark]
  exact decide_eq_true (List.mem_singleton_self mark)

/-- The first byte of a text is one of its first character. -/
theorem exists_encoded_cons (c : Char) (rest : List Char) :
    ∃ b ∈ String.utf8EncodeChar c, ∃ more, encoded (c :: rest) = b :: more := by
  cases h : String.utf8EncodeChar c with
  | nil => exact absurd h (List.ne_nil_of_length_pos (by simpa using c.utf8Size_pos))
  | cons b more =>
    refine ⟨b, List.mem_cons_self, more ++ encoded rest, ?_⟩
    rw [encoded_cons, h]
    rfl

/-- Behind a start of a text stands a byte of the next character. -/
theorem byteAt_size (before : List Char) (c : Char) (rest : List Char) :
    ∃ b ∈ String.utf8EncodeChar c, byteAt (before ++ c :: rest) (size before) = .ok b := by
  obtain ⟨b, hb, more, hmore⟩ := exists_encoded_cons c rest
  refine ⟨b, hb, ?_⟩
  rw [byteAt, encoded_append, hmore, ← length_encoded, List.getElem?_append_right (Nat.le_refl _),
    Nat.sub_self]
  rfl

theorem isAt_encoded_cons (hmarks : AreAscii marks) (c : Char)
    (rest : List Char) : isAt marks (encoded (c :: rest)).head? = decide (c ∈ marks) := by
  obtain ⟨b, hb, more, hmore⟩ := exists_encoded_cons c rest
  rw [hmore, List.head?_cons, isAt, Option.any_some, isOneOf_of_mem hmarks hb]

/-- A mark stands where its character does. -/
theorem isAt_encoded (hmarks : AreAscii marks) (text : List Char) :
    isAt marks (encoded text).head? = true ↔ ∃ c rest, text = c :: rest ∧ c ∈ marks := by
  cases text with
  | nil => exact iff_of_false Bool.false_ne_true fun ⟨_, _, h, _⟩ => nomatch h
  | cons c rest =>
    rw [isAt_encoded_cons hmarks, decide_eq_true_iff]
    exact ⟨fun hc => ⟨c, rest, rfl, hc⟩, fun ⟨d, more, h, hd⟩ => (List.cons.inj h).1 ▸ hd⟩

theorem isAt_singleton_cons {mark : Char} (hmark : mark.toNat < 0x80) (c : Char)
    (rest : List Char) : isAt [mark] (encoded (c :: rest)).head? = decide (c = mark) := by
  rw [isAt_encoded_cons (areAscii_singleton hmark)]
  exact decide_eq_decide.2 List.mem_singleton

theorem exists_cons_of_isAt {mark : Char} (hmark : mark.toNat < 0x80)
    (h : isAt [mark] (encoded text).head? = true) : ∃ rest, text = mark :: rest := by
  obtain ⟨c, rest, htext, hc⟩ := (isAt_encoded (areAscii_singleton hmark) text).1 h
  exact ⟨rest, List.mem_singleton.1 hc ▸ htext⟩

/-- Bytes are all marks where their characters are. -/
theorem all_encoded (hmarks : AreAscii marks) (text : List Char) :
    (encoded text).all (isOneOf marks) = text.all fun c => decide (c ∈ marks) := by
  induction text with
  | nil => rfl
  | cons c text ih =>
    have hbytes : (String.utf8EncodeChar c).all (isOneOf marks) = decide (c ∈ marks) := by
      obtain ⟨b, hb, -⟩ := exists_encoded_cons c []
      rw [Bool.eq_iff_iff, List.all_eq_true]
      exact ⟨fun h => isOneOf_of_mem hmarks hb ▸ h b hb,
        fun h a ha => (isOneOf_of_mem hmarks ha).trans h⟩
    rw [encoded_cons, List.all_append, hbytes, ih, List.all_cons]

/-- **A run of bytes** up to a mark of ASCII is one of characters. -/
theorem takeWhile_encoded (hmarks : AreAscii marks) (text : List Char) :
    (encoded text).takeWhile (fun b => !isOneOf marks b) =
      encoded (text.takeWhile fun c => !decide (c ∈ marks)) := by
  induction text with
  | nil => rfl
  | cons c text ih =>
    by_cases hc : c ∈ marks
    · have hfirst : isOneOf marks c.toUInt8 = true := by
        rw [isOneOf_toUInt8 hmarks (hmarks c hc)]
        exact decide_eq_true hc
      rw [encoded_cons, utf8EncodeChar_eq_singleton (hmarks c hc), List.singleton_append,
        List.takeWhile_cons, List.takeWhile_cons, hfirst, decide_eq_true hc]
      rfl
    · have hbytes : ∀ b ∈ String.utf8EncodeChar c, (!isOneOf marks b) = true := by
        intro b hb
        rw [isOneOf_of_mem hmarks hb, decide_eq_false hc]
        rfl
      rw [encoded_cons, List.takeWhile_append_of_pos hbytes, ih, List.takeWhile_cons,
        decide_eq_false hc]
      exact (encoded_cons c _).symm

end JarGraph.Text
