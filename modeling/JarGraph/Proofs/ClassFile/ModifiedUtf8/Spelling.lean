import JarGraph.Proofs.ClassFile.ModifiedUtf8
/-!
# What text constants spell

Bytes are the text of a constant exactly if they split into proper
groups, and the text is then what the units of the groups spell
(`decodeGroups_eq_ok`). Splitting goes from the front, and no byte can
start groups of two lengths, so a decoder that looks at one group at a
time misses no splitting. Spelling is a relation of units to characters,
and the characters of a sequence of units are the only ones that stand
in it (`spells_iff`).

What was written unit by unit is decoded as what the units spell, halves
of pairs included (`decode_encode`).
-/

namespace JarGraph.ClassFile.ModifiedUtf8

variable {a b : UInt8} {data rest : Bytes} {u v : UInt16} {units : List UInt16} {cs : List Char}

/-! ## Groups of bytes -/

theorem le_of_isContinuation (h : isContinuation b = true) : 0x80 ≤ b ∧ b ≤ 0xBF := by
  rw [isContinuation, Bool.and_eq_true, decide_eq_true_eq, decide_eq_true_eq] at h
  rw [UInt8.le_iff_toNat_le, UInt8.le_iff_toNat_le]
  exact ⟨h.1, Nat.le_of_lt_succ h.2⟩

/-- Bytes split into proper groups that write the units. -/
def Writes (data : Bytes) (units : List UInt16) : Prop :=
  ∃ groups : List Group, (∀ g ∈ groups, g.IsProper) ∧ data = groups.flatMap Group.bytes ∧
    units = groups.map Group.unit

theorem Writes.nil : Writes [] [] :=
  ⟨[], by simp, rfl, rfl⟩

/-- One more proper group in front writes one more unit. -/
theorem Writes.cons {g : Group} (hg : g.IsProper) (h : Writes rest units) :
    Writes (g.bytes ++ rest) (g.unit :: units) := by
  obtain ⟨groups, hproper, rfl, rfl⟩ := h
  exact ⟨g :: groups, List.forall_mem_cons.2 ⟨hg, hproper⟩, rfl, rfl⟩

/-- What is decoded behind a proper group is written together with it. -/
theorem writes_of_map {g : Group} (hg : g.IsProper)
    (ih : ∀ {units}, units? rest = some units → Writes rest units)
    (h : (units? rest).map (g.unit :: ·) = some units) : Writes (g.bytes ++ rest) units := by
  obtain ⟨more, hmore, rfl⟩ := Option.map_eq_some_iff.1 h
  exact .cons hg (ih hmore)

/-- **Bytes that are decoded split into proper groups.** -/
theorem writes_of_units? (h : units? data = some units) : Writes data units := by
  -- The first byte tells how long its group is; each length that is accepted is one case.
  fun_induction units? data generalizing units with
  | case1 =>
    obtain rfl := Option.some.inj h
    exact .nil
  | case2 => cases h
  | case3 a rest hlt hne ih =>
    have hproper : (Group.one a).IsProper := by
      rw [Group.IsProper, UInt8.le_iff_toNat_le, UInt8.le_iff_toNat_le]
      exact ⟨Nat.pos_of_ne_zero hne, Nat.le_of_lt_succ hlt⟩
    have hunit : (Group.one a).unit = UInt16.ofNat a.toNat := by simp [Group.unit]
    rw [← hunit] at h
    exact writes_of_map hproper ih h
  | case4 a hlt hrange b rest hb ih =>
    rw [Bool.and_eq_true, decide_eq_true_eq, decide_eq_true_eq] at hrange
    have hproper : (Group.two a b).IsProper := by
      rw [Group.IsProper, UInt8.le_iff_toNat_le, UInt8.le_iff_toNat_le (a := a)]
      exact ⟨⟨hrange.1, Nat.le_of_lt_succ hrange.2⟩, le_of_isContinuation hb⟩
    rw [← unit_two] at h
    exact writes_of_map hproper ih h
  | case5 => cases h
  | case6 => cases h
  | case7 a hlt htwo hrange b c rest hmore ih =>
    rw [Bool.and_eq_true, decide_eq_true_eq, decide_eq_true_eq] at hrange
    rw [Bool.and_eq_true] at hmore
    have hproper : (Group.three a b c).IsProper := by
      rw [Group.IsProper, UInt8.le_iff_toNat_le, UInt8.le_iff_toNat_le (a := a)]
      exact ⟨⟨hrange.1, Nat.le_of_lt_succ hrange.2⟩, le_of_isContinuation hmore.1,
        le_of_isContinuation hmore.2⟩
    rw [← unit_three] at h
    exact writes_of_map hproper ih h
  | case8 => cases h
  | case9 => cases h
  | case10 => cases h

theorem units?_eq_some : units? data = some units ↔ Writes data units := by
  refine ⟨writes_of_units?, ?_⟩
  rintro ⟨groups, hproper, rfl, rfl⟩
  exact units?_flatMap_bytes hproper

/-! ## Units and characters -/

theorem isHigh_iff : isHigh u = true ↔ 0xD800 ≤ u ∧ u < 0xDC00 := by
  rw [isHigh, Bool.and_eq_true, decide_eq_true_eq, decide_eq_true_eq, UInt16.le_iff_toNat_le,
    UInt16.lt_iff_toNat_lt]
  rfl

theorem isLow_iff : isLow u = true ↔ 0xDC00 ≤ u ∧ u < 0xE000 := by
  rw [isLow, Bool.and_eq_true, decide_eq_true_eq, decide_eq_true_eq, UInt16.le_iff_toNat_le,
    UInt16.lt_iff_toNat_lt]
  rfl

theorem toNat_ofNat_of_isValidChar {n : Nat} (h : n.isValidChar) : (Char.ofNat n).toNat = n := by
  rw [Char.ofNat, dif_pos h]
  rfl

/-- A unit that is half of no pair is the number of a character. -/
theorem toNat_plain (hhigh : isHigh u = false) (hlow : isLow u = false) :
    (Char.ofNat u.toNat).toNat = u.toNat := by
  have hbound := u.toNat_lt
  have hvalid : u.toNat.isValidChar := by
    simp only [isHigh, isLow, Bool.and_eq_false_iff, decide_eq_false_iff_not] at hhigh hlow
    simp only [Nat.isValidChar]
    omega
  exact toNat_ofNat_of_isValidChar hvalid

/-- Two halves are the number of a character beyond the basic plane. -/
theorem toNat_joined (hhigh : isHigh u = true) (hlow : isLow v = true) :
    (joined u v).toNat = 0x10000 + (u.toNat - 0xD800) * 0x400 + (v.toNat - 0xDC00) := by
  simp only [isHigh, isLow, Bool.and_eq_true, decide_eq_true_eq] at hhigh hlow
  have hvalid : (0x10000 + (u.toNat - 0xD800) * 1024 + (v.toNat - 0xDC00)).isValidChar := by
    simp only [Nat.isValidChar]
    omega
  exact toNat_ofNat_of_isValidChar hvalid

/-- No character has the number of half a pair. -/
theorem not_half_of_char {c : Char} (h : c.toNat = u.toNat) :
    isHigh u = false ∧ isLow u = false := by
  have hvalid : c.toNat.isValidChar := c.valid
  rw [h] at hvalid
  simp only [Nat.isValidChar] at hvalid
  simp only [isHigh, isLow, Bool.and_eq_false_iff, decide_eq_false_iff_not]
  omega

theorem not_isLow_of_isHigh (h : isHigh u = true) : isLow u = false := by
  simp only [isHigh, Bool.and_eq_true, decide_eq_true_eq] at h
  simp only [isLow, Bool.and_eq_false_iff, decide_eq_false_iff_not]
  omega

/-- The characters of units stand in what the units spell. -/
theorem spells_chars (units : List UInt16) : Spells units (chars units) := by
  fun_induction chars units with
  | case1 => exact .nil
  | case2 u hhigh v rest hlow ih =>
    obtain ⟨hu, hu'⟩ := isHigh_iff.1 hhigh
    obtain ⟨hv, hv'⟩ := isLow_iff.1 hlow
    exact .pair hu hu' hv hv' (toNat_joined hhigh hlow) ih
  | case3 u hhigh v rest hlow ih =>
    obtain ⟨hu, hu'⟩ := isHigh_iff.1 hhigh
    refine .loneHigh hu hu' (fun w hw hrange => hlow ?_) ih
    obtain rfl := Option.some.inj hw
    exact isLow_iff.2 hrange
  | case4 u hhigh =>
    obtain ⟨hu, hu'⟩ := isHigh_iff.1 hhigh
    exact .loneHigh hu hu' (fun w hw => nomatch hw) .nil
  | case5 u rest hhigh hlow ih =>
    obtain ⟨hu, hu'⟩ := isLow_iff.1 hlow
    exact .loneLow hu hu' ih
  | case6 u rest hhigh hlow ih =>
    exact .plain (toNat_plain (Bool.eq_false_iff.2 hhigh) (Bool.eq_false_iff.2 hlow)) ih

/-- Units spell nothing else. -/
theorem Spells.eq_chars (h : Spells units cs) : cs = chars units := by
  induction h with
  | nil => rfl
  | @plain u c units cs hnumber _ ih =>
    obtain ⟨hhigh, hlow⟩ := not_half_of_char hnumber
    rw [chars_single hhigh hlow, ← ih, ← hnumber, Char.ofNat_toNat]
  | @pair u v c units cs hu hu' hv hv' hnumber _ ih =>
    have hhigh := isHigh_iff.2 ⟨hu, hu'⟩
    have hlow := isLow_iff.2 ⟨hv, hv'⟩
    have hchar : c = joined u v := by
      rw [← Char.ofNat_toNat c, hnumber, ← toNat_joined hhigh hlow, Char.ofNat_toNat]
    rw [chars.eq_def]
    simp only [if_pos hhigh, if_pos hlow, hchar, ih]
  | @loneHigh u units cs hu hu' hnext _ ih =>
    have hhigh := isHigh_iff.2 ⟨hu, hu'⟩
    rw [chars.eq_def]
    -- The decoder only looks further if there is a next unit.
    cases units with
    | nil => simp only [if_pos hhigh, ih]; rfl
    | cons v units =>
      have hlow : ¬ isLow v = true := fun hlow => hnext v rfl (isLow_iff.1 hlow)
      simp only [if_pos hhigh, if_neg hlow, ih]
      rfl
  | @loneLow u units cs hu hu' _ ih =>
    have hlow := isLow_iff.2 ⟨hu, hu'⟩
    have hhigh : ¬ isHigh u = true := fun hhigh => by
      rw [not_isLow_of_isHigh hhigh] at hlow
      cases hlow
    rw [chars.eq_def]
    simp only [if_neg hhigh, if_pos hlow, ih]
    rfl

theorem spells_iff : Spells units cs ↔ cs = chars units :=
  ⟨Spells.eq_chars, fun h => h ▸ spells_chars units⟩

/-- **Decoding** finds the text that the units of some splitting into proper groups spell. -/
theorem decodeGroups_eq_ok {text : String} :
    decodeGroups data = .ok text ↔ ∃ units, Writes data units ∧ Spells units text.toList := by
  unfold decodeGroups
  constructor
  · intro h
    split at h
    · rename_i units hunits
      obtain rfl := Except.ok.inj h
      exact ⟨units, units?_eq_some.1 hunits, spells_iff.2 String.toList_ofList⟩
    · cases h
  · rintro ⟨units, hwrites, hspells⟩
    have htext : String.ofList (chars units) = text := by
      rw [← spells_iff.1 hspells, String.ofList_toList]
    rw [units?_eq_some.2 hwrites]
    exact congrArg Except.ok htext

/-! ## Writing -/

/-- The shortest group of a unit, except that zero takes two bytes. -/
def Group.ofUnit (u : UInt16) : Group :=
  if 0 < u.toNat ∧ u.toNat < 0x80 then .one (UInt8.ofNat u.toNat)
  else if u.toNat < 0x800 then
    .two (UInt8.ofNat (0xC0 + u.toNat / 64)) (UInt8.ofNat (0x80 + u.toNat % 64))
  else
    .three (UInt8.ofNat (0xE0 + u.toNat / 4096)) (UInt8.ofNat (0x80 + u.toNat / 64 % 64))
      (UInt8.ofNat (0x80 + u.toNat % 64))

theorem bytes_ofUnit (u : UInt16) : (Group.ofUnit u).bytes = encodeUnit u := by
  unfold Group.ofUnit encodeUnit
  simp only [Bool.and_eq_true, decide_eq_true_eq]
  split
  · rfl
  · split <;> rfl

/-- A number in the range of a byte lies in the same range as a byte. -/
theorem le_ofNat_le (low high : Nat) {n : Nat} (hlow : low ≤ n) (hhigh : n ≤ high)
    (hbyte : high < 256) :
    UInt8.ofNat low ≤ UInt8.ofNat n ∧ UInt8.ofNat n ≤ UInt8.ofNat high := by
  have hn : n < 256 := Nat.lt_of_le_of_lt hhigh hbyte
  rw [UInt8.le_iff_toNat_le, UInt8.le_iff_toNat_le, UInt8.toNat_ofNat_of_lt' hn,
    UInt8.toNat_ofNat_of_lt' (Nat.lt_of_le_of_lt hlow hn), UInt8.toNat_ofNat_of_lt' hbyte]
  exact ⟨hlow, hhigh⟩

/-- Six bits of a number make a continuation byte. -/
theorem continuation_ofNat (n : Nat) :
    0x80 ≤ UInt8.ofNat (0x80 + n % 64) ∧ UInt8.ofNat (0x80 + n % 64) ≤ 0xBF :=
  le_ofNat_le 0x80 0xBF (by omega) (by omega) (by decide)

theorem isProper_ofUnit (u : UInt16) : (Group.ofUnit u).IsProper := by
  have hbound := u.toNat_lt
  unfold Group.ofUnit
  split
  · rename_i h
    exact le_ofNat_le 0x01 0x7F h.1 (Nat.le_of_lt_succ h.2) (by decide)
  · split
    · have hlow := continuation_ofNat u.toNat
      exact ⟨le_ofNat_le 0xC0 0xDF (by omega) (by omega) (by decide), hlow⟩
    · have hmiddle := continuation_ofNat (u.toNat / 64)
      have hlow := continuation_ofNat u.toNat
      exact ⟨le_ofNat_le 0xE0 0xEF (by omega) (by omega) (by decide), hmiddle,
        hlow⟩

theorem unit_ofUnit (u : UInt16) : (Group.ofUnit u).unit = u := by
  have hbound := u.toNat_lt
  apply UInt16.toNat_inj.1
  unfold Group.ofUnit
  split
  · rename_i h
    rw [Group.unit, UInt8.toNat_toUInt16, UInt8.toNat_ofNat_of_lt' (Nat.lt_trans h.2 (by decide))]
  · split
    · rw [unit_two, UInt16.toNat_ofNat', payload, UInt8.toNat_ofNat', UInt8.toNat_ofNat']
      omega
    · rw [unit_three, UInt16.toNat_ofNat', payload, payload, UInt8.toNat_ofNat',
        UInt8.toNat_ofNat', UInt8.toNat_ofNat']
      omega

theorem writes_encode (units : List UInt16) : Writes (encode units) units := by
  induction units with
  | nil => exact .nil
  | cons u units ih =>
    have hcons := ih.cons (isProper_ofUnit u)
    rwa [bytes_ofUnit, unit_ofUnit] at hcons

/-- **What was written unit by unit** is decoded as what the units spell. -/
theorem decode_encode (units : List UInt16) :
    decode (encode units) = .ok (String.ofList (chars units)) := by
  rw [decode_eq, decodeGroups_eq_ok, String.toList_ofList]
  exact ⟨units, writes_encode units, spells_chars units⟩

/-- **Text constants.** Bytes are a text exactly if they split into proper groups, and the text is
what the units of the groups spell. Plain bytes are always a text, and reading them as UTF-8 gives
the one of their groups. Every sequence of units can be written, and what it spells is read back. -/
theorem decode_spells :
    (∀ data, (∃ text, decode data = .ok text) ↔
      ∃ groups : List Group, (∀ g ∈ groups, g.IsProper) ∧ data = groups.flatMap Group.bytes) ∧
    (∀ data text, decode data = .ok text ↔
      ∃ groups : List Group, (∀ g ∈ groups, g.IsProper) ∧ data = groups.flatMap Group.bytes ∧
        Spells (groups.map Group.unit) text.toList) ∧
    (∀ data, data.all isPlain = true →
      ∃ text, decodePlain data = .ok text ∧ decodeGroups data = .ok text) ∧
    ∀ units, ∃ text, decode (encode units) = .ok text ∧ Spells units text.toList := by
  have hread : ∀ data text, decode data = .ok text ↔
      ∃ groups : List Group, (∀ g ∈ groups, g.IsProper) ∧ data = groups.flatMap Group.bytes ∧
        Spells (groups.map Group.unit) text.toList := by
    intro data text
    rw [decode_eq, decodeGroups_eq_ok]
    constructor
    · rintro ⟨units, ⟨groups, hproper, hdata, rfl⟩, hspells⟩
      exact ⟨groups, hproper, hdata, hspells⟩
    · rintro ⟨groups, hproper, hdata, hspells⟩
      exact ⟨_, ⟨groups, hproper, hdata, rfl⟩, hspells⟩
  refine ⟨fun data => ?_, hread, fun data hplain => exists_plain hplain, fun units => ?_⟩
  · constructor
    · rintro ⟨text, htext⟩
      obtain ⟨groups, hproper, hdata, -⟩ := (hread data text).1 htext
      exact ⟨groups, hproper, hdata⟩
    · rintro ⟨groups, hproper, hdata⟩
      have hspells := spells_chars (groups.map Group.unit)
      rw [← String.toList_ofList (l := chars _)] at hspells
      exact ⟨_, (hread data _).2 ⟨groups, hproper, hdata, hspells⟩⟩
  · have hspells := spells_chars units
    rw [← String.toList_ofList (l := chars units)] at hspells
    exact ⟨_, decode_encode units, hspells⟩

/-- The two bytes of `AZ` are plain. -/
theorem decode_spells_plain :
    List.all [0x41, 0x5A] isPlain = true ∧
      ∃ text, decodePlain [0x41, 0x5A] = .ok text ∧ decodeGroups [0x41, 0x5A] = .ok text :=
  ⟨by decide, decode_spells.2.2.1 [0x41, 0x5A] (by decide)⟩

/-- A zero, a pair and its first half alone. -/
example : decode [0xC0, 0x80, 0xED, 0xA0, 0xBD, 0xED, 0xB8, 0x80, 0xED, 0xA0, 0xBD] =
    .ok (String.ofList ['\x00', Char.ofNat 0x1F600, '\uFFFD']) :=
  rfl

end JarGraph.ClassFile.ModifiedUtf8
