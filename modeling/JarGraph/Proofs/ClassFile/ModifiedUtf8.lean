import JarGraph.ClassFile.ModifiedUtf8.Group
import Mathlib.Algebra.Group.Nat.Defs
/-!
# Groups of modified UTF-8

A proper group at the front of some bytes is decoded as its unit, and
decoding goes on behind it (`units?_bytes_append`). Where all groups are
single bytes these are UTF-8, and both readings give the same text
(`decode_eq`).
-/

namespace JarGraph.ClassFile.ModifiedUtf8

/-- The low bits that a group keeps of a byte. -/
theorem toNat_masked (a m : UInt8) (k : Nat) (hm : m.toNat = 2 ^ k - 1) :
    (a &&& m).toUInt16.toNat = a.toNat % 2 ^ k := by
  rw [UInt8.toNat_toUInt16, UInt8.toNat_and, hm, Nat.and_two_pow_sub_one_eq_mod]

/-- Bits that are moved up beside lower ones stand for a sum. -/
theorem toNat_shiftLeft_or {high low k : UInt16} (hk : k.toNat < 16) (hlow : low.toNat < 2 ^ k.toNat)
    (hhigh : high.toNat * 2 ^ k.toNat < 2 ^ 16) :
    (high <<< k ||| low).toNat = high.toNat * 2 ^ k.toNat + low.toNat := by
  rw [UInt16.toNat_or, UInt16.toNat_shiftLeft, Nat.mod_eq_of_lt hk, Nat.shiftLeft_eq,
    Nat.mod_eq_of_lt hhigh, ← Nat.shiftLeft_eq, ← Nat.shiftLeft_add_eq_or_of_lt hlow]

/-- The unit of two bytes, as decoding computes it. -/
theorem unit_two (a b : UInt8) :
    (Group.two a b).unit = UInt16.ofNat (a.toNat % 32 * 64 + payload b) := by
  have ha := toNat_masked a 0x1F 5 rfl
  have hb := toNat_masked b 0x3F 6 rfl
  apply UInt16.toNat_inj.1
  rw [Group.unit, toNat_shiftLeft_or (by decide) (by rw [hb]; exact Nat.mod_lt _ (by decide))
    (by rw [ha]; change _ * 64 < 65536; omega), ha, hb, UInt16.toNat_ofNat', payload]
  change _ * 64 + _ = _
  omega

/-- The unit of three bytes, as decoding computes it. -/
theorem unit_three (a b c : UInt8) :
    (Group.three a b c).unit =
      UInt16.ofNat (a.toNat % 16 * 4096 + payload b * 64 + payload c) := by
  have ha := toNat_masked a 0x0F 4 rfl
  have hb := toNat_masked b 0x3F 6 rfl
  have hc := toNat_masked c 0x3F 6 rfl
  have hlow : ((b &&& 0x3F).toUInt16 <<< 6 ||| (c &&& 0x3F).toUInt16).toNat =
      b.toNat % 64 * 64 + c.toNat % 64 := by
    rw [toNat_shiftLeft_or (by decide) (by rw [hc]; exact Nat.mod_lt _ (by decide))
      (by rw [hb]; change _ * 64 < 65536; omega), hb, hc]
    rfl
  apply UInt16.toNat_inj.1
  rw [Group.unit, UInt16.or_assoc, toNat_shiftLeft_or (by decide)
    (by rw [hlow]; change _ < 4096; omega) (by rw [ha]; change _ * 4096 < 65536; omega), hlow, ha,
    UInt16.toNat_ofNat', payload, payload]
  change _ * 4096 + _ = _
  omega

theorem isContinuation_of_le {b : UInt8} (h : 0x80 ≤ b ∧ b ≤ 0xBF) : isContinuation b = true := by
  obtain ⟨h₁, h₂⟩ := h
  rw [UInt8.le_iff_toNat_le] at h₁ h₂
  simp only [isContinuation, Bool.and_eq_true, decide_eq_true_eq]
  exact ⟨h₁, Nat.lt_succ_of_le h₂⟩

/-- **A proper group is decoded as its unit**, and decoding goes on behind it. -/
theorem units?_bytes_append {g : Group} (h : g.IsProper) (rest : Bytes) :
    units? (g.bytes ++ rest) = (units? rest).map (g.unit :: ·) := by
  cases g with
  | one a =>
    obtain ⟨h₁, h₂⟩ := h
    rw [UInt8.le_iff_toNat_le] at h₁ h₂
    have hlow : a.toNat < 0x80 := Nat.lt_succ_of_le h₂
    have hne : a.toNat ≠ 0 := Nat.ne_of_gt h₁
    change units? (a :: rest) = _
    rw [units?.eq_def]
    have hunit : (Group.one a).unit = UInt16.ofNat a.toNat := by simp [Group.unit]
    simp only [if_pos hlow, if_neg hne, hunit]
  | two a b =>
    obtain ⟨⟨h₁, h₂⟩, hb⟩ := h
    rw [UInt8.le_iff_toNat_le] at h₁ h₂
    have hhigh : ¬ a.toNat < 0x80 := Nat.not_lt.2 (Nat.le_trans (by decide) h₁)
    have hrange : (decide (0xC0 ≤ a.toNat) && decide (a.toNat < 0xE0)) = true := by
      rw [Bool.and_eq_true, decide_eq_true_eq, decide_eq_true_eq]
      exact ⟨h₁, Nat.lt_succ_of_le h₂⟩
    simp only [Group.bytes, List.cons_append, List.nil_append, units?, if_neg hhigh, if_pos hrange,
      isContinuation_of_le hb, unit_two]
    rfl
  | three a b c =>
    obtain ⟨⟨h₁, h₂⟩, hb, hc⟩ := h
    rw [UInt8.le_iff_toNat_le] at h₁ h₂
    have hhigh : ¬ a.toNat < 0x80 := Nat.not_lt.2 (Nat.le_trans (by decide) h₁)
    have htwo : ¬ (decide (0xC0 ≤ a.toNat) && decide (a.toNat < 0xE0)) = true := by
      rw [Bool.and_eq_true, decide_eq_true_eq, decide_eq_true_eq]
      exact fun hlt => absurd hlt.2 (Nat.not_lt.2 h₁)
    have hrange : (decide (0xE0 ≤ a.toNat) && decide (a.toNat < 0xF0)) = true := by
      rw [Bool.and_eq_true, decide_eq_true_eq, decide_eq_true_eq]
      exact ⟨h₁, Nat.lt_succ_of_le h₂⟩
    simp only [Group.bytes, List.cons_append, List.nil_append, units?, if_neg hhigh, if_neg htwo,
      if_pos hrange, isContinuation_of_le hb, isContinuation_of_le hc, unit_three]
    rfl

/-- **Proper groups in a row are decoded as their units.** -/
theorem units?_flatMap_bytes {groups : List Group} (h : ∀ g ∈ groups, g.IsProper) :
    units? (groups.flatMap Group.bytes) = some (groups.map Group.unit) := by
  induction groups with
  | nil => rfl
  | cons g groups ih =>
    rw [List.flatMap_cons, units?_bytes_append (h g List.mem_cons_self),
      ih fun g' hg => h g' (List.mem_cons_of_mem _ hg)]
    rfl

/-! ## Plain bytes -/

variable {b : UInt8} {data : Bytes}

theorem isPlain_iff : isPlain b = true ↔ b.toNat ≠ 0 ∧ b.toNat < 0x80 := by
  rw [isPlain, Bool.and_eq_true, bne_iff_ne, decide_eq_true_eq]

/-- Plain bytes are the characters of their numbers in UTF-8. -/
theorem utf8?_of_plain (h : ∀ b ∈ data, isPlain b = true) :
    Text.utf8? data = some (String.ofList (data.map fun b => Char.ofNat b.toNat)) := by
  have hchars : (Text.utf8Chars data).mapM id =
      some (data.map fun b => Char.ofNat b.toNat) := by
    induction data with
    | nil => rfl
    | cons b data ih =>
      obtain ⟨hb, hdata⟩ := List.forall_mem_cons.1 h
      rw [Text.utf8Chars.eq_def]
      simp only [if_pos (isPlain_iff.1 hb).2, List.mapM_cons, ih hdata]
      rfl
  rw [Text.utf8?, hchars, Option.map_some]

/-- Plain bytes are the units of their numbers. -/
theorem units?_of_plain (h : ∀ b ∈ data, isPlain b = true) :
    units? data = some (data.map fun b => UInt16.ofNat b.toNat) := by
  induction data with
  | nil => rfl
  | cons b data ih =>
    obtain ⟨hb, hdata⟩ := List.forall_mem_cons.1 h
    obtain ⟨hne, hlt⟩ := isPlain_iff.1 hb
    rw [units?.eq_def]
    simp only [if_pos hlt, if_neg hne, ih hdata]
    rfl

/-- A unit that is half of no pair is the number of its character. -/
theorem chars_single {u : UInt16} (hhigh : isHigh u = false) (hlow : isLow u = false)
    (units : List UInt16) : chars (u :: units) = Char.ofNat u.toNat :: chars units := by
  rw [chars.eq_def]
  simp only [hhigh, hlow, if_neg Bool.false_ne_true]

/-- The units of plain bytes are no halves of pairs. -/
theorem chars_of_plain (h : ∀ b ∈ data, isPlain b = true) :
    chars (data.map fun b => UInt16.ofNat b.toNat) = data.map fun b => Char.ofNat b.toNat := by
  induction data with
  | nil => rfl
  | cons b data ih =>
    obtain ⟨hb, hdata⟩ := List.forall_mem_cons.1 h
    have hlt := (isPlain_iff.1 hb).2
    have hunit : (UInt16.ofNat b.toNat).toNat = b.toNat :=
      UInt16.toNat_ofNat_of_lt' (Nat.lt_trans hlt (by decide))
    have hhigh : isHigh (UInt16.ofNat b.toNat) = false := by
      rw [isHigh, hunit, decide_eq_false (by omega), Bool.false_and]
    have hlow : isLow (UInt16.ofNat b.toNat) = false := by
      rw [isLow, hunit, decide_eq_false (by omega), Bool.false_and]
    rw [List.map_cons, chars_single hhigh hlow, hunit, ih hdata, List.map_cons]

/-- **Plain bytes are read alike** as UTF-8 and as groups, and always as some text. -/
theorem exists_plain (h : data.all isPlain = true) :
    ∃ text, decodePlain data = .ok text ∧ decodeGroups data = .ok text := by
  have hplain := List.all_eq_true.1 h
  refine ⟨String.ofList (data.map fun b => Char.ofNat b.toNat), ?_, ?_⟩
  · rw [decodePlain, utf8?_of_plain hplain]
  · rw [decodeGroups, units?_of_plain hplain, ← chars_of_plain hplain]

theorem decode_eq (data : Bytes) : decode data = decodeGroups data := by
  unfold decode
  split
  · rename_i hplain
    obtain ⟨text, hread, hgroups⟩ := exists_plain hplain
    rw [hread, hgroups]
  · rfl

end JarGraph.ClassFile.ModifiedUtf8
