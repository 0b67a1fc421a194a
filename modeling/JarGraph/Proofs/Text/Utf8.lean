import JarGraph.Text.Utf8
/-!
# Text as bytes

The bytes of a text are those of its characters one after the other. A
text is cut wherever its bytes are cut behind the bytes of another text
(`utf8Bytes_eq_append`), and a byte below 0x80 only stands for its own
character (`ascii_mem_utf8Bytes`), so that matching bytes against ASCII
marks is matching text.
-/

namespace JarGraph.Text

variable {start text more : String} {rest : Bytes} {c : Char}

theorem utf8Bytes_eq_flatMap (s : String) :
    utf8Bytes s = s.toList.flatMap String.utf8EncodeChar := by
  rw [utf8Bytes, String.toUTF8, ← String.utf8Encode_toList, List.utf8Encode,
    List.data_toByteArray, List.toList_toArray]

theorem utf8Bytes_append (s t : String) : utf8Bytes (s ++ t) = utf8Bytes s ++ utf8Bytes t := by
  rw [utf8Bytes_eq_flatMap, String.toList_append, List.flatMap_append, ← utf8Bytes_eq_flatMap,
    ← utf8Bytes_eq_flatMap]

/-- **Bytes that are cut behind a text** are those of a longer text. -/
theorem utf8Bytes_eq_append :
    utf8Bytes text = utf8Bytes start ++ rest ↔
      ∃ more, text = start ++ more ∧ rest = utf8Bytes more := by
  constructor
  · intro h
    have hencode : start.toList.utf8Encode ++ rest.toByteArray = text.toList.utf8Encode := by
      rw [utf8Bytes_eq_flatMap, utf8Bytes_eq_flatMap] at h
      rw [List.utf8Encode, List.utf8Encode, h, List.toByteArray_append]
    obtain ⟨more, hmore⟩ := List.isPrefix_of_utf8Encode_append_eq_utf8Encode _ hencode
    have htext : text = start ++ String.ofList more := by
      rw [← String.toList_inj, String.toList_append, String.toList_ofList, hmore]
    rw [htext, utf8Bytes_append] at h
    exact ⟨String.ofList more, htext, (List.append_cancel_left h).symm⟩
  · rintro ⟨more, rfl, rfl⟩
    exact utf8Bytes_append start more

/-- The bytes of a character beyond ASCII are all beyond ASCII. -/
theorem le_of_mem_utf8EncodeChar {b : UInt8} (hc : 0x80 ≤ c.toNat)
    (hb : b ∈ String.utf8EncodeChar c) : 0x80 ≤ b.toNat := by
  have hval : c.val.toNat = c.toNat := rfl
  rw [String.utf8EncodeChar, hval] at hb
  split at hb
  · omega
  split at hb
  · simp only [List.mem_cons, List.not_mem_nil, or_false] at hb
    rcases hb with rfl | rfl <;> rw [UInt8.toNat_ofNat'] <;> omega
  split at hb
  · simp only [List.mem_cons, List.not_mem_nil, or_false] at hb
    rcases hb with rfl | rfl | rfl <;> rw [UInt8.toNat_ofNat'] <;> omega
  · simp only [List.mem_cons, List.not_mem_nil, or_false] at hb
    rcases hb with rfl | rfl | rfl | rfl <;> rw [UInt8.toNat_ofNat'] <;> omega

theorem ascii_mem_utf8EncodeChar {b : UInt8} (hb : b.toNat < 0x80) :
    b ∈ String.utf8EncodeChar c ↔ c.toNat = b.toNat := by
  rcases Nat.lt_or_ge c.toNat 0x80 with hc | hc
  · have hval : c.val.toNat = c.toNat := rfl
    have hbyte : (UInt8.ofNat c.toNat).toNat = c.toNat :=
      UInt8.toNat_ofNat_of_lt' (Nat.lt_trans hc (by decide))
    rw [String.utf8EncodeChar, hval, if_pos (Nat.le_of_lt_succ hc), List.mem_singleton,
      ← UInt8.toNat_inj, hbyte, eq_comm]
  · have hne : c.toNat ≠ b.toNat := by omega
    refine iff_of_false (fun hmem => ?_) hne
    have hle := le_of_mem_utf8EncodeChar hc hmem
    omega

/-- **An ASCII byte** stands for its own character only. -/
theorem ascii_mem_utf8Bytes (hc : c.toNat < 0x80) :
    UInt8.ofNat c.toNat ∈ utf8Bytes text ↔ c ∈ text.toList := by
  have hbyte : (UInt8.ofNat c.toNat).toNat = c.toNat :=
    UInt8.toNat_ofNat_of_lt' (Nat.lt_trans hc (by decide))
  rw [utf8Bytes_eq_flatMap, List.mem_flatMap]
  constructor
  · rintro ⟨d, hd, hmem⟩
    rw [ascii_mem_utf8EncodeChar (hbyte.symm ▸ hc), hbyte] at hmem
    rwa [← Char.toNat_inj.1 hmem]
  · intro hmem
    exact ⟨c, hmem, (ascii_mem_utf8EncodeChar (hbyte.symm ▸ hc)).2 hbyte.symm⟩

end JarGraph.Text
