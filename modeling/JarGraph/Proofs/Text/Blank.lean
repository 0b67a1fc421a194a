import JarGraph.Text.Blank
import Mathlib.Data.List.Basic
import Mathlib.Data.List.TakeWhile
/-!
# Text without blanks at its ends

Trimming leaves a text as it is exactly where no blank stands at the end
that is trimmed.
-/

namespace JarGraph.Text

variable {text : List Char} {s t : String}

theorem trimStart_eq_self_iff :
    trimStart text = text ↔ ∀ c, text.head? = some c → isBlank c = false := by
  cases text with
  | nil => simp [trimStart]
  | cons c text =>
    rw [trimStart, List.dropWhile_eq_self_iff]
    simp

theorem trimEnd_eq_self_iff :
    trimEnd text = text ↔ ∀ c, text.getLast? = some c → isBlank c = false := by
  rw [trimEnd, List.reverse_eq_iff, ← trimStart, trimStart_eq_self_iff, List.head?_reverse]

theorem length_trimEnd_le : (trimEnd text).length ≤ text.length := by
  rw [trimEnd, List.length_reverse]
  calc (text.reverse.dropWhile isBlank).length ≤ text.reverse.length :=
        List.length_dropWhile_le _ _
    _ = text.length := List.length_reverse

/-- A text that trimming leaves as it is starts with no blank. -/
theorem trimStart_of_trim (h : trim text = text) : trimStart text = text := by
  have hstart : trimStart text <:+ text := List.dropWhile_suffix _
  have hlength : text.length ≤ (trimStart text).length := by
    calc text.length = (trim text).length := by rw [h]
      _ ≤ (trimStart text).length := length_trimEnd_le
  exact hstart.eq_of_length_le hlength

/-- Nor does it end with one. -/
theorem trimEnd_of_trim (h : trim text = text) : trimEnd text = text := by
  rw [trim, trimStart_of_trim h] at h
  exact h

theorem trimmed_eq_self_iff : trimmed s = s ↔ trim s.toList = s.toList := by
  rw [trimmed, ← String.toList_inj, String.toList_ofList]

/-- Two texts without blanks at their ends make up a third one. -/
theorem trimmed_append (hs : trimmed s = s) (ht : trimmed t = t) (hs' : s ≠ "") (ht' : t ≠ "") :
    trimmed (s ++ t) = s ++ t := by
  have hstart := trimStart_eq_self_iff.1 (trimStart_of_trim (trimmed_eq_self_iff.1 hs))
  have hend := trimEnd_eq_self_iff.1 (trimEnd_of_trim (trimmed_eq_self_iff.1 ht))
  rw [Ne, ← String.toList_eq_nil_iff] at hs' ht'
  have htext : trimStart (s ++ t).toList = (s ++ t).toList := by
    rw [trimStart_eq_self_iff, String.toList_append, List.head?_append_of_ne_nil _ hs']
    exact hstart
  rw [trimmed_eq_self_iff, trim, htext, trimEnd_eq_self_iff, String.toList_append,
    List.getLast?_append_of_ne_nil _ ht']
  exact hend

end JarGraph.Text
