import JarGraph.Proofs.Artifact.Group
import Mathlib.Data.Nat.Find
/-!
# The row of segments that packages have in common

Where no usable group is declared, the packages of an archive name it.
The loop comes to the longest row of segments of the first package that
all of them start with, character for character. This is never less than
the row of segments that they have in common, and it is that row exactly
where every package ends with it or goes on with a new segment
(`commonPackagePrefix_of_common`). A package that goes on within the last
segment, as `a.bc` goes on from `a.b`, is not told from one that does not,
so that more can come out than the packages have in common
(`exists_common_exceeded`).
-/

namespace JarGraph.Artifact

variable {row text first found : List Char}
variable {packages more : List (List Char)}
variable {initial : Option String} {names : List String}

/-! ## Rows as lists of segments -/

/-- A row leads a text if its segments are the first ones of the text. -/
theorem leads_iff_pieces : Leads row text ↔ Text.pieces '.' row <+: Text.pieces '.' text := by
  constructor
  · rintro (rfl | ⟨rest, rfl⟩)
    · exact List.prefix_rfl
    · rw [Text.pieces_append]
      exact List.prefix_append _ _
  · rintro ⟨rest, hrest⟩
    have htext : text = Text.join '.' (Text.pieces '.' row ++ rest) := by
      rw [hrest, Text.join_pieces]
    by_cases hnil : rest = []
    · rw [hnil, List.append_nil, Text.join_pieces] at htext
      exact .inl htext.symm
    · rw [Text.join_append (Text.pieces_ne_nil '.' row) hnil, Text.join_pieces] at htext
      exact .inr ⟨_, htext⟩

/-- The segments of the row are the first segments of every package. -/
def Common (packages : List (List Char)) (row : List Char) : Prop :=
  ∀ package ∈ packages, Text.pieces '.' row <+: Text.pieces '.' package

instance : Decidable (Common packages row) := inferInstanceAs (Decidable (∀ _ ∈ _, _))

/-- All the segments that the packages have in common. -/
structure LongestCommon (packages : List (List Char)) (row : List Char) : Prop where
  common : Common packages row
  longest : ∀ other, Common packages other → Text.pieces '.' other <+: Text.pieces '.' row

theorem Common.leads (h : Common (first :: more) row) : Leads row first :=
  leads_iff_pieces.2 (h first List.mem_cons_self)

/-- What the packages have in common, all of them start with. -/
theorem Common.shared (h : Common (first :: more) row) : Shared first more row where
  leads := h.leads
  isPrefix package hpackage :=
    (leads_iff_pieces.2 (h package (List.mem_cons_of_mem first hpackage))).isPrefix

/-- **Packages that have some row in common have a longest one**, since each such row is a
beginning of the first package. -/
theorem exists_longestCommon (h : Common (first :: more) row) :
    ∃ longest, LongestCommon (first :: more) longest := by
  classical
  let isLength : Nat → Prop := fun n => ∃ other, Common (first :: more) other ∧ other.length = n
  have hle : ∀ other, Common (first :: more) other → other.length ≤ first.length :=
    fun other hother => hother.leads.isPrefix.length_le
  have hgreatest : isLength (Nat.findGreatest isLength first.length) :=
    Nat.findGreatest_spec (hle row h) ⟨row, h, rfl⟩
  obtain ⟨longest, hlongest, hlength⟩ := hgreatest
  refine ⟨longest, hlongest, fun other hother => leads_iff_pieces.1 ?_⟩
  have hshorter : other.length ≤ longest.length := by
    rw [hlength]
    exact Nat.le_findGreatest (hle other hother) ⟨other, hother, rfl⟩
  have hprefix : other <+: longest :=
    List.prefix_of_prefix_length_le hother.leads.isPrefix hlongest.leads.isPrefix hshorter
  exact hother.leads.of_isPrefix hlongest.leads hprefix

/-! ## What the loop comes to -/

/-- Without a usable group, the first package is narrowed by the others. -/
theorem commonPackagePrefix_of_ignored
    (hinitial : ∀ declared, initial = some declared → isIgnoredPackage declared = true)
    (husable : usable names = first :: more) (hfound : narrowAll none first more = some found) :
    commonPackagePrefix initial names = some (String.ofList found) := by
  have hnone : (initial.filter fun p => !isIgnoredPackage p) = none := by
    rw [Option.filter_eq_none_iff]
    intro declared hdeclared
    rw [hinitial declared hdeclared]
    decide
  unfold commonPackagePrefix
  dsimp only
  rw [hnone, ← usable, husable]
  dsimp only
  rw [hfound]

/-- **The row that packages have in common** is reached, and it is not exceeded exactly where all
packages go on from what is found with a new segment. -/
theorem commonPackagePrefix_of_common
    (hinitial : ∀ declared, initial = some declared → isIgnoredPackage declared = true)
    (husable : usable names = first :: more)
    (hcommon : ∃ row, row ≠ [] ∧ Common (usable names) row) :
    ∃ found longest, commonPackagePrefix initial names = some (String.ofList found) ∧
      Longest first more found ∧ LongestCommon (usable names) longest ∧
      Text.pieces '.' longest <+: Text.pieces '.' found ∧
      (found = longest ↔ Common (usable names) found) := by
  rw [husable] at hcommon ⊢
  obtain ⟨row, hne, hrow⟩ := hcommon
  obtain ⟨longest, hlongest⟩ := exists_longestCommon hrow
  obtain ⟨found, hfound⟩ := exists_longest hrow.shared
  have hreached : Text.pieces '.' longest <+: Text.pieces '.' found := by
    have hshared := hlongest.common.shared
    exact leads_iff_pieces.1 (hshared.leads.of_isPrefix hfound.leads (hfound.longest _ hshared))
  have hnonempty : found ≠ [] := by
    rintro rfl
    exact hne (List.prefix_nil.1 (hfound.longest row hrow.shared))
  have hloop : narrowAll none first more = some found := by
    rw [narrowAll_of_longest hfound, if_neg (by simpa using hnonempty)]
  refine ⟨found, longest, commonPackagePrefix_of_ignored hinitial husable hloop, hfound, hlongest,
    hreached, fun heq => heq ▸ hlongest.common, fun hall => ?_⟩
  have hback := hlongest.longest found hall
  have hpieces := hback.eq_of_length_le hreached.length_le
  rw [← Text.join_pieces '.' found, hpieces, Text.join_pieces]

/-- Packages of which one goes on from another within a segment, after the platform's own. -/
def acmePackages : List String :=
  ["java.lang.invoke", "org.acme.core", "org.acme.core.io", "org.acme.util", "org.acme.utilities"]

theorem commonPackagePrefix_of_common_acme :
    ∃ found longest, commonPackagePrefix (some "org.log4j") acmePackages =
        some (String.ofList found) ∧
      LongestCommon (usable acmePackages) longest ∧
      (found = longest ↔ Common (usable acmePackages) found) := by
  have husable : usable acmePackages = "org.acme.core".toList ::
      ["org.acme.core.io", "org.acme.util", "org.acme.utilities"].map String.toList := by
    decide +kernel
  have hcommon : Common (usable acmePackages) "org.acme".toList := by decide +kernel
  have hinitial : ∀ declared, some "org.log4j" = some declared →
      isIgnoredPackage declared = true := by
    rintro declared ⟨⟩
    decide +kernel
  obtain ⟨found, longest, hfound, -, hlongest, -, hiff⟩ :=
    commonPackagePrefix_of_common hinitial husable ⟨_, by decide, hcommon⟩
  exact ⟨found, longest, hfound, hlongest, hiff⟩

/-- **More can come out than the packages have in common.** -/
theorem exists_common_exceeded :
    ¬ ∀ (initial : Option String) (names : List String) (longest : List Char),
      (∀ declared, initial = some declared → isIgnoredPackage declared = true) →
      longest ≠ [] → LongestCommon (usable names) longest →
        commonPackagePrefix initial names = some (String.ofList longest) := by
  intro always
  have husable : usable ["a.b", "a.bc"] = ["a.b".toList, "a.bc".toList] := by decide +kernel
  have hlongest : LongestCommon (usable ["a.b", "a.bc"]) "a".toList := by
    rw [husable]
    refine ⟨by decide, fun other hother => ?_⟩
    have hfirst : Text.pieces '.' other <+: [['a'], ['b']] := hother _ List.mem_cons_self
    have hsecond : Text.pieces '.' other <+: [['a'], ['b', 'c']] :=
      hother _ (List.mem_cons_of_mem _ List.mem_cons_self)
    show Text.pieces '.' other <+: [['a']]
    -- A second segment would be both `b` and `bc`.
    rcases hpieces : Text.pieces '.' other with _ | ⟨one, _ | ⟨two, rest⟩⟩
    · exact List.nil_prefix
    · rw [hpieces] at hfirst
      simpa using hfirst
    · rw [hpieces] at hfirst hsecond
      simp only [List.cons_prefix_cons] at hfirst hsecond
      exact absurd (hfirst.2.1.symm.trans hsecond.2.1) (by decide)
  have hfound := always none ["a.b", "a.bc"] "a".toList (fun _ h => nomatch h) (by decide) hlongest
  revert hfound
  decide +kernel

end JarGraph.Artifact
