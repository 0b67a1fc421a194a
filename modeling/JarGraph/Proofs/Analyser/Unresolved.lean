import JarGraph.Analyser
import JarGraph.Proofs.Dependency.Editing
import Mathlib.Data.String.Basic
/-!
# The order of the report on unresolved classes

The pairs of unresolved and referencing classes are in the order of their
names, and each gives a line. A line shows the names with dots, between
which and after which it has text of its own. Dots stand where slashes
stood among the characters, so names alone keep their order
(`map_dotOf_append_lt`). What changes it is that text: a name that goes on
where another one ends meets a blank or a closing bracket, and has to be
above it (`KeepsOrder`). The blank is below what names are made of, the
bracket is not: the dollar sign of a nested class is below it.
-/

namespace JarGraph

/-- One pair of texts is before another one. -/
def Before (p q : String × String) : Prop :=
  p.1 < q.1 ∨ p.1 = q.1 ∧ p.2 < q.2

instance (p q : String × String) : Decidable (Before p q) :=
  inferInstanceAs (Decidable (_ ∨ _))

theorem Before.asymm {p q : String × String} (h : Before p q) : ¬ Before q p := by
  rintro (hlt' | ⟨heq', hlt'⟩) <;> rcases h with hlt | ⟨heq, hlt⟩
  · exact lt_asymm hlt hlt'
  · exact lt_irrefl _ (heq ▸ hlt')
  · exact lt_irrefl _ (heq' ▸ hlt)
  · exact lt_asymm hlt hlt'

/-- In a list that is in an order, what holds of each element and those behind it holds of all that
are in this order. -/
theorem pairwise_iff_of_before {R : String × String → String × String → Prop}
    {xs : List (String × String)} (hxs : xs.Pairwise Before) :
    xs.Pairwise R ↔ ∀ p ∈ xs, ∀ q ∈ xs, Before p q → R p q := by
  constructor
  · intro hR
    have hsymm : Std.Symm fun p q => (Before p q → R p q) ∧ (Before q p → R q p) :=
      ⟨fun _ _ h => h.symm⟩
    have hboth := hxs.imp₂ (fun p q hbefore h =>
      (⟨fun _ => h, fun hback => absurd hbefore hback.asymm⟩ :
        (Before p q → R p q) ∧ (Before q p → R q p))) hR
    have hself : ∀ p ∈ xs, (Before p p → R p p) ∧ (Before p p → R p p) :=
      fun p _ => and_self_iff.2 fun h => absurd h h.asymm
    exact fun p hp q hq => (List.Pairwise.forall_of_forall hself hboth hp hq).1
  · exact fun h => hxs.imp_of_mem fun hp hq hbefore => h _ hp _ hq hbefore

namespace AnalysisResult

/-- The character that a character of a class name is shown as. -/
def dotOf (c : Char) : Char :=
  if c = '/' then '.' else c

/-- The line for a class that a class references. -/
def line (edge : String × String) : String :=
  dotted edge.1 ++ " (referenced by " ++ dotted edge.2 ++ ")"

/-- What a line says behind the referenced name and a blank. -/
def afterBlank (name : String) : String :=
  "(referenced by " ++ dotted name ++ ")"

/-- Nothing in two pairs puts their lines into another order than the pairs. Where the one
referenced name ends and the other goes on, it goes on above a blank, or with a blank and then above
the text of the line. Where that is so of two classes that reference the same one, the longer name
does not go on below the closing bracket. -/
def KeepsOrder (p q : String × String) : Prop :=
  (∀ c rest, q.1.toList = p.1.toList ++ c :: rest →
    ' ' < c ∨ c = ' ' ∧ afterBlank p.2 < line (String.ofList rest, q.2)) ∧
  (p.1 = q.1 → ∀ c rest, q.2.toList = p.2.toList ++ c :: rest → ')' ≤ c)

section Characters

variable {a b c k : Char}

theorem lt_iff_toNat_lt : a < b ↔ a.toNat < b.toNat := Iff.rfl

theorem toNat_ne_dot (h : a ≠ '.') : a.toNat ≠ 46 :=
  fun hdot => h (Char.toNat_inj.1 hdot)

theorem toNat_dotOf : (dotOf c).toNat = if c.toNat = 47 then 46 else c.toNat := by
  have hslash : c = '/' ↔ c.toNat = 47 := Char.toNat_inj.symm
  unfold dotOf
  split <;> simp_all

/-- The dot stands right below the slash, so it takes the slash's place among the others. -/
theorem dotOf_lt (h : a < b) (ha : a ≠ '.') (hb : b ≠ '.') : dotOf a < dotOf b := by
  have ha := toNat_ne_dot ha
  have hb := toNat_ne_dot hb
  rw [lt_iff_toNat_lt] at h ⊢
  rw [toNat_dotOf, toNat_dotOf]
  split <;> split <;> omega

/-- What is below dots is below slashes. -/
theorem lt_dotOf_iff (hk : k < '.') : k < dotOf c ↔ k < c := by
  have hk : k.toNat < 46 := hk
  rw [lt_iff_toNat_lt, lt_iff_toNat_lt, toNat_dotOf]
  split <;> omega

theorem eq_dotOf_iff (hk : k < '.') : k = dotOf c ↔ c = k := by
  have hk : k.toNat < 46 := hk
  rw [← Char.toNat_inj, ← Char.toNat_inj, toNat_dotOf]
  split <;> omega

end Characters

section Names

variable {xs ys u v : List Char}

/-- **Names with dots keep their order**, up to what follows them where the one goes on and the
other does not. -/
theorem map_dotOf_append_lt (hlt : xs < ys) (hxs : '.' ∉ xs) (hys : '.' ∉ ys) :
    xs.map dotOf ++ u < ys.map dotOf ++ v ↔
      ∀ c rest, ys = xs ++ c :: rest → u < dotOf c :: (rest.map dotOf ++ v) := by
  induction xs generalizing ys with
  | nil =>
    cases ys with
    | nil => exact absurd hlt (List.lt_irrefl [])
    | cons y ys =>
      constructor
      · rintro h c rest hcons
        obtain ⟨rfl, rfl⟩ := List.cons.inj hcons
        exact h
      · exact fun h => h y ys rfl
  | cons x xs ih =>
    rw [List.mem_cons, not_or] at hxs
    obtain ⟨hx, hxs⟩ := hxs
    cases ys with
    | nil => exact absurd hlt (List.not_lt_nil _)
    | cons y ys =>
      rw [List.mem_cons, not_or] at hys
      obtain ⟨hy, hys⟩ := hys
      simp only [List.map_cons, List.cons_append, List.cons.injEq, List.cons_lt_cons_iff]
      rcases List.cons_lt_cons_iff.1 hlt with hxy | ⟨rfl, hrest⟩
      · refine iff_of_true (.inl (dotOf_lt hxy (Ne.symm hx) (Ne.symm hy))) ?_
        rintro c rest ⟨rfl, -⟩
        exact absurd hxy (lt_irrefl y)
      · simp only [lt_irrefl, false_or, true_and]
        exact ih hrest hxs hys

theorem map_dotOf_lt (hlt : xs < ys) (hxs : '.' ∉ xs) (hys : '.' ∉ ys) :
    xs.map dotOf < ys.map dotOf := by
  have happend : xs.map dotOf ++ [] < ys.map dotOf ++ [] :=
    (map_dotOf_append_lt hlt hxs hys).2 fun c rest _ => List.nil_lt_cons _ _
  rwa [List.append_nil, List.append_nil] at happend

theorem eq_of_map_dotOf (hxs : '.' ∉ xs) (hys : '.' ∉ ys) (h : xs.map dotOf = ys.map dotOf) :
    xs = ys := by
  rcases lt_trichotomy xs ys with hlt | heq | hlt
  · exact absurd (h ▸ map_dotOf_lt hlt hxs hys) (lt_irrefl _)
  · exact heq
  · exact absurd (h ▸ map_dotOf_lt hlt hys hxs) (lt_irrefl _)

/-- A character below the dot stands in a line as it stands among the names. -/
theorem cons_lt_dotOf_cons {k c : Char} (hk : k < '.') :
    k :: u < dotOf c :: v ↔ k < c ∨ c = k ∧ u < v := by
  rw [List.cons_lt_cons_iff, lt_dotOf_iff hk, eq_dotOf_iff hk]

theorem append_lt_append_iff : xs ++ u < xs ++ v ↔ u < v := by
  induction xs with
  | nil => rfl
  | cons x xs ih => simp only [List.cons_append, List.cons_lt_cons_iff, lt_irrefl, false_or,
      true_and, ih]

end Names

theorem toList_dotted (name : String) : (dotted name).toList = name.toList.map dotOf := by
  rw [dotted, Text.replace, String.toList_ofList]
  rfl

theorem toList_afterBlank (name : String) :
    (afterBlank name).toList = "(referenced by ".toList ++ (name.toList.map dotOf ++ [')']) := by
  have htext : afterBlank name = "(referenced by " ++ dotted name ++ ")" := rfl
  rw [htext, String.toList_append, String.toList_append, toList_dotted, List.append_assoc]
  rfl

theorem toList_line (edge : String × String) :
    (line edge).toList = edge.1.toList.map dotOf ++ ' ' :: (afterBlank edge.2).toList := by
  have htext : (" (referenced by " : String).toList = ' ' :: "(referenced by ".toList := by decide
  rw [line, toList_afterBlank, String.toList_append, String.toList_append, String.toList_append,
    toList_dotted, toList_dotted, htext, List.append_assoc, List.append_assoc, List.cons_append]
  rfl

section Lines

variable {p q : String × String}

/-- **The lines on two unresolved classes** are in their order up to the blank. -/
theorem line_lt_of_lt (hlt : p.1 < q.1) (hp : '.' ∉ p.1.toList) (hq : '.' ∉ q.1.toList) :
    line p < line q ↔ ∀ c rest, q.1.toList = p.1.toList ++ c :: rest →
      ' ' < c ∨ c = ' ' ∧ afterBlank p.2 < line (String.ofList rest, q.2) := by
  rw [String.lt_iff_toList_lt, toList_line, toList_line,
    map_dotOf_append_lt (String.lt_iff_toList_lt.1 hlt) hp hq]
  refine forall₃_congr fun c rest _ => ?_
  rw [cons_lt_dotOf_cons (by decide), String.lt_iff_toList_lt, toList_line, String.toList_ofList]

/-- **The lines on one unresolved class** are in the order of the others up to the bracket. -/
theorem line_lt_of_eq (heq : p.1 = q.1) (hlt : p.2 < q.2) (hp : '.' ∉ p.2.toList)
    (hq : '.' ∉ q.2.toList) :
    line p < line q ↔ ∀ c rest, q.2.toList = p.2.toList ++ c :: rest → ')' ≤ c := by
  rw [String.lt_iff_toList_lt, toList_line, toList_line, heq, append_lt_append_iff,
    List.cons_lt_cons_iff, toList_afterBlank, toList_afterBlank, append_lt_append_iff,
    map_dotOf_append_lt (String.lt_iff_toList_lt.1 hlt) hp hq]
  simp only [lt_irrefl, false_or, true_and]
  refine forall₃_congr fun c rest _ => ?_
  have hend : ([] : List Char) < rest.map dotOf ++ [')'] := by
    cases rest <;> exact List.nil_lt_cons _ _
  rw [cons_lt_dotOf_cons (by decide), and_iff_left hend, le_iff_lt_or_eq, eq_comm (a := c)]

/-- One line keeps its place before another one exactly where nothing in the pairs is against it. -/
theorem line_lt_iff (hlt : Before p q)
    (hp : '.' ∉ p.1.toList ∧ '.' ∉ p.2.toList) (hq : '.' ∉ q.1.toList ∧ '.' ∉ q.2.toList) :
    line p < line q ↔ KeepsOrder p q := by
  unfold KeepsOrder
  rcases hlt with hlt | ⟨heq, hlt⟩
  · rw [line_lt_of_lt hlt hp.1 hq.1, and_iff_left fun heq => absurd (heq ▸ hlt) (lt_irrefl _)]
  · rw [line_lt_of_eq heq hlt hp.2 hq.2, and_iff_right, forall_prop_of_true heq]
    intro c rest hmore
    rw [heq] at hmore
    exact absurd hmore (by simp)

/-- A name that goes on where another one ends comes after it. -/
theorem lt_of_append {name name' : String} {c : Char} {rest : List Char}
    (h : name'.toList = name.toList ++ c :: rest) : name < name' := by
  have happend : name.toList ++ [] < name.toList ++ c :: rest :=
    append_lt_append_iff.2 (List.nil_lt_cons c rest)
  rwa [List.append_nil, ← h, ← String.lt_iff_toList_lt] at happend

/-- Pairs that come the other way round have nothing to keep. -/
theorem keepsOrder_of_not_before (h : ¬ Before p q) : KeepsOrder p q :=
  ⟨fun _ _ hmore => absurd (.inl (lt_of_append hmore)) h,
    fun heq _ _ hmore => absurd (.inr ⟨heq, lt_of_append hmore⟩) h⟩

/-- Lines on names without blanks tell the pairs apart. -/
theorem eq_of_line (hp : '.' ∉ p.1.toList ∧ '.' ∉ p.2.toList)
    (hq : '.' ∉ q.1.toList ∧ '.' ∉ q.2.toList) (hblank : ' ' ∉ p.1.toList)
    (hblank' : ' ' ∉ q.1.toList) (h : line p = line q) : p = q := by
  have hno {name : String} (hname : ' ' ∉ name.toList) : ' ' ∉ name.toList.map dotOf := by
    intro hmem
    obtain ⟨c, hc, hdot⟩ := List.mem_map.1 hmem
    exact hname ((eq_dotOf_iff (by decide)).1 hdot.symm ▸ hc)
  have htext := congrArg String.toList h
  rw [toList_line, toList_line] at htext
  obtain ⟨hfirst, hsecond⟩ := Text.eq_of_append_cons (hno hblank) (hno hblank') htext
  rw [toList_afterBlank, toList_afterBlank] at hsecond
  have hsecond := List.append_cancel_right (List.append_cancel_left hsecond)
  exact Prod.ext (String.toList_inj.1 (eq_of_map_dotOf hp.1 hq.1 hfirst))
    (String.toList_inj.1 (eq_of_map_dotOf hp.2 hq.2 hsecond))

end Lines

end AnalysisResult

/-- The edges of a set of texts are in the order of their ends. -/
theorem DependencySet.edges_ascending (s : DependencySet String) : (edges s).Pairwise Before := by
  refine s.ascending.filterMap _ fun d e hlt p hp q hq => ?_
  obtain ⟨target, hd, rfl⟩ := Option.map_eq_some_iff.1 hp
  obtain ⟨target', he, rfl⟩ := Option.map_eq_some_iff.1 hq
  rcases Dependency.compare_eq_lt_iff.1 hlt with hsource | ⟨hsource, htarget⟩
  · exact .inl (compare_lt_iff_lt.1 hsource)
  · rw [hd, he] at htarget
    exact .inr ⟨compare_eq_iff_eq.1 hsource, compare_lt_iff_lt.1 htarget⟩

namespace AnalysisResult

/-- **The report on unresolved classes** has a line for each pair, and lines on names without blanks
tell the pairs apart. The lines ascend exactly where no two pairs put them out of order. -/
theorem unresolvedReport_ascending_iff (r : AnalysisResult)
    (hdots : ∀ p ∈ DependencySet.edges r.unresolved, '.' ∉ p.1.toList ∧ '.' ∉ p.2.toList) :
    r.unresolvedReport = (DependencySet.edges r.unresolved).map line ∧
      (∀ p ∈ DependencySet.edges r.unresolved, ∀ q ∈ DependencySet.edges r.unresolved,
        ' ' ∉ p.1.toList → ' ' ∉ q.1.toList → line p = line q → p = q) ∧
      (r.unresolvedReport.Pairwise (· < ·) ↔
        ∀ p ∈ DependencySet.edges r.unresolved, ∀ q ∈ DependencySet.edges r.unresolved,
          KeepsOrder p q) := by
  refine ⟨rfl, fun p hp q hq => eq_of_line (hdots p hp) (hdots q hq), ?_⟩
  have hreport : r.unresolvedReport = (DependencySet.edges r.unresolved).map line := rfl
  rw [hreport, List.pairwise_map,
    pairwise_iff_of_before (DependencySet.edges_ascending r.unresolved)]
  refine forall₄_congr fun p hp q hq => ?_
  by_cases hbefore : Before p q
  · rw [forall_prop_of_true hbefore, line_lt_iff hbefore (hdots p hp) (hdots q hq)]
  · exact iff_of_true (fun h => absurd h hbefore) (keepsOrder_of_not_before hbefore)

/-- What an analysis comes to in which two classes reference the class `q/M`. -/
def referencedBy (first second : String) : AnalysisResult :=
  let a := (Analyser.empty.addDependency first (some "q/M")).1
  (a.addDependency second (some "q/M")).1.result

theorem edges_referencedBy_underscore :
    DependencySet.edges (referencedBy "p/B" "p/B_C").unresolved =
      [("q/M", "p/B"), ("q/M", "p/B_C")] := by
  decide +kernel

/-- The underscore is above the closing bracket, so the two lines ascend. -/
theorem unresolvedReport_ascending_iff_underscore :
    (referencedBy "p/B" "p/B_C").unresolvedReport.Pairwise (· < ·) := by
  have hedges := edges_referencedBy_underscore
  refine (unresolvedReport_ascending_iff _ ?_).2.2.2 ?_
  · rw [hedges]
    decide
  · rw [hedges]
    have hkeeps : KeepsOrder ("q/M", "p/B") ("q/M", "p/B_C") := by
      refine ⟨fun c rest hmore => ?_, fun _ c rest hmore => ?_⟩
      · simp at hmore
      · obtain ⟨rfl, -⟩ : '_' = c ∧ ['C'] = rest := by simpa using hmore
        decide
    have hself (p : String × String) : KeepsOrder p p := keepsOrder_of_not_before fun h => h.asymm h
    have hback : KeepsOrder ("q/M", "p/B_C") ("q/M", "p/B") :=
      keepsOrder_of_not_before (by decide)
    simpa only [List.forall_mem_cons, List.not_mem_nil, false_imp_iff, implies_true, and_true]
      using ⟨⟨hself _, hkeeps⟩, hback, hself _⟩

/-- The dollar sign is below the closing bracket: the lines on a class and a class nested in it come
in the order of the names, and descend. -/
theorem exists_report_descending :
    DependencySet.edges (referencedBy "p/B" "p/B$C").unresolved =
        [("q/M", "p/B"), ("q/M", "p/B$C")] ∧
      (referencedBy "p/B" "p/B$C").unresolvedReport =
        ["q.M (referenced by p.B)", "q.M (referenced by p.B$C)"] ∧
      ¬ (referencedBy "p/B" "p/B$C").unresolvedReport.Pairwise (· < ·) := by
  decide +kernel

end AnalysisResult

end JarGraph
