import JarGraph.Proofs.Path.Characters
import JarGraph.Proofs.Path.Ends
/-!
# Paths below a base

A path that starts with the components of a base can be taken from there
(`exists_stripBase?`), and what is left has the further components
(`components_of_stripBase?`), however the two are spelled: idle pieces
stand for no component, and none is left before the first one that
counts.
-/

namespace JarGraph.Path

variable {p q base : Path} {all : List (List Char)} {piece : List Char}

/-- The components that follow the lead are those of the body. -/
theorem components_eq_lead_body (p : Path) :
    p.components = p.lead.toList ++ p.body.filterMap component? := by
  have hbody : p.pieces.filterMap component? = p.body.filterMap component? := by
    unfold body
    split
    · rename_i hlead
      unfold lead at hlead
      split at hlead
      · rename_i heq
        rw [heq]
        rfl
      · rename_i heq
        rw [heq]
        rfl
      · cases hlead
    · rfl
  rw [components, hbody]

theorem not_mem_of_mem_body (h : piece ∈ p.body) : '/' ∉ piece := by
  unfold body at h
  split at h
  · exact Text.not_mem_of_mem_pieces (List.mem_of_mem_drop h)
  · exact Text.not_mem_of_mem_pieces h

/-! ## Components that are dropped -/

theorem filterMap_dropComponents (n : Nat) (all : List (List Char)) :
    (dropComponents n all).filterMap component? = (all.filterMap component?).drop n := by
  induction all generalizing n with
  | nil => cases n <;> simp [dropComponents]
  | cons piece rest ih =>
    by_cases hidle : isIdle piece = true
    · have hnone : component? piece = none := by rw [component?, if_pos hidle]
      rw [List.filterMap_cons_none hnone]
      cases n with
      | zero =>
        have hrest := ih 0
        rw [dropComponents] at hrest
        rw [dropComponents, List.dropWhile_cons, if_pos hidle]
        exact hrest
      | succ n =>
        rw [dropComponents, if_pos hidle]
        exact ih (n + 1)
    · obtain ⟨component, hsome⟩ : ∃ component, component? piece = some component := by
        rw [component?, if_neg hidle]
        split <;> exact ⟨_, rfl⟩
      cases n with
      | zero =>
        rw [dropComponents, List.dropWhile_cons, if_neg hidle]
        rfl
      | succ n =>
        rw [dropComponents, if_neg hidle, List.filterMap_cons_some hsome, List.drop_succ_cons]
        exact ih n

/-- No idle piece is left in front. -/
theorem isIdle_head_dropComponents {n : Nat} (h : (dropComponents n all).head? = some piece) :
    isIdle piece = false := by
  fun_induction dropComponents n all with
  | case1 all =>
    have hnot := List.head?_dropWhile_not isIdle all
    rw [h] at hnot
    exact hnot
  | case2 => cases h
  | case3 n piece rest hidle ih => exact ih h
  | case4 n piece rest hidle ih => exact ih h

theorem head?_dropIdleEnd (h : (dropIdleEnd all).head? = some piece) : all.head? = some piece := by
  have hprefix : dropIdleEnd all <+: all := by
    rw [dropIdleEnd]
    exact List.reverse_suffix.1 (by simpa using List.dropWhile_suffix isIdle)
  obtain ⟨rest, hrest⟩ := List.head?_eq_some_iff.1 h
  obtain ⟨more, hmore⟩ := hprefix
  rw [← hmore, hrest]
  rfl

/-! ## Pieces as a path -/

/-- Pieces of which the first counts are the components of the path that they make. -/
theorem components_ofPieces (hslash : ∀ piece ∈ all, '/' ∉ piece)
    (hfirst : ∀ piece, all.head? = some piece → isIdle piece = false) :
    (ofPieces all).components = all.filterMap component? := by
  cases all with
  | nil => rfl
  | cons first rest =>
    have hpieces : (ofPieces (first :: rest)).pieces = first :: rest := by
      rw [pieces, ofPieces, String.toList_ofList, Text.pieces_join hslash (List.cons_ne_nil _ _)]
    have hlead : (ofPieces (first :: rest)).lead = none := by
      have hidle := hfirst first rfl
      unfold lead
      rw [hpieces]
      split
      · rename_i heq
        rw [(List.cons.inj heq).1] at hidle
        cases hidle
      · rename_i heq
        rw [(List.cons.inj heq).1] at hidle
        cases hidle
      · rfl
    rw [components, hlead, hpieces]
    rfl

/-- A path that starts with a `.`, from its further pieces. -/
theorem components_here (hslash : ∀ piece ∈ all, '/' ∉ piece) (hne : all ≠ []) :
    components ⟨String.ofList ('.' :: '/' :: Text.join '/' all)⟩ =
      .here :: all.filterMap component? := by
  have hpieces : pieces ⟨String.ofList ('.' :: '/' :: Text.join '/' all)⟩ = ['.'] :: all := by
    rw [pieces, String.toList_ofList]
    refine (Text.pieces_append '/' ['.'] (Text.join '/' all)).trans ?_
    rw [Text.pieces_join hslash hne]
    rfl
  rw [components, lead, hpieces]
  rfl

theorem eq_root_or_here {first : Component} (h : p.lead = some first) :
    first = .root ∨ first = .here := by
  unfold lead at h
  split at h
  · exact .inl (Option.some.inj h).symm
  · exact .inr (Option.some.inj h).symm
  · cases h

/-- Without a lead, only a path without components has an idle piece in front. -/
theorem isIdle_head_body (hlead : p.lead = none) (h : (dropIdleEnd p.body).head? = some piece) :
    isIdle piece = false := by
  have hbody : p.body = p.pieces := by
    rw [body, hlead]
    rfl
  rw [hbody] at h
  obtain ⟨rest, hrest⟩ := List.head?_eq_some_iff.1 (head?_dropIdleEnd h)
  rw [isIdle, Bool.or_eq_false_iff, beq_eq_false_iff_ne, beq_eq_false_iff_ne]
  constructor
  · rintro rfl
    cases rest with
    | nil =>
      rw [hrest] at h
      cases h
    | cons second rest =>
      rw [lead_eq hrest, if_pos rfl] at hlead
      cases hlead
  · rintro rfl
    rw [lead, hrest] at hlead
    cases hlead

/-- A path that is written anew from its own body has the same components. -/
theorem components_withBody_body (p : Path) :
    (p.withBody (dropIdleEnd p.body)).components = p.components := by
  have hslash : ∀ piece ∈ dropIdleEnd p.body, '/' ∉ piece :=
    fun piece hpiece => not_mem_of_mem_body (mem_of_mem_dropIdleEnd hpiece)
  rw [components_eq_lead_body p, ← filterMap_dropIdleEnd p.body]
  unfold withBody
  cases hlead : p.lead with
  | none => exact components_ofPieces hslash fun piece hpiece => isIdle_head_body hlead hpiece
  | some first =>
    obtain rfl | rfl := eq_root_or_here hlead
    · exact components_root hslash
    · dsimp only
      split
      · rename_i hnil
        rw [hnil]
        rfl
      · rename_i hne
        exact components_here hslash hne

/-! ## What is below a base -/

/-- **What is left of a path below a base** has the components that follow those of the base. -/
theorem components_of_stripBase? (h : p.stripBase? base = some q) :
    p.components = base.components ++ q.components := by
  unfold stripBase? at h
  split at h
  · rename_i hstarts
    obtain ⟨rest, hrest⟩ := List.isPrefixOf_iff_prefix.1 hstarts
    split at h
    · rename_i hlength
      obtain rfl := Option.some.inj h
      rw [components_withBody_body, List.length_eq_zero_iff.1 hlength, List.nil_append]
    · rename_i n hlength
      obtain rfl := Option.some.inj h
      have hdrop : p.components.drop (n + 1) = rest := by
        rw [← hrest]
        exact List.drop_left' hlength
      rw [← hrest, ← hdrop, components_ofPieces]
      · rw [filterMap_dropIdleEnd, filterMap_dropComponents, components_eq_lead_body p]
        cases p.lead with
        | none => rfl
        | some first => rfl
      · intro piece hpiece
        exact not_mem_of_mem_body (mem_of_mem_dropComponents (mem_of_mem_dropIdleEnd hpiece))
      · exact fun piece hpiece => isIdle_head_dropComponents (head?_dropIdleEnd hpiece)
  · cases h

/-- A path can be taken from a base exactly if it starts with it. -/
theorem exists_stripBase? : (∃ q, p.stripBase? base = some q) ↔ p.startsWith base = true := by
  unfold stripBase?
  split
  · rename_i hstarts
    exact iff_of_true (by split <;> exact ⟨_, rfl⟩) hstarts
  · rename_i hstarts
    exact iff_of_false (fun ⟨q, hq⟩ => nomatch hq) hstarts

theorem startsWith_iff : p.startsWith base = true ↔ base.components <+: p.components :=
  List.isPrefixOf_iff_prefix

end JarGraph.Path
