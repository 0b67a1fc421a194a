import JarGraph.Proofs.Path.Ends
/-!
# The characters of a path below another

A path that is told from a directory is written with the characters that it
was written with before, and with the slashes and dots of its components.
So what holds of slashes, of dots and of every character of a path holds of
every character of what `relativeSlash` tells.
-/

namespace JarGraph.Path

variable {P : Char → Prop} {p q base : Path} {all : List (List Char)}

theorem forall_component? {piece : List Char} {component : Component}
    (hdot : P '.') (hpiece : ∀ c ∈ piece, P c) (h : component? piece = some component) :
    ∀ c ∈ component.text.toList, P c := by
  unfold component? at h
  split at h
  · cases h
  · split at h
    · cases h
      simpa [Component.text] using hdot
    · cases h
      simpa [Component.text] using hpiece

theorem forall_components (hslash : P '/') (hdot : P '.') (h : ∀ c ∈ p.text.toList, P c) :
    ∀ component ∈ p.components, ∀ c ∈ component.text.toList, P c := by
  have hlead : ∀ component ∈ p.lead, ∀ c ∈ component.text.toList, P c := by
    intro component hcomponent
    unfold lead at hcomponent
    split at hcomponent
    · cases hcomponent
      simpa [Component.text] using hslash
    · cases hcomponent
      simpa [Component.text] using hdot
    · cases hcomponent
  intro component hcomponent
  rcases List.mem_append.1 hcomponent with hcomponent | hcomponent
  · exact hlead component (Option.mem_toList.1 hcomponent)
  · obtain ⟨piece, hpiece, hsome⟩ := List.mem_filterMap.1 hcomponent
    exact forall_component? hdot (Text.forall_pieces h piece hpiece) hsome

theorem forall_body (h : ∀ piece ∈ p.pieces, ∀ c ∈ piece, P c) :
    ∀ piece ∈ p.body, ∀ c ∈ piece, P c := by
  unfold body
  split
  · exact fun piece hpiece => h piece (List.mem_of_mem_drop hpiece)
  · exact h

theorem mem_of_mem_dropComponents {piece : List Char} {n : Nat}
    (h : piece ∈ dropComponents n all) : piece ∈ all := by
  fun_induction dropComponents n all with
  | case1 all => exact (List.dropWhile_sublist isIdle).subset h
  | case2 => exact h
  | case3 n first rest hidle ih => exact List.mem_cons_of_mem first (ih h)
  | case4 n first rest hidle ih => exact List.mem_cons_of_mem first (ih h)

theorem forall_withBody (hslash : P '/') (hdot : P '.') (h : ∀ piece ∈ all, ∀ c ∈ piece, P c) :
    ∀ c ∈ (p.withBody all).text.toList, P c := by
  have hrest := Text.forall_join hslash h
  unfold withBody
  split
  · simpa [hslash] using hrest
  · split
    · simpa using hdot
    · simpa [hslash, hdot] using hrest
  · simpa using hrest

theorem forall_stripBase? (hslash : P '/') (hdot : P '.') (hp : ∀ c ∈ p.text.toList, P c)
    (h : p.stripBase? base = some q) : ∀ c ∈ q.text.toList, P c := by
  have hbody : ∀ piece ∈ p.body, ∀ c ∈ piece, P c := forall_body (Text.forall_pieces hp)
  unfold stripBase? at h
  split at h
  · split at h
    · cases h
      refine forall_withBody hslash hdot fun piece hpiece => hbody piece ?_
      exact mem_of_mem_dropIdleEnd hpiece
    · cases h
      rw [ofPieces, String.toList_ofList]
      refine Text.forall_join hslash fun piece hpiece => hbody piece ?_
      exact mem_of_mem_dropComponents (mem_of_mem_dropIdleEnd hpiece)
  · cases h

/-- **What a path is told as has the characters of the path**, besides slashes and dots. -/
theorem forall_relativeSlash (base : Path) (hslash : P '/') (hdot : P '.')
    (h : ∀ c ∈ p.text.toList, P c) : ∀ c ∈ (p.relativeSlash base).toList, P c := by
  have hrelative : ∀ c ∈ (p.relativeTo base).text.toList, P c := by
    unfold relativeTo
    cases hstrip : p.stripBase? base with
    | none => exact h
    | some q => exact forall_stripBase? hslash hdot h hstrip
  rw [relativeSlash, String.toList_ofList]
  refine Text.forall_join hslash fun piece hpiece => ?_
  obtain ⟨component, hcomponent, rfl⟩ := List.mem_map.1 hpiece
  exact forall_components hslash hdot hrelative component hcomponent

end JarGraph.Path
