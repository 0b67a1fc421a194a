import JarGraph.Proofs.FileSystem.Spelling
import JarGraph.Proofs.Path.Characters
/-!
# Paths and their absolute forms

The absolute form of a path takes the same steps, from the root or from the
working directory (`components_absolute?`), so that the path leads where
its absolute form leads (`LeadsTo.of_absolute`). But the absolute form does
not keep the whole text: idle pieces go. So a path need not name the file
that its absolute form names. It does where its own text is short enough
and asks for no directory (`route_iff_of_absolute`).
-/

namespace JarGraph

namespace Path

variable {P : Char → Prop} {p whole directory : Path} {steps : List Component} {step : Component}

/-- What a piece stands for is written as the piece. -/
theorem toList_text_of_component? {piece : List Char} (h : component? piece = some step) :
    step.text.toList = piece := by
  unfold component? at h
  split at h
  · cases h
  split at h
  · rename_i hup
    cases h
    exact hup.symm
  · cases h
    exact String.toList_ofList

/-- A step stands for itself where it is written alone. -/
theorem steps_text (h : step ∈ p.steps) :
    isAbsolute ⟨step.text⟩ = false ∧ Path.steps ⟨step.text⟩ = [step] := by
  obtain ⟨piece, hpiece, hstep⟩ := List.mem_filterMap.1 h
  have hslash : '/' ∉ piece := Text.not_mem_of_mem_pieces hpiece
  have htext := toList_text_of_component? hstep
  constructor
  · rw [isAbsolute, htext, beq_eq_false_iff_ne]
    exact fun hhead => hslash (List.mem_of_head? hhead)
  · rw [Path.steps, pieces, htext, Text.pieces_eq_singleton hslash,
      List.filterMap_cons_some hstep, List.filterMap_nil]

/-- **Steps that are taken from a directory** come after its own. -/
theorem components_taking (hdirectory : directory.isAbsolute = true)
    (hsteps : ∀ step ∈ steps, step ∈ p.steps) :
    (directory.taking steps).isAbsolute = true ∧
      (directory.taking steps).components = directory.components ++ steps := by
  induction steps generalizing directory with
  | nil => exact ⟨hdirectory, (List.append_nil _).symm⟩
  | cons step steps ih =>
    obtain ⟨hfirst, hmore⟩ := List.forall_mem_cons.1 hsteps
    obtain ⟨hrelative, hstep⟩ := steps_text hfirst
    have hchild : (directory.child step.text).isAbsolute = true := isAbsolute_append hdirectory
    have hcomponents : (directory.child step.text).components = directory.components ++ [step] := by
      rw [child, components_append hdirectory hrelative, hstep]
    obtain ⟨habsolute, hall⟩ := ih hchild hmore
    refine ⟨habsolute, hall.trans ?_⟩
    rw [hcomponents, List.append_assoc, List.singleton_append]

/-- **The absolute form of a path** takes its steps, from the root or from the directory. -/
theorem components_absolute? (hdirectory : directory.isAbsolute = true)
    (h : p.absolute? directory = some whole) :
    whole.components =
      (if p.isAbsolute = true then [.root] else directory.components) ++ p.steps := by
  unfold absolute? at h
  split at h
  · cases h
  dsimp only at h
  obtain rfl := Option.some.inj h
  -- One slash or two, the start is the root.
  have hstart : ∀ doubled : Bool,
      (if p.isAbsolute = true then (if doubled = true then (⟨"//"⟩ : Path) else ⟨"/"⟩)
        else directory).isAbsolute = true ∧
      (if p.isAbsolute = true then (if doubled = true then (⟨"//"⟩ : Path) else ⟨"/"⟩)
        else directory).components =
          if p.isAbsolute = true then [.root] else directory.components := by
    intro doubled
    split
    · cases doubled <;> decide
    · exact ⟨hdirectory, rfl⟩
  obtain ⟨habsolute, hcomponents⟩ := hstart
    (p.text.toList.take 2 == ['/', '/'] && p.text.toList.take 3 != ['/', '/', '/'])
  obtain ⟨hwhole, hall⟩ := components_taking habsolute fun step (hstep : step ∈ p.steps) => hstep
  rw [← hcomponents, ← hall]
  split
  · rw [child]
    exact (components_append hwhole (by decide)).trans (List.append_nil _)
  · rfl

/-- What holds of slashes, of dots and of every character of the steps holds of the whole text. -/
theorem forall_of_steps (hslash : P '/') (hdot : P '.')
    (h : ∀ step ∈ p.steps, ∀ c ∈ step.text.toList, P c) : ∀ c ∈ p.text.toList, P c := by
  rw [← Text.join_pieces '/' p.text.toList]
  refine Text.forall_join hslash fun piece hpiece => ?_
  cases hstep : component? piece with
  | some step =>
    have hmem : step ∈ p.steps := List.mem_filterMap.2 ⟨piece, hpiece, hstep⟩
    exact toList_text_of_component? hstep ▸ h step hmem
  | none =>
    have hidle : isIdle piece = true := by
      unfold component? at hstep
      split at hstep
      · assumption
      · split at hstep <;> cases hstep
    rw [isIdle, Bool.or_eq_true, beq_iff_eq, beq_iff_eq] at hidle
    rcases hidle with rfl | rfl
    · exact fun c hc => absurd hc List.not_mem_nil
    · intro c hc
      rw [List.mem_singleton.1 hc]
      exact hdot

end Path

namespace FileSystem

variable {fs : FileSystem} {p whole : Path} {names row : List String} {content : Bytes}
variable {modified : Instant}

theorem absolute_eq_ok :
    fs.absolute p = .ok whole ↔ p.absolute? fs.workingDirectory = some whole := by
  unfold absolute
  split
  · rename_i other hother
    rw [hother, Except.ok.injEq, Option.some.injEq]
  · rename_i hnone
    rw [hnone]
    exact iff_of_false nofun nofun

/-- **A path leads where its absolute form leads.** -/
theorem LeadsTo.of_absolute (inOrder : fs.InOrder) (h : fs.absolute p = .ok whole)
    (hleads : LeadsTo fs.see fs.workingNames.reverse whole.components names) :
    LeadsTo fs.see fs.workingNames.reverse p.components names := by
  have hworking := Settings.isAbsolute_pathOf fs.workingNames
  rw [Path.components_absolute? hworking (absolute_eq_ok.1 h)] at hleads
  cases habsolute : p.isAbsolute with
  | true =>
    rw [habsolute, if_pos rfl] at hleads
    rw [Path.components_eq_root_steps habsolute]
    exact hleads
  | false =>
    rw [habsolute, if_neg Bool.false_ne_true] at hleads
    have hspelled : fs.SpelledOut p (fs.workingDirectory ++ p) := ⟨habsolute, rfl⟩
    refine hspelled.leadsTo inOrder ?_
    rw [workingDirectory, Path.components_append hworking habsolute]
    exact hleads

/-- A path has no more zeros than its absolute form, and some text. -/
theorem isPlain_of_absolute (h : fs.absolute p = .ok whole) (hwhole : IsPlain whole)
    (hshort : isLongPath p = false) : IsPlain p := by
  have habsolute := absolute_eq_ok.1 h
  have hzero : ∀ c ∈ p.text.toList, ¬ (c.toNat == 0) = true := by
    refine Path.forall_of_steps (by decide) (by decide) fun step hstep => ?_
    refine Path.forall_components (by decide) (by decide) (List.any_eq_false.1 hwhole.noZero)
      step ?_
    rw [Path.components_absolute? (Settings.isAbsolute_pathOf fs.workingNames) habsolute]
    exact List.mem_append_right _ hstep
  refine ⟨hshort, List.any_eq_false.2 hzero, ?_⟩
  rw [Bool.eq_false_iff]
  intro hempty
  rw [Path.absolute?, if_pos hempty] at habsolute
  cases habsolute

/-- A path leads nowhere but where its absolute form leads. -/
theorem eq_of_route_absolute (inOrder : fs.InOrder) (h : fs.absolute p = .ok whole)
    (hwhole : fs.route whole = .ok names) (hp : fs.route p = .ok row) : row = names := by
  obtain ⟨-, -, hleads, -⟩ := route_eq_ok.1 hwhole
  obtain ⟨-, -, hleads', -⟩ := route_eq_ok.1 hp
  rw [hleads'.eq_destination, (hleads.of_absolute inOrder h).eq_destination]

/-- **A path names the file that its absolute form names** if it is short enough and does not ask
for a directory. -/
theorem route_iff_of_absolute (inOrder : fs.InOrder) (h : fs.absolute p = .ok whole)
    (hwhole : fs.route whole = .ok names) (hfile : fs.see names = some (.file content modified)) :
    fs.route p = .ok names ↔ isLongPath p = false ∧ asksForFolder p = false := by
  obtain ⟨hplain, hstart, hleads, -⟩ := route_eq_ok.1 hwhole
  rw [route_eq_ok, hfile, Option.any_some]
  constructor
  · rintro ⟨hplain', -, -, hend⟩
    exact ⟨hplain'.short, hend⟩
  · rintro ⟨hshort, hasks⟩
    refine ⟨isPlain_of_absolute h hplain hshort, hstart, hleads.of_absolute inOrder h, ?_⟩
    rw [hasks, Bool.and_false]

end FileSystem

end JarGraph
