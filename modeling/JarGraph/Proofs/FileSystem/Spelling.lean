import JarGraph.Proofs.FileSystem.Keeping
import JarGraph.Proofs.Path.Spelling
/-!
# Paths that are spelled out from the root

A relative path and the same path spelled out from the root lead to the
same place (`SpelledOut.leadsTo_iff`). So both have the same canonical
path and the same absolute form (`canonical_spelledOut`,
`absolute_spelledOut`), and what the one reads the other reads, if the
text that is spelled out is not too long (`readFile_spelledOut`).
-/

namespace JarGraph.FileSystem

variable {fs : FileSystem} {p q x y : Path} {names : List String} {content : Bytes}

/-- A path is spelled out from the root: it is another one, which is relative, taken from the
working directory. -/
structure SpelledOut (fs : FileSystem) (p q : Path) : Prop where
  relative : p.isAbsolute = false
  whole : q = fs.workingDirectory ++ p

theorem InOrder.entryNames (h : fs.InOrder) : ∀ name ∈ fs.workingNames, IsEntryName name := by
  obtain ⟨node, hnode, -⟩ := Option.map_eq_some_iff.1 h.working
  exact (Node.wellFormed_of_at? h.wellFormed hnode).2

namespace SpelledOut

theorem components_eq (h : fs.SpelledOut p q) (inOrder : fs.InOrder) :
    q.components = .root :: (fs.workingNames.map .name ++ p.steps) := by
  rw [h.whole, workingDirectory, Path.components_append (Settings.isAbsolute_pathOf _) h.relative,
    Path.components_pathOf inOrder.entryNames, List.cons_append]

/-- The `.` that a relative path may start with leads nowhere else. -/
theorem leadsTo_steps (h : fs.SpelledOut p q) (inOrder : fs.InOrder) :
    LeadsTo fs.see fs.workingNames.reverse p.components names ↔
      LeadsTo fs.see fs.workingNames.reverse p.steps names := by
  rw [Path.components_eq_steps]
  rcases Path.lead_eq_none_or_here h.relative with hlead | hlead
  · rw [hlead]
    exact Iff.rfl
  · rw [hlead]
    constructor
    · intro hleads
      cases hleads with
      | here _ hmore => exact hmore
    · exact .here (by rw [List.reverse_reverse]; exact inOrder.working)

/-- Where a path that is spelled out leads, the relative one leads as well. -/
theorem leadsTo (h : fs.SpelledOut p q) (inOrder : fs.InOrder)
    (hleads : LeadsTo fs.see fs.workingNames.reverse q.components names) :
    LeadsTo fs.see fs.workingNames.reverse p.components names := by
  rw [h.components_eq inOrder] at hleads
  cases hleads with
  | root hmore =>
    obtain ⟨dir, hdir, hrest⟩ := hmore.exists_of_append
    -- From the root the names of the working directory lead to it, so the rest starts there.
    have hworking : dir = fs.workingNames := by
      have hdestination := destination_names [] [] fs.workingNames
      rw [hdir.eq_destination]
      exact hdestination
    exact (h.leadsTo_steps inOrder).2 (hworking ▸ hrest)

/-- The other way round no name on the way to the working directory may be too long. -/
theorem leadsTo_iff (h : fs.SpelledOut p q) (inOrder : fs.InOrder)
    (hshort : ∀ name ∈ fs.workingNames, isLongName name = false) :
    LeadsTo fs.see fs.workingNames.reverse q.components names ↔
      LeadsTo fs.see fs.workingNames.reverse p.components names := by
  refine ⟨h.leadsTo inOrder, fun hleads => ?_⟩
  rw [h.components_eq inOrder]
  have hthere : (fs.see ([] ++ fs.workingNames)).isSome = true := by
    rw [List.nil_append, inOrder.working]
    rfl
  exact .root ((leadsTo_names hshort hthere).append hthere
    ((h.leadsTo_steps inOrder).1 hleads))

end SpelledOut

/-- Two spellings of one path: the same text, or the one is spelled out from the root. -/
def SpelledAlike (fs : FileSystem) (p q : Path) : Prop :=
  q = p ∨ fs.SpelledOut p q ∨ fs.SpelledOut q p

namespace SpelledAlike

theorem refl (p : Path) : fs.SpelledAlike p p := .inl rfl

theorem symm (h : fs.SpelledAlike p q) : fs.SpelledAlike q p := by
  rcases h with rfl | h | h
  · exact .inl rfl
  · exact .inr (.inr h)
  · exact .inr (.inl h)

end SpelledAlike

/-! ## Canonical and absolute paths -/

theorem leadsTo_of_canonical (h : fs.canonical p = .ok x) :
    ∃ names, LeadsTo fs.see fs.workingNames.reverse p.components names ∧ x = pathOf names := by
  unfold canonical at h
  obtain ⟨⟨found, node⟩, hfound, h⟩ := Answer.bind_eq_ok.1 h
  obtain ⟨found', hresolve, hexisting⟩ := Answer.bind_eq_ok.1 hfound
  have hsame : found' = found := by
    unfold Location.existing at hexisting
    split at hexisting
    · exact (Prod.mk.inj (Except.ok.inj hexisting)).1
    · cases hexisting
  subst hsame
  have hx : x = pathOf found'.names := by
    dsimp only at h
    split at h
    · cases h
    · exact (Except.ok.inj h).symm
  refine ⟨found'.names, ?_, hx⟩
  unfold resolve at hresolve
  split at hresolve
  · cases hresolve
  split at hresolve
  · cases hresolve
  split at hresolve
  · cases hresolve
  rename_i start hstart
  rw [← List.reverse_reverse fs.workingNames] at hstart
  rw [follow_eq hstart] at hresolve
  cases htrace : trace fs.see fs.workingNames.reverse p.components with
  | error cause =>
    rw [htrace] at hresolve
    cases hresolve
  | ok names =>
    rw [htrace] at hresolve
    have hfound' : found' = ⟨names, fs.root.at? names⟩ := by
      dsimp only [Except.map] at hresolve
      split at hresolve
      · split at hresolve
        · cases hresolve
        · exact (Except.ok.inj hresolve).symm
      · exact (Except.ok.inj hresolve).symm
    rw [hfound']
    exact trace_eq_ok.1 htrace

/-- **A path that is spelled out** has the same canonical path. -/
theorem canonical_spelledOut (h : fs.SpelledOut p q) (inOrder : fs.InOrder)
    (hx : fs.canonical p = .ok x) (hy : fs.canonical q = .ok y) : x = y := by
  obtain ⟨names, hleads, rfl⟩ := leadsTo_of_canonical hx
  obtain ⟨names', hleads', rfl⟩ := leadsTo_of_canonical hy
  rw [hleads.eq_destination, (h.leadsTo inOrder hleads').eq_destination]

theorem canonical_spelledAlike (h : fs.SpelledAlike p q) (inOrder : fs.InOrder)
    (hx : fs.canonical p = .ok x) (hy : fs.canonical q = .ok y) : x = y := by
  rcases h with rfl | h | h
  · exact Except.ok.inj (hx.symm.trans hy)
  · exact canonical_spelledOut h inOrder hx hy
  · exact (canonical_spelledOut h inOrder hy hx).symm

/-- **A path that is spelled out** has the same absolute form. -/
theorem absolute_spelledOut (h : fs.SpelledOut p q) (inOrder : fs.InOrder)
    (hx : fs.absolute p = .ok x) : fs.absolute q = .ok x := by
  have hempty : p.text.isEmpty = false := by
    rw [Bool.eq_false_iff]
    intro hempty
    rw [absolute, Path.absolute?, if_pos hempty] at hx
    cases hx
  rw [absolute, h.whole, workingDirectory,
    Path.absolute?_append inOrder.entryNames h.relative hempty]
  exact hx

theorem absolute_spelledAlike (h : fs.SpelledAlike p q) (inOrder : fs.InOrder)
    (hx : fs.absolute p = .ok x) (hy : fs.absolute q = .ok y) : x = y := by
  rcases h with rfl | h | h
  · exact Except.ok.inj (hx.symm.trans hy)
  · exact Except.ok.inj ((absolute_spelledOut h inOrder hx).symm.trans hy)
  · exact Except.ok.inj (hx.symm.trans (absolute_spelledOut h inOrder hy))

/-! ## Reading -/

/-- The working directory can be reached by its absolute path. -/
theorem isLongName_of_hasFolder (inOrder : fs.InOrder)
    (hreach : fs.hasFolder fs.workingDirectory = true) :
    holdsZero fs.workingDirectory = false ∧
      ∀ name ∈ fs.workingNames, isLongName name = false := by
  obtain ⟨names, hroute, -⟩ := hasFolder_iff.1 hreach
  obtain ⟨hplain, -, hleads, -⟩ := route_eq_ok.1 hroute
  refine ⟨hplain.noZero, fun name hname => hleads.short name ?_⟩
  rw [workingDirectory, Path.components_pathOf inOrder.entryNames]
  exact List.mem_cons_of_mem _ (List.mem_map_of_mem hname)

/-- A path that is spelled out can be given to the operating system where the relative one can,
unless it has become too long. -/
theorem isPlain_spelledOut (h : fs.SpelledOut p q) (hzero : holdsZero fs.workingDirectory = false)
    (hlong : isLongPath q = false) (hempty : p.text.isEmpty = false) : IsPlain q ↔ IsPlain p := by
  -- The text of the relative path is the end of the other, after a slash that has no zero in it.
  obtain ⟨before, htext, hbefore⟩ := Path.exists_text_append
    (Path.text_ne_nil_of_isAbsolute (Settings.isAbsolute_pathOf fs.workingNames)) h.relative
  have hq : q.text = String.ofList (before ++ ['/']) ++ p.text := by
    refine String.toList_inj.1 ?_
    rw [h.whole, workingDirectory, htext, String.toList_append, String.toList_ofList,
      List.append_assoc]
    rfl
  have hfront : before.any (·.toNat == 0) = false := by
    rw [holdsZero, workingDirectory] at hzero
    rcases hbefore with hbefore | hbefore
    · rwa [hbefore] at hzero
    · rw [hbefore, List.any_append, Bool.or_eq_false_iff] at hzero
      exact hzero.1
  have hzeros : holdsZero q = holdsZero p := by
    rw [holdsZero, holdsZero, hq, String.toList_append, String.toList_ofList, List.any_append,
      List.any_append, hfront]
    rfl
  have hshort : isLongPath p = false := by
    rw [isLongPath, decide_eq_false_iff_not] at hlong ⊢
    rw [hq, String.utf8ByteSize_append] at hlong
    omega
  have hfull : q.text.isEmpty = false := by
    rw [Bool.eq_false_iff]
    intro hempty
    have hnil := String.toList_eq_nil_iff.2 (String.isEmpty_iff.1 hempty)
    rw [hq, String.toList_append, String.toList_ofList] at hnil
    simp at hnil
  constructor
  · exact fun hplain => ⟨hshort, hzeros ▸ hplain.noZero, hempty⟩
  · exact fun hplain => ⟨hlong, hzeros ▸ hplain.noZero, hfull⟩

/-- **A path that is spelled out** has the same route. -/
theorem route_spelledOut (h : fs.SpelledOut p q) (inOrder : fs.InOrder)
    (hreach : fs.hasFolder fs.workingDirectory = true) (hlong : isLongPath q = false)
    (hempty : p.text.isEmpty = false) :
    fs.route q = .ok names ↔ fs.route p = .ok names := by
  obtain ⟨hzero, hshort⟩ := isLongName_of_hasFolder inOrder hreach
  have hends : asksForFolder q = asksForFolder p := by
    rw [h.whole]
    exact Path.asksForFolder_append
      (Path.text_ne_nil_of_isAbsolute (Settings.isAbsolute_pathOf fs.workingNames)) h.relative
  rw [route_eq_ok, route_eq_ok, isPlain_spelledOut h hzero hlong hempty,
    h.leadsTo_iff inOrder hshort, hends]

/-- **A path that is spelled out** reads the same data. -/
theorem readFile_spelledOut (h : fs.SpelledOut p q) (inOrder : fs.InOrder)
    (hreach : fs.hasFolder fs.workingDirectory = true) (hlong : isLongPath q = false)
    (hempty : p.text.isEmpty = false) :
    (fs.readFile q).toOption = (fs.readFile p).toOption := by
  refine Option.ext fun content => ?_
  rw [Answer.toOption_eq_some, Answer.toOption_eq_some, readFile_eq_ok, readFile_eq_ok]
  simp only [route_spelledOut h inOrder hreach hlong hempty]

/-- A file name stays where a path is spelled out. -/
theorem fileName_spelledOut (h : fs.SpelledOut p q) (inOrder : fs.InOrder)
    (hname : p.fileName.isSome = true) : q.fileName = p.fileName := by
  have hsteps : p.steps ≠ [] := by
    intro hnil
    rw [Path.fileName, Path.components_eq_steps, hnil, List.append_nil] at hname
    rcases Path.lead_eq_none_or_here h.relative with hlead | hlead
    · rw [hlead] at hname
      cases hname
    · rw [hlead] at hname
      cases hname
  rw [Path.fileName, Path.fileName, h.components_eq inOrder, Path.components_eq_steps,
    ← List.cons_append, List.getLast?_append, List.getLast?_append,
    List.getLast?_eq_some_getLast hsteps, Option.some_or, Option.some_or]

/-- Two paths are of the same kind of container and read the same data. -/
structure ReadsAs (fs : FileSystem) (p q : Path) : Prop where
  kind : Container.ofPath q = Container.ofPath p
  data : (fs.readFile q).toOption = (fs.readFile p).toOption

/-- A path that names a file, with a text that is not too long. -/
structure NamesFile (p : Path) : Prop where
  named : p.fileName.isSome = true
  short : isLongPath p = false

theorem readsAs_spelledOut (h : fs.SpelledOut p q) (inOrder : fs.InOrder)
    (hreach : fs.hasFolder fs.workingDirectory = true) (hp : NamesFile p) (hq : NamesFile q) :
    fs.ReadsAs p q := by
  have hempty : p.text.isEmpty = false := by
    rw [Bool.eq_false_iff]
    intro hempty
    obtain ⟨text⟩ := p
    obtain rfl : text = "" := String.isEmpty_iff.1 hempty
    cases hp.named
  exact ⟨Container.ofPath_of_fileName (fileName_spelledOut h inOrder hp.named),
    readFile_spelledOut h inOrder hreach hq.short hempty⟩

/-- **Two spellings of a file** read alike. -/
theorem readsAs_spelledAlike (h : fs.SpelledAlike p q) (inOrder : fs.InOrder)
    (hreach : fs.hasFolder fs.workingDirectory = true) (hp : NamesFile p) (hq : NamesFile q) :
    fs.ReadsAs p q := by
  rcases h with rfl | h | h
  · exact ⟨rfl, rfl⟩
  · exact readsAs_spelledOut h inOrder hreach hp hq
  · obtain ⟨kind, data⟩ := readsAs_spelledOut h inOrder hreach hq hp
    exact ⟨kind.symm, data.symm⟩

end JarGraph.FileSystem
