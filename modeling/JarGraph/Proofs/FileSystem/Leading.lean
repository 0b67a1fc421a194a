import JarGraph.Proofs.FileSystem.Sight
/-!
# Where components lead

Components are followed from a start, from directory to directory. Where
they lead is told from what is seen on the way (`trace`), and `LeadsTo`
says by one rule for each component when they lead to a row of names. All
that is known of paths is proved by induction on these rules: the row of
names does not depend on the tree (`LeadsTo.eq_destination`), ways are
joined and parted (`LeadsTo.append`, `LeadsTo.exists_of_append`), and where
there is more, a way leads on (`LeadsTo.mono`).
-/

namespace JarGraph.FileSystem

variable {fs : FileSystem} {names dir trail row : List String} {name : String}
variable {see see' : List String → Option Sight} {component : Component}
variable {components first rest : List Component}

/-- Where some components lead, told from what is seen on the way. The names that lead to the start
are given backwards. -/
def trace (see : List String → Option Sight) (trail : List String) :
    List Component → Except OsError (List String)
  | [] => .ok trail.reverse
  | .root :: rest => trace see [] rest
  | .here :: rest =>
    if see trail.reverse = some .folder then trace see trail rest else .error .notADirectory
  | .up :: rest =>
    if see trail.reverse = some .folder then
      if (see trail.tail.reverse).isSome then trace see trail.tail rest else .error .notFound
    else .error .notADirectory
  | .name name :: rest =>
    if see trail.reverse = some .folder then
      if isLongName name then .error .nameTooLong
      else if (see (name :: trail).reverse).isSome then trace see (name :: trail) rest
      else if rest.isEmpty then .ok (name :: trail).reverse
      else .error .notFound
    else .error .notADirectory

/-- How components lead from a start to a row of names: every step is taken from a directory, and to
something that is there, but for a name at the end. -/
inductive LeadsTo (see : List String → Option Sight) :
    List String → List Component → List String → Prop
  /-- Nothing is left to follow. -/
  | done {trail : List String} : LeadsTo see trail [] trail.reverse
  /-- The way starts again from the root. -/
  | root {trail : List String} {rest : List Component} {names : List String}
      (more : LeadsTo see [] rest names) : LeadsTo see trail (.root :: rest) names
  /-- The way stays in a directory. -/
  | here {trail : List String} {rest : List Component} {names : List String}
      (folder : see trail.reverse = some .folder) (more : LeadsTo see trail rest names) :
      LeadsTo see trail (.here :: rest) names
  /-- The way leaves a directory. -/
  | up {trail : List String} {rest : List Component} {names : List String}
      (folder : see trail.reverse = some .folder)
      (above : (see trail.tail.reverse).isSome = true)
      (more : LeadsTo see trail.tail rest names) : LeadsTo see trail (.up :: rest) names
  /-- The way goes to an entry of a directory. -/
  | name {trail : List String} {name : String} {rest : List Component} {names : List String}
      (folder : see trail.reverse = some .folder) (short : isLongName name = false)
      (child : (see (name :: trail).reverse).isSome = true)
      (more : LeadsTo see (name :: trail) rest names) : LeadsTo see trail (.name name :: rest) names
  /-- The way ends at an entry that need not be there. -/
  | last {trail : List String} {name : String} (folder : see trail.reverse = some .folder)
      (short : isLongName name = false) : LeadsTo see trail [.name name] (name :: trail).reverse

/-- **Components are followed** to where they lead. -/
theorem trace_eq_ok :
    trace see trail components = .ok names ↔ LeadsTo see trail components names := by
  constructor
  · intro h
    induction components generalizing trail with
    | nil =>
      obtain rfl := Except.ok.inj h
      exact .done
    | cons component rest ih =>
      cases component with
      | root => exact .root (ih h)
      | here =>
        rw [trace] at h
        split at h
        · exact .here ‹_› (ih h)
        · cases h
      | up =>
        rw [trace] at h
        split at h
        · split at h
          · exact .up ‹_› ‹_› (ih h)
          · cases h
        · cases h
      | name name =>
        rw [trace] at h
        split at h
        · split at h
          · cases h
          rename_i hfolder hshort
          rw [Bool.not_eq_true] at hshort
          split at h
          · exact .name hfolder hshort ‹_› (ih h)
          split at h
          · rename_i hempty
            obtain rfl := Except.ok.inj h
            rw [List.isEmpty_iff.1 hempty]
            exact .last hfolder hshort
          · cases h
        · cases h
  · intro h
    induction h with
    | done => rfl
    | root _ ih => exact ih
    | here hfolder _ ih => rw [trace, if_pos hfolder, ih]
    | up hfolder habove _ ih => rw [trace, if_pos hfolder, if_pos habove, ih]
    | name hfolder hshort hchild _ ih =>
      rw [trace, if_pos hfolder, hshort, if_neg Bool.false_ne_true, if_pos hchild, ih]
    | last hfolder hshort =>
      rw [trace, if_pos hfolder, hshort, if_neg Bool.false_ne_true]
      split <;> rfl

/-! ## The way -/

/-- The names that some components come to if the way is open. The names that lead to the start are
given backwards. -/
def destination : List String → List Component → List String
  | trail, [] => trail.reverse
  | _, .root :: rest => destination [] rest
  | trail, .here :: rest => destination trail rest
  | trail, .up :: rest => destination trail.tail rest
  | trail, .name name :: rest => destination (name :: trail) rest

/-- **The names that a path comes to** do not depend on the tree. -/
theorem LeadsTo.eq_destination (h : LeadsTo see trail components names) :
    names = destination trail components := by
  induction h with
  | done | last => rfl
  | root _ ih | here _ _ ih | up _ _ _ ih | name _ _ _ _ ih => exact ih

/-- Names are added to where the components before them come to. -/
theorem destination_names (trail : List String) (components : List Component)
    (names : List String) :
    destination trail (components ++ names.map .name) = destination trail components ++ names := by
  have hnames : ∀ (names trail : List String),
      destination trail (names.map .name) = trail.reverse ++ names := by
    intro names
    induction names with
    | nil => exact fun trail => (List.append_nil _).symm
    | cons name names ih =>
      intro trail
      rw [List.map_cons, destination, ih, List.reverse_cons, List.append_assoc]
      rfl
  induction components generalizing trail with
  | nil => exact hnames names trail
  | cons component components ih => cases component <;> exact ih _

/-- A component that is written relative to what stands before. -/
def IsStep (component : Component) : Prop :=
  component ≠ .root

/-- Where a step is taken, there is a directory. -/
theorem LeadsTo.folder (h : LeadsTo see trail (component :: rest) names)
    (hstep : IsStep component) : see trail.reverse = some .folder := by
  cases h with
  | root => exact absurd rfl hstep
  | here hfolder | up hfolder | name hfolder | last hfolder => exact hfolder

/-- No name on the way is too long. -/
theorem LeadsTo.short (h : LeadsTo see trail components names) :
    ∀ name, .name name ∈ components → isLongName name = false := by
  induction h with
  | done => exact fun _ hmem => nomatch hmem
  | root _ ih | here _ _ ih | up _ _ _ ih =>
    intro key hmem
    exact ih key ((List.mem_cons.1 hmem).resolve_left nofun)
  | name _ hshort _ _ ih =>
    intro key hmem
    rcases List.mem_cons.1 hmem with heq | hmem
    · obtain rfl := Component.name.inj heq
      exact hshort
    · exact ih key hmem
  | last _ hshort =>
    intro key hmem
    obtain rfl := Component.name.inj (List.mem_singleton.1 hmem)
    exact hshort

/-- Steps end in a directory, or at an entry of one that the last step names. -/
theorem LeadsTo.exists_entry (h : LeadsTo fs.see trail components names)
    (hsteps : ∀ component ∈ components, IsStep component)
    (hstart : fs.see trail.reverse = some .folder) :
    fs.see names = some .folder ∨
      ∃ dir name, names = dir ++ [name] ∧ fs.see dir = some .folder ∧
        components.getLast? = some (.name name) := by
  -- What holds of the end of the rest holds of the end.
  have hmore : ∀ {component : Component} {rest : List Component} {names : List String},
      (fs.see names = some .folder ∨ ∃ dir name, names = dir ++ [name] ∧
        fs.see dir = some .folder ∧ rest.getLast? = some (.name name)) →
      fs.see names = some .folder ∨ ∃ dir name, names = dir ++ [name] ∧
        fs.see dir = some .folder ∧ (component :: rest).getLast? = some (.name name) := by
    intro component rest names hend
    refine hend.imp_right ?_
    rintro ⟨dir, key, hnames, hdir, hlast⟩
    refine ⟨dir, key, hnames, hdir, ?_⟩
    rw [List.getLast?_cons, hlast, Option.getD_some]
  induction h with
  | done => exact .inl hstart
  | root => exact absurd rfl (hsteps _ List.mem_cons_self)
  | here _ _ ih => exact hmore (ih (List.forall_mem_cons.1 hsteps).2 hstart)
  | up _ _ _ ih => exact hmore (ih (List.forall_mem_cons.1 hsteps).2 (see_tail hstart))
  | @name trail name rest names _ _ _ hnext ih =>
    have hrest := (List.forall_mem_cons.1 hsteps).2
    cases rest with
    | nil =>
      rw [hnext.eq_destination]
      exact .inr ⟨trail.reverse, name, List.reverse_cons, hstart, rfl⟩
    | cons next rest =>
      exact hmore (ih hrest (hnext.folder (hrest next List.mem_cons_self)))
  | @last trail name => exact .inr ⟨trail.reverse, name, List.reverse_cons, hstart, rfl⟩

/-! ## Ways that are joined -/

/-- Where components lead to something, more of them can follow. -/
theorem LeadsTo.append (h : LeadsTo see trail first names) (hsome : (see names).isSome = true)
    (hrest : LeadsTo see names.reverse rest row) : LeadsTo see trail (first ++ rest) row := by
  induction h with
  | done =>
    rw [List.reverse_reverse] at hrest
    exact hrest
  | root _ ih => exact .root (ih hsome hrest)
  | here hfolder _ ih => exact .here hfolder (ih hsome hrest)
  | up hfolder habove _ ih => exact .up hfolder habove (ih hsome hrest)
  | name hfolder hshort hchild _ ih => exact .name hfolder hshort hchild (ih hsome hrest)
  | last hfolder hshort =>
    rw [List.reverse_reverse] at hrest
    exact .name hfolder hshort hsome hrest

/-- Components that lead somewhere can be parted. -/
theorem LeadsTo.exists_of_append (h : LeadsTo see trail (first ++ rest) names) :
    ∃ dir, LeadsTo see trail first dir ∧ LeadsTo see dir.reverse rest names := by
  induction first generalizing trail with
  | nil =>
    refine ⟨trail.reverse, .done, ?_⟩
    rw [List.reverse_reverse]
    exact h
  | cons component first ih =>
    rw [List.cons_append] at h
    generalize hmore : first ++ rest = more at h
    cases h with
    | root h =>
      obtain ⟨dir, hfirst, hrest⟩ := ih (hmore ▸ h)
      exact ⟨dir, .root hfirst, hrest⟩
    | here hfolder h =>
      obtain ⟨dir, hfirst, hrest⟩ := ih (hmore ▸ h)
      exact ⟨dir, .here hfolder hfirst, hrest⟩
    | up hfolder habove h =>
      obtain ⟨dir, hfirst, hrest⟩ := ih (hmore ▸ h)
      exact ⟨dir, .up hfolder habove hfirst, hrest⟩
    | name hfolder hshort hchild h =>
      obtain ⟨dir, hfirst, hrest⟩ := ih (hmore ▸ h)
      exact ⟨dir, .name hfolder hshort hchild hfirst, hrest⟩
    | @last _ name hfolder hshort =>
      obtain ⟨rfl, rfl⟩ := List.append_eq_nil_iff.1 hmore
      refine ⟨_, .last hfolder hshort, ?_⟩
      rw [List.reverse_reverse]
      exact .done

/-- A name at the end of a path leads from a directory to an entry that may not be there. -/
theorem leadsTo_concat {above : List Component} :
    LeadsTo see trail (above ++ [.name name]) names ↔
      ∃ dir, LeadsTo see trail above dir ∧ see dir = some .folder ∧
        isLongName name = false ∧ names = dir ++ [name] := by
  constructor
  · intro h
    obtain ⟨dir, habove, hlast⟩ := h.exists_of_append
    have hfolder := hlast.folder nofun
    rw [List.reverse_reverse] at hfolder
    have hnames : names = dir ++ [name] := by
      rw [hlast.eq_destination, destination, destination, List.reverse_cons, List.reverse_reverse]
    cases hlast with
    | name _ hshort | last _ hshort => exact ⟨dir, habove, hfolder, hshort, hnames⟩
  · rintro ⟨dir, habove, hfolder, hshort, rfl⟩
    refine habove.append (by rw [hfolder]; rfl) ?_
    have hlast : LeadsTo see dir.reverse [.name name] (name :: dir.reverse).reverse :=
      .last (by rw [List.reverse_reverse, hfolder]) hshort
    rwa [List.reverse_cons, List.reverse_reverse] at hlast

/-- A row of names leads to what is there, unless one of them is too long. -/
theorem leadsTo_names (hshort : ∀ name ∈ names, isLongName name = false)
    (h : (fs.see (dir ++ names)).isSome = true) :
    LeadsTo fs.see dir.reverse (names.map .name) (dir ++ names) := by
  induction names generalizing dir with
  | nil =>
    have hdone : LeadsTo fs.see dir.reverse [] dir.reverse.reverse := .done
    rw [List.reverse_reverse] at hdone
    rw [List.append_nil]
    exact hdone
  | cons name names ih =>
    obtain ⟨hname, hrest⟩ := List.forall_mem_cons.1 hshort
    have hdir : fs.see dir = some .folder := see_prefix_folder dir (List.cons_ne_nil _ _) h
    rw [List.append_cons] at h ⊢
    have hnext : (fs.see (dir ++ [name])).isSome = true := by
      cases names with
      | nil =>
        rw [List.append_nil] at h
        exact h
      | cons next names =>
        rw [see_prefix_folder _ (List.cons_ne_nil _ _) h]
        rfl
    have hmore := ih hrest h
    rw [List.reverse_append, List.reverse_singleton, List.singleton_append] at hmore
    refine .name (by rw [List.reverse_reverse, hdir]) hname ?_ hmore
    rw [List.reverse_cons, List.reverse_reverse]
    exact hnext

/-! ## Trees of which the one holds what the other holds -/

/-- What is there on the one side is there on the other, as a file or a directory on both. -/
def Within (see' see : List String → Option Sight) : Prop :=
  ∀ names sight', see' names = some sight' →
    ∃ sight, see names = some sight ∧ sight.isFile = sight'.isFile

theorem Within.isSome (h : Within see' see) (hsome : (see' names).isSome = true) :
    (see names).isSome = true := by
  obtain ⟨sight', hsight'⟩ := Option.isSome_iff_exists.1 hsome
  obtain ⟨sight, hsight, -⟩ := h names sight' hsight'
  rw [hsight]
  rfl

theorem Within.folder (h : Within see' see) (hfolder : see' names = some .folder) :
    see names = some .folder := by
  obtain ⟨sight, hsight, hkind⟩ := h names .folder hfolder
  cases sight with
  | folder => exact hsight
  | file content modified => cases hkind

theorem Within.any_isFile (h : Within see' see) (hsome : (see' names).isSome = true) :
    (see names).any Sight.isFile = (see' names).any Sight.isFile := by
  obtain ⟨sight', hsight'⟩ := Option.isSome_iff_exists.1 hsome
  obtain ⟨sight, hsight, hkind⟩ := h names sight' hsight'
  rw [hsight, hsight', Option.any_some, Option.any_some, hkind]

/-- Components lead to the same place where there is more. -/
theorem LeadsTo.mono (h : Within see' see)
    (hleads : LeadsTo see' trail components names) : LeadsTo see trail components names := by
  induction hleads with
  | done => exact .done
  | root _ ih => exact .root ih
  | here hfolder _ ih => exact .here (h.folder hfolder) ih
  | up hfolder habove _ ih => exact .up (h.folder hfolder) (h.isSome habove) ih
  | name hfolder hshort hchild _ ih =>
    exact .name (h.folder hfolder) hshort (h.isSome hchild) ih
  | last hfolder hshort => exact .last (h.folder hfolder) hshort

end JarGraph.FileSystem
