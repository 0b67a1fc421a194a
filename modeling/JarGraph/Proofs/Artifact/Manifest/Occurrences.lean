import JarGraph.Artifact.Manifest
/-!
# The values that a manifest gives

A manifest may name an attribute more than once. Its value is that of the
place where it is named first, and what later places say in the line of
the name never counts. The lines that go on with a later place do: they
are added to the first value like those that go on with it
(`lookup_parse`). So a name has the value of its first place, and no more,
exactly where no later place is gone on with (`lookup_of_occurrences`),
and a place that should count for nothing can change a value
(`exists_repeated_continued`).
-/

namespace JarGraph.Artifact.Manifest

/-! ## Where an attribute stands -/

/-- The name and the value in a line that names an attribute. A line that starts with a space names
none. -/
def naming? : List Char → Option (String × List Char)
  | ' ' :: _ => none
  | text => (attribute? text).map fun a => (String.ofList a.1, a.2)

/-- The first lines that start with a space, each without it. -/
def continuations : List (List Char) → List (List Char)
  | (' ' :: more) :: rest => more :: continuations rest
  | _ => []

/-- A place of a manifest that names an attribute. -/
structure Occurrence where
  /-- What stands in the line of the name. -/
  value : List Char
  /-- What stands in the lines that go on with it. -/
  more : List (List Char)
  deriving DecidableEq, Repr, Inhabited

/-- The value that a place gives by itself. -/
def Occurrence.text (o : Occurrence) : List Char :=
  Text.trim o.value ++ o.more.flatten

/-- The places among some lines that name an attribute, in order. -/
def occurrences (name : String) : List (List Char) → List Occurrence
  | [] => []
  | line :: rest =>
    match naming? line with
    | some (found, value) =>
      if found = name then ⟨value, continuations rest⟩ :: occurrences name rest
      else occurrences name rest
    | none => occurrences name rest

/-- The value of the first of some places, with the lines that go on with the later ones. -/
def gathered : List Occurrence → Option (List Char)
  | [] => none
  | first :: later => some (first.text ++ later.flatMap fun o => o.more.flatten)

/-! ## One line -/

variable {d : Draft} {name found : String} {text value : List Char}
variable {rest : List (List Char)} {attributes : Attributes}

theorem naming?_of_ne (h : text.head? ≠ some ' ') :
    naming? text = (attribute? text).map fun a => (String.ofList a.1, a.2) := by
  unfold naming?
  split
  · exact absurd rfl h
  · rfl

theorem continuations_of_ne (h : text.head? ≠ some ' ') : continuations (text :: rest) = [] := by
  unfold continuations
  split
  · rename_i heq
    obtain ⟨rfl, -⟩ := List.cons.inj heq
    exact absurd rfl h
  · rfl

theorem occurrences_of_naming (h : naming? text = some (found, value)) :
    occurrences name (text :: rest) =
      if found = name then ⟨value, continuations rest⟩ :: occurrences name rest
      else occurrences name rest := by
  rw [occurrences, h]

theorem occurrences_of_none (h : naming? text = none) :
    occurrences name (text :: rest) = occurrences name rest := by
  rw [occurrences, h]

/-- Some attributes with the value of a name, unless they have one for it. -/
def taken (attributes : Attributes) (name value : String) : Attributes :=
  if (attributes.lookup name).isSome then attributes else attributes ++ [(name, value)]

theorem line_of_naming (hhead : text.head? ≠ some ' ') (h : naming? text = some (found, value)) :
    line d text =
      ⟨taken d.attributes found (String.ofList (Text.trim value)), some found⟩ := by
  rw [naming?_of_ne hhead] at h
  obtain ⟨⟨n, v⟩, hattribute, heq⟩ := Option.map_eq_some_iff.1 h
  obtain ⟨rfl, rfl⟩ := Prod.mk.inj heq
  unfold line
  split
  · exact absurd rfl hhead
  · rw [hattribute, taken]

theorem line_of_none (hhead : text.head? ≠ some ' ') (h : naming? text = none) :
    line d text = { d with last := none } := by
  rw [naming?_of_ne hhead, Option.map_eq_none_iff] at h
  unfold line
  split
  · exact absurd rfl hhead
  · rw [h]

theorem line_of_nothing_open (hlast : d.last = none) (more : List Char) :
    line d (' ' :: more) = d := by
  rw [line, hlast]

theorem line_of_open {current : String} (hlast : d.last = some current) (more : List Char) :
    line d (' ' :: more) =
      { d with attributes := extend d.attributes current (String.ofList more) } := by
  rw [line, hlast]

theorem lookup_cons (key value : String) :
    List.lookup name ((key, value) :: attributes) =
      if name = key then some value else attributes.lookup name := by
  by_cases h : name = key
  · simp [h]
  · simp [List.lookup_cons, h, beq_false_of_ne]

/-- To add to the value of one name leaves those of the others as they are. -/
theorem lookup_extend (more : String) :
    (extend attributes found more).lookup name =
      if name = found then (attributes.lookup name).map (· ++ more)
      else attributes.lookup name := by
  induction attributes with
  | nil => simp [extend]
  | cons a attributes ih =>
    obtain ⟨key, known⟩ := a
    have hextend : extend ((key, known) :: attributes) found more =
        (key, if key = found then known ++ more else known) :: extend attributes found more := by
      by_cases hfound : key = found <;> simp [extend, hfound]
    rw [hextend, lookup_cons, ih, lookup_cons]
    by_cases hname : name = key
    · by_cases hfound : key = found <;> simp [hname, hfound]
    · simp [hname]

theorem lookup_taken (value : String) :
    (taken attributes found value).lookup name =
      (attributes.lookup name).or (if name = found then some value else none) := by
  unfold taken
  by_cases hknown : (attributes.lookup found).isSome = true
  · rw [if_pos hknown]
    by_cases hname : name = found
    · subst hname
      exact (Option.or_of_isSome hknown).symm
    · rw [if_neg hname, Option.or_none]
  · rw [if_neg hknown, List.lookup_append, lookup_cons, List.lookup_nil]

/-! ## What the lines come to -/

/-- A name that may be gone on with has a value. -/
def Draft.Sound (d : Draft) : Prop :=
  ∀ name, d.last = some name → (d.attributes.lookup name).isSome = true

/-- What a name comes to if some lines follow. -/
def Draft.outcome (d : Draft) (name : String) (rest : List (List Char)) : Option (List Char) :=
  match d.attributes.lookup name with
  | none => gathered (occurrences name rest)
  | some value =>
    some (value.toList ++ (if d.last = some name then (continuations rest).flatten else []) ++
      (occurrences name rest).flatMap fun o => o.more.flatten)

theorem outcome_of_none (h : d.attributes.lookup name = none) :
    d.outcome name rest = gathered (occurrences name rest) := by
  rw [Draft.outcome, h]

theorem outcome_of_some {known : String} (h : d.attributes.lookup name = some known) :
    d.outcome name rest =
      some (known.toList ++ (if d.last = some name then (continuations rest).flatten else []) ++
        (occurrences name rest).flatMap fun o => o.more.flatten) := by
  rw [Draft.outcome, h]

/-! The outcome is what carries the reading: no line changes it, whichever of the three kinds it is
of, and when no lines are left it is the value that the draft has. -/

/-- A line that starts with a space adds to the value of the name before it. -/
theorem outcome_continued (h : d.Sound) (more : List Char) :
    (line d (' ' :: more)).outcome name rest = d.outcome name ((' ' :: more) :: rest) := by
  have hmore : continuations ((' ' :: more) :: rest) = more :: continuations rest := rfl
  have hplaces : occurrences name ((' ' :: more) :: rest) = occurrences name rest :=
    occurrences_of_none rfl
  cases hlast : d.last with
  | none =>
    rw [line_of_nothing_open hlast, Draft.outcome, Draft.outcome, hplaces, hlast]
    simp
  | some current =>
    obtain ⟨known, hknown⟩ := Option.isSome_iff_exists.1 (h current hlast)
    rw [line_of_open hlast]
    by_cases hname : name = current
    · subst hname
      have hextended : (extend d.attributes name (String.ofList more)).lookup name =
          some (known ++ String.ofList more) := by
        rw [lookup_extend, if_pos rfl, hknown, Option.map_some]
      rw [outcome_of_some hextended, outcome_of_some hknown, hplaces, hmore]
      simp [hlast]
    · have hkept : (extend d.attributes current (String.ofList more)).lookup name =
          d.attributes.lookup name := by
        rw [lookup_extend, if_neg hname]
      have hother : ¬ some current = some name := fun heq => hname (Option.some.inj heq).symm
      rw [Draft.outcome, Draft.outcome, hplaces]
      dsimp only
      rw [hkept, hlast, if_neg hother, if_neg hother]

/-- A line that names an attribute gives it its value, unless it has one, and may be gone on with
in either case. -/
theorem outcome_named (hhead : text.head? ≠ some ' ') (h : naming? text = some (found, value)) :
    (line d text).outcome name rest = d.outcome name (text :: rest) := by
  have hends : continuations (text :: rest) = [] := continuations_of_ne hhead
  have htaken : (taken d.attributes found (String.ofList (Text.trim value))).lookup name =
      (d.attributes.lookup name).or
        (if name = found then some (String.ofList (Text.trim value)) else none) := lookup_taken _
  rw [line_of_naming hhead h]
  cases hknown : d.attributes.lookup name with
  | some known =>
    rw [hknown, Option.some_or] at htaken
    rw [outcome_of_some htaken, outcome_of_some hknown, occurrences_of_naming h, hends]
    by_cases hname : found = name <;> simp [hname]
  | none =>
    rw [hknown, Option.none_or] at htaken
    rw [outcome_of_none hknown, occurrences_of_naming h]
    by_cases hname : found = name
    · rw [if_pos hname.symm] at htaken
      rw [outcome_of_some htaken, if_pos hname, if_pos (congrArg some hname), gathered,
        String.toList_ofList, Occurrence.text]
    · rw [if_neg (Ne.symm hname)] at htaken
      rw [outcome_of_none htaken, if_neg hname]

/-- Any other line ends the value before it. -/
theorem outcome_ended (hhead : text.head? ≠ some ' ') (h : naming? text = none) :
    (line d text).outcome name rest = d.outcome name (text :: rest) := by
  rw [line_of_none hhead h, Draft.outcome, Draft.outcome, occurrences_of_none h,
    continuations_of_ne hhead]
  simp

theorem Draft.Sound.line (h : d.Sound) (text : List Char) : (line d text).Sound := by
  by_cases hhead : text.head? = some ' '
  · obtain ⟨more, rfl⟩ := List.head?_eq_some_iff.1 hhead
    intro name hname
    cases hlast : d.last with
    | none =>
      rw [line_of_nothing_open hlast] at hname ⊢
      exact h name hname
    | some current =>
      rw [line_of_open hlast] at hname ⊢
      show ((extend d.attributes current (String.ofList more)).lookup name).isSome = true
      rw [lookup_extend]
      split
      · rw [Option.isSome_map]
        exact h name hname
      · exact h name hname
  · cases hnaming : naming? text with
    | none =>
      rw [line_of_none hhead hnaming]
      exact fun _ hname => nomatch hname
    | some a =>
      obtain ⟨found, value⟩ := a
      rw [line_of_naming hhead hnaming]
      rintro name ⟨⟩
      rw [lookup_taken, if_pos rfl]
      simp

/-- **A line takes nothing away** from what a name comes to and adds nothing that its place in the
manifest does not give. -/
theorem outcome_line (h : d.Sound) (text : List Char) :
    (line d text).outcome name rest = d.outcome name (text :: rest) := by
  by_cases hhead : text.head? = some ' '
  · obtain ⟨more, rfl⟩ := List.head?_eq_some_iff.1 hhead
    exact outcome_continued h more
  · cases hnaming : naming? text with
    | none => exact outcome_ended hhead hnaming
    | some a => exact outcome_named hhead hnaming

theorem lookup_foldl_line (h : d.Sound) :
    ((rest.foldl line d).attributes.lookup name).map String.toList = d.outcome name rest := by
  induction rest generalizing d with
  | nil =>
    cases hknown : d.attributes.lookup name with
    | none =>
      rw [outcome_of_none hknown, List.foldl_nil, hknown]
      rfl
    | some known =>
      rw [outcome_of_some hknown, List.foldl_nil, hknown]
      simp [continuations, occurrences]
  | cons text rest ih =>
    rw [List.foldl_cons, ih (h.line text), outcome_line h]

/-- The places of a text that name an attribute. -/
def occurrencesIn (name text : String) : List Occurrence :=
  occurrences name (Text.lines text.toList)

/-- **What a manifest says of a name** is what its first place says, with the lines that go on with
the later ones. -/
theorem lookup_parse (name text : String) :
    (parse text).lookup name = (gathered (occurrencesIn name text)).map String.ofList := by
  have hsound : Draft.Sound ⟨[], none⟩ := fun _ hname => nomatch hname
  have hfold : ((parse text).lookup name).map String.toList = gathered (occurrencesIn name text) :=
    (lookup_foldl_line hsound).trans (outcome_of_none rfl)
  rw [← hfold, Option.map_map]
  simp [Function.comp_def]

/-- **The first place counts alone** exactly where no later place is gone on with. -/
theorem lookup_of_occurrences (name text : String) :
    (parse text).lookup name = (gathered (occurrencesIn name text)).map String.ofList ∧
      ((parse text).lookup name =
          (occurrencesIn name text).head?.map (fun o => String.ofList o.text) ↔
        ∀ o ∈ (occurrencesIn name text).tail, o.more.flatten = []) := by
  refine ⟨lookup_parse name text, ?_⟩
  rw [lookup_parse]
  cases occurrencesIn name text with
  | nil => simp [gathered]
  | cons first later => simp [gathered, List.flatMap_eq_nil_iff]

/-- A manifest in which a section repeats a name and goes on with it. -/
def sectioned : String := "Vendor: a\n\nName: x\nVendor: b\n c\n"

/-- **A place that is not the first can change a value.** -/
theorem exists_repeated_continued :
    ¬ ∀ name text : String, (parse text).lookup name =
      (occurrencesIn name text).head?.map fun o => String.ofList o.text := by
  intro always
  have hvendor := always "Vendor" sectioned
  revert hvendor
  decide +kernel

end JarGraph.Artifact.Manifest
