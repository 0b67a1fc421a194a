import JarGraph.Proofs.Artifact.Layout
import JarGraph.Proofs.Path.Spelling
import Mathlib.Data.List.TakeWhile
/-!
# Coordinates and their written forms

Coordinates are written in two forms, as a place in a repository and as
one text. The place tells them again wherever its names are names that a
directory can have (`coordinatesInRepository_path`), although the parts
may hold dashes, dots and digits themselves: the directories say where
the artifact and the version end in the name of the file. The text has
nothing but its separators. It is read back exactly where no part holds
one (`parse_display`), which a version and a classifier may
(`exists_display_apart`).
-/

namespace JarGraph

/-! ## Paths of entries -/

namespace Path

variable {p : Path} {name : String} {names : List String}

/-- An entry has one component more than its directory, which may be the empty path. -/
theorem components_entry (hname : IsEntryName name) :
    (p.child name).components = p.components ++ [.name name] := by
  by_cases hp : p.text.toList = []
  · -- Nothing is written before an entry of the empty path, not even a slash.
    have hchild : p.child name = ⟨name⟩ := by rw [child_eq hname, hp]; rfl
    have hnone : p.components = [] := by rw [components, lead, pieces, hp]; rfl
    rw [hchild, hnone, components_of_isEntryName hname, List.nil_append]
  · exact components_child hp hname

theorem components_entries (hnames : ∀ name ∈ names, IsEntryName name) :
    (p.below names).components = p.components ++ names.map .name := by
  induction names generalizing p with
  | nil => exact (List.append_nil _).symm
  | cons name names ih =>
    obtain ⟨hname, hmore⟩ := List.forall_mem_cons.1 hnames
    have hbelow : p.below (name :: names) = (p.child name).below names := rfl
    rw [hbelow, ih hmore, components_entry hname, List.append_assoc]
    rfl

end Path

namespace Artifact

variable {c d : Coordinates} {text : String}

/-! ## What the parts are made of -/

namespace Coordinates

theorem isId_iff : isId text = true ↔ text ≠ "" ∧ ∀ c ∈ text.toList, isIdChar c = true := by
  rw [isId, Bool.and_eq_true, Bool.not_eq_true', String.isEmpty_eq_false_iff, List.all_eq_true]

theorem isPlain_iff :
    isPlain text = true ↔ text ≠ "" ∧ ∀ c ∈ text.toList, Text.isBlank c = false := by
  rw [isPlain, Bool.and_eq_true, Bool.not_eq_true', Bool.not_eq_true',
    String.isEmpty_eq_false_iff, List.any_eq_false]
  simp only [Bool.not_eq_true]

theorem toNat_of_isIdChar {c : Char} (h : isIdChar c = true) : 33 ≤ c.toNat ∧ c.toNat ≤ 126 := by
  unfold isIdChar Char.isAlphanum Char.isAlpha Char.isUpper Char.isLower Char.isDigit at h
  simp only [Bool.or_eq_true, Bool.and_eq_true, decide_eq_true_eq, beq_iff_eq,
    UInt32.le_iff_toNat_le] at h
  rcases h with ((h | rfl) | rfl) | rfl
  · have hcode : c.toNat = c.val.toNat := rfl
    simp at h
    omega
  all_goals decide

/-- No character of an id is blank. -/
theorem isBlank_of_isIdChar {c : Char} (h : isIdChar c = true) : Text.isBlank c = false := by
  obtain ⟨hlow, hhigh⟩ := toNat_of_isIdChar h
  simp [Text.isBlank, Text.inRanges, Text.blankRanges]
  omega

theorem isPlain_of_isId (h : isId text = true) : isPlain text = true := by
  obtain ⟨hne, hchars⟩ := isId_iff.1 h
  exact isPlain_iff.2 ⟨hne, fun c hc => isBlank_of_isIdChar (hchars c hc)⟩

/-- What is no character of an id does not occur in one. -/
theorem not_mem_of_isId {separator : Char} (h : isId text = true)
    (hseparator : isIdChar separator = false) : separator ∉ text.toList := by
  intro hmem
  rw [(isId_iff.1 h).2 separator hmem] at hseparator
  cases hseparator

theorem isValid_iff :
    c.isValid = true ↔ isId c.groupId = true ∧ isId c.artifactId = true ∧
      isPlain c.version = true ∧ ∀ text, c.classifier = some text → isPlain text = true := by
  rw [isValid, Bool.and_eq_true, Bool.and_eq_true, Bool.and_eq_true, Option.all_eq_true, and_assoc,
    and_assoc]

/-! ## The place of coordinates -/

/-- The layout has a place for the coordinates: the segments of the group, the artifact and the
version are names that a directory can have, and the classifier can stand in the name of a file. -/
structure HasPlace (c : Coordinates) : Prop where
  group : ∀ segment ∈ Text.pieces '.' c.groupId.toList, segment ≠ []
  artifactId : IsEntryName c.artifactId
  version : IsEntryName c.version
  classifier : ∀ text, c.classifier = some text → '/' ∉ text.toList

end Coordinates

/-- A name with something else than dots in it is one that an entry can have. -/
theorem isEntryName_of_mem {name : String} {c : Char} (hc : c ∈ name.toList) (hdot : c ≠ '.')
    (hslash : '/' ∉ name.toList) : IsEntryName name := by
  refine ⟨?_, ?_, ?_, hslash⟩ <;> rintro rfl <;> simp_all

theorem isEntryName_of_mem_pieces {segment : List Char} (hid : Coordinates.isId text = true)
    (hsegment : segment ∈ Text.pieces '.' text.toList) (hne : segment ≠ []) :
    IsEntryName (String.ofList segment) := by
  obtain ⟨c, rest, rfl⟩ := List.exists_cons_of_ne_nil hne
  have hslash : ∀ c ∈ text.toList, c ≠ '/' := fun c hc hslash =>
    Coordinates.not_mem_of_isId hid (by decide) (hslash ▸ hc)
  refine isEntryName_of_mem (c := c) (by simp) ?_ ?_
  · exact fun hdot => Text.not_mem_of_mem_pieces hsegment (hdot ▸ List.mem_cons_self)
  · rw [String.toList_ofList]
    exact fun hmem => Text.forall_pieces hslash _ hsegment '/' hmem rfl

namespace Place

variable {ending : String}

theorem isEntryName_fileName (hplace : c.HasPlace) (hending : '/' ∉ ending.toList) :
    IsEntryName (ofCoordinates c ending).fileName := by
  have hclassifier : '/' ∉ (c.classifier.elim "" fun text => "-" ++ text).toList := by
    cases htext : c.classifier with
    | none => exact List.not_mem_nil
    | some text => simpa using hplace.classifier text htext
  refine isEntryName_of_mem (c := '-') ?_ (by decide) ?_
  · simp [ofCoordinates]
  · simp only [ofCoordinates, String.toList_append, List.mem_append, not_or]
    exact ⟨⟨⟨⟨⟨hplace.artifactId.2.2.2, by decide⟩, hplace.version.2.2.2⟩, hclassifier⟩, by decide⟩,
      hending⟩

theorem isEntryName_of_mem_names (hvalid : c.isValid = true) (hplace : c.HasPlace)
    (hending : '/' ∉ ending.toList) :
    ∀ name ∈ (ofCoordinates c ending).names, IsEntryName name := by
  refine List.forall_mem_append.2 ⟨?_, ?_⟩
  · intro name hname
    obtain ⟨segment, hsegment, rfl⟩ := List.mem_map.1 hname
    exact isEntryName_of_mem_pieces (Coordinates.isValid_iff.1 hvalid).1 hsegment
      (hplace.group segment hsegment)
  · simp only [List.forall_mem_cons]
    exact ⟨hplace.artifactId, hplace.version, isEntryName_fileName hplace hending,
      fun _ hname => nomatch hname⟩

/-- A file that is stored at the place of its coordinates is laid out by them. -/
theorem laidOut_path (repository : Path) (hvalid : c.isValid = true) (hplace : c.HasPlace)
    (hdot : '.' ∉ ending.toList) (hslash : '/' ∉ ending.toList) :
    LaidOut repository ((ofCoordinates c ending).path repository) c := by
  have hcomponents : ((ofCoordinates c ending).path repository).components =
      repository.components ++ (ofCoordinates c ending).names.map .name :=
    Path.components_entries (isEntryName_of_mem_names hvalid hplace hslash)
  refine ⟨⟨_, hcomponents⟩, ?_⟩
  have hname : ((ofCoordinates c ending).path repository).fileName =
      some (ofCoordinates c ending).fileName := by
    rw [Path.fileName, hcomponents, names]
    simp [Component.name?]
  -- The dots of the version do not matter: the stem goes up to the last dot, that of the ending.
  have hstem : c.artifactId ++ "-" ++ c.version ++ (c.classifier.elim "" fun text => "-" ++ text)
      ≠ "" := by
    simp
  rw [Path.stem, hname, Option.map_some, ofCoordinates, Path.splitName_append hstem hdot]

end Place

/-- **A place tells the coordinates it was made for**: a repository gives the file at the place of
some coordinates these coordinates, wherever the repository is and whatever the file ends in. -/
theorem coordinatesInRepository_path (repository : Path) {ending : String}
    (hvalid : c.isValid = true) (hplace : c.HasPlace) (hdot : '.' ∉ ending.toList)
    (hslash : '/' ∉ ending.toList) :
    coordinatesInRepository ((Place.ofCoordinates c ending).path repository) repository =
      some c :=
  coordinatesInRepository_eq_some.2
    ⟨hvalid, (Place.laidOut_path repository hvalid hplace hdot hslash).tells hvalid⟩

/-- Dashes, dots and digits in all parts do not lead astray. -/
theorem coordinatesInRepository_path_dashed :
    Coordinates.isValid ⟨"org.x-1", "a-1.0-b", "1.0-1.0", some "1-.a"⟩ = true ∧
      coordinatesInRepository ⟨"~/m2/org/x-1/a-1.0-b/1.0-1.0/a-1.0-b-1.0-1.0-1-.a.tar"⟩ ⟨"~/m2/"⟩ =
        some ⟨"org.x-1", "a-1.0-b", "1.0-1.0", some "1-.a"⟩ := by
  have hvalid : Coordinates.isValid ⟨"org.x-1", "a-1.0-b", "1.0-1.0", some "1-.a"⟩ = true := by
    decide
  have hplace : Coordinates.HasPlace ⟨"org.x-1", "a-1.0-b", "1.0-1.0", some "1-.a"⟩ :=
    ⟨by decide +kernel, by decide, by decide, by rintro text ⟨⟩; decide⟩
  have hpath : (Place.ofCoordinates ⟨"org.x-1", "a-1.0-b", "1.0-1.0", some "1-.a"⟩ "tar").path
      ⟨"~/m2/"⟩ = ⟨"~/m2/org/x-1/a-1.0-b/1.0-1.0/a-1.0-b-1.0-1.0-1-.a.tar"⟩ := by
    decide +kernel
  have hending : '.' ∉ "tar".toList ∧ '/' ∉ "tar".toList := by decide
  have htold := coordinatesInRepository_path ⟨"~/m2/"⟩ hvalid hplace hending.1 hending.2
  rw [hpath] at htold
  exact ⟨hvalid, htold⟩

/-! ## Reading a hint -/

namespace Hint

/-- A part of a hint holds nothing but what was written. -/
theorem mem_of_part {piece : List Char} (h : part piece = some text) :
    ∀ c ∈ text.toList, c ∈ piece := by
  unfold part Text.nonBlank? at h
  dsimp only at h
  split at h
  · cases h
  · obtain rfl := Option.some.inj h
    intro c hc
    rw [Text.trimmed, String.toList_ofList, String.toList_ofList, Text.trim, Text.trimEnd,
      List.mem_reverse] at hc
    exact (List.dropWhile_sublist _).subset
      (List.mem_reverse.1 ((List.dropWhile_sublist _).subset hc))

/-- A part that starts with something says something. -/
theorem part_ne_none {c : Char} {rest : List Char} (h : Text.isBlank c = false) :
    part (c :: rest) ≠ none := by
  unfold part Text.nonBlank?
  dsimp only
  have hfull : (Text.trimmed (String.ofList (c :: rest))).isEmpty = false := by
    rw [String.isEmpty_eq_false_iff, Ne, ← String.toList_eq_nil_iff, Text.trimmed,
      String.toList_ofList, String.toList_ofList, Text.trim, Text.trimStart, List.dropWhile_cons, h,
      if_neg Bool.false_ne_true, Text.trimEnd, List.reverse_eq_nil_iff, List.dropWhile_eq_nil_iff]
    intro hblank
    rw [hblank c (List.mem_reverse.2 List.mem_cons_self)] at h
    cases h
  rw [hfull, if_neg Bool.false_ne_true]
  exact Option.some_ne_none _

theorem part_toList (h : Coordinates.isPlain text = true) : part text.toList = some text := by
  rw [part, String.ofList_toList, nonBlank?_of_isPlain h]

variable {name : Option String} {pieces : List (List Char)} {hint : Hint}

/-- A hint says of a name what some pieces say, three of them or four. -/
def ReadFrom (name : Option String) (pieces : List (List Char)) (hint : Hint) : Prop :=
  (∃ groupId artifactId version, pieces = [groupId, artifactId, version] ∧
    hint = ⟨name, part groupId, part artifactId, part version, none⟩) ∨
  ∃ groupId artifactId version classifier, pieces = [groupId, artifactId, version, classifier] ∧
    hint = ⟨name, part groupId, part artifactId, part version, part classifier⟩

theorem readFrom_iff {cause : String} :
    (match pieces with
      | [groupId, artifactId, version] =>
        .ok ⟨name, part groupId, part artifactId, part version, none⟩
      | [groupId, artifactId, version, classifier] =>
        .ok ⟨name, part groupId, part artifactId, part version, part classifier⟩
      | _ => .error cause : Except String Hint) = .ok hint ↔ ReadFrom name pieces hint := by
  constructor
  · intro h
    split at h
    · exact .inl ⟨_, _, _, rfl, (Except.ok.inj h).symm⟩
    · exact .inr ⟨_, _, _, _, rfl, (Except.ok.inj h).symm⟩
    · cases h
  · rintro (⟨_, _, _, rfl, rfl⟩ | ⟨_, _, _, _, rfl, rfl⟩)
    · rfl
    · rfl

/-- **A hint is read** from the pieces between colons, behind the name of a file if there is an
equals sign. -/
theorem parse_eq_ok :
    parse text = .ok hint ↔
      ('=' ∉ text.toList ∧ ReadFrom none (Text.pieces ':' text.toList) hint) ∨
      ∃ name rest, text.toList = name ++ '=' :: rest ∧ '=' ∉ name ∧
        ReadFrom (part name) (Text.pieces ':' rest) hint := by
  unfold parse
  cases hhalves : Text.cutWhere (· == '=') text.toList with
  | none =>
    have hnone : '=' ∉ text.toList := fun hmem => by
      simpa using Text.cutWhere_eq_none.1 hhalves '=' hmem
    refine readFrom_iff.trans ⟨fun h => .inl ⟨hnone, h⟩, ?_⟩
    rintro (⟨-, h⟩ | ⟨name, rest, htext, hname, -⟩)
    · exact h
    · cases hhalves.symm.trans (Text.cutWhere_separator_eq_some.2 ⟨htext, hname⟩)
  | some halves =>
    obtain ⟨htext, hname⟩ := Text.cutWhere_separator_eq_some.1 hhalves
    refine readFrom_iff.trans ⟨fun h => .inr ⟨_, _, htext, hname, h⟩, ?_⟩
    rintro (⟨hnone, -⟩ | ⟨name, rest, htext', hname', h⟩)
    · exact absurd (htext ▸ List.mem_append_right _ List.mem_cons_self) hnone
    · obtain rfl := Option.some.inj
        (hhalves.symm.trans (Text.cutWhere_separator_eq_some.2 ⟨htext', hname'⟩))
      exact h

/-- A hint that is read has the name, and each field is told by a piece. -/
theorem of_readFrom (h : ReadFrom name pieces hint) :
    hint.name = name ∧
      (∀ version, hint.version = some version → ∃ piece ∈ pieces, part piece = some version) ∧
      ∀ classifier, hint.classifier = some classifier →
        ∃ piece ∈ pieces, part piece = some classifier := by
  rcases h with ⟨groupId, artifactId, version, rfl, hhint⟩ |
    ⟨groupId, artifactId, version, classifier, rfl, hhint⟩
  · have hversion : hint.version = part version := by rw [hhint]
    have hclassifier : hint.classifier = none := by rw [hhint]
    refine ⟨by rw [hhint], fun _ h => ⟨version, by simp, hversion.symm.trans h⟩, fun _ h => ?_⟩
    cases hclassifier.symm.trans h
  · have hversion : hint.version = part version := by rw [hhint]
    have hclassifier : hint.classifier = part classifier := by rw [hhint]
    exact ⟨by rw [hhint], fun _ h => ⟨version, by simp, hversion.symm.trans h⟩,
      fun _ h => ⟨classifier, by simp, hclassifier.symm.trans h⟩⟩

end Hint

/-! ## The text of coordinates -/

namespace Coordinates

/-- The hint that says all of some coordinates, and names no file. -/
def toHint (c : Coordinates) : Hint :=
  ⟨none, some c.groupId, some c.artifactId, some c.version, c.classifier⟩

/-- Neither the version nor the classifier holds a character that separates parts. -/
structure HoldsNoSeparator (c : Coordinates) : Prop where
  version : ':' ∉ c.version.toList ∧ '=' ∉ c.version.toList
  classifier : ∀ text, c.classifier = some text → ':' ∉ text.toList ∧ '=' ∉ text.toList

/-- What follows the group and the artifact in the text of coordinates. -/
def details (c : Coordinates) : List Char :=
  c.version.toList ++ c.classifier.elim [] fun text => ':' :: text.toList

theorem toList_display (c : Coordinates) :
    c.display.toList =
      c.groupId.toList ++ ':' :: (c.artifactId.toList ++ ':' :: c.details) := by
  obtain ⟨groupId, artifactId, version, classifier⟩ := c
  cases classifier with
  | none => simp [display, details]
  | some text => simp [display, details]

theorem pieces_display (hvalid : c.isValid = true) :
    Text.pieces ':' c.display.toList =
      c.groupId.toList :: c.artifactId.toList :: Text.pieces ':' c.details := by
  obtain ⟨hgroup, hartifact, -, -⟩ := isValid_iff.1 hvalid
  rw [toList_display, Text.pieces_append, Text.pieces_append,
    Text.pieces_eq_singleton (not_mem_of_isId hgroup (by decide)),
    Text.pieces_eq_singleton (not_mem_of_isId hartifact (by decide))]
  rfl

/-- Coordinates start with something, so that what stands before an equals sign in their text would
be taken for the name of a file. -/
theorem part_ne_none_of_display {name rest : List Char} (hvalid : c.isValid = true)
    (h : c.display.toList = name ++ '=' :: rest) : Hint.part name ≠ none := by
  obtain ⟨hne, hchars⟩ := isId_iff.1 (isValid_iff.1 hvalid).1
  obtain ⟨first, more, hfirst⟩ :=
    List.exists_cons_of_ne_nil fun hnil => hne (String.toList_eq_nil_iff.1 hnil)
  have hid : isIdChar first = true := hchars first (hfirst ▸ List.mem_cons_self)
  rw [toList_display, hfirst] at h
  cases name with
  | nil =>
    obtain ⟨rfl, -⟩ := List.cons.inj h
    cases hid
  | cons c name =>
    obtain ⟨rfl, -⟩ := List.cons.inj h
    exact Hint.part_ne_none (isBlank_of_isIdChar hid)

theorem HoldsNoSeparator.not_mem_details (h : c.HoldsNoSeparator) : '=' ∉ c.details := by
  obtain ⟨groupId, artifactId, version, classifier⟩ := c
  cases classifier with
  | none => simpa [details] using h.version.2
  | some text => simpa [details] using ⟨h.version.2, (h.classifier text rfl).2⟩

theorem HoldsNoSeparator.pieces_details (h : c.HoldsNoSeparator) :
    Text.pieces ':' c.details =
      c.version.toList :: (c.classifier.map String.toList).toList := by
  obtain ⟨groupId, artifactId, version, classifier⟩ := c
  have hversion := Text.pieces_eq_singleton h.version.1
  cases classifier with
  | none => simpa [details] using hversion
  | some text =>
    have htext := Text.pieces_eq_singleton (h.classifier text rfl).1
    simp only [details, Option.elim_some, Text.pieces_append, hversion, htext]
    rfl

/-- **The text of coordinates is read back** exactly where no part holds a separator. -/
theorem parse_display_iff (hvalid : c.isValid = true) :
    Hint.parse c.display = .ok c.toHint ↔ c.HoldsNoSeparator := by
  rw [Hint.parse_eq_ok]
  constructor
  · rintro (⟨hequals, hread⟩ | ⟨name, rest, htext, -, hread⟩)
    · obtain ⟨-, hversion, hclassifier⟩ := Hint.of_readFrom hread
      -- A piece holds no colon, and a part nothing but what its piece holds.
      have hcolon : ∀ {text : String}, (∃ piece ∈ Text.pieces ':' c.display.toList,
          Hint.part piece = some text) → ':' ∉ text.toList := by
        rintro text ⟨piece, hpiece, hpart⟩ hmem
        exact Text.not_mem_of_mem_pieces hpiece (Hint.mem_of_part hpart ':' hmem)
      rw [toList_display] at hequals
      simp only [List.mem_append, List.mem_cons, not_or, details] at hequals
      obtain ⟨-, -, -, -, hfree, hfree'⟩ := hequals
      refine ⟨⟨hcolon (hversion _ rfl), hfree⟩, fun text htext => ?_⟩
      rw [htext] at hfree'
      exact ⟨hcolon (hclassifier text htext), (not_or.1 (mt List.mem_cons.2 hfree')).2⟩
    · exact absurd (Hint.of_readFrom hread).1.symm (part_ne_none_of_display hvalid htext)
  · intro h
    obtain ⟨hgroup, hartifact, hversion, hclassifier⟩ := isValid_iff.1 hvalid
    refine .inl ⟨?_, ?_⟩
    · rw [toList_display]
      simp only [List.mem_append, List.mem_cons, not_or]
      exact ⟨not_mem_of_isId hgroup (by decide), by decide, not_mem_of_isId hartifact (by decide),
        by decide, h.not_mem_details⟩
    · rw [pieces_display hvalid, h.pieces_details]
      have hgroup := Hint.part_toList (isPlain_of_isId hgroup)
      have hartifact := Hint.part_toList (isPlain_of_isId hartifact)
      have hversion := Hint.part_toList hversion
      cases htext : c.classifier with
      | none =>
        refine .inl ⟨_, _, _, rfl, ?_⟩
        rw [hgroup, hartifact, hversion, toHint, htext]
      | some text =>
        refine .inr ⟨_, _, _, _, rfl, ?_⟩
        rw [hgroup, hartifact, hversion, toHint, htext, Hint.part_toList (hclassifier text htext)]

/-- A colon in what follows the artifact parts the version from the classifier. -/
theorem eq_of_details (hc : ':' ∉ c.version.toList) (hd : ':' ∉ d.version.toList)
    (h : c.details = d.details) : c.version = d.version ∧ c.classifier = d.classifier := by
  cases hclassifier : c.classifier with
  | none =>
    cases hclassifier' : d.classifier with
    | none =>
      simp only [details, hclassifier, hclassifier', Option.elim_none, List.append_nil] at h
      exact ⟨String.toList_inj.1 h, rfl⟩
    | some text =>
      simp only [details, hclassifier, hclassifier', Option.elim_none, Option.elim_some,
        List.append_nil] at h
      exact absurd (h ▸ List.mem_append_right _ List.mem_cons_self) hc
  | some text =>
    cases hclassifier' : d.classifier with
    | none =>
      simp only [details, hclassifier, hclassifier', Option.elim_none, Option.elim_some,
        List.append_nil] at h
      exact absurd (h ▸ List.mem_append_right _ List.mem_cons_self) hd
    | some text' =>
      simp only [details, hclassifier, hclassifier', Option.elim_some] at h
      obtain ⟨hversion, htext⟩ := Text.eq_of_append_cons hc hd h
      exact ⟨String.toList_inj.1 hversion, congrArg some (String.toList_inj.1 htext)⟩

/-- Coordinates of one text are the same if a colon in it always ends the version. -/
theorem eq_of_display (hc : c.isValid = true) (hd : d.isValid = true)
    (hcversion : ':' ∉ c.version.toList) (hdversion : ':' ∉ d.version.toList)
    (h : c.display = d.display) : c = d := by
  obtain ⟨hcgroup, hcartifact, -, -⟩ := isValid_iff.1 hc
  obtain ⟨hdgroup, hdartifact, -, -⟩ := isValid_iff.1 hd
  have htext := congrArg String.toList h
  rw [toList_display, toList_display] at htext
  obtain ⟨hgroup, hrest⟩ := Text.eq_of_append_cons (not_mem_of_isId hcgroup (by decide))
    (not_mem_of_isId hdgroup (by decide)) htext
  obtain ⟨hartifact, hdetails⟩ := Text.eq_of_append_cons (not_mem_of_isId hcartifact (by decide))
    (not_mem_of_isId hdartifact (by decide)) hrest
  obtain ⟨hversion, hclassifier⟩ := eq_of_details hcversion hdversion hdetails
  rw [Coordinates.mk.injEq]
  exact ⟨String.toList_inj.1 hgroup, String.toList_inj.1 hartifact, hversion, hclassifier⟩

end Coordinates

/-- **Coordinates are read back from their text**, as a hint that names no file, exactly where
neither the version nor the classifier holds a colon or an equals sign. Different coordinates have
different texts as long as no version holds a colon. -/
theorem parse_display (hvalid : c.isValid = true) :
    (Hint.parse c.display = .ok c.toHint ↔ c.HoldsNoSeparator) ∧
      ∀ d : Coordinates, d.isValid = true → ':' ∉ c.version.toList → ':' ∉ d.version.toList →
        c.display = d.display → c = d :=
  ⟨Coordinates.parse_display_iff hvalid, fun _ hvalid' => Coordinates.eq_of_display hvalid hvalid'⟩

/-- Dots and dashes separate nothing. -/
theorem parse_display_dashed :
    Coordinates.isValid ⟨"org.x-1", "a-1.0-b", "1.0-1.0", some "1-.a"⟩ = true ∧
      Hint.parse "org.x-1:a-1.0-b:1.0-1.0:1-.a" =
        .ok ⟨none, some "org.x-1", some "a-1.0-b", some "1.0-1.0", some "1-.a"⟩ := by
  have hvalid : Coordinates.isValid ⟨"org.x-1", "a-1.0-b", "1.0-1.0", some "1-.a"⟩ = true := by
    decide
  have hfree : Coordinates.HoldsNoSeparator ⟨"org.x-1", "a-1.0-b", "1.0-1.0", some "1-.a"⟩ :=
    ⟨by decide, by rintro text ⟨⟩; decide⟩
  exact ⟨hvalid, (parse_display hvalid).1.2 hfree⟩

/-- **Text is not always read back**: a version may hold an equals sign, and then the text is no
hint. A version may hold a colon as well, and then other coordinates have the same text. -/
theorem exists_display_apart :
    (Coordinates.isValid ⟨"g", "a", "1=2", none⟩ = true ∧
      Hint.parse (Coordinates.display ⟨"g", "a", "1=2", none⟩) ≠
        .ok (Coordinates.toHint ⟨"g", "a", "1=2", none⟩)) ∧
    Coordinates.isValid ⟨"g", "a", "1:2", none⟩ = true ∧
      Coordinates.isValid ⟨"g", "a", "1", some "2"⟩ = true ∧
      Coordinates.display ⟨"g", "a", "1:2", none⟩ = Coordinates.display ⟨"g", "a", "1", some "2"⟩ ∧
      (⟨"g", "a", "1:2", none⟩ : Coordinates) ≠ ⟨"g", "a", "1", some "2"⟩ := by
  refine ⟨⟨by decide, fun hread => ?_⟩, by decide, by decide, by decide, by decide⟩
  have hanswer : (Hint.parse (Coordinates.display ⟨"g", "a", "1=2", none⟩)).toBool = false := by
    decide +kernel
  rw [hread] at hanswer
  cases hanswer

end Artifact

end JarGraph
