import JarGraph.Artifact.Report
import JarGraph.Proofs.Artifact.Origin
import JarGraph.Proofs.FileSystem.Route
import JarGraph.Proofs.Path.Below
/-!
# The place of a file in a repository

A file of a repository is reported without a name, so that only its
coordinates can tell its place. They do where the place is one of the
layout (`LaidOut`): the coordinates that a file is given are read off its
place exactly where it tells some (`coordinatesInRepository_eq_some`), and
a registry keeps to that through all requests but an explicit registration
(`laidOut_of_unnamed`). At other places in the repository a file is
reported without a name as well, with coordinates that come from the
archive and from the hint for it (`exists_unnamed_elsewhere`).
-/

namespace JarGraph

/-- The stem of a path is that of its last component. -/
theorem Path.stem_of_getLast? {p : Path} {component : Component}
    (h : p.components.getLast? = some component) : stem ⟨component.text⟩ = p.stem := by
  unfold stem fileName
  rw [h]
  cases component with
  | name name =>
    have hname := FileSystem.isEntryName_of_mem_components (List.mem_of_getLast? h)
    show Option.map _ ((components ⟨name⟩).getLast?.bind _) = _
    rw [components_of_isEntryName hname]
    rfl
  | root => rfl
  | here => rfl
  | up => rfl

namespace Artifact

variable {repository file other : Path} {c : Coordinates}

/-- A file lies where the layout of a repository puts its coordinates: below directories for the
segments of the group, the artifact and the version, with a stem made of the artifact, the version
and the classifier, if there is one. -/
structure LaidOut (repository file : Path) (c : Coordinates) : Prop where
  directories : ∃ name, file.components = repository.components ++
    ((Text.pieces '.' c.groupId.toList).map String.ofList ++
      [c.artifactId, c.version, name]).map Component.name
  stem : file.stem =
    some (c.artifactId ++ "-" ++ c.version ++ c.classifier.elim "" fun text => "-" ++ text)

/-- What follows the artifact and the version in a stem tells the classifier: nothing, or a dash and
a text, which counts without the blanks around it and not at all where nothing is left of it. -/
def TellsClassifier (tail : String) (classifier : Option String) : Prop :=
  (tail = "" ∧ classifier = none) ∨ ∃ text, tail = "-" ++ text ∧ classifier = Text.nonBlank? text

/-- A file lies where its place in a repository tells the coordinates. A directory with dots in its
name counts as several segments of the group. -/
structure Tells (repository file : Path) (c : Coordinates) : Prop where
  directories : ∃ group below name, group ≠ [] ∧
    file.components = repository.components ++ below ∧
    below.map Component.text = group ++ [c.artifactId, c.version, name] ∧
    c.groupId = String.intercalate "." group
  stem : ∃ tail, file.stem = some (c.artifactId ++ "-" ++ c.version ++ tail) ∧
    TellsClassifier tail c.classifier

/-! ## Reading a place -/

theorem Place.ofComponents_eq_some {components : List Component} {place : Place} :
    ofComponents components = some place ↔
      place.group ≠ [] ∧ components.map Component.text = place.names := by
  unfold ofComponents
  constructor
  · intro h
    split at h
    · rename_i fileName version artifactId first more hreverse
      obtain rfl := Option.some.inj h
      refine ⟨by simp, ?_⟩
      rw [← List.reverse_reverse (components.map Component.text), hreverse]
      simp [names]
    · cases h
  · rintro ⟨hgroup, hnames⟩
    obtain ⟨more, first, hgroup⟩ := (List.eq_nil_or_concat place.group).resolve_left hgroup
    have hreverse : (components.map Component.text).reverse =
        place.fileName :: place.version :: place.artifactId :: first :: more.reverse := by
      rw [hnames, names, hgroup]
      simp
    rw [hreverse]
    simp [← List.concat_eq_append, ← hgroup]

theorem Place.classifier?_eq_some {artifactId version stem : String}
    {classifier : Option String} :
    classifier? artifactId version stem = some classifier ↔
      ∃ tail, stem = artifactId ++ "-" ++ version ++ tail ∧ TellsClassifier tail classifier := by
  have hcut : ∀ tail : List Char,
      Text.dropStart? (artifactId ++ "-" ++ version).toList stem.toList = some tail ↔
        stem = artifactId ++ "-" ++ version ++ String.ofList tail := by
    intro tail
    rw [Text.dropStart?_eq_some, ← String.toList_inj,
      String.toList_append (t := String.ofList tail), String.toList_ofList]
  unfold classifier?
  constructor
  · intro h
    split at h
    · cases h
    · rename_i hrest
      obtain rfl := Option.some.inj h
      exact ⟨"", (hcut []).1 hrest, .inl ⟨rfl, rfl⟩⟩
    · rename_i rest hrest
      obtain rfl := Option.some.inj h
      have htail : String.ofList (['-'] ++ rest) = "-" ++ String.ofList rest :=
        String.ofList_append
      exact ⟨_, (hcut ('-' :: rest)).1 hrest, .inr ⟨String.ofList rest, htail, rfl⟩⟩
    · cases h
  · rintro ⟨tail, hstem, htells⟩
    have hrest := (hcut tail.toList).2 (by rwa [String.ofList_toList])
    rcases htells with ⟨rfl, rfl⟩ | ⟨text, rfl, rfl⟩
    · rw [hrest]
      rfl
    · rw [hrest, String.toList_append]
      show some (Text.nonBlank? (String.ofList text.toList)) = _
      rw [String.ofList_toList]

theorem Coordinates.make_of_isValid (file : Path) (h : c.isValid = true) :
    make file (some c.groupId) (some c.artifactId) (some c.version) c.classifier = .ok c := by
  obtain ⟨groupId, artifactId, version, classifier⟩ := c
  simp only [isValid, Bool.and_eq_true] at h
  obtain ⟨⟨⟨hgroup, hartifact⟩, hversion⟩, hclassifier⟩ := h
  cases classifier with
  | none => simp [make, hgroup, hartifact, hversion]
  | some text => simp_all [make]

/-- The stem of a file is told by the last of the names below a repository. -/
theorem stem_of_names {front below : List Component} (names : List String) {name : String}
    (hcomponents : file.components = front ++ below)
    (hnames : below.map Component.text = names ++ [name]) : Path.stem ⟨name⟩ = file.stem := by
  have hlast : (below.map Component.text).getLast? = some name := by
    rw [hnames, List.getLast?_concat]
  rw [List.getLast?_map, Option.map_eq_some_iff] at hlast
  obtain ⟨component, hlast, rfl⟩ := hlast
  refine Path.stem_of_getLast? ?_
  rw [hcomponents, List.getLast?_append, hlast]
  rfl

/-- **The coordinates of a file of a repository** are read off its place exactly where it tells
coordinates that are well formed. -/
theorem coordinatesInRepository_eq_some :
    coordinatesInRepository file repository = some c ↔
      c.isValid = true ∧ Tells repository file c := by
  unfold coordinatesInRepository Place.coordinates?
  simp only [bind, Option.bind_eq_some_iff, Answer.toOption_eq_some, Place.ofComponents_eq_some,
    Place.classifier?_eq_some]
  constructor
  · rintro ⟨q, hq, place, ⟨hgroup, hnames⟩, stem, hstem, classifier, ⟨tail, rfl, htail⟩, hmake⟩
    obtain ⟨hgroupId, hartifactId, hversion, rfl, hvalid⟩ := Coordinates.of_make_eq_ok hmake
    have hcomponents := Path.components_of_stripBase? hq
    have hfile : Path.stem ⟨place.fileName⟩ = file.stem :=
      stem_of_names (place.group ++ [place.artifactId, place.version]) hcomponents
        (by rw [hnames, Place.names, List.append_assoc]; rfl)
    rw [Option.some.injEq] at hgroupId hartifactId hversion
    refine ⟨hvalid, ⟨place.group, q.components, place.fileName, hgroup, hcomponents, ?_,
      hgroupId.symm⟩, tail, ?_, htail⟩
    · rw [hnames, Place.names, hartifactId, hversion]
    · rw [← hfile, hstem, hartifactId, hversion]
  · -- What is left of a path below the repository is unique, so it is the row that is told.
    rintro ⟨hvalid, ⟨group, below, name, hgroup, hcomponents, hnames, hgroupId⟩, tail, hstem, htail⟩
    obtain ⟨q, hq⟩ : ∃ q, file.stripBase? repository = some q :=
      Path.exists_stripBase?.2 (Path.startsWith_iff.2 ⟨below, hcomponents.symm⟩)
    have hbelow : q.components = below :=
      List.append_cancel_left ((Path.components_of_stripBase? hq).symm.trans hcomponents)
    have hfile : Path.stem ⟨name⟩ = file.stem :=
      stem_of_names (group ++ [c.artifactId, c.version]) hcomponents
        (by rw [hnames, List.append_assoc]; rfl)
    refine ⟨q, hq, ⟨group, c.artifactId, c.version, name⟩, ⟨hgroup, ?_⟩, _, hfile.trans hstem,
      c.classifier, ⟨tail, rfl, htail⟩, ?_⟩
    · rw [hbelow, hnames, Place.names]
    · rw [← hgroupId]
      exact Coordinates.make_of_isValid file hvalid

/-- Coordinates are told by the path, however it is written. -/
theorem coordinatesInRepository_congr (h : file.same other = true) :
    coordinatesInRepository file repository = coordinatesInRepository other repository := by
  have hcomponents := Path.same_iff.1 h
  have hstem : file.stem = other.stem := by rw [Path.stem, Path.stem, Path.fileName, Path.fileName,
    hcomponents]
  refine Option.ext fun c => ?_
  simp only [coordinatesInRepository_eq_some]
  refine and_congr_right fun _ => ⟨fun htells => ⟨?_, ?_⟩, fun htells => ⟨?_, ?_⟩⟩
  · exact hcomponents ▸ htells.directories
  · exact hstem ▸ htells.stem
  · exact hcomponents ▸ htells.directories
  · exact hstem ▸ htells.stem

/-! ## Places of the layout -/

/-- Segments that are joined by dots are the group that they were cut from. -/
theorem intercalate_pieces (text : String) :
    String.intercalate "." ((Text.pieces '.' text.toList).map String.ofList) = text := by
  have hmap : ((Text.pieces '.' text.toList).map String.ofList).map String.toList =
      Text.pieces '.' text.toList := by
    simp [Function.comp_def]
  refine String.toList_inj.1 ?_
  rw [String.toList_intercalate, hmap]
  exact (Text.join_eq_intercalate '.' _).symm.trans (Text.join_pieces '.' _)

theorem dropWhile_isBlank {text : List Char} (h : text.any Text.isBlank = false) :
    text.dropWhile Text.isBlank = text := by
  cases text with
  | nil => rfl
  | cons c rest =>
    rw [List.any_cons, Bool.or_eq_false_iff] at h
    rw [List.dropWhile_cons, h.1, if_neg Bool.false_ne_true]

/-- A text without blanks counts as it is. -/
theorem nonBlank?_of_isPlain {text : String} (h : Coordinates.isPlain text = true) :
    Text.nonBlank? text = some text := by
  rw [Coordinates.isPlain, Bool.and_eq_true, Bool.not_eq_true', Bool.not_eq_true'] at h
  obtain ⟨hempty, hblank⟩ := h
  have htrim : Text.trimmed text = text := by
    rw [Text.trimmed, Text.trim, Text.trimStart, dropWhile_isBlank hblank, Text.trimEnd,
      dropWhile_isBlank (by rwa [List.any_reverse]), List.reverse_reverse, String.ofList_toList]
  rw [Text.nonBlank?, htrim, hempty]
  rfl

/-- A place of the layout tells the coordinates. -/
theorem LaidOut.tells (h : LaidOut repository file c) (hvalid : c.isValid = true) :
    Tells repository file c := by
  obtain ⟨name, hcomponents⟩ := h.directories
  refine ⟨⟨(Text.pieces '.' c.groupId.toList).map String.ofList, _, name, ?_, hcomponents, ?_,
    (intercalate_pieces c.groupId).symm⟩, _, h.stem, ?_⟩
  · simpa using Text.pieces_ne_nil '.' c.groupId.toList
  · simp [Component.text, Function.comp_def]
  · cases hclassifier : c.classifier with
    | none => exact .inl ⟨rfl, rfl⟩
    | some text =>
      rw [Coordinates.isValid, hclassifier, Option.all_some, Bool.and_eq_true] at hvalid
      exact .inr ⟨text, rfl, (nonBlank?_of_isPlain hvalid.2).symm⟩

/-! ## Files that are reported without a name -/

open Registry (Request)

theorem Report.nameOf_eq_none {base : Option Path} :
    nameOf ⟨base, some repository⟩ file = none ↔ file.startsWith repository = true := by
  unfold nameOf
  rw [Option.any_some]
  split
  · rename_i hstarts
    exact iff_of_true rfl hstarts
  · rename_i hstarts
    refine iff_of_false ?_ hstarts
    dsimp only
    split
    · split <;> exact Option.some_ne_none _
    · exact Option.some_ne_none _

/-- **A file that is reported without a name** lies below the repository. Where its place tells
well-formed coordinates, these are the ones that are reported, and so a file at a place of the
layout is found again by its coordinates. Elsewhere below the repository they come from what the
archive says of itself in the tree of one of the requests, and from the hint that the registry had
for it by then. This holds of a registry after any requests, in trees that may differ from request
to request, but for a file that was registered with coordinates of the caller. -/
theorem laidOut_of_unnamed {base : Option Path} {requests : List Request} {fs : FileSystem}
    {r : Registry} {known : Described}
    (hrequests : ∀ request ∈ requests, ¬ request.Registers file)
    (hdescribe : ((Registry.empty (some repository)).performAll requests).describe fs file =
      .ok (r, known))
    (hname : Report.nameOf ⟨base, some repository⟩ file = none) :
    file.startsWith repository = true ∧
      (∀ c, c.isValid = true → Tells repository file c → known.coordinates = c) ∧
      ((∃ c, c.isValid = true ∧ LaidOut repository file c) →
        LaidOut repository file known.coordinates) ∧
      ((∀ c, c.isValid = true → ¬ Tells repository file c) →
        ∃ before request tree other id, before ++ [request] <+: requests ++ [.describe fs file] ∧
          request.tree? = some tree ∧ file.same other = true ∧
          Registry.identify tree other = .ok id ∧
          Registry.merge other id (((Registry.empty (some repository)).performAll before).hintFor
            other id.artifactId) = .ok known.coordinates) := by
  -- The description is the last of the requests.
  have hlast : (Registry.empty (some repository)).performAll (requests ++ [.describe fs file]) =
      r := by
    rw [Registry.performAll_concat, Request.perform, hdescribe]
  have hfree : ∀ request ∈ requests ++ [.describe fs file], ¬ request.Registers file :=
    List.forall_mem_append.2 ⟨hrequests, List.forall_mem_singleton.2 id⟩
  have hknown := Registry.exists_known_of_describe hdescribe
  rw [← hlast] at hknown
  obtain ⟨before, request, tree, other, hprefix, htree, hsame, hgiven⟩ :=
    Registry.exists_given rfl hfree hknown
  have hcases := Registry.coordinatesOf_cases hgiven
  rw [Registry.repository_performAll, Registry.empty, Option.bind_some,
    ← coordinatesInRepository_congr hsame] at hcases
  have htold : ∀ c, c.isValid = true → Tells repository file c → known.coordinates = c := by
    intro c hvalid htells
    have hplace := coordinatesInRepository_eq_some.2 ⟨hvalid, htells⟩
    rcases hcases with hplace' | ⟨hnone, -⟩
    · exact Option.some.inj (hplace'.symm.trans hplace)
    · cases hnone.symm.trans hplace
  refine ⟨Report.nameOf_eq_none.1 hname, htold, ?_, fun hnowhere => ?_⟩
  · rintro ⟨c, hvalid, hlaidOut⟩
    rw [htold c hvalid (hlaidOut.tells hvalid)]
    exact hlaidOut
  · rcases hcases with hplace | ⟨-, id, hid, hmerge⟩
    · obtain ⟨hvalid, htells⟩ := coordinatesInRepository_eq_some.1 hplace
      exact absurd htells (hnowhere _ hvalid)
    · exact ⟨before, request, tree, other, id, hprefix, htree, hsame, hid, hmerge⟩

open ArtifactSet (twoArchives groupHint)

/-- The place of an artifact with a classifier tells its coordinates. -/
theorem laidOut_of_unnamed_classified :
    ∃ r known,
      ((Registry.empty (some ⟨"lib"⟩)).performAll [.addHint groupHint]).describe twoArchives
        ⟨"lib//org/x/a/1/a-1-all.jar"⟩ = .ok (r, known) ∧
      Report.nameOf ⟨none, some ⟨"lib"⟩⟩ ⟨"lib//org/x/a/1/a-1-all.jar"⟩ = none ∧
      LaidOut ⟨"lib"⟩ ⟨"lib//org/x/a/1/a-1-all.jar"⟩ ⟨"org.x", "a", "1", some "all"⟩ ∧
      LaidOut ⟨"lib"⟩ ⟨"lib//org/x/a/1/a-1-all.jar"⟩ known.coordinates := by
  have hname : Report.nameOf ⟨none, some ⟨"lib"⟩⟩ ⟨"lib//org/x/a/1/a-1-all.jar"⟩ = none := by
    decide +kernel
  have hlaidOut :
      LaidOut ⟨"lib"⟩ ⟨"lib//org/x/a/1/a-1-all.jar"⟩ ⟨"org.x", "a", "1", some "all"⟩ :=
    ⟨⟨"a-1-all.jar", by decide +kernel⟩, by decide +kernel⟩
  generalize h : ((Registry.empty (some ⟨"lib"⟩)).performAll [.addHint groupHint]).describe
    twoArchives ⟨"lib//org/x/a/1/a-1-all.jar"⟩ = described
  have hok : described.toBool = true := by
    rw [← h]
    decide +kernel
  cases described with
  | error cause => cases hok
  | ok described =>
    have hfree : ∀ request ∈ [Request.addHint groupHint],
        ¬ request.Registers ⟨"lib//org/x/a/1/a-1-all.jar"⟩ :=
      List.forall_mem_singleton.2 id
    exact ⟨described.1, described.2, rfl, hname, hlaidOut,
      (laidOut_of_unnamed hfree h hname).2.2.1 ⟨_, by decide, hlaidOut⟩⟩

/-- A file below the repository is reported without a name under coordinates that do not tell its
place where the place is none of the layout, and where the caller has registered it with others. -/
theorem exists_unnamed_elsewhere :
    (∃ r known,
      ((Registry.empty (some ⟨"lib"⟩)).performAll [.addHint groupHint]).describe twoArchives
        ⟨"lib/a-1.jar"⟩ = .ok (r, known) ∧
      Report.nameOf ⟨none, some ⟨"lib"⟩⟩ ⟨"lib/a-1.jar"⟩ = none ∧
      known.coordinates = ⟨"g", "a", "1", none⟩ ∧
      ¬ LaidOut ⟨"lib"⟩ ⟨"lib/a-1.jar"⟩ known.coordinates) ∧
    ∃ r known,
      ((Registry.empty (some ⟨"lib"⟩)).performAll
        [.register ⟨"lib/g/a/1/a-1.jar"⟩ ⟨"h", "a", "1", none⟩ none]).describe twoArchives
        ⟨"lib/g/a/1/a-1.jar"⟩ = .ok (r, known) ∧
      Report.nameOf ⟨none, some ⟨"lib"⟩⟩ ⟨"lib/g/a/1/a-1.jar"⟩ = none ∧
      known.coordinates = ⟨"h", "a", "1", none⟩ ∧
      ¬ LaidOut ⟨"lib"⟩ ⟨"lib/g/a/1/a-1.jar"⟩ known.coordinates := by
  constructor
  · generalize h : ((Registry.empty (some ⟨"lib"⟩)).performAll [.addHint groupHint]).describe
      twoArchives ⟨"lib/a-1.jar"⟩ = described
    have hcoordinates :
        described.toOption.map (fun d => d.2.coordinates) = some ⟨"g", "a", "1", none⟩ := by
      rw [← h]
      decide +kernel
    cases described with
    | error cause => cases hcoordinates
    | ok described =>
      refine ⟨described.1, described.2, rfl, by decide +kernel, Option.some.inj hcoordinates, ?_⟩
      -- The layout needs three directories below the repository.
      rintro ⟨⟨name, hcomponents⟩, -⟩
      have hlength := congrArg List.length hcomponents
      have hfile : (Path.components ⟨"lib/a-1.jar"⟩).length = 2 := by decide +kernel
      have hlib : (Path.components ⟨"lib"⟩).length = 1 := by decide +kernel
      simp only [hfile, hlib, List.length_append, List.length_map, List.length_cons] at hlength
      omega
  · refine ⟨_, _, rfl, by decide +kernel, rfl, ?_⟩
    -- The first directory below the repository is not the registered group.
    rintro ⟨⟨name, hcomponents⟩, -⟩
    have hgroup : (Path.components ⟨"lib/g/a/1/a-1.jar"⟩)[1]? = some (.name "g") := by
      decide +kernel
    have hlib : Path.components ⟨"lib"⟩ = [.name "lib"] := by decide +kernel
    have hregistered : (Text.pieces '.' "h".toList).map String.ofList = ["h"] := by decide +kernel
    rw [hcomponents, hlib] at hgroup
    change (_ ++ ((Text.pieces '.' "h".toList).map String.ofList ++ _).map _)[1]? = _ at hgroup
    rw [hregistered] at hgroup
    simp at hgroup

end Artifact

end JarGraph
