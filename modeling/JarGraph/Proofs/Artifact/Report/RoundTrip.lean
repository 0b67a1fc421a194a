import JarGraph.Proofs.Artifact.Report.Rows
import JarGraph.Proofs.Path.Characters
/-!
# What a report says can be read from it

`read_render`: the report of a set is a document of the grammar, and
reading it gives back the records of the set, for any base directory and
any repository, as long as no name and no coordinates hold a character
that XML forbids or reads as another. So two sets with one report have the
same records.
-/

namespace JarGraph.Artifact

open Markup

/-- All parts of the coordinates are inline. -/
def Coordinates.IsInline (c : Coordinates) : Prop :=
  Markup.IsInline c.groupId ∧ Markup.IsInline c.artifactId ∧ Markup.IsInline c.version ∧
    ∀ classifier ∈ c.classifier, Markup.IsInline classifier

instance : DecidablePred Coordinates.IsInline := fun _ =>
  inferInstanceAs (Decidable (_ ∧ _ ∧ _ ∧ _))

/-- The path and the coordinates of a file are inline. -/
def Described.IsInline (d : Described) : Prop :=
  Markup.IsInline d.file.text ∧ d.coordinates.IsInline

instance : DecidablePred Described.IsInline := fun _ =>
  inferInstanceAs (Decidable (_ ∧ _))

/-- All files that a report of the set tells of are inline. -/
def ArtifactSet.IsInline (set : ArtifactSet) : Prop :=
  ∀ d ∈ set.toList, d.IsInline ∧ ∀ e ∈ set.dependenciesOf d, e.IsInline

instance : DecidablePred ArtifactSet.IsInline := fun set =>
  inferInstanceAs (Decidable (∀ d ∈ set.toList, _))

namespace Report

variable {report : Report} {set : ArtifactSet} {d : Described} {tag : String}

theorem isInline_relativeSlash {p : Path} (base : Path) (h : IsInline p.text) :
    IsInline (p.relativeSlash base) :=
  Path.forall_relativeSlash (P := fun c => IsCharacter c ∧ c ∉ ['\t', '\n', '\r']) base
    (by decide) (by decide) h

theorem isInline_nameOf {file : Path} (h : IsInline file.text) :
    ∀ name ∈ report.nameOf file, IsInline name := by
  intro name hname
  unfold nameOf at hname
  split at hname
  · cases hname
  · split at hname
    · split at hname
      · rw [← Option.some.inj hname]
        exact isInline_relativeSlash _ h
      · rw [← Option.some.inj hname]
        exact h
    · rw [← Option.some.inj hname]
      exact h

/-- The tag that an element for a file starts with gives the name of the file. -/
theorem exists_attributes (report : Report) (depth : Nat) (tag : String)
    (h : IsInline d.file.text) :
    ∃ attributes inside, IsAttributes attributes inside ∧
      name? attributes = some (report.nameOf d.file) ∧
      report.openTag depth tag d = line depth ("<" ++ tag ++ String.ofList inside ++ ">") := by
  unfold openTag
  cases hname : report.nameOf d.file with
  | none =>
    refine ⟨[], [], .nil, rfl, ?_⟩
    simp
  | some name =>
    obtain ⟨hspells, hfree⟩ := spells_escape (isInline_nameOf h name hname)
    have hkey : IsName "name" := by
      decide
    have hattributes := IsAttributes.cons hkey hspells hfree (by simp) .nil
    rw [String.ofList_toList] at hattributes
    refine ⟨_, _, hattributes, rfl, congrArg (line depth) (String.toList_inj.1 ?_)⟩
    simp

/-- The coordinates of a file stand in front of whatever else its element holds. -/
theorem exists_coordinates {c : Coordinates} (h : c.IsInline) (depth : Nat) :
    ∃ items, IsRows items (coordinates depth c).toList ∧
      ∀ more, (∀ item ∈ more.head?, leaf? "classifier" item = none) →
        coordinates? (items ++ more) = some (c, more) := by
  obtain ⟨groupId, artifactId, version, classifier⟩ := c
  obtain ⟨hgroup, hartifact, hversion, hclassifier⟩ := h
  have hfront : IsRows
      [leaf "groupid" groupId, leaf "artifactid" artifactId, leaf "version" version]
      (element depth "groupid" groupId ++ element depth "artifactid" artifactId ++
        element depth "version" version).toList := by
    have hgroupRow := isRows_element depth (by decide : IsName "groupid") hgroup
    have hartifactRow := isRows_element depth (by decide : IsName "artifactid") hartifact
    have hversionRow := isRows_element depth (by decide : IsName "version") hversion
    simpa using (hgroupRow.append hartifactRow).append hversionRow
  cases classifier with
  | none =>
    refine ⟨_, by simpa [coordinates] using hfront, fun more hmore => ?_⟩
    -- What follows the version must not be taken for a classifier.
    cases more with
    | nil => simp [coordinates?, leaf?_leaf]
    | cons next others =>
      simp [coordinates?, leaf?_leaf, hmore next rfl]
  | some classifier =>
    have hrow := isRows_element depth (by decide : IsName "classifier") (hclassifier classifier rfl)
    refine ⟨_, by simpa [coordinates] using hfront.append hrow, fun more _ => ?_⟩
    simp [coordinates?, leaf?_leaf]

/-- **The element for a file gives its record**, and after the coordinates what else it holds. -/
theorem exists_record (report : Report) (depth : Nat) (htag : IsName tag) (hd : d.IsInline)
    {more : List Item} (text : String) (hmore : IsRows more text.toList)
    (hhead : ∀ item ∈ more.head?, leaf? "classifier" item = none) :
    ∃ item, record? tag item = some (report.record d, more) ∧
      IsRows [item] (report.openTag depth tag d ++ coordinates (depth + 1) d.coordinates ++ text ++
        line depth ("</" ++ tag ++ ">")).toList := by
  obtain ⟨attributes, inside, hattributes, hname, hopen⟩ :=
    exists_attributes report depth tag hd.1
  obtain ⟨items, hitems, hcoordinates⟩ := exists_coordinates hd.2 (depth + 1)
  obtain ⟨children, hparts, hrows⟩ :=
    exists_block depth htag hattributes (hitems.append hmore)
  refine ⟨.element tag attributes children, ?_, ?_⟩
  · simp [record?, hname, hparts, hcoordinates more hhead, record]
  · rw [hopen]
    simpa using hrows

theorem exists_dependency (report : Report) (hd : d.IsInline) :
    ∃ item, dependency? item = some (report.record d) ∧
      IsRows [item] (report.dependency d).toList := by
  obtain ⟨item, hread, hrows⟩ :=
    exists_record report 3 (by decide : IsName "dependency") hd "" .nil (by simp)
  refine ⟨item, ?_, ?_⟩
  · simp [dependency?, hread]
  · simpa [dependency] using hrows

theorem leaf?_of_ne {found : String} (h : found ≠ tag) (attributes : List (String × String))
    (children : List Item) : leaf? tag (.element found attributes children) = none := by
  unfold leaf?
  split
  · rename_i heq
    cases heq
    exact if_neg h
  · rename_i heq
    cases heq
    exact if_neg h
  · rfl

/-- The element for an artifact gives its record and those of what it depends on. -/
theorem exists_artifact (report : Report) (hd : d.IsInline)
    (hneeded : ∀ e ∈ set.dependenciesOf d, e.IsInline) :
    ∃ item, artifact? item =
        some (report.record d, (set.dependenciesOf d).map report.record) ∧
      IsRows [item] (report.artifact set d).toList := by
  obtain ⟨items, hreads, hitems⟩ :=
    exists_rows fun e he => exists_dependency report (hneeded e he)
  have htag : IsName "artifact" := by
    decide
  unfold artifact
  by_cases hempty : (set.dependenciesOf d).isEmpty = true
  · obtain ⟨item, hread, hrows⟩ :=
      exists_record report 1 htag hd "" .nil (by simp)
    refine ⟨item, ?_, ?_⟩
    · simp [artifact?, hread, List.isEmpty_iff.1 hempty]
    · simpa [hempty] using hrows
  · obtain ⟨children, hparts, hblock⟩ :=
      exists_block 2 (by decide : IsName "dependencies") .nil hitems
    have hhead : leaf? "classifier" (.element "dependencies" [] children) = none :=
      leaf?_of_ne (by decide) [] children
    obtain ⟨item, hread, hrows⟩ := exists_record report 1 htag hd
      (line 2 "<dependencies>" ++ String.join ((set.dependenciesOf d).map report.dependency) ++
        line 2 "</dependencies>")
      (by simpa using hblock) (by simpa using hhead)
    refine ⟨item, ?_, ?_⟩
    · simp [artifact?, hread, hparts, hreads]
    · simpa [hempty] using hrows

/-- The report of a set is a document, and its element gives the records of the set. -/
theorem exists_document (report : Report) (h : set.IsInline) :
    ∃ children, IsDocument (.element "artifacts" [] children) (report.render set).toList ∧
      (parts children).mapM artifact? = some (report.records set) := by
  obtain ⟨items, hreads, hitems⟩ :=
    exists_rows fun d hd => exists_artifact report (h d hd).1 (h d hd).2
  have hdeclaration : line 0 "<?xml version=\"1.0\" encoding=\"UTF-8\"?>" = declaration := rfl
  have document : ∀ {root : Item} {text : String}, IsElement root text.toList →
      IsDocument root (declaration ++ (text ++ "\n")).toList := by
    intro root text hroot
    exact ⟨text.toList, ['\n'], hroot, by simp, by simp⟩
  unfold render
  rw [hdeclaration]
  by_cases hempty : set.artifacts.isEmpty = true
  · have hrecords : report.records set = [] := by
      simp [records, ArtifactSet.toList, List.isEmpty_iff.1 hempty]
    have hroot : IsElement (.element "artifacts" [] []) "<artifacts/>".toList :=
      .whole (by decide) .nil
    rw [if_pos hempty, hrecords]
    exact ⟨[], document hroot, rfl⟩
  · obtain ⟨children, hparts, hroot⟩ :=
      exists_element 0 (by decide : IsName "artifacts") .nil hitems
    refine ⟨children, ?_, by rw [hparts, hreads]; rfl⟩
    have hdocument := document hroot
    rw [if_neg hempty]
    simpa [line, indent] using hdocument

/-- **The report of a set can be read back.** It is a document, reading it gives the records of the
set, and no other set with other records has the same report. -/
theorem read_render (report : Report) (h : set.IsInline) :
    (∃ root, IsDocument root (report.render set).toList) ∧
      read (report.render set) = some (report.records set) ∧
      set.artifacts.toList.Pairwise (compare · · = .lt) ∧
      ∀ (other : Report) (set' : ArtifactSet), set'.IsInline →
        other.render set' = report.render set → other.records set' = report.records set := by
  have hread : ∀ (report : Report) {set : ArtifactSet}, set.IsInline →
      read (report.render set) = some (report.records set) := by
    intro report set h
    obtain ⟨children, hdocument, hrecords⟩ := exists_document report h
    rw [read, read_of_isDocument hdocument]
    exact hrecords
  obtain ⟨children, hdocument, -⟩ := exists_document report h
  refine ⟨⟨_, hdocument⟩, hread report h, set.artifacts.ascending, fun other set' h' heq => ?_⟩
  have hsame := hread other h'
  rw [heq, hread report h] at hsame
  exact (Option.some.inj hsame).symm

/-- An archive whose name and coordinates hold every sign of markup. -/
def markedJar : Described :=
  ⟨⟨"lib/./a<b>\"c\".jar"⟩, ⟨"g&amp;", "a</artifactid>", "1'0", some "]]>"⟩,
    .insert .empty ⟨"repo/b.jar"⟩⟩

/-- It depends on a file of the repository. -/
def markedSet : ArtifactSet :=
  ⟨.insert .empty markedJar.file, (OrderedMap.empty.put markedJar.file markedJar).put ⟨"repo/b.jar"⟩
    ⟨⟨"repo/b.jar"⟩, ⟨"g", "b", "", none⟩, .empty⟩⟩

theorem read_render_marked :
    markedSet.IsInline ∧
      read (render ⟨some ⟨"lib"⟩, some ⟨"repo"⟩⟩ markedSet) =
        some [(⟨some "a<b>\"c\".jar", ⟨"g&amp;", "a</artifactid>", "1'0", some "]]>"⟩⟩,
          [⟨none, ⟨"g", "b", "", none⟩⟩])] := by
  have hinline : markedSet.IsInline := by
    decide +kernel
  refine ⟨hinline, (read_render _ hinline).2.1.trans ?_⟩
  decide +kernel

end Report

end JarGraph.Artifact
