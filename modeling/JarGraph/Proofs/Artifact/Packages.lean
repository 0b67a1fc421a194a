import JarGraph.Descriptor.Basic
import JarGraph.Proofs.Artifact.Declared
import JarGraph.Proofs.Ordered
import JarGraph.Walk.Contents
/-!
# The packages of an archive

An archive is identified with the packages that the directories of its
entries spell, and not with those of its classes (`packages_of_identify`).
The two are the same where each class lies at the place that its name says
and everything else that looks like a class file lies beside a class. They
differ where the classes lie below a directory of their own, as those of a
web archive do (`exists_packages_apart`).
-/

namespace JarGraph.Artifact

variable {fs : FileSystem} {file : Path} {data : Bytes} {depth : Depth} {package : String}
variable {entries : List Archive.Entry} {id : Identification}

namespace Identification

/-! ## The packages of the classes -/

/-- The package of a class. -/
def packageOfClass (name : String) : Option String := do
  let (package, _) ← Text.cutLast '/' name.toList
  return Text.replace '/' '.' (String.ofList package)

/-- The package of the class that an entry holds, as a walk extracts it. -/
def heldPackage? (file : Path) (depth : Depth) (entry : Archive.Entry) : Option String :=
  if entry.isClass then do
    let content ← entry.body.content?
    let found ← (extract content file depth).toOption
    let name ← Descriptor.internalName found.name
    packageOfClass name
  else none

/-- The packages of the classes that a walk extracts from some entries, in order. -/
def heldPackages (file : Path) (depth : Depth) (entries : List Archive.Entry) : List String :=
  ((entries.filterMap (heldPackage? file depth)).foldl OrderedSet.insert .empty).toList

/-- An entry holds a class that can be read and decoded, and that has this internal name. -/
def HoldsClass (file : Path) (depth : Depth) (entry : Archive.Entry) (name : String) : Prop :=
  ∃ content found, entry.body = .data content ∧ extract content file depth = .ok found ∧
    Descriptor.internalName found.name = some name

/-- Every class lies at the place that its name says. -/
def FiledByName (file : Path) (depth : Depth) (entries : List Archive.Entry) : Prop :=
  ∀ entry ∈ entries, entry.isClass = true →
    ∃ name, HoldsClass file depth entry name ∧ entry.name = name ++ ".class"

theorem mem_insertAll {packages : List String} :
    package ∈ (packages.foldl OrderedSet.insert .empty).toList ↔ package ∈ packages := by
  rw [← OrderedSet.contains_iff_mem, OrderedSet.contains_foldl_insert]
  simp

theorem mem_packagesOf :
    package ∈ packagesOf entries ↔ ∃ entry ∈ entries, package? entry.name = some package := by
  rw [packagesOf, mem_insertAll, List.mem_filterMap]

theorem mem_heldPackages :
    package ∈ heldPackages file depth entries ↔
      ∃ entry ∈ entries, heldPackage? file depth entry = some package := by
  rw [heldPackages, mem_insertAll, List.mem_filterMap]

theorem heldPackage?_of_holdsClass {entry : Archive.Entry} {name : String}
    (hclass : entry.isClass = true) (h : HoldsClass file depth entry name) :
    heldPackage? file depth entry = packageOfClass name := by
  obtain ⟨content, found, hbody, hfound, hname⟩ := h
  rw [heldPackage?, if_pos hclass, hbody, Archive.Body.content?]
  simp only [Option.bind_eq_bind, Option.bind_some]
  rw [hfound, Except.toOption]
  simp only [Option.bind_some]
  rw [hname, Option.bind_some]

/-- The place that a class's name says spells its package. -/
theorem package?_class (name : String) : package? (name ++ ".class") = packageOfClass name := by
  have hdrop : Text.dropEnd? ".class".toList (name ++ ".class").toList = some name.toList :=
    Text.dropEnd?_eq_some.2 String.toList_append
  rw [package?, hdrop]
  rfl

/-- A class at its place is filed under its package. -/
theorem package?_of_filed (h : FiledByName file depth entries) {entry : Archive.Entry}
    (hentry : entry ∈ entries) (hclass : entry.isClass = true) :
    package? entry.name = heldPackage? file depth entry := by
  obtain ⟨name, hholds, hname⟩ := h entry hentry hclass
  rw [hname, package?_class, heldPackage?_of_holdsClass hclass hholds]

/-- **Classes at their places** are filed under their packages, so that the directories spell no
less than these, and no more where all that is filed like a class lies beside one. -/
theorem packagesOf_of_filed (h : FiledByName file depth entries) :
    (∀ package ∈ heldPackages file depth entries, package ∈ packagesOf entries) ∧
      (packagesOf entries = heldPackages file depth entries ↔
        ∀ entry ∈ entries, entry.isClass = false → ∀ package, package? entry.name = some package →
          package ∈ heldPackages file depth entries) := by
  have hheld : ∀ package ∈ heldPackages file depth entries, package ∈ packagesOf entries := by
    intro package hpackage
    obtain ⟨entry, hentry, hfound⟩ := mem_heldPackages.1 hpackage
    have hclass : entry.isClass = true := by
      by_contra hother
      rw [heldPackage?, if_neg hother] at hfound
      cases hfound
    exact mem_packagesOf.2 ⟨entry, hentry, (package?_of_filed h hentry hclass).trans hfound⟩
  refine ⟨hheld, fun heq entry hentry _ package hpackage => ?_, fun hother => ?_⟩
  · rw [← heq]
    exact mem_packagesOf.2 ⟨entry, hentry, hpackage⟩
  · refine eq_of_ascending (fun package => package) (OrderedSet.ascending _)
      (OrderedSet.ascending _) fun package => ⟨fun hpackage => ?_, hheld package⟩
    obtain ⟨entry, hentry, hspelled⟩ := mem_packagesOf.1 hpackage
    cases hclass : entry.isClass with
    | false => exact hother entry hentry hclass package hspelled
    | true =>
      have hfound := (package?_of_filed h hentry hclass).symm.trans hspelled
      exact mem_heldPackages.2 ⟨entry, hentry, hfound⟩

theorem packages_of_ofEntries (h : ofEntries file entries = .ok id) :
    id.packages = packagesOf entries := by
  obtain ⟨f, hf, rfl⟩ := Answer.map_eq_ok.1 h
  obtain ⟨-, hpackages⟩ := of_foldlM_inspect hf
  show f.packages.toList = packagesOf entries
  rw [hpackages, packagesOf]

end Identification

namespace Registry

open Identification

/-- **The packages of an archive** are those that the directories of its entries spell, each once
and in order. Where each class lies at its place, none of the classes' packages is missed, and there
is no other exactly if all that is filed like a class lies beside one. -/
theorem packages_of_identify (hdata : fs.mapFile file = .ok data)
    (hread : Archive.read data = .ok entries) (h : identify fs file = .ok id) :
    id.packages.Pairwise (compare · · = .lt) ∧
      (∀ package, package ∈ id.packages ↔
        ∃ entry ∈ entries, package? entry.name = some package) ∧
      (FiledByName file depth entries →
        (∀ package ∈ heldPackages file depth entries, package ∈ id.packages) ∧
          (id.packages = heldPackages file depth entries ↔
            ∀ entry ∈ entries, entry.isClass = false →
              ∀ package, package? entry.name = some package →
                package ∈ heldPackages file depth entries)) := by
  rw [identify, hdata] at h
  dsimp only at h
  rw [hread] at h
  rw [packages_of_ofEntries h]
  exact ⟨OrderedSet.ascending _, fun package => mem_packagesOf, packagesOf_of_filed⟩

/-- The bytes of a class `p/A`. -/
def plainClass : Bytes :=
  [202, 254, 186, 190, 0, 0, 0, 52, 0, 3, 1, 0, 3, 112, 47, 65, 7, 0, 1, 0, 33, 0, 2, 0, 0, 0, 0,
    0, 0, 0, 0, 0, 0]

/-- The bytes of an archive with the class at `p/A.class` and a description of its package. -/
def filed : Bytes :=
  [80, 75, 3, 4, 20, 0, 0, 0, 0, 0, 0, 0, 33, 0, 146, 0, 123, 171, 33, 0, 0, 0, 33, 0, 0, 0, 9, 0,
    0, 0, 112, 47, 65, 46, 99, 108, 97, 115, 115, 202, 254, 186, 190, 0, 0, 0, 52, 0, 3, 1, 0, 3,
    112, 47, 65, 7, 0, 1, 0, 33, 0, 2, 0, 0, 0, 0, 0, 0, 0, 0, 0, 0, 80, 75, 3, 4, 20, 0, 0, 0, 0,
    0, 0, 0, 33, 0, 0, 0, 0, 0, 0, 0, 0, 0, 0, 0, 0, 0, 20, 0, 0, 0, 112, 47, 112, 97, 99, 107,
    97, 103, 101, 45, 105, 110, 102, 111, 46, 99, 108, 97, 115, 115, 80, 75, 1, 2, 20, 3, 20, 0,
    0, 0, 0, 0, 0, 0, 33, 0, 146, 0, 123, 171, 33, 0, 0, 0, 33, 0, 0, 0, 9, 0, 0, 0, 0, 0, 0, 0,
    0, 0, 0, 0, 128, 1, 0, 0, 0, 0, 112, 47, 65, 46, 99, 108, 97, 115, 115, 80, 75, 1, 2, 20, 3,
    20, 0, 0, 0, 0, 0, 0, 0, 33, 0, 0, 0, 0, 0, 0, 0, 0, 0, 0, 0, 0, 0, 20, 0, 0, 0, 0, 0, 0, 0,
    0, 0, 0, 0, 128, 1, 72, 0, 0, 0, 112, 47, 112, 97, 99, 107, 97, 103, 101, 45, 105, 110, 102,
    111, 46, 99, 108, 97, 115, 115, 80, 75, 5, 6, 0, 0, 0, 0, 2, 0, 2, 0, 121, 0, 0, 0, 122, 0, 0,
    0, 0, 0]

/-- The bytes of an archive with the class at `WEB-INF/classes/p/A.class`. -/
def filedBelow : Bytes :=
  [80, 75, 3, 4, 20, 0, 0, 0, 0, 0, 0, 0, 33, 0, 146, 0, 123, 171, 33, 0, 0, 0, 33, 0, 0, 0, 25,
    0, 0, 0, 87, 69, 66, 45, 73, 78, 70, 47, 99, 108, 97, 115, 115, 101, 115, 47, 112, 47, 65, 46,
    99, 108, 97, 115, 115, 202, 254, 186, 190, 0, 0, 0, 52, 0, 3, 1, 0, 3, 112, 47, 65, 7, 0, 1,
    0, 33, 0, 2, 0, 0, 0, 0, 0, 0, 0, 0, 0, 0, 80, 75, 1, 2, 20, 3, 20, 0, 0, 0, 0, 0, 0, 0, 33,
    0, 146, 0, 123, 171, 33, 0, 0, 0, 33, 0, 0, 0, 25, 0, 0, 0, 0, 0, 0, 0, 0, 0, 0, 0, 128, 1, 0,
    0, 0, 0, 87, 69, 66, 45, 73, 78, 70, 47, 99, 108, 97, 115, 115, 101, 115, 47, 112, 47, 65, 46,
    99, 108, 97, 115, 115, 80, 75, 5, 6, 0, 0, 0, 0, 1, 0, 1, 0, 71, 0, 0, 0, 88, 0, 0, 0, 0, 0]

/-- The two archives. -/
def twoFiled : FileSystem where
  root := .folder (.file "a-1.jar" filed 0 (.file "b-1.war" filedBelow 0 .nil)) 0
  workingNames := []
  home := ⟨"/"⟩
  clock := 1

/-- The entries of the first archive. -/
def filedEntries : List Archive.Entry :=
  [⟨"p/A.class", .data plainClass⟩, ⟨"p/package-info.class", .data []⟩]

/-- The entry of the second archive. -/
def filedBelowEntries : List Archive.Entry :=
  [⟨"WEB-INF/classes/p/A.class", .data plainClass⟩]

theorem read_filed : twoFiled.mapFile ⟨"a-1.jar"⟩ = .ok filed ∧
    Archive.read filed = .ok filedEntries := by
  constructor
  · exact Answer.toOption_eq_some.1 (by decide +kernel)
  · exact Answer.toOption_eq_some.1 (by decide +kernel)

theorem read_filedBelow : twoFiled.mapFile ⟨"b-1.war"⟩ = .ok filedBelow ∧
    Archive.read filedBelow = .ok filedBelowEntries := by
  constructor
  · exact Answer.toOption_eq_some.1 (by decide +kernel)
  · exact Answer.toOption_eq_some.1 (by decide +kernel)

/-- The class is extracted under its name, wherever it is found. -/
theorem exists_extract_plainClass (file : Path) (depth : Depth) :
    ∃ found, extract plainClass file depth = .ok found ∧
      Descriptor.internalName found.name = some "p/A" := by
  have hname : Descriptor.internalName "p/A" = some "p/A" := by decide +kernel
  cases depth with
  | inventory =>
    have hheader : (ClassFile.Header.parse plainClass).toOption.map (·.name) = some "p/A" := by
      decide +kernel
    obtain ⟨header, hparse, hfound⟩ := Option.map_eq_some_iff.1 hheader
    refine ⟨⟨header.name, [.class file header.name]⟩, ?_, (congrArg _ hfound).trans hname⟩
    rw [extract, Answer.toOption_eq_some.1 hparse]
    rfl
  | dependencies =>
    have hclass : (ClassFile.Class.parse plainClass).toOption.map (·.name) = some "p/A" := by
      decide +kernel
    obtain ⟨c, hparse, hfound⟩ := Option.map_eq_some_iff.1 hclass
    refine ⟨⟨c.name, Extraction.report file c⟩, ?_, (congrArg _ hfound).trans hname⟩
    rw [extract, Answer.toOption_eq_some.1 hparse]
    rfl

theorem holdsClass_plainClass (file : Path) (depth : Depth) (place : String) :
    HoldsClass file depth ⟨place, .data plainClass⟩ "p/A" := by
  obtain ⟨found, hfound, hname⟩ := exists_extract_plainClass file depth
  exact ⟨plainClass, found, rfl, hfound, hname⟩

theorem filedByName_filed (file : Path) (depth : Depth) : FiledByName file depth filedEntries := by
  refine List.forall_mem_cons.2 ⟨fun _ => ?_, List.forall_mem_singleton.2 fun hclass => ?_⟩
  · exact ⟨"p/A", holdsClass_plainClass file depth _, by decide +kernel⟩
  · exact absurd hclass (by decide +kernel)

/-- The package of the class, wherever the class is found. -/
theorem heldPackage?_plainClass (file : Path) (depth : Depth) (place : String)
    (hclass : Archive.Entry.isClass ⟨place, .data plainClass⟩ = true) :
    heldPackage? file depth ⟨place, .data plainClass⟩ = some "p" := by
  rw [heldPackage?_of_holdsClass hclass (holdsClass_plainClass file depth place)]
  decide +kernel

theorem packages_of_identify_filed :
    ∃ id, identify twoFiled ⟨"a-1.jar"⟩ = .ok id ∧
      id.packages = heldPackages ⟨"a-1.jar"⟩ .dependencies filedEntries := by
  have hidentified : (identify twoFiled ⟨"a-1.jar"⟩).toOption.isSome = true := by decide +kernel
  obtain ⟨id, hid⟩ := Option.isSome_iff_exists.1 hidentified
  rw [Answer.toOption_eq_some] at hid
  obtain ⟨-, -, hfiled⟩ := packages_of_identify read_filed.1 read_filed.2 hid
  refine ⟨id, hid, (hfiled (filedByName_filed _ _)).2.2 ?_⟩
  refine List.forall_mem_cons.2 ⟨fun hother => ?_, List.forall_mem_singleton.2 fun _ => ?_⟩
  · exact absurd hother (by decide +kernel)
  · -- The description of the package lies beside the class.
    intro package hpackage
    have hspelled : package? "p/package-info.class" = some "p" := by decide +kernel
    obtain rfl := Option.some.inj (hspelled.symm.trans hpackage)
    have hheld := heldPackage?_plainClass ⟨"a-1.jar"⟩ .dependencies "p/A.class" (by decide +kernel)
    exact mem_heldPackages.2 ⟨_, List.mem_cons_self, hheld⟩

/-- **The directories of an archive can spell other packages than those of its classes.** -/
theorem exists_packages_apart :
    ¬ ∀ (fs : FileSystem) (file : Path) (depth : Depth) (data : Bytes)
      (entries : List Archive.Entry) (id : Identification),
      fs.mapFile file = .ok data → Archive.read data = .ok entries →
      (∀ entry ∈ entries, entry.isClass = true → ∃ name, HoldsClass file depth entry name) →
      identify fs file = .ok id → id.packages = heldPackages file depth entries := by
  intro always
  have hidentified : (identify twoFiled ⟨"b-1.war"⟩).toOption.map (·.packages) =
      some ["WEB-INF.classes.p"] := by
    decide +kernel
  obtain ⟨id, hid, hpackages⟩ := Option.map_eq_some_iff.1 hidentified
  have hholds : ∀ entry ∈ filedBelowEntries, entry.isClass = true →
      ∃ name, HoldsClass ⟨"b-1.war"⟩ .dependencies entry name :=
    List.forall_mem_singleton.2 fun _ => ⟨"p/A", holdsClass_plainClass _ _ _⟩
  have heq := always _ _ _ _ _ _ read_filedBelow.1 read_filedBelow.2 hholds
    (Answer.toOption_eq_some.1 hid)
  have hheld := heldPackage?_plainClass ⟨"b-1.war"⟩ .dependencies "WEB-INF/classes/p/A.class"
    (by decide +kernel)
  have hmem : "p" ∈ id.packages := by
    rw [heq]
    exact mem_heldPackages.2 ⟨_, List.mem_singleton_self _, hheld⟩
  rw [hpackages] at hmem
  revert hmem
  decide

end Registry

end JarGraph.Artifact
