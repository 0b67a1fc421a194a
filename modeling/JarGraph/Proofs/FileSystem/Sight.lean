import JarGraph.FileSystem.Basic
import JarGraph.Proofs.Answer
/-!
# What is seen at the end of a row of names

Where a path leads only depends on what stands at which row of names: a
directory, a file, or nothing. So a tree is looked at through `see` alone,
and a change of the tree is said by what it changes of that.
-/

namespace JarGraph

/-- What is seen of a node: of a directory only that it is one. -/
inductive Sight where
  | folder
  | file (content : Bytes) (modified : Instant)
  deriving DecidableEq, Repr

/-- What is seen of a node. -/
def Node.sight : Node → Sight
  | .file content modified => .file content modified
  | .folder _ _ => .folder

/-- Whether a file is seen. -/
def Sight.isFile : Sight → Bool
  | .file _ _ => true
  | .folder => false

theorem Node.sight_eq_folder {node : Node} : node.sight = .folder ↔ node.isFolder = true := by
  cases node <;> simp [Node.sight, Node.isFolder]

theorem Node.at?_append (names more : List String) (node : Node) :
    node.at? (names ++ more) = (node.at? names).bind (Node.at? more) := by
  induction names generalizing node with
  | nil => rfl
  | cons name names ih =>
    cases node with
    | file content modified => rfl
    | folder inside modified =>
      rw [List.cons_append, Node.at?, Node.at?, Option.bind_assoc]
      exact congrArg (Option.bind _) (funext ih)

namespace FileSystem

variable {fs fs' : FileSystem} {p : Path} {found : Location} {node : Node}
variable {names trail : List String} {name : String}

/-- What is seen at the end of a row of names. -/
def see (fs : FileSystem) (names : List String) : Option Sight :=
  (fs.root.at? names).map Node.sight

/-- The path leads to a file. -/
def IsFile (fs : FileSystem) (p : Path) : Prop :=
  ∃ found content modified, fs.node p = .ok (found, .file content modified)

theorem isFile_iff : fs.IsFile p ↔ (fs.readFile p).toBool = true := by
  unfold IsFile readFile
  rcases fs.node p with cause | ⟨found, ⟨content, modified⟩ | ⟨inside, modified⟩⟩
  · exact iff_of_false (fun ⟨_, _, _, h⟩ => nomatch h) Bool.false_ne_true
  · exact iff_of_true ⟨found, content, modified, rfl⟩ rfl
  · exact iff_of_false (fun ⟨_, _, _, h⟩ => nomatch h) Bool.false_ne_true

instance (fs : FileSystem) (p : Path) : Decidable (fs.IsFile p) :=
  decidable_of_iff _ isFile_iff.symm

/-- The path leads to the same data in two trees, or to none in either. -/
def ReadsAlike (fs fs' : FileSystem) (p : Path) : Prop :=
  (fs.readFile p).toOption = (fs'.readFile p).toOption

instance : Decidable (ReadsAlike fs fs' p) :=
  inferInstanceAs (Decidable (_ = _))

theorem readsAlike_iff :
    ReadsAlike fs fs' p ↔
      ∀ content, fs.readFile p = .ok content ↔ fs'.readFile p = .ok content := by
  unfold ReadsAlike
  simp only [← Answer.toOption_eq_some]
  exact ⟨fun h content => by rw [h], Option.ext⟩

/-- What stands above something is a directory. -/
theorem see_prefix_folder (names : List String) {more : List String} (hmore : more ≠ [])
    (h : (fs.see (names ++ more)).isSome = true) : fs.see names = some .folder := by
  cases more with
  | nil => exact absurd rfl hmore
  | cons name more =>
    rw [see, Option.isSome_map, Node.at?_append] at h
    rw [see]
    cases hnode : fs.root.at? names with
    | none =>
      rw [hnode] at h
      cases h
    | some node =>
      cases node with
      | folder inside modified => rfl
      | file content modified =>
        rw [hnode] at h
        cases h

/-- Where there is a working directory, the root is a directory. -/
theorem see_root (h : fs.see fs.workingNames = some .folder) : fs.see [] = some .folder := by
  by_cases hworking : fs.workingNames = []
  · rw [← hworking]
    exact h
  · refine see_prefix_folder [] hworking ?_
    rw [List.nil_append, h]
    rfl

/-- What stands above a directory is a directory. -/
theorem see_tail (h : fs.see trail.reverse = some .folder) :
    fs.see trail.tail.reverse = some .folder := by
  cases trail with
  | nil => exact h
  | cons name trail =>
    refine see_prefix_folder trail.reverse (List.cons_ne_nil name []) ?_
    rw [← List.reverse_cons, h]
    rfl

end FileSystem

end JarGraph
