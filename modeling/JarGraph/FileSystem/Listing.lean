import JarGraph.Text.Utf8
/-!
# Directories

The entries of a directory, each a file with its data or a directory of its own. Entries stand in
the order of their names, and each has the time of its last change. There is nothing else in a
directory: no links, hard or symbolic, no devices or pipes, no owners and no permissions. A name is
a text, so that names whose bytes are no UTF-8 are left out as well.

Main statements: `find?_put_self`, `find?_put_of_ne`, `find?_remove_self` and `find?_remove_of_ne`
say what a change does to the entries.
-/

namespace JarGraph

/-- A time, in nanoseconds since the epoch. -/
abbrev Instant := Nat

/-- The entries of a directory. -/
inductive Listing where
  | nil
  | file (name : String) (content : Bytes) (modified : Instant) (rest : Listing)
  | folder (name : String) (inside : Listing) (modified : Instant) (rest : Listing)
  deriving DecidableEq, Repr, Inhabited

/-- What an entry is. -/
inductive Node where
  | file (content : Bytes) (modified : Instant)
  | folder (inside : Listing) (modified : Instant)
  deriving DecidableEq, Repr, Inhabited

namespace Listing

/-- An entry in front of others. -/
def cons (name : String) (node : Node) (rest : Listing) : Listing :=
  match node with
  | .file content modified => file name content modified rest
  | .folder inside modified => folder name inside modified rest

/-- The entry of a name. -/
def find? (name : String) : Listing → Option Node
  | nil => none
  | file key content modified rest =>
    if key = name then some (.file content modified) else find? name rest
  | folder key inside modified rest =>
    if key = name then some (.folder inside modified) else find? name rest

/-- Gives a name its entry, in the place of one that is there. -/
def put (name : String) (node : Node) : Listing → Listing
  | nil => cons name node nil
  | file key content modified rest =>
    if key = name then cons name node rest
    else if name < key then cons name node (file key content modified rest)
    else file key content modified (put name node rest)
  | folder key inside modified rest =>
    if key = name then cons name node rest
    else if name < key then cons name node (folder key inside modified rest)
    else folder key inside modified (put name node rest)

/-- Takes the entries of a name out. -/
def remove (name : String) : Listing → Listing
  | nil => nil
  | file key content modified rest =>
    if key = name then remove name rest else file key content modified (remove name rest)
  | folder key inside modified rest =>
    if key = name then remove name rest else folder key inside modified (remove name rest)

/-- Whether there is no entry. -/
def isEmpty : Listing → Bool
  | nil => true
  | _ => false

@[simp] theorem find?_cons (name key : String) (node : Node) (rest : Listing) :
    find? name (cons key node rest) = if key = name then some node else find? name rest := by
  cases node <;> rfl

theorem find?_put_self (name : String) (node : Node) (l : Listing) :
    find? name (put name node l) = some node := by
  induction l with
  | nil => simp [put]
  | file key content modified rest ih =>
    unfold put
    split
    · simp
    · split
      · simp
      · simp [find?, *]
  | folder key inside modified rest _ ih =>
    unfold put
    split
    · simp
    · split
      · simp
      · simp [find?, *]

theorem find?_put_of_ne {name other : String} (node : Node) (l : Listing) (h : other ≠ name) :
    find? name (put other node l) = find? name l := by
  induction l with
  | nil => simp [put, find?, h]
  | file key content modified rest ih =>
    unfold put
    split
    · rename_i e; subst e; simp [find?, h]
    · split
      · simp [h]
      · simp only [find?, ih]
  | folder key inside modified rest _ ih =>
    unfold put
    split
    · rename_i e; subst e; simp [find?, h]
    · split
      · simp [h]
      · simp only [find?, ih]

theorem find?_remove_self (name : String) (l : Listing) : find? name (remove name l) = none := by
  induction l with
  | nil => rfl
  | file key content modified rest ih =>
    unfold remove
    split
    · exact ih
    · simp [find?, *]
  | folder key inside modified rest _ ih =>
    unfold remove
    split
    · exact ih
    · simp [find?, *]

theorem find?_remove_of_ne {name other : String} (l : Listing) (h : other ≠ name) :
    find? name (remove other l) = find? name l := by
  induction l with
  | nil => rfl
  | file key content modified rest ih =>
    unfold remove
    split
    · rename_i e; subst e; simp [find?, h, ih]
    · simp only [find?, ih]
  | folder key inside modified rest _ ih =>
    unfold remove
    split
    · rename_i e; subst e; simp [find?, h, ih]
    · simp only [find?, ih]

end Listing

namespace Node

/-- The time of the last change. -/
def modified : Node → Instant
  | file _ t => t
  | folder _ t => t

/-- Whether the node is a directory. -/
def isFolder : Node → Bool
  | folder _ _ => true
  | file _ _ => false

/-- What lies at the end of a row of names. -/
def at? : List String → Node → Option Node
  | [], node => some node
  | name :: names, folder inside _ => (inside.find? name).bind (at? names)
  | _ :: _, file _ _ => none

/-- Changes the directory at the end of a row of names, where there is one. -/
def changeAt (change : Listing → Listing) (now : Instant) : List String → Node → Node
  | [], folder inside _ => folder (change inside) now
  | [], node => node
  | name :: names, folder inside t =>
    match inside.find? name with
    | some child => folder (inside.put name (changeAt change now names child)) t
    | none => folder inside t
  | _ :: _, node => node

end Node

end JarGraph
