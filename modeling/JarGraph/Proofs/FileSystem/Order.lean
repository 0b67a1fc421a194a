import JarGraph.FileSystem.Change
import JarGraph.FileSystem.WellFormed
/-!
# Trees stay well formed

An entry that is put where its name belongs leaves the names of a
directory in their order, and so does one that is removed. A change of one
directory is a change of the entries above it to what they are, so that
the whole tree stays well formed (`wellFormed_changeAt`).
-/

namespace JarGraph

namespace Listing

variable {name key other : String} {node child : Node} {rest l : Listing}

/-- A listing is taken apart by its first entry, of whatever sort it is. -/
theorem rec_cons {p : Listing → Prop} (nil : p .nil)
    (cons : ∀ name node rest, p rest → p (cons name node rest)) : ∀ l, p l
  | .nil => nil
  | .file name content modified rest =>
    cons name (.file content modified) rest (rec_cons nil cons rest)
  | .folder name inside modified rest =>
    cons name (.folder inside modified) rest (rec_cons nil cons rest)

@[simp] theorem names_cons : (cons key child rest).names = key :: rest.names := by
  cases child <;> rfl

theorem wellFormed_cons :
    (cons key child rest).WellFormed ↔
      IsEntryName key ∧ child.WellFormed ∧ (∀ other ∈ rest.names, key < other) ∧
        rest.WellFormed := by
  cases child with
  | file content modified => simp [cons, WellFormed, Node.WellFormed]
  | folder inside modified => exact Iff.rfl

theorem put_cons :
    put name node (cons key child rest) =
      if key = name then cons name node rest
      else if name < key then cons name node (cons key child rest)
      else cons key child (put name node rest) := by
  cases child <;> rfl

theorem remove_cons :
    remove name (cons key child rest) =
      if key = name then remove name rest else cons key child (remove name rest) := by
  cases child <;> rfl

theorem mem_names_put (h : other ∈ (put name node l).names) : other = name ∨ other ∈ l.names := by
  induction l using rec_cons with
  | nil =>
    rw [put, names_cons] at h
    exact (List.mem_cons.1 h).imp_right id
  | cons key child rest ih =>
    rw [put_cons] at h
    rw [names_cons]
    split at h
    · rw [names_cons] at h
      exact (List.mem_cons.1 h).imp_right (List.mem_cons_of_mem key)
    · split at h
      · rw [names_cons, names_cons] at h
        exact List.mem_cons.1 h
      · rw [names_cons] at h
        rcases List.mem_cons.1 h with rfl | h
        · exact .inr List.mem_cons_self
        · exact (ih h).imp_right (List.mem_cons_of_mem key)

theorem mem_names_remove (h : other ∈ (remove name l).names) : other ∈ l.names := by
  induction l using rec_cons with
  | nil => exact h
  | cons key child rest ih =>
    rw [remove_cons] at h
    rw [names_cons]
    split at h
    · exact List.mem_cons_of_mem key (ih h)
    · rw [names_cons] at h
      rcases List.mem_cons.1 h with rfl | h
      · exact List.mem_cons_self
      · exact List.mem_cons_of_mem key (ih h)

/-- **An entry is put where its name belongs.** -/
theorem wellFormed_put (hname : IsEntryName name) (hnode : node.WellFormed) (h : l.WellFormed) :
    (put name node l).WellFormed := by
  induction l using rec_cons with
  | nil =>
    have hbelow : ∀ other ∈ nil.names, name < other := by
      intro other hother
      cases hother
    exact wellFormed_cons.2 ⟨hname, hnode, hbelow, trivial⟩
  | cons key child rest ih =>
    obtain ⟨hkey, hchild, hbelow, hrest⟩ := wellFormed_cons.1 h
    rw [put_cons]
    split
    · rename_i heq
      subst heq
      exact wellFormed_cons.2 ⟨hname, hnode, hbelow, hrest⟩
    · rename_i hne
      split
      · rename_i hlt
        refine wellFormed_cons.2 ⟨hname, hnode, fun other hother => ?_, h⟩
        rw [names_cons] at hother
        rcases List.mem_cons.1 hother with rfl | hother
        · exact hlt
        · exact String.lt_trans hlt (hbelow other hother)
      · rename_i hge
        refine wellFormed_cons.2 ⟨hkey, hchild, fun other hother => ?_, ih hrest⟩
        rcases mem_names_put hother with rfl | hother
        · exact Std.lt_of_le_of_ne (String.not_lt.1 hge) hne
        · exact hbelow other hother

theorem wellFormed_remove (h : l.WellFormed) : (remove name l).WellFormed := by
  induction l using rec_cons with
  | nil => exact h
  | cons key child rest ih =>
    obtain ⟨hkey, hchild, hbelow, hrest⟩ := wellFormed_cons.1 h
    rw [remove_cons]
    split
    · exact ih hrest
    · exact wellFormed_cons.2
        ⟨hkey, hchild, fun other hother => hbelow other (mem_names_remove hother), ih hrest⟩

/-- What is found in a directory that is in order. -/
theorem wellFormed_of_find? (h : l.WellFormed) (hfind : l.find? name = some node) :
    IsEntryName name ∧ node.WellFormed := by
  induction l using rec_cons with
  | nil => cases hfind
  | cons key child rest ih =>
    obtain ⟨hkey, hchild, -, hrest⟩ := wellFormed_cons.1 h
    rw [find?_cons] at hfind
    split at hfind
    · rename_i heq
      subst heq
      exact ⟨hkey, Option.some.inj hfind ▸ hchild⟩
    · exact ih hrest hfind

end Listing

namespace Node

variable {node child : Node} {change : Listing → Listing} {now : Instant}

theorem wellFormed_of_at? {names : List String} (h : node.WellFormed)
    (hat : node.at? names = some child) :
    child.WellFormed ∧ ∀ name ∈ names, IsEntryName name := by
  induction names generalizing node with
  | nil =>
    obtain rfl := Option.some.inj hat
    exact ⟨h, fun _ hmem => nomatch hmem⟩
  | cons name names ih =>
    cases node with
    | file content modified => cases hat
    | folder inside modified =>
      obtain ⟨next, hfind, hnext⟩ := Option.bind_eq_some_iff.1 hat
      obtain ⟨hname, hwell⟩ := Listing.wellFormed_of_find? h hfind
      obtain ⟨hchild, hnames⟩ := ih hwell hnext
      exact ⟨hchild, List.forall_mem_cons.2 ⟨hname, hnames⟩⟩

/-- **A change of one directory** leaves the tree well formed if it leaves the directory so. -/
theorem wellFormed_changeAt (hchange : ∀ inside : Listing, inside.WellFormed →
      (change inside).WellFormed) (names : List String) (h : node.WellFormed) :
    (node.changeAt change now names).WellFormed := by
  induction names generalizing node with
  | nil =>
    cases node with
    | file content modified => exact h
    | folder inside modified => exact hchange inside h
  | cons name names ih =>
    cases node with
    | file content modified => exact h
    | folder inside modified =>
      rw [changeAt]
      cases hfind : inside.find? name with
      | none => exact h
      | some child =>
        obtain ⟨hname, hchild⟩ := Listing.wellFormed_of_find? h hfind
        exact Listing.wellFormed_put hname (ih hchild) h

end Node

namespace FileSystem

variable {fs : FileSystem} {dir : List String} {name : String} {node : Node}

theorem wellFormed_putNode (hname : IsEntryName name) (hnode : node.WellFormed)
    (h : fs.root.WellFormed) : (fs.putNode (dir ++ [name]) node).root.WellFormed := by
  rw [putNode, List.getLast?_concat]
  exact Node.wellFormed_changeAt (fun _ => Listing.wellFormed_put hname hnode) _ h

theorem wellFormed_removeNode (h : fs.root.WellFormed) (names : List String) :
    (fs.removeNode names).root.WellFormed := by
  unfold removeNode
  split
  · exact h
  · exact Node.wellFormed_changeAt (fun _ => Listing.wellFormed_remove) _ h

end FileSystem

end JarGraph
