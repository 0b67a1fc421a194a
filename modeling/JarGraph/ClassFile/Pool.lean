import JarGraph.ClassFile.ModifiedUtf8
/-!
# The constant pool

The entries of a class file's constant pool, as far as they can name classes. Index 0 is no entry,
and a long or double constant takes two indices. An entry that nothing here needs keeps its sort
only, which messages show.
-/

namespace JarGraph.ClassFile

/-- One entry of the constant pool. -/
inductive Constant where
  /-- A text. -/
  | utf8 (text : String)
  /-- A class, by the index of its name. -/
  | classEntry (name : UInt16)
  /-- A name with a type, by the index of the type. -/
  | nameAndType (descriptor : UInt16)
  /-- A method type, by its index. -/
  | methodType (descriptor : UInt16)
  /-- An entry of a sort that names no class by itself. -/
  | other (kind : ConstantKind)
  deriving DecidableEq, Repr, Inhabited

/-- The sort of an entry. -/
def Constant.kind : Constant → ConstantKind
  | utf8 _ => .utf8
  | classEntry _ => .classEntry
  | nameAndType _ => .nameAndType
  | methodType _ => .methodType
  | other kind => kind

/-- The entries of a pool; the first of them has index 1. -/
structure Pool where
  /-- The entries in order of their indices. -/
  entries : List Constant
  deriving DecidableEq, Repr, Inhabited

namespace Pool

/-- The entry at an index. -/
def entry (pool : Pool) (index : UInt16) : Except Error Constant :=
  match index.toNat with
  | 0 => .error (.badPoolIndex index)
  | n + 1 =>
    match pool.entries[n]? with
    | some c => .ok c
    | none => .error (.badPoolIndex index)

/-- The text at an index. -/
def utf8 (pool : Pool) (index : UInt16) : Except Error String := do
  match ← pool.entry index with
  | .utf8 text => .ok text
  | c => .error (.poolMismatch index .utf8 c.kind)

/-- The name of the class at an index. -/
def className (pool : Pool) (index : UInt16) : Except Error String := do
  match ← pool.entry index with
  | .classEntry name => pool.utf8 name
  | c => .error (.poolMismatch index .classEntry c.kind)

/-- The name of the class at an index, where the index 0 stands for no class. -/
def className? (pool : Pool) (index : UInt16) : Except Error (Option String) :=
  if index.toNat = 0 then .ok none else (pool.className index).map some

/-- A name that the pool itself holds. -/
inductive Reference where
  /-- The name of a class: an internal name or the descriptor of an array. -/
  | class (name : String)
  /-- The descriptor of a field or a method. -/
  | descriptor (text : String)
  deriving DecidableEq, Repr, Inhabited

/-- The name that an entry holds, if it is of a sort that holds one. -/
def reference? (pool : Pool) : Constant → Except Error (Option Reference)
  | .classEntry name => (pool.utf8 name).map fun text => some (.class text)
  | .nameAndType descriptor => (pool.utf8 descriptor).map fun text => some (.descriptor text)
  | .methodType descriptor => (pool.utf8 descriptor).map fun text => some (.descriptor text)
  | .utf8 _ => .ok none
  | .other _ => .ok none

/-- The names that the pool holds, in the order of its entries. -/
def references (pool : Pool) : Except Error (List Reference) :=
  go pool.entries
where
  /-- The names that some of the entries hold. -/
  go : List Constant → Except Error (List Reference)
    | [] => .ok []
    | c :: rest => do
      let first ← pool.reference? c
      let more ← go rest
      .ok (first.toList ++ more)

open Reader in
/-- One entry. -/
def readEntry : Reader Constant := do
  let tag ← u1
  match tag.toNat with
  | 1 =>
    let length ← u2
    let data ← take length.toNat
    let text ← ofExcept (ModifiedUtf8.decode data)
    return .utf8 text
  | 3 | 4 =>
    skip 4
    return .other .number
  | 5 | 6 =>
    skip 8
    return .other .wide
  | 7 =>
    let name ← u2
    return .classEntry name
  | 8 | 19 | 20 =>
    skip 2
    return .other .named
  | 9 | 10 | 11 =>
    skip 4
    return .other .memberReference
  | 12 =>
    let _name ← u2
    let descriptor ← u2
    return .nameAndType descriptor
  | 15 =>
    skip 3
    return .other .methodHandle
  | 16 =>
    let descriptor ← u2
    return .methodType descriptor
  | 17 | 18 =>
    skip 4
    return .other .dynamic
  | _ => fail (.badPoolTag tag)

/-- As many indices' worth of entries as asked. A wide entry that has only one index left claims a
slot past the count that the pool declares. -/
def readEntries (declared : UInt16) : Nat → Reader (List Constant)
  | 0 => return []
  | n + 1 => do
    let c ← readEntry
    if c = .other .wide then
      match n with
      | 0 => Reader.fail (.badPoolIndex declared)
      | n + 1 =>
        let more ← readEntries declared n
        return c :: c :: more
    else
      let more ← readEntries declared n
      return c :: more

/-- A pool: the count of its indices, the unused index 0 included, and its entries. -/
def read : Reader Pool := do
  let count ← Reader.u2
  let entries ← readEntries count (count.toNat - 1)
  return ⟨entries⟩

end Pool

end JarGraph.ClassFile
