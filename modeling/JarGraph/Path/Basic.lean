import JarGraph.Text.Cut
/-!
# Paths

A path is a text read as a list of components: the root of an absolute path, a `.` at the very start
of a relative one, `..`, and names. Repeated slashes, a `.` further on and a slash at the end are no
components. Paths compare by their components, and a path keeps the text it was written with, which
is how it is printed.
-/

namespace JarGraph

/-- One step of a path. -/
inductive Component where
  /-- The root directory, at the start of an absolute path. -/
  | root
  /-- The directory itself, at the start of a relative path. -/
  | here
  /-- The directory above. -/
  | up
  /-- An entry of a directory. -/
  | name (text : String)
  deriving DecidableEq, Repr, Inhabited

namespace Component

/-- The place of the component's sort among the sorts. -/
def rank : Component → Nat
  | root => 0
  | here => 1
  | up => 2
  | name _ => 3

/-- The component as it is written. -/
def text : Component → String
  | root => "/"
  | here => "."
  | up => ".."
  | name s => s

/-- Components compare by their sort first and then by their text. -/
instance : Ord Component where
  compare := compareLex (compareOn rank) (compareOn text)

instance : Std.TransOrd Component :=
  inferInstanceAs (Std.TransCmp (compareLex (compareOn rank) (compareOn text)))

instance : Std.LawfulEqOrd Component where
  eq_of_compare {a b} h := by
    have h : (compareOn rank a b).then (compareOn text a b) = .eq := h
    rw [Ordering.then_eq_eq] at h
    have hr : a.rank = b.rank := Std.LawfulEqCmp.eq_of_compare h.1
    have ht : a.text = b.text := Std.LawfulEqCmp.eq_of_compare h.2
    cases a <;> cases b <;> simp_all [rank, text]

/-- The name, unless the component is of another sort. -/
def name? : Component → Option String
  | name s => some s
  | _ => none

end Component

/-- A text that is read as a path. -/
structure Path where
  /-- The path as it was written. -/
  text : String
  deriving DecidableEq, Repr, Inhabited

namespace Path

/-- The pieces of the text between slashes. -/
def pieces (p : Path) : List (List Char) :=
  Text.pieces '/' p.text.toList

/-- Whether the path starts at the root. -/
def isAbsolute (p : Path) : Bool :=
  p.text.toList.head? == some '/'

/-- A piece that stands for no component. -/
def isIdle (piece : List Char) : Bool :=
  piece == [] || piece == ['.']

/-- The component that a piece stands for, if it does. -/
def component? (piece : List Char) : Option Component :=
  if isIdle piece then none
  else if piece = ['.', '.'] then some .up
  else some (.name (String.ofList piece))

/-- The component that the start of the text stands for, beyond what its pieces say: the root, or a
leading `.`. -/
def lead (p : Path) : Option Component :=
  match p.pieces with
  | [] :: _ :: _ => some .root
  | ['.'] :: _ => some .here
  | _ => none

/-- The components of the path. -/
def components (p : Path) : List Component :=
  p.lead.toList ++ p.pieces.filterMap component?

/-- Paths compare by their components. -/
instance : Ord Path where
  compare := compareOn components

instance : Std.TransOrd Path :=
  inferInstanceAs (Std.TransCmp (compareOn components))

/-- Two paths are the same path when their components are. -/
def same (p q : Path) : Bool :=
  p.components == q.components

theorem compare_eq_iff {p q : Path} : compare p q = .eq ↔ p.components = q.components := by
  show compare p.components q.components = .eq ↔ _
  exact Std.LawfulEqOrd.compare_eq_iff_eq

theorem same_iff {p q : Path} : p.same q = true ↔ p.components = q.components :=
  beq_iff_eq

theorem compare_eq_iff_same {p q : Path} : compare p q = .eq ↔ p.same q = true :=
  compare_eq_iff.trans same_iff.symm

@[simp] theorem same_self (p : Path) : p.same p = true :=
  same_iff.2 rfl

theorem same_comm (p q : Path) : p.same q = q.same p := by
  rw [Bool.eq_iff_iff, same_iff, same_iff, eq_comm]

theorem same_trans {p q r : Path} (h : p.same q = true) (h' : q.same r = true) :
    p.same r = true :=
  same_iff.2 ((same_iff.1 h).trans (same_iff.1 h'))

/-- The same paths may stand in the places of two others. -/
theorem same_congr {p p' q q' : Path} (hp : p.same p' = true) (hq : q.same q' = true) :
    p.same q = p'.same q' := by
  rw [Bool.eq_iff_iff, same_iff, same_iff, same_iff.1 hp, same_iff.1 hq]

/-- The last component, if it is a name. -/
def fileName (p : Path) : Option String :=
  p.components.getLast?.bind Component.name?

/-- A name before and after its last dot. A name that only starts with a dot has no ending. -/
def splitName (name : String) : String × Option String :=
  match Text.cutLast '.' name.toList with
  | none => (name, none)
  | some ([], _) => (name, none)
  | some (stem, ending) => (String.ofList stem, some (String.ofList ending))

/-- The file name without its ending. -/
def stem (p : Path) : Option String :=
  p.fileName.map fun name => (splitName name).1

/-- The ending of the file name, after the last dot. -/
def extension (p : Path) : Option String :=
  p.fileName.bind fun name => (splitName name).2

/-- Whether the components of `base` are the first components of the path. -/
def startsWith (p base : Path) : Bool :=
  base.components.isPrefixOf p.components

/-- Joins pieces with slashes. -/
def ofPieces (pieces : List (List Char)) : Path :=
  ⟨String.ofList (Text.join '/' pieces)⟩

/-- Pieces without the idle ones at the end. -/
def dropIdleEnd (pieces : List (List Char)) : List (List Char) :=
  (pieces.reverse.dropWhile isIdle).reverse

/-- Pieces after the first `n` components, without idle pieces before the next one. -/
def dropComponents : Nat → List (List Char) → List (List Char)
  | 0, pieces => pieces.dropWhile isIdle
  | _ + 1, [] => []
  | n + 1, piece :: rest =>
    if isIdle piece then dropComponents (n + 1) rest else dropComponents n rest

/-- The pieces that follow the lead, if there is one. -/
def body (p : Path) : List (List Char) :=
  if p.lead.isSome then p.pieces.drop 1 else p.pieces

/-- The path whose lead is that of `p` and whose further pieces are given. -/
def withBody (p : Path) (pieces : List (List Char)) : Path :=
  let rest := Text.join '/' pieces
  match p.lead with
  | some .root => ⟨String.ofList ('/' :: rest)⟩
  | some _ => if pieces = [] then ⟨"."⟩ else ⟨String.ofList ('.' :: '/' :: rest)⟩
  | none => ⟨String.ofList rest⟩

/-- The path below `base`, as it is written in `p`; nothing if `p` is not below `base`. -/
def stripBase? (p base : Path) : Option Path :=
  if p.startsWith base then
    match base.components.length with
    | 0 => some (p.withBody (dropIdleEnd p.body))
    | n + 1 =>
      let skipped := if p.lead.isSome then n else n + 1
      some (ofPieces (dropIdleEnd (dropComponents skipped p.body)))
  else none

/-- The path below `base`, or the path itself where it is not below. -/
def relativeTo (p base : Path) : Path :=
  (p.stripBase? base).getD p

/-- The components of the path below `base`, joined by slashes. -/
def relativeSlash (p base : Path) : String :=
  String.ofList (Text.join '/' ((p.relativeTo base).components.map fun c => c.text.toList))

/-- The path without its last component; the root and the empty path have nothing above. -/
def parent? (p : Path) : Option Path :=
  match p.components.getLast? with
  | none => none
  | some .root => none
  | some _ =>
    let body := dropIdleEnd p.body
    if body = [] then some ⟨""⟩
    else some (p.withBody (dropIdleEnd (body.dropLast)))

/-- The path `q` taken from `p` as its starting point. -/
def append (p q : Path) : Path :=
  if q.isAbsolute then q
  else
    match p.text.toList.getLast? with
    | none => q
    | some '/' => ⟨p.text ++ q.text⟩
    | some _ => ⟨p.text ++ "/" ++ q.text⟩

instance : Append Path := ⟨append⟩

/-- The path of an entry of the directory. -/
def child (p : Path) (name : String) : Path :=
  p ++ ⟨name⟩

/-- The absolute form of a path, seen from a working directory: a leading `.`, idle pieces and
doubled slashes go, `..` stays, a slash at the end stays, and so do exactly two slashes at the
start. The empty path has none. -/
def absolute? (p workingDirectory : Path) : Option Path :=
  if p.text.isEmpty then none
  else
    let doubled := p.text.toList.take 2 == ['/', '/'] && p.text.toList.take 3 != ['/', '/', '/']
    let start : Path :=
      if p.isAbsolute then (if doubled then ⟨"//"⟩ else ⟨"/"⟩) else workingDirectory
    let whole := (p.pieces.filterMap component?).foldl (fun q c => q.child c.text) start
    some (if p.text.toList.getLast? == some '/' then whole.child "" else whole)

end Path

end JarGraph
