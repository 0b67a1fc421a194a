import JarGraph.Text.Cut
/-!
# Marked-up documents

Documents of nested elements with attributes and text, and a strict reader of them. It takes a part
of XML only, in which every document means what XML says that it means: names are letters of ASCII,
values stand in double quotes, no angle bracket stands for itself, an ampersand starts one of the
five predefined entities, and blanks inside a tag are single spaces. Characters that XML replaces or
forbids are refused: in values tabs and line ends, and anywhere carriage returns and characters that
are none of XML's.
-/

namespace JarGraph.Markup

/-- A piece of a document. -/
inductive Item where
  | text (content : String)
  | element (tag : String) (attributes : List (String × String)) (children : List Item)
  deriving Repr, Inhabited

/-- The characters that XML allows in a document, less the carriage return. -/
def isAllowed (c : Char) : Bool :=
  c == '\t' || c == '\n' || (' ' ≤ c && c.toNat != 0xFFFE && c.toNat != 0xFFFF)

/-- The five predefined entities, with the characters that they stand for. -/
def entities : List (List Char × Char) :=
  [("amp".toList, '&'), ("lt".toList, '<'), ("gt".toList, '>'), ("quot".toList, '"'),
    ("apos".toList, '\'')]

/-- The character that a name after an ampersand stands for, and what follows the semicolon. -/
def entity? (text : List Char) : Option (Char × List Char) := do
  let (name, rest) ← Text.cutWhere (· == ';') text
  let c ← entities.lookup name
  return (c, rest)

/-- The characters that a text between ampersands stands for, where all but the first piece start
with the name of an entity. -/
def decodePieces : List (List Char) → Option (List Char)
  | [] => some []
  | piece :: more => do
    let (c, rest) ← entity? piece
    let tail ← decodePieces more
    return c :: rest ++ tail

/-- The text that some characters stand for. -/
def decode? (text : List Char) : Option String :=
  if text.all fun c => isAllowed c && c != '<' && c != '>' then
    match Text.pieces '&' text with
    | [] => some ""
    | first :: more => (decodePieces more).map fun tail => String.ofList (first ++ tail)
  else none

/-- The value that some characters stand for. -/
def value? (text : List Char) : Option String :=
  if text.any fun c => c == '\t' || c == '\n' then none else decode? text

/-- A name of an element or an attribute. -/
def name? (text : List Char) : Option String :=
  if text != [] && text.all Char.isAlpha then some (String.ofList text) else none

/-- One part of a document. -/
inductive Token where
  | text (content : String)
  | start (tag : String) (attributes : List (String × String))
  | stop (tag : String)
  /-- An element without content. -/
  | whole (tag : String) (attributes : List (String × String))
  deriving DecidableEq, Repr, Inhabited

/-- The attributes in a tag that is cut at its quotes, and whether the element has no content. -/
def attributes? : List (List Char) → Option (List (String × String) × Bool)
  | [] => none
  | [last] => if last = [] then some ([], false) else if last = ['/'] then some ([], true) else none
  | key :: value :: more => do
    let rest ← Text.dropStart? [' '] key
    let name ← (Text.dropEnd? ['='] rest).bind name?
    let content ← value? value
    let (others, isWhole) ← attributes? more
    if (others.lookup name).isSome then none
    else return ((name, content) :: others, isWhole)

/-- The token that stands between angle brackets. -/
def tag? (inside : List Char) : Option Token :=
  match Text.dropStart? ['/'] inside with
  | some name => (name? name).map .stop
  | none => do
    let tag ← name? (inside.takeWhile Char.isAlpha)
    let (attributes, isWhole) ←
      attributes? (Text.pieces '"' (inside.dropWhile Char.isAlpha))
    return if isWhole then .whole tag attributes else .start tag attributes

/-- The tokens of a row of pieces, each a tag up to its closing bracket and the text after it. -/
def tokens? : List (List Char) → Option (List Token)
  | [] => some []
  | piece :: more => do
    let (inside, after) ← Text.cutWhere (· == '>') piece
    let tag ← tag? inside
    let text ← decode? after
    let others ← tokens? more
    return tag :: .text text :: others

/-- An element that is open, with its content so far, last first. -/
structure Open where
  tag : String
  attributes : List (String × String)
  content : List Item

/-- The content of the innermost open element with one item more; outside of any there is none. -/
def add (item : Item) : List Open → Option (List Open)
  | [] => none
  | o :: around => some ({ o with content := item :: o.content } :: around)

/-- Whether nothing but line ends follows. -/
def isOver (more : List Token) : Bool :=
  more.all fun
    | .text content => content.toList.all (· == '\n')
    | _ => false

/-- The one element that some tokens make, inside the elements that are open. Around it nothing but
line ends may stand. -/
def build : List Open → List Token → Option Item
  | _, [] => none
  | around, .text content :: more =>
    if content = "" then build around more
    else (add (.text content) around).bind fun around => build around more
  | around, .start tag attributes :: more => build (⟨tag, attributes, []⟩ :: around) more
  | around, .whole tag attributes :: more =>
    let item : Item := .element tag attributes []
    match add item around with
    | some around => build around more
    | none => if isOver more then some item else none
  | [], .stop _ :: _ => none
  | o :: around, .stop tag :: more =>
    if o.tag = tag then
      let item : Item := .element tag o.attributes o.content.reverse
      match add item around with
      | some around => build around more
      | none => if isOver more then some item else none
    else none

/-- The declaration that a document starts with. -/
def declaration : String := "<?xml version=\"1.0\" encoding=\"UTF-8\"?>\n"

/-- The element that a document holds. -/
def read (text : List Char) : Option Item := do
  let rest ← Text.dropStart? declaration.toList text
  match Text.pieces '<' rest with
  | [] :: more =>
    let tokens ← tokens? more
    build [] tokens
  | _ => none

end JarGraph.Markup
