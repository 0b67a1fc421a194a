import JarGraph.Text.Utf8
/-!
# JSON

JSON values and the reading of their text. A text is accepted exactly if it is JSON: what follows
the value has to be blank, and strings hold no control characters. A string with an escape that
stands for half a character is JSON but has no text.
-/

namespace JarGraph

/-- A JSON value. The members of an object keep their order and their repetitions. -/
inductive Json where
  | null
  | bool (value : Bool)
  | number
  /-- A string with its text, if it has one. -/
  | string (text : Option String)
  | array (items : List Json)
  | object (members : List (Option String × Json))
  deriving Repr, Inhabited

namespace Json

/-- The blanks between the parts of a JSON text. -/
def isSpace (c : Char) : Bool :=
  c == ' ' || c == '\n' || c == '\t' || c == '\r'

/-- The text without the blanks at its front. -/
def skipSpace (cs : List Char) : List Char :=
  cs.dropWhile isSpace

/-- The value of a hexadecimal digit. -/
def hexValue? (c : Char) : Option Nat :=
  if c.isDigit then some (c.toNat - 48)
  else if 'a' ≤ c ∧ c ≤ 'f' then some (c.toNat - 87)
  else if 'A' ≤ c ∧ c ≤ 'F' then some (c.toNat - 55)
  else none

/-- The value of four hexadecimal digits at the front of a text. -/
def fourHex? : List Char → Option (Nat × List Char)
  | a :: b :: c :: d :: rest => do
    let a ← hexValue? a
    let b ← hexValue? b
    let c ← hexValue? c
    let d ← hexValue? d
    return (((a * 16 + b) * 16 + c) * 16 + d, rest)
  | _ => none

/-- The character of a short escape. -/
def shortEscape? (c : Char) : Option Char :=
  match c with
  | '"' => some '"'
  | '\\' => some '\\'
  | '/' => some '/'
  | 'b' => some (Char.ofNat 8)
  | 'f' => some (Char.ofNat 12)
  | 'n' => some '\n'
  | 'r' => some '\r'
  | 't' => some '\t'
  | _ => none

/-- One item of a string: a character, or a 16-bit unit that an escape gives. -/
inductive Item where
  | char (c : Char)
  | unit (n : Nat)
  deriving DecidableEq, Repr, Inhabited

/-- The items of a string up to its closing quote, and the text after it. -/
def items : List Char → Option (List Item × List Char)
  | [] => none
  | '"' :: rest => some ([], rest)
  | '\\' :: 'u' :: a :: b :: c :: d :: rest => do
    let (n, _) ← fourHex? [a, b, c, d]
    let (more, rest) ← items rest
    return (.unit n :: more, rest)
  | '\\' :: c :: rest => do
    let c ← shortEscape? c
    let (more, rest) ← items rest
    return (.char c :: more, rest)
  | '\\' :: [] => none
  | c :: rest =>
    if c.toNat < 0x20 then none
    else do
      let (more, rest) ← items rest
      return (.char c :: more, rest)

/-- The text of some items. Units have to be characters or pairs that make up one. -/
def textOf : List Item → Option (List Char)
  | [] => some []
  | .char c :: rest => (textOf rest).map (c :: ·)
  | .unit n :: rest =>
    if 0xD800 ≤ n ∧ n < 0xDC00 then
      match rest with
      | .unit m :: rest =>
        if 0xDC00 ≤ m ∧ m < 0xE000 then
          (textOf rest).map (Char.ofNat (0x10000 + (n - 0xD800) * 1024 + (m - 0xDC00)) :: ·)
        else none
      | _ => none
    else if 0xDC00 ≤ n ∧ n < 0xE000 then none
    else (textOf rest).map (Char.ofNat n :: ·)

/-- A string after its opening quote, and the text after it. -/
def string? (cs : List Char) : Option (Option String × List Char) := do
  let (found, rest) ← items cs
  return ((textOf found).map String.ofList, rest)

/-- The text after a row of at least one digit. -/
def digits? : List Char → Option (List Char)
  | c :: rest => if c.isDigit then some (rest.dropWhile Char.isDigit) else none
  | [] => none

/-- The text after the fraction of a number, if there is one. -/
def fraction? : List Char → Option (List Char)
  | '.' :: rest => digits? rest
  | rest => some rest

/-- The text after the exponent of a number, if there is one. -/
def exponent? : List Char → Option (List Char)
  | c :: rest =>
    if c = 'e' ∨ c = 'E' then
      match rest with
      | '+' :: rest => digits? rest
      | '-' :: rest => digits? rest
      | rest => digits? rest
    else some (c :: rest)
  | [] => some []

/-- The text after the whole part of a number; only a single zero starts with zero. -/
def whole? : List Char → Option (List Char)
  | '0' :: c :: rest => if c.isDigit then none else some (c :: rest)
  | '0' :: [] => some []
  | rest => digits? rest

/-- The text after a number. -/
def number? (cs : List Char) : Option (List Char) := do
  let rest ← whole? (match cs with
    | '-' :: rest => rest
    | rest => rest)
  let rest ← fraction? rest
  exponent? rest

/-- What is being read: a list of items or members that is still open, with those before, latest
first. -/
inductive Open where
  | array (before : List Json)
  | object (before : List (Option String × Json)) (key : Option String)
  deriving Repr, Inhabited

/-- What comes next in a text. -/
inductive Expected where
  | value
  /-- The first item of an array or its end. -/
  | firstItem
  /-- The first key of an object or its end. -/
  | firstKey (before : List (Option String × Json))
  | key (before : List (Option String × Json))
  /-- What follows a value. -/
  | after (value : Json)
  deriving Repr, Inhabited

/-- A key and its colon, and the text after them. -/
def key? (cs : List Char) : Option (Option String × List Char) :=
  match cs with
  | '"' :: rest => do
    let (key, rest) ← string? rest
    match skipSpace rest with
    | ':' :: rest => return (key, rest)
    | _ => none
  | _ => none

/-- A value that holds no others, and the text after it. -/
def scalar? : List Char → Option (Json × List Char)
  | 'n' :: 'u' :: 'l' :: 'l' :: rest => some (null, rest)
  | 't' :: 'r' :: 'u' :: 'e' :: rest => some (bool true, rest)
  | 'f' :: 'a' :: 'l' :: 's' :: 'e' :: rest => some (bool false, rest)
  | '"' :: rest => (string? rest).map fun found => (string found.1, found.2)
  | cs => (number? cs).map fun rest => (number, rest)

/-- Reads on in the lists that are open. Every character is taken in one step, before and after
which at most one step takes none, so that four steps for each character are enough. -/
def readOn : Nat → List Open → Expected → List Char → Option Json
  | 0, _, _, _ => none
  | n + 1, stack, expected, cs =>
    match expected, skipSpace cs with
    | .value, '[' :: rest => readOn n (.array [] :: stack) .firstItem rest
    | .value, '{' :: rest => readOn n stack (.firstKey []) rest
    | .value, rest =>
      match scalar? rest with
      | some (value, rest) => readOn n stack (.after value) rest
      | none => none
    | .firstItem, ']' :: rest =>
      match stack with
      | .array before :: stack => readOn n stack (.after (array before.reverse)) rest
      | _ => none
    | .firstItem, rest => readOn n stack .value rest
    | .firstKey before, '}' :: rest => readOn n stack (.after (object before.reverse)) rest
    | .firstKey before, rest => readOn n stack (.key before) rest
    | .key before, rest =>
      match key? rest with
      | some (key, rest) => readOn n (.object before key :: stack) .value rest
      | none => none
    | .after value, rest =>
      match stack, rest with
      | [], [] => some value
      | .array before :: stack, ',' :: rest =>
        readOn n (.array (value :: before) :: stack) .value rest
      | .array before :: stack, ']' :: rest =>
        readOn n stack (.after (array (value :: before).reverse)) rest
      | .object before key :: stack, ',' :: rest =>
        readOn n stack (.key ((key, value) :: before)) rest
      | .object before key :: stack, '}' :: rest =>
        readOn n stack (.after (object ((key, value) :: before).reverse)) rest
      | _, _ => none

/-- The value that a text writes. -/
def parse (text : String) : Option Json :=
  let cs := text.toList
  readOn (4 * cs.length + 4) [] .value cs

end Json

end JarGraph
