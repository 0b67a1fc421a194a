import JarGraph.Markup.Basic
/-!
# A grammar of marked-up documents

Which characters are a document, and which element it holds, told without a reader. Every document
of the grammar is well-formed XML, and the element is what XML says that the document means: each
rule is a production of XML 1.0 with fewer choices. Names are letters of ASCII, the blanks inside a
tag are single spaces, and there are no comments and no references but to the predefined entities.
-/

namespace JarGraph.Markup

/-- The characters of XML (production 2); no character of a text is a surrogate. -/
def IsCharacter (c : Char) : Prop :=
  c = '\t' ∨ c = '\n' ∨ c = '\r' ∨ (0x20 ≤ c.toNat ∧ c.toNat ≤ 0xD7FF) ∨
    (0xE000 ≤ c.toNat ∧ c.toNat ≤ 0xFFFD) ∨ 0x10000 ≤ c.toNat

instance : DecidablePred IsCharacter := fun c =>
  inferInstanceAs (Decidable (c = '\t' ∨ c = '\n' ∨ c = '\r' ∨ _))

/-- A text of characters of XML without tabs and line ends: those XML may read as others. -/
def IsInline (s : String) : Prop :=
  ∀ c ∈ s.toList, IsCharacter c ∧ c ∉ ['\t', '\n', '\r']

instance : DecidablePred IsInline := fun s =>
  List.decidableBAll _ s.toList

/-- The characters that spell a text (productions 10 and 14): each stands for itself or is one of
the predefined entities. The carriage return, which XML reads as a line feed, does not stand for
itself, and neither do the characters of markup. -/
inductive Spells : List Char → List Char → Prop
  | nil : Spells [] []
  | plain {c : Char} {chars text : List Char} (hc : IsCharacter c)
      (hmarkup : c ∉ ['<', '>', '&', '\r']) (h : Spells chars text) :
      Spells (c :: chars) (c :: text)
  | entity {name chars text : List Char} {c : Char} (hname : (name, c) ∈ entities)
      (h : Spells chars text) :
      Spells ('&' :: (name ++ ';' :: chars)) (c :: text)

/-- A name (production 5). -/
def IsName (name : String) : Prop :=
  name.toList ≠ [] ∧ ∀ c ∈ name.toList, c.isAlpha = true

instance : DecidablePred IsName := fun name =>
  have : Decidable (∀ c ∈ name.toList, c.isAlpha = true) := List.decidableBAll _ name.toList
  inferInstanceAs (Decidable (_ ∧ _))

/-- The attributes of a tag (production 41). No two of them have one name, and a value holds none of
the blanks that XML reads as spaces. -/
inductive IsAttributes : List (String × String) → List Char → Prop
  | nil : IsAttributes [] []
  | cons {key : String} {value chars rest : List Char} {others : List (String × String)}
      (hkey : IsName key) (hvalue : Spells chars value)
      (hchars : ∀ c ∈ ['"', '\t', '\n'], c ∉ chars) (hnew : key ∉ others.map Prod.fst)
      (h : IsAttributes others rest) :
      IsAttributes ((key, String.ofList value) :: others)
        (' ' :: (key.toList ++ '=' :: '"' :: (chars ++ '"' :: rest)))

/-- The content that a text is: none where it is empty. -/
def textItems (text : List Char) : List Item :=
  if text = [] then [] else [.text (String.ofList text)]

mutual

/-- The characters of an element (production 39). -/
inductive IsElement : Item → List Char → Prop
  | whole {tag : String} {attributes : List (String × String)} {inside : List Char}
      (htag : IsName tag) (hattributes : IsAttributes attributes inside) :
      IsElement (.element tag attributes []) ('<' :: (tag.toList ++ inside ++ ['/', '>']))
  | nested {tag : String} {attributes : List (String × String)} {inside chars : List Char}
      {children : List Item} (htag : IsName tag) (hattributes : IsAttributes attributes inside)
      (h : IsContent children chars) :
      IsElement (.element tag attributes children)
        ('<' :: (tag.toList ++ inside ++ '>' :: (chars ++ '<' :: '/' :: (tag.toList ++ ['>']))))

/-- The characters of the content of an element (production 43). -/
inductive IsContent : List Item → List Char → Prop
  | text {chars text : List Char} (h : Spells chars text) : IsContent (textItems text) chars
  | element {front text chars rest : List Char} {item : Item} {items : List Item}
      (hfront : Spells front text) (hitem : IsElement item chars) (h : IsContent items rest) :
      IsContent (textItems text ++ item :: items) (front ++ (chars ++ rest))

end

/-- The characters of a document (production 1): the declaration, an element, and line ends. -/
def IsDocument (root : Item) (text : List Char) : Prop :=
  ∃ chars more, IsElement root chars ∧ (∀ c ∈ more, c = '\n') ∧
    text = declaration.toList ++ (chars ++ more)

end JarGraph.Markup
