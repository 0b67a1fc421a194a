import JarGraph.ClassFile.ModifiedUtf8
/-!
# The groups of modified UTF-8

A text constant is a row of groups of one, two or three bytes, and each group writes one unit. The
sequences of units in turn spell characters: two halves of a pair spell one character together, half
a pair alone spells the replacement character, and any other unit spells the character of its
number.
-/

namespace JarGraph.ClassFile.ModifiedUtf8

/-- The bytes that write one unit. -/
inductive Group where
  | one (a : UInt8)
  | two (a b : UInt8)
  | three (a b c : UInt8)
  deriving DecidableEq, Repr

namespace Group

/-- The ranges that the bytes of a group have to lie in. A unit may be written in more bytes than it
needs. -/
def IsProper : Group → Prop
  | one a => 0x01 ≤ a ∧ a ≤ 0x7F
  | two a b => (0xC0 ≤ a ∧ a ≤ 0xDF) ∧ (0x80 ≤ b ∧ b ≤ 0xBF)
  | three a b c => (0xE0 ≤ a ∧ a ≤ 0xEF) ∧ (0x80 ≤ b ∧ b ≤ 0xBF) ∧ (0x80 ≤ c ∧ c ≤ 0xBF)

instance (g : Group) : Decidable g.IsProper := by
  cases g <;> unfold IsProper <;> infer_instance

/-- The bytes of a group. -/
def bytes : Group → Bytes
  | one a => [a]
  | two a b => [a, b]
  | three a b c => [a, b, c]

/-- The unit of a group: the bits of its bytes that do not mark their place. -/
def unit : Group → UInt16
  | one a => a.toUInt16
  | two a b => (a &&& 0x1F).toUInt16 <<< 6 ||| (b &&& 0x3F).toUInt16
  | three a b c =>
    (a &&& 0x0F).toUInt16 <<< 12 ||| (b &&& 0x3F).toUInt16 <<< 6 ||| (c &&& 0x3F).toUInt16

end Group

/-- What a sequence of units spells. -/
inductive Spells : List UInt16 → List Char → Prop where
  | nil : Spells [] []
  /-- A unit that is half of no pair is the number of its character. -/
  | plain {u : UInt16} {c : Char} {units : List UInt16} {cs : List Char} :
    c.toNat = u.toNat → Spells units cs → Spells (u :: units) (c :: cs)
  /-- Two halves are the twenty low bits of the number of their character, above 0xFFFF. -/
  | pair {u v : UInt16} {c : Char} {units : List UInt16} {cs : List Char} :
    0xD800 ≤ u → u < 0xDC00 → 0xDC00 ≤ v → v < 0xE000 →
    c.toNat = 0x10000 + (u.toNat - 0xD800) * 0x400 + (v.toNat - 0xDC00) →
    Spells units cs → Spells (u :: v :: units) (c :: cs)
  /-- A first half without a second one. -/
  | loneHigh {u : UInt16} {units : List UInt16} {cs : List Char} :
    0xD800 ≤ u → u < 0xDC00 → (∀ v ∈ units.head?, ¬ (0xDC00 ≤ v ∧ v < 0xE000)) →
    Spells units cs → Spells (u :: units) ('\uFFFD' :: cs)
  /-- A second half without a first one. -/
  | loneLow {u : UInt16} {units : List UInt16} {cs : List Char} :
    0xDC00 ≤ u → u < 0xE000 → Spells units cs → Spells (u :: units) ('\uFFFD' :: cs)

end JarGraph.ClassFile.ModifiedUtf8
