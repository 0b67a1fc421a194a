import JarGraph.Artifact.Identification
import JarGraph.Artifact.PackagePrefix
import JarGraph.Descriptor.Basic
import JarGraph.Text.Position
/-!
# Names by positions

The readers of descriptors, of file names and of common packages, as programs that hold a text as
bytes: they look for a mark, cut the text before and behind it by positions, and read a byte at a
position that was found in another text. A wrong position stops them.
-/

namespace JarGraph

open Text

namespace Descriptor

/-- The bytes that may stand before a type, as marks. -/
def markers : List Char :=
  ['(', ')', '[', 'B', 'C', 'D', 'F', 'I', 'J', 'S', 'Z', 'V']

/-- Adds the class names of the rest of a descriptor to those found before. Each round takes one
class type. -/
def addClassNames : Nat → List Char → List String → Except (Stop Empty) (List String)
  | 0, _, _ => .error .exhausted
  | rounds + 1, rest, names =>
    match find? 'L' rest with
    | none => .ok names
    | some position => do
      let before ← checked (sliceTo rest position)
      if !(encoded before).all (isOneOf markers) then return names
      let after ← checked (sliceFrom rest (position + 1))
      match find? ';' after with
      | some stop =>
        let name ← checked (sliceTo after stop)
        let more ← checked (sliceFrom after (stop + 1))
        addClassNames rounds more (if 0 < stop then names ++ [String.ofList name] else names)
      | none => return if after.isEmpty then names else names ++ [String.ofList after]

/-- The classes that a descriptor names, by positions. -/
def classNamesByPosition (descriptor : String) : Except (Stop Empty) (List String) :=
  addClassNames (size descriptor.toList + 1) descriptor.toList []

end Descriptor

namespace Artifact

/-- The position of the first dash before a digit, looked for from a position on. -/
def dashBeforeDigit (stem : List Char) : Nat → List Char → Except (Stop Empty) (Option Nat)
  | _, [] => .ok none
  | position, c :: rest => do
    if c = '-' then
      let after ← checked (sliceFrom stem (position + 1))
      if after.head?.any Char.isDigit then return some position
    dashBeforeDigit stem (position + c.utf8Size) rest

/-- The artifact and the version, cut out before and behind a dash. -/
def splitAtDash (stem : String) : Option Nat → Except (Stop Empty) (Option String × Option String)
  | some position => do
    let name ← checked (sliceTo stem.toList position)
    let version ← checked (sliceFrom stem.toList (position + 1))
    return (nonBlank? (String.ofList name), nonBlank? (String.ofList version))
  | none => .ok (nonBlank? stem, none)

/-- The artifact and the version that a file name tells, by positions. -/
def splitFileNameByPosition (file : Path) :
    Except (Stop Empty) (Option String × Option String) :=
  match file.stem with
  | none => .ok (none, none)
  | some stem => do
    let dash ← dashBeforeDigit stem.toList 0 stem.toList
    splitAtDash stem dash

/-- The position of the first difference of two texts, within the shorter one, looked for from a
position on. -/
def firstDifference : Nat → List Char → List Char → Option Nat
  | position, a :: as, b :: bs =>
    if a = b then firstDifference (position + a.utf8Size) as bs else some position
  | _, _, _ => none

/-- How many bytes two texts have in common at their start. -/
def sharedSize (a b : List Char) : Nat :=
  (firstDifference 0 a b).getD (min (size a) (size b))

/-- The position of the last dot before a position. -/
def lastDot (current : List Char) (stop : Nat) : Except (Stop Empty) (Option Nat) := do
  let start ← checked (sliceTo current stop)
  return findLast? '.' start

/-- The segments before a dot. -/
def cutAtDot (current : List Char) : Option Nat → Except (Stop Empty) (Option (List Char))
  | some dot => do
    let next ← checked (sliceTo current dot)
    return some next
  | none => .ok none

/-- What a package narrows the common start to, by positions. -/
def narrowByPosition (current candidate : List Char) : Except (Stop Empty) (Option (List Char)) :=
  let shared := sharedSize current candidate
  if size current ≤ shared then .ok (some current)
  else do
    let b ← checked (byteAt current shared)
    let dot ← if isOneOf ['.'] b then .ok (some shared) else lastDot current shared
    cutAtDot current dot

/-- Narrows a start by one package after the other, by positions. -/
def narrowAllByPosition (initial fallback : Option String) :
    List Char → List (List Char) → Except (Stop Empty) (Option String)
  | current, [] => .ok (if current.isEmpty then initial else some (String.ofList current))
  | current, candidate :: more =>
    if current.isEmpty then .ok initial
    else do
      match ← narrowByPosition current candidate with
      | some next => narrowAllByPosition initial fallback next more
      | none => return some (fallback.getD (String.ofList current))

/-- The longest row of segments that the usable packages share, by positions. -/
def commonPackagePrefixByPosition (initial : Option String) (packages : List String) :
    Except (Stop Empty) (Option String) :=
  let usable := (packages.filter fun p => !isIgnoredPackage p).map String.toList
  match initial.filter fun p => !isIgnoredPackage p with
  | some start => narrowAllByPosition initial (some start) start.toList usable
  | none =>
    match usable with
    | [] => .ok initial
    | first :: more => narrowAllByPosition initial none first more

end Artifact

end JarGraph
