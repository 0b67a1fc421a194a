import JarGraph.ProvidedClasses
/-!
# The package that names a group

Where nothing else names the group of an archive, the longest row of package segments that its
packages share does. Packages of the platform and of a common logging library say nothing.
-/

namespace JarGraph.Artifact

/-- Whether a text occurs in another one. -/
def occursIn (part : List Char) : List Char → Bool
  | [] => part.isEmpty
  | c :: rest => part.isPrefixOf (c :: rest) || occursIn part rest

/-- Packages that say nothing of who made an archive. -/
def isIgnoredPackage (package : String) : Bool :=
  package.isEmpty || occursIn "log4j".toList package.toList
    || isPlatformClass (Text.replace '.' '/' package ++ "/")

/-- The start that two texts share. -/
def sharedStart : List Char → List Char → List Char
  | a :: as, b :: bs => if a = b then a :: sharedStart as bs else []
  | _, _ => []

/-- What a package narrows the common start to: the start itself where it goes on in the package,
the segments before the first difference, or nothing where the first segments differ. -/
def narrow (current candidate : List Char) : Option (List Char) :=
  let shared := sharedStart current candidate
  match current.drop shared.length with
  | [] => some current
  | '.' :: _ => some shared
  | _ => (Text.cutLast '.' shared).map Prod.fst

/-- Narrows a start by one package after the other, as long as something is left of it. Where the
first segments differ, the fallback is taken, if there is one, and else the start so far. -/
def narrowAll (fallback : Option (List Char)) : List Char → List (List Char) →
    Option (List Char)
  | current, [] => if current.isEmpty then none else some current
  | current, candidate :: more =>
    if current.isEmpty then none
    else
      match narrow current candidate with
      | some next => narrowAll fallback next more
      | none => some (fallback.getD current)

/-- The longest row of segments that the usable packages share, starting from an initial one that
counts only if it is usable itself. Without a result the initial one is it. -/
def commonPackagePrefix (initial : Option String) (packages : List String) : Option String :=
  let usable := (packages.filter fun p => !isIgnoredPackage p).map String.toList
  let found :=
    match initial.filter fun p => !isIgnoredPackage p with
    | some start => narrowAll (some start.toList) start.toList usable
    | none =>
      match usable with
      | [] => none
      | first :: more => narrowAll none first more
  match found with
  | some text => some (String.ofList text)
  | none => initial

end JarGraph.Artifact
