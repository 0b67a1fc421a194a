import JarGraph.Glob.Fault
/-!
# Classes that the runtime supplies

The platform's own packages, and the patterns of classes that count as supplied from elsewhere. A
pattern may be written with dots or with slashes; a star stays within a package, and two stars span
packages.
-/

namespace JarGraph

/-- The packages of the platform itself. References into them are never unresolved. -/
def platformPackages : List String :=
  ["java/", "javax/", "com/sun/", "org/xml/sax/", "org/omg/", "org/w3c/dom/"]

/-- Whether a class is one of the platform's. -/
def isPlatformClass (name : String) : Bool :=
  platformPackages.any fun package => package.toList.isPrefixOf name.toList

/-- The patterns that count where the user lists none for the virtual machine. -/
def defaultMachinePatterns : List String :=
  ["java/**/*", "javax/**/*", "com/sun/**/*", "org/xml/sax/**/*", "org/w3c/dom/**/*",
    "org/ietf/jgss/*", "sunw/io/*", "sunw/util/*"]

/-- One pattern of provided classes. -/
structure ProvidedPattern where
  /-- The pattern in its slash form. -/
  text : String
  glob : Glob
  deriving Repr, Inhabited

namespace ProvidedPattern

/-- The slash form of a pattern. -/
def normalize (pattern : String) : String :=
  Glob.normalize '.' pattern

/-- The pattern that a user wrote. A backslash has no special meaning in it.

The expression that stands for a pattern has a limit on its nesting and its size, beyond which path
filters refuse it (`Glob.ownFault?`). No such answer is foreseen for provided classes, where the
expression is taken to be within the limit: a pattern beyond it would end the program on the spot,
and here it is a pattern like any other. -/
def compile (pattern : String) : Except PatternError ProvidedPattern :=
  (Glob.compile '.' false pattern).map fun glob => ⟨normalize pattern, glob⟩

end ProvidedPattern

/-- The patterns of provided classes, in the order in which they were given. -/
structure ProvidedClasses where
  patterns : List ProvidedPattern
  deriving Repr, Inhabited

namespace ProvidedClasses

/-- No patterns. -/
def empty : ProvidedClasses := ⟨[]⟩

/-- The patterns with one more. -/
def add (provided : ProvidedClasses) (pattern : String) : Except PatternError ProvidedClasses :=
  (ProvidedPattern.compile pattern).map fun p => ⟨provided.patterns ++ [p]⟩

/-- Whether some pattern matches the class. -/
def isMatch (provided : ProvidedClasses) (name : String) : Bool :=
  provided.patterns.any fun p => p.glob.isMatch name

end ProvidedClasses

end JarGraph
