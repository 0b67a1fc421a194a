import JarGraph.Glob.Fault
/-!
# Path filters

Which paths below a directory are taken: those that some include pattern matches, or all where there
is none, less those that an exclude pattern matches. Patterns are matched against the path below the
directory, with slashes.
-/

namespace JarGraph

/-- A filter of paths. -/
structure PathFilter where
  /-- The include patterns, unless every path is included. -/
  includes : Option (List Glob)
  excludes : List Glob
  deriving Repr, Inhabited

namespace PathFilter

/-- The patterns of a list; a backslash counts as a slash. -/
def compileAll (patterns : List String) : Except PatternError (List Glob) :=
  Glob.compileSet '\\' true patterns

/-- The filter of some include and exclude patterns. -/
def ofPatterns (includes excludes : List String) : Except PatternError PathFilter := do
  let included ← if includes.isEmpty then pure none else (compileAll includes).map some
  let excluded ← compileAll excludes
  return ⟨included, excluded⟩

/-- Whether some pattern of a list matches the path. -/
def anyMatch (globs : List Glob) (path : String) : Bool :=
  globs.any fun g => g.isMemberMatch path

/-- Whether the filter takes the path. -/
def accepts (filter : PathFilter) (path : String) : Bool :=
  !anyMatch filter.excludes path &&
    (match filter.includes with
      | none => true
      | some globs => anyMatch globs path)

end PathFilter

end JarGraph
