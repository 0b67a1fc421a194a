import JarGraph.Glob.Basic
/-!
# What patterns take

Which bytes a token takes, and a row of tokens one after the other. Nothing here goes through a name
from its end: a row takes some bytes if these can be cut so that each token takes its part.
-/

namespace JarGraph.GlobToken

/-- Some bytes that are taken one way, and then some that are taken another way. -/
def Followed (first rest : Bytes → Prop) (name : Bytes) : Prop :=
  ∃ taken left, name = taken ++ left ∧ first taken ∧ rest left

mutual

/-- The bytes that a token takes. -/
def Takes : GlobToken → Bytes → Prop
  | literal c => fun taken => taken = Text.utf8Bytes (String.singleton c)
  | anyByte => fun taken => ∃ b, b ≠ slash ∧ taken = [b]
  | run => fun taken => slash ∉ taken
  | leadingComponents => fun taken => taken = [] ∨ ∃ any, taken = any ++ [slash]
  | trailingComponents => fun taken => ∃ any, taken = slash :: any
  | innerComponents => fun taken => taken = [slash] ∨ ∃ any, taken = slash :: any ++ [slash]
  | set negated ranges => fun taken => ∃ b, setHolds negated ranges b = true ∧ taken = [b]
  | group branches =>
    if allBranchesIdle branches then fun taken => taken = [] else BranchTakes branches

/-- The bytes that a row of tokens takes. -/
def TokensTake : List GlobToken → Bytes → Prop
  | [] => fun taken => taken = []
  | t :: tokens => Followed (Takes t) (TokensTake tokens)

/-- The bytes that some branch takes. Beside other branches one that takes nothing is none. -/
def BranchTakes : List (List GlobToken) → Bytes → Prop
  | [] => fun _ => False
  | tokens :: branches => fun taken =>
    (allIdle tokens = false ∧ TokensTake tokens taken) ∨ BranchTakes branches taken

end

end JarGraph.GlobToken
