/-
  IntLisp.Node.Dump
  ─────────────────
  **A TREE, ONE LINE A NODE.**

  The dump of a tree lists its nodes, parents first, each indented by four
  spaces a level and followed by the token it began with.
-/
import IntLisp.Node

namespace IntLisp.Node

/-- How a token is shown in a dump. -/
def showToken (token : Option Token) : String :=
  "(" ++ (token.map Token.describe).getD "<nil>" ++ ")"

/-- The line of one node at the given level. -/
def dumpLine (level : Nat) (n : Node) : String :=
  let value := if n.isVector then "" else n.encode ++ " "
  String.ofList (List.replicate (4 * level) ' ') ++ "(" ++ n.kindName ++ "): " ++ value
    ++ showToken n.token? ++ "\n"

/-- The dump of a whole tree. -/
def dump (n : Node) : String := String.join (n.preorder.map fun (level, m) => dumpLine level m)

/-- The dump of a tree, if all of it is known. -/
def dump? (n : Node) : Option String := if n.isKnown then some n.dump else none

end IntLisp.Node
