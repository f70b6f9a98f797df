/-
  IntLisp.Node.Forest
  ───────────────────
  **TREES PUT TOGETHER BY HAND.**

  Nodes can be made one by one and then given to others as children.  Each
  has a number, its place in the order of making, and remembers the node it
  was given to last.
-/
import IntLisp.Error
import IntLisp.Node.Dump

namespace IntLisp

/-- A node made by hand: its kind and value, the numbers of its children, and
the number of the node it was given to. -/
structure Cell where
  shape : Node
  children : List Nat
  parent : Option Nat

/-- Nodes made by hand, by number. -/
structure Forest where
  cells : Array Cell

namespace Forest

/-- No nodes yet. -/
def empty : Forest := ⟨#[]⟩

/-- The number that the next node gets. -/
def next (f : Forest) : Nat := f.cells.size

/-- Make a node that belongs to no other. -/
def make (f : Forest) (shape : Node) : Forest := ⟨f.cells.push ⟨shape, [], none⟩⟩

/-- Give the node `child` to the node `id` as its last child. -/
def give (f : Forest) (id child : Nat) : Except Error Forest :=
  match f.cells[id]? with
  | none => .error .notAVector
  | some cell =>
    if cell.shape.isVector then
      let cells := f.cells.modify id fun c => { c with children := c.children ++ [child] }
      .ok ⟨cells.modify child fun c => { c with parent := some id }⟩
    else .error .notAVector

/-- Make a node and give it to the node `id`. -/
def makeIn (f : Forest) (id : Nat) (shape : Node) : Except Error Forest :=
  (f.make shape).give id f.next

/-- The kind and value `shape` with children. -/
def assemble (shape : Node) (children : List Node) : Node :=
  match shape with
  | .expression token _ => .expression token children
  | .list token _ => .list token children
  | leaf => leaf

/-- The tree of the node `id`, down to the given height. -/
def treeTo (f : Forest) : Nat → Nat → Node
  | 0, id => ((f.cells[id]?).map Cell.shape).getD (.foreign none 0 none)
  | height + 1, id =>
    match f.cells[id]? with
    | none => .foreign none 0 none
    | some cell => assemble cell.shape (cell.children.map (treeTo f height))

/-- The tree of the node `id`.  No tree is higher than there are nodes. -/
def tree (f : Forest) (id : Nat) : Node := f.treeTo f.cells.size id

/-- The canonical text of a node, if all of it is known; no node has no text. -/
def encode? (f : Forest) : Option Nat → Option String
  | none => some ""
  | some id => (f.tree id).encode?

/-- The dump of a node, if all of it is known. -/
def dump? (f : Forest) : Option Nat → Option String
  | none => some ":nil\n"
  | some id => (f.tree id).dump?

end Forest

/-- The leaf of the kind with the number `code` whose value is written `text`. -/
def Node.ofCode (token : Option Token) (code : UInt16) (text : String) : Node :=
  if code = symbolCode then .symbol token text else .foreign token code (some text)

end IntLisp
