/-
  IntLisp.Node
  ────────────
  **EXPRESSION TREES AND THEIR CANONICAL TEXT.**

  A node is an integer, a symbol, a parenthesised expression or a bare list
  of nodes.  Nodes read from a text remember the token they began with.  The
  canonical text has one space between neighbours and none next to a
  parenthesis, and depends on no token.
-/
import IntLisp.Token

namespace IntLisp

/-- A node of an expression tree. -/
inductive Node where
  | int (token : Option Token) (value : Int)
  | symbol (token : Option Token) (name : String)
  /-- Nodes between parentheses; the token is the opening one. -/
  | expression (token : Option Token) (children : List Node)
  /-- Nodes one after the other. -/
  | list (token : Option Token) (children : List Node)
  /-- A leaf whose value this language cannot read: only the number of its kind
  and, maybe, a text are known. -/
  | foreign (token : Option Token) (code : UInt16) (content : Option String)

namespace Node

/-! ## §1. Parts of a node. -/

/-- The number of the kind of integers. -/
def intCode : UInt16 := 129

/-- The number of the kind of symbols. -/
def symbolCode : UInt16 := 132

/-- The token that a node began with. -/
def token? : Node → Option Token
  | int token _ | symbol token _ | expression token _ | list token _ | foreign token _ _ => token

/-- Where a node begins. -/
def pos (n : Node) : Position := (n.token?.map Token.pos).getD Position.unknown

/-- The name of a node's kind; kinds without a meaning have no name.  A symbol
is its text, so a foreign leaf is never one. -/
def kindName : Node → String
  | int _ _ => "int"
  | symbol _ _ => "symbol"
  | expression _ _ => "expression"
  | list _ _ => "list"
  | foreign _ code _ => if code = intCode then "int" else ""

/-- The nodes directly inside. -/
def children : Node → List Node
  | expression _ children | list _ children => children
  | _ => []

/-- The name, if the node is a symbol. -/
def symbol? : Node → Option String
  | symbol _ name => some name
  | _ => none

/-- The integer, if the node is one. -/
def int? : Node → Option Int
  | int _ value => some value
  | _ => none

/-- Whether the node is a leaf with a value. -/
def isValue : Node → Bool
  | int _ _ | symbol _ _ => true
  | expression _ _ | list _ _ => false
  | foreign _ code _ => code &&& 128 ≠ 0

/-- Whether the node can hold other nodes. -/
def isVector : Node → Bool
  | expression _ _ | list _ _ => true
  | _ => false

/-! ## §2. Text. -/

mutual
/-- The canonical text of a node. -/
def encode : Node → String
  | int _ value => Text.decimal value
  | symbol _ name => name
  | expression _ children => "(" ++ " ".intercalate (encodeAll children) ++ ")"
  | list _ children => " ".intercalate (encodeAll children)
  | foreign _ _ content => content.getD ""
/-- The canonical text of each node of a list. -/
def encodeAll : List Node → List String
  | [] => []
  | n :: ns => encode n :: encodeAll ns
end

/-- The canonical texts of the nodes directly inside; a leaf is its own only component. -/
def components (n : Node) : List String :=
  if n.isVector then encodeAll n.children else [n.encode]

/-- A node in a few words: its kind, and its size or its value. -/
def describe (n : Node) : String :=
  let shown :=
    match n with
    | foreign _ _ content => ": " ++ content.getD "<nil>"
    | int _ _ | symbol _ _ => ": " ++ n.encode
    | expression _ children | list _ children =>
      "[" ++ Text.decimal children.length ++ "]"
  "(" ++ n.kindName ++ ")" ++ shown

mutual
/-- Whether the language gives a meaning to the kind of the node and of all
nodes inside it. -/
def isKnown : Node → Bool
  | int _ _ | symbol _ _ => true
  | expression _ children | list _ children => allKnown children
  | foreign _ code _ => code = intCode
/-- Whether all nodes of a list are known. -/
def allKnown : List Node → Bool
  | [] => true
  | n :: ns => isKnown n && allKnown ns
end

/-- The canonical text of a node, if all of it is known. -/
def encode? (n : Node) : Option String := if n.isKnown then some n.encode else none

/-! ## §3. All nodes of a tree. -/

mutual
/-- The node, under `level` others, before all nodes inside it, and these before `rest`. -/
def preorderOnto (level : Nat) : Node → List (Nat × Node) → List (Nat × Node)
  | expression token children, rest =>
    (level, expression token children) :: preorderAllOnto (level + 1) children rest
  | list token children, rest =>
    (level, list token children) :: preorderAllOnto (level + 1) children rest
  | n, rest => (level, n) :: rest
/-- The nodes of a list and those inside them, one after the other, before `rest`. -/
def preorderAllOnto (level : Nat) : List Node → List (Nat × Node) → List (Nat × Node)
  | [], rest => rest
  | n :: ns, rest => preorderOnto level n (preorderAllOnto level ns rest)
end

/-- Every node of the tree with its level, parents first. -/
def preorder (n : Node) : List (Nat × Node) := preorderOnto 0 n []

end Node

end IntLisp
