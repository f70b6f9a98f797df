/-
  IntLisp.Node.Growth
  ───────────────────
  **FROM TOKENS TO A TREE.**

  A tree grows token by token.  While it grows, some expressions are still
  open; they are kept innermost first, each with the nodes it holds so far.
  Closing all of them at any time gives the tree built up to there, and that
  is also what is left behind when the text turns out to be unbalanced.
-/
import IntLisp.Error
import IntLisp.Node

namespace IntLisp

/-! ## §1. A tree under construction. -/

/-- An open expression: its parenthesis, and its nodes so far, the newest first. -/
structure OpenExpression where
  token : Token
  newest : List Node

/-- A tree under construction: the open expressions, the innermost first, and
the finished nodes outside of all of them, the newest first. -/
structure Growth where
  pending : List OpenExpression
  newest : List Node

namespace Growth

/-- Nothing has grown yet. -/
def empty : Growth := ⟨[], []⟩

/-- The node that is being filled, without the nodes it holds so far. -/
def holder (g : Growth) : Node :=
  match g.pending with
  | [] => .list none []
  | e :: _ => .expression (some e.token) []

/-- Add a finished node at the innermost place. -/
def add (g : Growth) (n : Node) : Growth :=
  match g.pending with
  | [] => { g with newest := n :: g.newest }
  | e :: es => { g with pending := { e with newest := n :: e.newest } :: es }

/-- Open an expression. -/
def enter (g : Growth) (t : Token) : Growth := { g with pending := ⟨t, []⟩ :: g.pending }

/-- Close the innermost expression, if one is open. -/
def leave? (g : Growth) : Option Growth :=
  match g.pending with
  | [] => none
  | e :: es =>
    some (add ⟨es, g.newest⟩ (.expression (some e.token) e.newest.reverse))

/-- The nodes outside of all expressions once the open ones are closed, from
the innermost on; `inner` is what the expression closed before became. -/
def closeAll (newest : List Node) : List Node → List OpenExpression → List Node
  | inner, [] => inner ++ newest
  | inner, e :: es =>
    closeAll newest [.expression (some e.token) (inner ++ e.newest).reverse] es

/-- The whole tree, with every open expression closed. -/
def root (g : Growth) : Node := .list none (closeAll g.newest [] g.pending).reverse

end Growth

/-! ## §2. Reading a tree. -/

/-- An error at the token `t`. -/
def Growth.errorAt (t : Token) (reason : Reason) (note : String) : Error :=
  .located t.pos (.because reason) note

/-- The leaf that a word stands for; a word that is written as an integer must denote one. -/
def Node.ofWord? (t : Token) : Except Error Node :=
  if Text.isInteger t.text then
    match Text.numeral? t.text with
    | some value => .ok (.int (some t) value)
    | none => .error (Growth.errorAt t .unexpectedToken t.text)
  else .ok (.symbol (some t) t.text)

/-- A tree, and what kept it from being complete. -/
structure Reading where
  root : Node
  error : Option Error

namespace Growth

/-- Add the leaf of a word, if it has one and the node being filled can hold it. -/
def addWord? (g : Growth) (t : Token) : Except Error Growth := do
  let n ← Node.ofWord? t
  if g.holder.isVector then .ok (g.add n) else .error .notAVector

/-- Open an expression, if the node being filled can hold it. -/
def enter? (g : Growth) (t : Token) : Except Error Growth :=
  if g.holder.isVector then .ok (g.enter t) else .error .notAVector

/-- The tree at the end of a text.  Expressions still open are an error, unless
`autoClose` closes them. -/
def finish (autoClose : Bool) (g : Growth) : Reading :=
  match g.pending with
  | [] => ⟨g.root, none⟩
  | e :: _ =>
    ⟨g.root, if autoClose then none else some (errorAt e.token .unexpectedEnd "unclosed (")⟩

/-- Grow the tree by the tokens of a text. -/
def grow (autoClose : Bool) : Growth → List Token → Reading
  | g, [] => g.finish autoClose
  | g, t :: ts =>
    match t.kind with
    | .separator | .newline | .comment => grow autoClose g ts
    | .word =>
      match g.addWord? t with
      | .ok g' => grow autoClose g' ts
      | .error e => ⟨g.root, some e⟩
    | .opening =>
      match g.enter? t with
      | .ok g' => grow autoClose g' ts
      | .error e => ⟨g.root, some e⟩
    | .closing =>
      match g.leave? with
      | some g' => grow autoClose g' ts
      -- what was built up to here is kept beside the error
      | none => ⟨g.root, some (errorAt t .unbalanced "unexpected )")⟩
    | .finish => g.finish autoClose
    | .other _ => ⟨g.root, some (errorAt t .unexpectedToken t.text)⟩

end Growth

/-- The error of a text that cannot be cut into tokens. -/
def ScanFailure.toError (f : ScanFailure) : Error :=
  .located .unknown (.unscannable f) "invalid input"

namespace Source

/-- The tree of a source, as far as it can be built. -/
def read (autoClose : Bool) (src : Source) : Reading :=
  match src.scan with
  | ⟨_, some failure⟩ => ⟨Growth.empty.root, some failure.toError⟩
  | ⟨tokens, none⟩ => Growth.grow autoClose .empty tokens

/-- The tree of a source, which must be balanced. -/
def parse (src : Source) : Except Error Node :=
  match src.read false with
  | ⟨_, some e⟩ => .error e
  | ⟨root, none⟩ => .ok root

/-- The only node of a source. -/
def parseStatement (src : Source) : Except Error Node := do
  match (← src.parse).children with
  | [] => .error (.located .start (.because .emptyStatement) "")
  | [n] => .ok n
  | _ :: n :: _ => .error (.located n.pos (.because .unexpectedToken) "more than one statement")

/-- The canonical text of a single statement. -/
def canonicalize (src : Source) : Except Error String := Node.encode <$> src.parseStatement

/-- The canonical texts of the parts of a single expression. -/
def components (src : Source) : Except Error (List String) := do
  let n ← src.parseStatement
  match n with
  | .expression _ _ => .ok n.components
  | _ => .error (.located n.pos (.because .malformed) "not a list")

end Source

end IntLisp
