/-
  IntLisp.Statement
  ─────────────────
  **TOP-LEVEL STATEMENTS, ALSO OF UNBALANCED TEXTS.**

  A text is cut into statements by its parentheses alone.  A closing one that
  closes nothing is a statement of its own, in error.  An expression that is
  never closed is in error too, and it ends before the next opening
  parenthesis that begins a later line and is indented no more than its own,
  so that one mistake does not swallow what follows.
-/
import IntLisp.Text.Blank
import IntLisp.Node.Growth

namespace IntLisp

/-- One statement of a text: how it is written, where, and what is wrong with it. -/
structure Statement where
  text : String
  pos : Position
  error : Option Error
deriving DecidableEq

namespace Statement

/-- The statement that begins with `t` and goes on with `ts`. -/
def ofTokens (t : Token) (ts : List Token) (error : Option Error) : Statement :=
  ⟨Text.trim (Token.spelling (t :: ts)), t.pos, error⟩

/-- The number of tokens up to the one that closes the last of `depth` open
parentheses, if there is one; `before` more are counted. -/
def closedLength? (depth before : Nat) : List Token → Option Nat
  | [] => none
  | t :: ts =>
    match t.kind with
    | .opening => closedLength? (depth + 1) (before + 1) ts
    | .closing =>
      -- the closing parenthesis belongs to what it closes
      if depth ≤ 1 then some (before + 1) else closedLength? (depth - 1) (before + 1) ts
    | _ => closedLength? depth (before + 1) ts

/-- Split the tokens behind an open parenthesis after the one that closes it. -/
def splitClosed (ts : List Token) : Option (List Token × List Token) :=
  (closedLength? 1 0 ts).map fun n => (ts.take n, ts.drop n)

/-- Whether the token `t` can begin a new statement after one that began at
`start` and was never closed; `fresh` says that only separators stand before
it on its line. -/
def resumesAt (start : Position) (fresh : Bool) (t : Token) : Bool :=
  t.kind = .opening && fresh && start.line < t.pos.line && t.pos.col ≤ start.col

/-- Split the tokens behind an unclosed parenthesis at `start` before the one
that begins the next statement. -/
def splitUnclosed (start : Position) : Bool → List Token → List Token × List Token
  | _, [] => ([], [])
  | fresh, t :: ts =>
    if resumesAt start fresh t then ([], t :: ts)
    else
      -- a comment stands on its line like a word, up to the newline behind it
      let fresh' :=
        match t.kind with
        | .separator => fresh
        | .newline => true
        | _ => false
      let rest := splitUnclosed start fresh' ts
      (t :: rest.1, rest.2)

theorem length_splitClosed_le {ts us rest : List Token} (h : splitClosed ts = some (us, rest)) :
    rest.length ≤ ts.length := by
  obtain ⟨n, _, he⟩ := Option.map_eq_some_iff.1 h
  cases he
  simp

theorem length_splitUnclosed_le (start : Position) (fresh : Bool) (ts : List Token) :
    (splitUnclosed start fresh ts).2.length ≤ ts.length := by
  induction ts generalizing fresh with
  | nil => simp [splitUnclosed]
  | cons t ts ih =>
    unfold splitUnclosed
    split
    · simp
    · exact Nat.le_succ_of_le (ih _)

/-- The statements that the tokens of a text make up. -/
def ofTokenList : List Token → List Statement
  | [] => []
  | t :: ts =>
    match t.kind with
    | .word => ofTokens t [] none :: ofTokenList ts
    | .closing =>
      ofTokens t [] (some (Growth.errorAt t .unbalanced "unexpected )")) :: ofTokenList ts
    | .opening =>
      match _h : splitClosed ts with
      | some (us, rest) => ofTokens t us none :: ofTokenList rest
      | none =>
        -- never closed: what looks like the next statement is left to be one
        let parts := splitUnclosed t.pos false ts
        ofTokens t parts.1 (some (Growth.errorAt t .unexpectedEnd "unclosed ("))
          :: ofTokenList parts.2
    | _ => ofTokenList ts
termination_by ts => ts.length
decreasing_by
  · simp
  · simp
  · exact Nat.lt_succ_of_le (length_splitClosed_le _h)
  · exact Nat.lt_succ_of_le (length_splitUnclosed_le _ _ _)
  · simp

/-- The texts of statements, up to the first that is in error. -/
def texts : List Statement → Except Error (List String)
  | [] => .ok []
  | s :: ss =>
    match s.error with
    | some e => .error e
    | none => (s.text :: ·) <$> texts ss

end Statement

namespace Source

/-- The statements of a source; an error if it cannot be cut into tokens. -/
def statements (src : Source) : Except Error (List Statement) :=
  match src.scan with
  | ⟨_, some failure⟩ => .error failure.toError
  | ⟨tokens, none⟩ => .ok (Statement.ofTokenList tokens)

/-- The texts of the statements of a source, all of which must be balanced. -/
def split (src : Source) : Except Error (List String) := do
  Statement.texts (← src.statements)

end Source

namespace Input

/-- The whole of an input, or its failure. -/
def contents (input : Input) : Except Error Source :=
  match input.failure with
  | some reason => .error (.external reason)
  | none => .ok input.source

/-- The statements of an input that is read as a whole first. -/
def statements (input : Input) : Except Error (List Statement) := do
  (← input.contents).statements

end Input

end IntLisp
