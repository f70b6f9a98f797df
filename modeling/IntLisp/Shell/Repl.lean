/-
  IntLisp.Shell.Repl
  ──────────────────
  **STATEMENTS AND COMMANDS, AS THEY ARE TYPED.**

  What is typed is a command if it begins with a colon, and otherwise a text
  that is run, with the value of each statement shown after all of them were
  evaluated.  Lines are put together until their parentheses are closed.
-/
import IntLisp.Eval.Run
import IntLisp.Node.Dump
import IntLisp.Shell.Files
import IntLisp.Shell.History
import IntLisp.Shell.Typed

namespace IntLisp

/-! ## §1. Is the text complete? -/

/-- Whether the text begins with a colon, white space aside. -/
def Source.isCommand (src : Source) : Bool :=
  !src.marked && (Text.trimStart src.chars).head? = some ':'

/-- Whether more lines can complete the text: a parenthesis is still open. -/
def Source.isIncomplete (src : Source) : Bool :=
  !src.isCommand &&
    match src.split with
    | .ok _ => false
    | .error e => e.isBecause .unexpectedEnd

namespace Shell

/-! ## §2. Running a text. -/

/-- Write a text to the output. -/
def write (text : String) : Eval Unit := Eval.modify (·.write text)

/-- Tell the user something. -/
def remark (text : String) : Eval Unit := Eval.modify (·.record (.remark text))

/-- How the value of a statement is shown, if it has one. -/
def valueLine (r : StatementResult) : Option String :=
  match r.outcome with
  | .ok v => some ("=> " ++ v.text ++ "\n")
  | .error _ => none

/-- Run a text, show its values if `verbose`, and tell whether all went well. -/
def showRun (verbose : Bool) (act : Eval (List StatementResult)) : Eval Bool := do
  match ← act.attempt with
  | .error _ => return false
  | .ok results =>
    if verbose then write (String.join (results.filterMap valueLine))
    return results.all (!·.isFailure)

/-! ## §3. Commands. -/

/-- What the user can ask for. -/
inductive Command where
  | quit
  | help
  | functions
  | load (path : Path)
  | tree (src : Source)
  | debug
  | reset
  | unknown (name : String)
deriving DecidableEq

/-- The lower case of a letter that is, in lower case, an ASCII one. -/
def lowerChar (c : Char) : Char :=
  if c = '\u0130' then 'i' else if c = '\u212A' then 'k' else c.toLower

/-- Split a line at the first space or tab, unless it begins with one. -/
def splitCommand (line : List Text.Glyph) : List Text.Glyph × List Text.Glyph :=
  let isGap (g : Text.Glyph) : Bool := g = .char ' ' || g = .char '\t'
  let name := line.takeWhile (!isGap ·)
  if name.isEmpty then (line, [])
  else (name, Text.Glyph.trim ((line.dropWhile (!isGap ·)).drop 1))

/-- The command that a line asks for. -/
def Command.ofLine (line : List Text.Glyph) : Command :=
  let (name, arg) := splitCommand line
  match String.ofList (name.map (lowerChar ·.shown)) with
  | ":quit" | ":exit" => quit
  | ":help" => help
  | ":funcs" => functions
  | ":load" => load arg
  | ":ast" => tree (.ofGlyphs arg)
  | ":debug" => debug
  | ":reset" => reset
  | _ => unknown (Text.Glyph.toText name)

/-- What `:help` says. -/
def helpText : String :=
  "REPL commands:\n"
    ++ "  :help           Show this help\n"
    ++ "  :quit, :exit    Exit the REPL\n"
    ++ "  :load <file>    Run the statements of a file\n"
    ++ "  :funcs          List the registered functions\n"
    ++ "  :ast <stmt>     Print the tree of a statement\n"
    ++ "  :debug          Toggle call tracing\n"
    ++ "  :reset          Discard all user definitions\n"

/-- A new context in place of the old one, which has written what it has. -/
def renew (o : Options) (ctx : Context) : Context :=
  { Context.new.setOptions o with printed := ctx.printed, log := ctx.log }

/-- Do what a command asks for; the options after it. -/
def Command.perform (files : Path → Input) (o : Options) : Command → Eval Options
  | quit => return o
  | help => do
    write helpText
    return o
  | functions => do
    let names ← Eval.view (·.registry.symbols)
    write (" ".intercalate names ++ "\n")
    return o
  | load path => do
    if path.isEmpty then remark "usage: :load <file>\n"
    else
      let _ ← showRun true (files path).run
    return o
  | tree src => do
    match src.parse with
    | .ok root => write root.dump
    | .error e => remark (e.message ++ "\n")
    return o
  | debug => do
    let o' := { o with debug := !o.debug }
    Eval.modify (·.setOptions o')
    write ("debug: " ++ (if o'.debug then "true" else "false") ++ "\n")
    return o'
  | reset => do
    Eval.modify (renew o)
    return o
  | unknown name => do
    remark ("unknown command " ++ name ++ ", type :help for a list of commands\n")
    return o

/-! ## §4. The prompt. -/

/-- What is shown before the first prompt. -/
def banner : String :=
  "Ctrl+C cancels input, Ctrl+D exits. Type :help for a list of commands.\n"

/-- A dialogue: the lines that are not complete yet, the options of the context
and what was typed before. -/
structure Dialogue where
  pending : List Text.Glyph
  options : Options
  history : History

namespace Dialogue

/-- What asks for the next line. -/
def prompt (d : Dialogue) : String := if d.pending.isEmpty then "lisp> " else "  ... "

/-- The text typed so far, with a further line. -/
def extend (d : Dialogue) (line : List Text.Glyph) : List Text.Glyph :=
  if d.pending.isEmpty then line else d.pending ++ .char '\n' :: line

/-- How a text is kept in the history: on one line. -/
def flatten (text : List Text.Glyph) : List Text.Glyph :=
  text.map fun g => if g = .char '\n' then .char ' ' else g

/-- Take a line, and tell whether the dialogue goes on. -/
def feed (files : Path → Input) (d : Dialogue) (line : List Text.Glyph) :
    Eval (Dialogue × Bool) := do
  let text := d.extend line
  if (Source.ofGlyphs text).isIncomplete then return ({ d with pending := text }, true)
  let code := Text.Glyph.trim text
  if code.isEmpty then return ({ d with pending := [] }, true)
  let d := { d with pending := [], history := d.history.add (flatten code) }
  if code.head? = some (.char ':') then
    let command := Command.ofLine code
    let o ← command.perform files d.options
    return ({ d with options := o }, command ≠ .quit)
  else
    let _ ← showRun true (Source.ofGlyphs code).run
    return (d, true)

/-- Ask for lines until the user quits or there are no more; what was typed in all. -/
def loop (files : Path → Input) (d : Dialogue) : List (List Text.Glyph) → Eval History
  | [] => do
    write d.prompt
    write "\n"
    return d.history
  | line :: lines => do
    write d.prompt
    let (d', goesOn) ← d.feed files line
    if goesOn then loop files d' lines else return d'.history

end Dialogue

end Shell

end IntLisp
