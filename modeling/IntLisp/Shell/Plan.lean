/-
  IntLisp.Shell.Plan
  ──────────────────
  **THE COMMAND AS A WHOLE.**

  The arguments decide what is done: statements given with a flag are run,
  or files, or else what is typed at a terminal, or else the standard input.
  All texts are run in one context, each whatever became of those before it,
  and the status tells whether all of them went well.
-/
import IntLisp.Shell.Flags
import IntLisp.Shell.Repl

namespace IntLisp.Shell

/-! ## §1. What the arguments ask for. -/

/-- The folders that may hold the time zones, in the order they are searched. -/
def zoneFolders : List String :=
  ["/usr/share/zoneinfo/", "/usr/share/lib/zoneinfo/", "/usr/lib/locale/TZ/", "/etc/zoneinfo/"]

/-- What the name of a time zone leads to: the first folder where it is not
missing decides. -/
def locateZone (name : String) : Found :=
  let found := zoneFolders.map fun folder =>
    (Files.ofList []).locate (.ofString (folder ++ "/" ++ name))
  (found.find? (· ≠ .missing)).getD .missing

/-- Whether two dots stand next to each other. -/
def hasParent : List Char → Bool
  | '.' :: '.' :: _ => true
  | _ :: cs => hasParent cs
  | [] => false

/-- What is wrong with the name of a time zone.  Logs are written without
times, so no zone but the default ones is known. -/
def zoneProblem? (name : String) : Option String :=
  if name = "" || name = "UTC" || name = "Local" then none
  else if hasParent name.toList || name.toList.head? ∈ [some '/', some '\\'] then
    some "time: invalid location name"
  else
    match locateZone name with
    | .missing => some ("unknown time zone " ++ name)
    | found => found.problem?

/-- What the arguments ask for. -/
inductive Plan where
  /-- Say something and end with a status. -/
  | stop (status : Nat) (text : String)
  /-- Run the statements of a text. -/
  | evaluate (config : Config) (text : String)
  /-- Run the statements of files. -/
  | runFiles (config : Config) (paths : List String)
  /-- Run what comes in, from a terminal in a dialogue. -/
  | interact (config : Config)
deriving DecidableEq

/-- The plan that the arguments ask for. -/
def Plan.ofArgs (args : List String) : Plan :=
  match readFlags .default args with
  | .error .help => stop 0 FlagError.help.message
  | .error e => stop 2 e.message
  | .ok (config, paths) =>
    match zoneProblem? config.timeZone with
    | some problem =>
      stop 2
        (appName ++ ": invalid time zone " ++ Text.quote config.timeZone ++ ": " ++ problem ++ "\n")
    | none =>
      if config.expr ≠ "" then
        if paths.isEmpty then evaluate config config.expr
        else stop 2 (appName ++ ": -e can't be combined with file arguments\n")
      else if paths.isEmpty then interact config
      else runFiles config paths

/-! ## §2. Carrying it out. -/

/-- Run texts in order; whether all went well. -/
def runInputs (verbose : Bool) : List Input → Eval Bool
  | [] => return true
  | input :: inputs => do
    let first ← showRun verbose input.run
    let others ← runInputs verbose inputs
    return first && others

/-- The status that tells whether all went well. -/
def statusOf (ok : Bool) : Nat := if ok then 0 else 1

/-- What the command is given. -/
structure Surroundings where
  /-- Whether a user types at the standard input. -/
  terminal : Bool
  stdin : Input
  files : Path → Input
  /-- The stored history, if there is one. -/
  history : Option String

/-- Carry out a plan; the status, and the history to be stored. -/
def Plan.perform (s : Surroundings) : Plan → Eval (Nat × Option String)
  | stop status text => do
    remark text
    return (status, s.history)
  | evaluate config text => do
    let ok ← runInputs config.verbose [Input.ofString text]
    return (statusOf ok, s.history)
  | runFiles config paths => do
    let ok ← runInputs config.verbose (paths.map fun path => s.files (.ofString path))
    return (statusOf ok, s.history)
  | interact config => do
    if s.terminal then
      write banner
      let history := ((s.history.map History.parse).getD ⟨[]⟩)
      let typed := typedPieces s.stdin.bytes
      let history ← Dialogue.loop s.files ⟨[], config.options, history⟩ typed
      return (0, some history.render)
    else
      let ok ← runInputs config.verbose [s.stdin]
      return (statusOf ok, s.history)

/-- The context that a plan is carried out in. -/
def Plan.context : Plan → Context
  | stop _ _ => .new
  | evaluate config _ | runFiles config _ | interact config =>
    Context.new.setOptions config.options

/-- All that comes of the command. -/
structure Report where
  status : Nat
  stdout : String
  stderr : String
  history : Option String
deriving DecidableEq

/-- The wording of a halt. -/
def haltMessage : Halt → String
  | .noRoom => "no room for another frame"
  | .misuse => "a native function was given what it is not made for"

/-- All that was logged, line by line. -/
def logText (ctx : Context) : String := String.join (ctx.log.toList.map Entry.line)

/-- Carry out the command with the given arguments. -/
def run (s : Surroundings) (args : List String) : Report :=
  let plan := Plan.ofArgs args
  match (plan.perform s).run plan.context with
  | .done (status, history) ctx => ⟨status, ctx.printed, logText ctx, history⟩
  | .failed e ctx => ⟨2, ctx.printed, logText ctx ++ e.message ++ "\n", s.history⟩
  | .halted why ctx => ⟨2, ctx.printed, logText ctx ++ haltMessage why ++ "\n", s.history⟩

end IntLisp.Shell
