/-
  IntLisp.Shell.Flags
  ───────────────────
  **THE COMMAND LINE.**

  Flags come before the names of files and begin with one dash or two.  A
  switch is set by its name alone, or to a truth value after an equals sign;
  any other flag takes its value after an equals sign or from the next
  argument.  Two dashes alone, or the first argument that is no flag, end
  the flags.
-/
import IntLisp.Context
import IntLisp.Text.Literal

namespace IntLisp.Shell

/-- What the flags can set. -/
structure Config where
  /-- Statements to evaluate instead of files; none if empty. -/
  expr : String
  debug : Bool
  maxDepth : Int
  timeZone : String
  verbose : Bool
deriving DecidableEq

namespace Config

/-- What holds without any flag. -/
def default : Config := ⟨"", false, Options.defaultDepth, "", false⟩

/-- The options of the context that the command works in. -/
def options (c : Config) : Options := ⟨c.maxDepth, c.debug, .working⟩

end Config

/-- The flags. -/
inductive Flag where
  | debug
  | expr
  | maxDepth
  | timeZone
  | verbose
deriving DecidableEq

/-- Why the arguments cannot be used. -/
inductive FlagError where
  /-- The user asks how the command is used. -/
  | help
  | badFlag (argument : String)
  | undefined (name : String)
  | noArgument (name : String)
  | badValue (name value : String) (fault : Text.LiteralFault)
  | badSwitch (name value : String)
deriving DecidableEq

/-! ## §1. Wording. -/

/-- The name that the command goes by. -/
def appName : String := "lisp"

/-- How the command is used. -/
def usage : String :=
  "Usage:\n  " ++ appName ++ " [flags] [file ...]\n\n"
    ++ "Runs each file in order. Without files, reads statements from standard input,\n"
    ++ "or starts an interactive session when standard input is a terminal.\n\n"
    ++ "Flags:\n"
    ++ "  -debug\n    \ttrace every call to stderr\n"
    ++ "  -e string\n    \tevaluate the given statements instead of reading files\n"
    ++ "  -max-depth int\n    \tmaximum number of nested frames, negative for no limit (default "
    ++ Text.decimal Options.defaultDepth ++ ")\n"
    ++ "  -tz string\n    \ttime zone used for log timestamps\n"
    ++ "  -v\tprint the value of every statement\n"

/-- The wording of a fault in a number. -/
def faultMessage : Text.LiteralFault → String
  | .malformed => "parse error"
  | .outOfRange => "value out of range"

/-- What is said about arguments that cannot be used: what is wrong, if
anything, and the usage. -/
def FlagError.message : FlagError → String
  | help => usage
  | badFlag argument => "bad flag syntax: " ++ argument ++ "\n" ++ usage
  | undefined name => "flag provided but not defined: -" ++ name ++ "\n" ++ usage
  | noArgument name => "flag needs an argument: -" ++ name ++ "\n" ++ usage
  | badValue name value fault =>
    "invalid value " ++ Text.quote value ++ " for flag -" ++ name ++ ": " ++ faultMessage fault
      ++ "\n" ++ usage
  | badSwitch name value =>
    "invalid boolean value " ++ Text.quote value ++ " for -" ++ name ++ ": parse error\n" ++ usage

/-! ## §2. Reading. -/

namespace Flag

/-- The flag with a name. -/
def ofName? : String → Option Flag
  | "debug" => some debug
  | "e" => some expr
  | "max-depth" => some maxDepth
  | "tz" => some timeZone
  | "v" => some verbose
  | _ => none

/-- Whether the flag needs no value. -/
def isSwitch : Flag → Bool
  | debug | verbose => true
  | _ => false

/-- The truth value that a text denotes. -/
def truth? (value : String) : Option Bool :=
  if value ∈ ["1", "t", "T", "TRUE", "true", "True"] then some true
  else if value ∈ ["0", "f", "F", "FALSE", "false", "False"] then some false
  else none

/-- Set a flag, given under `name`, to a value. -/
def set (flag : Flag) (name value : String) (c : Config) : Except FlagError Config :=
  match flag with
  | expr => .ok { c with expr := value }
  | timeZone => .ok { c with timeZone := value }
  | maxDepth =>
    match Text.readLiteral value with
    | .ok n => .ok { c with maxDepth := n }
    | .error fault => .error (.badValue name value fault)
  | debug =>
    match truth? value with
    | some b => .ok { c with debug := b }
    | none => .error (.badSwitch name value)
  | verbose =>
    match truth? value with
    | some b => .ok { c with verbose := b }
    | none => .error (.badSwitch name value)

end Flag

/-- An argument, seen as a flag. -/
inductive Argument where
  /-- Not a flag: it and all arguments after it are names of files. -/
  | file
  /-- Two dashes alone: all arguments after it are names of files. -/
  | flagsEnd
  | malformed
  | flag (name : String) (value : Option String)
deriving DecidableEq

/-- Split the text of a flag at the first equals sign that does not begin it. -/
def splitValue (cs : List Char) : String × Option String :=
  match cs.tail.dropWhile (· ≠ '=') with
  | [] => (String.ofList cs, none)
  | _ :: value =>
    (String.ofList (cs.take 1 ++ cs.tail.takeWhile (· ≠ '=')), some (String.ofList value))

/-- The argument that a text is. -/
def Argument.ofString (s : String) : Argument :=
  match s.toList with
  | '-' :: '-' :: cs => if cs.isEmpty then flagsEnd else named cs
  | '-' :: c :: cs => named (c :: cs)
  | _ => file
where
  /-- The flag whose name, and maybe value, is `cs`. -/
  named (cs : List Char) : Argument :=
    if cs.head? = some '-' || cs.head? = some '=' then malformed
    else
      let (name, value) := splitValue cs
      flag name value

/-- Read the flags at the beginning of the arguments; the rest are names of files. -/
def readFlags (c : Config) : List String → Except FlagError (Config × List String)
  | [] => .ok (c, [])
  | arg :: args =>
    match Argument.ofString arg with
    | .file => .ok (c, arg :: args)
    | .flagsEnd => .ok (c, args)
    | .malformed => .error (.badFlag arg)
    | .flag name value =>
      match Flag.ofName? name with
      | none => .error (if name = "help" || name = "h" then .help else .undefined name)
      | some flag =>
        match value with
        | some v => do readFlags (← flag.set name v c) args
        | none =>
          if flag.isSwitch then do readFlags (← flag.set name "true" c) args
          else
            match args with
            | [] => .error (.noArgument name)
            | v :: args => do readFlags (← flag.set name v c) args

end IntLisp.Shell
