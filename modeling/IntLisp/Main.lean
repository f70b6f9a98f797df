/-
  IntLisp.Main
  ────────────
  **THE PROGRAM.**

  Reads and writes; all that is decided is decided by the plan of the
  arguments and, at a terminal, by the dialogue.
-/
import IntLisp.Shell.Plan

namespace IntLisp.Shell

/-- What reading the file at `path` delivers.  An error that names the file
comes from opening it; a directory can be opened and not be read. -/
def readPath (path : Path) : IO Input := do
  try
    return ⟨← IO.FS.readBinFile (Text.Glyph.toText path), none⟩
  catch e =>
    let found : Found :=
      match e with
      | .noFileOrDirectory .. => .missing
      | .inappropriateType (some _) .. => .notADirectory
      | .inappropriateType none .. => .directory
      | .invalidArgument .. => if path.contains (.char '\x00') then .invalid else .tooLong
      | _ => .missing
    return found.input path

/-- The file that a line asks for, if it asks for one. -/
def wantedPath (d : Dialogue) (line : List Text.Glyph) : Option Path :=
  match Command.ofLine (Text.Glyph.trim (d.extend line)) with
  | .load path => some path
  | _ => none

/-- Write what is new in a context, and forget it. -/
def deliver (ctx : Context) : IO Context := do
  (← IO.getStdout).putStr ctx.printed
  (← IO.getStdout).flush
  (← IO.getStderr).putStr (logText ctx)
  return ctx.forget

/-- Take what a user types until there is no more; `waiting` was typed already. -/
partial def converse (d : Dialogue) (waiting : List (List Text.Glyph)) (ctx : Context) :
    IO (History × UInt32) := do
  let ctx ← deliver (ctx.write d.prompt)
  let pieces ←
    match waiting with
    | [] => pure (typedPieces (← (← IO.getStdin).getLine).toUTF8)
    | pieces => pure pieces
  let piece :: waiting := pieces
    | do
      let _ ← deliver (ctx.write "\n")
      return (d.history, 0)
  let input ← (wantedPath d piece).mapM readPath
  match (d.feed (fun _ => input.getD ⟨.empty, none⟩) piece).run ctx with
  | .done (d', goesOn) ctx' =>
    let ctx' ← deliver ctx'
    if goesOn then converse d' waiting ctx' else return (d'.history, 0)
  | .failed e ctx' =>
    let _ ← deliver (ctx'.record (.unreadable e))
    return (d.history, 2)
  | .halted why ctx' =>
    let _ ← deliver (ctx'.record (.remark (haltMessage why ++ "\n")))
    return (d.history, 2)

/-- Where the history of dialogues is stored. -/
def historyPath : IO String := do
  return ((← IO.getEnv "HOME").getD ".") ++ "/.lisp_history"

/-- Carry out a dialogue at the terminal. -/
def interactively (config : Config) : IO UInt32 := do
  let path ← historyPath
  let stored ← try IO.FS.readFile path catch _ => pure ""
  let d : Dialogue := ⟨[], config.options, History.parse stored⟩
  let (history, status) ← converse d [] ((Plan.interact config).context.write banner)
  try IO.FS.writeFile path history.render catch _ => pure ()
  return status

/-- Carry out the command without a terminal. -/
def plainly (plan : Plan) (args : List String) : IO UInt32 := do
  let paths :=
    match plan with
    | .runFiles _ paths => paths
    | _ => []
  let inputs ← paths.mapM fun path => return (Path.ofString path, ← readPath (.ofString path))
  let stdin ←
    match plan with
    | .interact _ => (← IO.getStdin).readBinToEnd
    | _ => pure ByteArray.empty
  let files (path : Path) : Input := (inputs.lookup path).getD ⟨.empty, none⟩
  let report := run ⟨false, ⟨stdin, none⟩, files, none⟩ args
  (← IO.getStdout).putStr report.stdout
  (← IO.getStderr).putStr report.stderr
  return UInt32.ofNat report.status

end IntLisp.Shell

open IntLisp.Shell in
/-- The program: the arguments decide what is done. -/
def main (args : List String) : IO UInt32 := do
  let plan := Plan.ofArgs args
  match plan with
  | .interact config =>
    if ← (← IO.getStdin).isTty then interactively config else plainly plan args
  | _ => plainly plan args
