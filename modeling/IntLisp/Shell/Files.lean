/-
  IntLisp.Shell.Files
  ───────────────────
  **FILES BY NAME.**

  A folder of text files inside a system of files.  A path is followed part
  by part, from the root if it begins with a slash and from the folder
  otherwise, and the first part that leads nowhere decides what is wrong
  with it.  A path that leads to no file is an input that fails, so reading
  it fails with the reason.
-/
import IntLisp.Source
import IntLisp.Text.Glyph

namespace IntLisp.Shell

/-! ## §1. What paths lead to. -/

/-- A path as it is written, or a part of one. -/
abbrev Path := List Text.Glyph

namespace Path

/-- The path that a text spells. -/
def ofString (s : String) : Path := Text.Glyph.ofString s

/-- The parts of a path between slashes. -/
def parts (path : Path) : List Path := path.splitOn (.char '/')

/-- The length of a path in bytes. -/
def byteSize (path : Path) : Nat := path.foldl (fun size g => size + Text.Glyph.byteSize g) 0

end Path

/-- What a path leads to. -/
inductive Found where
  | file (text : String)
  | directory
  | missing
  /-- The path goes on behind a file. -/
  | notADirectory
  /-- The path, or a part of it, is longer than any can be. -/
  | tooLong
  /-- No path at all. -/
  | invalid
deriving DecidableEq

namespace Found

/-- Why what was found cannot be read as a file. -/
def problem? : Found → Option String
  | file _ => none
  | directory => some "is a directory"
  | missing => some "no such file or directory"
  | notADirectory => some "not a directory"
  | tooLong => some "file name too long"
  | invalid => some "invalid argument"

/-- What fails: a directory can be opened, and then not be read. -/
def failing : Found → String
  | directory => "read"
  | _ => "open"

/-- What reading the file at `path` delivers. -/
def input (path : Path) (found : Found) : Input :=
  match found with
  | file text => Input.ofString text
  | _ =>
    let reason (problem : String) : String :=
      found.failing ++ " " ++ Text.Glyph.toText path ++ ": " ++ problem
    ⟨.empty, found.problem?.map reason⟩

end Found

/-! ## §2. A system of files. -/

/-- The longest path, in bytes. -/
def maxPathBytes : Nat := 4095

/-- The longest part of a path, in bytes. -/
def maxPartBytes : Nat := 255

/-- The files and directories of a system, each by the parts of its path from
the root; a directory has no text. -/
structure Files where
  entries : List (List Path × Option String)

namespace Files

/-- The place of a path that is spelled from the root. -/
def place (path : String) : List Path := Path.parts (Path.ofString path)

/-- Where the folder stands.  Its own name is not known, so it is one that no
path can spell. -/
def folder : List Path := place "tmp" ++ [[]]

/-- What every system has. -/
def common : List (List Path × Option String) :=
  (["etc", "home", "opt", "proc", "root", "sys", "tmp", "var"].map fun dir => (place dir, none))
    ++ [(place "dev/null", some ""), (place "usr/share/zoneinfo/UTC", some "")]

/-- A system with a folder that holds files at the given paths. -/
def ofList (files : List (String × String)) : Files :=
  ⟨(files.map fun (path, text) => (folder ++ place path, some text)) ++ (folder, none) :: common⟩

/-- Whether there is a directory at a place: something lies there or inside. -/
def hasDirectory (files : Files) (dir : List Path) : Bool :=
  files.entries.any fun (place, _) => dir.isPrefixOf place

/-- What the parts of a path lead to from the directory `dir`.  Nothing lies
above the root but the root itself. -/
def locateFrom (files : Files) : List Path → List Path → Found
  | _, [] => .directory
  | dir, part :: rest =>
    if part = [] || part = Path.ofString "." then locateFrom files dir rest
    else if part = Path.ofString ".." then locateFrom files dir.dropLast rest
    else if maxPartBytes < part.byteSize then .tooLong
    else
      let here := dir ++ [part]
      match files.entries.lookup here with
      | some (some text) => if rest.isEmpty then .file text else .notADirectory
      | _ => if files.hasDirectory here then locateFrom files here rest else .missing

/-- What a path leads to. -/
def locate (files : Files) (path : Path) : Found :=
  if path.contains (.char '\x00') then .invalid
  else if path.isEmpty then .missing
  else if maxPathBytes < path.byteSize then .tooLong
  else files.locateFrom (if path.head? = some (.char '/') then [] else folder) path.parts

/-- What reading the file at `path` delivers. -/
def input (files : Files) (path : Path) : Input := (files.locate path).input path

end Files

end IntLisp.Shell
