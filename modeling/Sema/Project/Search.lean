import Sema.Project.Config
import Sema.Project.FileSystem

/-!
# Finding the configuration of a project

`Config.load` and `Config.save` read and write one file. `Config.findFrom` looks for the file in a
directory and then in its parents, as the text of the path names them, and takes the first one it
meets: a broken file ends the search with its error, and no file further up replaces it.
-/

namespace Sema

/-- Why a configuration cannot be had. -/
inductive ConfigError where
  | malformed
  | unreadable (path : Path)
  | unwritable (path : Path)
  | notFound (start : Path)
  | noCurrentDirectory
  /-- A value has more marks in a row than can be tallied, so that there is no text to write. This
      error stands for an abort: the tally is a byte, and a build that checks its additions stops
      where it overflows. A build that does not would go on with a wrapped tally, which is not
      modelled. -/
  | tallyOverflow
deriving DecidableEq

/-- The wording of an error. -/
def ConfigError.message : ConfigError → String
  | malformed => "Failed to parse " ++ Config.fileName
  | unreadable path => "Failed to read " ++ path.text
  | unwritable path => "Failed to write " ++ path.text
  | notFound start =>
      "Could not find " ++ Config.fileName ++ " in " ++ start.text ++ " or any parent directory"
  | noCurrentDirectory => "Failed to get current directory"
  | tallyOverflow => "attempt to add with overflow"

/-- A configuration and the directory that holds its file. -/
structure Found where
  config : Config
  directory : Path
deriving DecidableEq

namespace Config

/-- The configuration in a text. -/
def ofText (text : String) : Except ConfigError Config :=
  match ofToml? text with
  | some c => .ok c
  | none => .error .malformed

/-- The configuration in the file at a path. -/
def load (files : FileView) (path : Path) : Except ConfigError Config :=
  match files.readText? path with
  | some text => ofText text
  | none => .error (.unreadable path)

/-- Writes a configuration to the file at a path. Without a text to write the path is not looked at:
    where the error is `tallyOverflow`, there is no return at all in a build that checks its
    additions, and the file system is as it was. -/
def save (c : Config) (fs : FileSystem) (path : Path) : Except ConfigError FileSystem :=
  match c.toToml? with
  | none => .error .tallyOverflow
  | some text =>
      match fs.writeFile path text.toUTF8 with
      | .ok fs => .ok fs
      | .error _ => .error (.unwritable path)

/-- The configuration in the first of several directories that holds the file. -/
def findIn (files : FileView) (start : Path) : List Path → Except ConfigError Found
  | [] => .error (.notFound start)
  | directory :: rest =>
      let path := directory.child fileName
      if files.isPresent path then do
        return ⟨← load files path, directory⟩
      else findIn files start rest

/-- The configuration in a directory or in the nearest of its parents. -/
def findFrom (files : FileView) (start : Path) : Except ConfigError Found :=
  findIn files start start.upward

/-- The configuration in the current directory or in the nearest of its parents. -/
def find (fs : FileSystem) : Except ConfigError Found :=
  match fs.currentPath? with
  | some path => findFrom fs path
  | none => .error .noCurrentDirectory

end Config

end Sema
