import Patchwork.Settings

/-!
# Directories in memory

Files held in memory, by their full paths. A path may make detours, through directories that there
are: `/a/b/../c` is the file `/a/c` if something lies in `/a/b`.
-/

namespace Patchwork.Directory

/-- The path of the parts, which are given last first. -/
def join (parts : List String) : String := String.join (parts.reverse.map ("/" ++ ·))

/-- Whether something lies in a directory. -/
def isDirectory (paths : List String) (parts : List String) : Bool :=
  paths.any fun p => p.startsWith (join parts ++ "/")

/-- Follows one part of a path from what was reached so far. -/
def follow? (paths : List String) (reached : List String) (part : String) : Option (List String) :=
  if part = "" ∨ part = "." then if isDirectory paths reached then some reached else none
  else if part = ".." then if isDirectory paths reached then some (reached.drop 1) else none
  else some (part :: reached)

/-- A path without detours. -/
def straighten? (paths : List String) (path : String) : Option String :=
  ((path.splitOn "/").foldlM (follow? paths) []).map join

def files (table : List (String × List UInt8)) : Files := fun path =>
  match straighten? (table.map (·.1)) path with
  | some path => table.lookup path
  | none => none

end Patchwork.Directory
