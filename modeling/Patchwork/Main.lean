import Patchwork.Settings

/-!
# Command line

`stitch-gateway [CONFIG]` sets up a gateway from a settings file and reports what it serves.
Without an argument the path of the file is taken from the environment.
-/

open Patchwork

/-- The variable that names the settings file. -/
def configVariable : String := "STITCH_GATEWAY_CONFIG"

/-- Prints a failure below what it kept from happening. -/
def reportFailure (context : String) (e : Failure) : IO UInt32 := do
  IO.eprintln ("Error: " ++ context ++ "\n\nCaused by:\n    " ++ e.display)
  return 1

/-- The bytes of a file, if it can be read. -/
def readFile? (path : String) : IO (Option (List UInt8)) := do
  try
    return some (← IO.FS.readBinFile path).toList
  catch _ => return none

/-- The contents of those of the files that can be read. -/
def readFiles (paths : List String) : IO Files := do
  let mut found : List (String × List UInt8) := []
  for path in paths do
    if let some bytes ← readFile? path then found := (path, bytes) :: found
  let contents := found
  return fun path => contents.lookup path

def runGateway (path : String) : IO UInt32 := do
  match Settings.load (← readFiles [path]) path with
  | .error e => reportFailure ("failed to load config from " ++ path) e
  | .ok settings =>
    let files ← readFiles (settings.descriptorSets.map settings.resolve)
    match settings.descriptors files with
    | .error e => reportFailure "failed to load descriptor sets" e
    | .ok pool => match settings.gateway pool with
      | .error e => reportFailure "invalid gateway configuration" e
      | .ok gateway =>
        IO.println ("Gateway for " ++ settings.listen)
        for e in gateway.entryPoints do IO.println ("  method " ++ e.name)
        for r in gateway.relations do IO.println ("  relation " ++ r.base.name ++ "." ++ r.name)
        return 0

def main (args : List String) : IO UInt32 := do
  let path? ← match args with
    | path :: _ => pure (some path)
    | [] => IO.getEnv configVariable
  match path? with
  | some path => runGateway path
  | none =>
    IO.eprintln ("Error: usage: stitch-gateway <config.json> (or set " ++ configVariable ++ ")")
    return 1
