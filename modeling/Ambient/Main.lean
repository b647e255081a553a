import Ambient.Cli.Session
import Ambient.Command.Shell

/-!
# The command line

The files below the current folder, and those that the options name elsewhere, are read into a
disk; the session works on that disk, and what has changed on it is written back.
-/

namespace Ambient.Main

open Ambient.Files

/-- The absolute path of a place. -/
def pathOf (place : Location) : String := "/" ++ Path.ofNames place

/-- The place of an absolute path. -/
def placeOf (path : String) : Location := (Path.names path).filter fun n => !n.isEmpty

/-- The files and folders below a folder. -/
partial def load (place : Location) (entries : Array IO.FS.DirEntry) : IO (List (Location × Node)) := do
  let mut found := []
  for entry in entries do
    let here := place ++ [entry.fileName]
    if ← entry.path.isDir then
      found := found ++ [(here, .folder)] ++ (← load here (← entry.path.readDir))
    else
      found := found ++ [(here, .file (← IO.FS.readBinFile entry.path).toList)]
  return found

/-- The folders on the way to a place, itself included, each with nothing else in it. -/
def foldersTo (place : Location) : List (Location × Node) :=
  (List.range place.length).map fun n => (place.take (n + 1), .folder)

/-- What stands at a place and below it, with the folders on the way there. -/
def loadPlace (place : Location) : IO (List (Location × Node)) := do
  let path ← IO.FS.realPath (pathOf place)
  if ← path.isDir then return foldersTo place ++ (← load place (← path.readDir))
  else if ← path.pathExists then
    return foldersTo place.dropLast ++ [(place, .file (← IO.FS.readBinFile path).toList)]
  else return []

/-- Places without those that stand below another one of them. -/
def outermost (places : List Location) : List Location :=
  places.eraseDups.filter fun p => !places.any fun q => (Disk.belowLocation? q p).isSome

/-- Writes what stands on a disk now and did not before. -/
def store (before after : Disk) : IO Unit := do
  for (place, node) in after.nodes do
    if before.node? place ≠ some node then
      match node with
      | .folder => IO.FS.createDirAll (pathOf place)
      | .file bytes => IO.FS.writeBinFile (pathOf place) ⟨bytes.toArray⟩

/-- Runs the options that have been given. -/
def session (o : Cli.Options) : IO UInt32 := do
  let here := (← IO.currentDir).toString
  let path ← IO.getEnv Settings.pathVariable
  let strict ← IO.getEnv Settings.strictVariable
  let env : Settings.Environment := fun name =>
    if name = Settings.pathVariable then path
    else if name = Settings.strictVariable then strict else none
  let named := [o.source, Settings.configPath? env o.config].filterMap id
  let places := outermost (placeOf here :: named.map fun p => placeOf (Path.absolute here p))
  let nodes ← places.mapM loadPlace
  let disk : Disk := ⟨nodes.flatten, placeOf here⟩
  let moment ← IO.monoNanosNow
  let name := "run-" ++ toString moment
  match Cli.run Command.standardPrograms env o name (toString moment) disk with
  | (.error why, after) => do
    store disk after
    IO.eprintln why.message
    return 1
  | (.ok outcome, after) => do
    store disk after
    IO.println ("Run report written: " ++ outcome.path)
    return UInt32.ofNat outcome.status

end Ambient.Main

/-- Runs a command line. -/
def main (args : List String) : IO UInt32 := do
  match Ambient.Cli.Options.read args with
  | .error stop => do
    if stop = .misuse then IO.eprintln "usage: ambient --source PATH [options]"
    else IO.println "usage: ambient --source PATH [options]"
    return UInt32.ofNat stop.status
  | .ok o => Ambient.Main.session o
