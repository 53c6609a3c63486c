import SitePublish.Command.Run

/-!
# The program

Runs a command line in the working directory and sees only the files below it, without those of
tools. Files that the command has made or changed are written when it has ended. The program has no
way to the services outside: every request to them stays unanswered.
-/

set_option autoImplicit false

namespace SitePublish.Main

partial def readEntry (key : List String) (e : IO.FS.DirEntry) :
    IO (List (List String × FileEntry)) := do
  let key := key ++ [e.fileName]
  if ← e.path.isDir then
    if Project.toolDirs.contains e.fileName then return [(key, .dir)]
    let below ← (← e.path.readDir).toList.mapM (readEntry key)
    return (key, .dir) :: below.flatten
  else
    match ← (IO.FS.readBinFile e.path).toBaseIO with
    | .ok bytes => return [(key, .file bytes.toList)]
    | .error _ => return []

def readFiles : IO FileTree := do
  let root ← IO.currentDir
  let entries ← (← root.readDir).toList.mapM (readEntry [])
  return ⟨root.toString, Dict.ofList entries.flatten⟩

def writeFiles (before after : FileTree) : IO Unit :=
  after.entries.forM fun e => do
    if before.entries.get? e.1 ≠ some e.2 then
      let path := FileTree.join after.root (Text.joinWith '/' e.1)
      match e.2 with
      | .dir => IO.FS.createDirAll path
      | .file bytes => IO.FS.writeBinFile path ⟨bytes.toArray⟩

def readVariables (names : List String) : IO Environment := do
  let found ← names.filterMapM fun name => do
    return (← IO.getEnv name).map fun value => (name, value)
  return Dict.ofList found

def readEnvironment (i : Invocation) (files : FileTree) : IO Environment := do
  let env ← readVariables Environment.names
  match i.loadConfig env files with
  | .error _ => return env
  | .ok (c, _) =>
    let tokens ← readVariables [c.sourceControl.tokenEnv, c.hosting.tokenEnv]
    return Dict.insertAll env tokens

def unanswered : Http.Exchange Unit := fun _ s => (none, s)

def detail : String := "malformed"

def report (i : Invocation) (f : Finished Unit) : IO UInt32 := do
  let out ← IO.getStdout
  f.warnings.forM fun w => IO.eprintln w.message
  if i.events then f.events.forM fun e => IO.eprintln e.toJson.compact
  match f.result with
  | .ok output =>
    if i.json then out.putStrLn output.envelope.compact
    else out.putStr (output.text (i.verbosity ≠ 0))
    return 0
  | .error e =>
    if i.json then out.putStrLn (e.envelope detail).compact
    else IO.eprint (e.text detail)
    return 1

def usage : String := "usage: siteforge [--json] [-v] [--config FILE] [--project-dir DIR] " ++
  "preview|deploy|republish|bootstrap|versions|classify ..."

def refuse : UsageError → IO UInt32
  | .help | .version => do
    IO.println usage
    return 0
  | _ => do
    IO.eprintln usage
    return 2

end SitePublish.Main

open SitePublish SitePublish.Main in
def main (args : List String) : IO UInt32 := do
  match Invocation.ofArguments args with
  | .error e => refuse e
  | .ok i =>
    let files ← readFiles
    let env ← readEnvironment i files
    let finished := i.run ⟨env, unanswered⟩ (World.ofFiles files ())
    writeFiles files finished.world.files
    report i finished
