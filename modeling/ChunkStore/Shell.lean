import ChunkStore.Arguments
import ChunkStore.Settings

/-!
# The command line

A run reads its arguments and the settings, opens the storage and performs one command.
It ends with a status: 0 if all was done, 1 after a failure, 2 if the arguments make no
sense.
-/

namespace ChunkStore.Shell

open Session (say note)

def tokenVariable : String := "SBX_DROPBOX_TOKEN"

def versionText : String := "sbx 0.1.0"

def usage : List String :=
  ["Inspect and maintain a chunk store kept on a remote file service",
    "",
    "Usage: sbx [-c FILE] [-v] COMMAND",
    "",
    "Commands:",
    "  ls [-l] [-H] [DIR]          list a folder",
    "  stat PATH                   show what is at a path",
    "  mkdir PATH...               create folders",
    "  rm PATH...                  remove files and folders",
    "  mv FROM TO                  move a file or folder",
    "  find-chunk [--fossil] ID    find where a chunk is, or would be, stored",
    "  chunks [-H]                 list every chunk",
    "  get PATH [OUT]              download a file",
    "  put FILE PATH               upload a file",
    "  caps                        show what the storage supports",
    "",
    "Options:",
    "  -c, --config FILE           settings file (TOML)",
    "  -v, --verbose               tell what is done",
    "  -h, --help                  show this text",
    "  -V, --version               show the version"]

def perform (i : Arguments.Invocation) (token : Option String) (palette : Text.Palette) :
    Program Session.interface Unit := do
  let settings ← Settings.load i.file token
  if i.verbose then
    note ("Opening " ++ settings.provider.name ++ ":" ++ settings.storage.normalizedDir)
  let storage ← settings.openStorage.interpret settings.serve
  Console.perform ⟨storage, settings.serve, palette⟩ i.command

/-- Runs a command line and gives its status. -/
def run (args : List String) (token : Option String) (palette : Text.Palette) :
    Program Session.interface Nat :=
  match Arguments.read args with
  | .error .help => do
    usage.forM say
    return 0
  | .error .version => do
    say versionText
    return 0
  | .error .misuse => do
    usage.forM note
    return 2
  | .ok i => do
    match ← (perform i token palette).attempt with
    | .ok () => return 0
    | .error e => do
      note (palette.paint [.red, .bold] "Error:" ++ " " ++ e.message)
      return 1

end ChunkStore.Shell
