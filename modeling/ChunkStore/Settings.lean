import ChunkStore.Dropbox
import ChunkStore.LocalFiles
import ChunkStore.Memory
import ChunkStore.Session
import ChunkStore.Toml.Document

/-!
# Settings

Which remote holds the store, how it is used, and the token of the account. Settings
are read from a TOML document; whatever it leaves out has a default, and whatever it
says besides is passed over. A token from the environment goes before that of the
document.
-/

namespace ChunkStore

inductive Provider where
  | dropbox
  | memory
  deriving Repr, DecidableEq

namespace Provider

def name : Provider → String
  | dropbox => "dropbox"
  | memory => "memory"

def named? (text : String) : Option Provider :=
  [dropbox, memory].find? (·.name == text)

/-- A provider is named by a text, or by the only key of a table with nothing under it. -/
def ofToml? : Toml → Option Provider
  | .string text => named? text
  | .table [(text, .table [])] | .table [(text, .array [])] => named? text
  | _ => none

end Provider

structure Settings where
  provider : Provider := .dropbox
  storage : Config := {}
  token : Option String := none
  deriving Repr, DecidableEq

namespace Config

/-- Every member may be left out. -/
def ofToml? (v : Toml) : Option Config := do
  match ← v.record? ["storage_dir", "threads", "minimum_nesting", "download_rate_limit",
    "upload_rate_limit"] with
  | [dir, threads, nesting, download, upload] =>
    return {
      storageDir := ← dir.elim (some "") Toml.text?
      threads := ← threads.elim (some 1) Toml.natural?
      minimumNesting := ← nesting.elim (some 0) Toml.natural?
      downloadLimit := ⟨← download.elim (some 0) Toml.natural?⟩
      uploadLimit := ⟨← upload.elim (some 0) Toml.natural?⟩ }
  | _ => none

end Config

namespace Settings

/-- The token in the record of an account; a record written as an array has to name it. -/
def token? : Toml → Option (Option String)
  | .array [] => none
  | v => do
    match ← v.record? ["access_token"] with
    | [some token] => return some (← token.text?)
    | _ => return none

def ofToml? (v : Toml) : Option Settings := do
  match ← v.record? ["provider", "storage", "dropbox"] with
  | [provider, storage, account] =>
    return {
      provider := ← provider.elim (some .dropbox) Provider.ofToml?
      storage := ← storage.elim (some {}) Config.ofToml?
      token := ← account.elim (some none) token? }
  | _ => none

def malformed : Failure := .invalidConfig "malformed settings"

def parse (text : String) : Except Failure Settings :=
  match (Toml.read? text).bind ofToml? with
  | some s => .ok s
  | none => .error malformed

def ofBytes (content : Bytes) : Except Failure Settings :=
  match Text.ofBytes? content with
  | some text => parse text
  | none => .error FileFault.notText.failure

/-- The settings with another token, unless it is empty. -/
def withToken (s : Settings) (token : Option String) : Settings :=
  match token with
  | some token => if token = "" then s else { s with token := some token }
  | none => s

def accessToken (s : Settings) : String := s.token.getD ""

/-- The settings of a session: those of a file, if one is given, with the token from
the environment. -/
def load (file : Option String) (token : Option String) :
    Program Session.interface Settings := do
  let settings ←
    match file with
    | some file => do .ofExcept (ofBytes (← Session.load file))
    | none => pure {}
  let settings := settings.withToken token
  .ofExcept settings.storage.validate
  return settings

def openStorage (s : Settings) : Program Storage.interface Storage :=
  match s.provider with
  | .dropbox => Dropbox.openStorage s.accessToken s.storage
  | .memory => Storage.openWith Memory.profile s.storage

def serve (s : Settings) (c : Storage.Call) : Program Session.interface c.Reply :=
  match s.provider with
  | .dropbox =>
    let account : Dropbox := { token := s.accessToken }
    (account.serve c).interpret Session.fromServer
  | .memory => Session.fromMemory c

end Settings

end ChunkStore
