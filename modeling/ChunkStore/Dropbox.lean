import ChunkStore.Dropbox.Answer
import ChunkStore.Storage

/-!
# Dropbox as a remote

Answers the calls of a storage with version 2 of the Dropbox API and a long-lived
access token. Calls on metadata carry their argument as a JSON body. Transfers carry
it in a header, which must be ASCII, and use the body for the content. The root of an
account is named by the empty string; it is a folder without asking.
-/

namespace ChunkStore

structure Dropbox where
  token : String
  apiUrl : String := "https://api.dropboxapi.com/2"
  contentUrl : String := "https://content.dropboxapi.com/2"
  deriving Repr, DecidableEq

namespace Dropbox

open Json (nat)

def profile : Remote.Profile where
  provider := "dropbox"
  displayName := "Dropbox"
  capabilities :=
    { needsLocalCache := true, supportsMove := true, stronglyConsistent := false
      fastListing := false }

def apiPath (path : String) : String :=
  let p := Path.parse path
  if p.isRoot then "" else p.toString

def uploadArg (path : String) : Json String :=
  .object [("path", .string (apiPath path)), ("mode", .string "overwrite"),
    ("autorename", .bool false), ("mute", .bool true)]

def downloadArg (path : String) : Json String := .object [("path", .string (apiPath path))]

def authorization (d : Dropbox) : String × String := ("authorization", "Bearer " ++ d.token)

def ask {α : Type} (d : Dropbox) (endpoint : String) (arg : Json String)
    (take : Json.Document → Option α) : Program Http.interface α := do
  let body := Text.bytes arg.text
  let response ← Http.post
    { url := d.apiUrl ++ "/" ++ endpoint
      headers := [d.authorization, ("content-type", "application/json"),
        ("content-length", body.length.repr)]
      body := .ofBytes body }
  .ofExcept (decode take (← .ofExcept (accept response)))

/-- Posts content, with its argument in a header. -/
def transfer (d : Dropbox) (endpoint : String) (arg : Json String)
    (headers : List (String × String)) (body : Source) : Program Http.interface Http.Response := do
  let response ← Http.post
    { url := d.contentUrl ++ "/" ++ endpoint
      headers := [d.authorization, ("dropbox-api-arg", arg.asciiText)] ++ headers
      body }
  .ofExcept (accept response)

def perform (d : Dropbox) : (c : Remote.Call) → Program Http.interface c.Answer
  | .listFolder path =>
    d.ask "files/list_folder"
      (.object [("path", .string (apiPath path)), ("recursive", .bool false),
        ("include_media_info", .bool false), ("include_deleted", .bool false)]) page?
  | .listFolderContinue cursor =>
    d.ask "files/list_folder/continue" (.object [("cursor", .string cursor)]) page?
  | .getMetadata path =>
    if apiPath path = "" then return .folder ""
    else
      d.ask "files/get_metadata"
        (.object [("path", .string (apiPath path)), ("include_media_info", .bool false)])
        metadata?
  | .createFolder path =>
    d.ask "files/create_folder_v2"
      (.object [("path", .string (apiPath path)), ("autorename", .bool false)]) acknowledgement?
  | .delete path =>
    d.ask "files/delete_v2" (.object [("path", .string (apiPath path))]) acknowledgement?
  | .moveEntry source target =>
    d.ask "files/move_v2"
      (.object [("from_path", .string (apiPath source)), ("to_path", .string (apiPath target)),
        ("autorename", .bool false)]) acknowledgement?
  | .upload path size body => do
    let _ ← d.transfer "files/upload" (uploadArg path)
      [("content-type", "application/octet-stream"), ("content-length", size.repr)] body
    return ()
  | .download path => do
    let response ← d.transfer "files/download" (downloadArg path) [] ⟨[], .unlimited⟩
    match response.body? with
    | some content => return .ofBytes content
    | none =>
      return ⟨[.ok response.received, .error (.network "the connection was closed")], .unlimited⟩

/-- Answers what a storage asks. All clients use the same account. -/
def serve (d : Dropbox) : (c : Storage.Call) → Program Http.interface c.Reply
  | .remote _ call => (d.perform call).attempt
  | .clock => .ask .clock .done
  | .sleepUntil time => .ask (.sleepUntil time) .done

def openStorage (token : String) (config : Config) : Program Storage.interface Storage :=
  if token = "" then .failed (.authRequired "Dropbox access token is empty")
  else Storage.openWith profile config

end Dropbox

end ChunkStore
