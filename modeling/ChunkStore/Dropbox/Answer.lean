import ChunkStore.Http
import ChunkStore.Json.Record
import ChunkStore.Remote

/-!
# Answers of the Dropbox API

The records in answers that report success, and the classes of those that report a
failure. The class depends on the status and on the tags of the error alone: each tag
names the member that holds the next, so that `path` leads to `not_found`.
-/

namespace ChunkStore.Dropbox

open Json

/-- An entry in an answer. Whatever is not tagged as a folder counts as a file. -/
def metadata? (d : Document) : Option Remote.Metadata := do
  match ← record? [".tag", "name", "size"] d with
  | [tag, name, size] =>
    let tag ← required text? tag
    let name ← required text? name
    let size ← withDefault none (nullable? word?) size
    return if tag = "folder" then .folder name else .file name (size.getD 0)
  | _ => none

def page? (d : Document) : Option Remote.Page := do
  match ← record? ["entries", "cursor", "has_more"] d with
  | [entries, cursor, hasMore] =>
    return ⟨← required (list? metadata?) entries, ← required text? cursor,
      ← required bool? hasMore⟩
  | _ => none

/-- An answer that says nothing more than that it is JSON. -/
def acknowledgement? (d : Document) : Option Unit := (keep? maxDepth d).map fun _ => ()

structure Fault where
  summary : Option String := none
  error : Option (Json String) := none
  deriving Repr

/-- The error is a member, so it may be nested one level less. -/
def fault? (d : Document) : Option Fault := do
  match ← record? ["error_summary", "error"] d with
  | [summary, error] =>
    return ⟨← withDefault none (nullable? text?) summary,
      ← withDefault none (nullable? (keep? (maxDepth - 1))) error⟩
  | _ => none

theorem sizeOf_member?_lt {key : String} {j v : Json String} (h : member? key j = some v) :
    sizeOf v < sizeOf j := by
  cases j with
  | object members =>
    simp only [member?] at h
    obtain ⟨k, mem⟩ : ∃ k, (k, v) ∈ members := by
      obtain ⟨before, after, eq, -⟩ := List.lookup_eq_some_iff.1 h
      exact ⟨key, by
        have : (key, v) ∈ members.reverse := by simp [eq]
        simpa using this⟩
    have := List.sizeOf_lt_of_mem mem
    simp only [Prod.mk.sizeOf_spec, Json.object.sizeOf_spec] at this ⊢
    omega
  | _ => simp [member?] at h

def tags (error : Json String) : List String :=
  match member? ".tag" error with
  | some (.string tag) =>
    match _h : member? tag error with
    | some inner => tag :: tags inner
    | none => [tag]
  | _ => []
termination_by sizeOf error
decreasing_by exact sizeOf_member?_lt _h

def classify (status : Nat) (retryAfter : Option Nat) (body : String) : Failure :=
  let fault := ((read? body).bind fault?).getD {}
  let summary := fault.summary.getD (Text.trim body)
  let tags := (fault.error.map tags).getD []
  if status = 401 then .authFailed summary
  else if status = 429 ∨ tags.any fun t => "too_many_".toList.isPrefixOf t.toList then
    .rateLimited retryAfter
  else if "not_found" ∈ tags then .notFound summary
  else if "conflict" ∈ tags then .conflict summary
  else .providerApi "dropbox" (status.repr ++ ": " ++ summary)

def accept (r : Http.Response) : Except Failure Http.Response :=
  if r.isSuccess then .ok r else .error (classify r.status r.retryAfter? r.bodyText)

def decode {α : Type} (take : Document → Option α) (r : Http.Response) : Except Failure α :=
  match (r.body?.bind readBytes?).bind take with
  | some a => .ok a
  | none => .error (.serialization "the answer is not of the wanted shape")

end ChunkStore.Dropbox
