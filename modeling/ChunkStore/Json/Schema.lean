import ChunkStore.Config
import ChunkStore.Entry
import ChunkStore.Json.Record
import ChunkStore.Path

/-!
# The data model in JSON

How each type of the data model is written and read. Records are written as objects
with their members in a fixed order, limits as plain numbers and ids as strings; an
id is read only if it is valid.
-/

namespace ChunkStore

open Json

namespace RateLimit

def toJson (l : RateLimit) : Json String := .nat l.kilobytes

def ofJson? (d : Document) : Option RateLimit := (word? d).map RateLimit.mk

end RateLimit

namespace ChunkId

def toJson (id : ChunkId) : Json String := .string id.text

def ofJson? (d : Document) : Option ChunkId := do (parse (← text? d)).toOption

end ChunkId

namespace Path

def toJson (p : Path) : Json String :=
  .object [("segments", .array (p.segments.map .string))]

/-- The segments are taken as they are. -/
def ofJson? (d : Document) : Option Path := do
  match ← record? ["segments"] d with
  | [segments] => return ⟨← required (list? text?) segments⟩
  | _ => none

end Path

namespace Config

def toJson (c : Config) : Json String :=
  .object [("storage_dir", .string c.storageDir), ("threads", .nat c.threads),
    ("minimum_nesting", .nat c.minimumNesting),
    ("download_rate_limit", c.downloadLimit.toJson), ("upload_rate_limit", c.uploadLimit.toJson)]

/-- Every member may be left out. -/
def ofJson? (d : Document) : Option Config := do
  match ← record? ["storage_dir", "threads", "minimum_nesting", "download_rate_limit",
    "upload_rate_limit"] d with
  | [dir, threads, nesting, download, upload] =>
    return {
      storageDir := ← withDefault "" text? dir
      threads := ← withDefault 1 word? threads
      minimumNesting := ← withDefault 0 word? nesting
      downloadLimit := ← withDefault .unlimited RateLimit.ofJson? download
      uploadLimit := ← withDefault .unlimited RateLimit.ofJson? upload }
  | _ => none

end Config

namespace Capabilities

def toJson (c : Capabilities) : Json String :=
  .object [("needs_local_cache", .bool c.needsLocalCache), ("supports_move", .bool c.supportsMove),
    ("strongly_consistent", .bool c.stronglyConsistent), ("fast_listing", .bool c.fastListing)]

def ofJson? (d : Document) : Option Capabilities := do
  match ← record? ["needs_local_cache", "supports_move", "strongly_consistent",
    "fast_listing"] d with
  | [cache, move, consistent, listing] =>
    return {
      needsLocalCache := ← required bool? cache
      supportsMove := ← required bool? move
      stronglyConsistent := ← required bool? consistent
      fastListing := ← required bool? listing }
  | _ => none

end Capabilities

namespace ListEntry

def toJson (e : ListEntry) : Json String :=
  .object [("name", .string e.name), ("size", .nat e.size)]

def ofJson? (d : Document) : Option ListEntry := do
  match ← record? ["name", "size"] d with
  | [name, size] => return ⟨← required text? name, ← required word? size⟩
  | _ => none

end ListEntry

namespace FileInfo

def toJson (i : FileInfo) : Json String :=
  .object [("exists", .bool i.present), ("is_dir", .bool i.isDirectory), ("size", .nat i.size)]

def ofJson? (d : Document) : Option FileInfo := do
  match ← record? ["exists", "is_dir", "size"] d with
  | [present, directory, size] =>
    return ⟨← required bool? present, ← required bool? directory, ← required word? size⟩
  | _ => none

end FileInfo

namespace ChunkLocation

def toJson (l : ChunkLocation) : Json String :=
  .object [("path", .string l.path), ("exists", .bool l.present), ("size", .nat l.size)]

def ofJson? (d : Document) : Option ChunkLocation := do
  match ← record? ["path", "exists", "size"] d with
  | [path, present, size] =>
    return ⟨← required text? path, ← required bool? present, ← required word? size⟩
  | _ => none

end ChunkLocation

namespace ChunkListing

def toJson (c : ChunkListing) : Json String :=
  .object [("id", c.id.toJson), ("path", .string c.path), ("size", .nat c.size),
    ("is_fossil", .bool c.fossil)]

def ofJson? (d : Document) : Option ChunkListing := do
  match ← record? ["id", "path", "size", "is_fossil"] d with
  | [id, path, size, fossil] =>
    return ⟨← required ChunkId.ofJson? id, ← required text? path, ← required word? size,
      ← required bool? fossil⟩
  | _ => none

end ChunkListing

end ChunkStore
