import ChunkStore.Proofs.ChunkEnumeration
import Mathlib.Data.List.Sort

/-!
# What a walk reports

An uninterrupted walk reports one list, which the tree determines: the files whose paths
spell a chunk id, in breadth-first order. Both parts of this are read off the tree alone,
without the queue of the walk.
-/

namespace ChunkStore

namespace Walk

/-- The names of shard folders and that of a file below them spell the id of a chunk. Each
shard is two digits, and the file has the rest of the id for its name, with the mark behind
it if the chunk is a fossil. -/
def Spells (names : List String) (name : String) (id : ChunkId) (fossil : Bool) : Prop :=
  (∀ n ∈ names, n.toList.length = 2 ∧ ∀ c ∈ n.toList, Text.isHexDigit c = true) ∧
    ∃ rest, name = rest ++ (if fossil then ChunkId.fossilSuffix else "") ∧
      id.text = String.join names ++ rest

theorem spells_iff {names : List String} {name : String} {id : ChunkId} {fossil : Bool} :
    Spells names name id fossil ↔ (∀ n ∈ names, isShardName n = true) ∧
      ChunkId.parse (String.join names ++ (stem name).1) = .ok id ∧ fossil = (stem name).2 := by
  simp only [Spells, isShardName_iff, ChunkId.parse_eq_ok_iff]
  apply and_congr_right
  intro shards
  constructor
  · rintro ⟨rest, rfl, text⟩
    cases fossil with
    | true =>
      rw [if_pos rfl, stem_marked]
      exact ⟨text, rfl⟩
    | false =>
      have plain : '.' ∉ rest.toList := by
        intro dot
        have digit : '.' ∈ id.text.toList := by
          rw [text, String.toList_append]
          exact List.mem_append_right _ dot
        exact (Text.isHexDigit_ne (id.hex.2.2 _ digit)).1 rfl
      rw [if_neg Bool.false_ne_true, String.append_empty, stem_plain plain]
      exact ⟨text, rfl⟩
  · rintro ⟨text, rfl⟩
    exact ⟨(stem name).1, (stem_spelled name).symm, text⟩

def chunkFile (names : List String) (name : String) : Path := ⟨"chunks" :: names ++ [name]⟩

variable {t : Tree} {root : Path} {e : ChunkListing} {found other : List ChunkListing}

theorem lies_shardTree_iff :
    Lies t root Storage.shardTree e ↔ ∃ names name content, Spells names name e.id e.fossil ∧
      t[root.resolve (chunkFile names name)]? = some (.file content) ∧
      e.path = (chunkFile names name).toString ∧ e.size = content.length := by
  simp only [Lies, spells_iff, Storage.shardTree, String.empty_append]
  constructor
  · rintro ⟨names, name, content, shards, here, spelled, path, size, fossil⟩
    exact ⟨names, name, content, ⟨shards, spelled, fossil⟩, here, path, size⟩
  · rintro ⟨names, name, content, ⟨shards, spelled, fossil⟩, here, path, size⟩
    exact ⟨names, name, content, shards, here, spelled, path, size, fossil⟩

/-- `found` has an entry for each file whose path spells a chunk id, with what is reported of
it, and the entries come in the order of a walk. -/
structure Enumerates (t : Tree) (root : Path) (found : List ChunkListing) : Prop where
  members : ∀ e, e ∈ found ↔ ∃ names name content, Spells names name e.id e.fossil ∧
    t[root.resolve (chunkFile names name)]? = some (.file content) ∧
    e.path = (chunkFile names name).toString ∧ e.size = content.length
  ordered : Ordered found

theorem Enumerates.unique (h : Enumerates t root found) (h' : Enumerates t root other) :
    found = other := by
  have irrefl : Std.Irrefl fun e e' : ChunkListing =>
      (Path.parse e.path).Precedes (.parse e'.path) := ⟨fun e => Path.Precedes.irrefl _⟩
  have antisymm : Std.Antisymm fun e e' : ChunkListing =>
      (Path.parse e.path).Precedes (.parse e'.path) := ⟨fun e e' before after =>
        absurd after before.asymm⟩
  apply List.Pairwise.eq_of_mem_iff h.ordered h'.ordered
  intro e
  rw [h.members, h'.members]

end Walk

namespace Storage

open Memory (World)

variable {s : Storage} {thread : Nat}

/-- An uninterrupted walk succeeds and reports the enumeration of the tree. -/
theorem listChunks_exact {m : Memory} (hm : m.Reachable) (online : m.offline = false)
    (hr : s.root.Canonical) (h : thread < s.clients.size) (now : Millis)
    (hs : ((World.mk m now).run (s.listChunks thread)).2.remote.served < Program.ample) :
    ∃ found w', (World.mk m now).run (s.listChunks thread) = (some (.ok found), w') ∧
      (∀ list, Walk.Enumerates m.tree s.root list ↔ list = found) ∧
      (m.tree[s.root.resolve ⟨["chunks"]⟩]? ≠ some .folder → found = []) := by
  have closed := hm.sound.closed
  obtain ⟨found, w', run, -, gathered⟩ :=
    run_listChunks_gathered (w := ⟨m, now⟩) h hr online hm.sound hs
  refine ⟨found, w', run, ?_, ?_⟩
  · have enumerates : Walk.Enumerates m.tree s.root found := by
      constructor
      · intro e
        rw [← Walk.lies_shardTree_iff]
        rcases gathered with ⟨-, gathered⟩ | ⟨folder, rfl⟩
        · rw [gathered.mem_iff (Walk.lies_iff closed)]
          simp
        · simpa using not_lies_of_not_folder closed folder e
      · rcases gathered with ⟨-, gathered⟩ | ⟨-, rfl⟩
        · exact gathered.ordered closed
        · exact List.Pairwise.nil
    intro list
    constructor
    · exact fun other => other.unique enumerates
    · rintro rfl
      exact enumerates
  · intro folder
    rcases gathered with ⟨folder', -⟩ | ⟨-, none⟩
    · exact absurd folder' folder
    · exact none

/-- A chunk, a fossil, and a file in a folder that is no shard. A page holds one entry. -/
def crowded : Memory :=
  { (((({} : Memory).putFile "/chunks/ab/cd.fsl" [7]).2.putFile "/chunks/zz/ef" [8]).2.putFile
      "/chunks/12" [1, 2]).2 with pageSize := 1 }

theorem listChunks_exact_crowded :
    ∃ found w', (World.mk crowded 0).run ((plain .root 0).listChunks 0) =
        (some (.ok found), w') ∧
      found = [⟨⟨"12", by decide⟩, "/chunks/12", 2, false⟩,
        ⟨⟨"abcd", by decide⟩, "/chunks/ab/cd.fsl", 1, true⟩] ∧
      ∀ list, Walk.Enumerates crowded.tree .root list ↔ list = found := by
  have reachable : crowded.Reachable :=
    .pageSize 1 (.putFile _ _ (.putFile _ _ (.putFile _ _ .fresh)))
  obtain ⟨found, w', run, exact, -⟩ := listChunks_exact (s := plain .root 0) reachable rfl
    Path.canonical_root Nat.one_pos 0 (by decide +kernel)
  have value : ((World.mk crowded 0).run ((plain .root 0).listChunks 0)).1 =
      some (.ok [⟨⟨"12", by decide⟩, "/chunks/12", 2, false⟩,
        ⟨⟨"abcd", by decide⟩, "/chunks/ab/cd.fsl", 1, true⟩]) := by
    decide +kernel
  rw [run] at value
  refine ⟨found, w', run, ?_, exact⟩
  simpa using value

end Storage

end ChunkStore
