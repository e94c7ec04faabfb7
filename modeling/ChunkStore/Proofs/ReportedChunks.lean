import ChunkStore.Proofs.ExactEnumeration
import ChunkStore.Proofs.NamedEntries

/-!
# Chunks that a walk reports

A walk puts ids together from names, a search takes ids apart into names. The names that a
walk reports of a chunk are those at which a search looks for it, at the level that is the
number of the shard folders, except where the shards alone spell the id: a file whose whole
name is the mark of a fossil stands below every shard of the id that is reported of it, where
no search looks.
-/

namespace ChunkStore

namespace Walk

variable {names : List String} {name : String} {id : ChunkId} {fossil : Bool} {e : ChunkListing}

/-- An entry of a walk: the names on its path spell its id. -/
def Spelled (e : ChunkListing) : Prop :=
  ∃ names name, Spells names name e.id e.fossil ∧ Path.IsName name ∧
    e.path = (chunkFile names name).toString

def Shard.Spelled (a : Shard) : Prop :=
  ∃ names, (∀ n ∈ names, isShardName n = true) ∧ a = ⟨⟨"chunks" :: names⟩, String.join names⟩

theorem Shard.Spelled.sub {a : Shard} (h : a.Spelled) (shard : isShardName name = true) :
    (a.sub name).Spelled := by
  obtain ⟨names, shards, rfl⟩ := h
  refine ⟨names ++ [name], fun n hn => ?_, ?_⟩
  · rcases List.mem_append.1 hn with above | last
    · exact shards n above
    · rw [List.mem_singleton.1 last]
      exact shard
  · simp [Shard.sub, Path.child]

theorem Shard.Spelled.subshard {a a' : Shard} {x : ListEntry} (h : a.Spelled)
    (met : subshard? a x = some a') : a'.Spelled := by
  obtain ⟨-, shard, rfl⟩ := subshard?_eq_some.1 met
  exact h.sub shard

theorem Shard.Spelled.chunk {a : Shard} {x : ListEntry} (h : a.Spelled) (named : x.Named)
    (met : chunk? a x = some e) : Walk.Spelled e := by
  obtain ⟨names, shards, rfl⟩ := h
  obtain ⟨name, isName, rfl | ⟨size, rfl⟩⟩ := named
  · rw [chunk?_directory] at met
    cases met
  · obtain ⟨parsed, path, -, fossil⟩ := (chunk?_file _ isName size e).1 met
    exact ⟨names, name, spells_iff.2 ⟨shards, parsed, fossil⟩, isName, path⟩

open Directory

def NamedReply : (c : Call) → Except Failure c.Answer → Prop
  | .list _ _, reply => ∀ entries, reply = .ok entries → ∀ x ∈ entries, x.Named
  | .stat _ _, _ => True
  | .create _ _, _ => True

/-- Whoever answers, what a walk gathers is spelled, if the entries that it is given have names. -/
theorem yields_visit (thread budget : Nat) {pending : List Shard} {found : List ChunkListing}
    (queued : ∀ a ∈ pending, a.Spelled) (met : ∀ e ∈ found, Spelled e) :
    (visit thread budget pending found).Yields NamedReply fun all => ∀ e ∈ all, Spelled e := by
  induction budget generalizing pending found with
  | zero =>
    cases pending with
    | nil => exact met
    | cons a pending => trivial
  | succ budget ih =>
    cases pending with
    | nil => exact met
    | cons a pending =>
      have here : a.Spelled := queued a (by simp)
      intro reply named
      apply Program.Yields.bind (Program.yields_ofExcept named)
      intro entries names
      apply ih
      · intro a' ha
        rcases List.mem_append.1 ha with later | sub
        · exact queued a' (by simp [later])
        · obtain ⟨x, -, hx⟩ := List.mem_filterMap.1 sub
          exact here.subshard hx
      · intro e he
        rcases List.mem_append.1 he with before | own
        · exact met e before
        · obtain ⟨x, hx, hc⟩ := List.mem_filterMap.1 own
          exact here.chunk (names x hx) hc

theorem yields_chunks (thread budget : Nat) :
    (chunks thread budget).Yields NamedReply fun all => ∀ e ∈ all, Spelled e := by
  intro reply _
  apply Program.Yields.bind (Program.yields_ofExcept (Q := fun _ => True) fun _ _ => trivial)
  intro info _
  split
  · apply yields_visit
    · intro a ha
      rw [List.mem_singleton.1 ha]
      exact ⟨[], nofun, rfl⟩
    · exact nofun
  · exact nofun

/-- Texts of two digits each can be told from what they spell together. -/
theorem eq_of_spelled {shards others : List String}
    (hs : ∀ n ∈ shards, n.toList.length = 2) (ho : ∀ n ∈ others, n.toList.length = 2)
    (same : shards.flatMap String.toList = others.flatMap String.toList) : shards = others := by
  induction shards generalizing others with
  | nil =>
    cases others with
    | nil => rfl
    | cons b others =>
      have two := ho b (by simp)
      have none : b.toList = [] := (List.append_eq_nil_iff.1 same.symm).1
      rw [none] at two
      cases two
  | cons a shards ih =>
    cases others with
    | nil =>
      have two := hs a (by simp)
      have none : a.toList = [] := (List.append_eq_nil_iff.1 same).1
      rw [none] at two
      cases two
    | cons b others =>
      obtain ⟨first, rest⟩ := List.append_inj same ((hs a (by simp)).trans (ho b (by simp)).symm)
      rw [String.toList_inj.1 first, ih (fun n hn => hs n (by simp [hn]))
        (fun n hn => ho n (by simp [hn])) rest]

theorem spelled_apart {rest : String} (shards : ∀ n ∈ names, n.toList.length = 2)
    (text : id.text = String.join names ++ rest) :
    names.length ≤ id.levels ∧ names = (List.range names.length).map id.shard ∧
      rest = id.remainder names.length := by
  have long : (names.flatMap String.toList).length = 2 * names.length := by
    rw [List.length_flatMap, List.map_congr_left shards]
    simp [Nat.mul_comm]
  have digits : id.digits = names.flatMap String.toList ++ rest.toList := by
    rw [ChunkId.digits, text, String.toList_append, String.toList_join]
  have levels : names.length ≤ id.levels := by
    have whole := id.length_digits
    rw [digits, List.length_append, long] at whole
    omega
  refine ⟨levels, ?_, ?_⟩
  · apply eq_of_spelled shards
    · intro n hn
      obtain ⟨level, below, rfl⟩ := List.mem_map.1 hn
      have := List.mem_range.1 below
      exact id.length_shard (by omega)
    · rw [id.flatMap_shards levels, digits, List.take_left' long]
  · rw [← String.toList_inj, id.toList_remainder, digits, List.drop_left' long]

/-- Only below all shards is the mark of a fossil the whole name of a file. -/
theorem fileName_eq_mark {level : Nat} (levels : level ≤ id.levels)
    (isName : Path.IsName (id.fileName level fossil)) :
    level = id.levels ↔ id.fileName level fossil = ChunkId.fossilSuffix := by
  have length : (id.fileName level fossil).toList.length =
      2 * (id.levels - level) + if fossil then 4 else 0 := id.length_fileName fossil
  cases fossil with
  | true =>
    have spelled := id.toList_fileName level true
    rw [if_pos rfl] at spelled length
    constructor
    · rintro rfl
      have none : id.digits.drop (2 * id.levels) = [] :=
        List.drop_eq_nil_of_le (Nat.le_of_eq id.length_digits)
      rw [← String.toList_inj, spelled, none, List.nil_append]
    · intro mark
      have four : ChunkId.fossilSuffix.toList.length = 4 := by decide
      rw [mark, four] at length
      omega
  | false =>
    have spelled := id.toList_fileName level false
    rw [if_neg Bool.false_ne_true] at spelled length
    constructor
    · rintro rfl
      rw [Nat.sub_self] at length
      exact absurd (List.eq_nil_of_length_eq_zero length) isName.1
    · -- The mark holds a character that is no digit.
      intro mark
      have dot : '.' ∈ id.digits := by
        apply List.mem_of_mem_drop (i := 2 * level)
        rw [← List.append_nil (id.digits.drop _), ← spelled, mark]
        decide
      exact absurd rfl (Text.isHexDigit_ne (id.isHexDigit_of_mem dot)).1

/-- The names that spell an id are those of a place of the chunk. It has a level of the id,
but for the mark of a fossil below all shards. -/
theorem Spells.place (h : Spells names name id fossil) (isName : Path.IsName name) :
    names.length ≤ id.levels ∧ chunkFile names name = id.place names.length fossil ∧
      (names.length = id.levels ↔ name = ChunkId.fossilSuffix) := by
  obtain ⟨shards, rest, spelled, text⟩ := h
  obtain ⟨levels, folders, remainder⟩ := spelled_apart (fun n hn => (shards n hn).1) text
  have file : name = id.fileName names.length fossil := by
    rw [spelled, remainder, ChunkId.fileName]
    cases fossil <;> simp
  refine ⟨levels, ?_, ?_⟩
  · rw [chunkFile, ChunkId.place, ChunkId.folder, ← file, ← folders]
  · rw [file]
    exact fileName_eq_mark levels (file ▸ isName)

theorem Spelled.place (h : Spelled e) : ∃ level ≤ e.id.levels,
    e.path = (e.id.place level e.fossil).toString ∧ (e.id.place level e.fossil).Canonical ∧
      (level = e.id.levels ↔ (Path.parse e.path).name? = some ChunkId.fossilSuffix) := by
  obtain ⟨names, name, spells, isName, path⟩ := h
  obtain ⟨levels, place, last⟩ := spells.place isName
  have canonical : (chunkFile names name).Canonical := by
    intro n hn
    simp only [chunkFile, List.mem_append, List.mem_cons, List.not_mem_nil, or_false] at hn
    rcases hn with (rfl | shard) | rfl
    · unfold Path.IsName
      decide
    · exact isName_of_isShardName ((spells_iff.1 spells).1 n shard)
    · exact isName
  refine ⟨names.length, levels, by rw [path, place], place ▸ canonical, ?_⟩
  have ends : (chunkFile names name).name? = some name :=
    Path.name?_child ⟨"chunks" :: names⟩ name
  rw [last, path, Path.parse_toString canonical, ends, Option.some.injEq]

end Walk

namespace Storage

open Memory (World)

variable {s : Storage} {thread : Nat} {w w' : World} {e : ChunkListing}
  {found : List ChunkListing}

theorem yields_directory (s : Storage) (budget : Nat) (c : Directory.Call) :
    (s.directory budget c).Yields NamedReply (Walk.NamedReply c) := by
  cases c with
  | stat thread path => exact Program.yields_any _
  | create thread path => exact Program.yields_any _
  | list thread path => exact (yields_list path budget).attempt

theorem spelled_of_listChunks {m : Memory} (hm : m.Reachable) {now : Millis}
    (run : (World.mk m now).run (s.listChunks thread) = (some (.ok found), w)) (he : e ∈ found) :
    Walk.Spelled e := by
  have yields := (Walk.yields_chunks thread Program.ample).interpret
    (s.yields_directory Program.ample)
  have all : ∀ e ∈ found, Walk.Spelled e :=
    yields.run World.named_serve ⟨hm.sound, hm.named⟩ (congrArg Prod.fst run)
  exact all e he

theorem client_of_listChunks (run : w.run (s.listChunks thread) = (some (.ok found), w')) :
    thread < s.clients.size := by
  by_contra h
  rw [listChunks_without_client h] at run
  cases run

theorem Ends.place {id : ChunkId} {fossil : Bool} {t : Tree} {level : Nat} {loc : ChunkLocation}
    (h : s.Ends id fossil t level (.ok loc)) :
    ∃ l < id.levels, loc.path = (id.place l fossil).toString := by
  cases h with
  | found nested later within passed node => exact ⟨_, within, rfl⟩
  | missing nested later within passed absent last => exact ⟨_, within, rfl⟩

/-- A chunk that is reported can be addressed, unless the whole name of its file is the mark of
a fossil. The path is then the one at which a search looks for the chunk at some level, so a
search with this minimum nesting finds it wherever it meets the file. A file whose whole name
is the mark lies at none of these paths, and no search names it. -/
theorem listChunks_addressable {m : Memory} (hm : m.Reachable) (now : Millis)
    (hr : s.root.Canonical)
    (run : (World.mk m now).run (s.listChunks thread) = (some (.ok found), w)) (he : e ∈ found) :
    ((Path.parse e.path).name? ≠ some ChunkId.fossilSuffix →
      ∃ l < e.id.levels, e.path = Locator.filePath (e.id.folder l) e.id l e.fossil ∧
        ∀ (w₁ : World) (content : Bytes), w₁.remote.Reachable → w₁.remote.offline = false →
          w₁.remote.tree[s.target e.path]? = some (.file content) →
          ∃ w₂, w₁.run ({ s with nesting := l }.findChunk thread e.id e.fossil) =
            (some (.ok (.found e.path content.length)), w₂)) ∧
    ((Path.parse e.path).name? = some ChunkId.fossilSuffix →
      (∀ l < e.id.levels, e.path ≠ Locator.filePath (e.id.folder l) e.id l e.fossil) ∧
        ∀ (nesting : Nat) (w₁ w₂ : World) (loc : ChunkLocation), w₁.remote.Reachable →
          w₁.remote.offline = false →
          w₁.run ({ s with nesting }.findChunk thread e.id e.fossil) = (some (.ok loc), w₂) →
          loc.path ≠ e.path) := by
  have client : thread < s.clients.size := client_of_listChunks run
  obtain ⟨level, levels, path, canonical, last⟩ := (spelled_of_listChunks hm run he).place
  constructor
  · intro plain
    have within : level < e.id.levels := Nat.lt_of_le_of_ne levels fun same => plain (last.1 same)
    refine ⟨level, within, by rw [path, e.id.filePath_folder within], ?_⟩
    intro w₁ content reachable online file
    rw [path, s.target_toString (e.id.canonical_place within e.fossil)] at file
    rw [path]
    exact run_findChunk_found (s := { s with nesting := level }) client hr online
      reachable.sound.closed (Nat.le_refl level) within file
      fun k nested before => absurd nested (Nat.not_le.2 before)
  · intro mark
    obtain rfl := last.2 mark
    -- No path of a search is that below all shards, which has one folder more.
    have elsewhere : ∀ l < e.id.levels, e.path ≠ (e.id.place l e.fossil).toString := by
      intro l within same
      rw [path] at same
      have places := Path.toString_injective canonical (e.id.canonical_place within e.fossil) same
      have levels := (ChunkId.place_inj (Nat.le_refl _) (Nat.le_of_lt within) places).2.1
      omega
    constructor
    · intro l within
      rw [e.id.filePath_folder within]
      exact elsewhere l within
    · intro nesting w₁ w₂ loc reachable online found
      obtain ⟨r, w', ran, searched⟩ := run_findChunk (s := { s with nesting }) client hr online
        reachable.sound.closed e.id e.fossil
      rw [found] at ran
      obtain ⟨same, -⟩ := Prod.mk.inj ran
      obtain rfl := Option.some.inj same
      obtain ⟨l, within, place⟩ := searched.ends.place
      rw [place]
      exact (elsewhere l within).symm

theorem listChunks_addressable_crowded :
    ∃ found w, (World.mk crowded 0).run ((plain .root 0).listChunks 0) = (some (.ok found), w) ∧
      ∃ e ∈ found, e.path = "/chunks/ab/cd.fsl" ∧
        ∃ l < e.id.levels, e.path = Locator.filePath (e.id.folder l) e.id l e.fossil := by
  have reachable : crowded.Reachable :=
    .pageSize 1 (.putFile _ _ (.putFile _ _ (.putFile _ _ .fresh)))
  have value : ((World.mk crowded 0).run ((plain .root 0).listChunks 0)).1 =
      some (.ok [⟨⟨"12", by decide⟩, "/chunks/12", 2, false⟩,
        ⟨⟨"abcd", by decide⟩, "/chunks/ab/cd.fsl", 1, true⟩]) := by
    decide +kernel
  have run := Prod.fst_eq_iff.1 value
  have fossil := List.mem_cons_of_mem (⟨⟨"12", by decide⟩, "/chunks/12", 2, false⟩ : ChunkListing)
    (List.mem_singleton_self ⟨⟨"abcd", by decide⟩, "/chunks/ab/cd.fsl", 1, true⟩)
  obtain ⟨l, within, path, -⟩ :=
    (listChunks_addressable reachable 0 Path.canonical_root run fossil).1 (by decide +kernel)
  exact ⟨_, _, run, _, fossil, rfl, l, within, path⟩

/-- A file named `.fsl` below the single shard of an id is reported as the fossil of this id,
whose one place is beside the shard folder. -/
theorem listChunks_reports_bare_mark :
    ∃ (m : Memory) (e : ChunkListing) (w : World), m.Reachable ∧ m.offline = false ∧
      (World.mk m 0).run ((plain .root 0).listChunks 0) = (some (.ok [e]), w) ∧
      e.id.text = "ab" ∧ e.path = "/chunks/ab/.fsl" ∧ e.fossil = true ∧
      ¬∃ l < e.id.levels, e.path = Locator.filePath (e.id.folder l) e.id l e.fossil := by
  have value : ((World.mk (({} : Memory).putFile "/chunks/ab/.fsl" [7]).2 0).run
      ((plain .root 0).listChunks 0)).1 =
        some (.ok [⟨⟨"ab", by decide⟩, "/chunks/ab/.fsl", 1, true⟩]) := by
    decide +kernel
  refine ⟨_, _, _, .putFile "/chunks/ab/.fsl" [7] .fresh, rfl, Prod.fst_eq_iff.1 value, rfl, rfl,
    rfl, ?_⟩
  decide +kernel

end Storage

end ChunkStore
