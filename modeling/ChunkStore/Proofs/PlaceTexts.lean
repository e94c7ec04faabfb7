import ChunkStore.Proofs.ShardWalk

/-!
# Places told from their texts

The path at which a search looks for a chunk is a text that tells the chunk, the level and
whether the chunk or its fossil is meant. So no two chunks share a file, and no chunk one with a
fossil. The walk reads the chunk and the mark off such a path, from folder to folder.
-/

namespace ChunkStore

namespace Locator

/-- The folder in which a search looks for the file at a level: it joins the shards one after the
other to the folder of chunks. -/
def shardFolder (id : ChunkId) (level : Nat) : Path :=
  (List.range level).foldl (fun dir k => dir.join (id.shard k)) chunks

theorem shardFolder_eq {id : ChunkId} {level : Nat} (h : level ≤ id.levels) :
    shardFolder id level = id.folder level := by
  induction level with
  | zero => rfl
  | succ level ih =>
    rw [shardFolder, List.range_succ, List.foldl_append, List.foldl_cons, List.foldl_nil]
    change (shardFolder id level).join (id.shard level) = _
    rw [ih (by omega), id.join_shard h]

theorem filePath_shardFolder {id : ChunkId} {level : Nat} (h : level < id.levels) (fossil : Bool) :
    filePath (shardFolder id level) id level fossil = (id.place level fossil).toString := by
  rw [shardFolder_eq (Nat.le_of_lt h), id.filePath_folder h]

end Locator

namespace Walk

/-- The digits and the mark that a path spells: the names below the folder of chunks, put
together, without one mark of a fossil at the end. -/
def spelled (path : String) : String × Bool :=
  stem (String.join ((Path.parse path).segments.drop 1))

/-- What a walk reports of the file at a path, if it comes down to it from the folder of
chunks. -/
def reported? (path : String) (size : Nat) : Option ChunkListing := do
  let below := (Path.parse path).segments.drop 1
  let s ← below.dropLast.foldlM (fun s name => subshard? s (.directory name)) ⟨Locator.chunks, ""⟩
  let name ← below.getLast?
  chunk? s (.file name size)

variable {id : ChunkId} {level : Nat}

theorem parse_place (h : level < id.levels) (fossil : Bool) :
    (Path.parse (id.place level fossil).toString).segments.drop 1 =
      (List.range level).map id.shard ++ [id.fileName level fossil] := by
  rw [Path.parse_toString (id.canonical_place h fossil)]
  rfl

theorem spelled_place (h : level < id.levels) (fossil : Bool) :
    spelled (id.place level fossil).toString = (id.text, fossil) := by
  have names : String.join ((List.range level).map id.shard ++ [id.fileName level fossil]) =
      id.text ++ if fossil then ChunkId.fossilSuffix else "" := by
    rw [← id.join_shards (Nat.le_of_lt h), ← String.toList_inj]
    cases fossil <;> simp [String.toList_join, ChunkId.fileName]
  rw [spelled, parse_place h, names]
  cases fossil with
  | true => exact stem_marked _
  | false =>
    rw [if_neg Bool.false_ne_true, String.append_empty]
    apply stem_plain
    intro dot
    exact (Text.isHexDigit_ne (id.isHexDigit_of_mem dot)).1 rfl

/-- A walk comes down through the shards of an id, and spells them on its way. -/
theorem foldlM_subshard? (h : level ≤ id.levels) :
    ((List.range level).map id.shard).foldlM
        (fun s name => subshard? s (.directory name)) (⟨Locator.chunks, ""⟩ : Shard) =
      some ⟨id.folder level, String.join ((List.range level).map id.shard)⟩ := by
  induction level with
  | zero => rfl
  | succ level ih =>
    have name := ListEntry.baseName_directory (id.isName_shard h)
    have step : subshard? ⟨id.folder level, String.join ((List.range level).map id.shard)⟩
        (.directory (id.shard level)) = some ⟨id.folder (level + 1),
          String.join ((List.range level).map id.shard) ++ id.shard level⟩ := by
      rw [subshard?, ListEntry.isDirectory_directory, name, id.isShardName_shard h, id.join_shard h]
      rfl
    rw [List.range_succ, List.map_append, List.foldlM_append, ih (by omega)]
    simp [step, String.join_append]

theorem reported?_place (h : level < id.levels) (fossil : Bool) (size : Nat) :
    reported? (id.place level fossil).toString size =
      some ⟨id, (id.place level fossil).toString, size, fossil⟩ := by
  have last : chunk? ⟨id.folder level, String.join ((List.range level).map id.shard)⟩
      (.file (id.fileName level fossil) size) =
        some ⟨id, (id.place level fossil).toString, size, fossil⟩ := by
    rw [chunk?_file _ (id.isName_fileName h fossil), id.stem_fileName, id.join_shards (by omega)]
    exact ⟨id.parse_text, rfl, rfl, rfl⟩
  unfold reported?
  simp only [parse_place h, List.dropLast_concat, List.getLast?_concat]
  rw [foldlM_subshard? (by omega)]
  exact last

end Walk

namespace Locator

/-- Chunks, levels and marks have paths of their own: two paths are one only for the same chunk, at
the same level and with the same mark. The chunk and the mark are read off the path, from its names
alone as well as by the walk. -/
theorem filePath_names_chunk (a b : ChunkId) (l k : Nat) (f g : Bool) (hl : l < a.levels)
    (hk : k < b.levels) :
    (filePath (shardFolder a l) a l f = filePath (shardFolder b k) b k g ↔
      a = b ∧ l = k ∧ f = g) ∧
    ((Walk.spelled (filePath (shardFolder a l) a l f)).map ChunkId.parse id = (.ok a, f)) ∧
    ∀ size, Walk.reported? (filePath (shardFolder a l) a l f) size =
      some ⟨a, filePath (shardFolder a l) a l f, size, f⟩ := by
  rw [filePath_shardFolder hl, filePath_shardFolder hk]
  refine ⟨⟨fun same => ?_, ?_⟩, ?_, fun size => Walk.reported?_place hl f size⟩
  · have places := Path.toString_injective (a.canonical_place hl f) (b.canonical_place hk g) same
    exact ChunkId.place_inj (Nat.le_of_lt hl) (Nat.le_of_lt hk) places
  · rintro ⟨rfl, rfl, rfl⟩
    rfl
  · rw [Walk.spelled_place hl f]
    exact Prod.ext a.parse_text rfl

/-- The fossil of a chunk below its first shard, and the chunk itself. -/
theorem filePath_names_chunk_fossil :
    let id : ChunkId := ⟨"ab12cd", by decide⟩
    1 < id.levels ∧
      filePath (shardFolder id 1) id 1 true ≠ filePath (shardFolder id 1) id 1 false ∧
      Walk.reported? "/chunks/ab/12cd.fsl" 3 = some ⟨id, "/chunks/ab/12cd.fsl", 3, true⟩ := by
  intro id
  have within : 1 < id.levels := by decide
  obtain ⟨same, -, reported⟩ := filePath_names_chunk id id 1 1 true false within within
  have path : filePath (shardFolder id 1) id 1 true = "/chunks/ab/12cd.fsl" := by decide +kernel
  refine ⟨within, fun equal => ?_, ?_⟩
  · exact absurd (same.1 equal).2.2 (by decide)
  · rw [← path]
    exact reported 3

end Locator

end ChunkStore
