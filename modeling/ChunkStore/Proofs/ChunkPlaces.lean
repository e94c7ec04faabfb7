import ChunkStore.Proofs.CanonicalPaths
import ChunkStore.Walk

/-!
# Places of a chunk

Where the file of a chunk may lie: after `level` shard folders, under the rest of its id.
The digits of an id are its shards followed by its remainder, so a place tells which chunk
it belongs to, at which level, and whether it holds the chunk or its fossil. Shards are two
digits long and remainders at least that, which keeps files and folders of ids of one
length apart.
-/

namespace ChunkStore

theorem Text.isHexDigit_ne {c : Char} (h : Text.isHexDigit c = true) : c ≠ '.' ∧ c ≠ '/' := by
  constructor <;> rintro rfl <;> revert h <;> decide

namespace Walk

theorem stem_marked (text : String) : stem (text ++ ChunkId.fossilSuffix) = (text, true) := by
  unfold stem
  simp [String.toList_append]

theorem stem_plain {name : String} (h : '.' ∉ name.toList) : stem name = (name, false) := by
  unfold stem
  dsimp only
  rw [if_neg]
  intro marked
  exact h ((List.isSuffixOf_iff_suffix.1 marked).subset (by decide))

theorem stem_spelled (name : String) :
    (stem name).1 ++ (if (stem name).2 then ChunkId.fossilSuffix else "") = name := by
  unfold stem
  dsimp only
  split
  · rename_i marked
    obtain ⟨front, hf⟩ := List.isSuffixOf_iff_suffix.1 marked
    rw [← String.toList_inj, ← hf]
    simp
  · simp

theorem isShardName_iff {name : String} :
    isShardName name = true ↔
      name.toList.length = 2 ∧ ∀ c ∈ name.toList, Text.isHexDigit c = true := by
  rw [isShardName, Bool.and_eq_true, beq_iff_eq, List.all_eq_true]
  apply and_congr_left
  intro digits
  have size := ChunkId.utf8ByteSize_eq_length digits
  rw [String.ofList_toList] at size
  rw [size]

end Walk

namespace Path

theorem isName_of_hex {s : String} (hn : s.toList ≠ [])
    (hx : ∀ c ∈ s.toList, Text.isHexDigit c = true) : IsName s := by
  have dot : '.' ∉ s.toList := fun h => (Text.isHexDigit_ne (hx _ h)).1 rfl
  refine ⟨hn, ?_, ?_, fun h => (Text.isHexDigit_ne (hx _ h)).2 rfl⟩
  · exact fun h => dot (by simp [h])
  · exact fun h => dot (by simp [h])

end Path

namespace ChunkId

/-- The folder of the chunk's file once `level` shards are taken. -/
def folder (id : ChunkId) (level : Nat) : Path :=
  ⟨"chunks" :: (List.range level).map id.shard⟩

/-- The path of the chunk's file once `level` shards are taken. -/
def place (id : ChunkId) (level : Nat) (fossil : Bool) : Path :=
  ⟨(id.folder level).segments ++ [id.fileName level fossil]⟩

variable (id : ChunkId)

theorem length_digits : id.digits.length = 2 * id.levels := by
  have h : id.digits.length % 2 = 0 := id.hex.2.1
  unfold levels
  omega

theorem levels_pos : 0 < id.levels := by
  have some : 0 < id.digits.length := List.length_pos_iff.2 id.hex.1
  have := id.length_digits
  omega

@[simp] theorem toList_shard (level : Nat) :
    (id.shard level).toList = (id.digits.drop (2 * level)).take 2 := by
  simp [shard]

@[simp] theorem toList_remainder (level : Nat) :
    (id.remainder level).toList = id.digits.drop (2 * level) := by
  simp [remainder]

theorem toList_fileName (level : Nat) (fossil : Bool) :
    (id.fileName level fossil).toList =
      id.digits.drop (2 * level) ++ if fossil then fossilSuffix.toList else [] := by
  cases fossil <;> simp [fileName]

theorem isHexDigit_of_mem {c : Char} (h : c ∈ id.digits) : Text.isHexDigit c = true :=
  id.hex.2.2 c h

theorem length_shard {level : Nat} (h : level < id.levels) :
    (id.shard level).toList.length = 2 := by
  have := id.length_digits
  simp only [toList_shard, List.length_take, List.length_drop]
  omega

theorem length_fileName {level : Nat} (fossil : Bool) :
    (id.fileName level fossil).toList.length =
      2 * (id.levels - level) + if fossil then 4 else 0 := by
  have := id.length_digits
  rw [toList_fileName]
  cases fossil
  · simp only [Bool.false_eq_true, ↓reduceIte, List.append_nil, List.length_drop]
    omega
  · have suffix : fossilSuffix.toList.length = 4 := by decide
    simp only [↓reduceIte, List.length_append, List.length_drop, suffix]
    omega

theorem isName_shard {level : Nat} (h : level < id.levels) : Path.IsName (id.shard level) := by
  apply Path.isName_of_hex
  · exact fun he => by simpa [he] using id.length_shard h
  · intro c hc
    rw [toList_shard] at hc
    exact id.isHexDigit_of_mem (List.mem_of_mem_drop (List.mem_of_mem_take hc))

theorem isName_fileName {level : Nat} (h : level < id.levels) (fossil : Bool) :
    Path.IsName (id.fileName level fossil) := by
  have long : 2 ≤ (id.fileName level fossil).toList.length := by
    rw [length_fileName]
    omega
  have first : ∃ c cs, (id.fileName level fossil).toList = c :: cs ∧ c ≠ '.' := by
    have := id.length_digits
    obtain ⟨c, cs, hd⟩ := List.exists_cons_of_length_pos (l := id.digits.drop (2 * level))
      (by rw [List.length_drop]; omega)
    refine ⟨c, _, by rw [toList_fileName, hd, List.cons_append], ?_⟩
    have hc : c ∈ id.digits := List.mem_of_mem_drop (by rw [hd]; simp)
    exact (Text.isHexDigit_ne (id.isHexDigit_of_mem hc)).1
  obtain ⟨c, cs, hl, hc⟩ := first
  refine ⟨by simp [hl], by simp [hl, hc], by simp [hl, hc], ?_⟩
  intro slash
  rw [toList_fileName] at slash
  rcases List.mem_append.1 slash with slash | slash
  · exact (Text.isHexDigit_ne (id.isHexDigit_of_mem (List.mem_of_mem_drop slash))).2 rfl
  · cases fossil
    · simp at slash
    · exact absurd slash (by decide)

@[simp] theorem folder_zero : id.folder 0 = ⟨["chunks"]⟩ := rfl

theorem folder_succ (level : Nat) :
    id.folder (level + 1) = ⟨(id.folder level).segments ++ [id.shard level]⟩ := by
  simp [folder, List.range_succ]

@[simp] theorem length_folder (level : Nat) : (id.folder level).segments.length = level + 1 := by
  simp [folder]

@[simp] theorem length_place (level : Nat) (fossil : Bool) :
    (id.place level fossil).segments.length = level + 2 := by
  simp [place]

theorem folder_prefix {k l : Nat} (h : k ≤ l) :
    (id.folder k).segments <+: (id.folder l).segments := by
  induction l with
  | zero => simp [Nat.le_zero.1 h]
  | succ l ih =>
    rcases Nat.lt_or_ge l k with hk | hk
    · obtain rfl : k = l + 1 := by omega
      exact List.prefix_refl _
    · rw [folder_succ]
      exact (ih hk).trans (List.prefix_append _ _)

theorem canonical_folder {level : Nat} (h : level ≤ id.levels) : (id.folder level).Canonical := by
  induction level with
  | zero =>
    intro s hs
    obtain rfl : s = "chunks" := by simpa using hs
    unfold Path.IsName
    decide
  | succ level ih =>
    rw [folder_succ]
    exact (ih (by omega)).child (id.isName_shard h)

theorem canonical_place {level : Nat} (h : level < id.levels) (fossil : Bool) :
    (id.place level fossil).Canonical :=
  (id.canonical_folder (Nat.le_of_lt h)).child (id.isName_fileName h fossil)

theorem join_shard {level : Nat} (h : level < id.levels) :
    (id.folder level).join (id.shard level) = id.folder (level + 1) := by
  rw [Path.join_name _ (id.isName_shard h), folder_succ]

theorem filePath_folder {level : Nat} (h : level < id.levels) (fossil : Bool) :
    Locator.filePath (id.folder level) id level fossil = (id.place level fossil).toString := by
  rw [Locator.filePath, Path.join_name _ (id.isName_fileName h fossil), place]

theorem flatMap_shards {level : Nat} (h : level ≤ id.levels) :
    ((List.range level).map id.shard).flatMap String.toList = id.digits.take (2 * level) := by
  induction level with
  | zero => simp
  | succ level ih =>
    rw [List.range_succ, List.map_append, List.flatMap_append, ih (by omega),
      Nat.mul_add_one, List.take_add]
    simp

/-- The shards before a level and the remainder at it spell the id. -/
theorem join_shards {level : Nat} (h : level ≤ id.levels) :
    String.join ((List.range level).map id.shard) ++ id.remainder level = id.text := by
  rw [← String.toList_inj, String.toList_append, String.toList_join, id.flatMap_shards h,
    toList_remainder, List.take_append_drop]
  rfl

theorem isShardName_shard {level : Nat} (h : level < id.levels) :
    Walk.isShardName (id.shard level) = true := by
  refine Walk.isShardName_iff.2 ⟨id.length_shard h, fun c hc => ?_⟩
  rw [toList_shard] at hc
  exact id.isHexDigit_of_mem (List.mem_of_mem_drop (List.mem_of_mem_take hc))

/-- The mark of a fossil holds a character that is no digit. -/
theorem stem_fileName (level : Nat) (fossil : Bool) :
    Walk.stem (id.fileName level fossil) = (id.remainder level, fossil) := by
  cases fossil with
  | true => exact Walk.stem_marked _
  | false =>
    apply Walk.stem_plain
    intro dot
    rw [toList_fileName, if_neg Bool.false_ne_true, List.append_nil] at dot
    exact (Text.isHexDigit_ne (id.isHexDigit_of_mem (List.mem_of_mem_drop dot))).1 rfl

/-- A shard is never the name of a file that has more than two digits or a mark. -/
theorem shard_ne_fileName (other : ChunkId) {j level : Nat} (fossil : Bool)
    (hj : j < id.levels) (h : fossil = true ∨ level + 1 < other.levels) :
    id.shard j ≠ other.fileName level fossil := by
  intro he
  have hs := id.length_shard hj
  rw [he, length_fileName] at hs
  rcases h with rfl | h
  · simp only [↓reduceIte] at hs
    omega
  · split at hs <;> omega

theorem toString_place_fossil (level : Nat) :
    (id.place level false).toString ++ fossilSuffix = (id.place level true).toString := by
  have below (fossil : Bool) : id.place level fossil ≠ Path.root := fun he => by
    simpa [Path.root] using congrArg (fun p => p.segments.length) he
  rw [← String.toList_inj, String.toList_append, Path.toList_toString (below false),
    Path.toList_toString (below true)]
  simp [place, Path.written, fileName]

theorem ext_digits {id other : ChunkId} (h : id.digits = other.digits) : id = other := by
  cases id
  cases other
  simp only [digits, String.toList_inj] at h
  cases h
  rfl

/-- A place belongs to one chunk, at one level, and to the chunk or to its fossil. -/
theorem place_inj {id other : ChunkId} {l k : Nat} {f g : Bool} (hl : l ≤ id.levels)
    (hk : k ≤ other.levels) (h : id.place l f = other.place k g) :
    id = other ∧ l = k ∧ f = g := by
  obtain rfl : l = k := by
    have := congrArg (fun p => p.segments.length) h
    simpa using this
  have parts : (id.folder l).segments = (other.folder l).segments ∧
      [id.fileName l f] = [other.fileName l g] :=
    List.append_inj (congrArg Path.segments h) (by simp)
  have stems := congrArg Walk.stem (List.singleton_inj.1 parts.2)
  rw [stem_fileName, stem_fileName, Prod.mk.injEq] at stems
  have shards : (List.range l).map id.shard = (List.range l).map other.shard := by
    simpa [folder] using parts.1
  refine ⟨ext_digits ?_, rfl, stems.2⟩
  rw [← List.take_append_drop (2 * l) id.digits, ← List.take_append_drop (2 * l) other.digits,
    ← flatMap_shards id hl, ← flatMap_shards other hk, shards, ← toList_remainder,
    ← toList_remainder, stems.1]

end ChunkId

namespace Locator

open Directory

variable {nesting level : Nat} {id : ChunkId} {thread : Nat} {fossil : Bool}

/-- A level that only holds shard folders: the next folder is created where it is missing. -/
theorem descend_above (hn : level < nesting) (hl : level < id.levels) (remaining : Nat) :
    descend nesting thread id fossil (remaining + 1) level (id.folder level) =
      (stat thread (id.folder (level + 1)).toString).bind fun info =>
        if info.present then
          descend nesting thread id fossil remaining (level + 1) (id.folder (level + 1))
        else
          (create thread (id.folder (level + 1)).toString).bind fun () =>
            descend nesting thread id fossil remaining (level + 1) (id.folder (level + 1)) := by
  rw [descend, probe, if_neg (Nat.not_le.2 hn), id.join_shard hl]
  simp only [Program.bind_eq, Program.pure_eq, Program.done_bind, if_pos hn]

/-- A level at which the file may lie: it is looked for first. -/
theorem descend_within (hn : nesting ≤ level) (hl : level < id.levels) (remaining : Nat) :
    descend nesting thread id fossil (remaining + 1) level (id.folder level) =
      (stat thread (id.place level fossil).toString).bind fun info =>
        if info.present then
          .done (.found (id.place level fossil).toString info.size)
        else
          (stat thread (id.folder (level + 1)).toString).bind fun info =>
            if info.present then
              descend nesting thread id fossil remaining (level + 1) (id.folder (level + 1))
            else .done (.missing (id.place level fossil).toString) := by
  rw [descend, probe, if_pos hn, id.join_shard hl, id.filePath_folder hl]
  simp only [Program.bind_eq, Program.pure_eq, Program.bind_assoc, Program.done_bind,
    if_neg (Nat.not_lt.2 hn)]
  congr 1
  funext info
  cases info.present <;> rfl

end Locator

end ChunkStore
