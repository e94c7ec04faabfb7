import ChunkStore.Proofs.ChunkEnumeration

/-!
# Trees that hold chunks of one length

Where all ids have one length and leave room below the least nesting, every chunk has one
place only: its file at that nesting. A tree is laid out when its files are the chunks of a
map, each at that place, and no folder is deeper than the shard folders that must exist.
What the operations do to such a tree is what they do to the map.
-/

namespace ChunkStore

/-- What a store of chunks holds: a content under an id, and one under its fossil. -/
abbrev Files := ChunkId → Bool → Option Bytes

namespace Files

def empty : Files := fun _ _ => none

def set (files : Files) (id : ChunkId) (fossil : Bool) (content? : Option Bytes) : Files :=
  fun other g => if other = id ∧ g = fossil then content? else files other g

@[simp] theorem set_self (files : Files) (id : ChunkId) (fossil : Bool) (content? : Option Bytes) :
    files.set id fossil content? id fossil = content? := by
  simp [set]

theorem set_other (files : Files) {id other : ChunkId} {fossil g : Bool}
    (content? : Option Bytes) (h : ¬(other = id ∧ g = fossil)) :
    files.set id fossil content? other g = files other g := if_neg h

def Sized (levels : Nat) (files : Files) : Prop :=
  ∀ id fossil content, files id fossil = some content → id.levels = levels

theorem Sized.set {files : Files} {levels : Nat} {id : ChunkId} (h : files.Sized levels)
    (hi : id.levels = levels) (fossil : Bool) (content? : Option Bytes) :
    (files.set id fossil content?).Sized levels := by
  intro other g content held
  by_cases same : other = id ∧ g = fossil
  · exact same.1 ▸ hi
  · rw [set_other _ _ same] at held
    exact h other g content held

end Files

namespace Storage

variable {s : Storage} {levels : Nat} {files : Files} {t t' : Tree} {id : ChunkId} {fossil : Bool}
  {p : Path} {content : Bytes}

/-- The place of a chunk in a store that holds ids of one length. -/
def seat (s : Storage) (id : ChunkId) (fossil : Bool) : Path := s.chunkPath id s.nesting fossil

/-- The tree of a store that holds `files`, with ids of `levels` levels. -/
structure Layout (s : Storage) (levels : Nat) (files : Files) (t : Tree) : Prop where
  closed : t.Closed
  held : ∀ id fossil, id.levels = levels →
    t[s.seat id fossil]? = (files id fossil).map Node.file
  seated : ∀ (p : Path) content, t[p]? = some (.file content) →
    ∃ id fossil, id.levels = levels ∧ p = s.seat id fossil
  shallow : ∀ p : Path, t[p]? = some .folder →
    p.segments.length ≤ s.root.segments.length + (s.nesting + 1)

@[simp] theorem length_seat (s : Storage) (id : ChunkId) (fossil : Bool) :
    (s.seat id fossil).segments.length = s.root.segments.length + (s.nesting + 2) :=
  s.length_chunkPath id s.nesting fossil

theorem seat_inj {other : ChunkId} {g : Bool} (hi : s.nesting ≤ id.levels)
    (ho : s.nesting ≤ other.levels) (h : s.seat id fossil = s.seat other g) :
    id = other ∧ fossil = g := by
  have same : id.place s.nesting fossil = other.place s.nesting g := by
    simpa [seat, chunkPath, Path.resolve, ChunkId.place] using h
  obtain ⟨rfl, -, rfl⟩ := ChunkId.place_inj hi ho same
  exact ⟨rfl, rfl⟩

theorem seat_not_above (id : ChunkId) (fossil : Bool) {other : ChunkId} {g : Bool} :
    s.seat other g ∉ (s.seat id fossil).ancestors := by
  intro ha
  have := (Path.mem_ancestors.1 ha).2
  simp at this

theorem seat_prefix_iff {other : ChunkId} {g : Bool} (hi : s.nesting ≤ id.levels)
    (ho : s.nesting ≤ other.levels) :
    (s.seat id fossil).segments <+: (s.seat other g).segments ↔ other = id ∧ g = fossil := by
  constructor
  · intro h
    obtain ⟨rfl, rfl⟩ := seat_inj hi ho (congrArg Path.mk (h.eq_of_length (by simp)))
    exact ⟨rfl, rfl⟩
  · rintro ⟨rfl, rfl⟩
    exact List.prefix_refl _

theorem seat_apart (hi : s.nesting ≤ id.levels) :
    Tree.Apart (s.seat id false) (s.seat id true) := by
  constructor
  · intro h
    cases ((seat_prefix_iff hi hi).1 h).2
  · intro h
    cases ((seat_prefix_iff hi hi).1 h).2

theorem canonical_seat (hr : s.root.Canonical) (h : s.nesting < id.levels) (fossil : Bool) :
    (s.seat id fossil).Canonical :=
  hr.resolve (id.canonical_place h fossil)

namespace Layout

theorem file_depth (L : s.Layout levels files t) (h : t[p]? = some (.file content)) :
    p.segments.length = s.root.segments.length + (s.nesting + 2) := by
  obtain ⟨id, fossil, -, rfl⟩ := L.seated p content h
  exact length_seat s id fossil

/-- Files are as deep as files get, so none is above a file or folder. -/
theorem unblocked (L : s.Layout levels files t)
    (h : p.segments.length ≤ s.root.segments.length + (s.nesting + 2)) : t.Unblocked p := by
  intro q hq c hc
  have := L.file_depth hc
  have := (Path.mem_ancestors.1 hq).2
  omega

theorem not_folder (L : s.Layout levels files t) (id : ChunkId) (fossil : Bool) :
    t[s.seat id fossil]? ≠ some .folder := by
  intro h
  have := L.shallow _ h
  simp at this

/-- Below the least nesting there is no shard folder, and no file looks like one. -/
theorem no_shard (L : s.Layout levels files t) (hn : s.nesting + 1 < levels)
    (hi : id.levels = levels) : t[s.shardPath id (s.nesting + 1)]? = none := by
  cases h : t[s.shardPath id (s.nesting + 1)]? with
  | none => rfl
  | some node =>
    cases node with
    | folder =>
      have := L.shallow _ h
      rw [length_shardPath] at this
      omega
    | file content =>
      obtain ⟨other, g, ho, he⟩ := L.seated _ content h
      have last : [id.shard s.nesting] = [other.fileName s.nesting g] := by
        rw [shardPath_succ, seat, chunkPath_eq] at he
        exact (List.append_inj' (congrArg Path.segments he) rfl).2
      exact absurd (List.singleton_inj.1 last)
        (id.shard_ne_fileName other g (by omega) (.inr (by omega)))

theorem paved (L : s.Layout levels files t) (closed : t'.Closed) (h : t.Paved t' p)
    (above : p.segments.length ≤ s.root.segments.length + (s.nesting + 1)) :
    s.Layout levels files t' where
  closed := closed
  held other g ho := by
    rw [h.outside, L.held other g ho]
    intro below
    have := below.length_le
    rw [length_seat] at this
    omega
  seated p content hp := L.seated p content (h.file_iff.1 hp)
  shallow q hq := by
    rcases h q with same | ⟨-, below, -⟩
    · exact L.shallow q (same ▸ hq)
    · exact Nat.le_trans below.length_le above

end Layout

/-- What a search reports of a chunk that has the content `content?`. -/
def location (s : Storage) (id : ChunkId) (fossil : Bool) (content? : Option Bytes) :
    ChunkLocation :=
  ⟨(id.place s.nesting fossil).toString, content?.isSome, (content?.map List.length).getD 0⟩

theorem Layout.ends (L : s.Layout levels files t) (hn : s.nesting + 1 < levels)
    (hi : id.levels = levels) {r : Except Failure ChunkLocation} (h : s.Ends id fossil t 0 r) :
    r = .ok (s.location id fossil (files id fossil)) := by
  have last := L.no_shard hn hi
  have held := L.held id fossil hi
  have bottom {l : Nat} (nested : s.nesting ≤ l) (passed : s.Passed id fossil t 0 l) :
      l = s.nesting := by
    rcases Nat.eq_or_lt_of_le nested with he | hl
    · exact he.symm
    · exact absurd last (passed.shards s.nesting (Nat.le_refl _) (Nat.zero_le _) hl)
  cases h with
  | found nested later within passed node =>
    obtain rfl := bottom nested passed
    rw [← seat] at node ⊢
    cases hf : files id fossil with
    | none => exact absurd (by rw [held, hf]; rfl) node
    | some content =>
      rw [hf] at held
      rw [Tree.info_file held]
      rfl
  | missing nested later within passed absent _ =>
    obtain rfl := bottom nested passed
    rw [← seat, held, Option.map_eq_none_iff] at absent
    rw [absent]
    rfl
  | exhausted passed =>
    have := bottom (by omega) passed
    omega

namespace Layout

theorem fetch (L : s.Layout levels files t) (hi : id.levels = levels)
    (h : files id fossil = some content) : t.fetch (s.seat id fossil) = .ok content := by
  have held := L.held id fossil hi
  rw [h] at held
  rw [Tree.fetch, Std.ExtTreeMap.get?_eq_getElem?, held]
  rfl

theorem update {files' : Files} (L : s.Layout levels files t) (closed : t'.Closed)
    (held : ∀ id fossil, id.levels = levels →
      t'[s.seat id fossil]? = (files' id fossil).map Node.file)
    (elsewhere : ∀ q : Path, (∀ id fossil, id.levels = levels → q ≠ s.seat id fossil) →
      t'[q]? = t[q]? ∨ t'[q]? = none ∨ t'[q]? = some .folder ∧
        q.segments.length ≤ s.root.segments.length + (s.nesting + 1)) :
    s.Layout levels files' t' := by
  refine ⟨closed, held, fun p content hp => ?_, fun p hp => ?_⟩
  · -- Away from the places of chunks a file can only be an old one.
    by_contra apart
    push Not at apart
    rcases elsewhere p apart with same | gone | ⟨folder, -⟩
    · obtain ⟨id, fossil, hi, he⟩ := L.seated p content (same ▸ hp)
      exact apart id fossil hi he
    · rw [gone] at hp
      cases hp
    · rw [folder] at hp
      cases hp
  · have apart (id : ChunkId) (fossil : Bool) (hi : id.levels = levels) :
        p ≠ s.seat id fossil := by
      rintro rfl
      rw [held id fossil hi] at hp
      cases hf : files' id fossil <;> rw [hf] at hp <;> cases hp
    rcases elsewhere p apart with same | gone | ⟨-, depth⟩
    · exact L.shallow p (same ▸ hp)
    · rw [gone] at hp
      cases hp
    · exact depth

theorem store (L : s.Layout levels files t) (hr : s.root.Canonical) (hn : s.nesting < levels)
    (hi : id.levels = levels) (fossil : Bool) (content : Bytes) :
    ∃ t', t.store (s.seat id fossil) content = (.ok (), t') ∧
      s.Layout levels (files.set id fossil (some content)) t' := by
  have closed := L.closed.store (canonical_seat hr (hi ▸ hn) fossil) content
  rcases L.closed.store_cases (s.seat id fossil) content with
    ⟨-, -, t', stored, hg⟩ | ⟨folder | blocked, -, -⟩
  · rw [stored] at closed
    refine ⟨t', stored, L.update closed (fun other g ho => ?_) fun q hq => ?_⟩
    · rw [hg]
      by_cases same : other = id ∧ g = fossil
      · obtain ⟨rfl, rfl⟩ := same
        rw [if_pos rfl, Files.set_self]
        rfl
      · have apart : s.seat other g ≠ s.seat id fossil := fun he =>
          same (seat_inj (ho ▸ Nat.le_of_lt hn) (hi ▸ Nat.le_of_lt hn) he)
        rw [if_neg apart, if_neg (seat_not_above id fossil), L.held other g ho,
          Files.set_other _ _ same]
    · rw [hg, if_neg (hq id fossil hi)]
      split
      · rename_i ha
        have := (Path.mem_ancestors.1 ha).2
        rw [length_seat] at this
        exact .inr (.inr ⟨rfl, by omega⟩)
      · exact .inl rfl
  · exact absurd folder (L.not_folder id fossil)
  · exact absurd (L.unblocked (Nat.le_of_eq (length_seat s id fossil))) blocked

theorem delete (L : s.Layout levels files t) (hn : s.nesting < levels) (hi : id.levels = levels)
    (fossil : Bool) :
    deleteAnswer (t.delete (s.seat id fossil)).1 = .ok () ∧
      s.Layout levels (files.set id fossil none) (t.delete (s.seat id fossil)).2 := by
  have closed := L.closed.delete (s.seat id fossil)
  rcases Tree.delete_cases t (s.seat id fossil) with
    ⟨-, node, t', gone, hg⟩ | ⟨-, absent, missing⟩ | ⟨root, -⟩
  · rw [gone] at closed ⊢
    refine ⟨rfl, L.update closed (fun other g ho => ?_) fun q hq => ?_⟩
    · rw [hg]
      by_cases same : other = id ∧ g = fossil
      · obtain ⟨rfl, rfl⟩ := same
        rw [if_pos (Path.isWithin_iff.2 (List.prefix_refl _)), Files.set_self]
        rfl
      · rw [if_neg, L.held other g ho, Files.set_other _ _ same]
        rwa [Path.isWithin_iff, seat_prefix_iff (hi ▸ Nat.le_of_lt hn) (ho ▸ Nat.le_of_lt hn)]
    · rw [hg]
      split
      · exact .inr (.inl rfl)
      · exact .inl rfl
  · rw [missing] at closed ⊢
    refine ⟨rfl, L.update closed (fun other g ho => ?_) fun q _ => .inl rfl⟩
    rw [L.held other g ho]
    by_cases same : other = id ∧ g = fossil
    · obtain ⟨rfl, rfl⟩ := same
      rw [← L.held other g ho, absent, Files.set_self]
      rfl
    · rw [Files.set_other _ _ same]
  · have := congrArg (fun p => p.segments.length) root
    simp [Path.root] at this

theorem move (L : s.Layout levels files t) (hr : s.root.Canonical) (hn : s.nesting < levels)
    (hi : id.levels = levels) (live : files id false = some content)
    (vacant : files id true = none) :
    ∃ t', t.move (s.seat id false) (s.seat id true) = (.ok (), t') ∧
      s.Layout levels ((files.set id false none).set id true (some content)) t' := by
  have closed := L.closed.move (s.seat id false) (canonical_seat hr (hi ▸ hn) true)
  have source := L.held id false hi
  have target := L.held id true hi
  have nested : s.nesting ≤ id.levels := hi ▸ Nat.le_of_lt hn
  rw [live] at source
  rw [vacant] at target
  rcases L.closed.move_cases (s.seat id false) (s.seat id true) with
    ⟨-, -, -, -, -, t', moved, G⟩ | ⟨missing, -⟩ | ⟨-, taken, -⟩ | ⟨-, -, root | within, -⟩ |
    ⟨-, -, blocked, -⟩
  · rw [moved] at closed
    refine ⟨t', moved, L.update closed (fun other g ho => ?_) fun q hq => ?_⟩
    · have nested' : s.nesting ≤ other.levels := ho ▸ Nat.le_of_lt hn
      by_cases new : other = id ∧ g = true
      · obtain ⟨rfl, rfl⟩ := new
        rw [G.within (List.prefix_refl _), Tree.relocate_self, source, Files.set_self]
      · rw [Files.set_other _ _ new]
        by_cases old : other = id ∧ g = false
        · obtain ⟨rfl, rfl⟩ := old
          rw [G.vacated (seat_apart nested) (List.prefix_refl _), Files.set_self]
          rfl
        · rw [Files.set_other _ _ old, ← L.held other g ho, G.outside, if_neg]
          · exact seat_not_above id true
          · rwa [seat_prefix_iff nested nested']
          · rwa [seat_prefix_iff nested nested']
    · by_cases below : (s.seat id true).segments <+: q.segments
      · -- The source was a file, so only the target itself can have gained a node.
        refine .inr (.inl ?_)
        by_contra gained
        rw [G.within below] at gained
        have back := L.closed.eq_of_below_file source gained (Tree.relocate_within _ _ _)
        have here : Tree.relocate (s.seat id false) (s.seat id true)
            (Tree.relocate (s.seat id true) (s.seat id false) q) = q := Tree.relocate_back below
        rw [back, Tree.relocate_self] at here
        exact hq id true hi here.symm
      by_cases gone : (s.seat id false).segments <+: q.segments
      · exact .inr (.inl (G.vacated (seat_apart nested) gone))
      rw [G.outside below gone]
      split
      · rename_i ha
        have shorter := (Path.mem_ancestors.1 ha).2
        rw [length_seat] at shorter
        exact .inr (.inr ⟨rfl, by omega⟩)
      · exact .inl rfl
  · rw [source] at missing
    cases missing
  · exact absurd target taken
  · have depth := congrArg (fun p => p.segments.length) root
    simp [Path.root] at depth
  · have same := (seat_prefix_iff nested nested).1 (Path.isWithin_iff.1 within)
    cases same.2
  · exact absurd (L.unblocked (Nat.le_of_eq (length_seat s id true))) blocked

theorem move_taken {old : Bytes} (L : s.Layout levels files t) (hi : id.levels = levels)
    (live : files id false = some content) (taken : files id true = some old) :
    t.move (s.seat id false) (s.seat id true) =
      (.error (.conflict (s.seat id true).toString), t) := by
  have source := L.held id false hi
  have target := L.held id true hi
  rw [live] at source
  rw [taken] at target
  have here := (Tree.contains_iff t (s.seat id false)).2 (by rw [source]; simp)
  have there := (Tree.contains_iff t (s.seat id true)).2 (by rw [target]; simp)
  simp [Tree.move, here, there]

end Layout

/-- What a walk reports of a chunk with the content `content`. -/
def listing (s : Storage) (id : ChunkId) (fossil : Bool) (content : Bytes) : ChunkListing :=
  ⟨id, (id.place s.nesting fossil).toString, content.length, fossil⟩

/-- A walk meets the chunks of the map and nothing else. -/
theorem Layout.lies_iff (L : s.Layout levels files t) (hn : s.nesting < levels)
    (e : ChunkListing) :
    Walk.Lies t s.root shardTree e ↔ ∃ id fossil content, id.levels = levels ∧
      files id fossil = some content ∧ e = s.listing id fossil content := by
  constructor
  · rintro ⟨names, name, content, shards, here, parsed, path, size, mark⟩
    obtain ⟨id, fossil, hi, he⟩ := L.seated _ content here
    -- The file is at the place of some chunk, so the names are those that lead there.
    have parts : "chunks" :: names ++ [name] = (id.folder s.nesting).segments ++
        [id.fileName s.nesting fossil] :=
      List.append_cancel_left (congrArg Path.segments he)
    obtain ⟨above, last⟩ := List.append_inj' parts rfl
    obtain rfl : name = id.fileName s.nesting fossil := List.singleton_inj.1 last
    obtain rfl : names = (List.range s.nesting).map id.shard := (List.cons.inj above).2
    rw [ChunkId.stem_fileName] at parsed mark
    rw [shardTree, String.empty_append, id.join_shards (hi ▸ Nat.le_of_lt hn),
      ChunkId.parse_text] at parsed
    have held := L.held id fossil hi
    rw [← he, here] at held
    refine ⟨id, fossil, content, hi, ?_, ?_⟩
    · cases hf : files id fossil with
      | none =>
        rw [hf] at held
        cases held
      | some c =>
        rw [hf] at held
        cases held
        rfl
    · cases e
      cases parsed
      simp only at path size mark
      rw [path, size, mark]
      rfl
  · rintro ⟨id, fossil, content, hi, held, rfl⟩
    refine ⟨(List.range s.nesting).map id.shard, id.fileName s.nesting fossil, content, ?_, ?_, ?_,
      rfl, rfl, ?_⟩
    · intro n hm
      obtain ⟨l, hl, rfl⟩ := List.mem_map.1 hm
      exact id.isShardName_shard (by have := List.mem_range.1 hl; omega)
    · have here := L.held id fossil hi
      rwa [held] at here
    · rw [ChunkId.stem_fileName, shardTree, String.empty_append,
        id.join_shards (hi ▸ Nat.le_of_lt hn), ChunkId.parse_text]
      rfl
    · rw [ChunkId.stem_fileName]
      rfl

end Storage

end ChunkStore
