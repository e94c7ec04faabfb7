import ChunkStore.Proofs.ChunkPlaces
import ChunkStore.Proofs.FolderEntries
import ChunkStore.Proofs.PagedListing

/-!
# Walking the shard tree of a closed tree

The walk keeps a queue of folders. Each folder gives the chunks in it and puts its shard
folders at the end of the queue, so what the walk gathers is what lies below the folders of
the queue.
-/

namespace ChunkStore

namespace Walk

section Queue

variable {α β : Type} {subs : α → List α} {own : α → List β} {Lies : α → β → Prop}
  {pending : List α} {out : List β}

/-- What a queue gathers: each folder what is in it, before the folders met in it. -/
inductive Gathered (subs : α → List α) (own : α → List β) : List α → List β → Prop
  | nil : Gathered subs own [] []
  | cons {a : α} {pending : List α} {out : List β} :
      Gathered subs own (pending ++ subs a) out → Gathered subs own (a :: pending) (own a ++ out)

theorem Gathered.mem_iff (h : Gathered subs own pending out)
    (step : ∀ a b, Lies a b ↔ b ∈ own a ∨ ∃ a' ∈ subs a, Lies a' b) (b : β) :
    b ∈ out ↔ ∃ a ∈ pending, Lies a b := by
  induction h with
  | nil => simp
  | @cons a pending out _ ih =>
    rw [List.mem_append, ih]
    constructor
    · rintro (here | ⟨a', ha, below⟩)
      · exact ⟨a, by simp, (step a b).2 (.inl here)⟩
      · rcases List.mem_append.1 ha with ha | ha
        · exact ⟨a', by simp [ha], below⟩
        · exact ⟨a, by simp, (step a b).2 (.inr ⟨a', ha, below⟩)⟩
    · rintro ⟨a', ha, below⟩
      rcases List.mem_cons.1 ha with rfl | ha
      · rcases (step a' b).1 below with here | ⟨a'', ha, below⟩
        · exact .inl here
        · exact .inr ⟨a'', by simp [ha], below⟩
      · exact .inr ⟨a', by simp [ha], below⟩

end Queue

def Shard.sub (a : Shard) (name : String) : Shard := ⟨a.dir.child name, a.digits ++ name⟩

def subshards (t : Tree) (root : Path) (a : Shard) : List Shard :=
  (t.entries (root.resolve a.dir)).filterMap (subshard? a)

def ownChunks (t : Tree) (root : Path) (a : Shard) : List ChunkListing :=
  (t.entries (root.resolve a.dir)).filterMap (chunk? a)

theorem isName_of_isShardName {name : String} (h : isShardName name = true) :
    Path.IsName name := by
  obtain ⟨two, digits⟩ := isShardName_iff.1 h
  exact Path.isName_of_hex (fun empty => by simp [empty] at two) digits

theorem subshard?_eq_some {a a' : Shard} {e : ListEntry} :
    subshard? a e = some a' ↔
      e.isDirectory = true ∧ isShardName e.baseName = true ∧ a' = a.sub e.baseName := by
  unfold subshard?
  split
  · rename_i both
    rw [Bool.and_eq_true] at both
    rw [Path.join_name _ (isName_of_isShardName both.2), Option.some.injEq]
    exact ⟨fun he => ⟨both.1, both.2, he.symm⟩, fun he => he.2.2.symm⟩
  · rename_i either
    rw [Bool.and_eq_true] at either
    exact ⟨nofun, fun he => absurd ⟨he.1, he.2.1⟩ either⟩

theorem chunk?_directory (a : Shard) (name : String) : chunk? a (.directory name) = none := by
  rw [chunk?, ListEntry.isDirectory_directory, if_pos rfl]

theorem chunk?_file (a : Shard) {name : String} (h : Path.IsName name) (size : Nat)
    (e : ChunkListing) :
    chunk? a (.file name size) = some e ↔
      ChunkId.parse (a.digits ++ (stem name).1) = .ok e.id ∧
        e.path = (a.dir.child name).toString ∧ e.size = size ∧ e.fossil = (stem name).2 := by
  simp only [chunk?, ListEntry.isDirectory_file h, ListEntry.baseName_file h, Path.join_name _ h,
    Bool.false_eq_true, ↓reduceIte]
  cases e
  generalize ChunkId.parse (a.digits ++ (stem name).1) = parsed
  cases parsed with
  | error failure => simp
  | ok id =>
    simp only [Option.some.injEq, ChunkListing.mk.injEq, Except.ok.injEq, ListEntry.file]
    constructor
    · rintro ⟨h₁, h₂, h₃, h₄⟩
      exact ⟨h₁, h₂.symm, h₃.symm, h₄.symm⟩
    · rintro ⟨h₁, h₂, h₃, h₄⟩
      exact ⟨h₁, h₂.symm, h₃.symm, h₄.symm⟩

/-- A file below a folder, with shard folders in between, whose path spells a chunk id; and
what is reported of it. -/
def Lies (t : Tree) (root : Path) (a : Shard) (e : ChunkListing) : Prop :=
  ∃ names name content, (∀ n ∈ names, isShardName n = true) ∧
    t[root.resolve ⟨a.dir.segments ++ names ++ [name]⟩]? = some (.file content) ∧
    ChunkId.parse (a.digits ++ String.join names ++ (stem name).1) = .ok e.id ∧
    e.path = (⟨a.dir.segments ++ names ++ [name]⟩ : Path).toString ∧ e.size = content.length ∧
    e.fossil = (stem name).2

variable {t : Tree} {root : Path} {a a' : Shard} {e : ChunkListing}

theorem mem_subshards (h : t.Closed) :
    a' ∈ subshards t root a ↔ ∃ name, isShardName name = true ∧
      t[root.resolve (a.dir.child name)]? = some .folder ∧ a' = a.sub name := by
  simp only [subshards, List.mem_filterMap, Tree.mem_entries, Path.resolve_child]
  constructor
  · rintro ⟨_, ⟨name, here, rfl⟩ | ⟨name, content, here, rfl⟩, hs⟩
    · have named := h.isName_child here
      rw [subshard?_eq_some, ListEntry.baseName_directory named] at hs
      exact ⟨name, hs.2.1, here, hs.2.2⟩
    · have named := h.isName_child here
      rw [subshard?_eq_some, ListEntry.isDirectory_file named] at hs
      cases hs.1
  · rintro ⟨name, shard, here, rfl⟩
    refine ⟨_, .inl ⟨name, here, rfl⟩, ?_⟩
    rw [subshard?_eq_some, ListEntry.baseName_directory (isName_of_isShardName shard)]
    exact ⟨ListEntry.isDirectory_directory name, shard, rfl⟩

theorem chunk?_of_mem (h : t.Closed) {x : ListEntry} (hx : x ∈ t.entries (root.resolve a.dir))
    (hc : chunk? a x = some e) :
    ∃ content, t[root.resolve (a.dir.child x.baseName)]? = some (.file content) ∧
      ChunkId.parse (a.digits ++ (stem x.baseName).1) = .ok e.id ∧
      e.path = (a.dir.child x.baseName).toString ∧ e.size = content.length ∧
      e.fossil = (stem x.baseName).2 := by
  rcases Tree.mem_entries.1 hx with ⟨name, here, rfl⟩ | ⟨name, content, here, rfl⟩
  · rw [chunk?_directory] at hc
    cases hc
  · have named := h.isName_child here
    rw [ListEntry.baseName_file named, Path.resolve_child]
    exact ⟨content, here, (chunk?_file a named _ e).1 hc⟩

theorem mem_ownChunks (h : t.Closed) :
    e ∈ ownChunks t root a ↔ ∃ name content,
      t[root.resolve (a.dir.child name)]? = some (.file content) ∧
      ChunkId.parse (a.digits ++ (stem name).1) = .ok e.id ∧
      e.path = (a.dir.child name).toString ∧ e.size = content.length ∧
      e.fossil = (stem name).2 := by
  simp only [ownChunks, List.mem_filterMap]
  constructor
  · rintro ⟨x, hx, hc⟩
    exact ⟨x.baseName, chunk?_of_mem h hx hc⟩
  · rintro ⟨name, content, here, told⟩
    rw [Path.resolve_child] at here
    have named := h.isName_child here
    exact ⟨_, Tree.mem_entries.2 (.inr ⟨name, content, here, rfl⟩),
      (chunk?_file a named _ e).2 told⟩

theorem segments_sub (a : Shard) (n : String) (names : List String) :
    (a.sub n).dir.segments ++ names = a.dir.segments ++ n :: names := by
  simp [Shard.sub]

/-- A shard folder that something lies below is met in the folder that it is in. -/
theorem sub_mem_subshards (h : t.Closed) {n : String} (shard : isShardName n = true)
    {names : List String} {name : String} {node : Node}
    (here : t[root.resolve ⟨a.dir.segments ++ n :: names ++ [name]⟩]? = some node) :
    a.sub n ∈ subshards t root a := by
  refine (mem_subshards h).2 ⟨n, shard, h.above _ (by rw [here]; simp) _ ?_, rfl⟩
  rw [Path.mem_ancestors]
  constructor <;> simp [Path.resolve]

theorem Lies.up {n : String} (shard : isShardName n = true) (l : Lies t root (a.sub n) e) :
    Lies t root a e := by
  obtain ⟨names, name, content, shards, here, told⟩ := l
  rw [segments_sub] at here told
  refine ⟨n :: names, name, content, List.forall_mem_cons.2 ⟨shard, shards⟩, here, ?_⟩
  simpa [Shard.sub, String.append_assoc] using told

theorem lies_of_own (h : t.Closed) (here : e ∈ ownChunks t root a) : Lies t root a e := by
  obtain ⟨name, content, here, told⟩ := (mem_ownChunks h).1 here
  exact ⟨[], name, content, by simp, by simpa [Path.child] using here,
    by simpa [Path.child] using told⟩

/-- What lies below a folder is in it or below one of its shard folders. -/
theorem lies_iff (h : t.Closed) (a : Shard) (e : ChunkListing) :
    Lies t root a e ↔ e ∈ ownChunks t root a ∨ ∃ a' ∈ subshards t root a, Lies t root a' e := by
  constructor
  · rintro ⟨names, name, content, shards, here, told⟩
    -- Without folders in between the file is in `a`; else the first of them is a shard of `a`.
    cases names with
    | nil =>
      refine .inl ((mem_ownChunks h).2 ⟨name, content, ?_, ?_⟩)
      · simpa [Path.child] using here
      · simpa [Path.child] using told
    | cons n names =>
      refine .inr ⟨a.sub n, sub_mem_subshards h (shards n (by simp)) here, names, name, content,
        fun m hm => shards m (by simp [hm]), ?_, ?_⟩
      · rwa [segments_sub]
      · rw [segments_sub]
        simpa [Shard.sub, String.append_assoc] using told
  · rintro (here | ⟨a', ha, below⟩)
    · exact lies_of_own h here
    · obtain ⟨n, shard, -, rfl⟩ := (mem_subshards h).1 ha
      exact below.up shard

theorem Lies.path (h : t.Closed) (l : Lies t root a e) :
    ∃ names name, (⟨a.dir.segments ++ names ++ [name]⟩ : Path).Canonical ∧
      e.path = (⟨a.dir.segments ++ names ++ [name]⟩ : Path).toString := by
  obtain ⟨names, name, content, -, here, -, path, -⟩ := l
  exact ⟨names, name, h.canonical_of_resolve here, path⟩

end Walk

end ChunkStore
