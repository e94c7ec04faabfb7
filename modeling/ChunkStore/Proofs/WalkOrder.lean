import ChunkStore.Proofs.ShardWalk

/-!
# Walks over a changing tree

A walk lists one folder after the other, and the tree may change in between. What it makes
of that depends only on the tree that each listing shows. Whatever these trees are, the walk
reports its files breadth first: a queue in that order stays so when the shards of its first
folder are put at the end. It reports nothing that was in none of the trees, and it meets
every file that is in all of them.
-/

namespace ChunkStore

namespace Path

variable {p q : Path}

/-- The order of a walk. Paths that are less deep come first. Equally deep ones come in the
order of their folders, and those in one folder in the order of their names, byte by byte. -/
def Precedes (p q : Path) : Prop :=
  p.segments.length < q.segments.length ∨
    p.segments.length = q.segments.length ∧
      compare (p.segments.map Text.bytes) (q.segments.map Text.bytes) = .lt

theorem precedes_iff :
    p.Precedes q ↔ p.segments.length < q.segments.length ∨
      p.segments.length = q.segments.length ∧ compare p q = .lt := by
  rw [Precedes, Text.compare_map_bytes, compare_def]

theorem Precedes.length_le (h : p.Precedes q) : p.segments.length ≤ q.segments.length := by
  rcases h with h | h
  · exact Nat.le_of_lt h
  · exact Nat.le_of_eq h.1

theorem Precedes.asymm (h : p.Precedes q) : ¬q.Precedes p := by
  intro back
  have long := h.length_le
  have short := back.length_le
  rw [precedes_iff] at h back
  rcases h with h | ⟨-, h⟩
  · omega
  rcases back with back | ⟨-, back⟩
  · omega
  have turned : compare p q = .gt := Std.OrientedCmp.gt_iff_lt.2 back
  rw [h] at turned
  cases turned

theorem Precedes.irrefl (p : Path) : ¬p.Precedes p := fun h => h.asymm h

theorem precedes_child {name other : String} (h : compare name other = .lt) :
    (p.child name).Precedes (p.child other) := by
  rw [precedes_iff]
  right
  constructor
  · simp
  · rwa [compare_child]

theorem precedes_of_length {name : String} (h : p.segments.length ≤ q.segments.length) :
    p.Precedes (q.child name) := by
  left
  rw [child_segments, List.length_append, List.length_singleton]
  omega

theorem compare_append_of_lt {first second : List String} (h : compare first second = .lt)
    (same : first.length = second.length) (tail rest : List String) :
    compare (first ++ tail) (second ++ rest) = .lt := by
  induction first generalizing second with
  | nil =>
    obtain rfl : second = [] := List.length_eq_zero_iff.1 same.symm
    cases h
  | cons a first ih =>
    cases second with
    | nil => cases same
    | cons b second =>
      simp only [List.cons_append, List.compare_cons_cons, Ordering.then_eq_lt] at h ⊢
      refine h.imp_right fun both => ⟨both.1, ih both.2 ?_⟩
      simpa using same

theorem Precedes.below (h : p.Precedes q) (name : String) {rest : List String} (hr : rest ≠ []) :
    (p.child name).Precedes ⟨q.segments ++ rest⟩ := by
  have some := List.length_pos_iff.2 hr
  rw [precedes_iff] at h ⊢
  rcases h with shorter | ⟨same, before⟩
  · left
    simp only [child_segments, List.length_append, List.length_singleton]
    omega
  by_cases deeper : rest.length = 1
  · right
    constructor
    · simp [same, deeper]
    · exact compare_append_of_lt before same _ _
  · left
    simp only [child_segments, List.length_append, List.length_singleton]
    omega

end Path

namespace Walk

variable {t : Tree} {root : Path} {a b : Shard} {e : ChunkListing} {pending : List Shard}
  {out : List ChunkListing} {Seen : Tree → Prop}

/-- What a queue of folders gives when each of them is listed in some tree of those that are
`Seen`, one of them perhaps in another than the next. -/
inductive Toured (Seen : Tree → Prop) (root : Path) : List Shard → List ChunkListing → Prop
  | nil : Toured Seen root [] []
  | cons {t : Tree} {a : Shard} {pending : List Shard} {out : List ChunkListing} (seen : Seen t) :
      Toured Seen root (pending ++ subshards t root a) out →
      Toured Seen root (a :: pending) (ownChunks t root a ++ out)

theorem Gathered.toured (h : Gathered (subshards t root) (ownChunks t root) pending out) :
    Toured (· = t) root pending out := by
  induction h with
  | nil => exact .nil
  | cons _ ih => exact .cons rfl ih

/-- What is reported lies below a folder of the queue in one of the trees. -/
theorem Toured.lies (h : Toured Seen root pending out) (closed : ∀ t, Seen t → t.Closed)
    (he : e ∈ out) : ∃ a ∈ pending, ∃ t, Seen t ∧ Lies t root a e := by
  induction h with
  | nil => cases he
  | @cons t a pending out seen _ ih =>
    rcases List.mem_append.1 he with own | later
    · exact ⟨a, by simp, t, seen, lies_of_own (closed t seen) own⟩
    · obtain ⟨a', ha, t', seen', lies⟩ := ih later
      rcases List.mem_append.1 ha with queued | sub
      · exact ⟨a', by simp [queued], t', seen', lies⟩
      · obtain ⟨n, shard, -, rfl⟩ := (mem_subshards (closed t seen)).1 sub
        exact ⟨a, by simp, t', seen', lies.up shard⟩

/-- A file that is below a folder of the queue in all the trees is reported. -/
theorem Toured.meets (h : Toured Seen root pending out) (closed : ∀ t, Seen t → t.Closed)
    (ha : a ∈ pending) {names : List String} {name : String}
    (shards : ∀ n ∈ names, isShardName n = true) {id : ChunkId}
    (spelled : ChunkId.parse (a.digits ++ String.join names ++ (stem name).1) = .ok id)
    (stays : ∀ t, Seen t → ∃ content,
      t[root.resolve ⟨a.dir.segments ++ names ++ [name]⟩]? = some (.file content)) :
    ∃ e ∈ out, e.id = id ∧ e.fossil = (stem name).2 ∧
      e.path = (⟨a.dir.segments ++ names ++ [name]⟩ : Path).toString := by
  induction h generalizing a names with
  | nil => cases ha
  | @cons t b pending out seen _ ih =>
    rcases List.mem_cons.1 ha with rfl | queued
    · obtain ⟨content, here⟩ := stays t seen
      cases names with
      | nil =>
        let e : ChunkListing :=
          ⟨id, (a.dir.child name).toString, content.length, (stem name).2⟩
        have own : e ∈ ownChunks t root a := by
          refine (mem_ownChunks (closed t seen)).2 ⟨name, content, ?_, ?_, rfl, rfl, rfl⟩
          · simpa [Path.child] using here
          · simpa using spelled
        exact ⟨e, List.mem_append_left _ own, rfl, rfl, by simp [e, Path.child]⟩
      | cons n names =>
        -- The first folder above the file is a shard of `a`, and it is met there.
        have sub := sub_mem_subshards (closed t seen) (shards n (by simp)) here
        have fewer : ∀ m ∈ names, isShardName m = true :=
          fun m hm => shards m (List.mem_cons_of_mem n hm)
        obtain ⟨e, he, told⟩ := ih (List.mem_append_right _ sub) fewer
          (by simpa [Shard.sub, String.append_assoc] using spelled)
          (by simpa only [segments_sub] using stays)
        rw [segments_sub] at told
        exact ⟨e, List.mem_append_right _ he, told⟩
    · obtain ⟨e, he, told⟩ := ih (List.mem_append_left _ queued) shards spelled stays
      exact ⟨e, List.mem_append_right _ he, told⟩

/-- A queue in breadth-first order: each folder comes before those behind it, and those come
before what is in it. -/
def Lined (pending : List Shard) : Prop :=
  pending.Pairwise fun a b => a.dir.Precedes b.dir ∧ ∀ name, b.dir.Precedes (a.dir.child name)

theorem lined_subshards (h : t.Closed) (a : Shard) : Lined (subshards t root a) := by
  apply List.pairwise_filterMap.2
  refine (h.entries_ordered (root.resolve a.dir)).imp fun {x y} order b hb c hc => ?_
  obtain ⟨-, -, rfl⟩ := subshard?_eq_some.1 hb
  obtain ⟨-, -, rfl⟩ := subshard?_eq_some.1 hc
  constructor
  · exact Path.precedes_child order
  · intro name
    apply Path.precedes_of_length
    simp [Shard.sub]

theorem Lined.next (h : t.Closed) (lined : Lined (a :: pending)) :
    Lined (pending ++ subshards t root a) := by
  obtain ⟨first, others⟩ := List.pairwise_cons.1 lined
  refine List.pairwise_append.2 ⟨others, lined_subshards h a, fun b hb c hc => ?_⟩
  obtain ⟨n, -, -, rfl⟩ := (mem_subshards h).1 hc
  obtain ⟨before, after⟩ := first b hb
  constructor
  · exact after n
  · intro name
    exact before.below n (List.cons_ne_nil name [])

/-- All that waits behind a folder, and all that is met in it, comes after it. -/
theorem Lined.precedes (h : t.Closed) (lined : Lined (a :: pending))
    (hb : b ∈ pending ++ subshards t root a) : a.dir.Precedes b.dir := by
  rcases List.mem_append.1 hb with queued | sub
  · exact ((List.pairwise_cons.1 lined).1 b queued).1
  · obtain ⟨n, -, -, rfl⟩ := (mem_subshards h).1 sub
    exact Path.precedes_of_length (Nat.le_refl _)

def Ordered (found : List ChunkListing) : Prop :=
  found.Pairwise fun e e' => (Path.parse e.path).Precedes (.parse e'.path)

theorem ordered_ownChunks (h : t.Closed) (a : Shard) : Ordered (ownChunks t root a) := by
  apply List.pairwise_filterMap.2
  refine (h.entries_ordered (root.resolve a.dir)).imp_of_mem fun {x y} hx hy order e he e' he' => ?_
  obtain ⟨content, here, -, path, -⟩ := chunk?_of_mem h hx he
  obtain ⟨content', here', -, path', -⟩ := chunk?_of_mem h hy he'
  rw [path, path', Path.parse_toString (h.canonical_of_resolve here),
    Path.parse_toString (h.canonical_of_resolve here')]
  exact Path.precedes_child order

theorem Toured.ordered (h : Toured Seen root pending out) (closed : ∀ t, Seen t → t.Closed)
    (lined : Lined pending) : Ordered out := by
  induction h with
  | nil => exact List.Pairwise.nil
  | @cons t a pending out seen rest ih =>
    have shut := closed t seen
    refine List.pairwise_append.2
      ⟨ordered_ownChunks shut a, ih (lined.next shut), fun e own e' later => ?_⟩
    obtain ⟨name, content, here, -, path, -⟩ := (mem_ownChunks shut).1 own
    obtain ⟨b, hb, t', seen', lies⟩ := rest.lies closed later
    obtain ⟨names, name', canonical, path'⟩ := lies.path (closed t' seen')
    rw [path, path', Path.parse_toString (shut.canonical_of_resolve here),
      Path.parse_toString canonical, List.append_assoc]
    exact (lined.precedes shut hb).below name (by simp)

theorem Gathered.ordered (h : Gathered (subshards t root) (ownChunks t root) [a] out)
    (closed : t.Closed) : Ordered out := by
  apply h.toured.ordered
  · rintro t' rfl
    exact closed
  · exact List.pairwise_singleton _ _

theorem Ordered.nodup (h : Ordered out) : out.Nodup := by
  refine h.imp fun {e e'} before same => ?_
  rw [same] at before
  exact Path.Precedes.irrefl _ before

theorem Ordered.nodup_paths (h : Ordered out) : (out.map ChunkListing.path).Nodup := by
  apply List.pairwise_map.2
  refine h.imp fun {e e'} before same => ?_
  rw [same] at before
  exact Path.Precedes.irrefl _ before

end Walk

end ChunkStore
