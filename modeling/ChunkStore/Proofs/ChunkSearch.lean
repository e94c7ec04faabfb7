import ChunkStore.Proofs.ChunkPlaces
import ChunkStore.Proofs.MemoryRuns

/-!
# Searching a chunk in a closed tree

A search looks at one level of the id after the other and stops at the first shard folder
that is missing. In a closed tree nothing lies below a missing folder, so the file is at no
deeper level either. On the way a search may create the folders of the first levels; these
are at paths where no chunk that it looks for can lie.
-/

namespace ChunkStore

namespace Tree

variable {t t' t'' : Tree} {p q : Path} {site : Path → Prop}

/-- `t'` is `t` with folders put at some of the paths of a site. -/
def Built (t t' : Tree) (site : Path → Prop) : Prop :=
  ∀ q : Path, t'[q]? = t[q]? ∨ t[q]? = none ∧ site q ∧ t'[q]? = some .folder

/-- `t'` is `t` with folders put at some of the paths from the root down to `p`. -/
abbrev Paved (t t' : Tree) (p : Path) : Prop := t.Built t' fun q => q.segments <+: p.segments

theorem Built.refl (t : Tree) (site : Path → Prop) : t.Built t site := fun _ => .inl rfl

theorem Built.trans (h : t.Built t' site) (h' : t'.Built t'' site) : t.Built t'' site := by
  intro q
  rcases h' q with e' | ⟨n', inside, f'⟩
  · rcases h q with e | ⟨n, inside, f⟩
    · exact .inl (e'.trans e)
    · exact .inr ⟨n, inside, e'.trans f⟩
  · rcases h q with e | ⟨n, inside, f⟩
    · exact .inr ⟨e.symm.trans n', inside, f'⟩
    · rw [f] at n'
      cases n'

theorem Built.mono {wider : Path → Prop} (h : t.Built t' site) (hs : ∀ q, site q → wider q) :
    t.Built t' wider :=
  fun q => (h q).imp_right fun ⟨n, inside, f⟩ => ⟨n, hs q inside, f⟩

theorem Paved.mono (h : t.Paved t' p) (hp : p.segments <+: q.segments) : t.Paved t' q :=
  Built.mono h fun _ inside => inside.trans hp

theorem Built.kept (h : t.Built t' site) (hq : t[q]? ≠ none) : t'[q]? = t[q]? :=
  (h q).elim id fun ⟨n, _, _⟩ => absurd n hq

theorem Built.outside (h : t.Built t' site) (hq : ¬site q) : t'[q]? = t[q]? :=
  (h q).elim id fun ⟨_, inside, _⟩ => absurd inside hq

theorem Built.file_iff (h : t.Built t' site) {c : Bytes} :
    t'[q]? = some (.file c) ↔ t[q]? = some (.file c) := by
  rcases h q with e | ⟨n, -, f⟩
  · rw [e]
  · rw [n, f]
    simp

theorem Built.unblocked_iff (h : t.Built t' site) : t'.Unblocked q ↔ t.Unblocked q := by
  simp only [Unblocked, ne_eq, h.file_iff]

theorem Closed.paved_createFolder (h : t.Closed) (p : Path) : t.Paved (t.createFolder p).2 p := by
  rcases h.createFolder_cases p with ⟨hn, hu, t', he, hg⟩ | ⟨-, subject, he⟩
  · rw [he]
    intro q
    by_cases hq : t[q]? = none
    · rw [hg, hq]
      split
      · rename_i hqp
        exact .inr ⟨rfl, hqp ▸ List.prefix_refl _, rfl⟩
      · split
        · rename_i ha
          exact .inr ⟨rfl, (Path.mem_ancestors.1 ha).1, rfl⟩
        · exact .inl rfl
    · refine .inl ?_
      rw [hg, if_neg (fun he : q = p => hq (he ▸ hn))]
      split
      · rename_i ha
        cases hf : t[q]? with
        | none => exact absurd hf hq
        | some node =>
          cases node with
          | folder => rfl
          | file c => exact absurd hf (hu q ha c)
      · rfl
  · rw [he]
    exact .refl t _

end Tree

namespace Storage

open Memory (World)

/-- Where the file of a chunk may lie on the service. -/
def chunkPath (s : Storage) (id : ChunkId) (level : Nat) (fossil : Bool) : Path :=
  s.root.resolve (id.place level fossil)

def shardPath (s : Storage) (id : ChunkId) (level : Nat) : Path :=
  s.root.resolve (id.folder level)

variable {s : Storage} {thread : Nat} {w : World} {id : ChunkId} {fossil : Bool} {t t' : Tree}

theorem chunkPath_eq (s : Storage) (id : ChunkId) (level : Nat) (fossil : Bool) :
    s.chunkPath id level fossil =
      ⟨(s.shardPath id level).segments ++ [id.fileName level fossil]⟩ := by
  simp [chunkPath, shardPath, Path.resolve, ChunkId.place]

theorem shardPath_succ (s : Storage) (id : ChunkId) (level : Nat) :
    s.shardPath id (level + 1) = ⟨(s.shardPath id level).segments ++ [id.shard level]⟩ := by
  simp [shardPath, Path.resolve, ChunkId.folder_succ]

@[simp] theorem length_chunkPath (s : Storage) (id : ChunkId) (level : Nat) (fossil : Bool) :
    (s.chunkPath id level fossil).segments.length = s.root.segments.length + (level + 2) := by
  simp [chunkPath, Path.resolve]

@[simp] theorem length_shardPath (s : Storage) (id : ChunkId) (level : Nat) :
    (s.shardPath id level).segments.length = s.root.segments.length + (level + 1) := by
  simp [shardPath, Path.resolve]

theorem shardPath_prefix (s : Storage) (id : ChunkId) {k l : Nat} (h : k ≤ l) :
    (s.shardPath id k).segments <+: (s.shardPath id l).segments :=
  (List.prefix_append_right_inj _).2 (id.folder_prefix h)

theorem shardPath_prefix_chunkPath (s : Storage) (id : ChunkId) {k l : Nat} (fossil : Bool)
    (h : k ≤ l) : (s.shardPath id k).segments <+: (s.chunkPath id l fossil).segments := by
  rw [chunkPath_eq]
  exact (s.shardPath_prefix id h).trans (List.prefix_append _ _)

/-- The folders that a search creates are above every level at which it looks for the file. -/
theorem chunkPath_of_paved {level : Nat} (h : t.Paved t' (s.shardPath id s.nesting))
    (hl : s.nesting ≤ level) : t'[s.chunkPath id level fossil]? = t[s.chunkPath id level fossil]? := by
  refine h.outside fun below => ?_
  have := below.length_le
  simp only [length_chunkPath, length_shardPath] at this
  omega

/-- The levels from `level` up to `l` at which a file is looked for: none holds it, and the
shard folder that leads on is there. -/
structure Passed (s : Storage) (id : ChunkId) (fossil : Bool) (t : Tree) (level l : Nat) :
    Prop where
  absent : ∀ k, s.nesting ≤ k → level ≤ k → k < l → t[s.chunkPath id k fossil]? = none
  shards : ∀ k, s.nesting ≤ k → level ≤ k → k < l → t[s.shardPath id (k + 1)]? ≠ none

/-- How a search that begins at `level` ends, in terms of the tree that it leaves. -/
inductive Ends (s : Storage) (id : ChunkId) (fossil : Bool) (t : Tree) (level : Nat) :
    Except Failure ChunkLocation → Prop
  | found {l : Nat} (nested : s.nesting ≤ l) (later : level ≤ l) (within : l < id.levels)
      (passed : s.Passed id fossil t level l) (node : t[s.chunkPath id l fossil]? ≠ none) :
      Ends s id fossil t level
        (.ok (.found (id.place l fossil).toString (t.info (s.chunkPath id l fossil)).size))
  | missing {l : Nat} (nested : s.nesting ≤ l) (later : level ≤ l) (within : l < id.levels)
      (passed : s.Passed id fossil t level l) (absent : t[s.chunkPath id l fossil]? = none)
      (last : t[s.shardPath id (l + 1)]? = none) :
      Ends s id fossil t level (.ok (.missing (id.place l fossil).toString))
  | exhausted (passed : s.Passed id fossil t level id.levels) :
      Ends s id fossil t level (.error (.chunkNestingExhausted id.text id.levels))

theorem Passed.refl (s : Storage) (id : ChunkId) (fossil : Bool) (t : Tree) (level : Nat) :
    s.Passed id fossil t level level := ⟨by omega, by omega⟩

theorem Passed.cons {level l : Nat} (h : s.Passed id fossil t (level + 1) l)
    (hl : s.nesting ≤ level → t[s.chunkPath id level fossil]? = none ∧
      t[s.shardPath id (level + 1)]? ≠ none) : s.Passed id fossil t level l where
  absent k hk hlk hkl := by
    rcases Nat.eq_or_lt_of_le hlk with rfl | hlk
    · exact (hl hk).1
    · exact h.absent k hk hlk hkl
  shards k hk hlk hkl := by
    rcases Nat.eq_or_lt_of_le hlk with rfl | hlk
    · exact (hl hk).2
    · exact h.shards k hk hlk hkl

theorem Passed.snoc {level l : Nat} (h : s.Passed id fossil t level l)
    (hl : s.nesting ≤ l → t[s.chunkPath id l fossil]? = none ∧ t[s.shardPath id (l + 1)]? ≠ none) :
    s.Passed id fossil t level (l + 1) where
  absent k hk hlk hkl := by
    rcases Nat.lt_succ_iff_lt_or_eq.1 hkl with before | rfl
    · exact h.absent k hk hlk before
    · exact (hl hk).1
  shards k hk hlk hkl := by
    rcases Nat.lt_succ_iff_lt_or_eq.1 hkl with before | rfl
    · exact h.shards k hk hlk before
    · exact (hl hk).2

theorem Ends.cons {level : Nat} {r : Except Failure ChunkLocation}
    (h : s.Ends id fossil t (level + 1) r)
    (hl : s.nesting ≤ level → t[s.chunkPath id level fossil]? = none ∧
      t[s.shardPath id (level + 1)]? ≠ none) : s.Ends id fossil t level r := by
  cases h with
  | found nested later within passed node =>
    exact .found nested (Nat.le_of_succ_le later) within (passed.cons hl) node
  | missing nested later within passed absent last =>
    exact .missing nested (Nat.le_of_succ_le later) within (passed.cons hl) absent last
  | exhausted passed => exact .exhausted (passed.cons hl)

theorem Passed.le_of_stop {t : Tree} {level k l : Nat} (h : s.Passed id fossil t level k)
    (nested : s.nesting ≤ l) (later : level ≤ l)
    (stop : t[s.chunkPath id l fossil]? ≠ none ∨ t[s.shardPath id (l + 1)]? = none) : k ≤ l := by
  by_contra beyond
  have passes : l < k := Nat.lt_of_not_le beyond
  rcases stop with node | last
  · exact node (h.absent l nested later passes)
  · exact h.shards l nested later passes last

/-- A search cannot end in two ways. -/
theorem Ends.unique {t : Tree} {level : Nat} {r r' : Except Failure ChunkLocation}
    (h : s.Ends id fossil t level r) (h' : s.Ends id fossil t level r') : r = r' := by
  cases h with
  | found nested later within passed node =>
    cases h' with
    | found nested' later' within' passed' node' =>
      obtain rfl := Nat.le_antisymm (passed.le_of_stop nested' later' (.inl node'))
        (passed'.le_of_stop nested later (.inl node))
      rfl
    | missing nested' later' within' passed' absent last =>
      obtain rfl := Nat.le_antisymm (passed.le_of_stop nested' later' (.inr last))
        (passed'.le_of_stop nested later (.inl node))
      exact absurd absent node
    | exhausted passed' =>
      exact absurd within (Nat.not_lt.2 (passed'.le_of_stop nested later (.inl node)))
  | missing nested later within passed absent last =>
    cases h' with
    | found nested' later' within' passed' node =>
      obtain rfl := Nat.le_antisymm (passed.le_of_stop nested' later' (.inl node))
        (passed'.le_of_stop nested later (.inr last))
      exact absurd absent node
    | missing nested' later' within' passed' absent' last' =>
      obtain rfl := Nat.le_antisymm (passed.le_of_stop nested' later' (.inr last'))
        (passed'.le_of_stop nested later (.inr last))
      rfl
    | exhausted passed' =>
      exact absurd within (Nat.not_lt.2 (passed'.le_of_stop nested later (.inr last)))
  | exhausted passed =>
    cases h' with
    | found nested' later' within' passed' node =>
      exact absurd within' (Nat.not_lt.2 (passed.le_of_stop nested' later' (.inl node)))
    | missing nested' later' within' passed' absent last =>
      exact absurd within' (Nat.not_lt.2 (passed.le_of_stop nested' later' (.inr last)))
    | exhausted => rfl

variable {α : Type}

theorem run_interpret_stat (h : thread < s.clients.size) (hr : s.root.Canonical)
    (hw : w.remote.offline = false) {p : Path} (hp : p.Canonical) (budget : Nat)
    (next : FileInfo → Program Directory.interface α) :
    ∃ w', (((Directory.stat thread p.toString).bind next).interpret (s.directory budget)).run
        World.serve w =
        ((next (w.remote.tree.info (s.root.resolve p))).interpret (s.directory budget)).run
          World.serve w' ∧ w.Became w.remote.tree w' := by
  obtain ⟨reply, became⟩ := World.answer_getMetadata hw (hr.resolve hp)
  rw [interpret_stat h, Program.run_ask, remotePath_toString s hp]
  refine ⟨_, ?_, became⟩
  rw [World.serve, reply]
  rfl

theorem run_interpret_create (h : thread < s.clients.size) (hr : s.root.Canonical)
    (hw : w.remote.offline = false) (hc : w.remote.tree.Closed) {p : Path} (hp : p.Canonical)
    (budget : Nat) (next : Unit → Program Directory.interface α) :
    ∃ w', (((Directory.create thread p.toString).bind next).interpret (s.directory budget)).run
        World.serve w = ((next ()).interpret (s.directory budget)).run World.serve w' ∧
      w.Became (w.remote.tree.createFolder (s.root.resolve p)).2 w' := by
  rw [interpret_create h, Program.run_ask, remotePath_toString s hp, World.serve,
    World.answer_createFolder hw (hr.resolve hp), createAnswer_createFolder hc]
  exact ⟨_, rfl, w.became_answered _ _ _⟩

/-- What a search that begins at `level` in the state `w` leaves behind. -/
structure Searched (s : Storage) (id : ChunkId) (fossil : Bool) (level : Nat) (w : World)
    (r : Except Failure ChunkLocation) (w' : World) : Prop where
  became : w.Became w'.remote.tree w'
  closed : w'.remote.tree.Closed
  paved : w.remote.tree.Paved w'.remote.tree (s.shardPath id s.nesting)
  ends : s.Ends id fossil w'.remote.tree level r

theorem Searched.ended {level : Nat} {w' : World} {r : Except Failure ChunkLocation}
    (hc : w.remote.tree.Closed) (became : w.Became w.remote.tree w')
    (ends : s.Ends id fossil w.remote.tree level r) : s.Searched id fossil level w r w' := by
  constructor <;> rw [became.tree]
  · exact became
  · exact hc
  · exact .refl _ _
  · exact ends

theorem Searched.descended {level : Nat} {w₁ w' : World} {r : Except Failure ChunkLocation}
    {t₁ : Tree} (h : s.Searched id fossil (level + 1) w₁ r w') (became : w.Became t₁ w₁)
    (paved : w.remote.tree.Paved t₁ (s.shardPath id s.nesting))
    (hl : s.nesting ≤ level → w'.remote.tree[s.chunkPath id level fossil]? = none ∧
      w'.remote.tree[s.shardPath id (level + 1)]? ≠ none) : s.Searched id fossil level w r w' where
  became := became.trans h.became
  closed := h.closed
  paved := paved.trans (became.tree ▸ h.paved)
  ends := h.ends.cons hl

theorem run_descend (h : thread < s.clients.size) (hr : s.root.Canonical) (budget : Nat)
    {remaining level : Nat} (hl : level + remaining = id.levels) (hw : w.remote.offline = false)
    (hc : w.remote.tree.Closed) :
    ∃ r w', ((Locator.descend s.nesting thread id fossil remaining level
        (id.folder level)).interpret (s.directory budget)).run World.serve w = (some r, w') ∧
      s.Searched id fossil level w r w' := by
  induction remaining generalizing level w with
  | zero =>
    obtain rfl : level = id.levels := by omega
    exact ⟨_, w, rfl, .ended hc (.refl w) (.exhausted (.refl ..))⟩
  | succ remaining ih =>
    have within : level < id.levels := by omega
    have below : level + 1 + remaining = id.levels := by omega
    have next : (id.folder (level + 1)).Canonical := id.canonical_folder within
    rcases Nat.lt_or_ge level s.nesting with above | nested
    · -- Above the least nesting no file is looked for; a missing folder is created.
      have unseen : ¬s.nesting ≤ level := Nat.not_le.2 above
      rw [Locator.descend_above above within]
      obtain ⟨w₁, run₁, became₁⟩ := run_interpret_stat h hr hw next budget _
      have hw₁ := became₁.offline.trans hw
      have hc₁ : w₁.remote.tree.Closed := became₁.tree ▸ hc
      rw [run₁]
      split
      · obtain ⟨r, w', run, searched⟩ := ih below hw₁ hc₁
        refine ⟨r, w', run, searched.descended became₁ (.refl _ _) ?_⟩
        intro nested
        exact absurd nested unseen
      · obtain ⟨w₂, run₂, became₂⟩ := run_interpret_create h hr hw₁ hc₁ next budget _
        have hc₂ : w₂.remote.tree.Closed := became₂.tree ▸ hc₁.createFolder (hr.resolve next)
        have created := (hc.paved_createFolder (s.shardPath id (level + 1))).mono
          (s.shardPath_prefix id above)
        rw [run₂]
        rw [became₁.tree] at became₂
        obtain ⟨r, w', run, searched⟩ := ih below (became₂.offline.trans hw₁) hc₂
        refine ⟨r, w', run, searched.descended (became₁.trans became₂) created ?_⟩
        intro nested
        exact absurd nested unseen
    · -- From the least nesting on the file is looked for first, and nothing is created.
      rw [Locator.descend_within nested within]
      obtain ⟨w₁, run₁, became₁⟩ :=
        run_interpret_stat h hr hw (id.canonical_place within fossil) budget _
      rw [run₁]
      split
      · rename_i present
        rw [Tree.info_present, ← chunkPath] at present
        have found := Ends.found nested (Nat.le_refl _) within (.refl s id fossil _ level) present
        exact ⟨_, w₁, rfl, .ended hc became₁ found⟩
      · rename_i absent
        rw [Tree.info_present, not_not, ← chunkPath] at absent
        obtain ⟨w₂, run₂, became₂⟩ :=
          run_interpret_stat h hr (became₁.offline.trans hw) next budget _
        rw [became₁.tree] at became₂
        have became₂ := became₁.trans became₂
        rw [run₂, became₁.tree]
        split
        · rename_i shard
          rw [Tree.info_present, ← shardPath] at shard
          obtain ⟨r, w', run, searched⟩ :=
            ih below (became₂.offline.trans hw) (became₂.tree ▸ hc)
          have paved := searched.paved
          rw [became₂.tree] at paved
          refine ⟨r, w', run, searched.descended became₂ (.refl _ _) fun _ => ⟨?_, ?_⟩⟩
          · -- The folders that are created are above every place at which the file is looked for.
            rw [chunkPath_of_paved paved nested, absent]
          · rw [paved.kept shard]
            exact shard
        · rename_i last
          rw [Tree.info_present, not_not, ← shardPath] at last
          have missing := Ends.missing nested (Nat.le_refl _) within (.refl s id fossil _ level)
            absent last
          exact ⟨_, w₂, rfl, .ended hc became₂ missing⟩

/-- A search in a closed tree always comes to an end. -/
theorem run_findChunk (h : thread < s.clients.size) (hr : s.root.Canonical)
    (hw : w.remote.offline = false) (hc : w.remote.tree.Closed) (id : ChunkId) (fossil : Bool) :
    ∃ r w', w.run (s.findChunk thread id fossil) = (some r, w') ∧
      s.Searched id fossil 0 w r w' :=
  run_descend h hr _ (by omega) hw hc

/-- A storage of one client without limits. -/
def plain (root : Path) (nesting : Nat) : Storage :=
  ⟨Memory.profile, ⟨1, Nat.one_pos⟩, root, nesting, .unlimited, .unlimited⟩

variable {loc : ChunkLocation}

/-- Where a search ends at a missing shard folder, the file is at no level. -/
theorem Ends.of_absent (hc : t.Closed) (h : s.Ends id fossil t 0 (.ok loc))
    (hp : loc.present = false) :
    ∃ l, s.nesting ≤ l ∧ l < id.levels ∧ loc = .missing (id.place l fossil).toString ∧
      ∀ k, s.nesting ≤ k → k < id.levels → t[s.chunkPath id k fossil]? = none := by
  cases h with
  | found => cases hp
  | @missing l nested later within passed absent last =>
    refine ⟨l, nested, within, rfl, fun k hk _ => ?_⟩
    rcases Nat.lt_trichotomy k l with hkl | rfl | hlk
    · exact passed.absent k hk (Nat.zero_le k) hkl
    · exact absent
    · exact hc.none_below last (s.shardPath_prefix_chunkPath id fossil hlk)

theorem Ends.of_present (h : s.Ends id fossil t 0 (.ok loc)) (hp : loc.present = true) :
    ∃ l, s.nesting ≤ l ∧ l < id.levels ∧
      loc = .found (id.place l fossil).toString (t.info (s.chunkPath id l fossil)).size ∧
      t[s.chunkPath id l fossil]? ≠ none ∧
      ∀ k, s.nesting ≤ k → k < l → t[s.chunkPath id k fossil]? = none := by
  cases h with
  | @found l nested later within passed node =>
    exact ⟨l, nested, within, rfl, node, fun k hk => passed.absent k hk (Nat.zero_le k)⟩
  | missing => cases hp

theorem Ends.eq_found {l : Nat} {r : Except Failure ChunkLocation} (hc : t.Closed)
    (h : s.Ends id fossil t 0 r) (nested : s.nesting ≤ l) (within : l < id.levels)
    (node : t[s.chunkPath id l fossil]? ≠ none)
    (before : ∀ k, s.nesting ≤ k → k < l → t[s.chunkPath id k fossil]? = none) :
    r = .ok (.found (id.place l fossil).toString (t.info (s.chunkPath id l fossil)).size) := by
  have passed : s.Passed id fossil t 0 l := by
    constructor
    · intro k hk _ hkl
      exact before k hk hkl
    · -- The folders above the file are there.
      intro k _ _ hkl
      exact hc.of_prefix node (s.shardPath_prefix_chunkPath id fossil hkl)
  exact h.unique (.found nested (Nat.zero_le l) within passed node)

/-- A search finds the file at the first level that has one. -/
theorem run_findChunk_found (h : thread < s.clients.size) (hr : s.root.Canonical)
    (hw : w.remote.offline = false) (hc : w.remote.tree.Closed) {l : Nat} {content : Bytes}
    (nested : s.nesting ≤ l) (within : l < id.levels)
    (file : w.remote.tree[s.chunkPath id l fossil]? = some (.file content))
    (before : ∀ k, s.nesting ≤ k → k < l → w.remote.tree[s.chunkPath id k fossil]? = none) :
    ∃ w', w.run (s.findChunk thread id fossil) =
        (some (.ok (.found (id.place l fossil).toString content.length)), w') := by
  obtain ⟨r, w', run, searched⟩ := run_findChunk h hr hw hc id fossil
  have same (k : Nat) (hk : s.nesting ≤ k) :
      w'.remote.tree[s.chunkPath id k fossil]? = w.remote.tree[s.chunkPath id k fossil]? :=
    chunkPath_of_paved searched.paved hk
  have file' := (same l nested).trans file
  have found := searched.ends.eq_found searched.closed nested within (by simp [file'])
    fun k hk hl => (same k hk).trans (before k hk hl)
  rw [Tree.info_file file'] at found
  exact ⟨w', found ▸ run⟩

/-- Stopping at the first missing shard folder misses nothing. A chunk that is reported as
missing is at no level that is looked at, and one that is found is found at the first level
that holds it; the search itself changes none of these paths. -/
theorem findChunk_complete {m : Memory} (hm : m.Reachable) (online : m.offline = false)
    (hr : s.root.Canonical) (h : thread < s.clients.size) (now : Millis) (id : ChunkId)
    (fossil : Bool) :
    ∃ r w', (World.mk m now).run (s.findChunk thread id fossil) = (some r, w') ∧
      (∀ k, s.nesting ≤ k →
        w'.remote.tree[s.chunkPath id k fossil]? = m.tree[s.chunkPath id k fossil]?) ∧
      ∀ loc, r = .ok loc →
        (loc.present = false →
          (∃ l, s.nesting ≤ l ∧ l < id.levels ∧ loc.path = (id.place l fossil).toString) ∧
          ∀ k, s.nesting ≤ k → k < id.levels → m.tree[s.chunkPath id k fossil]? = none) ∧
        (loc.present = true →
          ∃ l, s.nesting ≤ l ∧ l < id.levels ∧ loc.path = (id.place l fossil).toString ∧
            m.tree[s.chunkPath id l fossil]? ≠ none ∧
            ∀ k, s.nesting ≤ k → k < l → m.tree[s.chunkPath id k fossil]? = none) := by
  obtain ⟨r, w', run, searched⟩ :=
    run_findChunk (w := ⟨m, now⟩) h hr online hm.sound.closed id fossil
  have same (k : Nat) (hk : s.nesting ≤ k) :
      w'.remote.tree[s.chunkPath id k fossil]? = m.tree[s.chunkPath id k fossil]? :=
    chunkPath_of_paved searched.paved hk
  refine ⟨r, w', run, same, ?_⟩
  rintro loc rfl
  constructor
  · intro absent
    obtain ⟨l, nested, within, rfl, none⟩ := searched.ends.of_absent searched.closed absent
    exact ⟨⟨l, nested, within, rfl⟩, fun k hk hl => same k hk ▸ none k hk hl⟩
  · intro present
    obtain ⟨l, nested, within, rfl, node, before⟩ := searched.ends.of_present present
    exact ⟨l, nested, within, rfl, same l nested ▸ node, fun k hk hl => same k hk ▸ before k hk hl⟩

/-- A file two digits down is found past the level at which it is not. -/
theorem findChunk_complete_nested :
    ∃ w', (World.mk (({} : Memory).putFile "/chunks/ab/cd" [7]).2 0).run
        ((plain .root 0).findChunk 0 ⟨"abcd", by decide⟩ false) =
        (some (.ok (.found "/chunks/ab/cd" 1)), w') ∧
      ∃ l, 0 ≤ l ∧ l < 2 ∧ "/chunks/ab/cd" = (ChunkId.place ⟨"abcd", by decide⟩ l false).toString ∧
        (({} : Memory).putFile "/chunks/ab/cd" [7]).2.tree[
          (plain .root 0).chunkPath ⟨"abcd", by decide⟩ l false]? ≠ none ∧
        ∀ k, 0 ≤ k → k < l → (({} : Memory).putFile "/chunks/ab/cd" [7]).2.tree[
          (plain .root 0).chunkPath ⟨"abcd", by decide⟩ k false]? = none := by
  obtain ⟨r, w', run, -, spec⟩ := findChunk_complete (s := plain .root 0)
    (.putFile "/chunks/ab/cd" [7] .fresh) rfl Path.canonical_root Nat.one_pos 0
    ⟨"abcd", by decide⟩ false
  have value : ((World.mk (({} : Memory).putFile "/chunks/ab/cd" [7]).2 0).run
      ((plain .root 0).findChunk 0 ⟨"abcd", by decide⟩ false)).1 =
      some (.ok (.found "/chunks/ab/cd" 1)) := rfl
  rw [run] at value
  cases value
  exact ⟨w', run, (spec _ rfl).2 rfl⟩

end Storage

end ChunkStore
