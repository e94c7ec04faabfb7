import ChunkStore.Proofs.Accord
import ChunkStore.Proofs.MistakenNodes

/-!
# Searches at the same time

Every search may create the shard folders of the first levels, and searches share these. All
that happens to the tree is that folders come to stand at such paths. They are above every
path that decides how a search ends, so each of them ends as it would alone. A path is laid
once something stands there or a file above it lets nothing come to stand there, and either
is so for ever; when all searches have ended, the last folder of each is laid, which leaves
one tree only.
-/

namespace ChunkStore

open Memory (World)

namespace Tree

variable {t t' t₁ t₂ : Tree} {p q : Path} {site : Path → Prop}

/-- Something is at the path, or it is below a file. -/
def Laid (t : Tree) (p : Path) : Prop :=
  t.Unblocked p → t[p]? ≠ none

theorem Built.laid (h : t.Built t' site) (hp : t.Laid p) : t'.Laid p := by
  intro free
  have present := hp (h.unblocked_iff.1 free)
  rw [h.kept present]
  exact present

theorem Closed.laid_createFolder (h : t.Closed) (p : Path) : (t.createFolder p).2.Laid p := by
  rcases h.createFolder_cases p with ⟨-, -, t', he, hg⟩ | ⟨taken, subject, he⟩
  · rw [he]
    intro free
    rw [hg, if_pos rfl]
    simp
  · rw [he]
    intro free
    exact taken.resolve_right (not_not_intro free)

theorem Closed.unblocked (h : t.Closed) (hp : t[p]? ≠ none) : t.Unblocked p := by
  intro q hq c file
  rw [h.above p hp q hq] at file
  cases file

theorem Closed.laid_above (h : t.Closed) (laid : t.Laid p) (above : q.segments <+: p.segments) :
    t.Laid q := by
  intro free absent
  have blocked : ¬t.Unblocked p := fun free => laid free (h.none_below absent above)
  obtain ⟨r, hr, c, file⟩ := not_unblocked_iff.1 blocked
  have here : t[r]? ≠ none := by simp [file]
  -- The file is above `q`, or it would be where nothing is.
  rcases Nat.lt_or_ge r.segments.length q.segments.length with shorter | longer
  · have higher := List.prefix_of_prefix_length_le (Path.mem_ancestors.1 hr).1 above shorter.le
    exact free r (Path.mem_ancestors.2 ⟨higher, shorter⟩) c file
  · have lower := List.prefix_of_prefix_length_le above (Path.mem_ancestors.1 hr).1 longer
    exact h.of_prefix here lower absent

/-- A folder that came to stand in one tree did so in every other whose site is laid. -/
theorem Built.folder_of_laid (h₁ : t.Built t₁ site) (laid : ∀ q, site q → t₁.Laid q)
    (h₂ : t.Built t₂ site) (hc₂ : t₂.Closed) (absent : t[q]? = none) (inside : site q)
    (folder : t₂[q]? = some .folder) : t₁[q]? = some .folder := by
  have free : t₂.Unblocked q := hc₂.unblocked (by simp [folder])
  have present := laid q inside (h₁.unblocked_iff.2 (h₂.unblocked_iff.1 free))
  rcases h₁ q with same | ⟨-, -, new⟩
  · exact absurd (same.trans absent) present
  · exact new

/-- What is built on a site until all of it is laid is one tree. -/
theorem Built.unique (h₁ : t.Built t₁ site) (h₂ : t.Built t₂ site) (hc₁ : t₁.Closed)
    (hc₂ : t₂.Closed) (laid₁ : ∀ q, site q → t₁.Laid q) (laid₂ : ∀ q, site q → t₂.Laid q) :
    t₁ = t₂ := by
  apply Std.ExtTreeMap.ext_getElem?
  intro q
  rcases h₁ q with same₁ | ⟨absent, inside, folder⟩
  · rcases h₂ q with same₂ | ⟨absent, inside, folder⟩
    · exact same₁.trans same₂.symm
    · exact (h₁.folder_of_laid laid₁ h₂ hc₂ absent inside folder).trans folder.symm
  · exact folder.trans (h₂.folder_of_laid laid₂ h₁ hc₁ absent inside folder).symm

end Tree

namespace Storage

/-- `w'` is `w` after folders were put at some of the paths of a site. -/
structure Tended (site : Path → Prop) (w w' : World) : Prop where
  offline : w'.remote.offline = w.remote.offline
  closed : w.remote.tree.Closed → w'.remote.tree.Closed
  built : w.remote.tree.Built w'.remote.tree site

variable {s : Storage} {thread : Nat} {id : ChunkId} {fossil : Bool} {site : Path → Prop}
  {w w₀ w' w'' : World} {α ι : Type} {ids : ι → ChunkId}

theorem Tended.refl (site : Path → Prop) (w : World) : Tended site w w :=
  ⟨rfl, fun closed => closed, .refl _ _⟩

theorem Tended.trans (h : Tended site w w') (h' : Tended site w' w'') : Tended site w w'' where
  offline := h'.offline.trans h.offline
  closed closed := h'.closed (h.closed closed)
  built := h.built.trans h'.built

theorem Tended.of_became (became : w.Became w.remote.tree w') : Tended site w w' where
  offline := became.offline
  closed closed := became.tree ▸ closed
  built := became.tree ▸ .refl _ _

/-- The last of the shard folders down to `level` that a search creates if it is missing. -/
def floor (s : Storage) (id : ChunkId) (level : Nat) : Path :=
  s.shardPath id (min s.nesting level)

/-- The folders that searches for these ids may create: those that they look for, and what is
created for one of them above it. -/
def Site (s : Storage) (ids : ι → ChunkId) (q : Path) : Prop :=
  0 < s.nesting ∧ ∃ i, q.segments <+: (s.floor (ids i) (ids i).levels).segments

theorem floor_above {level : Nat} (h : level ≤ s.nesting) :
    s.floor id level = s.shardPath id level := by
  rw [floor, Nat.min_eq_right h]

theorem floor_within {level : Nat} (h : s.nesting ≤ level) :
    s.floor id level = s.shardPath id s.nesting := by
  rw [floor, Nat.min_eq_left h]

theorem floor_mono {k l : Nat} (h : k ≤ l) :
    (s.floor id k).segments <+: (s.floor id l).segments :=
  s.shardPath_prefix id (by omega)

/-- The folders that searches may create are above every path that decides how one ends. -/
theorem Site.shallow {q : Path} (h : s.Site ids q) :
    q.segments.length ≤ s.root.segments.length + (s.nesting + 1) := by
  obtain ⟨-, i, above⟩ := h
  have := above.length_le
  rw [floor, length_shardPath] at this
  omega

/-- A search that began in the state `w₀`, together with those for `ids`, has come down to
`level` in the state `w`. -/
structure Underway (s : Storage) (ids : ι → ChunkId) (id : ChunkId) (level : Nat) (w₀ w : World) :
    Prop where
  tended : Tended (s.Site ids) w₀ w
  laid : 0 < min s.nesting level → w.remote.tree.Laid (s.floor id level)

namespace Underway

variable {level : Nat}

theorem moved (u : s.Underway ids id level w₀ w) (move : Tended (s.Site ids) w w') :
    s.Underway ids id level w₀ w' where
  tended := u.tended.trans move
  laid created := move.built.laid (u.laid created)

theorem online (u : s.Underway ids id level w₀ w) (online : w₀.remote.offline = false) :
    w.remote.offline = false :=
  u.tended.offline.trans online

theorem closed (u : s.Underway ids id level w₀ w) (closed : w₀.remote.tree.Closed) :
    w.remote.tree.Closed :=
  u.tended.closed closed

theorem bottom (u : s.Underway ids id level w₀ w) (nested : s.nesting ≤ level) {lower : Nat}
    (still : s.nesting ≤ lower) : s.Underway ids id lower w₀ w where
  tended := u.tended
  laid created := by
    have before := u.laid (by omega)
    rw [floor_within nested] at before
    rw [floor_within still]
    exact before

theorem next (u : s.Underway ids id level w₀ w)
    (laid : level < s.nesting → w.remote.tree.Laid (s.shardPath id (level + 1))) :
    s.Underway ids id (level + 1) w₀ w := by
  rcases Nat.lt_or_ge level s.nesting with above | nested
  · constructor
    · exact u.tended
    · intro created
      rw [floor_above above]
      exact laid above
  · exact u.bottom nested (Nat.le_succ_of_le nested)

theorem deep (u : s.Underway ids id level w₀ w) {q : Path}
    (below : s.root.segments.length + (s.nesting + 1) < q.segments.length) :
    w.remote.tree[q]? = w₀.remote.tree[q]? :=
  u.tended.built.outside fun inside => Nat.not_le.2 below inside.shallow

theorem file_kept (u : s.Underway ids id level w₀ w) {k : Nat} (nested : s.nesting ≤ k) :
    w.remote.tree[s.chunkPath id k fossil]? = w₀.remote.tree[s.chunkPath id k fossil]? :=
  u.deep (by rw [length_chunkPath]; omega)

theorem shard_kept (u : s.Underway ids id level w₀ w) {k : Nat} (nested : s.nesting ≤ k) :
    w.remote.tree[s.shardPath id (k + 1)]? = w₀.remote.tree[s.shardPath id (k + 1)]? :=
  u.deep (by rw [length_shardPath]; omega)

end Underway

section Searcher

variable (h : thread < s.clients.size) (hr : s.root.Canonical) {budget : Nat}
  {Q : Except Failure α → World → Prop}
include h hr

theorem accords_stat (online : w.remote.offline = false) {p : Path} (hp : p.Canonical)
    {next : FileInfo → Program Directory.interface α}
    (rest : ∀ w', Tended site w w' →
      ((next (w'.remote.tree.info (s.root.resolve p))).interpret (s.directory budget)).Accords
        World.serve (Tended site) Q w') :
    (((Directory.stat thread p.toString).bind next).interpret (s.directory budget)).Accords
      World.serve (Tended site) Q w := by
  rw [interpret_stat h, remotePath_toString s hp]
  intro w' move
  obtain ⟨reply, became⟩ := World.answer_getMetadata (move.offline.trans online) (hr.resolve hp)
  have still : Tended site w' (w'.answer (.getMetadata (s.root.resolve p).toString)).2 :=
    .of_became became
  constructor
  · exact still
  · have after := rest _ (move.trans still)
    rw [became.tree] at after
    rw [World.serve]
    dsimp only
    rw [reply]
    exact after

theorem accords_create (online : w.remote.offline = false) (closed : w.remote.tree.Closed)
    {p : Path} (hp : p.Canonical)
    (inside : ∀ q : Path, q.segments <+: (s.root.resolve p).segments → site q)
    {next : Unit → Program Directory.interface α}
    (rest : ∀ w', Tended site w w' → w'.remote.tree.Laid (s.root.resolve p) →
      ((next ()).interpret (s.directory budget)).Accords World.serve (Tended site) Q w') :
    (((Directory.create thread p.toString).bind next).interpret (s.directory budget)).Accords
      World.serve (Tended site) Q w := by
  rw [interpret_create h, remotePath_toString s hp]
  intro w' move
  have closed' := move.closed closed
  rw [World.serve, World.answer_createFolder (move.offline.trans online) (hr.resolve hp)]
  dsimp only
  rw [createAnswer_createFolder closed']
  have built : Tended site w' (w'.answered (.createFolder (s.root.resolve p).toString)
      (w'.remote.tree.createFolder (s.root.resolve p)).2) := by
    constructor
    · rfl
    · intro closed
      exact closed.createFolder (hr.resolve hp)
    · exact Tree.Built.mono (closed'.paved_createFolder _) inside
  constructor
  · exact built
  · exact rest _ (move.trans built) (closed'.laid_createFolder _)

/-- Whatever state the other searches have brought about, the one that has come down to `level`
goes on to the end that the tree at the beginning decides. -/
theorem accords_descend (online : w₀.remote.offline = false) (closed : w₀.remote.tree.Closed)
    {i : ι} {remaining level : Nat} (hi : ids i = id) (hl : level + remaining = id.levels)
    (passed : s.Passed id fossil w₀.remote.tree 0 level) (u : s.Underway ids id level w₀ w) :
    ((Locator.descend s.nesting thread id fossil remaining level (id.folder level)).interpret
      (s.directory budget)).Accords World.serve (Tended (s.Site ids))
      (fun r w' => s.Ends id fossil w₀.remote.tree 0 r ∧ s.Underway ids id id.levels w₀ w') w := by
  induction remaining generalizing level w with
  | zero =>
    obtain rfl : level = id.levels := by omega
    intro w' move
    exact ⟨.exhausted passed, u.moved move⟩
  | succ remaining ih =>
    have within : level < id.levels := by omega
    have below : level + 1 + remaining = id.levels := by omega
    have next : (id.folder (level + 1)).Canonical := id.canonical_folder within
    rcases Nat.lt_or_ge level s.nesting with above | nested
    · have passed := passed.snoc fun nested => absurd nested (Nat.not_le.2 above)
      rw [Locator.descend_above above within]
      apply accords_stat h hr (u.online online) next
      intro w₁ move
      have u₁ := u.moved move
      split
      · rename_i present
        rw [Tree.info_present, ← shardPath] at present
        exact ih below passed (u₁.next fun _ _ => present)
      · -- Another search may create the folder before this one does, or a file be above it.
        apply accords_create h hr (u₁.online online) (u₁.closed closed) next
        · intro q inside
          refine ⟨by omega, i, ?_⟩
          rw [hi]
          rw [← shardPath, ← floor_above above] at inside
          exact inside.trans (floor_mono within)
        · intro w₂ move laid
          exact ih below passed ((u₁.moved move).next fun _ => laid)
    · rw [Locator.descend_within nested within]
      apply accords_stat h hr (u.online online) (id.canonical_place within fossil)
      intro w₁ move
      have u₁ := u.moved move
      split
      · rename_i present
        -- What others create is not this deep, so the file is as it was at the beginning.
        have seen : w₁.remote.tree.info (s.chunkPath id level fossil) =
            w₀.remote.tree.info (s.chunkPath id level fossil) := by
          rw [Tree.info, Tree.info, u₁.file_kept nested]
        rw [← chunkPath, seen] at present ⊢
        intro w' move
        have found := Ends.found nested (Nat.zero_le level) within passed (Tree.info_present.1 present)
        exact ⟨found, (u₁.moved move).bottom nested (by omega)⟩
      · rename_i absent
        rw [Tree.info_present, not_not, ← chunkPath, u₁.file_kept nested] at absent
        apply accords_stat h hr (u₁.online online) next
        intro w₂ move
        have u₂ := u₁.moved move
        split
        · rename_i shard
          rw [Tree.info_present, ← shardPath, u₂.shard_kept nested] at shard
          have laid : level < s.nesting → w₂.remote.tree.Laid (s.shardPath id (level + 1)) :=
            fun above => absurd nested (Nat.not_le.2 above)
          exact ih below (passed.snoc fun _ => ⟨absent, shard⟩) (u₂.next laid)
        · rename_i last
          rw [Tree.info_present, not_not, ← shardPath, u₂.shard_kept nested] at last
          intro w' move
          have missing := Ends.missing nested (Nat.zero_le level) within passed absent last
          exact ⟨missing, (u₂.moved move).bottom nested (by omega)⟩

theorem accords_findChunk (online : w₀.remote.offline = false) (closed : w₀.remote.tree.Closed)
    (ids : ι → ChunkId) (i : ι) (fossil : Bool) :
    (s.findChunk thread (ids i) fossil).Accords World.serve (Tended (s.Site ids))
      (fun r w' => s.Ends (ids i) fossil w₀.remote.tree 0 r ∧
        s.Underway ids (ids i) (ids i).levels w₀ w') w₀ := by
  apply accords_descend h hr online closed rfl (by omega) (.refl ..)
  constructor
  · exact .refl _ w₀
  · intro created
    omega

end Searcher

def searchers (s : Storage) (thread : ι → Nat) (ids : ι → ChunkId) (fossil : ι → Bool) (w : World) :
    Crew interface World ι ChunkLocation where
  state := w
  members i := s.findChunk (thread i) (ids i) (fossil i)

/-- When all searches have ended, all that any of them may create is laid. -/
theorem laid_of_underway (closed : w.remote.tree.Closed)
    (all : ∀ i, s.Underway ids (ids i) (ids i).levels w₀ w) :
    ∀ q, s.Site ids q → w.remote.tree.Laid q := by
  intro q ⟨nesting, i, above⟩
  have laid := (all i).laid (Nat.lt_min.2 ⟨nesting, (ids i).levels_pos⟩)
  exact closed.laid_above laid above

/-- Two schedules that bring all searches to their ends leave one tree. -/
theorem tree_unique {w₁ w₂ : World} (closed : w₀.remote.tree.Closed)
    (all₁ : ∀ i, s.Underway ids (ids i) (ids i).levels w₀ w₁)
    (all₂ : ∀ i, s.Underway ids (ids i) (ids i).levels w₀ w₂) (h₁ : Tended (s.Site ids) w₀ w₁)
    (h₂ : Tended (s.Site ids) w₀ w₂) : w₁.remote.tree = w₂.remote.tree := by
  have closed₁ := h₁.closed closed
  have closed₂ := h₂.closed closed
  exact h₁.built.unique h₂.built closed₁ closed₂ (laid_of_underway closed₁ all₁)
    (laid_of_underway closed₂ all₂)

/-- Any number of workers look for chunks at the same time, each for any id, live or fossil, in
any state of the service that it can come to. Whoever's turn it is when, all of them can come
to an end, and each ends with the chunk's location, or in the one failure of a search, as it
would if it were alone. When all have ended the tree is the same whatever the schedule was. -/
theorem findChunk_commutes {m : Memory} (hm : m.Reachable) (online : m.offline = false)
    (hr : s.root.Canonical) (now : Millis) {count : Nat} {thread : Fin count → Nat}
    (workers : ∀ i, thread i < s.clients.size) (ids : Fin count → ChunkId)
    (fossil : Fin count → Bool) :
    ∃ final : Tree, ∀ schedule : List (Fin count),
      let crew := (s.searchers thread ids fossil ⟨m, now⟩).follow World.serve schedule
      (∃ turns, ∀ i, ((crew.follow World.serve turns).members i).Ended) ∧
      (∀ i, (crew.members i).Ended → ∃ r, crew.members i = .ofExcept r ∧
        ((World.mk m now).run (s.findChunk (thread i) (ids i) (fossil i))).1 = some r ∧
        (r = .error (.chunkNestingExhausted (ids i).text (ids i).levels) ∨ ∃ loc, r = .ok loc)) ∧
      ((∀ i, (crew.members i).Ended) → crew.state.remote.tree = final) := by
  have online : (World.mk m now).remote.offline = false := online
  have closed : (World.mk m now).remote.tree.Closed := hm.sound.closed
  have alone i := accords_findChunk (workers i) hr online closed ids i (fossil i)
  have refl := Tended.refl (s.Site ids)
  have trans : ∀ w w' w'', Tended (s.Site ids) w w' → Tended (s.Site ids) w' w'' →
      Tended (s.Site ids) w w'' := fun _ _ _ => Tended.trans
  let start := s.searchers thread ids fossil ⟨m, now⟩
  have accord : start.InAccord World.serve (Tended (s.Site ids)) _ := alone
  have course := accord.follow refl trans
  have settled (schedule : List (Fin count))
      (ended : ∀ i, ((start.follow World.serve schedule).members i).Ended) (i : Fin count) :
      s.Underway ids (ids i) (ids i).levels ⟨m, now⟩ (start.follow World.serve schedule).state := by
    obtain ⟨r, -, -, underway⟩ := ((course schedule).2 i).ended refl (ended i)
    exact underway
  obtain ⟨turns, complete⟩ := start.ends_all World.serve
  refine ⟨(start.follow World.serve turns).state.remote.tree, fun schedule => ?_⟩
  refine ⟨(start.follow World.serve schedule).ends_all World.serve, ?_, ?_⟩
  · intro i ended
    obtain ⟨r, result, ends, -⟩ := ((course schedule).2 i).ended refl ended
    obtain ⟨r', run, ends', -⟩ := (alone i).run refl
    obtain rfl := ends.unique ends'
    exact ⟨r, result, run, ends.exhausted_or_ok⟩
  · intro ended
    exact tree_unique closed (settled schedule ended) (settled turns complete) (course schedule).1
      (course turns).1

/-- Searches for a chunk and for its fossil. -/
def race : Crew interface World (Fin 2) ChunkLocation :=
  (plain .root 1).searchers (fun _ => 0) (fun _ => ⟨"abcd", by decide⟩) (· == 1) ⟨{}, 0⟩

/-- Where the two take turns both see that the shard folder is missing, and the second that
creates it is refused. -/
theorem findChunk_commutes_race :
    let crossed := race.follow World.serve [0, 1, 0, 1, 0, 1, 0, 1]
    let queued := race.follow World.serve [1, 1, 1, 1, 0, 0, 0, 0]
    crossed.state.remote.tree = queued.state.remote.tree ∧
      ∃ r, crossed.members 1 = .ofExcept r ∧
        ((World.mk {} 0).run ((plain .root 1).findChunk 0 ⟨"abcd", by decide⟩ true)).1 = some r := by
  obtain ⟨final, all⟩ := findChunk_commutes (s := plain .root 1) .fresh rfl Path.canonical_root 0
    (fun _ : Fin 2 => Nat.one_pos) (fun _ => ⟨"abcd", by decide⟩) (· == 1)
  rw [← race] at all
  obtain ⟨-, results, crossed⟩ := all [0, 1, 0, 1, 0, 1, 0, 1]
  obtain ⟨-, -, queued⟩ := all [1, 1, 1, 1, 0, 0, 0, 0]
  obtain ⟨r, result, alone, -⟩ := results 1 (by decide +kernel)
  constructor
  · exact (crossed (by decide +kernel)).trans (queued (by decide +kernel)).symm
  · exact ⟨r, result, alone⟩

end Storage

end ChunkStore
