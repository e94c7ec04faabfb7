import ChunkStore.Proofs.ChunkSearch
import ChunkStore.Proofs.WalkOrder

/-!
# Enumerating the chunks of a service in memory

A walk that nothing interrupts sees one tree from beginning to end. Each listing is read to
its end before the next begins, so the walk reports every chunk file of that tree once, as
long as the numbers of the pages fit into the cursors.
-/

namespace ChunkStore.Storage

open Memory (World)

variable {s : Storage} {thread budget : Nat} {w : World} {α : Type}

theorem run_interpret_list (h : thread < s.clients.size) (hr : s.root.Canonical)
    (hw : w.remote.offline = false) (hm : w.remote.Sound) {p : Path} (hp : p.Canonical)
    (folder : w.remote.tree[s.root.resolve p]? = some .folder)
    (next : List ListEntry → Program Directory.interface α)
    (hs : (w.run (((Directory.list thread p.toString).bind next).interpret s.directory)).2.remote.served
      < Program.ample) :
    ∃ w' : World, w.run (((Directory.list thread p.toString).bind next).interpret s.directory) =
        w'.run ((next (w.remote.tree.entries (s.root.resolve p))).interpret s.directory) ∧
      w.remote.Alike w'.remote ∧ w'.remote.Sound ∧ w.remote.served < w'.remote.served := by
  rw [interpret_list] at hs ⊢
  have listed := Nat.lt_of_le_of_lt (Memory.served_bind _ _ w) hs
  rw [World.run, Program.run_attempt] at listed
  rw [← s.target_toString hp] at folder ⊢
  obtain ⟨w', run, paged⟩ := run_list h hr hw hm p.toString folder (.inl listed)
  have sound := hm.run (s.list thread p.toString)
  rw [run] at sound
  have more : w.remote.served < w'.remote.served := by
    rw [paged.served]
    omega
  refine ⟨w', ?_, paged.alike, sound, more⟩
  rw [World.run] at run
  rw [World.run, Program.run_bind, Program.run_attempt, run]
  rfl

/-- The walk over a queue of folders gathers what the queue does. Each folder takes at least
one page, so the budget is not used up before the numbers of pages are. -/
theorem run_visit (h : thread < s.clients.size) (hr : s.root.Canonical)
    (hw : w.remote.offline = false) (hm : w.remote.Sound)
    (hb : Program.ample ≤ w.remote.served + budget) {pending : List Walk.Shard}
    (folders : ∀ a ∈ pending, a.dir.Canonical ∧
      w.remote.tree[s.root.resolve a.dir]? = some .folder) (found : List ChunkListing)
    (hs : (w.run ((Walk.visit thread budget pending found).interpret s.directory)).2.remote.served
      < Program.ample) :
    ∃ out w', w.run ((Walk.visit thread budget pending found).interpret s.directory) =
        (some (.ok (found ++ out)), w') ∧ w.remote.Alike w'.remote ∧
      Walk.Gathered (Walk.subshards w.remote.tree s.root) (Walk.ownChunks w.remote.tree s.root)
        pending out := by
  induction budget generalizing w pending found with
  | zero =>
    -- Without budget the numbers of pages are used up from the start, which `hs` excludes.
    have := Memory.served_run ((Walk.visit thread 0 pending found).interpret s.directory) w
    omega
  | succ budget ih =>
    cases pending with
    | nil => exact ⟨[], w, by rw [List.append_nil]; rfl, ⟨rfl, rfl⟩, .nil⟩
    | cons a pending =>
      obtain ⟨canonical, folder⟩ := folders a (by simp)
      rw [Walk.visit, Program.bind_eq] at hs ⊢
      obtain ⟨w₁, run₁, alike₁, sound₁, more⟩ :=
        run_interpret_list h hr hw hm canonical folder _ hs
      rw [run₁] at hs ⊢
      have below : ∀ a' ∈ pending ++ Walk.subshards w.remote.tree s.root a,
          a'.dir.Canonical ∧ w₁.remote.tree[s.root.resolve a'.dir]? = some Node.folder := by
        intro a' ha
        rw [alike₁.tree]
        rcases List.mem_append.1 ha with ha | ha
        · exact folders a' (by simp [ha])
        · obtain ⟨name, shard, here, rfl⟩ := (Walk.mem_subshards hm.closed).1 ha
          exact ⟨canonical.child (Walk.isName_of_isShardName shard), here⟩
      obtain ⟨out, w', run, alike, gathered⟩ := ih (alike₁.offline.trans hw) sound₁ (by omega)
        below _ hs
      rw [alike₁.tree] at gathered
      refine ⟨_, w', ?_, alike₁.trans alike, .cons gathered⟩
      rw [← List.append_assoc]
      exact run

def shardTree : Walk.Shard := ⟨Locator.chunks, ""⟩

theorem run_listChunks_gathered (h : thread < s.clients.size) (hr : s.root.Canonical)
    (hw : w.remote.offline = false) (hm : w.remote.Sound)
    (hs : (w.run (s.listChunks thread)).2.remote.served < Program.ample) :
    ∃ found w', w.run (s.listChunks thread) = (some (.ok found), w') ∧
      w.remote.Alike w'.remote ∧
      (w.remote.tree[s.root.resolve Locator.chunks]? = some .folder ∧
          Walk.Gathered (Walk.subshards w.remote.tree s.root)
            (Walk.ownChunks w.remote.tree s.root) [shardTree] found ∨
        w.remote.tree[s.root.resolve Locator.chunks]? ≠ some .folder ∧ found = []) := by
  have canonical : Locator.chunks.Canonical := Path.canonical_parse _
  obtain ⟨w₁, run₁, became⟩ := run_interpret_stat h hr hw canonical Program.ample fun info =>
    if info.isDirectory then Walk.visit thread Program.ample [shardTree] [] else return []
  have alike₁ : w.remote.Alike w₁.remote := ⟨became.tree, became.offline⟩
  have sound₁ : w₁.remote.Sound :=
    ⟨became.tree ▸ hm.closed, became.listings ▸ became.served ▸ hm.numbered⟩
  have start : w.run (s.listChunks thread) = w₁.run (Program.interpret (s.directory Program.ample)
      (if (w.remote.tree.info (s.root.resolve Locator.chunks)).isDirectory then
        Walk.visit thread Program.ample [shardTree] [] else return [])) := run₁
  rw [start] at hs ⊢
  by_cases folder : w.remote.tree[s.root.resolve Locator.chunks]? = some .folder
  · rw [if_pos (Tree.info_isDirectory.2 folder)] at hs ⊢
    have top : ∀ a ∈ [shardTree], a.dir.Canonical ∧
        w₁.remote.tree[s.root.resolve a.dir]? = some Node.folder := by
      intro a ha
      rw [List.mem_singleton.1 ha, alike₁.tree]
      exact ⟨canonical, folder⟩
    obtain ⟨out, w', run, alike, gathered⟩ := run_visit h hr (alike₁.offline.trans hw) sound₁
      (Nat.le_add_left _ _) top [] hs
    rw [alike₁.tree] at gathered
    exact ⟨out, w', run, alike₁.trans alike, .inl ⟨folder, gathered⟩⟩
  · rw [if_neg (fun info => folder (Tree.info_isDirectory.1 info))]
    exact ⟨[], w₁, rfl, alike₁, .inr ⟨folder, rfl⟩⟩

theorem not_lies_of_not_folder {t : Tree} {root : Path} (h : t.Closed)
    (folder : t[root.resolve Locator.chunks]? ≠ some .folder) (e : ChunkListing) :
    ¬Walk.Lies t root shardTree e := by
  rintro ⟨names, name, content, -, here, -⟩
  refine folder (h.above _ (by rw [here]; simp) _ (Path.mem_ancestors.2 ⟨?_, ?_⟩))
  · simp [Path.resolve, shardTree]
  · simp [Path.resolve, shardTree]

/-- A walk reports the chunk files of the tree, each of them once. -/
theorem run_listChunks (h : thread < s.clients.size) (hr : s.root.Canonical)
    (hw : w.remote.offline = false) (hm : w.remote.Sound)
    (hs : (w.run (s.listChunks thread)).2.remote.served < Program.ample) :
    ∃ found w', w.run (s.listChunks thread) = (some (.ok found), w') ∧
      w.remote.Alike w'.remote ∧ found.Nodup ∧
      ∀ e, e ∈ found ↔ Walk.Lies w.remote.tree s.root shardTree e := by
  obtain ⟨found, w', run, alike, ⟨-, gathered⟩ | ⟨folder, rfl⟩⟩ :=
    run_listChunks_gathered h hr hw hm hs
  · have step : ∀ a e, Walk.Lies w.remote.tree s.root a e ↔ _ := Walk.lies_iff hm.closed
    refine ⟨found, w', run, alike, ?_, fun e => ?_⟩
    · exact (gathered.ordered hm.closed).nodup
    · rw [gathered.mem_iff step]
      simp
  · have none := not_lies_of_not_folder hm.closed folder
    exact ⟨[], w', run, alike, List.nodup_nil, fun e => by simp [none e]⟩

end ChunkStore.Storage
