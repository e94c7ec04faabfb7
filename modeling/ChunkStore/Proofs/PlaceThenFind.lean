import ChunkStore.Proofs.ChunkSearch

/-!
# Writing a chunk where it was reported missing

A search takes anything at the path of a shard folder for that folder, also the file of a
shorter id. What it reports as the place of a missing chunk may then lie below a file. The
place can be written to exactly when no path above it is a file, and a chunk written there
is what the next search finds.
-/

namespace ChunkStore.Storage

open Memory (World)

variable {s : Storage} {thread : Nat} {w : World} {id : ChunkId} {fossil : Bool} {t t' : Tree}

/-- At levels where a file is looked for, only at the last can its path be that of a shard. -/
theorem chunkPath_not_shardPath {k l : Nat} (hk : k < l) (hl : l < id.levels) :
    s.chunkPath id k fossil ≠ s.shardPath id (k + 1) := by
  intro he
  have last : [id.fileName k fossil] = [id.shard k] := by
    rw [chunkPath_eq, shardPath_succ] at he
    exact (List.append_inj (congrArg Path.segments he) rfl).2
  exact id.shard_ne_fileName id fossil (by omega) (.inr (by omega)) (List.singleton_inj.1 last).symm

theorem chunkPath_before {l : Nat} {content : Bytes} (hl : l < id.levels)
    (hg : ∀ q : Path, t'[q]? = if q = s.chunkPath id l fossil then some (.file content)
      else if q ∈ (s.chunkPath id l fossil).ancestors then some .folder else t[q]?)
    {k : Nat} (hk : k < l) : t'[s.chunkPath id k fossil]? = t[s.chunkPath id k fossil]? := by
  rw [hg, if_neg, if_neg]
  · -- The folders above the new file are its shards, and no path in question is one of them.
    intro ha
    have above := (Path.mem_ancestors.1 ha).1
    have shard := s.shardPath_prefix_chunkPath id fossil (show k + 1 ≤ l by omega)
    have same := List.prefix_of_prefix_length_le above shard (by simp)
    have apart : s.chunkPath id k fossil ≠ s.shardPath id (k + 1) := chunkPath_not_shardPath hk hl
    exact apart <| congrArg Path.mk (same.eq_of_length (by simp))
  · intro he
    have := congrArg (fun p => p.segments.length) he
    simp at this
    omega

/-- A chunk is written at the place where it was reported missing, and found there at once,
exactly when nothing above that place is a file; else the write is refused as a conflict
and changes nothing. -/
theorem findChunk_after_upload {m : Memory} (hm : m.Reachable) (online : m.offline = false)
    (hr : s.root.Canonical) (h : thread < s.clients.size) {now : Millis} {loc : ChunkLocation}
    (find : (World.mk m now).run (s.findChunk thread id fossil) = (some (.ok loc), w))
    (missing : loc.present = false) (content : Bytes) :
    (m.tree.Unblocked (s.target loc.path) →
      ∃ w₁ w₂, w.run (s.upload thread loc.path content) = (some (.ok ()), w₁) ∧
        w₁.run (s.findChunk thread id fossil) =
          (some (.ok ⟨loc.path, true, content.length⟩), w₂)) ∧
    (¬m.tree.Unblocked (s.target loc.path) →
      ∃ subject w₁, w.run (s.upload thread loc.path content) =
          (some (.error (.conflict subject)), w₁) ∧ w₁.remote.tree = w.remote.tree) := by
  obtain ⟨r, w', run, searched⟩ :=
    run_findChunk (w := ⟨m, now⟩) h hr online hm.sound.closed id fossil
  rw [run] at find
  cases find
  have online' : w.remote.offline = false := searched.became.offline.trans online
  obtain ⟨l, nested, within, rfl, nowhere⟩ := searched.ends.of_absent searched.closed missing
  have target : s.target (id.place l fossil).toString = s.chunkPath id l fossil :=
    s.target_toString (id.canonical_place within fossil)
  obtain ⟨w₁, upload, became⟩ := run_upload h hr online' (id.place l fossil).toString content
  rw [target] at upload became
  rw [ChunkLocation.missing, target, ← searched.paved.unblocked_iff]
  rcases searched.closed.store_cases (s.chunkPath id l fossil) content with
    ⟨-, free, t₁, stored, hg⟩ | ⟨refused, subject, stored⟩
  · refine ⟨fun _ => ?_, fun blocked => absurd free blocked⟩
    have closed := searched.closed.store (hr.resolve (id.canonical_place within fossil)) content
    rw [stored] at upload became
    rw [← chunkPath, stored] at closed
    have file : w₁.remote.tree[s.chunkPath id l fossil]? = some (.file content) := by
      rw [became.tree, hg, if_pos rfl]
    -- Where the search looks before it comes to level `l`, the upload has put nothing.
    have before (k : Nat) (hk : s.nesting ≤ k) (hl : k < l) :
        w₁.remote.tree[s.chunkPath id k fossil]? = none := by
      rw [became.tree, chunkPath_before within hg hl]
      exact nowhere k hk (Nat.lt_trans hl within)
    obtain ⟨w₂, again⟩ := run_findChunk_found h hr (became.offline.trans online')
      (became.tree ▸ closed) nested within file before
    exact ⟨w₁, w₂, upload, again⟩
  · rw [stored] at upload became
    refine ⟨fun free => ?_, fun _ => ⟨subject, w₁, upload, became.tree⟩⟩
    rcases refused with folder | blocked
    · rw [nowhere l nested within] at folder
      cases folder
    · exact absurd free blocked

theorem findChunk_after_upload_fresh :
    ∃ w w₁ w₂, (World.mk {} 0).run ((plain .root 0).findChunk 0 ⟨"abcd", by decide⟩ false) =
        (some (.ok (.missing "/chunks/abcd")), w) ∧
      w.run ((plain .root 0).upload 0 "/chunks/abcd" [7]) = (some (.ok ()), w₁) ∧
      w₁.run ((plain .root 0).findChunk 0 ⟨"abcd", by decide⟩ false) =
        (some (.ok ⟨"/chunks/abcd", true, 1⟩), w₂) := by
  have find : (World.mk {} 0).run ((plain .root 0).findChunk 0 ⟨"abcd", by decide⟩ false) =
      (some (.ok (.missing "/chunks/abcd")), _) := rfl
  obtain ⟨w₁, w₂, upload, again⟩ := (findChunk_after_upload .fresh rfl Path.canonical_root
    Nat.one_pos find rfl [7]).1 (Memory.bare_unblocked _)
  exact ⟨_, w₁, w₂, find, upload, again⟩

/-- The file of the one-byte id `ab` stands where the shard folder of `abcd` would be. The
search reports a place below that file, where nothing can be written. -/
theorem upload_refused_below_file :
    ∃ w w₁ w₂ : World, w = ((World.mk {} 0).run ((plain .root 0).upload 0 "/chunks/ab" [7])).2 ∧
      w.remote.Reachable ∧ w.remote.offline = false ∧
      (plain .root 0).nesting < ChunkId.levels ⟨"abcd", by decide⟩ ∧
      w.run ((plain .root 0).findChunk 0 ⟨"abcd", by decide⟩ false) =
        (some (.ok (.missing "/chunks/ab/cd")), w₁) ∧
      w₁.run ((plain .root 0).upload 0 "/chunks/ab/cd" [7]) =
        (some (.error (.conflict "/chunks/ab")), w₂) := by
  have short (path : String) : (plain .root 0).upload 0 path [7] = _ :=
    upload_short Nat.one_pos path (by simp) (by decide)
  refine ⟨_, _, _, rfl, Memory.Reachable.fresh.run (w := World.mk {} 0) _, ?_, ?_,
    Prod.ext ?_ rfl, Prod.ext ?_ rfl⟩
  · rw [short]
    rfl
  · decide
  · rw [short]
    decide +kernel
  · rw [short, short]
    decide +kernel

end ChunkStore.Storage
