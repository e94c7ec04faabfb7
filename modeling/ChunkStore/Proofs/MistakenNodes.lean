import ChunkStore.Proofs.ChunkSearch

/-!
# Nodes that a search takes for others

A search asks of a path whether something is there, never what. A folder at the place of a
file is reported as that file, although nothing can be read from it. Below the last level
there is no shard folder, but the path at which one is looked for is that of the live chunk
at this level: when a fossil is looked for, whatever stands there leads the search past the
last level, as if every folder existed and none held the file.
-/

namespace ChunkStore.Storage

open Memory (World)

variable {s : Storage} {thread : Nat} {w : World} {id : ChunkId} {fossil : Bool} {t : Tree}

/-- A file that a search found can be read, and it has the size that was reported. A folder
that was taken for the file is reported as empty, and reading it is refused. -/
theorem findChunk_readable {m : Memory} (hm : m.Reachable) (online : m.offline = false)
    (hr : s.root.Canonical) (h : thread < s.clients.size) {now : Millis} {loc : ChunkLocation}
    (find : (World.mk m now).run (s.findChunk thread id fossil) = (some (.ok loc), w))
    (present : loc.present = true) :
    (m.tree[s.target loc.path]? ≠ some .folder →
      ∃ content w', w.run (s.download thread loc.path) = (some (.ok content), w') ∧
        content.length = loc.size) ∧
    (m.tree[s.target loc.path]? = some .folder → loc.size = 0 ∧
      ∃ w', w.run (s.download thread loc.path) =
        (some (.error (.notAFile (s.remotePath loc.path))), w')) := by
  obtain ⟨r, w', run, searched⟩ :=
    run_findChunk (w := ⟨m, now⟩) h hr online hm.sound.closed id fossil
  rw [run] at find
  cases find
  obtain ⟨l, nested, within, rfl, node, -⟩ := searched.ends.of_present present
  have target : s.target (id.place l fossil).toString = s.chunkPath id l fossil :=
    s.target_toString (id.canonical_place within fossil)
  have same : w.remote.tree[s.chunkPath id l fossil]? = m.tree[s.chunkPath id l fossil]? :=
    chunkPath_of_paved searched.paved nested
  obtain ⟨w₁, download, -⟩ :=
    run_download h hr (searched.became.offline.trans online) (id.place l fossil).toString
  rw [ChunkLocation.found, remotePath_eq, target, ← same]
  rw [target, Tree.fetch, Std.ExtTreeMap.get?_eq_getElem?] at download
  cases here : w.remote.tree[s.chunkPath id l fossil]? with
  | none => exact absurd here node
  | some kind =>
    rw [here] at download
    cases kind with
    | folder =>
      have empty : (w.remote.tree.info (s.chunkPath id l fossil)).size = 0 := by
        rw [Tree.info, here]
        rfl
      exact ⟨fun file => absurd rfl file, fun _ => ⟨empty, w₁, download⟩⟩
    | file content =>
      have size := congrArg FileInfo.size (Tree.info_file here)
      constructor
      · exact fun _ => ⟨content, w₁, download, size.symm⟩
      · intro folder
        cases folder

theorem findChunk_readable_file :
    ∃ w w' content, (World.mk (({} : Memory).putFile "/chunks/ab/cd" [7, 8]).2 0).run
        ((plain .root 0).findChunk 0 ⟨"abcd", by decide⟩ false) =
        (some (.ok (.found "/chunks/ab/cd" 2)), w) ∧
      w.run ((plain .root 0).download 0 "/chunks/ab/cd") = (some (.ok content), w') ∧
      content.length = 2 := by
  have find : (World.mk (({} : Memory).putFile "/chunks/ab/cd" [7, 8]).2 0).run
      ((plain .root 0).findChunk 0 ⟨"abcd", by decide⟩ false) =
      (some (.ok (.found "/chunks/ab/cd" 2)), _) := rfl
  have file : (({} : Memory).putFile "/chunks/ab/cd" [7, 8]).2.tree[
      (plain .root 0).target "/chunks/ab/cd"]? ≠ some .folder := by
    decide +kernel
  obtain ⟨content, w', download, size⟩ :=
    (findChunk_readable (.putFile "/chunks/ab/cd" [7, 8] .fresh) rfl Path.canonical_root
      Nat.one_pos find rfl).1 file
  exact ⟨_, w', content, find, download, size⟩

/-- The folder `/chunks/ab`, which is there for longer ids, is reported as the file of the
chunk `ab`. -/
theorem findChunk_takes_folder :
    ∃ w w₁ w₂ : World,
      w = ((World.mk {} 0).run ((plain .root 0).createDirectory 0 "/chunks/ab")).2 ∧
      w.remote.Reachable ∧ w.remote.offline = false ∧
      w.run ((plain .root 0).findChunk 0 ⟨"ab", by decide⟩ false) =
        (some (.ok (.found "/chunks/ab" 0)), w₁) ∧
      w₁.run ((plain .root 0).download 0 "/chunks/ab") =
        (some (.error (.notAFile "/chunks/ab")), w₂) := by
  refine ⟨_, _, _, rfl, Memory.Reachable.fresh.run (w := World.mk {} 0) _, rfl, Prod.ext ?_ rfl,
    Prod.ext ?_ rfl⟩
  · decide +kernel
  · decide +kernel

theorem shardPath_levels (s : Storage) (id : ChunkId) (h : 0 < id.levels) :
    s.shardPath id id.levels = s.chunkPath id (id.levels - 1) false := by
  obtain ⟨l, hl⟩ : ∃ l, id.levels = l + 1 := ⟨id.levels - 1, by omega⟩
  have last : id.shard l = id.fileName l false := by
    have digits := id.length_digits
    rw [← String.toList_inj, ChunkId.toList_shard, ChunkId.toList_fileName]
    simp only [Bool.false_eq_true, ↓reduceIte, List.append_nil]
    exact List.take_of_length_le (by rw [List.length_drop]; omega)
  rw [hl, Nat.add_sub_cancel, shardPath_succ, chunkPath_eq, last]

/-- What leads a search past the last level: that there is no level to look at, or, of a
fossil that is nowhere, that something stands where the live chunk has its last place. -/
def Overrun (s : Storage) (id : ChunkId) (fossil : Bool) (t : Tree) : Prop :=
  id.levels ≤ s.nesting ∨
    fossil = true ∧ t[s.chunkPath id (id.levels - 1) false]? ≠ none ∧
      ∀ k, s.nesting ≤ k → k < id.levels → t[s.chunkPath id k true]? = none

theorem Ends.exhausted_iff (hc : t.Closed) {r : Except Failure ChunkLocation}
    (h : s.Ends id fossil t 0 r) :
    r = .error (.chunkNestingExhausted id.text id.levels) ↔ s.Overrun id fossil t := by
  cases h with
  | @found l nested later within passed node =>
    simp only [reduceCtorEq, false_iff, Overrun, not_or, not_and]
    refine ⟨by omega, ?_⟩
    rintro rfl - nowhere
    exact node (nowhere l nested within)
  | @missing l nested later within passed absent last =>
    simp only [reduceCtorEq, false_iff, Overrun, not_or, not_and]
    refine ⟨by omega, fun _ node => absurd ?_ node⟩
    -- The last place of the live chunk is the missing shard folder, or lies below it.
    rw [← s.shardPath_levels id (by omega)]
    exact hc.none_below last (s.shardPath_prefix id within)
  | exhausted passed =>
    refine ⟨fun _ => ?_, fun _ => rfl⟩
    rcases Nat.lt_or_ge s.nesting id.levels with room | full
    · -- The search took the node at the last place of the live chunk for a shard folder.
      have bottom := passed.shards (id.levels - 1) (by omega) (Nat.zero_le _) (by omega)
      rw [Nat.sub_add_cancel (by omega), s.shardPath_levels id (by omega)] at bottom
      have absent : ∀ k, s.nesting ≤ k → k < id.levels → t[s.chunkPath id k fossil]? = none :=
        fun k nested within => passed.absent k nested (Nat.zero_le _) within
      cases fossil with
      | false => exact absurd (absent (id.levels - 1) (by omega) (by omega)) bottom
      | true => exact .inr ⟨rfl, bottom, absent⟩
    · exact .inl full

theorem Ends.exhausted_or_ok {r : Except Failure ChunkLocation} (h : s.Ends id fossil t 0 r) :
    r = .error (.chunkNestingExhausted id.text id.levels) ∨ ∃ loc, r = .ok loc := by
  cases h with
  | found => exact .inr ⟨_, rfl⟩
  | missing => exact .inr ⟨_, rfl⟩
  | exhausted => exact .inl rfl

/-- A search of a service that can be reached fails in one way only, and it tells from the
tree at the beginning whether it does. A live chunk is never searched past the last level
unless the least nesting leaves it none. -/
theorem findChunk_exhausted_iff {m : Memory} (hm : m.Reachable) (online : m.offline = false)
    (hr : s.root.Canonical) (h : thread < s.clients.size) (now : Millis) (id : ChunkId)
    (fossil : Bool) :
    ∃ r w', (World.mk m now).run (s.findChunk thread id fossil) = (some r, w') ∧
      (r = .error (.chunkNestingExhausted id.text id.levels) ↔ s.Overrun id fossil m.tree) ∧
      (¬s.Overrun id fossil m.tree → ∃ loc, r = .ok loc) := by
  obtain ⟨r, w', run, searched⟩ :=
    run_findChunk (w := ⟨m, now⟩) h hr online hm.sound.closed id fossil
  have same (k : Nat) (g : Bool) (hk : s.nesting ≤ k) :
      w'.remote.tree[s.chunkPath id k g]? = m.tree[s.chunkPath id k g]? :=
    chunkPath_of_paved searched.paved hk
  have overrun : s.Overrun id fossil w'.remote.tree ↔ s.Overrun id fossil m.tree := by
    by_cases full : id.levels ≤ s.nesting
    · simp [Overrun, full]
    · simp +contextual [Overrun, full, same, show s.nesting ≤ id.levels - 1 by omega]
  have exhausted := (searched.ends.exhausted_iff searched.closed).trans overrun
  exact ⟨r, w', run, exhausted, fun free =>
    searched.ends.exhausted_or_ok.resolve_left fun he => free (exhausted.1 he)⟩

/-- The fossil of `abcd` is looked for at the second level only, where the live chunk has its
last place. -/
theorem findChunk_exhausted_iff_live :
    ∃ w', (World.mk (({} : Memory).putFile "/chunks/ab/cd" [7]).2 0).run
        ((plain .root 1).findChunk 0 ⟨"abcd", by decide⟩ true) =
        (some (.error (.chunkNestingExhausted "abcd" 2)), w') ∧
      (plain .root 1).Overrun ⟨"abcd", by decide⟩ true
        (({} : Memory).putFile "/chunks/ab/cd" [7]).2.tree := by
  obtain ⟨r, w', run, exhausted, -⟩ := findChunk_exhausted_iff (s := plain .root 1)
    (.putFile "/chunks/ab/cd" [7] .fresh) rfl Path.canonical_root Nat.one_pos 0
    ⟨"abcd", by decide⟩ true
  have value : ((World.mk (({} : Memory).putFile "/chunks/ab/cd" [7]).2 0).run
      ((plain .root 1).findChunk 0 ⟨"abcd", by decide⟩ true)).1 =
      some (.error (.chunkNestingExhausted "abcd" 2)) := rfl
  rw [run] at value
  cases value
  exact ⟨w', run, exhausted.1 rfl⟩

/-- Where the live chunk `ab` is stored and its fossil is not, the search for the fossil ends
in the failure that callers take for a corrupt store. -/
theorem findChunk_exhausted_beside_live :
    ∃ w w₁ : World, w = ((World.mk {} 0).run ((plain .root 0).upload 0 "/chunks/ab" [7])).2 ∧
      w.remote.Reachable ∧ w.remote.offline = false ∧
      (plain .root 0).nesting < ChunkId.levels ⟨"ab", by decide⟩ ∧
      w.run ((plain .root 0).findChunk 0 ⟨"ab", by decide⟩ true) =
        (some (.error (.chunkNestingExhausted "ab" 1)), w₁) := by
  have short (path : String) : (plain .root 0).upload 0 path [7] = _ :=
    upload_short Nat.one_pos path (by simp) (by decide)
  refine ⟨_, _, rfl, Memory.Reachable.fresh.run (w := World.mk {} 0) _, ?_, ?_, Prod.ext ?_ rfl⟩
  · rw [short]
    rfl
  · decide
  · rw [short]
    decide +kernel

end ChunkStore.Storage
