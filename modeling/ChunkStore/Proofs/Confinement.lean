import ChunkStore.Proofs.ChunkSearch
import ChunkStore.Proofs.ServiceHistory
import ChunkStore.Proofs.StorageOperations

/-!
# Storages stay within their roots

Several storages may share one service, each below a root of its own. A text given to an
operation is brought into normal form before it is put below the root, so the operation names
no path outside; and what the service does about paths within a root changes nothing outside
of it, except that missing folders above the root may come to exist. A name that the root's
name begins, such as `/ab` for `/a`, is outside: paths are compared segment by segment.
-/

namespace ChunkStore

namespace Tree

variable {root p q source target : Path} {t t' t'' : Tree}

/-- Outside `root`, `t'` is `t` but for folders above `root` that were missing. -/
def Confined (root : Path) (t t' : Tree) : Prop :=
  ∀ q : Path, q.isWithin root = false →
    t'[q]? = t[q]? ∨ t[q]? = none ∧ q ∈ root.ancestors ∧ t'[q]? = some .folder

theorem Confined.refl (root : Path) (t : Tree) : t.Confined root t :=
  fun _ _ => .inl rfl

theorem Confined.of_eq (root : Path) (same : t' = t) : t.Confined root t' := by
  rw [same]
  exact .refl root t

theorem Confined.trans (h : t.Confined root t') (h' : t'.Confined root t'') :
    t.Confined root t'' := by
  intro q outside
  rcases h q outside with same | ⟨missing, above, folder⟩
  · have later := h' q outside
    rwa [same] at later
  · -- The second change finds the folder in place, so it has not made it.
    rcases h' q outside with same | ⟨gone, -, -⟩
    · exact .inr ⟨missing, above, same.trans folder⟩
    · rw [folder] at gone
      cases gone

theorem not_within_of_outside (hp : root.segments <+: p.segments)
    (outside : q.isWithin root = false) : ¬p.segments <+: q.segments := by
  intro below
  have within : q.isWithin root = true := Path.isWithin_iff.2 (hp.trans below)
  rw [outside] at within
  cases within

theorem mem_ancestors_of_outside (hp : root.segments <+: p.segments) (above : q ∈ p.ancestors)
    (outside : q.isWithin root = false) : q ∈ root.ancestors := by
  obtain ⟨up, -⟩ := Path.mem_ancestors.1 above
  have shorter : q.segments.length < root.segments.length := by
    by_contra long
    have below : root.segments <+: q.segments :=
      List.prefix_of_prefix_length_le hp up (Nat.le_of_not_lt long)
    exact not_within_of_outside (List.prefix_refl _) outside below
  apply Path.mem_ancestors.2
  constructor
  · exact List.prefix_of_prefix_length_le up hp (Nat.le_of_lt shorter)
  · exact shorter

/-- A change is confined if all that it does outside `root` is to make sure of the folders
above a path within `root`. -/
theorem Unblocked.confined (free : t.Unblocked p) (hp : root.segments <+: p.segments)
    (hg : ∀ q : Path, q.isWithin root = false →
      t'[q]? = if q ∈ p.ancestors then some .folder else t[q]?) : t.Confined root t' := by
  intro q outside
  rw [hg q outside]
  by_cases above : q ∈ p.ancestors
  · -- No file stands in the way, so a folder is there or nothing is.
    rw [if_pos above]
    cases node : t[q]? with
    | none => exact .inr ⟨rfl, mem_ancestors_of_outside hp above outside, rfl⟩
    | some kind =>
      cases kind with
      | folder => exact .inl rfl
      | file content => exact absurd node (free q above content)
  · rw [if_neg above]
    exact .inl rfl

theorem Unblocked.confined_grow (free : t.Unblocked p) (hp : root.segments <+: p.segments)
    {node : Node} (hg : ∀ q : Path, t'[q]? = if q = p then some node
      else if q ∈ p.ancestors then some .folder else t[q]?) : t.Confined root t' := by
  apply free.confined hp
  intro q outside
  have other : q ≠ p := by
    intro same
    exact not_within_of_outside hp outside (same ▸ List.prefix_refl _)
  rw [hg, if_neg other]

theorem Closed.confined_createFolder (h : t.Closed) (hp : root.segments <+: p.segments) :
    t.Confined root (t.createFolder p).2 := by
  rcases h.createFolder_cases p with ⟨-, free, t', created, hg⟩ | ⟨-, subject, refused⟩
  · rw [created]
    exact free.confined_grow hp hg
  · rw [refused]
    exact .refl root t

theorem Closed.confined_store (h : t.Closed) (hp : root.segments <+: p.segments)
    (content : Bytes) : t.Confined root (t.store p content).2 := by
  rcases h.store_cases p content with ⟨-, free, t', stored, hg⟩ | ⟨-, subject, refused⟩
  · rw [stored]
    exact free.confined_grow hp hg
  · rw [refused]
    exact .refl root t

theorem confined_delete (t : Tree) (hp : root.segments <+: p.segments) :
    t.Confined root (t.delete p).2 := by
  rcases delete_cases t p with ⟨-, -, t', deleted, hg⟩ | ⟨-, -, refused⟩ | ⟨-, detail, refused⟩
  · rw [deleted]
    intro q outside
    have apart : ¬q.isWithin p = true := by
      rw [Path.isWithin_iff]
      exact not_within_of_outside hp outside
    rw [hg, if_neg apart]
    exact .inl rfl
  · rw [refused]
    exact .refl root t
  · rw [refused]
    exact .refl root t

theorem Closed.confined_move (h : t.Closed) (hs : root.segments <+: source.segments)
    (ht : root.segments <+: target.segments) : t.Confined root (t.move source target).2 := by
  rcases h.move_cases source target with ⟨-, -, -, -, free, t', moved, grafted⟩ | ⟨-, refused⟩ |
    ⟨-, -, refused⟩ | ⟨-, -, -, detail, refused⟩ | ⟨-, -, -, subject, refused⟩
  · rw [moved]
    apply free.confined ht
    intro q outside
    exact grafted.outside (not_within_of_outside ht outside) (not_within_of_outside hs outside)
  all_goals
    rw [refused]
    exact .refl root t

end Tree

namespace Memory

variable {m : Memory} {root : Path} {α : Type}

theorem tree_receive {record : Record} {serve : Memory → Except Failure α × Memory}
    (hs : ∀ m' : Memory, (serve m').2.tree = m'.tree) : (m.receive record serve).2.tree = m.tree := by
  unfold receive
  dsimp only
  split
  · rfl
  · exact hs _

theorem tree_listFolder (path : String) : (m.listFolder path).2.tree = m.tree := by
  apply tree_receive
  intro m'
  dsimp only
  split <;> rfl

theorem tree_listFolderContinue (cursor : String) :
    (m.listFolderContinue cursor).2.tree = m.tree := by
  apply tree_receive
  intro m'
  dsimp only
  split <;> rfl

theorem tree_getMetadata (path : String) : (m.getMetadata path).2.tree = m.tree := by
  apply tree_receive
  intro m'
  split <;> rfl

theorem tree_download (path : String) : (m.download path).2.tree = m.tree :=
  tree_receive fun _ => rfl

theorem tree_openUpload (path : String) : (m.openUpload path).2.tree = m.tree :=
  tree_receive fun _ => rfl

theorem confined_onTree {record : Record} {change : Tree → Except Failure α × Tree}
    (h : m.tree.Confined root (change m.tree).2) :
    m.tree.Confined root (m.receive record (·.onTree change)).2.tree := by
  unfold receive onTree
  dsimp only
  split
  · exact .refl root m.tree
  · exact h

theorem Sound.confined_upload (h : m.Sound) {path : String}
    (within : root.segments <+: (Path.parse path).segments) (body : Source) (now : Millis) :
    m.tree.Confined root (m.upload path body now).2.1.tree := by
  have kept : (m.openUpload path).2.tree = m.tree := tree_openUpload path
  rcases upload_cases m path body now with ⟨e, -, same⟩ | ⟨content, -, stored⟩
  · rw [same]
    exact .of_eq root kept
  · have closed : (m.openUpload path).2.tree.Closed := (h.openUpload path).closed
    rw [stored, ← kept]
    exact closed.confined_store within content

/-- A call about paths within `root` is confined to it. -/
theorem Sound.confined_answer (h : m.Sound) (c : Remote.Call) (now : Millis)
    (within : ∀ path ∈ c.paths, root.segments <+: (Path.parse path).segments) :
    m.tree.Confined root ((World.mk m now).answer c).2.remote.tree := by
  cases c with
  | listFolder path => exact .of_eq root (tree_listFolder path)
  | listFolderContinue cursor => exact .of_eq root (tree_listFolderContinue cursor)
  | getMetadata path => exact .of_eq root (tree_getMetadata path)
  | createFolder path =>
    have inside := within path List.mem_cons_self
    exact confined_onTree (h.closed.confined_createFolder inside)
  | delete path =>
    have inside := within path List.mem_cons_self
    exact confined_onTree (m.tree.confined_delete inside)
  | moveEntry source target =>
    have start := within source List.mem_cons_self
    have finish := within target (List.mem_cons_of_mem _ List.mem_cons_self)
    exact confined_onTree (h.closed.confined_move start finish)
  | upload path size body =>
    have inside := within path List.mem_cons_self
    exact h.confined_upload inside body now
  | download path => exact .of_eq root (tree_download path)

end Memory

namespace Storage

open Memory (World)

variable {s : Storage} {thread : Nat}

/-- Whatever its text, a path that a storage names on the service is within the root. -/
theorem within_remotePath (hr : s.root.Canonical) (text : String) :
    s.root.segments <+: (Path.parse (s.remotePath text)).segments := by
  rw [remotePath_eq, Path.parse_toString (canonical_target hr text)]
  exact List.prefix_append _ _

/-- What the service does at one request of a storage is confined to its root. -/
theorem Sends.confined (hr : s.root.Canonical) {c : Call} (sent : s.Sends thread c) {w : World}
    (h : w.remote.Sound) : w.remote.tree.Confined s.root (World.serve c w).2.remote.tree := by
  cases c with
  | remote client call =>
    apply h.confined_answer call w.now
    intro path named
    obtain ⟨text, rfl⟩ := sent.2 path named
    exact within_remotePath hr text
  | clock => exact .refl _ _
  | sleepUntil time => exact .refl _ _

theorem confined_run {α : Type} (hr : s.root.Canonical) {p : Program interface α}
    (asks : p.Asks (s.Sends thread)) {w : World} (h : w.remote.Sound) :
    w.remote.tree.Confined s.root (w.run p).2.remote.tree := by
  -- Soundness goes along: only of a closed tree is it known that a change is confined.
  have kept : (w.run p).2.remote.Sound ∧
      w.remote.tree.Confined s.root (w.run p).2.remote.tree := by
    apply asks.run_keeps (P := fun w' : World =>
      w'.remote.Sound ∧ w.remote.tree.Confined s.root w'.remote.tree)
    · intro c w' sent ⟨sound, confined⟩
      constructor
      · exact sound.serve c
      · exact confined.trans (sent.confined hr sound)
    · exact ⟨h, .refl _ _⟩
  exact kept.2

/-- Whether an operation of a storage succeeds or fails, and whatever its texts are, a node
that is neither the root nor below it is as it was, or is a folder above the root that was
missing. -/
theorem operation_stays_within {m : Memory} (hm : m.Reachable) (hr : s.root.Canonical)
    (thread : Nat) (o : Operation) (now : Millis) (q : Path) (outside : q.isWithin s.root = false) :
    let t := ((World.mk m now).run (o.program s thread)).2.remote.tree
    t.get? q = m.tree.get? q ∨
      m.tree.get? q = none ∧ q ∈ s.root.ancestors ∧ t.get? q = some .folder := by
  intro t
  rw [Std.ExtTreeMap.get?_eq_getElem?, Std.ExtTreeMap.get?_eq_getElem?]
  have asks : (o.program s thread).Asks (s.Sends thread) := o.asks_program s thread
  have confined : m.tree.Confined s.root t :=
    confined_run hr asks (w := World.mk m now) hm.sound
  exact confined q outside

/-- A text that climbs to another storage's file is put below the root of its own. -/
theorem operation_stays_within_beside_file :
    let m := Memory.after [.putFile "/ab/x" [1]]
    let o := Operation.upload "../../ab/x" [2]
    let t := ((World.mk m 0).run (o.program (plain (.parse "/a/b") 0) 0)).2.remote.tree
    t.get? (.parse "/a/b/ab/x") = some (.file [2]) ∧ t.get? (.parse "/a") = some .folder ∧
      t.get? (.parse "/ab/x") = some (.file [1]) := by
  intro m o t
  have old : m.tree.get? (.parse "/ab/x") = some (.file [1]) := by decide +kernel
  have outside : (Path.parse "/ab/x").isWithin (plain (.parse "/a/b") 0).root = false := by
    decide +kernel
  have reachable : m.Reachable := Memory.reachable_after _
  have kept := operation_stays_within reachable (Path.canonical_parse "/a/b") 0 o 0 _ outside
  constructor
  · decide +kernel
  constructor
  · decide +kernel
  · rcases kept with same | ⟨missing, -, -⟩
    · exact same.trans old
    · rw [old] at missing
      cases missing

end Storage

end ChunkStore
