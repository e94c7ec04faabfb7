import ChunkStore.Proofs.ReachableMemory
import ChunkStore.Proofs.StorageCalls

/-!
# What a service in memory answers

For a service that can be reached, the answer to each call and the state after it in terms
of the tree alone. Besides the tree a call changes the record of calls, the time, and, if
it lists, the open listings.
-/

namespace ChunkStore

/-- What a stat of a path tells. -/
def Tree.info (t : Tree) (p : Path) : FileInfo :=
  match t[p]? with
  | none => .missing
  | some node => (Tree.metadata p node).info

theorem Tree.info_present {t : Tree} {p : Path} : (t.info p).present = true ↔ t[p]? ≠ none := by
  unfold info
  cases h : t[p]? with
  | none => simp [FileInfo.missing]
  | some node => cases node <;> simp [metadata, Remote.Metadata.info, Remote.Metadata.isFolder,
      Remote.Metadata.folder, Remote.Metadata.file, FileInfo.directory, FileInfo.file]

theorem Tree.info_isDirectory {t : Tree} {p : Path} :
    (t.info p).isDirectory = true ↔ t[p]? = some .folder := by
  unfold info
  cases h : t[p]? with
  | none => simp [FileInfo.missing]
  | some node => cases node <;> simp [metadata, Remote.Metadata.info, Remote.Metadata.isFolder,
      Remote.Metadata.folder, Remote.Metadata.file, FileInfo.directory, FileInfo.file]

theorem Tree.info_file {t : Tree} {p : Path} {content : Bytes}
    (h : t[p]? = some (.file content)) : t.info p = .file content.length := by
  rw [info, h]
  rfl

/-- A service that answers with success can be reached. -/
theorem Memory.online_of_receive {α : Type} {m : Memory} {record : Record}
    {serve : Memory → Except Failure α × Memory} {a : α}
    (reply : (m.receive record serve).1 = .ok a) : m.offline = false := by
  cases offline : m.offline with
  | false => rfl
  | true =>
    rw [Memory.receive, if_pos offline] at reply
    cases reply

namespace Memory.World

/-- `w'` is a state that comes from `w` when the tree becomes `t` and, besides, at most the
record of calls and the time change. -/
structure Became (w : World) (t : Tree) (w' : World) : Prop where
  tree : w'.remote.tree = t
  offline : w'.remote.offline = w.remote.offline
  listings : w'.remote.listings = w.remote.listings
  served : w'.remote.served = w.remote.served
  pageSize : w'.remote.pageSize = w.remote.pageSize

theorem Became.refl (w : World) : w.Became w.remote.tree w := ⟨rfl, rfl, rfl, rfl, rfl⟩

theorem Became.trans {w w' w'' : World} {t t' : Tree} (h : w.Became t w') (h' : w'.Became t' w'') :
    w.Became t' w'' :=
  ⟨h'.tree, h'.offline.trans h.offline, h'.listings.trans h.listings, h'.served.trans h.served,
    h'.pageSize.trans h.pageSize⟩

variable {w : World} {p q : Path}

/-- `w` once a call was noted, and answered with `tree`. -/
def answered (w : World) (record : Record) (tree : Tree) : World :=
  ⟨{ w.remote with calls := w.remote.calls ++ [record], tree }, w.now⟩

theorem became_answered (w : World) (record : Record) (tree : Tree) (now : Millis) :
    w.Became tree ⟨(w.answered record tree).remote, now⟩ := ⟨rfl, rfl, rfl, rfl, rfl⟩

theorem receive_online {α : Type} {m : Memory} (h : m.offline = false) (record : Record)
    (serve : Memory → Except Failure α × Memory) :
    m.receive record serve = serve { m with calls := m.calls ++ [record] } := by
  simp [Memory.receive, h]

theorem answer_getMetadata (hw : w.remote.offline = false) (hp : p.Canonical) :
    Storage.statAnswer (w.answer (.getMetadata p.toString)).1 = .ok (w.remote.tree.info p) ∧
      w.Became w.remote.tree (w.answer (.getMetadata p.toString)).2 := by
  unfold Tree.info
  simp only [answer, instantly, Memory.getMetadata, receive_online hw, Path.parse_toString hp,
    Std.ExtTreeMap.get?_eq_getElem?]
  cases w.remote.tree[p]? <;> exact ⟨rfl, w.became_answered _ _ _⟩

theorem answer_createFolder (hw : w.remote.offline = false) (hp : p.Canonical) :
    w.answer (.createFolder p.toString) = ((w.remote.tree.createFolder p).1,
      w.answered (.createFolder p.toString) (w.remote.tree.createFolder p).2) := by
  simp only [answer, instantly, Memory.createFolder, receive_online hw, Path.parse_toString hp,
    Memory.onTree, answered]

theorem answer_delete (hw : w.remote.offline = false) (hp : p.Canonical) :
    w.answer (.delete p.toString) = ((w.remote.tree.delete p).1,
      w.answered (.delete p.toString) (w.remote.tree.delete p).2) := by
  simp only [answer, instantly, Memory.delete, receive_online hw, Path.parse_toString hp,
    Memory.onTree, answered]

theorem answer_moveEntry (hw : w.remote.offline = false) (hp : p.Canonical) (hq : q.Canonical) :
    w.answer (.moveEntry p.toString q.toString) = ((w.remote.tree.move p q).1,
      w.answered (.moveEntry p.toString q.toString) (w.remote.tree.move p q).2) := by
  simp only [answer, instantly, Memory.moveEntry, receive_online hw, Path.parse_toString hp,
    Path.parse_toString hq, Memory.onTree, answered]

theorem answer_download (hw : w.remote.offline = false) (hp : p.Canonical) :
    w.answer (.download p.toString) = ((w.remote.tree.fetch p).map .ofBytes,
      w.answered (.download p.toString) w.remote.tree) := by
  simp only [answer, instantly, Memory.download, receive_online hw, Path.parse_toString hp,
    answered]

theorem answer_upload (hw : w.remote.offline = false) (hp : p.Canonical) (size : Nat)
    (content : Bytes) (limit : RateLimit) :
    ∃ now, w.answer (.upload p.toString size (.ofContent content limit)) =
      ((w.remote.tree.store p content).1,
        ⟨(w.answered (.upload p.toString) (w.remote.tree.store p content).2).remote, now⟩) := by
  have drained := Source.copy_ofContent content limit .unlimited w.now
  simp only [answer, Memory.upload, receive_online hw, Path.parse_toString hp, Memory.onTree,
    Source.drain]
  split
  · rename_i e now he
    rw [he] at drained
    cases drained
  · rename_i read now he
    rw [he] at drained
    cases drained
    exact ⟨now, rfl⟩

end Memory.World

end ChunkStore
