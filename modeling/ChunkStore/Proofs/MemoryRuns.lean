import ChunkStore.Proofs.MemoryAnswers

/-!
# Storage operations on a service in memory

Each operation that does not list, run to its end against a service that can be reached:
its result and the tree it leaves, for a path given by any text.
-/

namespace ChunkStore.Storage

open Memory (World)

variable {s : Storage} {thread : Nat} {w : World}

/-- The path on the service for a text given to an operation. -/
def target (s : Storage) (path : String) : Path := s.root.resolve (.parse path)

theorem remotePath_eq (s : Storage) (path : String) :
    s.remotePath path = (s.target path).toString := rfl

theorem canonical_target (hr : s.root.Canonical) (path : String) : (s.target path).Canonical :=
  hr.resolve (Path.canonical_parse path)

theorem target_toString (s : Storage) {p : Path} (hp : p.Canonical) :
    s.target p.toString = s.root.resolve p := by
  rw [target, Path.parse_toString hp]

theorem run_ofExcept {α : Type} (reply : Except Failure α) (w : World) :
    (Program.ofExcept reply : Program interface α).run World.serve w = (some reply, w) := by
  cases reply <;> rfl

theorem run_bind_ok {α β : Type} {p : Program interface α} {f : α → Program interface β}
    {a : α} {w' : World} (h : w.run p = (some (.ok a), w')) : w.run (p.bind f) = w'.run (f a) := by
  rw [World.run] at h
  rw [World.run, Program.run_bind, h]
  rfl

theorem run_bind_error {α β : Type} {p : Program interface α} {f : α → Program interface β}
    {e : Failure} {w' : World} (h : w.run p = (some (.error e), w')) :
    w.run (p.bind f) = (some (.error e), w') := by
  rw [World.run] at h
  rw [World.run, Program.run_bind, h]

/-- A sequence that succeeds has succeeded in both its parts. -/
theorem of_run_bind_ok {α β : Type} {p : Program interface α} {f : α → Program interface β}
    {b : β} {w' : World} (h : w.run (p.bind f) = (some (.ok b), w')) :
    ∃ a w₁, w.run p = (some (.ok a), w₁) ∧ w₁.run (f a) = (some (.ok b), w') := by
  cases first : w.run p with
  | mk result w₁ =>
    rw [World.run] at first
    rw [World.run, Program.run_bind, first] at h
    match result with
    | some (.ok a) => exact ⟨a, w₁, rfl, h⟩
    | some (.error e) => cases h
    | none => cases h

theorem run_stat (h : thread < s.clients.size) (hr : s.root.Canonical)
    (hw : w.remote.offline = false) (path : String) :
    ∃ w', (s.stat thread path).run World.serve w =
        (some (.ok (w.remote.tree.info (s.target path))), w') ∧ w.Became w.remote.tree w' := by
  obtain ⟨reply, became⟩ := World.answer_getMetadata hw (canonical_target hr path)
  rw [stat_eq h, Program.run_ask, remotePath_eq]
  refine ⟨_, ?_, became⟩
  rw [run_ofExcept, World.serve, reply]

theorem run_createDirectory (h : thread < s.clients.size) (hr : s.root.Canonical)
    (hw : w.remote.offline = false) (path : String) :
    ∃ w', (s.createDirectory thread path).run World.serve w =
        (some (createAnswer (w.remote.tree.createFolder (s.target path)).1), w') ∧
      w.Became (w.remote.tree.createFolder (s.target path)).2 w' := by
  rw [createDirectory_eq h, Program.run_ask, remotePath_eq, World.serve,
    World.answer_createFolder hw (canonical_target hr path)]
  exact ⟨_, run_ofExcept _ _, w.became_answered _ _ _⟩

/-- A folder that is refused is one that exists or lies below a file, which both count as
done. -/
theorem createAnswer_createFolder {t : Tree} (hc : t.Closed) (p : Path) :
    createAnswer (t.createFolder p).1 = .ok () := by
  rcases hc.createFolder_cases p with ⟨-, -, t', he, -⟩ | ⟨-, subject, he⟩ <;>
    rw [he] <;> rfl

theorem run_delete (h : thread < s.clients.size) (hr : s.root.Canonical)
    (hw : w.remote.offline = false) (path : String) :
    ∃ w', (s.delete thread path).run World.serve w =
        (some (deleteAnswer (w.remote.tree.delete (s.target path)).1), w') ∧
      w.Became (w.remote.tree.delete (s.target path)).2 w' := by
  rw [delete_eq h, Program.run_ask, remotePath_eq, World.serve,
    World.answer_delete hw (canonical_target hr path)]
  exact ⟨_, run_ofExcept _ _, w.became_answered _ _ _⟩

theorem run_move (h : thread < s.clients.size) (hr : s.root.Canonical)
    (hw : w.remote.offline = false) (source target : String) :
    ∃ w', (s.move thread source target).run World.serve w =
        (some (w.remote.tree.move (s.target source) (s.target target)).1, w') ∧
      w.Became (w.remote.tree.move (s.target source) (s.target target)).2 w' := by
  rw [move, perform_eq h, Program.run_ask, remotePath_eq, remotePath_eq, World.serve,
    World.answer_moveEntry hw (canonical_target hr source) (canonical_target hr target)]
  exact ⟨_, run_ofExcept _ _, w.became_answered _ _ _⟩

theorem run_upload (h : thread < s.clients.size) (hr : s.root.Canonical)
    (hw : w.remote.offline = false) (path : String) (content : Bytes) :
    ∃ w', (s.upload thread path content).run World.serve w =
        (some (w.remote.tree.store (s.target path) content).1, w') ∧
      w.Became (w.remote.tree.store (s.target path) content).2 w' := by
  obtain ⟨now, ha⟩ := World.answer_upload hw (canonical_target hr path) content.length content
    s.uploadLimit
  rw [upload, perform_eq h, Program.run_ask, remotePath_eq, World.serve, ha]
  exact ⟨_, run_ofExcept _ _, w.became_answered _ _ _⟩

theorem run_download (h : thread < s.clients.size) (hr : s.root.Canonical)
    (hw : w.remote.offline = false) (path : String) :
    ∃ w', (s.download thread path).run World.serve w =
        (some (w.remote.tree.fetch (s.target path)), w') ∧ w.Became w.remote.tree w' := by
  simp only [download, perform_eq h, Program.bind_eq, Program.ask_bind, Program.run_ask,
    remotePath_eq, World.serve, World.answer_download hw (canonical_target hr path)]
  cases w.remote.tree.fetch (s.target path) with
  | error e => exact ⟨_, rfl, w.became_answered _ _ _⟩
  | ok content =>
    obtain ⟨now, copied⟩ : ∃ now, (Source.ofBytes content).copy s.downloadLimit w.now =
        (.ok content, now) := ⟨_, Prod.ext (Source.copy_ofBytes content s.downloadLimit w.now) rfl⟩
    simp only [Except.map, Program.ofExcept, Program.done_bind, Program.run_ask, World.serve,
      World.answered, copied]
    exact ⟨_, rfl, w.became_answered _ _ _⟩

end ChunkStore.Storage
