import ChunkStore.Proofs.FolderEntries
import ChunkStore.Proofs.ReachableMemory

/-!
# Histories of a service in memory

What happens to a service is a list of actions: calls of its clients, through any handle, and
what its owner does. The body of an upload is read while others may call, so an upload may
also happen in two actions, its call and, once the body was read, the file that is put in
place. After every history the flat map of the service is a tree of folders with files at its
leaves. An action that adds a node adds what is missing above it, and one that takes a node
away takes what is below it.
-/

namespace ChunkStore

theorem Tree.Closed.parent {t : Tree} {p : Path} (h : t.Closed) (hp : t[p]? ≠ none)
    (hr : p ≠ Path.root) : ∃ q, p.parent? = some q ∧ t[q]? = some .folder := by
  cases up : p.parent? with
  | none => exact absurd ((Path.parent?_eq_none_iff p).1 up) hr
  | some q =>
    obtain ⟨name, rfl⟩ := Path.parent?_eq_some_iff.1 up
    have above : q ∈ (q.child name).ancestors := by
      apply Path.mem_ancestors.2
      simp
    exact ⟨q, rfl, h.above _ hp q above⟩

namespace Memory

inductive Action where
  /-- A client's call that no other interrupts. -/
  | call (c : Remote.Call) (now : Millis)
  /-- The call of an upload whose body is read while others call. -/
  | openUpload (path : String)
  /-- A file is put in place, by the owner or once the body of an upload was read. -/
  | putFile (path : String) (content : Bytes)
  | setPageSize (size : Nat)
  | setOffline (offline : Bool)
  | clearCalls

def act (m : Memory) : Action → Except Failure Unit × Memory
  | .call c now =>
    let (reply, w) := World.answer c ⟨m, now⟩
    (reply.map fun _ => (), w.remote)
  | .openUpload path => m.openUpload path
  | .putFile path content => m.putFile path content
  | .setPageSize size => (.ok (), { m with pageSize := size })
  | .setOffline offline => (.ok (), { m with offline })
  | .clearCalls => (.ok (), { m with calls := [] })

def after (history : List Action) : Memory :=
  history.foldl (fun m action => (m.act action).2) {}

variable {m : Memory}

theorem answer_of_failed_act {c : Remote.Call} {now : Millis} {e : Failure}
    (failed : (m.act (.call c now)).1 = .error e) : ((World.mk m now).answer c).1 = .error e := by
  change ((World.mk m now).answer c).1.map (fun _ => ()) = .error e at failed
  cases reply : ((World.mk m now).answer c).1 with
  | error other =>
    rw [reply] at failed
    cases failed
    rfl
  | ok value =>
    rw [reply] at failed
    cases failed

/-- The call of an upload alone does what an upload does whose body breaks at once. -/
theorem openUpload_eq_call (m : Memory) (path : String) :
    (m.openUpload path).2 =
      ((World.mk m 0).answer (.upload path 0 ⟨[.error (.io "")], .unlimited⟩)).2.remote := by
  rw [World.answer, upload_halves]
  cases m.openUpload path with
  | mk reply m' => cases reply <;> rfl

theorem Reachable.act (h : m.Reachable) (action : Action) : (m.act action).2.Reachable := by
  cases action with
  | call c now => exact h.call c now
  | openUpload path =>
    rw [Memory.act, openUpload_eq_call]
    exact h.call _ 0
  | putFile path content => exact h.putFile path content
  | setPageSize size => exact h.pageSize size
  | setOffline offline => exact h.offline offline
  | clearCalls => exact h.forget

theorem after_append (history : List Action) (action : Action) :
    after (history ++ [action]) = ((after history).act action).2 := by
  unfold after
  rw [List.foldl_append, List.foldl_cons, List.foldl_nil]

theorem reachable_after (history : List Action) : (after history).Reachable := by
  induction history using List.reverseRecOn with
  | nil => exact .fresh
  | append_singleton history action ih =>
    rw [after_append]
    exact ih.act action

theorem exists_history_act (action : Action) (h : ∃ history, m = after history) :
    ∃ history, (m.act action).2 = after history := by
  obtain ⟨history, rfl⟩ := h
  exact ⟨history ++ [action], (after_append history action).symm⟩

/-- The states that can be reached are those after some history. -/
theorem reachable_iff : m.Reachable ↔ ∃ history, m = after history := by
  constructor
  · intro h
    induction h with
    | fresh => exact ⟨[], rfl⟩
    | call c now _ ih => exact exists_history_act (.call c now) ih
    | putFile path content _ ih => exact exists_history_act (.putFile path content) ih
    | pageSize size _ ih => exact exists_history_act (.setPageSize size) ih
    | offline cut _ ih => exact exists_history_act (.setOffline cut) ih
    | forget _ ih => exact exists_history_act .clearCalls ih
  · rintro ⟨history, rfl⟩
    exact reachable_after history

/-- After every history the root is a folder, all paths are in normal form, the parent of
every other node is a folder, and with it everything above that node. So no node lies below a
file. -/
theorem after_forms_tree (history : List Action) :
    let t := (after history).tree
    t.get? .root = some .folder ∧
      (∀ p, t.contains p = true → Path.parse p.toString = p ∧ normalize p.toString = p.toString) ∧
      (∀ p, t.contains p = true → p ≠ .root →
        ∃ q, p.parent? = some q ∧ t.get? q = some .folder) ∧
      (∀ p, t.contains p = true → ∀ q ∈ p.ancestors, t.get? q = some .folder) ∧
      ∀ p content q, t.get? p = some (.file content) → t.contains q = true →
        q.isWithin p = true → q = p := by
  intro t
  have closed : t.Closed := (reachable_after history).sound.closed
  simp only [Std.ExtTreeMap.get?_eq_getElem?, Tree.contains_iff]
  constructor
  · exact closed.root
  constructor
  · intro p hp
    have same : Path.parse p.toString = p := Path.parse_toString (closed.canonical p hp)
    constructor
    · exact same
    · rw [normalize, same]
  constructor
  · intro p hp hr
    exact closed.parent hp hr
  constructor
  · intro p hp q hq
    exact closed.above p hp q hq
  · intro p content q hp hq below
    exact closed.eq_of_below_file hp hq (Path.isWithin_iff.1 below)

end Memory

end ChunkStore
