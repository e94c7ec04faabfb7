import ChunkStore.Proofs.ChunkSearch
import ChunkStore.Proofs.Transcripts

/-!
# Listings, walks and searches stop at the first refusal

A service may fail any call in any way. That nothing is at a path is an answer to a stat, and
that something is there already is an answer to the creation of a folder; every other failure,
and these two in reply to any other call, is a refusal. A listing goes through its pages, a
walk through its folders and a search through the levels of an id, and each of them stops
where it is refused. Of itself only a search fails, once it has looked at every level.
-/

namespace ChunkStore

/-- The failure with which a service refuses a call, unless it is an answer to that call. -/
def Remote.Call.refusal? : (c : Remote.Call) → c.Reply → Option Failure
  | _, .ok _ => none
  | .getMetadata _, .error (.notFound _) => none
  | .createFolder _, .error (.conflict _) => none
  | _, .error e => some e

namespace Storage

def refusal? : (c : Call) → c.Reply → Option Failure
  | .remote _ call, reply => call.refusal? reply
  | .clock, _ | .sleepUntil _, _ => none

def statCall (s : Storage) (thread : Nat) (p : Path) : Call :=
  .remote thread (.getMetadata (s.remotePath p.toString))

/-- At each of the first `levels` levels of the id its shard folder was asked for, and its
file too where one may lie. -/
def Visited (s : Storage) (thread : Nat) (id : ChunkId) (fossil : Bool) (levels : Nat)
    (calls : List Call) : Prop :=
  ∀ level < levels, s.statCall thread (id.folder (level + 1)) ∈ calls ∧
    (s.nesting ≤ level → s.statCall thread (id.place level fossil) ∈ calls)

/-- The one way in which a search fails of itself. -/
def Exhausts (s : Storage) (thread : Nat) (id : ChunkId) (fossil : Bool) (e : Failure)
    (calls : List Call) : Prop :=
  e = .chunkNestingExhausted id.text id.levels ∧ s.Visited thread id fossil id.levels calls

variable {s : Storage} {thread : Nat} {α : Type} {own : Failure → List Call → Prop}
  {past calls : List Call} {id : ChunkId} {fossil : Bool} {levels : Nat}

theorem refusal?_getMetadata (path : String) (reply : Except Failure Remote.Metadata) :
    refusal? (.remote thread (.getMetadata path)) reply = Failure.of? (statAnswer reply) := by
  cases reply with
  | ok metadata => rfl
  | error e => cases e <;> rfl

theorem refusal?_createFolder (path : String) (reply : Except Failure Unit) :
    refusal? (.remote thread (.createFolder path)) reply = Failure.of? (createAnswer reply) := by
  cases reply with
  | ok created => rfl
  | error e => cases e <;> rfl

theorem refusal?_listFolder (path : String) (reply : Except Failure Remote.Page) :
    refusal? (.remote thread (.listFolder path)) reply = Failure.of? reply := by
  cases reply with
  | ok page => rfl
  | error e => cases e <;> rfl

theorem refusal?_listFolderContinue (cursor : String) (reply : Except Failure Remote.Page) :
    refusal? (.remote thread (.listFolderContinue cursor)) reply = Failure.of? reply := by
  cases reply with
  | ok page => rfl
  | error e => cases e <;> rfl

theorem Visited.append (h : s.Visited thread id fossil levels calls) (later : List Call) :
    s.Visited thread id fossil levels (calls ++ later) := by
  intro level hl
  constructor
  · exact List.mem_append_left later (h level hl).1
  · intro nested
    exact List.mem_append_left later ((h level hl).2 nested)

theorem Visited.succ (h : s.Visited thread id fossil levels calls)
    (shard : s.statCall thread (id.folder (levels + 1)) ∈ calls)
    (file : s.nesting ≤ levels → s.statCall thread (id.place levels fossil) ∈ calls) :
    s.Visited thread id fossil (levels + 1) calls := by
  intro level hl
  rcases Nat.lt_succ_iff_lt_or_eq.1 hl with before | rfl
  · exact h level before
  · exact ⟨shard, file⟩

section Calls

variable (h : thread < s.clients.size) {budget : Nat}
include h

theorem propagates_stat {p : Path} {next : FileInfo → Program Directory.interface α}
    (rest : ∀ info, ((next info).interpret (s.directory budget)).Propagates refusal? own
      (past ++ [s.statCall thread p])) :
    (((Directory.stat thread p.toString).bind next).interpret (s.directory budget)).Propagates
      refusal? own past := by
  rw [interpret_stat h]
  simp only [Program.interpret_ofExcept_bind]
  exact Program.propagates_ask (refusal?_getMetadata _) rest

theorem propagates_create {path : String} {next : Unit → Program Directory.interface α}
    (rest : ((next ()).interpret (s.directory budget)).Propagates refusal? own
      (past ++ [.remote thread (.createFolder (s.remotePath path))])) :
    (((Directory.create thread path).bind next).interpret (s.directory budget)).Propagates
      refusal? own past := by
  rw [interpret_create h]
  simp only [Program.interpret_ofExcept_bind]
  exact Program.propagates_ask (refusal?_createFolder _) fun () => rest

/-- A listing fails where it is refused a page, and nowhere else. -/
theorem propagates_listFrom (page : Remote.Page) (entries : List ListEntry) :
    (s.listFrom thread budget page entries).Propagates refusal? own past := by
  induction budget generalizing page entries past with
  | zero =>
    unfold listFrom
    dsimp only
    split <;> trivial
  | succ budget ih =>
    unfold listFrom
    dsimp only
    split
    · rw [perform_eq h]
      apply Program.propagates_ask (refusal?_listFolderContinue page.cursor)
      intro next
      exact ih next _
    · trivial

theorem propagates_list (dir : String) :
    (s.list thread dir budget).Propagates refusal? own past := by
  rw [list, perform_eq h]
  apply Program.propagates_ask (refusal?_listFolder (s.remotePath dir))
  intro page
  exact propagates_listFrom h page []

theorem propagates_visit (pages : Nat) (pending : List Walk.Shard) (found : List ChunkListing) :
    ((Walk.visit thread budget pending found).interpret (s.directory pages)).Propagates
      refusal? own past := by
  induction budget generalizing pending found past with
  | zero => cases pending <;> trivial
  | succ budget ih =>
    cases pending with
    | nil => trivial
    | cons shard pending =>
      rw [Walk.visit, Program.bind_eq, interpret_list, Program.attempt_bind fun _ => rfl]
      apply (propagates_list h shard.dir.toString).bind
      intro entries later
      exact ih _ _

theorem propagates_listChunks : (s.listChunks thread budget).Propagates refusal? own past := by
  apply propagates_stat h
  intro info
  split
  · exact propagates_visit h budget _ _
  · trivial

/-- A search that has visited the levels before `level` visits the others in turn, until it
is refused or has an answer. -/
theorem propagates_descend {remaining level : Nat} (hl : level + remaining = id.levels)
    (visited : s.Visited thread id fossil level past) :
    ((Locator.descend s.nesting thread id fossil remaining level (id.folder level)).interpret
      (s.directory budget)).Propagates refusal? (s.Exhausts thread id fossil) past := by
  induction remaining generalizing level past with
  | zero =>
    obtain rfl : level = id.levels := by omega
    exact ⟨rfl, visited⟩
  | succ remaining ih =>
    have within : level < id.levels := by omega
    have below : level + 1 + remaining = id.levels := by omega
    rcases Nat.lt_or_ge level s.nesting with above | nested
    · rw [Locator.descend_above above within]
      apply propagates_stat h
      intro info
      have next := (visited.append [s.statCall thread (id.folder (level + 1))]).succ (by simp)
        (fun nested => absurd nested (Nat.not_le.2 above))
      split
      · exact ih below next
      · apply propagates_create h
        exact ih below (next.append _)
    · rw [Locator.descend_within nested within]
      apply propagates_stat h
      intro info
      split
      · trivial
      · apply propagates_stat h
        intro info
        have next := ((visited.append [s.statCall thread (id.place level fossil)]).append
          [s.statCall thread (id.folder (level + 1))]).succ (by simp) (fun _ => by simp)
        split
        · exact ih below next
        · trivial

theorem propagates_findChunk :
    (s.findChunk thread id fossil).Propagates refusal? (s.Exhausts thread id fossil) past :=
  propagates_descend h (by omega) nofun

end Calls

/-- On a thread that has a client, whatever each call is replied, a listing, a walk and a
search make no call after the first refusal and fail with it unchanged. Refused nothing, a
listing and a walk do not fail, and a search fails only when all levels of the id were visited. -/
theorem scans_fail_fast (s : Storage) {thread : Nat} (h : thread < s.clients.size) (budget : Nat) :
    (∀ dir, (s.list thread dir budget).FailsFast refusal? fun _ _ => False) ∧
    ((s.listChunks thread budget).FailsFast refusal? fun _ _ => False) ∧
    ∀ id fossil, (s.findChunk thread id fossil).FailsFast refusal? (s.Exhausts thread id fossil) := by
  refine ⟨fun dir => ?_, ?_, fun id fossil => ?_⟩
  · exact (propagates_list h dir).failsFast
  · exact (propagates_listChunks h).failsFast
  · exact (propagates_findChunk h).failsFast

/-- A service that fails each call with the next of a list of failures, and every call after
these for being one too many. -/
def failing : (c : Call) → List Failure → c.Reply × List Failure
  | .remote _ _, e :: rest => (.error e, rest)
  | .remote _ _, [] => (.error (.rateLimited none), [])
  | .clock, failures => (0, failures)
  | .sleepUntil _, failures => ((), failures)

/-- A search is told that the file is not at the first level, and is refused the stat of the
shard folder. -/
theorem scans_fail_fast_limited :
    let s := plain .root 0
    let search := s.findChunk 0 ⟨"abcd", by decide⟩ false
    let failures := [.notFound "/chunks/abcd"]
    0 < s.clients.size ∧
      (search.transcript failing failures).map Program.Exchange.call =
        [.remote 0 (.getMetadata "/chunks/abcd"), .remote 0 (.getMetadata "/chunks/ab")] ∧
      (search.run failing failures).1 = some (.error (.rateLimited none)) := by
  have fast := (scans_fail_fast (plain .root 0) Nat.one_pos 0).2.2 ⟨"abcd", by decide⟩ false
  have stops := fast.stops _ failing [.notFound "/chunks/abcd"]
    [⟨.remote 0 (.getMetadata "/chunks/abcd"), .error (.notFound "/chunks/abcd")⟩]
    ⟨.remote 0 (.getMetadata "/chunks/ab"), .error (.rateLimited none)⟩ [] (.rateLimited none)
    rfl rfl
  exact ⟨Nat.one_pos, rfl, stops.2⟩

end Storage

end ChunkStore
