import ChunkStore.Proofs.FolderEntries
import ChunkStore.Proofs.Interference
import ChunkStore.Proofs.PagedListing

/-!
# Open listings among other calls

The entries that are still to come of a listing are kept with the service, under a number
that no other page has. Other calls may take them away, by asking for the next page or by
opening many listings, and then the next page is refused. They never put others in their
place. A listing that is read to its end therefore gives the children that the folder had
when it began, whatever has become of the tree in the meantime.
-/

namespace ChunkStore

namespace Memory

variable {m m' : Memory} {page : Remote.Page} {rest pending : List Remote.Metadata}

/-- The call for the page after `page` is refused, or it goes on with `rest`. -/
structure Owes (m : Memory) (page : Remote.Page) (rest : List Remote.Metadata) : Prop where
  hasMore : page.hasMore = !rest.isEmpty
  cursor : ∃ n ≤ m.served, page.cursor = Memory.cursor n ∧ ∀ l ∈ m.listings, l.1 = n → l.2 = rest

theorem Owes.later (h : m.Owes page rest) (later : m.Later m') : m'.Owes page rest := by
  obtain ⟨n, served, cursor, kept⟩ := h.cursor
  refine ⟨h.hasMore, n, Nat.le_trans served later.served, cursor, fun l hl number => ?_⟩
  rcases later.listings l hl with old | new
  · exact kept l old number
  · omega

theorem owes_page (h : m.Sound) (pending : List Remote.Metadata) :
    (m.page pending).2.Owes (m.page pending).1 (pending.drop (max 1 m.pageSize)) := by
  refine ⟨rfl, m.served + 1, Nat.le_refl _, rfl, fun l hl number => ?_⟩
  have fresh : l ∉ m.listings := by
    intro old
    have := h.numbered l old
    omega
  simp only [page] at hl
  split at hl
  · rcases List.mem_append.1 (List.mem_of_mem_drop hl) with old | new
    · exact absurd old fresh
    · rw [List.mem_singleton.1 new]
  · exact absurd hl fresh

/-- `page` has the first of the entries `pending`, and the others are owed. -/
def Shows (m : Memory) (page : Remote.Page) (pending : List Remote.Metadata) : Prop :=
  ∃ rest, page.entries ++ rest = pending ∧ m.Owes page rest

theorem shows_page (h : m.Sound) (pending : List Remote.Metadata) :
    (m.page pending).2.Shows (m.page pending).1 pending :=
  ⟨_, List.take_append_drop _ _, owes_page h pending⟩

theorem shows_listFolder (h : m.Sound) {p : Path} (hp : p.Canonical)
    (reply : (m.listFolder p.toString).1 = .ok page) :
    m.served < (m.listFolder p.toString).2.served ∧
      (m.listFolder p.toString).2.Shows page (m.tree.children p) := by
  have online : m.offline = false := online_of_receive reply
  simp only [listFolder, World.receive_online online, Path.parse_toString hp,
    Std.ExtTreeMap.get?_eq_getElem?] at reply ⊢
  cases node : m.tree[p]? with
  | none =>
    rw [node] at reply
    cases reply
  | some node' =>
    cases node' with
    | folder =>
      simp only [node] at reply ⊢
      cases reply
      exact ⟨Nat.lt_succ_self _, shows_page (h.note _) _⟩
    | file content =>
      simp only [node] at reply
      cases reply

theorem shows_listFolderContinue (h : m.Sound) (hs : m.served < Program.ample)
    (owes : m.Owes page rest) {next : Remote.Page}
    (reply : (m.listFolderContinue page.cursor).1 = .ok next) :
    m.served < (m.listFolderContinue page.cursor).2.served ∧
      (m.listFolderContinue page.cursor).2.Shows next rest := by
  have online : m.offline = false := online_of_receive reply
  obtain ⟨n, served, cursor, kept⟩ := owes.cursor
  simp only [listFolderContinue, World.receive_online online, cursor,
    cursorNumber?_cursor (Nat.lt_of_le_of_lt served hs), Option.bind_some] at reply ⊢
  cases found : m.listings.find? (·.1 == n) with
  | none =>
    simp only [found] at reply
    cases reply
  | some listing =>
    have number : listing.1 = n := by simpa using List.find?_some found
    have same : listing.2 = rest := kept _ (List.mem_of_find?_eq_some found) number
    simp only [found] at reply ⊢
    cases reply
    rw [← same]
    constructor
    · exact Nat.lt_succ_self _
    · apply shows_page
      exact (h.filter _).note _

end Memory

namespace Storage

open Memory (World)

/-- A change that calls bring about, to a state at some moment of a run whose trees are
`Seen` and in which the numbers of pages have not run out. -/
structure Moved (Seen : Tree → Prop) (w w' : World) : Prop where
  later : w.remote.Later w'.remote
  sound : w'.remote.Sound
  served : w'.remote.served < Program.ample
  seen : Seen w'.remote.tree

theorem Moved.settled {Seen : Tree → Prop} (w w' : World) (moved : Moved Seen w w') :
    Moved Seen w' w' :=
  ⟨.refl _, moved.sound, moved.served, moved.seen⟩

variable {Seen : Tree → Prop} {s : Storage} {thread budget : Nat} {w : World}
  {page : Remote.Page} {pending : List Remote.Metadata} {α : Type}

theorem amid_of_used_up {p : Program interface α} {Q : α → World → Prop}
    (used : Program.ample ≤ w.remote.served) : p.Amid World.serve (Moved Seen) Q w := by
  refine .since Moved.settled fun w' moved => absurd moved.served ?_
  exact Nat.not_lt.2 (Nat.le_trans used moved.later.served)

/-- A listing that has begun ends with all that it began with. Each page takes a number, so
the budget is not used up before the numbers are. -/
theorem amid_listFrom (h : thread < s.clients.size) (shows : w.remote.Shows page pending)
    (hb : Program.ample ≤ w.remote.served + budget) (entries : List ListEntry) :
    (s.listFrom thread budget page entries).Amid World.serve (Moved Seen)
      (fun list w' => list = entries ++ pending.map Remote.Metadata.listed ∧
        w.remote.served ≤ w'.remote.served) w := by
  induction budget generalizing w page pending entries with
  | zero => exact amid_of_used_up hb
  | succ budget ih =>
    obtain ⟨rest, rfl, owes⟩ := shows
    cases more : page.hasMore with
    | false =>
      have none : rest = [] := by simpa [owes.hasMore] using more
      rw [listFrom_last more, none, List.append_nil]
      exact fun w' moved => ⟨rfl, moved.later.served⟩
    | true =>
      rw [listFrom_more h more]
      intro w' moved
      -- In the state `w'` to which the others have moved, the rest is still owed.
      apply Program.Amid.ofExcept_bind
      intro next reply
      obtain ⟨taken, shows⟩ := Memory.shows_listFolderContinue moved.sound moved.served
        (owes.later moved.later) reply
      have before : w.remote.served ≤ w'.remote.served := moved.later.served
      have enough : Program.ample ≤
          (World.serve (.remote thread (.listFolderContinue page.cursor)) w').2.remote.served +
            budget := by
        change Program.ample ≤ (w'.remote.listFolderContinue page.cursor).2.served + budget
        omega
      refine (ih shows enough _).mono fun list w'' result => ?_
      rw [List.map_append, ← List.append_assoc]
      exact ⟨result.1, Nat.le_trans before (Nat.le_trans (Nat.le_of_lt taken) result.2)⟩

/-- A folder is listed as it was at one moment. -/
theorem amid_list (h : thread < s.clients.size) (hr : s.root.Canonical) (dir : String) :
    (s.list thread dir).Amid World.serve (Moved Seen)
      (fun entries w' => (∃ t, Seen t ∧ entries = t.entries (s.target dir)) ∧
        w.remote.served < w'.remote.served) w := by
  simp only [list, Program.bind_eq, perform_eq h, Program.ask_bind, remotePath_eq]
  intro w' moved
  apply Program.Amid.ofExcept_bind
  intro page reply
  obtain ⟨taken, shows⟩ :=
    Memory.shows_listFolder moved.sound (canonical_target hr dir) reply
  refine (amid_listFrom h shows (Nat.le_add_left _ _) []).mono fun entries w'' result => ?_
  refine ⟨⟨w'.remote.tree, moved.seen, result.1⟩, ?_⟩
  exact Nat.lt_of_le_of_lt moved.later.served (Nat.lt_of_lt_of_le taken result.2)

end Storage

end ChunkStore
