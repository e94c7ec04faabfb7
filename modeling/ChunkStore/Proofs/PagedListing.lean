import ChunkStore.Proofs.DecimalWords
import ChunkStore.Proofs.FolderEntries
import ChunkStore.Proofs.MemoryRuns

/-!
# Listings page by page

The rest of a listing is kept under the number of its latest page. No other open listing
has a number as high, so the cursor of that page leads to the rest until a further page is
served. A listing that is read to its end without other listings in between therefore
gives every child of the folder, in order, as long as the numbers of the pages fit into the
cursors.
-/

namespace ChunkStore

namespace Memory

variable {m : Memory} {pending rest : List Remote.Metadata}

theorem cursorNumber?_behind {text : String} {n : Nat} :
    cursorNumber? text = some n ↔
      ∃ rest, text.toList = cursorMark.toList ++ rest ∧ Text.signedWord? rest = some n := by
  unfold cursorNumber?
  dsimp only
  constructor
  · intro read
    split at read
    · rename_i marked
      obtain ⟨rest, behind⟩ := List.isPrefixOf_iff_prefix.1 marked
      rw [← behind, List.drop_left] at read
      exact ⟨rest, behind.symm, read⟩
    · cases read
  · intro marked
    obtain ⟨rest, behind, read⟩ := marked
    rw [behind, if_pos (by simp), List.drop_left]
    exact read

theorem cursorNumber?_cursor {n : Nat} (h : n < Text.wordBound) :
    cursorNumber? (cursor n) = some n := by
  have written : (cursor n).toList = cursorMark.toList ++ Nat.toDigits 10 n := by
    rw [cursor, String.toList_append, Nat.toList_repr]
  have read : Text.signedWord? (Nat.toDigits 10 n) = some n :=
    Text.signedWord?_eq_some_iff.2 ⟨h, [], by simp, 0, rfl⟩
  exact cursorNumber?_behind.2 ⟨_, written, read⟩

/-- `page` is the latest page of a listing, and `rest` is kept to follow it. -/
structure Awaits (m : Memory) (page : Remote.Page) (rest : List Remote.Metadata) : Prop where
  hasMore : page.hasMore = !rest.isEmpty
  cursor : page.cursor = Memory.cursor m.served
  kept : rest ≠ [] → m.listings.find? (·.1 == m.served) = some (m.served, rest)

theorem find_next (h : m.Sound) (k : Nat) :
    (m.listings.drop k).find? (·.1 == m.served + 1) = none := by
  rw [List.find?_eq_none]
  intro listing hl
  have := h.numbered listing (List.mem_of_mem_drop hl)
  simp only [beq_iff_eq]
  omega

theorem awaits_page (h : m.Sound) (pending : List Remote.Metadata) :
    (m.page pending).2.Awaits (m.page pending).1 (pending.drop (max 1 m.pageSize)) := by
  refine ⟨rfl, rfl, fun hr => ?_⟩
  have more : (!(pending.drop (max 1 m.pageSize)).isEmpty) = true := by simpa using hr
  have old : m.listings.length + 1 - maxOpen ≤ m.listings.length := by
    rw [maxOpen]
    omega
  simp only [page, more, if_true, List.length_append, List.length_singleton]
  rw [List.drop_append_of_le_length old, List.find?_append, find_next h]
  simp

/-- `m'` is `m` but for the calls, the open listings and the count of pages. -/
structure Alike (m m' : Memory) : Prop where
  tree : m'.tree = m.tree
  offline : m'.offline = m.offline

theorem Alike.trans {m m' m'' : Memory} (h : m.Alike m') (h' : m'.Alike m'') : m.Alike m'' :=
  ⟨h'.tree.trans h.tree, h'.offline.trans h.offline⟩

/-- The pages that `count` entries fill. -/
def fills (m : Memory) (count : Nat) : Nat :=
  (count + (max 1 m.pageSize - 1)) / max 1 m.pageSize

@[simp] theorem fills_zero (m : Memory) : m.fills 0 = 0 := by
  have size : 1 ≤ max 1 m.pageSize := Nat.le_max_left ..
  rw [fills, Nat.zero_add]
  exact Nat.div_eq_of_lt (by omega)

theorem fills_of_pos (m : Memory) {count : Nat} (h : 0 < count) :
    m.fills count = m.fills (count - max 1 m.pageSize) + 1 := by
  have size : 1 ≤ max 1 m.pageSize := Nat.le_max_left ..
  unfold fills
  generalize max 1 m.pageSize = k at size ⊢
  rcases Nat.lt_or_ge count k with part | whole
  · have first : count + (k - 1) = count - 1 + k := by omega
    have none : count - k = 0 := by omega
    rw [first, none, Nat.add_div_right _ size, Nat.div_eq_of_lt (by omega), Nat.zero_add,
      Nat.div_eq_of_lt (by omega)]
  · have rest : count + (k - 1) = count - k + (k - 1) + k := by omega
    rw [rest, Nat.add_div_right _ size]

theorem fills_first (m : Memory) (count : Nat) :
    max 1 (m.fills count) = m.fills (count - max 1 m.pageSize) + 1 := by
  rcases Nat.eq_zero_or_pos count with rfl | pos
  · simp
  · rw [← m.fills_of_pos pos, Nat.max_eq_right]
    rw [m.fills_of_pos pos]
    exact Nat.le_add_left 1 _

/-- `m'` is `m` once a number of pages was served, each for a call of its own. -/
structure Paged (m : Memory) (pages : Nat) (m' : Memory) : Prop where
  tree : m'.tree = m.tree
  offline : m'.offline = m.offline
  pageSize : m'.pageSize = m.pageSize
  served : m'.served = m.served + pages
  calls : m'.calls.length = m.calls.length + pages

theorem Paged.refl (m : Memory) : m.Paged 0 m := ⟨rfl, rfl, rfl, rfl, rfl⟩

theorem Paged.trans {m m' m'' : Memory} {pages more : Nat} (h : m.Paged pages m')
    (h' : m'.Paged more m'') : m.Paged (more + pages) m'' where
  tree := h'.tree.trans h.tree
  offline := h'.offline.trans h.offline
  pageSize := h'.pageSize.trans h.pageSize
  served := by
    rw [h'.served, h.served]
    omega
  calls := by
    rw [h'.calls, h.calls]
    omega

theorem Paged.alike {m' : Memory} {pages : Nat} (h : m.Paged pages m') : m.Alike m' :=
  ⟨h.tree, h.offline⟩

theorem Paged.fills {m' : Memory} {pages : Nat} (h : m.Paged pages m') (count : Nat) :
    m'.fills count = m.fills count := by
  rw [Memory.fills, Memory.fills, h.pageSize]

/-- `m'` is `m` once `page` was served, which has the first of the entries `pending`; the
others are kept to follow it. -/
structure Begins (m : Memory) (pending : List Remote.Metadata) (page : Remote.Page)
    (m' : Memory) : Prop where
  sound : m'.Sound
  paged : m.Paged 1 m'
  entries : page.entries = pending.take (max 1 m.pageSize)
  awaits : m'.Awaits page (pending.drop (max 1 m.pageSize))

theorem begins_page (hm : m.Sound) (record : Record)
    (listings : List (Nat × List Remote.Metadata)) (kept : listings ⊆ m.listings)
    (pending : List Remote.Metadata) :
    m.Begins pending
      (page { m with calls := m.calls ++ [record], listings } pending).1
      (page { m with calls := m.calls ++ [record], listings } pending).2 := by
  have sound : Sound { m with calls := m.calls ++ [record], listings } :=
    ⟨hm.closed, fun l hl => hm.numbered l (kept hl)⟩
  constructor
  · exact sound.page pending
  · exact ⟨rfl, rfl, rfl, rfl, List.length_append⟩
  · rfl
  · exact awaits_page sound pending

variable {w : World}

theorem World.answer_listFolder (hw : w.remote.offline = false) (hm : w.remote.Sound) {p : Path}
    (hp : p.Canonical) (folder : w.remote.tree[p]? = some .folder) :
    ∃ page m', w.answer (.listFolder p.toString) = (.ok page, ⟨m', w.now⟩) ∧
      w.remote.Begins (w.remote.tree.children p) page m' := by
  refine ⟨_, _, ?_, begins_page hm (.listFolder p.toString) _ (List.Subset.refl _) _⟩
  simp only [answer, instantly, listFolder, receive_online hw, Path.parse_toString hp,
    Std.ExtTreeMap.get?_eq_getElem?, folder]

theorem World.answer_listFolderContinue (hw : w.remote.offline = false) (hm : w.remote.Sound)
    {page : Remote.Page} (aw : w.remote.Awaits page rest) (hr : rest ≠ [])
    (hs : w.remote.served < Program.ample) :
    ∃ next m', w.answer (.listFolderContinue page.cursor) = (.ok next, ⟨m', w.now⟩) ∧
      w.remote.Begins rest next m' := by
  refine ⟨_, _, ?_, begins_page hm (.listFolderContinue page.cursor)
    (w.remote.listings.filter (·.1 != w.remote.served)) (List.filter_subset_self _) rest⟩
  simp only [answer, instantly, listFolderContinue, receive_online hw, aw.cursor,
    cursorNumber?_cursor hs, Option.bind_some, aw.kept hr]

end Memory

def Tree.unlisted (t : Tree) (p : Path) : Failure :=
  match t[p]? with
  | some (.file _) => .providerApi "memory" ("path/not_folder: " ++ p.toString)
  | _ => .notFound p.toString

namespace Storage

open Memory (World)

variable {s : Storage} {thread budget : Nat} {w : World} {page : Remote.Page}
  {entries : List ListEntry} {rest : List Remote.Metadata}

theorem listFrom_last (more : page.hasMore = false) :
    s.listFrom thread budget page entries =
      .done (entries ++ page.entries.map Remote.Metadata.listed) := by
  cases budget <;> simp [listFrom, more]

theorem listFrom_more (h : thread < s.clients.size) (more : page.hasMore = true) :
    s.listFrom thread (budget + 1) page entries =
      .ask (.remote thread (.listFolderContinue page.cursor)) fun reply =>
        (Program.ofExcept reply).bind fun next =>
          s.listFrom thread budget next (entries ++ page.entries.map Remote.Metadata.listed) := by
  simp [listFrom, more, perform_eq h]

theorem run_listFrom_more (h : thread < s.clients.size) (hw : w.remote.offline = false)
    (hm : w.remote.Sound) (aw : w.remote.Awaits page rest) (hr : rest ≠ [])
    (hs : w.remote.served < Program.ample) (budget : Nat) (entries : List ListEntry) :
    ∃ next w₁, w.remote.Begins rest next (World.remote w₁) ∧
      w.run (s.listFrom thread (budget + 1) page entries) =
        w₁.run (s.listFrom thread budget next
          (entries ++ page.entries.map Remote.Metadata.listed)) := by
  have more : page.hasMore = true := by
    rw [aw.hasMore]
    simpa using hr
  obtain ⟨next, m₁, reply, begins⟩ := World.answer_listFolderContinue hw hm aw hr hs
  refine ⟨next, ⟨m₁, w.now⟩, begins, ?_⟩
  rw [listFrom_more h more, World.run, Program.run_ask, World.serve, reply]
  rfl

/-- Reading a listing on from a page to its end. The numbers of pages do not run out, which
is known from the outcome or from the count of the pages; and the budget is not used up before
the numbers are. -/
theorem run_listFrom (h : thread < s.clients.size) (hw : w.remote.offline = false)
    (hm : w.remote.Sound) (aw : w.remote.Awaits page rest)
    (hb : Program.ample ≤ w.remote.served + budget)
    (hs : (w.run (s.listFrom thread budget page entries)).2.remote.served < Program.ample ∨
      w.remote.served + w.remote.fills rest.length < Program.ample) :
    ∃ w', w.run (s.listFrom thread budget page entries) =
        (some (.ok (entries ++ (page.entries ++ rest).map Remote.Metadata.listed)), w') ∧
      w.remote.Paged (w.remote.fills rest.length) w'.remote := by
  have before := Memory.served_run (s.listFrom thread budget page entries) w
  induction budget generalizing w page entries rest with
  | zero =>
    -- Without budget the count of pages is beyond the bound already, and it never falls.
    omega
  | succ budget ih =>
    by_cases hr : rest = []
    · subst hr
      rw [listFrom_last aw.hasMore, List.append_nil, List.length_nil, Memory.fills_zero]
      exact ⟨w, rfl, .refl _⟩
    · obtain ⟨next, w₁, begins, step⟩ :=
        run_listFrom_more h hw hm aw hr (by omega) budget entries
      rw [step] at hs ⊢
      have fewer : w.remote.fills rest.length =
          w₁.remote.fills (rest.drop (max 1 w.remote.pageSize)).length + 1 := by
        rw [begins.paged.fills, List.length_drop]
        exact w.remote.fills_of_pos (List.length_pos_iff.2 hr)
      have taken : w₁.remote.served = w.remote.served + 1 := begins.paged.served
      obtain ⟨w', run, paged⟩ := ih (begins.paged.offline.trans hw) begins.sound begins.awaits
        (by omega) (hs.imp_right fun bound => by omega) (Memory.served_run _ _)
      refine ⟨w', ?_, ?_⟩
      · rw [run, begins.entries, List.take_append_drop]
        simp
      · rw [fewer]
        exact begins.paged.trans paged

/-- A folder that is listed without interruption gives all its children in order, on pages
that are full but for the last. -/
theorem run_list (h : thread < s.clients.size) (hr : s.root.Canonical)
    (hw : w.remote.offline = false) (hm : w.remote.Sound) (dir : String)
    (folder : w.remote.tree[s.target dir]? = some .folder)
    (hs : (w.run (s.list thread dir)).2.remote.served < Program.ample ∨
      w.remote.served + max 1 (w.remote.fills (w.remote.tree.entries (s.target dir)).length) <
        Program.ample) :
    ∃ w', w.run (s.list thread dir) =
        (some (.ok (w.remote.tree.entries (s.target dir))), w') ∧
      w.remote.Paged (max 1 (w.remote.fills (w.remote.tree.entries (s.target dir)).length))
        w'.remote := by
  obtain ⟨page, m₁, reply, begins⟩ :=
    World.answer_listFolder hw hm (canonical_target hr dir) folder
  let w₁ : World := ⟨m₁, w.now⟩
  have step : w.run (s.list thread dir) = w₁.run (s.listFrom thread Program.ample page []) := by
    rw [World.run, list, Program.bind_eq, perform_eq h, Program.ask_bind, Program.run_ask,
      remotePath_eq, World.serve, reply]
    rfl
  have first : max 1 (w.remote.fills (w.remote.tree.entries (s.target dir)).length) =
      w₁.remote.fills ((w.remote.tree.children (s.target dir)).drop
        (max 1 w.remote.pageSize)).length + 1 := by
    rw [begins.paged.fills, List.length_drop, Tree.entries, List.length_map]
    exact w.remote.fills_first _
  have taken : w₁.remote.served = w.remote.served + 1 := begins.paged.served
  rw [step] at hs ⊢
  obtain ⟨w', run, paged⟩ := run_listFrom h (begins.paged.offline.trans hw) begins.sound
    begins.awaits (Nat.le_add_left _ _) (hs.imp_right fun bound => by omega)
  refine ⟨w', ?_, ?_⟩
  · rw [run, begins.entries, List.take_append_drop]
    rfl
  · rw [first]
    exact begins.paged.trans paged

theorem run_list_refused (h : thread < s.clients.size) (hr : s.root.Canonical)
    (hw : w.remote.offline = false) (dir : String)
    (other : w.remote.tree[s.target dir]? ≠ some .folder) :
    ∃ w₁, w.run (s.list thread dir) =
        (some (.error (w.remote.tree.unlisted (s.target dir))), w₁) ∧
      w.Became w.remote.tree w₁ := by
  have reply : w.answer (.listFolder (s.target dir).toString) =
      (.error (w.remote.tree.unlisted (s.target dir)),
        w.answered (.listFolder (s.target dir).toString) w.remote.tree) := by
    simp only [World.answer, World.instantly, Memory.listFolder, World.receive_online hw,
      Path.parse_toString (canonical_target hr dir), Std.ExtTreeMap.get?_eq_getElem?]
    unfold Tree.unlisted
    cases node : w.remote.tree[s.target dir]? with
    | none => rfl
    | some kind =>
      cases kind with
      | folder => exact absurd node other
      | file content => rfl
  refine ⟨_, ?_, w.became_answered (.listFolder (s.target dir).toString) w.remote.tree w.now⟩
  rw [World.run, list, Program.bind_eq, perform_eq h, Program.ask_bind, Program.run_ask,
    remotePath_eq, World.serve, reply]
  rfl

end Storage

end ChunkStore
