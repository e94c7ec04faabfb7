import ChunkStore.Proofs.ListingCursors
import Mathlib.Data.List.Forall2
import Mathlib.Data.List.Nodup

/-!
# Listings among any calls

A run of a service is accompanied by a ledger of what the readers of listings see: which
cursors were issued and presented, which listings are open, and what their pages have shown.
The service keeps exactly one rest for each open listing, under the number of its latest page.
So a listing that is open goes on with what its folder had when the listing began, whatever
was changed since. When too many listings are open, the one whose latest page is the oldest is
dropped, and its cursor is refused from then on like one that was presented before.
-/

namespace ChunkStore

/-- `entries` are the nodes right below `p`, each of them once, in the order of the bytes of
their names. -/
def Tree.Lists (t : Tree) (p : Path) (entries : List Remote.Metadata) : Prop :=
  entries.Pairwise (fun a b => compare (Text.bytes a.name) (Text.bytes b.name) = .lt) ∧
    ∀ e, e ∈ entries ↔
      ∃ name node, t[p.child name]? = some node ∧ e = Tree.metadata (p.child name) node

theorem Tree.lists_children (t : Tree) (p : Path) : t.Lists p (t.children p) := by
  constructor
  · apply (t.children_ordered p).imp
    intro a b before
    rwa [Text.compare_bytes]
  · intro e
    exact Tree.mem_children

namespace Memory

/-- A listing as its readers see it: the folder with the tree of the moment at which the
listing began, the entries of all pages so far, and the cursor of the latest page. -/
structure Reading where
  tree : Tree
  folder : Path
  shown : List Remote.Metadata := []
  cursor : String := ""

/-- What was seen of the listings of a service. -/
structure Ledger where
  begun : Nat := 0
  issued : List String := []
  presented : List String := []
  /-- The listings with more to come after the latest page. -/
  opened : List Reading := []
  finished : List Reading := []
  /-- The listings that were open when too many were. -/
  dropped : List Reading := []
  /-- The most listings that were open at a time. -/
  most : Nat := 0

namespace Ledger

/-- Notes a page of a listing. One that has more to come is open, and is the last in order; of
those that are too many with it, the first are dropped. -/
def turn (L : Ledger) (r : Reading) (page : Remote.Page) : Ledger :=
  let next := { r with shown := r.shown ++ page.entries, cursor := page.cursor }
  let surplus := L.opened.length + 1 - maxOpen
  if page.hasMore then
    { L with
      issued := L.issued ++ [page.cursor]
      opened := L.opened.drop surplus ++ [next]
      dropped := L.dropped ++ L.opened.take surplus
      most := max L.most (L.opened.length + 1) }
  else
    { L with
      issued := L.issued ++ [page.cursor]
      finished := L.finished ++ [next] }

/-- Notes an action on `m`. A page that is served for a cursor belongs to the open listing
whose latest page had it. -/
def note (L : Ledger) (m : Memory) : Action → Ledger
  | .call (.listFolder path) _ =>
    match (m.listFolder path).1 with
    | .ok page => { L with begun := L.begun + 1 }.turn { tree := m.tree, folder := .parse path } page
    | .error _ => L
  | .call (.listFolderContinue cursor) _ =>
    let L := { L with presented := L.presented ++ [cursor] }
    match L.opened.find? (·.cursor == cursor), (m.listFolderContinue cursor).1 with
    | some r, .ok page => { L with opened := L.opened.filter (·.cursor != cursor) }.turn r page
    | _, _ => L
  | _ => L

/-- Only cursors that were issued are presented, and the service is never cut off. -/
def Admits (L : Ledger) : Action → Prop
  | .call (.listFolderContinue cursor) _ => cursor ∈ L.issued
  | .setOffline cut => cut = false
  | _ => True

end Ledger

inductive Recorded : Memory → Ledger → Prop
  | fresh : Recorded {} {}
  | act {m : Memory} {L : Ledger} (action : Action) :
      L.Admits action → Recorded m L → Recorded (m.act action).2 (L.note m action)

/-- The next page of a listing is served: entries that follow those shown. It is the last page
if no others are to come. -/
def Continues (m : Memory) (r : Reading) : Prop :=
  ∃ page rest, (m.listFolderContinue r.cursor).1 = .ok page ∧ page.entries ≠ [] ∧
    page.hasMore = !rest.isEmpty ∧ r.tree.Lists r.folder (r.shown ++ page.entries ++ rest)

variable {m m' : Memory} {L : Ledger} {r : Reading} {pending : List Remote.Metadata}
  {listing : Nat × List Remote.Metadata}

/-- What is kept of a listing is what its readers have yet to see. -/
structure Keeps (listing : Nat × List Remote.Metadata) (r : Reading) : Prop where
  cursor : r.cursor = Memory.cursor listing.1
  numbered : listing.1 < Program.ample
  more : listing.2 ≠ []
  lists : r.tree.Lists r.folder (r.shown ++ listing.2)

theorem Keeps.number_iff (k : Keeps listing r) {n : Nat} :
    listing.1 = n ↔ r.cursor = Memory.cursor n := by
  rw [k.cursor]
  exact cursor_inj.symm

end Memory

section Matched

variable {α β : Type} {R : α → β → Prop} {first : List α} {second : List β}

theorem exists_of_forall₂ (h : List.Forall₂ R first second) {b : β} (hb : b ∈ second) :
    ∃ a ∈ first, R a b := by
  induction h with
  | nil => cases hb
  | @cons a b' first second hab _ ih =>
    rcases List.mem_cons.1 hb with rfl | later
    · exact ⟨a, List.mem_cons_self, hab⟩
    · obtain ⟨a', ha, related⟩ := ih later
      exact ⟨a', List.mem_cons_of_mem _ ha, related⟩

theorem find?_of_forall₂ {p : α → Bool} {q : β → Bool} (h : List.Forall₂ R first second)
    (same : ∀ a b, R a b → p a = q b) :
    first.find? p = none ∧ second.find? q = none ∨
      ∃ a b, first.find? p = some a ∧ second.find? q = some b ∧ R a b := by
  induction h with
  | nil => exact .inl ⟨rfl, rfl⟩
  | @cons a b first second hab _ ih =>
    rw [List.find?_cons, List.find?_cons, ← same a b hab]
    cases p a with
    | true => exact .inr ⟨a, b, rfl, rfl, hab⟩
    | false => exact ih

theorem length_filter_ne {f : α → String} (once : (first.map f).Nodup) {a : α} (h : a ∈ first) :
    (first.filter (f · != f a)).length + 1 = first.length := by
  have one : (first.filter fun x => f x == f a).length = 1 := by
    rw [← List.countP_eq_length_filter]
    have count := List.count_eq_one_of_mem once (List.mem_map_of_mem h)
    rwa [List.count, List.countP_map] at count
  have split := List.length_eq_length_filter_add (l := first) fun x => f x == f a
  change (first.filter fun x => !(f x == f a)).length + 1 = first.length
  omega

end Matched

namespace Memory

namespace Ledger

variable {m m' : Memory} {L : Ledger} {r : Reading} {pending : List Remote.Metadata}
  {listing : Nat × List Remote.Metadata} {inHand : Nat}

/-- The ledger tells of the service as it is, where a number of listings are in hand: those
for which a page is just being served. -/
structure Faithful (L : Ledger) (m : Memory) (inHand : Nat) : Prop where
  sound : m.Sound
  online : m.offline = false
  ascending : m.listings.Pairwise fun first second => first.1 < second.1
  matched : List.Forall₂ Keeps m.listings L.opened
  few : m.listings.length ≤ maxOpen
  issued : L.issued = (List.range' 1 m.served).map cursor
  inOrder : (L.opened.map Reading.cursor).Sublist L.issued
  presented : ∀ text ∈ L.presented, m.Spent text
  dropped : ∀ r ∈ L.dropped, m.Spent r.cursor
  finished : ∀ r ∈ L.finished, r.tree.Lists r.folder r.shown
  counted : L.begun = L.opened.length + L.finished.length + L.dropped.length + inHand
  most : L.most ≤ maxOpen → L.dropped = []

namespace Faithful

theorem fresh : Faithful {} {} 0 where
  sound := .fresh
  online := rfl
  ascending := List.Pairwise.nil
  matched := .nil
  few := Nat.zero_le _
  issued := rfl
  inOrder := List.Sublist.slnil
  presented := nofun
  dropped := nofun
  finished := nofun
  counted := rfl
  most := fun _ => rfl

theorem quiet (F : L.Faithful m inHand) (h : m.Quiet m') (sound : m'.Sound) :
    L.Faithful m' inHand := by
  have spent (text : String) (old : m.Spent text) : m'.Spent text := by
    unfold Spent at old ⊢
    rwa [h.listings, h.served]
  exact {
    F with
    sound
    online := h.offline.trans F.online
    ascending := h.listings ▸ F.ascending
    matched := h.listings ▸ F.matched
    few := h.listings ▸ F.few
    issued := h.served ▸ F.issued
    presented := fun text member => spent text (F.presented text member)
    dropped := fun r member => spent r.cursor (F.dropped r member) }

theorem length_opened (F : L.Faithful m inHand) : L.opened.length = m.listings.length :=
  F.matched.length_eq.symm

theorem begin (F : L.Faithful m inHand) :
    Faithful { L with begun := L.begun + 1 } m (inHand + 1) :=
  { F with counted := by rw [F.counted]; rfl }

theorem present (F : L.Faithful m inHand) {text : String} (spent : m.Spent text) :
    Faithful { L with presented := L.presented ++ [text] } m inHand :=
  { F with
    presented := by
      intro other member
      rcases List.mem_append.1 member with old | new
      · exact F.presented other old
      · rwa [List.mem_singleton.1 new] }

theorem cursors_nodup (F : L.Faithful m inHand) : (L.opened.map Reading.cursor).Nodup := by
  apply F.inOrder.nodup
  rw [F.issued]
  apply List.Nodup.map_on _ (List.nodup_range' 1)
  intro n _ k _ same
  exact cursor_inj.1 same

theorem number_of_issued (F : L.Faithful m inHand) {text : String} (h : text ∈ L.issued) :
    ∃ n ≤ m.served, text = Memory.cursor n := by
  rw [F.issued] at h
  obtain ⟨n, hn, rfl⟩ := List.mem_map.1 h
  rw [List.mem_range'_1] at hn
  exact ⟨n, by omega, rfl⟩

/-- The cursor of an open listing is presented: the listing is in hand, and its cursor spent. -/
theorem take (F : L.Faithful m inHand) (hl : listing ∈ m.listings) (hr : r ∈ L.opened)
    (k : Keeps listing r) :
    Faithful
      { L with
        presented := L.presented ++ [r.cursor]
        opened := L.opened.filter (·.cursor != r.cursor) }
      { m with listings := m.listings.filter (·.1 != listing.1) } (inHand + 1) := by
  have later : m.Later { m with listings := m.listings.filter (·.1 != listing.1) } :=
    ⟨Nat.le_refl _, fun l member => .inl (List.mem_filter.1 member).1⟩
  -- Open listings have cursors of their own, so the filter takes out just one.
  have one := length_filter_ne F.cursors_nodup hr
  exact {
    sound := F.sound.filter _
    online := F.online
    ascending := F.ascending.filter _
    matched := by
      apply List.rel_filter _ F.matched
      intro other r' k'
      have number := k'.number_iff (n := listing.1)
      rw [← k.cursor] at number
      simp [number]
    few := Nat.le_trans (List.length_filter_le _ _) F.few
    issued := F.issued
    inOrder := (List.filter_sublist.map Reading.cursor).trans F.inOrder
    presented := by
      intro text member
      rcases List.mem_append.1 member with old | new
      · exact (F.presented text old).later later
      · refine ⟨listing.1, F.sound.numbered listing hl, ?_, ?_⟩
        · rw [List.mem_singleton.1 new, k.cursor]
        · intro l kept
          simpa using (List.mem_filter.1 kept).2
    dropped := fun r' member => (F.dropped r' member).later later
    finished := F.finished
    counted := by
      have total := F.counted
      dsimp only at one ⊢
      omega
    most := F.most }

theorem issued_turn (F : L.Faithful m inHand) (page : Remote.Page)
    (number : page.cursor = Memory.cursor (m.served + 1)) :
    L.issued ++ [page.cursor] = (List.range' 1 (m.served + 1)).map Memory.cursor := by
  rw [List.range'_1_concat, List.map_append, ← F.issued, number, Nat.add_comm 1]
  rfl

theorem turn_last (F : L.Faithful m 1) (lists : r.tree.Lists r.folder (r.shown ++ pending))
    (last : pending.length ≤ max 1 m.pageSize) :
    (L.turn r (m.page pending).1).Faithful (m.page pending).2 0 := by
  have later : m.Later (m.page pending).2 := later_page m pending
  have sound : (m.page pending).2.Sound := F.sound.page pending
  rw [page_last last] at later sound ⊢
  exact {
    sound
    online := F.online
    ascending := F.ascending
    matched := F.matched
    few := F.few
    issued := F.issued_turn _ rfl
    inOrder := F.inOrder.trans (List.sublist_append_left _ _)
    presented := fun text member => (F.presented text member).later later
    dropped := fun r' member => (F.dropped r' member).later later
    finished := by
      intro r' member
      rcases List.mem_append.1 member with old | new
      · exact F.finished r' old
      · rwa [List.mem_singleton.1 new]
    counted := by
      have total := F.counted
      simp only [Ledger.turn, Bool.false_eq_true, if_false, List.length_append,
        List.length_singleton]
      omega
    most := F.most }

/-- The listings that are too many have lower numbers than those that stay. -/
theorem spent_of_surplus (F : L.Faithful m inHand) (surplus : Nat) {m' : Memory}
    {rest : List Remote.Metadata} (served : m'.served = m.served + 1)
    (listings : m'.listings = m.listings.drop surplus ++ [(m.served + 1, rest)])
    (h : r ∈ L.opened.take surplus) : m'.Spent r.cursor := by
  obtain ⟨l, kept, k⟩ := exists_of_forall₂ (List.forall₂_take surplus F.matched) h
  have number : l.1 ≤ m.served := F.sound.numbered l (List.mem_of_mem_take kept)
  refine ⟨l.1, by omega, k.cursor, ?_⟩
  intro other member
  rw [listings] at member
  rcases List.mem_append.1 member with stays | new
  · have ascending := F.ascending
    rw [← List.take_append_drop surplus m.listings, List.pairwise_append] at ascending
    have := ascending.2.2 l kept other stays
    omega
  · rw [List.mem_singleton.1 new]
    dsimp only
    omega

theorem turn_more (F : L.Faithful m 1) (lists : r.tree.Lists r.folder (r.shown ++ pending))
    (room : m.served + 1 < Program.ample) (more : max 1 m.pageSize < pending.length) :
    (L.turn r (m.page pending).1).Faithful (m.page pending).2 0 := by
  have later : m.Later (m.page pending).2 := later_page m pending
  have sound : (m.page pending).2.Sound := F.sound.page pending
  rw [page_more more] at later sound ⊢
  have size := F.length_opened
  have few := F.few
  exact {
    sound
    online := F.online
    ascending := by
      apply List.pairwise_append.2
      refine ⟨F.ascending.drop, List.pairwise_singleton _ _, ?_⟩
      intro old member new hnew
      have number := F.sound.numbered old (List.mem_of_mem_drop member)
      rw [List.mem_singleton.1 hnew]
      dsimp only
      omega
    matched := by
      dsimp only [Ledger.turn]
      -- Both lists lose as many at the front, and gain the listing in hand at the end.
      rw [if_pos rfl, size]
      apply List.rel_append (List.forall₂_drop _ F.matched)
      refine .cons ⟨rfl, room, ?_, ?_⟩ .nil
      · rwa [Ne, List.drop_eq_nil_iff, Nat.not_le]
      · rwa [List.append_assoc, List.take_append_drop]
    few := by
      simp only [List.length_append, List.length_drop, List.length_singleton, maxOpen]
      omega
    issued := F.issued_turn _ rfl
    inOrder := by
      dsimp only [Ledger.turn]
      rw [if_pos rfl, List.map_append]
      exact (((List.drop_sublist _ _).map Reading.cursor).trans F.inOrder).append
        (List.Sublist.refl _)
    presented := fun text member => (F.presented text member).later later
    dropped := by
      intro r' member
      rcases List.mem_append.1 member with old | surplus
      · exact (F.dropped r' old).later later
      · rw [size] at surplus
        exact F.spent_of_surplus _ rfl rfl surplus
    finished := F.finished
    counted := by
      have total := F.counted
      simp only [Ledger.turn, if_true, List.length_append, List.length_drop, List.length_take,
        List.length_singleton]
      omega
    most := by
      intro most
      dsimp only [Ledger.turn] at most ⊢
      rw [if_pos rfl] at most ⊢
      -- No more are open than are kept, so none is dropped.
      have none : L.opened.length + 1 - maxOpen = 0 := by
        have := Nat.le_trans (Nat.le_max_right _ _) most
        omega
      rw [none, List.take_zero, List.append_nil]
      exact F.most (Nat.le_trans (Nat.le_max_left _ _) most) }

theorem turn (F : L.Faithful m 1) (lists : r.tree.Lists r.folder (r.shown ++ pending))
    (room : m.served + 1 < Program.ample) :
    (L.turn r (m.page pending).1).Faithful (m.page pending).2 0 := by
  rcases Nat.lt_or_ge (max 1 m.pageSize) pending.length with more | last
  · exact F.turn_more lists room more
  · exact F.turn_last lists last

/-- An issued cursor is that of an open listing, or no listing goes on from it. -/
theorem search (F : L.Faithful m inHand) {text : String} (h : text ∈ L.issued) :
    (∃ listing r, m.listings.find? (·.1 == listing.1) = some listing ∧
      L.opened.find? (·.cursor == text) = some r ∧ Keeps listing r) ∨
    L.opened.find? (·.cursor == text) = none ∧ m.Spent text := by
  obtain ⟨n, served, rfl⟩ := F.number_of_issued h
  rcases find?_of_forall₂ (p := (·.1 == n)) (q := (·.cursor == Memory.cursor n)) F.matched
    (fun listing r k => Bool.eq_iff_iff.2 (by simpa using k.number_iff))
    with ⟨absent, none⟩ | ⟨listing, r, kept, opened, k⟩
  · refine .inr ⟨none, n, served, rfl, ?_⟩
    intro listing member
    simpa using List.find?_eq_none.1 absent listing member
  · have number : listing.1 = n := by simpa using List.find?_some kept
    rw [← number] at kept opened
    exact .inl ⟨listing, r, kept, number ▸ opened, k⟩

theorem note_listFolder (F : L.Faithful m 0) (path : String) (now : Millis)
    (room : (m.listFolder path).2.served < Program.ample) :
    (L.note m (.call (.listFolder path) now)).Faithful (m.listFolder path).2 0 := by
  have sound : (m.listFolder path).2.Sound := F.sound.listFolder path
  rcases listFolder_cases m path with begins | ⟨e, refused, quiet⟩
  · simp only [Ledger.note, begins] at room ⊢
    refine turn (F.begin.quiet ⟨rfl, rfl, rfl⟩ (F.sound.note _)) ?_ room
    exact m.tree.lists_children (.parse path)
  · simp only [Ledger.note, refused]
    exact F.quiet quiet sound

theorem note_listFolderContinue (F : L.Faithful m 0) {text : String} (issued : text ∈ L.issued)
    (now : Millis) (room : (m.listFolderContinue text).2.served < Program.ample) :
    (L.note m (.call (.listFolderContinue text) now)).Faithful
      (m.listFolderContinue text).2 0 := by
  have before : m.served < Program.ample :=
    Nat.lt_of_le_of_lt (later_listFolderContinue m text).served room
  rcases F.search issued with ⟨listing, r, kept, opened, k⟩ | ⟨none, spent⟩
  · have same : r.cursor = text := by simpa using List.find?_some opened
    subst same
    have reply := listFolderContinue_kept F.online k.numbered kept
    rw [← k.cursor] at reply
    simp only [Ledger.note, opened, reply] at room ⊢
    have taken := F.take (List.mem_of_find?_eq_some kept)
      (List.mem_of_find?_eq_some opened) k
    exact turn (taken.quiet ⟨rfl, rfl, rfl⟩ (taken.sound.note _)) k.lists room
  · have quiet : m.Quiet (m.listFolderContinue text).2 := by
      rw [spent.listFolderContinue F.online before]
      exact ⟨rfl, rfl, rfl⟩
    simp only [Ledger.note, none]
    exact (F.present spent).quiet quiet (F.sound.listFolderContinue text)

theorem note (F : L.Faithful m 0) (action : Action) (admits : L.Admits action)
    (room : (m.act action).2.served < Program.ample) :
    (L.note m action).Faithful (m.act action).2 0 := by
  cases action with
  | call c now =>
    have sound : (World.answer c ⟨m, now⟩).2.remote.Sound := F.sound.answer c now
    cases c with
    | listFolder path => exact F.note_listFolder path now room
    | listFolderContinue text => exact F.note_listFolderContinue admits now room
    | getMetadata path => exact F.quiet (quiet_getMetadata m path) sound
    | createFolder path => exact F.quiet (quiet_onTree _) sound
    | delete path => exact F.quiet (quiet_onTree _) sound
    | moveEntry source target => exact F.quiet (quiet_onTree _) sound
    | upload path size body => exact F.quiet (quiet_upload m path body now) sound
    | download path => exact F.quiet (quiet_download m path) sound
  | openUpload path => exact F.quiet (quiet_openUpload m path) (F.sound.openUpload path)
  | putFile path content => exact F.quiet ⟨rfl, rfl, rfl⟩ (F.sound.putFile path content)
  | setPageSize size => exact F.quiet ⟨rfl, rfl, rfl⟩ ⟨F.sound.closed, F.sound.numbered⟩
  | setOffline cut =>
    exact F.quiet ⟨rfl, rfl, admits.trans F.online.symm⟩ ⟨F.sound.closed, F.sound.numbered⟩
  | clearCalls => exact F.quiet ⟨rfl, rfl, rfl⟩ (F.sound.note [])

theorem continues (F : L.Faithful m inHand) (h : r ∈ L.opened) : m.Continues r := by
  have member : r.cursor ∈ L.issued := F.inOrder.subset (List.mem_map_of_mem h)
  rcases F.search member with ⟨listing, other, kept, opened, k⟩ | ⟨none, -⟩
  · have same : other = r := by
      apply List.inj_on_of_nodup_map F.cursors_nodup
        (List.mem_of_find?_eq_some opened) h
      simpa using List.find?_some opened
    subst same
    have reply := listFolderContinue_kept F.online k.numbered kept
    rw [← k.cursor] at reply
    refine ⟨_, listing.2.drop (max 1 m.pageSize), congrArg Prod.fst reply, ?_, rfl, ?_⟩
    · simp [page, k.more]
    · rw [List.append_assoc]
      dsimp only [page]
      rw [List.take_append_drop]
      exact k.lists
  · have absent := List.find?_eq_none.1 none r h
    simp at absent

/-- One more listing than may be open: the first of those that are open gives way. -/
theorem overflow (F : L.Faithful m 0) (full : L.opened.length = maxOpen)
    {path : String} {page : Remote.Page} (reply : (m.listFolder path).1 = .ok page)
    (more : page.hasMore = true) (room : (m.listFolder path).2.served < Program.ample) :
    ∃ oldest others, L.opened = oldest :: others ∧
      (m.listFolder path).2.Refuses oldest.cursor ∧
      ∀ r ∈ others, (m.listFolder path).2.Continues r := by
  have after := F.note_listFolder path 0 room
  simp only [Ledger.note, reply, Ledger.turn, more, if_true, full] at after
  cases opened : L.opened with
  | nil =>
    rw [opened] at full
    cases full
  | cons oldest others =>
    rw [opened] at after
    refine ⟨oldest, others, rfl, ?_, ?_⟩
    · have dropped : oldest ∈ L.dropped ++ (oldest :: others).take (maxOpen + 1 - maxOpen) := by
        simp
      exact (after.dropped oldest dropped).refused after.online room
    · intro r member
      apply after.continues
      simp [member]

end Faithful

end Ledger

theorem Recorded.faithful (run : Recorded m L) (room : m.served < Program.ample) :
    L.Faithful m 0 := by
  induction run with
  | fresh => exact .fresh
  | @act m L action admits _ ih =>
    have before : m.served < Program.ample :=
      Nat.lt_of_le_of_lt (later_act m action).served room
    exact (ih before).note action admits room

/-- At every moment of a run, the listings that were read to their end have shown what their
folder had when they began, and so do those that are open as they go on. As long as no more are
open than are kept, none is lost; each further listing costs the one whose latest page is the
oldest. A cursor that was presented, or whose listing was dropped, is refused. -/
theorem listings_deliver_snapshots (run : Recorded m L) (room : m.served < Program.ample) :
    (∀ r ∈ L.finished, r.tree.Lists r.folder r.shown) ∧
    (∀ r ∈ L.opened, m.Continues r) ∧
    L.begun = L.opened.length + L.finished.length + L.dropped.length ∧
    (L.most ≤ maxOpen → L.dropped = []) ∧
    (∀ text ∈ L.presented, m.Refuses text) ∧
    (∀ r ∈ L.dropped, m.Refuses r.cursor) ∧
    (∀ text ∈ L.issued, (∃ r ∈ L.opened, r.cursor = text) ∨ m.Refuses text) ∧
    (L.opened.map Reading.cursor).Sublist L.issued ∧
    ∀ path page, L.opened.length = maxOpen → (m.listFolder path).1 = .ok page →
      page.hasMore = true → (m.listFolder path).2.served < Program.ample →
      ∃ oldest others, L.opened = oldest :: others ∧
        (m.listFolder path).2.Refuses oldest.cursor ∧
        ∀ r ∈ others, (m.listFolder path).2.Continues r := by
  have F : L.Faithful m 0 := run.faithful room
  refine ⟨F.finished, ?_, F.counted, F.most, ?_, ?_, ?_, F.inOrder, ?_⟩
  · intro r opened
    exact F.continues opened
  · intro text presented
    exact (F.presented text presented).refused F.online room
  · intro r dropped
    exact (F.dropped r dropped).refused F.online room
  · intro text issued
    rcases F.search issued with ⟨-, r, -, opened, -⟩ | ⟨-, spent⟩
    · refine .inl ⟨r, List.mem_of_find?_eq_some opened, ?_⟩
      simpa using List.find?_some opened
    · exact .inr (spent.refused F.online room)
  · intro path page full reply more later
    exact F.overflow full reply more later

/-- A folder is deleted while its listing is read page by page. -/
theorem listings_deliver_snapshots_deleted :
    ∃ m L, Recorded m L ∧ m.served < Program.ample ∧ m.holds "/d" = false ∧
      L.finished.map (fun r => r.shown.map (·.name)) = [["a", "b"]] ∧
      (∀ r ∈ L.finished, r.tree.Lists r.folder r.shown) ∧ m.Refuses (cursor 1) := by
  have run := Recorded.fresh
    |>.act (.putFile "/d/a" []) trivial
    |>.act (.putFile "/d/b" [0]) trivial
    |>.act (.setPageSize 1) trivial
    |>.act (.call (.listFolder "/d") 0) trivial
    |>.act (.call (.delete "/d") 0) trivial
    |>.act (.call (.listFolderContinue (cursor 1)) 0) (by
      change cursor 1 ∈ Ledger.issued _
      decide +kernel)
  refine ⟨_, _, run, by decide +kernel, by decide +kernel, by decide +kernel, ?_⟩
  obtain ⟨finished, -, -, -, presented, -⟩ :=
    listings_deliver_snapshots run (by decide +kernel)
  refine ⟨finished, ?_⟩
  apply presented
  decide +kernel

end Memory

end ChunkStore
