import ChunkStore.Proofs.PagedListing
import ChunkStore.Proofs.ServiceHistory

/-!
# Cursors of listings

The cursor of a page leads to what is kept under the number of the page, and to nothing once
that was taken or dropped. Only calls for pages have to do with what is kept: a folder is
listed from its children on, a cursor goes on with what is kept, and every other action leaves
all listings alone.
-/

namespace ChunkStore

namespace Memory

variable {m m' : Memory} {pending : List Remote.Metadata}

/-- The service knows of no listing under this cursor. -/
def Refuses (m : Memory) (cursor : String) : Prop :=
  (m.listFolderContinue cursor).1 =
    .error (.providerApi "memory" ("reset: unknown cursor " ++ cursor))

structure Quiet (m m' : Memory) : Prop where
  listings : m'.listings = m.listings
  served : m'.served = m.served
  offline : m'.offline = m.offline

section Quiet

variable {α : Type} {record : Record}

theorem quiet_receive {serve : Memory → Except Failure α × Memory}
    (hs : ∀ m, Quiet m (serve m).2) : m.Quiet (m.receive record serve).2 := by
  unfold receive
  dsimp only
  split
  · exact ⟨rfl, rfl, rfl⟩
  · have served := hs { m with calls := m.calls ++ [record] }
    exact ⟨served.listings, served.served, served.offline⟩

theorem quiet_onTree (change : Tree → Except Failure α × Tree) :
    m.Quiet (m.receive record (·.onTree change)).2 :=
  quiet_receive fun _ => ⟨rfl, rfl, rfl⟩

theorem quiet_getMetadata (m : Memory) (path : String) : m.Quiet (m.getMetadata path).2 := by
  apply quiet_receive
  intro m
  split <;> exact ⟨rfl, rfl, rfl⟩

theorem quiet_openUpload (m : Memory) (path : String) : m.Quiet (m.openUpload path).2 :=
  quiet_receive fun _ => ⟨rfl, rfl, rfl⟩

theorem quiet_download (m : Memory) (path : String) : m.Quiet (m.download path).2 :=
  quiet_receive fun _ => ⟨rfl, rfl, rfl⟩

theorem quiet_upload (m : Memory) (path : String) (body : Source) (now : Millis) :
    m.Quiet (m.upload path body now).2.1 := by
  have opened : m.Quiet (m.openUpload path).2 := quiet_openUpload m path
  rcases upload_cases m path body now with ⟨e, -, same⟩ | ⟨content, -, stored⟩
  · rw [same]
    exact opened
  · rw [stored]
    exact ⟨opened.listings, opened.served, opened.offline⟩

end Quiet

theorem later_act (m : Memory) (action : Action) : m.Later (m.act action).2 := by
  cases action with
  | call c now => exact later_answer c ⟨m, now⟩
  | openUpload path => exact later_receive m _ .refl
  | putFile path content => exact later_onTree m _
  | setPageSize size => exact ⟨Nat.le_refl _, fun _ => .inl⟩
  | setOffline cut => exact ⟨Nat.le_refl _, fun _ => .inl⟩
  | clearCalls => exact ⟨Nat.le_refl _, fun _ => .inl⟩

/-- The cursor of a page that was served, from which no listing goes on. -/
def Spent (m : Memory) (text : String) : Prop :=
  ∃ n ≤ m.served, text = cursor n ∧ ∀ l ∈ m.listings, l.1 ≠ n

theorem Spent.later {text : String} (h : m.Spent text) (later : m.Later m') : m'.Spent text := by
  obtain ⟨n, served, written, none⟩ := h
  refine ⟨n, Nat.le_trans served later.served, written, ?_⟩
  intro l member
  rcases later.listings l member with old | new
  · exact none l old
  · omega

theorem cursor_inj {n k : Nat} : cursor n = cursor k ↔ n = k := by
  constructor
  · intro same
    have digits : Nat.toDigits 10 n = Nat.toDigits 10 k := by
      have lists := congrArg String.toList same
      rw [cursor, cursor, String.toList_append, String.toList_append] at lists
      simpa only [Nat.toList_repr] using List.append_cancel_left lists
    calc
      n = Nat.ofDigitChars 10 (Nat.toDigits 10 n) 0 := Nat.ofDigitChars_ten_toDigits.symm
      _ = Nat.ofDigitChars 10 (Nat.toDigits 10 k) 0 := by rw [digits]
      _ = k := Nat.ofDigitChars_ten_toDigits
  · exact congrArg cursor

/-- A cursor leads to what is kept under its number, which is then kept no longer. -/
theorem listFolderContinue_kept (online : m.offline = false) {n : Nat}
    (hn : n < Program.ample) (kept : m.listings.find? (·.1 == n) = some (n, pending)) :
    m.listFolderContinue (cursor n) =
      let (page, m) := page { m with
        calls := m.calls ++ [.listFolderContinue (cursor n)]
        listings := m.listings.filter (·.1 != n) } pending
      (.ok page, m) := by
  simp only [listFolderContinue, World.receive_online online, cursorNumber?_cursor hn,
    Option.bind_some, kept]

theorem Spent.listFolderContinue {text : String} (h : m.Spent text) (online : m.offline = false)
    (room : m.served < Program.ample) :
    m.listFolderContinue text =
      (.error (.providerApi "memory" ("reset: unknown cursor " ++ text)),
        { m with calls := m.calls ++ [.listFolderContinue text] }) := by
  obtain ⟨n, served, rfl, other⟩ := h
  have absent : m.listings.find? (·.1 == n) = none := by
    rw [List.find?_eq_none]
    intro listing member
    simpa using other listing member
  have number : cursorNumber? (cursor n) = some n :=
    cursorNumber?_cursor (Nat.lt_of_le_of_lt served room)
  simp only [Memory.listFolderContinue, World.receive_online online, number, Option.bind_some,
    absent]

theorem Spent.refused {text : String} (h : m.Spent text) (online : m.offline = false)
    (room : m.served < Program.ample) : m.Refuses text :=
  congrArg Prod.fst (h.listFolderContinue online room)

/-- A listing is begun with the children that the folder has, or nothing comes of the call. -/
theorem listFolder_cases (m : Memory) (path : String) :
    (m.listFolder path =
      let (page, m) := page { m with calls := m.calls ++ [.listFolder (Path.parse path).toString] }
        (m.tree.children (.parse path))
      (.ok page, m)) ∨
    ∃ e, (m.listFolder path).1 = .error e ∧ m.Quiet (m.listFolder path).2 := by
  unfold listFolder receive
  dsimp only
  split
  · exact .inr ⟨_, rfl, rfl, rfl, rfl⟩
  · split
    · exact .inl rfl
    · exact .inr ⟨_, rfl, rfl, rfl, rfl⟩
    · exact .inr ⟨_, rfl, rfl, rfl, rfl⟩

theorem page_last (last : pending.length ≤ max 1 m.pageSize) :
    m.page pending = (⟨pending, cursor (m.served + 1), false⟩,
      { m with served := m.served + 1 }) := by
  simp [page, List.drop_eq_nil_of_le last, List.take_of_length_le last]

theorem page_more (more : max 1 m.pageSize < pending.length) :
    m.page pending = (⟨pending.take (max 1 m.pageSize), cursor (m.served + 1), true⟩,
      { m with
        served := m.served + 1
        listings := m.listings.drop (m.listings.length + 1 - maxOpen) ++
          [(m.served + 1, pending.drop (max 1 m.pageSize))] }) := by
  have rest : (pending.drop (max 1 m.pageSize)).isEmpty = false := by
    rw [List.isEmpty_eq_false_iff, Ne, List.drop_eq_nil_iff, Nat.not_le]
    exact more
  have old : m.listings.length + 1 - maxOpen ≤ m.listings.length := by
    rw [maxOpen]
    omega
  simp only [page, rest, Bool.not_false, if_true, List.length_append, List.length_singleton]
  rw [List.drop_append_of_le_length old]

end Memory

end ChunkStore
