import ChunkStore.Memory
import ChunkStore.Proofs.TreeMoves

/-!
# States that a service in memory can reach

Any handle may make any call at any time, and the owner of the service may put files in
place, change the page size, cut the connection and clear the record of calls. Whatever is
done, and whether it succeeds or fails, the tree stays closed and no open listing has a
number above that of the latest page. A call opens listings under higher numbers only.
-/

namespace ChunkStore

/-- What every answer keeps, a whole run keeps. -/
theorem Program.run_keeps {I : Interface} {α σ : Type} {answer : (c : I.Call) → σ → I.Reply c × σ}
    {P : σ → Prop} (step : ∀ c s, P s → P (answer c s).2) (p : Program I α) {s : σ} (h : P s) :
    P (p.run answer s).2 := by
  induction p generalizing s with
  | done value => exact h
  | failed e => exact h
  | spent => exact h
  | ask call next ih => exact ih _ (step call s h)

namespace Memory

/-- The states of a service that was once fresh. -/
inductive Reachable : Memory → Prop
  | fresh : Reachable {}
  | call {m : Memory} (c : Remote.Call) (now : Millis) :
      Reachable m → Reachable ((World.mk m now).answer c).2.remote
  | putFile {m : Memory} (path : String) (content : Bytes) :
      Reachable m → Reachable (m.putFile path content).2
  | pageSize {m : Memory} (size : Nat) : Reachable m → Reachable { m with pageSize := size }
  | offline {m : Memory} (cut : Bool) : Reachable m → Reachable { m with offline := cut }
  | forget {m : Memory} : Reachable m → Reachable { m with calls := [] }

/-- Notes the call of an upload whose body is still to be read. -/
def openUpload (m : Memory) (path : String) : Except Failure Unit × Memory :=
  m.receive (.upload (Path.parse path).toString) fun m => (.ok (), m)

/-- An upload is its call and, unless the call or the body fails, a file put in place. -/
theorem upload_halves (m : Memory) (path : String) (body : Source) (now : Millis) :
    m.upload path body now =
      match m.openUpload path with
      | (.error e, m) => (.error e, m, now)
      | (.ok (), m) =>
        match body.drain now with
        | (.error e, now) => (.error e, m, now)
        | (.ok content, now) => ((m.putFile path content).1, (m.putFile path content).2, now) := by
  cases opened : m.openUpload path with
  | mk reply m' =>
    unfold openUpload at opened
    simp only [upload, opened]
    cases reply with
    | error e => rfl
    | ok accepted =>
      cases body.drain now with
      | mk result now => cases result <;> rfl

/-- What an upload leaves: the state after its call, if it fails, or that with a file put in
place, which may be refused. -/
theorem upload_cases (m : Memory) (path : String) (body : Source) (now : Millis) :
    (∃ e, (m.upload path body now).1 = .error e ∧
      (m.upload path body now).2.1 = (m.openUpload path).2) ∨
    ∃ content, (m.upload path body now).1 = ((m.openUpload path).2.putFile path content).1 ∧
      (m.upload path body now).2.1 = ((m.openUpload path).2.putFile path content).2 := by
  rw [upload_halves]
  cases m.openUpload path with
  | mk reply m' =>
    cases reply with
    | error e => exact .inl ⟨e, rfl, rfl⟩
    | ok accepted =>
      dsimp only
      cases body.drain now with
      | mk result later =>
        cases result with
        | error e => exact .inl ⟨e, rfl, rfl⟩
        | ok content => exact .inr ⟨content, rfl, rfl⟩

/-- What every step keeps. -/
structure Sound (m : Memory) : Prop where
  closed : m.tree.Closed
  numbered : ∀ listing ∈ m.listings, listing.1 ≤ m.served

theorem getElem?_bare (q : Path) :
    Tree.bare[q]? = if q = .root then some .folder else none := by
  rw [Tree.bare, Tree.getElem?_insert_path, Std.ExtTreeMap.getElem?_empty]

theorem bare_closed : Tree.bare.Closed := by
  refine ⟨by rw [getElem?_bare, if_pos rfl], fun p hp => ?_, fun p hp q hq => ?_⟩
  all_goals
    rw [getElem?_bare] at hp
    split at hp
    · rename_i he
      subst he
      first
        | exact Path.canonical_root
        | exact absurd (Path.mem_ancestors.1 hq).2 (by simp [Path.root])
    · exact absurd rfl hp

/-- A tree without files blocks nothing. -/
theorem bare_unblocked (p : Path) : Tree.bare.Unblocked p := by
  intro q _ c hc
  rw [getElem?_bare] at hc
  split at hc <;> cases hc

theorem Sound.fresh : Sound {} := ⟨bare_closed, by simp⟩

variable {m : Memory}

theorem Sound.note (h : m.Sound) (calls : List Record) : Sound { m with calls } :=
  ⟨h.closed, h.numbered⟩

theorem Sound.filter (h : m.Sound) (keep : Nat × List Remote.Metadata → Bool) :
    Sound { m with listings := m.listings.filter keep } :=
  ⟨h.closed, fun l hl => h.numbered l (List.mem_filter.1 hl).1⟩

theorem Sound.receive {α : Type} (h : m.Sound) (record : Record)
    {serve : Memory → Except Failure α × Memory} (hs : ∀ m : Memory, m.Sound → (serve m).2.Sound) :
    (m.receive record serve).2.Sound := by
  unfold Memory.receive
  dsimp only
  split
  · exact h.note _
  · exact hs _ (h.note _)

theorem Sound.onTree {α : Type} (h : m.Sound) {change : Tree → Except Failure α × Tree}
    (hc : m.tree.Closed → (change m.tree).2.Closed) : (m.onTree change).2.Sound :=
  ⟨hc h.closed, h.numbered⟩

theorem Sound.page (h : m.Sound) (pending : List Remote.Metadata) :
    (m.page pending).2.Sound := by
  refine ⟨h.closed, fun listing hl => ?_⟩
  have old (ho : listing ∈ m.listings) : listing.1 ≤ m.served + 1 :=
    Nat.le_succ_of_le (h.numbered listing ho)
  simp only [Memory.page] at hl ⊢
  split at hl
  · rcases List.mem_append.1 (List.mem_of_mem_drop hl) with hl | hl
    · exact old hl
    · obtain rfl := List.mem_singleton.1 hl
      exact Nat.le_refl _
  · exact old hl

theorem Sound.listFolder (h : m.Sound) (path : String) : (m.listFolder path).2.Sound := by
  refine h.receive _ fun m hm => ?_
  dsimp only
  split
  · exact hm.page _
  · exact hm
  · exact hm

theorem Sound.listFolderContinue (h : m.Sound) (cursor : String) :
    (m.listFolderContinue cursor).2.Sound := by
  refine h.receive _ fun m hm => ?_
  dsimp only
  split
  · exact (hm.filter _).page _
  · exact hm

theorem Sound.getMetadata (h : m.Sound) (path : String) : (m.getMetadata path).2.Sound := by
  refine h.receive _ fun m hm => ?_
  split <;> exact hm

theorem Sound.createFolder (h : m.Sound) (path : String) : (m.createFolder path).2.Sound :=
  h.receive _ fun _ hm => hm.onTree fun ht => ht.createFolder (Path.canonical_parse path)

theorem Sound.delete (h : m.Sound) (path : String) : (m.delete path).2.Sound :=
  h.receive _ fun _ hm => hm.onTree fun ht => ht.delete (Path.parse path)

theorem Sound.moveEntry (h : m.Sound) (source target : String) :
    (m.moveEntry source target).2.Sound :=
  h.receive _ fun _ hm => hm.onTree fun ht => ht.move (Path.parse source) (Path.canonical_parse target)

theorem Sound.putFile (h : m.Sound) (path : String) (content : Bytes) :
    (m.putFile path content).2.Sound :=
  h.onTree fun ht => ht.store (Path.canonical_parse path) content

theorem Sound.openUpload (h : m.Sound) (path : String) : (m.openUpload path).2.Sound :=
  h.receive _ fun _ hm => hm

theorem Sound.upload (h : m.Sound) (path : String) (body : Source) (now : Millis) :
    (m.upload path body now).2.1.Sound := by
  have opened : (m.openUpload path).2.Sound := h.openUpload path
  rcases upload_cases m path body now with ⟨e, -, same⟩ | ⟨content, -, stored⟩
  · rw [same]
    exact opened
  · rw [stored]
    exact opened.putFile path content

theorem Sound.download (h : m.Sound) (path : String) : (m.download path).2.Sound :=
  h.receive _ fun _ hm => hm

theorem Sound.answer (h : m.Sound) (c : Remote.Call) (now : Millis) :
    ((World.mk m now).answer c).2.remote.Sound := by
  cases c with
  | listFolder path => exact h.listFolder path
  | listFolderContinue cursor => exact h.listFolderContinue cursor
  | getMetadata path => exact h.getMetadata path
  | createFolder path => exact h.createFolder path
  | delete path => exact h.delete path
  | moveEntry source target => exact h.moveEntry source target
  | upload path size body => exact h.upload path body now
  | download path => exact h.download path

theorem Reachable.sound (h : m.Reachable) : m.Sound := by
  induction h with
  | fresh => exact .fresh
  | call c now _ ih => exact ih.answer c now
  | putFile path content _ ih => exact ih.putFile path content
  | pageSize _ _ ih => exact ⟨ih.closed, ih.numbered⟩
  | offline _ _ ih => exact ⟨ih.closed, ih.numbered⟩
  | forget _ ih => exact ⟨ih.closed, ih.numbered⟩

variable {α : Type} {w : World}

theorem Sound.serve (h : w.remote.Sound) (c : Storage.Call) :
    (World.serve c w).2.remote.Sound := by
  cases c with
  | remote client call => exact h.answer call w.now
  | clock => exact h
  | sleepUntil time => exact h

theorem Sound.run (h : w.remote.Sound) (p : Program Storage.interface α) :
    (w.run p).2.remote.Sound :=
  p.run_keeps (P := fun w : World => w.remote.Sound) (fun c _ hw => hw.serve c) h

/-- Whatever a program asks of the service, alone or with others, leads to such a state. -/
theorem Reachable.run (h : w.remote.Reachable) (p : Program Storage.interface α) :
    (w.run p).2.remote.Reachable := by
  refine p.run_keeps (P := fun w : World => w.remote.Reachable) (fun c w hw => ?_) h
  cases c with
  | remote client call => exact hw.call call w.now
  | clock => exact hw
  | sleepUntil time => exact hw

/-- What calls leave of the open listings. Those that are new have a number above all that
were given before. -/
structure Later (m m' : Memory) : Prop where
  served : m.served ≤ m'.served
  listings : ∀ l ∈ m'.listings, l ∈ m.listings ∨ m.served < l.1

theorem Later.refl (m : Memory) : m.Later m := ⟨Nat.le_refl _, fun _ h => .inl h⟩

theorem Later.trans {m m' m'' : Memory} (h : m.Later m') (h' : m'.Later m'') : m.Later m'' := by
  refine ⟨Nat.le_trans h.served h'.served, fun l hl => ?_⟩
  rcases h'.listings l hl with old | new
  · exact h.listings l old
  · exact .inr (Nat.lt_of_le_of_lt h.served new)

theorem later_page (m : Memory) (pending : List Remote.Metadata) : m.Later (m.page pending).2 := by
  refine ⟨Nat.le_succ _, fun l hl => ?_⟩
  simp only [Memory.page] at hl
  split at hl
  · rcases List.mem_append.1 (List.mem_of_mem_drop hl) with old | new
    · exact .inl old
    · obtain rfl := List.mem_singleton.1 new
      exact .inr (Nat.lt_succ_self _)
  · exact .inl hl

theorem later_receive {α : Type} (m : Memory) (record : Record)
    {serve : Memory → Except Failure α × Memory} (hs : ∀ m, Later m (serve m).2) :
    m.Later (m.receive record serve).2 := by
  have noted : m.Later { m with calls := m.calls ++ [record] } := ⟨Nat.le_refl _, fun _ h => .inl h⟩
  unfold Memory.receive
  dsimp only
  split
  · exact noted
  · exact noted.trans (hs _)

theorem later_onTree {α : Type} (m : Memory) (change : Tree → Except Failure α × Tree) :
    m.Later (m.onTree change).2 :=
  ⟨Nat.le_refl _, fun _ h => .inl h⟩

theorem later_listFolder (m : Memory) (path : String) : m.Later (m.listFolder path).2 := by
  apply later_receive
  intro m
  dsimp only
  split
  · exact later_page m _
  · exact .refl m
  · exact .refl m

theorem later_listFolderContinue (m : Memory) (cursor : String) :
    m.Later (m.listFolderContinue cursor).2 := by
  apply later_receive
  intro m
  dsimp only
  split
  · rename_i number pending _
    have closed : m.Later { m with listings := m.listings.filter (·.1 != number) } :=
      ⟨Nat.le_refl _, fun l hl => .inl (List.mem_filter.1 hl).1⟩
    exact closed.trans (later_page _ pending)
  · exact .refl m

theorem later_getMetadata (m : Memory) (path : String) : m.Later (m.getMetadata path).2 := by
  apply later_receive
  intro m
  split <;> exact .refl m

theorem later_upload (m : Memory) (path : String) (body : Source) (now : Millis) :
    m.Later (m.upload path body now).2.1 := by
  have opened : m.Later (m.openUpload path).2 := later_receive m _ .refl
  rcases upload_cases m path body now with ⟨e, -, same⟩ | ⟨content, -, stored⟩
  · rw [same]
    exact opened
  · rw [stored]
    exact opened.trans (later_onTree _ _)

theorem later_answer (c : Remote.Call) (w : World) : w.remote.Later (w.answer c).2.remote := by
  cases c with
  | listFolder path => exact later_listFolder _ path
  | listFolderContinue cursor => exact later_listFolderContinue _ cursor
  | getMetadata path => exact later_getMetadata _ path
  | createFolder path => exact later_receive _ _ fun m => later_onTree m _
  | delete path => exact later_receive _ _ fun m => later_onTree m _
  | moveEntry source target => exact later_receive _ _ fun m => later_onTree m _
  | upload path size body => exact later_upload _ path body _
  | download path => exact later_receive _ _ .refl

theorem later_serve (c : Storage.Call) (w : World) :
    w.remote.Later (World.serve c w).2.remote := by
  cases c with
  | remote client call => exact later_answer call w
  | clock => exact .refl _
  | sleepUntil time => exact .refl _

/-- The count of served pages never falls. -/
theorem served_run (p : Program Storage.interface α) (w : World) :
    w.remote.served ≤ (w.run p).2.remote.served :=
  p.run_keeps (P := fun w' : World => w.remote.served ≤ w'.remote.served)
    (fun c w' hw => Nat.le_trans hw (later_serve c w').served) (Nat.le_refl _)

theorem served_bind {β : Type} (p : Program Storage.interface α)
    (f : α → Program Storage.interface β) (w : World) :
    (w.run p).2.remote.served ≤ (w.run (p.bind f)).2.remote.served := by
  unfold World.run
  rw [Program.run_bind]
  cases p.run World.serve w with
  | mk result w' =>
    match result with
    | some (.ok a) => exact served_run (f a) w'
    | some (.error e) => exact Nat.le_refl _
    | none => exact Nat.le_refl _

end Memory

end ChunkStore
