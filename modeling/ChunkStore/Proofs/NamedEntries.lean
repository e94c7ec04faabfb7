import ChunkStore.Proofs.FolderEntries
import ChunkStore.Proofs.ListingCursors

/-!
# Entries that have names

What a program ends in can be told from what is true of each reply that it is given. The
judgement for this follows the program, whoever answers, and a run against a state that gives
no other replies ends in a value as judged.

Whatever has become of a service in memory, and in whatever order its pages are asked for, it
lists nothing but entries that have names: those of the children of a folder, or what it kept
of them. This does not depend on the numbers under which they are kept.
-/

namespace ChunkStore

namespace Program

variable {I J : Interface} {α β σ : Type} {good : (c : I.Call) → I.Reply c → Prop}
  {Q : α → Prop} {P : β → Prop} {p : Program I α}

/-- When every reply is good, the program ends in a value that `Q` is true of, if it ends in
one. -/
def Yields (good : (c : I.Call) → I.Reply c → Prop) (Q : α → Prop) : Program I α → Prop
  | .done a => Q a
  | .failed _ | .spent => True
  | .ask call next => ∀ reply, good call reply → (next reply).Yields good Q

theorem Yields.bind {f : α → Program I β} (h : p.Yields good Q)
    (hf : ∀ a, Q a → (f a).Yields good P) : (p.bind f).Yields good P := by
  induction p with
  | done a => exact hf a h
  | failed e => trivial
  | ask call next ih => exact fun reply told => ih reply (h reply told)
  | spent => trivial

theorem yields_ofExcept {reply : Except Failure α} (h : ∀ a, reply = .ok a → Q a) :
    (ofExcept reply : Program I α).Yields good Q := by
  cases reply with
  | ok a => exact h a rfl
  | error e => trivial

theorem yields_any (p : Program I α) : p.Yields good fun _ => True := by
  induction p with
  | done a => trivial
  | failed e => trivial
  | ask call next ih => exact fun reply _ => ih reply
  | spent => trivial

theorem Yields.attempt (h : p.Yields good Q) :
    p.attempt.Yields good fun result => ∀ a, result = .ok a → Q a := by
  induction p with
  | done a =>
    intro a' same
    cases same
    exact h
  | failed e =>
    intro a same
    cases same
  | ask call next ih => exact fun reply told => ih reply (h reply told)
  | spent => trivial

/-- A program of calls that are served by programs, which give good replies. -/
theorem Yields.interpret {serve : (c : I.Call) → Program J (I.Reply c)}
    {good' : (c : J.Call) → J.Reply c → Prop} (h : p.Yields good Q)
    (served : ∀ c, (serve c).Yields good' (good c)) : (p.interpret serve).Yields good' Q := by
  induction p with
  | done a => exact h
  | failed e => trivial
  | ask call next ih =>
    apply (served call).bind
    intro reply told
    exact ih reply (h reply told)
  | spent => trivial

theorem Yields.run {answer : (c : I.Call) → σ → I.Reply c × σ} {Inv : σ → Prop} {s : σ}
    (h : p.Yields good Q) (step : ∀ c s, Inv s → good c (answer c s).1 ∧ Inv (answer c s).2)
    (start : Inv s) {a : α} (ok : (p.run answer s).1 = some (.ok a)) : Q a := by
  induction p generalizing s with
  | done a' =>
    cases ok
    exact h
  | failed e => cases ok
  | spent => cases ok
  | ask call next ih =>
    obtain ⟨told, kept⟩ := step call s start
    exact ih _ (h _ told) kept ok

end Program

/-- The entry of a listing is a folder or a file with a name. -/
def ListEntry.Named (e : ListEntry) : Prop :=
  ∃ name, Path.IsName name ∧ (e = .directory name ∨ ∃ size, e = .file name size)

theorem Remote.Metadata.named_listed {x : Remote.Metadata} (h : Path.IsName x.name) :
    x.listed.Named := by
  unfold listed
  split
  · exact ⟨x.name, h, .inl rfl⟩
  · exact ⟨x.name, h, .inr ⟨x.size, rfl⟩⟩

namespace Memory

/-- All entries that are still to come have names. -/
def Named (m : Memory) : Prop := ∀ l ∈ m.listings, ∀ x ∈ l.2, Path.IsName x.name

def NamedPage (reply : Except Failure Remote.Page) : Prop :=
  ∀ page, reply = .ok page → ∀ x ∈ page.entries, Path.IsName x.name

variable {m m' : Memory}

theorem Named.quiet (h : m.Named) (quiet : m.Quiet m') : m'.Named := by
  unfold Named
  rw [quiet.listings]
  exact h

theorem named_page (h : m.Named) {pending : List Remote.Metadata}
    (names : ∀ x ∈ pending, Path.IsName x.name) :
    NamedPage (.ok (m.page pending).1) ∧ (m.page pending).2.Named := by
  constructor
  · intro page same x hx
    cases same
    exact names x (List.mem_of_mem_take hx)
  · intro l hl
    simp only [page] at hl
    split at hl
    · rcases List.mem_append.1 (List.mem_of_mem_drop hl) with old | new
      · exact h l old
      · obtain rfl := List.mem_singleton.1 new
        exact fun x hx => names x (List.mem_of_mem_drop hx)
    · exact h l hl

theorem named_receive {record : Record} {serve : Memory → Except Failure Remote.Page × Memory}
    (h : m.Named) (served : ∀ m' : Memory, m'.tree = m.tree → m'.Named →
      NamedPage (serve m').1 ∧ (serve m').2.Named) :
    NamedPage (m.receive record serve).1 ∧ (m.receive record serve).2.Named := by
  unfold receive
  dsimp only
  split
  · exact ⟨nofun, h⟩
  · exact served _ rfl h

theorem named_listFolder (h : m.Named) (closed : m.tree.Closed) (path : String) :
    NamedPage (m.listFolder path).1 ∧ (m.listFolder path).2.Named := by
  refine named_receive h fun m' same h' => ?_
  dsimp only
  split
  · refine named_page h' fun x hx => ?_
    obtain ⟨name, node, here, rfl⟩ := Tree.mem_children.1 hx
    rw [Tree.name_metadata]
    rw [same] at here
    exact closed.isName_child here
  · exact ⟨nofun, h'⟩
  · exact ⟨nofun, h'⟩

/-- Whatever the cursor leads to was kept of some folder. -/
theorem named_listFolderContinue (h : m.Named) (cursor : String) :
    NamedPage (m.listFolderContinue cursor).1 ∧ (m.listFolderContinue cursor).2.Named := by
  refine named_receive h fun m' _ h' => ?_
  split
  · rename_i number pending kept
    obtain ⟨n, -, found⟩ := Option.bind_eq_some_iff.1 kept
    have left : Named { m' with listings := m'.listings.filter (·.1 != number) } :=
      fun l hl => h' l (List.mem_filter.1 hl).1
    exact named_page left (h' _ (List.mem_of_find?_eq_some found))
  · exact ⟨nofun, h'⟩

end Memory

namespace Storage

/-- A reply that lists nothing nameless. -/
def NamedReply : (c : Call) → c.Reply → Prop
  | .remote _ (.listFolder _), reply => Memory.NamedPage reply
  | .remote _ (.listFolderContinue _), reply => Memory.NamedPage reply
  | _, _ => True

end Storage

namespace Memory

variable {m : Memory}

open Storage in
theorem Sound.named_answer (h : m.Sound) (named : m.Named) (client : Nat) (c : Remote.Call)
    (now : Millis) :
    NamedReply (.remote client c) ((World.mk m now).answer c).1 ∧
      ((World.mk m now).answer c).2.remote.Named := by
  cases c with
  | listFolder path => exact named_listFolder named h.closed path
  | listFolderContinue cursor => exact named_listFolderContinue named cursor
  | getMetadata path => exact ⟨trivial, named.quiet (quiet_getMetadata m path)⟩
  | createFolder path => exact ⟨trivial, named.quiet (quiet_onTree _)⟩
  | delete path => exact ⟨trivial, named.quiet (quiet_onTree _)⟩
  | moveEntry source target => exact ⟨trivial, named.quiet (quiet_onTree _)⟩
  | upload path size body => exact ⟨trivial, named.quiet (quiet_upload m path body now)⟩
  | download path => exact ⟨trivial, named.quiet (quiet_download m path)⟩

theorem Reachable.named (h : m.Reachable) : m.Named := by
  induction h with
  | fresh => exact nofun
  | call c now reachable ih => exact (reachable.sound.named_answer ih 0 c now).2
  | putFile path content _ ih => exact ih
  | pageSize _ _ ih => exact ih
  | offline _ _ ih => exact ih
  | forget _ ih => exact ih

theorem World.named_serve (c : Storage.Call) (w : World)
    (inv : w.remote.Sound ∧ w.remote.Named) :
    Storage.NamedReply c (serve c w).1 ∧ ((serve c w).2.remote.Sound ∧ (serve c w).2.remote.Named) := by
  obtain ⟨sound, named⟩ := inv
  cases c with
  | remote client call =>
    obtain ⟨told, kept⟩ := sound.named_answer named client call w.now
    exact ⟨told, sound.serve _, kept⟩
  | clock => exact ⟨trivial, sound, named⟩
  | sleepUntil time => exact ⟨trivial, sound, named⟩

end Memory

namespace Storage

open Program

variable {s : Storage} {thread : Nat}

theorem yields_perform (call : Remote.Call) {Q : call.Answer → Prop}
    (told : ∀ client reply, NamedReply (.remote client call) reply → ∀ a, reply = .ok a → Q a) :
    (s.perform thread call).Yields NamedReply Q := by
  by_cases h : thread < s.clients.size
  · rw [perform_eq h]
    exact fun reply good => yields_ofExcept (told thread reply good)
  · rw [perform, send_without_client h]
    trivial

theorem shown_named {shown : List Remote.Metadata} (names : ∀ x ∈ shown, Path.IsName x.name)
    {entries : List ListEntry} (named : ∀ e ∈ entries, e.Named) :
    ∀ e ∈ entries ++ shown.map Remote.Metadata.listed, e.Named := by
  intro e he
  rcases List.mem_append.1 he with before | here
  · exact named e before
  · obtain ⟨x, hx, rfl⟩ := List.mem_map.1 here
    exact Remote.Metadata.named_listed (names x hx)

theorem yields_listFrom (budget : Nat) {page : Remote.Page}
    (names : ∀ x ∈ page.entries, Path.IsName x.name) {entries : List ListEntry}
    (named : ∀ e ∈ entries, e.Named) :
    (s.listFrom thread budget page entries).Yields NamedReply fun all => ∀ e ∈ all, e.Named := by
  induction budget generalizing page entries with
  | zero =>
    rw [listFrom]
    split
    · trivial
    · exact shown_named names named
  | succ budget ih =>
    rw [listFrom]
    split
    · apply (yields_perform (.listFolderContinue page.cursor) fun _ _ good => good).bind
      intro next more
      exact ih more (shown_named names named)
    · exact shown_named names named

theorem yields_list (dir : String) (budget : Nat) :
    (s.list thread dir budget).Yields NamedReply fun all => ∀ e ∈ all, e.Named := by
  apply (yields_perform (.listFolder (s.remotePath dir)) fun _ _ good => good).bind
  intro page names
  exact yields_listFrom budget names nofun

end Storage

end ChunkStore
