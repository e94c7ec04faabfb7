import ChunkStore.Proofs.ChunkSearch
import ChunkStore.Proofs.PagedListing
import ChunkStore.Proofs.Transcripts

/-!
# Listings over any service

What a listing makes of the pages that a service answers, whatever they hold: pages may be
empty and still have a page after them, and a cursor may come back. The folder is asked for
once, each page leads by its cursor to the next, and the first page that has none after it, or
the first refusal, is the last reply.
-/

namespace ChunkStore

/-- What a listing shows of a page: files with their size, and folders with a mark behind the
name and no size. -/
def Remote.Page.lines (page : Remote.Page) : List ListEntry :=
  page.entries.map fun entry =>
    match entry.kind with
    | .file => ⟨entry.name, entry.size⟩
    | .folder => ⟨entry.name ++ "/", 0⟩

theorem Remote.Page.listed_eq_lines (page : Remote.Page) :
    page.entries.map Remote.Metadata.listed = page.lines := by
  refine List.map_congr_left fun entry _ => ?_
  obtain ⟨name, kind, size⟩ := entry
  cases kind with
  | file => rfl
  | folder => rfl

namespace Storage

open Program (Exchange Execution Replies)

/-- How a page is asked for: the first by the path of the folder, any other by the cursor of
the page before it. -/
def pageExchange (thread : Nat) (path : String) :
    Option Remote.Page → Except Failure Remote.Page → Exchange interface
  | none, reply => ⟨.remote thread (.listFolder path), reply⟩
  | some page, reply => ⟨.remote thread (.listFolderContinue page.cursor), reply⟩

/-- The exchanges of a listing that was answered with `pages` and then with `last`, where
`before` is the page before them. -/
def pageChain (thread : Nat) (path : String) (last : Except Failure Remote.Page) :
    (before : Option Remote.Page) → (pages : List Remote.Page) → List (Exchange interface)
  | before, [] => [pageExchange thread path before last]
  | before, page :: pages =>
    pageExchange thread path before (.ok page) :: pageChain thread path last (some page) pages

def Final (reply : Except Failure Remote.Page) : Prop :=
  ∀ page, reply = .ok page → page.hasMore = false

variable {s : Storage} {thread budget : Nat} {path : String} {σ : Type}
  {answer : (c : Call) → σ → c.Reply × σ} {w : σ} {last : Except Failure Remote.Page}
  {page : Remote.Page} {pages : List Remote.Page} {entries : List ListEntry}

theorem calls_after (before : Remote.Page) (pages : List Remote.Page) :
    (pageChain thread path last (some before) pages).map Exchange.call =
      (before :: pages).map fun page => .remote thread (.listFolderContinue page.cursor) := by
  induction pages generalizing before with
  | nil => rfl
  | cons page pages ih => exact congrArg _ (ih page)

theorem calls_pageChain (pages : List Remote.Page) :
    (pageChain thread path last none pages).map Exchange.call =
      .remote thread (.listFolder path) ::
        pages.map fun page => .remote thread (.listFolderContinue page.cursor) := by
  cases pages with
  | nil => rfl
  | cons page pages => exact congrArg _ (calls_after page pages)

theorem replied (answer : (c : Call) → σ → c.Reply × σ) (thread : Nat) (path : String)
    (before : Option Remote.Page) (w : σ) :
    ∃ reply, (answer (pageExchange thread path before reply).call w).1 =
      (pageExchange thread path before reply).reply := by
  cases before with
  | none => exact ⟨(answer (.remote thread (.listFolder path)) w).1, rfl⟩
  | some page => exact ⟨(answer (.remote thread (.listFolderContinue page.cursor)) w).1, rfl⟩

theorem execution_listFrom (h : thread < s.clients.size) (final : Final last)
    (more : ∀ p ∈ page :: pages, p.hasMore = true) (enough : pages.length < budget) :
    (s.listFrom thread budget page entries).Execution
      (pageChain thread path last (some page) pages)
      (some (last.map fun p => entries ++ (page :: (pages ++ [p])).flatMap Remote.Page.lines)) := by
  induction pages generalizing budget page entries with
  | nil =>
    obtain ⟨budget, rfl⟩ := Nat.exists_eq_add_one.2 enough
    rw [listFrom_more h (more page (List.mem_cons_self ..))]
    apply Execution.ask
    cases last with
    | error e => exact .failed e
    | ok p =>
      rw [Program.ofExcept, Program.done_bind, listFrom_last (final p rfl),
        Remote.Page.listed_eq_lines, Remote.Page.listed_eq_lines, List.append_assoc]
      have all : (page :: ([] ++ [p])).flatMap Remote.Page.lines = page.lines ++ p.lines := by
        simp
      rw [Except.map, all]
      exact .done _
  | cons next pages ih =>
    obtain ⟨budget, rfl⟩ := Nat.exists_eq_add_one.2 (Nat.zero_lt_of_lt enough)
    rw [listFrom_more h (more page (List.mem_cons_self ..))]
    apply Execution.ask
    rw [Program.ofExcept, Program.done_bind, Remote.Page.listed_eq_lines]
    have rest := @ih budget next (entries ++ page.lines)
      (fun p hp => more p (List.mem_cons_of_mem _ hp)) (Nat.lt_of_succ_lt_succ enough)
    simpa only [List.cons_append, List.flatMap_cons, List.append_assoc] using rest

theorem execution_list (h : thread < s.clients.size) (dir : String) (final : Final last)
    (more : ∀ p ∈ pages, p.hasMore = true) (enough : pages.length ≤ budget) :
    (s.list thread dir budget).Execution
      (pageChain thread (s.remotePath dir) last none pages)
      (some (last.map fun p => (pages ++ [p]).flatMap Remote.Page.lines)) := by
  rw [list, Program.bind_eq, perform_eq h, Program.ask_bind]
  cases pages with
  | nil =>
    apply Execution.ask
    cases last with
    | error e => exact .failed e
    | ok p =>
      rw [Program.ofExcept, Program.done_bind, listFrom_last (final p rfl),
        Remote.Page.listed_eq_lines]
      have all : ([] ++ [p]).flatMap Remote.Page.lines = [] ++ p.lines := by simp
      rw [Except.map, all]
      exact .done _
  | cons page pages =>
    apply Execution.ask
    exact execution_listFrom h final more enough

/-- Whatever a service answers, it comes to a reply that is the last, or has given more pages
than the budget allows to ask for. -/
theorem exists_pageChain (answer : (c : Call) → σ → c.Reply × σ) (thread : Nat) (path : String)
    (budget : Nat) (before : Option Remote.Page) (w : σ) :
    ∃ pages last, (∀ p ∈ pages, p.hasMore = true) ∧ pages.length ≤ budget ∧
      Replies answer (pageChain thread path last before pages) w ∧
      (Final last ∨ pages.length = budget) := by
  induction budget generalizing before w with
  | zero =>
    obtain ⟨last, told⟩ := replied answer thread path before w
    exact ⟨[], last, nofun, Nat.le_refl 0, ⟨told, trivial⟩, .inr rfl⟩
  | succ budget ih =>
    obtain ⟨reply, told⟩ := replied answer thread path before w
    by_cases final : Final reply
    · exact ⟨[], reply, nofun, Nat.zero_le _, ⟨told, trivial⟩, .inl final⟩
    · obtain ⟨page, rfl, more⟩ : ∃ page, reply = .ok page ∧ page.hasMore = true := by
        simpa [Final] using final
      obtain ⟨pages, last, all, enough, later, ends⟩ := ih (some page)
        (answer (pageExchange thread path before (.ok page)).call w).2
      refine ⟨page :: pages, last, ?_, Nat.succ_le_succ enough, ⟨told, later⟩, ?_⟩
      · exact List.forall_mem_cons.2 ⟨more, all⟩
      · exact ends.imp_right (congrArg (· + 1))

/-- Over any service, a listing whose folder is answered page after page returns the entries of
all of them in order once a page has none after it, and fails with the first refusal. It has
then asked for the folder once and for each further page by the cursor of the one before, and
for nothing else. Any service answers in this way, unless it always has another page. -/
theorem list_follows_cursors (s : Storage) {thread : Nat} (h : thread < s.clients.size)
    (dir : String) (budget : Nat) {σ : Type} (answer : (c : Call) → σ → c.Reply × σ) (w : σ) :
    (∀ (pages : List Remote.Page) (last : Except Failure Remote.Page),
      (∀ page ∈ pages, page.hasMore = true) → Final last → pages.length ≤ budget →
      Replies answer (pageChain thread (s.remotePath dir) last none pages) w →
        (s.list thread dir budget).transcript answer w =
          pageChain thread (s.remotePath dir) last none pages ∧
        ((s.list thread dir budget).transcript answer w).map Exchange.call =
          .remote thread (.listFolder (s.remotePath dir)) ::
            pages.map (fun page => .remote thread (.listFolderContinue page.cursor)) ∧
        ((s.list thread dir budget).run answer w).1 =
          some (last.map fun page => (pages ++ [page]).flatMap Remote.Page.lines)) ∧
    ∃ pages last, (∀ page ∈ pages, page.hasMore = true) ∧ pages.length ≤ budget ∧
      Replies answer (pageChain thread (s.remotePath dir) last none pages) w ∧
      (Final last ∨ pages.length = budget) := by
  constructor
  · intro pages last more final enough told
    obtain ⟨exchanged, run⟩ := (execution_list h dir final more enough).result told
    refine ⟨exchanged, ?_, run⟩
    rw [exchanged, calls_pageChain]
  · exact exists_pageChain answer thread (s.remotePath dir) budget none w

/-- A service that answers every call for a page with the next of a list. -/
def paging : (c : Call) → List (Except Failure Remote.Page) →
    c.Reply × List (Except Failure Remote.Page)
  | .remote _ (.listFolder _), reply :: rest => (reply, rest)
  | .remote _ (.listFolderContinue _), reply :: rest => (reply, rest)
  | .remote _ _, replies => (.error (.network "no answer"), replies)
  | .clock, replies => (0, replies)
  | .sleepUntil _, replies => ((), replies)

/-- The first page is empty, its cursor comes back on the second, and there is a third; another
listing is refused its second page. -/
theorem list_follows_cursors_repeated :
    let s := plain .root 0
    let listing := s.list 0 "/x/" 2
    let empty : Remote.Page := ⟨[], "c", true⟩
    let full : Remote.Page := ⟨[.file "b" 3, .folder "d"], "c", true⟩
    let last : Remote.Page := ⟨[.file "a" 0], "", false⟩
    0 < s.clients.size ∧
      (listing.transcript paging [.ok empty, .ok full, .ok last]).map Exchange.call =
        [.remote 0 (.listFolder "/x"), .remote 0 (.listFolderContinue "c"),
          .remote 0 (.listFolderContinue "c")] ∧
      (listing.run paging [.ok empty, .ok full, .ok last]).1 =
        some (.ok [⟨"b", 3⟩, ⟨"d/", 0⟩, ⟨"a", 0⟩]) ∧
      (listing.run paging [.ok full, .error (.rateLimited none)]).1 =
        some (.error (.rateLimited none)) := by
  intro s listing empty full last
  obtain ⟨whole, -⟩ := list_follows_cursors s Nat.one_pos "/x/" 2 paging
    [.ok empty, .ok full, .ok last]
  obtain ⟨cut, -⟩ := list_follows_cursors s Nat.one_pos "/x/" 2 paging
    [.ok full, .error (.rateLimited none)]
  obtain ⟨-, calls, listed⟩ := whole [empty, full] (.ok last) (by decide)
    (fun page same => by cases same; rfl) (by decide) ⟨rfl, rfl, rfl, trivial⟩
  obtain ⟨-, -, refused⟩ := cut [full] (.error (.rateLimited none)) (by decide) nofun (by decide)
    ⟨rfl, rfl, trivial⟩
  exact ⟨Nat.one_pos, calls, listed, refused⟩

end Storage

end ChunkStore
