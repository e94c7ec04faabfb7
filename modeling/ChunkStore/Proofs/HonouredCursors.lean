import ChunkStore.Proofs.ListingCursors

/-!
# The cursors for which pages are served

A cursor leads on from when a page with more to come has it until it is presented or has
expired. The cursors that lead on are told here from the answers to the calls alone, and
after every history they are those under whose numbers the service keeps something.

A page is served just for what spells one of them. A cursor has one spelling as it is
issued, and further ones with leading zeros or a plus sign in front of its number. Every
other text is refused, and nothing comes of that.
-/

namespace ChunkStore

namespace Memory

variable {m m' : Memory} {text c : String} {n : Nat}

/-- `text` is the cursor `c`, but that the number in it may have leading zeros and a plus
sign. -/
def Respells (text c : String) : Prop :=
  ∃ n < Text.wordBound, c = cursor n ∧ ∃ sign ∈ ["", "+"], ∃ zeros,
    text = cursorMark ++ sign ++ String.ofList (List.replicate zeros '0') ++ n.repr

theorem respells_cursor_iff :
    Respells text (cursor n) ↔ n < Text.wordBound ∧ ∃ sign ∈ [[], ['+']], ∃ zeros,
      text.toList = cursorMark.toList ++ (sign ++ Text.padded zeros n) := by
  constructor
  · intro respells
    obtain ⟨k, small, same, sign, known, zeros, rfl⟩ := respells
    rw [cursor_inj.1 same]
    refine ⟨small, sign.toList, ?_, zeros, by simp [Text.padded]⟩
    rcases List.mem_pair.1 known with rfl | rfl <;> simp
  · intro written
    obtain ⟨small, sign, known, zeros, chars⟩ := written
    refine ⟨n, small, rfl, String.ofList sign, ?_, zeros, ?_⟩
    · rcases List.mem_pair.1 known with rfl | rfl <;> simp
    · apply String.toList_inj.1
      simp [chars, Text.padded]

/-- The number of a cursor is read from its spellings, and from nothing else. -/
theorem cursorNumber?_eq_some_iff : cursorNumber? text = some n ↔ Respells text (cursor n) := by
  rw [cursorNumber?_behind, respells_cursor_iff]
  constructor
  · intro read
    obtain ⟨rest, behind, number⟩ := read
    obtain ⟨small, sign, known, zeros, rfl⟩ := Text.signedWord?_eq_some_iff.1 number
    exact ⟨small, sign, known, zeros, behind⟩
  · intro written
    obtain ⟨small, sign, known, zeros, chars⟩ := written
    exact ⟨_, chars, Text.signedWord?_eq_some_iff.2 ⟨small, sign, known, zeros, rfl⟩⟩

/-- A cursor as it is issued spells no other. -/
theorem Respells.eq (h : Respells (cursor n) c) : c = cursor n := by
  obtain ⟨k, -, rfl, -⟩ := id h
  obtain ⟨-, sign, known, zeros, chars⟩ := respells_cursor_iff.1 h
  rw [cursor, String.toList_append, Nat.toList_repr] at chars
  have digits : Text.padded 0 n = sign ++ Text.padded zeros k := List.append_cancel_left chars
  rcases List.mem_pair.1 known with rfl | rfl
  · apply congrArg cursor
    calc
      k = Nat.ofDigitChars 10 (Text.padded zeros k) 0 := Text.ofDigitChars_padded.symm
      _ = Nat.ofDigitChars 10 (Text.padded 0 n) 0 := by rw [digits, List.nil_append]
      _ = n := Text.ofDigitChars_padded
  · exact absurd digits Text.padded_ne_plus

theorem respells_iff : Respells text c ↔ (cursorNumber? text).map cursor = some c := by
  rw [Option.map_eq_some_iff]
  constructor
  · intro respells
    obtain ⟨n, -, rfl, -⟩ := id respells
    exact ⟨n, cursorNumber?_eq_some_iff.2 respells, rfl⟩
  · intro read
    obtain ⟨n, number, rfl⟩ := read
    exact cursorNumber?_eq_some_iff.1 number

instance (text c : String) : Decidable (Respells text c) :=
  decidable_of_iff _ respells_iff.symm

/-- The cursors that lead on once a page was served: one with more to come has a further one,
and the oldest expire when they are too many. -/
def issue (live : List String) (page : Remote.Page) : List String :=
  if page.hasMore then
    let all := live ++ [page.cursor]
    all.drop (all.length - maxOpen)
  else live

/-- The cursors that lead on after an action on `m`. A cursor for which a page is served, in
whatever spelling, is consumed. -/
def turn (live : List String) (m : Memory) : Action → List String
  | .call (.listFolder path) _ =>
    match (m.listFolder path).1 with
    | .ok page => issue live page
    | .error _ => live
  | .call (.listFolderContinue text) _ =>
    match (m.listFolderContinue text).1 with
    | .ok page => issue (live.filter fun c => ¬Respells text c) page
    | .error _ => live
  | _ => live

def liveFrom (m : Memory) (live : List String) : List Action → List String
  | [] => live
  | action :: history => liveFrom (m.act action).2 (turn live m action) history

/-- The cursors that lead on after a history: issued with more to come, and neither consumed
nor expired since. -/
def live (history : List Action) : List String := liveFrom {} [] history

def leads (m : Memory) : List String := m.listings.map fun listing => cursor listing.1

theorem issue_leads (m : Memory) (pending : List Remote.Metadata) :
    issue m.leads (m.page pending).1 = (m.page pending).2.leads := by
  simp only [issue, page, leads]
  split
  · simp
  · rfl

theorem Quiet.leads (h : m.Quiet m') : m'.leads = m.leads := by
  rw [Memory.leads, h.listings, Memory.leads]

theorem turn_listFolder (m : Memory) (path : String) (now : Millis) :
    turn m.leads m (.call (.listFolder path) now) = (m.listFolder path).2.leads := by
  rcases listFolder_cases m path with begins | ⟨e, refused, quiet⟩
  · simp only [turn, begins]
    exact issue_leads _ _
  · simp only [turn, refused]
    exact quiet.leads.symm

def refusal (m : Memory) (text : String) : Failure :=
  if m.offline then .network "remote unreachable"
  else .providerApi "memory" ("reset: unknown cursor " ++ text)

/-- A call goes on with what is kept under the number that it names, or it is only noted. -/
theorem listFolderContinue_cases (m : Memory) (text : String) :
    (∃ n pending, m.offline = false ∧ cursorNumber? text = some n ∧
      m.listings.find? (·.1 == n) = some (n, pending) ∧
      m.listFolderContinue text =
        let (page, m) := page { m with
          calls := m.calls ++ [.listFolderContinue text]
          listings := m.listings.filter (·.1 != n) } pending
        (.ok page, m)) ∨
    (m.offline = false → ∀ n, cursorNumber? text = some n → m.listings.find? (·.1 == n) = none) ∧
      m.listFolderContinue text = (.error (m.refusal text),
        { m with calls := m.calls ++ [.listFolderContinue text] }) := by
  rcases Bool.eq_false_or_eq_true m.offline with cut | online
  · right
    simp [listFolderContinue, receive, refusal, cut]
  · rw [listFolderContinue, World.receive_online online]
    dsimp only
    cases known : (cursorNumber? text).bind fun n => m.listings.find? (·.1 == n) with
    | none =>
      right
      constructor
      · intro _ n read
        rwa [read, Option.bind_some] at known
      · simp [refusal, online]
    | some listing =>
      left
      obtain ⟨n, read, found⟩ := Option.bind_eq_some_iff.1 known
      have number : listing.1 = n := by simpa using List.find?_some found
      subst number
      exact ⟨listing.1, listing.2, online, read, found, rfl⟩

theorem filter_leads (read : cursorNumber? text = some n) :
    m.leads.filter (fun c => ¬Respells text c) =
      (m.listings.filter (·.1 != n)).map fun listing => cursor listing.1 := by
  have same (listing : Nat × List Remote.Metadata) :
      Respells text (cursor listing.1) ↔ listing.1 = n := by
    rw [respells_iff, read, Option.map_some, Option.some.injEq, cursor_inj]
    exact eq_comm
  rw [leads, List.filter_map]
  congr 1
  apply List.filter_congr
  intro listing _
  rw [Function.comp_apply, Bool.eq_iff_iff]
  simp [same]

theorem turn_listFolderContinue (m : Memory) (text : String) (now : Millis) :
    turn m.leads m (.call (.listFolderContinue text) now) =
      (m.listFolderContinue text).2.leads := by
  rcases listFolderContinue_cases m text with ⟨n, pending, -, read, -, goes⟩ | ⟨-, refused⟩
  · simp only [turn, goes, filter_leads read]
    exact issue_leads _ _
  · simp only [turn, refused]
    rfl

/-- One action changes the cursors that lead on as it changes what is kept. -/
theorem turn_leads (m : Memory) (action : Action) :
    turn m.leads m action = (m.act action).2.leads := by
  cases action with
  | call c now =>
    cases c with
    | listFolder path => exact turn_listFolder m path now
    | listFolderContinue text => exact turn_listFolderContinue m text now
    | getMetadata path => exact (quiet_getMetadata m path).leads.symm
    | createFolder path => exact (quiet_onTree _).leads.symm
    | delete path => exact (quiet_onTree _).leads.symm
    | moveEntry source target => exact (quiet_onTree _).leads.symm
    | upload path size body => exact (quiet_upload m path body now).leads.symm
    | download path => exact (quiet_download m path).leads.symm
  | openUpload path => exact (quiet_openUpload m path).leads.symm
  | putFile path content => rfl
  | setPageSize size => rfl
  | setOffline cut => rfl
  | clearCalls => rfl

theorem liveFrom_leads (m : Memory) (history : List Action) :
    liveFrom m m.leads history = (history.foldl (fun m action => (m.act action).2) m).leads := by
  induction history generalizing m with
  | nil => rfl
  | cons action history ih =>
    rw [liveFrom, turn_leads, ih, List.foldl_cons]

theorem live_eq_leads (history : List Action) : live history = (after history).leads :=
  liveFrom_leads {} history

theorem served_iff :
    (∃ page, (m.listFolderContinue text).1 = .ok page) ↔
      m.offline = false ∧ ∃ c ∈ m.leads, Respells text c := by
  constructor
  · intro served
    obtain ⟨page, reply⟩ := served
    rcases listFolderContinue_cases m text with ⟨n, pending, online, read, found, -⟩ | ⟨-, refused⟩
    · have lead : cursor n ∈ m.leads :=
        List.mem_map.2 ⟨(n, pending), List.mem_of_find?_eq_some found, rfl⟩
      exact ⟨online, cursor n, lead, cursorNumber?_eq_some_iff.1 read⟩
    · rw [refused] at reply
      cases reply
  · intro spelled
    obtain ⟨online, c, lead, respells⟩ := spelled
    rcases listFolderContinue_cases m text with ⟨n, pending, -, -, -, goes⟩ | ⟨none, -⟩
    · exact ⟨_, congrArg Prod.fst goes⟩
    · obtain ⟨listing, kept, rfl⟩ := List.mem_map.1 lead
      have absent := none online listing.1 (cursorNumber?_eq_some_iff.2 respells)
      have other := List.find?_eq_none.1 absent listing kept
      simp at other

theorem refused_of_error {e : Failure} (failed : (m.listFolderContinue text).1 = .error e) :
    e = m.refusal text ∧
      (m.listFolderContinue text).2 =
        { m with calls := m.calls ++ [.listFolderContinue text] } := by
  rcases listFolderContinue_cases m text with ⟨n, pending, -, -, -, goes⟩ | ⟨-, refused⟩
  · rw [goes] at failed
    cases failed
  · rw [refused] at failed ⊢
    cases failed
    exact ⟨rfl, rfl⟩

/-- After every history, a page is served just for the spellings of a cursor that leads on,
while the service can be reached. So a text that is no other spelling of one gets a page only if
it is itself a cursor that leads on; what is written as cursors are never is another spelling.
Every other call for a page fails and leaves all open listings as they were. -/
theorem continued_iff_live (history : List Action) (text : String) :
    let m := after history
    ((∃ page, (m.listFolderContinue text).1 = .ok page) ↔
      m.offline = false ∧ ∃ c ∈ live history, Respells text c) ∧
    ((∀ c ∈ live history, Respells text c → c = text) →
      (∃ page, (m.listFolderContinue text).1 = .ok page) → text ∈ live history) ∧
    ((∃ n, text = cursor n) → ∀ c, Respells text c → c = text) ∧
    ∀ e, (m.listFolderContinue text).1 = .error e →
      e = m.refusal text ∧
        (m.listFolderContinue text).2 =
          { m with calls := m.calls ++ [.listFolderContinue text] } := by
  intro m
  rw [live_eq_leads]
  constructor
  · exact served_iff
  constructor
  · intro plain served
    obtain ⟨-, c, lead, respells⟩ := served_iff.1 served
    rwa [← plain c lead respells]
  constructor
  · intro written c respells
    obtain ⟨n, rfl⟩ := written
    exact respells.eq
  · intro e failed
    exact refused_of_error failed

/-- Another spelling of a cursor that leads on takes the page from it. -/
theorem continued_by_respelling :
    let history : List Action := [.putFile "/d/a" [], .putFile "/d/b" [0], .setPageSize 1,
      .call (.listFolder "/d") 0]
    let m := after history
    live history = ["cursor-1"] ∧
      (m.listFolderContinue "cursor-01").1 = .ok ⟨[.file "b" 1], "cursor-2", false⟩ ∧
      (m.listFolderContinue "cursor-01").2.Refuses "cursor-1" := by
  refine ⟨by decide +kernel, by decide +kernel, ?_⟩
  unfold Refuses
  decide +kernel

end Memory

end ChunkStore
