import ChunkStore.Proofs.ChunkPlaces
import ChunkStore.Proofs.StorageCalls

/-!
# What the operations of a storage ask for

A program is judged by the calls that it may make, whatever is replied to them: the judgement
follows the program, and that of a sequence is put together from those of its parts. Each
operation of a storage, on its own or as part of a search or a walk, sends its calls to the
client of the thread that asks for it, and names no path on the service but those that it has
put below the root of the storage.
-/

namespace ChunkStore

namespace Program

variable {I J : Interface} {α β σ : Type} {allowed : I.Call → Prop} {p : Program I α}

/-- Every call that the program may make is allowed, whatever the replies to those before. -/
def Asks (allowed : I.Call → Prop) : Program I α → Prop
  | .done _ | .failed _ | .spent => True
  | .ask call next => allowed call ∧ ∀ reply, (next reply).Asks allowed

theorem Asks.bind {f : α → Program I β} (h : p.Asks allowed) (hf : ∀ a, (f a).Asks allowed) :
    (p.bind f).Asks allowed := by
  induction p with
  | done a => exact hf a
  | failed e => trivial
  | ask call next ih =>
    constructor
    · exact h.1
    · intro reply
      exact ih reply (h.2 reply)
  | spent => trivial

theorem asks_ofExcept (reply : Except Failure α) :
    (ofExcept reply : Program I α).Asks allowed := by
  cases reply <;> trivial

theorem Asks.attempt (h : p.Asks allowed) : p.attempt.Asks allowed := by
  induction p with
  | done a => trivial
  | failed e => trivial
  | ask call next ih =>
    constructor
    · exact h.1
    · intro reply
      exact ih reply (h.2 reply)
  | spent => trivial

theorem Asks.interpret {serve : (c : I.Call) → Program J (I.Reply c)} {permitted : J.Call → Prop}
    (h : p.Asks allowed) (served : ∀ c, allowed c → (serve c).Asks permitted) :
    (p.interpret serve).Asks permitted := by
  induction p with
  | done a => trivial
  | failed e => trivial
  | ask call next ih =>
    apply (served call h.1).bind
    intro reply
    exact ih reply (h.2 reply)
  | spent => trivial

/-- What the answer to every allowed call keeps, a run keeps. -/
theorem Asks.run_keeps {answer : (c : I.Call) → σ → I.Reply c × σ} {P : σ → Prop} {s : σ}
    (h : p.Asks allowed) (step : ∀ c s, allowed c → P s → P (answer c s).2) (start : P s) :
    P (p.run answer s).2 := by
  induction p generalizing s with
  | done a => exact start
  | failed e => exact start
  | ask call next ih =>
    have kept : P (answer call s).2 := step call s h.1 start
    exact ih _ (h.2 _) kept
  | spent => exact start

end Program

namespace Directory

def Call.thread : Call → Nat
  | .stat thread _ | .create thread _ | .list thread _ => thread

def OnThread (thread : Nat) (c : Call) : Prop :=
  c.thread = thread

theorem asks_perform (c : Call) : (perform c).Asks (OnThread c.thread) :=
  ⟨rfl, fun reply => Program.asks_ofExcept reply⟩

theorem asks_stat (thread : Nat) (path : String) :
    (stat thread path).Asks (OnThread thread) :=
  asks_perform (.stat thread path)

theorem asks_create (thread : Nat) (path : String) :
    (create thread path).Asks (OnThread thread) :=
  asks_perform (.create thread path)

theorem asks_list (thread : Nat) (path : String) :
    (list thread path).Asks (OnThread thread) :=
  asks_perform (.list thread path)

end Directory

namespace Locator

variable (nesting thread : Nat) (id : ChunkId) (fossil : Bool)

theorem asks_probe (level : Nat) (dir : Path) :
    (probe nesting thread id fossil level dir).Asks
      (Directory.OnThread thread) := by
  unfold probe
  split
  · apply (Directory.asks_stat thread _).bind
    intro info
    trivial
  · trivial

theorem asks_descend (remaining level : Nat) (dir : Path) :
    (descend nesting thread id fossil remaining level dir).Asks
      (Directory.OnThread thread) := by
  induction remaining generalizing level dir with
  | zero => trivial
  | succ remaining ih =>
    apply (asks_probe nesting thread id fossil level dir).bind
    intro found
    split
    · trivial
    · apply (Directory.asks_stat thread _).bind
      intro info
      split
      · exact ih _ _
      · split
        · apply (Directory.asks_create thread _).bind
          intro created
          exact ih _ _
        · trivial

end Locator

namespace Walk

theorem asks_visit (thread budget : Nat) (pending : List Shard) (found : List ChunkListing) :
    (visit thread budget pending found).Asks (Directory.OnThread thread) := by
  induction budget generalizing pending found with
  | zero => cases pending <;> trivial
  | succ budget ih =>
    cases pending with
    | nil => trivial
    | cons s pending =>
      apply (Directory.asks_list thread _).bind
      intro entries
      exact ih _ _

/-- A walk makes its calls on one thread. -/
theorem asks_chunks (thread budget : Nat) :
    (chunks thread budget).Asks (Directory.OnThread thread) := by
  apply (Directory.asks_stat thread _).bind
  intro info
  split
  · exact asks_visit thread budget _ _
  · trivial

end Walk

def Remote.Call.paths : Remote.Call → List String
  | .listFolder path | .getMetadata path | .createFolder path | .delete path
  | .upload path _ _ | .download path => [path]
  | .moveEntry source target => [source, target]
  | .listFolderContinue _ => []

namespace Storage

/-- Every path that the call names is a text put below the root. -/
def Below (s : Storage) (call : Remote.Call) : Prop :=
  ∀ path ∈ call.paths, ∃ text, path = s.remotePath text

/-- A call to the client of a thread, about paths below the root, or a question for the time. -/
def Sends (s : Storage) (thread : Nat) : Call → Prop
  | .remote client call => client = thread ∧ s.Below call
  | .clock | .sleepUntil _ => True

variable (s : Storage) (thread : Nat)

theorem asks_send (call : Remote.Call) (below : s.Below call) :
    (s.send thread call).Asks (s.Sends thread) := by
  by_cases h : thread < s.clients.size
  · rw [send_eq h]
    exact ⟨⟨rfl, below⟩, fun reply => trivial⟩
  · rw [send_without_client h]
    trivial

theorem asks_perform (call : Remote.Call) (below : s.Below call) :
    (s.perform thread call).Asks (s.Sends thread) :=
  (asks_send s thread call below).bind Program.asks_ofExcept

theorem below_of_single {call : Remote.Call} {text : String}
    (single : call.paths = [s.remotePath text]) : s.Below call := by
  intro path named
  rw [single] at named
  exact ⟨text, List.mem_singleton.1 named⟩

theorem asks_listFrom (budget : Nat) (page : Remote.Page) (entries : List ListEntry) :
    (s.listFrom thread budget page entries).Asks (s.Sends thread) := by
  induction budget generalizing page entries with
  | zero =>
    unfold listFrom
    dsimp only
    split <;> trivial
  | succ budget ih =>
    unfold listFrom
    dsimp only
    split
    · apply (asks_perform s thread (.listFolderContinue page.cursor) nofun).bind
      intro next
      exact ih next _
    · trivial

theorem asks_list (dir : String) (budget : Nat) :
    (s.list thread dir budget).Asks (s.Sends thread) := by
  apply (asks_perform s thread (.listFolder _) (below_of_single s rfl)).bind
  intro page
  exact asks_listFrom s thread budget page []

theorem asks_delete (path : String) : (s.delete thread path).Asks (s.Sends thread) := by
  apply (asks_send s thread (.delete _) (below_of_single s rfl)).bind
  intro reply
  split
  · trivial
  · exact Program.asks_ofExcept _

theorem asks_move (source target : String) :
    (s.move thread source target).Asks (s.Sends thread) := by
  apply asks_perform
  intro path named
  rcases List.mem_cons.1 named with first | second
  · exact ⟨source, first⟩
  · exact ⟨target, List.mem_singleton.1 second⟩

theorem asks_createDirectory (dir : String) :
    (s.createDirectory thread dir).Asks (s.Sends thread) := by
  apply (asks_send s thread (.createFolder _) (below_of_single s rfl)).bind
  intro reply
  split
  · trivial
  · exact Program.asks_ofExcept _

theorem asks_stat (path : String) : (s.stat thread path).Asks (s.Sends thread) := by
  apply (asks_send s thread (.getMetadata _) (below_of_single s rfl)).bind
  intro reply
  split <;> trivial

theorem asks_download (path : String) : (s.download thread path).Asks (s.Sends thread) := by
  apply (asks_perform s thread (.download _) (below_of_single s rfl)).bind
  intro source
  exact ⟨trivial, fun now => ⟨trivial, fun waited => Program.asks_ofExcept _⟩⟩

theorem asks_upload (path : String) (content : Bytes) :
    (s.upload thread path content).Asks (s.Sends thread) :=
  asks_perform s thread (.upload _ _ _) (below_of_single s rfl)

theorem asks_directory (budget : Nat) (c : Directory.Call) :
    (s.directory budget c).Asks (s.Sends c.thread) := by
  cases c with
  | stat thread path => exact (asks_stat s thread path).attempt
  | create thread path => exact (asks_createDirectory s thread path).attempt
  | list thread path => exact (asks_list s thread path budget).attempt

inductive Operation where
  | list (dir : String)
  | delete (path : String)
  | move (source target : String)
  | createDirectory (dir : String)
  | stat (path : String)
  | findChunk (id : ChunkId) (fossil : Bool)
  | listChunks
  | upload (path : String) (content : Bytes)
  | download (path : String)

namespace Operation

abbrev Result : Operation → Type
  | list _ => List ListEntry
  | delete _ | move .. | createDirectory _ | upload .. => Unit
  | stat _ => FileInfo
  | findChunk .. => ChunkLocation
  | listChunks => List ChunkListing
  | download _ => Bytes

def program (s : Storage) (thread : Nat) : (o : Operation) → Program interface o.Result
  | list dir => s.list thread dir
  | delete path => s.delete thread path
  | move source target => s.move thread source target
  | createDirectory dir => s.createDirectory thread dir
  | stat path => s.stat thread path
  | findChunk id fossil => s.findChunk thread id fossil
  | listChunks => s.listChunks thread
  | upload path content => s.upload thread path content
  | download path => s.download thread path

/-- The calls of an operation on a thread if a listing asks for at most `budget` pages after
the first, and a walk for at most `budget` folders. -/
def within (s : Storage) (thread budget : Nat) : (o : Operation) → Program interface o.Result
  | list dir => s.list thread dir budget
  | delete path => s.delete thread path
  | move source target => s.move thread source target
  | createDirectory dir => s.createDirectory thread dir
  | stat path => s.stat thread path
  | findChunk id fossil => s.findChunk thread id fossil
  | listChunks => s.listChunks thread budget
  | upload path content => s.upload thread path content
  | download path => s.download thread path

theorem program_eq_within (s : Storage) (thread : Nat) (o : Operation) :
    o.program s thread = o.within s thread Program.ample := by
  cases o <;> rfl

/-- An operation calls the client of its thread only, about paths below the root only. -/
theorem asks_within (s : Storage) (thread budget : Nat) (o : Operation) :
    (o.within s thread budget).Asks (s.Sends thread) := by
  have served (budget : Nat) (c : Directory.Call) (same : Directory.OnThread thread c) :
      (s.directory budget c).Asks (s.Sends thread) :=
    same ▸ asks_directory s budget c
  cases o with
  | list dir => exact asks_list s thread dir budget
  | delete path => exact asks_delete s thread path
  | move source target => exact asks_move s thread source target
  | createDirectory dir => exact asks_createDirectory s thread dir
  | stat path => exact asks_stat s thread path
  | findChunk id fossil => exact (Locator.asks_descend ..).interpret (served _)
  | listChunks => exact (Walk.asks_chunks thread budget).interpret (served budget)
  | upload path content => exact asks_upload s thread path content
  | download path => exact asks_download s thread path

theorem asks_program (s : Storage) (thread : Nat) (o : Operation) :
    (o.program s thread).Asks (s.Sends thread) := by
  rw [program_eq_within]
  exact o.asks_within s thread _

theorem within_without_client {s : Storage} {thread : Nat} (o : Operation)
    (h : ¬thread < s.clients.size) (budget : Nat) :
    o.within s thread budget = .failed (.invalidThreadIndex thread s.clients.size) := by
  cases o with
  | list dir => exact list_without_client h dir budget
  | delete path => exact delete_without_client h path
  | move source target => exact perform_without_client h _
  | createDirectory dir => exact createDirectory_without_client h dir
  | stat path => exact stat_without_client h path
  | findChunk id fossil =>
    obtain ⟨remaining, levels⟩ := Nat.exists_eq_succ_of_ne_zero (Nat.ne_of_gt id.levels_pos)
    rw [within, Storage.findChunk, Locator.locate, levels]
    -- Whether or not the first level may hold the file, a stat comes first.
    simp only [Locator.descend, Locator.probe, Program.bind_eq]
    split
    · rw [Program.bind_assoc]
      exact interpret_stat_without_client h _ _ _
    · exact interpret_stat_without_client h _ _ _
  | listChunks => exact interpret_stat_without_client h _ _ _
  | upload path content => exact perform_without_client h _
  | download path => exact download_without_client h path

theorem program_without_client {s : Storage} {thread : Nat} (o : Operation)
    (h : ¬thread < s.clients.size) :
    o.program s thread = .failed (.invalidThreadIndex thread s.clients.size) := by
  rw [program_eq_within]
  exact o.within_without_client h _

end Operation

end Storage

end ChunkStore
