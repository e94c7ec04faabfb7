import ChunkStore.Proofs.CanonicalPaths
import ChunkStore.Proofs.TransferBlocks
import ChunkStore.Storage

/-!
# Storage operations call by call

On a thread that has a client, each operation of a storage begins with one call to that
client. The equations here give the call and what becomes of its reply, for any remote. On
another thread it fails at once.
-/

namespace ChunkStore

instance decidableEqExcept {ε α : Type} [DecidableEq ε] [DecidableEq α] :
    DecidableEq (Except ε α)
  | .ok a, .ok b => decidable_of_iff (a = b) (Except.ok.injEq a b ▸ Iff.rfl)
  | .error e, .error f => decidable_of_iff (e = f) (Except.error.injEq e f ▸ Iff.rfl)
  | .ok _, .error _ => .isFalse nofun
  | .error _, .ok _ => .isFalse nofun

theorem Program.attempt_ofExcept {I : Interface} {α : Type} (reply : Except Failure α) :
    (Program.ofExcept reply : Program I α).attempt = .done reply := by
  cases reply <;> rfl

theorem Program.interpret_ofExcept_bind {I J : Interface} {α β : Type}
    (serve : (c : I.Call) → Program J (I.Reply c)) (reply : Except Failure α)
    (next : α → Program I β) :
    ((Program.ofExcept reply).bind next).interpret serve =
      (Program.ofExcept reply).bind fun a => (next a).interpret serve := by
  cases reply <;> rfl

/-- A failure that is passed on need not be caught. -/
theorem Program.attempt_bind {I : Interface} {α β : Type} {f : Except Failure α → Program I β}
    (passes : ∀ e, f (.error e) = .failed e) (p : Program I α) :
    p.attempt.bind f = p.bind fun a => f (.ok a) := by
  induction p with
  | done a => rfl
  | failed e => exact passes e
  | ask call next ih => exact congrArg (Program.ask call) (funext ih)
  | spent => rfl

theorem Program.run_attempt {I : Interface} {α σ : Type}
    (answer : (c : I.Call) → σ → I.Reply c × σ) (p : Program I α) (s : σ) :
    p.attempt.run answer s = ((p.run answer s).1.map .ok, (p.run answer s).2) := by
  induction p generalizing s with
  | done value => rfl
  | failed e => rfl
  | spent => rfl
  | ask call next ih => exact ih _ _

namespace Storage

variable {s : Storage} {thread : Nat}

def statAnswer : Except Failure Remote.Metadata → Except Failure FileInfo
  | .ok metadata => .ok metadata.info
  | .error (.notFound _) => .ok .missing
  | .error e => .error e

def createAnswer : Except Failure Unit → Except Failure Unit
  | .error (.conflict _) => .ok ()
  | reply => reply

def deleteAnswer : Except Failure Unit → Except Failure Unit
  | .error (.notFound _) => .ok ()
  | reply => reply

theorem send_eq (h : thread < s.clients.size) (call : Remote.Call) :
    s.send thread call = .ask (.remote thread call) .done := by
  have client : s.clients.get thread = .ok ⟨thread, h⟩ := by rw [Pool.get_eq_ok_iff]
  simp [send, client, Program.ofExcept]

theorem send_without_client (h : ¬thread < s.clients.size) (call : Remote.Call) :
    s.send thread call = .failed (.invalidThreadIndex thread s.clients.size) := by
  have none : s.clients.get thread = .error (.invalidThreadIndex thread s.clients.size) := by
    rw [Pool.get, dif_neg h]
  rw [send, none]
  rfl

theorem perform_eq (h : thread < s.clients.size) (call : Remote.Call) :
    s.perform thread call = .ask (.remote thread call) fun reply => .ofExcept reply := by
  simp [perform, send_eq h]

theorem stat_eq (h : thread < s.clients.size) (path : String) :
    s.stat thread path = .ask (.remote thread (.getMetadata (s.remotePath path)))
      fun reply => .ofExcept (statAnswer reply) := by
  simp only [stat, send_eq h, Program.bind_eq, Program.ask_bind, Program.done_bind]
  congr 1
  funext reply
  match reply with
  | .ok metadata => rfl
  | .error e => cases e <;> rfl

theorem createDirectory_eq (h : thread < s.clients.size) (path : String) :
    s.createDirectory thread path = .ask (.remote thread (.createFolder (s.remotePath path)))
      fun reply => .ofExcept (createAnswer reply) := by
  simp only [createDirectory, send_eq h, Program.bind_eq, Program.ask_bind, Program.done_bind]
  congr 1
  funext reply
  match reply with
  | .ok () => rfl
  | .error e => cases e <;> rfl

theorem delete_eq (h : thread < s.clients.size) (path : String) :
    s.delete thread path = .ask (.remote thread (.delete (s.remotePath path)))
      fun reply => .ofExcept (deleteAnswer reply) := by
  simp only [delete, send_eq h, Program.bind_eq, Program.ask_bind, Program.done_bind]
  congr 1
  funext reply
  match reply with
  | .ok () => rfl
  | .error e => cases e <;> rfl

/-- The body of a short upload is a single block. -/
theorem upload_short (h : thread < s.clients.size) (path : String) {content : Bytes}
    (hn : content ≠ []) (hl : content.length ≤ Source.blockSize) :
    s.upload thread path content =
      .ask (.remote thread (.upload (s.remotePath path) content.length
        ⟨[.ok content], s.uploadLimit⟩)) fun reply => .ofExcept reply := by
  have single : Source.cut content = [content] := by
    rw [Source.cut_of_ne_nil hn, List.take_of_length_le hl, List.drop_eq_nil_of_le hl,
      Source.cut_nil]
  rw [upload, perform_eq h, Source.ofContent, single]
  rfl

variable {α : Type}

/-- A stat within a program of directory calls is one call to the client. -/
theorem interpret_stat (h : thread < s.clients.size) (budget : Nat) (path : String)
    (next : FileInfo → Program Directory.interface α) :
    ((Directory.stat thread path).bind next).interpret (s.directory budget) =
      .ask (.remote thread (.getMetadata (s.remotePath path))) fun reply =>
        ((Program.ofExcept (statAnswer reply)).bind next).interpret (s.directory budget) := by
  simp only [Directory.stat, Directory.perform, Program.ask_bind, Program.interpret, directory,
    stat_eq h, Program.attempt, Program.attempt_ofExcept, Program.done_bind]

theorem interpret_create (h : thread < s.clients.size) (budget : Nat) (path : String)
    (next : Unit → Program Directory.interface α) :
    ((Directory.create thread path).bind next).interpret (s.directory budget) =
      .ask (.remote thread (.createFolder (s.remotePath path))) fun reply =>
        ((Program.ofExcept (createAnswer reply)).bind next).interpret (s.directory budget) := by
  simp only [Directory.create, Directory.perform, Program.ask_bind, Program.interpret, directory,
    createDirectory_eq h, Program.attempt, Program.attempt_ofExcept, Program.done_bind]

/-- A listing within a program of directory calls is a whole program of calls. -/
theorem interpret_list (budget : Nat) (path : String)
    (next : List ListEntry → Program Directory.interface α) :
    ((Directory.list thread path).bind next).interpret (s.directory budget) =
      (s.list thread path budget).attempt.bind fun reply =>
        ((Program.ofExcept reply).bind next).interpret (s.directory budget) := by
  simp only [Directory.list, Directory.perform, Program.ask_bind, Program.interpret, directory]

section WithoutClient

/-! A thread that has no client fails before it makes a call. -/

variable (h : ¬thread < s.clients.size)
include h

theorem stat_without_client (path : String) :
    s.stat thread path = .failed (.invalidThreadIndex thread s.clients.size) := by
  rw [stat, send_without_client h]
  rfl

theorem createDirectory_without_client (dir : String) :
    s.createDirectory thread dir = .failed (.invalidThreadIndex thread s.clients.size) := by
  rw [createDirectory, send_without_client h]
  rfl

theorem delete_without_client (path : String) :
    s.delete thread path = .failed (.invalidThreadIndex thread s.clients.size) := by
  rw [delete, send_without_client h]
  rfl

theorem perform_without_client (call : Remote.Call) :
    s.perform thread call = .failed (.invalidThreadIndex thread s.clients.size) := by
  rw [perform, send_without_client h]
  rfl

theorem list_without_client (dir : String) (budget : Nat) :
    s.list thread dir budget = .failed (.invalidThreadIndex thread s.clients.size) := by
  rw [list, perform_without_client h]
  rfl

theorem download_without_client (path : String) :
    s.download thread path = .failed (.invalidThreadIndex thread s.clients.size) := by
  rw [download, perform_without_client h]
  rfl

/-- A program of directory calls that begins with a stat goes no further. -/
theorem interpret_stat_without_client (budget : Nat) (path : String)
    (next : FileInfo → Program Directory.interface α) :
    ((Directory.stat thread path).bind next).interpret (s.directory budget) =
      .failed (.invalidThreadIndex thread s.clients.size) := by
  rw [Directory.stat, Directory.perform, Program.ask_bind, Program.interpret, directory,
    stat_without_client h]
  rfl

theorem listChunks_without_client :
    s.listChunks thread = .failed (.invalidThreadIndex thread s.clients.size) :=
  interpret_stat_without_client h _ _ _

end WithoutClient

theorem remotePath_toString (s : Storage) {p : Path} (hp : p.Canonical) :
    s.remotePath p.toString = (s.root.resolve p).toString := by
  rw [remotePath, Path.parse_toString hp]

end Storage

end ChunkStore
