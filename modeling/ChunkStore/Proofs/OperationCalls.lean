import ChunkStore.Proofs.ChunkSearch
import ChunkStore.Proofs.StorageOperations
import ChunkStore.Proofs.Transcripts

/-!
# The calls that an operation makes

What is true of every call of an operation, whatever replies it is given on the way: which
client it goes to, and what the paths look like that it names. The paths of folders on a walk
come from the names in listings, and none of these leads out of the root either.
-/

namespace ChunkStore

theorem Program.Asks.transcript {I : Interface} {α σ : Type} {allowed : I.Call → Prop}
    {p : Program I α} (h : p.Asks allowed) (answer : (c : I.Call) → σ → I.Reply c × σ) (s : σ) :
    ∀ x ∈ p.transcript answer s, allowed x.call := by
  induction p generalizing s with
  | done a => exact nofun
  | failed e => exact nofun
  | spent => exact nofun
  | ask call next ih =>
    intro x hx
    rcases List.mem_cons.1 hx with rfl | later
    · exact h.1
    · exact ih _ (h.2 _) _ x later

namespace Storage

open Program (Exchange)

variable {s : Storage}

/-- Every call of an operation goes to the client of the thread that asks for it, however
many calls there are. Where there is no such client nothing is called, and the failure says
which thread it was and how many there are. -/
theorem calls_on_thread (s : Storage) (thread budget : Nat) (o : Operation) {σ : Type}
    (answer : (c : Call) → σ → c.Reply × σ) (w : σ) :
    (thread < s.clients.size →
      ∀ x ∈ (o.within s thread budget).transcript answer w, ∀ client call,
        x.call = .remote client call → client = thread) ∧
    (¬thread < s.clients.size →
      (o.within s thread budget).transcript answer w = [] ∧
      (o.within s thread budget).run answer w =
        (some (.error (.invalidThreadIndex thread s.clients.size)), w)) := by
  constructor
  · intro h x hx client call sent
    have sends := (o.asks_within s thread budget).transcript answer w x hx
    rw [sent] at sends
    exact sends.1
  · intro h
    rw [o.within_without_client h]
    exact ⟨rfl, rfl⟩

/-- A search on the second of two threads, and on a third that does not exist. -/
theorem calls_on_thread_second :
    let s : Storage := { plain .root 1 with clients := ⟨2, Nat.two_pos⟩ }
    let search : Operation := .findChunk ⟨"abcd", by decide⟩ false
    let start := Memory.World.mk {} 0
    1 < s.clients.size ∧ ((search.within s 1 0).transcript Memory.World.serve start).length = 4 ∧
      (∀ x ∈ (search.within s 1 0).transcript Memory.World.serve start, ∀ client call,
        x.call = .remote client call → client = 1) ∧
      ¬2 < s.clients.size ∧
      (search.within s 2 0).transcript Memory.World.serve start = [] ∧
      (search.within s 2 0).run Memory.World.serve start =
        (some (.error (.invalidThreadIndex 2 2)), start) :=
  ⟨by decide, by decide +kernel, (calls_on_thread _ 1 0 _ _ _).1 (by decide), by decide,
    (calls_on_thread _ 2 0 _ _ _).2 (by decide)⟩

theorem remotePath_normalize (s : Storage) (path : String) :
    s.remotePath (normalize path) = s.remotePath path := by
  rw [remotePath, remotePath, Path.parse_normalize]

theorem parse_remotePath (hr : s.root.Canonical) (path : String) :
    Path.parse (s.remotePath path) = s.root.resolve (.parse path) :=
  Path.parse_toString (hr.resolve (Path.canonical_parse path))

theorem normalize_remotePath (hr : s.root.Canonical) (path : String) :
    normalize (s.remotePath path) = s.remotePath path := by
  rw [normalize, parse_remotePath hr, remotePath]

theorem remotePath_eq_iff (hr : s.root.Canonical) (path other : String) :
    s.remotePath path = s.remotePath other ↔ normalize path = normalize other := by
  rw [Path.normalize_eq_iff]
  constructor
  · intro same
    have resolved : s.root.resolve (.parse path) = s.root.resolve (.parse other) := by
      rw [← parse_remotePath hr, same, parse_remotePath hr]
    exact congrArg Path.mk (List.append_cancel_left (congrArg Path.segments resolved))
  · intro same
    rw [remotePath, remotePath, same]

def Operation.normal : Operation → Operation
  | list dir => list (normalize dir)
  | delete path => delete (normalize path)
  | move source target => move (normalize source) (normalize target)
  | createDirectory dir => createDirectory (normalize dir)
  | stat path => stat (normalize path)
  | findChunk id fossil => findChunk id fossil
  | listChunks => listChunks
  | upload path content => upload (normalize path) content
  | download path => download (normalize path)

/-- An operation exchanges the same with the clients in every spelling of its paths. -/
theorem Operation.transcript_normal (s : Storage) (thread budget : Nat) (o : Operation)
    {σ : Type} (answer : (c : Call) → σ → c.Reply × σ) (w : σ) :
    (o.normal.within s thread budget).transcript answer w =
      (o.within s thread budget).transcript answer w := by
  by_cases h : thread < s.clients.size
  · cases o with
    | list dir => rw [normal, within, within, Storage.list, Storage.list, remotePath_normalize]
    | delete path => rw [normal, within, within, delete_eq h, delete_eq h, remotePath_normalize]
    | move source target =>
      rw [normal, within, within, Storage.move, Storage.move, remotePath_normalize,
        remotePath_normalize]
    | createDirectory dir =>
      rw [normal, within, within, createDirectory_eq h, createDirectory_eq h,
        remotePath_normalize]
    | stat path => rw [normal, within, within, stat_eq h, stat_eq h, remotePath_normalize]
    | findChunk id fossil => rfl
    | listChunks => rfl
    | upload path content =>
      rw [normal, within, within, Storage.upload, Storage.upload, remotePath_normalize]
    | download path =>
      rw [normal, within, within, Storage.download, Storage.download, remotePath_normalize]
  · rw [o.normal.within_without_client h, o.within_without_client h]
    rfl

/-- In a storage opened on any folder, every path that an operation sends is in normal form
and lies within that folder, whatever the spelling of its own paths, the replies and the names
in listings. What is sent depends on the normal forms of these paths only, and two texts lead
to one path on the service just where they have one normal form. -/
theorem sent_paths_canonical {dir : String} (hr : s.root = .parse dir) (thread budget : Nat) :
    (∀ (o : Operation) (σ : Type) (answer : (c : Call) → σ → c.Reply × σ) (w : σ),
      ∀ x ∈ (o.within s thread budget).transcript answer w, ∀ client call,
        x.call = .remote client call → ∀ path ∈ call.paths,
          normalize path = path ∧ (Path.parse dir).segments <+: (Path.parse path).segments) ∧
    (∀ o o' : Operation, o.normal = o'.normal →
      ∀ (σ : Type) (answer : (c : Call) → σ → c.Reply × σ) (w : σ),
        (o.within s thread budget).transcript answer w =
          (o'.within s thread budget).transcript answer w) ∧
    ∀ path other, s.remotePath path = s.remotePath other ↔ normalize path = normalize other := by
  have canonical : s.root.Canonical := hr ▸ Path.canonical_parse dir
  refine ⟨?_, ?_, remotePath_eq_iff canonical⟩
  · intro o σ answer w x hx client call sent path named
    have sends := (o.asks_within s thread budget).transcript answer w x hx
    rw [sent] at sends
    obtain ⟨text, rfl⟩ := sends.2 path named
    constructor
    · exact normalize_remotePath canonical text
    · rw [parse_remotePath canonical, hr]
      exact List.prefix_append _ _
  · intro o o' same σ answer w
    rw [← o.transcript_normal, same, o'.transcript_normal]

/-- A folder and a path that are both spelled with detours. -/
theorem sent_paths_canonical_detours :
    let s := plain (.parse "/a/../repo//x/") 0
    (∃ client call, (((Operation.stat "b/./../c").within s 0 0).transcript Memory.World.serve
        ⟨{}, 0⟩).map Exchange.call = [.remote client call] ∧ call.paths = ["/repo/x/c"]) ∧
      (∀ x ∈ ((Operation.stat "b/./../c").within s 0 0).transcript Memory.World.serve ⟨{}, 0⟩,
        ∀ client call, x.call = .remote client call → ∀ path ∈ call.paths, normalize path = path ∧
          (Path.parse "/a/../repo//x/").segments <+: (Path.parse path).segments) ∧
      s.remotePath "b/./../c" = s.remotePath "/c/" := by
  obtain ⟨confined, -, same⟩ :=
    sent_paths_canonical (s := plain (.parse "/a/../repo//x/") 0) rfl 0 0
  exact ⟨⟨0, .getMetadata "/repo/x/c", rfl, rfl⟩, confined _ _ _ _, (same _ _).2 rfl⟩

end Storage

end ChunkStore
