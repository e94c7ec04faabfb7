import ChunkStore.Proofs.ExactEnumeration
import ChunkStore.Proofs.OpenListings

/-!
# Walking while others make changes

A walk takes many calls, and others may upload, move and delete between any two of them. Each
folder is still reported as it was at one moment, and the folders are taken in an order in
which none comes twice. So a walk that succeeds has listed each file once that stayed in its
place from beginning to end, no path twice, and nothing that was not there at some moment.
-/

namespace ChunkStore

namespace Walk

variable {Seen : Tree → Prop} {root : Path} {found : List ChunkListing}

/-- What a walk gives that finds the trees `Seen` on its way: nothing if the folder of all
shards is missing in one of them, else what the queue gives that begins with this folder. -/
def Reported (Seen : Tree → Prop) (root : Path) (found : List ChunkListing) : Prop :=
  Toured Seen root [Storage.shardTree] found ∨
    found = [] ∧ ∃ t, Seen t ∧ t[root.resolve Locator.chunks]? ≠ some .folder

theorem Reported.nodup (h : Reported Seen root found) (closed : ∀ t, Seen t → t.Closed) :
    (found.map ChunkListing.path).Nodup := by
  rcases h with toured | ⟨rfl, -⟩
  · exact (toured.ordered closed (List.pairwise_singleton _ _)).nodup_paths
  · exact List.nodup_nil

theorem Reported.lies (h : Reported Seen root found) (closed : ∀ t, Seen t → t.Closed)
    {e : ChunkListing} (he : e ∈ found) : ∃ t, Seen t ∧ Lies t root Storage.shardTree e := by
  rcases h with toured | ⟨rfl, -⟩
  · obtain ⟨a, ha, lies⟩ := toured.lies closed he
    rwa [List.mem_singleton.1 ha] at lies
  · cases he

theorem Reported.meets (h : Reported Seen root found) (closed : ∀ t, Seen t → t.Closed)
    {names : List String} {name : String} {id : ChunkId} {fossil : Bool}
    (spelled : Spells names name id fossil)
    (stays : ∀ t, Seen t → ∃ content,
      t[root.resolve (chunkFile names name)]? = some (.file content)) :
    ∃ e ∈ found, e.path = (chunkFile names name).toString ∧ e.id = id ∧ e.fossil = fossil := by
  rcases h with toured | ⟨rfl, t, seen, folder⟩
  · obtain ⟨shards, parsed, rfl⟩ := spells_iff.1 spelled
    rw [← String.empty_append (s := String.join names)] at parsed
    obtain ⟨e, he, same, fossil, path⟩ :=
      toured.meets closed (List.mem_singleton_self Storage.shardTree) shards parsed stays
    exact ⟨e, he, path, same, fossil⟩
  · obtain ⟨content, here⟩ := stays t seen
    let e : ChunkListing := ⟨id, (chunkFile names name).toString, content.length, fossil⟩
    have lies : Lies t root Storage.shardTree e :=
      lies_shardTree_iff.2 ⟨names, name, content, spelled, here, rfl, rfl⟩
    exact absurd lies (Storage.not_lies_of_not_folder (closed t seen) folder e)

end Walk

namespace Storage

open Memory (World)

variable {Seen : Tree → Prop} {s : Storage} {thread budget : Nat} {w : World}

/-- A walk over a queue of folders reports what the queue gives, each folder as it was at one
of the moments. -/
theorem amid_visit (h : thread < s.clients.size) (hr : s.root.Canonical)
    (closed : ∀ t, Seen t → t.Closed) (hb : Program.ample ≤ w.remote.served + budget)
    {pending : List Walk.Shard} (canonical : ∀ a ∈ pending, a.dir.Canonical)
    (found : List ChunkListing) :
    ((Walk.visit thread budget pending found).interpret s.directory).Amid World.serve (Moved Seen)
      (fun list _ => ∃ out, list = found ++ out ∧ Walk.Toured Seen s.root pending out) w := by
  induction budget generalizing w pending found with
  | zero => exact amid_of_used_up hb
  | succ budget ih =>
    cases pending with
    | nil => exact fun w' _ => ⟨[], (List.append_nil found).symm, .nil⟩
    | cons a pending =>
      have here : a.dir.Canonical := canonical a (by simp)
      rw [Walk.visit, Program.bind_eq, interpret_list, Program.attempt_bind fun _ => rfl]
      refine (amid_list h hr a.dir.toString).bind Moved.settled fun entries w' listed => ?_
      obtain ⟨⟨t, seen, rfl⟩, taken⟩ := listed
      rw [s.target_toString here]
      -- The folders met are those of `t`, and need not be there in a later tree.
      have below : ∀ a' ∈ pending ++ Walk.subshards t s.root a, a'.dir.Canonical := by
        intro a' ha
        rcases List.mem_append.1 ha with queued | sub
        · exact canonical a' (by simp [queued])
        · obtain ⟨name, shard, -, rfl⟩ := (Walk.mem_subshards (closed t seen)).1 sub
          exact here.child (Walk.isName_of_isShardName shard)
      refine (ih (by omega) below _).mono fun list w'' result => ?_
      obtain ⟨out, rfl, toured⟩ := result
      refine ⟨Walk.ownChunks t s.root a ++ out, ?_, .cons seen toured⟩
      rw [← List.append_assoc]
      rfl

theorem info_of_getMetadata {p : Path} (hp : p.Canonical) {info : FileInfo}
    (reply : statAnswer (w.answer (.getMetadata p.toString)).1 = .ok info) :
    info = w.remote.tree.info p := by
  cases offline : w.remote.offline with
  | false =>
    rw [(World.answer_getMetadata offline hp).1] at reply
    cases reply
    rfl
  | true =>
    simp only [World.answer, World.instantly, Memory.getMetadata, Memory.receive, offline] at reply
    cases reply

theorem amid_listChunks (hr : s.root.Canonical) (closed : ∀ t, Seen t → t.Closed) :
    (s.listChunks thread).Amid World.serve (Moved Seen)
      (fun found _ => Walk.Reported Seen s.root found) w := by
  by_cases h : thread < s.clients.size
  · have canonical : Locator.chunks.Canonical := Path.canonical_parse _
    rw [listChunks, Walk.chunks, Program.bind_eq, interpret_stat h, s.remotePath_toString canonical]
    intro w' moved
    beta_reduce
    rw [Program.interpret_ofExcept_bind]
    apply Program.Amid.ofExcept_bind
    intro info reply
    rw [info_of_getMetadata (hr.resolve canonical) reply]
    by_cases folder : w'.remote.tree[s.root.resolve Locator.chunks]? = some .folder
    · rw [if_pos (Tree.info_isDirectory.2 folder)]
      have top : ∀ a ∈ [shardTree], a.dir.Canonical := by
        intro a ha
        rw [List.mem_singleton.1 ha]
        exact canonical
      refine (amid_visit h hr closed (Nat.le_add_left _ _) top []).mono fun list w'' result => ?_
      obtain ⟨out, rfl, toured⟩ := result
      exact .inl toured
    · rw [if_neg fun directory => folder (Tree.info_isDirectory.1 directory)]
      exact fun w'' _ => .inr ⟨rfl, w'.remote.tree, moved.seen, folder⟩
  · rw [listChunks_without_client h]
    trivial

section Schedule

variable {ι : Type} [DecidableEq ι] {crew : Crew interface World ι (List ChunkListing)}
  {walker : ι} {schedule : List ι}

/-- The trees that a run goes through. -/
def Passes (crew : Crew interface World ι (List ChunkListing)) (schedule : List ι) (t : Tree) :
    Prop :=
  ∃ w, crew.Moment World.serve schedule w ∧ w.remote.tree = t

theorem sound_of_moment (start : crew.state.remote.Reachable)
    (moment : crew.Moment World.serve schedule w) : w.remote.Sound :=
  moment.keeps (P := fun w => w.remote.Sound) (fun call _ h => h.serve call) start.sound

theorem served_of_moment (moment : crew.Moment World.serve schedule w) :
    w.remote.served ≤ (crew.follow World.serve schedule).state.remote.served :=
  moment.lasts (P := fun w' => w.remote.served ≤ w'.remote.served)
    (fun call w' h => Nat.le_trans h (Memory.later_serve call w').served) (Nat.le_refl _)

theorem closed_of_passes (start : crew.state.remote.Reachable) :
    ∀ t, Passes crew schedule t → t.Closed := by
  rintro t ⟨w, moment, rfl⟩
  exact (sound_of_moment start moment).closed

/-- A walker of a crew does not run out of its budget, and what it reports is what a walk
gives that finds the trees of the run on its way. -/
theorem listChunks_reported (start : crew.state.remote.Reachable) (hr : s.root.Canonical)
    (walks : crew.members walker = s.listChunks thread)
    (hs : (crew.follow World.serve schedule).state.remote.served < Program.ample) :
    (crew.follow World.serve schedule).members walker ≠ .spent ∧
      ∀ found, (crew.follow World.serve schedule).members walker = .done found →
        Walk.Reported (Passes crew schedule) s.root found := by
  have judged : (crew.members walker).Amid World.serve (Moved (Passes crew schedule))
      (fun found _ => Walk.Reported (Passes crew schedule) s.root found) crew.state := by
    rw [walks]
    exact amid_listChunks hr (closed_of_passes start)
  refine Crew.amid_follow (fun w w' => w.remote.Later w'.remote) (fun w => .refl w.remote)
    (fun _ _ _ => .trans) Memory.later_serve (fun w w' later moment => ?_) (.refl _) judged
  exact ⟨later, sound_of_moment start moment, Nat.lt_of_le_of_lt (served_of_moment moment) hs,
    w', moment, rfl⟩

/-- A walk in a crew whose other members make any calls, in whatever order the turns come. If
it succeeds, a file that is at one place all the time, where its path spells a chunk id, has
one entry; no two entries have the same path; and each entry is a file as it was at some
moment. -/
theorem listChunks_concurrent (start : crew.state.remote.Reachable) (hr : s.root.Canonical)
    (walks : crew.members walker = s.listChunks thread)
    (hs : (crew.follow World.serve schedule).state.remote.served < Program.ample) :
    (crew.follow World.serve schedule).members walker ≠ .spent ∧
      ∀ found, (crew.follow World.serve schedule).members walker = .done found →
        (∀ names name id fossil, Walk.Spells names name id fossil →
          (∀ w, crew.Moment World.serve schedule w → ∃ content,
            w.remote.tree[s.root.resolve (Walk.chunkFile names name)]? = some (.file content)) →
          (found.map ChunkListing.path).count (Walk.chunkFile names name).toString = 1 ∧
            ∃ e ∈ found, e.path = (Walk.chunkFile names name).toString ∧ e.id = id ∧
              e.fossil = fossil) ∧
        (found.map ChunkListing.path).Nodup ∧
        ∀ e ∈ found, ∃ w, crew.Moment World.serve schedule w ∧ ∃ content,
          w.remote.tree[s.target e.path]? = some (.file content) ∧ e.size = content.length := by
  have closed : ∀ t, Passes crew schedule t → t.Closed := closed_of_passes start
  obtain ⟨unspent, reports⟩ := listChunks_reported start hr walks hs
  refine ⟨unspent, fun found done => ?_⟩
  have reported := reports found done
  have once := reported.nodup closed
  refine ⟨fun names name id fossil spelled stays => ?_, once, fun e he => ?_⟩
  · have kept : ∀ t, Passes crew schedule t → ∃ content,
        t[s.root.resolve (Walk.chunkFile names name)]? = some (.file content) := by
      rintro t ⟨w, moment, rfl⟩
      exact stays w moment
    obtain ⟨e, he, path, told⟩ := reported.meets closed spelled kept
    have listed : (Walk.chunkFile names name).toString ∈ found.map ChunkListing.path := by
      rw [← path]
      exact List.mem_map_of_mem he
    exact ⟨List.count_eq_one_of_mem once listed, e, he, path, told⟩
  · obtain ⟨t, ⟨w, moment, rfl⟩, lies⟩ := reported.lies closed he
    obtain ⟨names, name, content, -, here, path, size⟩ := Walk.lies_shardTree_iff.1 lies
    have canonical : (Walk.chunkFile names name).Canonical :=
      (sound_of_moment start moment).closed.canonical_of_resolve here
    rw [path, s.target_toString canonical]
    exact ⟨w, moment, content, here, size⟩

end Schedule

/-- A walker, and one who deletes a file. A page holds one entry. -/
def hunted : Crew interface World Bool (List ChunkListing) where
  state :=
    ⟨{ (((({} : Memory).putFile "/chunks/12" [1]).2.putFile "/chunks/ab/cd" [2]).2.putFile
      "/chunks/ab/ef" [3]).2 with pageSize := 1 }, 0⟩
  members walks :=
    if walks then (plain .root 0).listChunks 0
    else ((plain .root 0).delete 0 "/chunks/ab/ef").bind fun () => .done []

/-- The file is deleted before the walker asks for the page that it is on. -/
def hunt : List Bool := [true, true, true, true, false, true]

theorem listChunks_concurrent_hunted :
    ∃ found, (hunted.follow World.serve hunt).members true = .done found ∧
      found.map ChunkListing.path = ["/chunks/12", "/chunks/ab/cd", "/chunks/ab/ef"] ∧
      (hunted.follow World.serve hunt).state.remote.holds "/chunks/ab/ef" = false ∧
      (found.map ChunkListing.path).count "/chunks/ab/cd" = 1 ∧
      ∀ e ∈ found, ∃ w, hunted.Moment World.serve hunt w ∧ ∃ content,
        w.remote.tree[(plain .root 0).target e.path]? = some (.file content) ∧
          e.size = content.length := by
  have start : hunted.state.remote.Reachable :=
    .pageSize 1 (.putFile _ _ (.putFile _ _ (.putFile _ _ .fresh)))
  have walks : hunted.members true = (plain .root 0).listChunks 0 := rfl
  have few : (hunted.follow World.serve hunt).state.remote.served < Program.ample := by
    decide +kernel
  have done : (hunted.follow World.serve hunt).members true =
      .done [⟨⟨"12", by decide⟩, "/chunks/12", 1, false⟩,
        ⟨⟨"abcd", by decide⟩, "/chunks/ab/cd", 1, false⟩,
        ⟨⟨"abef", by decide⟩, "/chunks/ab/ef", 1, false⟩] := rfl
  obtain ⟨-, reports⟩ := listChunks_concurrent start Path.canonical_root walks few
  obtain ⟨once, -, moments⟩ := reports _ done
  have spelled : Walk.Spells ["ab"] "cd" ⟨"abcd", by decide⟩ false :=
    ⟨by simp [Text.isHexDigit, Text.isDigit], "cd", rfl, rfl⟩
  have stays : ∀ turns ∈ hunt.inits, (hunted.follow World.serve turns).state.remote.tree[
      Path.root.resolve (Walk.chunkFile ["ab"] "cd")]? = some (.file [2]) := by
    decide +kernel
  have gone : (hunted.follow World.serve hunt).state.remote.holds "/chunks/ab/ef" = false := by
    decide +kernel
  refine ⟨_, done, rfl, gone, (once _ _ _ _ spelled ?_).1, moments⟩
  rintro w ⟨turns, part, rfl⟩
  exact ⟨[2], stays turns ((List.mem_inits _ _).2 part)⟩

end Storage

end ChunkStore
