import ChunkStore.Proofs.ChunkSearch
import ChunkStore.Proofs.ServiceHistory

/-!
# Folders that a storage creates

The creation of a folder takes a conflict for the answer that the folder is there already. A
service reports a conflict for any node at the path and also for a file above it. So creating
a folder succeeds whatever is there, but only where no file stands in the way is there a folder
afterwards, and a storage may open although its root is a file.
-/

namespace ChunkStore

namespace Tree

variable {t : Tree} {p q : Path}

/-- No file stands at `p` or above it. -/
def Passable (t : Tree) (p : Path) : Prop :=
  ∀ q : Path, q.segments <+: p.segments → ∀ content, t[q]? ≠ some (.file content)

theorem Passable.unblocked (h : t.Passable p) : t.Unblocked p := by
  intro q above content
  exact h q (Path.mem_ancestors.1 above).1 content

theorem Unblocked.passable (h : t.Unblocked p) (here : ∀ content, t[p]? ≠ some (.file content)) :
    t.Passable p := by
  intro q upward content
  rcases Nat.lt_or_ge q.segments.length p.segments.length with above | level
  · exact h q (Path.mem_ancestors.2 ⟨upward, above⟩) content
  · have same : q = p := congrArg Path.mk (upward.eq_of_length_le level)
    rw [same]
    exact here content

theorem Passable.folder_of_present (h : t.Passable p) (here : t[p]? ≠ none) :
    t[p]? = some .folder := by
  cases node : t[p]? with
  | none => exact absurd node here
  | some kind =>
    cases kind with
    | folder => rfl
    | file content => exact absurd node (h p (List.prefix_refl _) content)

theorem Closed.passable_of_folder (h : t.Closed) (folder : t[p]? = some .folder) :
    t.Passable p := by
  have unblocked : t.Unblocked p := by
    intro q above content file
    have up : t[q]? = some .folder := h.above p (by simp [folder]) q above
    rw [up] at file
    cases file
  apply unblocked.passable
  intro content file
  rw [folder] at file
  cases file

/-- A folder can be had exactly at the paths to which the way is free. -/
theorem Closed.createFolder_folder_iff (h : t.Closed) (p : Path) :
    (t.createFolder p).2[p]? = some .folder ↔ t.Passable p := by
  rcases h.createFolder_cases p with ⟨vacant, unblocked, t', created, hg⟩ |
    ⟨taken, subject, refused⟩
  · have free : t.Passable p := by
      apply unblocked.passable
      intro content file
      rw [vacant] at file
      cases file
    rw [created, hg, if_pos rfl]
    exact ⟨fun _ => free, fun _ => rfl⟩
  · rw [refused]
    constructor
    · exact h.passable_of_folder
    · intro free
      apply free.folder_of_present
      exact taken.resolve_right (not_not.2 free.unblocked)

end Tree

namespace Storage

open Memory (World)

variable {s : Storage} {thread : Nat} {w w' : World} {path : String}

theorem client_of_createDirectory
    (created : w.run (s.createDirectory thread path) = (some (.ok ()), w')) :
    thread < s.clients.size := by
  by_contra none
  rw [createDirectory, send_without_client none] at created
  cases created

/-- A storage that was opened has its root as a folder without a call, or it has created it. -/
theorem created_of_create {profile : Remote.Profile} {clients : Pool} {config : Config}
    (run : w.run (create profile clients config) = (some (.ok s), w')) :
    s.root.Canonical ∧
      (s.root = .root ∧ w' = w ∨ w.run (s.createDirectory 0 "") = (some (.ok ()), w')) := by
  unfold create at run
  cases valid : config.validate with
  | error e =>
    rw [valid] at run
    cases run
  | ok checked =>
    rw [valid] at run
    simp only [Program.ofExcept, Program.bind_eq, Program.done_bind, Program.pure_eq] at run
    split at run
    · cases run
    · split at run
      · rename_i top
        cases run
        exact ⟨Path.canonical_parse _, .inl ⟨(Path.isRoot_iff _).1 top, rfl⟩⟩
      · obtain ⟨done, w₁, made, rest⟩ := of_run_bind_ok run
        cases rest
        exact ⟨Path.canonical_parse _, .inr made⟩

theorem became_of_created (hr : s.root.Canonical) (online : w.remote.offline = false)
    (created : w.run (s.createDirectory thread path) = (some (.ok ()), w')) :
    w.Became (w.remote.tree.createFolder (s.target path)).2 w' := by
  have h : thread < s.clients.size := client_of_createDirectory created
  obtain ⟨w₁, run, became⟩ := run_createDirectory h hr online path
  have same : w₁ = w' := by
    rw [World.run, run] at created
    exact congrArg Prod.snd created
  rwa [same] at became

/-- Once the creation of a folder was reported, a stat of its path tells of a folder exactly
when no file stood at the path or above it. The same is true of the root of a storage that was
opened. -/
theorem createDirectory_makes_folder_iff {m : Memory} (hm : m.Reachable)
    (online : m.offline = false) (now : Millis) :
    (∀ (s : Storage) (thread : Nat) (path : String) (w : World), s.root.Canonical →
      (World.mk m now).run (s.createDirectory thread path) = (some (.ok ()), w) →
      ∃ info w', w.run (s.stat thread path) = (some (.ok info), w') ∧
        (info.present = true ∧ info.isDirectory = true ↔ m.tree.Passable (s.target path))) ∧
    ∀ (profile : Remote.Profile) (clients : Pool) (config : Config) (s : Storage) (w : World),
      (World.mk m now).run (create profile clients config) = (some (.ok s), w) →
      (w.remote.tree.get? s.root = some .folder ↔ m.tree.Passable s.root) := by
  have closed : m.tree.Closed := hm.sound.closed
  constructor
  · intro s thread path w hr created
    have became := became_of_created hr online created
    have made := closed.createFolder_folder_iff (s.target path)
    obtain ⟨w', stat, -⟩ := run_stat (client_of_createDirectory created) hr
      (became.offline.trans online) path
    refine ⟨_, w', stat, ?_⟩
    rw [Tree.info_isDirectory, Tree.info_present, became.tree, ← made]
    constructor
    · exact fun both => both.2
    · intro folder
      exact ⟨by simp [folder], folder⟩
  · intro profile clients config s w run
    obtain ⟨hr, top | created⟩ := created_of_create run
    · obtain ⟨root, rfl⟩ := top
      have folder : m.tree[Path.root]? = some .folder := closed.root
      have free : m.tree.Passable Path.root := closed.passable_of_folder folder
      rw [root, Std.ExtTreeMap.get?_eq_getElem?]
      exact ⟨fun _ => free, fun _ => folder⟩
    · have became := became_of_created hr online created
      have made := closed.createFolder_folder_iff (s.target "")
      rw [target, Path.parse_empty, Path.resolve_root] at became made
      rw [became.tree, Std.ExtTreeMap.get?_eq_getElem?]
      exact made

/-- A folder beside a file is created and found. -/
theorem createDirectory_makes_folder_iff_beside_file :
    ∃ w w', (World.mk (({} : Memory).putFile "/a/x" [7]).2 0).run
        ((plain (.parse "/a") 0).createDirectory 0 "../b/c/") = (some (.ok ()), w) ∧
      w.run ((plain (.parse "/a") 0).stat 0 "../b/c/") = (some (.ok .directory), w') ∧
      (({} : Memory).putFile "/a/x" [7]).2.tree.Passable
        ((plain (.parse "/a") 0).target "../b/c/") := by
  have created : (World.mk (({} : Memory).putFile "/a/x" [7]).2 0).run
      ((plain (.parse "/a") 0).createDirectory 0 "../b/c/") = (some (.ok ()), _) := rfl
  obtain ⟨info, w', stat, exact⟩ := (createDirectory_makes_folder_iff
    (.putFile "/a/x" [7] .fresh) rfl 0).1 _ 0 _ _ (Path.canonical_parse "/a") created
  have value : some (Except.ok FileInfo.directory) = some (Except.ok info) :=
    congrArg Prod.fst stat
  cases value
  exact ⟨_, w', created, stat, exact.1 ⟨rfl, rfl⟩⟩

/-- A storage opens on the root `/repo` although this is a file, and the creation of its root
is reported, but a stat tells of a file. -/
theorem createDirectory_over_file :
    ∃ s w w₁ w₂, (World.mk (({} : Memory).putFile "/repo" [7]).2 0).run
        (create Memory.profile ⟨1, Nat.one_pos⟩ { storageDir := "/repo" }) =
        (some (.ok s), w) ∧
      w.remote.Reachable ∧ w.remote.offline = false ∧
      w.remote.tree.get? s.root = some (.file [7]) ∧
      w.run (s.createDirectory 0 "") = (some (.ok ()), w₁) ∧
      w₁.run (s.stat 0 "") = (some (.ok (.file 1)), w₂) := by
  have start : (({} : Memory).putFile "/repo" [7]).2.Reachable := .putFile "/repo" [7] .fresh
  have opened : (World.mk (({} : Memory).putFile "/repo" [7]).2 0).run
      (create Memory.profile ⟨1, Nat.one_pos⟩ { storageDir := "/repo" }) =
      (some (.ok (plain (.parse "/repo") 0)), _) := rfl
  have reachable := start.run (w := World.mk _ 0)
    (create Memory.profile ⟨1, Nat.one_pos⟩ { storageDir := "/repo" })
  rw [opened] at reachable
  refine ⟨_, _, _, _, opened, reachable, rfl, ?_, rfl, rfl⟩
  decide +kernel

end Storage

end ChunkStore
