import ChunkStore.Proofs.ChunkSearch
import ChunkStore.Proofs.ServiceHistory

/-!
# Files that were written

The content of an upload travels in blocks, at the rate of the storage, and is put together
again by the service. An upload is refused exactly where a folder stands at its path or a file
above it, and then nothing has changed. Otherwise the content can be read back under every
spelling of the path, and all else that was there is as it was.
-/

namespace ChunkStore

namespace Tree

variable {t : Tree} {p q : Path} {content : Bytes} {node : Node}

theorem Closed.store_ok_iff (h : t.Closed) (p : Path) (content : Bytes) :
    (t.store p content).1 = .ok () ↔ t[p]? ≠ some .folder ∧ t.Unblocked p := by
  rcases h.store_cases p content with ⟨other, free, t', stored, -⟩ | ⟨refused, subject, stored⟩
  · rw [stored]
    exact ⟨fun _ => ⟨other, free⟩, fun _ => rfl⟩
  · rw [stored]
    constructor
    · intro ok
      cases ok
    · rintro ⟨other, free⟩
      rcases refused with folder | blocked
      · exact absurd folder other
      · exact absurd free blocked

/-- Once a file was written, its path holds the content, every other node is as it was, and
the nodes that are new are folders above it. -/
theorem Closed.store_of_ok (h : t.Closed) (ok : (t.store p content).1 = .ok ()) :
    (t.store p content).2[p]? = some (.file content) ∧
      ∀ q, q ≠ p → (t.store p content).2[q]? = t[q]? ∨
        t[q]? = none ∧ q ∈ p.ancestors ∧ (t.store p content).2[q]? = some .folder := by
  rcases h.store_cases p content with ⟨-, free, t', stored, hg⟩ | ⟨-, subject, refused⟩
  · rw [stored]
    constructor
    · rw [hg, if_pos rfl]
    · intro q other
      rw [hg, if_neg other]
      by_cases above : q ∈ p.ancestors
      · rw [if_pos above]
        cases here : t[q]? with
        | none => exact .inr ⟨rfl, above, rfl⟩
        | some kind =>
          cases kind with
          | folder => exact .inl rfl
          | file old => exact absurd here (free q above old)
      · rw [if_neg above]
        exact .inl rfl
  · rw [refused] at ok
    cases ok

end Tree

namespace Storage

open Memory (World)

variable {s : Storage} {thread : Nat}

theorem target_of_remotePath (hr : s.root.Canonical) {p q : String}
    (same : s.remotePath q = s.remotePath p) : s.target q = s.target p :=
  Path.toString_injective (canonical_target hr q) (canonical_target hr p) same

/-- An upload is answered, and it succeeds exactly where its path is no folder and no path
above it is a file. Then every thread reads the content back, and finds a file of its length,
under each text that names the path; every other node is as it was, and what is new are the
folders above the file. Where an upload fails the tree is as it was. -/
theorem upload_reads_back {m : Memory} (hm : m.Reachable) (online : m.offline = false)
    (now : Millis) (hr : s.root.Canonical) (h : thread < s.clients.size) (p : String)
    (content : Bytes) :
    ∃ result w, (World.mk m now).run (s.upload thread p content) = (some result, w) ∧
      (result = .ok () ↔ m.tree[s.target p]? ≠ some .folder ∧
        ∀ q ∈ (s.target p).ancestors, ∀ old, m.tree[q]? ≠ some (.file old)) ∧
      (result = .ok () →
        (∀ reader < s.clients.size, ∀ q, s.remotePath q = s.remotePath p →
          (∃ w', w.run (s.download reader q) = (some (.ok content), w')) ∧
          ∃ w', w.run (s.stat reader q) = (some (.ok (.file content.length)), w')) ∧
        ∀ q, q ≠ s.target p → w.remote.tree[q]? = m.tree[q]? ∨
          m.tree[q]? = none ∧ q ∈ (s.target p).ancestors ∧
            w.remote.tree[q]? = some .folder) ∧
      (result ≠ .ok () → w.remote.tree = m.tree) := by
  have closed : m.tree.Closed := hm.sound.closed
  obtain ⟨w, run, became⟩ := run_upload (w := World.mk m now) h hr online p content
  refine ⟨_, w, run, closed.store_ok_iff _ content, ?_, ?_⟩
  · intro ok
    obtain ⟨file, others⟩ := closed.store_of_ok ok
    rw [← became.tree] at file others
    refine ⟨?_, others⟩
    intro reader client q spelled
    have online' : w.remote.offline = false := became.offline.trans online
    obtain ⟨w₁, download, -⟩ := run_download client hr online' q
    obtain ⟨w₂, stat, -⟩ := run_stat client hr online' q
    rw [target_of_remotePath hr spelled] at download stat
    rw [Tree.fetch, Std.ExtTreeMap.get?_eq_getElem?, file] at download
    rw [Tree.info_file file] at stat
    exact ⟨⟨w₁, download⟩, w₂, stat⟩
  · intro failed
    rw [became.tree]
    rcases closed.store_cases (s.target p) content with ⟨-, -, t', stored, -⟩ |
      ⟨-, subject, refused⟩
    · exact absurd (congrArg Prod.fst stored) failed
    · exact congrArg Prod.snd refused

/-- A file beside another one, read under a spelling with dot segments. -/
theorem upload_reads_back_respelled :
    let s := plain (.parse "/repo") 0
    let m := Memory.after [.putFile "/repo/a/old" [9]]
    ∃ w w', (World.mk m 0).run (s.upload 0 "a//b/./c" [1, 2]) = (some (.ok ()), w) ∧
      w.run (s.download 0 "/a/x/../b/c/") = (some (.ok [1, 2]), w') ∧
      w.remote.tree[Path.parse "/repo/a/old"]? = some (.file [9]) := by
  intro s m
  have reachable : m.Reachable := Memory.reachable_after _
  obtain ⟨result, w, run, ok, kept, -⟩ := upload_reads_back (s := s) reachable rfl 0
    (Path.canonical_parse "/repo") Nat.one_pos "a//b/./c" [1, 2]
  have folders : ∀ q ∈ (s.target "a//b/./c").ancestors,
      m.tree[q]? = none ∨ m.tree[q]? = some .folder := by
    decide +kernel
  have stored : result = .ok () := by
    apply ok.2
    constructor
    · decide +kernel
    · intro q above old file
      have kind := folders q above
      rw [file] at kind
      rcases kind with none | folder
      · cases none
      · cases folder
  obtain ⟨reads, others⟩ := kept stored
  obtain ⟨⟨w', download⟩, -⟩ := reads 0 Nat.one_pos "/a/x/../b/c/" (by decide +kernel)
  have old : m.tree[Path.parse "/repo/a/old"]? = some (.file [9]) := by decide +kernel
  refine ⟨w, w', stored ▸ run, download, ?_⟩
  rcases others (Path.parse "/repo/a/old") (by decide +kernel) with same | ⟨missing, -, -⟩
  · exact same.trans old
  · rw [old] at missing
    cases missing

end Storage

end ChunkStore
