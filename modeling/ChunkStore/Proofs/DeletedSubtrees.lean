import ChunkStore.Proofs.ChunkSearch
import ChunkStore.Proofs.NodeTexts
import ChunkStore.Proofs.ServiceHistory

/-!
# Subtrees that were deleted

To delete is to make sure that nothing is at or below a path. That is so already where nothing
was, and then there is nothing to report: a path that is missing, or lies below a file, is
deleted as well as any other. A storage can be asked again without harm.
-/

namespace ChunkStore

namespace Tree

open ChunkStore.Path

variable {t : Tree} {p : Path}

/-- What is left once `p` was deleted, whether or not it was there. -/
theorem Closed.getElem?_delete (h : t.Closed) (below : p ≠ Path.root) (q : Path) :
    (t.delete p).2[q]? = if q.isWithin p then none else t[q]? := by
  rcases delete_cases t p with ⟨-, -, t', he, hg⟩ | ⟨-, absent, he⟩ | ⟨top, -⟩
  · rw [he, hg]
  · rw [he]
    split
    · rename_i within
      exact h.none_below absent (isWithin_iff.1 within)
    · rfl
  · exact absurd top below

theorem Closed.node?_delete (h : t.Closed) (hp : p.Canonical) (below : p ≠ Path.root)
    (key : String) :
    (t.delete p).2.node? key = if Under p.toString key then none else t.node? key := by
  by_cases normal : normalize key = key
  · obtain ⟨q, hq, rfl⟩ := of_normal normal
    rw [node?_toString _ hq, node?_toString t hq, h.getElem?_delete below]
    simp only [under_iff hp hq, isWithin_iff]
  · rw [node?_strange normal, node?_strange normal, ite_self]

theorem delete_absent (below : p ≠ Path.root) (absent : t[p]? = none) : (t.delete p).2 = t := by
  rcases delete_cases t p with ⟨-, present, -⟩ | ⟨-, -, he⟩ | ⟨top, -⟩
  · exact absurd absent present
  · rw [he]
  · exact absurd top below

theorem deleteAnswer_delete (t : Tree) (below : p ≠ Path.root) :
    Storage.deleteAnswer (t.delete p).1 = .ok () := by
  rcases delete_cases t p with ⟨-, -, t', he, -⟩ | ⟨-, -, he⟩ | ⟨top, -⟩
  · rw [he]
    rfl
  · rw [he]
    rfl
  · exact absurd top below

end Tree

namespace Storage

open Memory (World)
open ChunkStore.Path

variable {s : Storage} {thread : Nat}

/-- To delete a path, whatever is there, succeeds and leaves nothing at or below it, and all
else as it was. To delete it again succeeds too and changes nothing. -/
theorem delete_clears {m : Memory} (hm : m.Reachable) (online : m.offline = false) (now : Millis)
    (hr : s.root.Canonical) (h : thread < s.clients.size) {path : String}
    (below : s.remotePath path ≠ "/") :
    ∃ w, (World.mk m now).run (s.delete thread path) = (some (.ok ()), w) ∧
      (∀ key, w.remote.tree.node? key =
        if Under (s.remotePath path) key then none else m.tree.node? key) ∧
      ∀ again < s.clients.size, ∃ w',
        w.run (s.delete again path) = (some (.ok ()), w') ∧ w.Became w.remote.tree w' := by
  have closed : m.tree.Closed := hm.sound.closed
  have canonical : (s.target path).Canonical := canonical_target hr path
  have inner : s.target path ≠ Path.root :=
    fun top => below ((toString_eq_slash canonical).2 top)
  obtain ⟨w, run, became⟩ := run_delete (w := World.mk m now) h hr online path
  rw [Tree.deleteAnswer_delete _ inner] at run
  refine ⟨w, run, fun key => ?_, fun again client => ?_⟩
  · rw [became.tree, remotePath_eq]
    exact closed.node?_delete canonical inner key
  · obtain ⟨w', run', became'⟩ := run_delete client hr (became.offline.trans online) path
    have cleared : w.remote.tree[s.target path]? = none := by
      rw [became.tree, closed.getElem?_delete inner, if_pos (isWithin_iff.2 (List.prefix_refl _))]
    rw [Tree.deleteAnswer_delete _ inner] at run'
    rw [Tree.delete_absent inner cleared] at became'
    exact ⟨w', run', became'⟩

/-- A folder goes with its files, and a file whose name continues that of the folder stays. -/
theorem delete_clears_beside_namesake :
    let s := plain (.parse "/repo") 0
    let m := Memory.after [.putFile "/repo/a/x" [1], .putFile "/repo/ab" [2]]
    s.remotePath "a/" ≠ "/" ∧
      ∃ w, (World.mk m 0).run (s.delete 0 "a/") = (some (.ok ()), w) ∧
        w.remote.tree.node? "/repo/a/x" = none ∧
        w.remote.tree.node? "/repo/ab" = some (.file [2]) := by
  intro s m
  have reachable : m.Reachable := Memory.reachable_after _
  have path : s.remotePath "a/" = "/repo/a" := by decide +kernel
  have below : s.remotePath "a/" ≠ "/" := by
    rw [path]
    decide
  obtain ⟨w, run, left, -⟩ := delete_clears (s := s) reachable rfl 0
    (Path.canonical_parse "/repo") Nat.one_pos below
  have beside : m.tree.node? "/repo/ab" = some (.file [2]) := by decide +kernel
  refine ⟨below, w, run, ?_, ?_⟩
  · rw [left, path, if_pos (by decide +kernel)]
  · rw [left, path, if_neg (by decide +kernel), beside]

/-- A path below a file is deleted although nothing can be there. -/
example :
    ((World.mk (Memory.after [.putFile "/repo/a" [1]]) 0).run
      ((plain (.parse "/repo") 0).delete 0 "a/b/c")).1 = some (.ok ()) := by
  decide +kernel

end Storage

end ChunkStore
