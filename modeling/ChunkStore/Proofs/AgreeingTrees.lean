import ChunkStore.Proofs.Confinement
import ChunkStore.Proofs.RefusedCalls
import Mathlib.Data.List.Sort

/-!
# Trees that agree below a root

What a storage can tell of a tree are the nodes within its root, and the files above the root,
which stand in its way. Whether a folder above the root is there or missing it cannot tell, as
it is made where it is needed. Of trees that agree in this all changes within the root give the
same results, and the trees agree again; and a change within a root that lies apart keeps what
they agree in.
-/

namespace ChunkStore.Tree

open ChunkStore.Path

variable {root other p q source target : Path} {t t' u u' : Tree} {content : Bytes}

/-- The trees have the same nodes within `root`, and the same files above it. -/
structure Agree (root : Path) (t t' : Tree) : Prop where
  within : ∀ q : Path, root.segments <+: q.segments → t[q]? = t'[q]?
  blocks : ∀ q ∈ root.ancestors, ∀ c, t[q]? = some (.file c) ↔ t'[q]? = some (.file c)

theorem Agree.refl (root : Path) (t : Tree) : Agree root t t :=
  ⟨fun _ _ => rfl, fun _ _ _ => Iff.rfl⟩

theorem outside_of_not_within (h : ¬root.segments <+: q.segments) : q.isWithin root = false := by
  rwa [← Bool.not_eq_true, isWithin_iff]

theorem not_within_of_mem_ancestors (above : q ∈ root.ancestors) :
    ¬root.segments <+: q.segments := by
  intro below
  have := below.length_le
  have := (mem_ancestors.1 above).2
  omega

/-- A confined change neither makes nor takes a file outside its root. -/
theorem Confined.file_iff (h : t.Confined root u) (outside : ¬root.segments <+: q.segments) :
    u[q]? = some (.file content) ↔ t[q]? = some (.file content) := by
  rcases h q (outside_of_not_within outside) with same | ⟨missing, -, folder⟩
  · rw [same]
  · simp [missing, folder]

/-- Changes that are confined to `root` and lead to the same nodes within it keep trees in
agreement. -/
theorem Agree.of_confined (A : Agree root t t') (h : t.Confined root u)
    (h' : t'.Confined root u')
    (within : ∀ q : Path, root.segments <+: q.segments → u[q]? = u'[q]?) : Agree root u u' where
  within := within
  blocks q above c := by
    have outside := not_within_of_mem_ancestors above
    rw [h.file_iff outside, h'.file_iff outside]
    exact A.blocks q above c

/-- A change that is confined to a root apart from `root` keeps trees in agreement. -/
theorem Agree.of_apart (A : Agree root t t') (apart : Apart other root)
    (h : t.Confined other u) : Agree root u t' where
  within q below := by
    have outside : ¬other.segments <+: q.segments := fun inside => apart.not_within inside below
    rw [← A.within q below]
    rcases h q (outside_of_not_within outside) with same | ⟨-, above, -⟩
    · exact same
    · exact absurd (below.trans (mem_ancestors.1 above).1) apart.2
  blocks q above c := by
    have outside : ¬other.segments <+: q.segments := fun inside =>
      apart.1 (inside.trans (mem_ancestors.1 above).1)
    rw [h.file_iff outside]
    exact A.blocks q above c

section Within

variable (A : Agree root t t') (hp : root.segments <+: p.segments)
include A hp

theorem Agree.info : t.info p = t'.info p := by
  rw [Tree.info, Tree.info, A.within p hp]

theorem Agree.fetch : t.fetch p = t'.fetch p := by
  rw [Tree.fetch, Tree.fetch, Std.ExtTreeMap.get?_eq_getElem?, Std.ExtTreeMap.get?_eq_getElem?,
    A.within p hp]

theorem Agree.contains : t.contains p = t'.contains p := by
  rw [Bool.eq_iff_iff, contains_iff, contains_iff, A.within p hp]

/-- Folders that agree have the same children, which are listed in the one order there is. -/
theorem Agree.children : t.children p = t'.children p := by
  have irrefl : Std.Irrefl fun a b : Remote.Metadata => compare a.name b.name = .lt :=
    ⟨fun a => by simp⟩
  have antisymm : Std.Antisymm fun a b : Remote.Metadata => compare a.name b.name = .lt :=
    ⟨fun a b before after => by
      have swap : compare a.name b.name = (compare b.name a.name).swap :=
        Std.OrientedCmp.eq_swap
      rw [before, after] at swap
      cases swap⟩
  apply List.Pairwise.eq_of_mem_iff (t.children_ordered p) (t'.children_ordered p)
  intro e
  rw [mem_children, mem_children]
  have same (name : String) : t[p.child name]? = t'[p.child name]? :=
    A.within _ (hp.trans (List.prefix_append _ _))
  simp only [same]

theorem Agree.file_above_iff (above : q ∈ p.ancestors) (c : Bytes) :
    t[q]? = some (.file c) ↔ t'[q]? = some (.file c) := by
  by_cases inside : root.segments <+: q.segments
  · rw [A.within q inside]
  · exact A.blocks q (mem_ancestors_of_outside hp above (outside_of_not_within inside)) c

/-- The folders above a path come to exist in both trees, or are refused for the same file. -/
theorem Agree.ensureParents (h : t.Closed) (h' : t'.Closed) :
    (t.ensureParents p).1 = (t'.ensureParents p).1 := by
  by_cases free : t.Unblocked p
  · have free' : t'.Unblocked p := by
      intro q above c file
      exact free q above c ((A.file_above_iff hp above c).2 file)
    obtain ⟨u, made, -⟩ := ensureFolders_ok free
    obtain ⟨u', made', -⟩ := ensureFolders_ok free'
    rw [Tree.ensureParents, made, Tree.ensureParents, made']
  · obtain ⟨q, above, c, file⟩ := not_unblocked_iff.1 free
    rw [h.ensureParents_file above file,
      h'.ensureParents_file above ((A.file_above_iff hp above c).1 file)]

end Within

/-- A change that two trees answer alike, confined to `root` and whole or not made at all,
keeps them in agreement if it leads to the same nodes within `root`. -/
theorem Agree.change (A : Agree root t t') (change : Tree → Except Failure Unit × Tree)
    (same : (change t).1 = (change t').1) (atomic : t.Atomic change) (atomic' : t'.Atomic change)
    (confined : t.Confined root (change t).2) (confined' : t'.Confined root (change t').2)
    (done : (change t).1 = .ok () → (change t').1 = .ok () →
      ∀ q : Path, root.segments <+: q.segments → (change t).2[q]? = (change t').2[q]?) :
    (change t).1 = (change t').1 ∧ Agree root (change t).2 (change t').2 := by
  refine ⟨same, A.of_confined confined confined' ?_⟩
  intro q below
  cases result : (change t).1 with
  | ok _ => exact done result (same ▸ result) q below
  | error e =>
    rw [atomic e result, atomic' e (same ▸ result)]
    exact A.within q below

/-- Whatever is done once the folders above a path are there, the result is known from them. -/
theorem fst_ensured (t : Tree) (p : Path) (finish : Tree → Tree) :
    (match t.ensureParents p with
      | (.ok (), t) => ((.ok (), finish t) : Except Failure Unit × Tree)
      | refused => refused).1 = (t.ensureParents p).1 := by
  split
  · rename_i made
    rw [made]
  · rfl

theorem createFolder_fst (t : Tree) (p : Path) :
    (t.createFolder p).1 =
      if t.contains p then .error (.conflict p.toString) else (t.ensureParents p).1 := by
  unfold createFolder
  split
  · rfl
  · exact fst_ensured t p (·.insert p .folder)

theorem Closed.getElem?_createFolder (h : t.Closed) (ok : (t.createFolder p).1 = .ok ())
    (q : Path) : (t.createFolder p).2[q]? =
      if q = p then some .folder else if q ∈ p.ancestors then some .folder else t[q]? := by
  rcases h.createFolder_cases p with ⟨-, -, u, created, hg⟩ | ⟨-, subject, refused⟩
  · rw [created]
    exact hg q
  · rw [refused] at ok
    cases ok

theorem Agree.createFolder (A : Agree root t t') (h : t.Closed) (h' : t'.Closed)
    (hp : root.segments <+: p.segments) :
    (t.createFolder p).1 = (t'.createFolder p).1 ∧
      Agree root (t.createFolder p).2 (t'.createFolder p).2 := by
  apply A.change (·.createFolder p) _ (h.atomic_createFolder p)
    (h'.atomic_createFolder p) (h.confined_createFolder hp) (h'.confined_createFolder hp)
  · intro ok ok' q below
    rw [h.getElem?_createFolder ok, h'.getElem?_createFolder ok', A.within q below]
  · rw [createFolder_fst, createFolder_fst, A.contains hp, A.ensureParents hp h h']

theorem store_fst (t : Tree) (p : Path) (content : Bytes) :
    (t.store p content).1 =
      if (t[p]?).any Node.isFolder then .error (.conflict p.toString)
      else (t.ensureParents p).1 := by
  unfold store
  rw [Std.ExtTreeMap.get?_eq_getElem?]
  split
  · rfl
  · exact fst_ensured t p (·.insert p (.file content))

theorem Closed.getElem?_store (h : t.Closed) (ok : (t.store p content).1 = .ok ()) (q : Path) :
    (t.store p content).2[q]? =
      if q = p then some (.file content) else if q ∈ p.ancestors then some .folder else t[q]? := by
  rcases h.store_cases p content with ⟨-, -, u, stored, hg⟩ | ⟨-, subject, refused⟩
  · rw [stored]
    exact hg q
  · rw [refused] at ok
    cases ok

theorem Agree.store (A : Agree root t t') (h : t.Closed) (h' : t'.Closed)
    (hp : root.segments <+: p.segments) (content : Bytes) :
    (t.store p content).1 = (t'.store p content).1 ∧
      Agree root (t.store p content).2 (t'.store p content).2 := by
  apply A.change (·.store p content) _ (h.atomic_store p content)
    (h'.atomic_store p content) (h.confined_store hp content) (h'.confined_store hp content)
  · intro ok ok' q below
    rw [h.getElem?_store ok, h'.getElem?_store ok', A.within q below]
  · rw [store_fst, store_fst, A.within p hp, A.ensureParents hp h h']

theorem delete_fst (t : Tree) (p : Path) :
    (t.delete p).1 =
      if p = Path.root then
        .error (.providerApi "memory" "path_lookup/malformed_path: cannot delete root")
      else if t.contains p then .ok () else .error (.notFound p.toString) := by
  unfold delete
  split
  · rfl
  · split <;> rfl

theorem getElem?_delete (ok : (t.delete p).1 = .ok ()) (q : Path) :
    (t.delete p).2[q]? = if q.isWithin p then none else t[q]? := by
  rcases t.delete_cases p with ⟨-, -, u, deleted, hg⟩ | ⟨-, -, refused⟩ | ⟨-, detail, refused⟩
  · rw [deleted]
    exact hg q
  all_goals
    rw [refused] at ok
    cases ok

theorem Agree.delete (A : Agree root t t') (hp : root.segments <+: p.segments) :
    (t.delete p).1 = (t'.delete p).1 ∧ Agree root (t.delete p).2 (t'.delete p).2 := by
  apply A.change (·.delete p) _ (t.atomic_delete p) (t'.atomic_delete p)
    (t.confined_delete hp) (t'.confined_delete hp)
  · intro ok ok' q below
    rw [getElem?_delete ok, getElem?_delete ok', A.within q below]
  · rw [delete_fst, delete_fst, A.contains hp]

theorem move_fst (t : Tree) (source target : Path) :
    (t.move source target).1 =
      if !t.contains source then .error (.notFound source.toString)
      else if t.contains target then .error (.conflict target.toString)
      else if source = Path.root ∨ target.isWithin source then
        .error (.providerApi "memory" ("to/cant_move_folder_into_itself: " ++ source.toString ++
          " -> " ++ target.toString))
      else (t.ensureParents target).1 := by
  unfold move
  split
  · rfl
  split
  · rfl
  split
  · rfl
  · exact fst_ensured t target fun t =>
      rekey source target (t.keys.filter (·.isWithin source)) t

theorem Closed.grafted_move (h : t.Closed) (ok : (t.move source target).1 = .ok ()) :
    Grafted source target t (t.move source target).2 := by
  rcases h.move_cases source target with ⟨-, -, -, -, -, u, moved, grafted⟩ | ⟨-, refused⟩ |
    ⟨-, -, refused⟩ | ⟨-, -, -, detail, refused⟩ | ⟨-, -, -, subject, refused⟩
  · rw [moved]
    exact grafted
  all_goals
    rw [refused] at ok
    cases ok

theorem Agree.move (A : Agree root t t') (h : t.Closed) (h' : t'.Closed)
    (hs : root.segments <+: source.segments) (ht : root.segments <+: target.segments) :
    (t.move source target).1 = (t'.move source target).1 ∧
      Agree root (t.move source target).2 (t'.move source target).2 := by
  apply A.change (·.move source target) _ (h.atomic_move source target)
    (h'.atomic_move source target) (h.confined_move hs ht) (h'.confined_move hs ht)
  · intro ok ok' q below
    -- What is found at the new place was at the old one, which is within the root too.
    have origin : t[relocate target source q]? = t'[relocate target source q]? :=
      A.within _ (hs.trans (relocate_within target source q))
    rw [h.grafted_move ok q, h'.grafted_move ok' q, origin, A.within q below]
  · rw [move_fst, move_fst, A.contains hs, A.contains ht, A.ensureParents ht h h']

end ChunkStore.Tree
