import ChunkStore.Proofs.NodeTexts
import ChunkStore.Proofs.MemoryAnswers

/-!
# Subtrees that were moved

A move that is not refused gives every node of a subtree a new key, the old one with the text
of the target in place of that of the source, and no node but these. The keys do not collide:
nothing was at or below the target before, and source and target lie apart. So a move can be
taken back, which leaves of it only the folders that it made above the target.
-/

namespace ChunkStore

namespace Tree

open ChunkStore.Path

variable {t t' : Tree} {p q source target : Path}

/-- Where a move takes the node at `p`. -/
def newPath (source target p : Path) : Path :=
  if p.isWithin source then relocate source target p else p

theorem newPath_within (h : source.segments <+: p.segments) :
    newPath source target p = relocate source target p := if_pos (isWithin_iff.2 h)

theorem newPath_outside (h : ¬source.segments <+: p.segments) :
    newPath source target p = p := if_neg fun within => h (isWithin_iff.1 within)

/-- A move that was not refused: what it found, and what it left. -/
structure Moved (source target : Path) (t t' : Tree) : Prop where
  closed : t.Closed
  canonical : target.Canonical
  present : t[source]? ≠ none
  vacant : t[target]? = none
  below : source ≠ Path.root
  apart : Apart source target
  free : t.Unblocked target
  grafted : Grafted source target t t'

theorem Closed.moved_of_ok (h : t.Closed) (ht : target.Canonical)
    (ok : (t.move source target).1 = .ok ()) :
    Moved source target t (t.move source target).2 := by
  rcases h.move_cases source target with ⟨present, vacant, below, inside, free, t', he, G⟩ |
    ⟨-, he⟩ | ⟨-, -, he⟩ | ⟨-, -, -, detail, he⟩ | ⟨-, -, -, subject, he⟩
  · rw [he]
    exact ⟨h, ht, present, vacant, below, h.apart_of_move present vacant inside, free, G⟩
  all_goals
    rw [he] at ok
    cases ok

namespace Moved

variable (M : Moved source target t t')
include M

theorem target_ne_root : target ≠ Path.root := by
  rintro rfl
  have top := M.closed.root
  rw [M.vacant] at top
  cases top

theorem closed_after : t'.Closed :=
  M.closed.graft M.canonical M.below M.vacant M.apart M.grafted

theorem canonical_source : source.Canonical := M.closed.canonical source M.present

theorem none_within (h : target.segments <+: q.segments) : t[q]? = none :=
  M.closed.none_below M.vacant h

theorem folder_of_above (h : q ∈ target.ancestors) : t[q]? = none ∨ t[q]? = some .folder := by
  cases node : t[q]? with
  | none => exact .inl rfl
  | some kind =>
    cases kind with
    | folder => exact .inr rfl
    | file content => exact absurd node (M.free q h content)

theorem kept (hp : t[p]? ≠ none) (outside : ¬source.segments <+: p.segments) :
    t'[p]? = t[p]? := by
  rw [M.grafted.outside (fun below => hp (M.none_within below)) outside]
  split
  · rename_i above
    exact ((M.folder_of_above above).resolve_left hp).symm
  · rfl

theorem getElem?_newPath (hp : t[p]? ≠ none) : t'[newPath source target p]? = t[p]? := by
  by_cases within : source.segments <+: p.segments
  · rw [newPath_within within, M.grafted.within (relocate_within source target p),
      relocate_back within]
  · rw [newPath_outside within, M.kept hp within]

theorem newPath_injective (hp : t[p]? ≠ none) (hq : t[q]? ≠ none)
    (same : newPath source target p = newPath source target q) : p = q := by
  -- A node that is moved comes to lie below the target, where no node was that stays.
  have meet {r s : Path} (within : source.segments <+: r.segments) (hs : t[s]? ≠ none)
      (outside : ¬source.segments <+: s.segments)
      (same : newPath source target r = newPath source target s) : False := by
    rw [newPath_within within, newPath_outside outside] at same
    exact hs (M.none_within (same ▸ relocate_within source target r))
  by_cases hsp : source.segments <+: p.segments <;> by_cases hsq : source.segments <+: q.segments
  · rw [newPath_within hsp, newPath_within hsq] at same
    rw [← relocate_back hsp, same, relocate_back hsq]
  · exact (meet hsp hq hsq same).elim
  · exact (meet hsq hp hsp same.symm).elim
  · rwa [newPath_outside hsp, newPath_outside hsq] at same

theorem file_iff (q : Path) (content : Bytes) :
    t'[q]? = some (.file content) ↔
      ∃ p, t[p]? = some (.file content) ∧ newPath source target p = q := by
  constructor
  · intro file
    by_cases ht : target.segments <+: q.segments
    · rw [M.grafted.within ht] at file
      refine ⟨_, file, ?_⟩
      rw [newPath_within (relocate_within target source q), relocate_back ht]
    by_cases hs : source.segments <+: q.segments
    · rw [M.grafted.vacated M.apart hs] at file
      cases file
    rw [M.grafted.outside ht hs] at file
    split at file
    · cases file
    · exact ⟨q, file, newPath_outside hs⟩
  · rintro ⟨p, file, rfl⟩
    rw [M.getElem?_newPath (by simp [file]), file]

theorem grafted_back {t'' : Tree} (G : Grafted target source t' t'') (q : Path) :
    t''[q]? = if q ∈ target.ancestors then some .folder else t[q]? := by
  have apart : Apart target source := ⟨M.apart.2, M.apart.1⟩
  by_cases hs : source.segments <+: q.segments
  · have high : q ∉ target.ancestors := fun above =>
      M.apart.1 (hs.trans (mem_ancestors.1 above).1)
    rw [G.within hs, M.grafted.within (relocate_within source target q), relocate_back hs,
      if_neg high]
  by_cases ht : target.segments <+: q.segments
  · have low : q ∉ target.ancestors := fun above =>
      Nat.lt_irrefl _ (Nat.lt_of_le_of_lt ht.length_le (mem_ancestors.1 above).2)
    rw [G.vacated apart ht, if_neg low, M.none_within ht]
  rw [G.outside hs ht, M.grafted.outside ht hs]
  split
  · -- What is above the source was a folder from the first.
    rename_i above
    rw [M.closed.above source M.present q above]
    split <;> rfl
  · rfl

theorem canonical_newPath (hp : t[p]? ≠ none) : (newPath source target p).Canonical :=
  M.closed_after.canonical _ (by rwa [M.getElem?_newPath hp])

/-- A move is not refused on the way back, and leaves the folders that it made. -/
theorem move_back : ∃ t'', t'.move target source = (.ok (), t'') ∧
    ∀ q : Path, t''[q]? = if q ∈ target.ancestors then some .folder else t[q]? := by
  have closed : t'.Closed := M.closed_after
  have present : t'[target]? ≠ none := by
    rw [M.grafted.within (List.prefix_refl _), relocate_self]
    exact M.present
  have vacant : t'[source]? = none := M.grafted.vacated M.apart (List.prefix_refl _)
  rcases closed.move_cases target source with ⟨-, -, -, -, -, t'', he, G⟩ | ⟨none, -⟩ |
    ⟨-, taken, -⟩ | ⟨-, -, inside, -⟩ | ⟨-, -, blocked, -⟩
  · exact ⟨t'', he, M.grafted_back G⟩
  · exact absurd none present
  · exact absurd vacant taken
  · rcases inside with top | inside
    · exact absurd top M.target_ne_root
    · exact absurd (isWithin_iff.1 inside) M.apart.2
  · obtain ⟨q, above, content, file⟩ := not_unblocked_iff.1 blocked
    have folder : t[q]? = some .folder := M.closed.above source M.present q above
    have outside : ¬source.segments <+: q.segments := fun within =>
      Nat.lt_irrefl _ (Nat.lt_of_le_of_lt within.length_le (mem_ancestors.1 above).2)
    rw [M.kept (by simp [folder]) outside, folder] at file
    cases file

end Moved

/-- The key of a node after a move: the text of the source gives way to that of the target. -/
def newKey (source target key : String) : String :=
  if Under source key then target ++ String.ofList (key.toList.drop source.toList.length) else key

theorem newKey_toString (hs : source.Canonical) (hp : p.Canonical) (below : source ≠ Path.root)
    (below' : target ≠ Path.root) :
    newKey source.toString target.toString p.toString =
      (newPath source target p).toString := by
  by_cases within : source.segments <+: p.segments
  · rw [newKey, if_pos ((under_iff hs hp).2 within), newPath_within within]
    obtain ⟨rest, split⟩ := within
    obtain rfl : source.resolve ⟨rest⟩ = p := congrArg Path.mk split
    have placed : relocate source target (source.resolve ⟨rest⟩) = target.resolve ⟨rest⟩ := by
      simp [relocate, resolve]
    rw [placed, toString_resolve below, toString_resolve below', String.toList_append,
      List.drop_left, String.ofList_toList]
  · rw [newKey, if_neg fun under => within ((under_iff hs hp).1 under), newPath_outside within]

/-- What a move does to the nodes by their keys. All that was at or below the source is at the
same place below the target, where nothing was; the folders above the target are there, and no
other node has changed. No two nodes get one key, and the files are those from before. -/
structure Rekeyed (source target : String) (t t' : Tree) : Prop where
  moved : ∀ s, Continues s → t'.node? (target ++ s) = t.node? (source ++ s)
  vacated : ∀ s, Continues s → t'.node? (source ++ s) = none
  vacant : ∀ s, Continues s → t.node? (target ++ s) = none
  parents : ∀ key, Above target key → t'.node? key = some .folder ∧
    (t.node? key = none ∨ t.node? key = some .folder)
  kept : ∀ key, ¬Under source key → ¬Under target key → ¬Above target key →
    t'.node? key = t.node? key
  distinct : ∀ key key', t.node? key ≠ none → t.node? key' ≠ none →
    newKey source target key = newKey source target key' → key = key'
  files : ∀ key content, t'.node? key = some (.file content) ↔
    ∃ old, t.node? old = some (.file content) ∧ newKey source target old = key

theorem Moved.newKey_eq (M : Moved source target t t') (hp : p.Canonical) :
    newKey source.toString target.toString p.toString = (newPath source target p).toString :=
  newKey_toString M.canonical_source hp M.below M.target_ne_root

theorem Moved.rekeyed (M : Moved source target t t') :
    Rekeyed source.toString target.toString t t' where
  moved s continued := by
    apply node?_append_congr M.canonical_source M.below M.canonical M.target_ne_root continued
    intro q
    have back : relocate target source (target.resolve q) = source.resolve q := by
      simp [relocate, resolve]
    rw [M.grafted.within (prefix_resolve target q), back]
  vacated s continued := by
    apply node?_append_none M.canonical_source M.below continued
    intro q
    exact M.grafted.vacated M.apart (prefix_resolve source q)
  vacant s continued := by
    apply node?_append_none M.canonical M.target_ne_root continued
    intro q
    exact M.none_within (prefix_resolve target q)
  parents key above := by
    obtain ⟨q, hq, rfl⟩ := of_normal above.1
    have high := (above_iff M.canonical hq).1 above
    rw [node?_toString t hq, node?_toString t' hq]
    exact ⟨M.grafted.upward M.apart high, M.folder_of_above high⟩
  kept key outside beside low := by
    by_cases normal : normalize key = key
    · obtain ⟨q, hq, rfl⟩ := of_normal normal
      rw [under_iff M.canonical_source hq] at outside
      rw [under_iff M.canonical hq] at beside
      rw [above_iff M.canonical hq] at low
      rw [node?_toString t hq, node?_toString t' hq, M.grafted.outside beside outside, if_neg low]
    · -- A text that is no normal form is a key in neither tree.
      rw [node?_strange normal, node?_strange normal]
  distinct key key' here here' same := by
    obtain ⟨p, hp, rfl⟩ := exists_of_node? here
    obtain ⟨q, hq, rfl⟩ := exists_of_node? here'
    rw [node?_toString t hp] at here
    rw [node?_toString t hq] at here'
    rw [M.newKey_eq hp, M.newKey_eq hq] at same
    have paths := toString_injective (M.canonical_newPath here) (M.canonical_newPath here') same
    rw [M.newPath_injective here here' paths]
  files key content := by
    constructor
    · intro file
      have gained : t'.node? key ≠ none := by simp [file]
      obtain ⟨q, hq, rfl⟩ := exists_of_node? gained
      rw [node?_toString t' hq] at file
      obtain ⟨p, old, rfl⟩ := (M.file_iff q content).1 file
      have hp : p.Canonical := M.closed.canonical p (by simp [old])
      exact ⟨p.toString, by rw [node?_toString t hp, old], M.newKey_eq hp⟩
    · rintro ⟨old, file, rfl⟩
      have held : t.node? old ≠ none := by simp [file]
      obtain ⟨p, hp, rfl⟩ := exists_of_node? held
      rw [node?_toString t hp] at file
      have here : t[p]? ≠ none := by simp [file]
      rw [M.newKey_eq hp, node?_toString t' (M.canonical_newPath here), M.getElem?_newPath here,
        file]

end Tree

namespace Memory

open ChunkStore.Path

variable {m : Memory} {source target : String}

theorem moveEntry_online (online : m.offline = false) (source target : String) :
    (m.moveEntry source target).1 = (m.tree.move (.parse source) (.parse target)).1 ∧
      (m.moveEntry source target).2.tree = (m.tree.move (.parse source) (.parse target)).2 ∧
      (m.moveEntry source target).2.offline = false := by
  rw [moveEntry, World.receive_online online]
  exact ⟨rfl, rfl, online⟩

/-- A move that succeeds gives the nodes at and below its source their new keys, and changes
nothing else but that the folders above its target come to exist. The move back then succeeds
as well, and leaves the tree as it was, up to these folders. -/
theorem moveEntry_rekeys (hm : m.Reachable) (ok : (m.moveEntry source target).1 = .ok ()) :
    let m' := (m.moveEntry source target).2
    Tree.Rekeyed (normalize source) (normalize target) m.tree m'.tree ∧
      (m'.moveEntry target source).1 = .ok () ∧
      ∀ key, (m'.moveEntry target source).2.tree.node? key =
        if Above (normalize target) key then some .folder else m.tree.node? key := by
  intro m'
  have reached : m.offline = false := online_of_receive ok
  obtain ⟨result, tree, online⟩ := moveEntry_online reached source target
  have M := hm.sound.closed.moved_of_ok (canonical_parse target) (result.symm.trans ok)
  rw [← tree] at M
  refine ⟨M.rekeyed, ?_⟩
  obtain ⟨t'', back, restored⟩ := M.move_back
  obtain ⟨result', tree', -⟩ := moveEntry_online online target source
  rw [back] at result' tree'
  refine ⟨result', fun key => ?_⟩
  rw [tree']
  by_cases normal : normalize key = key
  · obtain ⟨q, hq, rfl⟩ := of_normal normal
    rw [Tree.node?_toString t'' hq, Tree.node?_toString m.tree hq, restored]
    simp only [normalize, above_iff (canonical_parse target) hq]
  · rw [Tree.node?_strange normal, Tree.node?_strange normal, if_neg fun above => normal above.1]

/-- A folder is moved and a file whose name continues that of the folder stays. -/
theorem moveEntry_rekeys_beside_namesake :
    let m := ((({} : Memory).putFile "/a/x" [1]).2.putFile "/ab" [2]).2
    let m' := (m.moveEntry "a/" "/b//c").2
    (m.moveEntry "a/" "/b//c").1 = .ok () ∧
      m'.tree.node? "/b/c/x" = some (.file [1]) ∧ m'.tree.node? "/a/x" = none ∧
      m'.tree.node? "/ab" = some (.file [2]) ∧ m'.tree.node? "/b" = some .folder ∧
      (m'.moveEntry "/b//c" "a/").1 = .ok () ∧
      (m'.moveEntry "/b//c" "a/").2.tree.node? "/a/x" = some (.file [1]) := by
  intro m m'
  have ok : (m.moveEntry "a/" "/b//c").1 = .ok () := by decide +kernel
  have source : normalize "a/" = "/a" := by decide +kernel
  have target : normalize "/b//c" = "/b/c" := by decide +kernel
  obtain ⟨rekeyed, back, restored⟩ :=
    moveEntry_rekeys (.putFile "/ab" [2] (.putFile "/a/x" [1] .fresh)) ok
  rw [source, target] at rekeyed
  have inside : m.tree.node? "/a/x" = some (.file [1]) := by decide +kernel
  have beside : m.tree.node? "/ab" = some (.file [2]) := by decide +kernel
  have below : Continues "/x" := by decide +kernel
  refine ⟨ok, (rekeyed.moved "/x" below).trans inside, rekeyed.vacated "/x" below,
    (rekeyed.kept "/ab" ?_ ?_ ?_).trans beside, (rekeyed.parents "/b" ?_).1, back, ?_⟩
  · decide +kernel
  · decide +kernel
  · decide +kernel
  · decide +kernel
  · rw [restored, target, if_neg (by decide +kernel)]
    exact inside

end Memory

end ChunkStore
