import ChunkStore.Proofs.ByteOrder
import ChunkStore.Proofs.TreeClosure
import ChunkStore.Walk

/-!
# The children of a folder

A listing has one entry for each child of a folder, in the order of their names. Names hold
no separator, so the mark that a listing puts behind the name of a folder can always be told
from the name.
-/

namespace ChunkStore

namespace Path

variable {p q : Path}

/-- The path of a child. -/
def child (p : Path) (name : String) : Path := ⟨p.segments ++ [name]⟩

@[simp] theorem child_segments (p : Path) (name : String) :
    (p.child name).segments = p.segments ++ [name] := rfl

@[simp] theorem name?_child (p : Path) (name : String) : (p.child name).name? = some name := by
  simp [name?]

theorem parent?_eq_some_iff : q.parent? = some p ↔ ∃ name, q = p.child name := by
  cases q with
  | mk segments =>
    cases p with
    | mk above =>
      simp only [parent?, Path.child, Path.mk.injEq]
      rcases List.eq_nil_or_concat segments with rfl | ⟨front, last, rfl⟩
      · simp
      · simp [List.append_singleton_inj]

theorem resolve_child (p q : Path) (name : String) :
    p.resolve (q.child name) = (p.resolve q).child name := by
  simp [resolve, child]

/-- Children come in the order of their names. -/
theorem compare_child (p : Path) (name other : String) :
    compare (p.child name) (p.child other) = compare name other := by
  rw [compare_def, child_segments, child_segments, compare_append, List.compare_cons_cons,
    List.compare_nil_nil, Ordering.then_eq]

end Path

namespace ListEntry

variable {name : String}

theorem dropEndWhile_slash {cs : List Char} (h : '/' ∉ cs) :
    Text.dropEndWhile (· == '/') cs = cs := by
  have kept : cs.reverse.dropWhile (· == '/') = cs.reverse := by
    cases hr : cs.reverse with
    | nil => rfl
    | cons c rest =>
      have hc : c ∈ cs := by
        rw [← List.mem_reverse, hr]
        simp
      rw [List.dropWhile_cons_of_neg]
      simp only [beq_iff_eq]
      rintro rfl
      exact h hc
  rw [Text.dropEndWhile, kept, List.reverse_reverse]

theorem baseName_file (h : Path.IsName name) (size : Nat) : (file name size).baseName = name := by
  rw [baseName, file, dropEndWhile_slash h.2.2.2, String.ofList_toList]

theorem baseName_directory (h : Path.IsName name) : (directory name).baseName = name := by
  have cut : Text.dropEndWhile (· == '/') (name.toList ++ ['/']) =
      Text.dropEndWhile (· == '/') name.toList := by
    simp [Text.dropEndWhile]
  rw [baseName, directory, String.toList_append, show "/".toList = ['/'] from rfl, cut,
    dropEndWhile_slash h.2.2.2, String.ofList_toList]

theorem isDirectory_directory (name : String) : (directory name).isDirectory = true := by
  simp [isDirectory, directory]

theorem isDirectory_file (h : Path.IsName name) (size : Nat) :
    (file name size).isDirectory = false := by
  rw [isDirectory, file, beq_eq_false_iff_ne]
  exact fun last => h.2.2.2 (List.mem_of_getLast? last)

end ListEntry

namespace Tree

variable {t : Tree} {p : Path} {m : Remote.Metadata}

theorem mem_children :
    m ∈ t.children p ↔ ∃ name node, t[p.child name]? = some node ∧
      m = metadata (p.child name) node := by
  simp only [children, List.mem_filterMap, Prod.exists]
  constructor
  · rintro ⟨q, node, here, parent⟩
    split at parent
    · rename_i hp
      obtain ⟨name, rfl⟩ := Path.parent?_eq_some_iff.1 hp
      rw [Option.some.injEq] at parent
      exact ⟨name, node, Std.ExtTreeMap.mem_toList_iff_getElem?_eq_some.1 here, parent.symm⟩
    · cases parent
  · rintro ⟨name, node, here, rfl⟩
    refine ⟨p.child name, node, Std.ExtTreeMap.mem_toList_iff_getElem?_eq_some.2 here, ?_⟩
    rw [if_pos (Path.parent?_eq_some_iff.2 ⟨name, rfl⟩)]

@[simp] theorem name_metadata (p : Path) (name : String) (node : Node) :
    (metadata (p.child name) node).name = name := by
  cases node <;> simp [metadata, Remote.Metadata.folder, Remote.Metadata.file]

theorem children_ordered (t : Tree) (p : Path) :
    (t.children p).Pairwise fun a b => compare a.name b.name = .lt := by
  refine Std.ExtTreeMap.ordered_keys_toList.filterMap _ ?_
  rintro ⟨q, node⟩ ⟨q', node'⟩ order a ha b hb
  dsimp only at order ha hb
  split at ha <;> split at hb
  · rename_i hq hq'
    obtain ⟨name, rfl⟩ := Path.parent?_eq_some_iff.1 hq
    obtain ⟨name', rfl⟩ := Path.parent?_eq_some_iff.1 hq'
    cases ha
    cases hb
    rwa [name_metadata, name_metadata, ← Path.compare_child p]
  all_goals contradiction

/-- The listing of a folder. -/
def entries (t : Tree) (p : Path) : List ListEntry :=
  (t.children p).map Remote.Metadata.listed

theorem Closed.isName_child (h : t.Closed) {name : String} {node : Node}
    (here : t[p.child name]? = some node) : Path.IsName name :=
  h.canonical (p.child name) (by rw [here]; simp) name (by simp)

theorem Closed.canonical_of_resolve (h : t.Closed) {q : Path} {node : Node}
    (here : t[p.resolve q]? = some node) : q.Canonical :=
  (h.canonical (p.resolve q) (by rw [here]; simp)).of_resolve

theorem mem_entries {e : ListEntry} :
    e ∈ t.entries p ↔ (∃ name, t[p.child name]? = some .folder ∧ e = .directory name) ∨
      ∃ name content, t[p.child name]? = some (.file content) ∧ e = .file name content.length := by
  have folder (name : String) : (metadata (p.child name) .folder).listed = .directory name := by
    simp [metadata, Remote.Metadata.listed, Remote.Metadata.isFolder, Remote.Metadata.folder]
  have file (name : String) (content : Bytes) :
      (metadata (p.child name) (.file content)).listed = .file name content.length := by
    simp [metadata, Remote.Metadata.listed, Remote.Metadata.isFolder, Remote.Metadata.file]
  simp only [entries, List.mem_map, mem_children]
  constructor
  · rintro ⟨_, ⟨name, node, here, rfl⟩, rfl⟩
    cases node with
    | folder => exact .inl ⟨name, here, folder name⟩
    | file content => exact .inr ⟨name, content, here, file name content⟩
  · rintro (⟨name, here, rfl⟩ | ⟨name, content, here, rfl⟩)
    · exact ⟨_, ⟨name, .folder, here, rfl⟩, folder name⟩
    · exact ⟨_, ⟨name, .file content, here, rfl⟩, file name content⟩

theorem Closed.entries_ordered (h : t.Closed) (p : Path) :
    (t.entries p).Pairwise fun a b => compare a.baseName b.baseName = .lt := by
  have base {m : Remote.Metadata} (hm : m ∈ t.children p) : m.listed.baseName = m.name := by
    obtain ⟨name, node, here, rfl⟩ := mem_children.1 hm
    have named := h.isName_child here
    rw [name_metadata]
    cases node with
    | folder =>
      rw [metadata, Path.name?_child]
      exact ListEntry.baseName_directory named
    | file content =>
      rw [metadata, Path.name?_child]
      exact ListEntry.baseName_file named _
  refine List.pairwise_map.2 ((children_ordered t p).imp_of_mem fun ha hb order => ?_)
  rwa [base ha, base hb]

end Tree

end ChunkStore
