import ChunkStore.Proofs.ChunkSearch
import ChunkStore.Proofs.PagedListing
import ChunkStore.Proofs.ServiceHistory

/-!
# Listings, stats and downloads

A listing selects the children of a folder from a flat map and hands them out page by page,
while a stat and a download look up one path. For every name they tell the same. A listing
takes one call for each page that the children fill, and one for an empty folder, whatever
other listings are still open.
-/

namespace ChunkStore

namespace Tree

variable {t : Tree} {p : Path} {name : String}

/-- A folder has as many entries as there are nodes right below it. -/
theorem length_entries (t : Tree) (p : Path) :
    (t.entries p).length = (t.keys.filter fun q => q.parent? = some p).length := by
  rw [entries, List.length_map, children, List.length_filterMap_eq_countP,
    ← Std.ExtTreeMap.map_fst_toList_eq_keys, ← List.countP_eq_length_filter, List.countP_map]
  apply List.countP_congr
  rintro ⟨q, node⟩ -
  by_cases parent : q.parent? = some p <;> simp [parent]

theorem file_mem_entries_iff (hn : Path.IsName name) (size : Nat) :
    ListEntry.file name size ∈ t.entries p ↔
      ∃ content, t[p.child name]? = some (.file content) ∧ content.length = size := by
  rw [mem_entries]
  constructor
  · rintro (⟨other, -, same⟩ | ⟨other, content, here, same⟩)
    · -- A file's name holds no mark of a folder.
      have mark : (ListEntry.file name size).isDirectory = true := by
        rw [same]
        exact ListEntry.isDirectory_directory other
      rw [ListEntry.isDirectory_file hn] at mark
      cases mark
    · cases same
      exact ⟨content, here, rfl⟩
  · rintro ⟨content, here, rfl⟩
    exact .inr ⟨name, content, here, rfl⟩

theorem Closed.directory_mem_entries_iff (h : t.Closed) (hn : Path.IsName name) :
    ListEntry.directory name ∈ t.entries p ↔ t[p.child name]? = some .folder := by
  rw [mem_entries]
  constructor
  · rintro (⟨other, here, same⟩ | ⟨other, content, here, same⟩)
    · have base : (ListEntry.directory name).baseName = (ListEntry.directory other).baseName := by
        rw [same]
      rw [ListEntry.baseName_directory hn, ListEntry.baseName_directory (h.isName_child here)]
        at base
      rwa [base]
    · have mark : (ListEntry.file other content.length).isDirectory = true := by
        rw [← same]
        exact ListEntry.isDirectory_directory name
      rw [ListEntry.isDirectory_file (h.isName_child here)] at mark
      cases mark
  · intro here
    exact .inl ⟨name, here, rfl⟩

theorem info_eq_file_iff {size : Nat} :
    t.info p = .file size ↔ ∃ content, t[p]? = some (.file content) ∧ content.length = size := by
  unfold info
  cases t[p]? with
  | none => simp [FileInfo.missing, FileInfo.file]
  | some node => cases node <;> simp [metadata, Remote.Metadata.info, Remote.Metadata.isFolder,
      Remote.Metadata.folder, Remote.Metadata.file, FileInfo.directory, FileInfo.file]

theorem info_eq_directory_iff : t.info p = .directory ↔ t[p]? = some .folder := by
  unfold info
  cases t[p]? with
  | none => simp [FileInfo.missing, FileInfo.directory]
  | some node => cases node <;> simp [metadata, Remote.Metadata.info, Remote.Metadata.isFolder,
      Remote.Metadata.folder, Remote.Metadata.file, FileInfo.directory, FileInfo.file]

theorem fetch_eq_ok_iff {content : Bytes} :
    t.fetch p = .ok content ↔ t[p]? = some (.file content) := by
  rw [fetch, Std.ExtTreeMap.get?_eq_getElem?]
  cases t[p]? with
  | none => simp
  | some node => cases node <;> simp

end Tree

namespace Storage

open Memory (World)

variable {s : Storage} {thread : Nat} {w : World} {dir name : String}

theorem target_child (s : Storage) (dir : String) (hn : Path.IsName name) :
    s.target (dir ++ "/" ++ name) = (s.target dir).child name := by
  rw [target, Path.parse_append_name dir hn]
  exact Path.resolve_child s.root (.parse dir) name

/-- What a stat reports, it reports of the tree. -/
theorem stat_reports_iff (h : thread < s.clients.size) (hr : s.root.Canonical)
    (hw : w.remote.offline = false) (path : String) (info : FileInfo) :
    (∃ w', w.run (s.stat thread path) = (some (.ok info), w')) ↔
      w.remote.tree.info (s.target path) = info := by
  obtain ⟨w₁, run, -⟩ := run_stat h hr hw path
  rw [World.run, run]
  constructor
  · rintro ⟨w', same⟩
    cases same
    rfl
  · rintro rfl
    exact ⟨w₁, rfl⟩

/-- What a download brings is the content of a file of the tree. -/
theorem download_brings_iff (h : thread < s.clients.size) (hr : s.root.Canonical)
    (hw : w.remote.offline = false) (path : String) (content : Bytes) :
    (∃ w', w.run (s.download thread path) = (some (.ok content), w')) ↔
      w.remote.tree[s.target path]? = some (.file content) := by
  obtain ⟨w₁, run, -⟩ := run_download h hr hw path
  rw [← Tree.fetch_eq_ok_iff, World.run, run]
  constructor
  · rintro ⟨w', same⟩
    cases fetched : w.remote.tree.fetch (s.target path) with
    | error e =>
      rw [fetched] at same
      cases same
    | ok other =>
      rw [fetched] at same
      cases same
      rfl
  · intro fetched
    rw [fetched]
    exact ⟨w₁, rfl⟩

/-- A folder is listed with one entry for each of its children, in the order of the bytes of
their names. For every name, the listing has a file of some size exactly when a stat tells of
it and when a download brings as many bytes, it has a folder exactly when a stat tells of a
folder, and it has nothing else. It takes one call for each page. -/
theorem list_agrees {m : Memory} (hm : m.Reachable) (online : m.offline = false) (now : Millis)
    (hr : s.root.Canonical) (h : thread < s.clients.size) (dir : String)
    (folder : m.tree[s.target dir]? = some .folder)
    (hs : ((World.mk m now).run (s.list thread dir)).2.remote.served < Program.ample) :
    let w := World.mk m now
    let children := (m.tree.keys.filter fun q => q.parent? = some (s.target dir)).length
    ∃ entries w', w.run (s.list thread dir) = (some (.ok entries), w') ∧
      entries.length = children ∧
      entries.Pairwise (fun a b =>
        compare (Text.bytes a.baseName) (Text.bytes b.baseName) = .lt) ∧
      (∀ name, Path.IsName name →
        (∀ size,
          (⟨name, size⟩ ∈ entries ↔ ∃ w₁,
            w.run (s.stat thread (dir ++ "/" ++ name)) = (some (.ok (.file size)), w₁)) ∧
          (⟨name, size⟩ ∈ entries ↔ ∃ content, content.length = size ∧ ∃ w₁,
            w.run (s.download thread (dir ++ "/" ++ name)) = (some (.ok content), w₁))) ∧
        (⟨name ++ "/", 0⟩ ∈ entries ↔ ∃ w₁,
          w.run (s.stat thread (dir ++ "/" ++ name)) = (some (.ok .directory), w₁))) ∧
      (∀ e ∈ entries, ∃ name, Path.IsName name ∧
        (e = ⟨name ++ "/", 0⟩ ∨ ∃ size, e = ⟨name, size⟩)) ∧
      w'.remote.calls.length = m.calls.length +
        max 1 ((children + (max 1 m.pageSize - 1)) / max 1 m.pageSize) := by
  intro w children
  have closed : m.tree.Closed := hm.sound.closed
  have count : (m.tree.entries (s.target dir)).length = children := m.tree.length_entries _
  obtain ⟨w', run, paged⟩ := run_list (w := w) h hr online hm.sound dir folder (.inl hs)
  refine ⟨m.tree.entries (s.target dir), w', run, count, ?_, ?_, ?_, ?_⟩
  · apply (closed.entries_ordered _).imp
    intro a b before
    rwa [Text.compare_bytes]
  · intro name hn
    constructor
    · intro size
      have entry : (⟨name, size⟩ : ListEntry) ∈ m.tree.entries (s.target dir) ↔ _ :=
        Tree.file_mem_entries_iff hn size
      constructor
      · rw [entry, stat_reports_iff h hr online, s.target_child dir hn, Tree.info_eq_file_iff]
      · rw [entry]
        simp only [download_brings_iff (w := w) h hr online, s.target_child dir hn]
        exact exists_congr fun content => And.comm
    · have entry : (⟨name ++ "/", 0⟩ : ListEntry) ∈ m.tree.entries (s.target dir) ↔ _ :=
        closed.directory_mem_entries_iff hn
      rw [entry, stat_reports_iff h hr online, s.target_child dir hn, Tree.info_eq_directory_iff]
  · intro e member
    rcases Tree.mem_entries.1 member with ⟨name, here, rfl⟩ | ⟨name, content, here, rfl⟩
    · exact ⟨name, closed.isName_child here, .inl rfl⟩
    · exact ⟨name, closed.isName_child here, .inr ⟨_, rfl⟩⟩
  · rw [← count]
    exact paged.calls

/-- Three children on pages of two, while another listing is open. -/
theorem list_agrees_paged :
    let s := plain (.parse "/repo") 0
    let m := Memory.after [.putFile "/repo/d/a" [1], .putFile "/repo/d/a.b/c" [],
      .putFile "/repo/d/b" [2, 3], .setPageSize 2, .call (.listFolder "/repo/d") 0]
    ∃ entries w', (World.mk m 0).run (s.list 0 "x/../d/") = (some (.ok entries), w') ∧
      m.listings.length = 1 ∧ (⟨"b", 2⟩ : ListEntry) ∈ entries ∧
      (⟨"a.b/", 0⟩ : ListEntry) ∈ entries ∧ entries.length = 3 ∧
      w'.remote.calls.length = m.calls.length + 2 := by
  intro s m
  have reachable : m.Reachable := Memory.reachable_after _
  have client : 0 < s.clients.size := Nat.one_pos
  obtain ⟨entries, w', run, count, -, agree, -, calls⟩ := list_agrees reachable rfl 0
    (Path.canonical_parse "/repo") client "x/../d/" (by decide +kernel) (by decide +kernel)
  have three : (m.tree.keys.filter fun q => q.parent? = some (s.target "x/../d/")).length = 3 := by
    decide +kernel
  have size : m.pageSize = 2 := rfl
  rw [three] at count calls
  rw [size] at calls
  refine ⟨entries, w', run, rfl, ?_, ?_, count, calls⟩
  · apply ((agree "b" (by simp [Path.IsName])).1 2).1.2
    exact ⟨_, Prod.ext (by decide +kernel) rfl⟩
  · apply (agree "a.b" (by simp [Path.IsName])).2.2
    exact ⟨_, Prod.ext (by decide +kernel) rfl⟩

end Storage

end ChunkStore
