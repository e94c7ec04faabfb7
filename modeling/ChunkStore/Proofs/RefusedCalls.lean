import ChunkStore.Proofs.ServiceHistory

/-!
# Calls that fail

A call that fails has changed nothing of a service, although folders are created one by one
and the checks stand before and between the changes. Where the way to a new node is blocked by
a file, all that is above the file is there already, so the refusal comes before the first
folder was created. Only the record of calls may have grown.
-/

namespace ChunkStore

namespace Tree

variable {t : Tree}

/-- Where `change` refuses to change `t`, it leaves `t` as it was. -/
def Atomic {α : Type} (t : Tree) (change : Tree → Except Failure α × Tree) : Prop :=
  ∀ e, (change t).1 = .error e → (change t).2 = t

theorem Closed.atomic_createFolder (h : t.Closed) (p : Path) : t.Atomic (·.createFolder p) := by
  intro e refused
  dsimp only at refused ⊢
  rcases h.createFolder_cases p with ⟨-, -, t', created, -⟩ | ⟨-, subject, same⟩
  · rw [created] at refused
    cases refused
  · rw [same]

theorem atomic_delete (t : Tree) (p : Path) : t.Atomic (·.delete p) := by
  intro e refused
  dsimp only at refused ⊢
  rcases delete_cases t p with ⟨-, -, t', deleted, -⟩ | ⟨-, -, same⟩ | ⟨-, detail, same⟩
  · rw [deleted] at refused
    cases refused
  · rw [same]
  · rw [same]

theorem Closed.atomic_store (h : t.Closed) (p : Path) (content : Bytes) :
    t.Atomic (·.store p content) := by
  intro e refused
  dsimp only at refused ⊢
  rcases h.store_cases p content with ⟨-, -, t', stored, -⟩ | ⟨-, subject, same⟩
  · rw [stored] at refused
    cases refused
  · rw [same]

theorem Closed.atomic_move (h : t.Closed) (source target : Path) :
    t.Atomic (·.move source target) := by
  intro e refused
  dsimp only at refused ⊢
  rcases h.move_cases source target with ⟨-, -, -, -, -, t', moved, -⟩ | ⟨-, same⟩ |
    ⟨-, -, same⟩ | ⟨-, -, -, detail, same⟩ | ⟨-, -, -, subject, same⟩
  · rw [moved] at refused
    cases refused
  all_goals rw [same]

end Tree

namespace Memory

variable {m m' : Memory} {e : Failure} {α : Type} {record : Record}

/-- `m'` is `m`, but for calls that were noted since. -/
def Noted (m m' : Memory) : Prop :=
  m' = { m with calls := m'.calls } ∧ m.calls <+: m'.calls

theorem Noted.refl (m : Memory) : m.Noted m := ⟨rfl, List.prefix_refl _⟩

theorem noted_append (m : Memory) (record : Record) :
    m.Noted { m with calls := m.calls ++ [record] } := ⟨rfl, List.prefix_append _ _⟩

/-- A call that fails is noted, and nothing else comes of it if its service changes nothing
where it fails. -/
theorem noted_receive {serve : Memory → Except Failure α × Memory}
    (same : (serve { m with calls := m.calls ++ [record] }).1 = .error e →
      (serve { m with calls := m.calls ++ [record] }).2 = { m with calls := m.calls ++ [record] })
    (failed : (m.receive record serve).1 = .error e) : m.Noted (m.receive record serve).2 := by
  unfold receive at failed ⊢
  dsimp only at failed ⊢
  split at failed
  · rename_i cut
    rw [if_pos cut]
    exact noted_append m record
  · rename_i online
    rw [if_neg online, same failed]
    exact noted_append m record

theorem noted_onTree {change : Tree → Except Failure α × Tree} (h : m.tree.Atomic change)
    (failed : (m.receive record (·.onTree change)).1 = .error e) :
    m.Noted (m.receive record (·.onTree change)).2 := by
  apply noted_receive _ failed
  intro refused
  have unchanged : (change m.tree).2 = m.tree := h e refused
  unfold onTree
  dsimp only
  rw [unchanged]

theorem noted_listFolder {path : String} (failed : (m.listFolder path).1 = .error e) :
    m.Noted (m.listFolder path).2 := by
  apply noted_receive _ failed
  intro refused
  dsimp only at refused ⊢
  split at refused
  · cases refused
  · rfl
  · rfl

theorem noted_listFolderContinue {cursor : String}
    (failed : (m.listFolderContinue cursor).1 = .error e) :
    m.Noted (m.listFolderContinue cursor).2 := by
  apply noted_receive _ failed
  intro refused
  dsimp only at refused ⊢
  split at refused
  · cases refused
  · rfl

theorem noted_getMetadata {path : String} (failed : (m.getMetadata path).1 = .error e) :
    m.Noted (m.getMetadata path).2 := by
  apply noted_receive _ failed
  intro refused
  split <;> rfl

theorem noted_download {path : String} (failed : (m.download path).1 = .error e) :
    m.Noted (m.download path).2 := by
  apply noted_receive _ failed
  intro refused
  rfl

/-- The call of an upload alone changes nothing, whether it is accepted or not. -/
theorem noted_openUpload (m : Memory) (path : String) : m.Noted (m.openUpload path).2 := by
  unfold openUpload receive
  dsimp only
  split
  · exact noted_append m _
  · exact noted_append m _

theorem Sound.putFile_of_error (h : m.Sound) {path : String} {content : Bytes}
    (failed : (m.putFile path content).1 = .error e) : (m.putFile path content).2 = m := by
  have unchanged : (m.tree.store (Path.parse path) content).2 = m.tree :=
    h.closed.atomic_store (Path.parse path) content e failed
  unfold Memory.putFile Memory.onTree
  dsimp only
  rw [unchanged]

theorem Sound.noted_upload (h : m.Sound) {path : String} {body : Source} {now : Millis}
    (failed : (m.upload path body now).1 = .error e) : m.Noted (m.upload path body now).2.1 := by
  have opened : m.Noted (m.openUpload path).2 := noted_openUpload m path
  rcases upload_cases m path body now with ⟨other, -, same⟩ | ⟨content, reply, stored⟩
  · rw [same]
    exact opened
  · -- The file was refused, so the state is the one after the call.
    have sound : (m.openUpload path).2.Sound := h.openUpload path
    rw [reply] at failed
    rw [stored, sound.putFile_of_error failed]
    exact opened

theorem Sound.noted_answer (h : m.Sound) (c : Remote.Call) {now : Millis}
    (failed : ((World.mk m now).answer c).1 = .error e) :
    m.Noted ((World.mk m now).answer c).2.remote := by
  cases c with
  | listFolder path => exact noted_listFolder failed
  | listFolderContinue cursor => exact noted_listFolderContinue failed
  | getMetadata path => exact noted_getMetadata failed
  | createFolder path => exact noted_onTree (h.closed.atomic_createFolder _) failed
  | delete path => exact noted_onTree (m.tree.atomic_delete _) failed
  | moveEntry source target => exact noted_onTree (h.closed.atomic_move _ _) failed
  | upload path size body => exact h.noted_upload failed
  | download path => exact noted_download failed

/-- Whatever fails on a service, be it cut off, be the arguments what they are, has left the
tree, the open listings with the entries to come, the count of pages and the settings as they
were. Only the record of calls may have grown. -/
theorem unchanged_of_failed_act (hm : m.Reachable) {action : Action}
    (failed : (m.act action).1 = .error e) :
    (m.act action).2 = { m with calls := (m.act action).2.calls } ∧
      m.calls <+: (m.act action).2.calls := by
  cases action with
  | call c now => exact hm.sound.noted_answer c (answer_of_failed_act failed)
  | openUpload path => exact noted_openUpload m path
  | putFile path content =>
    have same : (m.act (.putFile path content)).2 = m := hm.sound.putFile_of_error failed
    rw [same]
    exact Noted.refl m
  | setPageSize size => cases failed
  | setOffline cut => cases failed
  | clearCalls => cases failed

/-- A move to below a file, while a listing is open. -/
theorem unchanged_of_failed_act_below_file :
    let m := after [.putFile "/a/b" [1], .putFile "/c" [2], .setPageSize 1,
      .call (.listFolder "/") 0]
    let action := Action.call (.moveEntry "/c" "/a/b/x/y") 0
    m.listings.length = 1 ∧ (m.act action).1 = .error (.conflict "/a/b") ∧
      (m.act action).2 = { m with calls := (m.act action).2.calls } ∧
      m.calls <+: (m.act action).2.calls := by
  intro m action
  have failed : (m.act action).1 = .error (.conflict "/a/b") := by decide +kernel
  constructor
  · decide +kernel
  constructor
  · exact failed
  · exact unchanged_of_failed_act (reachable_after _) failed

end Memory

end ChunkStore
