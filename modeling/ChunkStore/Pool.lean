import ChunkStore.Failure

/-!
# Client pools

A fixed number of independent clients, at least one, indexed by worker thread. The
pool never grows or shrinks, and a client keeps its index.
-/

namespace ChunkStore

structure Pool where
  size : Nat
  pos : 0 < size
  deriving DecidableEq

namespace Pool

def ofSize (size : Nat) : Except Failure Pool :=
  if h : 0 < size then .ok ⟨size, h⟩
  else .error (.invalidConfig "client pool needs at least one client")

def get (p : Pool) (thread : Nat) : Except Failure (Fin p.size) :=
  if h : thread < p.size then .ok ⟨thread, h⟩
  else .error (.invalidThreadIndex thread p.size)

theorem get_eq_ok_iff (p : Pool) (thread : Nat) (client : Fin p.size) :
    p.get thread = .ok client ↔ client.val = thread := by
  unfold get
  split
  · simp only [Except.ok.injEq, Fin.ext_iff]
    exact eq_comm
  · rename_i h
    simp only [reduceCtorEq, false_iff]
    rintro rfl
    exact h client.isLt

end Pool

end ChunkStore
