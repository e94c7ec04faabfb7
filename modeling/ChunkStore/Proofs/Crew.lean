import ChunkStore.Program

/-!
# Programs side by side

The members of a crew share one state. A schedule says whose turn it is; on its turn a
member makes its next call and receives the reply, and all others stay where they are. The
calls are kept in the order in which they were made.
-/

namespace ChunkStore

def Program.Ended {I : Interface} {α : Type} : Program I α → Prop
  | .ask _ _ => False
  | _ => True

instance {I : Interface} {α : Type} (p : Program I α) : Decidable p.Ended :=
  match p with
  | .ask _ _ => .isFalse id
  | .done _ | .failed _ | .spent => .isTrue trivial

structure Crew (I : Interface) (σ ι α : Type) where
  state : σ
  members : ι → Program I α
  trace : List (ι × I.Call) := []

namespace Crew

variable {I : Interface} {σ ι α : Type} [DecidableEq ι]

/-- The turn of a member. One that has ended lets it pass. -/
def advance (answer : (c : I.Call) → σ → I.Reply c × σ) (crew : Crew I σ ι α) (i : ι) :
    Crew I σ ι α :=
  match crew.members i with
  | .ask call next =>
    { state := (answer call crew.state).2
      members := fun j => if j = i then next (answer call crew.state).1 else crew.members j
      trace := crew.trace ++ [(i, call)] }
  | _ => crew

def follow (answer : (c : I.Call) → σ → I.Reply c × σ) (crew : Crew I σ ι α)
    (schedule : List ι) : Crew I σ ι α :=
  schedule.foldl (advance answer) crew

variable {answer : (c : I.Call) → σ → I.Reply c × σ} {crew : Crew I σ ι α} {i : ι}

theorem advance_ask {call : I.Call} {next : I.Reply call → Program I α}
    (h : crew.members i = .ask call next) :
    crew.advance answer i =
      { state := (answer call crew.state).2
        members := fun j => if j = i then next (answer call crew.state).1 else crew.members j
        trace := crew.trace ++ [(i, call)] } := by
  rw [advance, h]

theorem advance_done {a : α} (h : crew.members i = .done a) : crew.advance answer i = crew := by
  rw [advance, h]

theorem follow_keeps {P : Crew I σ ι α → Prop}
    (step : ∀ crew i, P crew → P (crew.advance answer i)) (h : P crew) (schedule : List ι) :
    P (crew.follow answer schedule) := by
  induction schedule generalizing crew with
  | nil => exact h
  | cons i schedule ih => exact ih (step crew i h)

theorem follow_append (crew : Crew I σ ι α) (first second : List ι) :
    crew.follow answer (first ++ second) = (crew.follow answer first).follow answer second :=
  List.foldl_append

/-- Given turns enough a member comes to an end, and no other member moves. -/
theorem ends_alone (crew : Crew I σ ι α) (answer : (c : I.Call) → σ → I.Reply c × σ) (i : ι) :
    ∃ turns : List ι, ((crew.follow answer turns).members i).Ended ∧
      ∀ j, j ≠ i → (crew.follow answer turns).members j = crew.members j := by
  generalize hp : crew.members i = p
  -- On the program, which is smaller after each reply, whatever the others have done.
  induction p generalizing crew with
  | done a => exact ⟨[], by rw [follow, List.foldl_nil, hp]; trivial, fun _ _ => rfl⟩
  | failed e => exact ⟨[], by rw [follow, List.foldl_nil, hp]; trivial, fun _ _ => rfl⟩
  | spent => exact ⟨[], by rw [follow, List.foldl_nil, hp]; trivial, fun _ _ => rfl⟩
  | ask call next ih =>
    have step : crew.advance answer i = _ := advance_ask hp
    obtain ⟨turns, ended, others⟩ := ih _ (crew.advance answer i) (by rw [step]; exact if_pos rfl)
    refine ⟨i :: turns, ended, fun j hj => (others j hj).trans ?_⟩
    rw [step]
    exact if_neg hj

/-- Every schedule can be continued until the members of a list have ended. -/
theorem ends_together (crew : Crew I σ ι α) (answer : (c : I.Call) → σ → I.Reply c × σ)
    (members : List ι) :
    ∃ turns : List ι, ∀ i ∈ members, ((crew.follow answer turns).members i).Ended := by
  induction members with
  | nil => exact ⟨[], by simp⟩
  | cons i members ih =>
    obtain ⟨first, before⟩ := ih
    obtain ⟨second, ended, others⟩ := (crew.follow answer first).ends_alone answer i
    refine ⟨first ++ second, fun j hj => ?_⟩
    rw [follow_append]
    by_cases he : j = i
    · exact he ▸ ended
    · rw [others j he]
      exact before j ((List.mem_cons.1 hj).resolve_left he)

theorem ends_all {count : Nat} (crew : Crew I σ (Fin count) α)
    (answer : (c : I.Call) → σ → I.Reply c × σ) :
    ∃ turns : List (Fin count), ∀ i, ((crew.follow answer turns).members i).Ended := by
  obtain ⟨turns, ended⟩ := crew.ends_together answer (List.finRange count)
  exact ⟨turns, fun i => ended i (List.mem_finRange i)⟩

end Crew

end ChunkStore
