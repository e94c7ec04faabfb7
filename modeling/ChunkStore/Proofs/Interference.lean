import ChunkStore.Proofs.Crew

/-!
# Programs among others

Between two calls of a program others make theirs. What these may do to the state is given
as a relation, and a program is judged by it alone: in whichever related state each of its
calls is answered, it ends as promised. The judgement follows the program, so the one for a
sequence is put together from those for its parts. A member of a crew ends as promised under
every schedule, provided that every call is one that the relation allows.
-/

namespace ChunkStore

namespace Program

variable {I : Interface} {α β σ : Type} {answer : (c : I.Call) → σ → I.Reply c × σ}
  {rely : σ → σ → Prop} {Q Q' : α → σ → Prop} {P : β → σ → Prop} {p : Program I α} {s : σ}

/-- Among others that change the state as `rely` says, the program never runs out of its
budget, and `Q` is true of the value that it ends in and of every state from then on. Nothing
is said of a failure. -/
def Amid (answer : (c : I.Call) → σ → I.Reply c × σ) (rely : σ → σ → Prop) (Q : α → σ → Prop) :
    Program I α → σ → Prop
  | .done a, s => ∀ s', rely s s' → Q a s'
  | .failed _, _ => True
  | .ask call next, s =>
    ∀ s', rely s s' → (next (answer call s').1).Amid answer rely Q (answer call s').2
  | .spent, s => ∀ s', ¬rely s s'

theorem Amid.mono (h : p.Amid answer rely Q s) (weaker : ∀ a s, Q a s → Q' a s) :
    p.Amid answer rely Q' s := by
  induction p generalizing s with
  | done a => exact fun s' moved => weaker a s' (h s' moved)
  | failed e => trivial
  | ask call next ih => exact fun s' moved => ih _ (h s' moved)
  | spent => exact h

theorem Amid.since (settled : ∀ s s', rely s s' → rely s' s')
    (h : ∀ s', rely s s' → p.Amid answer rely Q s') : p.Amid answer rely Q s := by
  cases p with
  | done a => exact fun s' moved => h s' moved s' (settled s s' moved)
  | failed e => trivial
  | ask call next => exact fun s' moved => h s' moved s' (settled s s' moved)
  | spent => exact fun s' moved => h s' moved s' (settled s s' moved)

theorem Amid.bind {f : α → Program I β} (settled : ∀ s s', rely s s' → rely s' s')
    (h : p.Amid answer rely Q s) (hf : ∀ a s', Q a s' → (f a).Amid answer rely P s') :
    (p.bind f).Amid answer rely P s := by
  induction p generalizing s with
  | done a => exact .since settled fun s' moved => hf a s' (h s' moved)
  | failed e => trivial
  | ask call next ih => exact fun s' moved => ih _ (h s' moved)
  | spent => exact h

theorem Amid.ofExcept_bind {f : α → Program I β} {reply : Except Failure α}
    (h : ∀ a, reply = .ok a → (f a).Amid answer rely P s) :
    ((Program.ofExcept reply).bind f).Amid answer rely P s := by
  cases reply with
  | ok a => exact h a rfl
  | error e => trivial

end Program

namespace Crew

variable {I : Interface} {σ ι α : Type} [DecidableEq ι]
  {answer : (c : I.Call) → σ → I.Reply c × σ} {crew : Crew I σ ι α} {schedule : List ι} {i : ι}

/-- The crew is in the state `s` at some moment of the schedule. -/
def Moment (answer : (c : I.Call) → σ → I.Reply c × σ) (crew : Crew I σ ι α) (schedule : List ι)
    (s : σ) : Prop :=
  ∃ turns, turns <+: schedule ∧ (crew.follow answer turns).state = s

theorem moment_first : crew.Moment answer schedule crew.state :=
  ⟨[], List.nil_prefix, rfl⟩

theorem Moment.cons {s : σ} (h : (crew.advance answer i).Moment answer schedule s) :
    crew.Moment answer (i :: schedule) s := by
  obtain ⟨turns, part, state⟩ := h
  exact ⟨i :: turns, List.cons_prefix_cons.2 ⟨rfl, part⟩, state⟩

theorem state_follow {P : σ → Prop} (step : ∀ call s, P s → P (answer call s).2)
    (h : P crew.state) (schedule : List ι) : P (crew.follow answer schedule).state := by
  refine follow_keeps (P := fun crew => P crew.state) (fun crew i h => ?_) h schedule
  unfold advance
  split
  · exact step _ _ h
  · exact h

theorem Moment.keeps {P : σ → Prop} {s : σ} (moment : crew.Moment answer schedule s)
    (step : ∀ call s, P s → P (answer call s).2) (h : P crew.state) : P s := by
  obtain ⟨turns, -, rfl⟩ := moment
  exact state_follow step h turns

theorem Moment.lasts {P : σ → Prop} {s : σ} (moment : crew.Moment answer schedule s)
    (step : ∀ call s, P s → P (answer call s).2) (h : P s) :
    P (crew.follow answer schedule).state := by
  obtain ⟨turns, ⟨others, rfl⟩, rfl⟩ := moment
  rw [follow_append]
  exact state_follow step h others

variable {change rely : σ → σ → Prop} {Q : α → σ → Prop} {s : σ}

/-- A turn, be it the member's own or another's, leaves the member judged as before. -/
theorem amid_advance (refl : ∀ s, change s s)
    (trans : ∀ s s' s'', change s s' → change s' s'' → change s s'')
    (calls : ∀ call s, change s (answer call s).2)
    (allowed : ∀ s, change s crew.state → rely s crew.state) (before : change s crew.state)
    (h : (crew.members i).Amid answer rely Q s) (j : ι) :
    ∃ s', change s' (crew.advance answer j).state ∧
      ((crew.advance answer j).members i).Amid answer rely Q s' := by
  cases asks : crew.members j with
  | ask call next =>
    rw [advance_ask asks]
    by_cases same : i = j
    · subst same
      rw [asks] at h
      refine ⟨(answer call crew.state).2, refl _, ?_⟩
      simpa using h crew.state (allowed s before)
    · refine ⟨s, trans _ _ _ before (calls call crew.state), ?_⟩
      simpa [same] using h
  | done | failed | spent =>
    rw [advance, asks]
    exact ⟨s, before, h⟩

/-- What a member was judged to end in, it ends in. The relation need only hold between
states that calls lead from one to the other, and of these the second is one of the run. -/
theorem amid_follow (change : σ → σ → Prop) (refl : ∀ s, change s s)
    (trans : ∀ s s' s'', change s s' → change s' s'' → change s s'')
    (calls : ∀ call s, change s (answer call s).2)
    (allowed : ∀ s s', change s s' → crew.Moment answer schedule s' → rely s s')
    (before : change s crew.state) (h : (crew.members i).Amid answer rely Q s) :
    (crew.follow answer schedule).members i ≠ .spent ∧
      ∀ a, (crew.follow answer schedule).members i = .done a →
        Q a (crew.follow answer schedule).state := by
  induction schedule generalizing crew s with
  | nil =>
    have now : rely s crew.state := allowed s _ before moment_first
    change crew.members i ≠ .spent ∧ ∀ a, crew.members i = .done a → Q a crew.state
    constructor
    · intro spent
      rw [spent] at h
      exact h _ now
    · intro a done
      rw [done] at h
      exact h _ now
  | cons j schedule ih =>
    obtain ⟨s', before', h'⟩ :=
      amid_advance refl trans calls (fun s moved => allowed s _ moved moment_first) before h j
    exact ih (fun s s' moved later => allowed s s' moved later.cons) before' h'

end Crew

end ChunkStore
