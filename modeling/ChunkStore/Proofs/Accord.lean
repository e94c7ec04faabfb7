import ChunkStore.Proofs.Crew

/-!
# Members that keep to one rule

The members of a crew may all keep to one rule about how a state may change, and each may rely
on it that the others do. A program is judged by the rule alone: in whichever state the others
have left, each of its calls is answered with a change that the rule permits, and it ends as
promised. Where no others are, this is a judgement of the program alone, so what is promised
among others is promised of a run without them too.
-/

namespace ChunkStore

namespace Program

variable {I : Interface} {α σ : Type} {answer : (c : I.Call) → σ → I.Reply c × σ}
  {rule : σ → σ → Prop} {Q : Except Failure α → σ → Prop} {p : Program I α} {s s' : σ}

/-- Among others that keep to the rule the program keeps to it, never runs out of its budget,
and `Q` is true of its result in every state from then on. -/
def Accords (answer : (c : I.Call) → σ → I.Reply c × σ) (rule : σ → σ → Prop)
    (Q : Except Failure α → σ → Prop) : Program I α → σ → Prop
  | .done a, s => ∀ s', rule s s' → Q (.ok a) s'
  | .failed e, s => ∀ s', rule s s' → Q (.error e) s'
  | .ask call next, s => ∀ s', rule s s' →
    rule s' (answer call s').2 ∧ (next (answer call s').1).Accords answer rule Q (answer call s').2
  | .spent, _ => False

theorem Accords.moved (trans : ∀ s s' s'', rule s s' → rule s' s'' → rule s s'')
    (h : p.Accords answer rule Q s) (move : rule s s') : p.Accords answer rule Q s' := by
  cases p with
  | done a => exact fun s'' later => h s'' (trans s s' s'' move later)
  | failed e => exact fun s'' later => h s'' (trans s s' s'' move later)
  | ask call next => exact fun s'' later => h s'' (trans s s' s'' move later)
  | spent => exact h

theorem Accords.run (refl : ∀ s, rule s s) (h : p.Accords answer rule Q s) :
    ∃ r, (p.run answer s).1 = some r ∧ Q r (p.run answer s).2 := by
  induction p generalizing s with
  | done a => exact ⟨.ok a, rfl, h s (refl s)⟩
  | failed e => exact ⟨.error e, rfl, h s (refl s)⟩
  | ask call next ih => exact ih _ (h s (refl s)).2
  | spent => exact h.elim

theorem Accords.ended (refl : ∀ s, rule s s) (h : p.Accords answer rule Q s) (ended : p.Ended) :
    ∃ r, p = .ofExcept r ∧ Q r s := by
  cases p with
  | done a => exact ⟨.ok a, rfl, h s (refl s)⟩
  | failed e => exact ⟨.error e, rfl, h s (refl s)⟩
  | ask call next => exact ended.elim
  | spent => exact h.elim

end Program

namespace Crew

variable {I : Interface} {σ ι α : Type} [DecidableEq ι]
  {answer : (c : I.Call) → σ → I.Reply c × σ} {rule : σ → σ → Prop}
  {Q : ι → Except Failure α → σ → Prop} {crew : Crew I σ ι α}

/-- All members keep to the rule, and to what is promised of each. -/
def InAccord (answer : (c : I.Call) → σ → I.Reply c × σ) (rule : σ → σ → Prop)
    (Q : ι → Except Failure α → σ → Prop) (crew : Crew I σ ι α) : Prop :=
  ∀ i, (crew.members i).Accords answer rule (Q i) crew.state

/-- On the turn of a member the state changes by the rule, and all stay in accord: the member
that moves by what is promised of it, the others since they rely on the rule only. -/
theorem InAccord.advance (refl : ∀ s, rule s s)
    (trans : ∀ s s' s'', rule s s' → rule s' s'' → rule s s'')
    (h : crew.InAccord answer rule Q) (i : ι) :
    rule crew.state (crew.advance answer i).state ∧
      (crew.advance answer i).InAccord answer rule Q := by
  cases asks : crew.members i with
  | ask call next =>
    have own := h i
    rw [asks] at own
    obtain ⟨move, after⟩ := own crew.state (refl crew.state)
    rw [advance_ask asks]
    refine ⟨move, fun j => ?_⟩
    by_cases same : j = i
    · subst same
      simpa using after
    · simpa [same] using (h j).moved trans move
  | done | failed | spent =>
    rw [Crew.advance, asks]
    exact ⟨refl crew.state, h⟩

theorem InAccord.follow (refl : ∀ s, rule s s)
    (trans : ∀ s s' s'', rule s s' → rule s' s'' → rule s s'')
    (h : crew.InAccord answer rule Q) (schedule : List ι) :
    rule crew.state (crew.follow answer schedule).state ∧
      (crew.follow answer schedule).InAccord answer rule Q := by
  refine follow_keeps (P := fun later => rule crew.state later.state ∧
    later.InAccord answer rule Q) ?_ ⟨refl crew.state, h⟩ schedule
  intro later i ⟨before, accord⟩
  obtain ⟨move, accord⟩ := accord.advance refl trans i
  exact ⟨trans _ _ _ before move, accord⟩

end Crew

end ChunkStore
