import ChunkStore.Program

/-!
# Transcripts

What passes between a program and whoever answers it: its calls in the order in which they
were made, each with the reply to it. Nothing is assumed of the one who answers, who may reply
otherwise when the same call is made again.

Of the replies some are refusals. A program fails fast if a refusal ends it at once, in the
failure that was replied, so that it makes no other call and tries nothing a second time. The
judgement for this follows the program and remembers the calls made before.
-/

namespace ChunkStore

def Failure.of? {α : Type} : Except Failure α → Option Failure
  | .ok _ => none
  | .error e => some e

namespace Program

structure Exchange (I : Interface) where
  call : I.Call
  reply : I.Reply call

variable {I : Interface} {α β σ : Type}

def transcript (answer : (c : I.Call) → σ → I.Reply c × σ) :
    Program I α → σ → List (Exchange I)
  | .ask call next, s =>
    let (reply, s) := answer call s
    ⟨call, reply⟩ :: (next reply).transcript answer s
  | .done _, _ | .failed _, _ | .spent, _ => []

theorem transcript_ask (answer : (c : I.Call) → σ → I.Reply c × σ) (call : I.Call)
    (next : I.Reply call → Program I α) (s : σ) :
    (ask call next).transcript answer s = ⟨call, (answer call s).1⟩ ::
      (next (answer call s).1).transcript answer (answer call s).2 := rfl

/-- Asked for these calls one after the other, the one who answers replies what stands beside
each of them. -/
def Replies (answer : (c : I.Call) → σ → I.Reply c × σ) : List (Exchange I) → σ → Prop
  | [], _ => True
  | x :: rest, s => (answer x.call s).1 = x.reply ∧ Replies answer rest (answer x.call s).2

/-- The program makes the calls of these exchanges, is replied what stands beside them, and
ends with the result. -/
inductive Execution : Program I α → List (Exchange I) → Option (Except Failure α) → Prop
  | done (a : α) : Execution (.done a) [] (some (.ok a))
  | failed (e : Failure) : Execution (.failed e) [] (some (.error e))
  | spent : Execution .spent [] none
  | ask {call : I.Call} {next : I.Reply call → Program I α} (reply : I.Reply call)
      {rest : List (Exchange I)} {result : Option (Except Failure α)}
      (further : Execution (next reply) rest result) :
      Execution (.ask call next) (⟨call, reply⟩ :: rest) result

/-- There is one execution only against someone who replies as it says. -/
theorem Execution.result {p : Program I α} {exchanges : List (Exchange I)}
    {result : Option (Except Failure α)} (h : p.Execution exchanges result)
    {answer : (c : I.Call) → σ → I.Reply c × σ} {s : σ} (told : Replies answer exchanges s) :
    p.transcript answer s = exchanges ∧ (p.run answer s).1 = result := by
  induction h generalizing s with
  | done a => exact ⟨rfl, rfl⟩
  | failed e => exact ⟨rfl, rfl⟩
  | spent => exact ⟨rfl, rfl⟩
  | ask reply _ ih =>
    obtain ⟨first, later⟩ := told
    obtain ⟨same, ends⟩ := ih later
    rw [transcript_ask, run_ask]
    dsimp only at first
    rw [first]
    exact ⟨congrArg _ same, ends⟩

/-- Whoever answers, the first refusal is the last reply that the program receives, and it
fails with what it was refused. Where it is refused nothing it fails in no other way than
`own` says, given the failure and the calls that were made. -/
structure FailsFast (refusal : (c : I.Call) → I.Reply c → Option Failure)
    (own : Failure → List I.Call → Prop) (p : Program I α) : Prop where
  stops : ∀ (σ : Type) (answer : (c : I.Call) → σ → I.Reply c × σ) (s : σ)
    (before : List (Exchange I)) (x : Exchange I) (after : List (Exchange I)) (e : Failure),
    p.transcript answer s = before ++ x :: after → refusal x.call x.reply = some e →
      after = [] ∧ (p.run answer s).1 = some (.error e)
  otherwise : ∀ (σ : Type) (answer : (c : I.Call) → σ → I.Reply c × σ) (s : σ),
    (∀ x ∈ p.transcript answer s, refusal x.call x.reply = none) →
      ∀ e, (p.run answer s).1 = some (.error e) →
        own e ((p.transcript answer s).map Exchange.call)

/-- After the calls `past`, every refusal makes the program fail with it at once, and it
fails of itself only as `own` says. -/
def Propagates (refusal : (c : I.Call) → I.Reply c → Option Failure)
    (own : Failure → List I.Call → Prop) : Program I α → List I.Call → Prop
  | .done _, _ | .spent, _ => True
  | .failed e, past => own e past
  | .ask call next, past => ∀ reply,
    match refusal call reply with
    | some e => next reply = .failed e
    | none => (next reply).Propagates refusal own (past ++ [call])

variable {refusal : (c : I.Call) → I.Reply c → Option Failure}
  {own : Failure → List I.Call → Prop} {p : Program I α} {past : List I.Call}

theorem Propagates.bind {f : α → Program I β} (h : p.Propagates refusal own past)
    (hf : ∀ a later, (f a).Propagates refusal own later) :
    (p.bind f).Propagates refusal own past := by
  induction p generalizing past with
  | done a => exact hf a past
  | failed e => exact h
  | ask call next ih =>
    intro reply
    have first := h reply
    split at first
    · exact congrArg (Program.bind · f) first
    · exact ih reply first
  | spent => trivial

/-- A call whose reply is made an answer that is a failure just where the reply is a
refusal. -/
theorem propagates_ask {call : I.Call} {answered : I.Reply call → Except Failure β}
    (same : ∀ reply, refusal call reply = Failure.of? (answered reply)) {f : β → Program I α}
    (rest : ∀ b, (f b).Propagates refusal own (past ++ [call])) :
    (ask call fun reply => (ofExcept (answered reply)).bind f).Propagates refusal own past := by
  intro reply
  dsimp only
  rw [same]
  cases answered reply with
  | ok b => exact rest b
  | error e => rfl

theorem Propagates.stops (h : p.Propagates refusal own past)
    (answer : (c : I.Call) → σ → I.Reply c × σ) (s : σ) {before after : List (Exchange I)}
    {x : Exchange I} {e : Failure} (split : p.transcript answer s = before ++ x :: after)
    (refused : refusal x.call x.reply = some e) :
    after = [] ∧ (p.run answer s).1 = some (.error e) := by
  induction p generalizing past s before with
  | done a => cases before <;> cases split
  | failed e => cases before <;> cases split
  | spent => cases before <;> cases split
  | ask call next ih =>
    have first := h (answer call s).1
    rw [transcript_ask] at split
    rw [run_ask]
    cases before with
    | nil =>
      obtain ⟨rfl, rfl⟩ := List.cons.inj split
      rw [refused] at first
      dsimp only at first
      rw [first]
      exact ⟨rfl, rfl⟩
    | cons y before =>
      have tail := (List.cons.inj split).2
      split at first
      · -- After a refusal nothing is said any more.
        rw [first] at tail
        cases before <;> cases tail
      · exact ih _ first _ tail

theorem Propagates.otherwise (h : p.Propagates refusal own past)
    (answer : (c : I.Call) → σ → I.Reply c × σ) (s : σ)
    (accepted : ∀ x ∈ p.transcript answer s, refusal x.call x.reply = none) {e : Failure}
    (failed : (p.run answer s).1 = some (.error e)) :
    own e (past ++ (p.transcript answer s).map Exchange.call) := by
  induction p generalizing past s with
  | done a => cases failed
  | spent => cases failed
  | failed e =>
    cases failed
    rw [transcript, List.map_nil, List.append_nil]
    exact h
  | ask call next ih =>
    have first := h (answer call s).1
    rw [transcript_ask] at accepted ⊢
    rw [accepted ⟨call, (answer call s).1⟩ (List.mem_cons_self ..)] at first
    have rest := ih _ first _ (fun x hx => accepted x (List.mem_cons_of_mem _ hx)) failed
    rwa [List.append_assoc] at rest

theorem Propagates.failsFast (h : p.Propagates refusal own []) : p.FailsFast refusal own where
  stops _ answer s _ _ _ _ split refused := h.stops answer s split refused
  otherwise _ answer s accepted _ failed := h.otherwise answer s accepted failed

end Program

end ChunkStore
