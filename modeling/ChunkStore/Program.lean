import ChunkStore.Failure

/-!
# Programs of calls

An operation on a store is a program: it asks for calls, one at a time, and goes on
with each reply. A program says nothing about who answers. The same program runs
against a tree in memory, against a server, against replies chosen by an adversary,
or call by call between the steps of other programs.

A loop whose length depends on replies takes a budget. A program that has used it
up is `spent`, which no real run with the standard budget reaches.
-/

namespace ChunkStore

structure Interface where
  Call : Type
  Reply : Call → Type

/-- A program that makes calls of an interface and ends in a value or a failure. -/
inductive Program (I : Interface) (α : Type) where
  | done (value : α)
  | failed (failure : Failure)
  | ask (call : I.Call) (next : I.Reply call → Program I α)
  | spent

namespace Program

variable {I J : Interface} {α β σ : Type}

/-- A budget that no run uses up. -/
def ample : Nat := 0x10000000000000000

def bind : Program I α → (α → Program I β) → Program I β
  | .done a, f => f a
  | .failed e, _ => .failed e
  | .ask call next, f => .ask call fun reply => (next reply).bind f
  | .spent, _ => .spent

instance : Monad (Program I) where
  pure := .done
  bind := bind

def call (c : I.Call) : Program I (I.Reply c) := .ask c .done

def ofExcept : Except Failure α → Program I α
  | .ok a => .done a
  | .error e => .failed e

def attempt : Program I α → Program I (Except Failure α)
  | .done a => .done (.ok a)
  | .failed e => .done (.error e)
  | .ask call next => .ask call fun reply => (next reply).attempt
  | .spent => .spent

/-- Replaces every call by a program of another interface. -/
def interpret (serve : (c : I.Call) → Program J (I.Reply c)) : Program I α → Program J α
  | .done a => .done a
  | .failed e => .failed e
  | .ask call next => (serve call).bind fun reply => (next reply).interpret serve
  | .spent => .spent

/-- Runs a program against a state that answers its calls. There is no result when
the budget is spent. -/
def run (answer : (c : I.Call) → σ → I.Reply c × σ) :
    Program I α → σ → Option (Except Failure α) × σ
  | .done a, s => (some (.ok a), s)
  | .failed e, s => (some (.error e), s)
  | .ask call next, s =>
    let (reply, s) := answer call s
    (next reply).run answer s
  | .spent, s => (none, s)

def runM {m : Type → Type} [Monad m] (answer : (c : I.Call) → m (I.Reply c)) :
    Program I α → m (Option (Except Failure α))
  | .done a => pure (some (.ok a))
  | .failed e => pure (some (.error e))
  | .ask call next => answer call >>= fun reply => (next reply).runM answer
  | .spent => pure none

@[simp] theorem pure_eq (a : α) : (pure a : Program I α) = .done a := rfl

@[simp] theorem bind_eq (p : Program I α) (f : α → Program I β) : p >>= f = p.bind f := rfl

@[simp] theorem done_bind (a : α) (f : α → Program I β) : (done a).bind f = f a := rfl

@[simp] theorem failed_bind (e : Failure) (f : α → Program I β) :
    (failed e).bind f = .failed e := rfl

@[simp] theorem ask_bind (c : I.Call) (next : I.Reply c → Program I α) (f : α → Program I β) :
    (ask c next).bind f = .ask c fun reply => (next reply).bind f := rfl

@[simp] theorem spent_bind (f : α → Program I β) :
    (spent : Program I α).bind f = .spent := rfl

@[simp] theorem call_bind (c : I.Call) (f : I.Reply c → Program I β) :
    (call c).bind f = .ask c f := rfl

@[simp] theorem bind_done (p : Program I α) : p.bind .done = p := by
  induction p with
  | done | failed | spent => rfl
  | ask c next ih => simp [ih]

theorem bind_assoc {γ : Type} (p : Program I α) (f : α → Program I β) (g : β → Program I γ) :
    (p.bind f).bind g = p.bind fun a => (f a).bind g := by
  induction p with
  | done | failed | spent => rfl
  | ask c next ih => simp [ih]

instance : LawfulMonad (Program I) :=
  LawfulMonad.mk' (Program I) (fun p => bind_done p) (fun _ _ => rfl)
    (fun p f g => bind_assoc p f g)

@[simp] theorem run_done (answer : (c : I.Call) → σ → I.Reply c × σ) (a : α) (s : σ) :
    (done a).run answer s = (some (.ok a), s) := rfl

@[simp] theorem run_failed (answer : (c : I.Call) → σ → I.Reply c × σ) (e : Failure) (s : σ) :
    (failed e : Program I α).run answer s = (some (.error e), s) := rfl

@[simp] theorem run_spent (answer : (c : I.Call) → σ → I.Reply c × σ) (s : σ) :
    (spent : Program I α).run answer s = (none, s) := rfl

@[simp] theorem run_ask (answer : (c : I.Call) → σ → I.Reply c × σ) (c : I.Call)
    (next : I.Reply c → Program I α) (s : σ) :
    (ask c next).run answer s = (next (answer c s).1).run answer (answer c s).2 := rfl

theorem run_bind (answer : (c : I.Call) → σ → I.Reply c × σ) (p : Program I α)
    (f : α → Program I β) (s : σ) :
    (p.bind f).run answer s =
      match p.run answer s with
      | (some (.ok a), s) => (f a).run answer s
      | (some (.error e), s) => (some (.error e), s)
      | (none, s) => (none, s) := by
  induction p generalizing s with
  | done | failed | spent => rfl
  | ask c next ih => simp [ih]

end Program

end ChunkStore
