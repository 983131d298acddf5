import Mathlib.Tactic.Common

/-!
# Programs that call their surroundings

A program calls its surroundings and goes on with the answer until it is done.  It is one of many, and between its
calls others call too: a program is known by the answers it has got so far (`Follows`), whatever else happened in
between.
-/

inductive Program (Call : Type) (Answer : Call → Type) (α : Type) where
  | done (a : α)
  | call (c : Call) (next : Answer c → Program Call Answer α)

namespace Program

variable {Call : Type} {Answer : Call → Type} {α : Type}

/-- A call with its answer. -/
structure Answered (Answer : Call → Type) where
  call : Call
  answer : Answer call

/-- The first program becomes the second when its calls get the answers of the trace. -/
inductive Follows : Program Call Answer α → List (Answered Answer) → Program Call Answer α → Prop
  | refl (p : Program Call Answer α) : Follows p [] p
  | call {c : Call} {next : Answer c → Program Call Answer α} {trace : List (Answered Answer)}
      {p : Program Call Answer α} (a : Answer c) (h : Follows (next a) trace p) :
      Follows (call c next) (⟨c, a⟩ :: trace) p

/-- A program on its way. -/
structure Thread (p : Program Call Answer α) where
  trace : List (Answered Answer)
  rest : Program Call Answer α
  follows : Follows p trace rest

/-- Every call of the program, whatever the answers are, is one of these. -/
def Uses (allowed : Call → Prop) : Program Call Answer α → Prop
  | done _ => True
  | call c next => allowed c ∧ ∀ a, Uses allowed (next a)

variable {p q : Program Call Answer α} {trace : List (Answered Answer)}

theorem Follows.concat {c : Call} {next : Answer c → Program Call Answer α} (h : Follows p trace (.call c next))
    (a : Answer c) : Follows p (trace ++ [⟨c, a⟩]) (next a) := by
  generalize hq : Program.call c next = q at h
  induction h with
  | refl p =>
    subst hq
    exact .call a (.refl _)
  | call b h ih => exact .call b (ih hq)

theorem Follows.uses {allowed : Call → Prop} (h : Follows p trace q) (hp : p.Uses allowed) : q.Uses allowed := by
  induction h with
  | refl p => exact hp
  | call a h ih => exact ih (hp.2 a)

namespace Thread

def start (p : Program Call Answer α) : Thread p := ⟨[], p, .refl p⟩

/-- The next call of the thread is answered. -/
def advance {c : Call} {next : Answer c → Program Call Answer α} (t : Thread p) (h : t.rest = .call c next)
    (a : Answer c) : Thread p :=
  ⟨t.trace ++ [⟨c, a⟩], next a, (h ▸ t.follows : Follows p t.trace (.call c next)).concat a⟩

end Thread

end Program
