import Mathlib.Data.List.Forall2
import Mathlib.Tactic.Common

/-!
# Runs of a guarded transition function

A system is a step function `step : σ → ε → σ` on states with an event `ε` for everything that can happen, and a
guard `ok s e` saying when the event may happen in the state `s`.  A run is a list of events.  `Admits` says that
every event of a run is allowed in the state in which it happens, and `invariant` is the induction rule: what one
allowed step preserves, a whole admitted run preserves.

A system that answers its events is a function `act : σ → ε → σ × ρ`.  `trace` lists the states and the replies of a
run, and `trace_simulation` compares two such systems: when a relation between their states is kept by every event and
gives equal replies, it holds along the whole of any run.
-/

namespace Run

variable {σ ε : Type*} (step : σ → ε → σ) (ok : σ → ε → Prop)

/-- The state after the events of a run. -/
def exec (s : σ) (es : List ε) : σ := es.foldl step s

/-- Every event of the run is allowed in the state in which it happens. -/
def Admits : σ → List ε → Prop
  | _, [] => True
  | s, e :: es => ok s e ∧ Admits (step s e) es

instance Admits.decidable [∀ s e, Decidable (ok s e)] : ∀ (s : σ) (es : List ε), Decidable (Admits step ok s es)
  | _, [] => .isTrue trivial
  | s, e :: es => @instDecidableAnd _ _ _ (Admits.decidable (step s e) es)

@[simp] theorem exec_nil (s : σ) : exec step s [] = s := rfl

@[simp] theorem exec_cons (s : σ) (e : ε) (es : List ε) :
    exec step s (e :: es) = exec step (step s e) es := rfl

theorem exec_append (s : σ) (es fs : List ε) :
    exec step s (es ++ fs) = exec step (exec step s es) fs := by
  unfold exec; exact List.foldl_append

theorem admits_append {s : σ} {es fs : List ε} :
    Admits step ok s (es ++ fs) ↔ Admits step ok s es ∧ Admits step ok (exec step s es) fs := by
  induction es generalizing s with
  | nil => simp [Admits]
  | cons e es ih => simp only [List.cons_append, Admits, ih, exec_cons, and_assoc]

theorem admits_and (ok' : σ → ε → Prop) {s : σ} {es : List ε} :
    Admits step (fun s e => ok s e ∧ ok' s e) s es ↔ Admits step ok s es ∧ Admits step ok' s es := by
  induction es generalizing s with
  | nil => simp [Admits]
  | cons e es ih => simp only [Admits, ih, and_and_and_comm]

/-- A guard that does not look at the state. -/
theorem admits_of_forall {allowed : ε → Prop} {es : List ε} (h : ∀ e ∈ es, allowed e) (s : σ) :
    Admits step (fun _ e => allowed e) s es := by
  induction es generalizing s with
  | nil => trivial
  | cons e es ih =>
    exact ⟨h e (List.mem_cons_self ..), ih (fun f hf => h f (List.mem_cons_of_mem _ hf)) (step s e)⟩

/-- A run that is not admitted has a first event that is not allowed. -/
theorem exists_of_not_admits {s : σ} {es : List ε} (h : ¬ Admits step ok s es) :
    ∃ before e after, es = before ++ e :: after ∧ Admits step ok s before ∧ ¬ ok (exec step s before) e := by
  induction es generalizing s with
  | nil => exact absurd trivial h
  | cons e es ih =>
    by_cases he : ok s e
    · obtain ⟨before, e', after, rfl, hbefore, hnot⟩ := ih fun hes => h ⟨he, hes⟩
      exact ⟨e :: before, e', after, rfl, ⟨he, hbefore⟩, hnot⟩
    · exact ⟨[], e, es, rfl, trivial, he⟩

variable {step ok}

/-- The invariant rule: what an allowed step preserves holds after every admitted run. -/
theorem invariant {Inv : σ → Prop} (hstep : ∀ s e, Inv s → ok s e → Inv (step s e)) {s : σ} {es : List ε}
    (hs : Inv s) (hes : Admits step ok s es) : Inv (exec step s es) := by
  induction es generalizing s with
  | nil => exact hs
  | cons e es ih => exact ih (hstep s e hs hes.1) hes.2

/-- A guard may use what the run keeps. -/
theorem admits_of_invariant {Inv : σ → Prop} {ok' : σ → ε → Prop} (hstep : ∀ s e, Inv s → ok s e → Inv (step s e))
    (hok : ∀ s e, Inv s → ok s e → ok' s e) {s : σ} {es : List ε} (hs : Inv s) (hes : Admits step ok s es) :
    Admits step ok' s es := by
  induction es generalizing s with
  | nil => trivial
  | cons e es ih => exact ⟨hok s e hs hes.1, ih (hstep s e hs hes.1) hes.2⟩

/-- The invariant rule where every event is allowed. -/
theorem keeps {Inv : σ → Prop} (hstep : ∀ s e, Inv s → Inv (step s e)) {s : σ} (hs : Inv s) (es : List ε) :
    Inv (exec step s es) := by
  induction es generalizing s with
  | nil => exact hs
  | cons e es ih => exact ih (hstep s e hs)

/-- A property that is lost exactly by the events that are not allowed holds all along the runs that are admitted, and
only along those. -/
theorem forall_exec_iff_admits {P : σ → Prop} (hstep : ∀ s e, P s → (P (step s e) ↔ ok s e)) {s : σ} (hs : P s)
    {es : List ε} : (∀ before after, es = before ++ after → P (exec step s before)) ↔ Admits step ok s es := by
  induction es generalizing s with
  | nil =>
    refine ⟨fun _ => trivial, fun _ before after heq => ?_⟩
    obtain ⟨rfl, -⟩ := List.append_eq_nil_iff.1 heq.symm
    exact hs
  | cons e es ih =>
    constructor
    · intro h
      have he : P (step s e) := h [e] es rfl
      refine ⟨(hstep s e hs).1 he, (ih he).1 fun before after heq => ?_⟩
      exact h (e :: before) after (by rw [heq]; rfl)
    · rintro ⟨hok, hes⟩ before after heq
      cases before with
      | nil => exact hs
      | cons f before =>
        obtain ⟨rfl, heq'⟩ := List.cons.inj heq
        exact (ih ((hstep s e hs).2 hok)).2 hes before after heq'

/-- A property that holds after a step exactly if it held before and the event was allowed, in the states of an
invariant. -/
theorem exec_iff_admits_of_inv {P Inv : σ → Prop} (hinv : ∀ s e, Inv s → Inv (step s e))
    (hstep : ∀ s e, Inv s → (P (step s e) ↔ P s ∧ ok s e)) {s : σ} (hs : Inv s) {es : List ε} :
    P (exec step s es) ↔ P s ∧ Admits step ok s es := by
  induction es generalizing s with
  | nil => exact (and_iff_left trivial).symm
  | cons e es ih => rw [exec_cons, ih (hinv s e hs), hstep s e hs, Admits, and_assoc]

theorem exec_iff_admits {P : σ → Prop} (hstep : ∀ s e, P (step s e) ↔ P s ∧ ok s e) {s : σ} {es : List ε} :
    P (exec step s es) ↔ P s ∧ Admits step ok s es := by
  have hinv : ∀ (s : σ) (e : ε), True → True := fun _ _ h => h
  exact exec_iff_admits_of_inv hinv (fun s e _ => hstep s e) trivial

/-- What is said of every event of a run and the events before it: of the first event and none, and of each later one
and the first with those between them. -/
theorem forall_split_cons {P : List ε → ε → Prop} {e : ε} {es : List ε} :
    (∀ before f after, e :: es = before ++ f :: after → P before f) ↔
      P [] e ∧ ∀ before f after, es = before ++ f :: after → P (e :: before) f := by
  constructor
  · intro h
    exact ⟨h [] e es rfl, fun before f after heq => h (e :: before) f after (by rw [heq]; rfl)⟩
  · rintro ⟨he, h⟩ before f after heq
    cases before with
    | nil =>
      obtain ⟨rfl, rfl⟩ := List.cons.inj heq
      exact he
    | cons y before =>
      obtain ⟨rfl, heq'⟩ := List.cons.inj heq
      exact h before f after heq'

/-! ### Refinement -/

section Translate

variable {τ δ : Type*} {step' : τ → δ → τ} {ok' : τ → δ → Prop} (step)

/-- The events of another system that an event stands for, along a run. -/
def translate (tr : σ → ε → List δ) : σ → List ε → List δ
  | _, [] => []
  | s, e :: es => tr s e ++ translate tr (step s e) es

/-- Events that stand for themselves. -/
theorem translate_self (s : σ) (es : List ε) : translate step (fun _ e => [e]) s es = es := by
  induction es generalizing s with
  | nil => rfl
  | cons e es ih => rw [translate, ih, List.singleton_append]

variable {step}

/-- A step of one system does what the other does for the events it stands for, in the states of an invariant, and is
allowed when they are; then so it is for whole runs, and the invariant is kept. -/
theorem exec_translate {tr : σ → ε → List δ} {abs : σ → τ} {Inv : σ → Prop} {good : ε → Prop}
    (hinv : ∀ s e, Inv s → good e → Inv (step s e))
    (habs : ∀ s e, Inv s → good e → abs (step s e) = exec step' (abs s) (tr s e))
    (hok : ∀ s e, Inv s → good e → (ok s e ↔ Admits step' ok' (abs s) (tr s e))) {s : σ} (hs : Inv s) {es : List ε}
    (hes : ∀ e ∈ es, good e) :
    Inv (exec step s es) ∧ abs (exec step s es) = exec step' (abs s) (translate step tr s es) ∧
      (Admits step ok s es ↔ Admits step' ok' (abs s) (translate step tr s es)) := by
  induction es generalizing s with
  | nil => exact ⟨hs, rfl, Iff.rfl⟩
  | cons e es ih =>
    obtain ⟨he, hes⟩ := List.forall_mem_cons.1 hes
    obtain ⟨hlast, hexec, hadmits⟩ := ih (hinv s e hs he) hes
    refine ⟨hlast, ?_, ?_⟩
    · rw [exec_cons, hexec, habs s e hs he, translate, exec_append]
    · rw [Admits, translate, admits_append, hok s e hs he, hadmits, habs s e hs he]

end Translate

/-! ### Systems with replies -/

section Trace

variable {τ ρ : Type*}

/-- The state after every event of a run, with the reply to it. -/
def trace (act : σ → ε → σ × ρ) : σ → List ε → List (σ × ρ)
  | _, [] => []
  | s, e :: es => act s e :: trace act (act s e).1 es

theorem trace_simulation {act : σ → ε → σ × ρ} {act' : τ → ε → τ × ρ} {R : σ → τ → Prop}
    (hact : ∀ s t e, R s t → R (act s e).1 (act' t e).1 ∧ (act s e).2 = (act' t e).2) {s : σ} {t : τ} (h : R s t)
    (es : List ε) :
    List.Forall₂ (fun p q => R p.1 q.1 ∧ p.2 = q.2) (trace act s es) (trace act' t es) := by
  induction es generalizing s t with
  | nil => exact .nil
  | cons e es ih => exact .cons (hact s t e h) (ih (hact s t e h).1)

end Trace

end Run
