import Mathlib.Tactic.Common

/-!
# Programs that ask an environment

A `Prog S α` is a program that may put questions of a signature `S` to its
environment and go on with each answer; it ends with an `α`.  What the questions
mean is left to a `Handler`, so one program text is run against several
environments: an abstract one to say what the program is for, and the real one.

* `run`: the program against a handler that always answers.
* `run_preserves`: what every answer preserves, the whole run preserves.
* `run_simulates`: two handlers that answer alike and keep a relation between
  their states give runs that end alike and keep it.
* `run_simulates_of_asks`: the same for the questions that the program asks (`Asks`).
* `run_translate`: questions may be answered by programs.
* `run_inl`: a program is also one over a larger signature, and runs as before.
-/

namespace OnionRelay.Lib

/-- The questions a program may ask, and the type of the answer to each. -/
structure Sig where
  Op : Type
  Resp : Op → Type

/-- A program over `S`: it is done, or it asks and goes on with the answer. -/
inductive Prog (S : Sig) (α : Type) : Type
  | ret (a : α) : Prog S α
  | ask (o : S.Op) (k : S.Resp o → Prog S α) : Prog S α

/-- An environment with states `σ`. -/
abbrev Handler (S : Sig) (σ : Type) := (o : S.Op) → σ → S.Resp o × σ

namespace Prog

variable {S : Sig} {α β σ τ : Type}

protected def bind : Prog S α → (α → Prog S β) → Prog S β
  | ret a, f => f a
  | ask o k, f => ask o (fun r => (k r).bind f)

instance : Monad (Prog S) where
  pure := ret
  bind := Prog.bind

/-- One question. -/
def call (o : S.Op) : Prog S (S.Resp o) := ask o ret

def run (h : Handler S σ) : Prog S α → σ → α × σ
  | ret a, s => (a, s)
  | ask o k, s => run h (k (h o s).1) (h o s).2

@[simp] theorem run_pure (h : Handler S σ) (a : α) (s : σ) :
    run h (pure a : Prog S α) s = (a, s) := (rfl)

@[simp] theorem run_call (h : Handler S σ) (o : S.Op) (s : σ) : run h (call o) s = h o s := (rfl)

@[simp] theorem run_bind (h : Handler S σ) (p : Prog S α) (f : α → Prog S β) (s : σ) :
    run h (p >>= f) s = run h (f (run h p s).1) (run h p s).2 := by
  induction p generalizing s with
  | ret a => rfl
  | ask o k ih => exact ih (h o s).1 (h o s).2

@[simp] theorem run_ite (h : Handler S σ) (c : Prop) [Decidable c] (p q : Prog S α) (s : σ) :
    run h (if c then p else q) s = if c then run h p s else run h q s := by
  split <;> rfl

/-- **The invariant rule.**  What each answer preserves, a run preserves. -/
theorem run_preserves {h : Handler S σ} {I : σ → Prop} (hI : ∀ o s, I s → I (h o s).2)
    (p : Prog S α) {s : σ} (hs : I s) : I (run h p s).2 := by
  induction p generalizing s with
  | ret a => exact hs
  | ask o k ih => exact ih _ (hI o s hs)

/-- **The simulation rule.** -/
theorem run_simulates {h : Handler S σ} {g : Handler S τ} {R : σ → τ → Prop}
    (hR : ∀ o s t, R s t → (h o s).1 = (g o t).1 ∧ R (h o s).2 (g o t).2)
    (p : Prog S α) {s : σ} {t : τ} (hst : R s t) :
    (run h p s).1 = (run g p t).1 ∧ R (run h p s).2 (run g p t).2 := by
  induction p generalizing s t with
  | ret a => exact ⟨rfl, hst⟩
  | ask o k ih =>
    obtain ⟨hr, hs⟩ := hR o s t hst
    have := ih (h o s).1 hs
    rwa [show run g (ask o k) t = run g (k (h o s).1) (g o t).2 by rw [hr]; rfl]

/-! ### Programs that ask some questions only -/

/-- The program asks nothing but `P`. -/
def Asks (P : S.Op → Prop) : Prog S α → Prop
  | ret _ => True
  | ask o k => P o ∧ ∀ r, (k r).Asks P

section Asks

variable {P : S.Op → Prop}

@[simp] theorem asks_pure (a : α) : (pure a : Prog S α).Asks P := trivial

@[simp] theorem asks_call (o : S.Op) : (call o : Prog S (S.Resp o)).Asks P ↔ P o :=
  and_iff_left fun _ => trivial

theorem Asks.bind {p : Prog S α} {f : α → Prog S β} (hp : p.Asks P) (hf : ∀ a, (f a).Asks P) :
    (p >>= f).Asks P := by
  induction p with
  | ret a => exact hf a
  | ask o k ih => exact ⟨hp.1, fun r => ih r (hp.2 r)⟩

theorem Asks.call_bind {o : S.Op} {f : S.Resp o → Prog S β} (ho : P o) (hf : ∀ r, (f r).Asks P) :
    (call o >>= f).Asks P :=
  .bind ((asks_call o).mpr ho) hf

/-- The simulation rule for the questions that are asked. -/
theorem run_simulates_of_asks {h : Handler S σ} {g : Handler S τ} {R : σ → τ → Prop}
    (hR : ∀ o s t, P o → R s t → (h o s).1 = (g o t).1 ∧ R (h o s).2 (g o t).2) {p : Prog S α}
    (hp : p.Asks P) {s : σ} {t : τ} (hst : R s t) :
    (run h p s).1 = (run g p t).1 ∧ R (run h p s).2 (run g p t).2 := by
  induction p generalizing s t with
  | ret a => exact ⟨rfl, hst⟩
  | ask o k ih =>
    obtain ⟨hr, hs⟩ := hR o s t hp.1 hst
    have := ih (h o s).1 (hp.2 _) hs
    rwa [show run g (ask o k) t = run g (k (h o s).1) (g o t).2 by rw [hr]; rfl]

/-- The invariant rule for the questions that are asked. -/
theorem run_preserves_of_asks {h : Handler S σ} {I : σ → Prop} (hI : ∀ o s, P o → I s → I (h o s).2)
    {p : Prog S α} (hp : p.Asks P) {s : σ} (hs : I s) : I (run h p s).2 := by
  induction p generalizing s with
  | ret a => exact hs
  | ask o k ih => exact ih _ (hp.2 _) (hI o s hp.1 hs)

end Asks

/-! ### Questions answered by programs -/

/-- The program with each question replaced by a program over another signature. -/
def translate {T : Sig} (f : (o : S.Op) → Prog T (S.Resp o)) : Prog S α → Prog T α
  | ret a => ret a
  | ask o k => (f o).bind fun r => (k r).translate f

theorem run_translate {T : Sig} (h : Handler T σ) (f : (o : S.Op) → Prog T (S.Resp o)) (p : Prog S α)
    (s : σ) : run h (p.translate f) s = run (fun o s => run h (f o) s) p s := by
  induction p generalizing s with
  | ret a => rfl
  | ask o k ih =>
    rw [translate, show (f o).bind (fun r => (k r).translate f) = f o >>= fun r => (k r).translate f from rfl,
      run_bind, ih]
    rfl

end Prog

/-! ## Two signatures side by side -/

/-- The questions of both. -/
def Sig.sum (S T : Sig) : Sig := ⟨S.Op ⊕ T.Op, Sum.elim S.Resp T.Resp⟩

/-- Each answers its own questions, on one state. -/
def Handler.sum {S T : Sig} {σ : Type} (h : Handler S σ) (g : Handler T σ) : Handler (S.sum T) σ
  | .inl o, s => h o s
  | .inr o, s => g o s

/-- Each answers its own questions, on a state of its own. -/
def Handler.beside {S T : Sig} {σ τ : Type} (h : Handler S σ) (g : Handler T τ) :
    Handler (S.sum T) (σ × τ)
  | .inl o, s => ((h o s.1).1, (h o s.1).2, s.2)
  | .inr o, s => ((g o s.2).1, s.1, (g o s.2).2)

namespace Prog

variable {S T : Sig} {α σ : Type}

/-- A program that asks the first only. -/
def inl : Prog S α → Prog (S.sum T) α
  | ret a => ret a
  | ask o k => ask (S := S.sum T) (.inl o) fun r => (k r).inl

@[simp] theorem run_inl (h : Handler S σ) (g : Handler T σ) (p : Prog S α) (s : σ) :
    run (h.sum g) (p.inl : Prog (S.sum T) α) s = run h p s := by
  induction p generalizing s with
  | ret a => rfl
  | ask o k ih => exact ih (h o s).1 (h o s).2

@[simp] theorem run_inl_beside {τ : Type} (h : Handler S σ) (g : Handler T τ) (p : Prog S α)
    (s : σ × τ) : run (h.beside g) (p.inl : Prog (S.sum T) α) s =
      ((run h p s.1).1, (run h p s.1).2, s.2) := by
  induction p generalizing s with
  | ret a => rfl
  | ask o k ih => exact ih (h o s.1).1 ((h o s.1).2, s.2)

theorem Asks.inl {P : S.Op → Prop} {Q : (S.sum T).Op → Prop} (hPQ : ∀ o, P o → Q (.inl o)) {p : Prog S α}
    (hp : p.Asks P) : (p.inl : Prog (S.sum T) α).Asks Q := by
  induction p with
  | ret a => exact trivial
  | ask o k ih => exact ⟨hPQ o hp.1, fun r => ih r (hp.2 r)⟩

end Prog

end OnionRelay.Lib
