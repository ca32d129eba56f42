import Mathlib.Logic.Basic
import Mathlib.Logic.Relation

/-!
Postconditions for fallible computations. `Outcome x P E` says that `x` ends
either in a value satisfying `P` or in a fault satisfying `E`; the rules below
follow the structure of a program: sequencing, guards and bounded loops.
-/

namespace NvmeVirt.FaultOutcome

universe u v w

variable {ε : Type u} {α : Type v} {β : Type v}

/-- The computation returns a value satisfying `P` or fails as `E` allows. -/
def Outcome (x : Except ε α) (P : α → Prop) (E : ε → Prop) : Prop :=
  match x with
  | .ok a => P a
  | .error e => E e

@[simp] theorem ok_bind (a : α) (f : α → Except ε β) : (Except.ok a >>= f) = f a := rfl

theorem exists_of_bind_eq_ok {x : Except ε α} {f : α → Except ε β} {b : β}
    (h : (x >>= f) = .ok b) : ∃ a, x = .ok a ∧ f a = .ok b := by
  cases x with
  | error e => cases h
  | ok a => exact ⟨a, rfl, h⟩

/-- A test of the value a computation returns, to be run on closed terms. -/
def returns (x : Except ε α) (p : α → Bool) : Bool :=
  match x with
  | .ok a => p a
  | .error _ => false

theorem exists_of_returns {x : Except ε α} {p : α → Bool} (h : returns x p = true) :
    ∃ a, x = .ok a ∧ p a = true := by
  cases x with
  | error e => cases h
  | ok a => exact ⟨a, rfl, h⟩

theorem reflTransGen_of_foldlM {σ : Type v} {ι : Type w} {f : σ → ι → Except ε σ}
    {R : σ → σ → Prop} {s s' : σ} (events : List ι)
    (hR : ∀ event ∈ events, ∀ s s', f s event = .ok s' → R s s')
    (h : events.foldlM f s = .ok s') : Relation.ReflTransGen R s s' := by
  induction events generalizing s with
  | nil =>
      cases h
      exact .refl
  | cons event events ih =>
      rw [List.foldlM_cons] at h
      obtain ⟨next, hnext, h⟩ := exists_of_bind_eq_ok h
      exact .head (hR event List.mem_cons_self s next hnext)
        (ih (fun e he => hR e (List.mem_cons_of_mem _ he)) h)

namespace Outcome

variable {x : Except ε α} {f : α → Except ε β} {P P' : α → Prop} {Q : β → Prop}
  {E E' : ε → Prop}

theorem pure {a : α} (h : P a) : Outcome (Pure.pure a : Except ε α) P E := h

theorem ok {a : α} (h : P a) : Outcome (Except.ok a : Except ε α) P E := h

theorem bind (hx : Outcome x P E) (hf : ∀ a, P a → Outcome (f a) Q E) :
    Outcome (x >>= f) Q E := by
  cases x with
  | ok a => exact hf a hx
  | error e => exact hx

theorem imp (hx : Outcome x P E) (hP : ∀ a, P a → P' a) (hE : ∀ e, E e → E' e) :
    Outcome x P' E' := by
  cases x with
  | ok a => exact hP a hx
  | error e => exact hE e hx

theorem and_right (hx : Outcome x P E) (hx' : Outcome x P' E') :
    Outcome x (fun a => P a ∧ P' a) E := by
  cases x with
  | ok a => exact ⟨hx, hx'⟩
  | error e => exact hx

theorem of_eq_ok {a : α} (hx : x = .ok a) (h : P a) : Outcome x P E := by
  subst hx
  exact h

theorem of_value (h : ∀ a, x = .ok a → P a) : Outcome x P fun _ => True := by
  cases x with
  | ok a => exact h a rfl
  | error e => trivial

theorem value {a : α} (hx : Outcome x P E) (h : x = .ok a) : P a := by
  subst h
  exact hx

theorem exists_ok (hx : Outcome x P fun _ => False) : ∃ a, x = .ok a ∧ P a := by
  cases x with
  | ok a => exact ⟨a, rfl, hx⟩
  | error e => exact hx.elim

theorem fault {e : ε} (hx : Outcome x P E) (h : x = .error e) : E e := by
  subst h
  exact hx

/-- A loop whose body keeps `I` for every element it meets keeps `I`. -/
theorem foldlM {γ : Type w} {g : α → γ → Except ε α} {xs : List γ} {a : α}
    (h : P a) (hstep : ∀ c ∈ xs, ∀ b, P b → Outcome (g b c) P E) :
    Outcome (xs.foldlM g a) P E := by
  induction xs generalizing a with
  | nil => exact h
  | cons c xs ih =>
      rw [List.foldlM_cons]
      refine bind (hstep c (by simp) a h) ?_
      intro b hb
      exact ih hb fun d hd => hstep d (by simp [hd])

/-- A counting loop: `I i` holds before round `i`. -/
theorem foldlM_range' {g : α → Nat → Except ε α} {I : Nat → α → Prop}
    {m n : Nat} {a : α} (h : I m a)
    (hstep : ∀ i, m ≤ i → i < m + n → ∀ b, I i b →
      Outcome (g b i) (I (i + 1)) E) :
    Outcome ((List.range' m n).foldlM g a) (I (m + n)) E := by
  induction n generalizing m a with
  | zero => exact h
  | succ n ih =>
      rw [List.range'_succ, List.foldlM_cons]
      refine bind (hstep m (by omega) (by omega) a h) ?_
      intro b hb
      have hrest := ih (m := m + 1) hb fun i hlo hhi =>
        hstep i (by omega) (by omega)
      rwa [Nat.add_assoc, Nat.add_comm 1 n] at hrest

theorem foldlM_range {g : α → Nat → Except ε α} {I : Nat → α → Prop}
    {n : Nat} {a : α} (h : I 0 a)
    (hstep : ∀ i, i < n → ∀ b, I i b → Outcome (g b i) (I (i + 1)) E) :
    Outcome ((List.range n).foldlM g a) (I n) E := by
  rw [List.range_eq_range']
  have hloop := foldlM_range' (m := 0) (n := n) h
    fun i _ hi => hstep i (by omega)
  rwa [Nat.zero_add] at hloop

end Outcome

end NvmeVirt.FaultOutcome
