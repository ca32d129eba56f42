import Mathlib.Logic.Function.Basic
import NvmeVirt.FaultOutcome

namespace NvmeVirt.LocalSteps

open FaultOutcome

universe u v w x

variable {ε : Type u} {α β σ : Type v} {ι : Type w} [DecidableEq ι] {view : σ → ι → β}

/-- In state `s` the step `f` answers as `g` does on component `i`, and leaves the
components that `g` leaves there. -/
def ActsOn (view : σ → ι → β) (f : σ → Except ε (α × σ)) (i : ι)
    (g : β → Except ε (α × β)) (s : σ) : Prop :=
  (f s).map (fun a => (a.1, view a.2)) =
    (g (view s i)).map fun a => (a.1, Function.update (view s) i a.2)

def inOrder (f₁ f₂ : σ → Except ε (α × σ)) (s : σ) : Except ε ((α × α) × σ) := do
  let a ← f₁ s
  let b ← f₂ a.2
  return ((a.1, b.1), b.2)

variable {f f₁ f₂ : σ → Except ε (α × σ)} {g g₁ g₂ : β → Except ε (α × β)} {i j : ι}
  {s s' : σ}

theorem ActsOn.congr (h : ActsOn view f i g s) {g' : β → Except ε (α × β)}
    (hg : g (view s i) = g' (view s i)) : ActsOn view f i g' s := by
  rw [ActsOn, ← hg]
  exact h

theorem ActsOn.error (h : ActsOn view f i g s) {e : ε} (hg : g (view s i) = .error e) :
    f s = .error e := by
  rw [ActsOn, hg] at h
  cases hf : f s with
  | error e' =>
      rw [hf] at h
      cases h
      rfl
  | ok a =>
      rw [hf] at h
      cases h

theorem ActsOn.ok (h : ActsOn view f i g s) {a : α} {b : β} (hg : g (view s i) = .ok (a, b)) :
    ∃ s', f s = .ok (a, s') ∧ view s' = Function.update (view s) i b := by
  rw [ActsOn, hg] at h
  cases hf : f s with
  | error e =>
      rw [hf] at h
      cases h
  | ok r =>
      rw [hf] at h
      obtain ⟨a', s'⟩ := r
      have hpair := Except.ok.inj h
      refine ⟨s', ?_, congrArg Prod.snd hpair⟩
      obtain rfl : a' = a := congrArg Prod.fst hpair
      rfl

/-- Steps on different components give the same answers in both orders and leave
the same components, if no two faults of theirs differ. -/
theorem inOrder_comm (hne : i ≠ j) (h₁ : ActsOn view f₁ i g₁ s) (h₂ : ActsOn view f₂ j g₂ s)
    (h₁' : ∀ a s', f₂ s = .ok (a, s') → ActsOn view f₁ i g₁ s')
    (h₂' : ∀ a s', f₁ s = .ok (a, s') → ActsOn view f₂ j g₂ s')
    (hfault : ∀ e e', g₁ (view s i) = .error e → g₂ (view s j) = .error e' → e = e') :
    (inOrder f₁ f₂ s).map (fun r => (r.1, view r.2)) =
      (inOrder f₂ f₁ s).map fun r => ((r.1.2, r.1.1), view r.2) := by
  rw [inOrder, inOrder]
  cases hg₁ : g₁ (view s i) with
  | error e =>
      rw [h₁.error hg₁]
      cases hg₂ : g₂ (view s j) with
      | error e' =>
          rw [h₂.error hg₂, hfault e e' hg₁ hg₂]
          rfl
      | ok b =>
          obtain ⟨b, y⟩ := b
          obtain ⟨s₂, hs₂, hview₂⟩ := h₂.ok hg₂
          have hkept : view s₂ i = view s i := by
            rw [hview₂, Function.update_of_ne hne]
          have hlast := (h₁' b s₂ hs₂).error (by rw [hkept]; exact hg₁)
          rw [hs₂, ok_bind, hlast]
          rfl
  | ok a =>
      obtain ⟨a, x⟩ := a
      obtain ⟨s₁, hs₁, hview₁⟩ := h₁.ok hg₁
      have hkept₁ : view s₁ j = view s j := by
        rw [hview₁, Function.update_of_ne hne.symm]
      cases hg₂ : g₂ (view s j) with
      | error e =>
          have hlast := (h₂' a s₁ hs₁).error (by rw [hkept₁]; exact hg₂)
          rw [hs₁, ok_bind, hlast, h₂.error hg₂]
          rfl
      | ok b =>
          obtain ⟨b, y⟩ := b
          obtain ⟨s₂, hs₂, hview₂⟩ := h₂.ok hg₂
          have hkept₂ : view s₂ i = view s i := by
            rw [hview₂, Function.update_of_ne hne]
          obtain ⟨t₁, ht₁, hlast₁⟩ := (h₂' a s₁ hs₁).ok (by rw [hkept₁]; exact hg₂)
          obtain ⟨t₂, ht₂, hlast₂⟩ := (h₁' b s₂ hs₂).ok (by rw [hkept₂]; exact hg₁)
          have hviews : view t₁ = view t₂ := by
            rw [hlast₁, hlast₂, hview₁, hview₂, Function.update_comm hne]
          rw [hs₁, hs₂, ok_bind, ok_bind, ht₁, ht₂, ok_bind, ok_bind]
          exact congrArg (fun v => Except.ok ((a, b), v)) hviews

end NvmeVirt.LocalSteps
