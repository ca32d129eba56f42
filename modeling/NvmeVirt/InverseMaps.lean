import Mathlib.Logic.Function.Basic
import Mathlib.Tactic.Common

/-!
A forward map and a reverse map that are mutually inverse on the live
places, as a page mapping and its reverse mapping are. While places are being
relocated, the ones already copied are still live but no longer current; they
are the `moved` places, which nothing maps to.
-/

namespace NvmeVirt.InverseMaps

variable {L P I : Type*}

/-- Every key maps to a live current place whose reverse entry is that key, and
every live current place is the image of its reverse entry. -/
structure Inverse (idx : P → I) (ok live moved : P → Prop)
    (fwd : L → Option P) (bwd : I → Option L) : Prop where
  place : ∀ l p, fwd l = some p → ok p ∧ live p ∧ ¬ moved p ∧ bwd (idx p) = some l
  owner : ∀ p, ok p → live p → ¬ moved p →
    ∃ l, bwd (idx p) = some l ∧ fwd l = some p

namespace Inverse

variable {idx : P → I} {ok live moved live' moved' : P → Prop}
  {fwd : L → Option P} {bwd : I → Option L} {l : L} {p : P}

theorem key_eq (h : Inverse idx ok live moved fwd bwd) {k : L}
    (hl : fwd l = some p) (hk : fwd k = some p) : k = l := by
  obtain ⟨-, -, -, hbl⟩ := h.place l p hl
  obtain ⟨-, -, -, hbk⟩ := h.place k p hk
  rw [hbl] at hbk
  exact (Option.some.inj hbk).symm

theorem congr (h : Inverse idx ok live moved fwd bwd)
    (hlive : ∀ q, ok q → (live' q ↔ live q))
    (hmoved : ∀ q, ok q → live q → (moved' q ↔ moved q)) :
    Inverse idx ok live' moved' fwd bwd := by
  refine ⟨?_, ?_⟩
  · intro k q hk
    obtain ⟨hok, hq, hm, hb⟩ := h.place k q hk
    exact ⟨hok, (hlive q hok).mpr hq, fun hm' => hm ((hmoved q hok hq).mp hm'), hb⟩
  · intro q hok hq hm
    have hq' := (hlive q hok).mp hq
    exact h.owner q hok hq' fun hm' => hm ((hmoved q hok hq').mpr hm')

variable [DecidableEq L]

theorem drop [DecidableEq I] (h : Inverse idx ok live moved fwd bwd)
    (hinj : ∀ p q, ok p → ok q → idx p = idx q → p = q) (hl : fwd l = some p) :
    Inverse idx ok (fun q => live q ∧ q ≠ p) moved
      (Function.update fwd l none) (Function.update bwd (idx p) none) := by
  obtain ⟨hokp, -, -, -⟩ := h.place l p hl
  have hidx : ∀ q, ok q → q ≠ p → idx q ≠ idx p := by
    intro q hq hne heq
    exact hne (hinj q p hq hokp heq)
  refine ⟨?_, ?_⟩
  · intro k q hk
    by_cases hkl : k = l
    · subst hkl
      simp at hk
    · rw [Function.update_of_ne hkl] at hk
      obtain ⟨hok, hq, hm, hb⟩ := h.place k q hk
      have hqp : q ≠ p := by
        rintro rfl
        exact hkl (h.key_eq hl hk)
      refine ⟨hok, ⟨hq, hqp⟩, hm, ?_⟩
      rw [Function.update_of_ne (hidx q hok hqp), hb]
  · rintro q hok ⟨hq, hqp⟩ hm
    obtain ⟨k, hb, hk⟩ := h.owner q hok hq hm
    have hkl : k ≠ l := by
      rintro rfl
      exact hqp (Option.some.inj (hk.symm.trans hl))
    refine ⟨k, ?_, ?_⟩
    · rw [Function.update_of_ne (hidx q hok hqp), hb]
    · rw [Function.update_of_ne hkl, hk]

theorem forget (h : Inverse idx ok live moved fwd bwd) (hl : fwd l = some p) :
    Inverse idx ok live (fun q => moved q ∨ q = p)
      (Function.update fwd l none) bwd := by
  refine ⟨?_, ?_⟩
  · intro k q hk
    by_cases hkl : k = l
    · subst hkl
      simp at hk
    · rw [Function.update_of_ne hkl] at hk
      obtain ⟨hok, hq, hm, hb⟩ := h.place k q hk
      refine ⟨hok, hq, ?_, hb⟩
      rintro (hm' | rfl)
      · exact hm hm'
      · exact hkl (h.key_eq hl hk)
  · intro q hok hq hm
    obtain ⟨k, hb, hk⟩ := h.owner q hok hq fun hm' => hm (Or.inl hm')
    have hkl : k ≠ l := by
      rintro rfl
      exact hm (Or.inr (Option.some.inj (hk.symm.trans hl)))
    exact ⟨k, hb, by rw [Function.update_of_ne hkl, hk]⟩

theorem put [DecidableEq I] (h : Inverse idx ok live moved fwd bwd)
    (hinj : ∀ p q, ok p → ok q → idx p = idx q → p = q) (hl : fwd l = none)
    (hok : ok p) (hdead : ¬ live p) (hmoved : ¬ moved p) :
    Inverse idx ok (fun q => live q ∨ q = p) moved
      (Function.update fwd l (some p)) (Function.update bwd (idx p) (some l)) := by
  have hidx : ∀ q, ok q → live q → idx q ≠ idx p := by
    intro q hq hlive heq
    exact hdead (hinj q p hq hok heq ▸ hlive)
  refine ⟨?_, ?_⟩
  · intro k q hk
    by_cases hkl : k = l
    · subst hkl
      rw [Function.update_self] at hk
      obtain rfl := Option.some.inj hk
      exact ⟨hok, Or.inr rfl, hmoved, by simp⟩
    · rw [Function.update_of_ne hkl] at hk
      obtain ⟨hokq, hq, hm, hb⟩ := h.place k q hk
      refine ⟨hokq, Or.inl hq, hm, ?_⟩
      rw [Function.update_of_ne (hidx q hokq hq), hb]
  · intro q hokq hq hm
    by_cases hqp : q = p
    · subst hqp
      exact ⟨l, by simp, by simp⟩
    · have hlive : live q := hq.resolve_right hqp
      obtain ⟨k, hb, hk⟩ := h.owner q hokq hlive hm
      have hkl : k ≠ l := by
        rintro rfl
        rw [hl] at hk
        exact absurd hk (by simp)
      refine ⟨k, ?_, ?_⟩
      · rw [Function.update_of_ne (hidx q hokq hlive), hb]
      · rw [Function.update_of_ne hkl, hk]

omit [DecidableEq L] in
/-- Places that nothing current lives on may die. -/
theorem release (h : Inverse idx ok live moved fwd bwd) {R : P → Prop}
    (hR : ∀ q, R q → live q → moved q) :
    Inverse idx ok (fun q => live q ∧ ¬ R q) moved fwd bwd := by
  refine ⟨?_, ?_⟩
  · intro k q hk
    obtain ⟨hok, hq, hm, hb⟩ := h.place k q hk
    exact ⟨hok, ⟨hq, fun hr => hm (hR q hr hq)⟩, hm, hb⟩
  · rintro q hok ⟨hq, -⟩ hm
    exact h.owner q hok hq hm

end Inverse

end NvmeVirt.InverseMaps
