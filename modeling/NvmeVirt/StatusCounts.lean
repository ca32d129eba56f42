import Mathlib.Data.Finset.Card

namespace NvmeVirt.StatusCounts

variable {α β : Type*} [DecidableEq α] [DecidableEq β]

def countOf (A : Finset α) (f : α → β) (b : β) : Nat :=
  (A.filter fun a => f a = b).card

variable {A : Finset α} {f g : α → β} {a : α} {b c : β}

omit [DecidableEq α] in
theorem countOf_congr (h : ∀ a ∈ A, f a = g a) : countOf A f b = countOf A g b := by
  unfold countOf
  congr 1
  apply Finset.filter_congr
  intro a ha
  rw [h a ha]

omit [DecidableEq α] in
theorem countOf_le_card (A : Finset α) (f : α → β) (b : β) :
    countOf A f b ≤ A.card :=
  Finset.card_filter_le _ _

omit [DecidableEq α] in
theorem countOf_pos (ha : a ∈ A) (hb : f a = b) : 0 < countOf A f b :=
  Finset.card_pos.mpr ⟨a, Finset.mem_filter.mpr ⟨ha, hb⟩⟩

omit [DecidableEq α] in
theorem countOf_lt_card (ha : a ∈ A) (hb : f a ≠ b) : countOf A f b < A.card := by
  apply Finset.card_lt_card
  refine ⟨Finset.filter_subset _ _, ?_⟩
  intro hsub
  exact hb (Finset.mem_filter.mp (hsub ha)).2

omit [DecidableEq α] in
theorem countOf_eq_card : countOf A f b = A.card ↔ ∀ a ∈ A, f a = b := by
  constructor
  · intro h a ha
    by_contra hne
    have hlt := countOf_lt_card ha hne
    omega
  · intro h
    unfold countOf
    rw [Finset.filter_true_of_mem h]

omit [DecidableEq α] in
theorem countOf_eq_zero : countOf A f b = 0 ↔ ∀ a ∈ A, f a ≠ b := by
  unfold countOf
  rw [Finset.card_eq_zero, Finset.filter_eq_empty_iff]

omit [DecidableEq α] in
theorem exists_of_countOf_pos (h : 0 < countOf A f b) : ∃ a ∈ A, f a = b := by
  obtain ⟨a, ha⟩ := Finset.card_pos.mp h
  exact ⟨a, (Finset.mem_filter.mp ha).1, (Finset.mem_filter.mp ha).2⟩

theorem countOf_update_of_notMem (ha : a ∉ A) :
    countOf A (Function.update f a c) b = countOf A f b := by
  apply countOf_congr
  intro x hx
  rw [Function.update_of_ne]
  rintro rfl
  exact ha hx

theorem countOf_update_gain (ha : a ∈ A) (hne : f a ≠ c) :
    countOf A (Function.update f a c) c = countOf A f c + 1 := by
  have hset : (A.filter fun x => Function.update f a c x = c) =
      insert a (A.filter fun x => f x = c) := by
    ext x
    by_cases hx : x = a
    · subst hx
      simp [ha]
    · simp [hx]
  unfold countOf
  rw [hset, Finset.card_insert_of_notMem]
  simp [hne]

theorem countOf_update_lose (ha : a ∈ A) (hb : f a = b) (hne : b ≠ c) :
    countOf A (Function.update f a c) b + 1 = countOf A f b := by
  have hset : (A.filter fun x => Function.update f a c x = b) =
      (A.filter fun x => f x = b).erase a := by
    ext x
    by_cases hx : x = a
    · subst hx
      simp [hne.symm]
    · simp [hx]
  have hmem : a ∈ A.filter fun x => f x = b := Finset.mem_filter.mpr ⟨ha, hb⟩
  unfold countOf
  rw [hset, Finset.card_erase_add_one hmem]

theorem countOf_update_other (hb : f a ≠ b) (hne : b ≠ c) :
    countOf A (Function.update f a c) b = countOf A f b := by
  unfold countOf
  congr 1
  apply Finset.filter_congr
  intro x _
  by_cases hx : x = a
  · subst hx
    simp [hb, hne.symm]
  · simp [hx]

theorem countOf_update_toNat {p : α → Bool} (ha : a ∈ A) (v : Bool) :
    countOf A (Function.update p a v) true + (p a).toNat = countOf A p true + v.toNat := by
  cases hold : p a with
  | true =>
      cases v with
      | true =>
          have hsame : Function.update p a true = p := by
            rw [← hold, Function.update_eq_self]
          rw [hsame]
      | false => exact countOf_update_lose ha hold (by simp)
  | false =>
      cases v with
      | true => exact countOf_update_gain ha (by simp [hold])
      | false =>
          have hsame : Function.update p a false = p := by
            rw [← hold, Function.update_eq_self]
          rw [hsame]

end NvmeVirt.StatusCounts
