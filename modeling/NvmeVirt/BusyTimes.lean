import Mathlib.Data.List.Basic

namespace NvmeVirt.BusyTimes

section Fold

variable {α : Type}

theorem le_foldl {f : Nat → α → Nat} (hf : ∀ a x, a ≤ f a x) (l : List α) (a : Nat) :
    a ≤ l.foldl f a := by
  induction l generalizing a with
  | nil => exact Nat.le_refl a
  | cons x l ih => exact Nat.le_trans (hf a x) (ih (f a x))

theorem le_foldl_of_mem {f : Nat → α → Nat} (hf : ∀ a x, a ≤ f a x) {l : List α} {x : α}
    (hx : x ∈ l) {v : Nat} (hv : ∀ a, v ≤ f a x) (a : Nat) : v ≤ l.foldl f a := by
  obtain ⟨l₁, l₂, rfl⟩ := List.append_of_mem hx
  rw [List.foldl_append, List.foldl_cons]
  exact Nat.le_trans (hv _) (le_foldl hf l₂ _)

end Fold

variable {κ : Type} {keys : List κ} {times times' : κ → Nat} {answers : List Nat}

/-- The time when all of `keys` are idle, but not before `start`. -/
def idleTime (times : κ → Nat) (keys : List κ) (start : Nat) : Nat :=
  keys.foldl (fun latest k => max latest (times k)) start

theorem le_idleTime {k : κ} (hk : k ∈ keys) (start : Nat) :
    times k ≤ idleTime times keys start := by
  refine le_foldl_of_mem ?_ hk ?_ start
  · exact fun _ _ => Nat.le_max_left _ _
  · exact fun _ => Nat.le_max_right _ _

/-- Every answer given so far is a time that some server is busy until. -/
def Waits (times : κ → Nat) (keys : List κ) (answers : List Nat) : Prop :=
  ∀ t ∈ answers, ∃ k ∈ keys, t ≤ times k

theorem Waits.mono (h : Waits times keys answers) (hle : ∀ k, times k ≤ times' k) :
    Waits times' keys answers := by
  intro t ht
  obtain ⟨k, hk, hkt⟩ := h t ht
  exact ⟨k, hk, Nat.le_trans hkt (hle k)⟩

theorem Waits.answer (h : Waits times keys answers) {k : κ} (hk : k ∈ keys) {t : Nat}
    (ht : t ≤ times k) : Waits times keys (answers ++ [t]) := by
  intro t' ht'
  rcases List.mem_append.1 ht' with ht' | ht'
  · exact h t' ht'
  · obtain rfl := List.mem_singleton.1 ht'
    exact ⟨k, hk, ht⟩

theorem Waits.le_idleTime (h : Waits times keys answers) {t : Nat} (ht : t ∈ answers)
    (start : Nat) : t ≤ idleTime times keys start := by
  obtain ⟨k, hk, hkt⟩ := h t ht
  exact Nat.le_trans hkt (BusyTimes.le_idleTime hk start)

end NvmeVirt.BusyTimes
