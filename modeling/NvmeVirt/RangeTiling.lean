import Mathlib.Algebra.Ring.Nat
import Mathlib.Data.List.Basic

namespace NvmeVirt.RangeTiling

def Tiles (a : Nat) : List (Nat × Nat) → Nat → Prop
  | [], b => a = b
  | r :: rs, b => r.1 = a ∧ Tiles (a + r.2) rs b

variable {a b c : Nat} {rs ss : List (Nat × Nat)}

theorem tiles_append : Tiles a (rs ++ ss) c ↔ ∃ b, Tiles a rs b ∧ Tiles b ss c := by
  induction rs generalizing a with
  | nil => simp [Tiles]
  | cons r rs ih => simp [Tiles, ih, and_assoc]

theorem Tiles.concat (h : Tiles a rs b) (n : Nat) : Tiles a (rs ++ [(b, n)]) (b + n) :=
  tiles_append.2 ⟨b, h, rfl, rfl⟩

theorem Tiles.le (h : Tiles a rs b) : a ≤ b := by
  induction rs generalizing a with
  | nil => exact Nat.le_of_eq h
  | cons r rs ih => exact Nat.le_trans (Nat.le_add_right a r.2) (ih h.2)

theorem Tiles.start_le (h : Tiles a rs b) : ∀ r ∈ rs, a ≤ r.1 := by
  induction rs generalizing a with
  | nil => simp
  | cons r rs ih =>
      intro s hs
      rcases List.mem_cons.1 hs with rfl | hs
      · exact Nat.le_of_eq h.1.symm
      · exact Nat.le_trans (Nat.le_add_right a r.2) (ih h.2 s hs)

theorem Tiles.sum_lengths (h : Tiles a rs b) : a + (rs.map Prod.snd).sum = b := by
  induction rs generalizing a with
  | nil => exact h
  | cons r rs ih => rw [List.map_cons, List.sum_cons, ← Nat.add_assoc, ih h.2]

theorem Tiles.pairwise (h : Tiles a rs b) :
    rs.Pairwise fun r s => r.1 + r.2 ≤ s.1 := by
  induction rs generalizing a with
  | nil => exact List.Pairwise.nil
  | cons r rs ih =>
      refine List.Pairwise.cons ?_ (ih h.2)
      intro s hs
      rw [h.1]
      exact h.2.start_le s hs

theorem Tiles.covers (h : Tiles a rs b) (x : Nat) :
    (∃ r ∈ rs, r.1 ≤ x ∧ x < r.1 + r.2) ↔ a ≤ x ∧ x < b := by
  induction rs generalizing a with
  | nil =>
      obtain rfl : a = b := h
      constructor
      · rintro ⟨r, hr, -⟩
        simp at hr
      · omega
  | cons r rs ih =>
      obtain ⟨hstart, hrest⟩ := h
      have hle := hrest.le
      constructor
      · rintro ⟨s, hs, hlow, hhigh⟩
        rcases List.mem_cons.1 hs with rfl | hs
        · omega
        · have hcovered := (ih hrest).1 ⟨s, hs, hlow, hhigh⟩
          omega
      · intro hx
        by_cases hfirst : x < a + r.2
        · exact ⟨r, by simp, by omega, by omega⟩
        · obtain ⟨s, hs, hcovered⟩ := (ih hrest).2 ⟨by omega, hx.2⟩
          exact ⟨s, by simp [hs], hcovered⟩

end NvmeVirt.RangeTiling
