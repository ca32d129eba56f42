import Mathlib.Logic.Function.Basic
import NvmeVirt.PhaseRing

namespace NvmeVirt.RingFifo

open PhaseRing

variable {ε : Type} {n tail head a b i : Nat} {slots : Nat → ε} {xs : List ε}

theorem ringSlots_eq_map (ha : a < n) (hb : b < n) :
    ringSlots n a b = (List.range (distance n a b)).map fun i => (a + i) % n := by
  rw [ringSlots]
  split
  case isTrue hle =>
    have hdistance : distance n a b = b - a := by
      have hsum : b + n - a = b - a + n := by omega
      rw [distance, hsum, Nat.add_mod_right, Nat.mod_eq_of_lt (by omega)]
    rw [hdistance, List.range'_eq_map_range]
    refine List.map_congr_left ?_
    intro i hi
    have hlt := List.mem_range.1 hi
    rw [Nat.mod_eq_of_lt (by omega)]
  case isFalse hlt =>
    have hdistance : distance n a b = n - a + b := by
      have hsum : b + n - a = n - a + b := by omega
      rw [distance, hsum, Nat.mod_eq_of_lt (by omega)]
    rw [hdistance, List.range_add, List.map_append, List.map_map, List.range'_eq_map_range,
      List.range'_eq_map_range]
    congr 1
    · refine List.map_congr_left ?_
      intro i hi
      have hlow := List.mem_range.1 hi
      rw [Nat.mod_eq_of_lt (by omega)]
    · refine List.map_congr_left ?_
      intro i hi
      have hlow := List.mem_range.1 hi
      have hwrap : a + (n - a + i) = i + n := by omega
      rw [Function.comp_apply, hwrap, Nat.add_mod_right, Nat.mod_eq_of_lt (by omega), Nat.zero_add]

/-- The ring holds `xs`, the first of them at `tail`; the next one goes to `head`. -/
structure Queued (n : Nat) (slots : Nat → ε) (tail head : Nat) (xs : List ε) : Prop where
  tail_lt : tail < n
  head_eq : head = (tail + xs.length) % n
  fits : xs.length ≤ n
  slot : ∀ i (h : i < xs.length), slots ((tail + i) % n) = xs[i]

theorem queued_nil (hn : 0 < n) (slots : Nat → ε) : Queued n slots 0 0 [] where
  tail_lt := hn
  head_eq := by simp
  fits := Nat.zero_le n
  slot := by simp

namespace Queued

theorem distance_head (h : Queued n slots tail head xs) (hlt : xs.length < n) :
    distance n tail head = xs.length := by
  have htail := h.tail_lt
  rw [distance, h.head_eq, Nat.add_mod_eq_ite, Nat.mod_eq_of_lt htail, Nat.mod_eq_of_lt hlt]
  split
  · have hwrapped : tail + xs.length - n + n - tail = xs.length := by omega
    rw [hwrapped, Nat.mod_eq_of_lt hlt]
  · have hstraight : tail + xs.length + n - tail = xs.length + n := by omega
    rw [hstraight, Nat.add_mod_right, Nat.mod_eq_of_lt hlt]

theorem push (h : Queued n slots tail head xs) (hroom : xs.length < n) (x : ε) :
    Queued n (Function.update slots head x) tail (if head + 1 = n then 0 else head + 1)
      (xs ++ [x]) where
  tail_lt := h.tail_lt
  head_eq := by
    rw [h.head_eq, succ_mod (Nat.zero_lt_of_lt h.tail_lt), List.length_append,
      List.length_singleton, Nat.add_assoc]
  fits := by
    rw [List.length_append, List.length_singleton]
    exact hroom
  slot := by
    intro i hi
    rw [List.length_append, List.length_singleton] at hi
    rcases Nat.lt_succ_iff_lt_or_eq.1 hi with hlt | rfl
    · have hne : (tail + i) % n ≠ head := by
        rw [h.head_eq]
        exact mod_ne_of_close (by omega) (by omega)
      rw [Function.update_of_ne hne, List.getElem_append_left hlt]
      exact h.slot i hlt
    · rw [← h.head_eq, Function.update_self, List.getElem_concat_length rfl]

theorem passed (h : Queued n slots tail head xs) (hb : b < n) (i : Nat) :
    (b + i) % n = (tail + (distance n tail b + i)) % n := by
  have hreached : (tail % n + distance n (tail % n) b) % n = b := by
    rw [Nat.mod_add_mod]
    exact distance_mod hb
  rw [Nat.mod_eq_of_lt h.tail_lt] at hreached
  rw [← Nat.add_assoc, ← Nat.mod_add_mod (tail + _), hreached]

theorem pop (h : Queued n slots tail head xs) (hb : b < n)
    (hle : distance n tail b ≤ xs.length) :
    Queued n slots b head (xs.drop (distance n tail b)) where
  tail_lt := hb
  head_eq := by
    rw [h.head_eq, List.length_drop, h.passed hb, Nat.add_sub_cancel' hle]
  fits := by
    have hfits := h.fits
    rw [List.length_drop]
    omega
  slot := by
    intro i hi
    rw [List.length_drop] at hi
    have hslot := h.slot (distance n tail b + i) (by omega)
    rw [h.passed hb, List.getElem_drop]
    exact hslot

theorem ringSlots_map (h : Queued n slots tail head xs) (hb : b < n)
    (hle : distance n tail b ≤ xs.length) :
    (ringSlots n tail b).map slots = xs.take (distance n tail b) := by
  rw [ringSlots_eq_map h.tail_lt hb, List.map_map]
  refine List.ext_getElem ?_ ?_
  · simp [hle]
  · intro i hi _
    rw [List.length_map, List.length_range] at hi
    rw [List.getElem_map, List.getElem_range, List.getElem_take]
    exact h.slot i (by omega)

end Queued

end NvmeVirt.RingFifo
