import Mathlib.Algebra.Group.Nat.Defs
import NvmeVirt.ByteMemory

namespace NvmeVirt.MaskedBytes

open ByteMemory

/-- Bit `k` of a memory, the low bit of every byte first. -/
def bit (mem : Memory) (k : Nat) : Bool := (mem (k / 8)).toNat.testBit (k % 8)

/-- The little-endian number in the `n` bytes from address `a` on. -/
def loadNat (mem : Memory) (a : Nat) : Nat → Nat
  | 0 => 0
  | n + 1 => 2 ^ 8 * loadNat mem (a + 1) n + (mem a).toNat

/-- `memcpy` of `n` bytes into a zeroed word. -/
def load (mem : Memory) (a n : Nat) : BitVec 32 := BitVec.ofNat 32 (loadNat mem a n)

/-- `memcpy` of the first `n` bytes of a word. -/
def store (mem : Memory) (a n : Nat) (val : BitVec 32) : Memory := fun i =>
  if a ≤ i ∧ i < a + n then UInt8.ofNat (val.toNat / 2 ^ (8 * (i - a))) else mem i

variable {mem old : Memory} {a n j k : Nat} {mask val : BitVec 32}

theorem testBit_loadNat :
    (loadNat mem a n).testBit j = (decide (j < 8 * n) && bit mem (8 * a + j)) := by
  induction n generalizing a j with
  | zero => simp [loadNat]
  | succ n ih =>
      rw [loadNat, Nat.testBit_two_pow_mul_add _ (UInt8.toNat_lt (mem a))]
      split
      · rename_i hlow
        have hdiv : (8 * a + j) / 8 = a := by omega
        have hmod : (8 * a + j) % 8 = j := by omega
        rw [bit, hdiv, hmod, decide_eq_true (by omega), Bool.true_and]
      · rename_i hhigh
        have hbit : 8 * (a + 1) + (j - 8) = 8 * a + j := by omega
        rw [ih, hbit]
        congr 1
        rw [decide_eq_decide]
        omega

theorem getLsbD_load (hn : n ≤ 4) :
    (load mem a n).getLsbD j = (decide (j < 8 * n) && bit mem (8 * a + j)) := by
  rw [load, BitVec.getLsbD_ofNat, testBit_loadNat]
  rcases Nat.lt_or_ge j (8 * n) with hj | hj
  · rw [decide_eq_true (show j < 32 by omega), Bool.true_and]
  · rw [decide_eq_false (show ¬ j < 8 * n by omega), Bool.false_and, Bool.and_false]

theorem bit_store :
    bit (store mem a n val) k =
      if 8 * a ≤ k ∧ k < 8 * (a + n) then val.getLsbD (k - 8 * a) else bit mem k := by
  have hin : a ≤ k / 8 ∧ k / 8 < a + n ↔ 8 * a ≤ k ∧ k < 8 * (a + n) := by omega
  rw [bit, store]
  split
  · rename_i hmem
    have hshift : k % 8 + 8 * (k / 8 - a) = k - 8 * a := by omega
    rw [if_pos (hin.mp hmem), UInt8.toNat_ofNat', Nat.testBit_mod_two_pow,
      Nat.testBit_div_two_pow, hshift, decide_eq_true (Nat.mod_lt k (by decide)),
      Bool.true_and, BitVec.testBit_toNat]
  · rename_i hout
    rw [if_neg fun hk => hout (hin.mpr hk), bit]

/-- A store under a mask writes the bits of the mask. The others it covers come back as
they were when the old word was loaded. -/
theorem bit_store_masked (hn : n ≤ 4) :
    bit (store mem a n ((load old a n &&& ~~~mask) ||| (val &&& mask))) k =
      if 8 * a ≤ k ∧ k < 8 * (a + n) then
        if mask.getLsbD (k - 8 * a) then val.getLsbD (k - 8 * a) else bit old k
      else bit mem k := by
  rw [bit_store]
  split
  · rename_i hin
    have hbit : 8 * a + (k - 8 * a) = k := by omega
    rw [BitVec.getLsbD_or, BitVec.getLsbD_and, BitVec.getLsbD_and, BitVec.getLsbD_not,
      getLsbD_load hn, hbit, decide_eq_true (show k - 8 * a < 8 * n by omega),
      decide_eq_true (show k - 8 * a < 32 by omega)]
    cases mask.getLsbD (k - 8 * a) <;> simp
  · rfl

end NvmeVirt.MaskedBytes
