import Mathlib.Data.List.GetD

namespace NvmeVirt.ByteMemory

abbrev Memory := Nat → UInt8

def memcpy (dst : Memory) (dest : Nat) (src : Memory) (start n : Nat) : Memory := fun i =>
  if dest ≤ i ∧ i < dest + n then src (start + (i - dest)) else dst i

/-- The `n` bytes from address `a` on. -/
def slice (mem : Memory) (a n : Nat) : List UInt8 := (List.range n).map fun i => mem (a + i)

/-- The memory with `bytes` stored from address `a` on. -/
def overwrite (mem : Memory) (a : Nat) (bytes : List UInt8) : Memory := fun i =>
  if a ≤ i ∧ i < a + bytes.length then bytes.getD (i - a) 0 else mem i

variable {mem mem' dst src : Memory} {a b n m i dest start : Nat} {bytes xs ys : List UInt8}

@[simp] theorem length_slice : (slice mem a n).length = n := by
  simp [slice]

theorem map_range' : (List.range' a n).map mem = slice mem a n := by
  rw [slice, List.range'_eq_map_range, List.map_map]
  rfl

theorem getD_slice (hi : i < n) : (slice mem a n).getD i 0 = mem (a + i) := by
  rw [List.getD_eq_getElem _ _ (by simpa using hi)]
  simp [slice]

theorem slice_congr (h : ∀ i, i < n → mem (a + i) = mem' (b + i)) :
    slice mem a n = slice mem' b n := by
  refine List.map_congr_left fun i hi => h i (List.mem_range.1 hi)

theorem slice_add : slice mem a (n + m) = slice mem a n ++ slice mem (a + n) m := by
  rw [slice, List.range_add, List.map_append, List.map_map]
  refine congrArg _ (List.map_congr_left fun i _ => ?_)
  simp [Nat.add_assoc]

theorem take_slice (h : m ≤ n) : (slice mem a n).take m = slice mem a m := by
  obtain ⟨k, rfl⟩ := Nat.exists_eq_add_of_le h
  rw [slice_add, List.take_left' length_slice]

theorem overwrite_of_mem (hlow : a ≤ i) (hhigh : i < a + bytes.length) :
    overwrite mem a bytes i = bytes.getD (i - a) 0 := if_pos ⟨hlow, hhigh⟩

theorem overwrite_of_lt (h : i < a) : overwrite mem a bytes i = mem i :=
  if_neg fun hmem => by omega

theorem overwrite_of_ge (h : a + bytes.length ≤ i) : overwrite mem a bytes i = mem i :=
  if_neg fun hmem => by omega

@[simp] theorem overwrite_nil : overwrite mem a [] = mem := by
  funext i
  rcases Nat.lt_or_ge i a with hlt | hge
  · exact overwrite_of_lt hlt
  · exact overwrite_of_ge hge

theorem memcpy_eq_overwrite : memcpy dst dest src start n =
    overwrite dst dest (slice src start n) := by
  funext i
  rw [memcpy, overwrite, length_slice]
  split
  · next hmem => rw [getD_slice (by omega)]
  · rfl

theorem memcpy_of_notMem (h : i ∉ List.range' dest n) :
    memcpy dst dest src start n i = dst i := by
  rw [List.mem_range'_1] at h
  exact if_neg h

theorem slice_memcpy_self (dst : Memory) (dest : Nat) :
    slice (memcpy dst dest src start n) dest n = slice src start n := by
  refine slice_congr fun i hi => ?_
  rw [memcpy, if_pos (by omega), Nat.add_sub_cancel_left]

theorem overwrite_append (hn : xs.length = n) :
    overwrite (overwrite mem a xs) (a + n) ys = overwrite mem a (xs ++ ys) := by
  subst hn
  funext i
  rcases Nat.lt_or_ge i (a + xs.length) with hlt | hge
  · rw [overwrite_of_lt hlt]
    rcases Nat.lt_or_ge i a with hlow | hlow
    · rw [overwrite_of_lt hlow, overwrite_of_lt hlow]
    · rw [overwrite_of_mem hlow hlt, overwrite_of_mem hlow (by rw [List.length_append]; omega),
        List.getD_append _ _ _ _ (by omega)]
  · rcases Nat.lt_or_ge i (a + xs.length + ys.length) with hin | hout
    · rw [overwrite_of_mem hge hin,
        overwrite_of_mem (by omega) (by rw [List.length_append]; omega),
        List.getD_append_right _ _ _ _ (by omega)]
      congr 1
      omega
    · rw [overwrite_of_ge hout, overwrite_of_ge hge,
        overwrite_of_ge (by rw [List.length_append]; omega)]

theorem slice_overwrite_self : slice (overwrite mem a bytes) a bytes.length = bytes := by
  refine List.ext_getElem (by simp) fun i hi hi' => ?_
  simp only [slice, List.getElem_map, List.getElem_range]
  rw [overwrite_of_mem (Nat.le_add_right a i) (by omega), Nat.add_sub_cancel_left,
    List.getD_eq_getElem _ _ hi']

theorem slice_overwrite_of_disjoint (h : b + n ≤ a ∨ a + bytes.length ≤ b) :
    slice (overwrite mem a bytes) b n = slice mem b n := by
  refine slice_congr fun i hi => ?_
  rcases h with h | h
  · exact overwrite_of_lt (by omega)
  · exact overwrite_of_ge (by omega)

end NvmeVirt.ByteMemory
