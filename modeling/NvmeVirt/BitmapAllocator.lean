import Mathlib.Algebra.Order.Group.Nat
import NvmeVirt.KeyValueFtl

/-!
The bitmap allocator (`bitmap.c`): small extents in the first half of the device, large
ones in the second, and a next-fit search for a free bit in each.
-/

namespace NvmeVirt.BitmapAllocator

open FaultOutcome
open Function
open KeyValueFtl
open WriteBuffer

/-- `LARGE_LENGTH`. -/
def largeLength : Nat := 4096

/-- `bitmap_find_next_zero_area` for one bit: of a bitmap with so many bits, from a position
on. -/
abbrev FindZero := (Nat → Bool) → Nat → Nat → Nat

structure FindsZero (find : FindZero) : Prop where
  first : ∀ bitmap nbits start bit, start ≤ bit → bit < nbits → bitmap bit = false →
    (∀ i, start ≤ i → i < bit → bitmap i = true) → find bitmap nbits start = bit
  none : ∀ bitmap nbits start, (∀ i, start ≤ i → i < nbits → bitmap i = true) →
    nbits < find bitmap nbits start

structure Region where
  nbits : Nat
  bitmap : Nat → Bool
  lastPos : Nat

/-- The static variables of `bitmap.c`; the counters for its messages are left out. -/
structure Allocator where
  devSize : Nat
  small : Region
  large : Region

/-- The words of `small_bitmap` and of `large_bitmap`. -/
def smallWords : Nat := 600000

def largeWords : Nat := 300000

def smallNbits (size : Nat) : Nat := size / 2 / smallLength

def largeNbits (size : Nat) : Nat := size / 2 / largeLength

/-- `bitmap_zero`, which clears whole words. -/
def bitmapZero (words nbits : Nat) : Except Fault Region :=
  if words < (nbits + 63) / 64 then .error (.outOfBounds .bitmapAllocatorInit)
  else .ok { nbits := nbits, bitmap := fun _ => false, lastPos := 0 }

/-- `bitmap_allocator_init`. -/
def bitmapAllocatorInit (size : Nat) : Except Fault Allocator := do
  let small ← bitmapZero smallWords (smallNbits size)
  let large ← bitmapZero largeWords (largeNbits size)
  return { devSize := size, small := small, large := large }

section Allocate

variable (find : FindZero)

/-- The search and the update of the position that both halves of `bitmap_allocate` do. -/
def allocateBit (words : Nat) (region : Region) : Except Fault (Nat × Region) :=
  let off := find region.bitmap region.nbits region.lastPos
  if 64 * words ≤ off then .error (.outOfBounds .bitmapAllocate)
  else
    .ok (off, { region with
      bitmap := update region.bitmap off true
      lastPos := if region.nbits < off + 1 then 0 else off + 1 })

/-- `bitmap_allocate`. -/
def bitmapAllocate (s : Allocator) (length : Nat) : Except Fault (Nat × Allocator) :=
  if smallLength < length then do
    let (off, large) ← allocateBit find largeWords s.large
    return ((s.devSize / 2 + off * largeLength) % 2 ^ 64, { s with large := large })
  else do
    let (off, small) ← allocateBit find smallWords s.small
    return (off * smallLength % 2 ^ 64, { s with small := small })

structure Extent where
  offset : Nat
  size : Nat
deriving DecidableEq

def extentSize (length : Nat) : Nat := if smallLength < length then largeLength else smallLength

def allocateExtent (s : Allocator × List Extent) (length : Nat) :
    Except Fault (Allocator × List Extent) := do
  let (offset, next) ← bitmapAllocate find s.1 length
  return (next, s.2 ++ [⟨offset, extentSize length⟩])

def allocateAll (size : Nat) (lengths : List Nat) : Except Fault (Allocator × List Extent) := do
  let s ← bitmapAllocatorInit size
  lengths.foldlM (allocateExtent find) (s, [])

end Allocate

/-- `(size_t)-1`. -/
def allocationFailed : Nat := 2 ^ 64 - 1

def Extent.Apart (a b : Extent) : Prop :=
  a.offset + a.size ≤ b.offset ∨ b.offset + b.size ≤ a.offset

/-- The extents of calls that did not fail are inside of the device, and share no byte. -/
structure ExtentsApart (size : Nat) (extents : List Extent) : Prop where
  inside : ∀ e ∈ extents, e.offset ≠ allocationFailed → e.offset + e.size ≤ size
  apart : extents.Pairwise fun a b =>
    a.offset ≠ allocationFailed → b.offset ≠ allocationFailed → a.Apart b

section Regions

variable {find : FindZero} {region : Region} {words nbits used : Nat}

/-- The first bits of the region are set, and the next search starts behind them. -/
structure Region.Filled (region : Region) (nbits used : Nat) : Prop where
  nbits : region.nbits = nbits
  bits : ∀ i, region.bitmap i = decide (i < used)
  lastPos : region.lastPos = used

theorem bitmapZero_filled (h : nbits ≤ 64 * words) :
    ∃ region, bitmapZero words nbits = .ok region ∧ region.Filled nbits 0 := by
  refine ⟨{ nbits := nbits, bitmap := fun _ => false, lastPos := 0 }, ?_, rfl, ?_, rfl⟩
  · rw [bitmapZero, if_neg (by omega)]
  · intro i
    simp

theorem allocateBit_filled (hfind : FindsZero find) (h : region.Filled nbits used)
    (hused : used < nbits) (hwords : nbits ≤ 64 * words) :
    ∃ region', allocateBit find words region = .ok (used, region') ∧
      region'.Filled nbits (used + 1) := by
  have hbit : find region.bitmap region.nbits region.lastPos = used := by
    rw [h.nbits, h.lastPos]
    refine hfind.first _ _ _ _ (Nat.le_refl used) hused ?_ ?_
    · rw [h.bits]
      exact decide_eq_false (Nat.lt_irrefl used)
    · intro i hlow hhigh
      omega
  rw [allocateBit, hbit, if_neg (by omega)]
  refine ⟨_, rfl, h.nbits, ?_, ?_⟩
  · intro i
    by_cases heq : i = used
    · simp [heq]
    · dsimp only
      rw [update_of_ne heq, h.bits]
      simp only [decide_eq_decide]
      omega
  · dsimp only
    rw [h.nbits, if_neg (by omega)]

end Regions

/-- After so many small and large extents: each has its own place in its half. -/
structure Allocated (size : Nat) (s : Allocator) (extents : List Extent) (small large : Nat) :
    Prop where
  devSize : s.devSize = size
  smalls : s.small.Filled (smallNbits size) small
  larges : s.large.Filled (largeNbits size) large
  most : small ≤ smallNbits size ∧ large ≤ largeNbits size
  placed : ∀ e ∈ extents, (∃ i < small, e = ⟨i * smallLength, smallLength⟩) ∨
    ∃ i < large, e = ⟨size / 2 + i * largeLength, largeLength⟩
  apart : extents.Pairwise Extent.Apart

section Runs

variable {find : FindZero} {size length small large : Nat} {s : Allocator}
  {extents : List Extent}

theorem small_inside {i : Nat} (h : i < smallNbits size) :
    i * smallLength + smallLength ≤ size / 2 := by
  rw [smallNbits, smallLength] at h
  rw [smallLength]
  omega

theorem large_inside {i : Nat} (h : i < largeNbits size) :
    size / 2 + i * largeLength + largeLength ≤ size := by
  rw [largeNbits, largeLength] at h
  rw [largeLength]
  omega

theorem Allocated.apart_small (h : Allocated size s extents small large)
    (hroom : small < smallNbits size) :
    ∀ e ∈ extents, e.Apart ⟨small * smallLength, smallLength⟩ := by
  intro e he
  have hinside := small_inside hroom
  obtain ⟨i, hi, rfl⟩ | ⟨i, -, rfl⟩ := h.placed e he
  · left
    dsimp only
    rw [← Nat.succ_mul]
    exact Nat.mul_le_mul_right _ hi
  · right
    dsimp only
    omega

theorem Allocated.apart_large (h : Allocated size s extents small large) :
    ∀ e ∈ extents, e.Apart ⟨size / 2 + large * largeLength, largeLength⟩ := by
  intro e he
  left
  obtain ⟨i, hi, rfl⟩ | ⟨i, hi, rfl⟩ := h.placed e he
  · have hinside := small_inside (hi.trans_le h.most.1)
    dsimp only
    omega
  · dsimp only
    rw [Nat.add_assoc, ← Nat.succ_mul]
    exact Nat.add_le_add_left (Nat.mul_le_mul_right _ hi) _

theorem Allocated.small_step (h : Allocated size s extents small large) (hfind : FindsZero find)
    (hsize : size < 2 ^ 64) (hwords : smallNbits size ≤ 64 * smallWords)
    (hlength : length ≤ smallLength) (hroom : small < smallNbits size) :
    ∃ s' extents', allocateExtent find (s, extents) length = .ok (s', extents') ∧
      Allocated size s' extents' (small + 1) large := by
  obtain ⟨region, hregion, hfilled⟩ := allocateBit_filled hfind h.smalls hroom hwords
  have hinside := small_inside hroom
  have hoffset : small * smallLength % 2 ^ 64 = small * smallLength := Nat.mod_eq_of_lt (by omega)
  refine ⟨{ s with small := region }, extents ++ [⟨small * smallLength, smallLength⟩], ?_,
    h.devSize, hfilled, h.larges, ⟨hroom, h.most.2⟩, ?_, ?_⟩
  · rw [allocateExtent, bitmapAllocate, if_neg (not_lt.2 hlength), hregion, ok_bind, extentSize,
      if_neg (not_lt.2 hlength)]
    conv_rhs => rw [← hoffset]
    rfl
  · intro e he
    rcases List.mem_append.1 he with he | he
    · obtain ⟨i, hi, hplace⟩ | hlarge := h.placed e he
      · exact .inl ⟨i, hi.trans (Nat.lt_succ_self small), hplace⟩
      · exact .inr hlarge
    · exact .inl ⟨small, Nat.lt_succ_self small, List.mem_singleton.1 he⟩
  · rw [List.pairwise_append]
    refine ⟨h.apart, List.pairwise_singleton _ _, ?_⟩
    rintro e he _ hlast
    rw [List.mem_singleton.1 hlast]
    exact h.apart_small hroom e he

theorem Allocated.large_step (h : Allocated size s extents small large) (hfind : FindsZero find)
    (hsize : size < 2 ^ 64) (hwords : largeNbits size ≤ 64 * largeWords)
    (hlength : smallLength < length) (hroom : large < largeNbits size) :
    ∃ s' extents', allocateExtent find (s, extents) length = .ok (s', extents') ∧
      Allocated size s' extents' small (large + 1) := by
  obtain ⟨region, hregion, hfilled⟩ := allocateBit_filled hfind h.larges hroom hwords
  have hinside := large_inside hroom
  have hoffset : (s.devSize / 2 + large * largeLength) % 2 ^ 64 =
      size / 2 + large * largeLength := by
    rw [h.devSize]
    exact Nat.mod_eq_of_lt (by omega)
  refine ⟨{ s with large := region },
    extents ++ [⟨size / 2 + large * largeLength, largeLength⟩], ?_,
    h.devSize, h.smalls, hfilled, ⟨h.most.1, hroom⟩, ?_, ?_⟩
  · rw [allocateExtent, bitmapAllocate, if_pos hlength, hregion, ok_bind, extentSize,
      if_pos hlength, ← hoffset]
    rfl
  · intro e he
    rcases List.mem_append.1 he with he | he
    · obtain hsmall | ⟨i, hi, hplace⟩ := h.placed e he
      · exact .inl hsmall
      · exact .inr ⟨i, hi.trans (Nat.lt_succ_self large), hplace⟩
    · exact .inr ⟨large, Nat.lt_succ_self large, List.mem_singleton.1 he⟩
  · rw [List.pairwise_append]
    refine ⟨h.apart, List.pairwise_singleton _ _, ?_⟩
    rintro e he _ hlast
    rw [List.mem_singleton.1 hlast]
    exact h.apart_large e he

theorem Allocated.run {lengths : List Nat} (h : Allocated size s extents small large)
    (hfind : FindsZero find) (hsize : size < 2 ^ 64)
    (hsmallWords : smallNbits size ≤ 64 * smallWords)
    (hlargeWords : largeNbits size ≤ 64 * largeWords)
    (hsmall : small + lengths.countP (· ≤ smallLength) ≤ smallNbits size)
    (hlarge : large + lengths.countP (smallLength < ·) ≤ largeNbits size) :
    ∃ s' extents' small' large', lengths.foldlM (allocateExtent find) (s, extents) =
        .ok (s', extents') ∧ Allocated size s' extents' small' large' := by
  induction lengths generalizing s extents small large with
  | nil => exact ⟨s, extents, small, large, rfl, h⟩
  | cons length lengths ih =>
      rw [List.countP_cons] at hsmall hlarge
      rw [List.foldlM_cons]
      by_cases hlength : length ≤ smallLength
      · simp only [hlength, not_lt.2 hlength, decide_true, decide_false, if_true,
          Bool.false_eq_true, if_false] at hsmall hlarge
        obtain ⟨s', extents', hstep, hnext⟩ :=
          h.small_step hfind hsize hsmallWords hlength (by omega)
        rw [hstep, ok_bind]
        exact ih hnext (by omega) (by omega)
      · have hlong := not_le.1 hlength
        simp only [hlength, hlong, decide_true, decide_false, if_true, Bool.false_eq_true,
          if_false] at hsmall hlarge
        obtain ⟨s', extents', hstep, hnext⟩ :=
          h.large_step hfind hsize hlargeWords hlong (by omega)
        rw [hstep, ok_bind]
        exact ih hnext (by omega) (by omega)

theorem Allocated.extentsApart (h : Allocated size s extents small large) :
    ExtentsApart size extents where
  inside e he _ := by
    obtain ⟨i, hi, rfl⟩ | ⟨i, hi, rfl⟩ := h.placed e he
    · have hinside := small_inside (hi.trans_le h.most.1)
      dsimp only
      omega
    · exact large_inside (hi.trans_le h.most.2)
  apart := h.apart.imp fun hapart _ _ => hapart

end Runs

/-- On a device whose bitmaps fit into their arrays, as many calls as there are bits of
each kind hand out extents that share no byte and lie inside of the device. -/
theorem bitmap_extents_apart {find : FindZero} (hfind : FindsZero find) {size : Nat}
    (hsize : size < 2 ^ 64) (hsmallWords : smallNbits size ≤ 64 * smallWords)
    (hlargeWords : largeNbits size ≤ 64 * largeWords) {lengths : List Nat}
    (hsmall : lengths.countP (· ≤ smallLength) ≤ smallNbits size)
    (hlarge : lengths.countP (smallLength < ·) ≤ largeNbits size) :
    ∃ s extents, allocateAll find size lengths = .ok (s, extents) ∧
      ExtentsApart size extents := by
  obtain ⟨small, hsmallInit, hsmalls⟩ := bitmapZero_filled hsmallWords
  obtain ⟨large, hlargeInit, hlarges⟩ := bitmapZero_filled hlargeWords
  have hinit : Allocated size ⟨size, small, large⟩ [] 0 0 :=
    ⟨rfl, hsmalls, hlarges, ⟨Nat.zero_le _, Nat.zero_le _⟩, by simp, List.Pairwise.nil⟩
  obtain ⟨s, extents, used, usedLarge, hrun, hallocated⟩ :=
    hinit.run hfind hsize hsmallWords hlargeWords (by rwa [Nat.zero_add]) (by rwa [Nat.zero_add])
  refine ⟨s, extents, ?_, hallocated.extentsApart⟩
  rw [allocateAll, bitmapAllocatorInit, hsmallInit, ok_bind, hlargeInit]
  exact hrun

/-- The search as Linux has it: without a free bit the result is one more than the number of
bits. -/
def linuxFindZero : FindZero := fun bitmap nbits start =>
  ((List.range' start (nbits - start)).find? fun i => !bitmap i).getD (nbits + 1)

theorem linuxFindZero_findsZero : FindsZero linuxFindZero where
  first bitmap nbits start bit hlow hhigh hfree hbefore := by
    have hsplit : List.range' start (nbits - start) =
        List.range' start (bit - start) ++ bit :: List.range' (bit + 1) (nbits - (bit + 1)) := by
      have hlength : nbits - start = (bit - start) + ((nbits - (bit + 1)) + 1) := by omega
      rw [hlength, ← List.range'_append_1, Nat.add_sub_cancel' hlow, List.range'_succ]
    have hnone : ((List.range' start (bit - start)).find? fun i => !bitmap i) = none := by
      rw [List.find?_eq_none]
      intro i hi
      obtain ⟨hi, hi'⟩ := List.mem_range'_1.1 hi
      simp [hbefore i hi (by omega)]
    rw [linuxFindZero, hsplit, List.find?_append, hnone, Option.none_or, List.find?_cons_of_pos]
    · rfl
    · simp [hfree]
  none bitmap nbits start hfull := by
    have hnone : ((List.range' start (nbits - start)).find? fun i => !bitmap i) = none := by
      rw [List.find?_eq_none]
      intro i hi
      obtain ⟨hi, hi'⟩ := List.mem_range'_1.1 hi
      simp [hfull i hi (by omega)]
    rw [linuxFindZero, hnone, Option.getD_none]
    exact Nat.lt_succ_self nbits

theorem bitmap_extents_apart_full :
    ∃ s extents, allocateAll linuxFindZero 16384 (List.replicate 8 1024 ++ [4096, 2000]) =
        .ok (s, extents) ∧ ExtentsApart 16384 extents :=
  bitmap_extents_apart linuxFindZero_findsZero (by decide) (by decide) (by decide) (by decide)
    (by decide)

/-- The ninth small extent there is in the first large one. -/
theorem small_extent_in_large_extent :
    FindsZero linuxFindZero ∧
      ∃ s extents, allocateAll linuxFindZero 16384 (List.replicate 9 1024 ++ [4096]) =
          .ok (s, extents) ∧ ¬ExtentsApart 16384 extents := by
  refine ⟨linuxFindZero_findsZero, ?_⟩
  let test (run : Allocator × List Extent) : Bool := run.2.drop 8 == [⟨9216, 1024⟩, ⟨8192, 4096⟩]
  obtain ⟨⟨s, extents⟩, hrun, htest⟩ :
      ∃ run, allocateAll linuxFindZero 16384 (List.replicate 9 1024 ++ [4096]) = .ok run ∧
        test run = true :=
    exists_of_returns (by decide +kernel)
  simp only [test, beq_iff_eq] at htest
  refine ⟨s, extents, hrun, ?_⟩
  intro hapart
  have hlast := hapart.apart.sublist (List.drop_sublist 8 extents)
  rw [htest, List.pairwise_pair] at hlast
  have hdisjoint := hlast (by decide) (by decide)
  rw [Extent.Apart] at hdisjoint
  revert hdisjoint
  decide

end NvmeVirt.BitmapAllocator
