import Mathlib.Data.Nat.ModEq
import Mathlib.Logic.Function.Basic

namespace NvmeVirt.PhaseRing

variable {ε : Type}

def flip (phase : Nat) : Nat := if phase = 0 then 1 else 0

/-- The phase of the `k`-th entry ever written to a ring of `n` slots. -/
def phaseOf (n k : Nat) : Nat := if k / n % 2 = 0 then 1 else 0

section Counters

variable {n k i : Nat}

theorem succ_mod (hn : 0 < n) :
    (if k % n + 1 = n then 0 else k % n + 1) = (k + 1) % n := by
  have hlt := Nat.mod_lt k hn
  rw [Nat.add_mod_eq_ite]
  by_cases hone : n = 1
  · subst hone
    simp [Nat.mod_one]
  · have h1 : 1 % n = 1 := Nat.mod_eq_of_lt (by omega)
    rw [h1]
    split <;> split <;> omega

theorem succ_div (hn : 0 < n) :
    (k + 1) / n = if k % n + 1 = n then k / n + 1 else k / n := by
  have hdvd : n ∣ k + 1 ↔ k % n + 1 = n := by
    rw [Nat.dvd_iff_mod_eq_zero, ← succ_mod hn]
    split <;> simp_all
  rw [Nat.succ_div]
  simp only [hdvd]
  split <;> rfl

theorem phaseOf_succ (hn : 0 < n) :
    phaseOf n (k + 1) = if k % n + 1 = n then flip (phaseOf n k) else phaseOf n k := by
  rw [phaseOf, phaseOf, succ_div hn]
  split
  · rw [flip]
    split <;> split <;> simp_all <;> omega
  · rfl

theorem phaseOf_add_size (hn : 0 < n) : phaseOf n (k + n) ≠ phaseOf n k := by
  rw [phaseOf, phaseOf, Nat.add_div_right k hn]
  split <;> split <;> omega

theorem phaseOf_of_lt (h : k < n) : phaseOf n k = 1 := by
  rw [phaseOf, Nat.div_eq_of_lt h]
  rfl

theorem phaseOf_le_one : phaseOf n k ≤ 1 := by
  rw [phaseOf]
  split <;> omega

/-- How far slot `b` is ahead of slot `a`. -/
def distance (n a b : Nat) : Nat := (b + n - a) % n

theorem distance_mod (hi : i < n) : (k + distance n (k % n) i) % n = i := by
  have hlt := Nat.mod_lt k (show 0 < n by omega)
  have hdiv := Nat.div_add_mod k n
  have hsum : k + (i + n - k % n) = i + n * (k / n + 1) := by
    rw [Nat.mul_add, Nat.mul_one]
    omega
  rw [distance, Nat.add_mod_mod, hsum, Nat.add_mul_mod_self_left, Nat.mod_eq_of_lt hi]

/-- The number of entries between two counters, from the slots they stand on. -/
theorem sub_of_mod (hle : i ≤ k) (hclose : k < i + n) :
    (if k % n < i % n then k % n + n - i % n else k % n - i % n) = k - i := by
  have hn : 0 < n := by omega
  have hi := Nat.mod_lt i hn
  obtain ⟨d, rfl⟩ := Nat.exists_eq_add_of_le hle
  have hd : d % n = d := Nat.mod_eq_of_lt (by omega)
  rw [Nat.add_mod_eq_ite, hd]
  split <;> split <;> omega

theorem mod_ne_of_close (hlt : i < k) (hclose : k < i + n) : i % n ≠ k % n := by
  intro heq
  have hdvd : n ∣ k - i := (Nat.modEq_iff_dvd' (Nat.le_of_lt hlt)).1 heq
  have hle := Nat.le_of_dvd (by omega) hdvd
  omega

/-- The slots from `a` up to but excluding `b`, in the order of the ring. -/
def ringSlots (n a b : Nat) : List Nat :=
  if a ≤ b then List.range' a (b - a) else List.range' a (n - a) ++ List.range' 0 b

theorem ringSlots_nodup (n a b : Nat) : (ringSlots n a b).Nodup := by
  rw [ringSlots]
  split
  · exact List.nodup_range'
  · refine List.nodup_append.2 ⟨List.nodup_range', List.nodup_range', ?_⟩
    intro i hi j hj
    rw [List.mem_range'_1] at hi hj
    omega

theorem mem_ringSlots {a b : Nat} (ha : a < n) (hb : b < n) :
    i ∈ ringSlots n a b ↔ i < n ∧ if a ≤ b then a ≤ i ∧ i < b else a ≤ i ∨ i < b := by
  rw [ringSlots]
  split
  · rw [List.mem_range'_1]
    omega
  · rw [List.mem_append, List.mem_range'_1, List.mem_range'_1]
    omega

end Counters

/-- The last round of what was written, in order, to `n` slots. -/
def Laid (n : Nat) (slots : Nat → ε) (written : List ε) : Prop :=
  ∀ i (h : i < written.length), written.length ≤ i + n → slots (i % n) = written[i]

theorem Laid.write {n : Nat} {slots : Nat → ε} {written : List ε}
    (h : Laid n slots written) (x : ε) :
    Laid n (Function.update slots (written.length % n) x) (written ++ [x]) := by
  intro i hi hclose
  rw [List.length_append, List.length_singleton] at hi hclose
  by_cases heq : i = written.length
  · subst heq
    rw [Function.update_self, List.getElem_concat_length rfl]
  · have hlt : i < written.length := by omega
    rw [Function.update_of_ne (mod_ne_of_close hlt (by omega)), List.getElem_append_left hlt]
    exact h i hlt (by omega)

structure SlotRing (ε : Type) where
  size : Nat
  head : Nat
  phase : Nat
  slots : Nat → ε

/-- Writing the entry `make` builds for the current phase. -/
def SlotRing.post (ring : SlotRing ε) (make : Nat → ε) : SlotRing ε where
  size := ring.size
  head := if ring.head + 1 = ring.size then 0 else ring.head + 1
  phase := if ring.head + 1 = ring.size then flip ring.phase else ring.phase
  slots := Function.update ring.slots ring.head (make ring.phase)

/-- The reader's side: the slot it looks at and the phase it waits for. -/
structure Reader where
  head : Nat
  phase : Nat
deriving DecidableEq, Repr

def Reader.start : Reader where
  head := 0
  phase := 1

/-- The reader takes the slot it looks at exactly when it shows the phase. -/
def Reader.poll (bit : ε → Nat) (ring : SlotRing ε) (reader : Reader) : Option (ε × Reader) :=
  if bit (ring.slots reader.head) = reader.phase then
    some (ring.slots reader.head,
      { head := if reader.head + 1 = ring.size then 0 else reader.head + 1
        phase := if reader.head + 1 = ring.size then flip reader.phase else reader.phase })
  else
    none

/-- Writer and reader agree on what has been written and taken, with at most a
full ring between them. -/
structure InStep (bit : ε → Nat) (ring : SlotRing ε) (reader : Reader)
    (posted taken : List ε) : Prop where
  size_pos : 0 < ring.size
  head : ring.head = posted.length % ring.size
  phase : ring.phase = phaseOf ring.size posted.length
  readerHead : reader.head = taken.length % ring.size
  readerPhase : reader.phase = phaseOf ring.size taken.length
  laid : Laid ring.size ring.slots posted
  blank : ∀ i < ring.size, posted.length ≤ i → bit (ring.slots i) = 0
  bits : ∀ i (h : i < posted.length), bit posted[i] = phaseOf ring.size i
  taken_eq : taken <+: posted
  window : posted.length ≤ taken.length + ring.size

namespace InStep

variable {bit : ε → Nat} {ring : SlotRing ε} {reader : Reader} {posted taken : List ε}

theorem start (hsize : 0 < ring.size) (hhead : ring.head = 0) (hphase : ring.phase = 1)
    (hblank : ∀ i < ring.size, bit (ring.slots i) = 0) :
    InStep bit ring .start [] [] where
  size_pos := hsize
  head := by simp [hhead]
  phase := by simp [hphase, phaseOf_of_lt hsize]
  readerHead := by simp [Reader.start]
  readerPhase := by simp [Reader.start, phaseOf_of_lt hsize]
  laid := by simp [Laid]
  blank i hi _ := hblank i hi
  bits := by simp
  taken_eq := List.nil_prefix
  window := by simp

theorem post (h : InStep bit ring reader posted taken) {make : Nat → ε}
    (hroom : posted.length < taken.length + ring.size)
    (hmake : bit (make ring.phase) = ring.phase) :
    InStep bit (ring.post make) reader (posted ++ [make ring.phase]) taken where
  size_pos := h.size_pos
  head := by
    rw [SlotRing.post, List.length_append, List.length_singleton, h.head]
    exact succ_mod h.size_pos
  phase := by
    rw [SlotRing.post, List.length_append, List.length_singleton, phaseOf_succ h.size_pos,
      ← h.head, ← h.phase]
  readerHead := h.readerHead
  readerPhase := h.readerPhase
  laid := by
    have hlaid := h.laid.write (make ring.phase)
    rwa [← h.head] at hlaid
  blank i hi hposted := by
    rw [List.length_append, List.length_singleton] at hposted
    have hi' : i < ring.size := hi
    have hne : i ≠ ring.head := by
      rw [h.head, Nat.mod_eq_of_lt (by omega)]
      omega
    simp only [SlotRing.post, Function.update_of_ne hne]
    exact h.blank i hi' (by omega)
  bits i hi := by
    rw [List.length_append, List.length_singleton] at hi
    by_cases heq : i = posted.length
    · subst heq
      rw [List.getElem_concat_length rfl, hmake, h.phase]
      rfl
    · rw [List.getElem_append_left (by omega)]
      exact h.bits i (by omega)
  taken_eq := h.taken_eq.trans (List.prefix_append _ _)
  window := by
    rw [List.length_append, List.length_singleton]
    exact hroom

theorem taken_le (h : InStep bit ring reader posted taken) : taken.length ≤ posted.length :=
  h.taken_eq.length_le

theorem slot_eq (h : InStep bit ring reader posted taken)
    (hnext : taken.length < posted.length) :
    ring.slots reader.head = posted[taken.length] := by
  rw [h.readerHead]
  exact h.laid taken.length hnext h.window

theorem bit_iff (h : InStep bit ring reader posted taken) :
    bit (ring.slots reader.head) = reader.phase ↔ taken.length < posted.length := by
  constructor
  · intro hbit
    refine lt_of_le_of_ne h.taken_le ?_
    intro heq
    -- an empty ring shows the blank slot or the entry of the round before
    rcases Nat.lt_or_ge taken.length ring.size with hfirst | hlater
    · rw [h.readerPhase, h.readerHead, Nat.mod_eq_of_lt hfirst, phaseOf_of_lt hfirst,
        h.blank _ hfirst (Nat.le_of_eq heq.symm)] at hbit
      cases hbit
    · obtain ⟨k, hk⟩ := Nat.exists_eq_add_of_le' hlater
      have hlt : k < posted.length := by
        have hpos := h.size_pos
        omega
      have hslot := h.laid k hlt (by omega)
      rw [h.readerPhase, h.readerHead, hk, Nat.add_mod_right, hslot, h.bits k hlt] at hbit
      exact phaseOf_add_size h.size_pos hbit.symm
  · intro hnext
    rw [h.slot_eq hnext, h.bits _ hnext, h.readerPhase]

theorem poll_isSome_iff (h : InStep bit ring reader posted taken) :
    (reader.poll bit ring).isSome = true ↔ taken.length < posted.length := by
  rw [← h.bit_iff, Reader.poll]
  split <;> simp_all

theorem poll (h : InStep bit ring reader posted taken) {x : ε} {reader' : Reader}
    (hpoll : reader.poll bit ring = some (x, reader')) :
    InStep bit ring reader' posted (taken ++ [x]) := by
  have hnext : taken.length < posted.length := by
    rw [← h.poll_isSome_iff, hpoll]
    rfl
  rw [Reader.poll, if_pos (h.bit_iff.2 hnext), Option.some.injEq, Prod.mk.injEq] at hpoll
  obtain ⟨rfl, rfl⟩ := hpoll
  refine ⟨h.size_pos, h.head, h.phase, ?_, ?_, h.laid, h.blank, h.bits, ?_, ?_⟩
  · rw [List.length_append, List.length_singleton, h.readerHead]
    exact succ_mod h.size_pos
  · rw [List.length_append, List.length_singleton, phaseOf_succ h.size_pos, ← h.readerHead,
      ← h.readerPhase]
  · rw [h.slot_eq hnext]
    have htake : taken = posted.take taken.length := List.prefix_iff_eq_take.1 h.taken_eq
    have hstep : posted.take taken.length ++ [posted[taken.length]] =
        posted.take (taken.length + 1) := List.take_append_getElem hnext
    rw [← htake] at hstep
    rw [hstep]
    exact List.take_prefix _ _
  · have hwindow := h.window
    rw [List.length_append, List.length_singleton]
    omega

end InStep

end NvmeVirt.PhaseRing
