import NvmeVirt.KeyValueRefinement

namespace NvmeVirt.BatchParser

open ByteMemory
open FaultOutcome
open KeyValueFtl
open KeyValueRefinement
open PrpTransfer

/-- `count` bytes of the payload from `start` on are read into `room` bytes. -/
structure Copy where
  start : Int
  count : Nat
  room : Nat

/-- The bytes are in a payload of `length` bytes, and there is room for them. -/
def Copy.InBounds (length : Nat) (copy : Copy) : Prop :=
  (copy.count = 0 ∨ 0 ≤ copy.start ∧ copy.start + copy.count ≤ length) ∧ copy.count ≤ copy.room

instance (length : Nat) (copy : Copy) : Decidable (copy.InBounds length) :=
  inferInstanceAs (Decidable ((copy.count = 0 ∨
    0 ≤ copy.start ∧ copy.start + copy.count ≤ length) ∧ copy.count ≤ copy.room))

/-- The `u32` read as an `int`. -/
def toInt (n : Nat) : Int := if n < 2 ^ 31 then n else n - 2 ^ 32

/-- The `int` passed as a `size_t`. -/
def toSize (n : Int) : Nat := (n % 2 ^ 64).toNat

/-- `((len - 1) / ALIGN_LEN + 1) * ALIGN_LEN` of an `int`, whose division rounds towards
zero. -/
def alignedInt (len : Int) : Int := ((len - 1).tdiv alignLen + 1) * alignLen

/-- What the loop reads in the iterations from `i` on: the fields of the head, the key and
the value. The sums only leave the range of `int` behind a copy out of bounds. -/
def subCopies (buffer : Memory) : Nat → Nat → Int → List Copy
  | 0, _, _ => []
  | cnt + 1, i, payloadOffset =>
      let keyLen : Int := littleEndian (slice buffer (16 * i + 1) 1)
      let valLen := toInt (littleEndian (slice buffer (16 * i + 4) 4))
      let subLen := alignedInt keyLen + alignedInt valLen + alignLen
      let key := batchHead + payloadOffset
      ⟨16 * i, 1, 1⟩ :: ⟨16 * i + 1, 1, 1⟩ :: ⟨16 * i + 4, 4, 4⟩ :: ⟨key, toSize keyLen, 20⟩ ::
        ⟨key + alignedInt keyLen, toSize valLen, 4097⟩ ::
          subCopies buffer cnt (i + 1) (payloadOffset + subLen)

/-- The copies of a batch whose payload was transferred into a buffer of the heap. -/
def batchCopies (heap : Memory) (bytes : List UInt8) (subCmdCnt : Nat) : List Copy :=
  subCopies (overwrite heap 0 bytes) subCmdCnt 0 alignLen

section Sizes

variable (bytes : List UInt8)

def keySize (i : Nat) : Nat := littleEndian (field bytes (16 * i + 1) 1)

def valueSize (i : Nat) : Nat := littleEndian (field bytes (16 * i + 4) 4)

/-- Where the key of sub-command `i` starts: each sub-command before it has a head, and
takes whole units for its key and its value. -/
def keyStart : Nat → Nat
  | 0 => batchHead + alignLen
  | i + 1 => keyStart i + (aligned (keySize bytes i) + aligned (valueSize bytes i) + alignLen)

/-- The sizes of sub-command `i` are in the payload and bounded, and what is not empty of
its key and its value ends there. -/
structure SubFits (i : Nat) : Prop where
  head : 16 * i + 8 ≤ bytes.length
  keyRoom : keySize bytes i ≤ 20
  valueRoom : valueSize bytes i ≤ 4097
  key : 0 < keySize bytes i → keyStart bytes i + keySize bytes i ≤ bytes.length
  value : 0 < valueSize bytes i →
    keyStart bytes i + aligned (keySize bytes i) + valueSize bytes i ≤ bytes.length

end Sizes

section Arithmetic

theorem littleEndian_lt (bytes : List UInt8) : littleEndian bytes < 256 ^ bytes.length := by
  induction bytes with
  | nil => decide
  | cons byte bytes ih =>
      have hbyte := byte.toNat_lt
      change byte.toNat + 256 * littleEndian bytes < 256 ^ (bytes.length + 1)
      rw [pow_succ]
      omega

theorem alignedInt_natCast (n : Nat) : alignedInt n = aligned n := by
  rw [alignedInt, aligned, alignLen]
  rcases n with - | n
  · decide
  · have hdiv : ((n + 1 : Nat) - 1 : Int).tdiv (64 : Nat) = ((n / 64 : Nat) : Int) := by
      push_cast
      rw [add_sub_cancel_right]
      exact Int.ofNat_tdiv n 64
    rw [hdiv, Nat.add_sub_cancel]
    push_cast
    rfl

theorem toSize_natCast {n : Nat} (h : n < 2 ^ 32) : toSize n = n := by
  rw [toSize]
  omega

theorem toInt_of_lt {n : Nat} (h : n < 2 ^ 31) : toInt n = n := if_pos h

theorem lt_toSize_toInt {n : Nat} (hlow : 2 ^ 31 ≤ n) (hhigh : n < 2 ^ 32) :
    4097 < toSize (toInt n) := by
  rw [toInt, if_neg (not_lt.2 hlow), toSize]
  omega

variable {start n length : Nat}

theorem key_inBounds_iff (hn : n < 2 ^ 32) :
    (⟨start, toSize n, 20⟩ : Copy).InBounds length ↔ n ≤ 20 ∧ (0 < n → start + n ≤ length) := by
  rw [toSize_natCast hn, Copy.InBounds]
  dsimp only
  omega

theorem value_inBounds_iff (hn : n < 2 ^ 32) :
    (⟨start, toSize (toInt n), 4097⟩ : Copy).InBounds length ↔
      n ≤ 4097 ∧ (0 < n → start + n ≤ length) := by
  rw [Copy.InBounds]
  dsimp only
  rcases Nat.lt_or_ge n (2 ^ 31) with hlt | hge
  · rw [toInt_of_lt hlt, toSize_natCast hn]
    omega
  · have hlarge := lt_toSize_toInt hge hn
    omega

theorem head_inBounds_iff {i : Nat} :
    ((⟨16 * i, 1, 1⟩ : Copy).InBounds length ∧ (⟨16 * i + 1, 1, 1⟩ : Copy).InBounds length ∧
      (⟨16 * i + 4, 4, 4⟩ : Copy).InBounds length) ↔ 16 * i + 8 ≤ length := by
  simp only [Copy.InBounds]
  omega

end Arithmetic

section Loop

variable {heap : Memory} {bytes : List UInt8} {i cnt : Nat}

theorem keySize_lt (bytes : List UInt8) (i : Nat) : keySize bytes i < 2 ^ 32 := by
  have hbytes := littleEndian_lt (field bytes (16 * i + 1) 1)
  have hlength : (field bytes (16 * i + 1) 1).length ≤ 1 := List.length_take_le _ _
  have hpow := Nat.pow_le_pow_right (n := 256) (by decide) hlength
  rw [keySize]
  omega

theorem valueSize_lt (bytes : List UInt8) (i : Nat) : valueSize bytes i < 2 ^ 32 := by
  have hbytes := littleEndian_lt (field bytes (16 * i + 4) 4)
  have hlength : (field bytes (16 * i + 4) 4).length ≤ 4 := List.length_take_le _ _
  have hpow := Nat.pow_le_pow_right (n := 256) (by decide) hlength
  rw [valueSize]
  omega

theorem keySize_payload (hhead : 16 * i + 8 ≤ bytes.length) :
    littleEndian (slice (overwrite heap 0 bytes) (16 * i + 1) 1) = keySize bytes i := by
  rw [slice_payload heap (by omega), keySize]

theorem valueSize_payload (hhead : 16 * i + 8 ≤ bytes.length) :
    littleEndian (slice (overwrite heap 0 bytes) (16 * i + 4) 4) = valueSize bytes i := by
  rw [slice_payload heap (by omega), valueSize]

theorem subCopies_succ (hhead : 16 * i + 8 ≤ bytes.length) :
    subCopies (overwrite heap 0 bytes) (cnt + 1) i (keyStart bytes i - batchHead) =
      ⟨16 * i, 1, 1⟩ :: ⟨16 * i + 1, 1, 1⟩ :: ⟨16 * i + 4, 4, 4⟩ ::
        ⟨keyStart bytes i, toSize (keySize bytes i), 20⟩ ::
        ⟨(keyStart bytes i + aligned (keySize bytes i) : Nat), toSize (toInt (valueSize bytes i)),
          4097⟩ ::
        subCopies (overwrite heap 0 bytes) cnt (i + 1)
          (keyStart bytes i - batchHead + (aligned (keySize bytes i) +
            alignedInt (toInt (valueSize bytes i)) + alignLen)) := by
  rw [subCopies, keySize_payload hhead, valueSize_payload hhead, alignedInt_natCast]
  simp only [add_sub_cancel, Int.natCast_add]

theorem payloadOffset_succ (hvalue : valueSize bytes i ≤ 4097) :
    (keyStart bytes i - batchHead + (aligned (keySize bytes i) +
      alignedInt (toInt (valueSize bytes i)) + alignLen) : Int) =
        keyStart bytes (i + 1) - batchHead := by
  rw [toInt_of_lt (by omega), alignedInt_natCast, keyStart]
  push_cast
  omega

theorem subCopies_inBounds_iff :
    (∀ copy ∈ subCopies (overwrite heap 0 bytes) cnt i (keyStart bytes i - batchHead),
        copy.InBounds bytes.length) ↔
      ∀ j, i ≤ j → j < i + cnt → SubFits bytes j := by
  induction cnt generalizing i with
  | zero =>
      constructor
      · intro _ j hlow hhigh
        omega
      · intro _ copy hcopy
        cases hcopy
  | succ cnt ih =>
      constructor
      · intro hcopies
        have hhead : 16 * i + 8 ≤ bytes.length := by
          rw [subCopies] at hcopies
          simp only [List.forall_mem_cons] at hcopies
          obtain ⟨hopcode, hkeySize, hvalueSize, -⟩ := hcopies
          exact head_inBounds_iff.1 ⟨hopcode, hkeySize, hvalueSize⟩
        rw [subCopies_succ hhead] at hcopies
        simp only [List.forall_mem_cons] at hcopies
        obtain ⟨-, -, -, hkey, hvalue, hrest⟩ := hcopies
        rw [key_inBounds_iff (keySize_lt bytes i)] at hkey
        rw [value_inBounds_iff (valueSize_lt bytes i)] at hvalue
        rw [payloadOffset_succ hvalue.1] at hrest
        intro j hlow hhigh
        rcases Nat.eq_or_lt_of_le hlow with rfl | hlater
        · exact ⟨hhead, hkey.1, hvalue.1, hkey.2, hvalue.2⟩
        · exact ih.1 hrest j hlater (by omega)
      · intro hfits
        have hsub := hfits i (Nat.le_refl i) (by omega)
        have hrest := (ih (i := i + 1)).2 fun j hlow hhigh => hfits j (by omega) (by omega)
        obtain ⟨hopcode, hkeySize, hvalueSize⟩ := head_inBounds_iff.2 hsub.head
        rw [subCopies_succ hsub.head, payloadOffset_succ hsub.valueRoom]
        simp only [List.forall_mem_cons]
        exact ⟨hopcode, hkeySize, hvalueSize,
          (key_inBounds_iff (keySize_lt bytes i)).2 ⟨hsub.keyRoom, hsub.key⟩,
          (value_inBounds_iff (valueSize_lt bytes i)).2 ⟨hsub.valueRoom, hsub.value⟩, hrest⟩

theorem readBuffer_ok {start n : Nat} {read : List UInt8}
    (h : readBuffer (overwrite heap 0 bytes) bytes.length start n = .ok read) :
    start + n ≤ bytes.length ∧ read = field bytes start n := by
  rw [readBuffer] at h
  split at h
  · next hinside =>
    cases h
    exact ⟨hinside, slice_payload heap hinside⟩
  · cases h

theorem fits_of_batchLoop {cfg : KvConfig} {ftl ftl' : KvFtl} {offset : Nat}
    (hoffset : batchHead + offset = keyStart bytes i)
    (h : batchLoop cfg (overwrite heap 0 bytes) bytes.length cnt i offset ftl = .ok ftl') :
    ∀ j, i ≤ j → j < i + cnt → SubFits bytes j := by
  induction cnt generalizing i offset ftl with
  | zero =>
      intro j hlow hhigh
      omega
  | succ cnt ih =>
      rw [batchLoop] at h
      obtain ⟨opcode, -, h⟩ := exists_of_bind_eq_ok h
      obtain ⟨size, hsize, h⟩ := exists_of_bind_eq_ok h
      obtain ⟨value, hvalue, h⟩ := exists_of_bind_eq_ok h
      obtain ⟨-, rfl⟩ := readBuffer_ok hsize
      obtain ⟨hhead, rfl⟩ := readBuffer_ok hvalue
      simp only at h
      split at h
      · cases h
      · next hbounded =>
        obtain ⟨key, hkey, h⟩ := exists_of_bind_eq_ok h
        obtain ⟨value, hvalue, h⟩ := exists_of_bind_eq_ok h
        obtain ⟨next, -, h⟩ := exists_of_bind_eq_ok h
        have hkey := (readBuffer_ok hkey).1
        have hvalue := (readBuffer_ok hvalue).1
        rw [← keySize, ← valueSize] at hbounded
        rw [hoffset, ← keySize] at hkey hvalue
        rw [← valueSize] at hvalue
        intro j hlow hhigh
        rcases Nat.eq_or_lt_of_le hlow with rfl | hlater
        · exact ⟨hhead, by omega, by omega, fun _ => hkey, fun _ => hvalue⟩
        · refine ih ?_ h j hlater (by omega)
          rw [keyStart, ← hoffset]
          exact (Nat.add_assoc _ _ _).symm

end Loop

/-- All that the parser reads is in the payload, and fits where it is copied to, if and
only if all its sub-commands fit. -/
theorem batch_parser_in_bounds_iff (heap : Memory) (bytes : List UInt8) (subCmdCnt : Nat) :
    (∀ copy ∈ batchCopies heap bytes subCmdCnt, copy.InBounds bytes.length) ↔
      ∀ i < subCmdCnt, SubFits bytes i := by
  have hstart : (keyStart bytes 0 : Int) - batchHead = alignLen := by
    rw [keyStart]
    omega
  rw [batchCopies, ← hstart, subCopies_inBounds_iff, Nat.zero_add]
  exact ⟨fun h i hi => h i (Nat.zero_le i) hi, fun h i _ hi => h i hi⟩

/-- A batch of one sub-command whose payload is one word. -/
def shortBatch : KvBatchCommand := { subCmdCnt := 1, valueLen := 1, dptr := ⟨4096, 8192⟩ }

/-- The head of a sub-command whose key has 255 bytes, in a payload of 1024 bytes. -/
def longKeyPayload : List UInt8 := [0x81, 255, 0, 0, 8, 0, 0, 0] ++ List.replicate 1016 0

/-- The head of the sub-command is read behind a short payload, and a long key is copied
over the end of its buffer. -/
theorem batch_parser_out_of_bounds :
    (∃ bytes, payload (fun _ => true) shortBatch.dptr (fun _ => 0)
        (cmdValueLength shortBatch.valueLen) = .ok bytes ∧
      ∃ copy ∈ batchCopies (fun _ => 0) bytes shortBatch.subCmdCnt,
        ¬copy.InBounds bytes.length) ∧
    ∃ copy ∈ batchCopies (fun _ => 0) longKeyPayload 1, copy.room < copy.count :=
  ⟨⟨List.replicate 4 0, by decide +kernel, by decide +kernel⟩, by decide +kernel⟩

theorem fits_of_doPerformKvBatch {cfg : KvConfig} {host : Memory} {ftl : KvFtl}
    {cmd : KvBatchCommand} {status : Nat} {reply : KvReply}
    (h : doPerformKvBatch cfg host ftl cmd status = .ok reply) :
    ∃ bytes, payload (fun _ => true) cmd.dptr host (cmdValueLength cmd.valueLen) = .ok bytes ∧
      ∀ i < cmd.subCmdCnt, SubFits bytes i := by
  obtain ⟨⟨host', buffer⟩, hmove, h⟩ := exists_of_bind_eq_ok h
  obtain ⟨bytes, hbytes, hlength, rfl, rfl⟩ := performIo_toDevice hmove
  obtain ⟨ftl', hloop, -⟩ := exists_of_bind_eq_ok h
  rw [← hlength] at hloop
  exact ⟨bytes, hbytes, fun i hi => fits_of_batchLoop rfl hloop i (Nat.zero_le i) (by omega)⟩

end NvmeVirt.BatchParser
