import NvmeVirt.KeyValueSteps

/-!
The mapping table of the key-value device as the bytes it consists of. A key is copied into
its entry without a look at its length, so a long one runs over the other fields.
-/

namespace NvmeVirt.MappingBytes

open ByteMemory
open CoalescedChains
open FaultOutcome
open KeyValueChains
open KeyValueFtl
open KeyValueSteps
open Relation
open WriteBuffer

section Numbers

/-- The `n` bytes of a number, the lowest first. -/
def numberBytes : Nat → Nat → List UInt8
  | 0, _ => []
  | n + 1, x => UInt8.ofNat x :: numberBytes n (x / 256)

def readNumber (mem : Memory) (a n : Nat) : Nat := littleEndian (slice mem a n)

@[simp] theorem length_numberBytes (n x : Nat) : (numberBytes n x).length = n := by
  induction n generalizing x with
  | zero => rfl
  | succ n ih => rw [numberBytes, List.length_cons, ih]

theorem littleEndian_numberBytes (n x : Nat) : littleEndian (numberBytes n x) = x % 256 ^ n := by
  induction n generalizing x with
  | zero => rw [Nat.pow_zero, Nat.mod_one]; rfl
  | succ n ih =>
      have hcons : littleEndian (numberBytes (n + 1) x) =
          (UInt8.ofNat x).toNat + 256 * littleEndian (numberBytes n (x / 256)) := rfl
      have hpow : 256 ^ (n + 1) = 256 * 256 ^ n := by rw [Nat.pow_succ, Nat.mul_comm]
      rw [hcons, ih, UInt8.toNat_ofNat', hpow, Nat.mod_mul]

theorem readNumber_overwrite_self {n x : Nat} (mem : Memory) (a : Nat) (hx : x < 256 ^ n) :
    readNumber (overwrite mem a (numberBytes n x)) a n = x := by
  have hself : slice (overwrite mem a (numberBytes n x)) a (numberBytes n x).length =
      numberBytes n x := slice_overwrite_self
  rw [length_numberBytes] at hself
  rw [readNumber, hself, littleEndian_numberBytes, Nat.mod_eq_of_lt hx]

theorem readNumber_overwrite_of_disjoint {mem : Memory} {a b n : Nat} {bytes : List UInt8}
    (h : b + n ≤ a ∨ a + bytes.length ≤ b) :
    readNumber (overwrite mem a bytes) b n = readNumber mem b n := by
  rw [readNumber, slice_overwrite_of_disjoint h, readNumber]

end Numbers

section Entries

/-- `sizeof(struct mapping_entry)`. -/
def entrySize : Nat := 48

/-- Where `mem_offset` is in an entry. -/
def memOffsetAt : Nat := keyRoom

/-- Where `length` is. -/
def lengthAt : Nat := 32

/-- Where `next_slot` is. -/
def nextSlotAt : Nat := 40

/-- The longest key: `key_len` is a `__u8`. -/
def longestKey : Nat := 256

/-- A number of `n` bytes, or `none` for `-1`. -/
@[irreducible] def readOption (mem : Memory) (a n : Nat) : Option Nat :=
  if readNumber mem a n = 256 ^ n - 1 then none else some (readNumber mem a n)

/-- The entry of a slot. A comparison may go on behind it, over as many bytes as the longest
key has. -/
def entryAt (table : Memory) (slot : Nat) : MappingEntry where
  key := slice table (entrySize * slot) longestKey
  memOffset := readOption table (entrySize * slot + memOffsetAt) 8
  length := readNumber table (entrySize * slot + lengthAt) 8
  nextSlot := readOption table (entrySize * slot + nextSlotAt) 4

/-- `struct kv_ftl` with the bytes of `kv_mapping_table`. -/
structure ByteFtl where
  table : Memory
  latest : Nat
  storage : Memory

def ByteFtl.view (ftl : ByteFtl) : KvFtl where
  mappingTable := entryAt ftl.table
  latest := ftl.latest
  storage := ftl.storage

/-- The table after `kv_init_namespace`; the pattern goes on behind its end. -/
def initTable : Memory := fun i =>
  if memOffsetAt ≤ i % entrySize ∧ i % entrySize < nextSlotAt + 4 then 255 else 0

def initNamespace (storage : Memory) : ByteFtl where
  table := initTable
  latest := 0
  storage := storage

end Entries

section Table

variable (cfg : KvConfig)

/-- The writes of `new_mapping_entry` to its entry, in their order. -/
def fillEntry (ftl : ByteFtl) (slot : Nat) (key : List UInt8) (valLen valOffset : Nat) :
    ByteFtl :=
  let base := entrySize * slot
  let table := overwrite ftl.table base key
  let table := overwrite table (base + memOffsetAt) (numberBytes 8 valOffset)
  { ftl with table := overwrite table (base + lengthAt) (numberBytes 8 valLen) }

def chainMapping (ftl : ByteFtl) (prev slot : Nat) : ByteFtl :=
  { ftl with
    table := overwrite ftl.table (entrySize * prev + nextSlotAt) (numberBytes 4 slot) }

/-- `new_mapping_entry` and `new_mapping_entry_by_key`. -/
def newMappingEntry (ftl : ByteFtl) (key : List UInt8) (valLen valOffset : Nat) :
    Except Fault ByteFtl := do
  if cfg.storageSize ≤ valOffset then .error (.bugOn .newMappingEntry)
  else
    let slot := getHashSlot cfg key
    if (entryAt ftl.table slot).memOffset = none then
      return fillEntry ftl slot key valLen valOffset
    else
      let (slot, prevSlot) ← findNextSlot cfg ftl.view slot
      return chainMapping (fillEntry ftl slot key valLen valOffset) prevSlot slot

/-- `get_mapping_entry` and `get_mapping_entry_by_key`, without the key in their result; it is
copied into a local entry. -/
def getMappingEntry (ftl : ByteFtl) (key : List UInt8) : Except Fault MappingEntry := do
  match ← lookupSlot cfg ftl.view key with
  | none => return wipedEntry
  | some slot =>
      if entrySize < key.length then .error (.outOfBounds .getMappingEntry)
      else return entryAt ftl.table slot

def updateMappingEntry (ftl : ByteFtl) (key : List UInt8) (valLen : Nat) :
    Except Fault ByteFtl := do
  match ← lookupSlot cfg ftl.view key with
  | none => return ftl
  | some slot =>
      return { ftl with
        table := overwrite ftl.table (entrySize * slot + lengthAt) (numberBytes 8 valLen) }

def deleteMappingEntry (ftl : ByteFtl) (key : List UInt8) : Except Fault ByteFtl := do
  match ← lookupSlot cfg ftl.view key with
  | none => return ftl
  | some slot =>
      return { ftl with
        table := overwrite ftl.table (entrySize * slot) (List.replicate entrySize 255) }

end Table

section Commands

/-- The functions that read a key out of their copy of a command. -/
inductive Reader where
  | getMappingEntry
  | newMappingEntry
  | updateMappingEntry
  | deleteMappingEntry
deriving DecidableEq, Repr

/-- The key of a command: `key_len + 1` bytes from the field `key[16]` on. Behind the field,
each function reads what follows its own copy of the command on the stack. -/
structure CommandKey where
  length : Nat
  bytes : Reader → List UInt8
  positive : 0 < length
  bounded : length ≤ longestKey
  sized : ∀ reader, (bytes reader).length = length
  inField : ∀ reader reader', (bytes reader).take 16 = (bytes reader').take 16

/-- The commands that change the table, each with the length of its value. -/
inductive TableCommand where
  | store (key : CommandKey) (length : Nat)
  | batched (key : List UInt8) (length : Nat)
  | delete (key : CommandKey)

variable (cfg : KvConfig)

def ByteFtl.allocate (ftl : ByteFtl) (length : Nat) : ByteFtl :=
  { ftl with latest := (appendOnlyAllocate ftl.view length).2.latest }

/-- `__do_perform_kv_io` and `__do_perform_kv_batched_io` as far as they touch the table and
the allocator. The batch has copied its key into `key[20]`. -/
def execute (ftl : ByteFtl) : TableCommand → Except Fault ByteFtl
  | .store key length => do
      let entry ← getMappingEntry cfg ftl (key.bytes .getMappingEntry)
      match entry.memOffset with
      | none =>
          newMappingEntry cfg (ftl.allocate length) (key.bytes .newMappingEntry) length
            (allocateMemOffset ftl.view length).1
      | some _ =>
          if length ≠ entry.length ∧ length ≤ smallLength ∧ entry.length ≤ smallLength then
            updateMappingEntry cfg ftl (key.bytes .updateMappingEntry) length
          else return ftl
  | .batched key length => do
      if 20 < key.length then .error (.outOfBounds .performKvBatch)
      else
        let entry ← getMappingEntry cfg ftl key
        match entry.memOffset with
        | none =>
            newMappingEntry cfg (ftl.allocate length) key length
              (allocateMemOffset ftl.view length).1
        | some _ => return ftl
  | .delete key => do
      let entry ← getMappingEntry cfg ftl (key.bytes .getMappingEntry)
      match entry.memOffset with
      | none => return ftl
      | some _ => deleteMappingEntry cfg ftl (key.bytes .deleteMappingEntry)

def Executes (ftl ftl' : ByteFtl) : Prop := ∃ cmd, execute cfg ftl cmd = .ok ftl'

end Commands

section Fields

variable {table : Memory} {key : List UInt8} {slot t : Nat}

theorem readOption_overwrite_self {n x : Nat} (mem : Memory) (a : Nat) (hx : x < 256 ^ n - 1) :
    readOption (overwrite mem a (numberBytes n x)) a n = some x := by
  rw [readOption, readNumber_overwrite_self _ _ (by omega), if_neg (by omega)]

theorem readOption_overwrite_of_disjoint {mem : Memory} {a b n : Nat} {bytes : List UInt8}
    (h : b + n ≤ a ∨ a + bytes.length ≤ b) :
    readOption (overwrite mem a bytes) b n = readOption mem b n := by
  rw [readOption, readNumber_overwrite_of_disjoint h, readOption]

theorem memOffset_eq (table : Memory) (slot : Nat) : (entryAt table slot).memOffset =
    readOption table (entrySize * slot + memOffsetAt) 8 := by rw [entryAt]

theorem nextSlot_eq (table : Memory) (slot : Nat) : (entryAt table slot).nextSlot =
    readOption table (entrySize * slot + nextSlotAt) 4 := by rw [entryAt]

theorem memOffset_overwrite {a : Nat} {bytes : List UInt8}
    (h : entrySize * t + memOffsetAt + 8 ≤ a ∨
      a + bytes.length ≤ entrySize * t + memOffsetAt) :
    (entryAt (overwrite table a bytes) t).memOffset = (entryAt table t).memOffset := by
  rw [memOffset_eq, memOffset_eq, readOption_overwrite_of_disjoint h]

theorem nextSlot_overwrite {a : Nat} {bytes : List UInt8}
    (h : entrySize * t + nextSlotAt + 4 ≤ a ∨ a + bytes.length ≤ entrySize * t + nextSlotAt) :
    (entryAt (overwrite table a bytes) t).nextSlot = (entryAt table t).nextSlot := by
  rw [nextSlot_eq, nextSlot_eq, readOption_overwrite_of_disjoint h]

theorem memOffset_written {offset : Nat} (hoffset : offset < 2 ^ 64 - 1) :
    (entryAt (overwrite table (entrySize * slot + memOffsetAt) (numberBytes 8 offset))
      slot).memOffset = some offset := by
  have hlimit : offset < 256 ^ 8 - 1 := hoffset.trans_eq (by decide)
  rw [memOffset_eq, readOption_overwrite_self _ _ hlimit]

theorem nextSlot_written {next : Nat} (hnext : next < 2 ^ 32 - 1) :
    (entryAt (overwrite table (entrySize * slot + nextSlotAt) (numberBytes 4 next))
      slot).nextSlot = some next := by
  have hlimit : next < 256 ^ 4 - 1 := hnext.trans_eq (by decide)
  rw [nextSlot_eq, readOption_overwrite_self _ _ hlimit]

/-- A key of at most 40 bytes leaves all links alone, and of the offsets only that of its own
entry changes. -/
theorem fillEntry_fields {valOffset : Nat} (ftl : ByteFtl) (slot valLen : Nat)
    (hkey : key.length ≤ nextSlotAt) (hoffset : valOffset < 2 ^ 64 - 1) (t : Nat) :
    (entryAt (fillEntry ftl slot key valLen valOffset).table t).memOffset =
        (if t = slot then some valOffset else (entryAt ftl.table t).memOffset) ∧
      (entryAt (fillEntry ftl slot key valLen valOffset).table t).nextSlot =
        (entryAt ftl.table t).nextSlot := by
  rw [nextSlotAt] at hkey
  have hbehind : entrySize * t + memOffsetAt + 8 ≤ entrySize * t + lengthAt := by
    rw [memOffsetAt, keyRoom, lengthAt]
  constructor
  · rw [fillEntry]
    dsimp only
    by_cases heq : t = slot
    · subst heq
      rw [if_pos rfl, memOffset_overwrite (.inl hbehind), memOffset_written hoffset]
    · rw [if_neg heq, memOffset_overwrite, memOffset_overwrite, memOffset_overwrite]
      all_goals
        simp only [length_numberBytes, entrySize, memOffsetAt, keyRoom, lengthAt]
        omega
  · rw [fillEntry]
    dsimp only
    rw [nextSlot_overwrite, nextSlot_overwrite, nextSlot_overwrite]
    all_goals
      simp only [length_numberBytes, entrySize, memOffsetAt, keyRoom, lengthAt, nextSlotAt]
      omega

theorem chainMapping_fields (ftl : ByteFtl) (prev : Nat) (hslot : slot < 2 ^ 32 - 1) (t : Nat) :
    (entryAt (chainMapping ftl prev slot).table t).memOffset = (entryAt ftl.table t).memOffset ∧
      (entryAt (chainMapping ftl prev slot).table t).nextSlot =
        if prev = t then some slot else (entryAt ftl.table t).nextSlot := by
  constructor
  · rw [chainMapping]
    refine memOffset_overwrite ?_
    simp only [length_numberBytes, entrySize, memOffsetAt, keyRoom, nextSlotAt]
    omega
  · rw [chainMapping]
    by_cases heq : prev = t
    · subst heq
      rw [if_pos rfl, nextSlot_written hslot]
    · rw [if_neg heq]
      refine nextSlot_overwrite ?_
      simp only [length_numberBytes, entrySize, nextSlotAt]
      omega

theorem slice_wiped (table : Memory) (slot : Nat) {i n : Nat} (h : i + n ≤ entrySize) :
    slice (overwrite table (entrySize * slot) (List.replicate entrySize 255))
      (entrySize * slot + i) n = slice (fun _ => 255) 0 n := by
  refine slice_congr fun j hj => ?_
  rw [overwrite_of_mem (by omega) (by rw [List.length_replicate]; omega),
    List.getD_eq_getElem _ _ (by rw [List.length_replicate]; omega), List.getElem_replicate]

theorem wiped_fields (table : Memory) (slot : Nat) :
    (entryAt (overwrite table (entrySize * slot) (List.replicate entrySize 255))
        slot).memOffset = none ∧
      (entryAt (overwrite table (entrySize * slot) (List.replicate entrySize 255))
        slot).nextSlot = none := by
  constructor
  · rw [memOffset_eq, readOption, readNumber, slice_wiped _ _ (by decide), if_pos (by decide)]
  · rw [nextSlot_eq, readOption, readNumber, slice_wiped _ _ (by decide), if_pos (by decide)]

end Fields

section Records

variable {cfg : KvConfig} {ftl : ByteFtl} {key : List UInt8} {slot t valLen valOffset : Nat}

/-- The bytes as records, each with the key bytes in front of `mem_offset`. -/
def ByteFtl.records (ftl : ByteFtl) : KvFtl :=
  { ftl.view with
    mappingTable := fun slot =>
      { entryAt ftl.table slot with key := slice ftl.table (entrySize * slot) keyRoom } }

@[simp] theorem records_memOffset (ftl : ByteFtl) (t : Nat) :
    (ftl.records.mappingTable t).memOffset = (ftl.view.mappingTable t).memOffset := rfl

@[simp] theorem records_nextSlot (ftl : ByteFtl) (t : Nat) :
    (ftl.records.mappingTable t).nextSlot = (ftl.view.mappingTable t).nextSlot := rfl

theorem sameKey_records (hkey : key.length ≤ keyRoom) (t : Nat) :
    sameKey key (ftl.records.mappingTable t) = sameKey key (ftl.view.mappingTable t) := by
  have hlongest : key.length ≤ longestKey := hkey.trans (by decide)
  simp only [sameKey, ByteFtl.records, ByteFtl.view, entryAt, take_slice hkey,
    take_slice hlongest]

/-- A search among the records goes the way of the search among the bytes. -/
theorem searchSlot_records (hkey : key.length ≤ keyRoom) (fuel slot : Nat) :
    searchSlot ftl.records.mappingTable key fuel slot =
      searchSlot ftl.view.mappingTable key fuel slot := by
  induction fuel generalizing slot with
  | zero => rfl
  | succ fuel ih =>
      rw [searchSlot, searchSlot, sameKey_records hkey]
      simp only [ih, records_memOffset, records_nextSlot]

theorem lookupSlot_records (hkey : key.length ≤ keyRoom) :
    lookupSlot cfg ftl.records key = lookupSlot cfg ftl.view key := searchSlot_records hkey _ _

theorem findTail_records (fuel slot : Nat) :
    findTail ftl.records.mappingTable fuel slot = findTail ftl.view.mappingTable fuel slot := by
  induction fuel generalizing slot with
  | zero => rfl
  | succ fuel ih =>
      rw [findTail, findTail]
      simp only [ih, records_memOffset, records_nextSlot]

theorem probeSlot_records (fuel slot : Nat) :
    probeSlot cfg ftl.records.mappingTable fuel slot =
      probeSlot cfg ftl.view.mappingTable fuel slot := by
  induction fuel generalizing slot with
  | zero => rfl
  | succ fuel ih =>
      rw [probeSlot, probeSlot]
      simp only [ih, records_memOffset]

theorem findNextSlot_records (slot : Nat) :
    findNextSlot cfg ftl.records slot = findNextSlot cfg ftl.view slot := by
  rw [findNextSlot, findNextSlot, findTail_records]
  simp only [probeSlot_records]

theorem records_key (table : Memory) (latest : Nat) (storage : Memory) (t : Nat) :
    ((ByteFtl.records ⟨table, latest, storage⟩).mappingTable t).key =
      slice table (entrySize * t) keyRoom := rfl

theorem records_length (table : Memory) (latest : Nat) (storage : Memory) (t : Nat) :
    ((ByteFtl.records ⟨table, latest, storage⟩).mappingTable t).length =
      readNumber table (entrySize * t + lengthAt) 8 := rfl

theorem records_overwrite {table storage : Memory} {latest a : Nat} {bytes : List UInt8}
    (h : entrySize * t + entrySize ≤ a ∨ a + bytes.length ≤ entrySize * t) :
    (ByteFtl.records ⟨overwrite table a bytes, latest, storage⟩).mappingTable t =
      (ByteFtl.records ⟨table, latest, storage⟩).mappingTable t := by
  rw [entrySize] at h
  refine MappingEntry.ext ?_ (memOffset_overwrite ?_) ?_ (nextSlot_overwrite ?_)
  · rw [records_key, records_key, slice_overwrite_of_disjoint]
    rw [entrySize, keyRoom]
    omega
  · rw [entrySize, memOffsetAt, keyRoom]
    omega
  · rw [records_length, records_length, readNumber_overwrite_of_disjoint]
    rw [entrySize, lengthAt]
    omega
  · rw [entrySize, nextSlotAt]
    omega

theorem slice_overwrite_front {mem : Memory} {a n : Nat} {bytes : List UInt8}
    (h : bytes.length ≤ n) :
    slice (overwrite mem a bytes) a n = bytes ++ (slice mem a n).drop bytes.length := by
  obtain ⟨k, rfl⟩ := Nat.exists_eq_add_of_le h
  rw [slice_add, slice_overwrite_self, slice_overwrite_of_disjoint (.inr (Nat.le_refl _)),
    slice_add, List.drop_left' length_slice]

theorem fillEntry_records (hkey : key.length ≤ keyRoom) (hlength : valLen < 2 ^ 64)
    (hoffset : valOffset < 2 ^ 64 - 1) :
    (fillEntry ftl slot key valLen valOffset).records =
      KeyValueFtl.fillEntry ftl.records slot key valLen valOffset := by
  have hshort := hkey
  rw [keyRoom] at hshort
  refine KvFtl.ext (funext fun t => ?_) rfl rfl
  by_cases heq : t = slot
  · subst heq
    rw [KeyValueFtl.fillEntry, KvFtl.setEntry_self]
    have hfields := fillEntry_fields ftl t valLen (hkey.trans (by decide)) hoffset t
    rw [if_pos rfl] at hfields
    refine MappingEntry.ext ?_ hfields.1 ?_ hfields.2
    · rw [fillEntry, records_key, slice_overwrite_of_disjoint, slice_overwrite_of_disjoint,
        slice_overwrite_front hkey]
      · rfl
      all_goals
        simp only [entrySize, memOffsetAt, keyRoom, lengthAt]
        omega
    · rw [fillEntry, records_length, readNumber_overwrite_self _ _ hlength]
  · rw [KeyValueFtl.fillEntry, KvFtl.setEntry_of_ne _ _ heq, fillEntry, records_overwrite,
      records_overwrite, records_overwrite]
    all_goals
      simp only [length_numberBytes, entrySize, memOffsetAt, keyRoom, lengthAt]
      omega

theorem chainMapping_records {prev : Nat} (hslot : slot < 2 ^ 32 - 1) :
    (chainMapping ftl prev slot).records = KeyValueFtl.chainMapping ftl.records prev slot := by
  refine KvFtl.ext (funext fun t => ?_) rfl rfl
  have hfields := chainMapping_fields ftl prev hslot t
  by_cases heq : t = prev
  · subst heq
    rw [if_pos rfl] at hfields
    rw [KeyValueFtl.chainMapping, KvFtl.setEntry_self]
    refine MappingEntry.ext ?_ hfields.1 ?_ hfields.2
    · rw [chainMapping, records_key, slice_overwrite_of_disjoint]
      · rfl
      · simp only [entrySize, keyRoom, nextSlotAt]
        omega
    · rw [chainMapping, records_length, readNumber_overwrite_of_disjoint]
      · rfl
      · simp only [entrySize, lengthAt, nextSlotAt]
        omega
  · rw [KeyValueFtl.chainMapping, KvFtl.setEntry_of_ne _ _ heq, chainMapping, records_overwrite]
    simp only [length_numberBytes, entrySize, nextSlotAt]
    omega

/-- With a key that ends in front of `mem_offset`, the operations on the bytes are those on the
records. -/
theorem newMappingEntry_records (hkey : key.length ≤ keyRoom) (hlength : valLen < 2 ^ 64)
    (hnarrow : cfg.hashSlots < 2 ^ 32 - 1) (h : Chained cfg ftl.view.mappingTable) :
    KeyValueFtl.newMappingEntry cfg ftl.records key valLen valOffset =
      (newMappingEntry cfg ftl key valLen valOffset).map ByteFtl.records := by
  rw [KeyValueFtl.newMappingEntry, newMappingEntry]
  split
  · rfl
  · next hfits =>
    have hoffset : valOffset < 2 ^ 64 - 1 := (not_le.1 hfits).trans cfg.sized
    rw [if_neg (not_lt.2 hkey)]
    dsimp only
    rw [records_memOffset, findNextSlot_records]
    have hview : ftl.view.mappingTable = entryAt ftl.table := rfl
    rw [hview]
    by_cases hfree : (entryAt ftl.table (getHashSlot cfg key)).memOffset = none
    · rw [if_pos hfree, if_pos hfree, ← fillEntry_records hkey hlength hoffset]
      rfl
    · rw [if_neg hfree, if_neg hfree]
      have hlive : occupied ftl.view.mappingTable (getHashSlot cfg key) = true :=
        Option.isSome_iff_ne_none.2 hfree
      cases hfind : findNextSlot cfg ftl.view (getHashSlot cfg key) with
      | error fault => rfl
      | ok found =>
          obtain ⟨v, prev⟩ := found
          obtain ⟨-, -, -, -, -, hv⟩ :=
            h.findNextSlot_spec (getHashSlot_lt cfg key) hlive hfind
          rw [ok_bind, ok_bind, ← fillEntry_records hkey hlength hoffset,
            ← chainMapping_records (hv.trans hnarrow)]
          rfl

theorem updateMappingEntry_records (hkey : key.length ≤ keyRoom) (hlength : valLen < 2 ^ 64) :
    KeyValueFtl.updateMappingEntry cfg ftl.records key valLen =
      (updateMappingEntry cfg ftl key valLen).map ByteFtl.records := by
  rw [KeyValueFtl.updateMappingEntry, updateMappingEntry, lookupSlot_records hkey]
  cases lookupSlot cfg ftl.view key with
  | error fault => rfl
  | ok found =>
      cases found with
      | none => rfl
      | some slot =>
          refine congrArg Except.ok (Eq.symm ?_)
          refine KvFtl.ext (funext fun t => ?_) rfl rfl
          by_cases heq : t = slot
          · subst heq
            rw [KvFtl.setEntry_self]
            refine MappingEntry.ext ?_ (memOffset_overwrite ?_) ?_ (nextSlot_overwrite ?_)
            · rw [records_key, slice_overwrite_of_disjoint]
              · rfl
              · rw [entrySize, keyRoom, lengthAt]
                omega
            · rw [entrySize, memOffsetAt, keyRoom, lengthAt]
              omega
            · rw [records_length, readNumber_overwrite_self _ _ hlength]
            · rw [length_numberBytes, entrySize, lengthAt, nextSlotAt]
              omega
          · rw [KvFtl.setEntry_of_ne _ _ heq, records_overwrite]
            rw [length_numberBytes, entrySize, lengthAt]
            omega

theorem deleteMappingEntry_records (hkey : key.length ≤ keyRoom) :
    KeyValueFtl.deleteMappingEntry cfg ftl.records key =
      (deleteMappingEntry cfg ftl key).map ByteFtl.records := by
  rw [KeyValueFtl.deleteMappingEntry, deleteMappingEntry, lookupSlot_records hkey]
  cases lookupSlot cfg ftl.view key with
  | error fault => rfl
  | ok found =>
      cases found with
      | none => rfl
      | some slot =>
          refine congrArg Except.ok (Eq.symm ?_)
          refine KvFtl.ext (funext fun t => ?_) rfl rfl
          by_cases heq : t = slot
          · subst heq
            rw [KvFtl.setEntry_self]
            obtain ⟨hfree, hnone⟩ := wiped_fields ftl.table t
            refine MappingEntry.ext ?_ hfree ?_ hnone
            · have hwiped := slice_wiped ftl.table t (i := 0) (n := keyRoom) (by decide)
              rw [Nat.add_zero] at hwiped
              rw [records_key, hwiped]
              decide
            · rw [records_length, readNumber, slice_wiped _ _ (by decide)]
              decide
          · rw [KvFtl.setEntry_of_ne _ _ heq, records_overwrite]
            rw [List.length_replicate, entrySize]
            omega

end Records

section Walks

variable {cfg : KvConfig} {ftl ftl' : ByteFtl} {key : List UInt8} {valLen valOffset : Nat}

theorem taken_of_fields {table table' : Nat → MappingEntry} {v : Nat} (prev : Option Nat)
    (valOffset : Nat) (hfree : occupied table v = false) (hunlinked : links table v = none)
    (hlive : ∀ t, (table' t).memOffset =
      if t = v then some valOffset else (table t).memOffset)
    (hnext : ∀ t, (table' t).nextSlot = if prev = some t then some v else (table t).nextSlot)
    (htail : ∀ u, prev = some u → occupied table u = true ∧
      ∀ t, links table u = some t → occupied table t = false) :
    Taken (occupied table) (links table) (occupied table') (links table') prev v where
  free := hfree
  unlinked := hunlinked
  live_eq := by
    funext t
    rw [occupied, hlive]
    by_cases heq : t = v
    · rw [if_pos heq, heq, Function.update_self]
      rfl
    · rw [if_neg heq, Function.update_of_ne heq, occupied]
  next_eq := hnext
  tail := htail

theorem chained_newMappingEntry (h : Chained cfg (entryAt ftl.table))
    (hnarrow : cfg.hashSlots < 2 ^ 32 - 1) (hkey : key.length ≤ nextSlotAt)
    (hrun : newMappingEntry cfg ftl key valLen valOffset = .ok ftl') :
    Chained cfg (entryAt ftl'.table) := by
  rw [newMappingEntry] at hrun
  split at hrun
  · cases hrun
  · next hfits =>
    have hoffset : valOffset < 2 ^ 64 - 1 := (not_le.1 hfits).trans cfg.sized
    simp only at hrun
    split at hrun
    · next hfree =>
      cases hrun
      have hfree := occupied_eq_false.2 hfree
      refine h.taken (getHashSlot_lt cfg key) (taken_of_fields none valOffset hfree
        (h.unlinked _ hfree) (fun t => ?_) (fun t => ?_) (by simp))
      · exact (fillEntry_fields ftl _ valLen hkey hoffset t).1
      · rw [if_neg (by simp)]
        exact (fillEntry_fields ftl _ valLen hkey hoffset t).2
    · next hfull =>
      have hlive : occupied (entryAt ftl.table) (getHashSlot cfg key) = true := by
        rw [occupied]
        exact Option.isSome_iff_ne_none.2 hfull
      obtain ⟨⟨v, u⟩, hfind, hrun⟩ := exists_of_bind_eq_ok hrun
      cases hrun
      have hview : Chained cfg ftl.view.mappingTable := h
      obtain ⟨xs, hpath, hu, hend, hfree, hv⟩ :=
        hview.findNextSlot_spec (getHashSlot_lt cfg key) hlive hfind
      have hslot : v < 2 ^ 32 - 1 := hv.trans hnarrow
      refine h.taken hv (taken_of_fields (some u) valOffset hfree
        (h.unlinked _ hfree) (fun t => ?_) (fun t => ?_) ?_)
      · rw [(chainMapping_fields _ u hslot t).1, (fillEntry_fields ftl v valLen hkey hoffset t).1]
      · rw [(chainMapping_fields _ u hslot t).2, (fillEntry_fields ftl v valLen hkey hoffset t).2]
        simp only [Option.some.injEq]
      · rintro u' heq
        cases heq
        exact ⟨hpath.live_of_mem hu, hend⟩

theorem chained_updateMappingEntry (h : Chained cfg (entryAt ftl.table))
    (hrun : updateMappingEntry cfg ftl key valLen = .ok ftl') :
    Chained cfg (entryAt ftl'.table) := by
  obtain ⟨found, -, hrun⟩ := exists_of_bind_eq_ok hrun
  cases found with
  | none =>
      cases hrun
      exact h
  | some slot =>
      cases hrun
      refine h.congr ?_ ?_
      · funext t
        rw [occupied, occupied, memOffset_overwrite]
        simp only [length_numberBytes, entrySize, memOffsetAt, keyRoom, lengthAt]
        omega
      · funext t
        refine nextSlot_overwrite ?_
        simp only [length_numberBytes, entrySize, lengthAt, nextSlotAt]
        omega

theorem chained_deleteMappingEntry (h : Chained cfg (entryAt ftl.table))
    (hrun : deleteMappingEntry cfg ftl key = .ok ftl') : Chained cfg (entryAt ftl'.table) := by
  obtain ⟨found, -, hrun⟩ := exists_of_bind_eq_ok hrun
  cases found with
  | none =>
      cases hrun
      exact h
  | some slot =>
      cases hrun
      obtain ⟨hfree, hnone⟩ := wiped_fields ftl.table slot
      refine h.release slot (occupied_eq_false.2 hfree) hnone (fun t ht => ?_) (fun t ht => ?_)
      · rw [occupied, occupied, memOffset_overwrite]
        simp only [List.length_replicate, entrySize, memOffsetAt, keyRoom]
        omega
      · refine nextSlot_overwrite ?_
        simp only [List.length_replicate, entrySize, nextSlotAt]
        omega

theorem chained_initTable (cfg : KvConfig) : Chained cfg (entryAt initTable) := by
  have hbytes : ∀ slot i n, memOffsetAt ≤ i → i + n ≤ nextSlotAt + 4 →
      readNumber initTable (entrySize * slot + i) n =
        littleEndian (slice (fun _ => 255) 0 n) := by
    intro slot i n hlow hhigh
    rw [readNumber]
    refine congrArg littleEndian (slice_congr fun j hj => ?_)
    have hmod : (entrySize * slot + i + j) % entrySize = i + j := by
      rw [Nat.add_assoc, Nat.mul_add_mod]
      exact Nat.mod_eq_of_lt (by rw [nextSlotAt] at hhigh; rw [entrySize]; omega)
    rw [initTable, hmod, if_pos ⟨by omega, by omega⟩]
  have hfree : ∀ slot, (entryAt initTable slot).memOffset = none := by
    intro slot
    rw [memOffset_eq, readOption, hbytes slot _ _ (by decide) (by decide), if_pos (by decide)]
  have hnone : ∀ slot, links (entryAt initTable) slot = none := by
    intro slot
    rw [links, nextSlot_eq, readOption, hbytes slot _ _ (by decide) (by decide),
      if_pos (by decide)]
  refine ⟨fun slot => ⟨[], .free (occupied_eq_false.2 (hfree slot))⟩, fun slot t hlink => ?_,
    fun slot _ => hnone slot⟩
  rw [hnone] at hlink
  cases hlink

/-- A key that is stored does not reach into `next_slot`. -/
def TableCommand.ShortKey : TableCommand → Prop
  | .store key _ => key.length ≤ 40
  | .batched _ _ | .delete _ => True

theorem chained_execute {cmd : TableCommand} (h : Chained cfg (entryAt ftl.table))
    (hnarrow : cfg.hashSlots < 2 ^ 32 - 1) (hshort : cmd.ShortKey)
    (hrun : execute cfg ftl cmd = .ok ftl') : Chained cfg (entryAt ftl'.table) := by
  cases cmd with
  | store key length =>
      obtain ⟨entry, -, hrun⟩ := exists_of_bind_eq_ok hrun
      cases hoffset : entry.memOffset with
      | none =>
          simp only [hoffset] at hrun
          have hkey : (key.bytes .newMappingEntry).length ≤ nextSlotAt := by
            rw [key.sized]
            exact hshort
          have hallocated : Chained cfg (entryAt (ftl.allocate length).table) := h
          exact chained_newMappingEntry hallocated hnarrow hkey hrun
      | some offset =>
          simp only [hoffset] at hrun
          split at hrun
          · exact chained_updateMappingEntry h hrun
          · cases hrun
            exact h
  | batched key length =>
      rw [execute] at hrun
      split at hrun
      · cases hrun
      · next hbuffer =>
        obtain ⟨entry, -, hrun⟩ := exists_of_bind_eq_ok hrun
        cases hoffset : entry.memOffset with
        | none =>
            simp only [hoffset] at hrun
            have hkey : key.length ≤ nextSlotAt := by
              rw [nextSlotAt]
              omega
            have hallocated : Chained cfg (entryAt (ftl.allocate length).table) := h
            exact chained_newMappingEntry hallocated hnarrow hkey hrun
        | some offset =>
            simp only [hoffset] at hrun
            cases hrun
            exact h
  | delete key =>
      obtain ⟨entry, -, hrun⟩ := exists_of_bind_eq_ok hrun
      cases hoffset : entry.memOffset with
      | none =>
          simp only [hoffset] at hrun
          cases hrun
          exact h
      | some offset =>
          simp only [hoffset] at hrun
          exact chained_deleteMappingEntry h hrun

/-- No chain of the table leads back to itself, and all walks along the chains end. -/
structure WalksEnd (cfg : KvConfig) (ftl : ByteFtl) : Prop where
  acyclic : ∀ slot, ¬TransGen (fun s t => links (entryAt ftl.table) s = some t) slot slot
  lookupSlot : ∀ key, ∃ found, lookupSlot cfg ftl.view key = .ok found
  getMappingEntry : ∀ key, key.length ≤ entrySize →
    ∃ entry, getMappingEntry cfg ftl key = .ok entry
  updateMappingEntry : ∀ key valLen, ∃ ftl', updateMappingEntry cfg ftl key valLen = .ok ftl'
  deleteMappingEntry : ∀ key, ∃ ftl', deleteMappingEntry cfg ftl key = .ok ftl'
  findTail : ∀ key, occupied (entryAt ftl.table) (getHashSlot cfg key) = true →
    ∃ tail, findTail (entryAt ftl.table) (cfg.hashSlots + 1) (getHashSlot cfg key) = .ok tail

theorem walksEnd_of_chained (h : Chained cfg (entryAt ftl.table)) : WalksEnd cfg ftl := by
  have hview : Chained cfg ftl.view.mappingTable := h
  have hlookup : ∀ key, ∃ found, lookupSlot cfg ftl.view key = .ok found := by
    intro key
    obtain ⟨xs, hpath⟩ := hview.paths (getHashSlot cfg key)
    exact ⟨_, hview.lookupSlot_eq hpath⟩
  refine ⟨no_cycle h.paths h.unlinked, hlookup, ?_, ?_, ?_, ?_⟩
  · intro key hkey
    obtain ⟨found, hfound⟩ := hlookup key
    rw [getMappingEntry, hfound, ok_bind]
    cases found with
    | none => exact ⟨_, rfl⟩
    | some slot => exact ⟨_, if_neg (not_lt.2 hkey)⟩
  · intro key valLen
    obtain ⟨found, hfound⟩ := hlookup key
    rw [updateMappingEntry, hfound]
    cases found with
    | none => exact ⟨_, rfl⟩
    | some slot => exact ⟨_, rfl⟩
  · intro key
    obtain ⟨found, hfound⟩ := hlookup key
    rw [deleteMappingEntry, hfound]
    cases found with
    | none => exact ⟨_, rfl⟩
    | some slot => exact ⟨_, rfl⟩
  · intro key hlive
    obtain ⟨xs, hpath⟩ := h.paths (getHashSlot cfg key)
    have hlength := h.length_le hpath (getHashSlot_lt cfg key)
    obtain ⟨tail, htail, -⟩ := findTail_ok hpath hlive (Nat.le_succ_of_le hlength)
    exact ⟨tail, htail⟩

end Walks

/-- When no key of more than 40 bytes is stored, all walks end in every table that commands
can build, with deletions in the middle of chains and slots that are used again. -/
theorem kv_walks_end (cfg : KvConfig) (hnarrow : cfg.hashSlots < 2 ^ 32 - 1) (storage : Memory)
    {ftl : ByteFtl}
    (hrun : ReflTransGen (fun s s' => ∃ cmd : TableCommand, cmd.ShortKey ∧
      execute cfg s cmd = .ok s') (initNamespace storage) ftl) : WalksEnd cfg ftl := by
  refine walksEnd_of_chained ?_
  induction hrun with
  | refl => exact chained_initTable cfg
  | tail _ hstep ih =>
      obtain ⟨cmd, hshort, hstep⟩ := hstep
      exact chained_execute ih hnarrow hshort hstep

def inlineKey (key : KvKey) : CommandKey where
  length := key.bytes.length
  bytes _ := key.bytes
  positive := key.nonempty
  bounded := key.inlined.trans (by decide)
  sized _ := rfl
  inField _ _ := rfl

theorem kv_walks_end_reused :
    ∃ ftl, ReflTransGen (fun s s' => ∃ cmd : TableCommand, cmd.ShortKey ∧
        execute builtConfig s cmd = .ok s') (initNamespace fun _ => 0) ftl ∧
      occupied (entryAt ftl.table) (getHashSlot builtConfig firstKey.bytes) = true ∧
      WalksEnd builtConfig ftl := by
  obtain ⟨ftl, hrun, hlive⟩ :
      ∃ ftl, [TableCommand.store (inlineKey firstKey) 4, .batched secondKey.bytes 4,
          .delete (inlineKey firstKey), .store (inlineKey firstKey) 4].foldlM
            (execute builtConfig) (initNamespace fun _ => 0) = .ok ftl ∧
        occupied (entryAt ftl.table) (getHashSlot builtConfig firstKey.bytes) = true :=
    exists_of_returns (by decide +kernel)
  have hreach := reflTransGen_of_foldlM (R := fun s s' => ∃ cmd : TableCommand, cmd.ShortKey ∧
    execute builtConfig s cmd = .ok s') _ (fun cmd hcmd _ _ h => ⟨cmd, ?_, h⟩) hrun
  · exact ⟨ftl, hreach, hlive, kv_walks_end builtConfig (by decide) _ hreach⟩
  · simp only [List.mem_cons, List.not_mem_nil, or_false] at hcmd
    rcases hcmd with rfl | rfl | rfl | rfl
    · show firstKey.bytes.length ≤ 40
      decide
    · trivial
    · trivial
    · show firstKey.bytes.length ≤ 40
      decide

/-- Sixteen times `c` in the field of the command, and behind it zeros and the number of the
home slot of all this. -/
def spilledBytes : List UInt8 :=
  List.replicate 16 99 ++ List.replicate 24 0 ++ numberBytes 4 14102664

def spilledKey : CommandKey where
  length := 44
  bytes _ := spilledBytes
  positive := by decide
  bounded := by decide
  sized _ := by decide
  inField _ _ := rfl

/-- The key `eaajb`, which has the same home slot. -/
def searchedKey : KvKey := ⟨[101, 97, 97, 106, 98], by decide, by decide⟩

theorem searchSlot_loop {table : Nat → MappingEntry} {key : List UInt8} {slot : Nat}
    (hlive : (table slot).memOffset ≠ none) (hother : sameKey key (table slot) = false)
    (hloop : (table slot).nextSlot = some slot) (fuel : Nat) :
    searchSlot table key fuel slot = .error (.endlessLoop .getMappingEntry) := by
  induction fuel with
  | zero => rfl
  | succ fuel ih =>
      rw [searchSlot, if_neg hlive, hother, hloop, if_neg Bool.false_ne_true]
      exact ih

/-- A stored key of 44 bytes links its slot to itself, and the search for another key of that
slot never ends. -/
theorem spilled_key_closes_chain :
    ∃ ftl slot, Executes builtConfig (initNamespace fun _ => 0) ftl ∧
      links (entryAt ftl.table) slot = some slot ∧
      (∀ fuel, searchSlot (entryAt ftl.table) searchedKey.bytes fuel
        (getHashSlot builtConfig searchedKey.bytes) = .error (.endlessLoop .getMappingEntry)) ∧
      ¬WalksEnd builtConfig ftl := by
  let home := getHashSlot builtConfig searchedKey.bytes
  let test (ftl : ByteFtl) : Bool :=
    (entryAt ftl.table home).memOffset.isSome &&
      !sameKey searchedKey.bytes (entryAt ftl.table home) &&
      (entryAt ftl.table home).nextSlot == some home
  obtain ⟨ftl, hrun, htest⟩ :
      ∃ ftl, execute builtConfig (initNamespace fun _ => 0) (.store spilledKey 4) = .ok ftl ∧
        test ftl = true :=
    exists_of_returns (by decide +kernel)
  simp only [test, Bool.and_eq_true, Bool.not_eq_true', beq_iff_eq] at htest
  obtain ⟨⟨hlive, hother⟩, hloop⟩ := htest
  have hendless := searchSlot_loop (Option.isSome_iff_ne_none.1 hlive) hother hloop
  refine ⟨ftl, home, ⟨_, hrun⟩, hloop, hendless, ?_⟩
  intro hends
  exact hends.acyclic home (.single hloop)

end NvmeVirt.MappingBytes
