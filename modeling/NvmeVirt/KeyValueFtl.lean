import Mathlib.Logic.Function.Basic
import NvmeVirt.PrpTransfer

/-!
The key-value device (`kv_ftl.c`) with the append-only allocator
(`append_only.c`): the mapping table, its chains, and the commands.
-/

namespace NvmeVirt.KeyValueFtl

open ByteMemory
open FaultOutcome
open PrpTransfer
open WriteBuffer

/-- `struct mapping_entry`, its key with the padding behind it; `none` stands for the `-1`
that marks a free entry and the end of a chain. -/
@[ext] structure MappingEntry where
  key : List UInt8
  memOffset : Option Nat
  length : Nat
  nextSlot : Option Nat
deriving DecidableEq

/-- The bytes of an entry before `mem_offset`: `char key[18]` and the padding behind it. -/
def keyRoom : Nat := 24

/-- An entry after `memset(.., -1, ..)`. -/
def wipedEntry : MappingEntry where
  key := List.replicate keyRoom 255
  memOffset := none
  length := 2 ^ 64 - 1
  nextSlot := none

/-- An entry as `kv_init_namespace` leaves it. -/
def initialEntry : MappingEntry where
  key := List.replicate keyRoom 0
  memOffset := none
  length := 2 ^ 64 - 1
  nextSlot := none

/-- What does not change while the device runs. The storage is smaller than the
`size_t` that the allocator is expected to return on failure. -/
structure KvConfig where
  hashFunction : List UInt8 → Nat
  hashSlots : Nat
  storageSize : Nat
  hasSlots : 0 < hashSlots
  sized : storageSize < 2 ^ 64 - 1

/-- `hash_function`. -/
def hashFunction (key : List UInt8) : Nat :=
  key.foldl (fun h byte => (h * 16777619) % 2 ^ 32 ^^^ byte.toNat) 2166136261

/-- `struct kv_ftl`, with the static variable `latest` of the allocator and the
bytes of `storage_mapped`. -/
@[ext] structure KvFtl where
  mappingTable : Nat → MappingEntry
  latest : Nat
  storage : Memory

/-- `kv_init_namespace` over a storage of any content. -/
def initNamespace (storage : Memory) : KvFtl where
  mappingTable _ := initialEntry
  latest := 0
  storage := storage

def KvFtl.setEntry (ftl : KvFtl) (slot : Nat) (entry : MappingEntry) : KvFtl :=
  { ftl with mappingTable := Function.update ftl.mappingTable slot entry }

@[simp] theorem KvFtl.setEntry_self (ftl : KvFtl) (slot : Nat) (entry : MappingEntry) :
    (ftl.setEntry slot entry).mappingTable slot = entry := Function.update_self _ _ _

theorem KvFtl.setEntry_of_ne (ftl : KvFtl) {slot t : Nat} (entry : MappingEntry) (h : t ≠ slot) :
    (ftl.setEntry slot entry).mappingTable t = ftl.mappingTable t := Function.update_of_ne h _ _

def appendOnlyAllocate (ftl : KvFtl) (length : Nat) : Nat × KvFtl :=
  (ftl.latest, { ftl with latest := (ftl.latest + length) % 2 ^ 64 })

/-- `allocate_mem_offset` for a store, and `allocate_mem_offset_by_length`. -/
def allocateMemOffset (ftl : KvFtl) (length : Nat) : Nat × KvFtl :=
  let (offset, ftl) := appendOnlyAllocate ftl length
  (if offset = 2 ^ 64 - 1 then 0 else offset, ftl)

section Table

variable (cfg : KvConfig)

def getHashSlot (key : List UInt8) : Nat := cfg.hashFunction key % cfg.hashSlots

/-- `memcmp` of the key with as many bytes of the entry. -/
def sameKey (key : List UInt8) (entry : MappingEntry) : Bool :=
  entry.key.take key.length == key

/-- The loop that `get_mapping_entry`, `get_mapping_entry_by_key`,
`update_mapping_entry` and `delete_mapping_entry` share: the slot it breaks at
when `found`. -/
def searchSlot (table : Nat → MappingEntry) (key : List UInt8) :
    Nat → Nat → Except Fault (Option Nat)
  | 0, _ => .error (.endlessLoop .getMappingEntry)
  | fuel + 1, slot =>
      if (table slot).memOffset = none then .ok none
      else if sameKey key (table slot) then .ok (some slot)
      else
        match (table slot).nextSlot with
        | none => .ok none
        | some slot => searchSlot table key fuel slot

def lookupSlot (ftl : KvFtl) (key : List UInt8) : Except Fault (Option Nat) :=
  searchSlot ftl.mappingTable key (cfg.hashSlots + 1) (getHashSlot cfg key)

/-- `get_mapping_entry` and `get_mapping_entry_by_key`. -/
def getMappingEntry (ftl : KvFtl) (key : List UInt8) : Except Fault MappingEntry := do
  match ← lookupSlot cfg ftl key with
  | none => return wipedEntry
  | some slot =>
      let entry := ftl.mappingTable slot
      return { entry with
        key := entry.key.take key.length ++ wipedEntry.key.drop key.length }

/-- The first loop of `find_next_slot`: the last slot of the chain. -/
def findTail (table : Nat → MappingEntry) : Nat → Nat → Except Fault Nat
  | 0, _ => .error (.endlessLoop .findNextSlot)
  | fuel + 1, tail =>
      match (table tail).nextSlot with
      | none => .ok tail
      | some slot =>
          if (table slot).memOffset = none then .ok tail else findTail table fuel slot

/-- The second loop: the next free slot, around the table. -/
def probeSlot (table : Nat → MappingEntry) : Nat → Nat → Except Fault Nat
  | 0, _ => .error (.endlessLoop .findNextSlot)
  | fuel + 1, slot =>
      if (table slot).memOffset = none then .ok slot
      else probeSlot table fuel (if cfg.hashSlots ≤ slot + 1 then 0 else slot + 1)

/-- The new slot and `prev_slot`, for an occupied `original_slot`. -/
def findNextSlot (ftl : KvFtl) (originalSlot : Nat) : Except Fault (Nat × Nat) := do
  let prevSlot ← findTail ftl.mappingTable (cfg.hashSlots + 1) originalSlot
  let slot ← probeSlot cfg ftl.mappingTable (cfg.hashSlots + 1) prevSlot
  return (slot, prevSlot)

def chainMapping (ftl : KvFtl) (prev slot : Nat) : KvFtl :=
  ftl.setEntry prev { ftl.mappingTable prev with nextSlot := some slot }

/-- The entry `new_mapping_entry` writes; `next_slot` stays. -/
def fillEntry (ftl : KvFtl) (slot : Nat) (key : List UInt8) (valLen valOffset : Nat) : KvFtl :=
  let entry := ftl.mappingTable slot
  ftl.setEntry slot
    { entry with
      key := key ++ entry.key.drop key.length
      memOffset := some valOffset
      length := valLen }

/-- `new_mapping_entry` and `new_mapping_entry_by_key`. The copying of a key that is longer
than `keyRoom` runs into the other fields, which entries of this form do not show. -/
def newMappingEntry (ftl : KvFtl) (key : List UInt8) (valLen valOffset : Nat) :
    Except Fault KvFtl := do
  if cfg.storageSize ≤ valOffset then .error (.bugOn .newMappingEntry)
  else if keyRoom < key.length then .error (.outOfBounds .newMappingEntry)
  else
    let slot := getHashSlot cfg key
    if (ftl.mappingTable slot).memOffset = none then
      return fillEntry ftl slot key valLen valOffset
    else
      let (slot, prevSlot) ← findNextSlot cfg ftl slot
      return chainMapping (fillEntry ftl slot key valLen valOffset) prevSlot slot

def updateMappingEntry (ftl : KvFtl) (key : List UInt8) (valLen : Nat) :
    Except Fault KvFtl := do
  match ← lookupSlot cfg ftl key with
  | none => return ftl
  | some slot => return ftl.setEntry slot { ftl.mappingTable slot with length := valLen }

def deleteMappingEntry (ftl : KvFtl) (key : List UInt8) : Except Fault KvFtl := do
  match ← lookupSlot cfg ftl key with
  | none => return ftl
  | some slot => return ftl.setEntry slot wipedEntry

end Table

/-- `SMALL_LENGTH`. -/
def smallLength : Nat := 1024

/-- `KV_ERR_KEY_NOT_EXIST`. -/
def keyNotExist : Nat := 0x310

/-- The opcodes that reach `__do_perform_kv_io`. -/
inductive KvOpcode where
  | store
  | append
  | retrieve
  | delete
  | exist
deriving DecidableEq, Repr

/-- A key inside a command: `key_len + 1` bytes, all in the field `key[16]`. -/
structure KvKey where
  bytes : List UInt8
  nonempty : 0 < bytes.length
  inlined : bytes.length ≤ 16

/-- `struct nvme_kv_command`. -/
structure KvCommand where
  opcode : KvOpcode
  key : KvKey
  valueLen : Nat
  dptr : DataPtr

/-- `struct nvme_kv_batch_command`, with the count in `rsvd4`. -/
structure KvBatchCommand where
  subCmdCnt : Nat
  valueLen : Nat
  dptr : DataPtr

/-- `cmd_value_length`: the length counts words. -/
def cmdValueLength (valueLen : Nat) : Nat := valueLen * 4 % 2 ^ 32

/-- What a command leaves: the device, the memory of the host, the returned
value and the status. -/
structure KvReply where
  ftl : KvFtl
  host : Memory
  result : Nat
  status : Nat

section Commands

variable (cfg : KvConfig)

/-- The data loop of the commands; `kmap_atomic_pfn` maps every page. -/
def moveValue (dptr : DataPtr) (dir : Direction) (host device : Memory) (offset length : Nat) :
    Except Fault (Memory × Memory) :=
  performIo (fun _ => true) dptr dir host device offset length

abbrev InsideStorage (offset length : Nat) : Prop :=
  length = 0 ∨ offset + length ≤ cfg.storageSize

/-- `memcpy` behind the mapping of the storage faults. -/
def insideStorage (offset length : Nat) : Except Fault Unit :=
  if InsideStorage cfg offset length then .ok () else .error (.outOfBounds .storageMapped)

def moveStorage (dptr : DataPtr) (dir : Direction) (host storage : Memory)
    (offset length : Nat) : Except Fault (Memory × Memory) := do
  insideStorage cfg offset length
  moveValue dptr dir host storage offset length

/-- `__do_perform_kv_io`. -/
def doPerformKvIo (host : Memory) (ftl : KvFtl) (cmd : KvCommand) (status : Nat) :
    Except Fault KvReply := do
  let entry ← getMappingEntry cfg ftl cmd.key.bytes
  let length := cmdValueLength cmd.valueLen
  match cmd.opcode, entry.memOffset with
  | .store, none =>
      let (offset, ftl) := allocateMemOffset ftl length
      let (host, storage) ← moveStorage cfg cmd.dptr .toDevice host ftl.storage offset length
      let ftl ← newMappingEntry cfg { ftl with storage := storage } cmd.key.bytes length offset
      return { ftl := ftl, host := host, result := 0, status := status }
  | .store, some offset =>
      let (host, storage) ← moveStorage cfg cmd.dptr .toDevice host ftl.storage offset length
      let ftl := { ftl with storage := storage }
      let ftl ←
        if length ≠ entry.length ∧ length ≤ smallLength ∧ entry.length ≤ smallLength then
          updateMappingEntry cfg ftl cmd.key.bytes length
        else pure ftl
      return { ftl := ftl, host := host, result := 0, status := status }
  | .retrieve, some offset =>
      let length := min entry.length length
      let (host, storage) ← moveStorage cfg cmd.dptr .toHost host ftl.storage offset length
      return { ftl := { ftl with storage := storage }, host := host, result := length
               status := status }
  | .exist, some _ => return { ftl := ftl, host := host, result := 0, status := status }
  | .delete, some _ =>
      let ftl ← deleteMappingEntry cfg ftl cmd.key.bytes
      return { ftl := ftl, host := host, result := 0, status := status }
  | .append, _ => return { ftl := ftl, host := host, result := 0, status := status }
  | .retrieve, none | .exist, none | .delete, none =>
      return { ftl := ftl, host := host, result := 0, status := keyNotExist }

/-- `__do_perform_kv_batched_io` for a `kv_store`; for every other opcode it does
nothing. A value of another length is written over the old one, and the length in
the table stays. -/
def doPerformKvBatchedIo (ftl : KvFtl) (isStore : Bool) (key value : List UInt8) :
    Except Fault KvFtl := do
  let entry ← getMappingEntry cfg ftl key
  if isStore then
    match entry.memOffset with
    | none =>
        let (offset, ftl) := allocateMemOffset ftl value.length
        insideStorage cfg offset value.length
        newMappingEntry cfg { ftl with storage := overwrite ftl.storage offset value } key
          value.length offset
    | some offset =>
        insideStorage cfg offset value.length
        return { ftl with storage := overwrite ftl.storage offset value }
  else return ftl

/-- `MAX_SUB_CMD`. -/
def maxSubCmd : Nat := 8

/-- `ALIGN_LEN`. -/
def alignLen : Nat := 64

/-- A length rounded up to whole units of `ALIGN_LEN`, and at least one. -/
def aligned (length : Nat) : Nat := ((length - 1) / alignLen + 1) * alignLen

/-- The size of `struct batch_cmd_head`, behind which `sub_payload` starts. -/
def batchHead : Nat := 512

/-- `n` bytes of the buffer of `size` bytes. -/
def readBuffer (buffer : Memory) (size start n : Nat) : Except Fault (List UInt8) :=
  if start + n ≤ size then .ok (slice buffer start n) else .error (.outOfBounds .performKvBatch)

def littleEndian (bytes : List UInt8) : Nat :=
  bytes.foldr (fun byte rest => byte.toNat + 256 * rest) 0

/-- The loop over the sub-commands. `key` has room for 20 bytes, and `value` for 4097. -/
def batchLoop (buffer : Memory) (size : Nat) : Nat → Nat → Nat → KvFtl → Except Fault KvFtl
  | 0, _, _, ftl => .ok ftl
  | cnt + 1, i, payloadOffset, ftl => do
      let opcode ← readBuffer buffer size (16 * i) 1
      let keySize ← readBuffer buffer size (16 * i + 1) 1
      let valueSize ← readBuffer buffer size (16 * i + 4) 4
      let keyLen := littleEndian keySize
      let valLen := littleEndian valueSize
      if 20 < keyLen ∨ 4097 < valLen then .error (.outOfBounds .performKvBatch)
      else
        let start := batchHead + payloadOffset
        let key ← readBuffer buffer size start keyLen
        let value ← readBuffer buffer size (start + aligned keyLen) valLen
        let ftl ← doPerformKvBatchedIo cfg ftl (opcode == [0x81]) key value
        batchLoop buffer size cnt (i + 1)
          (payloadOffset + (aligned keyLen + aligned valLen + alignLen)) ftl

/-- `__do_perform_kv_batch`. -/
def doPerformKvBatch (host : Memory) (ftl : KvFtl) (cmd : KvBatchCommand) (status : Nat) :
    Except Fault KvReply := do
  let length := cmdValueLength cmd.valueLen
  let (host, buffer) ← moveValue cmd.dptr .toDevice host (fun _ => 0) 0 length
  let ftl ← batchLoop cfg buffer length cmd.subCmdCnt 0 alignLen ftl
  return { ftl := ftl, host := host, result := 0, status := status }

inductive KvIoCommand where
  | io (cmd : KvCommand)
  | batch (cmd : KvBatchCommand)

/-- `kv_perform_nvme_io_cmd`, the iterators left out. -/
def kvPerformNvmeIoCmd (host : Memory) (ftl : KvFtl) (cmd : KvIoCommand) (status : Nat) :
    Except Fault KvReply :=
  match cmd with
  | .io cmd => doPerformKvIo cfg host ftl cmd status
  | .batch cmd => doPerformKvBatch cfg host ftl cmd status

end Commands

/-- The device as it is built: `KV_MAPPING_TABLE_SIZE / KV_MAPPING_ENTRY_SIZE`
slots, and here one megabyte of storage. -/
def builtConfig : KvConfig where
  hashFunction := hashFunction
  hashSlots := 22369621
  storageSize := 1048576
  hasSlots := by decide
  sized := by decide

/-- The key `a9q0`. -/
def firstKey : KvKey := ⟨[97, 57, 113, 48], by decide, by decide⟩

/-- The key `bdab`, which has the same home slot. -/
def secondKey : KvKey := ⟨[98, 100, 97, 98], by decide, by decide⟩

end NvmeVirt.KeyValueFtl
