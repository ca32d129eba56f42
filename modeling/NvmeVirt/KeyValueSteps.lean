import NvmeVirt.KeyValueChains

namespace NvmeVirt.KeyValueSteps

open ByteMemory
open FaultOutcome
open KeyValueChains
open KeyValueFtl
open PrpTransfer
open Relation
open WriteBuffer

/-- The device once `allocate_mem_offset` took `length` bytes and `value` was
written there. -/
def written (ftl : KvFtl) (value : List UInt8) : KvFtl :=
  { (allocateMemOffset ftl value.length).2 with
    storage := overwrite ftl.storage (allocateMemOffset ftl value.length).1 value }

inductive Stored (cfg : KvConfig) (ftl : KvFtl) (key value : List UInt8) : KvFtl → Prop where
  | insert {ftl' : KvFtl} (absent : lookupSlot cfg ftl key = .ok none)
      (inside : InsideStorage cfg (allocateMemOffset ftl value.length).1 value.length)
      (run : newMappingEntry cfg (written ftl value) key value.length
        (allocateMemOffset ftl value.length).1 = .ok ftl') : Stored cfg ftl key value ftl'
  /-- The length in the table is the old one or that of the new value. -/
  | update {slot offset length : Nat} (found : lookupSlot cfg ftl key = .ok (some slot))
      (place : (ftl.mappingTable slot).memOffset = some offset)
      (inside : InsideStorage cfg offset value.length)
      (kept : length = (ftl.mappingTable slot).length ∨ length = value.length) :
      Stored cfg ftl key value
        { ftl.setEntry slot { ftl.mappingTable slot with length := length } with
          storage := overwrite ftl.storage offset value }

section Stores

variable {cfg : KvConfig} {ftl ftl' : KvFtl} {host : Memory} {status : Nat}

theorem setEntry_same (ftl : KvFtl) (slot : Nat) :
    ftl.setEntry slot (ftl.mappingTable slot) = ftl := by
  rw [KvFtl.setEntry, Function.update_eq_self]

theorem lookupSlot_storage (cfg : KvConfig) (ftl : KvFtl) (storage : Memory) (key : List UInt8) :
    lookupSlot cfg { ftl with storage := storage } key = lookupSlot cfg ftl key := rfl

theorem getMappingEntry_of_lookupSlot {key : List UInt8} {found : Option Nat}
    (h : lookupSlot cfg ftl key = .ok found) :
    getMappingEntry cfg ftl key = .ok (foundEntry ftl.mappingTable key found) := by
  rw [getMappingEntry, h, ok_bind]
  cases found <;> rfl

theorem lookupSlot_of_getMappingEntry {key : List UInt8} {entry : MappingEntry}
    (h : getMappingEntry cfg ftl key = .ok entry) :
    ∃ found, lookupSlot cfg ftl key = .ok found ∧
      entry = foundEntry ftl.mappingTable key found := by
  obtain ⟨found, hfound, -⟩ := exists_of_bind_eq_ok h
  rw [getMappingEntry_of_lookupSlot hfound] at h
  cases h
  exact ⟨found, hfound, rfl⟩

theorem searchSlot_occupied {table : Nat → MappingEntry} {key : List UInt8}
    {fuel slot found : Nat} (h : searchSlot table key fuel slot = .ok (some found)) :
    (table found).memOffset ≠ none ∧ sameKey key (table found) = true := by
  induction fuel generalizing slot with
  | zero => cases h
  | succ fuel ih =>
      rw [searchSlot] at h
      split at h
      · cases h
      · next hlive =>
        split at h
        · next hsame =>
          cases h
          exact ⟨hlive, hsame⟩
        · split at h
          · cases h
          · exact ih h

theorem lookupSlot_occupied {key : List UInt8} {slot : Nat}
    (h : lookupSlot cfg ftl key = .ok (some slot)) :
    ∃ offset, (ftl.mappingTable slot).memOffset = some offset ∧
      sameKey key (ftl.mappingTable slot) = true := by
  obtain ⟨hlive, hsame⟩ := searchSlot_occupied h
  obtain ⟨offset, hoffset⟩ := Option.ne_none_iff_exists'.1 hlive
  exact ⟨offset, hoffset, hsame⟩

theorem insideStorage_of {offset length : Nat} (h : InsideStorage cfg offset length) :
    insideStorage cfg offset length = .ok () := if_pos h

theorem insideStorage_of_not {offset length : Nat} (h : ¬InsideStorage cfg offset length) :
    insideStorage cfg offset length = .error (.outOfBounds .storageMapped) := if_neg h

theorem of_insideStorage {offset length : Nat} {u : Unit}
    (h : insideStorage cfg offset length = .ok u) : InsideStorage cfg offset length := by
  rw [insideStorage] at h
  split at h
  · assumption
  · cases h

theorem moveStorage_of {offset length : Nat} (h : InsideStorage cfg offset length)
    (dptr : DataPtr) (dir : Direction) (host storage : Memory) :
    moveStorage cfg dptr dir host storage offset length =
      moveValue dptr dir host storage offset length := by
  rw [moveStorage, insideStorage_of h, ok_bind]

theorem of_moveStorage {dptr : DataPtr} {dir : Direction} {storage : Memory}
    {offset length : Nat} {moved : Memory × Memory}
    (h : moveStorage cfg dptr dir host storage offset length = .ok moved) :
    InsideStorage cfg offset length ∧
      moveValue dptr dir host storage offset length = .ok moved := by
  obtain ⟨_, hinside, hmove⟩ := exists_of_bind_eq_ok h
  exact ⟨of_insideStorage hinside, hmove⟩

theorem stored_same {key : List UInt8} {slot offset : Nat} {value : List UInt8}
    (hfound : lookupSlot cfg ftl key = .ok (some slot))
    (hoffset : (ftl.mappingTable slot).memOffset = some offset)
    (hinside : InsideStorage cfg offset value.length) :
    Stored cfg ftl key value { ftl with storage := overwrite ftl.storage offset value } := by
  have hkept : Stored cfg ftl key value
      { ftl.setEntry slot (ftl.mappingTable slot) with
        storage := overwrite ftl.storage offset value } := .update hfound hoffset hinside (.inl rfl)
  rwa [setEntry_same] at hkept

theorem doPerformKvIo_store {cmd : KvCommand} {reply : KvReply} (hop : cmd.opcode = .store)
    (hrun : doPerformKvIo cfg host ftl cmd status = .ok reply) :
    ∃ value, payload (fun _ => true) cmd.dptr host (cmdValueLength cmd.valueLen) = .ok value ∧
      value.length = cmdValueLength cmd.valueLen ∧
      Stored cfg ftl cmd.key.bytes value reply.ftl ∧ reply.host = host ∧
      reply.status = status := by
  obtain ⟨entry, hentry, hrun⟩ := exists_of_bind_eq_ok hrun
  obtain ⟨found, hfound, rfl⟩ := lookupSlot_of_getMappingEntry hentry
  simp only [hop] at hrun
  cases found with
  | none =>
      simp only [foundEntry, wipedEntry] at hrun
      obtain ⟨⟨host', storage⟩, hmove, hrun⟩ := exists_of_bind_eq_ok hrun
      obtain ⟨hinside, hmove⟩ := of_moveStorage hmove
      obtain ⟨value, hvalue, hlength, rfl, rfl⟩ := performIo_toDevice hmove
      obtain ⟨ftl', hnew, hrun⟩ := exists_of_bind_eq_ok hrun
      cases hrun
      rw [← hlength] at hinside
      refine ⟨value, hvalue, hlength, .insert hfound hinside ?_, rfl, rfl⟩
      rw [written, hlength]
      exact hnew
  | some slot =>
      obtain ⟨offset, hoffset, -⟩ := lookupSlot_occupied hfound
      simp only [foundEntry, hoffset] at hrun
      obtain ⟨⟨host', storage⟩, hmove, hrun⟩ := exists_of_bind_eq_ok hrun
      obtain ⟨hinside, hmove⟩ := of_moveStorage hmove
      obtain ⟨value, hvalue, hlength, rfl, rfl⟩ := performIo_toDevice hmove
      rw [← hlength] at hinside
      dsimp only at hrun
      split at hrun
      · rw [updateMappingEntry, lookupSlot_storage, hfound, ok_bind] at hrun
        cases hrun
        exact ⟨value, hvalue, hlength, .update hfound hoffset hinside (.inr hlength.symm), rfl, rfl⟩
      · cases hrun
        exact ⟨value, hvalue, hlength, stored_same hfound hoffset hinside, rfl, rfl⟩

theorem doPerformKvBatchedIo_other {key value : List UInt8}
    (hrun : doPerformKvBatchedIo cfg ftl false key value = .ok ftl') : ftl' = ftl := by
  obtain ⟨entry, -, hrun⟩ := exists_of_bind_eq_ok hrun
  cases hrun
  rfl

theorem doPerformKvBatchedIo_store {key value : List UInt8}
    (hrun : doPerformKvBatchedIo cfg ftl true key value = .ok ftl') :
    Stored cfg ftl key value ftl' := by
  obtain ⟨entry, hentry, hrun⟩ := exists_of_bind_eq_ok hrun
  obtain ⟨found, hfound, rfl⟩ := lookupSlot_of_getMappingEntry hentry
  cases found with
  | none =>
      obtain ⟨_, hinside, hrun⟩ := exists_of_bind_eq_ok hrun
      exact .insert hfound (of_insideStorage hinside) hrun
  | some slot =>
      obtain ⟨offset, hoffset, -⟩ := lookupSlot_occupied hfound
      simp only [foundEntry, hoffset] at hrun
      obtain ⟨_, hinside, hrun⟩ := exists_of_bind_eq_ok hrun
      cases hrun
      exact stored_same hfound hoffset (of_insideStorage hinside)

end Stores

/-- A change of the device: the commands are sequences of these. -/
inductive Change (cfg : KvConfig) (ftl : KvFtl) : KvFtl → Prop where
  | store {ftl' : KvFtl} {key value : List UInt8} (stored : Stored cfg ftl key value ftl') :
      Change cfg ftl ftl'
  | delete {key : List UInt8} {slot : Nat} (found : lookupSlot cfg ftl key = .ok (some slot)) :
      Change cfg ftl (ftl.setEntry slot wipedEntry)

section Commands

variable {cfg : KvConfig} {ftl ftl' : KvFtl} {host : Memory} {status : Nat} {reply : KvReply}

/-- The device after the search of `delete_mapping_entry`. -/
def withoutSlot (ftl : KvFtl) : Option Nat → KvFtl
  | none => ftl
  | some slot => ftl.setEntry slot wipedEntry

theorem doPerformKvIo_delete {cmd : KvCommand} {found : Option Nat} (hop : cmd.opcode = .delete)
    (hfound : lookupSlot cfg ftl cmd.key.bytes = .ok found) (host : Memory) (status : Nat) :
    ∃ reply, doPerformKvIo cfg host ftl cmd status = .ok reply ∧
      reply.ftl = withoutSlot ftl found := by
  rw [doPerformKvIo, getMappingEntry_of_lookupSlot hfound, ok_bind]
  cases found with
  | none =>
      simp only [hop, foundEntry, wipedEntry]
      exact ⟨_, rfl, rfl⟩
  | some slot =>
      obtain ⟨offset, hoffset, -⟩ := lookupSlot_occupied hfound
      simp only [hop, foundEntry, hoffset, deleteMappingEntry, hfound, ok_bind]
      exact ⟨_, rfl, rfl⟩

theorem doPerformKvIo_reads {cmd : KvCommand} (hop : cmd.opcode = .retrieve ∨ cmd.opcode = .exist)
    (hrun : doPerformKvIo cfg host ftl cmd status = .ok reply) : reply.ftl = ftl := by
  obtain ⟨entry, -, hrun⟩ := exists_of_bind_eq_ok hrun
  cases hoffset : entry.memOffset with
  | none =>
      rcases hop with hop | hop
      · simp only [hop, hoffset] at hrun
        cases hrun
        rfl
      · simp only [hop, hoffset] at hrun
        cases hrun
        rfl
  | some offset =>
      rcases hop with hop | hop
      · simp only [hop, hoffset] at hrun
        obtain ⟨⟨host', storage⟩, hmove, hrun⟩ := exists_of_bind_eq_ok hrun
        cases performIo_toHost_device (of_moveStorage hmove).2
        cases hrun
        rfl
      · simp only [hop, hoffset] at hrun
        cases hrun
        rfl

theorem doPerformKvIo_changes {cmd : KvCommand}
    (hrun : doPerformKvIo cfg host ftl cmd status = .ok reply) :
    ReflTransGen (Change cfg) ftl reply.ftl := by
  cases hop : cmd.opcode with
  | store =>
      obtain ⟨value, -, -, hstored, -⟩ := doPerformKvIo_store hop hrun
      exact .single (.store hstored)
  | append =>
      obtain ⟨entry, -, hrun⟩ := exists_of_bind_eq_ok hrun
      simp only [hop] at hrun
      cases hrun
      exact .refl
  | retrieve => rw [doPerformKvIo_reads (.inl hop) hrun]
  | delete =>
      obtain ⟨entry, hentry, -⟩ := exists_of_bind_eq_ok hrun
      obtain ⟨found, hfound, -⟩ := lookupSlot_of_getMappingEntry hentry
      obtain ⟨reply', hrun', hftl⟩ := doPerformKvIo_delete hop hfound host status
      rw [hrun] at hrun'
      cases hrun'
      rw [hftl]
      cases found with
      | none => exact .refl
      | some slot => exact .single (.delete hfound)
  | exist => rw [doPerformKvIo_reads (.inr hop) hrun]

theorem batchLoop_changes {buffer : Memory} {size cnt i payloadOffset : Nat}
    (hrun : batchLoop cfg buffer size cnt i payloadOffset ftl = .ok ftl') :
    ReflTransGen (Change cfg) ftl ftl' := by
  induction cnt generalizing i payloadOffset ftl with
  | zero =>
      cases hrun
      exact .refl
  | succ cnt ih =>
      obtain ⟨opcode, -, hrun⟩ := exists_of_bind_eq_ok hrun
      obtain ⟨keySize, -, hrun⟩ := exists_of_bind_eq_ok hrun
      obtain ⟨valueSize, -, hrun⟩ := exists_of_bind_eq_ok hrun
      dsimp only at hrun
      split at hrun
      · cases hrun
      · obtain ⟨key, -, hrun⟩ := exists_of_bind_eq_ok hrun
        obtain ⟨value, -, hrun⟩ := exists_of_bind_eq_ok hrun
        obtain ⟨next, hnext, hrun⟩ := exists_of_bind_eq_ok hrun
        refine ReflTransGen.trans ?_ (ih hrun)
        cases hstore : opcode == [0x81] with
        | false =>
            rw [hstore] at hnext
            rw [doPerformKvBatchedIo_other hnext]
        | true =>
            rw [hstore] at hnext
            exact .single (.store (doPerformKvBatchedIo_store hnext))

theorem kvPerformNvmeIoCmd_changes {cmd : KvIoCommand}
    (hrun : kvPerformNvmeIoCmd cfg host ftl cmd status = .ok reply) :
    ReflTransGen (Change cfg) ftl reply.ftl := by
  cases cmd with
  | io cmd => exact doPerformKvIo_changes hrun
  | batch cmd =>
      obtain ⟨⟨host', buffer⟩, -, hrun⟩ := exists_of_bind_eq_ok hrun
      obtain ⟨ftl', hloop, hrun⟩ := exists_of_bind_eq_ok hrun
      cases hrun
      exact batchLoop_changes hloop

theorem Stored.chained {key value : List UInt8} (hstored : Stored cfg ftl key value ftl')
    (h : Chained cfg ftl.mappingTable) : Chained cfg ftl'.mappingTable := by
  cases hstored with
  | insert absent inside run =>
      have hwritten : Chained cfg (written ftl value).mappingTable := h
      obtain ⟨v, prev, hnew⟩ := hwritten.newMappingEntry_inserted run
      exact hnew.chained hwritten
  | @update slot offset length found place inside kept =>
      refine h.congr ?_ ?_
      · funext t
        by_cases heq : t = slot
        · subst heq
          simp [occupied]
        · simp only [occupied, KvFtl.setEntry_of_ne _ _ heq]
      · funext t
        by_cases heq : t = slot
        · subst heq
          simp [links]
        · simp only [links, KvFtl.setEntry_of_ne _ _ heq]

theorem Change.chained (hchange : Change cfg ftl ftl') (h : Chained cfg ftl.mappingTable) :
    Chained cfg ftl'.mappingTable := by
  cases hchange with
  | store stored => exact stored.chained h
  | delete found => exact h.wiped _

theorem chained_of_changes (hchanges : ReflTransGen (Change cfg) ftl ftl')
    (h : Chained cfg ftl.mappingTable) : Chained cfg ftl'.mappingTable := by
  induction hchanges with
  | refl => exact h
  | tail _ hchange ih => exact hchange.chained ih

end Commands

def Executes (cfg : KvConfig) (ftl ftl' : KvFtl) : Prop :=
  ∃ host cmd status reply, kvPerformNvmeIoCmd cfg host ftl cmd status = .ok reply ∧
    reply.ftl = ftl'

theorem chained_of_executes {cfg : KvConfig} {storage : Memory} {ftl : KvFtl}
    (hrun : ReflTransGen (Executes cfg) (initNamespace storage) ftl) :
    Chained cfg ftl.mappingTable := by
  induction hrun with
  | refl => exact chained_init cfg storage
  | tail _ hstep ih =>
      obtain ⟨host, cmd, status, reply, hcmd, rfl⟩ := hstep
      exact chained_of_changes (kvPerformNvmeIoCmd_changes hcmd) ih

end NvmeVirt.KeyValueSteps
