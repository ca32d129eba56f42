import NvmeVirt.KeyValueRefinement

namespace NvmeVirt.BatchedStores

open ByteMemory
open FaultOutcome
open Function
open HostBuffer
open KeyValueChains
open KeyValueExtents
open KeyValueFtl
open KeyValueRefinement
open KeyValueSteps
open PrpTransfer
open Relation
open WriteBuffer

section Runs

variable (cfg : KvConfig)

structure SingleStore where
  host : Memory
  cmd : KvCommand
  status : Nat
  opcode : cmd.opcode = .store

def SingleStore.Sends (single : SingleStore) (item : List UInt8 × List UInt8) : Prop :=
  single.cmd.key.bytes = item.1 ∧
    payload (fun _ => true) single.cmd.dptr single.host (cmdValueLength single.cmd.valueLen) =
      .ok item.2

def storeSingle (ftl : KvFtl) (single : SingleStore) : Except Fault KvFtl := do
  let reply ← doPerformKvIo cfg single.host ftl single.cmd single.status
  return reply.ftl

def storeBatch (host : Memory) (ftl : KvFtl) (cmd : KvBatchCommand) (status : Nat) :
    Except Fault KvFtl := do
  let reply ← doPerformKvBatch cfg host ftl cmd status
  return reply.ftl

/-- The slots of the entries that the stores of a batch go to, each with the length of the
value. -/
def addressed : KvFtl → List (List UInt8 × List UInt8) → Except Fault (List (Nat × Nat))
  | _, [] => .ok []
  | ftl, item :: items => do
      let next ← storeItem cfg ftl item
      let found ← lookupSlot cfg next item.1
      let stores ← addressed next items
      return (found.toList.map fun slot => (slot, item.2.length)) ++ stores

end Runs

section Lengths

/-- The length that the table records for an entry, before the batch or when the first
store of the batch takes the slot. -/
def recorded (ftl : KvFtl) (stores : List (Nat × Nat)) (slot : Nat) : Nat :=
  if occupied ftl.mappingTable slot then (ftl.mappingTable slot).length
  else ((stores.find? fun store => store.1 == slot).map Prod.snd).getD 0

/-- The length of the last value of at most `SMALL_LENGTH` bytes that goes to the slot. -/
def lastSmall (stores : List (Nat × Nat)) (slot : Nat) : Option Nat :=
  (stores.reverse.find? fun store => store.1 == slot && decide (store.2 ≤ smallLength)).map
    Prod.snd

/-- The last small value for each entry has the length that the table records, or that
length is not small. -/
def LengthsKept (ftl : KvFtl) (stores : List (Nat × Nat)) : Prop :=
  ∀ slot n, lastSmall stores slot = some n →
    recorded ftl stores slot = n ∨ smallLength < recorded ftl stores slot

def updated (ftl : KvFtl) (stores : List (Nat × Nat)) (slot : Nat) : Nat :=
  if recorded ftl stores slot ≤ smallLength then
    (lastSmall stores slot).getD (recorded ftl stores slot)
  else recorded ftl stores slot

variable {ftl : KvFtl} {stores : List (Nat × Nat)} {slot v n : Nat}

theorem lastSmall_append (stores : List (Nat × Nat)) (v n slot : Nat) :
    lastSmall (stores ++ [(v, n)]) slot =
      if v = slot ∧ n ≤ smallLength then some n else lastSmall stores slot := by
  rw [lastSmall, List.reverse_append, List.reverse_singleton, List.singleton_append,
    List.find?_cons]
  by_cases hhit : v = slot ∧ n ≤ smallLength
  · rw [if_pos hhit]
    simp [hhit.1, hhit.2]
  · rw [if_neg hhit]
    have hmiss : (v == slot && decide (n ≤ smallLength)) = false := by simpa using hhit
    simp only [hmiss, lastSmall]

theorem mem_of_lastSmall (h : lastSmall stores slot = some n) :
    slot ∈ stores.map Prod.fst ∧ n ≤ smallLength := by
  obtain ⟨store, hstore, rfl⟩ := Option.map_eq_some_iff.1 h
  have hmem := List.mem_reverse.1 (List.mem_of_find?_eq_some hstore)
  have hhit := List.find?_some hstore
  simp only [Bool.and_eq_true, beq_iff_eq, decide_eq_true_eq] at hhit
  exact ⟨hhit.1 ▸ List.mem_map_of_mem hmem, hhit.2⟩

theorem lastSmall_of_notMem (h : slot ∉ stores.map Prod.fst) : lastSmall stores slot = none := by
  cases hlast : lastSmall stores slot with
  | none => rfl
  | some n => exact absurd (mem_of_lastSmall hlast).1 h

theorem recorded_new (hfree : occupied ftl.mappingTable v = false)
    (hnew : v ∉ stores.map Prod.fst) (n : Nat) : recorded ftl (stores ++ [(v, n)]) v = n := by
  have hnone : (stores.find? fun store => store.1 == v) = none := by
    rw [List.find?_eq_none]
    intro store hstore hhit
    rw [beq_iff_eq] at hhit
    exact hnew (hhit ▸ List.mem_map_of_mem hstore)
  rw [recorded, hfree, List.find?_append, hnone]
  simp

theorem recorded_append (n : Nat)
    (h : occupied ftl.mappingTable slot = true ∨ slot ∈ stores.map Prod.fst ∨ slot ≠ v) :
    recorded ftl (stores ++ [(v, n)]) slot = recorded ftl stores slot := by
  rw [recorded, recorded, List.find?_append]
  rcases h with hlive | hmem | hne
  · rw [if_pos hlive, if_pos hlive]
  · obtain ⟨store, hstore, hslot⟩ := List.mem_map.1 hmem
    cases hfind : stores.find? fun store => store.1 == slot with
    | none => exact absurd (beq_iff_eq.2 hslot) (List.find?_eq_none.1 hfind store hstore)
    | some found => rfl
  · have hmiss : ([(v, n)].find? fun store => store.1 == slot) = none := by
      simp [Ne.symm hne]
    rw [hmiss, Option.or_none]

theorem updated_append (n : Nat)
    (h : occupied ftl.mappingTable v = true ∨ v ∈ stores.map Prod.fst) :
    updated ftl (stores ++ [(v, n)]) v =
      if n ≤ smallLength ∧ updated ftl stores v ≤ smallLength then n
      else updated ftl stores v := by
  have hrecorded : recorded ftl (stores ++ [(v, n)]) v = recorded ftl stores v :=
    recorded_append n (by tauto)
  simp only [updated, hrecorded, lastSmall_append, true_and]
  by_cases hsmall : recorded ftl stores v ≤ smallLength
  · have hlast : (lastSmall stores v).getD (recorded ftl stores v) ≤ smallLength := by
      cases hlast : lastSmall stores v with
      | none => exact hsmall
      | some n => exact (mem_of_lastSmall hlast).2
    simp only [if_pos hsmall, hlast, and_true]
    split <;> rfl
  · simp only [hsmall, and_false, if_false]

theorem updated_append_of_ne (hne : slot ≠ v) (n : Nat) :
    updated ftl (stores ++ [(v, n)]) slot = updated ftl stores slot := by
  have hrecorded : recorded ftl (stores ++ [(v, n)]) slot = recorded ftl stores slot :=
    recorded_append n (.inr (.inr hne))
  have hmiss : ¬(v = slot ∧ n ≤ smallLength) := fun h => hne h.1.symm
  rw [updated, updated, hrecorded, lastSmall_append, if_neg hmiss]

theorem updated_new (hfree : occupied ftl.mappingTable v = false)
    (hnew : v ∉ stores.map Prod.fst) (n : Nat) : updated ftl (stores ++ [(v, n)]) v = n := by
  rw [updated, recorded_new hfree hnew, lastSmall_append, lastSmall_of_notMem hnew]
  simp only [true_and]
  split <;> rfl

end Lengths

section Tables

def withLengths (ftl : KvFtl) (lengths : Nat → Nat) : KvFtl :=
  { ftl with
    mappingTable := fun slot => { ftl.mappingTable slot with length := lengths slot } }

variable {cfg : KvConfig} {ftl next : KvFtl} {key : List UInt8} (lengths : Nat → Nat)

theorem withLengths_eq_self_iff :
    withLengths ftl lengths = ftl ↔
      ∀ slot, lengths slot = (ftl.mappingTable slot).length := by
  constructor
  · intro hsame slot
    exact congrArg (fun ftl => (ftl.mappingTable slot).length) hsame
  · intro hsame
    refine KvFtl.ext ?_ rfl rfl
    funext slot
    simp only [withLengths, hsame slot]

theorem searchSlot_withLengths (fuel slot : Nat) :
    searchSlot (withLengths ftl lengths).mappingTable key fuel slot =
      searchSlot ftl.mappingTable key fuel slot := by
  induction fuel generalizing slot with
  | zero => rfl
  | succ fuel ih =>
      rw [searchSlot, searchSlot]
      simp only [ih]
      rfl

theorem findTail_withLengths (fuel slot : Nat) :
    findTail (withLengths ftl lengths).mappingTable fuel slot =
      findTail ftl.mappingTable fuel slot := by
  induction fuel generalizing slot with
  | zero => rfl
  | succ fuel ih =>
      rw [findTail, findTail]
      simp only [ih]
      rfl

theorem probeSlot_withLengths (fuel slot : Nat) :
    probeSlot cfg (withLengths ftl lengths).mappingTable fuel slot =
      probeSlot cfg ftl.mappingTable fuel slot := by
  induction fuel generalizing slot with
  | zero => rfl
  | succ fuel ih =>
      rw [probeSlot, probeSlot]
      simp only [ih]
      rfl

theorem lookupSlot_withLengths (key : List UInt8) :
    lookupSlot cfg (withLengths ftl lengths) key = lookupSlot cfg ftl key :=
  searchSlot_withLengths lengths _ _

theorem findNextSlot_withLengths (slot : Nat) :
    findNextSlot cfg (withLengths ftl lengths) slot = findNextSlot cfg ftl slot := by
  rw [findNextSlot, findNextSlot, findTail_withLengths]
  simp only [probeSlot_withLengths]

theorem setEntry_withLengths (ftl : KvFtl) (slot n : Nat) (entry : MappingEntry) :
    (withLengths ftl lengths).setEntry slot { entry with length := n } =
      withLengths (ftl.setEntry slot entry) (update lengths slot n) := by
  refine KvFtl.ext ?_ rfl rfl
  funext t
  by_cases hslot : t = slot
  · subst hslot
    simp [withLengths]
  · simp [withLengths, KvFtl.setEntry_of_ne _ _ hslot, update_of_ne hslot]

theorem fillEntry_withLengths (slot n offset : Nat) (key : List UInt8) :
    fillEntry (withLengths ftl lengths) slot key n offset =
      withLengths (fillEntry ftl slot key n offset) (update lengths slot n) :=
  setEntry_withLengths lengths ftl slot n
    { ftl.mappingTable slot with
      key := key ++ (ftl.mappingTable slot).key.drop key.length
      memOffset := some offset
      length := n }

theorem chainMapping_withLengths (prev slot : Nat) :
    chainMapping (withLengths ftl lengths) prev slot =
      withLengths (chainMapping ftl prev slot) lengths := by
  have hchain := setEntry_withLengths lengths ftl prev (lengths prev)
    { ftl.mappingTable prev with nextSlot := some slot }
  rw [update_eq_self] at hchain
  exact hchain

theorem free_of_probeSlot {fuel slot v : Nat}
    (h : probeSlot cfg ftl.mappingTable fuel slot = .ok v) :
    (ftl.mappingTable v).memOffset = none := by
  induction fuel generalizing slot with
  | zero => cases h
  | succ fuel ih =>
      rw [probeSlot] at h
      split at h
      · next hfree =>
        cases h
        exact hfree
      · exact ih h

theorem newMappingEntry_withLengths (ftl : KvFtl) (n offset : Nat) (key : List UInt8) :
    (∃ fault, newMappingEntry cfg ftl key n offset = .error fault ∧
        newMappingEntry cfg (withLengths ftl lengths) key n offset = .error fault) ∨
      ∃ next v, newMappingEntry cfg ftl key n offset = .ok next ∧
        newMappingEntry cfg (withLengths ftl lengths) key n offset =
          .ok (withLengths next (update lengths v n)) ∧
        (next.mappingTable v).memOffset = some offset ∧
        (ftl.mappingTable v).memOffset = none := by
  by_cases hfits : cfg.storageSize ≤ offset
  · left
    exact ⟨_, by rw [newMappingEntry, if_pos hfits], by rw [newMappingEntry, if_pos hfits]⟩
  by_cases hlong : keyRoom < key.length
  · left
    exact ⟨_, by rw [newMappingEntry, if_neg hfits, if_pos hlong],
      by rw [newMappingEntry, if_neg hfits, if_pos hlong]⟩
  · rw [newMappingEntry, newMappingEntry, if_neg hfits, if_neg hfits, if_neg hlong, if_neg hlong]
    simp only
    by_cases hfree : (ftl.mappingTable (getHashSlot cfg key)).memOffset = none
    · right
      refine ⟨fillEntry ftl (getHashSlot cfg key) key n offset, getHashSlot cfg key, ?_, ?_, ?_,
        hfree⟩
      · rw [if_pos hfree]
        rfl
      · rw [fillEntry_withLengths]
        exact if_pos hfree
      · rw [fillEntry, KvFtl.setEntry_self]
    · have hfull : ¬((withLengths ftl lengths).mappingTable (getHashSlot cfg key)).memOffset =
          none := hfree
      rw [if_neg hfree, if_neg hfull, findNextSlot_withLengths]
      cases hnext : findNextSlot cfg ftl (getHashSlot cfg key) with
      | error fault => exact .inl ⟨fault, rfl, rfl⟩
      | ok found =>
          obtain ⟨v, prev⟩ := found
          obtain ⟨tail, -, hprobe⟩ := exists_of_bind_eq_ok hnext
          obtain ⟨slot, hprobe, hslot⟩ := exists_of_bind_eq_ok hprobe
          cases hslot
          refine .inr ⟨chainMapping (fillEntry ftl v key n offset) prev v, v, rfl, ?_, ?_,
            free_of_probeSlot hprobe⟩
          · rw [ok_bind]
            dsimp only
            rw [fillEntry_withLengths, chainMapping_withLengths]
            rfl
          · by_cases hprev : v = prev
            · subst hprev
              rw [chainMapping, KvFtl.setEntry_self, fillEntry, KvFtl.setEntry_self]
            · rw [chainMapping, KvFtl.setEntry_of_ne _ _ hprev, fillEntry, KvFtl.setEntry_self]

end Tables

section Steps

variable {cfg : KvConfig} {ftl ftl' next : KvFtl} {single : SingleStore}
  {item : List UInt8 × List UInt8} {lengths lengths' : Nat → Nat} {slot offset v n : Nat}

theorem storeItem_absent (h : lookupSlot cfg ftl item.1 = .ok none) :
    storeItem cfg ftl item = (do
      insideStorage cfg (allocateMemOffset ftl item.2.length).1 item.2.length
      newMappingEntry cfg (written ftl item.2) item.1 item.2.length
        (allocateMemOffset ftl item.2.length).1) := by
  rw [storeItem, doPerformKvBatchedIo, getMappingEntry_of_lookupSlot h]
  rfl

theorem storeItem_present (h : lookupSlot cfg ftl item.1 = .ok (some slot))
    (hoffset : (ftl.mappingTable slot).memOffset = some offset) :
    storeItem cfg ftl item = (do
      insideStorage cfg offset item.2.length
      return { ftl with storage := overwrite ftl.storage offset item.2 }) := by
  rw [storeItem, doPerformKvBatchedIo, getMappingEntry_of_lookupSlot h, ok_bind]
  simp only [foundEntry, hoffset, if_true]

theorem storeSingle_absent (hsends : single.Sends item)
    (h : lookupSlot cfg ftl item.1 = .ok none) :
    storeSingle cfg ftl single = (do
      insideStorage cfg (allocateMemOffset ftl item.2.length).1 item.2.length
      newMappingEntry cfg (written ftl item.2) item.1 item.2.length
        (allocateMemOffset ftl item.2.length).1) := by
  obtain ⟨hkey, hvalue⟩ := hsends
  have hlength : item.2.length = cmdValueLength single.cmd.valueLen := gatherLoop_length hvalue
  rw [← hkey] at h ⊢
  rw [storeSingle, doPerformKvIo, getMappingEntry_of_lookupSlot h, ok_bind]
  simp only [single.opcode, foundEntry, wipedEntry, moveStorage, ← hlength]
  cases insideStorage cfg (allocateMemOffset ftl item.2.length).1 item.2.length with
  | error fault => rfl
  | ok _ =>
      rw [← hlength] at hvalue
      simp only [moveValue, performIo_of_payload hvalue, ok_bind]
      have hstorage : (allocateMemOffset ftl item.2.length).2.storage = ftl.storage := rfl
      rw [written, hstorage]
      cases newMappingEntry cfg _ single.cmd.key.bytes _ _ <;> rfl

theorem storeSingle_present (hsends : single.Sends item)
    (h : lookupSlot cfg ftl item.1 = .ok (some slot))
    (hoffset : (ftl.mappingTable slot).memOffset = some offset) :
    storeSingle cfg (withLengths ftl lengths) single = (do
      insideStorage cfg offset item.2.length
      return withLengths { ftl with storage := overwrite ftl.storage offset item.2 }
        (update lengths slot
          (if item.2.length ≤ smallLength ∧ lengths slot ≤ smallLength then item.2.length
            else lengths slot))) := by
  obtain ⟨hkey, hvalue⟩ := hsends
  have hlength : item.2.length = cmdValueLength single.cmd.valueLen := gatherLoop_length hvalue
  rw [← hkey] at h
  have hfound : lookupSlot cfg (withLengths ftl lengths) single.cmd.key.bytes = .ok (some slot) :=
    (lookupSlot_withLengths lengths _).trans h
  have hplace : ((withLengths ftl lengths).mappingTable slot).memOffset = some offset := hoffset
  rw [storeSingle, doPerformKvIo, getMappingEntry_of_lookupSlot hfound, ok_bind]
  rw [← hlength] at hvalue
  simp only [single.opcode, foundEntry, hplace, moveStorage, ← hlength]
  cases insideStorage cfg offset item.2.length with
  | error fault => rfl
  | ok _ =>
  simp only [moveValue, performIo_of_payload hvalue, ok_bind]
  have hold : ((withLengths ftl lengths).mappingTable slot).length = lengths slot := rfl
  rw [hold]
  by_cases hsmall : item.2.length ≤ smallLength ∧ lengths slot ≤ smallLength
  · rw [if_pos hsmall]
    by_cases hsame : item.2.length = lengths slot
    · have hkeep : ¬(item.2.length ≠ lengths slot ∧ item.2.length ≤ smallLength ∧
          lengths slot ≤ smallLength) := fun h => h.1 hsame
      rw [if_neg hkeep, hsame, update_eq_self]
      rfl
    · rw [if_pos ⟨hsame, hsmall⟩, updateMappingEntry, lookupSlot_storage, hfound, ok_bind]
      have hset := setEntry_withLengths lengths ftl slot item.2.length (ftl.mappingTable slot)
      rw [setEntry_same] at hset
      have htable := congrArg KvFtl.mappingTable hset
      exact congrArg Except.ok (KvFtl.ext htable rfl rfl)
  · have hkeep : ¬(item.2.length ≠ lengths slot ∧ item.2.length ≤ smallLength ∧
        lengths slot ≤ smallLength) := fun h => hsmall h.2
    rw [if_neg hsmall, if_neg hkeep, update_eq_self]
    rfl

/-- The lengths in the table of a batch and those in that of single stores, before and after
a store to slot `v`. -/
inductive Lengthened (ftl next : KvFtl) (lengths lengths' : Nat → Nat) (v n : Nat) : Prop where
  | insert (free : occupied ftl.mappingTable v = false)
      (live : occupied next.mappingTable = update (occupied ftl.mappingTable) v true)
      (new : (next.mappingTable v).length = n)
      (other : ∀ t, t ≠ v → (next.mappingTable t).length = (ftl.mappingTable t).length)
      (single : lengths' = update lengths v n)
  | update (live : occupied ftl.mappingTable v = true)
      (kept : next.mappingTable = ftl.mappingTable)
      (single : lengths' = update lengths v
        (if n ≤ smallLength ∧ lengths v ≤ smallLength then n else lengths v))

theorem store_pair (h : Chained cfg ftl.mappingTable) (lengths : Nat → Nat)
    (hsends : single.Sends item) :
    (∃ fault, storeItem cfg ftl item = .error fault ∧
        storeSingle cfg (withLengths ftl lengths) single = .error fault) ∨
      ∃ next lengths' v, storeItem cfg ftl item = .ok next ∧
        storeSingle cfg (withLengths ftl lengths) single = .ok (withLengths next lengths') ∧
        lookupSlot cfg next item.1 = .ok (some v) ∧
        Lengthened ftl next lengths lengths' v item.2.length := by
  obtain ⟨xs, hpath⟩ := h.paths (getHashSlot cfg item.1)
  have hlookup := h.lookupSlot_eq hpath
  cases hfind : xs.find? fun t => sameKey item.1 (ftl.mappingTable t) with
  | none =>
      rw [hfind] at hlookup
      have habsent : lookupSlot cfg (withLengths ftl lengths) item.1 = .ok none :=
        (lookupSlot_withLengths lengths _).trans hlookup
      have hplaced : allocateMemOffset (withLengths ftl lengths) item.2.length =
          ((allocateMemOffset ftl item.2.length).1,
            withLengths (allocateMemOffset ftl item.2.length).2 lengths) := rfl
      rw [storeItem_absent hlookup, storeSingle_absent hsends habsent, hplaced]
      by_cases hinside : InsideStorage cfg (allocateMemOffset ftl item.2.length).1 item.2.length
      swap
      · exact .inl ⟨_, by rw [insideStorage_of_not hinside]; rfl,
          by rw [insideStorage_of_not hinside]; rfl⟩
      rw [insideStorage_of hinside, ok_bind, ok_bind]
      obtain ⟨fault, hbatch, hsingle⟩ | ⟨next, v, hbatch, hsingle, hplace, hfree⟩ :=
        newMappingEntry_withLengths lengths (written ftl item.2)
          item.2.length (allocateMemOffset ftl item.2.length).1 item.1
      · exact .inl ⟨fault, hbatch, hsingle⟩
      · have hwritten : Chained cfg (written ftl item.2).mappingTable := h
        obtain ⟨v', prev, hnew⟩ := hwritten.newMappingEntry_inserted hbatch
        -- the slot that both fill is the one that was free before
        have hv : v = v' := by
          by_contra hne
          have hlive := congrFun hnew.taken.live_eq v
          rw [update_of_ne hne, occupied, hplace, occupied, hfree] at hlive
          cases hlive
        subst hv
        exact .inr ⟨next, _, v, hbatch, hsingle, hnew.lookupSlot_eq hwritten hlookup,
          .insert hnew.taken.free hnew.taken.live_eq hnew.newLength
            (fun t hne => (hnew.other t hne).2.2) rfl⟩
  | some slot =>
      rw [hfind] at hlookup
      obtain ⟨offset, hoffset, -⟩ := lookupSlot_occupied hlookup
      rw [storeItem_present hlookup hoffset, storeSingle_present hsends hlookup hoffset]
      by_cases hinside : InsideStorage cfg offset item.2.length
      · rw [insideStorage_of hinside, ok_bind, ok_bind]
        exact .inr ⟨_, _, slot, rfl, rfl, hlookup,
          .update (occupied_of_memOffset hoffset) rfl rfl⟩
      · rw [insideStorage_of_not hinside]
        exact .inl ⟨_, rfl, rfl⟩

end Steps

section Drift

/-- What a batch that started in `start` has made of the table after some stores, and what
the single stores have made of the lengths. -/
structure Drift (start : KvFtl) (stores : List (Nat × Nat)) (ftl : KvFtl)
    (lengths : Nat → Nat) : Prop where
  live : ∀ slot, occupied ftl.mappingTable slot = true ↔
    occupied start.mappingTable slot = true ∨ slot ∈ stores.map Prod.fst
  free : ∀ slot, occupied ftl.mappingTable slot = false →
    lengths slot = (ftl.mappingTable slot).length
  batched : ∀ slot, occupied ftl.mappingTable slot = true →
    (ftl.mappingTable slot).length = recorded start stores slot
  single : ∀ slot, occupied ftl.mappingTable slot = true →
    lengths slot = updated start stores slot

variable {cfg : KvConfig} {start ftl next : KvFtl} {stores : List (Nat × Nat)}
  {lengths lengths' : Nat → Nat} {v n : Nat}

theorem drift_start (start : KvFtl) :
    Drift start [] start fun slot => (start.mappingTable slot).length where
  live slot := by simp
  free _ _ := rfl
  batched slot hslot := by rw [recorded, if_pos hslot]
  single slot hslot := by
    rw [updated, recorded, if_pos hslot]
    split <;> rfl

/-- What `Drift` says of one slot. -/
structure SlotDrift (start : KvFtl) (stores : List (Nat × Nat)) (ftl : KvFtl)
    (lengths : Nat → Nat) (slot : Nat) : Prop where
  live : occupied ftl.mappingTable slot = true ↔
    occupied start.mappingTable slot = true ∨ slot ∈ stores.map Prod.fst
  free : occupied ftl.mappingTable slot = false → lengths slot = (ftl.mappingTable slot).length
  batched : occupied ftl.mappingTable slot = true →
    (ftl.mappingTable slot).length = recorded start stores slot
  single : occupied ftl.mappingTable slot = true → lengths slot = updated start stores slot

theorem Drift.slotDrift (h : Drift start stores ftl lengths) (slot : Nat) :
    SlotDrift start stores ftl lengths slot :=
  ⟨h.live slot, h.free slot, h.batched slot, h.single slot⟩

theorem drift_of_slots (h : ∀ slot, SlotDrift start stores ftl lengths slot) :
    Drift start stores ftl lengths :=
  ⟨fun slot => (h slot).live, fun slot => (h slot).free, fun slot => (h slot).batched,
    fun slot => (h slot).single⟩

theorem mem_map_append_single {slot : Nat} : slot ∈ (stores ++ [(v, n)]).map Prod.fst ↔
    slot ∈ stores.map Prod.fst ∨ slot = v := by simp

theorem SlotDrift.other {slot : Nat} (h : SlotDrift start stores ftl lengths slot)
    (hne : slot ≠ v) (hlive : occupied next.mappingTable slot = occupied ftl.mappingTable slot)
    (hlength : (next.mappingTable slot).length = (ftl.mappingTable slot).length)
    (hlengths : lengths' slot = lengths slot) :
    SlotDrift start (stores ++ [(v, n)]) next lengths' slot where
  live := by
    rw [hlive, h.live, mem_map_append_single, or_iff_left hne]
  free hslot := by
    rw [hlive] at hslot
    rw [hlength, hlengths, h.free hslot]
  batched hslot := by
    rw [hlive] at hslot
    rw [hlength, recorded_append n (.inr (.inr hne)), h.batched hslot]
  single hslot := by
    rw [hlive] at hslot
    rw [hlengths, updated_append_of_ne hne, h.single hslot]

theorem Drift.step (h : Drift start stores ftl lengths)
    (hstep : Lengthened ftl next lengths lengths' v n) :
    Drift start (stores ++ [(v, n)]) next lengths' := by
  refine drift_of_slots fun slot => ?_
  cases hstep with
  | insert free live new other single =>
      subst single
      by_cases heq : slot = v
      · subst heq
        have hold : occupied start.mappingTable slot = false ∧ slot ∉ stores.map Prod.fst := by
          have hnot : ¬occupied ftl.mappingTable slot = true := by simp [free]
          rw [h.live, not_or, Bool.not_eq_true] at hnot
          exact hnot
        have hlive : occupied next.mappingTable slot = true := by rw [live, update_self]
        refine ⟨?_, fun hslot => ?_, fun _ => ?_, fun _ => ?_⟩
        · rw [mem_map_append_single]
          exact iff_of_true hlive (.inr (.inr rfl))
        · rw [hlive] at hslot
          cases hslot
        · rw [new, recorded_new hold.1 hold.2]
        · rw [update_self, updated_new hold.1 hold.2]
      · refine (h.slotDrift slot).other heq ?_ (other slot heq) (update_of_ne heq _ _)
        rw [live, update_of_ne heq]
  | update live kept single =>
      subst single
      by_cases heq : slot = v
      · subst heq
        have hold := (h.live slot).1 live
        rw [← kept] at live
        refine ⟨?_, fun hslot => ?_, fun _ => ?_, fun _ => ?_⟩
        · rw [mem_map_append_single]
          exact iff_of_true live (.inr (.inr rfl))
        · rw [live] at hslot
          cases hslot
        · rw [kept] at live ⊢
          rw [h.batched slot live, recorded_append n (hold.imp_right .inl)]
        · rw [kept] at live
          rw [update_self, updated_append n hold, h.single slot live]
      · exact (h.slotDrift slot).other heq (by rw [kept]) (by rw [kept]) (update_of_ne heq _ _)

theorem Drift.withLengths_eq_iff (h : Drift start stores ftl lengths) :
    withLengths ftl lengths = ftl ↔ LengthsKept start stores := by
  rw [withLengths_eq_self_iff]
  constructor
  · intro hsame slot n hlast
    have hlive := (h.live slot).2 (.inr (mem_of_lastSmall hlast).1)
    have hequal := hsame slot
    rw [h.single slot hlive, h.batched slot hlive, updated, hlast, Option.getD_some] at hequal
    by_cases hsmall : recorded start stores slot ≤ smallLength
    · rw [if_pos hsmall] at hequal
      exact .inl hequal.symm
    · exact .inr (not_le.1 hsmall)
  · intro hkept slot
    by_cases hlive : occupied ftl.mappingTable slot = true
    · rw [h.single slot hlive, h.batched slot hlive, updated]
      split
      · next hsmall =>
        cases hlast : lastSmall stores slot with
        | none => rfl
        | some n =>
            obtain hequal | hlarge := hkept slot n hlast
            · exact hequal.symm
            · exact absurd hsmall (not_le.2 hlarge)
      · rfl
    · exact h.free slot (Bool.not_eq_true _ ▸ hlive)

theorem Drift.run {items : List (List UInt8 × List UInt8)} {singles : List SingleStore}
    (h : Drift start stores ftl lengths) (hchained : Chained cfg ftl.mappingTable)
    (hsends : List.Forall₂ SingleStore.Sends singles items) :
    (∃ fault, items.foldlM (storeItem cfg) ftl = .error fault ∧
        singles.foldlM (storeSingle cfg) (withLengths ftl lengths) = .error fault ∧
        addressed cfg ftl items = .error fault) ∨
      ∃ final lengths' later, items.foldlM (storeItem cfg) ftl = .ok final ∧
        singles.foldlM (storeSingle cfg) (withLengths ftl lengths) =
          .ok (withLengths final lengths') ∧
        addressed cfg ftl items = .ok later ∧ Drift start (stores ++ later) final lengths' := by
  induction hsends generalizing ftl lengths stores with
  | nil => exact .inr ⟨ftl, lengths, [], rfl, rfl, rfl, by rwa [List.append_nil]⟩
  | @cons single item singles items hsingle hrest ih =>
      obtain ⟨fault, hbatch, hsingle⟩ | ⟨next, lengths', v, hbatch, hsingle, hfound, hstep⟩ :=
        store_pair hchained lengths hsingle
      · exact .inl ⟨fault, by rw [List.foldlM_cons, hbatch]; rfl,
          by rw [List.foldlM_cons, hsingle]; rfl, by rw [addressed, hbatch]; rfl⟩
      · have hnext : Chained cfg next.mappingTable :=
          (doPerformKvBatchedIo_store hbatch).chained hchained
        rw [List.foldlM_cons, List.foldlM_cons, hbatch, hsingle, addressed, hbatch, ok_bind,
          ok_bind, ok_bind, hfound, ok_bind]
        obtain ⟨fault, hbatch, hsingle, hlater⟩ |
          ⟨final, lengths'', later, hbatch, hsingle, hlater, hdrift⟩ := ih (h.step hstep) hnext
        · exact .inl ⟨fault, hbatch, hsingle, by rw [hlater]; rfl⟩
        · refine .inr ⟨final, lengths'', (v, item.2.length) :: later, hbatch, hsingle, ?_, ?_⟩
          · rw [hlater]
            rfl
          · rwa [List.append_assoc] at hdrift

end Drift

section Batch

variable {cfg : KvConfig} {items : List (List UInt8 × List UInt8)}

theorem short_of_sends {singles : List SingleStore}
    (h : List.Forall₂ SingleStore.Sends singles items) : ∀ item ∈ items, item.1.length ≤ 20 := by
  induction h with
  | nil => simp
  | @cons single item singles items hsends hrest ih =>
      rw [List.forall_mem_cons]
      refine ⟨?_, ih⟩
      rw [← hsends.1]
      exact single.cmd.key.inlined.trans (by decide)

theorem storeBatch_eq {host : Memory} {cmd : KvBatchCommand} (h : Stores host (.batch cmd) items)
    (hkeys : ∀ item ∈ items, item.1.length ≤ 20) (ftl : KvFtl) (status : Nat) :
    storeBatch cfg host ftl cmd status = items.foldlM (storeItem cfg) ftl := by
  cases h with
  | @batch cmd bytes items hread hcount hmost hlaid =>
      have hlength : bytes.length = cmdValueLength cmd.valueLen := gatherLoop_length hread
      have hloop := batchLoop_eq_foldlM cfg hlaid (by omega) hkeys ftl
      rw [hlength] at hloop
      rw [storeBatch, doPerformKvBatch]
      simp only [moveValue, performIo_of_payload hread, ok_bind, hcount, hloop]
      cases items.foldlM (storeItem cfg) ftl <;> rfl

end Batch

/-- A batch of stores leaves the device like the same stores one by one if and only if the
last small value for each entry has the length that the table records for it. -/
theorem batched_stores_equal_iff (cfg : KvConfig) (storage : Memory) {ftl : KvFtl}
    (hrun : ReflTransGen (Executes cfg) (initNamespace storage) ftl) {host : Memory}
    {cmd : KvBatchCommand} {items : List (List UInt8 × List UInt8)}
    (hstores : Stores host (.batch cmd) items) (status : Nat) {singles : List SingleStore}
    (hsends : List.Forall₂ SingleStore.Sends singles items) :
    storeBatch cfg host ftl cmd status = singles.foldlM (storeSingle cfg) ftl ↔
      ∀ stores, addressed cfg ftl items = .ok stores → LengthsKept ftl stores := by
  have hchained := chained_of_executes hrun
  have hbatch : storeBatch cfg host ftl cmd status = items.foldlM (storeItem cfg) ftl :=
    storeBatch_eq hstores (short_of_sends hsends) ftl status
  have hstart : withLengths ftl (fun slot => (ftl.mappingTable slot).length) = ftl := rfl
  obtain ⟨fault, hitems, hsingles, haddressed⟩ |
    ⟨final, lengths, stores, hitems, hsingles, haddressed, hdrift⟩ :=
    (drift_start ftl).run hchained hsends
  · rw [hstart] at hsingles
    rw [hbatch, hitems, hsingles, haddressed]
    refine ⟨fun _ stores hstores => ?_, fun _ => rfl⟩
    cases hstores
  · rw [hstart] at hsingles
    rw [hbatch, hitems, hsingles, haddressed, Except.ok.injEq, eq_comm,
      hdrift.withLengths_eq_iff, List.nil_append]
    constructor
    · rintro hkept _ hsame
      cases hsame
      exact hkept
    · intro hkept
      exact hkept stores rfl

def storeSecondAlone : SingleStore where
  host _ := 9
  cmd := { opcode := .store, key := secondKey, valueLen := 2, dptr := ⟨4096, 8192⟩ }
  status := 0
  opcode := rfl

theorem sends_second_alone :
    storeSecondAlone.Sends (secondKey.bytes, List.replicate 8 9) :=
  ⟨rfl, by decide +kernel⟩

/-- A batch of two `kv_store`s of the second key. -/
def twicePayload : List UInt8 :=
  [0x81, 4, 0, 0, 8, 0, 0, 0] ++ List.replicate 8 0 ++ [0x81, 4, 0, 0, 8, 0, 0, 0] ++
    List.replicate 552 0 ++ secondKey.bytes ++ List.replicate 60 0 ++ List.replicate 8 9 ++
    List.replicate 120 0 ++ secondKey.bytes ++ List.replicate 60 0 ++ List.replicate 8 5

def twiceHost : Memory := overwrite (fun _ => 0) 4096 twicePayload

def storeTwice : KvBatchCommand := { subCmdCnt := 2, valueLen := 210, dptr := ⟨4096, 8192⟩ }

theorem stores_twice : Stores twiceHost (.batch storeTwice)
    [(secondKey.bytes, List.replicate 8 9), (secondKey.bytes, List.replicate 8 5)] := by
  have hread : payload (fun _ => true) ⟨4096, 8192⟩ twiceHost 840 = .ok _ :=
    payload_of_hostBuffer (hostBuffer_page (by decide) (by decide))
  have hlength : twicePayload.length = 840 := by decide +kernel
  have hbytes : (List.range' 4096 840).map twiceHost = twicePayload := by
    rw [map_range', ← hlength]
    exact slice_overwrite_self
  rw [hbytes] at hread
  refine .batch hread rfl (by decide) ⟨⟨?_, ?_, ?_, ?_, ?_, ?_, ?_⟩,
    ⟨?_, ?_, ?_, ?_, ?_, ?_, ?_⟩, trivial⟩ <;> decide +kernel

theorem batched_stores_equal_iff_twice :
    storeBatch builtConfig twiceHost (initNamespace fun _ => 0) storeTwice 0 =
      [storeSecondAlone, { storeSecondAlone with host := fun _ => 5 }].foldlM
        (storeSingle builtConfig) (initNamespace fun _ => 0) := by
  have hagain : SingleStore.Sends { storeSecondAlone with host := fun _ => 5 }
      (secondKey.bytes, List.replicate 8 5) := ⟨rfl, by decide +kernel⟩
  refine (batched_stores_equal_iff builtConfig (fun _ => 0) .refl stores_twice 0
    (.cons sends_second_alone (.cons hagain .nil))).2 ?_
  have haddressed : addressed builtConfig (initNamespace fun _ => 0)
      [(secondKey.bytes, List.replicate 8 9), (secondKey.bytes, List.replicate 8 5)] =
        .ok ([(getHashSlot builtConfig secondKey.bytes, 8)] ++
          [(getHashSlot builtConfig secondKey.bytes, 8)]) := by decide +kernel
  rintro stores hstores slot n hlast
  rw [haddressed] at hstores
  cases hstores
  have hslot := (mem_of_lastSmall hlast).1
  rw [List.map_append, List.map_singleton, List.mem_append, or_self, List.mem_singleton] at hslot
  subst hslot
  rw [lastSmall_append] at hlast
  left
  split at hlast
  · cases hlast
    rw [recorded_append 8 (.inr (.inl List.mem_cons_self))]
    have hnew : getHashSlot builtConfig secondKey.bytes ∉ ([] : List (Nat × Nat)).map Prod.fst :=
      List.not_mem_nil
    exact recorded_new rfl hnew 8
  · next hlarge => exact absurd ⟨rfl, by decide⟩ hlarge

/-- The key has a value of four bytes. A batch that stores eight leaves the length at four. -/
theorem batch_keeps_old_length :
    ∃ ftl batched single, ReflTransGen (Executes builtConfig) (initNamespace fun _ => 0) ftl ∧
      Stores batchHost (.batch storeSecond) [(secondKey.bytes, List.replicate 8 9)] ∧
      storeSecondAlone.Sends (secondKey.bytes, List.replicate 8 9) ∧
      storeBatch builtConfig batchHost ftl storeSecond 0 = .ok batched ∧
      [storeSecondAlone].foldlM (storeSingle builtConfig) ftl = .ok single ∧
      ∃ slot, (batched.mappingTable slot).length = 4 ∧ (single.mappingTable slot).length = 8 := by
  let home := getHashSlot builtConfig secondKey.bytes
  let storeWord : KvIoCommand :=
    .io { opcode := .store, key := secondKey, valueLen := 1, dptr := ⟨4096, 8192⟩ }
  let test (reply : KvReply) : Bool :=
    returns (storeBatch builtConfig batchHost reply.ftl storeSecond 0) (fun ftl =>
      (ftl.mappingTable home).length == 4) &&
    returns ([storeSecondAlone].foldlM (storeSingle builtConfig) reply.ftl) fun ftl =>
      (ftl.mappingTable home).length == 8
  obtain ⟨reply, hreply, htest⟩ :
      ∃ reply, kvPerformNvmeIoCmd builtConfig (fun _ => 7) (initNamespace fun _ => 0) storeWord 0 =
        .ok reply ∧ test reply = true :=
    exists_of_returns (by decide +kernel)
  simp only [test, Bool.and_eq_true] at htest
  obtain ⟨hbatched, hsingle⟩ := htest
  obtain ⟨batched, hbatched, hkept⟩ := exists_of_returns hbatched
  obtain ⟨single, hsingle, hchanged⟩ := exists_of_returns hsingle
  rw [beq_iff_eq] at hkept hchanged
  exact ⟨reply.ftl, batched, single, .single ⟨_, storeWord, 0, reply, hreply, rfl⟩, stores_second,
    sends_second_alone, hbatched, hsingle, home, hkept, hchanged⟩

end NvmeVirt.BatchedStores
