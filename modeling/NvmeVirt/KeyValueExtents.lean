import NvmeVirt.KeyValueSteps

namespace NvmeVirt.KeyValueExtents

open ByteMemory
open FaultOutcome
open KeyValueChains
open KeyValueFtl
open KeyValueSteps
open Relation
open WriteBuffer

inductive StoreEvent where
  | single (host : Memory) (cmd : KvCommand) (status : Nat) (store : cmd.opcode = .store)
  | batched (key value : List UInt8)

def StoreEvent.key : StoreEvent → List UInt8
  | .single _ cmd _ _ => cmd.key.bytes
  | .batched key _ => key

def StoreEvent.length : StoreEvent → Nat
  | .single _ cmd _ _ => cmdValueLength cmd.valueLen
  | .batched _ value => value.length

/-- For which key each slot was taken, and how many bytes were allocated then. -/
abbrev Owners := Nat → List UInt8 × Nat

def execute (cfg : KvConfig) (ftl : KvFtl) : StoreEvent → Except Fault KvFtl
  | .single host cmd status _ => do
      let reply ← doPerformKvIo cfg host ftl cmd status
      return reply.ftl
  | .batched key value => doPerformKvBatchedIo cfg ftl true key value

def recordOwner (ftl : KvFtl) (owners : Owners) (event : StoreEvent) : Owners := fun slot =>
  if occupied ftl.mappingTable slot then owners slot else (event.key, event.length)

def storeStep (cfg : KvConfig) (s : KvFtl × Owners) (event : StoreEvent) :
    Except Fault (KvFtl × Owners) := do
  let ftl ← execute cfg s.1 event
  return (ftl, recordOwner s.1 s.2 event)

/-- The store stays where bytes were allocated for its key: a new key finds room
behind the allocated bytes, and an old one was given as many as it writes. -/
def Allotted (cfg : KvConfig) (ftl : KvFtl) (owners : Owners) (event : StoreEvent) : Prop :=
  match lookupSlot cfg ftl event.key with
  | .ok none => ftl.latest + event.length ≤ cfg.storageSize
  | .ok (some slot) => (owners slot).1 = event.key ∧ event.length ≤ (owners slot).2
  | .error _ => True

instance (cfg : KvConfig) (ftl : KvFtl) (owners : Owners) (event : StoreEvent) :
    Decidable (Allotted cfg ftl owners event) :=
  match h : lookupSlot cfg ftl event.key with
  | .ok none =>
      decidable_of_iff (ftl.latest + event.length ≤ cfg.storageSize) (by rw [Allotted, h])
  | .ok (some slot) =>
      decidable_of_iff ((owners slot).1 = event.key ∧ event.length ≤ (owners slot).2)
        (by rw [Allotted, h])
  | .error _ => .isTrue (by rw [Allotted, h]; trivial)

/-- The bytes that a key has room for on its way: `key[16]` of a command, `key[20]` of
`__do_perform_kv_batch`. -/
def StoreEvent.keyBuffer : StoreEvent → Nat
  | .single .. => 16
  | .batched .. => 20

/-- The key fits in its buffer, and the store in the bytes of its key. -/
structure Fits (cfg : KvConfig) (ftl : KvFtl) (owners : Owners) (event : StoreEvent) : Prop where
  key : event.key.length ≤ event.keyBuffer
  bytes : Allotted cfg ftl owners event

instance (cfg : KvConfig) (ftl : KvFtl) (owners : Owners) (event : StoreEvent) :
    Decidable (Fits cfg ftl owners event) :=
  decidable_of_iff (event.key.length ≤ event.keyBuffer ∧ Allotted cfg ftl owners event)
    ⟨fun h => ⟨h.1, h.2⟩, fun h => ⟨h.key, h.bytes⟩⟩

/-- The bytes from `offset` to `offset + length` are inside the device, and none of
them belongs to a stored key other than `key`. -/
def WritesOwn (cfg : KvConfig) (ftl : KvFtl) (owners : Owners) (key : List UInt8)
    (offset length : Nat) : Prop :=
  ∀ i, offset ≤ i → i < offset + length → i < cfg.storageSize ∧
    ∀ slot memOffset, (ftl.mappingTable slot).memOffset = some memOffset →
      (owners slot).1 ≠ key →
        ¬(memOffset ≤ i ∧ i < memOffset + (ftl.mappingTable slot).length)

/-- Every stored key has its own allocated bytes, and its value is inside them. -/
structure Extents (cfg : KvConfig) (ftl : KvFtl) (owners : Owners) : Prop where
  chained : Chained cfg ftl.mappingTable
  latest : ftl.latest ≤ cfg.storageSize
  length : ∀ slot, occupied ftl.mappingTable slot = true →
    (ftl.mappingTable slot).length ≤ (owners slot).2
  inside : ∀ slot memOffset, (ftl.mappingTable slot).memOffset = some memOffset →
    memOffset + (owners slot).2 ≤ ftl.latest
  apart : ∀ slot slot' memOffset memOffset', slot ≠ slot' →
    (ftl.mappingTable slot).memOffset = some memOffset →
    (ftl.mappingTable slot').memOffset = some memOffset' →
    memOffset + (owners slot).2 ≤ memOffset' ∨ memOffset' + (owners slot').2 ≤ memOffset

section Steps

variable {cfg : KvConfig} {ftl ftl' : KvFtl} {owners : Owners} {event : StoreEvent}
  {value : List UInt8} {slot memOffset : Nat}

theorem execute_stored (h : execute cfg ftl event = .ok ftl') :
    ∃ value, value.length = event.length ∧ Stored cfg ftl event.key value ftl' := by
  cases event with
  | single host cmd status store =>
      obtain ⟨reply, hreply, h⟩ := exists_of_bind_eq_ok h
      cases h
      obtain ⟨value, -, hlength, hstored, -⟩ := doPerformKvIo_store store hreply
      exact ⟨value, hlength, hstored⟩
  | batched key value => exact ⟨value, rfl, doPerformKvBatchedIo_store h⟩

theorem recordOwner_old (h : occupied ftl.mappingTable slot = true) :
    recordOwner ftl owners event slot = owners slot := if_pos h

theorem recordOwner_new (h : occupied ftl.mappingTable slot = false) :
    recordOwner ftl owners event slot = (event.key, event.length) := by
  rw [recordOwner, h]
  rfl

theorem fits_none (hfits : Fits cfg ftl owners event)
    (h : lookupSlot cfg ftl event.key = .ok none) :
    ftl.latest + event.length ≤ cfg.storageSize := by
  have hbytes := hfits.bytes
  rw [Allotted, h] at hbytes
  exact hbytes

theorem fits_some (hfits : Fits cfg ftl owners event)
    (h : lookupSlot cfg ftl event.key = .ok (some slot)) :
    (owners slot).1 = event.key ∧ event.length ≤ (owners slot).2 := by
  have hbytes := hfits.bytes
  rw [Allotted, h] at hbytes
  exact hbytes

theorem occupied_of_memOffset {table : Nat → MappingEntry}
    (h : (table slot).memOffset = some memOffset) : occupied table slot = true := by
  rw [occupied, h]
  rfl

theorem allocateMemOffset_eq {length : Nat} (h : ftl.latest + length ≤ cfg.storageSize) :
    allocateMemOffset ftl length = (ftl.latest, { ftl with latest := ftl.latest + length }) := by
  have hsized := cfg.sized
  have hwrap : (ftl.latest + length) % 2 ^ 64 = ftl.latest + length := Nat.mod_eq_of_lt (by omega)
  have hfail : ftl.latest ≠ 2 ^ 64 - 1 := by omega
  simp only [allocateMemOffset, appendOnlyAllocate, hwrap]
  rw [if_neg hfail]

theorem Extents.insert (h : Extents cfg ftl owners) (hlength : value.length = event.length)
    (hroom : ftl.latest + value.length ≤ cfg.storageSize)
    (hrun : newMappingEntry cfg (written ftl value) event.key value.length
      (allocateMemOffset ftl value.length).1 = .ok ftl') :
    Extents cfg ftl' (recordOwner ftl owners event) := by
  have halloc := allocateMemOffset_eq hroom
  have hchained : Chained cfg (written ftl value).mappingTable := h.chained
  obtain ⟨v, prev, hnew⟩ := hchained.newMappingEntry_inserted hrun
  have hlatest : ftl'.latest = ftl.latest + value.length := by
    rw [hnew.latest, written, halloc]
  have hoffset : (ftl'.mappingTable v).memOffset = some ftl.latest := by
    rw [hnew.newOffset, halloc]
  have hv : recordOwner ftl owners event v = (event.key, event.length) :=
    recordOwner_new hnew.taken.free
  -- every other entry was there before and is as it was
  have hold : ∀ slot memOffset, slot ≠ v → (ftl'.mappingTable slot).memOffset = some memOffset →
      (ftl.mappingTable slot).memOffset = some memOffset ∧
        recordOwner ftl owners event slot = owners slot ∧
        (ftl'.mappingTable slot).length = (ftl.mappingTable slot).length := by
    intro slot memOffset hne hslot
    obtain ⟨-, hsame, hlen⟩ := hnew.other slot hne
    have hbefore : (ftl.mappingTable slot).memOffset = some memOffset := hsame.symm.trans hslot
    exact ⟨hbefore, recordOwner_old (occupied_of_memOffset hbefore), hlen⟩
  refine ⟨hnew.chained hchained, ?_, ?_, ?_, ?_⟩
  · rw [hlatest]
    exact hroom
  · intro slot hslot
    by_cases heq : slot = v
    · rw [heq, hnew.newLength, hv]
      exact hlength.le
    · obtain ⟨memOffset, hmem⟩ := Option.isSome_iff_exists.1 hslot
      obtain ⟨hbefore, howner, hlen⟩ := hold slot memOffset heq hmem
      rw [hlen, howner]
      exact h.length slot (occupied_of_memOffset hbefore)
  · intro slot memOffset hmem
    rw [hlatest]
    by_cases heq : slot = v
    · rw [heq, hoffset] at hmem
      cases hmem
      rw [heq, hv, hlength]
    · obtain ⟨hbefore, howner, -⟩ := hold slot memOffset heq hmem
      rw [howner]
      exact Nat.le_add_right_of_le (h.inside slot memOffset hbefore)
  · intro slot slot' memOffset memOffset' hne hmem hmem'
    by_cases heq : slot = v
    · rw [heq, hoffset] at hmem
      cases hmem
      obtain ⟨hbefore', howner', -⟩ := hold slot' memOffset' (heq ▸ Ne.symm hne) hmem'
      right
      rw [howner']
      exact h.inside slot' memOffset' hbefore'
    · obtain ⟨hbefore, howner, -⟩ := hold slot memOffset heq hmem
      by_cases heq' : slot' = v
      · rw [heq', hoffset] at hmem'
        cases hmem'
        left
        rw [howner]
        exact h.inside slot memOffset hbefore
      · obtain ⟨hbefore', howner', -⟩ := hold slot' memOffset' heq' hmem'
        rw [howner, howner']
        exact h.apart slot slot' memOffset memOffset' hne hbefore hbefore'

theorem Extents.update {length : Nat} (h : Extents cfg ftl owners)
    (hchained : Chained cfg ftl'.mappingTable) (hlength : length ≤ (owners slot).2)
    (hlatest : ftl'.latest = ftl.latest)
    (htable : ftl'.mappingTable =
      (ftl.setEntry slot { ftl.mappingTable slot with length := length }).mappingTable) :
    Extents cfg ftl' (recordOwner ftl owners event) := by
  have hmem : ∀ t, (ftl'.mappingTable t).memOffset = (ftl.mappingTable t).memOffset := by
    intro t
    by_cases heq : t = slot
    · rw [heq, htable, KvFtl.setEntry_self]
    · rw [htable, KvFtl.setEntry_of_ne _ _ heq]
  have howner : ∀ t memOffset, (ftl'.mappingTable t).memOffset = some memOffset →
      (ftl.mappingTable t).memOffset = some memOffset ∧
        recordOwner ftl owners event t = owners t := by
    intro t memOffset ht
    rw [hmem] at ht
    exact ⟨ht, recordOwner_old (occupied_of_memOffset ht)⟩
  refine ⟨hchained, hlatest ▸ h.latest, ?_, ?_, ?_⟩
  · intro t ht
    obtain ⟨memOffset, hmemOffset⟩ := Option.isSome_iff_exists.1 ht
    obtain ⟨hbefore, hsame⟩ := howner t memOffset hmemOffset
    rw [hsame]
    by_cases heq : t = slot
    · rw [heq, htable, KvFtl.setEntry_self]
      exact hlength
    · rw [htable, KvFtl.setEntry_of_ne _ _ heq]
      exact h.length t (occupied_of_memOffset hbefore)
  · intro t memOffset hmemOffset
    obtain ⟨hbefore, hsame⟩ := howner t memOffset hmemOffset
    rw [hsame, hlatest]
    exact h.inside t memOffset hbefore
  · intro t t' memOffset memOffset' hne ht ht'
    obtain ⟨hbefore, hsame⟩ := howner t memOffset ht
    obtain ⟨hbefore', hsame'⟩ := howner t' memOffset' ht'
    rw [hsame, hsame']
    exact h.apart t t' memOffset memOffset' hne hbefore hbefore'

theorem Extents.stored (h : Extents cfg ftl owners) (hfits : Fits cfg ftl owners event)
    (hlength : value.length = event.length) (hstored : Stored cfg ftl event.key value ftl') :
    Extents cfg ftl' (recordOwner ftl owners event) ∧
      ∃ offset, ftl'.storage = overwrite ftl.storage offset value ∧
        WritesOwn cfg ftl owners event.key offset value.length := by
  have hchained := hstored.chained h.chained
  cases hstored with
  | insert absent inside run =>
      have hroom := fits_none hfits absent
      rw [← hlength] at hroom
      refine ⟨h.insert hlength hroom run, ftl.latest, ?_, ?_⟩
      · have hwritten : Chained cfg (written ftl value).mappingTable := h.chained
        obtain ⟨v, prev, hnew⟩ := hwritten.newMappingEntry_inserted run
        rw [hnew.storage, written, allocateMemOffset_eq hroom]
      · intro i hlow hhigh
        refine ⟨by omega, ?_⟩
        rintro t memOffset hmem - ⟨-, hlast⟩
        have hlen := h.length t (occupied_of_memOffset hmem)
        have hinside := h.inside t memOffset hmem
        omega
  | @update slot offset length found place inside kept =>
      obtain ⟨howner, hroom⟩ := fits_some hfits found
      have hlen : length ≤ (owners slot).2 := by
        rcases kept with rfl | rfl
        · exact h.length slot (occupied_of_memOffset place)
        · rwa [hlength]
      refine ⟨h.update hchained hlen rfl rfl, offset, rfl, ?_⟩
      intro i hlow hhigh
      have hinside := h.inside slot offset place
      have hlatest := h.latest
      refine ⟨by omega, ?_⟩
      rintro t memOffset hmem hother ⟨hfirst, hlast⟩
      have hne : slot ≠ t := by
        rintro rfl
        exact hother howner
      have hothers := h.length t (occupied_of_memOffset hmem)
      have hapart := h.apart slot t offset memOffset hne place hmem
      omega

theorem extents_init (cfg : KvConfig) (storage : Memory) (owners : Owners) :
    Extents cfg (initNamespace storage) owners where
  chained := chained_init cfg storage
  latest := Nat.zero_le _
  length _ hslot := by cases hslot
  inside _ _ hmem := by cases hmem
  apart _ _ _ _ _ hmem := by cases hmem

end Steps

/-- The recorded extents are inside the device and do not overlap. -/
structure ExtentsApart (cfg : KvConfig) (ftl : KvFtl) : Prop where
  inside : ∀ slot memOffset, (ftl.mappingTable slot).memOffset = some memOffset →
    memOffset + (ftl.mappingTable slot).length ≤ cfg.storageSize
  apart : ∀ slot slot' memOffset memOffset', slot ≠ slot' →
    (ftl.mappingTable slot).memOffset = some memOffset →
    (ftl.mappingTable slot').memOffset = some memOffset' →
    memOffset + (ftl.mappingTable slot).length ≤ memOffset' ∨
      memOffset' + (ftl.mappingTable slot').length ≤ memOffset

theorem Extents.extentsApart {cfg : KvConfig} {ftl : KvFtl} {owners : Owners}
    (h : Extents cfg ftl owners) : ExtentsApart cfg ftl where
  inside slot memOffset hmem := by
    have hlen := h.length slot (occupied_of_memOffset hmem)
    have hinside := h.inside slot memOffset hmem
    have hlatest := h.latest
    omega
  apart slot slot' memOffset memOffset' hne hmem hmem' := by
    have hlen := h.length slot (occupied_of_memOffset hmem)
    have hlen' := h.length slot' (occupied_of_memOffset hmem')
    have hapart := h.apart slot slot' memOffset memOffset' hne hmem hmem'
    omega

/-- When every store fits, the extents stay apart and inside the device, and a store
writes to no byte of another key. -/
theorem stores_write_own_bytes (cfg : KvConfig) (storage : Memory) (owners : Owners)
    {s s' : KvFtl × Owners} {event : StoreEvent}
    (hrun : ReflTransGen (fun s s' => ∃ event, Fits cfg s.1 s.2 event ∧
      storeStep cfg s event = .ok s') (initNamespace storage, owners) s)
    (hfits : Fits cfg s.1 s.2 event) (hstep : storeStep cfg s event = .ok s') :
    ExtentsApart cfg s.1 ∧
      ∃ offset value, value.length = event.length ∧
        s'.1.storage = overwrite s.1.storage offset value ∧
        WritesOwn cfg s.1 s.2 event.key offset value.length := by
  have hextents : Extents cfg s.1 s.2 := by
    clear hfits hstep
    induction hrun with
    | refl => exact extents_init cfg storage owners
    | @tail s₁ s₂ _ hstep ih =>
        obtain ⟨event, hfits, hstep⟩ := hstep
        obtain ⟨ftl, hexecute, hstep⟩ := exists_of_bind_eq_ok hstep
        cases hstep
        obtain ⟨value, hlength, hstored⟩ := execute_stored hexecute
        exact (ih.stored hfits hlength hstored).1
  obtain ⟨ftl, hexecute, hstep⟩ := exists_of_bind_eq_ok hstep
  cases hstep
  obtain ⟨value, hlength, hstored⟩ := execute_stored hexecute
  obtain ⟨-, offset, hstorage, hown⟩ := hextents.stored hfits hlength hstored
  exact ⟨hextents.extentsApart, offset, value, hlength, hstorage, hown⟩

/-- A store of `words` words that are all `byte`. -/
def storeWords (key : KvKey) (words : Nat) (byte : UInt8) : StoreEvent :=
  .single (fun _ => byte)
    { opcode := .store, key := key, valueLen := words, dptr := ⟨4096, 8192⟩ } 0 rfl

def noOwners : Owners := fun _ => ([], 0)

theorem stores_write_own_bytes_shorter :
    ∃ s s' : KvFtl × Owners, storeStep builtConfig s (storeWords firstKey 1 9) = .ok s' ∧
      ExtentsApart builtConfig s.1 ∧
      ∃ offset value, value.length = 4 ∧
        s'.1.storage = overwrite s.1.storage offset value ∧
        WritesOwn builtConfig s.1 s.2 firstKey.bytes offset value.length := by
  let careful (s : KvFtl × Owners) (event : StoreEvent) :=
    if Fits builtConfig s.1 s.2 event then storeStep builtConfig s event
    else .error (.bugOn .newMappingEntry)
  let test (s : KvFtl × Owners) : Bool :=
    decide (Fits builtConfig s.1 s.2 (storeWords firstKey 1 9)) &&
      returns (storeStep builtConfig s (storeWords firstKey 1 9)) fun _ => true
  obtain ⟨s, hrun, htest⟩ :
      ∃ s, [storeWords firstKey 2 7, storeWords secondKey 1 8].foldlM careful
        (initNamespace fun _ => 0, noOwners) = .ok s ∧ test s = true :=
    exists_of_returns (by decide +kernel)
  simp only [test, Bool.and_eq_true, decide_eq_true_eq] at htest
  obtain ⟨hfits, hstep⟩ := htest
  obtain ⟨s', hs', -⟩ := exists_of_returns hstep
  refine ⟨s, s', hs', stores_write_own_bytes builtConfig (fun _ => 0) noOwners
    (reflTransGen_of_foldlM _ ?_ hrun) hfits hs'⟩
  intro event _ s s' hstep
  simp only [careful] at hstep
  split at hstep
  · next hfits => exact ⟨event, hfits, hstep⟩
  · cases hstep

/-- Stored again with a longer value, the first key overwrites the second one, and
the command succeeds. -/
theorem store_overwrites_other_key :
    ∃ (s : KvFtl × Owners) (reply : KvReply),
      ReflTransGen (fun s s' => ∃ event, storeStep builtConfig s event = .ok s')
        (initNamespace fun _ => 0, noOwners) s ∧
      doPerformKvIo builtConfig (fun _ => 9) s.1
        { opcode := .store, key := firstKey, valueLen := 2, dptr := ⟨4096, 8192⟩ } 0 =
          .ok reply ∧
      reply.status = 0 ∧
      ∃ i slot memOffset, (s.1.mappingTable slot).memOffset = some memOffset ∧
        (s.2 slot).1 = secondKey.bytes ∧ memOffset ≤ i ∧
        i < memOffset + (s.1.mappingTable slot).length ∧
        reply.ftl.storage i ≠ s.1.storage i := by
  let second := getHashSlot builtConfig secondKey.bytes + 1
  let test (s : KvFtl × Owners) : Bool :=
    (s.1.mappingTable second).memOffset == some 4 &&
      (s.1.mappingTable second).length == 4 && (s.2 second).1 == secondKey.bytes &&
      returns (doPerformKvIo builtConfig (fun _ => 9) s.1
        { opcode := .store, key := firstKey, valueLen := 2, dptr := ⟨4096, 8192⟩ } 0)
        fun reply => reply.status == 0 && reply.ftl.storage 4 != s.1.storage 4
  obtain ⟨s, hrun, htest⟩ :
      ∃ s, [storeWords firstKey 1 7, storeWords secondKey 1 8].foldlM (storeStep builtConfig)
        (initNamespace fun _ => 0, noOwners) = .ok s ∧ test s = true :=
    exists_of_returns (by decide +kernel)
  simp only [test, Bool.and_eq_true, beq_iff_eq] at htest
  obtain ⟨⟨⟨hoffset, hlength⟩, howner⟩, hreturns⟩ := htest
  obtain ⟨reply, hreply, hafter⟩ := exists_of_returns hreturns
  simp only [Bool.and_eq_true, beq_iff_eq, bne_iff_ne] at hafter
  refine ⟨s, reply, reflTransGen_of_foldlM _ (fun event _ s s' hstep => ⟨event, hstep⟩) hrun,
    hreply, hafter.1, 4, second, 4, hoffset, howner, Nat.le_refl 4, ?_, hafter.2⟩
  rw [hlength]
  decide

end NvmeVirt.KeyValueExtents
