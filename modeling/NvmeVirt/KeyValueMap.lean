import Mathlib.Algebra.Order.BigOperators.Group.Finset
import NvmeVirt.KeyValueExtents

namespace NvmeVirt.KeyValueMap

open ByteMemory
open CoalescedChains
open FaultOutcome
open KeyValueChains
open KeyValueExtents
open KeyValueFtl
open KeyValueSteps
open WriteBuffer

/-- The keys that are ever stored, and the length of the values of each. Their
number and the total of the lengths fit into the device. -/
structure Workload (cfg : KvConfig) where
  keyLength : Nat
  keys : Finset (List UInt8)
  valueLength : List UInt8 → Nat
  inlined : keyLength ≤ 16
  sameLength : ∀ key ∈ keys, key.length = keyLength
  enoughSlots : keys.card ≤ cfg.hashSlots
  enoughRoom : ∑ key ∈ keys, valueLength key < cfg.storageSize

def Workload.Admits {cfg : KvConfig} (w : Workload cfg) (item : List UInt8 × List UInt8) : Prop :=
  item.1 ∈ w.keys ∧ item.2.length = w.valueLength item.1

instance {cfg : KvConfig} (w : Workload cfg) (item : List UInt8 × List UInt8) :
    Decidable (w.Admits item) :=
  inferInstanceAs (Decidable (item.1 ∈ w.keys ∧ item.2.length = w.valueLength item.1))

abbrev Contents := List UInt8 → Option (List UInt8)

def put (contents : Contents) (item : List UInt8 × List UInt8) : Contents :=
  Function.update contents item.1 (some item.2)

@[simp] theorem put_self (contents : Contents) (key value : List UInt8) :
    put contents (key, value) key = some value := Function.update_self _ _ _

theorem put_of_ne (contents : Contents) {key key' : List UInt8} (value : List UInt8)
    (h : key' ≠ key) : put contents (key, value) key' = contents key' :=
  Function.update_of_ne h _ _

structure Holds (ftl : KvFtl) (owners : Owners) (slot : Nat) (key value : List UInt8) : Prop where
  owner : owners slot = (key, value.length)
  key : (ftl.mappingTable slot).key.take key.length = key
  length : (ftl.mappingTable slot).length = value.length
  value : ∀ offset, (ftl.mappingTable slot).memOffset = some offset →
    slice ftl.storage offset value.length = value

def allocated {cfg : KvConfig} (w : Workload cfg) (contents : Contents) : Nat :=
  ∑ key ∈ w.keys with (contents key).isSome, w.valueLength key

/-- The device holds the pairs of `contents` and no others. -/
structure Represents {cfg : KvConfig} (w : Workload cfg) (ftl : KvFtl) (owners : Owners)
    (contents : Contents) : Prop where
  extents : Extents cfg ftl owners
  latest : ftl.latest = allocated w contents
  admitted : ∀ key value, contents key = some value → w.Admits (key, value)
  entries : ∀ slot, occupied ftl.mappingTable slot = true →
    ∃ key value, contents key = some value ∧ Holds ftl owners slot key value
  reached : ∀ key value, contents key = some value →
    ∃ xs slot, Path ftl.mappingTable (getHashSlot cfg key) xs ∧ slot ∈ xs ∧
      (owners slot).1 = key
  distinct : ∀ slot slot', occupied ftl.mappingTable slot = true →
    occupied ftl.mappingTable slot' = true → (owners slot).1 = (owners slot').1 → slot = slot'

section Total

variable {cfg : KvConfig} {w : Workload cfg} {contents : Contents} {key value : List UInt8}

theorem filter_put (hkey : key ∈ w.keys) :
    w.keys.filter (fun k => (put contents (key, value) k).isSome) =
      insert key (w.keys.filter fun k => (contents k).isSome) := by
  ext k
  rw [Finset.mem_insert, Finset.mem_filter, Finset.mem_filter]
  by_cases heq : k = key
  · subst heq
    simp [hkey]
  · rw [put_of_ne contents value heq]
    simp [heq]

theorem allocated_put_new (value : List UInt8) (hkey : key ∈ w.keys) (hnew : contents key = none) :
    allocated w (put contents (key, value)) = allocated w contents + w.valueLength key := by
  rw [allocated, filter_put hkey, Finset.sum_insert, Nat.add_comm, allocated]
  simp [hnew]

theorem allocated_put_old {old : List UInt8} (hkey : key ∈ w.keys)
    (hold : contents key = some old) :
    allocated w (put contents (key, value)) = allocated w contents := by
  rw [allocated, filter_put hkey, Finset.insert_eq_of_mem, allocated]
  simp [hkey, hold]

theorem allocated_lt (hkey : key ∈ w.keys) (hnew : contents key = none) :
    allocated w contents + w.valueLength key < cfg.storageSize := by
  rw [← allocated_put_new [] hkey hnew]
  refine Nat.lt_of_le_of_lt ?_ w.enoughRoom
  exact Finset.sum_le_sum_of_subset (Finset.filter_subset _ _)

end Total

section Lookup

variable {cfg : KvConfig} {w : Workload cfg} {ftl : KvFtl} {owners : Owners}
  {contents : Contents} {key value : List UInt8}

theorem Represents.sameKey_iff (h : Represents w ftl owners contents) {slot : Nat}
    (hlive : occupied ftl.mappingTable slot = true) (hlength : key.length = w.keyLength) :
    sameKey key (ftl.mappingTable slot) = true ↔ (owners slot).1 = key := by
  obtain ⟨key', value', hstored, hholds⟩ := h.entries slot hlive
  have hsame : key'.length = key.length := by
    rw [hlength]
    exact w.sameLength key' (h.admitted key' value' hstored).1
  rw [sameKey, ← hsame, hholds.key, hholds.owner, beq_iff_eq]

theorem Represents.lookupSlot_eq (h : Represents w ftl owners contents)
    (hlength : key.length = w.keyLength) :
    (contents key = none ∧ lookupSlot cfg ftl key = .ok none) ∨
      ∃ slot value, contents key = some value ∧ lookupSlot cfg ftl key = .ok (some slot) ∧
        Holds ftl owners slot key value := by
  obtain ⟨xs, hpath⟩ := h.extents.chained.paths (getHashSlot cfg key)
  have hlookup := h.extents.chained.lookupSlot_eq hpath
  cases hfind : xs.find? fun t => sameKey key (ftl.mappingTable t) with
  | none =>
      refine .inl ⟨?_, hlookup.trans (congrArg Except.ok hfind)⟩
      by_contra hne
      obtain ⟨value, hvalue⟩ := Option.ne_none_iff_exists'.1 hne
      obtain ⟨xs', slot, hpath', hmem, howner⟩ := h.reached key value hvalue
      rw [hpath'.unique hpath] at hmem
      refine List.find?_eq_none.1 hfind slot hmem ?_
      exact (h.sameKey_iff (hpath.live_of_mem hmem) hlength).2 howner
  | some slot =>
      have hlive := hpath.live_of_mem (List.mem_of_find?_eq_some hfind)
      have hsame := List.find?_some hfind
      obtain ⟨key', value, hvalue, hholds⟩ := h.entries slot hlive
      have howner := (h.sameKey_iff hlive hlength).1 hsame
      rw [hholds.owner] at howner
      cases howner
      exact .inr ⟨slot, value, hvalue, hlookup.trans (congrArg Except.ok hfind), hholds⟩

theorem Represents.not_stored (h : Represents w ftl owners contents)
    (hlength : key.length = w.keyLength) (hnone : lookupSlot cfg ftl key = .ok none) :
    contents key = none := by
  obtain ⟨hnew, -⟩ | ⟨slot, value, -, hslot, -⟩ := h.lookupSlot_eq hlength
  · exact hnew
  · rw [hnone] at hslot
    cases hslot

theorem Represents.stored_in (h : Represents w ftl owners contents) {slot : Nat}
    (hlength : key.length = w.keyLength) (hslot : lookupSlot cfg ftl key = .ok (some slot)) :
    ∃ value, contents key = some value ∧ Holds ftl owners slot key value := by
  obtain ⟨-, hnone⟩ | ⟨slot', value, hvalue, hslot', hholds⟩ := h.lookupSlot_eq hlength
  · rw [hslot] at hnone
    cases hnone
  · rw [hslot] at hslot'
    cases hslot'
    exact ⟨value, hvalue, hholds⟩

theorem Represents.exists_free (h : Represents w ftl owners contents) (hkey : key ∈ w.keys)
    (hnew : contents key = none) :
    ∃ slot < cfg.hashSlots, occupied ftl.mappingTable slot = false := by
  by_contra hfull
  have hlive : ∀ slot ∈ Finset.range cfg.hashSlots, occupied ftl.mappingTable slot = true := by
    intro slot hslot
    by_contra hfree
    exact hfull ⟨slot, Finset.mem_range.1 hslot, Bool.not_eq_true _ ▸ hfree⟩
  -- the keys of the slots are all different, and none of them is the new one
  have hmaps : ∀ slot ∈ Finset.range cfg.hashSlots, (owners slot).1 ∈ w.keys.erase key := by
    intro slot hslot
    obtain ⟨key', value, hvalue, hholds⟩ := h.entries slot (hlive slot hslot)
    rw [hholds.owner, Finset.mem_erase]
    refine ⟨?_, (h.admitted key' value hvalue).1⟩
    rintro rfl
    rw [hnew] at hvalue
    cases hvalue
  have hinjective : Set.InjOn (fun slot => (owners slot).1) (Finset.range cfg.hashSlots) := by
    intro slot hslot slot' hslot' howner
    exact h.distinct slot slot' (hlive slot hslot) (hlive slot' hslot') howner
  have hcard := Finset.card_le_card_of_injOn _ hmaps hinjective
  rw [Finset.card_range, Finset.card_erase_of_mem hkey] at hcard
  have hslots := w.enoughSlots
  have hpos := cfg.hasSlots
  omega

end Lookup

section Store

variable {cfg : KvConfig} {w : Workload cfg} {ftl ftl' : KvFtl} {owners : Owners}
  {contents : Contents} {key value : List UInt8}

theorem Workload.Admits.keyLength (h : w.Admits (key, value)) : key.length = w.keyLength :=
  w.sameLength key h.1

theorem Workload.Admits.inBuffer (h : w.Admits (key, value)) : key.length ≤ 20 := by
  have hinlined := w.inlined
  rw [h.keyLength]
  omega

theorem Represents.fits (h : Represents w ftl owners contents) (hadmits : w.Admits (key, value)) :
    Fits cfg ftl owners (.batched key value) := by
  obtain ⟨hnew, hnone⟩ | ⟨slot, old, hold, hslot, hholds⟩ := h.lookupSlot_eq hadmits.keyLength
  · have hroom := allocated_lt hadmits.1 hnew
    rw [← h.latest, ← hadmits.2] at hroom
    refine ⟨hadmits.inBuffer, ?_⟩
    simp only [Allotted, StoreEvent.key, hnone]
    exact hroom.le
  · have hlength : value.length = old.length := hadmits.2.trans (h.admitted key old hold).2.symm
    refine ⟨hadmits.inBuffer, ?_⟩
    simp only [Allotted, StoreEvent.key, StoreEvent.length, hslot, hholds.owner, hlength,
      Nat.le_refl, and_self]

theorem Represents.room (h : Represents w ftl owners contents) (hadmits : w.Admits (key, value))
    (hnone : lookupSlot cfg ftl key = .ok none) : ftl.latest + value.length < cfg.storageSize := by
  rw [h.latest, hadmits.2]
  exact allocated_lt hadmits.1 (h.not_stored hadmits.keyLength hnone)

theorem Represents.inside_new (h : Represents w ftl owners contents)
    (hadmits : w.Admits (key, value)) (hnone : lookupSlot cfg ftl key = .ok none) :
    InsideStorage cfg (allocateMemOffset ftl value.length).1 value.length := by
  have hroom := h.room hadmits hnone
  rw [allocateMemOffset_eq hroom.le]
  exact .inr hroom.le

theorem Represents.inside_old (h : Represents w ftl owners contents)
    (hadmits : w.Admits (key, value)) {slot offset : Nat}
    (hslot : lookupSlot cfg ftl key = .ok (some slot))
    (hoffset : (ftl.mappingTable slot).memOffset = some offset) :
    InsideStorage cfg offset value.length := by
  obtain ⟨old, hold, hholds⟩ := h.stored_in hadmits.keyLength hslot
  have hlength : value.length = old.length := hadmits.2.trans (h.admitted key old hold).2.symm
  have hinside := h.extents.inside slot offset hoffset
  rw [hholds.owner, ← hlength] at hinside
  exact .inr (hinside.trans h.extents.latest)

theorem Represents.admitted_put (h : Represents w ftl owners contents)
    (hadmits : w.Admits (key, value)) {key' value' : List UInt8}
    (hvalue : put contents (key, value) key' = some value') : w.Admits (key', value') := by
  by_cases heq : key' = key
  · rw [heq, put_self] at hvalue
    cases hvalue
    rwa [heq]
  · rw [put_of_ne contents value heq] at hvalue
    exact h.admitted key' value' hvalue

theorem Represents.owner_ne (h : Represents w ftl owners contents) (hnew : contents key = none)
    {slot : Nat} (hslot : occupied ftl.mappingTable slot = true) : (owners slot).1 ≠ key := by
  rintro rfl
  obtain ⟨key', value', hvalue', hholds⟩ := h.entries slot hslot
  rw [hholds.owner, hvalue'] at hnew
  cases hnew

section Insert

variable {v : Nat} {prev : Option Nat}

theorem owner_inserted (owners : Owners)
    (hinserted : Inserted cfg (written ftl value) ftl' key value.length ftl.latest v prev)
    {slot : Nat} (hslot : occupied ftl'.mappingTable slot = true) :
    (slot = v ∧ recordOwner ftl owners (.batched key value) slot = (key, value.length)) ∨
      (slot ≠ v ∧ occupied ftl.mappingTable slot = true ∧
        recordOwner ftl owners (.batched key value) slot = owners slot) := by
  by_cases heq : slot = v
  · rw [heq]
    exact .inl ⟨rfl, recordOwner_new hinserted.taken.free⟩
  · have hlive := congrFun hinserted.taken.live_eq slot
    rw [hslot, Function.update_of_ne heq] at hlive
    exact .inr ⟨heq, hlive.symm, recordOwner_old hlive.symm⟩

theorem Represents.entries_inserted (h : Represents w ftl owners contents)
    (hnew : contents key = none)
    (hinserted : Inserted cfg (written ftl value) ftl' key value.length ftl.latest v prev)
    (hstorage : ftl'.storage = overwrite ftl.storage ftl.latest value) {slot : Nat}
    (hslot : occupied ftl'.mappingTable slot = true) :
    ∃ key' value', put contents (key, value) key' = some value' ∧
      Holds ftl' (recordOwner ftl owners (.batched key value)) slot key' value' := by
  obtain ⟨rfl, howner⟩ | ⟨hne, hlive, howner⟩ := owner_inserted owners hinserted hslot
  · refine ⟨key, value, put_self _ _ _, howner, ?_, hinserted.newLength, ?_⟩
    · rw [hinserted.newKey, List.take_left]
    · intro offset hoffset
      rw [hinserted.newOffset] at hoffset
      cases hoffset
      rw [hstorage, slice_overwrite_self]
  · obtain ⟨key', value', hvalue', hholds⟩ := h.entries slot hlive
    obtain ⟨hkey, hmem, hlength⟩ := hinserted.other slot hne
    have hother : key' ≠ key := by
      have hother := h.owner_ne hnew hlive
      rwa [hholds.owner] at hother
    refine ⟨key', value', ?_, ?_, ?_, ?_, ?_⟩
    · rw [put_of_ne contents value hother, hvalue']
    · rw [howner, hholds.owner]
    · rw [hkey]
      exact hholds.key
    · rw [hlength]
      exact hholds.length
    · intro offset hoffset
      rw [hmem] at hoffset
      have hinside := h.extents.inside slot offset hoffset
      rw [hholds.owner] at hinside
      rw [hstorage, slice_overwrite_of_disjoint (.inl hinside)]
      exact hholds.value offset hoffset

theorem Represents.reached_inserted (h : Represents w ftl owners contents)
    (hchained : Chained cfg ftl'.mappingTable)
    (hinserted : Inserted cfg (written ftl value) ftl' key value.length ftl.latest v prev)
    {key' value' : List UInt8} (hvalue : put contents (key, value) key' = some value') :
    ∃ xs slot, Path ftl'.mappingTable (getHashSlot cfg key') xs ∧ slot ∈ xs ∧
      (recordOwner ftl owners (.batched key value) slot).1 = key' := by
  by_cases heq : key' = key
  · rw [heq]
    obtain ⟨xs, hpath⟩ := hchained.paths (getHashSlot cfg key)
    refine ⟨xs, v, hpath, hinserted.mem_path hpath, ?_⟩
    have howner : recordOwner ftl owners (.batched key value) v = (key, value.length) :=
      recordOwner_new hinserted.taken.free
    rw [howner]
  · rw [put_of_ne contents value heq] at hvalue
    obtain ⟨xs, slot, hpath, hmem, hkey⟩ := h.reached key' value' hvalue
    have howner : (recordOwner ftl owners (.batched key value) slot).1 = key' := by
      rw [recordOwner_old (hpath.live_of_mem hmem), hkey]
    rcases hinserted.taken.trail hpath with hpath' | hpath'
    · exact ⟨xs, slot, hpath', hmem, howner⟩
    · exact ⟨xs ++ [v], slot, hpath', List.mem_append_left _ hmem, howner⟩

theorem Represents.distinct_inserted (h : Represents w ftl owners contents)
    (hnew : contents key = none)
    (hinserted : Inserted cfg (written ftl value) ftl' key value.length ftl.latest v prev)
    {slot slot' : Nat} (hslot : occupied ftl'.mappingTable slot = true)
    (hslot' : occupied ftl'.mappingTable slot' = true)
    (hkeys : (recordOwner ftl owners (.batched key value) slot).1 =
      (recordOwner ftl owners (.batched key value) slot').1) : slot = slot' := by
  obtain ⟨heq, howner⟩ | ⟨-, hlive, howner⟩ := owner_inserted owners hinserted hslot
  · obtain ⟨heq', -⟩ | ⟨-, hlive', howner'⟩ := owner_inserted owners hinserted hslot'
    · rw [heq, heq']
    · rw [howner, howner'] at hkeys
      exact absurd hkeys.symm (h.owner_ne hnew hlive')
  · obtain ⟨-, howner'⟩ | ⟨-, hlive', howner'⟩ :=
      owner_inserted owners hinserted hslot'
    · rw [howner, howner'] at hkeys
      exact absurd hkeys (h.owner_ne hnew hlive)
    · rw [howner, howner'] at hkeys
      exact h.distinct slot slot' hlive hlive' hkeys

end Insert

theorem Represents.insert (h : Represents w ftl owners contents) (hadmits : w.Admits (key, value))
    (hnone : lookupSlot cfg ftl key = .ok none)
    (hrun : newMappingEntry cfg (written ftl value) key value.length
      (allocateMemOffset ftl value.length).1 = .ok ftl') :
    Represents w ftl' (recordOwner ftl owners (.batched key value))
      (put contents (key, value)) := by
  have hnew := h.not_stored hadmits.keyLength hnone
  have halloc := allocateMemOffset_eq (h.room hadmits hnone).le
  have hstored : Stored cfg ftl key value ftl' := .insert hnone (h.inside_new hadmits hnone) hrun
  have hextents := (h.extents.stored (h.fits hadmits) rfl hstored).1
  have hwritten : Chained cfg (written ftl value).mappingTable := h.extents.chained
  rw [halloc] at hrun
  obtain ⟨v, prev, hinserted⟩ := hwritten.newMappingEntry_inserted hrun
  have hstorage : ftl'.storage = overwrite ftl.storage ftl.latest value := by
    rw [hinserted.storage, written, halloc]
  refine ⟨hextents, ?_, ?_, ?_, ?_, ?_⟩
  · rw [hinserted.latest, written, halloc, allocated_put_new value hadmits.1 hnew, ← h.latest,
      ← hadmits.2]
  · exact fun _ _ hvalue => h.admitted_put hadmits hvalue
  · exact fun _ hslot => h.entries_inserted hnew hinserted hstorage hslot
  · exact fun _ _ hvalue => h.reached_inserted hextents.chained hinserted hvalue
  · exact fun _ _ hslot hslot' => h.distinct_inserted hnew hinserted hslot hslot'

theorem Represents.update (h : Represents w ftl owners contents) (hadmits : w.Admits (key, value))
    {slot offset : Nat} (hslot : lookupSlot cfg ftl key = .ok (some slot))
    (hoffset : (ftl.mappingTable slot).memOffset = some offset) :
    Represents w { ftl with storage := overwrite ftl.storage offset value }
      (recordOwner ftl owners (.batched key value)) (put contents (key, value)) := by
  obtain ⟨old, hold, hholds⟩ := h.stored_in hadmits.keyLength hslot
  have hlength : value.length = old.length := hadmits.2.trans (h.admitted key old hold).2.symm
  have hstored := stored_same hslot hoffset (h.inside_old hadmits hslot hoffset)
  have hextents := (h.extents.stored (h.fits hadmits) rfl hstored).1
  have hkept : ∀ t, occupied ftl.mappingTable t = true →
      recordOwner ftl owners (.batched key value) t = owners t := fun _ => recordOwner_old
  refine ⟨hextents, ?_, ?_, ?_, ?_, ?_⟩
  · rw [allocated_put_old hadmits.1 hold]
    exact h.latest
  · exact fun _ _ hvalue => h.admitted_put hadmits hvalue
  · intro slot' hlive
    have howner := hkept slot' hlive
    obtain ⟨key', value', hvalue', hholds'⟩ := h.entries slot' hlive
    by_cases heq : slot' = slot
    · subst heq
      rw [hholds.owner] at howner
      refine ⟨key, value, put_self _ _ _, ?_, hholds.key, ?_, ?_⟩
      · rw [howner, hlength]
      · rw [hlength]
        exact hholds.length
      · intro offset' hoffset'
        rw [hoffset] at hoffset'
        cases hoffset'
        exact slice_overwrite_self
    · have hother : key' ≠ key := by
        rintro rfl
        refine heq (h.distinct slot' slot hlive (occupied_of_memOffset hoffset) ?_)
        rw [hholds'.owner, hholds.owner]
      refine ⟨key', value', ?_, ?_, hholds'.key, hholds'.length, ?_⟩
      · rw [put_of_ne contents value hother, hvalue']
      · rw [howner, hholds'.owner]
      · intro offset' hoffset'
        have hapart := h.extents.apart slot' slot offset' offset heq hoffset' hoffset
        rw [hholds'.owner, hholds.owner, ← hlength] at hapart
        rw [slice_overwrite_of_disjoint hapart]
        exact hholds'.value offset' hoffset'
  · intro key' value' hvalue'
    have hbefore : ∃ before, contents key' = some before := by
      by_cases heq : key' = key
      · exact ⟨old, by rw [heq, hold]⟩
      · exact ⟨value', by rw [← hvalue', put_of_ne contents value heq]⟩
    obtain ⟨before, hbefore⟩ := hbefore
    obtain ⟨xs, slot', hpath, hmem, hkey⟩ := h.reached key' before hbefore
    refine ⟨xs, slot', hpath, hmem, ?_⟩
    rw [hkept slot' (hpath.live_of_mem hmem), hkey]
  · intro slot₁ slot₂ hlive₁ hlive₂ hkeys
    rw [hkept slot₁ hlive₁, hkept slot₂ hlive₂] at hkeys
    exact h.distinct slot₁ slot₂ hlive₁ hlive₂ hkeys

theorem Represents.stored (h : Represents w ftl owners contents) (hadmits : w.Admits (key, value))
    (hstored : Stored cfg ftl key value ftl') :
    Represents w ftl' (recordOwner ftl owners (.batched key value))
      (put contents (key, value)) := by
  cases hstored with
  | insert absent inside run => exact h.insert hadmits absent run
  | @update slot offset length found place inside kept =>
      obtain ⟨old, hold, hholds⟩ := h.stored_in hadmits.keyLength found
      have hsame : length = (ftl.mappingTable slot).length := by
        rcases kept with rfl | rfl
        · rfl
        · rw [hholds.length, (h.admitted key old hold).2]
          exact hadmits.2
      have hupdate := h.update hadmits found place
      rwa [hsame, setEntry_same]

theorem Represents.newMappingEntry_ok (h : Represents w ftl owners contents)
    (hadmits : w.Admits (key, value)) (hnone : lookupSlot cfg ftl key = .ok none) :
    ∃ ftl', newMappingEntry cfg (written ftl value) key value.length
      (allocateMemOffset ftl value.length).1 = .ok ftl' := by
  have hnew := h.not_stored hadmits.keyLength hnone
  have hroom := h.room hadmits hnone
  obtain ⟨free, hinside, hfree⟩ := h.exists_free hadmits.1 hnew
  have hchained : Chained cfg (written ftl value).mappingTable := h.extents.chained
  refine hchained.newMappingEntry_ok hinside hfree ?_ (hadmits.inBuffer.trans (by decide))
  rw [allocateMemOffset_eq hroom.le]
  omega

theorem Represents.doPerformKvBatchedIo_ok (h : Represents w ftl owners contents)
    (hadmits : w.Admits (key, value)) :
    ∃ ftl', doPerformKvBatchedIo cfg ftl true key value = .ok ftl' := by
  obtain ⟨-, hnone⟩ | ⟨slot, old, -, hslot, -⟩ := h.lookupSlot_eq hadmits.keyLength
  · obtain ⟨ftl', hrun⟩ := h.newMappingEntry_ok hadmits hnone
    refine ⟨ftl', ?_⟩
    rw [doPerformKvBatchedIo, getMappingEntry_of_lookupSlot hnone, ok_bind]
    simp only [foundEntry, wipedEntry, insideStorage_of (h.inside_new hadmits hnone), ok_bind]
    exact hrun
  · obtain ⟨offset, hoffset, -⟩ := lookupSlot_occupied hslot
    have hinside := h.inside_old hadmits hslot hoffset
    rw [doPerformKvBatchedIo, getMappingEntry_of_lookupSlot hslot, ok_bind]
    simp only [foundEntry, hoffset, insideStorage_of hinside, ok_bind]
    exact ⟨_, rfl⟩

theorem Represents.doPerformKvIo_ok (h : Represents w ftl owners contents) {cmd : KvCommand}
    {host : Memory} (hop : cmd.opcode = .store)
    (hread : PrpTransfer.payload (fun _ => true) cmd.dptr host (cmdValueLength cmd.valueLen) =
      .ok value)
    (hadmits : w.Admits (cmd.key.bytes, value)) (status : Nat) :
    ∃ reply, doPerformKvIo cfg host ftl cmd status = .ok reply := by
  have hlength : value.length = cmdValueLength cmd.valueLen := PrpTransfer.gatherLoop_length hread
  obtain ⟨-, hnone⟩ | ⟨slot, old, hold, hslot, hholds⟩ := h.lookupSlot_eq hadmits.keyLength
  · obtain ⟨ftl', hrun⟩ := h.newMappingEntry_ok hadmits hnone
    have hinside := h.inside_new hadmits hnone
    rw [hlength] at hinside
    rw [doPerformKvIo, getMappingEntry_of_lookupSlot hnone, ok_bind]
    simp only [hop, foundEntry, wipedEntry, moveStorage_of hinside, moveValue,
      PrpTransfer.performIo_of_payload hread, ok_bind]
    rw [written, hlength] at hrun
    have hstorage : (allocateMemOffset ftl (cmdValueLength cmd.valueLen)).2.storage =
        ftl.storage := rfl
    refine ⟨⟨ftl', host, 0, status⟩, ?_⟩
    rw [hstorage, hrun]
    rfl
  · obtain ⟨offset, hoffset, -⟩ := lookupSlot_occupied hslot
    have hinside := h.inside_old hadmits hslot hoffset
    rw [hlength] at hinside
    rw [doPerformKvIo, getMappingEntry_of_lookupSlot hslot, ok_bind]
    simp only [hop, foundEntry, hoffset, moveStorage_of hinside, moveValue,
      PrpTransfer.performIo_of_payload hread, ok_bind]
    have hsame : cmdValueLength cmd.valueLen = (ftl.mappingTable slot).length := by
      rw [← hlength, hholds.length, (h.admitted cmd.key.bytes old hold).2]
      exact hadmits.2
    rw [if_neg fun hne => hne.1 hsame]
    exact ⟨_, rfl⟩

end Store

end NvmeVirt.KeyValueMap
