import NvmeVirt.KeyValueRefinement

namespace NvmeVirt.KeyValueCapacity

open ByteMemory
open FaultOutcome
open KeyValueChains
open KeyValueExtents
open KeyValueFtl
open KeyValueMap
open KeyValueSteps
open PrpTransfer
open Relation

/-- A slot that was free holds the key, and searches find it there. -/
def Inserts (cfg : KvConfig) (ftl ftl' : KvFtl) (key : List UInt8) (length : Nat) : Prop :=
  ∃ slot, occupied ftl.mappingTable slot = false ∧ lookupSlot cfg ftl' key = .ok (some slot) ∧
    (ftl'.mappingTable slot).length = length

/-- The command returns; it has inserted its key, or it reports an error and the table
is as it was. -/
def Finishes (cfg : KvConfig) (host : Memory) (ftl : KvFtl) (cmd : KvCommand) : Prop :=
  ∃ reply, doPerformKvIo cfg host ftl cmd 0 = .ok reply ∧
    (Inserts cfg ftl reply.ftl cmd.key.bytes (cmdValueLength cmd.valueLen) ∨
      (reply.status ≠ 0 ∧ reply.ftl.mappingTable = ftl.mappingTable))

def FreeSlot (cfg : KvConfig) (ftl : KvFtl) : Prop :=
  ∃ slot < cfg.hashSlots, occupied ftl.mappingTable slot = false

/-- The next bytes of the storage take a value of the length. -/
def RoomLeft (cfg : KvConfig) (ftl : KvFtl) (length : Nat) : Prop :=
  let offset := if ftl.latest = 2 ^ 64 - 1 then 0 else ftl.latest
  offset < cfg.storageSize ∧ offset + length ≤ cfg.storageSize

def Readable (host : Memory) (cmd : KvCommand) : Prop :=
  ∃ value, payload (fun _ => true) cmd.dptr host (cmdValueLength cmd.valueLen) = .ok value

section Stores

variable {cfg : KvConfig} {ftl : KvFtl} {host : Memory} {cmd : KvCommand}

theorem finishes_of_room (h : Chained cfg ftl.mappingTable) (hop : cmd.opcode = .store)
    (hnew : lookupSlot cfg ftl cmd.key.bytes = .ok none) (hfree : FreeSlot cfg ftl)
    (hroom : RoomLeft cfg ftl (cmdValueLength cmd.valueLen)) (hreadable : Readable host cmd) :
    Finishes cfg host ftl cmd := by
  obtain ⟨free, hinside, hfree⟩ := hfree
  obtain ⟨hstart, hend⟩ := hroom
  have hstored : InsideStorage cfg (allocateMemOffset ftl (cmdValueLength cmd.valueLen)).1
      (cmdValueLength cmd.valueLen) := .inr hend
  obtain ⟨value, hvalue⟩ := hreadable
  have hlength : value.length = cmdValueLength cmd.valueLen := gatherLoop_length hvalue
  have hwritten : Chained cfg (written ftl value).mappingTable := h
  obtain ⟨ftl', hrun⟩ : ∃ ftl', newMappingEntry cfg (written ftl value) cmd.key.bytes
      value.length (allocateMemOffset ftl value.length).1 = .ok ftl' :=
    hwritten.newMappingEntry_ok hinside hfree hstart
      (cmd.key.inlined.trans (by decide))
  obtain ⟨v, prev, hinserted⟩ := hwritten.newMappingEntry_inserted hrun
  have hfound := hinserted.lookupSlot_eq hwritten hnew
  refine ⟨⟨ftl', host, 0, 0⟩, ?_, .inl ⟨v, hinserted.taken.free, hfound, ?_⟩⟩
  · rw [written, hlength] at hrun
    rw [doPerformKvIo, getMappingEntry_of_lookupSlot hnew, ok_bind]
    simp only [hop, foundEntry, wipedEntry, moveStorage_of hstored, moveValue,
      performIo_of_payload hvalue, ok_bind]
    have hstorage : (allocateMemOffset ftl (cmdValueLength cmd.valueLen)).2.storage =
        ftl.storage := rfl
    rw [hstorage, hrun]
    rfl
  · rw [hinserted.newLength, hlength]

theorem room_of_stored (h : Chained cfg ftl.mappingTable) {key value : List UInt8} {ftl' : KvFtl}
    (hnew : lookupSlot cfg ftl key = .ok none) (hstored : Stored cfg ftl key value ftl') :
    FreeSlot cfg ftl ∧ RoomLeft cfg ftl value.length := by
  cases hstored with
  | insert absent inside run =>
      have hwritten : Chained cfg (written ftl value).mappingTable := h
      obtain ⟨v, prev, hinserted⟩ := hwritten.newMappingEntry_inserted run
      refine ⟨⟨v, hinserted.inside, hinserted.taken.free⟩, hinserted.fits, ?_⟩
      rcases inside with hempty | hend
      · have hstart : (if ftl.latest = 2 ^ 64 - 1 then 0 else ftl.latest) < cfg.storageSize :=
          hinserted.fits
        omega
      · exact hend
  | update found =>
      rw [hnew] at found
      cases found

end Stores

section FullTable

variable {cfg : KvConfig} {w : Workload cfg} {ftl : KvFtl} {owners : Owners}
  {contents : Contents}

theorem probeSlot_endless {table : Nat → MappingEntry}
    (hfull : ∀ slot < cfg.hashSlots, occupied table slot = true) (fuel : Nat) {slot : Nat}
    (hslot : slot < cfg.hashSlots) :
    probeSlot cfg table fuel slot = .error (.endlessLoop .findNextSlot) := by
  induction fuel generalizing slot with
  | zero => rfl
  | succ fuel ih =>
      rw [probeSlot, if_neg (memOffset_ne_none (hfull slot hslot))]
      apply ih
      split
      · exact cfg.hasSlots
      · omega

def storeEmpty (key : KvKey) : KvCommand :=
  { opcode := .store, key := key, valueLen := 0, dptr := ⟨0, 0⟩ }

theorem payload_storeEmpty (key : KvKey) (host : Memory) :
    payload (fun _ => true) (storeEmpty key).dptr host (cmdValueLength (storeEmpty key).valueLen) =
      .ok [] := rfl

theorem exists_stored (storage : Memory) (hempty : ∀ key, w.valueLength key = 0)
    (hpos : 0 < w.keyLength) (keys : List (List UInt8)) (hkeys : ∀ key ∈ keys, key ∈ w.keys) :
    ∃ ftl owners contents, ReflTransGen (Executes cfg) (initNamespace storage) ftl ∧
      Represents w ftl owners contents ∧ ∀ key ∈ keys, contents key ≠ none := by
  induction keys with
  | nil =>
      exact ⟨_, fun _ => ([], 0), _, .refl, KeyValueRefinement.represents_init w storage _,
        fun _ hkey => absurd hkey List.not_mem_nil⟩
  | cons key keys ih =>
      obtain ⟨ftl, owners, contents, hrun, hrepresents, hstored⟩ :=
        ih fun key hkey => hkeys key (List.mem_cons_of_mem _ hkey)
      have hkey := hkeys key List.mem_cons_self
      have hlength := w.sameLength key hkey
      let kvKey : KvKey := ⟨key, by rw [hlength]; exact hpos, by rw [hlength]; exact w.inlined⟩
      have hadmits : w.Admits (key, []) := ⟨hkey, (hempty key).symm⟩
      have hread := payload_storeEmpty kvKey fun _ => 0
      obtain ⟨reply, hreply⟩ := hrepresents.doPerformKvIo_ok rfl hread hadmits 0
      obtain ⟨value, hvalue, -, hafter, -⟩ := doPerformKvIo_store rfl hreply
      rw [hread] at hvalue
      cases hvalue
      refine ⟨reply.ftl, _, _, hrun.tail ⟨_, .io (storeEmpty kvKey), 0, reply, hreply, rfl⟩,
        hrepresents.stored hadmits hafter, ?_⟩
      intro other hother
      by_cases heq : other = key
      · rw [heq, put_self]
        simp
      · rw [put_of_ne contents [] heq]
        rcases List.mem_cons.1 hother with hsame | hother
        · exact absurd hsame heq
        · exact hstored other hother

theorem full_of_stored (h : Represents w ftl owners contents)
    (hcard : w.keys.card = cfg.hashSlots) (hall : ∀ key ∈ w.keys, contents key ≠ none) :
    ∀ slot < cfg.hashSlots, occupied ftl.mappingTable slot = true := by
  intro free hfree
  by_contra hnot
  -- every key has a slot of its own, and none of them is the free one
  have hcover : w.keys ⊆
      ((Finset.range cfg.hashSlots).erase free).image fun slot => (owners slot).1 := by
    intro key hkey
    obtain ⟨value, hvalue⟩ := Option.ne_none_iff_exists'.1 (hall key hkey)
    obtain ⟨xs, slot, hpath, hmem, howner⟩ := h.reached key value hvalue
    have hlive := hpath.live_of_mem hmem
    have hinside := hpath.lt_of_mem (getHashSlot_lt cfg key) h.extents.chained.inside hmem
    refine Finset.mem_image.2 ⟨slot, Finset.mem_erase.2 ⟨?_, Finset.mem_range.2 hinside⟩, howner⟩
    rintro rfl
    exact hnot hlive
  have hle := (Finset.card_le_card hcover).trans Finset.card_image_le
  rw [hcard, Finset.card_erase_of_mem (Finset.mem_range.2 hfree), Finset.card_range] at hle
  have hpos := cfg.hasSlots
  omega

end FullTable

section Numbered

/-- The key of four bytes that holds `n`. -/
def numberedKey (n : Nat) : KvKey where
  bytes := [UInt8.ofNat n, UInt8.ofNat (n / 2 ^ 8), UInt8.ofNat (n / 2 ^ 16),
    UInt8.ofNat (n / 2 ^ 24)]
  nonempty := Nat.succ_pos 3
  inlined := by simp

theorem eq_of_numberedKey {m n : Nat} (hm : m < 2 ^ 32) (hn : n < 2 ^ 32)
    (h : (numberedKey m).bytes = (numberedKey n).bytes) : m = n := by
  have hbyte : ∀ {a b : Nat}, UInt8.ofNat a = UInt8.ofNat b → a % 256 = b % 256 := by
    intro a b hab
    have hnat := congrArg UInt8.toNat hab
    rwa [UInt8.toNat_ofNat', UInt8.toNat_ofNat'] at hnat
  simp only [numberedKey, List.cons.injEq, and_true] at h
  obtain ⟨h₀, h₁, h₂, h₃⟩ := h
  have h₀ := hbyte h₀
  have h₁ := hbyte h₁
  have h₂ := hbyte h₂
  have h₃ := hbyte h₃
  omega

/-- The keys with the numbers below that of the slots, with empty values. -/
def numberedKeys : Workload builtConfig where
  keyLength := 4
  keys := (Finset.range builtConfig.hashSlots).image fun n => (numberedKey n).bytes
  valueLength _ := 0
  inlined := KeyValueRefinement.twoKeys.inlined
  sameLength key hkey := by
    obtain ⟨n, -, rfl⟩ := Finset.mem_image.1 hkey
    rfl
  enoughSlots := by
    refine Finset.card_image_le.trans ?_
    rw [Finset.card_range]
  enoughRoom := by
    rw [Finset.sum_const_zero]
    decide

theorem card_numberedKeys : numberedKeys.keys.card = builtConfig.hashSlots := by
  have hlt : builtConfig.hashSlots < 2 ^ 32 := by decide
  have hinjective : Set.InjOn (fun n => (numberedKey n).bytes)
      (Finset.range builtConfig.hashSlots) := by
    intro m hm n hn hsame
    rw [Finset.coe_range, Set.mem_Iio] at hm hn
    exact eq_of_numberedKey (hm.trans hlt) (hn.trans hlt) hsame
  rw [numberedKeys, Finset.card_image_of_injOn hinjective, Finset.card_range]

end Numbered

/-- In every table that commands can build, a store of a new key finishes if and only
if a slot is free, the storage has room for the value, and the value can be read. -/
theorem new_key_store_finishes_iff (cfg : KvConfig) (storage : Memory) {ftl : KvFtl}
    (hrun : ReflTransGen (Executes cfg) (initNamespace storage) ftl) (host : Memory)
    {cmd : KvCommand} (hop : cmd.opcode = .store)
    (hnew : lookupSlot cfg ftl cmd.key.bytes = .ok none) :
    Finishes cfg host ftl cmd ↔ FreeSlot cfg ftl ∧
      RoomLeft cfg ftl (cmdValueLength cmd.valueLen) ∧ Readable host cmd := by
  have hchained := chained_of_executes hrun
  constructor
  · rintro ⟨reply, hreply, -⟩
    obtain ⟨value, hvalue, hlength, hstored, -⟩ := doPerformKvIo_store hop hreply
    obtain ⟨hfree, hroom⟩ := room_of_stored hchained hnew hstored
    rw [hlength] at hroom
    exact ⟨hfree, hroom, value, hvalue⟩
  · rintro ⟨hfree, hroom, hreadable⟩
    exact finishes_of_room hchained hop hnew hfree hroom hreadable

theorem new_key_store_finishes_iff_first :
    Finishes builtConfig (fun _ => 7) (initNamespace fun _ => 0)
      { opcode := .store, key := firstKey, valueLen := 2, dptr := ⟨4096, 8192⟩ } := by
  refine (new_key_store_finishes_iff builtConfig (fun _ => 0) .refl (fun _ => 7) rfl
    (by decide +kernel)).2 ⟨⟨0, by decide, rfl⟩, ?_, List.replicate 8 7, by decide +kernel⟩
  constructor <;> decide

/-- With the first keys stored, one for each slot of the table, the store of the next one
never returns. -/
theorem store_into_full_table_hangs :
    ∃ ftl, ReflTransGen (Executes builtConfig) (initNamespace fun _ => 0) ftl ∧
      (∀ slot < builtConfig.hashSlots, occupied ftl.mappingTable slot = true) ∧
      lookupSlot builtConfig ftl (numberedKey builtConfig.hashSlots).bytes = .ok none ∧
      (∀ fuel, ∀ slot < builtConfig.hashSlots,
        probeSlot builtConfig ftl.mappingTable fuel slot =
          .error (.endlessLoop .findNextSlot)) ∧
      ¬Finishes builtConfig (fun _ => 0) ftl
        (storeEmpty (numberedKey builtConfig.hashSlots)) := by
  obtain ⟨ftl, owners, contents, hrun, hrepresents, hstored⟩ :=
    exists_stored (w := numberedKeys) (fun _ => 0) (fun _ => rfl) (by decide)
      numberedKeys.keys.toList fun key hkey => Finset.mem_toList.1 hkey
  have hfull := full_of_stored hrepresents card_numberedKeys fun key hkey =>
    hstored key (Finset.mem_toList.2 hkey)
  have hlt : builtConfig.hashSlots < 2 ^ 32 := by decide
  have hnew : lookupSlot builtConfig ftl (numberedKey builtConfig.hashSlots).bytes =
      .ok none := by
    have hlength : (numberedKey builtConfig.hashSlots).bytes.length = numberedKeys.keyLength := rfl
    obtain ⟨-, hnone⟩ | ⟨slot, value, hvalue, -⟩ := hrepresents.lookupSlot_eq hlength
    · exact hnone
    · have hmem := (hrepresents.admitted _ value hvalue).1
      obtain ⟨n, hn, hsame⟩ := Finset.mem_image.1 hmem
      rw [Finset.mem_range] at hn
      have heq := eq_of_numberedKey (hn.trans hlt) hlt hsame
      omega
  refine ⟨ftl, hrun, hfull, hnew, fun fuel _ => probeSlot_endless hfull fuel, ?_⟩
  rintro ⟨reply, hreply, -⟩
  obtain ⟨value, -, -, hafter, -⟩ := doPerformKvIo_store rfl hreply
  obtain ⟨slot, hinside, hfree⟩ := (room_of_stored hrepresents.extents.chained hnew hafter).1
  rw [hfull slot hinside] at hfree
  cases hfree

end NvmeVirt.KeyValueCapacity
