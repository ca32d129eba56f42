import Mathlib.Data.List.Infix
import NvmeVirt.KeyValueExtents

namespace NvmeVirt.KeyValueKeys

open ByteMemory
open FaultOutcome
open KeyValueChains
open KeyValueExtents
open KeyValueFtl
open KeyValueSteps

section Bytes

/-- `key` is read where `stored` was written over bytes that are all `fill`. -/
def ReadsAs (fill : UInt8) (stored key : List UInt8) : Prop :=
  key <+: stored ∨ (stored <+: key ∧ ∀ byte ∈ key.drop stored.length, byte = fill)

instance (fill : UInt8) (stored key : List UInt8) : Decidable (ReadsAs fill stored key) :=
  inferInstanceAs (Decidable
    (key <+: stored ∨ (stored <+: key ∧ ∀ byte ∈ key.drop stored.length, byte = fill)))

variable {fill : UInt8} {stored key : List UInt8} {n : Nat}

theorem take_filled_eq_iff (hlength : key.length ≤ stored.length + n) :
    (stored ++ List.replicate n fill).take key.length = key ↔ ReadsAs fill stored key := by
  rw [List.take_append]
  rcases Nat.le_total key.length stored.length with hshort | hlong
  · have hrest : key.length - stored.length = 0 := Nat.sub_eq_zero_of_le hshort
    rw [hrest, List.take_zero, List.append_nil]
    constructor
    · intro htake
      left
      rw [← htake]
      exact List.take_prefix _ _
    · rintro (hhead | ⟨hhead, -⟩)
      · exact (List.prefix_iff_eq_take.1 hhead).symm
      · rw [hhead.eq_of_length_le hshort, List.take_length]
  · rw [List.take_of_length_le hlong, List.take_replicate, Nat.min_eq_left (by omega)]
    constructor
    · intro hsame
      right
      refine ⟨⟨_, hsame⟩, ?_⟩
      intro byte hbyte
      rw [← hsame, List.drop_left] at hbyte
      exact List.eq_of_mem_replicate hbyte
    · rintro (hhead | ⟨hhead, hfill⟩)
      · have hsame := hhead.eq_of_length_le hlong
        rw [hsame, Nat.sub_self, List.replicate_zero, List.append_nil]
      · have hrest : key.drop stored.length =
            List.replicate (key.length - stored.length) fill := by
          rw [List.eq_replicate_iff, List.length_drop]
          exact ⟨rfl, hfill⟩
        rw [← hrest]
        conv_rhs => rw [← List.take_append_drop stored.length key]
        rw [← List.prefix_iff_eq_take.1 hhead]

theorem readsAs_self (fill : UInt8) (key : List UInt8) : ReadsAs fill key key :=
  .inl (List.prefix_refl key)

theorem eq_of_readsAs (h : ReadsAs fill stored key) (hlength : key.length = stored.length) :
    key = stored := by
  rcases h with hhead | ⟨hhead, -⟩
  · exact hhead.eq_of_length hlength
  · exact (hhead.eq_of_length hlength.symm).symm

end Bytes

inductive KeyEvent where
  | store (event : StoreEvent)
  | delete (host : Memory) (cmd : KvCommand) (status : Nat) (opcode : cmd.opcode = .delete)

def KeyEvent.key : KeyEvent → List UInt8
  | .store event => event.key
  | .delete _ cmd _ _ => cmd.key.bytes

/-- The device, for which key each slot was taken, and what the bytes of each slot were
before that. -/
structure KeyState where
  ftl : KvFtl
  owners : Owners
  fills : Nat → UInt8

def KeyState.creator (s : KeyState) (slot : Nat) : List UInt8 := (s.owners slot).1

def startState (storage : Memory) : KeyState where
  ftl := initNamespace storage
  owners := noOwners
  fills _ := 0

/-- A slot that is freed is filled with `-1`. -/
def recordFill (ftl ftl' : KvFtl) (fills : Nat → UInt8) : Nat → UInt8 := fun slot =>
  if occupied ftl.mappingTable slot && !occupied ftl'.mappingTable slot then 255 else fills slot

def keyStep (cfg : KvConfig) (s : KeyState) : KeyEvent → Except WriteBuffer.Fault KeyState
  | .store event => do
      let (ftl, owners) ← storeStep cfg (s.ftl, s.owners) event
      return { s with ftl := ftl, owners := owners }
  | .delete host cmd status _ => do
      let reply ← doPerformKvIo cfg host s.ftl cmd status
      return { s with ftl := reply.ftl, fills := recordFill s.ftl reply.ftl s.fills }

/-- What `get_mapping_entry` reports as found was created by a store of this very key. -/
def FoundExactly (cfg : KvConfig) (s : KeyState) (key : List UInt8) : Prop :=
  ∀ entry, getMappingEntry cfg s.ftl key = .ok entry → entry.memOffset ≠ none →
    ∃ slot, lookupSlot cfg s.ftl key = .ok (some slot) ∧
      entry = foundEntry s.ftl.mappingTable key (some slot) ∧ s.creator slot = key

/-- On the chain of the key's home slot, no entry of another key that would be read as
the key comes before one that was created for it. -/
def NoLookalike (cfg : KvConfig) (s : KeyState) (key : List UInt8) : Prop :=
  ∀ before slot after,
    Path s.ftl.mappingTable (getHashSlot cfg key) (before ++ slot :: after) →
    (∀ t ∈ before, s.creator t ≠ key) → ReadsAs (s.fills slot) (s.creator slot) key →
      s.creator slot = key

/-- What is known of the bytes of each key: those of a free slot are all the same, and a
key is stored over such bytes. -/
structure Filled (cfg : KvConfig) (s : KeyState) : Prop where
  chained : Chained cfg s.ftl.mappingTable
  short : ∀ slot, occupied s.ftl.mappingTable slot = true → (s.creator slot).length ≤ keyRoom
  taken : ∀ slot, occupied s.ftl.mappingTable slot = true →
    (s.ftl.mappingTable slot).key =
      s.creator slot ++ List.replicate (keyRoom - (s.creator slot).length) (s.fills slot)
  free : ∀ slot, occupied s.ftl.mappingTable slot = false →
    (s.ftl.mappingTable slot).key = List.replicate keyRoom (s.fills slot)

section Steps

variable {cfg : KvConfig} {s s' : KeyState} {ftl' : KvFtl} {event : KeyEvent} {slot : Nat}

theorem filled_start (cfg : KvConfig) (storage : Memory) : Filled cfg (startState storage) where
  chained := chained_init cfg storage
  short _ hslot := by cases hslot
  taken _ hslot := by cases hslot
  free _ _ := rfl

/-- What `Filled` says of one slot. -/
structure SlotFilled (s : KeyState) (slot : Nat) : Prop where
  short : occupied s.ftl.mappingTable slot = true → (s.creator slot).length ≤ keyRoom
  taken : occupied s.ftl.mappingTable slot = true → (s.ftl.mappingTable slot).key =
    s.creator slot ++ List.replicate (keyRoom - (s.creator slot).length) (s.fills slot)
  free : occupied s.ftl.mappingTable slot = false →
    (s.ftl.mappingTable slot).key = List.replicate keyRoom (s.fills slot)

theorem Filled.slotFilled (h : Filled cfg s) (slot : Nat) : SlotFilled s slot :=
  ⟨h.short slot, h.taken slot, h.free slot⟩

theorem filled_of_slots (hchained : Chained cfg s.ftl.mappingTable)
    (hslots : ∀ slot, SlotFilled s slot) : Filled cfg s :=
  ⟨hchained, fun slot => (hslots slot).short, fun slot => (hslots slot).taken,
    fun slot => (hslots slot).free⟩

theorem SlotFilled.congr (h : SlotFilled s slot)
    (hlive : occupied s'.ftl.mappingTable slot = occupied s.ftl.mappingTable slot)
    (hkey : (s'.ftl.mappingTable slot).key = (s.ftl.mappingTable slot).key)
    (howner : occupied s.ftl.mappingTable slot = true → s'.creator slot = s.creator slot)
    (hfill : s'.fills slot = s.fills slot) : SlotFilled s' slot where
  short hslot := by
    rw [hlive] at hslot
    rw [howner hslot]
    exact h.short hslot
  taken hslot := by
    rw [hlive] at hslot
    rw [hkey, howner hslot, hfill]
    exact h.taken hslot
  free hslot := by
    rw [hlive] at hslot
    rw [hkey, hfill]
    exact h.free hslot

theorem SlotFilled.insert (h : SlotFilled s slot)
    (hfree : occupied s.ftl.mappingTable slot = false)
    (hlive : occupied s'.ftl.mappingTable slot = true)
    (hshort : (s'.creator slot).length ≤ keyRoom)
    (hkey : (s'.ftl.mappingTable slot).key =
      s'.creator slot ++ ((s.ftl.mappingTable slot).key).drop (s'.creator slot).length)
    (hfill : s'.fills slot = s.fills slot) : SlotFilled s' slot where
  short _ := hshort
  taken _ := by rw [hkey, h.free hfree, List.drop_replicate, hfill]
  free hslot := by
    rw [hlive] at hslot
    cases hslot

theorem Filled.store {store : StoreEvent} {owners : Owners} (h : Filled cfg s)
    (hsized : store.key.length ≤ 16)
    (hstep : storeStep cfg (s.ftl, s.owners) store = .ok (ftl', owners)) :
    Filled cfg { s with ftl := ftl', owners := owners } := by
  obtain ⟨next, hexecute, hstep⟩ := exists_of_bind_eq_ok hstep
  cases hstep
  obtain ⟨value, -, hstored⟩ := execute_stored hexecute
  have hkept : ∀ slot, occupied s.ftl.mappingTable slot = true →
      (recordOwner s.ftl s.owners store slot).1 = s.creator slot := by
    intro slot hslot
    rw [recordOwner_old hslot]
    rfl
  refine filled_of_slots (hstored.chained h.chained) fun slot => ?_
  cases hstored with
  | insert absent inside run =>
      have hwritten : Chained cfg (written s.ftl value).mappingTable := h.chained
      obtain ⟨v, prev, hnew⟩ := hwritten.newMappingEntry_inserted run
      by_cases heq : slot = v
      · subst heq
        have hfree : occupied s.ftl.mappingTable slot = false := hnew.taken.free
        have hcreator : (recordOwner s.ftl s.owners store slot).1 = store.key := by
          rw [recordOwner_new hfree]
        refine (h.slotFilled slot).insert hfree ?_ ?_ ?_ rfl
        · dsimp only
          rw [hnew.taken.live_eq, Function.update_self]
        · rw [KeyState.creator, hcreator]
          exact hsized.trans (by decide)
        · rw [KeyState.creator, hcreator]
          exact hnew.newKey
      · refine (h.slotFilled slot).congr ?_ (hnew.other slot heq).1 (hkept slot) rfl
        dsimp only
        rw [hnew.taken.live_eq, Function.update_of_ne heq]
        rfl
  | @update found offset length lookup place kept =>
      have hentry : (s.ftl.setEntry found
          { s.ftl.mappingTable found with length := length }).mappingTable slot =
          { s.ftl.mappingTable slot with
            length := if slot = found then length else (s.ftl.mappingTable slot).length } := by
        by_cases heq : slot = found
        · rw [heq, KvFtl.setEntry_self, if_pos rfl]
        · rw [KvFtl.setEntry_of_ne _ _ heq, if_neg heq]
      refine (h.slotFilled slot).congr ?_ ?_ (hkept slot) rfl
      · rw [occupied, hentry, occupied]
      · rw [hentry]

theorem Filled.delete (h : Filled cfg s) (d : Nat)
    (hd : occupied s.ftl.mappingTable d = true) :
    Filled cfg { s with
      ftl := s.ftl.setEntry d wipedEntry
      fills := recordFill s.ftl (s.ftl.setEntry d wipedEntry) s.fills } := by
  refine filled_of_slots (h.chained.wiped d) fun slot => ?_
  by_cases heq : slot = d
  · subst heq
    have hfreed : occupied (s.ftl.setEntry slot wipedEntry).mappingTable slot = false := by
      rw [occupied, KvFtl.setEntry_self]
      rfl
    have hfill : recordFill s.ftl (s.ftl.setEntry slot wipedEntry) s.fills slot = 255 := by
      simp [recordFill, hd, hfreed]
    refine ⟨fun hslot => ?_, fun hslot => ?_, fun _ => ?_⟩
    · exact absurd hslot (Bool.eq_false_iff.1 hfreed)
    · exact absurd hslot (Bool.eq_false_iff.1 hfreed)
    · dsimp only
      rw [KvFtl.setEntry_self, hfill]
      rfl
  · have hother : occupied (s.ftl.setEntry d wipedEntry).mappingTable slot =
        occupied s.ftl.mappingTable slot := by
      rw [occupied, KvFtl.setEntry_of_ne _ _ heq, occupied]
    refine (h.slotFilled slot).congr hother ?_ (fun _ => rfl) ?_
    · dsimp only
      rw [KvFtl.setEntry_of_ne _ _ heq]
    · simp [recordFill, hother]

theorem Filled.step (h : Filled cfg s) (hsized : event.key.length ≤ 16)
    (hstep : keyStep cfg s event = .ok s') : Filled cfg s' := by
  cases event with
  | store store =>
      obtain ⟨⟨ftl', owners⟩, hstore, hstep⟩ := exists_of_bind_eq_ok hstep
      cases hstep
      exact h.store hsized hstore
  | delete host cmd status opcode =>
      obtain ⟨reply, hreply, hstep⟩ := exists_of_bind_eq_ok hstep
      cases hstep
      obtain ⟨entry, hentry, -⟩ := exists_of_bind_eq_ok hreply
      obtain ⟨found, hfound, -⟩ := lookupSlot_of_getMappingEntry hentry
      obtain ⟨reply', hreply', hftl⟩ := doPerformKvIo_delete opcode hfound host status
      rw [hreply] at hreply'
      cases hreply'
      rw [hftl]
      cases found with
      | none =>
          have hfills : recordFill s.ftl s.ftl s.fills = s.fills := by
            funext slot
            rw [recordFill, Bool.and_not_self]
            rfl
          rw [withoutSlot, hfills]
          exact h
      | some d =>
          obtain ⟨offset, hoffset, -⟩ := lookupSlot_occupied hfound
          exact h.delete d (occupied_of_memOffset hoffset)

theorem Filled.run {events : List KeyEvent} (h : Filled cfg s)
    (hsized : ∀ event ∈ events, 1 ≤ event.key.length ∧ event.key.length ≤ 16)
    (hrun : events.foldlM (keyStep cfg) s = .ok s') : Filled cfg s' := by
  refine (Outcome.foldlM (E := fun _ => True) h fun event hevent next hnext => ?_).value hrun
  exact .of_value fun after hstep => hnext.step (hsized event hevent).2 hstep

theorem Filled.sameKey_iff (h : Filled cfg s) {key : List UInt8} (hshort : key.length ≤ 16)
    (hslot : occupied s.ftl.mappingTable slot = true) :
    sameKey key (s.ftl.mappingTable slot) = true ↔
      ReadsAs (s.fills slot) (s.creator slot) key := by
  have hcreator := h.short slot hslot
  rw [sameKey, beq_iff_eq, h.taken slot hslot]
  rw [keyRoom] at hcreator ⊢
  exact take_filled_eq_iff (by omega)

end Steps

section Results

variable {cfg : KvConfig} {s : KeyState} {key : List UInt8}

/-- A search ends in the right entry if the first one of the chain that begins like the key
is that of the key. -/
theorem Filled.foundExactly_iff_find (h : Filled cfg s) {xs : List Nat}
    (hpath : Path s.ftl.mappingTable (getHashSlot cfg key) xs) :
    FoundExactly cfg s key ↔
      ∀ slot, (xs.find? fun t => sameKey key (s.ftl.mappingTable t)) = some slot →
        s.creator slot = key := by
  have hlookup := h.chained.lookupSlot_eq hpath
  constructor
  · intro hexact slot hfind
    rw [hfind] at hlookup
    obtain ⟨offset, hoffset, -⟩ := lookupSlot_occupied hlookup
    obtain ⟨slot', hslot', -, hcreator⟩ :=
      hexact _ (getMappingEntry_of_lookupSlot hlookup) (by simp [foundEntry, hoffset])
    rw [hlookup] at hslot'
    cases hslot'
    exact hcreator
  · intro hexact entry hentry hoffset
    obtain ⟨found, hfound, rfl⟩ := lookupSlot_of_getMappingEntry hentry
    cases found with
    | none => exact absurd rfl hoffset
    | some slot =>
        rw [hfound] at hlookup
        exact ⟨slot, hfound, rfl, hexact slot (Except.ok.inj hlookup).symm⟩

theorem Filled.foundExactly_iff (h : Filled cfg s) (hshort : key.length ≤ 16) :
    FoundExactly cfg s key ↔ NoLookalike cfg s key := by
  obtain ⟨xs, hpath⟩ := h.chained.paths (getHashSlot cfg key)
  rw [h.foundExactly_iff_find hpath]
  constructor
  · intro hexact before slot after hpath' hbefore hreads
    obtain rfl := hpath'.unique hpath
    have hsame : sameKey key (s.ftl.mappingTable slot) = true :=
      (h.sameKey_iff hshort (hpath.live_of_mem (by simp))).2 hreads
    -- the search stops here or earlier, and earlier it does not stop at the key itself
    cases hfind : before.find? fun t => sameKey key (s.ftl.mappingTable t) with
    | some t =>
        have hcreator := hexact t (by rw [List.find?_append, hfind]; rfl)
        exact absurd hcreator (hbefore t (List.mem_of_find?_eq_some hfind))
    | none =>
        refine hexact slot ?_
        rw [List.find?_append, hfind, Option.none_or]
        exact List.find?_cons_of_pos hsame
  · intro hnone slot hfind
    obtain ⟨hsame, before, after, rfl, hbefore⟩ := List.find?_eq_some_iff_append.1 hfind
    have hreads := (h.sameKey_iff hshort (hpath.live_of_mem (by simp))).1 hsame
    refine hnone before slot after hpath ?_ hreads
    intro t ht hcreator
    have hmiss := hbefore t ht
    have hself : sameKey key (s.ftl.mappingTable t) = true := by
      refine (h.sameKey_iff hshort (hpath.live_of_mem (by simp [ht]))).2 ?_
      rw [hcreator]
      exact readsAs_self _ key
    rw [hself] at hmiss
    cases hmiss

theorem noLookalike_of_same_length
    (hlength : ∀ slot, occupied s.ftl.mappingTable slot = true →
      (s.creator slot).length = key.length) : NoLookalike cfg s key := by
  intro before slot after hpath _ hreads
  have hlive := hpath.live_of_mem (List.mem_append_right before List.mem_cons_self)
  exact (eq_of_readsAs hreads (hlength slot hlive).symm).symm

end Results

/-- After all runs of stores and deletes a search takes no entry for that of another key
if and only if the chain of its home slot has none that reads as its key. -/
theorem found_keys_exact_iff (cfg : KvConfig) (storage : Memory) {events : List KeyEvent}
    {s : KeyState} (hsized : ∀ event ∈ events, 1 ≤ event.key.length ∧ event.key.length ≤ 16)
    (hrun : events.foldlM (keyStep cfg) (startState storage) = .ok s) (key : KvKey) :
    FoundExactly cfg s key.bytes ↔ NoLookalike cfg s key.bytes :=
  ((filled_start cfg storage).run hsized hrun).foundExactly_iff key.inlined

/-- The key `heq5x`. -/
def longKey : KvKey := ⟨[104, 101, 113, 53, 120], by decide, by decide⟩

/-- The key `h`, which has the same home slot. -/
def shortKey : KvKey := ⟨[104], by decide, by decide⟩

example : getHashSlot builtConfig longKey.bytes = getHashSlot builtConfig shortKey.bytes := by
  decide +kernel

def storeLongKey : KeyEvent := .store (storeWords longKey 1 7)

theorem found_keys_exact_iff_long_key :
    ∃ s slot, lookupSlot builtConfig s.ftl shortKey.bytes =
        .ok (some (getHashSlot builtConfig longKey.bytes)) ∧
      slot ≠ getHashSlot builtConfig longKey.bytes ∧
      lookupSlot builtConfig s.ftl longKey.bytes = .ok (some slot) ∧
      (FoundExactly builtConfig s longKey.bytes ↔ NoLookalike builtConfig s longKey.bytes) := by
  let home := getHashSlot builtConfig longKey.bytes
  let test (s : KeyState) : Bool :=
    (returns (lookupSlot builtConfig s.ftl shortKey.bytes) fun found => found == some home) &&
      returns (lookupSlot builtConfig s.ftl longKey.bytes) fun found => found == some (home + 1)
  obtain ⟨s, hrun, htest⟩ :
      ∃ s, [.store (storeWords shortKey 1 7), storeLongKey].foldlM (keyStep builtConfig)
        (startState fun _ => 0) = .ok s ∧ test s = true :=
    exists_of_returns (by decide +kernel)
  simp only [test, Bool.and_eq_true] at htest
  obtain ⟨found, hshort, hfound⟩ := exists_of_returns htest.1
  obtain ⟨found', hlong, hfound'⟩ := exists_of_returns htest.2
  rw [beq_iff_eq] at hfound hfound'
  subst hfound hfound'
  exact ⟨s, home + 1, hshort, Nat.succ_ne_self home, hlong,
    found_keys_exact_iff builtConfig (fun _ => 0) (by decide) hrun longKey⟩

/-- With only `heq5x` stored, the search for `h` finds an entry. -/
theorem short_key_found_for_long_key :
    ∃ s, [storeLongKey].foldlM (keyStep builtConfig) (startState fun _ => 0) = .ok s ∧
      ¬FoundExactly builtConfig s shortKey.bytes := by
  let home := getHashSlot builtConfig shortKey.bytes
  let test (s : KeyState) : Bool :=
    returns (getMappingEntry builtConfig s.ftl shortKey.bytes) (fun entry =>
      entry.memOffset.isSome) &&
    (returns (lookupSlot builtConfig s.ftl shortKey.bytes) fun found => found == some home) &&
    s.creator home == longKey.bytes
  obtain ⟨s, hrun, htest⟩ :
      ∃ s, [storeLongKey].foldlM (keyStep builtConfig) (startState fun _ => 0) = .ok s ∧
        test s = true :=
    exists_of_returns (by decide +kernel)
  simp only [test, Bool.and_eq_true, beq_iff_eq] at htest
  obtain ⟨⟨hentry, hlookup⟩, hcreator⟩ := htest
  obtain ⟨entry, hentry, hoffset⟩ := exists_of_returns hentry
  obtain ⟨found, hlookup, hfound⟩ := exists_of_returns hlookup
  rw [beq_iff_eq] at hfound
  subst hfound
  refine ⟨s, hrun, ?_⟩
  intro hexact
  obtain ⟨slot, hslot, -, hkey⟩ := hexact entry hentry (Option.isSome_iff_ne_none.1 hoffset)
  rw [hlookup] at hslot
  cases hslot
  rw [hcreator] at hkey
  revert hkey
  decide

end NvmeVirt.KeyValueKeys
