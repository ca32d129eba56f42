import Mathlib.Data.List.TakeWhile
import NvmeVirt.KeyValueSteps

namespace NvmeVirt.KeyValueDeletion

open ByteMemory
open CoalescedChains
open FaultOutcome
open KeyValueChains
open KeyValueFtl
open KeyValueSteps
open PrpTransfer
open Relation

/-- Of all keys of its length, only `key` is gone. -/
def DeletedOnly (cfg : KvConfig) (ftl ftl' : KvFtl) (key : List UInt8) : Prop :=
  getMappingEntry cfg ftl' key = .ok wipedEntry ∧
    ∀ key', key'.length = key.length → key' ≠ key →
      getMappingEntry cfg ftl' key' = getMappingEntry cfg ftl key'

/-- The chain from the home slot of `key'` comes by `slot` before it reaches the
slot that holds `key'`. -/
def ReachedThrough (cfg : KvConfig) (ftl : KvFtl) (slot : Nat) (key' : List UInt8) : Prop :=
  ∃ before slot' after,
    Path ftl.mappingTable (getHashSlot cfg key') (before ++ slot' :: after) ∧
      lookupSlot cfg ftl key' = .ok (some slot') ∧ slot ∈ before

/-- No other stored key is reached through the slot of `key`. -/
def Bypassed (cfg : KvConfig) (ftl : KvFtl) (key : List UInt8) : Prop :=
  ∀ slot, lookupSlot cfg ftl key = .ok (some slot) →
    ∀ key', key'.length = key.length → key' ≠ key → ¬ReachedThrough cfg ftl slot key'

section Wiped

variable {cfg : KvConfig} {ftl : KvFtl} {key key' : List UInt8} {d s : Nat}
  {xs before after : List Nat}

theorem eq_of_sameKey {entry : MappingEntry} (h : sameKey key entry = true)
    (h' : sameKey key' entry = true) (hlength : key'.length = key.length) : key' = key := by
  simp only [sameKey, beq_iff_eq] at h h'
  rw [← h, ← h', hlength]

theorem split_of_find (h : (xs.find? fun t => sameKey key (ftl.mappingTable t)) = some s) :
    sameKey key (ftl.mappingTable s) = true ∧ ∃ before after, xs = before ++ s :: after ∧
      ∀ t ∈ before, sameKey key (ftl.mappingTable t) = false := by
  obtain ⟨hsame, before, after, hsplit, hbefore⟩ := List.find?_eq_some_iff_append.1 h
  exact ⟨hsame, before, after, hsplit, fun t ht => by simpa using hbefore t ht⟩

theorem sameKey_wiped {t : Nat} (h : t ≠ d) :
    sameKey key ((ftl.setEntry d wipedEntry).mappingTable t) =
      sameKey key (ftl.mappingTable t) := by
  rw [KvFtl.setEntry_of_ne _ _ h]

theorem mem_of_mem_takeWhile {t : Nat} (h : t ∈ xs.takeWhile (· ≠ d)) : t ∈ xs ∧ t ≠ d := by
  refine ⟨(List.takeWhile_sublist _).subset h, ?_⟩
  simpa using List.mem_takeWhile_imp h

theorem takeWhile_subset (hsplit : xs = before ++ s :: after) (hd : d ∈ before ∨ d = s) :
    ∀ t ∈ xs.takeWhile (· ≠ d), t ∈ before := by
  intro t ht
  rw [hsplit, List.takeWhile_append] at ht
  split at ht
  · next hall =>
    have hbefore : before.takeWhile (· ≠ d) = before :=
      ( List.takeWhile_prefix _).eq_of_length hall
    rcases hd with hd | rfl
    · rw [← hbefore] at hd
      exact absurd rfl (mem_of_mem_takeWhile hd).2
    · rwa [List.takeWhile_cons_of_neg (by simp), List.append_nil] at ht
  · exact (mem_of_mem_takeWhile ht).1

theorem sameKey_before (hnodup : (before ++ s :: after).Nodup)
    (hfind : ((before ++ s :: after).find? fun t => sameKey key (ftl.mappingTable t)) = some s) :
    ∀ t ∈ before, sameKey key (ftl.mappingTable t) = false := by
  rw [List.find?_append] at hfind
  cases hfront : before.find? fun t => sameKey key (ftl.mappingTable t) with
  | none =>
      intro t ht
      simpa using List.find?_eq_none.1 hfront t ht
  | some t =>
      rw [hfront] at hfind
      cases hfind
      have hmem := List.mem_of_find?_eq_some hfront
      exact absurd rfl ((List.nodup_append.1 hnodup).2.2 s hmem s List.mem_cons_self)

theorem getMappingEntry_wiped (h : Chained cfg ftl.mappingTable)
    (hpath : Path ftl.mappingTable (getHashSlot cfg key) xs)
    (hmiss : ∀ t ∈ xs.takeWhile (· ≠ d), sameKey key (ftl.mappingTable t) = false) :
    getMappingEntry cfg (ftl.setEntry d wipedEntry) key = .ok wipedEntry := by
  rw [(h.wiped d).getMappingEntry_eq (path_wiped hpath d)]
  have hnone : (xs.takeWhile (· ≠ d)).find? (fun t => sameKey key
      ((ftl.setEntry d wipedEntry).mappingTable t)) = none := by
    rw [List.find?_eq_none]
    intro t ht
    rw [sameKey_wiped (mem_of_mem_takeWhile ht).2, hmiss t ht]
    exact Bool.false_ne_true
  rw [hnone]
  rfl

theorem getMappingEntry_kept (h : Chained cfg ftl.mappingTable)
    (hpath : Path ftl.mappingTable (getHashSlot cfg key) xs)
    (hd : sameKey key (ftl.mappingTable d) = false)
    (hbypassed : ∀ before s after, xs = before ++ s :: after →
      (xs.find? fun t => sameKey key (ftl.mappingTable t)) = some s → d ∉ before) :
    getMappingEntry cfg (ftl.setEntry d wipedEntry) key = getMappingEntry cfg ftl key := by
  rw [h.getMappingEntry_eq hpath]
  cases hfind : xs.find? fun t => sameKey key (ftl.mappingTable t) with
  | none =>
      refine getMappingEntry_wiped h hpath ?_
      intro t ht
      have hmiss := List.find?_eq_none.1 hfind t (mem_of_mem_takeWhile ht).1
      simpa using hmiss
  | some s =>
      obtain ⟨hsame, before, after, hsplit, hbefore⟩ := split_of_find hfind
      have hnot : d ∉ before := hbypassed before s after hsplit hfind
      have hne : s ≠ d := by
        rintro rfl
        rw [hd] at hsame
        cases hsame
      rw [(h.wiped d).getMappingEntry_eq (path_wiped hpath d)]
      have hkept : xs.takeWhile (· ≠ d) = before ++ s :: after.takeWhile (· ≠ d) := by
        rw [hsplit, List.takeWhile_append_of_pos, List.takeWhile_cons_of_pos (by simpa using hne)]
        intro t ht
        simp only [ne_eq, decide_eq_true_eq]
        rintro rfl
        exact hnot ht
      have hfound : (xs.takeWhile (· ≠ d)).find? (fun t => sameKey key
          ((ftl.setEntry d wipedEntry).mappingTable t)) = some s := by
        rw [hkept, List.find?_eq_some_iff_append]
        refine ⟨by rw [sameKey_wiped hne]; exact hsame, before, _, rfl, ?_⟩
        intro t ht
        have htd : t ≠ d := by
          rintro rfl
          exact hnot ht
        rw [sameKey_wiped htd, hbefore t ht]
        rfl
      rw [hfound]
      simp only [foundEntry, KvFtl.setEntry_of_ne _ _ hne]

/-- Wiping the slot of a key deletes this key only if and only if no other stored
key is reached through it. -/
theorem deletedOnly_wiped_iff (h : Chained cfg ftl.mappingTable)
    (hfound : lookupSlot cfg ftl key = .ok (some d)) :
    DeletedOnly cfg ftl (ftl.setEntry d wipedEntry) key ↔ Bypassed cfg ftl key := by
  obtain ⟨xs, hpath⟩ := h.paths (getHashSlot cfg key)
  have hfind : (xs.find? fun t => sameKey key (ftl.mappingTable t)) = some d := by
    rw [h.lookupSlot_eq hpath] at hfound
    exact Except.ok.inj hfound
  obtain ⟨hsame, before, after, hsplit, hbefore⟩ := split_of_find hfind
  constructor
  · rintro ⟨-, hothers⟩ slot hslot key' hlength hne ⟨before', s', after', hpath', hfound', hd⟩
    rw [hfound] at hslot
    cases hslot
    have hgone : getMappingEntry cfg (ftl.setEntry d wipedEntry) key' = .ok wipedEntry := by
      refine getMappingEntry_wiped h hpath' ?_
      intro t ht
      rw [h.lookupSlot_eq hpath'] at hfound'
      exact sameKey_before hpath'.nodup (Except.ok.inj hfound') t
        (takeWhile_subset rfl (.inl hd) t ht)
    rw [hothers key' hlength hne, getMappingEntry_of_lookupSlot hfound'] at hgone
    obtain ⟨offset, hoffset, -⟩ := lookupSlot_occupied hfound'
    have hnone := congrArg MappingEntry.memOffset (Except.ok.inj hgone)
    simp [foundEntry, hoffset, wipedEntry] at hnone
  · intro hbypassed
    refine ⟨?_, ?_⟩
    · refine getMappingEntry_wiped h hpath ?_
      intro t ht
      exact hbefore t (takeWhile_subset hsplit (.inr rfl) t ht)
    · intro key' hlength hne
      obtain ⟨ys, hpath'⟩ := h.paths (getHashSlot cfg key')
      refine getMappingEntry_kept h hpath' ?_ ?_
      · cases hsame' : sameKey key' (ftl.mappingTable d) with
        | false => rfl
        | true => exact absurd (eq_of_sameKey hsame hsame' hlength) hne
      · intro before' s' after' hsplit' hfind' hd
        refine hbypassed d hfound key' hlength hne ⟨before', s', after', ?_, ?_, hd⟩
        · rw [← hsplit']
          exact hpath'
        · rw [h.lookupSlot_eq hpath', hfind']

end Wiped

/-- In every table that commands can build, a `kv_delete` returns, and it deletes
its own key only if and only if no other stored key is reached through the slot of
that key. -/
theorem delete_local_iff (cfg : KvConfig) (storage : Memory) {ftl : KvFtl}
    (hrun : ReflTransGen (Executes cfg) (initNamespace storage) ftl) (host : Memory)
    (cmd : KvCommand) (hop : cmd.opcode = .delete) (status : Nat) :
    ∃ reply, doPerformKvIo cfg host ftl cmd status = .ok reply ∧
      (DeletedOnly cfg ftl reply.ftl cmd.key.bytes ↔ Bypassed cfg ftl cmd.key.bytes) := by
  have hchained := chained_of_executes hrun
  obtain ⟨xs, hpath⟩ := hchained.paths (getHashSlot cfg cmd.key.bytes)
  obtain ⟨found, hlookup⟩ : ∃ found, lookupSlot cfg ftl cmd.key.bytes = .ok found :=
    ⟨_, hchained.lookupSlot_eq hpath⟩
  obtain ⟨reply, hreply, hftl⟩ := doPerformKvIo_delete hop hlookup host status
  refine ⟨reply, hreply, ?_⟩
  rw [hftl]
  cases found with
  | none =>
      constructor
      · intro _ slot hslot
        rw [hlookup] at hslot
        cases hslot
      · intro _
        refine ⟨?_, fun _ _ _ => rfl⟩
        exact getMappingEntry_of_lookupSlot hlookup
  | some slot => exact deletedOnly_wiped_iff hchained hlookup

example : getHashSlot builtConfig firstKey.bytes = getHashSlot builtConfig secondKey.bytes := by
  decide +kernel

def command (opcode : KvOpcode) (key : KvKey) : KvIoCommand :=
  .io { opcode := opcode, key := key, valueLen := 1, dptr := ⟨4096, 8192⟩ }

def execute (ftl : KvFtl) (cmd : KvIoCommand) : Except WriteBuffer.Fault KvFtl := do
  let reply ← kvPerformNvmeIoCmd builtConfig (fun _ => 7) ftl cmd 0
  return reply.ftl

theorem executes_of_execute {ftl ftl' : KvFtl} {cmd : KvIoCommand}
    (h : execute ftl cmd = .ok ftl') : Executes builtConfig ftl ftl' := by
  obtain ⟨reply, hreply, h⟩ := exists_of_bind_eq_ok h
  cases h
  exact ⟨_, cmd, 0, reply, hreply, rfl⟩

/-- Deleting the key that was stored first loses the second one. -/
theorem delete_loses_other_key :
    ∃ ftl reply, ReflTransGen (Executes builtConfig) (initNamespace fun _ => 0) ftl ∧
      kvPerformNvmeIoCmd builtConfig (fun _ => 7) ftl (command .delete firstKey) 0 = .ok reply ∧
      ¬DeletedOnly builtConfig ftl reply.ftl firstKey.bytes := by
  let found (ftl : KvFtl) : Bool :=
    returns (getMappingEntry builtConfig ftl secondKey.bytes) fun entry => entry.memOffset.isSome
  let test (ftl : KvFtl) : Bool :=
    found ftl && returns (kvPerformNvmeIoCmd builtConfig (fun _ => 7) ftl
      (command .delete firstKey) 0) fun reply => !found reply.ftl
  obtain ⟨ftl, hrun, htest⟩ :
      ∃ ftl, [command .store firstKey, command .store secondKey].foldlM execute
        (initNamespace fun _ => 0) = .ok ftl ∧ test ftl = true :=
    exists_of_returns (by decide +kernel)
  simp only [test, Bool.and_eq_true] at htest
  obtain ⟨hbefore, hafter⟩ := htest
  obtain ⟨reply, hreply, hlost⟩ := exists_of_returns hafter
  refine ⟨ftl, reply, reflTransGen_of_foldlM _ (fun _ _ _ _ h => executes_of_execute h) hrun,
    hreply, ?_⟩
  rintro ⟨-, hothers⟩
  have hsame := hothers secondKey.bytes rfl (by decide)
  simp only [found, hsame, Bool.not_eq_true'] at hbefore hlost
  rw [hbefore] at hlost
  cases hlost

theorem delete_local_iff_last_key :
    ∃ ftl reply, ReflTransGen (Executes builtConfig) (initNamespace fun _ => 0) ftl ∧
      doPerformKvIo builtConfig (fun _ => 7) ftl
        { opcode := .delete, key := secondKey, valueLen := 1, dptr := ⟨4096, 8192⟩ } 0 =
          .ok reply ∧
      (DeletedOnly builtConfig ftl reply.ftl secondKey.bytes ↔
        Bypassed builtConfig ftl secondKey.bytes) := by
  obtain ⟨ftl, hrun, -⟩ :
      ∃ ftl, [command .store firstKey, command .store secondKey].foldlM execute
        (initNamespace fun _ => 0) = .ok ftl ∧ true = true :=
    exists_of_returns (p := fun _ => true) (by decide +kernel)
  have hreach : ReflTransGen (Executes builtConfig) (initNamespace fun _ => 0) ftl :=
    reflTransGen_of_foldlM _ (fun _ _ _ _ h => executes_of_execute h) hrun
  obtain ⟨reply, hreply, hiff⟩ := delete_local_iff builtConfig (fun _ => 0) hreach (fun _ => 7)
    { opcode := .delete, key := secondKey, valueLen := 1, dptr := ⟨4096, 8192⟩ } rfl 0
  exact ⟨ftl, reply, hreach, hreply, hiff⟩

end NvmeVirt.KeyValueDeletion
