import NvmeVirt.CoalescedChains
import NvmeVirt.KeyValueFtl

namespace NvmeVirt.KeyValueChains

open CoalescedChains
open FaultOutcome
open KeyValueFtl
open WriteBuffer

def occupied (table : Nat → MappingEntry) (slot : Nat) : Bool :=
  (table slot).memOffset.isSome

def links (table : Nat → MappingEntry) (slot : Nat) : Option Nat := (table slot).nextSlot

/-- The slots a search from `slot` goes through. -/
abbrev Path (table : Nat → MappingEntry) (slot : Nat) (xs : List Nat) : Prop :=
  Trail (occupied table) (links table) slot xs

/-- Every search in the table ends, and a free slot ends a chain. -/
structure Chained (cfg : KvConfig) (table : Nat → MappingEntry) : Prop where
  paths : ∀ slot, ∃ xs, Path table slot xs
  inside : ∀ slot slot', links table slot = some slot' → slot' < cfg.hashSlots
  unlinked : ∀ slot, occupied table slot = false → links table slot = none

section Search

variable {cfg : KvConfig} {table : Nat → MappingEntry} {slot : Nat} {xs : List Nat}
  {key : List UInt8}

theorem occupied_eq_false : occupied table slot = false ↔ (table slot).memOffset = none := by
  rw [occupied, Option.isSome_eq_false_iff, Option.isNone_iff_eq_none]

theorem memOffset_ne_none (h : occupied table slot = true) : (table slot).memOffset ≠ none := by
  intro hnone
  rw [occupied_eq_false.2 hnone] at h
  cases h

theorem getHashSlot_lt (cfg : KvConfig) (key : List UInt8) :
    getHashSlot cfg key < cfg.hashSlots := Nat.mod_lt _ cfg.hasSlots

theorem Chained.length_le (h : Chained cfg table) (hpath : Path table slot xs)
    (hslot : slot < cfg.hashSlots) : xs.length ≤ cfg.hashSlots :=
  hpath.length_le hslot h.inside

theorem searchSlot_eq {fuel : Nat} (h : Path table slot xs) (hfuel : xs.length < fuel) :
    searchSlot table key fuel slot = .ok (xs.find? fun t => sameKey key (table t)) := by
  induction h generalizing fuel with
  | free hfree =>
      obtain ⟨fuel, rfl⟩ := Nat.exists_eq_succ_of_ne_zero (Nat.ne_of_gt hfuel)
      rw [searchSlot, if_pos (occupied_eq_false.1 hfree)]
      rfl
  | @last s hlive hend =>
      obtain ⟨fuel, rfl⟩ := Nat.exists_eq_succ_of_ne_zero (Nat.ne_of_gt (Nat.zero_lt_of_lt hfuel))
      have hnext : (table s).nextSlot = none := hend
      rw [searchSlot, if_neg (memOffset_ne_none hlive), hnext, List.find?_singleton]
      cases sameKey key (table s) <;> rfl
  | @link s t rest hlive hlink _ ih =>
      obtain ⟨fuel, rfl⟩ := Nat.exists_eq_succ_of_ne_zero (Nat.ne_of_gt (Nat.zero_lt_of_lt hfuel))
      have hnext : (table s).nextSlot = some t := hlink
      have hrest := ih (Nat.lt_of_succ_lt_succ hfuel)
      rw [searchSlot, if_neg (memOffset_ne_none hlive), hnext, List.find?_cons]
      cases sameKey key (table s) with
      | true => rfl
      | false => exact hrest

theorem Chained.lookupSlot_eq {ftl : KvFtl} (h : Chained cfg ftl.mappingTable)
    (hpath : Path ftl.mappingTable (getHashSlot cfg key) xs) :
    lookupSlot cfg ftl key = .ok (xs.find? fun t => sameKey key (ftl.mappingTable t)) :=
  searchSlot_eq hpath (Nat.lt_succ_of_le (h.length_le hpath (getHashSlot_lt cfg key)))

/-- `get_mapping_entry` on the outcome of the search. -/
def foundEntry (table : Nat → MappingEntry) (key : List UInt8) : Option Nat → MappingEntry
  | none => wipedEntry
  | some slot =>
      { table slot with
        key := (table slot).key.take key.length ++ wipedEntry.key.drop key.length }

theorem Chained.getMappingEntry_eq {ftl : KvFtl} (h : Chained cfg ftl.mappingTable)
    (hpath : Path ftl.mappingTable (getHashSlot cfg key) xs) :
    getMappingEntry cfg ftl key = .ok (foundEntry ftl.mappingTable key
      (xs.find? fun t => sameKey key (ftl.mappingTable t))) := by
  rw [getMappingEntry, h.lookupSlot_eq hpath, ok_bind]
  cases xs.find? fun t => sameKey key (ftl.mappingTable t) <;> rfl

end Search

section NextSlot

variable {cfg : KvConfig} {table : Nat → MappingEntry} {slot : Nat} {xs : List Nat}

theorem findTail_ok {fuel : Nat} (h : Path table slot xs) (hlive : occupied table slot = true)
    (hfuel : xs.length ≤ fuel) :
    ∃ u, findTail table fuel slot = .ok u ∧ u ∈ xs ∧
      ∀ t, links table u = some t → occupied table t = false := by
  induction h generalizing fuel with
  | free hfree =>
      rw [hlive] at hfree
      cases hfree
  | @last s _ hend =>
      obtain ⟨fuel, rfl⟩ := Nat.exists_eq_succ_of_ne_zero (Nat.ne_of_gt hfuel)
      have hnext : (table s).nextSlot = none := hend
      refine ⟨s, by rw [findTail, hnext], List.mem_singleton.2 rfl, ?_⟩
      intro t ht
      rw [hend] at ht
      cases ht
  | @link s t rest _ hlink hrest ih =>
      obtain ⟨fuel, rfl⟩ := Nat.exists_eq_succ_of_ne_zero (Nat.ne_of_gt (Nat.zero_lt_of_lt hfuel))
      have hnext : (table s).nextSlot = some t := hlink
      cases hoccupied : occupied table t with
      | false =>
          refine ⟨s, ?_, List.mem_cons_self, ?_⟩
          · rw [findTail, hnext]
            exact if_pos (occupied_eq_false.1 hoccupied)
          · intro t' ht'
            rw [hlink] at ht'
            cases ht'
            exact hoccupied
      | true =>
          obtain ⟨u, hrun, hmem, htail⟩ := ih hoccupied (Nat.le_of_succ_le_succ hfuel)
          refine ⟨u, ?_, List.mem_cons_of_mem _ hmem, htail⟩
          rw [findTail, hnext]
          exact (if_neg (memOffset_ne_none hoccupied)).trans hrun

theorem probeSlot_free {fuel v : Nat} (h : probeSlot cfg table fuel slot = .ok v)
    (hslot : slot < cfg.hashSlots) : occupied table v = false ∧ v < cfg.hashSlots := by
  induction fuel generalizing slot with
  | zero => cases h
  | succ fuel ih =>
      rw [probeSlot] at h
      split at h
      · next hfree =>
        cases h
        exact ⟨occupied_eq_false.2 hfree, hslot⟩
      · refine ih h ?_
        split
        · exact cfg.hasSlots
        · omega

theorem probeSlot_ok {fuel i : Nat} (hslot : slot < cfg.hashSlots) (hi : i < fuel)
    (hfree : occupied table ((slot + i) % cfg.hashSlots) = false) :
    ∃ v, probeSlot cfg table fuel slot = .ok v := by
  induction fuel generalizing slot i with
  | zero => cases hi
  | succ fuel ih =>
      rw [probeSlot]
      split
      · exact ⟨slot, rfl⟩
      · next hlive =>
        have hpos : i ≠ 0 := by
          rintro rfl
          rw [Nat.add_zero, Nat.mod_eq_of_lt hslot] at hfree
          exact hlive (occupied_eq_false.1 hfree)
        obtain ⟨j, rfl⟩ := Nat.exists_eq_succ_of_ne_zero hpos
        by_cases hwrap : cfg.hashSlots ≤ slot + 1
        · rw [if_pos hwrap]
          have hlast : slot + (j + 1) = j + cfg.hashSlots := by omega
          rw [hlast, Nat.add_mod_right] at hfree
          exact ih cfg.hasSlots (Nat.lt_of_succ_lt_succ hi) (by rwa [Nat.zero_add])
        · rw [if_neg hwrap]
          refine ih (by omega) (Nat.lt_of_succ_lt_succ hi) ?_
          rwa [Nat.add_assoc, Nat.add_comm 1 j]

theorem probeSlot_of_free {v : Nat} (hslot : slot < cfg.hashSlots) (hv : v < cfg.hashSlots)
    (hfree : occupied table v = false) :
    ∃ v', probeSlot cfg table (cfg.hashSlots + 1) slot = .ok v' := by
  refine probeSlot_ok (i := (v + cfg.hashSlots - slot) % cfg.hashSlots) hslot ?_ ?_
  · exact Nat.lt_succ_of_lt (Nat.mod_lt _ cfg.hasSlots)
  · have hsum : slot + (v + cfg.hashSlots - slot) = v + cfg.hashSlots := by omega
    rw [Nat.add_mod_mod, hsum, Nat.add_mod_right, Nat.mod_eq_of_lt hv]
    exact hfree

end NextSlot

/-- What `new_mapping_entry` does to the device: slot `v` holds the key, and the
chain that ended in `prev` now ends there. -/
structure Inserted (cfg : KvConfig) (ftl ftl' : KvFtl) (key : List UInt8)
    (valLen valOffset v : Nat) (prev : Option Nat) : Prop where
  latest : ftl'.latest = ftl.latest
  storage : ftl'.storage = ftl.storage
  inside : v < cfg.hashSlots
  fits : valOffset < cfg.storageSize
  taken : Taken (occupied ftl.mappingTable) (links ftl.mappingTable)
    (occupied ftl'.mappingTable) (links ftl'.mappingTable) prev v
  newKey : (ftl'.mappingTable v).key = key ++ (ftl.mappingTable v).key.drop key.length
  newOffset : (ftl'.mappingTable v).memOffset = some valOffset
  newLength : (ftl'.mappingTable v).length = valLen
  other : ∀ t, t ≠ v → (ftl'.mappingTable t).key = (ftl.mappingTable t).key ∧
    (ftl'.mappingTable t).memOffset = (ftl.mappingTable t).memOffset ∧
    (ftl'.mappingTable t).length = (ftl.mappingTable t).length
  home : prev = none → v = getHashSlot cfg key
  prev_mem : ∀ u, prev = some u →
    ∃ xs, Path ftl.mappingTable (getHashSlot cfg key) xs ∧ u ∈ xs

section Insert

variable {cfg : KvConfig} {ftl ftl' : KvFtl} {key : List UInt8} {valLen valOffset : Nat}

theorem inserted_home (h : Chained cfg ftl.mappingTable)
    (hfree : occupied ftl.mappingTable (getHashSlot cfg key) = false)
    (hfits : valOffset < cfg.storageSize) :
    Inserted cfg ftl (fillEntry ftl (getHashSlot cfg key) key valLen valOffset) key valLen
      valOffset (getHashSlot cfg key) none := by
  set v := getHashSlot cfg key with hv
  have hself : (fillEntry ftl v key valLen valOffset).mappingTable v = _ :=
    Function.update_self _ _ _
  have hother : ∀ t, t ≠ v → (fillEntry ftl v key valLen valOffset).mappingTable t =
      ftl.mappingTable t := fun t ht => Function.update_of_ne ht _ _
  refine ⟨rfl, rfl, getHashSlot_lt cfg key, hfits, ⟨hfree, h.unlinked v hfree, ?_, ?_, ?_⟩,
    by rw [hself], by rw [hself], by rw [hself], ?_, fun _ => rfl, by simp⟩
  · funext t
    by_cases heq : t = v
    · rw [heq, Function.update_self, occupied, hself]
      rfl
    · rw [Function.update_of_ne heq, occupied, hother t heq, occupied]
  · intro t
    rw [if_neg (by simp), links]
    by_cases heq : t = v
    · rw [heq, hself]
      rfl
    · rw [hother t heq]
      rfl
  · simp
  · intro t ht
    rw [hother t ht]
    exact ⟨rfl, rfl, rfl⟩

theorem inserted_linked {u v : Nat} {xs : List Nat} (h : Chained cfg ftl.mappingTable)
    (hpath : Path ftl.mappingTable (getHashSlot cfg key) xs) (hu : u ∈ xs)
    (htail : ∀ t, links ftl.mappingTable u = some t → occupied ftl.mappingTable t = false)
    (hfree : occupied ftl.mappingTable v = false) (hv : v < cfg.hashSlots)
    (hfits : valOffset < cfg.storageSize) :
    Inserted cfg ftl (chainMapping (fillEntry ftl v key valLen valOffset) u v) key valLen
      valOffset v (some u) := by
  have hlive : occupied ftl.mappingTable u = true := hpath.live_of_mem hu
  have hne : v ≠ u := by
    rintro rfl
    rw [hfree] at hlive
    cases hlive
  have hself : (chainMapping (fillEntry ftl v key valLen valOffset) u v).mappingTable v =
      { ftl.mappingTable v with
        key := key ++ (ftl.mappingTable v).key.drop key.length
        memOffset := some valOffset
        length := valLen } := by
    refine (Function.update_of_ne hne _ _).trans ?_
    exact Function.update_self _ _ _
  have hprev : (chainMapping (fillEntry ftl v key valLen valOffset) u v).mappingTable u =
      { ftl.mappingTable u with nextSlot := some v } := by
    refine (Function.update_self _ _ _).trans ?_
    have hkept : (fillEntry ftl v key valLen valOffset).mappingTable u = ftl.mappingTable u :=
      Function.update_of_ne (Ne.symm hne) _ _
    rw [hkept]
  have hother : ∀ t, t ≠ v → t ≠ u →
      (chainMapping (fillEntry ftl v key valLen valOffset) u v).mappingTable t =
        ftl.mappingTable t := by
    intro t htv htu
    refine (Function.update_of_ne htu _ _).trans ?_
    exact Function.update_of_ne htv _ _
  refine ⟨rfl, rfl, hv, hfits, ⟨hfree, h.unlinked v hfree, ?_, ?_, ?_⟩,
    by rw [hself], by rw [hself], by rw [hself], ?_, by simp, ?_⟩
  · funext t
    by_cases htv : t = v
    · rw [htv, Function.update_self, occupied, hself]
      rfl
    · rw [Function.update_of_ne htv, occupied]
      by_cases htu : t = u
      · rw [htu, hprev, occupied]
      · rw [hother t htv htu, occupied]
  · intro t
    rw [links]
    by_cases htu : t = u
    · rw [htu, hprev, if_pos rfl]
    · rw [if_neg (by simpa using Ne.symm htu)]
      by_cases htv : t = v
      · rw [htv, hself]
        rfl
      · rw [hother t htv htu]
        rfl
  · intro w hw
    cases hw
    exact ⟨hlive, htail⟩
  · intro t htv
    by_cases htu : t = u
    · rw [htu, hprev]
      exact ⟨rfl, rfl, rfl⟩
    · rw [hother t htv htu]
      exact ⟨rfl, rfl, rfl⟩
  · intro w hw
    cases hw
    exact ⟨xs, hpath, hu⟩

/-- `find_next_slot` finds the end of the chain and a free slot. -/
theorem Chained.findNextSlot_spec (h : Chained cfg ftl.mappingTable) {home u v : Nat}
    (hhome : home < cfg.hashSlots) (hlive : occupied ftl.mappingTable home = true)
    (hrun : findNextSlot cfg ftl home = .ok (v, u)) :
    ∃ xs, Path ftl.mappingTable home xs ∧ u ∈ xs ∧
      (∀ t, links ftl.mappingTable u = some t → occupied ftl.mappingTable t = false) ∧
      occupied ftl.mappingTable v = false ∧ v < cfg.hashSlots := by
  obtain ⟨xs, hpath⟩ := h.paths home
  have hfuel := Nat.le_succ_of_le (h.length_le hpath hhome)
  obtain ⟨tail, htail, hu, hend⟩ := findTail_ok hpath hlive hfuel
  rw [findNextSlot, htail, ok_bind] at hrun
  obtain ⟨slot, hprobe, hrun⟩ := exists_of_bind_eq_ok hrun
  cases hrun
  obtain ⟨hfree, hv⟩ := probeSlot_free hprobe (hpath.lt_of_mem hhome h.inside hu)
  exact ⟨xs, hpath, hu, hend, hfree, hv⟩

/-- What `new_mapping_entry` does when it returns. -/
theorem Chained.newMappingEntry_inserted (h : Chained cfg ftl.mappingTable)
    (hrun : newMappingEntry cfg ftl key valLen valOffset = .ok ftl') :
    ∃ v prev, Inserted cfg ftl ftl' key valLen valOffset v prev := by
  rw [newMappingEntry] at hrun
  split at hrun
  · cases hrun
  · next hfits =>
    rw [not_le] at hfits
    split at hrun
    · cases hrun
    simp only at hrun
    split at hrun
    · next hfree =>
      cases hrun
      exact ⟨_, none, inserted_home h (occupied_eq_false.2 hfree) hfits⟩
    · next hfull =>
      have hlive : occupied ftl.mappingTable (getHashSlot cfg key) = true := by
        rw [occupied]
        exact Option.isSome_iff_ne_none.2 hfull
      obtain ⟨⟨v, u⟩, hfind, hrun⟩ := exists_of_bind_eq_ok hrun
      cases hrun
      obtain ⟨xs, hpath, hu, hend, hfree, hv⟩ :=
        h.findNextSlot_spec (getHashSlot_lt cfg key) hlive hfind
      exact ⟨v, some u, inserted_linked h hpath hu hend hfree hv hfits⟩

theorem Chained.newMappingEntry_ok (h : Chained cfg ftl.mappingTable) {free : Nat}
    (hslot : free < cfg.hashSlots) (hfree : occupied ftl.mappingTable free = false)
    (hfits : valOffset < cfg.storageSize) (hkey : key.length ≤ keyRoom) :
    ∃ ftl', newMappingEntry cfg ftl key valLen valOffset = .ok ftl' := by
  rw [newMappingEntry, if_neg (not_le.2 hfits), if_neg (not_lt.2 hkey)]
  simp only
  split
  · exact ⟨_, rfl⟩
  · next hfull =>
    obtain ⟨xs, hpath⟩ := h.paths (getHashSlot cfg key)
    have hlive : occupied ftl.mappingTable (getHashSlot cfg key) = true := by
      rw [occupied]
      exact Option.isSome_iff_ne_none.2 hfull
    have hfuel := Nat.le_succ_of_le (h.length_le hpath (getHashSlot_lt cfg key))
    obtain ⟨u, htail, hu, -⟩ := findTail_ok hpath hlive hfuel
    obtain ⟨v, hprobe⟩ := probeSlot_of_free
      (hpath.lt_of_mem (getHashSlot_lt cfg key) h.inside hu) hslot hfree
    refine ⟨chainMapping (fillEntry ftl v key valLen valOffset) u v, ?_⟩
    rw [findNextSlot, htail, ok_bind, hprobe]
    rfl

theorem Chained.taken {table table' : Nat → MappingEntry} {v : Nat} {prev : Option Nat}
    (h : Chained cfg table) (hv : v < cfg.hashSlots)
    (htaken : Taken (occupied table) (links table) (occupied table') (links table') prev v) :
    Chained cfg table' where
  paths s := by
    obtain ⟨xs, hpath⟩ := h.paths s
    rcases htaken.trail hpath with hsame | hlonger
    · exact ⟨xs, hsame⟩
    · exact ⟨xs ++ [v], hlonger⟩
  inside s t hlink := by
    rw [htaken.next_eq] at hlink
    split at hlink
    · cases hlink
      exact hv
    · exact h.inside s t hlink
  unlinked s hfree := by
    rw [htaken.live_eq] at hfree
    have hne : s ≠ v := by
      rintro rfl
      rw [Function.update_self] at hfree
      cases hfree
    rw [Function.update_of_ne hne] at hfree
    have hprev : prev ≠ some s := by
      intro hprev
      have hlive := (htaken.tail s hprev).1
      rw [hfree] at hlive
      cases hlive
    rw [htaken.next_eq, if_neg hprev]
    exact h.unlinked s hfree

theorem Inserted.chained {v : Nat} {prev : Option Nat} (h : Chained cfg ftl.mappingTable)
    (hnew : Inserted cfg ftl ftl' key valLen valOffset v prev) :
    Chained cfg ftl'.mappingTable :=
  h.taken hnew.inside hnew.taken

theorem Inserted.mem_path {v : Nat} {prev : Option Nat} {xs : List Nat}
    (hnew : Inserted cfg ftl ftl' key valLen valOffset v prev)
    (hpath : Path ftl'.mappingTable (getHashSlot cfg key) xs) : v ∈ xs := by
  cases hprev : prev with
  | none =>
      rw [← hnew.home hprev] at hpath
      rw [hpath.unique hnew.taken.trail_new]
      exact List.mem_singleton.2 rfl
  | some u =>
      obtain ⟨before, hbefore, hu⟩ := hnew.prev_mem u hprev
      refine hnew.taken.mem_trail hprev hpath ?_
      rcases hnew.taken.trail hbefore with hsame | hlonger
      · rwa [hpath.unique hsame]
      · rw [hpath.unique hlonger]
        exact List.mem_append_left _ hu

theorem Inserted.lookupSlot_eq {v : Nat} {prev : Option Nat} (h : Chained cfg ftl.mappingTable)
    (hnew : Inserted cfg ftl ftl' key valLen valOffset v prev)
    (hnone : lookupSlot cfg ftl key = .ok none) : lookupSlot cfg ftl' key = .ok (some v) := by
  obtain ⟨xs, hpath⟩ := h.paths (getHashSlot cfg key)
  rw [h.lookupSlot_eq hpath] at hnone
  have hmiss := List.find?_eq_none.1 (Except.ok.inj hnone)
  obtain ⟨xs', hpath'⟩ := (hnew.chained h).paths (getHashSlot cfg key)
  have hv := hnew.mem_path hpath'
  -- the search goes on to the new slot, past keys that are not this one
  have hxs : xs' = xs ++ [v] := by
    rcases hnew.taken.trail hpath with hsame | hlonger
    · rw [hpath'.unique hsame] at hv
      have hlive := hpath.live_of_mem hv
      rw [hnew.taken.free] at hlive
      cases hlive
    · exact hpath'.unique hlonger
  have hold : xs.find? (fun t => sameKey key (ftl'.mappingTable t)) = none := by
    rw [List.find?_eq_none]
    intro t ht
    have hne : t ≠ v := by
      rintro rfl
      have hlive := hpath.live_of_mem ht
      rw [hnew.taken.free] at hlive
      cases hlive
    rw [sameKey, (hnew.other t hne).1]
    exact hmiss t ht
  have hfound : sameKey key (ftl'.mappingTable v) = true := by
    rw [sameKey, hnew.newKey, List.take_left, beq_self_eq_true]
  rw [(hnew.chained h).lookupSlot_eq hpath', hxs, List.find?_append, hold,
    List.find?_singleton, if_pos hfound]
  rfl

end Insert

section Delete

variable {cfg : KvConfig} {ftl : KvFtl} {s d : Nat} {xs : List Nat}

theorem Chained.release {table table' : Nat → MappingEntry} (h : Chained cfg table) (d : Nat)
    (hfree : occupied table' d = false) (hnone : links table' d = none)
    (hlive : ∀ t, t ≠ d → occupied table' t = occupied table t)
    (hlinks : ∀ t, t ≠ d → links table' t = links table t) : Chained cfg table' where
  paths s := by
    obtain ⟨xs, hpath⟩ := h.paths s
    exact ⟨_, hpath.release hfree hlive hlinks⟩
  inside s t hlink := by
    by_cases heq : s = d
    · rw [heq, hnone] at hlink
      cases hlink
    · rw [hlinks s heq] at hlink
      exact h.inside s t hlink
  unlinked s hs := by
    by_cases heq : s = d
    · rw [heq]
      exact hnone
    · rw [hlive s heq] at hs
      rw [hlinks s heq]
      exact h.unlinked s hs

theorem wiped_free (ftl : KvFtl) (d : Nat) :
    occupied (ftl.setEntry d wipedEntry).mappingTable d = false := by
  rw [occupied, KvFtl.setEntry_self]
  rfl

theorem wiped_live {t : Nat} (h : t ≠ d) :
    occupied (ftl.setEntry d wipedEntry).mappingTable t = occupied ftl.mappingTable t := by
  rw [occupied, KvFtl.setEntry_of_ne _ _ h, occupied]

theorem wiped_links {t : Nat} (h : t ≠ d) :
    links (ftl.setEntry d wipedEntry).mappingTable t = links ftl.mappingTable t := by
  rw [links, KvFtl.setEntry_of_ne _ _ h, links]

theorem path_wiped (h : Path ftl.mappingTable s xs) (d : Nat) :
    Path (ftl.setEntry d wipedEntry).mappingTable s (xs.takeWhile (· ≠ d)) :=
  h.release (wiped_free ftl d) (fun _ ht => wiped_live ht) fun _ ht => wiped_links ht

theorem Chained.wiped (h : Chained cfg ftl.mappingTable) (d : Nat) :
    Chained cfg (ftl.setEntry d wipedEntry).mappingTable := by
  refine h.release d (wiped_free ftl d) ?_ (fun _ ht => wiped_live ht) fun _ ht => wiped_links ht
  rw [links, KvFtl.setEntry_self]
  rfl

end Delete

theorem Chained.congr {cfg : KvConfig} {table table' : Nat → MappingEntry}
    (h : Chained cfg table) (hlive : occupied table' = occupied table)
    (hlinks : links table' = links table) : Chained cfg table' where
  paths s := by
    show ∃ xs, Trail (occupied table') (links table') s xs
    rw [hlive, hlinks]
    exact h.paths s
  inside s t hlink := h.inside s t (by rwa [hlinks] at hlink)
  unlinked s hfree := by
    rw [hlive] at hfree
    rw [hlinks]
    exact h.unlinked s hfree

theorem chained_init (cfg : KvConfig) (storage : ByteMemory.Memory) :
    Chained cfg (initNamespace storage).mappingTable where
  paths s := ⟨[], .free rfl⟩
  inside s t hlink := by cases hlink
  unlinked s _ := rfl

end NvmeVirt.KeyValueChains
