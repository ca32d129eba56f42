import NvmeVirt.HostBuffer
import NvmeVirt.KeyValueChains
import NvmeVirt.KeyValueIterators

namespace NvmeVirt.IteratorReads

open ByteMemory
open FaultOutcome
open Function
open HostBuffer
open KeyValueChains
open KeyValueFtl
open KeyValueIterators
open PrpTransfer
open WriteBuffer

section Specification

/-- The occupied slots whose first four bytes match, in their order. -/
def matchingSlots (cfg : KvConfig) (ftl : KvFtl) (cmd : IterReqCommand) : List Nat :=
  (List.range cfg.hashSlots).filter fun slot =>
    occupied ftl.mappingTable slot &&
      (littleEndian (keyBytes (ftl.mappingTable slot) 4) &&& cmd.iterBitmask ==
        (cmd.iterVal &&& cmd.iterBitmask))

/-- The bytes of a key in a page: its length and the key. -/
def keyRecord (key : List UInt8) : List UInt8 := intBytes iterKeylen ++ key

def pageBytes (keys : List (List UInt8)) : List UInt8 :=
  intBytes keys.length ++ keys.flatMap keyRecord

/-- A call of the host, with a buffer of 1024 bytes that does not overlap itself. -/
structure IterCall where
  host : Memory
  dptr : DataPtr
  addrs : List Nat
  cells : List Nat
  buffer : hostBuffer (fun _ => true) dptr host 1024 = .ok (addrs, cells)
  separate : Separate addrs cells

structure Returns (call : IterCall) (keys : List (List UInt8)) (status : Nat) (reply : IterReply) :
    Prop where
  result : reply.result = (pageBytes keys).length
  most : reply.result ≤ 1024
  status : reply.status = status
  page : (call.addrs.take reply.result).map reply.host = pageBytes keys
  others : ∀ a, a ∉ call.addrs.take reply.result → reply.host a = call.host a

/-- The calls give the pages, and only the last reports the end. -/
inductive Enumerates : List IterCall → List (List (List UInt8)) → List IterReply → Prop where
  | last {call : IterCall} {keys : List (List UInt8)} {reply : IterReply}
      (returns : Returns call keys iterEnd reply) : Enumerates [call] [keys] [reply]
  | more {call : IterCall} {keys : List (List UInt8)} {reply : IterReply} {calls : List IterCall}
      {pages : List (List (List UInt8))} {replies : List IterReply}
      (returns : Returns call keys 0 reply) (rest : Enumerates calls pages replies) :
      Enumerates (call :: calls) (keys :: pages) (reply :: replies)

def readCalls (cfg : KvConfig) (ftl : KvFtl) (iter : Nat) :
    IterTable → List IterCall → Except Fault (List IterReply)
  | _, [] => .ok []
  | iters, call :: calls => do
      let reply ← kvIterRead cfg call.host ftl iters { iterHandle := iter, dptr := call.dptr } 0
      let replies ← readCalls cfg ftl iter reply.iters calls
      return reply :: replies

end Specification

section Scan

variable {table : Nat → MappingEntry} {n fuel : Nat} {handle : IterContext} {scan : IterScan}

/-- The slots from `pos` on that the iterator matches. -/
def slotsFrom (table : Nat → MappingEntry) (n : Nat) (handle : IterContext) (pos : Nat) :
    List Nat :=
  (List.range' pos (n - pos)).filter fun slot => iterMatches handle (table slot)

def slotKey (table : Nat → MappingEntry) (slot : Nat) : List UInt8 :=
  keyBytes (table slot) iterKeylen

/-- What the loop makes of the local variables when `room` more keys fit into the page. -/
structure Scanned (table : Nat → MappingEntry) (n : Nat) (handle : IterContext)
    (slots : List Nat) (room : Nat) (scan out : IterScan) : Prop where
  nrKeys : out.nrKeys = scan.nrKeys + (slots.take room).length
  bufOffset : out.bufOffset = scan.bufOffset + 20 * (slots.take room).length
  buf : out.buf = overwrite scan.buf scan.bufOffset
    ((slots.take room).flatMap fun slot => keyRecord (slotKey table slot))
  atEnd : slots.length ≤ room → out.atEnd = true
  resumes : room < slots.length →
    out.atEnd = scan.atEnd ∧ out.pos < n ∧ slotsFrom table n handle out.pos = slots.drop room

@[simp] theorem length_keyBytes (entry : MappingEntry) (n : Nat) :
    (keyBytes entry n).length = n := by
  simp [keyBytes]

@[simp] theorem length_intBytes (n : Nat) : (intBytes n).length = 4 := by simp [intBytes]

@[simp] theorem length_keyRecord_slotKey (table : Nat → MappingEntry) (slot : Nat) :
    (keyRecord (slotKey table slot)).length = 20 := by
  simp [keyRecord, slotKey, iterKeylen]

theorem slotsFrom_of_lt {pos : Nat} (h : pos < n) :
    slotsFrom table n handle pos =
      if iterMatches handle (table pos) then pos :: slotsFrom table n handle (pos + 1)
      else slotsFrom table n handle (pos + 1) := by
  have hrange : n - pos = (n - (pos + 1)) + 1 := by omega
  rw [slotsFrom, hrange, List.range'_succ, List.filter_cons]
  rfl

theorem slotsFrom_end {pos : Nat} (h : n ≤ pos) : slotsFrom table n handle pos = [] := by
  rw [slotsFrom, Nat.sub_eq_zero_of_le h]
  rfl

theorem store_eq (scan : IterScan) (slot : Nat) :
    scan.store (table slot) =
      { scan with
        buf := overwrite scan.buf scan.bufOffset (keyRecord (slotKey table slot))
        bufOffset := scan.bufOffset + 20
        nrKeys := scan.nrKeys + 1 } := by
  rw [IterScan.store, overwrite_append (length_intBytes iterKeylen)]
  rfl

theorem scanned_end (room : Nat) (scan : IterScan) :
    Scanned table n handle [] room scan { scan with atEnd := true } where
  nrKeys := by simp
  bufOffset := by simp
  buf := by simp
  atEnd _ := rfl
  resumes h := absurd h (Nat.not_lt_zero room)

theorem scanned_full {slot : Nat} {slots : List Nat} (hpos : scan.pos < n)
    (hslots : slotsFrom table n handle scan.pos = slot :: slots) :
    Scanned table n handle (slot :: slots) 0 scan scan where
  nrKeys := rfl
  bufOffset := rfl
  buf := by simp
  atEnd h := absurd h (Nat.not_succ_le_zero _)
  resumes _ := ⟨rfl, hpos, hslots⟩

theorem Scanned.store {slot room : Nat} {slots : List Nat} {out : IterScan} (pos : Nat)
    (h : Scanned table n handle slots room { scan.store (table slot) with pos := pos } out) :
    Scanned table n handle (slot :: slots) (room + 1) scan out := by
  rw [store_eq] at h
  refine ⟨?_, ?_, ?_, ?_, ?_⟩
  · rw [h.nrKeys, List.take_succ_cons, List.length_cons]
    dsimp only
    omega
  · rw [h.bufOffset, List.take_succ_cons, List.length_cons]
    dsimp only
    omega
  · rw [h.buf, List.take_succ_cons, List.flatMap_cons]
    exact overwrite_append (length_keyRecord_slotKey table slot)
  · intro hlength
    exact h.atEnd (Nat.le_of_succ_le_succ hlength)
  · intro hlength
    exact h.resumes (Nat.lt_of_succ_lt_succ hlength)

theorem scanLoop_scanned {room : Nat} (hpos : scan.pos < n) (hfuel : n - scan.pos ≤ fuel)
    (hoffset : scan.bufOffset = 4 + 20 * scan.nrKeys) (hroom : scan.nrKeys + room = 51) :
    Scanned table n handle (slotsFrom table n handle scan.pos) room scan
      (scanLoop table n handle fuel scan) := by
  induction fuel generalizing scan room with
  | zero => omega
  | succ fuel ih =>
      -- what follows a slot that is left behind
      have hnext : ∀ (next : IterScan) (room : Nat), next.pos = scan.pos + 1 →
          next.bufOffset = 4 + 20 * next.nrKeys → next.nrKeys + room = 51 →
          Scanned table n handle (slotsFrom table n handle (scan.pos + 1)) room next
            (if next.pos = n then { next with atEnd := true }
              else scanLoop table n handle fuel next) := by
        intro next room hpos' hoffset hroom
        split
        · next hend =>
          rw [slotsFrom_end (by omega)]
          exact scanned_end room next
        · rw [← hpos']
          exact ih (by omega) (by omega) hoffset hroom
      rw [slotsFrom_of_lt hpos, scanLoop, if_pos hpos]
      simp only
      by_cases hmatch : iterMatches handle (table scan.pos) = true
      · simp only [hmatch, if_true, true_and]
        cases room with
        | zero =>
            rw [if_pos (by rw [iterKeylen]; omega)]
            refine scanned_full hpos ?_
            rw [slotsFrom_of_lt hpos, if_pos hmatch]
        | succ room =>
            rw [if_neg (by rw [iterKeylen]; omega)]
            refine Scanned.store (scan.pos + 1) ?_
            refine hnext _ room rfl ?_ ?_
            · rw [store_eq]
              dsimp only
              omega
            · rw [store_eq]
              dsimp only
              omega
      · simp only [hmatch]
        have hscanned := hnext { scan with pos := scan.pos + 1 } room rfl hoffset hroom
        exact ⟨hscanned.nrKeys, hscanned.bufOffset, hscanned.buf, hscanned.atEnd,
          hscanned.resumes⟩

end Scan

section Reads

variable {cfg : KvConfig} {ftl : KvFtl} {iters : IterTable} {iter : Nat} {handle : IterContext}
  {keys : List (List UInt8)}

theorem length_flatMap_keyRecord (table : Nat → MappingEntry) (slots : List Nat) :
    (slots.flatMap fun slot => keyRecord (slotKey table slot)).length = 20 * slots.length := by
  induction slots with
  | nil => rfl
  | cons slot slots ih =>
      rw [List.flatMap_cons, List.length_append, length_keyRecord_slotKey, ih, List.length_cons]
      omega

theorem slice_page (buf : Memory) (table : Nat → MappingEntry) (slots : List Nat) :
    slice (overwrite (overwrite buf 4 (slots.flatMap fun slot => keyRecord (slotKey table slot)))
        0 (intBytes slots.length)) 0 (4 + 20 * slots.length) =
      pageBytes (slots.map (slotKey table)) := by
  set records := slots.flatMap fun slot => keyRecord (slotKey table slot) with hrecords
  have hlength : records.length = 20 * slots.length := length_flatMap_keyRecord table slots
  have hcount := length_intBytes slots.length
  have hfirst : slice (overwrite (overwrite buf 4 records) 0 (intBytes slots.length)) 0
      (intBytes slots.length).length = intBytes slots.length := slice_overwrite_self
  have hrest : slice (overwrite buf 4 records) 4 records.length = records := slice_overwrite_self
  rw [hcount] at hfirst
  rw [hlength] at hrest
  rw [slice_add, hfirst, slice_overwrite_of_disjoint (.inr (by omega)), Nat.zero_add, hrest,
    pageBytes, List.length_map, List.flatMap_map]

theorem length_pageBytes (table : Nat → MappingEntry) (slots : List Nat) :
    (pageBytes (slots.map (slotKey table))).length = 4 + 20 * slots.length := by
  rw [pageBytes, List.flatMap_map, List.length_append, length_intBytes,
    length_flatMap_keyRecord]

theorem readAlike_page (dptr : DataPtr) {m : Nat} (h : m ≤ 1024) : ReadAlike dptr 1024 m := by
  intro _
  rw [pageSize]
  omega

theorem kvIterRead_page (call : IterCall) (hiter : iter < iterHandles)
    (hhandle : iters iter = .context handle) (hpos : handle.currentPos < cfg.hashSlots)
    {slots : List Nat}
    (hslots : slotsFrom ftl.mappingTable cfg.hashSlots handle handle.currentPos = slots) :
    ∃ reply, kvIterRead cfg call.host ftl iters { iterHandle := iter, dptr := call.dptr } 0 =
        .ok reply ∧
      Returns call ((slots.take 51).map (slotKey ftl.mappingTable))
        (if slots.length ≤ 51 then iterEnd else 0) reply ∧
      (51 < slots.length → ∃ handle', reply.iters iter = .context handle' ∧
        handle'.currentPos < cfg.hashSlots ∧
        slotsFrom ftl.mappingTable cfg.hashSlots handle' handle'.currentPos = slots.drop 51) := by
  set start : IterScan :=
    { pos := handle.currentPos, buf := handle.buf, bufOffset := 4, nrKeys := 0, atEnd := false }
    with hstart
  set scan := scanLoop ftl.mappingTable cfg.hashSlots handle cfg.hashSlots start with hscan
  have hscanned : Scanned ftl.mappingTable cfg.hashSlots handle
      (slotsFrom ftl.mappingTable cfg.hashSlots handle start.pos) 51 start scan :=
    scanLoop_scanned hpos (Nat.sub_le _ _) rfl rfl
  have hfrom : slotsFrom ftl.mappingTable cfg.hashSlots handle start.pos = slots := hslots
  rw [hfrom] at hscanned
  have hkeys : scan.nrKeys = (slots.take 51).length := by
    rw [hscanned.nrKeys]
    exact Nat.zero_add _
  have hoffset : scan.bufOffset = 4 + 20 * (slots.take 51).length := hscanned.bufOffset
  have hfew : (slots.take 51).length ≤ 51 := List.length_take_le 51 slots
  have hmost : scan.bufOffset ≤ 1024 := by omega
  obtain ⟨cells, hsubset, hbuffer⟩ :=
    hostBuffer_take hmost (readAlike_page call.dptr hmost) call.buffer
  obtain ⟨host', hmove, hfilled, hkept⟩ :=
    performIo_toHost (overwrite scan.buf 0 (intBytes scan.nrKeys)) 0 hbuffer
      (call.separate.take hsubset _)
  refine ⟨⟨update iters iter (.context { handle with
    buf := overwrite scan.buf 0 (intBytes scan.nrKeys), currentPos := scan.pos }), host',
      scan.bufOffset, if scan.atEnd then iterEnd else 0⟩, ?_, ⟨?_, hmost, ?_, ?_, hkept⟩, ?_⟩
  · rw [kvIterRead, if_neg (not_le.2 hiter), hhandle]
    simp only [← hstart, ← hscan, moveValue, hmove, ok_bind]
    rfl
  · dsimp only
    rw [length_pageBytes, hoffset]
  · by_cases hlast : slots.length ≤ 51
    · simp only [hscanned.atEnd hlast, if_pos hlast]
      rfl
    · have hend : scan.atEnd = false := (hscanned.resumes (not_le.1 hlast)).1
      simp only [hend, if_neg hlast]
      rfl
  · dsimp only
    rw [hfilled, hscanned.buf, hkeys, hoffset]
    exact slice_page handle.buf ftl.mappingTable (slots.take 51)
  · intro hmore
    obtain ⟨-, hinside, hrest⟩ := hscanned.resumes hmore
    exact ⟨_, update_self _ _ _, hinside, hrest⟩

theorem pages_succ {m : Nat} (h : 51 < m) : (m - 1) / 51 = (m - 51 - 1) / 51 + 1 := by
  omega

theorem readCalls_enumerate {calls : List IterCall} (hiter : iter < iterHandles)
    (hhandle : iters iter = .context handle) (hpos : handle.currentPos < cfg.hashSlots)
    {slots : List Nat}
    (hslots : slotsFrom ftl.mappingTable cfg.hashSlots handle handle.currentPos = slots)
    (hcalls : calls.length = (slots.length - 1) / 51 + 1) :
    ∃ replies pages, readCalls cfg ftl iter iters calls = .ok replies ∧
      Enumerates calls pages replies ∧ pages.flatten = slots.map (slotKey ftl.mappingTable) := by
  induction calls generalizing iters handle slots with
  | nil => cases hcalls
  | cons call calls ih =>
      obtain ⟨reply, hreply, hreturns, hmore⟩ := kvIterRead_page call hiter hhandle hpos hslots
      rw [List.length_cons] at hcalls
      rw [readCalls, hreply, ok_bind]
      by_cases hlast : slots.length ≤ 51
      · obtain rfl : calls = [] := List.eq_nil_of_length_eq_zero (by omega)
        rw [if_pos hlast] at hreturns
        refine ⟨[reply], _, rfl, .last hreturns, ?_⟩
        rw [List.take_of_length_le hlast, List.flatten_singleton]
      · rw [if_neg hlast] at hreturns
        obtain ⟨handle', hhandle', hpos', hslots'⟩ := hmore (not_le.1 hlast)
        have hrest : calls.length = ((slots.drop 51).length - 1) / 51 + 1 := by
          rw [List.length_drop, ← pages_succ (not_le.1 hlast)]
          exact Nat.succ.inj hcalls
        obtain ⟨replies, pages, hreplies, hrest, hpages⟩ := ih hhandle' hpos' hslots' hrest
        rw [hreplies]
        refine ⟨_, _, rfl, .more hreturns hrest, ?_⟩
        rw [List.flatten_cons, hpages, ← List.map_append, List.take_append_drop]

theorem matchingSlots_eq (cfg : KvConfig) (ftl : KvFtl) (cmd : IterReqCommand) (buf : Memory) :
    slotsFrom ftl.mappingTable cfg.hashSlots
      { prefixVal := cmd.iterVal, bitmask := cmd.iterBitmask, buf := buf, currentPos := 0 } 0 =
        matchingSlots cfg ftl cmd := by
  rw [slotsFrom, Nat.sub_zero, ← List.range_eq_range']
  rfl

theorem kvIterOpen_free (memory host : Memory) (cmd : IterReqCommand) (status : Nat)
    (hfree : ∃ iter, 1 ≤ iter ∧ iter ≤ 16 ∧ (iters iter).isNull = true) :
    ∃ iter < iterHandles, kvIterOpen memory host iters cmd status =
      { iters := update iters iter (.context
          { prefixVal := cmd.iterVal, bitmask := cmd.iterBitmask, buf := memory, currentPos := 0 })
        host := host, result := iter, status := 0 } := by
  obtain ⟨free, hlow, hhigh, hnull⟩ := hfree
  cases hfind : (List.range' 1 16).find? fun iter => (iters iter).isNull with
  | none =>
      have hmem : free ∈ List.range' 1 16 := List.mem_range'_1.2 ⟨hlow, by omega⟩
      exact absurd hnull (List.find?_eq_none.1 hfind free hmem)
  | some iter =>
      obtain ⟨-, hinside⟩ := List.mem_range'_1.1 (List.mem_of_find?_eq_some hfind)
      exact ⟨iter, by rw [iterHandles]; omega, by rw [kvIterOpen, hfind]⟩

end Reads

/-- The reads of an iterator that was just opened give the keys of all matching slots, each
once and in the order of the slots; only the last of them reports the end. -/
theorem iterator_reads_enumerate (cfg : KvConfig) (ftl : KvFtl) (memory host : Memory)
    {iters : IterTable} (hfree : ∃ iter, 1 ≤ iter ∧ iter ≤ 16 ∧ (iters iter).isNull = true)
    (cmd : IterReqCommand) (status : Nat) {calls : List IterCall}
    (hcalls : calls.length = ((matchingSlots cfg ftl cmd).length - 1) / 51 + 1) :
    ∃ replies pages, readCalls cfg ftl (kvIterOpen memory host iters cmd status).result
        (kvIterOpen memory host iters cmd status).iters calls = .ok replies ∧
      Enumerates calls pages replies ∧
      pages.flatten =
        (matchingSlots cfg ftl cmd).map fun slot => keyBytes (ftl.mappingTable slot) 16 := by
  obtain ⟨iter, hinside, hopened⟩ := kvIterOpen_free memory host cmd status hfree
  rw [hopened]
  exact readCalls_enumerate hinside (update_self _ _ _) cfg.hasSlots
    (matchingSlots_eq cfg ftl cmd memory) hcalls

def smallConfig : KvConfig := { builtConfig with hashSlots := 60, hasSlots := by decide }

def sixtyKeys : KvFtl :=
  { initNamespace fun _ => 0 with
    mappingTable := fun slot =>
      { key := 97 :: UInt8.ofNat slot :: List.replicate 22 0
        memOffset := some 0
        length := 0
        nextSlot := none } }

def readCall : IterCall where
  host _ := 0
  dptr := ⟨4096, 8192⟩
  addrs := List.range' 4096 1024
  cells := []
  buffer := hostBuffer_page (by decide) (by decide)
  separate := ⟨List.nodup_range', by simp⟩

def openKeys : IterReqCommand :=
  { iterHandle := 0, option := 0x01, iterVal := 97, iterBitmask := 255 }

theorem iterator_reads_enumerate_sixty_keys :
    ∃ replies pages, readCalls smallConfig sixtyKeys
        (kvIterOpen (fun _ => 0) (fun _ => 0) (initIters true) openKeys 0).result
        (kvIterOpen (fun _ => 0) (fun _ => 0) (initIters true) openKeys 0).iters
          [readCall, readCall] = .ok replies ∧
      Enumerates [readCall, readCall] pages replies ∧
      pages.flatten = (List.range 60).map fun slot =>
        97 :: UInt8.ofNat slot :: List.replicate 14 0 := by
  have hfree : ∃ iter, 1 ≤ iter ∧ iter ≤ 16 ∧ (initIters true iter).isNull = true :=
    ⟨1, by decide⟩
  have hslots : matchingSlots smallConfig sixtyKeys openKeys = List.range 60 := by decide +kernel
  have hcalls : [readCall, readCall].length =
      ((matchingSlots smallConfig sixtyKeys openKeys).length - 1) / 51 + 1 := by
    rw [hslots]
    rfl
  obtain ⟨replies, pages, hreplies, hpages, hkeys⟩ :=
    iterator_reads_enumerate smallConfig sixtyKeys (fun _ => 0) (fun _ => 0) hfree openKeys 0
      hcalls
  refine ⟨replies, pages, hreplies, hpages, ?_⟩
  rw [hkeys, hslots]
  rfl

end NvmeVirt.IteratorReads
