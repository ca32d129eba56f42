import NvmeVirt.HostBuffer
import NvmeVirt.KeyValueMap

namespace NvmeVirt.KeyValueRefinement

open ByteMemory
open FaultOutcome
open HostBuffer
open KeyValueExtents
open KeyValueFtl
open KeyValueMap
open KeyValueSteps
open PrpTransfer
open Relation
open WriteBuffer

section Batch

/-- The `n` bytes at `start` of a payload. -/
def field (bytes : List UInt8) (start n : Nat) : List UInt8 := (bytes.drop start).take n

/-- Sub-command `i` of the payload is a `kv_store` of the pair, whose key and value are
in the payload from `offset` on, behind the head. -/
structure SubStore (bytes : List UInt8) (i offset : Nat) (item : List UInt8 × List UInt8) :
    Prop where
  opcode : field bytes (16 * i) 1 = [0x81]
  keySize : littleEndian (field bytes (16 * i + 1) 1) = item.1.length
  valueSize : littleEndian (field bytes (16 * i + 4) 4) = item.2.length
  key : field bytes (batchHead + offset) item.1.length = item.1
  value : field bytes (batchHead + offset + aligned item.1.length) item.2.length = item.2
  inside : batchHead + offset + aligned item.1.length + item.2.length ≤ bytes.length
  bounded : item.2.length ≤ 4097

/-- The sub-commands from number `i` on. -/
def Laid (bytes : List UInt8) : Nat → Nat → List (List UInt8 × List UInt8) → Prop
  | _, _, [] => True
  | i, offset, item :: items =>
      SubStore bytes i offset item ∧
        Laid bytes (i + 1) (offset + (aligned item.1.length + aligned item.2.length + alignLen))
          items

variable {cfg : KvConfig} {w : Workload cfg} {ftl : KvFtl} {owners : Owners}
  {contents : Contents} {bytes : List UInt8} {start n : Nat}

theorem slice_payload (heap : Memory) (h : start + n ≤ bytes.length) :
    slice (overwrite heap 0 bytes) start n = field bytes start n := by
  have hwhole : slice (overwrite heap 0 bytes) 0 (start + n) = bytes.take (start + n) := by
    rw [← take_slice h, slice_overwrite_self]
  rw [slice_add, Nat.zero_add] at hwhole
  rw [field, List.take_drop, ← hwhole, List.drop_left' length_slice]

theorem readBuffer_payload (h : start + n ≤ bytes.length) :
    readBuffer (overwrite (fun _ => 0) 0 bytes) bytes.length start n =
      .ok (field bytes start n) := by
  rw [readBuffer, if_pos h, slice_payload _ h]

theorem le_aligned (n : Nat) : n ≤ aligned n := by
  rw [aligned, alignLen]
  omega

def storeItem (cfg : KvConfig) (ftl : KvFtl) (item : List UInt8 × List UInt8) :
    Except Fault KvFtl :=
  doPerformKvBatchedIo cfg ftl true item.1 item.2

theorem batchLoop_eq_foldlM (cfg : KvConfig) {items : List (List UInt8 × List UInt8)}
    {i offset : Nat}
    (hlaid : Laid bytes i offset items) (hcount : i + items.length ≤ maxSubCmd)
    (hkeys : ∀ item ∈ items, item.1.length ≤ 20) (ftl : KvFtl) :
    batchLoop cfg (overwrite (fun _ => 0) 0 bytes) bytes.length items.length i offset ftl =
      items.foldlM (storeItem cfg) ftl := by
  induction items generalizing i offset ftl with
  | nil => rfl
  | cons item items ih =>
      obtain ⟨key, value⟩ := item
      obtain ⟨hsub, hrest⟩ := hlaid
      have hkey := hkeys (key, value) List.mem_cons_self
      have hinside := hsub.inside
      have haligned := le_aligned key.length
      have hhead : 16 * i + 8 ≤ bytes.length := by
        rw [List.length_cons, maxSubCmd] at hcount
        rw [batchHead] at hinside
        omega
      have hbounded := hsub.bounded
      dsimp only at hinside hbounded hkey
      rw [List.length_cons, batchLoop, readBuffer_payload (by omega), ok_bind,
        readBuffer_payload (by omega), ok_bind, readBuffer_payload (by omega), ok_bind]
      simp only [hsub.keySize, hsub.valueSize]
      rw [if_neg (by omega), readBuffer_payload (by omega), ok_bind,
        readBuffer_payload (by omega), ok_bind, hsub.key, hsub.value, hsub.opcode]
      have hstore : (([0x81] : List UInt8) == [0x81]) = true := rfl
      rw [hstore, List.foldlM_cons]
      -- both sides store the same pair first
      have hloop := ih hrest (by rw [List.length_cons] at hcount; omega)
        fun item hitem => hkeys item (List.mem_cons_of_mem _ hitem)
      simp only [hloop]
      rfl

theorem foldlM_storeItem {items : List (List UInt8 × List UInt8)}
    (h : Represents w ftl owners contents) (hadmits : ∀ item ∈ items, w.Admits item) :
    ∃ ftl' owners', items.foldlM (storeItem cfg) ftl = .ok ftl' ∧
      Represents w ftl' owners' (items.foldl put contents) := by
  induction items generalizing ftl owners contents with
  | nil => exact ⟨ftl, owners, rfl, h⟩
  | cons item items ih =>
      obtain ⟨key, value⟩ := item
      have hpair := hadmits (key, value) List.mem_cons_self
      obtain ⟨next, hnext⟩ := h.doPerformKvBatchedIo_ok hpair
      have hstored := h.stored hpair (doPerformKvBatchedIo_store hnext)
      obtain ⟨ftl', owners', hloop, hrepresents⟩ :=
        ih hstored fun item hitem => hadmits item (List.mem_cons_of_mem _ hitem)
      refine ⟨ftl', owners', ?_, hrepresents⟩
      rw [List.foldlM_cons, storeItem, hnext, ok_bind, hloop]

end Batch

section Commands

/-- The pairs that a command of the host stores, in their order. -/
inductive Stores (host : Memory) : KvIoCommand → List (List UInt8 × List UInt8) → Prop where
  | single {cmd : KvCommand} {value : List UInt8} (opcode : cmd.opcode = .store)
      (read : payload (fun _ => true) cmd.dptr host (cmdValueLength cmd.valueLen) = .ok value) :
      Stores host (.io cmd) [(cmd.key.bytes, value)]
  | batch {cmd : KvBatchCommand} {bytes : List UInt8} {items : List (List UInt8 × List UInt8)}
      (read : payload (fun _ => true) cmd.dptr host (cmdValueLength cmd.valueLen) = .ok bytes)
      (count : cmd.subCmdCnt = items.length) (most : items.length ≤ maxSubCmd)
      (laid : Laid bytes 0 alignLen items) : Stores host (.batch cmd) items

variable {cfg : KvConfig} {w : Workload cfg} {ftl : KvFtl} {owners : Owners}
  {contents : Contents} {host : Memory}

theorem represents_stores {cmd : KvIoCommand} {items : List (List UInt8 × List UInt8)}
    (h : Represents w ftl owners contents) (hstores : Stores host cmd items)
    (hadmits : ∀ item ∈ items, w.Admits item) (status : Nat) :
    ∃ reply owners', kvPerformNvmeIoCmd cfg host ftl cmd status = .ok reply ∧
      reply.status = status ∧ Represents w reply.ftl owners' (items.foldl put contents) := by
  cases hstores with
  | @single cmd value opcode read =>
      have hpair := hadmits (cmd.key.bytes, value) (List.mem_singleton.2 rfl)
      obtain ⟨reply, hreply⟩ := h.doPerformKvIo_ok opcode read hpair status
      obtain ⟨value', hvalue', -, hstored, -, hstatus⟩ := doPerformKvIo_store opcode hreply
      rw [read] at hvalue'
      cases hvalue'
      exact ⟨reply, _, hreply, hstatus, h.stored hpair hstored⟩
  | @batch cmd bytes items read count most laid =>
      obtain ⟨ftl', owners', hloop, hrepresents⟩ := foldlM_storeItem h hadmits
      have hkeys : ∀ item ∈ items, item.1.length ≤ 20 := by
        intro item hitem
        rw [(hadmits item hitem).keyLength]
        exact w.inlined.trans (by decide)
      rw [← batchLoop_eq_foldlM cfg laid (by omega) hkeys] at hloop
      have hlength : bytes.length = cmdValueLength cmd.valueLen := gatherLoop_length read
      refine ⟨⟨ftl', host, 0, status⟩, owners', ?_, rfl, hrepresents⟩
      rw [hlength] at hloop
      simp only [kvPerformNvmeIoCmd, doPerformKvBatch, moveValue, performIo_of_payload read,
        ok_bind, count, hloop]
      rfl

theorem represents_exist {cmd : KvCommand} (h : Represents w ftl owners contents)
    (hop : cmd.opcode = .exist) (hlength : cmd.key.bytes.length = w.keyLength) (status : Nat) :
    ∃ reply, doPerformKvIo cfg host ftl cmd status = .ok reply ∧
      reply.status = if (contents cmd.key.bytes).isSome then status else keyNotExist := by
  obtain ⟨hnew, hnone⟩ | ⟨slot, value, hvalue, hslot, -⟩ := h.lookupSlot_eq hlength
  · rw [doPerformKvIo, getMappingEntry_of_lookupSlot hnone, ok_bind]
    simp only [hop, KeyValueChains.foundEntry, wipedEntry, hnew]
    exact ⟨_, rfl, rfl⟩
  · obtain ⟨offset, hoffset, -⟩ := lookupSlot_occupied hslot
    rw [doPerformKvIo, getMappingEntry_of_lookupSlot hslot, ok_bind]
    simp only [hop, KeyValueChains.foundEntry, hoffset, hvalue]
    exact ⟨_, rfl, rfl⟩

/-- A `kv_retrieve` of a stored key fills the first bytes of the buffer, when the pages
of the buffer are read as they are for its whole length. -/
theorem represents_retrieve {cmd : KvCommand} {value : List UInt8} {addrs cells : List Nat}
    (h : Represents w ftl owners contents) (hop : cmd.opcode = .retrieve)
    (hvalue : contents cmd.key.bytes = some value)
    (hbuffer : hostBuffer (fun _ => true) cmd.dptr host (cmdValueLength cmd.valueLen) =
      .ok (addrs, cells))
    (hseparate : Separate addrs cells)
    (halike : ReadAlike cmd.dptr (cmdValueLength cmd.valueLen)
      (min value.length (cmdValueLength cmd.valueLen))) (status : Nat) :
    ∃ reply, doPerformKvIo cfg host ftl cmd status = .ok reply ∧ reply.status = status ∧
      reply.result = min value.length (cmdValueLength cmd.valueLen) ∧
      (addrs.take reply.result).map reply.host = value.take (cmdValueLength cmd.valueLen) ∧
      ∀ a, a ∉ addrs.take reply.result → reply.host a = host a := by
  have hlength : cmd.key.bytes.length = w.keyLength :=
    w.sameLength _ (h.admitted cmd.key.bytes value hvalue).1
  obtain ⟨hnew, -⟩ | ⟨slot, value', hvalue', hslot, hholds⟩ := h.lookupSlot_eq hlength
  · rw [hvalue] at hnew
    cases hnew
  · rw [hvalue] at hvalue'
    cases hvalue'
    obtain ⟨offset, hoffset, -⟩ := lookupSlot_occupied hslot
    set n := cmdValueLength cmd.valueLen with hn
    obtain ⟨cells', hsubset, hshorter⟩ := hostBuffer_take (Nat.min_le_right value.length n)
      halike hbuffer
    obtain ⟨host', hrun, hfilled, hkept⟩ := performIo_toHost ftl.storage offset hshorter
      (hseparate.take hsubset _)
    have hinside : InsideStorage cfg offset (min value.length n) := by
      have hextent := h.extents.inside slot offset hoffset
      have hlatest := h.extents.latest
      rw [hholds.owner] at hextent
      right
      omega
    refine ⟨⟨ftl, host', min value.length n, status⟩, ?_, rfl, rfl, ?_, hkept⟩
    · rw [doPerformKvIo, getMappingEntry_of_lookupSlot hslot, ok_bind]
      simp only [hop, KeyValueChains.foundEntry, hoffset, hholds.length, ← hn,
        moveStorage_of hinside, moveValue, hrun, ok_bind]
      rfl
    · dsimp only
      rw [hfilled, ← take_slice (Nat.min_le_left value.length n), hholds.value offset hoffset]
      exact List.take_eq_take_iff.2 (by omega)

end Commands

section Runs

/-- A command of a workload that never deletes, and what it makes of the device and of
the map. -/
inductive Step {cfg : KvConfig} (w : Workload cfg) :
    KvFtl × Contents → KvFtl × Contents → Prop where
  | store {host : Memory} {cmd : KvIoCommand} {items : List (List UInt8 × List UInt8)}
      {status : Nat} {ftl : KvFtl} {contents : Contents} {reply : KvReply}
      (stores : Stores host cmd items) (admits : ∀ item ∈ items, w.Admits item)
      (run : kvPerformNvmeIoCmd cfg host ftl cmd status = .ok reply) :
      Step w (ftl, contents) (reply.ftl, items.foldl put contents)
  | read {host : Memory} {cmd : KvCommand} {status : Nat} {ftl : KvFtl} {contents : Contents}
      {reply : KvReply} (opcode : cmd.opcode = .retrieve ∨ cmd.opcode = .exist)
      (run : kvPerformNvmeIoCmd cfg host ftl (.io cmd) status = .ok reply) :
      Step w (ftl, contents) (reply.ftl, contents)

def noContents : Contents := fun _ => none

theorem represents_init {cfg : KvConfig} (w : Workload cfg) (storage : Memory) (owners : Owners) :
    Represents w (initNamespace storage) owners noContents where
  extents := extents_init cfg storage owners
  latest := by simp [initNamespace, allocated, noContents]
  admitted _ _ hvalue := by cases hvalue
  entries _ hslot := by cases hslot
  reached _ _ hvalue := by cases hvalue
  distinct _ _ hslot := by cases hslot

theorem represents_of_run {cfg : KvConfig} {w : Workload cfg} {storage : Memory}
    {s : KvFtl × Contents}
    (hrun : ReflTransGen (Step w) (initNamespace storage, noContents) s) :
    ∃ owners, Represents w s.1 owners s.2 := by
  induction hrun with
  | refl => exact ⟨fun _ => ([], 0), represents_init w storage _⟩
  | tail _ hstep ih =>
      obtain ⟨owners, h⟩ := ih
      cases hstep with
      | @store host cmd items status ftl contents reply stores admits run =>
          obtain ⟨reply', owners', hreply, -, hrepresents⟩ :=
            represents_stores h stores admits status
          rw [run] at hreply
          cases hreply
          exact ⟨owners', hrepresents⟩
      | read opcode run =>
          rw [doPerformKvIo_reads opcode run]
          exact ⟨owners, h⟩

/-- Without deletes the device is a map: every pair of the workload can be stored,
`kv_exist` succeeds for the keys stored before, and `kv_retrieve` returns the first bytes of
the value stored last, when for the bytes it moves the second data pointer is a list as it is
for the requested ones. -/
theorem delete_free_runs_refine_map {cfg : KvConfig} (w : Workload cfg) (storage : Memory)
    {ftl : KvFtl} {contents : Contents}
    (hrun : ReflTransGen (Step w) (initNamespace storage, noContents) (ftl, contents)) :
    (∀ host cmd items status, Stores host cmd items → (∀ item ∈ items, w.Admits item) →
      ∃ reply, kvPerformNvmeIoCmd cfg host ftl cmd status = .ok reply ∧
        reply.status = status) ∧
    (∀ host (cmd : KvCommand) status, cmd.opcode = .exist →
      cmd.key.bytes.length = w.keyLength →
      ∃ reply, kvPerformNvmeIoCmd cfg host ftl (.io cmd) status = .ok reply ∧
        reply.status = if (contents cmd.key.bytes).isSome then status else keyNotExist) ∧
    (∀ host (cmd : KvCommand) status value addrs cells, cmd.opcode = .retrieve →
      contents cmd.key.bytes = some value →
      hostBuffer (fun _ => true) cmd.dptr host (cmdValueLength cmd.valueLen) =
        .ok (addrs, cells) → Separate addrs cells →
      ReadAlike cmd.dptr (cmdValueLength cmd.valueLen)
        (min value.length (cmdValueLength cmd.valueLen)) →
      ∃ reply, kvPerformNvmeIoCmd cfg host ftl (.io cmd) status = .ok reply ∧
        reply.status = status ∧
        reply.result = min value.length (cmdValueLength cmd.valueLen) ∧
        (addrs.take reply.result).map reply.host = value.take (cmdValueLength cmd.valueLen) ∧
        ∀ a, a ∉ addrs.take reply.result → reply.host a = host a) := by
  obtain ⟨owners, h⟩ := represents_of_run hrun
  refine ⟨?_, ?_, ?_⟩
  · intro host cmd items status hstores hadmits
    obtain ⟨reply, -, hreply, hstatus, -⟩ := represents_stores h hstores hadmits status
    exact ⟨reply, hreply, hstatus⟩
  · intro host cmd status hop hlength
    exact represents_exist h hop hlength status
  · intro host cmd status value addrs cells hop hvalue hbuffer hseparate halike
    exact represents_retrieve h hop hvalue hbuffer hseparate halike status

end Runs

section TwoKeys

def twoKeys : Workload builtConfig where
  keyLength := 4
  keys := {firstKey.bytes, secondKey.bytes}
  valueLength _ := 8
  inlined := by decide
  sameLength := by decide
  enoughSlots := by decide
  enoughRoom := by decide

/-- A batch of one `kv_store`, of the second key. -/
def batchPayload : List UInt8 :=
  [0x81, 4, 0, 0, 8, 0, 0, 0] ++ List.replicate 568 0 ++ secondKey.bytes ++ List.replicate 60 0 ++
    List.replicate 8 9

def batchHost : Memory := overwrite (fun _ => 0) 4096 batchPayload

def storeFirst : KvCommand :=
  { opcode := .store, key := firstKey, valueLen := 2, dptr := ⟨4096, 8192⟩ }

def storeSecond : KvBatchCommand := { subCmdCnt := 1, valueLen := 162, dptr := ⟨4096, 8192⟩ }

def retrieveSecond : KvCommand :=
  { opcode := .retrieve, key := secondKey, valueLen := 4, dptr := ⟨8192, 12288⟩ }

theorem stores_first (host : Memory) : Stores host (.io storeFirst)
    [(firstKey.bytes, (List.range' 4096 8).map host)] :=
  .single rfl (payload_of_hostBuffer (hostBuffer_page (by decide) (by decide)))

theorem stores_second : Stores batchHost (.batch storeSecond)
    [(secondKey.bytes, List.replicate 8 9)] := by
  have hread : payload (fun _ => true) ⟨4096, 8192⟩ batchHost 648 = .ok _ :=
    payload_of_hostBuffer (hostBuffer_page (by decide) (by decide))
  have hlength : batchPayload.length = 648 := by decide +kernel
  have hbytes : (List.range' 4096 648).map batchHost = batchPayload := by
    rw [map_range', ← hlength]
    exact slice_overwrite_self
  rw [hbytes] at hread
  refine .batch hread rfl (by decide) ⟨⟨?_, ?_, ?_, ?_, ?_, ?_, ?_⟩, trivial⟩ <;> decide +kernel

theorem delete_free_runs_refine_map_two_keys :
    ∃ (ftl : KvFtl) (contents : Contents),
      ReflTransGen (Step twoKeys) (initNamespace fun _ => 0, noContents) (ftl, contents) ∧
      contents secondKey.bytes = some (List.replicate 8 9) ∧
      ∃ reply, kvPerformNvmeIoCmd builtConfig (fun _ => 0) ftl (.io retrieveSecond) 0 =
          .ok reply ∧ reply.result = 8 ∧
        ((List.range' 8192 16).take 8).map reply.host = List.replicate 8 9 := by
  obtain ⟨reply₁, hfirst, -⟩ :=
    (delete_free_runs_refine_map twoKeys (fun _ => 0) .refl).1 (fun _ => 7) (.io storeFirst) _ 0
      (stores_first _) (by decide)
  have hrun₁ : ReflTransGen (Step twoKeys) (initNamespace fun _ => 0, noContents)
      (reply₁.ftl, _) := .single (.store (stores_first _) (by decide) hfirst)
  obtain ⟨reply₂, hsecond, -⟩ :=
    (delete_free_runs_refine_map twoKeys (fun _ => 0) hrun₁).1 batchHost (.batch storeSecond) _ 0
      stores_second (by decide)
  have hrun₂ := hrun₁.tail (.store stores_second (by decide) hsecond)
  have hstored : ∀ contents : Contents, [(secondKey.bytes, List.replicate 8 9)].foldl put
      contents secondKey.bytes = some (List.replicate 8 9) := by
    intro contents
    exact put_self contents secondKey.bytes (List.replicate 8 9)
  obtain ⟨reply, hreply, -, hresult, hfilled, -⟩ :=
    (delete_free_runs_refine_map twoKeys (fun _ => 0) hrun₂).2.2 (fun _ => 0) retrieveSecond 0
      (List.replicate 8 9) (List.range' 8192 16) [] rfl (hstored _)
      (hostBuffer_page (by decide) (by decide)) ⟨List.nodup_range', by simp⟩ (by decide)
  refine ⟨reply₂.ftl, _, hrun₂, hstored _, reply, hreply, hresult, ?_⟩
  rw [hresult] at hfilled
  exact hfilled

def listHost : Memory := fun a =>
  if a = 12289 then 0x40 else if a = 12297 then 0x50 else if a / pageSize = 1 then 7 else 0

def retrieveFirst : KvCommand :=
  { opcode := .retrieve, key := firstKey, valueLen := 1026, dptr := ⟨8188, 12288⟩ }

/-- The buffer of 4104 bytes goes on in the first page of the list, but the last four
bytes of the value are written over the list. -/
theorem retrieve_misses_listed_page :
    ∃ (ftl : KvFtl) (contents : Contents) (value : List UInt8) (reply : KvReply)
      (addrs cells : List Nat),
      ReflTransGen (Step twoKeys) (initNamespace fun _ => 0, noContents) (ftl, contents) ∧
      contents firstKey.bytes = some value ∧
      hostBuffer (fun _ => true) retrieveFirst.dptr listHost
        (cmdValueLength retrieveFirst.valueLen) = .ok (addrs, cells) ∧
      Separate addrs cells ∧
      kvPerformNvmeIoCmd builtConfig listHost ftl (.io retrieveFirst) 0 = .ok reply ∧
      reply.status = 0 ∧
      (addrs.take (min value.length (cmdValueLength retrieveFirst.valueLen))).map reply.host ≠
        value.take (cmdValueLength retrieveFirst.valueLen) := by
  let retrieves (reply : KvReply) : Bool :=
    returns (kvPerformNvmeIoCmd builtConfig listHost reply.ftl (.io retrieveFirst) 0)
      fun reply => reply.status == 0 && reply.host 16384 == 0
  obtain ⟨stored, hstore, hretrieves⟩ :
      ∃ stored, kvPerformNvmeIoCmd builtConfig (fun _ => 7) (initNamespace fun _ => 0)
        (.io storeFirst) 0 = .ok stored ∧ retrieves stored = true :=
    exists_of_returns (by decide +kernel)
  obtain ⟨reply, hreply, hafter⟩ := exists_of_returns hretrieves
  rw [Bool.and_eq_true, beq_iff_eq, beq_iff_eq] at hafter
  refine ⟨stored.ftl, _, List.replicate 8 7, reply,
    List.range' 8188 4 ++ (List.range' 16384 4096 ++ (List.range' 20480 4 ++ [])),
    [12288, 12296], .single (.store (stores_first _) (by decide) hstore),
    put_self noContents firstKey.bytes (List.replicate 8 7), rfl, ?_, hreply, hafter.1, ?_⟩
  · refine ⟨?_, ?_⟩
    · refine List.nodup_append.2 ⟨List.nodup_range', List.nodup_append.2
        ⟨List.nodup_range', List.nodup_append.2 ⟨List.nodup_range', List.nodup_nil, by simp⟩, ?_⟩,
        ?_⟩
      · intro a ha b hb
        rw [List.append_nil, List.mem_range'_1] at hb
        rw [List.mem_range'_1] at ha
        omega
      · intro a ha b hb
        rw [List.append_nil, List.mem_append, List.mem_range'_1, List.mem_range'_1] at hb
        rw [List.mem_range'_1] at ha
        omega
    · intro cell hcell i hi
      rw [List.append_nil, List.mem_append, List.mem_append, List.mem_range'_1, List.mem_range'_1,
        List.mem_range'_1]
      rw [List.mem_cons, List.mem_singleton] at hcell
      omega
  · intro heq
    have hfifth := congrArg (fun bytes => bytes.getD 4 0) heq
    have hseven : reply.host 16384 = 7 := hfifth
    rw [hafter.2] at hseven
    exact absurd hseven (by decide)

end TwoKeys

end NvmeVirt.KeyValueRefinement
