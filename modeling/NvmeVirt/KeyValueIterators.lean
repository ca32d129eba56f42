import NvmeVirt.KeyValueFtl

namespace NvmeVirt.KeyValueIterators

open ByteMemory
open FaultOutcome
open Function
open KeyValueFtl
open PrpTransfer
open WriteBuffer

/-- `struct kv_iter_context`; what is only ever set is left out. -/
structure IterContext where
  prefixVal : Nat
  bitmask : Nat
  buf : Memory
  currentPos : Nat

/-- An element of `iter_handle`. A wild one was never set, and is not `NULL`. -/
inductive IterPointer where
  | null
  | context (handle : IterContext)
  | wild

def IterPointer.isNull : IterPointer → Bool
  | .null => true
  | .context _ | .wild => false

/-- The array `iter_handle`, of 17 elements. -/
abbrev IterTable := Nat → IterPointer

def iterHandles : Nat := 17

/-- What `kv_init_namespace` makes of the array. It sets the first 16 elements, and the last
one is what the memory held. -/
def initIters (zeroed : Bool) : IterTable := fun iter =>
  if iter < 16 ∨ zeroed then .null else .wild

/-- `struct nvme_kv_iter_req_command`. -/
structure IterReqCommand where
  iterHandle : Nat
  option : Nat
  iterVal : Nat
  iterBitmask : Nat

/-- `struct nvme_kv_iter_read_command`. -/
structure IterReadCommand where
  iterHandle : Nat
  dptr : DataPtr

structure IterReply where
  iters : IterTable
  host : Memory
  result : Nat
  status : Nat

section Handles

/-- `kv_iter_open`; the memory is that which `kmalloc` returns for the buffer. -/
def kvIterOpen (memory host : Memory) (iters : IterTable) (cmd : IterReqCommand) (status : Nat) :
    IterReply :=
  match (List.range' 1 16).find? fun iter => (iters iter).isNull with
  | none => { iters := iters, host := host, result := 1, status := status }
  | some iter =>
      let handle : IterContext :=
        { prefixVal := cmd.iterVal, bitmask := cmd.iterBitmask, buf := memory, currentPos := 0 }
      { iters := update iters iter (.context handle), host := host, result := iter, status := 0 }

/-- `kv_iter_close`. -/
def kvIterClose (host : Memory) (iters : IterTable) (cmd : IterReqCommand) :
    Except Fault IterReply :=
  if iterHandles ≤ cmd.iterHandle then .error (.outOfBounds .kvIterClose)
  else
    match iters cmd.iterHandle with
    | .null => .ok { iters := iters, host := host, result := 0, status := 0 }
    | .context _ =>
        .ok { iters := update iters cmd.iterHandle .null, host := host, result := 0, status := 0 }
    | .wild => .error (.uninitialized .kvIterClose)

end Handles

section Reads

def keyBytes (entry : MappingEntry) (n : Nat) : List UInt8 :=
  (List.range n).map fun i => entry.key.getD i 0

/-- The bytes of an `int`. -/
def intBytes (n : Nat) : List UInt8 :=
  (List.range 4).map fun i => UInt8.ofNat (n / 256 ^ i)

def iterMatches (handle : IterContext) (entry : MappingEntry) : Bool :=
  entry.memOffset.isSome &&
    (littleEndian (keyBytes entry 4) &&& handle.bitmask ==
      (handle.prefixVal &&& handle.bitmask))

/-- `keylen`. -/
def iterKeylen : Nat := 16

/-- The local variables of `kv_iter_read`, with the buffer of the handle. -/
structure IterScan where
  pos : Nat
  buf : Memory
  bufOffset : Nat
  nrKeys : Nat
  atEnd : Bool

/-- The length and the key of an entry behind those in the buffer. -/
def IterScan.store (scan : IterScan) (entry : MappingEntry) : IterScan :=
  { scan with
    buf := overwrite (overwrite scan.buf scan.bufOffset (intBytes iterKeylen))
      (scan.bufOffset + 4) (keyBytes entry iterKeylen)
    bufOffset := scan.bufOffset + 4 + (iterKeylen + 3) / 4 * 4
    nrKeys := scan.nrKeys + 1 }

/-- The loop over the slots. It stops in front of an entry that does not fit into the
page any more. -/
def scanLoop (table : Nat → MappingEntry) (hashSlots : Nat) (handle : IterContext) :
    Nat → IterScan → IterScan
  | 0, scan => scan
  | fuel + 1, scan =>
      if scan.pos < hashSlots then
        let entry := table scan.pos
        let isMatch := iterMatches handle entry
        if isMatch ∧ 1024 < scan.bufOffset + 4 + iterKeylen then scan
        else
          let scan := if isMatch then scan.store entry else scan
          let scan := { scan with pos := scan.pos + 1 }
          if scan.pos = hashSlots then { scan with atEnd := true }
          else scanLoop table hashSlots handle fuel scan
      else scan

def iterEnd : Nat := 0x393

/-- `kv_iter_read`. -/
def kvIterRead (cfg : KvConfig) (host : Memory) (ftl : KvFtl) (iters : IterTable)
    (cmd : IterReadCommand) (status : Nat) : Except Fault IterReply :=
  if iterHandles ≤ cmd.iterHandle then .error (.outOfBounds .kvIterRead)
  else
    match iters cmd.iterHandle with
    | .null => .ok { iters := iters, host := host, result := 0, status := status }
    | .wild => .error (.uninitialized .kvIterRead)
    | .context handle => do
        let scan := scanLoop ftl.mappingTable cfg.hashSlots handle cfg.hashSlots
          { pos := handle.currentPos, buf := handle.buf, bufOffset := 4, nrKeys := 0
            atEnd := false }
        let buf := overwrite scan.buf 0 (intBytes scan.nrKeys)
        let handle := { handle with buf := buf, currentPos := scan.pos }
        let (host, _) ← moveValue cmd.dptr .toHost host buf 0 scan.bufOffset
        return {
          iters := update iters cmd.iterHandle (.context handle)
          host := host
          result := scan.bufOffset
          status := if scan.atEnd then iterEnd else 0 }

/-- The requests of `__do_perform_kv_iter_io`; the options are `ITER_OPTION_OPEN` and
`ITER_OPTION_CLOSE`. -/
def doPerformKvIterReq (memory host : Memory) (iters : IterTable) (cmd : IterReqCommand)
    (status : Nat) : Except Fault IterReply :=
  if cmd.option &&& 0x01 ≠ 0 then .ok (kvIterOpen memory host iters cmd status)
  else if cmd.option &&& 0x02 ≠ 0 then kvIterClose host iters cmd
  else .ok { iters := iters, host := host, result := 0, status := status }

end Reads

end NvmeVirt.KeyValueIterators
