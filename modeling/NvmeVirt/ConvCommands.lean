import NvmeVirt.ConvBuffer
import NvmeVirt.ConvCapacity
import NvmeVirt.PrpTransfer

namespace NvmeVirt.ConvCommands

open ByteMemory
open ConventionalFtl
open FlashGeometry
open PrpTransfer
open WriteBuffer

/-- The opcodes that `conv_proc_nvme_io_cmd` distinguishes. -/
inductive ConvOpcode where
  | flush
  | write
  | read
  | other (code : Nat)
deriving DecidableEq, Repr

structure ConvCommand where
  opcode : ConvOpcode
  rw : RwCommand
deriving DecidableEq, Repr

/-- `NVME_SC_SUCCESS`. -/
def nvmeScSuccess : Nat := 0

section Read

variable (spp : SsdParams)

/-- `blk_in_ssd` is all of an address but the page. -/
def isSameFlashPage (ppa1 ppa2 : Ppa) : Bool :=
  decide (ppa1.blkAddr = ppa2.blkAddr ∧
    ppa1.pg / spp.pgsPerFlashpg = ppa2.pg / spp.pgsPerFlashpg)

/-- The locals `prev_ppa` and `xfer_size` of `conv_read`. -/
structure ReadRun where
  prevPpa : Option Ppa
  xferSize : Nat
deriving DecidableEq, Repr

/-- The read of what has been aggregated, which has a mapped page as soon as it
has a size. -/
def issueRead (run : ReadRun) (s : ConvFtl) : ConvFtl :=
  match run.prevPpa with
  | none => s
  | some ppa =>
      if 0 < run.xferSize then
        s.issue
          { type := .userIo, cmd := .read, xferSize := run.xferSize
            interleavePciDma := true, ppa := ppa }
      else s

/-- One round of the inner loop of `conv_read`. -/
def readLocalLpn (acc : ReadRun × ConvFtl) (localLpn : Nat) : ReadRun × ConvFtl :=
  match acc.2.maptbl localLpn with
  | none => acc
  | some curPpa =>
      if ¬ValidPpa spp curPpa then acc
      else if acc.1.prevPpa.any (isSameFlashPage spp curPpa) then
        ({ acc.1 with xferSize := acc.1.xferSize + spp.pgsz }, acc.2)
      else ({ prevPpa := some curPpa, xferSize := spp.pgsz }, issueRead acc.1 acc.2)

/-- One round of the outer loop of `conv_read`: the pages from `lpn` up to `last`
that lie in the partition of `lpn`. -/
def readPart (nrParts lpn last : Nat) (s : ConvFtl) : ConvFtl :=
  let localLpns := (List.range' lpn ((last - lpn) / nrParts + 1) nrParts).map (· / nrParts)
  let acc := localLpns.foldl (readLocalLpn spp)
    ({ prevPpa := s.maptbl (lpn / nrParts), xferSize := 0 }, s)
  issueRead acc.1 acc.2

/-- `conv_read`; the result is what the handler returns to the dispatcher. -/
def convRead (ns : ConvNs) (cmd : RwCommand) : Bool × ConvNs :=
  let first := startLpn spp cmd
  let last := endLpn spp cmd
  if spp.ttPgs ≤ last / ns.nrParts then (false, ns)
  else
    (true, (List.range' first (min ns.nrParts (last + 1 - first))).foldl (fun ns lpn =>
      let part := lpn % ns.nrParts
      { ns with
        ftls := Function.update ns.ftls part (readPart spp ns.nrParts lpn last (ns.ftls part)) })
      ns)

end Read

section Dispatch

variable (spp : SsdParams) (cpp : ConvParams)

/-- `conv_proc_nvme_io_cmd`: the status of the answer, or `none` when the command is
refused. A flush only waits, and an opcode that is not implemented keeps the
status that `__nvmev_proc_io` starts from. -/
def convProcNvmeIoCmd (ns : ConvNs) (cmd : ConvCommand) : Except Fault (Option Nat × ConvNs) :=
  let answer (ok : Bool) : Option Nat := if ok then some nvmeScSuccess else none
  match cmd.opcode with
  | .write => do
      let (ok, ns) ← convWrite spp cpp ns cmd.rw
      return (answer ok, ns)
  | .read =>
      let (ok, ns) := convRead spp ns cmd.rw
      .ok (answer ok, ns)
  | .flush => .ok (answer true, ns)
  | .other _ => .ok (answer true, ns)

/-- The direction of the transfer of `__do_perform_io`. -/
def direction : ConvOpcode → Direction
  | .write => .toDevice
  | .read => .toHost
  | .flush => .neither
  | .other _ => .neither

/-- A command and the transfer that a worker makes for it when it is not refused;
the offset is a `size_t`. -/
def convServe (pfnValid : Nat → Bool) (dptr : DataPtr) (host storage : Memory) (ns : ConvNs)
    (cmd : ConvCommand) : Except Fault (Option Nat × ConvNs × Memory × Memory) := do
  let (status, ns) ← convProcNvmeIoCmd spp cpp ns cmd
  if status.isNone then
    return (status, ns, host, storage)
  else
    let (host, storage) ← performIo pfnValid dptr (direction cmd.opcode) host storage
      (lbaToByte cmd.rw.slba % 2 ^ 64) (lbaToByte cmd.rw.nrLba)
    return (status, ns, host, storage)

/-- A command is dispatched, or a worker executes one of the scheduled buffer
releases. -/
inductive ConvIoEvent where
  | cmd (cmd : ConvCommand)
  | release (i : Nat)
deriving DecidableEq, Repr

def convIoStep (ns : ConvNs) : ConvIoEvent → Except Fault ConvNs
  | .cmd cmd => do
      let (_, ns) ← convProcNvmeIoCmd spp cpp ns cmd
      return ns
  | .release i => convStep spp cpp ns (.release i)

def convIoRun (ns : ConvNs) (events : List ConvIoEvent) : Except Fault ConvNs :=
  events.foldlM (convIoStep spp cpp) ns

end Dispatch

section Logging

variable {spp : SsdParams} {s s' s'' : ConvFtl} {ns : ConvNs}

def Logged (s s' : ConvFtl) : Prop :=
  ∃ ncmds, s' = { s with ssd := { s.ssd with ncmds := ncmds } }

theorem Logged.refl (s : ConvFtl) : Logged s s := ⟨s.ssd.ncmds, rfl⟩

theorem Logged.trans (h : Logged s s') (h' : Logged s' s'') : Logged s s'' := by
  obtain ⟨ncmds, rfl⟩ := h
  obtain ⟨ncmds', rfl⟩ := h'
  exact ⟨ncmds', rfl⟩

theorem issueRead_logged (run : ReadRun) (s : ConvFtl) : Logged s (issueRead run s) := by
  rw [issueRead]
  split
  · exact .refl s
  · split
    · exact ⟨_, rfl⟩
    · exact .refl s

theorem readLocalLpn_logged (acc : ReadRun × ConvFtl) (localLpn : Nat) :
    Logged acc.2 (readLocalLpn spp acc localLpn).2 := by
  rw [readLocalLpn]
  split
  · exact .refl _
  · split
    · exact .refl _
    · split
      · exact .refl _
      · exact issueRead_logged _ _

theorem foldl_readLocalLpn_logged (localLpns : List Nat) (acc : ReadRun × ConvFtl) :
    Logged acc.2 (localLpns.foldl (readLocalLpn spp) acc).2 := by
  induction localLpns generalizing acc with
  | nil => exact .refl _
  | cons localLpn localLpns ih => exact (readLocalLpn_logged acc localLpn).trans (ih _)

theorem readPart_logged (spp : SsdParams) (nrParts lpn last : Nat) (s : ConvFtl) :
    Logged s (readPart spp nrParts lpn last s) :=
  (foldl_readLocalLpn_logged _ _).trans (issueRead_logged _ _)

structure NsLogged (ns ns' : ConvNs) : Prop where
  nrParts : ns'.nrParts = ns.nrParts
  ftls : ∀ part, Logged (ns.ftls part) (ns'.ftls part)
  writeBuffer : ns'.writeBuffer = ns.writeBuffer
  pending : ns'.pending = ns.pending

theorem NsLogged.refl (ns : ConvNs) : NsLogged ns ns := ⟨rfl, fun _ => .refl _, rfl, rfl⟩

theorem NsLogged.trans {ns' ns'' : ConvNs} (h : NsLogged ns ns') (h' : NsLogged ns' ns'') :
    NsLogged ns ns'' :=
  ⟨h'.nrParts.trans h.nrParts, fun part => (h.ftls part).trans (h'.ftls part),
    h'.writeBuffer.trans h.writeBuffer, h'.pending.trans h.pending⟩

theorem NsLogged.update (ns : ConvNs) (part : Nat) {s : ConvFtl} (h : Logged (ns.ftls part) s) :
    NsLogged ns { ns with ftls := Function.update ns.ftls part s } := by
  refine ⟨rfl, fun p => ?_, rfl, rfl⟩
  rcases eq_or_ne p part with rfl | hne
  · change Logged _ (Function.update ns.ftls p s p)
    rw [Function.update_self]
    exact h
  · change Logged _ (Function.update ns.ftls part s p)
    rw [Function.update_of_ne hne]
    exact .refl _

theorem foldl_readPart_logged (last : Nat) (lpns : List Nat) (ns : ConvNs) :
    NsLogged ns (lpns.foldl (fun ns lpn =>
      let part := lpn % ns.nrParts
      { ns with
        ftls := Function.update ns.ftls part (readPart spp ns.nrParts lpn last (ns.ftls part)) })
      ns) := by
  induction lpns generalizing ns with
  | nil => exact .refl ns
  | cons lpn lpns ih =>
      have hround := NsLogged.update ns (lpn % ns.nrParts)
        (readPart_logged spp ns.nrParts lpn last (ns.ftls (lpn % ns.nrParts)))
      exact hround.trans (ih _)

theorem convRead_logged (ns : ConvNs) (cmd : RwCommand) :
    NsLogged ns (convRead spp ns cmd).2 := by
  rw [convRead]
  dsimp only
  split
  · exact .refl ns
  · exact foldl_readPart_logged _ _ ns

end Logging

end NvmeVirt.ConvCommands
