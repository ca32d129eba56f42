import NvmeVirt.FlashGeometry
import NvmeVirt.PriorityQueue
import NvmeVirt.WriteBuffer

/-!
The conventional FTL of `conv_ftl.c`: page mapping, line management, garbage
collection and the write path. Time is not part of the state; every call of
`ssd_advance_nand` appends its NAND command to a log instead.
-/

namespace NvmeVirt.ConventionalFtl

open NvmeVirt.FlashGeometry
open NvmeVirt.PriorityQueue
open NvmeVirt.WriteBuffer

/-- `USER_IO` and `GC_IO`. -/
inductive IoType where
  | userIo
  | gcIo
deriving DecidableEq, Repr

/-- `PG_FREE`, `PG_INVALID` and `PG_VALID`. -/
inductive PgStatus where
  | free
  | invalid
  | valid
deriving DecidableEq, Repr

inductive NandOp where
  | read
  | write
  | erase
  | nop
deriving DecidableEq, Repr

/-- `struct nand_cmd` without its start time. -/
structure NandCmd where
  type : IoType
  cmd : NandOp
  xferSize : Nat
  interleavePciDma : Bool
  ppa : Ppa
deriving DecidableEq, Repr

/-- The counters of `struct nand_block`. -/
structure NandBlock where
  ipc : Nat
  vpc : Nat
  eraseCnt : Nat
deriving DecidableEq, Repr

/-- The state of `struct ssd` that the FTL works on: page and block status,
and the NAND commands issued so far. -/
structure Ssd where
  pg : Ppa → PgStatus
  blk : Nat × Nat × Nat × Nat → NandBlock
  ncmds : List NandCmd

structure Line where
  id : Nat
  ipc : Nat
  vpc : Nat
  pos : Nat
deriving DecidableEq, Repr

/-- `struct write_pointer`; `curline` is the number of the open line. -/
structure WritePointer where
  curline : Nat
  ch : Nat
  lun : Nat
  pg : Nat
  blk : Nat
  pl : Nat
deriving DecidableEq, Repr

/-- `struct line_mgmt`. The table of lines is the record store of the victim
queue; the two lists hold line numbers. -/
structure LineMgmt where
  victimLinePq : Heap Nat Line
  freeLineList : List Nat
  fullLineList : List Nat
  freeLineCnt : Nat
  victimLineCnt : Nat
  fullLineCnt : Nat

def LineMgmt.lines (lm : LineMgmt) : Nat → Line := lm.victimLinePq.node

structure WriteFlowControl where
  writeCredits : Nat
  creditsToRefill : Nat
deriving DecidableEq, Repr

structure ConvParams where
  gcThresLines : Nat
  gcThresLinesHigh : Nat
  enableGcDelay : Bool
  pbaPcent : Nat

/-- `struct conv_ftl`. `maptbl` is `none` where the source has `UNMAPPED_PPA`
and `rmap` where it has `INVALID_LPN`. -/
structure ConvFtl where
  maptbl : Nat → Option Ppa
  rmap : Nat → Option Nat
  wp : WritePointer
  gcWp : WritePointer
  lm : LineMgmt
  wfc : WriteFlowControl
  ssd : Ssd

/-- `conv_init_params` with the 7% over-provisioning of the conventional
configuration. -/
def convInitParams : ConvParams :=
  { gcThresLines := 2
    gcThresLinesHigh := 2
    enableGcDelay := true
    pbaPcent := 107 }

/-- The callbacks that `init_lines` gives the victim queue: `vpc` is the
priority, and `victim_line_cmp_pri` prefers the smaller one. -/
def victimCallbacks : Callbacks Line :=
  { cmppri := fun next curr => curr < next
    getpri := Line.vpc
    setpri := fun line pri => { line with vpc := pri }
    getpos := Line.pos
    setpos := fun line pos => { line with pos := pos } }

def LineMgmt.setLine (lm : LineMgmt) (l : Nat) (line : Line) : LineMgmt :=
  { lm with victimLinePq :=
      { lm.victimLinePq with
        node := Function.update lm.victimLinePq.node l line } }

/-- `list_del_init` on the list entry of line `l`. -/
def LineMgmt.listDelInit (lm : LineMgmt) (l : Nat) : LineMgmt :=
  { lm with
    freeLineList := lm.freeLineList.erase l
    fullLineList := lm.fullLineList.erase l }

/-- `ssd_advance_nand`, as far as the FTL state is concerned. -/
def ConvFtl.issue (s : ConvFtl) (ncmd : NandCmd) : ConvFtl :=
  { s with ssd := { s.ssd with ncmds := s.ssd.ncmds ++ [ncmd] } }

section Operations

variable (spp : SsdParams) (cpp : ConvParams)

def lastPgInWordline (ppa : Ppa) : Bool :=
  ppa.pg % spp.pgsPerOneshotpg == spp.pgsPerOneshotpg - 1

def shouldGcHigh (s : ConvFtl) : Bool :=
  s.lm.freeLineCnt ≤ cpp.gcThresLinesHigh

def setMaptblEnt (lpn : Nat) (ppa : Ppa) (s : ConvFtl) : Except Fault ConvFtl := do
  nvmevAssert (lpn < spp.ttPgs) .setMaptblEnt
  return { s with maptbl := Function.update s.maptbl lpn (some ppa) }

def getRmapEnt (ppa : Ppa) (s : ConvFtl) : Except Fault (Option Nat) := do
  nvmevAssert (ppa2pgidx spp ppa < spp.ttPgs) .ppa2pgidx
  return s.rmap (ppa2pgidx spp ppa)

/-- `set_rmap_ent`; `none` stores `INVALID_LPN`. -/
def setRmapEnt (lpn : Option Nat) (ppa : Ppa) (s : ConvFtl) :
    Except Fault ConvFtl := do
  nvmevAssert (ppa2pgidx spp ppa < spp.ttPgs) .ppa2pgidx
  return { s with rmap := Function.update s.rmap (ppa2pgidx spp ppa) lpn }

/-- `init_lines`: every line is free. -/
def initLines : Except Fault LineMgmt := do
  nvmevAssert (spp.blksPerPl = spp.ttLines) .initLines
  return {
    victimLinePq :=
      { size := 1
        d := fun _ => 0
        node := fun i => { id := i, ipc := 0, vpc := 0, pos := 0 } }
    freeLineList := List.range spp.blksPerPl
    fullLineList := []
    freeLineCnt := spp.blksPerPl
    victimLineCnt := 0
    fullLineCnt := 0 }

/-- `init_write_flow_control`; the fields are `uint32_t`. -/
def initWriteFlowControl : WriteFlowControl :=
  { writeCredits := spp.pgsPerLine % 2 ^ 32
    creditsToRefill := spp.pgsPerLine % 2 ^ 32 }

def getNextFreeLine (lm : LineMgmt) : Except Fault (Nat × LineMgmt) :=
  match lm.freeLineList with
  | [] => .error .noFreeLine
  | curline :: _ =>
      let lm := lm.listDelInit curline
      .ok (curline, { lm with freeLineCnt := lm.freeLineCnt - 1 })

def ConvFtl.getWp (s : ConvFtl) : IoType → WritePointer
  | .userIo => s.wp
  | .gcIo => s.gcWp

/-- Store back what the source changes through the pointer of `__get_wp`. -/
def ConvFtl.setWp (s : ConvFtl) (io : IoType) (wp : WritePointer) : ConvFtl :=
  match io with
  | .userIo => { s with wp := wp }
  | .gcIo => { s with gcWp := wp }

def prepareWritePointer (io : IoType) (s : ConvFtl) : Except Fault ConvFtl := do
  let (curline, lm) ← getNextFreeLine s.lm
  return { s with lm := lm }.setWp io
    { curline := curline, ch := 0, lun := 0, pg := 0
      blk := (lm.lines curline).id, pl := 0 }

/-- The end of a line in `advance_write_pointer`: the line goes to the full
list or to the victim queue, and the next free line is opened. -/
def closeLine (io : IoType) (wpp : WritePointer) (s : ConvFtl) :
    Except Fault ConvFtl := do
  let line := s.lm.lines wpp.curline
  let lm ←
    if line.vpc = spp.pgsPerLine then do
      nvmevAssert (line.ipc = 0) .advanceWritePointer
      pure { s.lm with
        fullLineList := s.lm.fullLineList ++ [wpp.curline]
        fullLineCnt := s.lm.fullLineCnt + 1 }
    else do
      nvmevAssert (line.vpc < spp.pgsPerLine) .advanceWritePointer
      nvmevAssert (0 < line.ipc) .advanceWritePointer
      pure { s.lm with
        victimLinePq := pqueueInsert victimCallbacks s.lm.victimLinePq wpp.curline
        victimLineCnt := s.lm.victimLineCnt + 1 }
  nvmevAssert (wpp.blk < spp.blksPerPl) .advanceWritePointer
  let (curline, lm) ← getNextFreeLine lm
  let wpp := { wpp with curline := curline, blk := (lm.lines curline).id }
  nvmevAssert (wpp.blk < spp.blksPerPl) .advanceWritePointer
  nvmevAssert (wpp.pg = 0 ∧ wpp.lun = 0 ∧ wpp.ch = 0 ∧ wpp.pl = 0)
    .advanceWritePointer
  return { s with lm := lm }.setWp io wpp

/-- `advance_write_pointer`: pages of a one-shot page, then channels, then
LUNs, then word lines. -/
def advanceWritePointer (io : IoType) (s : ConvFtl) : Except Fault ConvFtl := do
  let wpp := s.getWp io
  nvmevAssert (wpp.pg < spp.pgsPerBlk) .advanceWritePointer
  let wpp := { wpp with pg := wpp.pg + 1 }
  if wpp.pg % spp.pgsPerOneshotpg ≠ 0 then
    return s.setWp io wpp
  else
    let wpp := { wpp with pg := wpp.pg - spp.pgsPerOneshotpg }
    nvmevAssert (wpp.ch < spp.nchs) .advanceWritePointer
    let wpp := { wpp with ch := wpp.ch + 1 }
    if wpp.ch ≠ spp.nchs then
      return s.setWp io wpp
    else
      let wpp := { wpp with ch := 0 }
      nvmevAssert (wpp.lun < spp.lunsPerCh) .advanceWritePointer
      let wpp := { wpp with lun := wpp.lun + 1 }
      if wpp.lun ≠ spp.lunsPerCh then
        return s.setWp io wpp
      else
        let wpp := { wpp with lun := 0, pg := wpp.pg + spp.pgsPerOneshotpg }
        if wpp.pg ≠ spp.pgsPerBlk then
          return s.setWp io wpp
        else
          closeLine spp io { wpp with pg := 0 } s

def getNewPage (io : IoType) (s : ConvFtl) : Except Fault Ppa := do
  let wp := s.getWp io
  let ppa := Ppa.ofFields wp.ch wp.lun wp.pl wp.blk wp.pg
  nvmevAssert (ppa.pl = 0) .getNewPage
  return ppa

/-- The device that `ssd_init` and `conv_init_ftl` start from. -/
def freshFtl (lm : LineMgmt) : ConvFtl :=
  { maptbl := fun _ => none
    rmap := fun _ => none
    wp := { curline := 0, ch := 0, lun := 0, pg := 0, blk := 0, pl := 0 }
    gcWp := { curline := 0, ch := 0, lun := 0, pg := 0, blk := 0, pl := 0 }
    lm := lm
    wfc := { writeCredits := 0, creditsToRefill := 0 }
    ssd :=
      { pg := fun _ => .free
        blk := fun _ => { ipc := 0, vpc := 0, eraseCnt := 0 }
        ncmds := [] } }

def convInitFtl : Except Fault ConvFtl := do
  let lm ← initLines spp
  let s ← prepareWritePointer .userIo (freshFtl lm)
  let s ← prepareWritePointer .gcIo s
  return { s with wfc := initWriteFlowControl spp }

def markPageInvalid (ppa : Ppa) (s : ConvFtl) : Except Fault ConvFtl := do
  nvmevAssert (s.ssd.pg ppa = .valid) .markPageInvalid
  let blk := s.ssd.blk ppa.blkAddr
  nvmevAssert (blk.ipc < spp.pgsPerBlk) .markPageInvalid
  nvmevAssert (0 < blk.vpc ∧ blk.vpc ≤ spp.pgsPerBlk) .markPageInvalid
  let ssd := { s.ssd with
    pg := Function.update s.ssd.pg ppa .invalid
    blk := Function.update s.ssd.blk ppa.blkAddr
      { blk with ipc := blk.ipc + 1, vpc := blk.vpc - 1 } }
  let line := s.lm.lines ppa.blk
  nvmevAssert (line.ipc < spp.pgsPerLine) .markPageInvalid
  let wasFullLine := decide (line.vpc = spp.pgsPerLine)
  nvmevAssert (wasFullLine → line.ipc = 0) .markPageInvalid
  nvmevAssert (0 < line.vpc ∧ line.vpc ≤ spp.pgsPerLine) .markPageInvalid
  let lm := s.lm.setLine ppa.blk { line with ipc := line.ipc + 1 }
  let lm :=
    if line.pos ≠ 0 then
      { lm with victimLinePq :=
          pqueueChangePriority victimCallbacks lm.victimLinePq (line.vpc - 1) ppa.blk }
    else lm.setLine ppa.blk { line with ipc := line.ipc + 1, vpc := line.vpc - 1 }
  let lm :=
    if wasFullLine then
      let lm := lm.listDelInit ppa.blk
      { lm with
        fullLineCnt := lm.fullLineCnt - 1
        victimLinePq := pqueueInsert victimCallbacks lm.victimLinePq ppa.blk
        victimLineCnt := lm.victimLineCnt + 1 }
    else lm
  return { s with ssd := ssd, lm := lm }

def markPageValid (ppa : Ppa) (s : ConvFtl) : Except Fault ConvFtl := do
  nvmevAssert (s.ssd.pg ppa = .free) .markPageValid
  let blk := s.ssd.blk ppa.blkAddr
  nvmevAssert (blk.vpc < spp.pgsPerBlk) .markPageValid
  let line := s.lm.lines ppa.blk
  nvmevAssert (line.vpc < spp.pgsPerLine) .markPageValid
  return { s with
    ssd := { s.ssd with
      pg := Function.update s.ssd.pg ppa .valid
      blk := Function.update s.ssd.blk ppa.blkAddr { blk with vpc := blk.vpc + 1 } }
    lm := s.lm.setLine ppa.blk { line with vpc := line.vpc + 1 } }

def markBlockFree (ppa : Ppa) (s : ConvFtl) : ConvFtl :=
  let blk := s.ssd.blk ppa.blkAddr
  { s with ssd := { s.ssd with
      pg := fun p =>
        if p.blkAddr = ppa.blkAddr ∧ p.pg < spp.pgsPerBlk then .free else s.ssd.pg p
      blk := Function.update s.ssd.blk ppa.blkAddr
        { ipc := 0, vpc := 0, eraseCnt := blk.eraseCnt + 1 } } }

def gcWritePage (oldPpa : Ppa) (s : ConvFtl) : Except Fault ConvFtl := do
  match ← getRmapEnt spp oldPpa s with
  | none => .error (.bugOn .gcWritePage)
  | some lpn => do
      nvmevAssert (lpn < spp.ttPgs) .gcWritePage
      let newPpa ← getNewPage .gcIo s
      let s ← setMaptblEnt spp lpn newPpa s
      let s ← setRmapEnt spp (some lpn) newPpa s
      let s ← markPageValid spp newPpa s
      let s ← advanceWritePointer spp .gcIo s
      if cpp.enableGcDelay then
        if lastPgInWordline spp newPpa then
          return s.issue
            { type := .gcIo, cmd := .write
              xferSize := spp.pgsz * spp.pgsPerOneshotpg
              interleavePciDma := false, ppa := newPpa }
        else
          return s.issue
            { type := .gcIo, cmd := .nop, xferSize := 0
              interleavePciDma := false, ppa := newPpa }
      else
        return s

def selectVictimLine (force : Bool) (s : ConvFtl) : Option (Nat × ConvFtl) :=
  match pqueuePeek s.lm.victimLinePq with
  | none => none
  | some victim =>
      if !force && spp.pgsPerLine / 8 < (s.lm.lines victim).vpc then none
      else
        let pq := pqueuePop victimCallbacks s.lm.victimLinePq
        some (victim,
          { s with lm :=
            { s.lm with
              victimLinePq := clearPos victimCallbacks pq victim
              victimLineCnt := s.lm.victimLineCnt - 1 } })

/-- `ppa_copy.g.pg++`, repeated `i` times. -/
def Ppa.addPg (ppa : Ppa) (i : Nat) : Ppa :=
  { ppa with pg := (ppa.pg + i) % 2 ^ 16 }

/-- The first loop of `clean_one_flashpg`: the number of valid pages. -/
def countValid (ppa : Ppa) (s : ConvFtl) : Except Fault Nat :=
  (List.range spp.pgsPerFlashpg).foldlM (fun cnt i => do
    let status := s.ssd.pg (Ppa.addPg ppa i)
    nvmevAssert (status ≠ .free) .cleanOneFlashpg
    return if status = .valid then cnt + 1 else cnt) 0

def cleanOneFlashpg (ppa : Ppa) (s : ConvFtl) : Except Fault ConvFtl := do
  let cnt ← countValid spp ppa s
  if cnt = 0 then
    return s
  else
    let s :=
      if cpp.enableGcDelay then
        s.issue
          { type := .gcIo, cmd := .read, xferSize := spp.pgsz * cnt
            interleavePciDma := false, ppa := ppa }
      else s
    (List.range spp.pgsPerFlashpg).foldlM (fun s i =>
      let page := Ppa.addPg ppa i
      if s.ssd.pg page = .valid then gcWritePage spp cpp page s else .ok s) s

def markLineFree (l : Nat) (s : ConvFtl) : ConvFtl :=
  let line := s.lm.lines l
  let lm := s.lm.setLine l { line with ipc := 0, vpc := 0 }
  { s with lm :=
    { lm with
      freeLineList := lm.freeLineList ++ [l]
      freeLineCnt := lm.freeLineCnt + 1 } }

/-- The body of the loops of `do_gc`: clean one flash page of the victim and,
at the last flash page of a block, erase the block. -/
def gcFlashpg (blk flashpg ch lun : Nat) (s : ConvFtl) : Except Fault ConvFtl := do
  let ppa := Ppa.ofFields ch lun 0 blk (flashpg * spp.pgsPerFlashpg)
  let s ← cleanOneFlashpg spp cpp ppa s
  if flashpg = spp.flashpgsPerBlk - 1 then
    let s := markBlockFree spp ppa s
    if cpp.enableGcDelay then
      return s.issue
        { type := .gcIo, cmd := .erase, xferSize := 0
          interleavePciDma := false, ppa := ppa }
    else
      return s
  else
    return s

/-- `do_gc`; the result is -1 when there is no victim and 0 otherwise. -/
def doGc (force : Bool) (s : ConvFtl) : Except Fault (Int × ConvFtl) :=
  match selectVictimLine spp force s with
  | none => .ok (-1, s)
  | some (victim, s) => do
      let line := s.lm.lines victim
      let s := { s with wfc := { s.wfc with creditsToRefill := line.ipc } }
      let s ← (List.range spp.flashpgsPerBlk).foldlM (fun s flashpg =>
        (List.range spp.nchs).foldlM (fun s ch =>
          (List.range spp.lunsPerCh).foldlM (fun s lun =>
            gcFlashpg spp cpp line.id flashpg ch lun s) s) s) s
      return (0, markLineFree line.id s)

def foregroundGc (s : ConvFtl) : Except Fault ConvFtl :=
  if shouldGcHigh cpp s then do
    let (_, s) ← doGc spp cpp true s
    return s
  else .ok s

/-- `consume_write_credit`; the decrement of a `uint32_t` wraps at 0. -/
def consumeWriteCredit (s : ConvFtl) : ConvFtl :=
  { s with wfc := { s.wfc with
      writeCredits :=
        if s.wfc.writeCredits = 0 then 2 ^ 32 - 1 else s.wfc.writeCredits - 1 } }

def checkAndRefillWriteCredit (s : ConvFtl) : Except Fault ConvFtl :=
  if s.wfc.writeCredits = 0 then do
    let s ← foregroundGc spp cpp s
    return { s with wfc := { s.wfc with
      writeCredits := (s.wfc.writeCredits + s.wfc.creditsToRefill) % 2 ^ 32 } }
  else .ok s

/-- The mapping part of one round of `conv_write`: retire the old page of the
LPN, take the next page of the host line and advance. -/
def remapLpn (localLpn : Nat) (s : ConvFtl) : Except Fault (Ppa × ConvFtl) := do
  let s ←
    match s.maptbl localLpn with
    | some ppa => do
        let s ← markPageInvalid spp ppa s
        setRmapEnt spp none ppa s
    | none => pure s
  let ppa ← getNewPage .userIo s
  let s ← setMaptblEnt spp localLpn ppa s
  let s ← setRmapEnt spp (some localLpn) ppa s
  let s ← markPageValid spp ppa s
  let s ← advanceWritePointer spp .userIo s
  return (ppa, s)

/-- One round of the loop of `conv_write` on its partition. The flag tells
whether a one-shot page was completed and its buffer space scheduled for
release. -/
def writeLocalLpn (localLpn : Nat) (s : ConvFtl) : Except Fault (Bool × ConvFtl) := do
  let (ppa, s) ← remapLpn spp localLpn s
  let flush := lastPgInWordline spp ppa
  let s :=
    if flush then
      s.issue
        { type := .userIo, cmd := .write
          xferSize := spp.pgsz * spp.pgsPerOneshotpg
          interleavePciDma := false, ppa := ppa }
    else s
  let s ← checkAndRefillWriteCredit spp cpp (consumeWriteCredit s)
  return (flush, s)

end Operations

/-- The `struct nvmev_ns` of a conventional SSD: one FTL per partition, the
shared write buffer, and the buffer releases handed to
`schedule_internal_operation` that no worker has executed yet. -/
structure ConvNs where
  nrParts : Nat
  ftls : Nat → ConvFtl
  writeBuffer : Buffer
  pending : List Nat

/-- The fields of `struct nvme_rw_command` that the mapping depends on. -/
structure RwCommand where
  slba : Nat
  length : Nat
deriving DecidableEq, Repr

section Namespace

variable (spp : SsdParams) (cpp : ConvParams)

/-- `conv_init_namespace`: all partitions start from `conv_init_ftl`. -/
def convInitNamespace (nrParts : Nat) : Except Fault ConvNs := do
  let s ← convInitFtl spp
  return {
    nrParts := nrParts
    ftls := fun _ => s
    writeBuffer := bufferInit spp.writeBufferSize
    pending := [] }

def RwCommand.nrLba (cmd : RwCommand) : Nat := cmd.length + 1

def startLpn (cmd : RwCommand) : Nat := cmd.slba / spp.secsPerPg

/-- The last LPN; the last LBA is a `uint64_t`. -/
def endLpn (cmd : RwCommand) : Nat :=
  (cmd.slba + cmd.nrLba - 1) % 2 ^ 64 / spp.secsPerPg

/-- One round of the loop of `conv_write`. -/
def writeLpn (ns : ConvNs) (lpn : Nat) : Except Fault ConvNs := do
  let part := lpn % ns.nrParts
  let (flush, s) ← writeLocalLpn spp cpp (lpn / ns.nrParts) (ns.ftls part)
  return { ns with
    ftls := Function.update ns.ftls part s
    pending :=
      if flush then ns.pending ++ [spp.pgsPerOneshotpg * spp.pgsz] else ns.pending }

/-- The LPNs that the loop of `conv_write` runs over. -/
def cmdLpns (cmd : RwCommand) : List Nat :=
  List.range' (startLpn spp cmd) (endLpn spp cmd + 1 - startLpn spp cmd)

/-- `conv_write`; the result is what the handler returns to the dispatcher. -/
def convWrite (ns : ConvNs) (cmd : RwCommand) : Except Fault (Bool × ConvNs) := do
  if spp.ttPgs ≤ endLpn spp cmd / ns.nrParts then
    return (false, ns)
  else
    let bytes := lbaToByte cmd.nrLba
    let (allocated, buf) ← bufferAllocate ns.writeBuffer bytes
    let ns := { ns with writeBuffer := buf }
    if allocated < bytes then
      return (false, ns)
    else
      let ns ← (cmdLpns spp cmd).foldlM (writeLpn spp cpp) ns
      return (true, ns)

/-- What happens to a conventional namespace: a write command is dispatched,
or a worker executes one of the scheduled buffer releases. -/
inductive ConvEvent where
  | write (cmd : RwCommand)
  | release (i : Nat)
deriving DecidableEq, Repr

def convStep (ns : ConvNs) : ConvEvent → Except Fault ConvNs
  | .write cmd => do
      let (_, ns) ← convWrite spp cpp ns cmd
      return ns
  | .release i =>
      match ns.pending[i]? with
      | none => .ok ns
      | some bytes =>
          .ok { ns with
            writeBuffer := bufferRelease ns.writeBuffer bytes
            pending := ns.pending.eraseIdx i }

def convRun (ns : ConvNs) (events : List ConvEvent) : Except Fault ConvNs :=
  events.foldlM (convStep spp cpp) ns

end Namespace

end NvmeVirt.ConventionalFtl
