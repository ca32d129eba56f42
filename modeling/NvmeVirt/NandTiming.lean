import NvmeVirt.ChannelTimeline
import NvmeVirt.ConventionalFtl

/-!
The timing model of `ssd.c`: each LUN is busy until its `next_lun_avail_time`,
transfers go through the credit models of the channels and of the PCIe link,
and a flush waits for the last LUN.
-/

namespace NvmeVirt.NandTiming

open NvmeVirt.ChannelModel
open NvmeVirt.ConventionalFtl
open NvmeVirt.FaultOutcome
open NvmeVirt.FlashGeometry
open NvmeVirt.WriteBuffer

/-- The latencies of `struct ssdparams`. -/
structure NandLatencies where
  cellMode : Nat
  pg4kbRdLat : Nat → Nat
  pgRdLat : Nat → Nat
  pgWrLat : Nat
  blkErLat : Nat
  maxChXferSize : Nat
  maxChXferSize_pos : 0 < maxChXferSize

/-- `struct nand_cmd`; the address `none` is `UNMAPPED_PPA`. -/
structure TimedCmd where
  cmd : NandOp
  xferSize : Nat
  stime : Nat
  interleavePciDma : Bool
  ppa : Option Ppa

/-- The times kept in the `struct ssd` of every partition of a namespace; all
partitions share one PCIe link. -/
structure NandTimes where
  nextLunAvailTime : Nat → Nat → Nat → Nat
  perfModel : Nat → Nat → Channel
  pcie : Channel

/-- `lun->next_lun_avail_time = time`. -/
def NandTimes.setAvail (s : NandTimes) (part ch lun time : Nat) : NandTimes :=
  { s with
    nextLunAvailTime := fun p c l =>
      if p = part ∧ c = ch ∧ l = lun then time else s.nextLunAvailTime p c l }

def NandTimes.setPerfModel (s : NandTimes) (part ch : Nat) (model : Channel) : NandTimes :=
  { s with perfModel := fun p c => if p = part ∧ c = ch then model else s.perfModel p c }

/-- What a call of `ssd_advance_nand` returns and leaves: `nand_stime` is the
time its NAND work starts, and `sums` lists the values of its 64-bit sums before
they are cut to 64 bits. -/
structure NandReply where
  times : NandTimes
  nandStime : Option Nat
  completedTime : Nat
  sums : List Nat

/-- `ssd_advance_pcie`. -/
def ssdAdvancePcie (s : NandTimes) (clock requestTime length : Nat) :
    Except Fault (NandTimes × ChannelReply) := do
  let reply ← chmodelRequest s.pcie clock requestTime length
  return ({ s with pcie := reply.channel }, reply)

section Advance

variable (spp : SsdParams) (lat : NandLatencies)

/-- `get_cell`. -/
def getCell (ppa : Ppa) : Nat := ppa.pg / spp.pgsPerFlashpg % lat.cellMode

structure Transfer where
  times : NandTimes
  chnlTime : Nat
  completedTime : Nat
  sums : List Nat

def readLatency (ncmd : TimedCmd) (ppa : Ppa) : Nat :=
  if ncmd.xferSize = 4096 then lat.pg4kbRdLat (getCell spp lat ppa)
  else lat.pgRdLat (getCell spp lat ppa)

/-- The transfer begins when the page is sensed; nothing is completed yet. -/
def startTransfer (s : NandTimes) (nandStime rdLat : Nat) : Transfer where
  times := s
  chnlTime := (nandStime + rdLat) % 2 ^ 64
  completedTime := 0
  sums := [nandStime + rdLat]

/-- One round of the loop, reading the clock once for each credit model. -/
def transferPiece (part ch : Nat) (interleave : Bool) (clock : Nat → Nat) (round : Nat)
    (t : Transfer) (xferSize : Nat) : Except Fault Transfer := do
  let reply ← chmodelRequest (t.times.perfModel part ch) (clock (2 * round + 1)) t.chnlTime
    xferSize
  let times := t.times.setPerfModel part ch reply.channel
  if interleave then do
    -- the PCIe transfer overlaps the next piece on the channel
    let (times, dma) ← ssdAdvancePcie times (clock (2 * round + 2)) reply.time xferSize
    return {
      times := times
      chnlTime := reply.time
      completedTime := dma.time
      sums := t.sums ++ [t.chnlTime + reply.latency, reply.time + dma.latency] }
  else
    return {
      times := times
      chnlTime := reply.time
      completedTime := reply.time
      sums := t.sums ++ [t.chnlTime + reply.latency] }

/-- The loop of a read over pieces of at most `max_ch_xfer_size` bytes. -/
def transferLoop (part ch : Nat) (interleave : Bool) (clock : Nat → Nat) :
    Nat → Nat → Transfer → Nat → Except Fault Transfer
  | 0, _, _, _ => .error (.endlessLoop .ssdAdvanceNand)
  | fuel + 1, round, t, remaining =>
      if remaining = 0 then .ok t
      else do
        let xferSize := min remaining lat.maxChXferSize
        let t ← transferPiece part ch interleave clock round t xferSize
        transferLoop part ch interleave clock fuel (round + 1) t (remaining - xferSize)

/-- `cmd_stime`: the start time 0 means now. -/
def cmdStime (clock : Nat → Nat) (ncmd : TimedCmd) : Nat :=
  if ncmd.stime = 0 then clock 0 else ncmd.stime

/-- `ssd_advance_nand` on a mapped page. -/
def advanceLun (s : NandTimes) (part : Nat) (clock : Nat → Nat) (ncmd : TimedCmd) (ppa : Ppa) :
    Except Fault NandReply := do
  let stime := max (s.nextLunAvailTime part ppa.ch ppa.lun) (cmdStime clock ncmd)
  match ncmd.cmd with
  | .read =>
      -- read: perform NAND cmd first, then data transfer through channel
      if ncmd.xferSize = 0 then .error (.uninitialized .ssdAdvanceNand)
      else do
        let t ← transferLoop lat part ppa.ch ncmd.interleavePciDma clock (ncmd.xferSize + 1) 0
          (startTransfer s stime (readLatency spp lat ncmd ppa)) ncmd.xferSize
        return {
          times := t.times.setAvail part ppa.ch ppa.lun t.chnlTime
          nandStime := some stime
          completedTime := t.completedTime
          sums := t.sums }
  | .write =>
      -- write: transfer data through channel first, then do NAND program
      let reply ← chmodelRequest (s.perfModel part ppa.ch) (clock 1) stime ncmd.xferSize
      let nandEtime := (reply.time + lat.pgWrLat) % 2 ^ 64
      return {
        times := (s.setPerfModel part ppa.ch reply.channel).setAvail part ppa.ch ppa.lun nandEtime
        nandStime := some reply.time
        completedTime := nandEtime
        sums := [stime + reply.latency, reply.time + lat.pgWrLat] }
  | .erase =>
      let nandEtime := (stime + lat.blkErLat) % 2 ^ 64
      return {
        times := s.setAvail part ppa.ch ppa.lun nandEtime
        nandStime := some stime
        completedTime := nandEtime
        sums := [stime + lat.blkErLat] }
  | .nop =>
      return {
        times := s.setAvail part ppa.ch ppa.lun stime
        nandStime := some stime
        completedTime := stime
        sums := [] }

/-- `ssd_advance_nand`; `clock` gives the readings of the clock during the
call, the first one for the start time 0. The four commands of the enumeration
are all there are, so the source's `default` has no case here. -/
def ssdAdvanceNand (s : NandTimes) (part : Nat) (clock : Nat → Nat) (ncmd : TimedCmd) :
    Except Fault NandReply :=
  match ncmd.ppa with
  | none =>
      .ok {
        times := s
        nandStime := none
        completedTime := cmdStime clock ncmd
        sums := [] }
  | some ppa => advanceLun spp lat s part clock ncmd ppa

/-- `ssd_next_idle_time`. -/
def ssdNextIdleTime (s : NandTimes) (part ioclock : Nat) : Nat :=
  (List.range spp.nchs).foldl (fun latest ch =>
    (List.range spp.lunsPerCh).foldl (fun latest lun =>
      max latest (s.nextLunAvailTime part ch lun)) latest) ioclock

/-- The loop that `conv_flush` and `zns_flush` share. -/
def flushTarget (s : NandTimes) (nrParts start : Nat) (ioclock : Nat → Nat) : Nat :=
  (List.range nrParts).foldl (fun latest part =>
    max latest (ssdNextIdleTime spp s part (ioclock part))) start

/-- The target time of `conv_flush`. -/
def convFlush (s : NandTimes) (nrParts start : Nat) (ioclock : Nat → Nat) : Nat :=
  flushTarget spp s nrParts start ioclock

/-- The target time of `zns_flush`; a zoned namespace has one partition. -/
def znsFlush (s : NandTimes) (start : Nat) (ioclock : Nat → Nat) : Nat :=
  flushTarget spp s 1 start ioclock

end Advance

end NvmeVirt.NandTiming
