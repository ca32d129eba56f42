import NvmeVirt.CommandLog
import NvmeVirt.NandOrdering
import NvmeVirt.RunProjection

/-!
When the commands of a conventional namespace complete. The handlers are those of the
FTL, with the times that `ssd_advance_nand` and `ssd_advance_write_buffer` return; every
NAND command of the FTL takes its turn on the LUN that it names.
-/

namespace NvmeVirt.CommandTiming

open NvmeVirt.ChannelModel
open NvmeVirt.CommandLog
open NvmeVirt.ConvCommands
open NvmeVirt.ConvReads
open NvmeVirt.ConvProgress
open NvmeVirt.ConvRuns
open NvmeVirt.ConventionalFtl
open NvmeVirt.FaultOutcome
open NvmeVirt.FlashGeometry
open NvmeVirt.NandDiscipline
open NvmeVirt.NandTiming
open NvmeVirt.RunProjection
open NvmeVirt.SequentialBlocks
open NvmeVirt.WriteBuffer

/-- The firmware latencies of `struct ssdparams` and `write_early_completion`. -/
structure FwLatencies where
  fw4kbRdLat : Nat
  fwRdLat : Nat
  fwWbufLat0 : Nat
  fwWbufLat1 : Nat
  writeEarlyCompletion : Bool

/-- A `struct nvmev_request`; `clock` gives the readings of the clock that the handler
makes besides those for NAND commands. -/
structure Request where
  cmd : ConvCommand
  fua : Bool
  nsecsStart : Nat
  clock : Nat → Nat

/-- A namespace with the times of its NAND. `targets` are the times at which the
releases of `pending` are due, `sums` the values of the 64-bit sums of the handlers before
they are cut. -/
structure TimedConv where
  ns : ConvNs
  nand : TimedNs
  targets : List Nat
  sums : List Nat

section Handlers

variable (spp : SsdParams) (cpp : ConvParams) (lat : NandLatencies) (fw : FwLatencies)
  (nandClock : Nat → Nat → Nat)

/-- What `ssd_advance_write_buffer` returns and leaves. -/
structure BufferReply where
  times : NandTimes
  nsecsLatest : Nat
  sums : List Nat

/-- `ssd_advance_write_buffer`. -/
def ssdAdvanceWriteBuffer (s : NandTimes) (clock requestTime length : Nat) :
    Except Fault BufferReply := do
  let first := requestTime + fw.fwWbufLat0
  let second := first % 2 ^ 64 + fw.fwWbufLat1 * divRoundUp length 4096
  let (times, reply) ← ssdAdvancePcie s clock (second % 2 ^ 64) length
  return {
    times := times
    nsecsLatest := reply.time
    sums := [first, second, second % 2 ^ 64 + reply.latency] }

/-- The `struct nand_cmd` of a command of the FTL. Garbage collection leaves the start
time 0. -/
def timedCmd (stime : Nat) (ncmd : NandCmd) : TimedCmd where
  cmd := ncmd.cmd
  xferSize := ncmd.xferSize
  stime :=
    match ncmd.type with
    | .userIo => stime
    | .gcIo => 0
  interleavePciDma := ncmd.interleavePciDma
  ppa := some ncmd.ppa

/-- A call of `ssd_advance_nand` by a handler that keeps the maximum of the completion
times of its own commands in `nsecs_latest`. A program of the host schedules the release
of its buffer space. -/
def advanceCmd (stime part : Nat) (acc : TimedConv × Nat) (ncmd : NandCmd) :
    Except Fault (TimedConv × Nat) := do
  let (s, nsecsLatest) := acc
  let call : NandCall := ⟨part, nandClock s.nand.log.length, timedCmd stime ncmd⟩
  let reply ← ssdAdvanceNand spp lat s.nand.times part call.clock call.ncmd
  let s := { s with nand :=
    { times := reply.times, log := s.nand.log ++ [⟨call, s.nand.times, reply⟩] } }
  match ncmd.type with
  | .gcIo => return (s, nsecsLatest)
  | .userIo =>
      let targets := if ncmd.cmd = .write then s.targets ++ [reply.completedTime] else s.targets
      return ({ s with targets := targets }, max reply.completedTime nsecsLatest)

/-- The NAND commands of partition `part` on the way to `ns` take their turns. -/
def advanceCmds (stime part : Nat) (acc : TimedConv × Nat) (ns : ConvNs) :
    Except Fault (TimedConv × Nat) :=
  (issuedSince (acc.1.ns.ftls part) (ns.ftls part)).foldlM
    (advanceCmd spp lat nandClock stime part) ({ acc.1 with ns := ns }, acc.2)

/-- One round of the loop of `conv_write`. -/
def timedWriteLpn (stime : Nat) (acc : TimedConv × Nat) (lpn : Nat) :
    Except Fault (TimedConv × Nat) := do
  let ns ← writeLpn spp cpp acc.1.ns lpn
  advanceCmds spp lat nandClock stime (lpn % acc.1.ns.nrParts) acc ns

/-- `conv_write`: the target time, or `none` when the command is refused. -/
def timedWrite (s : TimedConv) (req : Request) : Except Fault (Option Nat × TimedConv) := do
  let cmd := req.cmd.rw
  if spp.ttPgs ≤ endLpn spp cmd / s.ns.nrParts then
    return (none, s)
  else
    let bytes := lbaToByte cmd.nrLba
    let (allocated, buf) ← bufferAllocate s.ns.writeBuffer bytes
    let s := { s with ns := { s.ns with writeBuffer := buf } }
    if allocated < bytes then
      return (none, s)
    else
      let reply ← ssdAdvanceWriteBuffer fw s.nand.times (req.clock 0) req.nsecsStart bytes
      let nsecsXferCompleted := reply.nsecsLatest
      let s := { s with
        nand := { s.nand with times := reply.times }
        sums := s.sums ++ reply.sums }
      let (s, nsecsLatest) ← (cmdLpns spp cmd).foldlM
        (timedWriteLpn spp cpp lat nandClock nsecsXferCompleted) (s, nsecsXferCompleted)
      if req.fua || !fw.writeEarlyCompletion then
        -- wait for all flash operations
        return (some nsecsLatest, s)
      else
        return (some nsecsXferCompleted, s)

/-- One round of the outer loop of `conv_read`. -/
def timedReadRound (last stime : Nat) (acc : TimedConv × Nat) (lpn : Nat) :
    Except Fault (TimedConv × Nat) :=
  advanceCmds spp lat nandClock stime (lpn % acc.1.ns.nrParts) acc
    (readRound spp last acc.1.ns lpn)

/-- The firmware overhead of a read; `KB(4) * nr_parts` is a `uint32_t`. -/
def readOverhead (nrParts : Nat) (cmd : RwCommand) : Nat :=
  if lbaToByte cmd.nrLba ≤ 4096 * nrParts % 2 ^ 32 then fw.fw4kbRdLat else fw.fwRdLat

/-- `conv_read`. -/
def timedRead (s : TimedConv) (req : Request) : Except Fault (Option Nat × TimedConv) := do
  let cmd := req.cmd.rw
  let first := startLpn spp cmd
  let last := endLpn spp cmd
  if spp.ttPgs ≤ last / s.ns.nrParts then
    return (none, s)
  else
    let stime := req.nsecsStart + readOverhead fw s.ns.nrParts cmd
    let (s, nsecsLatest) ← (List.range' first (min s.ns.nrParts (last + 1 - first))).foldlM
      (timedReadRound spp lat nandClock last (stime % 2 ^ 64))
      ({ s with sums := s.sums ++ [stime] }, req.nsecsStart)
    return (some nsecsLatest, s)

/-- `conv_proc_nvme_io_cmd`. An opcode that is not implemented keeps the target time
that `__nvmev_proc_io` starts from. -/
def timedProcNvmeIoCmd (s : TimedConv) (req : Request) :
    Except Fault (Option Nat × TimedConv) :=
  match req.cmd.opcode with
  | .write => timedWrite spp cpp lat fw nandClock s req
  | .read => timedRead spp lat fw nandClock s req
  | .flush =>
      .ok (some (convFlush spp s.nand.times s.ns.nrParts (req.clock 0)
        fun part => req.clock (part + 1)), s)
  | .other _ => .ok (some req.nsecsStart, s)

/-- A command is dispatched, or a worker executes one of the scheduled buffer
releases. -/
inductive TimedConvEvent where
  | cmd (req : Request)
  | release (i : Nat)

def timedConvStep (s : TimedConv) : TimedConvEvent → Except Fault TimedConv
  | .cmd req => do
      let (_, s) ← timedProcNvmeIoCmd spp cpp lat fw nandClock s req
      return s
  | .release i => do
      let ns ← convStep spp cpp s.ns (.release i)
      return { s with ns := ns, targets := s.targets.eraseIdx i }

def timedConvRun (s : TimedConv) (events : List TimedConvEvent) : Except Fault TimedConv :=
  events.foldlM (timedConvStep spp cpp lat fw nandClock) s

def untimed : TimedConvEvent → ConvIoEvent
  | .cmd req => .cmd req.cmd
  | .release i => .release i

end Handlers

section Turns

variable {spp : SsdParams} {nrParts part stime : Nat} {op : NandOp} {gc : Prop} {ncmd : NandCmd}
  {acc acc' acc'' : TimedConv × Nat} {es es' : List NandTiming.Issued} {ts ts' : List Nat}

/-- The call `e` is the turn of a command that the FTL issued on `part`. -/
def TurnOf (part : Nat) (ncmd : NandCmd) (e : NandTiming.Issued) : Prop :=
  e.call.part = part ∧ ∃ stime, e.call.ncmd = timedCmd stime ncmd

/-- The calls `es` of a handler whose own commands are all `op` and complete at `ts`.
Unless it may collect garbage there are no others. -/
structure Turned (op : NandOp) (gc : Prop) (stime : Nat) (es : List NandTiming.Issued)
    (ts : List Nat) (acc acc' : TimedConv × Nat) : Prop where
  log : acc'.1.nand.log = acc.1.nand.log ++ es
  sums : acc'.1.sums = acc.1.sums
  targets : acc'.1.targets = acc.1.targets ++ if op = .write then ts else []
  latest : acc'.2 = ts.foldl max acc.2
  own : ∀ t ∈ ts, ∃ e ∈ es, e.call.ncmd.cmd = op ∧ e.call.ncmd.stime = stime ∧
    e.reply.completedTime = t
  alone : ¬ gc → ts = es.map (fun e => e.reply.completedTime) ∧
    ∀ e ∈ es, e.call.ncmd.cmd = op ∧ e.call.ncmd.stime = stime

theorem Turned.refl (op : NandOp) (gc : Prop) (stime : Nat) (acc : TimedConv × Nat) :
    Turned op gc stime [] [] acc acc where
  log := (List.append_nil _).symm
  sums := rfl
  targets := by simp
  latest := rfl
  own := by simp
  alone := fun _ => ⟨rfl, by simp⟩

theorem Turned.trans (h : Turned op gc stime es ts acc acc')
    (h' : Turned op gc stime es' ts' acc' acc'') :
    Turned op gc stime (es ++ es') (ts ++ ts') acc acc'' where
  log := by rw [h'.log, h.log, List.append_assoc]
  sums := h'.sums.trans h.sums
  targets := by
    rw [h'.targets, h.targets, List.append_assoc]
    split <;> rfl
  latest := by rw [h'.latest, h.latest, List.foldl_append]
  own := by
    intro t ht
    rcases List.mem_append.mp ht with ht | ht
    · obtain ⟨e, he, hown⟩ := h.own t ht
      exact ⟨e, List.mem_append_left _ he, hown⟩
    · obtain ⟨e, he, hown⟩ := h'.own t ht
      exact ⟨e, List.mem_append_right _ he, hown⟩
  alone := by
    intro hgc
    obtain ⟨rfl, hall⟩ := h.alone hgc
    obtain ⟨rfl, hall'⟩ := h'.alone hgc
    refine ⟨List.map_append.symm, ?_⟩
    intro e he
    exact (List.mem_append.mp he).elim (hall e) (hall' e)

/-- The command can be served, and it is one of the handler's own or of garbage
collection. -/
structure Served (spp : SsdParams) (op : NandOp) (gc : Prop) (ncmd : NandCmd) : Prop where
  proper : Proper spp ncmd
  own : ncmd.type = .userIo → ncmd.cmd = op
  alone : ¬ gc → ncmd.type = .userIo

theorem advanceCmd_turned (lat : NandLatencies) (nandClock : Nat → Nat → Nat) (stime : Nat)
    (hpgsz : 0 < spp.pgsz) (hpart : part < nrParts)
    (hsane : Sane spp nrParts acc.1.nand) (hncmd : Served spp op gc ncmd) :
    ∃ acc' e ts, advanceCmd spp lat nandClock stime part acc ncmd = .ok acc' ∧
      acc'.1.ns = acc.1.ns ∧ Sane spp nrParts acc'.1.nand ∧ TurnOf part ncmd e ∧
      Turned op gc stime [e] ts acc acc' ∧
      ts.length = if ncmd.type = .userIo then 1 else 0 := by
  obtain ⟨s, nsecsLatest⟩ := acc
  obtain ⟨call, hcall⟩ : ∃ call : NandCall,
      call = ⟨part, nandClock s.nand.log.length, timedCmd stime ncmd⟩ := ⟨_, rfl⟩
  have hrange : InRange spp nrParts call := by
    rw [hcall]
    refine ⟨hpart, ?_, ?_⟩
    · rintro ppa hppa
      obtain rfl := Option.some.inj hppa
      exact hncmd.proper.lun
    · intro hread
      obtain ⟨n, hn, hsize⟩ := hncmd.proper.read hread
      change 0 < ncmd.xferSize
      exact hsize ▸ Nat.mul_pos hpgsz hn
  obtain ⟨reply, hreply, -, -⟩ := ssdAdvanceNand_spec lat hsane.working hrange
  -- The call is a step of the timed runs, which keep the times in order.
  obtain ⟨nand, hstep, hsane'⟩ := timedStep_sane lat hsane (.nand call)
    fun call' hsame => by rwa [← TimedEvent.nand.inj hsame]
  rw [timedStep, hreply, ok_bind] at hstep
  obtain rfl := Except.ok.inj hstep
  rw [hcall] at hreply
  cases htype : ncmd.type with
  | userIo =>
      have hcmd := hncmd.own htype
      refine ⟨({ s with
        nand := { times := reply.times, log := s.nand.log ++ [⟨call, s.nand.times, reply⟩] }
        targets :=
          if ncmd.cmd = .write then s.targets ++ [reply.completedTime] else s.targets },
        max reply.completedTime nsecsLatest), ⟨call, s.nand.times, reply⟩,
        [reply.completedTime], ?_, rfl, hsane', ?_, ?_, rfl⟩
      · unfold advanceCmd
        dsimp only
        rw [hreply, ok_bind, htype, hcall]
        rfl
      · exact hcall ▸ ⟨rfl, stime, rfl⟩
      · have hsame : call.ncmd.cmd = op ∧ call.ncmd.stime = stime := by
          rw [hcall]
          exact ⟨hcmd, by simp [timedCmd, htype]⟩
        constructor
        · rfl
        · rfl
        · rw [hcmd]
          dsimp only
          split
          · rfl
          · exact (List.append_nil _).symm
        · exact Nat.max_comm _ _
        · intro t ht
          obtain rfl := List.mem_singleton.mp ht
          exact ⟨_, List.mem_singleton_self _, hsame.1, hsame.2, rfl⟩
        · intro _
          refine ⟨rfl, ?_⟩
          intro e he
          obtain rfl := List.mem_singleton.mp he
          exact hsame
  | gcIo =>
      refine ⟨({ s with
        nand := { times := reply.times, log := s.nand.log ++ [⟨call, s.nand.times, reply⟩] } },
        nsecsLatest), ⟨call, s.nand.times, reply⟩, [], ?_, rfl, hsane', ?_, ?_, rfl⟩
      · unfold advanceCmd
        dsimp only
        rw [hreply, ok_bind, htype, hcall]
        rfl
      · exact hcall ▸ ⟨rfl, stime, rfl⟩
      · constructor
        · rfl
        · rfl
        · simp
        · rfl
        · simp
        · intro hgc
          have := hncmd.alone hgc
          rw [htype] at this
          cases this

theorem foldlM_advanceCmd_turned (lat : NandLatencies) (nandClock : Nat → Nat → Nat)
    (stime : Nat) (hpgsz : 0 < spp.pgsz) (hpart : part < nrParts)
    (hsane : Sane spp nrParts acc.1.nand) {ncmds : List NandCmd}
    (hncmds : ∀ ncmd ∈ ncmds, Served spp op gc ncmd) :
    ∃ acc' es ts, ncmds.foldlM (advanceCmd spp lat nandClock stime part) acc = .ok acc' ∧
      acc'.1.ns = acc.1.ns ∧ Sane spp nrParts acc'.1.nand ∧
      List.Forall₂ (TurnOf part) ncmds es ∧ Turned op gc stime es ts acc acc' ∧
      ts.length = ncmds.countP fun ncmd => ncmd.type = .userIo := by
  induction ncmds generalizing acc with
  | nil => exact ⟨acc, [], [], rfl, rfl, hsane, .nil, .refl op gc stime acc, rfl⟩
  | cons ncmd ncmds ih =>
      obtain ⟨acc₁, e, ts, hadvance, hns, hsane₁, hturn, hturned, hone⟩ :=
        advanceCmd_turned lat nandClock stime hpgsz hpart hsane (hncmds ncmd List.mem_cons_self)
      obtain ⟨acc₂, es, ts', hrest, hns', hsane₂, hturns, hturned', hcount⟩ :=
        ih hsane₁ fun n hn => hncmds n (List.mem_cons_of_mem _ hn)
      refine ⟨acc₂, e :: es, ts ++ ts', ?_, hns'.trans hns, hsane₂, .cons hturn hturns,
        hturned.trans hturned', ?_⟩
      · rw [List.foldlM_cons, hadvance, ok_bind, hrest]
      · rw [List.length_append, hone, hcount, List.countP_cons, Nat.add_comm]
        simp

end Turns

section Invariant

variable {g : Geometry} {part stime : Nat} {s : TimedConv} {ns : ConvNs}

/-- The partitions keep the discipline of the flash array, the times stay in order, and
the calls of `ssd_advance_nand` are the commands of the FTL, each once and in order. -/
structure Timed (g : Geometry) (s : TimedConv) : Prop where
  holds : Holds g.toSsdParams (Disciplined g.toSsdParams 0) s.ns
  sane : Sane g.toSsdParams s.ns.nrParts s.nand
  turns : ∀ part, part < s.ns.nrParts → List.Forall₂ (TurnOf part) (s.ns.ftls part).ssd.ncmds
    (s.nand.log.filter fun e => e.call.part = part)
  targets : s.targets.length = s.ns.pending.length

theorem filter_turns {ncmds : List NandCmd} {es : List NandTiming.Issued}
    (h : List.Forall₂ (TurnOf part) ncmds es) (p : Nat) :
    es.filter (fun e => e.call.part = p) = if p = part then es else [] := by
  have hall : ∀ e ∈ es, e.call.part = part := by
    induction h with
    | nil => simp
    | cons hturn _ ih => exact List.forall_mem_cons.mpr ⟨hturn.1, ih⟩
  split
  · rename_i hp
    rw [List.filter_eq_self]
    intro e he
    simp [hall e he, hp]
  · rename_i hp
    rw [List.filter_eq_nil_iff]
    intro e he
    simp [hall e he, Ne.symm hp]

theorem advanceCmds_timed (op : NandOp) (gc : Prop) (lat : NandLatencies)
    (nandClock : Nat → Nat → Nat) (stime : Nat)
    (hpgsz : 0 < g.pgsz) {acc : TimedConv × Nat} (h : Timed g acc.1)
    (hpart : part < acc.1.ns.nrParts)
    (hns : Holds g.toSsdParams (Disciplined g.toSsdParams 0) ns)
    (hparts : ns.nrParts = acc.1.ns.nrParts)
    (hothers : ∀ p, p ≠ part → ns.ftls p = acc.1.ns.ftls p) {ncmds : List NandCmd}
    (hlog : (ns.ftls part).ssd.ncmds = (acc.1.ns.ftls part).ssd.ncmds ++ ncmds)
    (hown : ∀ ncmd ∈ ncmds, ncmd.type = .userIo → ncmd.cmd = op)
    (halone : ¬ gc → ∀ ncmd ∈ ncmds, ncmd.type = .userIo)
    (hpending : ns.pending.length = acc.1.ns.pending.length +
      if op = .write then ncmds.countP fun ncmd => ncmd.type = .userIo else 0) :
    ∃ acc' es ts, advanceCmds g.toSsdParams lat nandClock stime part acc ns = .ok acc' ∧
      acc'.1.ns = ns ∧ Timed g acc'.1 ∧ Turned op gc stime es ts acc acc' ∧
      ts.length = ncmds.countP fun ncmd => ncmd.type = .userIo := by
  have hserved : ∀ ncmd ∈ ncmds, Served g.toSsdParams op gc ncmd := by
    intro ncmd hncmd
    have hmem : ncmd ∈ (ns.ftls part).ssd.ncmds := by
      rw [hlog]
      exact List.mem_append_right _ hncmd
    exact ⟨(hns.ftls part).proper ncmd hmem, hown ncmd hncmd, fun hgc => halone hgc ncmd hncmd⟩
  have hsane : Sane g.toSsdParams ns.nrParts (({ acc.1 with ns := ns }, acc.2) :
      TimedConv × Nat).1.nand := hparts ▸ h.sane
  obtain ⟨acc', es, ts, hfold, hns', hsane', hturns, hturned, hcount⟩ :=
    foldlM_advanceCmd_turned lat nandClock stime hpgsz (hparts ▸ hpart) hsane hserved
  refine ⟨acc', es, ts, ?_, hns', ⟨?_, ?_, ?_, ?_⟩,
    ⟨hturned.log, hturned.sums, hturned.targets, hturned.latest, hturned.own, hturned.alone⟩,
    hcount⟩
  · rw [advanceCmds, issuedSince_eq hlog]
    exact hfold
  · rw [hns']
    exact hns
  · rw [hns']
    exact hsane'
  · rw [hns']
    intro p hp
    have hold := h.turns p (hparts ▸ hp)
    rw [hturned.log, List.filter_append, filter_turns hturns]
    rcases eq_or_ne p part with rfl | hne
    · rw [if_pos rfl, hlog]
      exact List.rel_append hold hturns
    · rw [if_neg hne, List.append_nil, hothers p hne]
      exact hold
  · rw [hns', hturned.targets, List.length_append, hpending]
    dsimp only
    rw [h.targets]
    split
    · rw [hcount]
    · rfl

/-- What a write does to the times, as far as it has come. -/
structure Writes (g : Geometry) (stime : Nat) (es : List NandTiming.Issued) (ts : List Nat)
    (acc acc' : TimedConv × Nat) : Prop where
  parts : acc'.1.ns.nrParts = acc.1.ns.nrParts
  turned : Turned .write True stime es ts acc acc'
  pending : acc'.1.ns.pending = acc.1.ns.pending ++ ts.map fun _ => g.pgsPerOneshotpg * g.pgsz

theorem timedWriteLpn_projects {cpp : ConvParams} (lat : NandLatencies)
    (nandClock : Nat → Nat → Nat) (stime : Nat) (hpgsz : 0 < g.pgsz) (hpls : g.plsPerLun = 1)
    (hdelay : cpp.enableGcDelay = true) {acc : TimedConv × Nat} (h : Timed g acc.1)
    (hpos : 0 < acc.1.ns.nrParts) {lpn : Nat} (hlpn : lpn / acc.1.ns.nrParts < g.ttPgs) :
    Projects (fun acc : TimedConv × Nat => acc.1.ns)
      (fun acc' => Timed g acc'.1 ∧ ∃ es ts, Writes g stime es ts acc acc')
      (timedWriteLpn g.toSsdParams cpp lat nandClock stime acc lpn)
      (writeLpn g.toSsdParams cpp acc.1.ns lpn) := by
  have hpage := writeLpn_log hpls hdelay h.holds hlpn
  unfold timedWriteLpn
  cases hwrite : writeLpn g.toSsdParams cpp acc.1.ns lpn with
  | error e => exact .error e
  | ok ns =>
      obtain ⟨hholds, hparts, hothers, flush, ppa, ⟨gcs, hlog, hgcs⟩, hpending⟩ :=
        hpage.value hwrite
      have hcount : ((if flush then [programCmd g.toSsdParams .userIo ppa] else []) ++
          gcs).countP (fun ncmd => ncmd.type = .userIo) = if flush then 1 else 0 := by
        have hnone : gcs.countP (fun ncmd => ncmd.type = .userIo) = 0 := by
          rw [List.countP_eq_zero]
          intro ncmd hncmd
          simp [hgcs ncmd hncmd]
        rw [List.countP_append, hnone]
        cases flush <;> rfl
      have hown : ∀ ncmd ∈ (if flush then [programCmd g.toSsdParams .userIo ppa] else []) ++
          gcs, ncmd.type = .userIo → ncmd.cmd = .write := by
        intro ncmd hncmd htype
        rcases List.mem_append.mp hncmd with hprogram | hgc
        · cases flush with
          | false => cases hprogram
          | true =>
              obtain rfl := List.mem_singleton.mp hprogram
              rfl
        · rw [hgcs ncmd hgc] at htype
          cases htype
      obtain ⟨acc', es, ts, hadvance, hns, htimed, hturned, hlength⟩ :=
        advanceCmds_timed .write True lat nandClock stime hpgsz h
          (Nat.mod_lt lpn hpos) hholds hparts hothers (by rw [hlog, List.append_assoc]) hown
          (fun hgc => absurd trivial hgc) (by
            rw [hpending, hcount, List.length_append]
            cases flush <;> rfl)
      rw [ok_bind, hadvance]
      refine ⟨congrArg Except.ok hns, ?_⟩
      rintro _ ⟨⟩
      refine ⟨htimed, es, ts, ⟨hns ▸ hparts, hturned, ?_⟩⟩
      rw [hns, hpending, List.map_const', hlength, hcount]
      cases flush <;> rfl

/-- What a read does to the times, as far as it has come. -/
structure Reads (stime : Nat) (es : List NandTiming.Issued) (acc acc' : TimedConv × Nat) :
    Prop where
  parts : acc'.1.ns.nrParts = acc.1.ns.nrParts
  turned : Turned .read False stime es (es.map fun e => e.reply.completedTime) acc acc'
  pending : acc'.1.ns.pending = acc.1.ns.pending

theorem timedReadRound_projects (lat : NandLatencies) (nandClock : Nat → Nat → Nat)
    (stime : Nat) (hpgsz : 0 < g.pgsz) {acc : TimedConv × Nat} (h : Timed g acc.1)
    (hpos : 0 < acc.1.ns.nrParts) (last lpn : Nat) :
    Projects (fun acc : TimedConv × Nat => acc.1.ns)
      (fun acc' => Timed g acc'.1 ∧ ∃ es, Reads stime es acc acc')
      (timedReadRound g.toSsdParams lat nandClock last stime acc lpn)
      (.ok (readRound g.toSsdParams last acc.1.ns lpn)) := by
  obtain ⟨hholds, ⟨ncmds, hpart, hreads⟩, hothers⟩ := readRound_log h.holds last lpn
  have hlog := foldl_issue_ncmds ncmds (acc.1.ns.ftls (lpn % acc.1.ns.nrParts))
  rw [← hpart] at hlog
  obtain ⟨acc', es, ts, hadvance, hns, htimed, hturned, -⟩ :=
    advanceCmds_timed .read False lat nandClock stime hpgsz h
      (Nat.mod_lt lpn hpos) hholds rfl hothers hlog (fun ncmd hncmd _ => (hreads ncmd hncmd).cmd)
      (fun _ ncmd hncmd => (hreads ncmd hncmd).type) (by simp [readRound])
  unfold timedReadRound
  rw [hadvance]
  refine ⟨congrArg Except.ok hns, ?_⟩
  rintro _ ⟨⟩
  obtain ⟨rfl, hall⟩ := hturned.alone not_false
  refine ⟨htimed, es, ⟨?_, hturned, ?_⟩⟩
  · rw [hns]
    rfl
  · rw [hns]
    rfl

theorem Writes.trans {acc acc' acc'' : TimedConv × Nat} {es es' : List NandTiming.Issued}
    {ts ts' : List Nat} (h : Writes g stime es ts acc acc')
    (h' : Writes g stime es' ts' acc' acc'') :
    Writes g stime (es ++ es') (ts ++ ts') acc acc'' where
  parts := h'.parts.trans h.parts
  turned := h.turned.trans h'.turned
  pending := by rw [h'.pending, h.pending, List.append_assoc, List.map_append]

theorem foldlM_timedWriteLpn_projects {cpp : ConvParams} (lat : NandLatencies)
    (nandClock : Nat → Nat → Nat) (stime : Nat) (hpgsz : 0 < g.pgsz) (hpls : g.plsPerLun = 1)
    (hdelay : cpp.enableGcDelay = true) (h : Timed g s) (hpos : 0 < s.ns.nrParts)
    {lpns : List Nat} (hlpns : ∀ lpn ∈ lpns, lpn / s.ns.nrParts < g.ttPgs) :
    Projects (fun acc : TimedConv × Nat => acc.1.ns)
      (fun acc => Timed g acc.1 ∧ ∃ es ts, Writes g stime es ts (s, stime) acc)
      (lpns.foldlM (timedWriteLpn g.toSsdParams cpp lat nandClock stime) (s, stime))
      (lpns.foldlM (writeLpn g.toSsdParams cpp) s.ns) := by
  refine Projects.foldlM (a := (s, stime)) ?_ ?_
  · exact ⟨h, [], [], ⟨rfl, .refl _ _ _ _, (List.append_nil _).symm⟩⟩
  · rintro lpn hlpn acc ⟨hacc, es, ts, hwrites⟩
    have hparts : acc.1.ns.nrParts = s.ns.nrParts := hwrites.parts
    refine (timedWriteLpn_projects lat nandClock stime hpgsz hpls hdelay hacc (hparts ▸ hpos)
      (hparts ▸ hlpns lpn hlpn)).imp ?_
    rintro acc' ⟨hacc', es', ts', hwrites'⟩
    exact ⟨hacc', _, _, hwrites.trans hwrites'⟩

theorem Reads.trans {acc acc' acc'' : TimedConv × Nat} {es es' : List NandTiming.Issued}
    (h : Reads stime es acc acc') (h' : Reads stime es' acc' acc'') :
    Reads stime (es ++ es') acc acc'' where
  parts := h'.parts.trans h.parts
  turned := by
    rw [List.map_append]
    exact h.turned.trans h'.turned
  pending := h'.pending.trans h.pending

end Invariant

section Commands

variable {g : Geometry} {cpp : ConvParams} {fw : FwLatencies} {s s' : TimedConv} {req : Request}

theorem ssdAdvanceWriteBuffer_spec {times : NandTimes} (hworking : Working times)
    (fw : FwLatencies) (clock requestTime length : Nat) :
    ∃ reply, ssdAdvanceWriteBuffer fw times clock requestTime length = .ok reply ∧
      (∃ request pcie, ssdAdvancePcie times clock request length = .ok (reply.times, pcie)) ∧
      (Fits reply.sums → requestTime + fw.fwWbufLat0 +
        fw.fwWbufLat1 * divRoundUp length 4096 ≤ reply.nsecsLatest) := by
  obtain ⟨reply, hreply, -, htime⟩ := chmodelRequest_ready hworking.pcie clock
    (((requestTime + fw.fwWbufLat0) % 2 ^ 64 +
      fw.fwWbufLat1 * divRoundUp length 4096) % 2 ^ 64) length
  have hpcie : ssdAdvancePcie times clock (((requestTime + fw.fwWbufLat0) % 2 ^ 64 +
      fw.fwWbufLat1 * divRoundUp length 4096) % 2 ^ 64) length =
        .ok ({ times with pcie := reply.channel }, reply) := by
    rw [ssdAdvancePcie, hreply, ok_bind]
    rfl
  refine ⟨_, by rw [ssdAdvanceWriteBuffer, hpcie, ok_bind]; rfl, ⟨_, reply, hpcie⟩, ?_⟩
  intro hfits
  simp only [fits_cons] at hfits
  obtain ⟨hfirst, hsecond, hlast, -⟩ := hfits
  have hle := htime hlast
  rw [Nat.mod_eq_of_lt hfirst] at hsecond hle
  rwa [Nat.mod_eq_of_lt hsecond] at hle

/-- How a write that is carried out has advanced the times: its transfer is completed at
`xfer` and its programs, all started after that, are completed at `ts`. -/
structure WriteTimes (g : Geometry) (fw : FwLatencies) (s : TimedConv) (req : Request)
    (xfer : Nat) (es : List NandTiming.Issued) (ts : List Nat) (target : Nat)
    (s' : TimedConv) : Prop where
  log : s'.nand.log = s.nand.log ++ es
  targets : s'.targets = s.targets ++ ts
  pending : s'.ns.pending = s.ns.pending ++ ts.map fun _ => g.pgsPerOneshotpg * g.pgsz
  programs : ∀ t ∈ ts, ∃ e ∈ es, e.call.ncmd.cmd = .write ∧ e.call.ncmd.stime = xfer ∧
    e.reply.completedTime = t
  transferred : Fits s'.sums → req.nsecsStart + fw.fwWbufLat0 +
    fw.fwWbufLat1 * divRoundUp (lbaToByte req.cmd.rw.nrLba) 4096 ≤ xfer
  target : target = if req.fua || !fw.writeEarlyCompletion then ts.foldl max xfer else xfer

/-- What a handler does: it behaves as that of the FTL, and its result is `P`. -/
def Handles (g : Geometry) (s : TimedConv) (P : Nat → TimedConv → Prop)
    (x : Except Fault (Option Nat × TimedConv)) (y : Except Fault (Bool × ConvNs)) : Prop :=
  Projects (fun r : Option Nat × TimedConv => (r.1.isSome, r.2.ns))
    (fun r => Timed g r.2 ∧ r.2.ns.nrParts = s.ns.nrParts ∧
      ∀ target, r.1 = some target → P target r.2) x y

theorem timedWrite_handles (lat : NandLatencies) (nandClock : Nat → Nat → Nat)
    (hpgsz : 0 < g.pgsz) (hpls : g.plsPerLun = 1) (hdelay : cpp.enableGcDelay = true)
    (h : Timed g s) (hpos : 0 < s.ns.nrParts) (fw : FwLatencies) (req : Request) :
    Handles g s (fun target s' => ∃ xfer es ts, WriteTimes g fw s req xfer es ts target s')
      (timedWrite g.toSsdParams cpp lat fw nandClock s req)
      (convWrite g.toSsdParams cpp s.ns req.cmd.rw) := by
  unfold Handles timedWrite convWrite
  dsimp only
  split
  · exact .ok ⟨h, rfl, by rintro _ ⟨⟩⟩
  · rename_i hrange
    cases hallocate : bufferAllocate s.ns.writeBuffer (lbaToByte req.cmd.rw.nrLba) with
    | error e => exact .error e
    | ok r =>
        obtain ⟨allocated, buf⟩ := r
        rw [ok_bind, ok_bind]
        dsimp only
        have hbuf : Timed g { s with ns := { s.ns with writeBuffer := buf } } :=
          ⟨⟨h.holds.inv, h.holds.ftls⟩, h.sane, h.turns, h.targets⟩
        split
        · exact .ok ⟨hbuf, rfl, by rintro _ ⟨⟩⟩
        · obtain ⟨reply, hreply, ⟨request, pcie, hpcie⟩, htransferred⟩ :=
            ssdAdvanceWriteBuffer_spec h.sane.working fw (req.clock 0) req.nsecsStart
              (lbaToByte req.cmd.rw.nrLba)
          rw [hreply, ok_bind]
          obtain ⟨s₁, hs₁⟩ : ∃ s₁ : TimedConv, s₁ = { s with
              ns := { s.ns with writeBuffer := buf }
              nand := { s.nand with times := reply.times }
              sums := s.sums ++ reply.sums } := ⟨_, rfl⟩
          have htimed : Timed g s₁ := by
            obtain ⟨nand, hstep, hsane⟩ := timedStep_sane lat h.sane
              (.pcie (req.clock 0) request (lbaToByte req.cmd.rw.nrLba)) (by rintro _ ⟨⟩)
            rw [timedStep, hpcie, ok_bind] at hstep
            obtain rfl := Except.ok.inj hstep
            rw [hs₁]
            exact ⟨hbuf.holds, hsane, h.turns, h.targets⟩
          have hlpns : ∀ lpn ∈ cmdLpns g.toSsdParams req.cmd.rw, lpn / s₁.ns.nrParts < g.ttPgs := by
            rw [hs₁]
            intro lpn hlpn
            exact (Nat.div_le_div_right (lpn_le_endLpn hlpn)).trans_lt (not_le.mp hrange)
          have hloop := foldlM_timedWriteLpn_projects lat nandClock reply.nsecsLatest hpgsz hpls
            hdelay htimed (by rw [hs₁]; exact hpos) hlpns
          rw [← hs₁]
          have hns : ({ s.ns with writeBuffer := buf } : ConvNs) = s₁.ns := by
            rw [hs₁]
          rw [hns]
          refine hloop.bind ?_
          rintro ⟨s', nsecsLatest⟩ ⟨hs', es, ts, hwrites⟩
          have hparts : s'.ns.nrParts = s.ns.nrParts := by
            rw [hwrites.parts, hs₁]
          have htimes : ∀ target, (target =
              if req.fua || !fw.writeEarlyCompletion then nsecsLatest else reply.nsecsLatest) →
              WriteTimes g fw s req reply.nsecsLatest es ts target s' := by
            rintro target rfl
            refine ⟨?_, ?_, ?_, hwrites.turned.own, ?_, ?_⟩
            · rw [hwrites.turned.log, hs₁]
            · rw [hwrites.turned.targets, hs₁]
              rfl
            · rw [hwrites.pending, hs₁]
            · intro hfits
              rw [hwrites.turned.sums, hs₁] at hfits
              exact htransferred (fits_append.mp hfits).2
            · have hlatest : nsecsLatest = ts.foldl max reply.nsecsLatest := hwrites.turned.latest
              rw [hlatest]
          dsimp only
          split
          · rename_i hwait
            refine .ok ⟨hs', hparts, ?_⟩
            rintro target ⟨⟩
            exact ⟨_, es, ts, htimes _ (if_pos hwait).symm⟩
          · rename_i hearly
            refine .ok ⟨hs', hparts, ?_⟩
            rintro target ⟨⟩
            exact ⟨_, es, ts, htimes _ (if_neg hearly).symm⟩

/-- How a read that is carried out has advanced the times. -/
structure ReadTimes (fw : FwLatencies) (s : TimedConv) (req : Request)
    (es : List NandTiming.Issued) (target : Nat) (s' : TimedConv) : Prop where
  log : s'.nand.log = s.nand.log ++ es
  targets : s'.targets = s.targets
  pending : s'.ns.pending = s.ns.pending
  reads : ∀ e ∈ es, e.call.ncmd.cmd = .read ∧
    e.call.ncmd.stime = (req.nsecsStart + readOverhead fw s.ns.nrParts req.cmd.rw) % 2 ^ 64
  started : Fits s'.sums →
    req.nsecsStart + readOverhead fw s.ns.nrParts req.cmd.rw < 2 ^ 64
  target : target = (es.map fun e => e.reply.completedTime).foldl max req.nsecsStart

theorem timedRead_handles (lat : NandLatencies) (nandClock : Nat → Nat → Nat)
    (hpgsz : 0 < g.pgsz) (h : Timed g s) (hpos : 0 < s.ns.nrParts) (fw : FwLatencies)
    (req : Request) :
    Handles g s (fun target s' => ∃ es, ReadTimes fw s req es target s')
      (timedRead g.toSsdParams lat fw nandClock s req)
      (.ok (convRead g.toSsdParams s.ns req.cmd.rw)) := by
  unfold Handles timedRead
  dsimp only
  split
  · rename_i hrange
    unfold convRead
    dsimp only
    rw [if_pos hrange]
    exact .ok ⟨h, rfl, by rintro _ ⟨⟩⟩
  · rename_i hrange
    rw [convRead_eq (not_le.mp hrange)]
    obtain ⟨stime, hstime⟩ : ∃ stime, stime =
        req.nsecsStart + readOverhead fw s.ns.nrParts req.cmd.rw := ⟨_, rfl⟩
    rw [← hstime]
    obtain ⟨s₁, hs₁⟩ : ∃ s₁ : TimedConv, s₁ = { s with sums := s.sums ++ [stime] } := ⟨_, rfl⟩
    have hns : s₁.ns = s.ns := by
      rw [hs₁]
    have htimed : Timed g s₁ := by
      rw [hs₁]
      exact ⟨h.holds, h.sane, h.turns, h.targets⟩
    rw [← hs₁, ← hns]
    generalize List.range' (startLpn g.toSsdParams req.cmd.rw) _ = lpns
    have hloop : Projects (fun acc : TimedConv × Nat => acc.1.ns)
        (fun acc => Timed g acc.1 ∧
          ∃ es, Reads (stime % 2 ^ 64) es (s₁, req.nsecsStart) acc)
        (lpns.foldlM (timedReadRound g.toSsdParams lat nandClock
          (endLpn g.toSsdParams req.cmd.rw) (stime % 2 ^ 64)) (s₁, req.nsecsStart))
        (.ok (lpns.foldl (readRound g.toSsdParams (endLpn g.toSsdParams req.cmd.rw)) s₁.ns)) := by
      have hpure := List.foldlM_pure (m := Except Fault) (l := lpns) (b := s₁.ns)
        (f := readRound g.toSsdParams (endLpn g.toSsdParams req.cmd.rw))
      change Projects _ _ _ (pure _)
      rw [← hpure]
      refine Projects.foldlM (a := (s₁, req.nsecsStart)) ?_ ?_
      · exact ⟨htimed, [], ⟨rfl, .refl _ _ _ _, rfl⟩⟩
      · rintro lpn - acc ⟨hacc, es, hreads⟩
        have hparts : acc.1.ns.nrParts = s.ns.nrParts := hreads.parts.trans (congrArg _ hns)
        refine (timedReadRound_projects lat nandClock _ hpgsz hacc (hparts ▸ hpos) _ lpn).imp ?_
        rintro acc' ⟨hacc', es', hreads'⟩
        exact ⟨hacc', _, hreads.trans hreads'⟩
    have hanswer := hloop.bind (ρ := fun r : Option Nat × TimedConv => (r.1.isSome, r.2.ns))
      (Q := fun r => Timed g r.2 ∧ r.2.ns.nrParts = s₁.ns.nrParts ∧
        ∀ target, r.1 = some target → ∃ es, ReadTimes fw s req es target r.2)
      (f := fun acc => .ok (some acc.2, acc.1)) (g := fun ns => .ok (true, ns)) ?_
    · exact hanswer
    rintro ⟨s', nsecsLatest⟩ ⟨hs', es, hreads⟩
    refine .ok ⟨hs', hreads.parts, ?_⟩
    rintro target ⟨⟩
    obtain ⟨-, hall⟩ := hreads.turned.alone not_false
    refine ⟨es, ?_, ?_, ?_, hstime ▸ hall, ?_, hreads.turned.latest⟩
    · rw [hreads.turned.log, hs₁]
    · rw [hreads.turned.targets, hs₁]
      exact List.append_nil _
    · rw [hreads.pending, hs₁]
    · intro hfits
      rw [hreads.turned.sums, hs₁] at hfits
      exact hstime ▸ (fits_cons.mp (fits_append.mp hfits).2).1

def Completes (g : Geometry) (fw : FwLatencies) (s : TimedConv) (req : Request) (target : Nat)
    (s' : TimedConv) : Prop :=
  match req.cmd.opcode with
  | .write => ∃ xfer es ts, WriteTimes g fw s req xfer es ts target s'
  | .read => ∃ es, ReadTimes fw s req es target s'
  | .flush =>
      target = convFlush g.toSsdParams s.nand.times s.ns.nrParts (req.clock 0)
        (fun part => req.clock (part + 1)) ∧ s' = s
  | .other _ => target = req.nsecsStart ∧ s' = s

theorem timedProcNvmeIoCmd_projects (lat : NandLatencies) (nandClock : Nat → Nat → Nat)
    (hpgsz : 0 < g.pgsz) (hpls : g.plsPerLun = 1) (hdelay : cpp.enableGcDelay = true)
    (h : Timed g s) (hpos : 0 < s.ns.nrParts) (fw : FwLatencies) (req : Request) :
    Projects (fun r : Option Nat × TimedConv =>
        (if r.1.isSome then some nvmeScSuccess else none, r.2.ns))
      (fun r => Timed g r.2 ∧ r.2.ns.nrParts = s.ns.nrParts ∧
        ∀ target, r.1 = some target → Completes g fw s req target r.2)
      (timedProcNvmeIoCmd g.toSsdParams cpp lat fw nandClock s req)
      (convProcNvmeIoCmd g.toSsdParams cpp s.ns req.cmd) := by
  unfold timedProcNvmeIoCmd convProcNvmeIoCmd Completes
  cases req.cmd.opcode with
  | write =>
      exact (timedWrite_handles lat nandClock hpgsz hpls hdelay h hpos fw req).comp
        (f := fun r => (if r.1 then some nvmeScSuccess else none, r.2))
  | read =>
      exact (timedRead_handles lat nandClock hpgsz h hpos fw req).comp
        (f := fun r => (if r.1 then some nvmeScSuccess else none, r.2))
  | flush =>
      refine .ok ⟨h, rfl, ?_⟩
      rintro target ⟨⟩
      exact ⟨rfl, rfl⟩
  | other code =>
      refine .ok ⟨h, rfl, ?_⟩
      rintro target ⟨⟩
      exact ⟨rfl, rfl⟩

theorem timedConvStep_projects (lat : NandLatencies) (nandClock : Nat → Nat → Nat)
    (hpgsz : 0 < g.pgsz) (hpls : g.plsPerLun = 1) (hdelay : cpp.enableGcDelay = true)
    (h : Timed g s) (hpos : 0 < s.ns.nrParts) (fw : FwLatencies) (event : TimedConvEvent) :
    Projects TimedConv.ns (fun s' => Timed g s' ∧ s'.ns.nrParts = s.ns.nrParts)
      (timedConvStep g.toSsdParams cpp lat fw nandClock s event)
      (convIoStep g.toSsdParams cpp s.ns (untimed event)) := by
  cases event with
  | cmd req =>
      refine (timedProcNvmeIoCmd_projects lat nandClock hpgsz hpls hdelay h hpos fw req).bind ?_
      rintro ⟨answer, s'⟩ ⟨hs', hparts, -⟩
      exact .ok ⟨hs', hparts⟩
  | release i =>
      unfold timedConvStep untimed convIoStep convStep
      dsimp only
      have hlength : ∀ {α : Type} (xs : List α), xs.length = s.ns.pending.length →
          (xs.eraseIdx i).length = (s.ns.pending.eraseIdx i).length := by
        intro α xs hxs
        rw [List.length_eraseIdx, List.length_eraseIdx, hxs]
      cases hi : s.ns.pending[i]? with
      | none =>
          have hsame : s.targets.eraseIdx i = s.targets := by
            rw [List.eraseIdx_of_length_le]
            rw [h.targets]
            exact List.getElem?_eq_none_iff.mp hi
          dsimp only
          rw [ok_bind, hsame]
          exact .ok ⟨h, rfl⟩
      | some bytes =>
          dsimp only
          rw [ok_bind]
          exact .ok (π := TimedConv.ns)
            ⟨⟨⟨h.holds.inv, h.holds.ftls⟩, h.sane, h.turns, hlength _ h.targets⟩, rfl⟩

theorem timedConvRun_projects (lat : NandLatencies) (nandClock : Nat → Nat → Nat)
    (hpgsz : 0 < g.pgsz) (hpls : g.plsPerLun = 1) (hdelay : cpp.enableGcDelay = true)
    (h : Timed g s) (hpos : 0 < s.ns.nrParts) (fw : FwLatencies)
    (events : List TimedConvEvent) :
    Projects TimedConv.ns (fun s' => Timed g s' ∧ s'.ns.nrParts = s.ns.nrParts)
      (timedConvRun g.toSsdParams cpp lat fw nandClock s events)
      (convIoRun g.toSsdParams cpp s.ns (events.map untimed)) := by
  unfold timedConvRun convIoRun
  rw [List.foldlM_map]
  refine Projects.foldlM ⟨h, rfl⟩ ?_
  rintro event - s₁ ⟨hs₁, hparts⟩
  refine (timedConvStep_projects lat nandClock hpgsz hpls hdelay hs₁ (hparts ▸ hpos) fw
    event).imp ?_
  rintro s₂ ⟨hs₂, hparts₂⟩
  exact ⟨hs₂, hparts₂.trans hparts⟩

end Commands

end NvmeVirt.CommandTiming
