import NvmeVirt.CommandTiming

namespace NvmeVirt.CommandCompletion

open NvmeVirt.BusyTimes
open NvmeVirt.CommandLog
open NvmeVirt.CommandTiming
open NvmeVirt.ConvCommands
open NvmeVirt.ConvLineReclaim
open NvmeVirt.ConvProgress
open NvmeVirt.ConvRuns
open NvmeVirt.ConventionalFtl
open NvmeVirt.FaultOutcome
open NvmeVirt.FlashGeometry
open NvmeVirt.NandDiscipline
open NvmeVirt.NandTiming
open NvmeVirt.RunProjection
open NvmeVirt.SequentialBlocks
open NvmeVirt.WriteBuffer

/-- A namespace that has just been initialized, on NAND with the given times. -/
def timedInit (ns : ConvNs) (times : NandTimes) : TimedConv where
  ns := ns
  nand := { times := times, log := [] }
  targets := []
  sums := []

section Split

variable {α β : Type} {R : α → β → Prop} {xs ys : List α} {x : α} {zs : List β}

theorem exists_split_of_forall₂ (h : List.Forall₂ R (xs ++ x :: ys) zs) :
    ∃ before z after, zs = before ++ z :: after ∧ R x z ∧ List.Forall₂ R ys after := by
  induction xs generalizing zs with
  | nil =>
      cases h with
      | cons hx hys => exact ⟨[], _, _, rfl, hx, hys⟩
  | cons y xs ih =>
      cases h with
      | cons hy hrest =>
          obtain ⟨before, z, after, rfl, hx, hys⟩ := ih hrest
          exact ⟨_ :: before, z, after, rfl, hx, hys⟩

theorem exists_left_of_forall₂ (h : List.Forall₂ R xs zs) {z : β} (hz : z ∈ zs) :
    ∃ x ∈ xs, R x z := by
  induction h with
  | nil => cases hz
  | cons hxz _ ih =>
      rcases List.mem_cons.mp hz with rfl | hz
      · exact ⟨_, List.mem_cons_self, hxz⟩
      · obtain ⟨x, hx, hR⟩ := ih hz
        exact ⟨x, List.mem_cons_of_mem _ hx, hR⟩

end Split

section Flush

variable {g : Geometry} {s : TimedConv} {part : Nat} {p : Ppa}

/-- The one-shot page of `p` has been programmed by `deadline`, and its block has not been
erased since. -/
def ProgrammedBy (g : Geometry) (log : List NandTiming.Issued) (p : Ppa) (deadline : Nat) :
    Prop :=
  ∃ before e after q, log = before ++ e :: after ∧ e.call.ncmd.cmd = .write ∧
    e.call.ncmd.ppa = some q ∧ q.blkAddr = p.blkAddr ∧
    q.pg / g.pgsPerOneshotpg = p.pg / g.pgsPerOneshotpg ∧
    e.reply.completedTime ≤ deadline ∧
    ∀ e' ∈ after, e'.call.ncmd.cmd = .erase → ∀ q', e'.call.ncmd.ppa = some q' →
      q'.blkAddr ≠ p.blkAddr

theorem of_blockOp_eq_program {spp : SsdParams} {ncmd : NandCmd} {a : Nat × Nat × Nat × Nat}
    {slot : Nat} (h : blockOp spp ncmd = some (.program a slot)) :
    ncmd.cmd = .write ∧ ncmd.ppa.blkAddr = a ∧ ncmd.ppa.pg / spp.pgsPerOneshotpg = slot := by
  unfold blockOp at h
  split at h
  · split at h <;> cases h
  · cases h
    exact ⟨‹_›, rfl, rfl⟩
  · cases h
  · cases h

theorem completed_le_flush (h : Timed g s) (hfits : AllFit s.nand) {e : NandTiming.Issued}
    (he : e ∈ s.nand.log) (hwork : e.call.ncmd.cmd = .write ∨ e.call.ncmd.cmd = .erase) {q : Ppa}
    (hq : e.call.ncmd.ppa = some q) (start : Nat) (ioclock : Nat → Nat) :
    e.reply.completedTime ≤ convFlush g.toSsdParams s.nand.times s.ns.nrParts start ioclock := by
  have hordered := h.sane.ordered hfits
  obtain ⟨hpart, hlun, -⟩ := h.sane.inRange e he
  obtain ⟨hch, hlun⟩ := hlun q hq
  calc e.reply.completedTime
      ≤ e.reply.times.nextLunAvailTime e.call.part q.ch q.lun :=
        ((hordered.served e he).serial q hq).covered hwork
    _ ≤ s.nand.times.nextLunAvailTime e.call.part q.ch q.lun := hordered.past e he _ _ _
    _ ≤ convFlush g.toSsdParams s.nand.times s.ns.nrParts start ioclock :=
        avail_le_flushTarget hpart hch hlun start ioclock

theorem programmedBy_of_log (h : Timed g s) (hfits : AllFit s.nand) (hpart : part < s.ns.nrParts)
    {before after : List (BlockOp (Nat × Nat × Nat × Nat))}
    (hlog : nandLog g.toSsdParams (s.ns.ftls part) =
      before ++ .program p.blkAddr (p.pg / g.pgsPerOneshotpg) :: after)
    (hkept : .erase p.blkAddr ∉ after) (start : Nat) (ioclock : Nat → Nat) :
    ProgrammedBy g (s.nand.log.filter fun e => e.call.part = part) p
      (convFlush g.toSsdParams s.nand.times s.ns.nrParts start ioclock) := by
  obtain ⟨xs, ys, hncmds, -, hys⟩ := List.filterMap_eq_append_iff.mp hlog
  obtain ⟨zs, ncmd, ys', rfl, -, hprogram, hafter⟩ := List.filterMap_eq_cons_iff.mp hys
  obtain ⟨hcmd, hblk, hslot⟩ := of_blockOp_eq_program hprogram
  have hturns := h.turns part hpart
  rw [hncmds, ← List.append_assoc] at hturns
  obtain ⟨es, e, es', hes, ⟨-, stime, hcall⟩, hrest⟩ := exists_split_of_forall₂ hturns
  have he : e ∈ s.nand.log := by
    refine List.mem_of_mem_filter (p := fun e => decide (e.call.part = part)) ?_
    rw [hes]
    simp
  have hwrite : e.call.ncmd.cmd = .write := by
    rw [hcall]
    exact hcmd
  have hppa : e.call.ncmd.ppa = some ncmd.ppa := by
    rw [hcall]
    rfl
  refine ⟨es, e, es', ncmd.ppa, hes, hwrite, hppa, hblk, hslot,
    completed_le_flush h hfits he (Or.inl hwrite) hppa start ioclock, ?_⟩
  intro e' he' herase q' hq' hsame
  obtain ⟨ncmd', hncmd', -, stime', hcall'⟩ := exists_left_of_forall₂ hrest he'
  rw [hcall'] at herase hq'
  obtain rfl := Option.some.inj hq'
  have hop : blockOp g.toSsdParams ncmd' = some (.erase p.blkAddr) := by
    have hcmd' : ncmd'.cmd = .erase := herase
    rw [blockOp, hcmd']
    exact congrArg (fun a => some (BlockOp.erase a)) hsame
  rw [← hafter] at hkept
  exact hkept (List.mem_filterMap.mpr ⟨ncmd', hncmd', hop⟩)

end Flush

section Targets

variable {g : Geometry} {fw : FwLatencies} {s s' : TimedConv} {req : Request}
  {es : List NandTiming.Issued} {ts : List Nat} {xfer target : Nat}

theorem le_foldl_max (a : Nat) (ts : List Nat) :
    a ≤ ts.foldl max a ∧ ∀ t ∈ ts, t ≤ ts.foldl max a := by
  refine ⟨le_foldl Nat.le_max_left _ _, ?_⟩
  intro t ht
  exact le_foldl_of_mem Nat.le_max_left ht (fun a => Nat.le_max_right a t) a

theorem stime_le_completed (h : Timed g s') (hfits : AllFit s'.nand) {e : NandTiming.Issued}
    (he : e ∈ s'.nand.log) : e.call.ncmd.stime ≤ e.reply.completedTime := by
  have hle := ((h.sane.ordered hfits).served e he).stime_le
  rw [cmdStime] at hle
  split at hle
  · rename_i hzero
    rw [hzero]
    exact Nat.zero_le _
  · exact hle

theorem writeTimes_ordered (h : WriteTimes g fw s req xfer es ts target s') (htimed : Timed g s')
    (hfits : AllFit s'.nand) :
    xfer ≤ target ∧ ∀ t ∈ ts, xfer ≤ t ∧
      ((req.fua || !fw.writeEarlyCompletion) = true → t ≤ target) := by
  obtain ⟨hle, hmax⟩ := le_foldl_max xfer ts
  rw [h.target]
  refine ⟨?_, ?_⟩
  · split
    · exact hle
    · exact Nat.le_refl _
  · intro t ht
    obtain ⟨e, he, -, hstime, rfl⟩ := h.programs t ht
    have hlog : e ∈ s'.nand.log := by
      rw [h.log]
      exact List.mem_append_right _ he
    refine ⟨hstime ▸ stime_le_completed htimed hfits hlog, ?_⟩
    intro hwait
    rw [if_pos hwait]
    exact hmax _ ht

theorem readTimes_ordered (h : ReadTimes fw s req es target s') (htimed : Timed g s')
    (hfits : AllFit s'.nand) (hsums : Fits s'.sums) :
    req.nsecsStart ≤ target ∧ ∀ e ∈ es,
      req.nsecsStart + readOverhead fw s.ns.nrParts req.cmd.rw ≤ e.reply.completedTime ∧
        e.reply.completedTime ≤ target := by
  obtain ⟨hle, hmax⟩ := le_foldl_max req.nsecsStart (es.map fun e => e.reply.completedTime)
  rw [h.target]
  refine ⟨hle, ?_⟩
  intro e he
  have hlog : e ∈ s'.nand.log := by
    rw [h.log]
    exact List.mem_append_right _ he
  have hstime := (h.reads e he).2
  rw [Nat.mod_eq_of_lt (h.started hsums)] at hstime
  exact ⟨hstime ▸ stime_le_completed htimed hfits hlog, hmax _ (List.mem_map_of_mem he)⟩

end Targets

section Examples

/-- The firmware latencies of the `SAMSUNG_970PRO` configuration. -/
def samsung970proFirmware : FwLatencies where
  fw4kbRdLat := 21500
  fwRdLat := 30490
  fwWbufLat0 := 4000
  fwWbufLat1 := 460
  writeEarlyCompletion := true

def hostCommand (opcode : ConvOpcode) (fua : Bool) (nsecsStart : Nat) : Request where
  cmd := { opcode := opcode, rw := { slba := 0, length := 7 } }
  fua := fua
  nsecsStart := nsecsStart
  clock _ := nsecsStart

def threeCommands : List TimedConvEvent :=
  [.cmd (hostCommand .write true 1000), .cmd (hostCommand .read false 300000),
    .cmd (hostCommand .write false 600000)]

theorem idleTimes_working : Working idleTimes := by
  have hidle : ∀ maxCredits xferLat, 0 < maxCredits → ChannelModel.Ready
      (idleChannel maxCredits xferLat) :=
    fun _ _ hpos => ⟨ChannelModel.nrCreditEntries_pos, Nat.zero_le _, hpos⟩
  exact ⟨fun _ _ => hidle 26 152 (by decide), hidle 110 36 (by decide)⟩

def fits (s : TimedConv) : Bool :=
  (s.nand.log.all fun e => e.reply.sums.all fun x => decide (x < 2 ^ 64)) &&
    s.sums.all fun x => decide (x < 2 ^ 64)

theorem allFit_of_fits {s : TimedConv} (h : fits s = true) : AllFit s.nand ∧ Fits s.sums := by
  simpa [fits, AllFit, Fits] using h

end Examples

section Results

variable (g : Geometry) (cpp : ConvParams) (lat : NandLatencies) (fw : FwLatencies)
  (nandClock : Nat → Nat → Nat) {nrParts : Nat} {ns₀ : ConvNs} {times : NandTimes}
  {s s' : TimedConv} {req : Request} {target : Nat}

variable {g cpp} in
theorem timedInit_timed (hinit : convInitNamespace g.toSsdParams nrParts = .ok ns₀)
    (hworking : Working times) :
    Timed g (timedInit ns₀ times) ∧ (timedInit ns₀ times).ns.nrParts = nrParts := by
  obtain ⟨hpls, htwo, hparts, hftls⟩ := convInitNamespace_ok hinit
  have hpending : ns₀.pending = [] := by
    obtain ⟨s, -, hns⟩ := exists_of_bind_eq_ok hinit
    cases hns
    rfl
  refine ⟨⟨⟨initial_nsInv hinit, ?_⟩, ⟨hworking, by simp [timedInit], ?_⟩, ?_, ?_⟩, hparts⟩
  · intro part
    exact hftls part ▸ initialFtl_disciplined htwo
  · intro _
    exact ⟨by simp [timedInit], by simp [timedInit], List.Pairwise.nil⟩
  · intro part _
    change List.Forall₂ _ (ns₀.ftls part).ssd.ncmds []
    rw [hftls]
    exact .nil
  · exact congrArg List.length hpending.symm

/-- Timing changes nothing that the FTL does: a run with times leaves the namespace where
the same run without them leaves it, or fails as that does. In its log every NAND command
of the FTL has had exactly one turn, in order, and every scheduled release has a due
time. -/
theorem timing_transparent (hpgsz : 0 < g.pgsz) (hdelay : cpp.enableGcDelay = true)
    (hparts : 0 < nrParts) (hinit : convInitNamespace g.toSsdParams nrParts = .ok ns₀)
    (hworking : Working times) (events : List TimedConvEvent) :
    (timedConvRun g.toSsdParams cpp lat fw nandClock (timedInit ns₀ times) events).map
        TimedConv.ns = convIoRun g.toSsdParams cpp ns₀ (events.map untimed) ∧
    ∀ s, timedConvRun g.toSsdParams cpp lat fw nandClock (timedInit ns₀ times) events = .ok s →
      (∀ part, part < nrParts → List.Forall₂ (TurnOf part) (s.ns.ftls part).ssd.ncmds
        (s.nand.log.filter fun e => e.call.part = part)) ∧
      s.targets.length = s.ns.pending.length := by
  obtain ⟨hpls, -, -, -⟩ := convInitNamespace_ok hinit
  obtain ⟨hstart, hnr⟩ := timedInit_timed hinit hworking
  have hrun := timedConvRun_projects lat nandClock hpgsz hpls hdelay hstart (hnr ▸ hparts) fw
    events
  refine ⟨hrun.map_eq, ?_⟩
  intro s hs
  obtain ⟨htimed, hkept⟩ := hrun.value s hs
  refine ⟨?_, htimed.targets⟩
  intro part hpart
  exact htimed.turns part (hkept.trans hnr ▸ hpart)

theorem timing_transparent_three : ∃ ns₀,
    convInitNamespace fiveLines.toSsdParams 1 = .ok ns₀ ∧
    (timedConvRun fiveLines.toSsdParams convInitParams samsung970proLatencies
      samsung970proFirmware (fun n _ => 1000 * n) (timedInit ns₀ idleTimes) threeCommands).map
        TimedConv.ns =
      convIoRun fiveLines.toSsdParams convInitParams ns₀ (threeCommands.map untimed) :=
  ⟨_, rfl, (timing_transparent fiveLines convInitParams samsung970proLatencies
    samsung970proFirmware _ (by decide) rfl (by decide) rfl idleTimes_working _).1⟩

end Results

end NvmeVirt.CommandCompletion
