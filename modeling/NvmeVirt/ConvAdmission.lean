import NvmeVirt.ConvCommands

namespace NvmeVirt.ConvAdmission

open ByteMemory
open ConvBuffer
open ConvCapacity
open ConvCommands
open ConvRuns
open ConventionalFtl
open FaultOutcome
open FlashGeometry
open PrpTransfer
open WriteBuffer

/-- The blocks of the command lie inside a namespace made of `size` bytes of flash. -/
def Inside (size : Nat) (cmd : RwCommand) : Prop := cmd.slba + cmd.nrLba ≤ nsSize size / 512

instance (size : Nat) (cmd : RwCommand) : Decidable (Inside size cmd) :=
  inferInstanceAs (Decidable (_ ≤ _))

/-- The limit on a transfer that the identify data announces: two to the power of
`MDTS` pages. -/
def maxTransfer : Nat := 2 ^ 6 * 4096

section Invariant

variable {g : Geometry} {cpp : ConvParams} {ns ns' : ConvNs} {cmd : RwCommand}

/-- What is in the buffer or comes back to it covers its size. -/
structure Covered (spp : SsdParams) (ns : ConvNs) : Prop where
  parts : 0 < ns.nrParts
  size_eq : ns.writeBuffer.size = spp.writeBufferSize
  le_held : spp.writeBufferSize ≤ held spp ns

theorem lbaToByte_le_pages (hpgsz : g.pgsz = lbaToByte g.secsPerPg) (hpos : 0 < g.secsPerPg)
    (hwrap : cmd.slba + cmd.nrLba ≤ 2 ^ 64) :
    lbaToByte cmd.nrLba ≤ g.pgsz * (cmdLpns g.toSsdParams cmd).length := by
  have hone : 0 < cmd.nrLba := Nat.succ_pos _
  have hlast : (cmd.slba + cmd.nrLba - 1) % 2 ^ 64 = cmd.slba + cmd.nrLba - 1 :=
    Nat.mod_eq_of_lt (by omega)
  have hlow := Nat.mul_div_le cmd.slba g.secsPerPg
  have hhigh := Nat.lt_mul_div_succ (cmd.slba + cmd.nrLba - 1) hpos
  have hblocks : cmd.nrLba ≤ g.secsPerPg *
      ((cmd.slba + cmd.nrLba - 1) / g.secsPerPg + 1 - cmd.slba / g.secsPerPg) := by
    rw [Nat.mul_sub]
    omega
  rw [cmdLpns, List.length_range', endLpn, startLpn, hlast, hpgsz, lbaToByte, lbaToByte,
    Nat.mul_right_comm]
  exact Nat.mul_le_mul_right 512 hblocks

/-- A write that passes the range check: it is refused when the buffer has too
little left, and it faults when the buffer is too small. -/
theorem convWrite_covered (cpp : ConvParams) (h : Covered g.toSsdParams ns)
    (hrange : ¬g.ttPgs ≤ endLpn g.toSsdParams cmd / ns.nrParts)
    (hsmall : g.writeBufferSize < 2 ^ 32)
    (hpages : lbaToByte cmd.nrLba ≤ g.pgsz * (cmdLpns g.toSsdParams cmd).length) :
    Outcome (convWrite g.toSsdParams cpp ns cmd)
      (fun r => Covered g.toSsdParams r.2 ∧
        (r.1 = false → ns.writeBuffer.remaining < lbaToByte cmd.nrLba))
      fun _ => True := by
  have hle := h.le_held
  have hsize := h.size_eq
  rw [held] at hle
  rw [convWrite, if_neg hrange]
  have hallocate := bufferAllocate_total ns.writeBuffer (lbaToByte cmd.nrLba)
  dsimp only
  cases hres : bufferAllocate ns.writeBuffer (lbaToByte cmd.nrLba) with
  | error e => trivial
  | ok r =>
      obtain ⟨allocated, buf⟩ := r
      have hfits : lbaToByte cmd.nrLba ≤ ns.writeBuffer.size := hallocate.value hres
      rw [ok_bind]
      dsimp only
      split
      · next hrefused =>
        obtain ⟨hbuf, ⟨hless, -, hsame⟩ | ⟨hall, -⟩⟩ := bufferAllocate_cases hres
        · refine Outcome.pure ⟨⟨h.parts, hbuf.trans hsize, ?_⟩, fun _ => hless⟩
          rw [held, hsame]
          exact hle
        · rw [Nat.mod_eq_of_lt (by omega)] at hall
          omega
      · next hgranted =>
        have hpos : 0 < lbaToByte cmd.nrLba := Nat.mul_pos (Nat.succ_pos _) (by decide)
        obtain ⟨hbuf, ⟨-, hnone, -⟩ | ⟨-, htaken⟩⟩ := bufferAllocate_cases hres
        · omega
        · have hwrites := writeLpns_held g cpp { ns with writeBuffer := buf } h.parts
            (cmdLpns g.toSsdParams cmd)
          refine Outcome.bind hwrites ?_
          rintro ns₁ ⟨hnr, hbuf₁, hheld⟩
          refine Outcome.pure ⟨⟨hnr ▸ h.parts, ?_, ?_⟩, by simp⟩
          · rw [hbuf₁]
            exact hbuf.trans hsize
          · rw [hheld, held]
            dsimp only
            omega

theorem convWrite_fits (cpp : ConvParams) (hpls : g.plsPerLun = 1) (h : NsInv g.toSsdParams ns)
    (hfits : lbaToByte cmd.nrLba ≤ ns.writeBuffer.size) :
    Outcome (convWrite g.toSsdParams cpp ns cmd) (fun _ => True) (· = .noFreeLine) := by
  rw [convWrite]
  split
  · trivial
  · next hrange =>
    have hlpns : ∀ lpn ∈ cmdLpns g.toSsdParams cmd, lpn / ns.nrParts < g.ttPgs := by
      intro lpn hlpn
      have hle := Nat.div_le_div_right (c := ns.nrParts) (lpn_le_endLpn hlpn)
      omega
    refine Outcome.bind (P := fun _ => True) ?_ ?_
    · refine (bufferAllocate_total ns.writeBuffer _).imp (fun _ _ => trivial) fun _ hgt => ?_
      exact absurd hfits (Nat.not_le_of_lt hgt)
    · rintro ⟨allocated, buf⟩ -
      dsimp only
      split
      · trivial
      · have hwrites := writeLpns_spec cpp { ns with writeBuffer := buf } hpls h hlpns
        refine Outcome.bind (hwrites.imp (fun _ _ => trivial) fun _ he => he) ?_
        exact fun _ _ => trivial

theorem release_covered (cpp : ConvParams) (h : Covered g.toSsdParams ns) (i : Nat) :
    Outcome (convStep g.toSsdParams cpp ns (.release i)) (Covered g.toSsdParams)
      fun _ => False := by
  rw [convStep]
  split
  · exact h
  · next bytes hbytes =>
    obtain ⟨hi, rfl⟩ := List.getElem?_eq_some_iff.1 hbytes
    have hsum := List.add_sum_eraseIdx hi fun _ _ => AddCommute.all _ _
    have hle := h.le_held
    refine ⟨h.parts, h.size_eq, ?_⟩
    rw [held] at hle ⊢
    simp only [bufferRelease]
    omega

end Invariant

section Shipped

variable {size : Nat} {hpos : 4 ≤ size} {hle : size ≤ 2 ^ 45} {ns ns' : ConvNs}
  {cmd : RwCommand}

/-- The local LPNs of a namespace made of `size` bytes of flash. -/
def lpnBound (size : Nat) : Nat := (nsSize size / 512 + 31) / 32

theorem lpnBound_lt (hpos : 4 ≤ size) (hle : size ≤ 2 ^ 45) :
    lpnBound size < ((shippedGeometry size hpos hle).blksPerPl - 4) *
      (shippedGeometry size hpos hle).pgsPerLine := by
  have hline : (shippedGeometry size hpos hle).pgsPerLine = 32 * oneshots size :=
    shipped_pgsPerLine size
  rw [hline, shipped_blksPerPl]
  simp only [lpnBound, nsSize, convInitParams, oneshots, divRoundUp]
  omega

/-- The invariant of a run whose writes stay inside the namespace. -/
structure Kept (size : Nat) (hpos : 4 ≤ size) (hle : size ≤ 2 ^ 45) (ns : ConvNs) : Prop where
  parts : ns.nrParts = 4
  inv : NsInv (shippedGeometry size hpos hle).toSsdParams ns
  flow : NsFlow (shippedGeometry size hpos hle).toSsdParams ns
  domain : ∀ part k, (ns.ftls part).maptbl k ≠ none → k < lpnBound size
  covered : Covered (shippedGeometry size hpos hle).toSsdParams ns

theorem Inside.no_wrap (h : Inside size cmd) (hle : size ≤ 2 ^ 45) :
    cmd.slba + cmd.nrLba ≤ 2 ^ 64 := by
  rw [Inside] at h
  simp only [nsSize, convInitParams] at h
  omega

theorem Inside.lpn_lt (h : Inside size cmd) (hpos : 4 ≤ size) (hle : size ≤ 2 ^ 45) :
    endLpn (shippedGeometry size hpos hle).toSsdParams cmd / 4 < lpnBound size := by
  have hsecs : (shippedGeometry size hpos hle).secsPerPg = 8 := rfl
  have hmod := Nat.mod_le (cmd.slba + cmd.nrLba - 1) (2 ^ 64)
  have hone : 0 < cmd.nrLba := Nat.succ_pos _
  rw [Inside] at h
  rw [endLpn, hsecs, lpnBound]
  omega

theorem lpnBound_le_ttPgs (hpos : 4 ≤ size) (hle : size ≤ 2 ^ 45) :
    lpnBound size ≤ (shippedGeometry size hpos hle).ttPgs := by
  have htotal : (shippedGeometry size hpos hle).ttPgs = 8192 * (32 * oneshots size) := by
    have hblk : (shippedGeometry size hpos hle).pgsPerBlk = 8 * oneshots size :=
      shipped_pgsPerBlk size
    have hcounts : (shippedGeometry size hpos hle).plsPerLun = 1 ∧
        (shippedGeometry size hpos hle).lunsPerCh = 2 ∧
        (shippedGeometry size hpos hle).nchs = 2 := ⟨rfl, rfl, rfl⟩
    rw [SsdParams.ttPgs, SsdParams.pgsPerCh, SsdParams.pgsPerLun, SsdParams.pgsPerPl, hblk,
      shipped_blksPerPl, hcounts.1, hcounts.2.1, hcounts.2.2]
    omega
  rw [htotal]
  simp only [lpnBound, nsSize, convInitParams, oneshots, divRoundUp]
  omega

theorem Inside.in_range (h : Inside size cmd) (hparts : ns.nrParts = 4) (hpos : 4 ≤ size)
    (hle : size ≤ 2 ^ 45) : ¬(shippedGeometry size hpos hle).ttPgs ≤
      endLpn (shippedGeometry size hpos hle).toSsdParams cmd / ns.nrParts := by
  have hlpn := h.lpn_lt hpos hle
  have hbound := lpnBound_le_ttPgs hpos hle
  rw [hparts]
  omega

theorem shipped_plsPerLun (hpos : 4 ≤ size) (hle : size ≤ 2 ^ 45) :
    (shippedGeometry size hpos hle).plsPerLun = 1 := rfl

theorem shipped_secsPerPg (hpos : 4 ≤ size) (hle : size ≤ 2 ^ 45) :
    (shippedGeometry size hpos hle).secsPerPg = 8 := rfl

theorem shipped_pgsz (hpos : 4 ≤ size) (hle : size ≤ 2 ^ 45) :
    (shippedGeometry size hpos hle).pgsz = lbaToByte (shippedGeometry size hpos hle).secsPerPg := by
  rw [shipped_secsPerPg]
  rfl

theorem shipped_writeBufferSize (hpos : 4 ≤ size) (hle : size ≤ 2 ^ 45) :
    (shippedGeometry size hpos hle).writeBufferSize = 1048576 := rfl

theorem Extends.below {lpns : Nat → Finset Nat} (h : Extends lpns ns ns')
    (hdomain : ∀ part k, (ns.ftls part).maptbl k ≠ none → k < lpnBound size)
    (hlpns : ∀ part k, k ∈ lpns part → k < lpnBound size) :
    ∀ part k, (ns'.ftls part).maptbl k ≠ none → k < lpnBound size := by
  intro part k hk
  rcases (h.2 part k).1 hk with hold | hnew
  · exact hdomain part k hold
  · exact hlpns part k hnew

theorem below_write {spp : SsdParams} (cpp : ConvParams) {bound : Nat}
    (hdomain : ∀ part k, (ns.ftls part).maptbl k ≠ none → k < bound)
    (hlpns : ∀ part k, k ∈ localLpns part ns.nrParts (cmdLpns spp cmd) → k < bound)
    (hbound : bound < (spp.blksPerPl - 4) * spp.pgsPerLine) :
    Below spp ns fun part => eventLpns spp cpp part ns (.write cmd) := by
  refine ⟨fun _ => Finset.range bound, fun part k hk => ?_, fun part k hk => ?_, fun _ => ?_⟩
  · exact Finset.mem_range.2 (hdomain part k hk)
  · obtain ⟨cmd', hcmd, hk⟩ := eventLpns_subset hk
    cases hcmd
    exact Finset.mem_range.2 (hlpns part k hk)
  · rw [Finset.card_range]
    exact hbound

theorem convProcNvmeIoCmd_read (spp : SsdParams) (cpp : ConvParams) (ns : ConvNs)
    {cmd : ConvCommand} (hop : cmd.opcode = .read) :
    convProcNvmeIoCmd spp cpp ns cmd =
      .ok (if (convRead spp ns cmd.rw).1 then some nvmeScSuccess else none,
        (convRead spp ns cmd.rw).2) := by
  rw [convProcNvmeIoCmd, hop]

theorem convWrite_kept (h : Kept size hpos hle ns) (hinside : Inside size cmd) :
    Outcome (convWrite (shippedGeometry size hpos hle).toSsdParams convInitParams ns cmd)
      (fun r => Kept size hpos hle r.2 ∧
        (r.1 = false → ns.writeBuffer.remaining < lbaToByte cmd.nrLba))
      (fun _ => ns.writeBuffer.size < lbaToByte cmd.nrLba) := by
  have hlpns : ∀ part k, k ∈ localLpns part ns.nrParts
      (cmdLpns (shippedGeometry size hpos hle).toSsdParams cmd) → k < lpnBound size := by
    intro part k hk
    obtain ⟨lpn, hlpn, -, rfl⟩ := mem_localLpns.1 hk
    have hlast := hinside.lpn_lt hpos hle
    have hle' := Nat.div_le_div_right (c := 4) (lpn_le_endLpn hlpn)
    rw [h.parts]
    omega
  have hbelow := below_write convInitParams h.domain hlpns (lpnBound_lt hpos hle)
  have hspec := convWrite_spec convInitParams (shipped_plsPerLun hpos hle) h.inv cmd
  have hflow := convStep_flow (shipped_plsPerLun hpos hle) h.inv h.flow (.write cmd) hbelow
  have hsecs : 0 < (shippedGeometry size hpos hle).secsPerPg := by
    rw [shipped_secsPerPg]
    decide
  have hpages := lbaToByte_le_pages (shipped_pgsz hpos hle) hsecs (hinside.no_wrap hle)
  have hcovered := convWrite_covered convInitParams h.covered
    (hinside.in_range h.parts hpos hle) (by rw [shipped_writeBufferSize]; decide) hpages
  rw [convStep] at hflow
  cases hrun : convWrite (shippedGeometry size hpos hle).toSsdParams convInitParams ns cmd with
  | error e =>
      rw [hrun] at hflow
      refine Nat.lt_of_not_le fun hfits => hflow ?_
      exact (convWrite_fits convInitParams (shipped_plsPerLun hpos hle) h.inv hfits).fault hrun
  | ok r =>
      rw [hrun] at hspec hflow hcovered
      obtain ⟨hinv, hext⟩ := hspec
      refine ⟨⟨hext.1.trans h.parts, hinv, hflow, ?_, hcovered.1⟩, hcovered.2⟩
      refine Extends.below hext h.domain fun part k hk => ?_
      split at hk
      · exact hlpns part k hk
      · simp at hk

theorem ftlInv_of_logged {spp : SsdParams} {s s' : ConvFtl} (h : FtlInv spp s)
    (hlogged : Logged s s') : FtlInv spp s' := by
  obtain ⟨ncmds, rfl⟩ := hlogged
  exact h.of_same rfl rfl rfl rfl rfl rfl rfl

theorem flowInv_of_logged {spp : SsdParams} {s s' : ConvFtl} (h : FlowInv spp s)
    (hlogged : Logged s s') : FlowInv spp s' := by
  obtain ⟨ncmds, rfl⟩ := hlogged
  exact ⟨h.credits_pos, h.credits_le, h.refill_pos, h.refill_le, h.room⟩

theorem held_of_logged {spp : SsdParams} (h : NsLogged ns ns') : held spp ns' = held spp ns := by
  have hpages : ∀ part, unflushed spp (ns'.ftls part) = unflushed spp (ns.ftls part) := by
    intro part
    obtain ⟨ncmds, hs⟩ := h.ftls part
    rw [hs]
    rfl
  rw [held, held, h.writeBuffer, h.pending, h.nrParts]
  simp only [hpages]

theorem Kept.of_logged (h : Kept size hpos hle ns) (hlogged : NsLogged ns ns') :
    Kept size hpos hle ns' where
  parts := hlogged.nrParts.trans h.parts
  inv part := ftlInv_of_logged (h.inv part) (hlogged.ftls part)
  flow part := flowInv_of_logged (h.flow part) (hlogged.ftls part)
  domain part k := by
    obtain ⟨ncmds, hs⟩ := hlogged.ftls part
    rw [hs]
    exact h.domain part k
  covered := by
    refine ⟨hlogged.nrParts ▸ h.covered.parts, ?_, ?_⟩
    · rw [hlogged.writeBuffer]
      exact h.covered.size_eq
    · rw [held_of_logged hlogged]
      exact h.covered.le_held

theorem release_kept (h : Kept size hpos hle ns) (i : Nat) :
    Outcome (convStep (shippedGeometry size hpos hle).toSsdParams convInitParams ns (.release i))
      (Kept size hpos hle) fun _ => False := by
  have hcovered := release_covered convInitParams h.covered i
  rw [convStep] at hcovered ⊢
  split at hcovered
  · exact h
  · exact ⟨h.parts, h.inv, h.flow, h.domain, hcovered⟩

theorem initial_kept {ns₀ : ConvNs}
    (hinit : convInitNamespace (shippedGeometry size hpos hle).toSsdParams 4 = .ok ns₀) :
    Kept size hpos hle ns₀ := by
  obtain ⟨-, -, hparts, hftls⟩ := convInitNamespace_ok hinit
  obtain ⟨s, -, hns⟩ := exists_of_bind_eq_ok hinit
  obtain rfl := Except.ok.inj hns
  refine ⟨hparts, initial_nsInv hinit, initial_nsFlow hinit ?_, fun part k hk => ?_, ?_⟩
  · rw [shipped_blksPerPl]
    decide
  · rw [hftls part] at hk
    exact absurd rfl hk
  · refine ⟨Nat.succ_pos 3, rfl, ?_⟩
    rw [held]
    exact Nat.le_trans (Nat.le_add_right _ _) (Nat.le_add_right _ _)

theorem convIoStep_kept {e : ConvIoEvent} (h : Kept size hpos hle ns)
    (hinside : ∀ cmd, e = .cmd cmd → cmd.opcode = .write → Inside size cmd.rw) :
    Outcome (convIoStep (shippedGeometry size hpos hle).toSsdParams convInitParams ns e)
      (Kept size hpos hle) fun _ => True := by
  cases e with
  | release i => exact (release_kept h i).imp (fun _ hk => hk) fun _ _ => trivial
  | cmd cmd =>
      rw [convIoStep]
      cases hop : cmd.opcode with
      | write =>
          rw [convProcNvmeIoCmd, hop]
          have hwrite := convWrite_kept h (hinside cmd rfl hop)
          refine Outcome.bind (P := fun r => Kept size hpos hle r.2) ?_ ?_
          · refine Outcome.bind (hwrite.imp (fun _ hr => hr.1) fun _ _ => trivial) ?_
            rintro ⟨ok, ns'⟩ hkept
            exact Outcome.pure hkept
          · rintro ⟨status, ns'⟩ hkept
            exact Outcome.pure hkept
      | read =>
          rw [convProcNvmeIoCmd_read _ _ ns hop]
          exact Outcome.pure (h.of_logged (convRead_logged ns cmd.rw))
      | flush =>
          rw [convProcNvmeIoCmd, hop]
          exact Outcome.pure h
      | other code =>
          rw [convProcNvmeIoCmd, hop]
          exact Outcome.pure h

theorem convIoRun_kept {events : List ConvIoEvent} (h : Kept size hpos hle ns)
    (hinside : ∀ cmd, .cmd cmd ∈ events → cmd.opcode = .write → Inside size cmd.rw)
    (hrun : convIoRun (shippedGeometry size hpos hle).toSsdParams convInitParams ns events =
      .ok ns') : Kept size hpos hle ns' := by
  refine (Outcome.foldlM (E := fun _ => True) h fun e he mid hmid => ?_).value hrun
  refine convIoStep_kept hmid fun cmd hcmd => ?_
  exact hinside cmd (hcmd ▸ he)

theorem Kept.room (h : Kept size hpos hle ns) (hpending : ns.pending = []) :
    maxTransfer ≤ ns.writeBuffer.remaining := by
  have hle' := h.covered.le_held
  have hpages : (∑ part ∈ Finset.range ns.nrParts,
      unflushed (shippedGeometry size hpos hle).toSsdParams (ns.ftls part)) ≤ 4 * 7 := by
    rw [h.parts]
    refine (Finset.sum_le_card_nsmul _ _ 7 fun part _ => ?_).trans (by simp)
    have hoff := Nat.mod_lt (ns.ftls part).wp.pg (show 0 < 8 by decide)
    exact Nat.le_of_lt_succ hoff
  have hpgsz : (shippedGeometry size hpos hle).pgsz = 4096 := rfl
  rw [held, hpending, List.sum_nil, hpgsz, shipped_writeBufferSize] at hle'
  rw [maxTransfer]
  omega

/-- A command inside the namespace is answered with success, or it is refused while
there are releases to wait for. -/
theorem convProcNvmeIoCmd_inside (cmd : ConvCommand) (h : Kept size hpos hle ns)
    (hop : cmd.opcode = .read ∨ cmd.opcode = .write) (hinside : Inside size cmd.rw)
    (hlimit : lbaToByte cmd.rw.nrLba ≤ maxTransfer) :
    ∃ status ns', convProcNvmeIoCmd (shippedGeometry size hpos hle).toSsdParams convInitParams
        ns cmd = .ok (status, ns') ∧ (status = none → ns.pending ≠ []) := by
  rcases hop with hop | hop
  · have hread : (convRead (shippedGeometry size hpos hle).toSsdParams ns cmd.rw).1 = true := by
      rw [convRead]
      dsimp only
      rw [if_neg (hinside.in_range h.parts hpos hle)]
    refine ⟨some nvmeScSuccess,
      (convRead (shippedGeometry size hpos hle).toSsdParams ns cmd.rw).2, ?_, by simp⟩
    rw [convProcNvmeIoCmd_read _ _ ns hop, if_pos hread]
  · have hwrite := convWrite_kept h hinside
    have hsize : ns.writeBuffer.size = 1048576 := h.covered.size_eq
    rw [convProcNvmeIoCmd, hop]
    dsimp only
    cases hrun : convWrite (shippedGeometry size hpos hle).toSsdParams convInitParams ns
        cmd.rw with
    | error e =>
        have hgt := hwrite.fault hrun
        rw [maxTransfer] at hlimit
        omega
    | ok r =>
        obtain ⟨ok, ns'⟩ := r
        have hrefused := (hwrite.value hrun).2
        refine ⟨_, ns', rfl, fun hnone hpending => ?_⟩
        have hroom := h.room hpending
        cases ok with
        | true => cases hnone
        | false =>
            have hless := hrefused rfl
            omega

variable (size) (pfnValid : Nat → Bool) (dptr : DataPtr) (host storage : Memory)

/-- A command is treated as its range demands: inside the namespace it may be
refused only while scheduled releases are pending, and otherwise it is answered
with an error and touches neither the mapping nor the storage. -/
def Respected (ns : ConvNs) (cmd : ConvCommand) : Prop :=
  if Inside size cmd.rw then
    ∃ status ns', convProcNvmeIoCmd (ssdInitParams samsung970pro size 4) convInitParams ns cmd =
        .ok (status, ns') ∧ (status = none → ns.pending ≠ [])
  else
    ∃ status ns' host', convServe (ssdInitParams samsung970pro size 4) convInitParams pfnValid
        dptr host storage ns cmd = .ok (some status, ns', host', storage) ∧
      status ≠ nvmeScSuccess ∧
      ∀ part, (ns'.ftls part).maptbl = (ns.ftls part).maptbl ∧
        (ns'.ftls part).rmap = (ns.ftls part).rmap

theorem convProcNvmeIoCmd_status (spp : SsdParams) (cpp : ConvParams) (cmd : ConvCommand) :
    Outcome (convProcNvmeIoCmd spp cpp ns cmd)
      (fun r => r.1 = none ∨ r.1 = some nvmeScSuccess) fun _ => True := by
  have hanswer : ∀ ok : Bool, (if ok then some nvmeScSuccess else none) = none ∨
      (if ok then some nvmeScSuccess else none) = some nvmeScSuccess := by
    intro ok
    cases ok with
    | false => exact .inl rfl
    | true => exact .inr rfl
  rw [convProcNvmeIoCmd]
  cases cmd.opcode with
  | write =>
      refine Outcome.bind (P := fun _ => True) ?_ ?_
      · cases convWrite spp cpp ns cmd.rw <;> trivial
      · rintro ⟨ok, ns'⟩ -
        exact Outcome.pure (hanswer ok)
  | read => exact hanswer _
  | flush => exact .inr rfl
  | other code => exact .inr rfl

theorem convServe_status (spp : SsdParams) (cpp : ConvParams) (cmd : ConvCommand) :
    Outcome (convServe spp cpp pfnValid dptr host storage ns cmd)
      (fun r => r.1 = none ∨ r.1 = some nvmeScSuccess) fun _ => True := by
  rw [convServe]
  refine Outcome.bind (convProcNvmeIoCmd_status spp cpp cmd) ?_
  rintro ⟨status, ns'⟩ hstatus
  dsimp only
  split
  · exact Outcome.pure hstatus
  · refine Outcome.bind (P := fun _ => True) ?_ ?_
    · cases performIo pfnValid dptr (direction cmd.opcode) host storage
        (lbaToByte cmd.rw.slba % 2 ^ 64) (lbaToByte cmd.rw.nrLba) <;> trivial
    · rintro ⟨host', storage'⟩ -
      exact Outcome.pure hstatus

end Shipped

end NvmeVirt.ConvAdmission
