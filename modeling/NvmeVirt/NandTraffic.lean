import NvmeVirt.NandDiscipline

namespace NvmeVirt.NandTraffic

open NvmeVirt.ConvLineAccounting
open NvmeVirt.ConvLineReclaim
open NvmeVirt.ConvProgress
open NvmeVirt.ConvRuns
open NvmeVirt.ConventionalFtl
open NvmeVirt.FaultOutcome
open NvmeVirt.FlashGeometry
open NvmeVirt.NandDiscipline
open NvmeVirt.SequentialBlocks
open NvmeVirt.WriteBuffer

section Definitions

variable (spp : SsdParams) (cpp : ConvParams) (part : Nat)

def partPages (nrParts : Nat) (lpns : List Nat) : Nat :=
  lpns.countP fun lpn => lpn % nrParts = part

/-- The pages that an event writes to a partition: those of a command that is not
rejected. -/
def eventPages (ns : ConvNs) : ConvEvent → Nat
  | .write cmd =>
      match convWrite spp cpp ns cmd with
      | .ok (false, _) => 0
      | _ => partPages part ns.nrParts (cmdLpns spp cmd)
  | .release _ => 0

def hostPages : ConvNs → List ConvEvent → Nat
  | _, [] => 0
  | ns, ev :: evs =>
      eventPages spp cpp part ns ev +
        match convStep spp cpp ns ev with
        | .ok ns => hostPages ns evs
        | .error _ => 0

end Definitions

section Runs

variable {g : Geometry} {cpp : ConvParams} {ns : ConvNs}

theorem disciplined_kept (hpls : g.plsPerLun = 1) (hdelay : cpp.enableGcDelay = true) :
    KeptByPages g.toSsdParams cpp (Disciplined g.toSsdParams 0) := by
  intro s lpn h hd _
  exact (writeLocalLpn_disciplined hpls hdelay h hd lpn).imp (fun _ hr => hr.1) fun _ _ => trivial

/-- From `ns` to `ns'` every partition `part` has been given `pages part` pages. -/
def Receives (spp : SsdParams) (pages : Nat → Nat) (ns ns' : ConvNs) : Prop :=
  ns'.nrParts = ns.nrParts ∧ ∀ part, filled spp .userIo (ns'.ftls part) =
    filled spp .userIo (ns.ftls part) + pages part

theorem Receives.trans {spp : SsdParams} {pages pages' : Nat → Nat} {ns₁ ns₂ ns₃ : ConvNs}
    (h : Receives spp pages ns₁ ns₂) (h' : Receives spp pages' ns₂ ns₃) :
    Receives spp (fun part => pages part + pages' part) ns₁ ns₃ := by
  refine ⟨h'.1.trans h.1, ?_⟩
  intro part
  rw [h'.2 part, h.2 part, Nat.add_assoc]

theorem writeLpn_receives (hpls : g.plsPerLun = 1) (hdelay : cpp.enableGcDelay = true)
    (h : Holds g.toSsdParams (Disciplined g.toSsdParams 0) ns) (lpn : Nat) :
    Outcome (writeLpn g.toSsdParams cpp ns lpn)
      (Receives g.toSsdParams (fun part => partPages part ns.nrParts [lpn]) ns)
      (fun _ => True) := by
  unfold writeLpn
  refine Outcome.bind (writeLocalLpn_disciplined hpls hdelay (h.inv (lpn % ns.nrParts))
    (h.ftls _) (lpn / ns.nrParts)) ?_
  rintro ⟨flush, s'⟩ ⟨-, hfilled, -⟩
  refine ⟨rfl, ?_⟩
  intro part
  change filled g.toSsdParams .userIo (Function.update ns.ftls (lpn % ns.nrParts) s' part) = _
  rcases eq_or_ne part (lpn % ns.nrParts) with rfl | hne
  · rw [Function.update_self]
    simpa [partPages] using hfilled
  · rw [Function.update_of_ne hne]
    simp [partPages, hne.symm]

theorem writeLpns_receives (hpls : g.plsPerLun = 1) (hdelay : cpp.enableGcDelay = true)
    (h : Holds g.toSsdParams (Disciplined g.toSsdParams 0) ns) {lpns : List Nat}
    (hlpns : ∀ lpn ∈ lpns, lpn / ns.nrParts < g.ttPgs) :
    Outcome (lpns.foldlM (writeLpn g.toSsdParams cpp) ns)
      (Receives g.toSsdParams (fun part => partPages part ns.nrParts lpns) ns)
      (fun _ => True) := by
  induction lpns generalizing ns with
  | nil => exact ⟨rfl, fun _ => rfl⟩
  | cons lpn lpns ih =>
      rw [List.foldlM_cons]
      refine Outcome.bind ((writeLpn_holds hpls (disciplined_kept hpls hdelay) h
        (hlpns lpn List.mem_cons_self)).and_right
          (writeLpn_receives hpls hdelay h lpn)) ?_
      rintro ns₁ ⟨⟨h₁, hparts⟩, hreceives⟩
      refine (ih h₁ ?_).imp ?_ fun _ he => he
      · intro k hk
        rw [hparts]
        exact hlpns k (List.mem_cons_of_mem _ hk)
      · intro ns₂ h₂
        rw [hparts] at h₂
        have hsum := hreceives.trans h₂
        refine ⟨hsum.1, ?_⟩
        intro part
        rw [hsum.2 part]
        simp only [partPages, List.countP_cons, List.countP_nil]
        omega

theorem convWrite_receives (hpls : g.plsPerLun = 1) (hdelay : cpp.enableGcDelay = true)
    (h : Holds g.toSsdParams (Disciplined g.toSsdParams 0) ns) (cmd : RwCommand) :
    Outcome (convWrite g.toSsdParams cpp ns cmd)
      (fun r => Receives g.toSsdParams (fun part =>
        if r.1 then partPages part ns.nrParts (cmdLpns g.toSsdParams cmd) else 0) ns r.2)
      (fun _ => True) := by
  unfold convWrite
  split
  · exact ⟨rfl, fun _ => rfl⟩
  · rename_i hrange
    refine Outcome.bind (P := fun _ => True) (Outcome.of_value fun _ _ => trivial) ?_
    rintro ⟨allocated, buf⟩ -
    dsimp only
    split
    · exact ⟨rfl, fun _ => rfl⟩
    · have hlpns : ∀ lpn ∈ cmdLpns g.toSsdParams cmd, lpn / ns.nrParts < g.ttPgs := by
        intro lpn hlpn
        exact (Nat.div_le_div_right (lpn_le_endLpn hlpn)).trans_lt (not_le.mp hrange)
      have hbuf : Holds g.toSsdParams (Disciplined g.toSsdParams 0)
          { ns with writeBuffer := buf } := ⟨h.inv, h.ftls⟩
      refine Outcome.bind (writeLpns_receives hpls hdelay hbuf hlpns) ?_
      intro ns' hns'
      exact hns'

theorem convStep_receives (hpls : g.plsPerLun = 1) (hdelay : cpp.enableGcDelay = true)
    (h : Holds g.toSsdParams (Disciplined g.toSsdParams 0) ns) (ev : ConvEvent) :
    Outcome (convStep g.toSsdParams cpp ns ev)
      (Receives g.toSsdParams (fun part => eventPages g.toSsdParams cpp part ns ev) ns)
      (fun _ => True) := by
  cases ev with
  | write cmd =>
      have hwrite := convWrite_receives hpls hdelay h cmd
      simp only [convStep, eventPages]
      cases hres : convWrite g.toSsdParams cpp ns cmd with
      | error e => trivial
      | ok r =>
          obtain ⟨done, ns'⟩ := r
          rw [hres] at hwrite
          cases done
          · exact hwrite
          · exact hwrite
  | release i =>
      simp only [convStep]
      split
      · exact ⟨rfl, fun _ => rfl⟩
      · exact ⟨rfl, fun _ => rfl⟩

theorem convRun_receives (hpls : g.plsPerLun = 1) (hdelay : cpp.enableGcDelay = true)
    (h : Holds g.toSsdParams (Disciplined g.toSsdParams 0) ns) (events : List ConvEvent) :
    Outcome (convRun g.toSsdParams cpp ns events)
      (fun ns' => Holds g.toSsdParams (Disciplined g.toSsdParams 0) ns' ∧
        Receives g.toSsdParams
          (fun part => hostPages g.toSsdParams cpp part ns events) ns ns')
      (fun _ => True) := by
  unfold convRun
  induction events generalizing ns with
  | nil => exact ⟨h, rfl, fun _ => rfl⟩
  | cons ev evs ih =>
      have hstep := convStep_receives hpls hdelay h ev
      rw [List.foldlM_cons]
      simp only [hostPages]
      cases hres : convStep g.toSsdParams cpp ns ev with
      | error e => trivial
      | ok ns₁ =>
          rw [hres] at hstep
          have h₁ := convStep_holds hpls (disciplined_kept hpls hdelay) h hres
          refine (ih h₁).imp ?_ fun _ he => he
          rintro ns₂ ⟨h₂, hreceives⟩
          exact ⟨h₂, hstep.trans hreceives⟩

theorem ttPgs_eq (hpls : g.plsPerLun = 1) : g.ttPgs = g.pgsPerLine * g.blksPerPl := by
  simp only [SsdParams.ttPgs, SsdParams.pgsPerCh, SsdParams.pgsPerLun, SsdParams.pgsPerPl,
    SsdParams.pgsPerLine, SsdParams.blksPerLine, SsdParams.ttLuns, hpls, Nat.mul_one]
  ac_rfl

end Runs

section Results

variable (g : Geometry) (cpp : ConvParams) (nrParts : Nat) {ns₀ : ConvNs}

/-- In every state that write commands pass through, the NAND commands of a partition
are legal on a flash array: one-shot pages of a block are programmed in order and in
one piece, none twice without an erase of its block in between, garbage collection
reads programmed pages only and erases full blocks only. The array is then where the
block table says. -/
theorem nand_commands_legal {ns : ConvNs} (hdelay : cpp.enableGcDelay = true)
    (hinit : convInitNamespace g.toSsdParams nrParts = .ok ns₀)
    (hpassed : Passed g.toSsdParams cpp ns₀ ns) (part : Nat) :
    (∃ blocks, replay g.oneshotpgsPerBlk blank (nandLog g.toSsdParams (ns.ftls part)) =
        some blocks ∧ ∀ a,
      blocks.level a = used (ns.ftls part) a / g.pgsPerOneshotpg ∧
      blocks.wear a = ((ns.ftls part).ssd.blk a).eraseCnt ∧
      programs a (nandLog g.toSsdParams (ns.ftls part)) =
        used (ns.ftls part) a / g.pgsPerOneshotpg +
          g.oneshotpgsPerBlk * ((ns.ftls part).ssd.blk a).eraseCnt) ∧
    (∀ a slot before between after, nandLog g.toSsdParams (ns.ftls part) =
        before ++ .program a slot :: (between ++ .program a slot :: after) →
      .erase a ∈ between) ∧
    ∀ ncmd ∈ (ns.ftls part).ssd.ncmds, Proper g.toSsdParams ncmd := by
  obtain ⟨hpls, htwo, -, -⟩ := convInitNamespace_ok hinit
  have h := (hpassed.holds hinit (initialFtl_disciplined htwo)
    (disciplined_kept hpls hdelay)).ftls part
  obtain ⟨blocks, hreplay, hblocks⟩ := h.obeyed
  refine ⟨⟨blocks, hreplay, ?_⟩, ?_, h.proper⟩
  · intro a
    obtain ⟨hlevel, hwear⟩ := hblocks a
    obtain ⟨hprograms, herases⟩ := replay_counts hreplay a
    refine ⟨hlevel, hwear, ?_⟩
    simp only [blank, Nat.add_zero, Nat.zero_add] at hprograms herases
    rw [hprograms, hlevel, ← hwear, herases]
  · intro a slot before between after hlog
    rw [hlog] at hreplay
    exact erase_mem_between hreplay

theorem nand_commands_legal_overwrites :
    ∃ ns₀ ns, convInitNamespace fiveLines.toSsdParams 1 = .ok ns₀ ∧
      Passed fiveLines.toSsdParams convInitParams ns₀ ns ∧
      ∀ ncmd ∈ (ns.ftls 0).ssd.ncmds, Proper fiveLines.toSsdParams ncmd := by
  refine ⟨_, _, rfl, ⟨overwrites, _, rfl, Or.inl rfl⟩, ?_⟩
  exact (nand_commands_legal fiveLines convInitParams 1 rfl rfl
    ⟨overwrites, _, rfl, Or.inl rfl⟩ 0).2.2

/-- After every run, the pages that commands wrote to a partition are the pages of its
host programs and those waiting in the open one-shot page. The pages that host and
garbage collection filled, with the free ones, are the pages of the partition and the
erased ones. -/
theorem page_traffic_balanced (events : List ConvEvent) {ns : ConvNs}
    (hdelay : cpp.enableGcDelay = true)
    (hinit : convInitNamespace g.toSsdParams nrParts = .ok ns₀)
    (hrun : convRun g.toSsdParams cpp ns₀ events = .ok ns) (part : Nat) :
    g.pgsPerOneshotpg * issued .userIo .write (ns.ftls part) +
        waiting g.toSsdParams .userIo (ns.ftls part) =
      hostPages g.toSsdParams cpp part ns₀ events ∧
    hostPages g.toSsdParams cpp part ns₀ events +
        (g.pgsPerOneshotpg * issued .gcIo .write (ns.ftls part) +
          waiting g.toSsdParams .gcIo (ns.ftls part)) +
        freePages g.toSsdParams (ns.ftls part) =
      g.ttPgs + g.pgsPerBlk * issued .gcIo .erase (ns.ftls part) := by
  obtain ⟨hpls, htwo, -, hftls⟩ := convInitNamespace_ok hinit
  have hstart : Holds g.toSsdParams (Disciplined g.toSsdParams 0) ns₀ :=
    ⟨initial_nsInv hinit, fun part => hftls part ▸ initialFtl_disciplined htwo⟩
  obtain ⟨hend, -, hfilled⟩ := (convRun_receives hpls hdelay hstart events).value hrun
  have hhost := hfilled part
  rw [hftls part, show filled g.toSsdParams .userIo (initialFtl g.toSsdParams) = 0 by
    simp [filled, issued, waiting, initialFtl, ConvFtl.getWp], Nat.zero_add] at hhost
  refine ⟨hhost, ?_⟩
  have hbalance := (hend.ftls part).balance
  rw [hhost, Nat.mul_zero, Nat.add_zero] at hbalance
  rw [ttPgs_eq hpls]
  exact hbalance

theorem page_traffic_balanced_overwrites :
    ∃ ns₀ ns, convInitNamespace fiveLines.toSsdParams 1 = .ok ns₀ ∧
      convRun fiveLines.toSsdParams convInitParams ns₀ overwrites = .ok ns ∧
      hostPages fiveLines.toSsdParams convInitParams 0 ns₀ overwrites = 4 :=
  ⟨_, _, rfl, rfl,
    (page_traffic_balanced fiveLines convInitParams 1 overwrites rfl rfl rfl 0).1.symm.trans
      (by decide)⟩

end Results

end NvmeVirt.NandTraffic
