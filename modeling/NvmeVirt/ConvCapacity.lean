import Mathlib.Algebra.Order.BigOperators.Group.Finset
import NvmeVirt.ConvRuns

/-!
Why one garbage collection per exhausted write credit is enough. The potential
is the number of free pages: it never falls below the outstanding credits plus
two lines, because a refill is either paid for by the collection it triggers or
granted while three lines are still free.
-/

namespace NvmeVirt.ConvCapacity

open NvmeVirt.ConventionalFtl
open NvmeVirt.ConvCollection
open NvmeVirt.ConvLineAccounting
open NvmeVirt.ConvLineReclaim
open NvmeVirt.ConvMapping
open NvmeVirt.ConvRuns
open NvmeVirt.FaultOutcome
open NvmeVirt.FlashGeometry
open NvmeVirt.StatusCounts
open NvmeVirt.WriteBuffer

structure FlowInv (spp : SsdParams) (s : ConvFtl) : Prop where
  credits_pos : 1 ≤ s.wfc.writeCredits
  credits_le : s.wfc.writeCredits ≤ spp.pgsPerLine
  refill_pos : 1 ≤ s.wfc.creditsToRefill
  refill_le : s.wfc.creditsToRefill ≤ spp.pgsPerLine
  room : s.wfc.writeCredits + 2 * spp.pgsPerLine + 2 ≤ freePages spp s

section Victim

variable {spp : SsdParams} {s : ConvFtl}

theorem freePages_lower (h : LineInv spp none none s) :
    spp.pgsPerLine * s.lm.freeLineCnt + 2 ≤ freePages spp s := by
  have hhost := countOf_pos (h.frontier .userIo).page_mem
    ((h.frontier .userIo).page_free (by simp))
  have hgc := countOf_pos (h.frontier .gcIo).page_mem
    ((h.frontier .gcIo).page_free (by simp))
  rw [h.freeCnt]
  unfold freePages
  simp only [ConvFtl.getWp] at hhost hgc
  omega

theorem full_lines_lower (h : LineInv spp none none s)
    (hnone : ∀ l, (s.lm.lines l).pos = 0) :
    spp.blksPerPl ≤ s.lm.freeLineCnt + s.lm.fullLineList.toFinset.card + 2 := by
  have hcover : Finset.range spp.blksPerPl ⊆ s.lm.freeLineList.toFinset ∪
      s.lm.fullLineList.toFinset ∪ {s.wp.curline, s.gcWp.curline} := by
    intro l hl
    obtain ⟨r, hr, -⟩ := exists_unique_role h (Finset.mem_range.mp hl)
    simp only [Finset.mem_union, Finset.mem_insert, Finset.mem_singleton]
    cases r with
    | free => exact Or.inl (Or.inl hr)
    | full => exact Or.inl (Or.inr hr)
    | victim => exact absurd (hnone l) ((mem_victim_iff h l).mp hr)
    | host => exact Or.inr (Or.inl (Finset.mem_singleton.mp hr))
    | gc => exact Or.inr (Or.inr (Finset.mem_singleton.mp hr))
  have hcard := Finset.card_le_card hcover
  rw [Finset.card_range] at hcard
  have hunion := Finset.card_union_le
    (s.lm.freeLineList.toFinset ∪ s.lm.fullLineList.toFinset)
    {s.wp.curline, s.gcWp.curline}
  have hunion' := Finset.card_union_le s.lm.freeLineList.toFinset
    s.lm.fullLineList.toFinset
  have hfree := List.toFinset_card_le s.lm.freeLineList
  have hopen : ({s.wp.curline, s.gcWp.curline} : Finset Nat).card ≤ 2 := Finset.card_le_two
  rw [h.freeCnt]
  omega

theorem full_pages_le_lpns (hpls : spp.plsPerLun = 1) (h : FtlInv spp s)
    {written : Finset Nat} (hdom : ∀ k, s.maptbl k ≠ none → k ∈ written) :
    s.lm.fullLineList.toFinset.card * spp.pgsPerLine ≤ written.card := by
  have hpages : (s.lm.fullLineList.toFinset.biUnion (linePages spp)).card =
      s.lm.fullLineList.toFinset.card * spp.pgsPerLine := by
    rw [Finset.card_biUnion]
    · simp [card_linePages]
    · intro l _ m _ hlm
      rw [Function.onFun, Finset.disjoint_left]
      intro p hp
      exact notMem_linePages hp hlm
  have hsub : (s.lm.fullLineList.toFinset.biUnion (linePages spp)).image some ⊆
      written.image s.maptbl := by
    intro q hq
    simp only [Finset.mem_image, Finset.mem_biUnion, List.mem_toFinset] at hq
    obtain ⟨p, ⟨l, hl, hp⟩, rfl⟩ := hq
    have hlt : l < spp.blksPerPl := by
      by_contra hge
      have hroles := h.lines.roles l
      have hcount := List.count_pos_iff.mpr hl
      rw [if_neg hge] at hroles
      unfold roleCount at hroles
      omega
    have hlive := h.lines.fullLines l hl p hp
    obtain ⟨lpn, -, hlpn⟩ := h.map.mapped.owner p (valid_of_mem_linePages hpls hlt hp)
      hlive id
    exact Finset.mem_image.mpr ⟨lpn, hdom lpn (by simp [hlpn]), hlpn⟩
  calc
    _ = (s.lm.fullLineList.toFinset.biUnion (linePages spp)).card := hpages.symm
    _ = ((s.lm.fullLineList.toFinset.biUnion (linePages spp)).image some).card :=
      (Finset.card_image_of_injective _ (Option.some_injective _)).symm
    _ ≤ (written.image s.maptbl).card := Finset.card_le_card hsub
    _ ≤ written.card := Finset.card_image_le

/-- Below capacity there is a victim as soon as at most two lines are free. -/
theorem victim_exists (hpls : spp.plsPerLun = 1) (h : FtlInv spp s)
    {written : Finset Nat} (hdom : ∀ k, s.maptbl k ≠ none → k ∈ written)
    (hcap : written.card < (spp.blksPerPl - 4) * spp.pgsPerLine)
    (hlow : s.lm.freeLineCnt ≤ 2) : selectVictimLine spp true s ≠ none := by
  intro hnone
  have hfull := full_lines_lower h.lines (selectVictimLine_eq_none h.lines hnone)
  have hlpns := full_pages_le_lpns hpls h hdom
  have hmul : (spp.blksPerPl - 4) * spp.pgsPerLine ≤
      s.lm.fullLineList.toFinset.card * spp.pgsPerLine :=
    Nat.mul_le_mul_right _ (by omega)
  omega

end Victim

section Flow

variable {g : Geometry} {s : ConvFtl} {lpn : Nat}

theorem shouldGcHigh_iff (s : ConvFtl) :
    shouldGcHigh convInitParams s = true ↔ s.lm.freeLineCnt ≤ 2 := by
  exact decide_eq_true_iff

theorem checkAndRefill_flow (hpls : g.plsPerLun = 1) (h : FtlInv g.toSsdParams s)
    (hcredits : s.wfc.writeCredits ≤ g.pgsPerLine)
    (hrefill : 1 ≤ s.wfc.creditsToRefill ∧ s.wfc.creditsToRefill ≤ g.pgsPerLine)
    (hroom : s.wfc.writeCredits + 2 * g.pgsPerLine + 2 ≤ freePages g.toSsdParams s)
    (hvictim : s.lm.freeLineCnt ≤ 2 → selectVictimLine g.toSsdParams true s ≠ none) :
    Outcome (checkAndRefillWriteCredit g.toSsdParams convInitParams s)
      (FlowInv g.toSsdParams) (fun _ => False) := by
  have hsmall := g.pgsPerLine_lt
  have hrefillMod : ∀ n, n ≤ g.pgsPerLine → (0 + n) % 2 ^ 32 = n := by
    intro n hn
    rw [Nat.zero_add, Nat.mod_eq_of_lt (by omega)]
  unfold checkAndRefillWriteCredit
  split
  · rename_i hzero
    refine Outcome.bind ((foregroundGc_spec convInitParams hpls h).imp (fun _ hs => hs)
      fun e he => by have := he.2; omega) ?_
    rintro s' ⟨hinv, -, hcase⟩
    rcases hcase with ⟨hhigh, rfl⟩ | ⟨hhigh, hnone | ⟨ipc, hpos, hle, hwfc, hfree⟩⟩
    · -- Three free lines are left: the old refill is granted once more.
      have hlines : 3 ≤ s'.lm.freeLineCnt := by
        by_contra hlt
        have := (shouldGcHigh_iff s').mpr (by omega)
        rw [hhigh] at this
        exact absurd this (by simp)
      have hlower := freePages_lower h.lines
      have hthree := Nat.mul_le_mul_left g.pgsPerLine hlines
      have hcred : (s'.wfc.writeCredits + s'.wfc.creditsToRefill) % 2 ^ 32 =
          s'.wfc.creditsToRefill := by
        rw [hzero]
        exact hrefillMod _ hrefill.2
      have hkeep : freePages g.toSsdParams { s' with wfc := { s'.wfc with
          writeCredits := (s'.wfc.writeCredits + s'.wfc.creditsToRefill) % 2 ^ 32 } } =
            freePages g.toSsdParams s' := rfl
      refine ⟨?_, ?_, hrefill.1, hrefill.2, ?_⟩
      · simpa only [hcred] using hrefill.1
      · simpa only [hcred] using hrefill.2
      · rw [hkeep]
        simp only [hcred]
        omega
    · exact absurd hnone.1 (hvictim ((shouldGcHigh_iff s).mp hhigh))
    · -- The collection pays for the refill.
      have hcred : (s'.wfc.writeCredits + s'.wfc.creditsToRefill) % 2 ^ 32 = ipc := by
        rw [hwfc]
        simp only [hzero]
        exact hrefillMod _ hle
      have hrefill' : s'.wfc.creditsToRefill = ipc := by rw [hwfc]
      have hkeep : freePages g.toSsdParams { s' with wfc := { s'.wfc with
          writeCredits := (s'.wfc.writeCredits + s'.wfc.creditsToRefill) % 2 ^ 32 } } =
            freePages g.toSsdParams s' := rfl
      refine ⟨?_, ?_, hrefill' ▸ hpos, hrefill' ▸ hle, ?_⟩
      · simpa only [hcred] using hpos
      · simpa only [hcred] using hle
      · rw [hkeep]
        simp only [hcred]
        omega
  · exact ⟨by omega, hcredits, hrefill.1, hrefill.2, hroom⟩

theorem consumeWriteCredit_flow (s : ConvFtl) (hpos : 1 ≤ s.wfc.writeCredits) :
    (consumeWriteCredit s).wfc.writeCredits + 1 = s.wfc.writeCredits ∧
      (consumeWriteCredit s).wfc.creditsToRefill = s.wfc.creditsToRefill ∧
      ∀ spp, freePages spp (consumeWriteCredit s) = freePages spp s := by
  have hne : s.wfc.writeCredits ≠ 0 := by omega
  refine ⟨?_, rfl, fun _ => rfl⟩
  simp only [consumeWriteCredit, if_neg hne]
  omega

theorem writeLocalLpn_flow (hpls : g.plsPerLun = 1) (h : FtlInv g.toSsdParams s)
    (hflow : FlowInv g.toSsdParams s) (hlpn : lpn < g.ttPgs) {written : Finset Nat}
    (hdom : ∀ k, s.maptbl k ≠ none → k ∈ written) (hmem : lpn ∈ written)
    (hcap : written.card < (g.blksPerPl - 4) * g.pgsPerLine) :
    Outcome (writeLocalLpn g.toSsdParams convInitParams lpn s)
      (fun r => FlowInv g.toSsdParams r.2) (fun _ => False) := by
  have hremap := remapLpn_spec hpls h.lines h.map hlpn
  have hroom := hflow.room
  have hcredits := hflow.credits_le
  have hsmall := g.pgsPerLine_lt
  unfold writeLocalLpn
  refine Outcome.bind (hremap.imp (fun _ hs => hs) fun e he => by
    have := he.2
    omega) ?_
  rintro ⟨ppa, s₁⟩ hr
  have hinv : FtlInv g.toSsdParams s₁ := ⟨hr.1, hr.2.1⟩
  have hmaptbl : s₁.maptbl = Function.update s.maptbl lpn (some ppa) := hr.2.2.1
  have hwfc : s₁.wfc = s.wfc := hr.2.2.2.1
  have hfree : freePages g.toSsdParams s₁ + 1 = freePages g.toSsdParams s := hr.2.2.2.2
  have hdom₁ : ∀ k, s₁.maptbl k ≠ none → k ∈ written := by
    intro k hk
    by_cases hkl : k = lpn
    · exact hkl ▸ hmem
    · rw [hmaptbl, Function.update_of_ne hkl] at hk
      exact hdom k hk
  dsimp only
  generalize hs₂ : (if lastPgInWordline g.toSsdParams ppa = true then
    s₁.issue _ else s₁) = s₂
  have hinv₂ : FtlInv g.toSsdParams s₂ ∧ s₂.maptbl = s₁.maptbl ∧ s₂.wfc = s₁.wfc ∧
      freePages g.toSsdParams s₂ = freePages g.toSsdParams s₁ := by
    rw [← hs₂]
    split
    · exact ⟨hinv.of_same rfl rfl rfl rfl rfl rfl rfl, rfl, rfl, rfl⟩
    · exact ⟨hinv, rfl, rfl, rfl⟩
  have hwfc₂ : s₂.wfc = s.wfc := hinv₂.2.2.1.trans hwfc
  have hpos₂ : 1 ≤ s₂.wfc.writeCredits := by
    rw [hwfc₂]
    exact hflow.credits_pos
  have hinv₃ := hinv₂.1.consume
  obtain ⟨hcred₃, hrefill₃, hfree₃⟩ := consumeWriteCredit_flow s₂ hpos₂
  have hfree₃' := hfree₃ g.toSsdParams
  rw [hwfc₂] at hcred₃ hrefill₃
  have hcheck := checkAndRefill_flow hpls hinv₃ (by omega)
    (by rw [hrefill₃]; exact ⟨hflow.refill_pos, hflow.refill_le⟩)
    (by have := hinv₂.2.2.2; omega)
    (victim_exists hpls hinv₃ (by
      intro k hk
      exact hdom₁ k (hinv₂.2.1 ▸ hk)) hcap)
  refine Outcome.bind hcheck ?_
  intro s' hs'
  exact hs'

end Flow

section Runs

variable {g : Geometry} {ns : ConvNs}

/-- The LPN sets may still grow by `lpns` and stay below capacity. -/
def Below (spp : SsdParams) (ns : ConvNs) (lpns : Nat → Finset Nat) : Prop :=
  ∃ written : Nat → Finset Nat,
    (∀ part k, (ns.ftls part).maptbl k ≠ none → k ∈ written part) ∧
    (∀ part k, k ∈ lpns part → k ∈ written part) ∧
    ∀ part, (written part).card < (spp.blksPerPl - 4) * spp.pgsPerLine

theorem Below.extends {spp : SsdParams} {ns ns' : ConvNs} {lpns lpns' rest : Nat → Finset Nat}
    (h : Below spp ns lpns) (hext : Extends lpns' ns ns')
    (hsplit : ∀ part, lpns' part ∪ rest part ⊆ lpns part) : Below spp ns' rest := by
  obtain ⟨written, hdom, hin, hcap⟩ := h
  refine ⟨written, ?_, ?_, hcap⟩
  · intro part k hk
    rcases (hext.2 part k).mp hk with hold | hnew
    · exact hdom part k hold
    · exact hin part k (hsplit part (Finset.mem_union_left _ hnew))
  · intro part k hk
    exact hin part k (hsplit part (Finset.mem_union_right _ hk))

def NsFlow (spp : SsdParams) (ns : ConvNs) : Prop := ∀ part, FlowInv spp (ns.ftls part)

theorem writeLpn_flow (hpls : g.plsPerLun = 1) (h : NsInv g.toSsdParams ns)
    (hflow : NsFlow g.toSsdParams ns) {lpn : Nat} (hlpn : lpn / ns.nrParts < g.ttPgs)
    (hbelow : Below g.toSsdParams ns fun part => localLpns part ns.nrParts [lpn]) :
    Outcome (writeLpn g.toSsdParams convInitParams ns lpn) (NsFlow g.toSsdParams)
      (fun _ => False) := by
  obtain ⟨written, hdom, hin, hcap⟩ := hbelow
  have hmem : lpn / ns.nrParts ∈ written (lpn % ns.nrParts) :=
    hin _ _ (mem_localLpns.mpr ⟨lpn, by simp, rfl, rfl⟩)
  have hwrite := writeLocalLpn_flow hpls (h (lpn % ns.nrParts)) (hflow _) hlpn (hdom _)
    hmem (hcap _)
  unfold writeLpn
  refine Outcome.bind hwrite ?_
  rintro ⟨flush, s'⟩ hs' part
  change FlowInv _ (Function.update ns.ftls (lpn % ns.nrParts) s' part)
  by_cases hpart : part = lpn % ns.nrParts
  · rw [hpart, Function.update_self]
    exact hs'
  · rw [Function.update_of_ne hpart]
    exact hflow part

theorem writeLpns_flow (hpls : g.plsPerLun = 1) (ns : ConvNs)
    (h : NsInv g.toSsdParams ns) (hflow : NsFlow g.toSsdParams ns) {lpns : List Nat}
    (hlpns : ∀ lpn ∈ lpns, lpn / ns.nrParts < g.ttPgs)
    (hbelow : Below g.toSsdParams ns fun part => localLpns part ns.nrParts lpns) :
    Outcome (lpns.foldlM (writeLpn g.toSsdParams convInitParams) ns)
      (NsFlow g.toSsdParams) (fun _ => False) := by
  induction lpns generalizing ns with
  | nil => exact hflow
  | cons lpn lpns ih =>
      have hsplit : ∀ part, localLpns part ns.nrParts [lpn] ∪
          localLpns part ns.nrParts lpns ⊆ localLpns part ns.nrParts (lpn :: lpns) :=
        fun part => (localLpns_cons part ns.nrParts lpn lpns).ge
      have hone : Below g.toSsdParams ns fun part => localLpns part ns.nrParts [lpn] :=
        hbelow.extends (Extends.refl ns) fun part =>
          (Finset.empty_union _).le.trans (Finset.subset_union_left.trans (hsplit part))
      have hspec := writeLpn_spec convInitParams hpls h (hlpns lpn (by simp))
      rw [List.foldlM_cons]
      refine Outcome.bind ((writeLpn_flow hpls h hflow (hlpns lpn (by simp)) hone).and_right
        hspec) ?_
      rintro ns₁ ⟨hflow₁, hinv₁, hext⟩
      refine ih ns₁ hinv₁ hflow₁ ?_ ?_
      · intro k hk
        rw [hext.1]
        exact hlpns k (by simp [hk])
      · rw [hext.1]
        exact hbelow.extends hext hsplit

theorem eventLpns_of_admitted {cpp : ConvParams} {cmd : RwCommand} {allocated : Nat}
    {buf : Buffer} {part : Nat} (hrange : ¬ g.ttPgs ≤ endLpn g.toSsdParams cmd / ns.nrParts)
    (hbuf : bufferAllocate ns.writeBuffer (lbaToByte cmd.nrLba) = .ok (allocated, buf))
    (hroom : ¬ allocated < lbaToByte cmd.nrLba) :
    eventLpns g.toSsdParams cpp part ns (.write cmd) =
      localLpns part ns.nrParts (cmdLpns g.toSsdParams cmd) := by
  simp only [eventLpns, convWrite, hrange, hbuf, hroom, ok_bind, if_false]
  cases (cmdLpns g.toSsdParams cmd).foldlM (writeLpn g.toSsdParams cpp)
    { ns with writeBuffer := buf } <;> rfl

theorem convStep_flow (hpls : g.plsPerLun = 1) (h : NsInv g.toSsdParams ns)
    (hflow : NsFlow g.toSsdParams ns) (ev : ConvEvent)
    (hbelow : Below g.toSsdParams ns fun part =>
      eventLpns g.toSsdParams convInitParams part ns ev) :
    Outcome (convStep g.toSsdParams convInitParams ns ev) (NsFlow g.toSsdParams)
      (fun e => e ≠ .noFreeLine) := by
  cases ev with
  | release i =>
      simp only [convStep]
      split
      · exact hflow
      · exact hflow
  | write cmd =>
      refine Outcome.bind (P := fun r : Bool × ConvNs => NsFlow g.toSsdParams r.2) ?_
        (fun _ hr => hr)
      unfold convWrite
      split
      · exact hflow
      · rename_i hrange
        have hlpns : ∀ lpn ∈ cmdLpns g.toSsdParams cmd, lpn / ns.nrParts < g.ttPgs := by
          intro lpn hlpn
          have hle := Nat.div_le_div_right (c := ns.nrParts) (lpn_le_endLpn hlpn)
          omega
        dsimp only
        cases hbuf : bufferAllocate ns.writeBuffer (lbaToByte cmd.nrLba) with
        | error e =>
            simp only [bufferAllocate, nvmevAssert] at hbuf
            split at hbuf
            · cases hbuf
            · obtain rfl := Except.error.inj hbuf
              exact fun heq => Fault.noConfusion heq
        | ok r =>
            obtain ⟨allocated, buf⟩ := r
            rw [ok_bind]
            dsimp only
            split
            · exact hflow
            · rename_i hroom
              have hevent : (fun part =>
                  eventLpns g.toSsdParams convInitParams part ns (.write cmd)) =
                  fun part => localLpns part ns.nrParts (cmdLpns g.toSsdParams cmd) :=
                funext fun part => eventLpns_of_admitted hrange hbuf hroom
              rw [hevent] at hbelow
              have hwrites := writeLpns_flow hpls { ns with writeBuffer := buf } h hflow
                hlpns hbelow
              refine Outcome.bind (hwrites.imp (fun _ hs => hs) fun _ => False.elim) ?_
              exact fun _ hs => hs

theorem convRun_flow (hpls : g.plsPerLun = 1) (h : NsInv g.toSsdParams ns)
    (hflow : NsFlow g.toSsdParams ns) (events : List ConvEvent)
    (hbelow : Below g.toSsdParams ns fun part =>
      convWritten g.toSsdParams convInitParams part ns events) :
    convRun g.toSsdParams convInitParams ns events ≠ .error .noFreeLine := by
  unfold convRun
  induction events generalizing ns with
  | nil => simp [pure, Except.pure]
  | cons ev evs ih =>
      have hspec := convStep_spec convInitParams hpls h ev
      have hevent : Below g.toSsdParams ns fun part =>
          eventLpns g.toSsdParams convInitParams part ns ev :=
        hbelow.extends (Extends.refl ns) fun part =>
          (Finset.empty_union _).le.trans Finset.subset_union_left
      have hstep := convStep_flow hpls h hflow ev hevent
      rw [List.foldlM_cons]
      cases hres : convStep g.toSsdParams convInitParams ns ev with
      | error e =>
          rw [hres] at hstep
          intro heq
          cases heq
          exact hstep rfl
      | ok ns₁ =>
          rw [hres] at hstep hspec
          simp only [convWritten, hres] at hbelow
          exact ih hspec.1 hstep (hbelow.extends hspec.2 fun _ => le_rfl)

theorem initial_nsFlow {nrParts : Nat} {ns₀ : ConvNs}
    (hinit : convInitNamespace g.toSsdParams nrParts = .ok ns₀) (hlines : 5 ≤ g.blksPerPl) :
    NsFlow g.toSsdParams ns₀ := by
  obtain ⟨-, htwo, -, hftls⟩ := convInitNamespace_ok hinit
  have hpos := g.pgsPerLine_pos
  have hsmall := g.pgsPerLine_lt
  have hfree := (initialFtl_inv htwo hpos).2
  have hmul := Nat.mul_le_mul_left g.pgsPerLine hlines
  have hcredit : g.pgsPerLine % 2 ^ 32 = g.pgsPerLine := Nat.mod_eq_of_lt (by omega)
  have hwfc : (initialFtl g.toSsdParams).wfc =
      { writeCredits := g.pgsPerLine, creditsToRefill := g.pgsPerLine } := by
    simp only [initialFtl, initWriteFlowControl, hcredit]
  intro part
  rw [hftls part]
  refine ⟨?_, ?_, ?_, ?_, ?_⟩ <;> rw [hwfc]
  · exact hpos
  · exact hpos
  · rw [hfree]
    dsimp only
    omega

/-- A run that starts with at least five lines and keeps the LPNs below capacity
always finds a free line. -/
theorem run_finds_free_line {nrParts : Nat} {ns₀ : ConvNs} (hlines : 5 ≤ g.ttLines)
    (hinit : convInitNamespace g.toSsdParams nrParts = .ok ns₀) (events : List ConvEvent)
    (hcap : ∀ part, (convWritten g.toSsdParams convInitParams part ns₀ events).card <
      (g.ttLines - 4) * g.pgsPerLine) :
    convRun g.toSsdParams convInitParams ns₀ events ≠ .error .noFreeLine := by
  obtain ⟨hpls, -, -, hftls⟩ := convInitNamespace_ok hinit
  have htt : g.ttLines = g.blksPerPl := by
    simp [SsdParams.ttLines, SsdParams.blksPerLun, hpls]
  rw [htt] at hlines hcap
  refine convRun_flow hpls (initial_nsInv hinit) (initial_nsFlow hinit hlines) events
    ⟨_, ?_, fun _ _ hk => hk, hcap⟩
  intro part k hk
  rw [hftls part] at hk
  exact absurd rfl hk

end Runs

section Shipped

/-- The namespace size that `conv_init_namespace` advertises for `size` bytes of
flash. -/
def nsSize (size : Nat) : Nat := size * 100 / convInitParams.pbaPcent

def oneshots (size : Nat) : Nat := divRoundUp (divRoundUp (size / 4) 32768) 32768

theorem shipped_pgsPerBlk (size : Nat) :
    (ssdInitParams samsung970pro size 4).pgsPerBlk = 8 * oneshots size := by
  simp [ssdInitParams, samsung970pro, oneshots]

theorem shipped_pgsPerLine (size : Nat) :
    (ssdInitParams samsung970pro size 4).pgsPerLine = 32 * oneshots size := by
  rw [SsdParams.pgsPerLine, shipped_pgsPerBlk]
  simp only [SsdParams.blksPerLine, SsdParams.ttLuns, ssdInitParams, samsung970pro]
  omega

/-- The shipped device with its four partitions, for the capacities whose page
numbers fit `struct ppa`. -/
def shippedGeometry (size : Nat) (hpos : 4 ≤ size) (hle : size ≤ 2 ^ 45) : Geometry :=
  { ssdInitParams samsung970pro size 4 with
    pgsPerLine_pos := by
      rw [shipped_pgsPerLine]
      unfold oneshots divRoundUp
      omega
    blk_oneshot := rfl
    blk_flash := by simp [ssdInitParams, samsung970pro]
    nchs_le := by simp [ssdInitParams, samsung970pro]
    lunsPerCh_le := by simp [ssdInitParams, samsung970pro]
    blksPerPl_le := by simp [ssdInitParams, samsung970pro]
    pgsPerBlk_le := by
      rw [shipped_pgsPerBlk]
      unfold oneshots divRoundUp
      omega
    pgsPerPl_lt := by
      have hblks : (ssdInitParams samsung970pro size 4).blksPerPl = 8192 := by
        simp [ssdInitParams, samsung970pro]
      rw [SsdParams.pgsPerPl, shipped_pgsPerBlk, hblks]
      unfold oneshots divRoundUp
      omega
    pgsPerLine_lt := by
      rw [shipped_pgsPerLine]
      unfold oneshots divRoundUp
      omega }

theorem shipped_blksPerPl {size : Nat} (hpos : 4 ≤ size) (hle : size ≤ 2 ^ 45) :
    (shippedGeometry size hpos hle).blksPerPl = 8192 := by
  simp [shippedGeometry, ssdInitParams, samsung970pro]

theorem shipped_ttLines {size : Nat} (hpos : 4 ≤ size) (hle : size ≤ 2 ^ 45) :
    (shippedGeometry size hpos hle).ttLines = 8192 := by
  rw [SsdParams.ttLines, SsdParams.blksPerLun, shipped_blksPerPl]
  simp [shippedGeometry, ssdInitParams, samsung970pro]

theorem shipped_init (size : Nat) (hpos : 4 ≤ size) (hle : size ≤ 2 ^ 45) :
    ∃ ns₀, convInitNamespace (shippedGeometry size hpos hle).toSsdParams 4 = .ok ns₀ := by
  have hftl : convInitFtl (shippedGeometry size hpos hle).toSsdParams = .ok _ :=
    convInitFtl_eq (by rw [shipped_blksPerPl, shipped_ttLines])
      (by rw [shipped_blksPerPl]; omega)
  rw [convInitNamespace, hftl, ok_bind]
  exact ⟨_, rfl⟩

/-- The commands stay inside a namespace of `bytes` bytes. -/
def Within (bytes : Nat) (events : List ConvEvent) : Prop :=
  ∀ cmd, .write cmd ∈ events → lbaToByte (cmd.slba + cmd.nrLba) ≤ bytes

theorem eventLpns_subset {spp : SsdParams} {cpp : ConvParams} {part : Nat} {ns : ConvNs}
    {ev : ConvEvent} {k : Nat} (hk : k ∈ eventLpns spp cpp part ns ev) :
    ∃ cmd, ev = .write cmd ∧ k ∈ localLpns part ns.nrParts (cmdLpns spp cmd) := by
  cases ev with
  | release i => simp [eventLpns] at hk
  | write cmd =>
      refine ⟨cmd, rfl, ?_⟩
      simp only [eventLpns] at hk
      split at hk
      · simp at hk
      · exact hk

theorem convWritten_subset {g : Geometry} {part : Nat} {ns : ConvNs}
    {events : List ConvEvent} (hpls : g.plsPerLun = 1) (h : NsInv g.toSsdParams ns) {k : Nat}
    (hk : k ∈ convWritten g.toSsdParams convInitParams part ns events) :
    ∃ cmd, .write cmd ∈ events ∧
      k ∈ localLpns part ns.nrParts (cmdLpns g.toSsdParams cmd) := by
  induction events generalizing ns with
  | nil => simp [convWritten] at hk
  | cons ev evs ih =>
      have hspec := convStep_spec convInitParams hpls h ev
      rw [convWritten, Finset.mem_union] at hk
      rcases hk with hk | hk
      · obtain ⟨cmd, rfl, hcmd⟩ := eventLpns_subset hk
        exact ⟨cmd, by simp, hcmd⟩
      · cases hres : convStep g.toSsdParams convInitParams ns ev with
        | error e => simp [hres] at hk
        | ok ns₁ =>
            rw [hres] at hk hspec
            obtain ⟨cmd, hmem, hcmd⟩ := ih hspec.1 hk
            rw [hspec.2.1] at hcmd
            exact ⟨cmd, by simp [hmem], hcmd⟩

theorem shipped_below_capacity {size : Nat} (hpos : 4 ≤ size) (hle : size ≤ 2 ^ 45)
    {ns₀ : ConvNs}
    (hinit : convInitNamespace (shippedGeometry size hpos hle).toSsdParams 4 = .ok ns₀)
    {events : List ConvEvent} (hwithin : Within (nsSize size) events) (part : Nat) :
    (convWritten (shippedGeometry size hpos hle).toSsdParams convInitParams part ns₀
      events).card <
      ((shippedGeometry size hpos hle).ttLines - 4) *
        (shippedGeometry size hpos hle).pgsPerLine := by
  obtain ⟨hpls, -, hparts, -⟩ := convInitNamespace_ok hinit
  have hsecs : (shippedGeometry size hpos hle).secsPerPg = 8 := rfl
  have hsub : convWritten (shippedGeometry size hpos hle).toSsdParams convInitParams part
      ns₀ events ⊆ Finset.range ((nsSize size / 512 + 31) / 32) := by
    intro k hk
    obtain ⟨cmd, hmem, hcmd⟩ := convWritten_subset hpls (initial_nsInv hinit) hk
    rw [hparts] at hcmd
    obtain ⟨lpn, hlpn, -, rfl⟩ := mem_localLpns.mp hcmd
    have hend := lpn_le_endLpn hlpn
    have hbytes := hwithin cmd hmem
    simp only [endLpn, RwCommand.nrLba, hsecs] at hend
    simp only [lbaToByte, RwCommand.nrLba] at hbytes
    have hmod := Nat.mod_le (cmd.slba + (cmd.length + 1) - 1) (2 ^ 64)
    rw [Finset.mem_range]
    omega
  have hcard := Finset.card_le_card hsub
  rw [Finset.card_range] at hcard
  have hline : (shippedGeometry size hpos hle).pgsPerLine = 32 * oneshots size :=
    shipped_pgsPerLine size
  rw [hline, shipped_ttLines]
  simp only [nsSize, convInitParams, oneshots, divRoundUp] at hcard ⊢
  omega

/-- `get_next_free_line` always finds a line: for every geometry of at least five
lines as long as the LPNs written to each partition stay below capacity, and for
the shipped device as long as the host stays inside the namespace. -/
theorem get_next_free_line_never_null :
    (∀ (g : Geometry) (nrParts : Nat), 5 ≤ g.ttLines →
      convInitNamespace g.toSsdParams nrParts ≠ .error .noFreeLine ∧
      ∀ ns₀, convInitNamespace g.toSsdParams nrParts = .ok ns₀ → ∀ events,
        (∀ part, (convWritten g.toSsdParams convInitParams part ns₀ events).card <
          (g.ttLines - 4) * g.pgsPerLine) →
        convRun g.toSsdParams convInitParams ns₀ events ≠ .error .noFreeLine) ∧
    (∀ (size : Nat) (hpos : 4 ≤ size) (hle : size ≤ 2 ^ 45),
      ∃ ns₀, convInitNamespace (shippedGeometry size hpos hle).toSsdParams 4 = .ok ns₀ ∧
        ∀ events, Within (nsSize size) events →
          convRun (shippedGeometry size hpos hle).toSsdParams convInitParams ns₀ events ≠
            .error .noFreeLine) := by
  constructor
  · intro g nrParts hlines
    refine ⟨?_, fun ns₀ hinit events hcap => run_finds_free_line hlines hinit events hcap⟩
    rw [convInitNamespace]
    by_cases hassert : g.blksPerPl = g.ttLines
    · rw [convInitFtl_eq hassert (by omega)]
      exact fun heq => nomatch heq
    · simp [convInitFtl, initLines, nvmevAssert, hassert, bind, Except.bind]
  · intro size hpos hle
    have hlines : 5 ≤ (shippedGeometry size hpos hle).ttLines := by
      rw [shipped_ttLines]
      omega
    obtain ⟨ns₀, hinit⟩ := shipped_init size hpos hle
    refine ⟨ns₀, hinit, ?_⟩
    intro events hwithin
    exact run_finds_free_line hlines hinit events
      (shipped_below_capacity hpos hle hinit hwithin)

theorem get_next_free_line_never_null_overwrites :
    ∃ ns₀, convInitNamespace fiveLines.toSsdParams 1 = .ok ns₀ ∧
      (∀ part, (convWritten fiveLines.toSsdParams convInitParams part ns₀
        overwrites).card < (fiveLines.ttLines - 4) * fiveLines.pgsPerLine) ∧
      convRun fiveLines.toSsdParams convInitParams ns₀ overwrites ≠ .error .noFreeLine := by
  have hgeneral := get_next_free_line_never_null.1 fiveLines 1 (by decide)
  obtain ⟨ns₀, hinit⟩ : ∃ ns₀, convInitNamespace fiveLines.toSsdParams 1 = .ok ns₀ :=
    ⟨_, rfl⟩
  have hcap : ∀ part, (convWritten fiveLines.toSsdParams convInitParams part ns₀
      overwrites).card < (fiveLines.ttLines - 4) * fiveLines.pgsPerLine := by
    intro part
    have hsub : convWritten fiveLines.toSsdParams convInitParams part ns₀ overwrites ⊆
        {0} := by
      intro k hk
      obtain ⟨cmd, hmem, hcmd⟩ := convWritten_subset rfl (initial_nsInv hinit) hk
      obtain rfl : cmd = { slba := 0, length := 7 } := by simpa [overwrites] using hmem
      rw [(convInitNamespace_ok hinit).2.2.1] at hcmd
      obtain ⟨lpn, hlpn, -, rfl⟩ := mem_localLpns.mp hcmd
      obtain rfl : lpn = 0 := List.mem_singleton.mp hlpn
      decide
    exact Nat.lt_of_le_of_lt (Finset.card_le_card hsub) (by decide)
  exact ⟨ns₀, hinit, hcap, hgeneral.2 ns₀ hinit overwrites hcap⟩

end Shipped

end NvmeVirt.ConvCapacity
