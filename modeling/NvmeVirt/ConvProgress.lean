import NvmeVirt.ConvRuns

namespace NvmeVirt.ConvProgress

open NvmeVirt.ConventionalFtl
open NvmeVirt.ConvCollection
open NvmeVirt.ConvLineReclaim
open NvmeVirt.ConvMapping
open NvmeVirt.ConvRuns
open NvmeVirt.FaultOutcome
open NvmeVirt.FlashGeometry
open NvmeVirt.WriteBuffer

section Definitions

variable (spp : SsdParams) (cpp : ConvParams)

/-- `conv_write` has admitted the command in `ns` and its loop has written the
first `k` pages. -/
def MidWrite (ns : ConvNs) (cmd : RwCommand) (k : Nat) (ns' : ConvNs) : Prop :=
  endLpn spp cmd / ns.nrParts < spp.ttPgs ∧
    ∃ allocated buf, bufferAllocate ns.writeBuffer (lbaToByte cmd.nrLba) =
        .ok (allocated, buf) ∧ lbaToByte cmd.nrLba ≤ allocated ∧
      ((cmdLpns spp cmd).take k).foldlM (writeLpn spp cpp) { ns with writeBuffer := buf } =
        .ok ns'

/-- The states that a sequence of write commands passes through, those between
two pages of a command included. -/
def Passed (ns₀ ns' : ConvNs) : Prop :=
  ∃ events ns, convRun spp cpp ns₀ events = .ok ns ∧
    (ns' = ns ∨ ∃ cmd k, MidWrite spp cpp ns cmd k ns')

/-- A page written to a partition keeps `I`. -/
def KeptByPages (I : ConvFtl → Prop) : Prop :=
  ∀ s lpn, FtlInv spp s → I s → lpn < spp.ttPgs →
    Outcome (writeLocalLpn spp cpp lpn s) (fun r => I r.2) (fun _ => True)

/-- Every partition satisfies `I` besides the accounting. -/
structure Holds (I : ConvFtl → Prop) (ns : ConvNs) : Prop where
  inv : NsInv spp ns
  ftls : ∀ part, I (ns.ftls part)

end Definitions

section Rule

variable {g : Geometry} {cpp : ConvParams} {I : ConvFtl → Prop} {ns ns' : ConvNs}

theorem writeLpn_holds (hpls : g.plsPerLun = 1) (hkept : KeptByPages g.toSsdParams cpp I)
    (h : Holds g.toSsdParams I ns) {lpn : Nat} (hlpn : lpn / ns.nrParts < g.ttPgs) :
    Outcome (writeLpn g.toSsdParams cpp ns lpn)
      (fun ns' => Holds g.toSsdParams I ns' ∧ ns'.nrParts = ns.nrParts)
      (fun _ => True) := by
  have hpart := h.inv (lpn % ns.nrParts)
  have hwrite := (writeLocalLpn_spec cpp hpls hpart hlpn).and_right
    (hkept _ _ hpart (h.ftls (lpn % ns.nrParts)) hlpn)
  unfold writeLpn
  refine Outcome.bind (hwrite.imp (fun _ hr => hr) fun _ _ => trivial) ?_
  rintro ⟨flush, s'⟩ ⟨⟨hinv, -⟩, hI⟩
  refine ⟨⟨?_, ?_⟩, rfl⟩
  · intro part
    change FtlInv _ (Function.update ns.ftls (lpn % ns.nrParts) s' part)
    rcases eq_or_ne part (lpn % ns.nrParts) with rfl | hne
    · rw [Function.update_self]
      exact hinv
    · rw [Function.update_of_ne hne]
      exact h.inv part
  · intro part
    change I (Function.update ns.ftls (lpn % ns.nrParts) s' part)
    rcases eq_or_ne part (lpn % ns.nrParts) with rfl | hne
    · rw [Function.update_self]
      exact hI
    · rw [Function.update_of_ne hne]
      exact h.ftls part

theorem writeLpns_holds (hpls : g.plsPerLun = 1) (hkept : KeptByPages g.toSsdParams cpp I)
    (h : Holds g.toSsdParams I ns) {lpns : List Nat}
    (hlpns : ∀ lpn ∈ lpns, lpn / ns.nrParts < g.ttPgs) :
    Outcome (lpns.foldlM (writeLpn g.toSsdParams cpp) ns)
      (fun ns' => Holds g.toSsdParams I ns' ∧ ns'.nrParts = ns.nrParts)
      (fun _ => True) := by
  refine Outcome.foldlM ⟨h, rfl⟩ ?_
  rintro lpn hlpn ns₁ ⟨h₁, hparts⟩
  refine (writeLpn_holds hpls hkept h₁ (hparts ▸ hlpns lpn hlpn)).imp ?_ fun _ he => he
  rintro ns₂ ⟨h₂, hparts₂⟩
  exact ⟨h₂, hparts₂.trans hparts⟩

theorem MidWrite.holds {cmd : RwCommand} {k : Nat} (hpls : g.plsPerLun = 1)
    (hkept : KeptByPages g.toSsdParams cpp I) (h : Holds g.toSsdParams I ns)
    (hmid : MidWrite g.toSsdParams cpp ns cmd k ns') : Holds g.toSsdParams I ns' := by
  obtain ⟨hrange, allocated, buf, -, -, hloop⟩ := hmid
  have hstart : Holds g.toSsdParams I { ns with writeBuffer := buf } := ⟨h.inv, h.ftls⟩
  have hlpns : ∀ lpn ∈ (cmdLpns g.toSsdParams cmd).take k, lpn / ns.nrParts < g.ttPgs := by
    intro lpn hlpn
    have hle := lpn_le_endLpn (List.mem_of_mem_take hlpn)
    exact (Nat.div_le_div_right hle).trans_lt hrange
  exact ((writeLpns_holds hpls hkept hstart hlpns).value hloop).1

theorem convWrite_cases {spp : SsdParams} {cmd : RwCommand} {ok : Bool}
    (h : convWrite spp cpp ns cmd = .ok (ok, ns')) :
    (∃ buf, ns' = { ns with writeBuffer := buf }) ∨
      ∃ k, MidWrite spp cpp ns cmd k ns' := by
  unfold convWrite at h
  split at h
  · cases h
    exact Or.inl ⟨_, rfl⟩
  · rename_i hrange
    obtain ⟨⟨allocated, buf⟩, hallocate, h⟩ := exists_of_bind_eq_ok h
    dsimp only at h
    split at h
    · cases h
      exact Or.inl ⟨buf, rfl⟩
    · rename_i henough
      obtain ⟨ns₁, hloop, h⟩ := exists_of_bind_eq_ok h
      cases h
      refine Or.inr ⟨(cmdLpns spp cmd).length, not_le.mp hrange, allocated, buf, hallocate,
        not_lt.mp henough, ?_⟩
      rw [List.take_length]
      exact hloop

theorem convStep_holds (hpls : g.plsPerLun = 1) (hkept : KeptByPages g.toSsdParams cpp I)
    (h : Holds g.toSsdParams I ns) {event : ConvEvent}
    (hstep : convStep g.toSsdParams cpp ns event = .ok ns') : Holds g.toSsdParams I ns' := by
  cases event with
  | write cmd =>
      obtain ⟨⟨ok, ns₁⟩, hwrite, hret⟩ := exists_of_bind_eq_ok hstep
      cases hret
      rcases convWrite_cases hwrite with ⟨buf, rfl⟩ | ⟨k, hmid⟩
      · exact ⟨h.inv, h.ftls⟩
      · exact hmid.holds hpls hkept h
  | release i =>
      simp only [convStep] at hstep
      split at hstep
      · cases hstep
        exact h
      · cases hstep
        exact ⟨h.inv, h.ftls⟩

/-- What a fresh partition satisfies and every page written keeps, every
partition satisfies in every state passed. -/
theorem Passed.holds {nrParts : Nat} {ns₀ : ConvNs}
    (hinit : convInitNamespace g.toSsdParams nrParts = .ok ns₀)
    (hfresh : I (initialFtl g.toSsdParams)) (hkept : KeptByPages g.toSsdParams cpp I)
    (h : Passed g.toSsdParams cpp ns₀ ns) : Holds g.toSsdParams I ns := by
  obtain ⟨hpls, -, -, hftls⟩ := convInitNamespace_ok hinit
  obtain ⟨events, ns₁, hrun, hns⟩ := h
  have hstart : Holds g.toSsdParams I ns₀ :=
    ⟨initial_nsInv hinit, fun part => hftls part ▸ hfresh⟩
  have hend : Holds g.toSsdParams I ns₁ := by
    refine Outcome.value (E := fun _ => True) ?_ hrun
    refine Outcome.foldlM hstart ?_
    intro event _ ns₂ h₂
    cases hstep : convStep g.toSsdParams cpp ns₂ event with
    | error e => trivial
    | ok ns₃ => exact convStep_holds hpls hkept h₂ hstep
  rcases hns with rfl | ⟨cmd, k, hmid⟩
  · exact hend
  · exact hmid.holds hpls hkept hend

end Rule

section Credits

variable {g : Geometry} {s : ConvFtl}

/-- Both counters of the write flow control lie between 1 and the pages of a line. -/
structure Credited (spp : SsdParams) (wfc : WriteFlowControl) : Prop where
  credits_pos : 1 ≤ wfc.writeCredits
  credits_le : wfc.writeCredits ≤ spp.pgsPerLine
  refill_pos : 1 ≤ wfc.creditsToRefill
  refill_le : wfc.creditsToRefill ≤ spp.pgsPerLine

/-- `foreground_gc` leaves the credits alone, and a refill is what it was or the
invalid pages of a victim. -/
theorem foregroundGc_credits (cpp : ConvParams) (hpls : g.plsPerLun = 1)
    (h : FtlInv g.toSsdParams s) :
    Outcome (foregroundGc g.toSsdParams cpp s)
      (fun s' => s'.wfc.writeCredits = s.wfc.writeCredits ∧
        (s'.wfc.creditsToRefill = s.wfc.creditsToRefill ∨
          1 ≤ s'.wfc.creditsToRefill ∧ s'.wfc.creditsToRefill ≤ g.pgsPerLine))
      (fun _ => True) := by
  refine (foregroundGc_spec cpp hpls h).imp ?_ fun _ _ => trivial
  rintro s' ⟨-, -, ⟨-, rfl⟩ | ⟨-, ⟨-, rfl⟩ | ⟨ipc, hpos, hle, hwfc, -⟩⟩⟩
  · exact ⟨rfl, Or.inl rfl⟩
  · exact ⟨rfl, Or.inl rfl⟩
  · rw [hwfc]
    exact ⟨rfl, Or.inr ⟨hpos, hle⟩⟩

theorem checkAndRefill_credited (cpp : ConvParams) (hpls : g.plsPerLun = 1)
    (h : FtlInv g.toSsdParams s) (hle : s.wfc.writeCredits ≤ g.pgsPerLine)
    (hrefill : 1 ≤ s.wfc.creditsToRefill ∧ s.wfc.creditsToRefill ≤ g.pgsPerLine) :
    Outcome (checkAndRefillWriteCredit g.toSsdParams cpp s)
      (fun s' => Credited g.toSsdParams s'.wfc) (fun _ => True) := by
  unfold checkAndRefillWriteCredit
  split
  · rename_i hzero
    refine Outcome.bind (foregroundGc_credits cpp hpls h) ?_
    rintro s' ⟨hsame, hnext⟩
    have hbound : 1 ≤ s'.wfc.creditsToRefill ∧ s'.wfc.creditsToRefill ≤ g.pgsPerLine := by
      rcases hnext with hold | hnew
      · rw [hold]
        exact hrefill
      · exact hnew
    have hsmall := g.pgsPerLine_lt
    have hsum : (s'.wfc.writeCredits + s'.wfc.creditsToRefill) % 2 ^ 32 =
        s'.wfc.creditsToRefill := by
      rw [hsame, hzero, Nat.zero_add]
      exact Nat.mod_eq_of_lt (by omega)
    refine Outcome.pure ⟨?_, ?_, hbound.1, hbound.2⟩
    · exact hsum.symm ▸ hbound.1
    · exact hsum.symm ▸ hbound.2
  · rename_i hpos
    exact ⟨Nat.one_le_iff_ne_zero.mpr hpos, hle, hrefill.1, hrefill.2⟩

theorem credited_kept (cpp : ConvParams) (hpls : g.plsPerLun = 1) :
    KeptByPages g.toSsdParams cpp fun s => Credited g.toSsdParams s.wfc := by
  intro s lpn h hcredited hlpn
  unfold writeLocalLpn
  refine Outcome.bind ((remapLpn_spec hpls h.lines h.map hlpn).imp (fun _ hr => hr)
    fun _ _ => trivial) ?_
  rintro ⟨ppa, s₁⟩ ⟨hlines, hmap, -, hwfc, -⟩
  dsimp only
  generalize hs₂ : (if lastPgInWordline g.toSsdParams ppa = true then
    s₁.issue _ else s₁) = s₂
  have hinv : FtlInv g.toSsdParams s₂ ∧ s₂.wfc = s.wfc := by
    rw [← hs₂]
    split
    · exact ⟨FtlInv.of_same ⟨hlines, hmap⟩ rfl rfl rfl rfl rfl rfl rfl, hwfc⟩
    · exact ⟨⟨hlines, hmap⟩, hwfc⟩
  have hpos : s.wfc.writeCredits ≠ 0 := Nat.one_le_iff_ne_zero.mp hcredited.credits_pos
  have hcheck := checkAndRefill_credited cpp hpls hinv.1.consume
    (by
      simp only [consumeWriteCredit, hinv.2, if_neg hpos]
      exact (Nat.sub_le _ _).trans hcredited.credits_le)
    (by
      simp only [consumeWriteCredit, hinv.2]
      exact ⟨hcredited.refill_pos, hcredited.refill_le⟩)
  refine Outcome.bind hcheck ?_
  intro s' hs'
  exact hs'

theorem initialFtl_credited (g : Geometry) :
    Credited g.toSsdParams (initialFtl g.toSsdParams).wfc := by
  have hmod : g.pgsPerLine % 2 ^ 32 = g.pgsPerLine :=
    Nat.mod_eq_of_lt (g.pgsPerLine_lt.trans (by decide))
  have hpos := g.pgsPerLine_pos
  simp only [initialFtl, initWriteFlowControl, hmod]
  exact ⟨hpos, le_rfl, hpos, le_rfl⟩

/-- In every state that write commands pass through, after every page of every
command, both counters of a partition lie between 1 and the pages of a line, so
the next `write_credits--` does not wrap. -/
theorem write_credits_never_wrap (g : Geometry) (cpp : ConvParams) (nrParts : Nat)
    {ns₀ ns : ConvNs} (hinit : convInitNamespace g.toSsdParams nrParts = .ok ns₀)
    (hpassed : Passed g.toSsdParams cpp ns₀ ns) (part : Nat) :
    (1 ≤ (ns.ftls part).wfc.writeCredits ∧
      (ns.ftls part).wfc.writeCredits ≤ g.pgsPerLine) ∧
    (1 ≤ (ns.ftls part).wfc.creditsToRefill ∧
      (ns.ftls part).wfc.creditsToRefill ≤ g.pgsPerLine) ∧
    (consumeWriteCredit (ns.ftls part)).wfc.writeCredits + 1 =
      (ns.ftls part).wfc.writeCredits := by
  have hpls := (convInitNamespace_ok hinit).1
  obtain ⟨hpos, hle, hrpos, hrle⟩ :=
    (hpassed.holds hinit (initialFtl_credited g) (credited_kept cpp hpls)).ftls part
  refine ⟨⟨hpos, hle⟩, ⟨hrpos, hrle⟩, ?_⟩
  simp only [consumeWriteCredit, if_neg (Nat.one_le_iff_ne_zero.mp hpos)]
  exact Nat.sub_add_cancel hpos

theorem write_credits_never_wrap_overwrites :
    ∃ ns₀ ns, convInitNamespace fiveLines.toSsdParams 1 = .ok ns₀ ∧
      Passed fiveLines.toSsdParams convInitParams ns₀ ns ∧
      1 ≤ (ns.ftls 0).wfc.writeCredits := by
  refine ⟨_, _, rfl, ⟨overwrites, _, rfl, Or.inl rfl⟩, ?_⟩
  exact (write_credits_never_wrap fiveLines convInitParams 1 rfl
    ⟨overwrites, _, rfl, Or.inl rfl⟩ 0).1.1

end Credits

end NvmeVirt.ConvProgress
