import Mathlib.Order.Interval.Finset.Nat
import NvmeVirt.ConvCollection

namespace NvmeVirt.ConvRuns

open NvmeVirt.ConventionalFtl
open NvmeVirt.ConvCollection
open NvmeVirt.ConvLineAccounting
open NvmeVirt.ConvLineReclaim
open NvmeVirt.ConvMapping
open NvmeVirt.FaultOutcome
open NvmeVirt.FlashGeometry
open NvmeVirt.StatusCounts
open NvmeVirt.WriteBuffer

/-- The invariant of one partition between two mapping rounds. -/
structure FtlInv (spp : SsdParams) (s : ConvFtl) : Prop where
  lines : LineInv spp none none s
  map : MapInv spp (fun _ => False) s

section Partition

variable {g : Geometry} {s : ConvFtl} {lpn : Nat}

theorem FtlInv.of_same {spp : SsdParams} (h : FtlInv spp s) {s' : ConvFtl}
    (hlm : s'.lm = s.lm) (hwp : s'.wp = s.wp) (hgc : s'.gcWp = s.gcWp)
    (hpg : s'.ssd.pg = s.ssd.pg) (hblk : s'.ssd.blk = s.ssd.blk)
    (hmaptbl : s'.maptbl = s.maptbl) (hrmap : s'.rmap = s.rmap) : FtlInv spp s' := by
  refine ⟨h.lines.of_same hlm hwp hgc hpg hblk, ?_, ?_⟩
  · unfold Mapped
    rw [hpg, hmaptbl, hrmap]
    exact h.map.mapped
  · rw [hmaptbl]
    exact h.map.bound

theorem FtlInv.consume {spp : SsdParams} (h : FtlInv spp s) :
    FtlInv spp (consumeWriteCredit s) :=
  h.of_same rfl rfl rfl rfl rfl rfl rfl

/-- The LPNs of `s'` are those of `s` and `lpn`. -/
def AddsLpn (lpn : Nat) (s s' : ConvFtl) : Prop :=
  ∀ k, s'.maptbl k = none ↔ s.maptbl k = none ∧ k ≠ lpn

theorem foregroundGc_spec (cpp : ConvParams) (hpls : g.plsPerLun = 1) (h : FtlInv g.toSsdParams s) :
    Outcome (foregroundGc g.toSsdParams cpp s)
      (fun s' => FtlInv g.toSsdParams s' ∧
        (∀ k, s'.maptbl k = none ↔ s.maptbl k = none) ∧
        (shouldGcHigh cpp s = false ∧ s' = s ∨
          shouldGcHigh cpp s = true ∧ Collected g.toSsdParams true s s'))
      (fun e => e = .noFreeLine ∧ freePages g.toSsdParams s < 2 * g.pgsPerLine) := by
  unfold foregroundGc
  cases hgc : shouldGcHigh cpp s with
  | false => exact ⟨h, fun _ => Iff.rfl, Or.inl ⟨rfl, rfl⟩⟩
  | true =>
      refine Outcome.bind (doGc_spec cpp hpls h.lines h.map) ?_
      rintro ⟨r, s'⟩ ⟨hlines, hmap, hdom, hcollected⟩
      exact ⟨⟨hlines, hmap⟩, hdom, Or.inr ⟨rfl, hcollected⟩⟩

theorem checkAndRefillWriteCredit_spec (cpp : ConvParams) (hpls : g.plsPerLun = 1)
    (h : FtlInv g.toSsdParams s) :
    Outcome (checkAndRefillWriteCredit g.toSsdParams cpp s)
      (fun s' => FtlInv g.toSsdParams s' ∧
        ∀ k, s'.maptbl k = none ↔ s.maptbl k = none)
      (fun e => e = .noFreeLine) := by
  unfold checkAndRefillWriteCredit
  split
  · refine Outcome.bind ((foregroundGc_spec cpp hpls h).imp (fun _ hs => hs) fun _ he => he.1) ?_
    rintro s' ⟨hinv, hdom, -⟩
    exact ⟨hinv.of_same rfl rfl rfl rfl rfl rfl rfl, hdom⟩
  · exact ⟨h, fun _ => Iff.rfl⟩

theorem writeLocalLpn_spec (cpp : ConvParams) (hpls : g.plsPerLun = 1) (h : FtlInv g.toSsdParams s)
    (hlpn : lpn < g.ttPgs) :
    Outcome (writeLocalLpn g.toSsdParams cpp lpn s)
      (fun r => FtlInv g.toSsdParams r.2 ∧ AddsLpn lpn s r.2)
      (fun e => e = .noFreeLine) := by
  have hremap := remapLpn_spec hpls h.lines h.map hlpn
  unfold writeLocalLpn
  refine Outcome.bind (hremap.imp (fun _ hs => hs) fun _ he => he.1) ?_
  rintro ⟨ppa, s₁⟩ hr
  have hinv : FtlInv g.toSsdParams s₁ := ⟨hr.1, hr.2.1⟩
  have hmaptbl : s₁.maptbl = Function.update s.maptbl lpn (some ppa) := hr.2.2.1
  have hdom : AddsLpn lpn s s₁ := by
    intro k
    rw [hmaptbl]
    by_cases hk : k = lpn
    · simp [hk]
    · simp [hk]
  dsimp only
  generalize hs₂ : (if lastPgInWordline g.toSsdParams ppa = true then
    s₁.issue _ else s₁) = s₂
  have hinv₂ : FtlInv g.toSsdParams s₂ ∧ s₂.maptbl = s₁.maptbl := by
    rw [← hs₂]
    split
    · exact ⟨hinv.of_same rfl rfl rfl rfl rfl rfl rfl, rfl⟩
    · exact ⟨hinv, rfl⟩
  have hcheck := checkAndRefillWriteCredit_spec cpp hpls hinv₂.1.consume
  refine Outcome.bind hcheck ?_
  rintro s' ⟨hinv', hsame⟩
  refine ⟨hinv', fun k => (hsame k).trans ?_⟩
  rw [← hdom k, ← hinv₂.2]
  rfl

end Partition

section Written

variable (spp : SsdParams) (cpp : ConvParams) (part : Nat)

def localLpns (nrParts : Nat) (lpns : List Nat) : Finset Nat :=
  ((lpns.filter fun lpn => lpn % nrParts = part).map fun lpn => lpn / nrParts).toFinset

/-- The local LPNs that an event writes: those of a command that is not
rejected. -/
def eventLpns (ns : ConvNs) : ConvEvent → Finset Nat
  | .write cmd =>
      match convWrite spp cpp ns cmd with
      | .ok (false, _) => ∅
      | _ => localLpns part ns.nrParts (cmdLpns spp cmd)
  | .release _ => ∅

def convWritten : ConvNs → List ConvEvent → Finset Nat
  | _, [] => ∅
  | ns, ev :: evs =>
      eventLpns spp cpp part ns ev ∪
        match convStep spp cpp ns ev with
        | .ok ns => convWritten ns evs
        | .error _ => ∅

end Written

section Namespace

variable {g : Geometry} {ns : ConvNs}

theorem mem_localLpns {part nrParts k : Nat} {lpns : List Nat} :
    k ∈ localLpns part nrParts lpns ↔
      ∃ lpn ∈ lpns, lpn % nrParts = part ∧ lpn / nrParts = k := by
  simp [localLpns, and_assoc]

def NsInv (spp : SsdParams) (ns : ConvNs) : Prop := ∀ part, FtlInv spp (ns.ftls part)

/-- From `ns` to `ns'` exactly the LPNs in `lpns part` of partition `part` have
become mapped. -/
def Extends (lpns : Nat → Finset Nat) (ns ns' : ConvNs) : Prop :=
  ns'.nrParts = ns.nrParts ∧ ∀ part k, (ns'.ftls part).maptbl k ≠ none ↔
    (ns.ftls part).maptbl k ≠ none ∨ k ∈ lpns part

theorem Extends.refl (ns : ConvNs) : Extends (fun _ => ∅) ns ns :=
  ⟨rfl, fun part k => by simp⟩

theorem Extends.trans {lpns lpns' : Nat → Finset Nat} {ns₁ ns₂ ns₃ : ConvNs}
    (h : Extends lpns ns₁ ns₂) (h' : Extends lpns' ns₂ ns₃) :
    Extends (fun part => lpns part ∪ lpns' part) ns₁ ns₃ := by
  refine ⟨h'.1.trans h.1, fun part k => ?_⟩
  rw [h'.2 part k, h.2 part k, Finset.mem_union, or_assoc]

theorem writeLpn_spec (cpp : ConvParams) (hpls : g.plsPerLun = 1)
    (h : NsInv g.toSsdParams ns) {lpn : Nat} (hlpn : lpn / ns.nrParts < g.ttPgs) :
    Outcome (writeLpn g.toSsdParams cpp ns lpn)
      (fun ns' => NsInv g.toSsdParams ns' ∧
        Extends (fun part => localLpns part ns.nrParts [lpn]) ns ns')
      (fun e => e = .noFreeLine) := by
  have hwrite := writeLocalLpn_spec cpp hpls (h (lpn % ns.nrParts)) hlpn
  unfold writeLpn
  refine Outcome.bind hwrite ?_
  rintro ⟨flush, s'⟩ ⟨hinv, hadds⟩
  refine ⟨?_, rfl, ?_⟩
  · intro part
    change FtlInv _ (Function.update ns.ftls (lpn % ns.nrParts) s' part)
    by_cases hpart : part = lpn % ns.nrParts
    · rw [hpart, Function.update_self]
      exact hinv
    · rw [Function.update_of_ne hpart]
      exact h part
  · intro part k
    change (Function.update ns.ftls (lpn % ns.nrParts) s' part).maptbl k ≠ none ↔ _
    rw [mem_localLpns]
    by_cases hpart : part = lpn % ns.nrParts
    · subst hpart
      rw [Function.update_self, ne_eq, hadds k]
      simp only [List.mem_singleton, exists_eq_left, true_and]
      tauto
    · rw [Function.update_of_ne hpart]
      simp [Ne.symm hpart]

theorem localLpns_cons (part nrParts lpn : Nat) (lpns : List Nat) :
    localLpns part nrParts (lpn :: lpns) =
      localLpns part nrParts [lpn] ∪ localLpns part nrParts lpns := by
  ext k
  simp [mem_localLpns]

theorem writeLpns_spec (cpp : ConvParams) (ns : ConvNs) (hpls : g.plsPerLun = 1)
    (h : NsInv g.toSsdParams ns) {lpns : List Nat}
    (hlpns : ∀ lpn ∈ lpns, lpn / ns.nrParts < g.ttPgs) :
    Outcome (lpns.foldlM (writeLpn g.toSsdParams cpp) ns)
      (fun ns' => NsInv g.toSsdParams ns' ∧
        Extends (fun part => localLpns part ns.nrParts lpns) ns ns')
      (fun e => e = .noFreeLine) := by
  induction lpns generalizing ns with
  | nil => exact ⟨h, Extends.refl ns⟩
  | cons lpn lpns ih =>
      rw [List.foldlM_cons]
      refine Outcome.bind (writeLpn_spec cpp hpls h (hlpns lpn (by simp))) ?_
      rintro ns₁ ⟨hinv, hext⟩
      have hrest := ih ns₁ hinv (by
        intro k hk
        rw [hext.1]
        exact hlpns k (by simp [hk]))
      refine hrest.imp ?_ fun _ he => he
      rintro ns₂ ⟨hinv₂, hext₂⟩
      have hcons : (fun part => localLpns part ns.nrParts (lpn :: lpns)) = fun part =>
          localLpns part ns.nrParts [lpn] ∪ localLpns part ns.nrParts lpns :=
        funext fun part => localLpns_cons part ns.nrParts lpn lpns
      rw [hcons]
      rw [hext.1] at hext₂
      exact ⟨hinv₂, hext.trans hext₂⟩

theorem lpn_le_endLpn {spp : SsdParams} {cmd : RwCommand} {lpn : Nat}
    (h : lpn ∈ cmdLpns spp cmd) : lpn ≤ endLpn spp cmd := by
  simp only [cmdLpns, List.mem_range'_1] at h
  omega

def RunFault (e : Fault) : Prop := e = .noFreeLine ∨ e = .bugOn .bufferAllocate

theorem convWrite_spec (cpp : ConvParams) (hpls : g.plsPerLun = 1) (h : NsInv g.toSsdParams ns)
    (cmd : RwCommand) :
    Outcome (convWrite g.toSsdParams cpp ns cmd)
      (fun r => NsInv g.toSsdParams r.2 ∧
        Extends (fun part => if r.1 then
          localLpns part ns.nrParts (cmdLpns g.toSsdParams cmd) else ∅) ns r.2)
      RunFault := by
  unfold convWrite
  split
  · exact ⟨h, Extends.refl ns⟩
  · rename_i hrange
    have hlpns : ∀ lpn ∈ cmdLpns g.toSsdParams cmd, lpn / ns.nrParts < g.ttPgs := by
      intro lpn hlpn
      have hle := Nat.div_le_div_right (c := ns.nrParts) (lpn_le_endLpn hlpn)
      omega
    refine Outcome.bind (P := fun _ => True) ?_ ?_
    · unfold bufferAllocate nvmevAssert
      split
      · trivial
      · exact Or.inr rfl
    · rintro ⟨allocated, buf⟩ -
      dsimp only
      split
      · exact ⟨h, Extends.refl ns⟩
      · have hwrites := writeLpns_spec cpp { ns with writeBuffer := buf } hpls h
          hlpns
        refine Outcome.bind (hwrites.imp (fun _ hs => hs) fun _ he => Or.inl he) ?_
        rintro ns' hns'
        exact hns'

theorem convStep_spec (cpp : ConvParams) (hpls : g.plsPerLun = 1) (h : NsInv g.toSsdParams ns)
    (ev : ConvEvent) :
    Outcome (convStep g.toSsdParams cpp ns ev)
      (fun ns' => NsInv g.toSsdParams ns' ∧
        Extends (fun part => eventLpns g.toSsdParams cpp part ns ev) ns ns')
      RunFault := by
  cases ev with
  | write cmd =>
      have hwrite := convWrite_spec cpp hpls h cmd
      simp only [convStep, eventLpns]
      cases hres : convWrite g.toSsdParams cpp ns cmd with
      | error e =>
          rw [hres] at hwrite
          exact hwrite
      | ok r =>
          obtain ⟨done, ns'⟩ := r
          rw [hres] at hwrite
          cases done
          · exact hwrite
          · exact hwrite
  | release i =>
      simp only [convStep]
      split
      · exact ⟨h, Extends.refl ns⟩
      · exact ⟨h, Extends.refl ns⟩

theorem convRun_spec (cpp : ConvParams) (hpls : g.plsPerLun = 1) (h : NsInv g.toSsdParams ns)
    (events : List ConvEvent) :
    Outcome (convRun g.toSsdParams cpp ns events)
      (fun ns' => NsInv g.toSsdParams ns' ∧
        Extends (fun part => convWritten g.toSsdParams cpp part ns events) ns ns')
      RunFault := by
  unfold convRun
  induction events generalizing ns with
  | nil => exact ⟨h, Extends.refl ns⟩
  | cons ev evs ih =>
      have hstep := convStep_spec cpp hpls h ev
      rw [List.foldlM_cons]
      simp only [convWritten]
      cases hres : convStep g.toSsdParams cpp ns ev with
      | error e =>
          rw [hres] at hstep
          exact hstep
      | ok ns₁ =>
          rw [hres] at hstep
          obtain ⟨hinv, hext⟩ := hstep
          refine (ih hinv).imp ?_ fun _ he => he
          rintro ns₂ ⟨hinv₂, hext₂⟩
          exact ⟨hinv₂, hext.trans hext₂⟩

end Namespace

section Init

variable {g : Geometry} {nrParts : Nat} {ns₀ : ConvNs}

theorem convInitNamespace_ok (h : convInitNamespace g.toSsdParams nrParts = .ok ns₀) :
    g.plsPerLun = 1 ∧ 2 ≤ g.blksPerPl ∧ ns₀.nrParts = nrParts ∧
      ∀ part, ns₀.ftls part = initialFtl g.toSsdParams := by
  unfold convInitNamespace at h
  cases hftl : convInitFtl g.toSsdParams with
  | error e =>
      rw [hftl] at h
      cases h
  | ok s =>
      rw [hftl] at h
      obtain ⟨hlines, htwo, rfl⟩ := convInitFtl_ok hftl
      obtain rfl := Except.ok.inj h
      refine ⟨?_, htwo, rfl, fun _ => rfl⟩
      have hmul : g.blksPerPl * 1 = g.blksPerPl * g.plsPerLun := by
        rw [Nat.mul_one]
        exact hlines
      exact (Nat.eq_of_mul_eq_mul_left (by omega) hmul).symm

theorem initial_nsInv (h : convInitNamespace g.toSsdParams nrParts = .ok ns₀) :
    NsInv g.toSsdParams ns₀ := by
  obtain ⟨-, htwo, -, hftls⟩ := convInitNamespace_ok h
  intro part
  rw [hftls part]
  refine ⟨(initialFtl_inv htwo g.pgsPerLine_pos).1, ⟨?_, ?_⟩, ?_⟩
  · intro lpn p hp
    exact absurd hp (by simp [initialFtl])
  · intro p _ hlive
    exact absurd hlive (by simp [initialFtl])
  · intro lpn p hp
    exact absurd hp (by simp [initialFtl])

end Init

section Roles

inductive LineRole where
  | free
  | full
  | victim
  | host
  | gc
deriving DecidableEq, Repr

/-- The lines in each role, read off the lists, the victim queue and the write
pointers. -/
def linesIn (s : ConvFtl) : LineRole → Finset Nat
  | .free => s.lm.freeLineList.toFinset
  | .full => s.lm.fullLineList.toFinset
  | .victim =>
      (Finset.Ico 1 s.lm.victimLinePq.size).image s.lm.victimLinePq.d
  | .host => {s.wp.curline}
  | .gc => {s.gcWp.curline}

variable {spp : SsdParams} {s : ConvFtl}

theorem mem_victim_iff {victim : Option Nat} {taken : Option IoType}
    (h : LineInv spp victim taken s) (l : Nat) :
    l ∈ linesIn s .victim ↔ (s.lm.lines l).pos ≠ 0 := by
  simp only [linesIn, Finset.mem_image, Finset.mem_Ico]
  constructor
  · rintro ⟨i, ⟨hi, his⟩, rfl⟩
    have hslot : (s.lm.lines (s.lm.victimLinePq.d i)).pos = i := h.indexed.slot i hi his
    omega
  · intro hpos
    obtain ⟨hlt, hd⟩ := h.indexed.queued l hpos
    exact ⟨_, ⟨Nat.pos_of_ne_zero hpos, hlt⟩, hd⟩

/-- How often line `l` occurs in a role. -/
def occurs (s : ConvFtl) (l : Nat) : LineRole → Nat
  | .free => s.lm.freeLineList.count l
  | .full => s.lm.fullLineList.count l
  | .victim => min (s.lm.lines l).pos 1
  | .host => isLine s.wp.curline l
  | .gc => isLine s.gcWp.curline l

theorem mem_linesIn_iff (h : LineInv spp none none s) (l : Nat) (r : LineRole) :
    l ∈ linesIn s r ↔ 0 < occurs s l r := by
  cases r with
  | free => simp [linesIn, occurs, List.count_pos_iff]
  | full => simp [linesIn, occurs, List.count_pos_iff]
  | victim =>
      rw [mem_victim_iff h]
      simp only [occurs]
      omega
  | host =>
      simp only [linesIn, occurs, Finset.mem_singleton, isLine]
      split <;> simp_all [eq_comm]
  | gc =>
      simp only [linesIn, occurs, Finset.mem_singleton, isLine]
      split <;> simp_all [eq_comm]

theorem exists_unique_role (h : LineInv spp none none s) {l : Nat}
    (hl : l < spp.blksPerPl) : ∃! r, l ∈ linesIn s r := by
  have hroles := h.roles l
  rw [if_pos hl] at hroles
  have hsum : occurs s l .free + occurs s l .full + occurs s l .victim +
      occurs s l .host + occurs s l .gc = 1 := by
    simpa [roleCount, occurs] using hroles
  simp only [mem_linesIn_iff h]
  have hex : ∃ r, 0 < occurs s l r := by
    by_contra hnone
    have hzero : ∀ r, occurs s l r = 0 := fun r =>
      Nat.eq_zero_of_not_pos fun hr => hnone ⟨r, hr⟩
    simp [hzero] at hsum
  obtain ⟨r, hr⟩ := hex
  refine ⟨r, hr, ?_⟩
  intro r' hr'
  cases r <;> cases r' <;> first | rfl | omega

theorem nodup_of_roles (h : LineInv spp none none s) :
    s.lm.freeLineList.Nodup ∧ s.lm.fullLineList.Nodup := by
  constructor <;>
  · rw [List.nodup_iff_count_le_one]
    intro l
    have hle := h.roleCount_le l
    unfold roleCount at hle
    omega

theorem card_victims (h : LineInv spp none none s) :
    s.lm.victimLineCnt = (linesIn s .victim).card := by
  have hcnt := h.victimCnt
  have hinj : Set.InjOn s.lm.victimLinePq.d
      (Finset.Ico 1 s.lm.victimLinePq.size : Finset Nat) := by
    intro i hi j hj heq
    rw [Finset.mem_coe, Finset.mem_Ico] at hi hj
    have hsi := h.indexed.slot i hi.1 hi.2
    have hsj := h.indexed.slot j hj.1 hj.2
    rw [heq] at hsi
    exact hsi.symm.trans hsj
  simp only [linesIn]
  rw [Finset.card_image_of_injOn hinj, Nat.card_Ico]
  omega

structure Accounted (spp : SsdParams) (s : ConvFtl) : Prop where
  role : ∀ l < spp.ttLines, ∃! r, l ∈ linesIn s r
  freeLineCnt : s.lm.freeLineCnt = (linesIn s .free).card
  fullLineCnt : s.lm.fullLineCnt = (linesIn s .full).card
  victimLineCnt : s.lm.victimLineCnt = (linesIn s .victim).card
  blkVpc : ∀ a, (s.ssd.blk a).vpc = countOf (blkPages spp a) s.ssd.pg .valid
  blkIpc : ∀ a, (s.ssd.blk a).ipc = countOf (blkPages spp a) s.ssd.pg .invalid
  lineVpc : ∀ l, (s.lm.lines l).vpc = countOf (linePages spp l) s.ssd.pg .valid
  lineIpc : ∀ l, (s.lm.lines l).ipc = countOf (linePages spp l) s.ssd.pg .invalid
  freeLines : ∀ l ∈ linesIn s .free, ∀ p ∈ linePages spp l, s.ssd.pg p = .free
  fullLines : ∀ l ∈ linesIn s .full, ∀ p ∈ linePages spp l, s.ssd.pg p = .valid
  victimLines : ∀ l ∈ linesIn s .victim,
    (∀ p ∈ linePages spp l, s.ssd.pg p ≠ .free) ∧ 1 ≤ (s.lm.lines l).ipc

theorem LineInv.accounted (h : LineInv spp none none s) (hlines : spp.ttLines = spp.blksPerPl) :
    Accounted spp s := by
  obtain ⟨hfree, hfull⟩ := nodup_of_roles h
  refine ⟨?_, ?_, ?_, card_victims h, h.blkVpc, h.blkIpc,
    fun l => h.lineVpc l (by simp), fun l => h.lineIpc l (by simp), ?_, ?_, ?_⟩
  · intro l hl
    exact exists_unique_role h (hlines ▸ hl)
  · rw [h.freeCnt]
    exact (List.toFinset_card_of_nodup hfree).symm
  · rw [h.fullCnt]
    exact (List.toFinset_card_of_nodup hfull).symm
  · intro l hl
    exact h.freeLines l (List.mem_toFinset.mp hl)
  · intro l hl
    exact h.fullLines l (List.mem_toFinset.mp hl)
  · intro l hl
    obtain ⟨hused, p, hp, hinv⟩ := h.victimLines l ((mem_victim_iff h l).mp hl)
    refine ⟨hused, ?_⟩
    rw [h.lineIpc l (by simp)]
    exact countOf_pos hp hinv

end Roles

def fiveLines : Geometry :=
  { secsz := 512
    secsPerPg := 8
    pgsz := 4096
    pgsPerFlashpg := 1
    flashpgsPerBlk := 2
    pgsPerOneshotpg := 1
    oneshotpgsPerBlk := 2
    pgsPerBlk := 2
    blksPerPl := 5
    plsPerLun := 1
    lunsPerCh := 1
    nchs := 1
    writeUnitSize := 512
    writeBufferSize := 65536
    pgsPerLine_pos := by decide
    blk_oneshot := by decide
    blk_flash := by decide
    nchs_le := by decide
    lunsPerCh_le := by decide
    blksPerPl_le := by decide
    pgsPerBlk_le := by decide
    pgsPerPl_lt := by decide
    pgsPerLine_lt := by decide }

/-- LPN 0 is overwritten until garbage collection has run twice. -/
def overwrites : List ConvEvent := List.replicate 4 (.write { slba := 0, length := 7 })

section Results

variable (g : Geometry) (cpp : ConvParams) (nrParts : Nat) (events : List ConvEvent)
  {ns₀ : ConvNs}

/-- A device with 257 channels, each a block of one page in every line: one channel
more than the bit-field `ch` of `struct ppa` can tell apart. -/
def manyChannels : SsdParams :=
  ssdInitParams
    { lbaSize := 512
      nandChannels := 257
      plnsPerLun := 1
      lunsPerNandCh := 1
      blksPerPln := 4
      blkSize := 0
      flashPageSize := 4096
      oneshotPageSize := 4096
      writeUnitSize := 512
      globalWbSize := 257 * 1 * 4096 * 2 } (4 * 257 * 4096) 1

end Results

end NvmeVirt.ConvRuns
