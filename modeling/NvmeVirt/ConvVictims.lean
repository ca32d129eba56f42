import NvmeVirt.ConvBuffer
import NvmeVirt.ConvProgress
import NvmeVirt.HeapOrder

namespace NvmeVirt.ConvVictims

open NvmeVirt.ConvBuffer
open NvmeVirt.ConvCollection
open NvmeVirt.ConvLineAccounting
open NvmeVirt.ConvLineReclaim
open NvmeVirt.ConvMapping
open NvmeVirt.ConvProgress
open NvmeVirt.ConvRuns
open NvmeVirt.ConventionalFtl
open NvmeVirt.FaultOutcome
open NvmeVirt.FlashGeometry
open NvmeVirt.HeapOrder
open NvmeVirt.PriorityQueue
open NvmeVirt.WriteBuffer

theorem victimCallbacks_comparable : Comparable victimCallbacks where
  asymm := by
    intro m n h
    simp only [victimCallbacks, decide_eq_true_eq, decide_eq_false_iff_not] at h ⊢
    omega
  trans := by
    intro l m n hlm hmn
    simp only [victimCallbacks, decide_eq_false_iff_not] at hlm hmn ⊢
    omega
  getpri_setpos := fun _ _ => rfl
  getpri_setpri := fun _ _ => rfl

def VictimOrder (lm : LineMgmt) : Prop := Ordered victimCallbacks lm.victimLinePq

section Lines

variable {lm : LineMgmt} {l : Nat} {line : Line}

theorem VictimOrder.setLine (hord : VictimOrder lm) (hidx : Indexed victimCallbacks lm.victimLinePq)
    (h : (lm.lines l).pos = 0 ∨ line.vpc = (lm.lines l).vpc) : VictimOrder (lm.setLine l line) := by
  refine Ordered.of_key hord rfl fun j hj hjs => ?_
  change (Function.update lm.victimLinePq.node l line (lm.victimLinePq.d j)).vpc = _
  rcases eq_or_ne (lm.victimLinePq.d j) l with hd | hne
  · have hslot : (lm.lines (lm.victimLinePq.d j)).pos = j := hidx.slot j hj hjs
    rw [hd] at hslot
    have hvpc : line.vpc = (lm.lines l).vpc := h.resolve_left (by omega)
    rw [hd, Function.update_self, hvpc, ← hd]
    rfl
  · rw [Function.update_of_ne hne]
    rfl

end Lines

section Steps

variable {spp : SsdParams} {s : ConvFtl}

theorem markPageInvalid_ordered (hidx : Indexed victimCallbacks s.lm.victimLinePq)
    (hord : VictimOrder s.lm) (ppa : Ppa) :
    Outcome (markPageInvalid spp ppa s) (fun s' => VictimOrder s'.lm) fun _ => True := by
  refine assert_bind fun _ => assert_bind fun _ => assert_bind fun _ => assert_bind fun _ =>
    assert_bind fun _ => assert_bind fun _ => Outcome.pure ?_
  obtain ⟨line, hline⟩ : ∃ line, line = s.lm.lines ppa.blk := ⟨_, rfl⟩
  simp only [← hline]
  have hcount : VictimOrder (s.lm.setLine ppa.blk { line with ipc := line.ipc + 1 }) :=
    hord.setLine hidx (Or.inr (by rw [hline]))
  have hcountIdx : Indexed victimCallbacks
      (s.lm.setLine ppa.blk { line with ipc := line.ipc + 1 }).victimLinePq :=
    indexed_setLine hidx (by rw [hline])
  generalize hlm : (if line.pos ≠ 0 then
    { s.lm.setLine ppa.blk { line with ipc := line.ipc + 1 } with
    victimLinePq := pqueueChangePriority victimCallbacks
      (s.lm.setLine ppa.blk { line with ipc := line.ipc + 1 }).victimLinePq (line.vpc - 1) ppa.blk }
    else (s.lm.setLine ppa.blk { line with ipc := line.ipc + 1 }).setLine ppa.blk
      { line with ipc := line.ipc + 1, vpc := line.vpc - 1 }) = lm
  have hnext : VictimOrder lm ∧ 1 ≤ lm.victimLinePq.size := by
    rw [← hlm]
    split
    · rename_i hqueued
      have hnode : victimCallbacks.getpos ((s.lm.setLine ppa.blk
          { line with ipc := line.ipc + 1 }).victimLinePq.node ppa.blk) ≠ 0 := by
        simpa [LineMgmt.setLine, victimCallbacks] using hqueued
      obtain ⟨-, hsize, -⟩ := pqueueChangePriority_spec victimCallbacks_lawful
        (line.vpc - 1) hcountIdx hnode
      exact ⟨pqueueChangePriority_ordered victimCallbacks_comparable victimCallbacks_lawful
        hcountIdx hcount _ hnode, hsize ▸ hcountIdx.size_pos⟩
    · rename_i hqueued
      refine ⟨hcount.setLine hcountIdx (Or.inl ?_), hidx.size_pos⟩
      rw [lines_setLine, if_pos rfl]
      exact not_not.mp hqueued
  split
  · exact pqueueInsert_ordered victimCallbacks_comparable hnext.2 hnext.1 ppa.blk
  · exact hnext.1

theorem openNext_ordered (io : IoType) (wpp : WritePointer) {lm : LineMgmt}
    (hord : VictimOrder lm) :
    Outcome (do
        let (curline, lm) ← getNextFreeLine lm
        let wpp := { wpp with curline := curline, blk := (lm.lines curline).id }
        nvmevAssert (wpp.blk < spp.blksPerPl) .advanceWritePointer
        nvmevAssert (wpp.pg = 0 ∧ wpp.lun = 0 ∧ wpp.ch = 0 ∧ wpp.pl = 0)
          .advanceWritePointer
        return { s with lm := lm }.setWp io wpp : Except Fault ConvFtl)
      (fun s' => VictimOrder s'.lm) fun _ => True := by
  refine Outcome.bind (P := fun r => VictimOrder r.2) ?_ ?_
  · rw [getNextFreeLine]
    split
    · trivial
    · exact hord
  · rintro ⟨curline, lm'⟩ hlm'
    refine assert_bind fun _ => assert_bind fun _ => ?_
    cases io <;> exact hlm'

theorem closeLine_ordered (io : IoType) (wpp : WritePointer) (hord : VictimOrder s.lm)
    (hpos : 1 ≤ s.lm.victimLinePq.size) :
    Outcome (closeLine spp io wpp s) (fun s' => VictimOrder s'.lm) fun _ => True := by
  rw [closeLine]
  split
  · refine assert_bind fun _ => assert_bind fun _ => ?_
    exact openNext_ordered io wpp hord
  · refine assert_bind fun _ => assert_bind fun _ => assert_bind fun _ => ?_
    exact openNext_ordered io wpp
      (pqueueInsert_ordered victimCallbacks_comparable hpos hord wpp.curline)

theorem advanceWritePointer_ordered (io : IoType) (hord : VictimOrder s.lm)
    (hpos : 1 ≤ s.lm.victimLinePq.size) :
    Outcome (advanceWritePointer spp io s) (fun s' => VictimOrder s'.lm) fun _ => True := by
  have hwp : ∀ wp, VictimOrder (s.setWp io wp).lm := by
    intro wp
    cases io <;> exact hord
  refine assert_bind fun _ => ?_
  dsimp only
  split
  · exact hwp _
  · refine assert_bind fun _ => ?_
    split
    · exact hwp _
    · refine assert_bind fun _ => ?_
      split
      · exact hwp _
      · split
        · exact hwp _
        · exact closeLine_ordered io _ hord hpos

end Steps

section Pages

variable {g : Geometry} {victim : Option Nat} {v : Nat} {s s₀ : ConvFtl}

theorem placeLpn_ordered (io : IoType) {lpn : Nat} (hpls : g.plsPerLun = 1)
    (h : LineInv g.toSsdParams victim none s) (hlpn : lpn < g.ttPgs)
    (hord : VictimOrder s.lm) :
    Outcome (placeLpn g.toSsdParams io lpn s) (fun r => VictimOrder r.2.lm) fun _ => True := by
  have hvalid := valid_wpPage hpls h io
  let s₁ : ConvFtl := { s with
    maptbl := Function.update s.maptbl lpn (some (wpPage (s.getWp io)))
    rmap := Function.update s.rmap (ppa2pgidx g.toSsdParams (wpPage (s.getWp io)))
      (some lpn) }
  have h₁ : LineInv g.toSsdParams victim none s₁ := h.of_same rfl rfl rfl rfl rfl
  have hwp : s₁.getWp io = s.getWp io := by cases io <;> rfl
  have hmark : markPageValid g.toSsdParams (wpPage (s.getWp io)) s₁ =
      .ok (programmed io s₁) := hwp ▸ markPageValid_eq h₁ io
  have hblk : (wpPage (s₁.getWp io)).blk = (s₁.getWp io).curline := (h₁.frontier io).blk_eq
  have hopen : (s₁.lm.lines (wpPage (s₁.getWp io)).blk).pos = 0 := by
    rw [hblk]
    exact (h₁.openLine io).2.2.2.1
  have hprog : VictimOrder (programmed io s₁).lm :=
    @VictimOrder.setLine s₁.lm _ _ hord h₁.indexed (Or.inl hopen)
  simp only [placeLpn, getNewPage_eq h io, ok_bind, setMaptblEnt_eq hlpn, setRmapEnt_eq hvalid]
  change Outcome (markPageValid g.toSsdParams (wpPage (s.getWp io)) s₁ >>= _) _ _
  rw [hmark, ok_bind]
  refine Outcome.bind
    (advanceWritePointer_ordered io hprog (programmed_inv h₁ io).indexed.size_pos) ?_
  intro s' hs'
  exact Outcome.pure hs'

theorem retireOld_ordered {lpn : Nat} (h : FtlInv g.toSsdParams s)
    (hord : VictimOrder s.lm) :
    Outcome (retireOld g.toSsdParams lpn s) (fun s' => VictimOrder s'.lm) fun _ => True := by
  unfold retireOld
  cases hlpn : s.maptbl lpn with
  | none => exact hord
  | some ppa =>
      have hvalid := (h.map.mapped.place lpn ppa hlpn).1
      refine Outcome.bind (markPageInvalid_ordered h.lines.indexed hord ppa) ?_
      intro s' hs'
      rw [setRmapEnt_eq hvalid]
      exact hs'

theorem remapLpn_ordered {lpn : Nat} (hpls : g.plsPerLun = 1) (h : FtlInv g.toSsdParams s)
    (hlpn : lpn < g.ttPgs) (hord : VictimOrder s.lm) :
    Outcome (remapLpn g.toSsdParams lpn s) (fun r => VictimOrder r.2.lm) fun _ => True := by
  obtain ⟨s₁, hretire, hinv, -⟩ := retireOld_spec lpn hpls h.lines h.map.mapped
  rw [remapLpn_eq, hretire, ok_bind]
  exact placeLpn_ordered .userIo hpls hinv hlpn
    ((retireOld_ordered h hord).value hretire)

theorem gcOrdered_sweepable (cpp : ConvParams) (s₀ : ConvFtl) (hpls : g.plsPerLun = 1)
    (hv : v < g.blksPerPl) :
    Sweepable g.toSsdParams cpp v s₀
      (fun visited erased s => GcInv g.toSsdParams v s₀ visited erased s ∧ VictimOrder s.lm)
      (Exhausted g.toSsdParams v s₀) where
  status := fun h => (gcInv_sweepable cpp s₀ hpls hv).status h.1
  congr := fun h hvis her => ⟨h.1.congr hvis her, h.2⟩
  issue := fun h ncmd => ⟨h.1.issue ncmd, h.2⟩
  copy := by
    intro visited erased s p h hp hst hnew hkept
    obtain ⟨lpn, hvalid, hrmap, -, hlpn⟩ := h.1.owner hpls hv hp hst hnew
    have hcopy : Outcome (gcWritePage g.toSsdParams cpp p s) (fun s => VictimOrder s.lm)
        fun _ => True :=
      gcWritePage_rule hvalid hrmap hlpn
        (placeLpn_ordered .gcIo hpls h.1.lines hlpn h.2) fun _ _ hs => hs
    exact (gcWritePage_step cpp hpls h.1 hv hp hst hnew hkept).and_right hcopy
  erase := fun h hp hall => ⟨h.1.eraseBlock hp hall, h.2⟩

theorem doGc_ordered (cpp : ConvParams) (force : Bool) (hpls : g.plsPerLun = 1)
    (h : FtlInv g.toSsdParams s) (hord : VictimOrder s.lm) :
    Outcome (doGc g.toSsdParams cpp force s) (fun r => VictimOrder r.2.lm) fun _ => True := by
  cases hsel : selectVictimLine g.toSsdParams force s with
  | none =>
      unfold doGc
      rw [hsel]
      exact hord
  | some r =>
      obtain ⟨v, s₁⟩ := r
      obtain ⟨hline, htaken, ⟨lm, hs₁⟩, -⟩ := selectVictimLine_spec h.lines hsel
      have hpopped : VictimOrder s₁.lm := by
        unfold selectVictimLine at hsel
        cases hpeek : pqueuePeek s.lm.victimLinePq with
        | none => simp [hpeek] at hsel
        | some w =>
            simp only [hpeek] at hsel
            split at hsel
            · cases hsel
            · cases hsel
              exact (pqueuePop_ordered victimCallbacks_comparable hord).clearPos
                victimCallbacks_comparable v
      have hmap : MapInv g.toSsdParams (fun _ => False) s₁ := by
        rw [hs₁]
        exact ⟨h.map.mapped, h.map.bound⟩
      refine (doGc_rule hsel (hline.ids v) htaken.lt htaken.used
        (gcOrdered_sweepable cpp _ hpls htaken.lt) ⟨sweep_start hline hmap, hpopped⟩ ?_).imp
        (fun _ hr => hr) fun _ _ => trivial
      rintro s₂ ⟨hgc, hord₂⟩
      have hpos : (s₂.lm.lines v).pos = 0 := by
        have hle := hgc.lines.roleCount_le v
        unfold roleCount at hle
        rw [if_pos rfl] at hle
        omega
      exact hord₂.setLine hgc.lines.indexed (Or.inl hpos)

theorem victimOrder_kept (cpp : ConvParams) (hpls : g.plsPerLun = 1) :
    KeptByPages g.toSsdParams cpp fun s => VictimOrder s.lm := by
  intro s lpn h hord hlpn
  unfold writeLocalLpn
  have hremap := (remapLpn_spec hpls h.lines h.map hlpn).and_right
    (remapLpn_ordered hpls h hlpn hord)
  refine Outcome.bind (hremap.imp (fun _ hr => hr) fun _ _ => trivial) ?_
  rintro ⟨ppa, s₁⟩ ⟨⟨hlines, hmap, -⟩, hord₁⟩
  dsimp only
  generalize hs₂ : (if lastPgInWordline g.toSsdParams ppa = true then
    s₁.issue _ else s₁) = s₂
  have h₂ : FtlInv g.toSsdParams s₂ ∧ VictimOrder s₂.lm := by
    rw [← hs₂]
    split
    · exact ⟨FtlInv.of_same ⟨hlines, hmap⟩ rfl rfl rfl rfl rfl rfl rfl, hord₁⟩
    · exact ⟨⟨hlines, hmap⟩, hord₁⟩
  refine Outcome.bind (P := fun s' => VictimOrder s'.lm) ?_ fun _ hs' => Outcome.pure hs'
  unfold checkAndRefillWriteCredit
  split
  · refine Outcome.bind (P := fun s' => VictimOrder s'.lm) ?_ fun _ hs' => Outcome.pure hs'
    unfold foregroundGc
    split
    · exact Outcome.bind (doGc_ordered cpp true hpls h₂.1.consume h₂.2) fun _ hr => hr
    · exact h₂.2
  · exact h₂.2

end Pages

section Selection

/-- The states of a partition in which `select_victim_line` may be called: those
between two pages of a run of write commands, and those right after a page has
been mapped. The states from there to the collection are left out: `consume_write_credit`
and the NAND command change neither the queue nor the lines. -/
def Seen (spp : SsdParams) (cpp : ConvParams) (ns₀ : ConvNs) (part : Nat) (s : ConvFtl) : Prop :=
  ∃ ns, Passed spp cpp ns₀ ns ∧ (s = ns.ftls part ∨
    ∃ lpn ppa, lpn < spp.ttPgs ∧ remapLpn spp lpn (ns.ftls part) = .ok (ppa, s))

variable {g : Geometry} {s : ConvFtl}

theorem Seen.inv {cpp : ConvParams} {nrParts part : Nat} {ns₀ : ConvNs}
    (hinit : convInitNamespace g.toSsdParams nrParts = .ok ns₀)
    (h : Seen g.toSsdParams cpp ns₀ part s) :
    FtlInv g.toSsdParams s ∧ VictimOrder s.lm := by
  have hpls := (convInitNamespace_ok hinit).1
  have hfresh : VictimOrder (initialFtl g.toSsdParams).lm := by
    intro j hj hjs
    simp only [initialFtl] at hjs
    omega
  obtain ⟨ns, hpassed, hs⟩ := h
  obtain ⟨hinv, hord⟩ := hpassed.holds hinit hfresh (victimOrder_kept cpp hpls)
  rcases hs with rfl | ⟨lpn, ppa, hlpn, hremap⟩
  · exact ⟨hinv part, hord part⟩
  · obtain ⟨hlines, hmap, -⟩ :=
      (remapLpn_spec hpls (hinv part).lines (hinv part).map hlpn).value hremap
    exact ⟨⟨hlines, hmap⟩, (remapLpn_ordered hpls (hinv part) hlpn (hord part)).value hremap⟩

theorem selectVictimLine_some {spp : SsdParams} {v : Nat} {s' : ConvFtl} {force : Bool}
    (h : selectVictimLine spp force s = some (v, s')) :
    pqueuePeek s.lm.victimLinePq = some v ∧ (s'.lm.lines v).pos = 0 ∧
      s'.lm.victimLinePq =
        clearPos victimCallbacks (pqueuePop victimCallbacks s.lm.victimLinePq) v ∧
      s'.lm.freeLineList = s.lm.freeLineList := by
  unfold selectVictimLine at h
  cases hpeek : pqueuePeek s.lm.victimLinePq with
  | none => simp [hpeek] at h
  | some w =>
      simp only [hpeek] at h
      split at h
      · cases h
      · cases h
        refine ⟨rfl, ?_, rfl, rfl⟩
        have hself := getpos_clearPos victimCallbacks_lawful
          (pqueuePop victimCallbacks s.lm.victimLinePq) v v
        rwa [if_pos rfl] at hself

/-- In every state in which it may be called, `select_victim_line` with force finds
no line exactly when there is no victim, and otherwise takes a victim of least
`vpc` out of the queue. -/
theorem gc_picks_cheapest_victim (g : Geometry) (cpp : ConvParams) (nrParts part : Nat)
    {ns₀ : ConvNs} (hinit : convInitNamespace g.toSsdParams nrParts = .ok ns₀)
    (hseen : Seen g.toSsdParams cpp ns₀ part s) :
    (∀ l, (s.lm.lines l).pos ≠ 0 ↔
      ∃ i, 1 ≤ i ∧ i < s.lm.victimLinePq.size ∧ s.lm.victimLinePq.d i = l) ∧
    (∀ i, 1 ≤ i → i < s.lm.victimLinePq.size →
      (s.lm.lines (s.lm.victimLinePq.d i)).pos = i) ∧
    (∀ i, 2 ≤ i → i < s.lm.victimLinePq.size →
      (s.lm.lines (s.lm.victimLinePq.d (i / 2))).vpc ≤
        (s.lm.lines (s.lm.victimLinePq.d i)).vpc) ∧
    (selectVictimLine g.toSsdParams true s = none ↔ linesIn s .victim = ∅) ∧
    (∀ v s', selectVictimLine g.toSsdParams true s = some (v, s') →
      v ∈ linesIn s .victim ∧
      (∀ l ∈ linesIn s .victim, (s.lm.lines v).vpc ≤ (s.lm.lines l).vpc) ∧
      linesIn s' .victim = (linesIn s .victim).erase v ∧ (s'.lm.lines v).pos = 0) := by
  obtain ⟨hinv, hord⟩ := hseen.inv hinit
  have hidx := hinv.lines.indexed
  refine ⟨?_, hidx.slot, ?_, ?_, ?_⟩
  · intro l
    rw [← mem_victim_iff hinv.lines l]
    simp only [linesIn, Finset.mem_image, Finset.mem_Ico, and_assoc]
  · intro i hi his
    have hedge := hord i hi his
    simp only [Settled, victimCallbacks, decide_eq_false_iff_not, not_lt] at hedge
    exact hedge
  · constructor
    · intro hnone
      have hpos := selectVictimLine_eq_none hinv.lines hnone
      apply Finset.eq_empty_of_forall_notMem
      intro l hl
      exact (mem_victim_iff hinv.lines l).mp hl (hpos l)
    · intro hempty
      cases hsel : selectVictimLine g.toSsdParams true s with
      | none => rfl
      | some r =>
          obtain ⟨v, s'⟩ := r
          obtain ⟨hpeek, -⟩ := selectVictimLine_some hsel
          have hv := (pqueuePop_spec victimCallbacks_lawful hidx hpeek).1
          have hmem := (mem_victim_iff hinv.lines v).mpr hv
          rw [hempty] at hmem
          exact absurd hmem (Finset.notMem_empty v)
  · intro v s' hsel
    obtain ⟨hpeek, hzero, hpq, -⟩ := selectVictimLine_some hsel
    obtain ⟨hv, -, -, -, hmember⟩ := pqueuePop_spec victimCallbacks_lawful hidx hpeek
    obtain ⟨hline, -⟩ := selectVictimLine_spec hinv.lines hsel
    refine ⟨(mem_victim_iff hinv.lines v).mpr hv, ?_, ?_, hzero⟩
    · intro l hl
      have hl' := (mem_victim_iff hinv.lines l).mp hl
      have hfirst := pqueuePeek_first victimCallbacks_comparable hidx hord hpeek hl'
      simp only [victimCallbacks, decide_eq_false_iff_not, not_lt] at hfirst
      exact hfirst
    · ext l
      rw [mem_victim_iff hline, Finset.mem_erase, mem_victim_iff hinv.lines]
      unfold LineMgmt.lines
      rw [hpq]
      exact hmember l

theorem gc_picks_cheapest_victim_overwrites :
    ∃ ns₀ s v s', convInitNamespace fiveLines.toSsdParams 1 = .ok ns₀ ∧
      Seen fiveLines.toSsdParams convInitParams ns₀ 0 s ∧
      selectVictimLine fiveLines.toSsdParams true s = some (v, s') ∧
      v ∈ linesIn s .victim ∧ (s'.lm.lines v).pos = 0 := by
  obtain ⟨⟨ppa, s⟩, hrun, htest⟩ := exists_of_returns
    (x := convInitNamespace fiveLines.toSsdParams 1 >>= fun ns₀ =>
      convRun fiveLines.toSsdParams convInitParams ns₀ (overwrites.take 1) >>= fun ns =>
      remapLpn fiveLines.toSsdParams 0 (ns.ftls 0))
    (p := fun r => (selectVictimLine fiveLines.toSsdParams true r.2).isSome) (by decide +kernel)
  obtain ⟨ns₀, hinit, hrun⟩ := exists_of_bind_eq_ok hrun
  obtain ⟨ns, hns, hremap⟩ := exists_of_bind_eq_ok hrun
  obtain ⟨⟨v, s'⟩, hsel⟩ := Option.isSome_iff_exists.mp htest
  have hseen : Seen fiveLines.toSsdParams convInitParams ns₀ 0 s :=
    ⟨ns, ⟨_, ns, hns, Or.inl rfl⟩, Or.inr ⟨0, ppa, by decide, hremap⟩⟩
  obtain ⟨hmem, -, -, hpos⟩ :=
    (gc_picks_cheapest_victim fiveLines convInitParams 1 0 hinit hseen).2.2.2.2 v s' hsel
  exact ⟨ns₀, s, v, s', hinit, hseen, hsel, hmem, hpos⟩

end Selection

end NvmeVirt.ConvVictims
