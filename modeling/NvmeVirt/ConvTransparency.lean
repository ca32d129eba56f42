import Mathlib.Algebra.BigOperators.Ring.Finset
import NvmeVirt.ConvVictims

namespace NvmeVirt.ConvTransparency

open NvmeVirt.ConvCollection
open NvmeVirt.ConvLineAccounting
open NvmeVirt.ConvLineReclaim
open NvmeVirt.ConvMapping
open NvmeVirt.ConvProgress
open NvmeVirt.ConvRuns
open NvmeVirt.ConvVictims
open NvmeVirt.ConventionalFtl
open NvmeVirt.FaultOutcome
open NvmeVirt.FlashGeometry
open NvmeVirt.PriorityQueue
open NvmeVirt.StatusCounts
open NvmeVirt.WriteBuffer

/-- The line of `gc_wp` is the one the sweep started in, or the first line that was
free then; in the second case the copies made so far leave room for all others. -/
def OneLine (spp : SsdParams) (v : Nat) (s₀ : ConvFtl) (visited : Ppa → Prop) (s : ConvFtl) :
    Prop :=
  s.gcWp.curline = s₀.gcWp.curline ∧ s.lm.freeLineList = s₀.lm.freeLineList ∨
    s₀.lm.freeLineList = s.gcWp.curline :: s.lm.freeLineList ∧
      spp.pgsPerLine + 1 ≤ countOf (linePages spp s.gcWp.curline) s.ssd.pg .free +
        (copied spp v s₀ visited).card

/-- What a sweep of `v` has made of the map of the state `s₀` in which it started. -/
structure Relocated (spp : SsdParams) (v : Nat) (s₀ : ConvFtl) (visited : Ppa → Prop)
    (s : ConvFtl) : Prop where
  kept : ∀ lpn p, s₀.maptbl lpn = some p → (p ∈ linePages spp v → ¬ visited p) →
    s.maptbl lpn = some p
  moved : ∀ lpn p, s₀.maptbl lpn = some p → p ∈ linePages spp v → visited p →
    ∃ q, s.maptbl lpn = some q ∧ q ∉ linePages spp v ∧ s₀.ssd.pg q = .free ∧
      (q.blk = s₀.gcWp.curline ∨ q.blk = s.gcWp.curline)
  unused : ∀ p, p ∉ linePages spp v → s.ssd.pg p = .free → s₀.ssd.pg p = .free
  room : OneLine spp v s₀ visited s

section Sweep

variable {g : Geometry} {v : Nat} {s₀ s : ConvFtl} {visited visited' erased : Ppa → Prop}

theorem Relocated.congr {spp : SsdParams} (h : Relocated spp v s₀ visited s)
    (hlive : ∀ lpn p, s₀.maptbl lpn = some p → s₀.ssd.pg p = .valid)
    (hvis : ∀ p ∈ linePages spp v, s₀.ssd.pg p = .valid → (visited' p ↔ visited p)) :
    Relocated spp v s₀ visited' s := by
  refine ⟨?_, ?_, h.unused, ?_⟩
  · intro lpn p hp hnew
    exact h.kept lpn p hp fun hmem hold => hnew hmem ((hvis p hmem (hlive lpn p hp)).mpr hold)
  · intro lpn p hp hmem hnew
    exact h.moved lpn p hp hmem ((hvis p hmem (hlive lpn p hp)).mp hnew)
  · unfold OneLine
    rw [copied_congr hvis]
    exact h.room

theorem Relocated.gcPage_free {spp : SsdParams} (h : Relocated spp v s₀ visited s)
    (hlines : LineInv spp (some v) none s) :
    s₀.ssd.pg (wpPage s.gcWp) = .free :=
  h.unused _ (gcPage_notMem hlines) ((hlines.frontier .gcIo).page_free (by simp))

theorem OneLine.next {spp : SsdParams} {s' : ConvFtl} {p : Ppa} (h : OneLine spp v s₀ visited s)
    (hlines : LineInv spp (some v) none s) (hp : p ∈ linePages spp v)
    (hst : s₀.ssd.pg p = .valid) (hnew : ¬ visited p)
    (hfew : countOf (linePages spp v) s₀.ssd.pg .valid < spp.pgsPerLine)
    (hpg : s'.ssd.pg = Function.update s.ssd.pg (wpPage s.gcWp) .valid)
    (htakes : Takes spp .gcIo s s') : OneLine spp v s₀ (fun q => visited q ∨ q = p) s' := by
  have hfr : Frontier spp s.ssd.pg s.gcWp _ := hlines.frontier .gcIo
  have hinsert := card_copied_insert hp hst hnew
  have hle := card_copied_le spp v s₀ fun q => visited q ∨ q = p
  have hlose := countOf_update_lose (c := PgStatus.valid) hfr.page_mem
    (hfr.page_free (by simp)) (by simp)
  rcases htakes with ⟨hcur, hlist⟩ | ⟨hlast, hlist⟩
  · -- the pointer stays in its line, which has lost one free page
    change s'.gcWp.curline = s.gcWp.curline at hcur
    rcases h with ⟨hsame, hfree⟩ | ⟨hfree, hroom⟩
    · exact Or.inl ⟨hcur.trans hsame, hlist.trans hfree⟩
    · refine Or.inr ⟨by rw [hcur, hlist]; exact hfree, ?_⟩
      rw [hcur, hpg]
      omega
  · -- the pointer enters the first free line, none of whose pages is used
    rcases h with ⟨-, hfree⟩ | ⟨-, hroom⟩
    · have hmem : s'.gcWp.curline ∈ s.lm.freeLineList := by
        rw [hlist]
        exact List.mem_cons_self
      have hne : s.gcWp.curline ≠ s'.gcWp.curline := by
        intro heq
        exact (hlines.openLine .gcIo).2.1 (heq ▸ hmem)
      have hall : countOf (linePages spp s'.gcWp.curline) s'.ssd.pg .free = spp.pgsPerLine := by
        rw [hpg, countOf_update_of_notMem (notMem_linePages hfr.page_mem hne),
          ← card_linePages spp s'.gcWp.curline]
        exact countOf_eq_card.mpr (hlines.freeLines _ hmem)
      exact Or.inr ⟨hfree ▸ hlist, by omega⟩
    · have hone : countOf (linePages spp s.gcWp.curline) s.ssd.pg .free = 1 := hlast
      omega

theorem OneLine.not_starved {spp : SsdParams} {p : Ppa} {e : Fault}
    (h : OneLine spp v s₀ visited s) (hp : p ∈ linePages spp v) (hst : s₀.ssd.pg p = .valid)
    (hnew : ¬ visited p) (hfew : countOf (linePages spp v) s₀.ssd.pg .valid < spp.pgsPerLine)
    (hfree : s₀.lm.freeLineList ≠ []) : ¬ Starved spp .gcIo s e := by
  rintro ⟨-, hnil, hlast⟩
  rcases h with ⟨-, hlist⟩ | ⟨-, hroom⟩
  · exact hfree (hlist ▸ hnil)
  · have hone : countOf (linePages spp s.gcWp.curline) s.ssd.pg .free = 1 := hlast
    have hinsert := card_copied_insert hp hst hnew
    have hle := card_copied_le spp v s₀ fun q => visited q ∨ q = p
    omega

theorem Relocated.next {spp : SsdParams} {s' : ConvFtl} {p : Ppa} {lpn : Nat}
    (h : Relocated spp v s₀ visited s) (hlines : LineInv spp (some v) none s)
    (hmap : s.maptbl lpn = some p) (hp : p ∈ linePages spp v) (hst : s₀.ssd.pg p = .valid)
    (hnew : ¬ visited p) (hfew : countOf (linePages spp v) s₀.ssd.pg .valid < spp.pgsPerLine)
    (hinj : ∀ k, s₀.maptbl k = some p → k = lpn)
    (hplaced : Placed spp .gcIo lpn s s') (htakes : Takes spp .gcIo s s') :
    Relocated spp v s₀ (fun q => visited q ∨ q = p) s' := by
  have hmaptbl : s'.maptbl = Function.update s.maptbl lpn (some (wpPage s.gcWp)) :=
    hplaced.maptbl
  have hpg : s'.ssd.pg = Function.update s.ssd.pg (wpPage s.gcWp) .valid := hplaced.pg
  have hroom := h.room.next hlines hp hst hnew hfew hpg htakes
  have hgc : wpPage s.gcWp ∉ linePages spp v := gcPage_notMem hlines
  have hblk : (wpPage s.gcWp).blk = s.gcWp.curline := (hlines.frontier .gcIo).blk_eq
  have hline : ∀ l, l = s₀.gcWp.curline ∨ l = s.gcWp.curline →
      l = s₀.gcWp.curline ∨ l = s'.gcWp.curline := by
    rintro l (hl | hl)
    · exact Or.inl hl
    · rcases htakes with ⟨hcur, -⟩ | ⟨hlast, -⟩
      · exact Or.inr (hl.trans hcur.symm)
      · rcases h.room with ⟨hsame, -⟩ | ⟨-, hroom'⟩
        · exact Or.inl (hl.trans hsame)
        · have hone : countOf (linePages spp s.gcWp.curline) s.ssd.pg .free = 1 := hlast
          have hinsert := card_copied_insert hp hst hnew
          have hle := card_copied_le spp v s₀ fun q => visited q ∨ q = p
          omega
  refine ⟨?_, ?_, ?_, hroom⟩
  · intro k q hk hq
    have hne : k ≠ lpn := by
      rintro rfl
      have hkept := h.kept k q hk fun hmem hold => hq hmem (Or.inl hold)
      rw [hmap] at hkept
      obtain rfl := Option.some.inj hkept
      exact hq hp (Or.inr rfl)
    rw [hmaptbl, Function.update_of_ne hne]
    exact h.kept k q hk fun hmem hold => hq hmem (Or.inl hold)
  · intro k q hk hmem hq
    rcases hq with hold | rfl
    · obtain ⟨r, hr, hrv, hrfree, hrline⟩ := h.moved k q hk hmem hold
      have hne : k ≠ lpn := by
        rintro rfl
        rw [hmap] at hr
        obtain rfl := Option.some.inj hr
        exact hrv hp
      refine ⟨r, ?_, hrv, hrfree, hline _ hrline⟩
      rw [hmaptbl, Function.update_of_ne hne]
      exact hr
    · refine ⟨wpPage s.gcWp, ?_, hgc, h.gcPage_free hlines, hline _ (Or.inr hblk)⟩
      rw [hinj k hk, hmaptbl, Function.update_self]
  · intro q hq hfree
    apply h.unused q hq
    rw [hpg] at hfree
    rcases eq_or_ne q (wpPage s.gcWp) with rfl | hne
    · rw [Function.update_self] at hfree
      exact absurd hfree (by simp)
    · rwa [Function.update_of_ne hne] at hfree

theorem Relocated.eraseBlock {spp : SsdParams} {ppa : Ppa} (h : Relocated spp v s₀ visited s)
    (hlines : LineInv spp (some v) none s) (hppa : ppa ∈ linePages spp v) :
    Relocated spp v s₀ visited (markBlockFree spp ppa s) := by
  obtain ⟨-, -, -, hblk, -⟩ := mem_linePages.mp hppa
  refine ⟨h.kept, h.moved, ?_, ?_⟩
  · intro p hp hfree
    rw [pg_markBlockFree] at hfree
    split at hfree
    · rename_i hin
      exact absurd (mem_linePages_of_mem_blkPages hppa (mem_blkPages.mpr hin)) hp
    · exact h.unused p hp hfree
  · have hopen : s.gcWp.curline ≠ ppa.blk := by
      intro heq
      exact (hlines.openLine .gcIo).2.2.2.2 (by rw [← hblk, ← heq]; rfl)
    have hcount : countOf (linePages spp s.gcWp.curline) (markBlockFree spp ppa s).ssd.pg .free =
        countOf (linePages spp s.gcWp.curline) s.ssd.pg .free :=
      countOf_congr fun p hp => pg_markBlockFree_of_line hp hopen
    have hroom := h.room
    unfold OneLine at hroom ⊢
    rw [← hcount] at hroom
    exact hroom

/-- The sweep of a victim that is not full of valid pages runs to its end once a
free line is at hand. -/
theorem relocated_sweepable (cpp : ConvParams) (hpls : g.plsPerLun = 1) (hv : v < g.blksPerPl)
    (hmap₀ : MapInv g.toSsdParams (fun _ => False) s₀)
    (hfew : countOf (linePages g.toSsdParams v) s₀.ssd.pg .valid < g.pgsPerLine)
    (hfree : s₀.lm.freeLineList ≠ []) :
    Sweepable g.toSsdParams cpp v s₀
      (fun visited erased s => GcInv g.toSsdParams v s₀ visited erased s ∧
        Relocated g.toSsdParams v s₀ visited s)
      (fun _ => False) where
  status := fun h => (gcInv_sweepable cpp s₀ hpls hv).status h.1
  congr := fun h hvis her => ⟨h.1.congr hvis her,
    h.2.congr (fun lpn p hp => (hmap₀.mapped.place lpn p hp).2.1) hvis⟩
  issue := fun h ncmd => ⟨h.1.issue ncmd, ⟨h.2.kept, h.2.moved, h.2.unused, h.2.room⟩⟩
  copy := by
    intro visited erased s p h hp hst hnew hkept
    have hst₀ : s₀.ssd.pg p = .valid := (h.1.keptPg p hp hkept).symm.trans hst
    obtain ⟨lpn, hvalid, hrmap, hmap, hlpn⟩ := h.1.owner hpls hv hp hst hnew
    have hgc := gcPage_notMem h.1.lines
    have hnotMoved : ¬ ((wpPage (s.getWp .gcIo) ∈ linePages g.toSsdParams v ∧
        visited (wpPage (s.getWp .gcIo))) ∨ wpPage (s.getWp .gcIo) = p) := by
      rintro (hm | heq)
      · exact hgc hm.1
      · exact hgc (heq ▸ hp)
    have hinj : ∀ k, s₀.maptbl k = some p → k = lpn := by
      intro k hk
      have hsame := h.2.kept k p hk fun _ => hnew
      exact h.1.map.mapped.key_eq hmap hsame
    have hplace := placeLpn_spec .gcIo hpls h.1.lines hlpn (h.1.map.mapped.forget hmap) hnotMoved
    have hmoved : Outcome (gcWritePage g.toSsdParams cpp p s)
        (fun s' => Relocated g.toSsdParams v s₀ (fun q => visited q ∨ q = p) s')
        (fun _ => False) := by
      refine gcWritePage_rule hvalid hrmap hlpn (hplace.imp ?_ ?_)
        fun s' ncmd hs => ⟨hs.kept, hs.moved, hs.unused, hs.room⟩
      · rintro ⟨ppa, s'⟩ ⟨-, -, -, hplaced, htakes⟩
        exact h.2.next h.1.lines hmap hp hst₀ hnew hfew hinj hplaced htakes
      · intro e he
        exact h.2.room.not_starved hp hst₀ hnew hfew hfree he
    exact (hmoved.and_right (gcWritePage_step cpp hpls h.1 hv hp hst hnew hkept)).imp
      (fun _ hs => ⟨hs.2, hs.1⟩) fun _ he => he
  erase := fun h hp hall => ⟨h.1.eraseBlock hp hall, h.2.eraseBlock h.1.lines hp⟩

end Sweep

section Count

variable {spp : SsdParams} {s : ConvFtl}

def freeCount (spp : SsdParams) (s : ConvFtl) : Nat :=
  ∑ l ∈ Finset.range spp.blksPerPl, countOf (linePages spp l) s.ssd.pg .free

theorem free_in_line (h : LineInv spp none none s) {l : Nat} (hl : l < spp.blksPerPl) :
    countOf (linePages spp l) s.ssd.pg .free =
      spp.pgsPerLine * s.lm.freeLineList.count l +
        (if l = s.wp.curline then countOf (linePages spp s.wp.curline) s.ssd.pg .free else 0) +
        (if l = s.gcWp.curline then
          countOf (linePages spp s.gcWp.curline) s.ssd.pg .free else 0) := by
  have hroles := h.roles l
  have hne := h.wp_ne
  rw [if_pos hl] at hroles
  unfold roleCount isLine at hroles
  simp only [reduceCtorEq, if_false] at hroles
  rcases eq_or_ne l s.wp.curline with rfl | hhost
  · have hnone : s.lm.freeLineList.count s.wp.curline = 0 := by
      rw [if_pos rfl] at hroles
      omega
    rw [if_pos rfl, if_neg hne, hnone]
    omega
  · rw [if_neg (Ne.symm hhost)] at hroles
    rw [if_neg hhost]
    rcases eq_or_ne l s.gcWp.curline with rfl | hgc
    · have hnone : s.lm.freeLineList.count s.gcWp.curline = 0 := by
        rw [if_pos rfl] at hroles
        omega
      rw [if_pos rfl, hnone]
      omega
    · rw [if_neg (Ne.symm hgc)] at hroles
      rw [if_neg hgc]
      by_cases hmem : l ∈ s.lm.freeLineList
      · have hone : s.lm.freeLineList.count l = 1 := by
          have hpos := List.count_pos_iff.mpr hmem
          omega
        have hall : countOf (linePages spp l) s.ssd.pg .free = spp.pgsPerLine := by
          rw [← card_linePages spp l]
          exact countOf_eq_card.mpr (h.freeLines l hmem)
        rw [hall, hone]
        omega
      · have hzero := List.count_eq_zero.mpr hmem
        have hused : countOf (linePages spp l) s.ssd.pg .free = 0 := by
          apply countOf_eq_zero.mpr
          intro p hp hfree
          by_cases hfull : l ∈ s.lm.fullLineList
          · have hvalid := h.fullLines l hfull p hp
            rw [hfree] at hvalid
            exact absurd hvalid (by simp)
          · have hnot := List.count_eq_zero.mpr hfull
            exact (h.victimLines l (by omega)).1 p hp hfree
        rw [hused, hzero]
        omega

theorem freeCount_eq (h : LineInv spp none none s) : freeCount spp s = freePages spp s := by
  have hlines : ∑ l ∈ Finset.range spp.blksPerPl, s.lm.freeLineList.count l =
      s.lm.freeLineList.length := by
    have hmem : ∀ l ∈ (s.lm.freeLineList : Multiset Nat), l ∈ Finset.range spp.blksPerPl := by
      intro l hl
      by_contra hout
      have hroles := h.roles l
      have hpos := List.count_pos_iff.mpr (Multiset.mem_coe.mp hl)
      rw [if_neg (fun hlt => hout (Finset.mem_range.mpr hlt))] at hroles
      unfold roleCount at hroles
      omega
    simpa only [Multiset.coe_count, Multiset.coe_card] using Multiset.sum_count_eq_card hmem
  have hopen : ∀ io : IoType, ∀ n,
      ∑ l ∈ Finset.range spp.blksPerPl, (if l = (s.getWp io).curline then n else 0) = n := by
    intro io n
    rw [Finset.sum_ite_eq', if_pos (Finset.mem_range.mpr (h.openLine io).1)]
  unfold freeCount freePages
  rw [Finset.sum_congr rfl fun l hl => free_in_line h (Finset.mem_range.mp hl),
    Finset.sum_add_distrib, Finset.sum_add_distrib, ← Finset.mul_sum, hlines]
  exact congrArg₂ (· + ·) (congrArg (_ + ·) (hopen .userIo _)) (hopen .gcIo _)

end Count

section Results

variable {g : Geometry} {v : Nat} {s s₁ : ConvFtl}

/-- What the collection of the victim `v` makes of `s`. -/
structure Transparent (spp : SsdParams) (v : Nat) (s s' : ConvFtl) : Prop where
  domain : ∀ lpn, s'.maptbl lpn = none ↔ s.maptbl lpn = none
  outside : ∀ lpn p, s.maptbl lpn = some p → p.blk ≠ v → s'.maptbl lpn = some p
  inside : ∀ lpn p, s.maptbl lpn = some p → p.blk = v →
    ∃ q, s'.maptbl lpn = some q ∧ q.blk ≠ v ∧ s.ssd.pg q = .free ∧
      (q.blk = s.gcWp.curline ∨ q.blk = s'.gcWp.curline)
  distinct : ∀ lpn lpn' q, s'.maptbl lpn = some q → s'.maptbl lpn' = some q → lpn = lpn'
  erased : ∀ p ∈ linePages spp v, s'.ssd.pg p = .free ∧
    (s'.ssd.blk p.blkAddr).ipc = 0 ∧ (s'.ssd.blk p.blkAddr).vpc = 0
  line : (s'.lm.lines v).ipc = 0 ∧ (s'.lm.lines v).vpc = 0
  freeList : ∃ free, s'.lm.freeLineList = free ++ [v] ∧
    (s.lm.freeLineList = free ∨ s.lm.freeLineList = s'.gcWp.curline :: free)
  gained : freeCount spp s' = freeCount spp s + (s.lm.lines v).ipc
  refill : s'.wfc.creditsToRefill = (s.lm.lines v).ipc

/-- What the sweep and `mark_line_free` leave of the maps and of the free list. -/
theorem relocated_end {spp : SsdParams} {visited erased : Ppa → Prop}
    (hlm : s₁.lm.freeLineList = s.lm.freeLineList) {s' : ConvFtl}
    (h : Relocated spp v (collecting v s₁) visited s')
    (hgc : GcInv spp v (collecting v s₁) visited erased s') :
    (∃ free, (markLineFree v s').lm.freeLineList = free ++ [v] ∧
      (s.lm.freeLineList = free ∨
        s.lm.freeLineList = (markLineFree v s').gcWp.curline :: free)) ∧
    (markLineFree v s').wfc.creditsToRefill = (s₁.lm.lines v).ipc := by
  refine ⟨⟨s'.lm.freeLineList, rfl, ?_⟩, ?_⟩
  · rcases h.room with ⟨-, hlist⟩ | ⟨hlist, -⟩
    · exact Or.inl (hlm.symm.trans hlist.symm)
    · exact Or.inr (hlm.symm.trans hlist)
  · exact congrArg WriteFlowControl.creditsToRefill hgc.wfc

theorem doGc_transparent (cpp : ConvParams) (hpls : g.plsPerLun = 1)
    (h : FtlInv g.toSsdParams s)
    (hsel : selectVictimLine g.toSsdParams true s = some (v, s₁))
    (hfree : s.lm.freeLineList ≠ []) :
    ∃ s', doGc g.toSsdParams cpp true s = .ok (0, s') ∧ Transparent g.toSsdParams v s s' := by
  obtain ⟨hline, htaken, ⟨lm, hs₁⟩, -⟩ := selectVictimLine_spec h.lines hsel
  obtain ⟨-, -, -, hlist⟩ := selectVictimLine_some hsel
  have hmap : MapInv g.toSsdParams (fun _ => False) (collecting v s₁) := by
    rw [hs₁]
    exact ⟨h.map.mapped, h.map.bound⟩
  have hmap₁ : MapInv g.toSsdParams (fun _ => False) s₁ := ⟨hmap.mapped, hmap.bound⟩
  have hsame : (collecting v s₁).maptbl = s.maptbl ∧ (collecting v s₁).ssd = s.ssd ∧
      (collecting v s₁).gcWp = s.gcWp := by
    rw [hs₁]
    exact ⟨rfl, rfl, rfl⟩
  have hssd : s₁.ssd = s.ssd := hsame.2.1
  have hsum := counts_add g.toSsdParams s₁.ssd.pg v
  have hinvalid := htaken.some_invalid
  have hipc : (s₁.lm.lines v).ipc = (s.lm.lines v).ipc := by
    rw [htaken.ipc, h.lines.lineIpc v (by simp), hssd]
  have hstart : Relocated g.toSsdParams v (collecting v s₁) (Done g.toSsdParams 0 0 0 0)
      (collecting v s₁) :=
    ⟨fun _ _ hp _ => hp, fun _ _ _ _ hdone => absurd hdone (not_done_zero _),
      fun _ _ hp => hp, Or.inl ⟨rfl, rfl⟩⟩
  have hsweepable := relocated_sweepable cpp hpls htaken.lt hmap
    (by change countOf _ s₁.ssd.pg _ < _; omega) (by
      change s₁.lm.freeLineList ≠ []
      rwa [hlist])
  have hrun : Outcome (doGc g.toSsdParams cpp true s)
      (fun r => r.1 = 0 ∧ ∃ s₂, r.2 = markLineFree v s₂ ∧
        GcInv g.toSsdParams v (collecting v s₁) (Done g.toSsdParams g.flashpgsPerBlk 0 0 0)
          (Erased g.toSsdParams g.flashpgsPerBlk 0 0) s₂ ∧
        Relocated g.toSsdParams v (collecting v s₁)
          (Done g.toSsdParams g.flashpgsPerBlk 0 0 0) s₂)
      (fun _ => False) :=
    doGc_rule hsel (hline.ids v) htaken.lt htaken.used hsweepable
      ⟨sweep_start hline hmap₁, hstart⟩ fun s₂ hs₂ => ⟨rfl, s₂, rfl, hs₂.1, hs₂.2⟩
  obtain ⟨⟨code, s'⟩, hok, hcode, s₂, hs', hgc, hmoved⟩ := hrun.exists_ok
  obtain rfl : code = 0 := hcode
  obtain rfl : s' = markLineFree v s₂ := hs'
  obtain ⟨hlines', hmap', hdomain, hcollected⟩ := (doGc_spec cpp hpls h.lines h.map).value hok
  obtain ⟨hlast, hrefill⟩ := relocated_end hlist hmoved hgc
  obtain ⟨hmaps, hrows, hwp⟩ := hsame
  refine ⟨_, hok, hdomain, ?_, ?_, fun lpn lpn' q hq hq' => hmap'.mapped.key_eq hq' hq, ?_, ?_,
    hlast, ?_, hrefill.trans hipc⟩
  · intro lpn p hp hblk
    refine hmoved.kept lpn p (hmaps ▸ hp) fun hmem => ?_
    exact absurd (mem_linePages.mp hmem).2.2.2.1 hblk
  · intro lpn p hp hblk
    have hmem : p ∈ linePages g.toSsdParams v :=
      hblk ▸ mem_linePages_of_valid hpls (h.map.mapped.place lpn p hp).1
    obtain ⟨q, hq, hqv, hqfree, hqline⟩ := hmoved.moved lpn p (hmaps ▸ hp) hmem (done_all hmem)
    rw [hrows] at hqfree
    rw [hwp] at hqline
    refine ⟨q, hq, ?_, hqfree, hqline⟩
    have hqmem := mem_linePages_of_valid hpls (hmap'.mapped.place lpn q hq).1
    intro heq
    exact hqv (heq ▸ hqmem)
  · intro p hp
    have hall : ∀ q ∈ linePages g.toSsdParams v, s₂.ssd.pg q = .free :=
      fun q hq => hgc.erasedPg q hq (Or.inl le_rfl)
    have hblock : ∀ b, b ≠ PgStatus.free →
        countOf (blkPages g.toSsdParams p.blkAddr) s₂.ssd.pg b = 0 := by
      intro b hb
      apply countOf_eq_zero.mpr
      intro q hq
      rw [hall q (mem_linePages_of_mem_blkPages hp hq)]
      exact Ne.symm hb
    exact ⟨hall p hp, (hlines'.blkIpc p.blkAddr).trans (hblock .invalid (by simp)),
      (hlines'.blkVpc p.blkAddr).trans (hblock .valid (by simp))⟩
  · have hself : (markLineFree v s₂).lm.lines v = { s₂.lm.lines v with ipc := 0, vpc := 0 } := by
      change (s₂.lm.setLine v _).lines v = _
      rw [lines_setLine, if_pos rfl]
    rw [hself]
    exact ⟨rfl, rfl⟩
  · rw [freeCount_eq hlines', freeCount_eq h.lines]
    rcases hcollected with ⟨hnone, -⟩ | ⟨ipc, -, -, hwfc, hgain⟩
    · rw [hsel] at hnone
      cases hnone
    · have hcredits : (markLineFree v s₂).wfc.creditsToRefill = ipc := by
        rw [show (markLineFree v s₂).wfc = _ from hwfc]
      rw [hgain, ← hcredits, hrefill, hipc]

end Results

end NvmeVirt.ConvTransparency
