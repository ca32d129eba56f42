import NvmeVirt.ConvMapping

namespace NvmeVirt.ConvCollection

open NvmeVirt.ConventionalFtl
open NvmeVirt.ConvLineAccounting
open NvmeVirt.ConvLineReclaim
open NvmeVirt.ConvMapping
open NvmeVirt.FaultOutcome
open NvmeVirt.FlashGeometry
open NvmeVirt.InverseMaps
open NvmeVirt.StatusCounts
open NvmeVirt.WriteBuffer

open Classical in
/-- The visited pages of the victim that had to be copied. -/
noncomputable def copied (spp : SsdParams) (v : Nat) (s₀ : ConvFtl)
    (visited : Ppa → Prop) : Finset Ppa :=
  (linePages spp v).filter fun p => visited p ∧ s₀.ssd.pg p = .valid

/-- The state inside `do_gc` on victim `v`, relative to the state `s₀` in which
the sweep started. -/
structure GcInv (spp : SsdParams) (v : Nat) (s₀ : ConvFtl) (visited erased : Ppa → Prop)
    (s : ConvFtl) : Prop where
  lines : LineInv spp (some v) none s
  erasedPg : ∀ p ∈ linePages spp v, erased p → s.ssd.pg p = .free
  keptPg : ∀ p ∈ linePages spp v, ¬ erased p → s.ssd.pg p = s₀.ssd.pg p
  map : MapInv spp (fun p => p ∈ linePages spp v ∧ visited p) s
  domain : ∀ lpn, s.maptbl lpn = none ↔ s₀.maptbl lpn = none
  wfc : s.wfc = s₀.wfc
  pages : freePages spp s + (copied spp v s₀ visited).card = freePages spp s₀

section Steps

variable {g : Geometry} {v : Nat} {s₀ s : ConvFtl}
  {visited visited' erased erased' : Ppa → Prop}

@[simp] theorem mem_copied {spp : SsdParams} {p : Ppa} :
    p ∈ copied spp v s₀ visited ↔
      p ∈ linePages spp v ∧ visited p ∧ s₀.ssd.pg p = .valid := by
  simp [copied]

theorem copied_congr {spp : SsdParams}
    (h : ∀ p ∈ linePages spp v, s₀.ssd.pg p = .valid → (visited' p ↔ visited p)) :
    copied spp v s₀ visited' = copied spp v s₀ visited := by
  ext p
  simp only [mem_copied]
  constructor
  · rintro ⟨hp, hv, hst⟩
    exact ⟨hp, (h p hp hst).mp hv, hst⟩
  · rintro ⟨hp, hv, hst⟩
    exact ⟨hp, (h p hp hst).mpr hv, hst⟩

theorem GcInv.congr {spp : SsdParams} (h : GcInv spp v s₀ visited erased s)
    (hvis : ∀ p ∈ linePages spp v, s₀.ssd.pg p = .valid → (visited' p ↔ visited p))
    (her : ∀ p ∈ linePages spp v, erased' p ↔ erased p) :
    GcInv spp v s₀ visited' erased' s := by
  refine ⟨h.lines, ?_, ?_, ⟨?_, h.map.bound⟩, h.domain, h.wfc, ?_⟩
  · intro p hp hpe
    exact h.erasedPg p hp ((her p hp).mp hpe)
  · intro p hp hpe
    exact h.keptPg p hp fun hold => hpe ((her p hp).mpr hold)
  · apply h.map.mapped.congr (fun _ _ => Iff.rfl)
    intro p _ hlive
    constructor
    all_goals
      rintro ⟨hp, hv⟩
      have hkept : ¬ erased p := by
        intro hpe
        rw [h.erasedPg p hp hpe] at hlive
        exact absurd hlive (by simp)
      have hst : s₀.ssd.pg p = .valid := (h.keptPg p hp hkept).symm.trans hlive
    · exact ⟨hp, (hvis p hp hst).mp hv⟩
    · exact ⟨hp, (hvis p hp hst).mpr hv⟩
  · rw [copied_congr hvis]
    exact h.pages

theorem GcInv.issue {spp : SsdParams} (h : GcInv spp v s₀ visited erased s)
    (ncmd : NandCmd) : GcInv spp v s₀ visited erased (s.issue ncmd) :=
  ⟨h.lines.of_same rfl rfl rfl rfl rfl, h.erasedPg, h.keptPg, ⟨h.map.mapped, h.map.bound⟩,
    h.domain, h.wfc, h.pages⟩

theorem card_copied_insert {spp : SsdParams} {p : Ppa} (hp : p ∈ linePages spp v)
    (hst : s₀.ssd.pg p = .valid) (hnew : ¬ visited p) :
    (copied spp v s₀ fun q => visited q ∨ q = p).card =
      (copied spp v s₀ visited).card + 1 := by
  have hset : (copied spp v s₀ fun q => visited q ∨ q = p) =
      insert p (copied spp v s₀ visited) := by
    ext q
    simp only [mem_copied, Finset.mem_insert]
    constructor
    · rintro ⟨hq, hv | rfl, hstq⟩
      · exact Or.inr ⟨hq, hv, hstq⟩
      · exact Or.inl rfl
    · rintro (rfl | ⟨hq, hv, hstq⟩)
      · exact ⟨hp, Or.inr rfl, hst⟩
      · exact ⟨hq, Or.inl hv, hstq⟩
  rw [hset, Finset.card_insert_of_notMem]
  simp [hnew]

theorem card_copied_le (spp : SsdParams) (v : Nat) (s₀ : ConvFtl) (visited : Ppa → Prop) :
    (copied spp v s₀ visited).card ≤ countOf (linePages spp v) s₀.ssd.pg .valid := by
  apply Finset.card_le_card
  intro q hq
  rw [mem_copied] at hq
  exact Finset.mem_filter.mpr ⟨hq.1, hq.2.2⟩

theorem gcPage_notMem {spp : SsdParams} (h : LineInv spp (some v) none s) :
    wpPage (s.getWp .gcIo) ∉ linePages spp v := by
  apply notMem_linePages (h.frontier .gcIo).page_mem
  rintro rfl
  exact (h.openLine .gcIo).2.2.2.2 rfl

theorem gcWritePage_eq {spp : SsdParams} {cpp : ConvParams} {p : Ppa} {lpn : Nat}
    (hp : ValidPpa spp p) (hrmap : s.rmap (ppa2pgidx spp p) = some lpn)
    (hlpn : lpn < spp.ttPgs) :
    gcWritePage spp cpp p s = placeLpn spp .gcIo lpn s >>= fun r =>
      if cpp.enableGcDelay then
        if lastPgInWordline spp r.1 then
          pure (r.2.issue
            { type := .gcIo, cmd := .write
              xferSize := spp.pgsz * spp.pgsPerOneshotpg
              interleavePciDma := false, ppa := r.1 })
        else
          pure (r.2.issue
            { type := .gcIo, cmd := .nop, xferSize := 0
              interleavePciDma := false, ppa := r.1 })
      else pure r.2 := by
  have hget : getRmapEnt spp p s = .ok (some lpn) := by
    simp only [getRmapEnt, nvmevAssert_of (ppa2pgidx_lt hp), hrmap]
    rfl
  simp only [gcWritePage, hget, ok_bind, nvmevAssert_of hlpn, placeLpn, bind_assoc,
    pure_bind]

theorem gcWritePage_rule {spp : SsdParams} {cpp : ConvParams} {p : Ppa} {lpn : Nat}
    {Q : ConvFtl → Prop} {E : Fault → Prop} (hp : ValidPpa spp p)
    (hrmap : s.rmap (ppa2pgidx spp p) = some lpn) (hlpn : lpn < spp.ttPgs)
    (hplace : Outcome (placeLpn spp .gcIo lpn s) (fun r => Q r.2) E)
    (hissue : ∀ s ncmd, Q s → Q (s.issue ncmd)) : Outcome (gcWritePage spp cpp p s) Q E := by
  rw [gcWritePage_eq hp hrmap hlpn]
  refine Outcome.bind hplace ?_
  rintro ⟨ppa, s'⟩ hs'
  split
  · split
    · exact hissue _ _ hs'
    · exact hissue _ _ hs'
  · exact hs'

theorem GcInv.owner (hpls : g.plsPerLun = 1) (h : GcInv g.toSsdParams v s₀ visited erased s)
    {p : Ppa} (hv : v < g.blksPerPl) (hp : p ∈ linePages g.toSsdParams v)
    (hst : s.ssd.pg p = .valid) (hnew : ¬ visited p) :
    ∃ lpn, ValidPpa g.toSsdParams p ∧ s.rmap (ppa2pgidx g.toSsdParams p) = some lpn ∧
      s.maptbl lpn = some p ∧ lpn < g.ttPgs := by
  have hvalid := valid_of_mem_linePages hpls hv hp
  obtain ⟨lpn, hrmap, hmap⟩ := h.map.mapped.owner p hvalid hst fun hm => hnew hm.2
  exact ⟨lpn, hvalid, hrmap, hmap, h.map.bound lpn p hmap⟩

theorem gcWritePage_step (cpp : ConvParams) (hpls : g.plsPerLun = 1)
    (h : GcInv g.toSsdParams v s₀ visited erased s) {p : Ppa} (hv : v < g.blksPerPl)
    (hp : p ∈ linePages g.toSsdParams v) (hst : s.ssd.pg p = .valid)
    (hnew : ¬ visited p) (hkept : ¬ erased p) :
    Outcome (gcWritePage g.toSsdParams cpp p s)
      (GcInv g.toSsdParams v s₀ (fun q => visited q ∨ q = p) erased)
      (fun e => e = .noFreeLine ∧ freePages g.toSsdParams s₀ ≤
        g.pgsPerLine + countOf (linePages g.toSsdParams v) s₀.ssd.pg .valid) := by
  have hst₀ : s₀.ssd.pg p = .valid := (h.keptPg p hp hkept).symm.trans hst
  obtain ⟨lpn, hvalid, hrmap, hmap, hlpn⟩ := h.owner hpls hv hp hst hnew
  have hgc := gcPage_notMem h.lines
  have hforget := h.map.mapped.forget hmap
  have hinsert := card_copied_insert hp hst₀ hnew
  have hle := card_copied_le g.toSsdParams v s₀ fun q => visited q ∨ q = p
  have hpages := h.pages
  have hnotMoved : ¬ ((wpPage (s.getWp .gcIo) ∈ linePages g.toSsdParams v ∧
      visited (wpPage (s.getWp .gcIo))) ∨ wpPage (s.getWp .gcIo) = p) := by
    rintro (hm | heq)
    · exact hgc hm.1
    · exact hgc (heq ▸ hp)
  have hplace := placeLpn_spec .gcIo hpls h.lines hlpn hforget hnotMoved
  refine gcWritePage_rule hvalid hrmap hlpn (hplace.imp ?_ fun e he =>
    ⟨he.1, by have := he.freePages_le; omega⟩) fun _ ncmd hs => hs.issue ncmd
  rintro ⟨ppa, s'⟩ ⟨-, hinv, hmapped, hplaced, -⟩
  have hkeepPg : ∀ q ∈ linePages g.toSsdParams v, s'.ssd.pg q = s.ssd.pg q := by
    intro q hq
    rw [show s'.ssd.pg = _ from hplaced.pg, Function.update_of_ne]
    rintro rfl
    exact hgc hq
  have hmaptbl : s'.maptbl =
      Function.update s.maptbl lpn (some (wpPage (s.getWp .gcIo))) := hplaced.maptbl
  refine ⟨hinv, ?_, ?_, ⟨?_, ?_⟩, ?_, hplaced.wfc.trans h.wfc, ?_⟩
  · intro q hq hqe
    rw [hkeepPg q hq]
    exact h.erasedPg q hq hqe
  · intro q hq hqe
    rw [hkeepPg q hq]
    exact h.keptPg q hq hqe
  · apply hmapped.congr (fun _ _ => Iff.rfl)
    intro q _ _
    constructor
    · rintro ⟨hq, hvis | heq⟩
      · exact Or.inl ⟨hq, hvis⟩
      · exact Or.inr heq
    · rintro (⟨hq, hvis⟩ | rfl)
      · exact ⟨hq, Or.inl hvis⟩
      · exact ⟨hp, Or.inr rfl⟩
  · intro k q hk
    rw [hmaptbl] at hk
    by_cases hkl : k = lpn
    · exact hkl ▸ hlpn
    · rw [Function.update_of_ne hkl] at hk
      exact h.map.bound k q hk
  · intro k
    rw [hmaptbl]
    by_cases hkl : k = lpn
    · subst hkl
      rw [Function.update_self, ← h.domain k, hmap]
      simp
    · rw [Function.update_of_ne hkl]
      exact h.domain k
  · have hcount : freePages g.toSsdParams s' + 1 = freePages g.toSsdParams s :=
      hplaced.freePages
    dsimp only
    omega

theorem GcInv.eraseBlock {spp : SsdParams} (h : GcInv spp v s₀ visited erased s)
    {ppa : Ppa} (hppa : ppa ∈ linePages spp v)
    (hall : ∀ p ∈ linePages spp v, p.blkAddr = ppa.blkAddr → visited p) :
    GcInv spp v s₀ visited (fun p => erased p ∨ p.blkAddr = ppa.blkAddr)
      (markBlockFree spp ppa s) := by
  obtain ⟨-, -, -, hblk, -⟩ := mem_linePages.mp hppa
  obtain ⟨hinv, hpages⟩ := markBlockFree_inv h.lines hblk
  have hline : ∀ q : Ppa, q.blkAddr = ppa.blkAddr → q.pg < spp.pgsPerBlk →
      q ∈ linePages spp v :=
    fun q hq hqpg => mem_linePages_of_mem_blkPages hppa (mem_blkPages.mpr ⟨hq, hqpg⟩)
  refine ⟨hinv, ?_, ?_, ⟨?_, h.map.bound⟩, h.domain, h.wfc, ?_⟩
  · intro p hp hpe
    rw [pg_markBlockFree]
    split
    · rfl
    · rename_i hnot
      rcases hpe with hold | hin
      · exact h.erasedPg p hp hold
      · exact absurd ⟨hin, (mem_linePages.mp hp).2.2.2.2⟩ hnot
  · intro p hp hpe
    rw [pg_markBlockFree_of_ne fun hin => hpe (Or.inr hin)]
    exact h.keptPg p hp fun hold => hpe (Or.inl hold)
  · have hrelease := h.map.mapped.release
      (R := fun q => q.blkAddr = ppa.blkAddr ∧ q.pg < spp.pgsPerBlk) fun q hq _ =>
        ⟨hline q hq.1 hq.2, hall q (hline q hq.1 hq.2) hq.1⟩
    apply hrelease.congr
    · intro q _
      rw [pg_markBlockFree]
      split
      · rename_i hq
        simp [hq]
      · rename_i hq
        simp only [hq, not_false_iff, and_true]
    · exact fun _ _ _ => Iff.rfl
  · rw [hpages]
    exact h.pages

end Steps

section Sweep

variable {g : Geometry} {v : Nat} {s₀ s : ConvFtl}

/-- The loops of `do_gc` have passed page `p` when they stand at page `i` of
flash page `flashpg` of channel `ch` and LUN `lun`. -/
def Done (spp : SsdParams) (flashpg ch lun i : Nat) (p : Ppa) : Prop :=
  p.pg / spp.pgsPerFlashpg < flashpg ∨ p.pg / spp.pgsPerFlashpg = flashpg ∧
    (p.ch < ch ∨ p.ch = ch ∧ (p.lun < lun ∨ p.lun = lun ∧
      p.pg % spp.pgsPerFlashpg < i))

/-- The block of `p` has been erased: the loops are past its last flash page. -/
def Erased (spp : SsdParams) (flashpg ch lun : Nat) (p : Ppa) : Prop :=
  spp.flashpgsPerBlk ≤ flashpg ∨ spp.flashpgsPerBlk = flashpg + 1 ∧
    (p.ch < ch ∨ p.ch = ch ∧ p.lun < lun)

def SweepInv (spp : SsdParams) (v : Nat) (s₀ : ConvFtl) (flashpg ch lun i : Nat)
    (s : ConvFtl) : Prop :=
  GcInv spp v s₀ (Done spp flashpg ch lun i) (Erased spp flashpg ch lun) s

/-- What a full flash does to the collection: it cannot be reached while the
pages to copy and one more line fit. -/
def Exhausted (spp : SsdParams) (v : Nat) (s₀ : ConvFtl) (e : Fault) : Prop :=
  e = .noFreeLine ∧ freePages spp s₀ ≤
    spp.pgsPerLine + countOf (linePages spp v) s₀.ssd.pg .valid

def pageAt (spp : SsdParams) (v flashpg ch lun i : Nat) : Ppa :=
  { ch := ch, lun := lun, pl := 0, blk := v, pg := flashpg * spp.pgsPerFlashpg + i }

theorem pageAt_mem {flashpg ch lun i : Nat} (hf : flashpg < g.flashpgsPerBlk)
    (hch : ch < g.nchs) (hlun : lun < g.lunsPerCh) (hi : i < g.pgsPerFlashpg) :
    pageAt g.toSsdParams v flashpg ch lun i ∈ linePages g.toSsdParams v := by
  refine mem_linePages.mpr ⟨hch, hlun, rfl, rfl, ?_⟩
  rw [g.blk_flash]
  exact digits_lt hf hi

theorem done_pageAt_iff {spp : SsdParams} {flashpg ch lun i : Nat} {p : Ppa}
    (hi : i < spp.pgsPerFlashpg) (hp : p ∈ linePages spp v) :
    Done spp flashpg ch lun (i + 1) p ↔
      Done spp flashpg ch lun i p ∨ p = pageAt spp v flashpg ch lun i := by
  obtain ⟨-, -, hpl, hblk, -⟩ := mem_linePages.mp hp
  have heq : p = pageAt spp v flashpg ch lun i ↔
      p.pg / spp.pgsPerFlashpg = flashpg ∧ p.ch = ch ∧ p.lun = lun ∧
        p.pg % spp.pgsPerFlashpg = i := by
    have hpos : 0 < spp.pgsPerFlashpg := by omega
    constructor
    · rintro rfl
      simp [pageAt, Nat.mul_comm flashpg, Nat.mul_add_div hpos, Nat.div_eq_of_lt hi,
        Nat.mod_eq_of_lt hi]
    · rintro ⟨hdiv, hch, hlun, hmod⟩
      have hpg : p.pg = flashpg * spp.pgsPerFlashpg + i := by
        rw [← hdiv, ← hmod, Nat.mul_comm, Nat.div_add_mod]
      exact Ppa.ext hch hlun hpl hblk hpg
  rw [heq]
  simp only [Done]
  omega

theorem not_done_pageAt {spp : SsdParams} {flashpg ch lun i : Nat}
    (hi : i < spp.pgsPerFlashpg) :
    ¬ Done spp flashpg ch lun i (pageAt spp v flashpg ch lun i) := by
  have hpos : 0 < spp.pgsPerFlashpg := by omega
  simp [Done, pageAt, Nat.mul_comm flashpg, Nat.mul_add_div hpos, Nat.div_eq_of_lt hi,
    Nat.mod_eq_of_lt hi]

theorem not_erased_pageAt {spp : SsdParams} {flashpg ch lun i : Nat}
    (hf : flashpg < spp.flashpgsPerBlk) :
    ¬ Erased spp flashpg ch lun (pageAt spp v flashpg ch lun i) := by
  simp only [Erased, pageAt]
  omega

theorem addPg_pageAt {flashpg ch lun i : Nat} (hf : flashpg < g.flashpgsPerBlk)
    (hi : i < g.pgsPerFlashpg) :
    Ppa.addPg (pageAt g.toSsdParams v flashpg ch lun 0) i =
      pageAt g.toSsdParams v flashpg ch lun i := by
  have hlt : flashpg * g.pgsPerFlashpg + i < 2 ^ 16 := by
    apply Nat.lt_of_lt_of_le _ g.pgsPerBlk_le
    rw [g.blk_flash]
    exact digits_lt hf hi
  simp only [Ppa.addPg, pageAt, Nat.add_zero, Nat.mod_eq_of_lt hlt]

/-- What the loops of `do_gc` need of a statement about the visited pages, the
erased pages and the state in order to keep it. -/
structure Sweepable (spp : SsdParams) (cpp : ConvParams) (v : Nat) (s₀ : ConvFtl)
    (I : (Ppa → Prop) → (Ppa → Prop) → ConvFtl → Prop) (E : Fault → Prop) : Prop where
  status : ∀ {visited erased s p}, I visited erased s → p ∈ linePages spp v → ¬ erased p →
    s.ssd.pg p = s₀.ssd.pg p
  congr : ∀ {visited visited' erased erased' s}, I visited erased s →
    (∀ p ∈ linePages spp v, s₀.ssd.pg p = .valid → (visited' p ↔ visited p)) →
    (∀ p ∈ linePages spp v, erased' p ↔ erased p) → I visited' erased' s
  issue : ∀ {visited erased s}, I visited erased s → ∀ ncmd, I visited erased (s.issue ncmd)
  copy : ∀ {visited erased s p}, I visited erased s → p ∈ linePages spp v →
    s.ssd.pg p = .valid → ¬ visited p → ¬ erased p →
    Outcome (gcWritePage spp cpp p s) (I (fun q => visited q ∨ q = p) erased) E
  erase : ∀ {visited erased s ppa}, I visited erased s → ppa ∈ linePages spp v →
    (∀ p ∈ linePages spp v, p.blkAddr = ppa.blkAddr → visited p) →
    I visited (fun p => erased p ∨ p.blkAddr = ppa.blkAddr) (markBlockFree spp ppa s)

theorem gcInv_sweepable (cpp : ConvParams) (s₀ : ConvFtl) (hpls : g.plsPerLun = 1)
    (hv : v < g.blksPerPl) :
    Sweepable g.toSsdParams cpp v s₀ (GcInv g.toSsdParams v s₀)
      (Exhausted g.toSsdParams v s₀) where
  status := fun h hp hkept => h.keptPg _ hp hkept
  congr := GcInv.congr
  issue := GcInv.issue
  copy := fun h hp hst hnew hkept => gcWritePage_step cpp hpls h hv hp hst hnew hkept
  erase := fun h hp hall => GcInv.eraseBlock h hp hall

section Loops

variable {cpp : ConvParams} {I : (Ppa → Prop) → (Ppa → Prop) → ConvFtl → Prop}
  {E : Fault → Prop}

theorem countValid_spec (hI : Sweepable g.toSsdParams cpp v s₀ I E)
    {visited : Ppa → Prop} {flashpg ch lun : Nat}
    (h : I visited (Erased g.toSsdParams flashpg ch lun) s)
    (hused : ∀ p ∈ linePages g.toSsdParams v, s₀.ssd.pg p ≠ .free)
    (hf : flashpg < g.flashpgsPerBlk) (hch : ch < g.nchs) (hlun : lun < g.lunsPerCh) :
    Outcome (countValid g.toSsdParams (pageAt g.toSsdParams v flashpg ch lun 0) s)
      (fun cnt => cnt = 0 → ∀ j < g.pgsPerFlashpg,
        s₀.ssd.pg (pageAt g.toSsdParams v flashpg ch lun j) ≠ .valid)
      (fun _ => False) := by
  refine Outcome.foldlM_range (I := fun i cnt => cnt = 0 → ∀ j < i,
    s₀.ssd.pg (pageAt g.toSsdParams v flashpg ch lun j) ≠ .valid) (by simp) ?_
  intro i hi cnt hcnt
  have hst := hI.status h (pageAt_mem hf hch hlun hi) (not_erased_pageAt hf)
  have hfree : s.ssd.pg (pageAt g.toSsdParams v flashpg ch lun i) ≠ .free := by
    rw [hst]
    exact hused _ (pageAt_mem hf hch hlun hi)
  simp only [addPg_pageAt hf hi, nvmevAssert_of hfree, ok_bind]
  split
  · intro hzero
    omega
  · rename_i hinvalid
    intro hzero j hj
    rcases Nat.lt_or_ge j i with hlt | hge
    · exact hcnt hzero j hlt
    · obtain rfl : j = i := by omega
      rw [← hst]
      exact hinvalid

/-- `clean_one_flashpg` visits the pages of one flash page. -/
theorem cleanOneFlashpg_spec (hI : Sweepable g.toSsdParams cpp v s₀ I E)
    (hused : ∀ p ∈ linePages g.toSsdParams v, s₀.ssd.pg p ≠ .free)
    {flashpg ch lun : Nat}
    (h : I (Done g.toSsdParams flashpg ch lun 0) (Erased g.toSsdParams flashpg ch lun) s)
    (hf : flashpg < g.flashpgsPerBlk) (hch : ch < g.nchs) (hlun : lun < g.lunsPerCh) :
    Outcome (cleanOneFlashpg g.toSsdParams cpp
        (pageAt g.toSsdParams v flashpg ch lun 0) s)
      (I (Done g.toSsdParams flashpg ch lun g.pgsPerFlashpg)
        (Erased g.toSsdParams flashpg ch lun)) E := by
  -- A page that was not valid at the start is passed without a copy.
  have hskip : ∀ i s,
      I (Done g.toSsdParams flashpg ch lun i) (Erased g.toSsdParams flashpg ch lun) s →
      i < g.pgsPerFlashpg →
      s₀.ssd.pg (pageAt g.toSsdParams v flashpg ch lun i) ≠ .valid →
      I (Done g.toSsdParams flashpg ch lun (i + 1)) (Erased g.toSsdParams flashpg ch lun)
        s := by
    intro i s hs hi hst
    refine hI.congr hs ?_ fun _ _ => Iff.rfl
    intro p hp hvalid
    rw [done_pageAt_iff hi hp]
    constructor
    · rintro (hdone | rfl)
      · exact hdone
      · exact absurd hvalid hst
    · exact Or.inl
  unfold cleanOneFlashpg
  refine Outcome.bind ((countValid_spec hI h hused hf hch hlun).imp (fun _ hc => hc)
    fun _ => False.elim) ?_
  intro cnt hcnt
  split
  · rename_i hzero
    have hnone := hcnt hzero
    suffices hall : ∀ i ≤ g.pgsPerFlashpg,
        I (Done g.toSsdParams flashpg ch lun i) (Erased g.toSsdParams flashpg ch lun) s from
      hall _ le_rfl
    intro i hi
    induction i with
    | zero => exact h
    | succ i ih => exact hskip i s (ih (by omega)) (by omega) (hnone i (by omega))
  · refine Outcome.foldlM_range (I := fun i => I (Done g.toSsdParams flashpg ch lun i)
      (Erased g.toSsdParams flashpg ch lun)) ?_ ?_
    · split
      · exact hI.issue h _
      · exact h
    · intro i hi s hs
      have hst := hI.status hs (pageAt_mem hf hch hlun hi) (not_erased_pageAt hf)
      simp only [addPg_pageAt hf hi]
      split
      · rename_i hvalid
        have hcopy := hI.copy hs (pageAt_mem hf hch hlun hi) hvalid (not_done_pageAt hi)
          (not_erased_pageAt hf)
        refine hcopy.imp ?_ fun _ he => he
        intro s' hs'
        refine hI.congr hs' ?_ fun _ _ => Iff.rfl
        intro p hp _
        exact done_pageAt_iff hi hp
      · rename_i hinvalid
        rw [hst] at hinvalid
        exact Outcome.ok (hskip i s hs hi hinvalid)

theorem pgsPerFlashpg_pos (g : Geometry) : 0 < g.pgsPerFlashpg := by
  have hline : 0 < g.blksPerLine * g.pgsPerBlk := g.pgsPerLine_pos
  rw [g.blk_flash] at hline
  exact Nat.pos_of_mul_pos_right (Nat.pos_of_mul_pos_left hline)

/-- One round of the loops of `do_gc`. -/
theorem gcFlashpg_spec (hI : Sweepable g.toSsdParams cpp v s₀ I E) (hv : v < g.blksPerPl)
    (hused : ∀ p ∈ linePages g.toSsdParams v, s₀.ssd.pg p ≠ .free)
    {flashpg ch lun : Nat}
    (h : I (Done g.toSsdParams flashpg ch lun 0) (Erased g.toSsdParams flashpg ch lun) s)
    (hf : flashpg < g.flashpgsPerBlk) (hch : ch < g.nchs) (hlun : lun < g.lunsPerCh) :
    Outcome (gcFlashpg g.toSsdParams cpp v flashpg ch lun s)
      (I (Done g.toSsdParams flashpg ch (lun + 1) 0)
        (Erased g.toSsdParams flashpg ch (lun + 1))) E := by
  have hpos := pgsPerFlashpg_pos g
  have hppa : Ppa.ofFields ch lun 0 v (flashpg * g.pgsPerFlashpg) =
      pageAt g.toSsdParams v flashpg ch lun 0 := by
    have hpg : flashpg * g.pgsPerFlashpg + 0 < 2 ^ 16 := by
      apply Nat.lt_of_lt_of_le _ g.pgsPerBlk_le
      rw [g.blk_flash]
      exact digits_lt hf hpos
    rw [Nat.add_zero] at hpg
    simp only [Ppa.ofFields, pageAt, Nat.mod_eq_of_lt (Nat.lt_of_lt_of_le hch g.nchs_le),
      Nat.mod_eq_of_lt (Nat.lt_of_lt_of_le hlun g.lunsPerCh_le), Nat.zero_mod,
      Nat.mod_eq_of_lt (Nat.lt_of_lt_of_le hv g.blksPerPl_le), Nat.mod_eq_of_lt hpg,
      Nat.add_zero]
  have hdone : ∀ p, Done g.toSsdParams flashpg ch (lun + 1) 0 p ↔
      Done g.toSsdParams flashpg ch lun g.pgsPerFlashpg p := by
    intro p
    have hmod := Nat.mod_lt p.pg hpos
    simp only [Done]
    omega
  unfold gcFlashpg
  rw [hppa]
  refine Outcome.bind (cleanOneFlashpg_spec hI hused h hf hch hlun) ?_
  intro s' hs'
  split
  · rename_i hlast
    have herase := hI.erase hs' (pageAt_mem hf hch hlun hpos) (by
      intro p hp hblk
      simp only [Ppa.blkAddr, pageAt, Prod.mk.injEq] at hblk
      have hpg := (mem_linePages.mp hp).2.2.2.2
      rw [g.blk_flash] at hpg
      have hdiv := Nat.div_lt_of_lt_mul hpg
      have hmod := Nat.mod_lt p.pg hpos
      simp only [Done]
      omega)
    have hnext : I (Done g.toSsdParams flashpg ch (lun + 1) 0)
        (Erased g.toSsdParams flashpg ch (lun + 1))
        (markBlockFree g.toSsdParams (pageAt g.toSsdParams v flashpg ch lun 0) s') := by
      refine hI.congr herase (fun p _ _ => hdone p) ?_
      intro p hp
      obtain ⟨-, -, hpl, hblk, -⟩ := mem_linePages.mp hp
      simp only [Erased, Ppa.blkAddr, pageAt, Prod.mk.injEq]
      omega
    split
    · exact hI.issue hnext _
    · exact hnext
  · rename_i hmid
    refine hI.congr hs' (fun p _ _ => hdone p) ?_
    intro p _
    simp only [Erased]
    omega

/-- The loops of `do_gc` visit every page of the victim and erase every block. -/
theorem Sweepable.sweep (hI : Sweepable g.toSsdParams cpp v s₀ I E) (hv : v < g.blksPerPl)
    (hused : ∀ p ∈ linePages g.toSsdParams v, s₀.ssd.pg p ≠ .free)
    (h : I (Done g.toSsdParams 0 0 0 0) (Erased g.toSsdParams 0 0 0) s) :
    Outcome ((List.range g.flashpgsPerBlk).foldlM (fun s flashpg =>
        (List.range g.nchs).foldlM (fun s ch =>
          (List.range g.lunsPerCh).foldlM (fun s lun =>
            gcFlashpg g.toSsdParams cpp v flashpg ch lun s) s) s) s)
      (I (Done g.toSsdParams g.flashpgsPerBlk 0 0 0)
        (Erased g.toSsdParams g.flashpgsPerBlk 0 0)) E := by
  refine Outcome.foldlM_range (I := fun flashpg => I (Done g.toSsdParams flashpg 0 0 0)
    (Erased g.toSsdParams flashpg 0 0)) h ?_
  intro flashpg hf s hs
  have hchannels := Outcome.foldlM_range
    (I := fun ch => I (Done g.toSsdParams flashpg ch 0 0) (Erased g.toSsdParams flashpg ch 0))
    (n := g.nchs)
    (g := fun s ch => (List.range g.lunsPerCh).foldlM (fun s lun =>
      gcFlashpg g.toSsdParams cpp v flashpg ch lun s) s)
    (E := E) hs (by
      intro ch hch s hs
      have hluns := Outcome.foldlM_range
        (I := fun lun => I (Done g.toSsdParams flashpg ch lun 0)
          (Erased g.toSsdParams flashpg ch lun)) (n := g.lunsPerCh)
        (g := fun s lun => gcFlashpg g.toSsdParams cpp v flashpg ch lun s)
        (E := E) hs fun lun hlun s hs => gcFlashpg_spec hI hv hused hs hf hch hlun
      refine hluns.imp ?_ fun _ he => he
      intro s' hs'
      refine hI.congr hs' ?_ ?_
      · intro p hp _
        obtain ⟨-, hlun, -⟩ := mem_linePages.mp hp
        simp only [Done]
        omega
      · intro p hp
        obtain ⟨-, hlun, -⟩ := mem_linePages.mp hp
        simp only [Erased]
        omega)
  refine hchannels.imp ?_ fun _ he => he
  intro s' hs'
  refine hI.congr hs' ?_ ?_
  · intro p hp _
    obtain ⟨hch, -⟩ := mem_linePages.mp hp
    simp only [Done]
    omega
  · intro p hp
    obtain ⟨hch, -⟩ := mem_linePages.mp hp
    simp only [Erased]
    omega

end Loops

/-- What `do_gc` does to the write flow control and to the free pages: nothing
when there is no victim, and otherwise the invalid pages of the victim become
both the next refill and new free pages. -/
def Collected (spp : SsdParams) (force : Bool) (s s' : ConvFtl) : Prop :=
  selectVictimLine spp force s = none ∧ s' = s ∨
    ∃ ipc, 1 ≤ ipc ∧ ipc ≤ spp.pgsPerLine ∧
      s'.wfc = { s.wfc with creditsToRefill := ipc } ∧
      freePages spp s' = freePages spp s + ipc

/-- The state in which the loops of `do_gc` start on the victim. -/
def collecting (v : Nat) (s : ConvFtl) : ConvFtl :=
  { s with wfc := { s.wfc with creditsToRefill := (s.lm.lines v).ipc } }

/-- `do_gc` keeps through its loops what is `Sweepable`. -/
theorem doGc_rule {cpp : ConvParams} {force : Bool} {s₁ : ConvFtl}
    {I : (Ppa → Prop) → (Ppa → Prop) → ConvFtl → Prop} {E : Fault → Prop}
    {Q : Int × ConvFtl → Prop}
    (hsel : selectVictimLine g.toSsdParams force s = some (v, s₁))
    (hid : (s₁.lm.lines v).id = v) (hv : v < g.blksPerPl)
    (hused : ∀ p ∈ linePages g.toSsdParams v, s₁.ssd.pg p ≠ .free)
    (hI : Sweepable g.toSsdParams cpp v (collecting v s₁) I E)
    (hstart : I (Done g.toSsdParams 0 0 0 0) (Erased g.toSsdParams 0 0 0) (collecting v s₁))
    (hend : ∀ s', I (Done g.toSsdParams g.flashpgsPerBlk 0 0 0)
      (Erased g.toSsdParams g.flashpgsPerBlk 0 0) s' → Q (0, markLineFree v s')) :
    Outcome (doGc g.toSsdParams cpp force s) Q E := by
  unfold doGc
  rw [hsel]
  dsimp only
  rw [hid]
  refine Outcome.bind (hI.sweep hv hused hstart) ?_
  intro s' hs'
  exact hend s' hs'

theorem not_done_zero {spp : SsdParams} (p : Ppa) : ¬ Done spp 0 0 0 0 p := by
  simp [Done]

theorem not_erased_zero {p : Ppa} (hp : p ∈ linePages g.toSsdParams v) :
    ¬ Erased g.toSsdParams 0 0 0 p := by
  obtain ⟨-, -, -, -, hpg⟩ := mem_linePages.mp hp
  rw [g.blk_flash] at hpg
  simp only [Erased]
  rcases Nat.eq_zero_or_pos g.flashpgsPerBlk with hzero | hpos
  · rw [hzero] at hpg
    omega
  · omega

theorem done_all {p : Ppa} (hp : p ∈ linePages g.toSsdParams v) :
    Done g.toSsdParams g.flashpgsPerBlk 0 0 0 p := by
  have hpg := (mem_linePages.mp hp).2.2.2.2
  rw [g.blk_flash] at hpg
  exact Or.inl (Nat.div_lt_of_lt_mul hpg)

theorem sweep_start {s₁ : ConvFtl} (h : LineInv g.toSsdParams (some v) none s₁)
    (hmap : MapInv g.toSsdParams (fun _ => False) s₁) :
    SweepInv g.toSsdParams v (collecting v s₁) 0 0 0 0 (collecting v s₁) := by
  refine ⟨h.of_same rfl rfl rfl rfl rfl, ?_, fun _ _ _ => rfl, ⟨?_, hmap.bound⟩,
    fun _ => Iff.rfl, rfl, ?_⟩
  · intro p hp hpe
    exact absurd hpe (not_erased_zero hp)
  · refine hmap.mapped.congr (fun _ _ => Iff.rfl) ?_
    intro p _ _
    simp [not_done_zero]
  · have hempty : copied g.toSsdParams v (collecting v s₁) (Done g.toSsdParams 0 0 0 0) = ∅ := by
      ext p
      simp [not_done_zero]
    rw [hempty]
    rfl

theorem doGc_spec (cpp : ConvParams) {force : Bool} (hpls : g.plsPerLun = 1)
    (h : LineInv g.toSsdParams none none s)
    (hmap : MapInv g.toSsdParams (fun _ => False) s) :
    Outcome (doGc g.toSsdParams cpp force s)
      (fun r => LineInv g.toSsdParams none none r.2 ∧
        MapInv g.toSsdParams (fun _ => False) r.2 ∧
        (∀ lpn, r.2.maptbl lpn = none ↔ s.maptbl lpn = none) ∧
        Collected g.toSsdParams force s r.2)
      (fun e => e = .noFreeLine ∧ freePages g.toSsdParams s < 2 * g.pgsPerLine) := by
  cases hsel : selectVictimLine g.toSsdParams force s with
  | none =>
      unfold doGc
      rw [hsel]
      exact ⟨h, hmap, fun _ => Iff.rfl, Or.inl ⟨hsel, rfl⟩⟩
  | some r =>
      obtain ⟨v, s₁⟩ := r
      obtain ⟨hline, htaken, ⟨lm, rfl⟩, hfree⟩ := selectVictimLine_spec h hsel
      have hsum := counts_add g.toSsdParams s.ssd.pg v
      have hnofree : countOf (linePages g.toSsdParams v) s.ssd.pg .free = 0 :=
        countOf_eq_zero.mpr htaken.used
      have hipcPos : 0 < countOf (linePages g.toSsdParams v) s.ssd.pg .invalid :=
        htaken.some_invalid
      have hstart := sweep_start hline ⟨hmap.mapped, hmap.bound⟩
      have hfree₀ : freePages g.toSsdParams (collecting v { s with lm := lm }) =
          freePages g.toSsdParams s := hfree
      refine Outcome.imp (E := Exhausted g.toSsdParams v (collecting v { s with lm := lm }))
        (doGc_rule hsel (hline.ids v) htaken.lt htaken.used
          (gcInv_sweepable cpp _ hpls htaken.lt) hstart ?_) (fun _ hr => hr) ?_
      · intro s₂ hs₂
        have hall : ∀ p ∈ linePages g.toSsdParams v, s₂.ssd.pg p = .free := by
          intro p hp
          exact hs₂.erasedPg p hp (Or.inl le_rfl)
        obtain ⟨hinv, hgain⟩ := markLineFree_inv hs₂.lines hall
        have hcopied : (copied g.toSsdParams v (collecting v { s with lm := lm })
            (Done g.toSsdParams g.flashpgsPerBlk 0 0 0)).card =
              countOf (linePages g.toSsdParams v) s.ssd.pg .valid := by
          apply congrArg Finset.card
          ext p
          simp only [mem_copied, Finset.mem_filter]
          constructor
          · rintro ⟨hp, -, hst⟩
            exact ⟨hp, hst⟩
          · rintro ⟨hp, hst⟩
            exact ⟨hp, done_all hp, hst⟩
        have hpages := hs₂.pages
        have hipc : (lm.lines v).ipc =
            countOf (linePages g.toSsdParams v) s.ssd.pg .invalid := htaken.ipc
        refine ⟨hinv, ⟨?_, hs₂.map.bound⟩, hs₂.domain,
          Or.inr ⟨(lm.lines v).ipc, by omega, by omega, hs₂.wfc, ?_⟩⟩
        · refine hs₂.map.mapped.congr (fun _ _ => Iff.rfl) ?_
          intro p _ hlive
          constructor
          · exact False.elim
          · rintro ⟨hp, -⟩
            rw [hall p hp] at hlive
            exact absurd hlive (by simp)
        · change freePages g.toSsdParams (markLineFree v s₂) = _
          omega
      · rintro e ⟨he, hle⟩
        have hstatus : countOf (linePages g.toSsdParams v)
            (collecting v { s with lm := lm }).ssd.pg .valid =
              countOf (linePages g.toSsdParams v) s.ssd.pg .valid := rfl
        exact ⟨he, by omega⟩

end Sweep

end NvmeVirt.ConvCollection
