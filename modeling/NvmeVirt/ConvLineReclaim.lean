import NvmeVirt.ConvLineAccounting

namespace NvmeVirt.ConvLineReclaim

open NvmeVirt.ConventionalFtl
open NvmeVirt.ConvLineAccounting
open NvmeVirt.FaultOutcome
open NvmeVirt.FlashGeometry
open NvmeVirt.PriorityQueue
open NvmeVirt.StatusCounts
open NvmeVirt.WriteBuffer

variable {spp : SsdParams} {s : ConvFtl}

section Invalidate

/-- What `mark_page_invalid` makes of the line management when a page of line
`l` dies: a full line moves to the victim queue. -/
structure Invalidated (s : ConvFtl) (l : Nat) (lm : LineMgmt) : Prop where
  freeLineList : lm.freeLineList = s.lm.freeLineList
  freeLineCnt : lm.freeLineCnt = s.lm.freeLineCnt
  fullCnt : lm.fullLineCnt = lm.fullLineList.length
  victimCnt : lm.victimLineCnt + 1 = lm.victimLinePq.size
  indexed : Indexed victimCallbacks lm.victimLinePq
  counters : ∀ m, (lm.lines m).id = (s.lm.lines m).id ∧
    (lm.lines m).ipc = (s.lm.lines m).ipc + isLine l m ∧
    (lm.lines m).vpc + isLine l m = (s.lm.lines m).vpc
  roles : ∀ m, lm.fullLineList.count m + min (lm.lines m).pos 1 =
    s.lm.fullLineList.count m + min (s.lm.lines m).pos 1
  full : ∀ m ∈ lm.fullLineList, m ∈ s.lm.fullLineList ∧ m ≠ l
  queued : ∀ m, (lm.lines m).pos ≠ 0 →
    (s.lm.lines m).pos ≠ 0 ∨ m = l ∧ l ∈ s.lm.fullLineList

theorem counters_update (lines : Nat → Line) (m : Nat) {line : Line} {l : Nat}
    (hline : line = { lines l with
      ipc := (lines l).ipc + 1, vpc := (lines l).vpc - 1 })
    (hpos : 0 < (lines l).vpc) :
    (Function.update lines l line m).id = (lines m).id ∧
      (Function.update lines l line m).ipc = (lines m).ipc + isLine l m ∧
      (Function.update lines l line m).vpc + isLine l m = (lines m).vpc := by
  by_cases hm : m = l
  · subst hm
    rw [Function.update_self, isLine_self, hline]
    exact ⟨rfl, rfl, Nat.sub_add_cancel hpos⟩
  · simp [Function.update_of_ne hm, isLine_of_ne (Ne.symm hm)]

theorem invalidated_queued {l : Nat} (h : LineInv spp none none s)
    (hpos : (s.lm.lines l).pos ≠ 0) (hvpc : 0 < (s.lm.lines l).vpc) :
    Invalidated s l
      { s.lm.setLine l { s.lm.lines l with ipc := (s.lm.lines l).ipc + 1 } with
        victimLinePq := pqueueChangePriority victimCallbacks
          (s.lm.setLine l
            { s.lm.lines l with ipc := (s.lm.lines l).ipc + 1 }).victimLinePq
          ((s.lm.lines l).vpc - 1) l } := by
  have hnode : (s.lm.setLine l
      { s.lm.lines l with ipc := (s.lm.lines l).ipc + 1 }).victimLinePq.node l =
        { s.lm.lines l with ipc := (s.lm.lines l).ipc + 1 } := by
    simp [LineMgmt.setLine]
  have hidx : Indexed victimCallbacks (s.lm.setLine l
      { s.lm.lines l with ipc := (s.lm.lines l).ipc + 1 }).victimLinePq :=
    indexed_setLine h.indexed rfl
  obtain ⟨hidx', hsize, hrecord, hmember⟩ := pqueueChangePriority_spec
    victimCallbacks_lawful (a := l) ((s.lm.lines l).vpc - 1) hidx
    (by rw [hnode]; exact hpos)
  have hmember' : ∀ m, ((pqueueChangePriority victimCallbacks
      (s.lm.setLine l
        { s.lm.lines l with ipc := (s.lm.lines l).ipc + 1 }).victimLinePq
      ((s.lm.lines l).vpc - 1) l).node m).pos ≠ 0 ↔ (s.lm.lines m).pos ≠ 0 := by
    intro m
    refine (hmember m).trans ?_
    change ((s.lm.setLine l _).lines m).pos ≠ 0 ↔ _
    rw [lines_setLine]
    split
    · rename_i hm
      rw [hm]
    · rfl
  have hle := h.roleCount_le l
  unfold roleCount at hle
  refine ⟨rfl, rfl, h.fullCnt, ?_, hidx', ?_, ?_, ?_, ?_⟩
  · exact h.victimCnt.trans hsize.symm
  · intro m
    obtain ⟨hid, hipc, hvp⟩ := eq_of_setpos_eq (hrecord m)
    have hupd := counters_update s.lm.lines m rfl hvpc
    have hsame : Function.update (s.lm.setLine l
        { s.lm.lines l with ipc := (s.lm.lines l).ipc + 1 }).victimLinePq.node l
        (victimCallbacks.setpri
          { s.lm.lines l with ipc := (s.lm.lines l).ipc + 1 }
          ((s.lm.lines l).vpc - 1)) =
        Function.update s.lm.lines l (victimCallbacks.setpri
          { s.lm.lines l with ipc := (s.lm.lines l).ipc + 1 }
          ((s.lm.lines l).vpc - 1)) := by
      simp [LineMgmt.setLine, LineMgmt.lines]
    rw [hnode, hsame] at hid hipc hvp
    exact ⟨hid.trans hupd.1, hipc.trans hupd.2.1,
      (congrArg (· + isLine l m) hvp).trans hupd.2.2⟩
  · intro m
    have hm := hmember' m
    change s.lm.fullLineList.count m + min (LineMgmt.lines _ m).pos 1 = _
    simp only [LineMgmt.lines] at hm ⊢
    omega
  · intro m hm
    refine ⟨hm, ?_⟩
    rintro rfl
    have hcount := List.count_pos_iff.mpr (show m ∈ s.lm.fullLineList from hm)
    omega
  · intro m hm
    exact Or.inl ((hmember' m).mp hm)

theorem invalidated_open {l : Nat} (h : LineInv spp none none s)
    (hvpc : 0 < (s.lm.lines l).vpc) (hfull : l ∉ s.lm.fullLineList) :
    Invalidated s l (s.lm.setLine l
      { s.lm.lines l with
        ipc := (s.lm.lines l).ipc + 1, vpc := (s.lm.lines l).vpc - 1 }) := by
  have hlines : ∀ m, ((s.lm.setLine l
      { s.lm.lines l with
        ipc := (s.lm.lines l).ipc + 1, vpc := (s.lm.lines l).vpc - 1 }).lines m).pos =
        (s.lm.lines m).pos := by
    intro m
    rw [lines_setLine]
    split
    · rename_i hm
      rw [hm]
    · rfl
  refine ⟨rfl, rfl, h.fullCnt, h.victimCnt, indexed_setLine h.indexed rfl,
    fun m => counters_update s.lm.lines m rfl hvpc, ?_, ?_, ?_⟩
  · intro m
    rw [hlines]
    rfl
  · intro m hm
    refine ⟨hm, ?_⟩
    rintro rfl
    exact hfull hm
  · intro m hm
    rw [hlines] at hm
    exact Or.inl hm

theorem invalidated_full {l : Nat} (h : LineInv spp none none s)
    (hpos : (s.lm.lines l).pos = 0) (hvpc : 0 < (s.lm.lines l).vpc)
    (hfull : l ∈ s.lm.fullLineList) :
    let lm := (s.lm.setLine l
      { s.lm.lines l with
        ipc := (s.lm.lines l).ipc + 1, vpc := (s.lm.lines l).vpc - 1 }).listDelInit l
    Invalidated s l { lm with
      fullLineCnt := lm.fullLineCnt - 1
      victimLinePq := pqueueInsert victimCallbacks lm.victimLinePq l
      victimLineCnt := lm.victimLineCnt + 1 } := by
  intro lm
  have hle := h.roleCount_le l
  unfold roleCount at hle
  have hcount := List.count_pos_iff.mpr hfull
  have hnotFree : l ∉ s.lm.freeLineList := List.count_eq_zero.mp (by omega)
  have hlines : ∀ m, (lm.lines m).pos = (s.lm.lines m).pos := by
    intro m
    change ((s.lm.setLine l _).lines m).pos = _
    rw [lines_setLine]
    split
    · rename_i hm
      rw [hm]
    · rfl
  have hidx : Indexed victimCallbacks lm.victimLinePq := indexed_setLine h.indexed rfl
  obtain ⟨hidx', hsize, hrecord, hmember⟩ := pqueueInsert_spec victimCallbacks_lawful
    (a := l) hidx ((hlines l).trans hpos)
  have hmember' : ∀ m, ((pqueueInsert victimCallbacks lm.victimLinePq l).node m).pos ≠ 0 ↔
      m = l ∨ (s.lm.lines m).pos ≠ 0 := by
    intro m
    rw [← hlines]
    exact hmember m
  refine ⟨?_, rfl, ?_, ?_, hidx', ?_, ?_, ?_, ?_⟩
  · exact List.erase_of_not_mem hnotFree
  · have hlen := List.length_erase_of_mem hfull
    change s.lm.fullLineCnt - 1 = (s.lm.fullLineList.erase l).length
    rw [hlen, h.fullCnt]
  · exact (congrArg (· + 1) h.victimCnt).trans hsize.symm
  · intro m
    obtain ⟨hid, hipc, hvp⟩ := eq_of_setpos_eq (hrecord m)
    have hupd := counters_update s.lm.lines m rfl hvpc
    refine ⟨hid.trans hupd.1, hipc.trans hupd.2.1, ?_⟩
    exact (congrArg (· + isLine l m) hvp).trans hupd.2.2
  · intro m
    have hm := hmember' m
    change (s.lm.fullLineList.erase l).count m +
      min ((pqueueInsert victimCallbacks lm.victimLinePq l).node m).pos 1 = _
    by_cases hml : m = l
    · subst hml
      rw [List.count_erase_self]
      omega
    · rw [List.count_erase_of_ne hml]
      omega
  · intro m hm
    have hmem : m ∈ s.lm.fullLineList.erase l := hm
    refine ⟨List.mem_of_mem_erase hmem, ?_⟩
    rintro rfl
    have hself := List.count_pos_iff.mpr hmem
    rw [List.count_erase_self] at hself
    omega
  · intro m hm
    rcases (hmember' m).mp hm with rfl | hm
    · exact Or.inr ⟨rfl, hfull⟩
    · exact Or.inl hm

/-- The state after a valid page died, for the line management `lm` that its
line asks for. -/
def invalidatedFtl (ppa : Ppa) (lm : LineMgmt) (s : ConvFtl) : ConvFtl :=
  let blk := s.ssd.blk ppa.blkAddr
  { s with
    ssd := { s.ssd with
      pg := Function.update s.ssd.pg ppa .invalid
      blk := Function.update s.ssd.blk ppa.blkAddr
        { blk with ipc := blk.ipc + 1, vpc := blk.vpc - 1 } }
    lm := lm }

variable {ppa : Ppa} {lm : LineMgmt}

theorem invalidatedFtl_inv (h : LineInv spp none none s)
    (hmem : ppa ∈ linePages spp ppa.blk) (hst : s.ssd.pg ppa = .valid)
    (hlm : Invalidated s ppa.blk lm) :
    LineInv spp none none (invalidatedFtl ppa lm s) := by
  have hpg : (invalidatedFtl ppa lm s).ssd.pg =
      Function.update s.ssd.pg ppa .invalid := rfl
  have hne : s.ssd.pg ppa ≠ .invalid := by simp [hst]
  have hfreeIff : ∀ p, (invalidatedFtl ppa lm s).ssd.pg p = .free ↔
      s.ssd.pg p = .free := by
    intro p
    rw [hpg]
    by_cases hp : p = ppa
    · subst hp
      simp [hst]
    · rw [Function.update_of_ne hp]
  refine ⟨?_, ?_, hlm.fullCnt, hlm.victimCnt, hlm.indexed, ?_, ?_, ?_, ?_, ?_, ?_, ?_,
    ?_, ?_⟩
  · intro m
    have hroles := h.roles m
    have hsame := hlm.roles m
    rw [← hroles]
    unfold roleCount
    simp only [invalidatedFtl, hlm.freeLineList]
    omega
  · simp only [invalidatedFtl, hlm.freeLineCnt, hlm.freeLineList]
    exact h.freeCnt
  · intro m
    exact (hlm.counters m).1.trans (h.ids m)
  · intro a
    rw [hpg]
    by_cases ha : a = ppa.blkAddr
    · subst ha
      have hlose := countOf_update_lose (f := s.ssd.pg) (c := .invalid)
        (mem_blkPages_of_line hmem) hst (by simp)
      have hold := h.blkVpc ppa.blkAddr
      simp only [invalidatedFtl, Function.update_self]
      omega
    · simp only [invalidatedFtl, Function.update_of_ne ha, h.blkVpc,
        countOf_update_of_notMem (notMem_blkPages ha)]
  · intro a
    rw [hpg]
    by_cases ha : a = ppa.blkAddr
    · subst ha
      simp only [invalidatedFtl, Function.update_self, h.blkIpc,
        countOf_update_gain (mem_blkPages_of_line hmem) hne]
    · simp only [invalidatedFtl, Function.update_of_ne ha, h.blkIpc,
        countOf_update_of_notMem (notMem_blkPages ha)]
  · intro m hm
    have hcnt := (hlm.counters m).2.2
    have hold := h.lineVpc m hm
    rw [hpg]
    by_cases hml : ppa.blk = m
    · subst hml
      have hlose := countOf_update_lose (f := s.ssd.pg) (c := .invalid) hmem hst (by simp)
      rw [isLine_self] at hcnt
      simp only [invalidatedFtl]
      omega
    · rw [isLine_of_ne hml] at hcnt
      rw [countOf_update_of_notMem (notMem_linePages hmem hml)]
      exact hcnt.trans hold
  · intro m hm
    have hcnt := (hlm.counters m).2.1
    rw [hpg]
    by_cases hml : ppa.blk = m
    · subst hml
      rw [isLine_self] at hcnt
      rw [countOf_update_gain hmem hne]
      exact hcnt.trans (congrArg (· + 1) (h.lineIpc _ hm))
    · rw [isLine_of_ne hml] at hcnt
      rw [countOf_update_of_notMem (notMem_linePages hmem hml)]
      exact hcnt.trans (h.lineIpc m hm)
  · intro m hm p hp
    rw [hfreeIff]
    exact h.freeLines m (hlm.freeLineList ▸ hm) p hp
  · intro m hm p hp
    obtain ⟨hold, hml⟩ := hlm.full m hm
    rw [hpg, Function.update_of_ne (ne_of_mem_linePages hp hmem hml)]
    exact h.fullLines m hold p hp
  · intro m hm
    rcases hlm.queued m hm with hq | ⟨rfl, hfull⟩
    · obtain ⟨hused, q, hq, hinv⟩ := h.victimLines m hq
      refine ⟨fun p hp hfree => hused p hp ((hfreeIff p).mp hfree), q, hq, ?_⟩
      rw [hpg, Function.update_of_ne]
      · exact hinv
      · rintro rfl
        simp [hst] at hinv
    · refine ⟨?_, ppa, hmem, by simp [hpg]⟩
      intro p hp hfree
      have hvalid := h.fullLines _ hfull p hp
      rw [(hfreeIff p).mp hfree] at hvalid
      exact absurd hvalid (by simp)
  · intro io
    have hwp : (invalidatedFtl ppa lm s).getWp io = s.getWp io := by cases io <;> rfl
    rw [hwp]
    exact (h.frontier io).congr fun p _ => hfreeIff p

theorem freePages_invalidatedFtl (hst : s.ssd.pg ppa = .valid)
    (hlm : Invalidated s ppa.blk lm) :
    freePages spp (invalidatedFtl ppa lm s) = freePages spp s := by
  have hkeep : ∀ A, countOf A (invalidatedFtl ppa lm s).ssd.pg .free =
      countOf A s.ssd.pg .free :=
    fun A => countOf_update_other (by simp [hst]) (by simp)
  unfold freePages
  rw [hkeep, hkeep]
  simp only [invalidatedFtl, hlm.freeLineList]

theorem setLine_setLine (lm : LineMgmt) (l : Nat) (a b : Line) :
    (lm.setLine l a).setLine l b = lm.setLine l b := by
  simp [LineMgmt.setLine]

theorem mem_fullLineList (h : LineInv spp none none s) {l : Nat}
    (hl : l < spp.blksPerPl) (hp : 0 < spp.pgsPerLine)
    (hvpc : (s.lm.lines l).vpc = spp.pgsPerLine) : l ∈ s.lm.fullLineList := by
  rw [h.lineVpc l (by simp), ← card_linePages spp l, countOf_eq_card] at hvpc
  have hsome : ∃ p, p ∈ linePages spp l := by
    rw [← card_linePages spp l] at hp
    exact Finset.card_pos.mp hp
  obtain ⟨p, hpl⟩ := hsome
  have hroles := h.roles l
  rw [if_pos hl] at hroles
  unfold roleCount at hroles
  by_contra hnot
  have hfull := List.count_eq_zero.mpr hnot
  have hfree : s.lm.freeLineList.count l = 0 := by
    apply List.count_eq_zero.mpr
    intro hmem
    have hst := h.freeLines l hmem p hpl
    rw [hvpc p hpl] at hst
    exact absurd hst (by simp)
  have hpos : (s.lm.lines l).pos = 0 := by
    by_contra hne
    obtain ⟨-, q, hq, hinv⟩ := h.victimLines l hne
    rw [hvpc q hq] at hinv
    exact absurd hinv (by simp)
  have hopen : ∀ io, isLine (s.getWp io).curline l = 0 := by
    intro io
    apply isLine_of_ne
    rintro rfl
    have hst := (h.frontier io).page_free (by simp)
    rw [hvpc _ (h.frontier io).page_mem] at hst
    exact absurd hst (by simp)
  have hhost : isLine s.wp.curline l = 0 := hopen .userIo
  have hgc : isLine s.gcWp.curline l = 0 := hopen .gcIo
  simp only [reduceCtorEq, if_false] at hroles
  omega

theorem markPageInvalid_spec (h : LineInv spp none none s)
    (hblk : ppa.blk < spp.blksPerPl) (hmem : ppa ∈ linePages spp ppa.blk)
    (hst : s.ssd.pg ppa = .valid) :
    ∃ lm, markPageInvalid spp ppa s = .ok (invalidatedFtl ppa lm s) ∧
      Invalidated s ppa.blk lm := by
  have hvpc := h.lineVpc ppa.blk (by simp)
  have hipc := h.lineIpc ppa.blk (by simp)
  have hsum := counts_add spp s.ssd.pg ppa.blk
  have hvpcPos : 0 < (s.lm.lines ppa.blk).vpc := hvpc ▸ countOf_pos hmem hst
  have hblkVpc : 0 < (s.ssd.blk ppa.blkAddr).vpc ∧
      (s.ssd.blk ppa.blkAddr).vpc ≤ spp.pgsPerBlk := by
    rw [h.blkVpc, ← card_blkPages spp ppa.blkAddr]
    exact ⟨countOf_pos (mem_blkPages_of_line hmem) hst, countOf_le_card _ _ _⟩
  have hblkIpc : (s.ssd.blk ppa.blkAddr).ipc < spp.pgsPerBlk := by
    rw [h.blkIpc, ← card_blkPages spp ppa.blkAddr]
    exact countOf_lt_card (mem_blkPages_of_line hmem) (by simp [hst])
  have hlineIpc : (s.lm.lines ppa.blk).ipc < spp.pgsPerLine := by omega
  have hlineVpc : 0 < (s.lm.lines ppa.blk).vpc ∧
      (s.lm.lines ppa.blk).vpc ≤ spp.pgsPerLine := by omega
  have hfullIpc : (decide ((s.lm.lines ppa.blk).vpc = spp.pgsPerLine) = true) →
      (s.lm.lines ppa.blk).ipc = 0 := by
    intro hfull
    have hfull' := of_decide_eq_true hfull
    omega
  simp only [markPageInvalid, nvmevAssert_of hst, nvmevAssert_of hblkIpc,
    nvmevAssert_of hblkVpc, nvmevAssert_of hlineIpc,
    nvmevAssert_of hfullIpc, nvmevAssert_of hlineVpc]
  by_cases hpos : (s.lm.lines ppa.blk).pos = 0
  · by_cases hfull : (s.lm.lines ppa.blk).vpc = spp.pgsPerLine
    · refine ⟨_, ?_, invalidated_full h hpos hvpcPos
        (mem_fullLineList h hblk (by omega) hfull)⟩
      simp only [hpos, hfull, ne_eq, not_true, if_false, decide_true, if_true,
        setLine_setLine]
      rfl
    · have hnot : ppa.blk ∉ s.lm.fullLineList := by
        intro hin
        apply hfull
        rw [hvpc, ← card_linePages spp ppa.blk, countOf_eq_card]
        exact h.fullLines _ hin
      refine ⟨_, ?_, invalidated_open h hvpcPos hnot⟩
      simp only [hpos, hfull, ne_eq, not_true, if_false, decide_false,
        Bool.false_eq_true, setLine_setLine]
      rfl
  · have hfull : (s.lm.lines ppa.blk).vpc ≠ spp.pgsPerLine := by
      obtain ⟨-, q, hq, hinv⟩ := h.victimLines _ hpos
      have hcount := countOf_pos hq hinv
      omega
    refine ⟨_, ?_, invalidated_queued h hpos hvpcPos⟩
    simp only [hpos, hfull, ne_eq, not_false_iff, if_true, decide_false,
      Bool.false_eq_true, if_false]
    rfl

end Invalidate

section Collect

variable {victim : Nat}

/-- What is known of a line that `select_victim_line` has taken. -/
structure Taken (spp : SsdParams) (s : ConvFtl) (victim : Nat) : Prop where
  lt : victim < spp.blksPerPl
  ipc : (s.lm.lines victim).ipc = countOf (linePages spp victim) s.ssd.pg .invalid
  used : ∀ p ∈ linePages spp victim, s.ssd.pg p ≠ .free
  some_invalid : 0 < countOf (linePages spp victim) s.ssd.pg .invalid

theorem selectVictimLine_spec (h : LineInv spp none none s) {force : Bool}
    {s' : ConvFtl} (hsel : selectVictimLine spp force s = some (victim, s')) :
    LineInv spp (some victim) none s' ∧ Taken spp s' victim ∧
      (∃ lm, s' = { s with lm := lm }) ∧ freePages spp s' = freePages spp s := by
  unfold selectVictimLine at hsel
  cases hpeek : pqueuePeek s.lm.victimLinePq with
  | none => simp [hpeek] at hsel
  | some v =>
      simp only [hpeek] at hsel
      split at hsel
      · exact absurd hsel (by simp)
      obtain ⟨rfl, rfl⟩ := Prod.mk.inj (Option.some.inj hsel)
      obtain ⟨hqueued, hidx, hsize, hrecord, hmember⟩ :=
        pqueuePop_spec victimCallbacks_lawful h.indexed hpeek
      have hpos : (s.lm.lines v).pos ≠ 0 := hqueued
      have hrec : ∀ m, ((clearPos victimCallbacks
          (pqueuePop victimCallbacks s.lm.victimLinePq) v).node m).id =
            (s.lm.lines m).id ∧ _ ∧ _ := fun m => eq_of_setpos_eq (hrecord m)
      have hmem : ∀ m, ((clearPos victimCallbacks
          (pqueuePop victimCallbacks s.lm.victimLinePq) v).node m).pos ≠ 0 ↔
            m ≠ v ∧ (s.lm.lines m).pos ≠ 0 := hmember
      obtain ⟨hused, q, hq, hinv⟩ := h.victimLines v hpos
      have hlt : v < spp.blksPerPl := by
        by_contra hge
        have hroles := h.roles v
        rw [if_neg hge] at hroles
        unfold roleCount at hroles
        omega
      refine ⟨⟨?_, h.freeCnt, h.fullCnt, ?_, hidx, ?_, h.blkVpc, h.blkIpc, ?_, ?_,
        h.freeLines, h.fullLines, ?_, ?_⟩, ⟨hlt, ?_, hused, countOf_pos hq hinv⟩,
        ⟨_, rfl⟩, rfl⟩
      · intro m
        have hroles := h.roles m
        have hm := hmem m
        rw [← hroles]
        unfold roleCount
        simp only [reduceCtorEq, if_false, Option.some.injEq]
        simp only [LineMgmt.lines] at hm hpos ⊢
        by_cases hmv : v = m
        · subst hmv
          rw [if_pos rfl]
          omega
        · rw [if_neg hmv]
          omega
      · have hcnt := h.victimCnt
        simp only [clearPos]
        have hpop : 1 ≤ (pqueuePop victimCallbacks s.lm.victimLinePq).size := hidx.size_pos
        omega
      · intro m
        exact (hrec m).1.trans (h.ids m)
      · intro m _
        exact (hrec m).2.2.trans (h.lineVpc m (by simp))
      · intro m _
        exact (hrec m).2.1.trans (h.lineIpc m (by simp))
      · intro m hm
        exact h.victimLines m ((hmem m).mp hm).2
      · rintro (_ | _)
        · exact h.frontier .userIo
        · exact h.frontier .gcIo
      · exact (hrec v).2.1.trans (h.lineIpc v (by simp))

theorem selectVictimLine_eq_none (h : LineInv spp none none s)
    (hsel : selectVictimLine spp true s = none) : ∀ l, (s.lm.lines l).pos = 0 := by
  apply (pqueuePeek_eq_none h.indexed).mp
  unfold selectVictimLine at hsel
  cases hpeek : pqueuePeek s.lm.victimLinePq with
  | none => rfl
  | some v => simp [hpeek] at hsel

theorem pg_markBlockFree (ppa p : Ppa) :
    (markBlockFree spp ppa s).ssd.pg p =
      if p.blkAddr = ppa.blkAddr ∧ p.pg < spp.pgsPerBlk then .free
      else s.ssd.pg p := rfl

theorem pg_markBlockFree_of_ne {ppa p : Ppa} (h : p.blkAddr ≠ ppa.blkAddr) :
    (markBlockFree spp ppa s).ssd.pg p = s.ssd.pg p := by
  rw [pg_markBlockFree, if_neg fun hand => h hand.1]

theorem pg_markBlockFree_of_line {ppa p : Ppa} {l : Nat} (hp : p ∈ linePages spp l)
    (hl : l ≠ ppa.blk) : (markBlockFree spp ppa s).ssd.pg p = s.ssd.pg p := by
  apply pg_markBlockFree_of_ne
  intro heq
  simp only [Ppa.blkAddr, Prod.mk.injEq] at heq
  exact hl ((mem_linePages.mp hp).2.2.2.1.symm.trans heq.2.2.2)

theorem count_markBlockFree_self {ppa : Ppa} {b : PgStatus} (hb : b ≠ .free) :
    countOf (blkPages spp ppa.blkAddr) (markBlockFree spp ppa s).ssd.pg b = 0 := by
  apply countOf_eq_zero.mpr
  intro p hp
  rw [pg_markBlockFree, if_pos (mem_blkPages.mp hp)]
  exact Ne.symm hb

theorem count_markBlockFree_of_ne {ppa : Ppa} {a : Nat × Nat × Nat × Nat}
    (ha : a ≠ ppa.blkAddr) (b : PgStatus) :
    countOf (blkPages spp a) (markBlockFree spp ppa s).ssd.pg b =
      countOf (blkPages spp a) s.ssd.pg b := by
  apply countOf_congr
  intro p hp
  apply pg_markBlockFree_of_ne
  rw [(mem_blkPages.mp hp).1]
  exact ha

theorem markBlockFree_inv (h : LineInv spp (some victim) none s) {ppa : Ppa}
    (hblk : ppa.blk = victim) :
    LineInv spp (some victim) none (markBlockFree spp ppa s) ∧
      freePages spp (markBlockFree spp ppa s) = freePages spp s := by
  have hopen : ∀ io, (s.getWp io).curline ≠ ppa.blk := by
    intro io heq
    exact (h.openLine io).2.2.2.2 (by rw [heq, hblk])
  have hle := h.roleCount_le victim
  unfold roleCount at hle
  rw [if_pos rfl] at hle
  have hcount : ∀ l, l ≠ ppa.blk → ∀ b,
      countOf (linePages spp l) (markBlockFree spp ppa s).ssd.pg b =
        countOf (linePages spp l) s.ssd.pg b :=
    fun l hl b => countOf_congr fun p hp => pg_markBlockFree_of_line hp hl
  have hblkCnt : ∀ a, ((markBlockFree spp ppa s).ssd.blk a) =
      if a = ppa.blkAddr then
        { ipc := 0, vpc := 0, eraseCnt := (s.ssd.blk ppa.blkAddr).eraseCnt + 1 }
      else s.ssd.blk a := by
    intro a
    simp only [markBlockFree, Function.update_apply]
  refine ⟨⟨h.roles, h.freeCnt, h.fullCnt, h.victimCnt, h.indexed, h.ids, ?_, ?_, ?_, ?_,
    ?_, ?_, ?_, ?_⟩, ?_⟩
  · intro a
    rw [hblkCnt]
    split
    · rename_i ha
      rw [ha, count_markBlockFree_self (by simp)]
    · rename_i ha
      rw [count_markBlockFree_of_ne ha, h.blkVpc]
  · intro a
    rw [hblkCnt]
    split
    · rename_i ha
      rw [ha, count_markBlockFree_self (by simp)]
    · rename_i ha
      rw [count_markBlockFree_of_ne ha, h.blkIpc]
  · intro l hl
    rw [hcount l (fun heq => hl (by rw [heq, hblk]))]
    exact h.lineVpc l hl
  · intro l hl
    rw [hcount l (fun heq => hl (by rw [heq, hblk]))]
    exact h.lineIpc l hl
  · intro l hl p hp
    by_cases hlb : l = ppa.blk
    · rw [hlb, hblk] at hl
      have hpos := List.count_pos_iff.mpr (show victim ∈ s.lm.freeLineList from hl)
      omega
    · rw [pg_markBlockFree_of_line hp hlb]
      exact h.freeLines l hl p hp
  · intro l hl p hp
    by_cases hlb : l = ppa.blk
    · rw [hlb, hblk] at hl
      have hpos := List.count_pos_iff.mpr (show victim ∈ s.lm.fullLineList from hl)
      omega
    · rw [pg_markBlockFree_of_line hp hlb]
      exact h.fullLines l hl p hp
  · intro l hl
    by_cases hlb : l = ppa.blk
    · rw [hlb, hblk] at hl
      have hpos : (s.lm.lines victim).pos ≠ 0 := hl
      omega
    · exact victimPages_congr (fun p hp => pg_markBlockFree_of_line hp hlb)
        (h.victimLines l hl)
  · intro io
    have hwp : (markBlockFree spp ppa s).getWp io = s.getWp io := by cases io <;> rfl
    rw [hwp]
    apply (h.frontier io).congr
    intro p hp
    rw [pg_markBlockFree_of_line hp (hopen io)]
  · have hhost := hcount _ (hopen .userIo) .free
    have hgc := hcount _ (hopen .gcIo) .free
    unfold freePages
    exact congrArg₂ (· + ·) (congrArg₂ (· + ·) rfl hhost) hgc

theorem markLineFree_inv (h : LineInv spp (some victim) none s)
    (hfree : ∀ p ∈ linePages spp victim, s.ssd.pg p = .free) :
    LineInv spp none none (markLineFree victim s) ∧
      freePages spp (markLineFree victim s) = freePages spp s + spp.pgsPerLine := by
  have hlines : ∀ m, (markLineFree victim s).lm.lines m =
      if m = victim then { s.lm.lines victim with ipc := 0, vpc := 0 }
      else s.lm.lines m := fun m => lines_setLine _ _ _ _
  have hposEq : ∀ m, ((markLineFree victim s).lm.lines m).pos = (s.lm.lines m).pos := by
    intro m
    rw [hlines]
    split
    · rename_i hm
      rw [hm]
    · rfl
  have hzero : ∀ b, b ≠ PgStatus.free → countOf (linePages spp victim) s.ssd.pg b = 0 := by
    intro b hb
    apply countOf_eq_zero.mpr
    intro p hp
    rw [hfree p hp]
    exact Ne.symm hb
  refine ⟨⟨?_, ?_, h.fullCnt, h.victimCnt, indexed_setLine h.indexed rfl, ?_, h.blkVpc,
    h.blkIpc, ?_, ?_, ?_, h.fullLines, ?_, ?_⟩, ?_⟩
  · intro m
    rw [← h.roles m]
    unfold roleCount
    rw [hposEq]
    have hone := count_cons_line victim m []
    have hvictim : (if some victim = some m then 1 else 0) = isLine victim m := by
      simp [isLine]
    rw [hvictim]
    simp only [markLineFree, LineMgmt.setLine, List.count_append, hone, List.count_nil,
      reduceCtorEq, if_false]
    omega
  · simp only [markLineFree, LineMgmt.setLine, List.length_append, List.length_singleton,
      h.freeCnt]
  · intro m
    rw [hlines]
    split
    · rename_i hm
      rw [hm]
      exact h.ids victim
    · exact h.ids m
  · intro m _
    rw [hlines]
    split
    · rename_i hm
      rw [hm]
      exact (hzero .valid (by simp)).symm
    · rename_i hm
      exact h.lineVpc m (by simpa using Ne.symm hm)
  · intro m _
    rw [hlines]
    split
    · rename_i hm
      rw [hm]
      exact (hzero .invalid (by simp)).symm
    · rename_i hm
      exact h.lineIpc m (by simpa using Ne.symm hm)
  · intro m hm
    have hm' : m ∈ s.lm.freeLineList ++ [victim] := hm
    simp only [List.mem_append, List.mem_singleton] at hm'
    rcases hm' with hm' | rfl
    · exact h.freeLines m hm'
    · exact hfree
  · intro m hm
    rw [hposEq] at hm
    exact h.victimLines m hm
  · rintro (_ | _)
    · exact h.frontier .userIo
    · exact h.frontier .gcIo
  · simp only [freePages, markLineFree, LineMgmt.setLine, List.length_append,
      List.length_singleton, Nat.mul_add, Nat.mul_one]
    omega

end Collect

section Init

/-- The device after `conv_init_ftl`: lines 0 and 1 are open, all others free. -/
def initialFtl (spp : SsdParams) : ConvFtl :=
  { maptbl := fun _ => none
    rmap := fun _ => none
    wp := { curline := 0, ch := 0, lun := 0, pg := 0, blk := 0, pl := 0 }
    gcWp := { curline := 1, ch := 0, lun := 0, pg := 0, blk := 1, pl := 0 }
    lm :=
      { victimLinePq :=
          { size := 1
            d := fun _ => 0
            node := fun i => { id := i, ipc := 0, vpc := 0, pos := 0 } }
        freeLineList := List.range' 2 (spp.blksPerPl - 2)
        fullLineList := []
        freeLineCnt := spp.blksPerPl - 2
        victimLineCnt := 0
        fullLineCnt := 0 }
    wfc := initWriteFlowControl spp
    ssd :=
      { pg := fun _ => .free
        blk := fun _ => { ipc := 0, vpc := 0, eraseCnt := 0 }
        ncmds := [] } }

theorem convInitFtl_eq (hlines : spp.blksPerPl = spp.ttLines) (htwo : 2 ≤ spp.blksPerPl) :
    convInitFtl spp = .ok (initialFtl spp) := by
  obtain ⟨n, hn⟩ := Nat.exists_eq_add_of_le' htwo
  have hrange : List.range (n + 2) = 0 :: 1 :: List.range' 2 n := by
    rw [List.range_eq_range', List.range'_succ, List.range'_succ]
  rw [convInitFtl, initLines, nvmevAssert_of hlines]
  simp only [ok_bind, hn, hrange]
  simp [initialFtl, hn, freshFtl, LineMgmt.listDelInit, ConvFtl.setWp, LineMgmt.lines,
    prepareWritePointer, getNextFreeLine, pure, Except.pure]

theorem convInitFtl_ok (h : convInitFtl spp = .ok s) :
    spp.blksPerPl = spp.ttLines ∧ 2 ≤ spp.blksPerPl ∧ s = initialFtl spp := by
  have hlines : spp.blksPerPl = spp.ttLines := by
    by_contra hne
    simp [convInitFtl, initLines, nvmevAssert, hne, bind, Except.bind] at h
  have htwo : 2 ≤ spp.blksPerPl := by
    rw [convInitFtl, initLines, nvmevAssert_of hlines] at h
    rcases hcases : spp.blksPerPl with _ | _ | n
    · simp [hcases, prepareWritePointer, getNextFreeLine, freshFtl, bind, Except.bind,
        pure, Except.pure] at h
    · simp [hcases, prepareWritePointer, getNextFreeLine, freshFtl, bind, Except.bind,
        pure, Except.pure, List.range_succ, LineMgmt.listDelInit, ConvFtl.setWp] at h
    · omega
  rw [convInitFtl_eq hlines htwo] at h
  exact ⟨hlines, htwo, (Except.ok.inj h).symm⟩

theorem count_range' (l m n : Nat) :
    (List.range' m n).count l = if m ≤ l ∧ l < m + n then 1 else 0 := by
  split
  · rename_i hmem
    exact List.count_eq_one_of_mem List.nodup_range' (by simpa [List.mem_range'_1] using hmem)
  · rename_i hnot
    exact List.count_eq_zero.mpr (by simpa [List.mem_range'_1] using hnot)

theorem initialFtl_inv (htwo : 2 ≤ spp.blksPerPl) (hpos : 0 < spp.pgsPerLine) :
    LineInv spp none none (initialFtl spp) ∧
      freePages spp (initialFtl spp) = spp.pgsPerLine * spp.blksPerPl := by
  have hall : ∀ l, countOf (linePages spp l) (initialFtl spp).ssd.pg .free =
      spp.pgsPerLine := by
    intro l
    rw [← card_linePages spp l]
    exact countOf_eq_card.mpr fun _ _ => rfl
  have hnone : ∀ (A : Finset Ppa) b, b ≠ PgStatus.free →
      0 = countOf A (initialFtl spp).ssd.pg b := by
    intro A b hb
    exact (countOf_eq_zero.mpr fun _ _ => Ne.symm hb).symm
  have hdims : 0 < spp.nchs ∧ 0 < spp.lunsPerCh ∧ 0 < spp.pgsPerBlk := by
    have hne : spp.pgsPerLine ≠ 0 := by omega
    simp only [SsdParams.pgsPerLine, SsdParams.blksPerLine, SsdParams.ttLuns, ne_eq,
      Nat.mul_eq_zero, not_or] at hne
    omega
  have hfresh : ∀ c (taken : Prop), ¬ taken → Frontier spp (initialFtl spp).ssd.pg
      { curline := c, ch := 0, lun := 0, pg := 0, blk := c, pl := 0 } taken := by
    intro c taken htaken
    refine ⟨hdims.1, hdims.2.1, hdims.2.2, rfl, rfl, ?_⟩
    intro p _
    simp [initialFtl, not_before_zero, htaken]
  refine ⟨⟨?_, ?_, rfl, rfl, ⟨by simp [initialFtl], ?_, ?_⟩, fun _ => rfl,
    fun a => hnone _ _ (by simp), fun a => hnone _ _ (by simp),
    fun l _ => hnone _ _ (by simp), fun l _ => hnone _ _ (by simp), fun _ _ _ _ => rfl,
    ?_, ?_, ?_⟩, ?_⟩
  · intro l
    change (List.range' 2 (spp.blksPerPl - 2)).count l + 0 + 0 + isLine 0 l +
      isLine 1 l + 0 = _
    rw [count_range']
    unfold isLine
    split_ifs <;> omega
  · simp [initialFtl]
  · intro i hi his
    simp only [initialFtl] at his
    omega
  · intro a ha
    exact absurd rfl ha
  · intro l hl
    exact absurd hl (by simp [initialFtl])
  · intro l hl
    exact absurd rfl hl
  · rintro (_ | _)
    · exact hfresh 0 _ (by simp)
    · exact hfresh 1 _ (by simp)
  · have hfree : (initialFtl spp).lm.freeLineList.length = spp.blksPerPl - 2 := by
      simp [initialFtl]
    unfold freePages
    rw [hall, hall, hfree]
    obtain ⟨n, hn⟩ := Nat.exists_eq_add_of_le htwo
    rw [hn, Nat.add_sub_cancel_left, Nat.mul_add]
    omega

end Init

end NvmeVirt.ConvLineReclaim
