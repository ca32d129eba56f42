import NvmeVirt.ConventionalFtl
import NvmeVirt.StatusCounts

namespace NvmeVirt.ConvLineAccounting

open NvmeVirt.ConventionalFtl
open NvmeVirt.FaultOutcome
open NvmeVirt.FlashGeometry
open NvmeVirt.PriorityQueue
open NvmeVirt.StatusCounts
open NvmeVirt.WriteBuffer

def wpPage (wp : WritePointer) : Ppa :=
  { ch := wp.ch, lun := wp.lun, pl := wp.pl, blk := wp.blk, pg := wp.pg }

/-- Page `p` of a line comes before the page at the write pointer in the order
in which `advance_write_pointer` visits the line. -/
def Before (spp : SsdParams) (p : Ppa) (wp : WritePointer) : Prop :=
  p.pg / spp.pgsPerOneshotpg < wp.pg / spp.pgsPerOneshotpg ∨
    p.pg / spp.pgsPerOneshotpg = wp.pg / spp.pgsPerOneshotpg ∧
      (p.lun < wp.lun ∨ p.lun = wp.lun ∧
        (p.ch < wp.ch ∨ p.ch = wp.ch ∧
          p.pg % spp.pgsPerOneshotpg < wp.pg % spp.pgsPerOneshotpg))

/-- A write pointer stands inside its line, and the free pages of the line are
those that it has not passed. `taken` says that the page at the pointer has
been programmed already and the pointer has not been advanced yet. -/
structure Frontier (spp : SsdParams) (pg : Ppa → PgStatus) (wp : WritePointer)
    (taken : Prop) : Prop where
  ch_lt : wp.ch < spp.nchs
  lun_lt : wp.lun < spp.lunsPerCh
  pg_lt : wp.pg < spp.pgsPerBlk
  pl_eq : wp.pl = 0
  blk_eq : wp.blk = wp.curline
  free_iff : ∀ p ∈ linePages spp wp.curline,
    pg p = .free ↔ ¬ Before spp p wp ∧ ¬ (taken ∧ p = wpPage wp)

def isLine (a l : Nat) : Nat := if a = l then 1 else 0

@[simp] theorem isLine_self (a : Nat) : isLine a a = 1 := by simp [isLine]

theorem isLine_of_ne {a l : Nat} (h : a ≠ l) : isLine a l = 0 := by simp [isLine, h]

theorem count_cons_line (a l : Nat) (xs : List Nat) :
    (a :: xs).count l = xs.count l + isLine a l := by
  simp [List.count_cons, isLine]

/-- How many roles line `l` has: free, full, queued as a victim, open for the
host, open for garbage collection, or just taken as the victim. -/
def roleCount (victim : Option Nat) (s : ConvFtl) (l : Nat) : Nat :=
  s.lm.freeLineList.count l + s.lm.fullLineList.count l +
    min (s.lm.lines l).pos 1 +
    isLine s.wp.curline l + isLine s.gcWp.curline l +
    (if victim = some l then 1 else 0)

/-- The accounting invariant, while `victim` is being collected and while the
write pointer of `taken` still has to be advanced. The line counters of the
victim are exempt. -/
structure LineInv (spp : SsdParams) (victim : Option Nat) (taken : Option IoType)
    (s : ConvFtl) : Prop where
  roles : ∀ l, roleCount victim s l = if l < spp.blksPerPl then 1 else 0
  freeCnt : s.lm.freeLineCnt = s.lm.freeLineList.length
  fullCnt : s.lm.fullLineCnt = s.lm.fullLineList.length
  victimCnt : s.lm.victimLineCnt + 1 = s.lm.victimLinePq.size
  indexed : Indexed victimCallbacks s.lm.victimLinePq
  ids : ∀ l, (s.lm.lines l).id = l
  blkVpc : ∀ a, (s.ssd.blk a).vpc = countOf (blkPages spp a) s.ssd.pg .valid
  blkIpc : ∀ a, (s.ssd.blk a).ipc = countOf (blkPages spp a) s.ssd.pg .invalid
  lineVpc : ∀ l, victim ≠ some l →
    (s.lm.lines l).vpc = countOf (linePages spp l) s.ssd.pg .valid
  lineIpc : ∀ l, victim ≠ some l →
    (s.lm.lines l).ipc = countOf (linePages spp l) s.ssd.pg .invalid
  freeLines : ∀ l ∈ s.lm.freeLineList, ∀ p ∈ linePages spp l, s.ssd.pg p = .free
  fullLines : ∀ l ∈ s.lm.fullLineList, ∀ p ∈ linePages spp l, s.ssd.pg p = .valid
  victimLines : ∀ l, (s.lm.lines l).pos ≠ 0 →
    (∀ p ∈ linePages spp l, s.ssd.pg p ≠ .free) ∧
      ∃ p ∈ linePages spp l, s.ssd.pg p = .invalid
  frontier : ∀ io, Frontier spp s.ssd.pg (s.getWp io) (taken = some io)

theorem victimCallbacks_lawful : victimCallbacks.Lawful :=
  ⟨fun _ _ => rfl, fun _ _ _ => rfl, fun _ _ => rfl⟩

theorem eq_of_setpos_eq {x y : Line}
    (h : victimCallbacks.setpos x 0 = victimCallbacks.setpos y 0) :
    x.id = y.id ∧ x.ipc = y.ipc ∧ x.vpc = y.vpc := by
  simpa [victimCallbacks] using h

section Geometry

variable {spp : SsdParams}

theorem not_before_self (wp : WritePointer) : ¬ Before spp (wpPage wp) wp := by
  simp [Before, wpPage]

theorem Frontier.page_mem {pg : Ppa → PgStatus} {wp : WritePointer} {taken : Prop}
    (h : Frontier spp pg wp taken) : wpPage wp ∈ linePages spp wp.curline :=
  mem_linePages.mpr ⟨h.ch_lt, h.lun_lt, h.pl_eq, h.blk_eq, h.pg_lt⟩

theorem Frontier.page_free {pg : Ppa → PgStatus} {wp : WritePointer} {taken : Prop}
    (h : Frontier spp pg wp taken) (htaken : ¬ taken) : pg (wpPage wp) = .free :=
  (h.free_iff _ h.page_mem).mpr ⟨not_before_self wp, fun hand => htaken hand.1⟩

theorem Frontier.congr {pg pg' : Ppa → PgStatus} {wp : WritePointer} {taken : Prop}
    (h : Frontier spp pg wp taken)
    (hpg : ∀ p ∈ linePages spp wp.curline, pg' p = .free ↔ pg p = .free) :
    Frontier spp pg' wp taken :=
  { h with free_iff := fun p hp => (hpg p hp).trans (h.free_iff p hp) }

theorem victimPages_congr {pg pg' : Ppa → PgStatus} {l : Nat}
    (hsame : ∀ p ∈ linePages spp l, pg' p = pg p)
    (h : (∀ p ∈ linePages spp l, pg p ≠ .free) ∧ ∃ p ∈ linePages spp l, pg p = .invalid) :
    (∀ p ∈ linePages spp l, pg' p ≠ .free) ∧ ∃ p ∈ linePages spp l, pg' p = .invalid := by
  obtain ⟨hused, q, hq, hinv⟩ := h
  refine ⟨fun p hp => ?_, q, hq, ?_⟩
  · rw [hsame p hp]
    exact hused p hp
  · rw [hsame q hq]
    exact hinv

theorem counts_add (spp : SsdParams) (pg : Ppa → PgStatus) (l : Nat) :
    countOf (linePages spp l) pg .free + countOf (linePages spp l) pg .invalid +
      countOf (linePages spp l) pg .valid = spp.pgsPerLine := by
  have hfree : (linePages spp l).filter (fun p => ¬ pg p = .free) =
      (linePages spp l).filter (fun p => pg p = .invalid) ∪
        (linePages spp l).filter (fun p => pg p = .valid) := by
    ext p
    simp only [Finset.mem_filter, Finset.mem_union]
    cases pg p <;> simp
  have hdisj : Disjoint ((linePages spp l).filter (fun p => pg p = .invalid))
      ((linePages spp l).filter (fun p => pg p = .valid)) := by
    rw [Finset.disjoint_filter]
    intro p _ h
    simp [h]
  have hsplit := Finset.card_filter_add_card_filter_not
    (s := linePages spp l) (fun p => pg p = .free)
  rw [hfree, Finset.card_union_of_disjoint hdisj, card_linePages] at hsplit
  unfold countOf
  omega

end Geometry

section Sweep

variable {spp : SsdParams} {wp wp' : WritePointer}

theorem eq_wpPage_iff (hpl : wp.pl = 0) (hblk : wp.blk = wp.curline) {p : Ppa}
    (hp : p ∈ linePages spp wp.curline) :
    p = wpPage wp ↔
      p.pg / spp.pgsPerOneshotpg = wp.pg / spp.pgsPerOneshotpg ∧ p.lun = wp.lun ∧
        p.ch = wp.ch ∧ p.pg % spp.pgsPerOneshotpg = wp.pg % spp.pgsPerOneshotpg := by
  obtain ⟨-, -, hppl, hpblk, -⟩ := mem_linePages.mp hp
  constructor
  · rintro rfl
    exact ⟨rfl, rfl, rfl, rfl⟩
  · rintro ⟨hdiv, hlun, hch, hmod⟩
    have hpg : p.pg = wp.pg := by
      rw [← Nat.div_add_mod p.pg spp.pgsPerOneshotpg, hdiv, hmod, Nat.div_add_mod]
    exact Ppa.ext hch hlun (hppl.trans hpl.symm) (hpblk.trans hblk.symm) hpg

theorem Frontier.advance {pg : Ppa → PgStatus} (h : Frontier spp pg wp True)
    (hcur : wp'.curline = wp.curline) (hch : wp'.ch < spp.nchs)
    (hlun : wp'.lun < spp.lunsPerCh) (hpg : wp'.pg < spp.pgsPerBlk)
    (hpl : wp'.pl = wp.pl) (hblk : wp'.blk = wp.blk)
    (hsucc : ∀ p ∈ linePages spp wp.curline,
      Before spp p wp' ↔ Before spp p wp ∨ p = wpPage wp) :
    Frontier spp pg wp' False := by
  refine ⟨hch, hlun, hpg, hpl.trans h.pl_eq, ?_, ?_⟩
  · rw [hblk, h.blk_eq, hcur]
  · intro p hp
    rw [hcur] at hp
    rw [h.free_iff p hp, hsucc p hp]
    tauto

theorem succ_of_mod_ne_zero {n d : Nat} (h : (n + 1) % d ≠ 0) :
    (n + 1) / d = n / d ∧ (n + 1) % d = n % d + 1 := by
  have hdiv := Nat.succ_div_of_mod_ne_zero h
  have hn := Nat.div_add_mod n d
  have hs := Nat.div_add_mod (n + 1) d
  rw [hdiv] at hs
  exact ⟨hdiv, by omega⟩

theorem succ_of_mod_eq_zero {n d : Nat} (hd : 0 < d) (h : (n + 1) % d = 0) :
    (n + 1) / d = n / d + 1 ∧ n % d + 1 = d ∧
      (n + 1 - d) / d = n / d ∧ (n + 1 - d) % d = 0 := by
  have hdiv := Nat.succ_div_of_mod_eq_zero h
  have hn := Nat.div_add_mod n d
  have hs := Nat.div_add_mod (n + 1) d
  rw [hdiv, h, Nat.mul_add, Nat.mul_one] at hs
  have hback : n + 1 - d = d * (n / d) := by omega
  refine ⟨hdiv, by omega, ?_, ?_⟩
  · rw [hback, Nat.mul_div_cancel_left _ hd]
  · rw [hback, Nat.mul_mod_right]

section Order

variable (hpl : wp.pl = 0) (hblk : wp.blk = wp.curline) {p : Ppa}
  (hp : p ∈ linePages spp wp.curline)

include hpl hblk hp

theorem before_next_page (hmod : (wp.pg + 1) % spp.pgsPerOneshotpg ≠ 0) :
    Before spp p { wp with pg := wp.pg + 1 } ↔ Before spp p wp ∨ p = wpPage wp := by
  obtain ⟨hdiv, hrem⟩ := succ_of_mod_ne_zero hmod
  rw [eq_wpPage_iff hpl hblk hp]
  simp only [Before, hdiv, hrem]
  omega

theorem before_next_channel (hpos : 0 < spp.pgsPerOneshotpg)
    (hmod : (wp.pg + 1) % spp.pgsPerOneshotpg = 0) :
    Before spp p { wp with pg := wp.pg + 1 - spp.pgsPerOneshotpg, ch := wp.ch + 1 } ↔
      Before spp p wp ∨ p = wpPage wp := by
  obtain ⟨-, hlast, hdiv, hrem⟩ := succ_of_mod_eq_zero hpos hmod
  have hbound := Nat.mod_lt p.pg hpos
  rw [eq_wpPage_iff hpl hblk hp]
  simp only [Before, hdiv, hrem]
  omega

theorem before_next_lun (hpos : 0 < spp.pgsPerOneshotpg)
    (hmod : (wp.pg + 1) % spp.pgsPerOneshotpg = 0) (hch : wp.ch + 1 = spp.nchs) :
    Before spp p { wp with
        pg := wp.pg + 1 - spp.pgsPerOneshotpg, ch := 0, lun := wp.lun + 1 } ↔
      Before spp p wp ∨ p = wpPage wp := by
  obtain ⟨-, hlast, hdiv, hrem⟩ := succ_of_mod_eq_zero hpos hmod
  have hbound := Nat.mod_lt p.pg hpos
  obtain ⟨hpch, -⟩ := mem_linePages.mp hp
  rw [eq_wpPage_iff hpl hblk hp]
  simp only [Before, hdiv, hrem]
  omega

theorem before_next_wordline (hpos : 0 < spp.pgsPerOneshotpg)
    (hmod : (wp.pg + 1) % spp.pgsPerOneshotpg = 0) (hch : wp.ch + 1 = spp.nchs)
    (hlun : wp.lun + 1 = spp.lunsPerCh) :
    Before spp p { wp with pg := wp.pg + 1, ch := 0, lun := 0 } ↔
      Before spp p wp ∨ p = wpPage wp := by
  obtain ⟨hdiv, hlast, -, -⟩ := succ_of_mod_eq_zero hpos hmod
  have hbound := Nat.mod_lt p.pg hpos
  obtain ⟨hpch, hplun, -⟩ := mem_linePages.mp hp
  rw [eq_wpPage_iff hpl hblk hp]
  simp only [Before, hdiv, hmod]
  omega

theorem before_end_of_line (hpos : 0 < spp.pgsPerOneshotpg)
    (hmod : (wp.pg + 1) % spp.pgsPerOneshotpg = 0) (hch : wp.ch + 1 = spp.nchs)
    (hlun : wp.lun + 1 = spp.lunsPerCh) (hpg : wp.pg + 1 = spp.pgsPerBlk) :
    Before spp p wp ∨ p = wpPage wp := by
  obtain ⟨-, hlast, -, -⟩ := succ_of_mod_eq_zero hpos hmod
  have hbound := Nat.mod_lt p.pg hpos
  obtain ⟨hpch, hplun, -, -, hppg⟩ := mem_linePages.mp hp
  have hdiv : p.pg / spp.pgsPerOneshotpg ≤ wp.pg / spp.pgsPerOneshotpg :=
    Nat.div_le_div_right (by omega)
  rw [eq_wpPage_iff hpl hblk hp]
  simp only [Before]
  omega

end Order

end Sweep

/-- The pages still to be programmed: those of the free lines and what is left
of the two open lines. -/
def freePages (spp : SsdParams) (s : ConvFtl) : Nat :=
  spp.pgsPerLine * s.lm.freeLineList.length +
    countOf (linePages spp s.wp.curline) s.ssd.pg .free +
    countOf (linePages spp s.gcWp.curline) s.ssd.pg .free

section Roles

variable {spp : SsdParams} {victim : Option Nat} {taken : Option IoType} {s : ConvFtl}

theorem LineInv.of_same (h : LineInv spp victim taken s) {s' : ConvFtl}
    (hlm : s'.lm = s.lm) (hwp : s'.wp = s.wp) (hgc : s'.gcWp = s.gcWp)
    (hpg : s'.ssd.pg = s.ssd.pg) (hblk : s'.ssd.blk = s.ssd.blk) :
    LineInv spp victim taken s' := by
  obtain ⟨m, r, wp, gc, lm, wfc, ⟨pg, blk, cmds⟩⟩ := s
  obtain ⟨m', r', wp', gc', lm', wfc', ⟨pg', blk', cmds'⟩⟩ := s'
  dsimp only at hlm hwp hgc hpg hblk
  subst hlm hwp hgc hpg hblk
  exact ⟨h.roles, h.freeCnt, h.fullCnt, h.victimCnt, h.indexed, h.ids, h.blkVpc,
    h.blkIpc, h.lineVpc, h.lineIpc, h.freeLines, h.fullLines, h.victimLines,
    fun
    | .userIo => h.frontier .userIo
    | .gcIo => h.frontier .gcIo⟩

theorem LineInv.roleCount_le (h : LineInv spp victim taken s) (l : Nat) :
    roleCount victim s l ≤ 1 := by
  rw [h.roles l]
  split <;> omega

theorem LineInv.openLine (h : LineInv spp victim taken s) (io : IoType) :
    (s.getWp io).curline < spp.blksPerPl ∧
      (s.getWp io).curline ∉ s.lm.freeLineList ∧
      (s.getWp io).curline ∉ s.lm.fullLineList ∧
      (s.lm.lines (s.getWp io).curline).pos = 0 ∧
      victim ≠ some (s.getWp io).curline := by
  have hle := h.roleCount_le (s.getWp io).curline
  have hroles := h.roles (s.getWp io).curline
  have hopen : 1 ≤ isLine s.wp.curline (s.getWp io).curline +
      isLine s.gcWp.curline (s.getWp io).curline := by
    cases io <;> simp [ConvFtl.getWp]
  unfold roleCount at hle hroles
  refine ⟨?_, ?_, ?_, ?_, ?_⟩
  · by_contra hlt
    rw [if_neg hlt] at hroles
    omega
  · intro hmem
    have := List.count_pos_iff.mpr hmem
    omega
  · intro hmem
    have := List.count_pos_iff.mpr hmem
    omega
  · omega
  · intro heq
    rw [if_pos heq] at hle
    omega

theorem LineInv.wp_ne (h : LineInv spp victim taken s) :
    s.wp.curline ≠ s.gcWp.curline := by
  intro heq
  have hle := h.roleCount_le s.gcWp.curline
  unfold roleCount at hle
  rw [heq, isLine_self] at hle
  omega

theorem ne_of_mem_linePages {l m : Nat} {p q : Ppa} (hp : p ∈ linePages spp l)
    (hq : q ∈ linePages spp m) (hlm : l ≠ m) : p ≠ q := by
  rintro rfl
  exact hlm ((mem_linePages.mp hp).2.2.2.1.symm.trans (mem_linePages.mp hq).2.2.2.1)

theorem notMem_linePages {l m : Nat} {p : Ppa} (hp : p ∈ linePages spp l)
    (hlm : l ≠ m) : p ∉ linePages spp m :=
  fun hm => ne_of_mem_linePages hp hm hlm rfl

theorem mem_blkPages_of_line {l : Nat} {p : Ppa} (hp : p ∈ linePages spp l) :
    p ∈ blkPages spp p.blkAddr :=
  mem_blkPages.mpr ⟨rfl, (mem_linePages.mp hp).2.2.2.2⟩

theorem notMem_blkPages {a : Nat × Nat × Nat × Nat} {p : Ppa}
    (ha : a ≠ p.blkAddr) : p ∉ blkPages spp a :=
  fun hm => ha (mem_blkPages.mp hm).1.symm

end Roles

section Program

variable {spp : SsdParams} {victim : Option Nat} {s : ConvFtl}

/-- The state after `mark_page_valid` of the page at a write pointer. -/
def programmed (io : IoType) (s : ConvFtl) : ConvFtl :=
  let ppa := wpPage (s.getWp io)
  let blk := s.ssd.blk ppa.blkAddr
  let line := s.lm.lines ppa.blk
  { s with
    ssd := { s.ssd with
      pg := Function.update s.ssd.pg ppa .valid
      blk := Function.update s.ssd.blk ppa.blkAddr { blk with vpc := blk.vpc + 1 } }
    lm := s.lm.setLine ppa.blk { line with vpc := line.vpc + 1 } }

theorem markPageValid_eq (h : LineInv spp victim none s) (io : IoType) :
    markPageValid spp (wpPage (s.getWp io)) s = .ok (programmed io s) := by
  have hfr := h.frontier io
  have hfree : s.ssd.pg (wpPage (s.getWp io)) = .free := hfr.page_free (by simp)
  have hmem := hfr.page_mem
  obtain ⟨-, -, -, -, hv⟩ := h.openLine io
  have hblk : (wpPage (s.getWp io)).blk = (s.getWp io).curline := hfr.blk_eq
  have hblkVpc : (s.ssd.blk (wpPage (s.getWp io)).blkAddr).vpc < spp.pgsPerBlk := by
    rw [h.blkVpc, ← card_blkPages spp (wpPage (s.getWp io)).blkAddr]
    exact countOf_lt_card (mem_blkPages_of_line hmem) (by simp [hfree])
  have hlineVpc : (s.lm.lines (wpPage (s.getWp io)).blk).vpc < spp.pgsPerLine := by
    rw [hblk, h.lineVpc _ hv, ← card_linePages spp (s.getWp io).curline]
    exact countOf_lt_card hmem (by simp [hfree])
  simp [markPageValid, programmed, hfree, hblkVpc, hlineVpc]

theorem lines_setLine (lm : LineMgmt) (l m : Nat) (line : Line) :
    (lm.setLine l line).lines m = if m = l then line else lm.lines m := by
  simp [LineMgmt.setLine, LineMgmt.lines, Function.update_apply]

theorem indexed_setLine {lm : LineMgmt} {l : Nat} {line : Line}
    (h : Indexed victimCallbacks lm.victimLinePq)
    (hpos : line.pos = (lm.lines l).pos) :
    Indexed victimCallbacks (lm.setLine l line).victimLinePq := by
  apply h.of_node
  intro m
  change (Function.update lm.victimLinePq.node l line m).pos =
    (lm.victimLinePq.node m).pos
  by_cases hm : m = l
  · subst hm
    rw [Function.update_self]
    exact hpos
  · simp [hm]

theorem getWp_programmed (io io' : IoType) :
    (programmed io s).getWp io' = s.getWp io' := by
  cases io' <;> rfl

theorem lines_programmed (h : LineInv spp victim none s) (io : IoType) (l : Nat) :
    (programmed io s).lm.lines l =
      if l = (s.getWp io).curline then
        { s.lm.lines l with vpc := (s.lm.lines l).vpc + 1 }
      else s.lm.lines l := by
  have hblk : (wpPage (s.getWp io)).blk = (s.getWp io).curline := (h.frontier io).blk_eq
  simp only [programmed, lines_setLine, hblk]
  split
  · rename_i heq
    rw [heq]
  · rfl

theorem pg_programmed (h : LineInv spp victim none s) (io : IoType) {l : Nat}
    (hl : l ≠ (s.getWp io).curline) {p : Ppa} (hp : p ∈ linePages spp l) :
    (programmed io s).ssd.pg p = s.ssd.pg p :=
  Function.update_of_ne (ne_of_mem_linePages hp (h.frontier io).page_mem hl) _ _

theorem frontier_programmed (h : LineInv spp victim none s) (io io' : IoType) :
    Frontier spp (programmed io s).ssd.pg ((programmed io s).getWp io')
      (some io = some io') := by
  rw [getWp_programmed]
  have hfr := h.frontier io'
  by_cases hio : io' = io
  · subst hio
    refine { hfr with free_iff := ?_ }
    intro p hp
    simp only [true_and]
    by_cases hpw : p = wpPage (s.getWp io')
    · subst hpw
      simp [programmed]
    · have hold := hfr.free_iff p hp
      simp only [programmed, Function.update_of_ne hpw, hold, hpw, not_false_iff,
        and_true, reduceCtorEq, false_and]
  · have hne : (s.getWp io').curline ≠ (s.getWp io).curline := by
      have hwp := h.wp_ne
      cases io <;> cases io' <;> simp_all [ConvFtl.getWp, Ne.symm]
    have hother : Frontier spp (programmed io s).ssd.pg (s.getWp io') (none = some io') :=
      hfr.congr fun p hp => by rw [pg_programmed h io hne hp]
    refine { hother with free_iff := ?_ }
    intro p hp
    rw [hother.free_iff p hp]
    simp [Ne.symm hio]

theorem programmed_inv (h : LineInv spp victim none s) (io : IoType) :
    LineInv spp victim (some io) (programmed io s) := by
  have hfr := h.frontier io
  have hmem := hfr.page_mem
  have hfree : s.ssd.pg (wpPage (s.getWp io)) = .free := hfr.page_free (by simp)
  obtain ⟨-, hnotFree, hnotFull, hpos, hv⟩ := h.openLine io
  have hposEq : ∀ l, ((programmed io s).lm.lines l).pos = (s.lm.lines l).pos := by
    intro l
    rw [lines_programmed h]
    split <;> rfl
  refine ⟨?_, h.freeCnt, h.fullCnt, h.victimCnt, indexed_setLine h.indexed rfl,
    ?_, ?_, ?_, ?_, ?_, ?_, ?_, ?_, ?_⟩
  · intro l
    have hroles := h.roles l
    unfold roleCount at hroles ⊢
    rw [hposEq]
    exact hroles
  · intro l
    rw [lines_programmed h]
    split <;> exact h.ids l
  · intro a
    by_cases ha : a = (wpPage (s.getWp io)).blkAddr
    · subst ha
      have hgain := countOf_update_gain (f := s.ssd.pg) (c := .valid)
        (mem_blkPages_of_line hmem) (by simp [hfree])
      simp only [programmed, Function.update_self, hgain, h.blkVpc]
    · simp only [programmed, Function.update_of_ne ha, h.blkVpc,
        countOf_update_of_notMem (notMem_blkPages ha)]
  · intro a
    have hkeep : countOf (blkPages spp a) (programmed io s).ssd.pg .invalid =
        countOf (blkPages spp a) s.ssd.pg .invalid :=
      countOf_update_other (by simp [hfree]) (by simp)
    rw [hkeep, ← h.blkIpc]
    by_cases ha : a = (wpPage (s.getWp io)).blkAddr
    · subst ha
      simp only [programmed, Function.update_self]
    · simp only [programmed, Function.update_of_ne ha]
  · intro l hl
    rw [lines_programmed h]
    split
    · rename_i heq
      subst heq
      have hgain := countOf_update_gain (f := s.ssd.pg) (c := .valid) hmem
        (by simp [hfree])
      simp only [programmed, hgain, h.lineVpc _ hl]
    · rename_i hne
      rw [h.lineVpc l hl]
      exact countOf_congr fun p hp => (pg_programmed h io hne hp).symm
  · intro l hl
    have hkeep : countOf (linePages spp l) (programmed io s).ssd.pg .invalid =
        countOf (linePages spp l) s.ssd.pg .invalid :=
      countOf_update_other (by simp [hfree]) (by simp)
    rw [hkeep, ← h.lineIpc l hl, lines_programmed h]
    split <;> rfl
  · intro l hl p hp
    have hne : l ≠ (s.getWp io).curline := fun heq => hnotFree (heq ▸ hl)
    rw [pg_programmed h io hne hp]
    exact h.freeLines l hl p hp
  · intro l hl p hp
    have hne : l ≠ (s.getWp io).curline := fun heq => hnotFull (heq ▸ hl)
    rw [pg_programmed h io hne hp]
    exact h.fullLines l hl p hp
  · intro l hl
    rw [hposEq] at hl
    have hne : l ≠ (s.getWp io).curline := fun heq => hl (heq ▸ hpos)
    exact victimPages_congr (fun p hp => pg_programmed h io hne hp) (h.victimLines l hl)
  · exact frontier_programmed h io

theorem freePages_programmed (h : LineInv spp victim none s) (io : IoType) :
    freePages spp (programmed io s) + 1 = freePages spp s := by
  have hfr := h.frontier io
  have hlose := countOf_update_lose (c := PgStatus.valid) hfr.page_mem
    (hfr.page_free (by simp)) (by simp)
  have hne := h.wp_ne
  unfold freePages
  cases io with
  | userIo =>
      have hkeep : countOf (linePages spp s.gcWp.curline)
          (programmed .userIo s).ssd.pg .free =
            countOf (linePages spp s.gcWp.curline) s.ssd.pg .free :=
        countOf_congr fun p hp => pg_programmed h .userIo (Ne.symm hne) hp
      change spp.pgsPerLine * s.lm.freeLineList.length +
        countOf (linePages spp s.wp.curline) (programmed .userIo s).ssd.pg .free +
        countOf (linePages spp s.gcWp.curline) (programmed .userIo s).ssd.pg .free + 1 = _
      rw [hkeep]
      simp only [programmed, ConvFtl.getWp] at hlose ⊢
      omega
  | gcIo =>
      have hkeep : countOf (linePages spp s.wp.curline)
          (programmed .gcIo s).ssd.pg .free =
            countOf (linePages spp s.wp.curline) s.ssd.pg .free :=
        countOf_congr fun p hp => pg_programmed h .gcIo hne hp
      change spp.pgsPerLine * s.lm.freeLineList.length +
        countOf (linePages spp s.wp.curline) (programmed .gcIo s).ssd.pg .free +
        countOf (linePages spp s.gcWp.curline) (programmed .gcIo s).ssd.pg .free + 1 = _
      rw [hkeep]
      simp only [programmed, ConvFtl.getWp] at hlose ⊢
      omega

end Program

section Advance

variable {spp : SsdParams} {victim : Option Nat} {s : ConvFtl} {io : IoType}

theorem getWp_setWp (s : ConvFtl) (io io' : IoType) (wp : WritePointer) :
    (s.setWp io wp).getWp io' = if io' = io then wp else s.getWp io' := by
  cases io <;> cases io' <;> rfl

theorem LineInv.moveWithin (h : LineInv spp victim (some io) s) {wp : WritePointer}
    (hcur : wp.curline = (s.getWp io).curline)
    (hfr : Frontier spp s.ssd.pg wp False) :
    LineInv spp victim none (s.setWp io wp) ∧
      freePages spp (s.setWp io wp) = freePages spp s := by
  have hhost : (s.setWp io wp).wp.curline = s.wp.curline := by
    cases io
    · exact hcur
    · rfl
  have hgc : (s.setWp io wp).gcWp.curline = s.gcWp.curline := by
    cases io
    · rfl
    · exact hcur
  have hlm : (s.setWp io wp).lm = s.lm := by cases io <;> rfl
  have hssd : (s.setWp io wp).ssd = s.ssd := by cases io <;> rfl
  refine ⟨⟨?_, ?_, ?_, ?_, ?_, ?_, ?_, ?_, ?_, ?_, ?_, ?_, ?_, ?_⟩, ?_⟩
  · intro l
    rw [← h.roles l]
    simp only [roleCount, hhost, hgc, hlm]
  all_goals try rw [hlm]
  all_goals try rw [hssd]
  · exact h.freeCnt
  · exact h.fullCnt
  · exact h.victimCnt
  · exact h.indexed
  · exact h.ids
  · exact h.blkVpc
  · exact h.blkIpc
  · exact h.lineVpc
  · exact h.lineIpc
  · exact h.freeLines
  · exact h.fullLines
  · exact h.victimLines
  · intro io'
    rw [getWp_setWp]
    split
    · simpa using hfr
    · rename_i hne
      have hother := h.frontier io'
      simpa [Ne.symm hne] using hother
  · unfold freePages
    rw [hhost, hgc, hlm, hssd]

/-- What closing line `l` leaves: the line is on the full list or in the victim
queue, as its pages ask for, and all else is as in `s`. -/
structure Retired (spp : SsdParams) (s : ConvFtl) (l : Nat) (lm : LineMgmt) : Prop where
  freeLineList : lm.freeLineList = s.lm.freeLineList
  freeLineCnt : lm.freeLineCnt = s.lm.freeLineCnt
  fullCnt : lm.fullLineCnt = lm.fullLineList.length
  victimCnt : lm.victimLineCnt + 1 = lm.victimLinePq.size
  indexed : Indexed victimCallbacks lm.victimLinePq
  counters : ∀ m, (lm.lines m).id = (s.lm.lines m).id ∧
    (lm.lines m).ipc = (s.lm.lines m).ipc ∧ (lm.lines m).vpc = (s.lm.lines m).vpc
  roles : ∀ m, lm.fullLineList.count m + min (lm.lines m).pos 1 =
    s.lm.fullLineList.count m + min (s.lm.lines m).pos 1 +
      isLine l m
  fullLines : ∀ m ∈ lm.fullLineList, ∀ p ∈ linePages spp m, s.ssd.pg p = .valid
  victimLines : ∀ m, (lm.lines m).pos ≠ 0 →
    (∀ p ∈ linePages spp m, s.ssd.pg p ≠ .free) ∧
      ∃ p ∈ linePages spp m, s.ssd.pg p = .invalid

theorem LineInv.retire_full {taken : Option IoType} {l : Nat}
    (h : LineInv spp victim taken s)
    (hvalid : ∀ p ∈ linePages spp l, s.ssd.pg p = .valid) :
    Retired spp s l { s.lm with
      fullLineList := s.lm.fullLineList ++ [l]
      fullLineCnt := s.lm.fullLineCnt + 1 } := by
  refine ⟨rfl, rfl, by simp [h.fullCnt], h.victimCnt, h.indexed,
    fun m => ⟨rfl, rfl, rfl⟩, ?_, ?_, h.victimLines⟩
  · intro m
    have hone := count_cons_line l m []
    simp only [List.count_append, LineMgmt.lines, List.count_nil] at hone ⊢
    omega
  · intro m hm
    simp only [List.mem_append, List.mem_singleton] at hm
    rcases hm with hm | rfl
    · exact h.fullLines m hm
    · exact hvalid

theorem LineInv.retire_victim {taken : Option IoType} {l : Nat}
    (h : LineInv spp victim taken s) (hpos : (s.lm.lines l).pos = 0)
    (hused : ∀ p ∈ linePages spp l, s.ssd.pg p ≠ .free)
    (hinv : ∃ p ∈ linePages spp l, s.ssd.pg p = .invalid) :
    Retired spp s l { s.lm with
      victimLinePq := pqueueInsert victimCallbacks s.lm.victimLinePq l
      victimLineCnt := s.lm.victimLineCnt + 1 } := by
  obtain ⟨hidx, hsize, hrecord, hmember⟩ :=
    pqueueInsert_spec victimCallbacks_lawful (a := l) h.indexed hpos
  have hmember' : ∀ m,
      ((pqueueInsert victimCallbacks s.lm.victimLinePq l).node m).pos ≠ 0 ↔
        m = l ∨ (s.lm.lines m).pos ≠ 0 := hmember
  refine ⟨rfl, rfl, h.fullCnt, ?_, hidx, fun m => eq_of_setpos_eq (hrecord m), ?_,
    h.fullLines, ?_⟩
  · rw [hsize, h.victimCnt]
  · intro m
    have hm := hmember' m
    change s.lm.fullLineList.count m +
      min ((pqueueInsert victimCallbacks s.lm.victimLinePq l).node m).pos 1 = _
    by_cases hml : l = m
    · subst hml
      rw [isLine_self]
      omega
    · rw [isLine_of_ne hml]
      omega
  · intro m hm
    rcases (hmember' m).mp hm with rfl | hm
    · exact ⟨hused, hinv⟩
    · exact h.victimLines m hm

theorem not_before_zero (p : Ppa) (c : Nat) :
    ¬ Before spp p { curline := c, ch := 0, lun := 0, pg := 0, blk := c, pl := 0 } := by
  simp [Before]

/-- The state after the next free line `c` was opened for `io`. -/
def opened (io : IoType) (c : Nat) (lm : LineMgmt) (s : ConvFtl) : ConvFtl :=
  { s with lm :=
    { lm.listDelInit c with freeLineCnt := lm.freeLineCnt - 1 } }.setWp io
      { curline := c, ch := 0, lun := 0, pg := 0, blk := c, pl := 0 }

theorem frontier_opened {taken : Option IoType} (h : LineInv spp victim taken s)
    {lm : LineMgmt} {c : Nat} {rest : List Nat} (hfree : s.lm.freeLineList = c :: rest)
    (hnone : ∀ io', taken = some io' → io' = io) (io' : IoType) :
    Frontier spp s.ssd.pg ((opened io c lm s).getWp io') (none = some io') := by
  have hold := h.frontier io'
  rw [opened, getWp_setWp]
  split
  · refine ⟨by have := hold.ch_lt; simp only; omega, by have := hold.lun_lt; simp only; omega,
      by have := hold.pg_lt; simp only; omega, rfl, rfl, ?_⟩
    intro p hp
    have hpfree := h.freeLines c (by simp [hfree]) p hp
    simp [hpfree, not_before_zero]
  · rename_i hne
    have htaken : ¬ taken = some io' := fun ht => hne (hnone io' ht)
    have hsame : ({ s with lm := { lm.listDelInit c with
        freeLineCnt := lm.freeLineCnt - 1 } }).getWp io' = s.getWp io' := by
      cases io' <;> rfl
    rw [hsame]
    simpa [htaken] using hold

theorem opened_inv {taken : Option IoType} (h : LineInv spp victim taken s)
    {lm : LineMgmt} (hr : Retired spp s (s.getWp io).curline lm) {c : Nat}
    {rest : List Nat} (hfree : lm.freeLineList = c :: rest)
    (hnone : ∀ io', taken = some io' → io' = io) :
    LineInv spp victim none (opened io c lm s) := by
  have hfree' : s.lm.freeLineList = c :: rest := hr.freeLineList ▸ hfree
  have hcount : s.lm.freeLineList.count c = rest.count c + 1 := by simp [hfree']
  have hroles := h.roleCount_le c
  have hc : (s.getWp io).curline ≠ c ∧ lm.fullLineList.count c = 0 := by
    have hretired := hr.roles c
    unfold roleCount at hroles
    have hne : (s.getWp io).curline ≠ c := by
      rintro rfl
      exact (h.openLine io).2.1 (by simp [hfree'])
    rw [isLine_of_ne hne] at hretired
    exact ⟨hne, by omega⟩
  have hfull : lm.fullLineList.erase c = lm.fullLineList :=
    List.erase_of_not_mem (List.count_eq_zero.mp hc.2)
  have hlm : (opened io c lm s).lm =
      { lm with freeLineList := rest, freeLineCnt := lm.freeLineCnt - 1 } := by
    cases io <;> simp [opened, ConvFtl.setWp, LineMgmt.listDelInit, hfree, hfull]
  have hssd : (opened io c lm s).ssd = s.ssd := by cases io <;> rfl
  have hlines : ∀ m, (opened io c lm s).lm.lines m = lm.lines m := by
    intro m
    rw [hlm]
    rfl
  refine ⟨?_, ?_, ?_, ?_, ?_, ?_, ?_, ?_, ?_, ?_, ?_, ?_, ?_, ?_⟩
  · intro m
    have hm := h.roles m
    have hretired := hr.roles m
    rw [← hm]
    unfold roleCount
    rw [hlines, hlm, hfree', count_cons_line]
    cases io <;> simp only [opened, ConvFtl.setWp, ConvFtl.getWp] at hretired ⊢ <;> omega
  · rw [hlm]
    have hcnt := h.freeCnt
    simp only [hr.freeLineCnt, hcnt, hfree', List.length_cons, Nat.add_sub_cancel]
  · rw [hlm]
    exact hr.fullCnt
  · rw [hlm]
    exact hr.victimCnt
  · rw [hlm]
    exact hr.indexed
  · intro m
    rw [hlines, (hr.counters m).1, h.ids]
  · rw [hssd]
    exact h.blkVpc
  · rw [hssd]
    exact h.blkIpc
  · intro m hm
    rw [hlines, (hr.counters m).2.2, hssd]
    exact h.lineVpc m hm
  · intro m hm
    rw [hlines, (hr.counters m).2.1, hssd]
    exact h.lineIpc m hm
  · intro m hm
    rw [hlm] at hm
    rw [hssd]
    exact h.freeLines m (by simp [hfree', show m ∈ rest from hm])
  · rw [hlm, hssd]
    exact hr.fullLines
  · intro m hm
    rw [hlines] at hm
    rw [hssd]
    exact hr.victimLines m hm
  · intro io'
    rw [hssd]
    exact frontier_opened h hfree' hnone io'

theorem freePages_opened {taken : Option IoType} (h : LineInv spp victim taken s)
    {lm : LineMgmt} (hr : Retired spp s (s.getWp io).curline lm) {c : Nat}
    {rest : List Nat} (hfree : lm.freeLineList = c :: rest)
    (hused : ∀ p ∈ linePages spp (s.getWp io).curline, s.ssd.pg p ≠ .free) :
    freePages spp (opened io c lm s) = freePages spp s := by
  have hfree' : s.lm.freeLineList = c :: rest := hr.freeLineList ▸ hfree
  have hnew : countOf (linePages spp c) s.ssd.pg .free = spp.pgsPerLine := by
    rw [← card_linePages spp c]
    exact countOf_eq_card.mpr (h.freeLines c (by simp [hfree']))
  have hold : countOf (linePages spp (s.getWp io).curline) s.ssd.pg .free = 0 :=
    countOf_eq_zero.mpr hused
  have hrest : (opened io c lm s).lm.freeLineList = rest := by
    cases io <;> simp [opened, ConvFtl.setWp, LineMgmt.listDelInit, hfree]
  unfold freePages
  rw [hrest, hfree', List.length_cons, Nat.mul_add, Nat.mul_one]
  cases io <;> simp only [opened, ConvFtl.setWp, ConvFtl.getWp] at hold ⊢ <;> omega

/-- `advance_write_pointer` changes the line management and one pointer only. -/
def SamePages (io : IoType) (s s' : ConvFtl) : Prop :=
  ∃ lm wp, s' = { s with lm := lm }.setWp io wp

theorem SamePages.frame {s s' : ConvFtl} (h : SamePages io s s') :
    s'.maptbl = s.maptbl ∧ s'.rmap = s.rmap ∧ s'.ssd = s.ssd ∧ s'.wfc = s.wfc := by
  obtain ⟨lm, wp, rfl⟩ := h
  cases io <;> exact ⟨rfl, rfl, rfl, rfl⟩

/-- Where the pointer of `io` stands once it has been advanced: still in its line, or
in the first free line when all pages of its line were used. -/
def Advances (spp : SsdParams) (io : IoType) (s s' : ConvFtl) : Prop :=
  (s'.getWp io).curline = (s.getWp io).curline ∧
      s'.lm.freeLineList = s.lm.freeLineList ∨
    (∀ p ∈ linePages spp (s.getWp io).curline, s.ssd.pg p ≠ .free) ∧
      s.lm.freeLineList = (s'.getWp io).curline :: s'.lm.freeLineList

/-- The line of `io` is used up and there is no free line. -/
def Stuck (spp : SsdParams) (io : IoType) (s : ConvFtl) (e : Fault) : Prop :=
  e = .noFreeLine ∧ s.lm.freeLineList = [] ∧
    ∀ p ∈ linePages spp (s.getWp io).curline, s.ssd.pg p ≠ .free

theorem Stuck.freePages_le {e : Fault} (h : Stuck spp io s e) :
    freePages spp s ≤ spp.pgsPerLine := by
  obtain ⟨-, hnil, hused⟩ := h
  have hold := countOf_eq_zero.mpr hused
  have hhost := countOf_le_card (linePages spp s.wp.curline) s.ssd.pg .free
  have hgc := countOf_le_card (linePages spp s.gcWp.curline) s.ssd.pg .free
  rw [card_linePages] at hhost hgc
  simp only [freePages, hnil, List.length_nil, Nat.mul_zero, Nat.zero_add]
  cases io <;> simp only [ConvFtl.getWp] at hold <;> omega

theorem closeLine_retires (h : LineInv spp victim (some io) s)
    (hused : ∀ p ∈ linePages spp (s.getWp io).curline, s.ssd.pg p ≠ .free) :
    ∃ lm, Retired spp s (s.getWp io).curline lm ∧
      ∀ wpp, wpp.curline = (s.getWp io).curline →
        closeLine spp io wpp s = do
          nvmevAssert (wpp.blk < spp.blksPerPl) .advanceWritePointer
          let (curline, lm) ← getNextFreeLine lm
          let wpp := { wpp with curline := curline, blk := (lm.lines curline).id }
          nvmevAssert (wpp.blk < spp.blksPerPl) .advanceWritePointer
          nvmevAssert (wpp.pg = 0 ∧ wpp.lun = 0 ∧ wpp.ch = 0 ∧ wpp.pl = 0)
            .advanceWritePointer
          return { s with lm := lm }.setWp io wpp := by
  obtain ⟨-, -, -, hpos, hv⟩ := h.openLine io
  have hvpc := h.lineVpc _ hv
  have hipc := h.lineIpc _ hv
  have hfreeCount := countOf_eq_zero.mpr hused
  have hsum := counts_add spp s.ssd.pg (s.getWp io).curline
  rcases Nat.lt_or_ge (s.lm.lines (s.getWp io).curline).vpc spp.pgsPerLine with hlt | hge
  · have hipcPos : 0 < (s.lm.lines (s.getWp io).curline).ipc := by omega
    refine ⟨_, h.retire_victim hpos hused (exists_of_countOf_pos (hipc ▸ hipcPos)), ?_⟩
    intro wpp hcur
    simp only [closeLine, hcur, Nat.ne_of_lt hlt, if_false, nvmevAssert_of hlt,
      nvmevAssert_of hipcPos]
    rfl
  · have hfull : (s.lm.lines (s.getWp io).curline).vpc = spp.pgsPerLine := by omega
    have hipcZero : (s.lm.lines (s.getWp io).curline).ipc = 0 := by omega
    have hvalid : ∀ p ∈ linePages spp (s.getWp io).curline, s.ssd.pg p = .valid := by
      rw [← countOf_eq_card, card_linePages]
      omega
    refine ⟨_, h.retire_full hvalid, ?_⟩
    intro wpp hcur
    simp only [closeLine, hcur, hfull, if_true, nvmevAssert_of hipcZero]
    rfl

theorem closeLine_spec (h : LineInv spp victim (some io) s)
    (hused : ∀ p ∈ linePages spp (s.getWp io).curline, s.ssd.pg p ≠ .free) :
    Outcome (closeLine spp io { s.getWp io with ch := 0, lun := 0, pg := 0 } s)
      (fun s' => LineInv spp victim none s' ∧ SamePages io s s' ∧
        freePages spp s' = freePages spp s ∧ Advances spp io s s')
      (Stuck spp io s) := by
  obtain ⟨lm, hr, heq⟩ := closeLine_retires h hused
  have hfr := h.frontier io
  have hopen := (h.openLine io).1
  rw [heq { s.getWp io with ch := 0, lun := 0, pg := 0 } rfl]
  refine Outcome.bind (P := fun _ => True) (Outcome.of_eq_ok (nvmevAssert_of ?_ _) trivial) ?_
  · simp only [hfr.blk_eq]
    exact hopen
  rintro - -
  cases hfree : lm.freeLineList with
  | nil =>
      simp only [getNextFreeLine, hfree]
      exact ⟨rfl, hr.freeLineList ▸ hfree, hused⟩
  | cons c rest =>
      have hnext : getNextFreeLine lm =
          .ok (c, { lm.listDelInit c with freeLineCnt := lm.freeLineCnt - 1 }) := by
        simp only [getNextFreeLine, hfree]
        rfl
      have hid : (lm.lines c).id = c := ((hr.counters c).1).trans (h.ids c)
      have hcmem : c ∈ s.lm.freeLineList := by simp [← hr.freeLineList, hfree]
      have hc : c < spp.blksPerPl := by
        by_contra hge
        have hroles := h.roles c
        have hcount := List.count_pos_iff.mpr hcmem
        rw [if_neg hge] at hroles
        unfold roleCount at hroles
        omega
      have hzero : (0 = 0 ∧ 0 = 0 ∧ 0 = 0 ∧ (s.getWp io).pl = 0) :=
        ⟨rfl, rfl, rfl, hfr.pl_eq⟩
      rw [hnext]
      refine Outcome.of_eq_ok (a := opened io c lm s) ?_ ⟨?_, ?_, ?_, ?_⟩
      · change (do
          nvmevAssert ((lm.lines c).id < spp.blksPerPl) .advanceWritePointer
          nvmevAssert (0 = 0 ∧ 0 = 0 ∧ 0 = 0 ∧ (s.getWp io).pl = 0) .advanceWritePointer
          return { s with lm := { lm.listDelInit c with
              freeLineCnt := lm.freeLineCnt - 1 } }.setWp io
            { curline := c, ch := 0, lun := 0, pg := 0, blk := (lm.lines c).id
              pl := (s.getWp io).pl }) = _
        rw [hid, nvmevAssert_of hc, nvmevAssert_of hzero, hfr.pl_eq]
        rfl
      · exact opened_inv h hr hfree fun io' hio => (Option.some.inj hio).symm
      · exact ⟨_, _, rfl⟩
      · exact freePages_opened h hr hfree hused
      · refine Or.inr ⟨hused, ?_⟩
        have hlist := hr.freeLineList.symm.trans hfree
        cases io <;> simpa [opened, ConvFtl.setWp, ConvFtl.getWp, LineMgmt.listDelInit, hfree]
          using hlist

theorem advanceWritePointer_spec (hone : spp.pgsPerBlk =
      spp.pgsPerOneshotpg * spp.oneshotpgsPerBlk)
    (h : LineInv spp victim (some io) s) :
    Outcome (advanceWritePointer spp io s)
      (fun s' => LineInv spp victim none s' ∧ SamePages io s s' ∧
        freePages spp s' = freePages spp s ∧ Advances spp io s s')
      (Stuck spp io s) := by
  have hfr := h.frontier io
  simp only [eq_self] at hfr
  have hpl := hfr.pl_eq
  have hblk := hfr.blk_eq
  have hpg := hfr.pg_lt
  have hch := hfr.ch_lt
  have hlun := hfr.lun_lt
  have hpos : 0 < spp.pgsPerOneshotpg := by
    rcases Nat.eq_zero_or_pos spp.pgsPerOneshotpg with hzero | hpos
    · rw [hone, hzero] at hpg
      omega
    · exact hpos
  have within : ∀ wp : WritePointer, wp.curline = (s.getWp io).curline →
      Frontier spp s.ssd.pg wp False →
      Outcome (Except.ok (s.setWp io wp) : Except Fault ConvFtl)
        (fun s' => LineInv spp victim none s' ∧ SamePages io s s' ∧
          freePages spp s' = freePages spp s ∧ Advances spp io s s')
        (Stuck spp io s) := by
    intro wp hcur hwp
    obtain ⟨hinv, hpages⟩ := h.moveWithin hcur hwp
    refine ⟨hinv, ⟨s.lm, wp, rfl⟩, hpages, Or.inl ⟨?_, ?_⟩⟩
    · rw [getWp_setWp, if_pos rfl, hcur]
    · cases io <;> rfl
  unfold advanceWritePointer
  simp only [nvmevAssert_of hpg]
  change Outcome (if _ then _ else _) _ _
  split
  · rename_i hmod
    have hlt : (s.getWp io).pg + 1 < spp.pgsPerBlk := by
      have hne : (s.getWp io).pg + 1 ≠ spp.pgsPerBlk :=
        fun heq => hmod (by rw [heq, hone, Nat.mul_mod_right])
      omega
    exact within _ rfl (hfr.advance rfl hch hlun hlt rfl rfl
      fun p hp => before_next_page hpl hblk hp hmod)
  · rename_i hmod
    simp only [ne_eq, not_not] at hmod
    have hback : (s.getWp io).pg + 1 - spp.pgsPerOneshotpg < spp.pgsPerBlk := by omega
    simp only [nvmevAssert_of hch]
    change Outcome (if _ then _ else _) _ _
    split
    · rename_i hnext
      exact within _ rfl (hfr.advance rfl (by simp only at hnext ⊢; omega) hlun hback
        rfl rfl fun p hp => before_next_channel hpl hblk hp hpos hmod)
    · rename_i hchEnd
      simp only [ne_eq, not_not] at hchEnd
      simp only [nvmevAssert_of hlun]
      change Outcome (if _ then _ else _) _ _
      split
      · rename_i hnext
        exact within _ rfl (hfr.advance rfl (by simp only; omega)
          (by simp only at hnext ⊢; omega) hback rfl rfl
          fun p hp => before_next_lun hpl hblk hp hpos hmod hchEnd)
      · rename_i hlunEnd
        simp only [ne_eq, not_not] at hlunEnd
        have hword : (s.getWp io).pg + 1 - spp.pgsPerOneshotpg + spp.pgsPerOneshotpg =
            (s.getWp io).pg + 1 := by
          have hle := Nat.le_of_dvd (by omega) (Nat.dvd_of_mod_eq_zero hmod)
          omega
        simp only [hword]
        split
        · rename_i hnext
          exact within _ rfl (hfr.advance rfl (by simp only; omega) (by simp only; omega)
            (by simp only at hnext ⊢; omega) rfl rfl
            fun p hp => before_next_wordline hpl hblk hp hpos hmod hchEnd hlunEnd)
        · rename_i hpgEnd
          simp only [not_not] at hpgEnd
          apply closeLine_spec h
          intro p hp hpfree
          have hlast := before_end_of_line hpl hblk hp hpos hmod hchEnd hlunEnd hpgEnd
          have hopen := (hfr.free_iff p hp).mp hpfree
          tauto

end Advance

end NvmeVirt.ConvLineAccounting
