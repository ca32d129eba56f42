import NvmeVirt.ConvReads
import NvmeVirt.NandTraffic

namespace NvmeVirt.CommandLog

open NvmeVirt.ConvAdmission
open NvmeVirt.ConvCommands
open NvmeVirt.ConvLineAccounting
open NvmeVirt.ConvMapping
open NvmeVirt.ConvProgress
open NvmeVirt.ConvReads
open NvmeVirt.ConvRuns
open NvmeVirt.ConventionalFtl
open NvmeVirt.FaultOutcome
open NvmeVirt.FlashGeometry
open NvmeVirt.NandDiscipline
open NvmeVirt.NandTraffic
open NvmeVirt.SequentialBlocks
open NvmeVirt.StatusCounts

section Log

variable {spp : SsdParams} {s s' : ConvFtl} {ncmd : NandCmd} {ncmds more : List NandCmd}
  {erased : Nat}

/-- The NAND commands issued from `s` to `s'`. -/
def issuedSince (s s' : ConvFtl) : List NandCmd := s'.ssd.ncmds.drop s.ssd.ncmds.length

theorem issuedSince_eq (h : s'.ssd.ncmds = s.ssd.ncmds ++ ncmds) : issuedSince s s' = ncmds := by
  rw [issuedSince, h, List.drop_left]

structure HostRead (spp : SsdParams) (ncmd : NandCmd) : Prop where
  type : ncmd.type = .userIo
  cmd : ncmd.cmd = .read
  size : 0 < ncmd.xferSize
  proper : Proper spp ncmd

/-- From `s` to `s'` there are only reads of the host. -/
def OnlyReads (spp : SsdParams) (s s' : ConvFtl) : Prop :=
  ∃ ncmds : List NandCmd, s' = ncmds.foldl ConvFtl.issue s ∧
    ∀ ncmd ∈ ncmds, HostRead spp ncmd

theorem foldl_issue_ncmds (ncmds : List NandCmd) (s : ConvFtl) :
    (ncmds.foldl ConvFtl.issue s).ssd.ncmds = s.ssd.ncmds ++ ncmds := by
  induction ncmds generalizing s with
  | nil => exact (List.append_nil _).symm
  | cons ncmd ncmds ih =>
      rw [List.foldl_cons, ih, ConvFtl.issue, List.append_assoc]
      rfl

theorem OnlyReads.refl (s : ConvFtl) : OnlyReads spp s s := ⟨[], rfl, by simp⟩

theorem OnlyReads.issue (h : OnlyReads spp s s') (hread : HostRead spp ncmd) :
    OnlyReads spp s (s'.issue ncmd) := by
  obtain ⟨ncmds, rfl, hreads⟩ := h
  refine ⟨ncmds ++ [ncmd], ?_, ?_⟩
  · rw [List.foldl_append, List.foldl_cons, List.foldl_nil]
  · intro n hn
    rcases List.mem_append.mp hn with hn | hn
    · exact hreads n hn
    · obtain rfl := List.mem_singleton.mp hn
      exact hread

theorem disciplined_of_onlyReads (h : Disciplined spp erased s) (hreads : OnlyReads spp s s') :
    Disciplined spp erased s' := by
  obtain ⟨ncmds, rfl, hreads⟩ := hreads
  induction ncmds generalizing s with
  | nil => exact h
  | cons ncmd ncmds ih =>
      have hread := hreads ncmd List.mem_cons_self
      exact ih (h.hostRead hread.type hread.cmd hread.proper)
        fun n hn => hreads n (List.mem_cons_of_mem _ hn)

end Log

section Reads

variable {spp : SsdParams} {s : ConvFtl}

/-- The pending group of `conv_read` names a LUN of the SSD and holds whole pages. -/
structure ReadRun.Sound (spp : SsdParams) (run : ReadRun) : Prop where
  lun : ∀ p, run.prevPpa = some p → p.ch < spp.nchs ∧ p.lun < spp.lunsPerCh
  size : ∃ n, run.xferSize = spp.pgsz * n

theorem issueRead_onlyReads {run : ReadRun} {s' : ConvFtl} (hrun : ReadRun.Sound spp run)
    (h : OnlyReads spp s s') : OnlyReads spp s (issueRead run s') := by
  unfold issueRead
  split
  · exact h
  · rename_i ppa hppa
    split
    · rename_i hpos
      obtain ⟨n, hsize⟩ := hrun.size
      have hn : 0 < n := Nat.pos_of_mul_pos_left (hsize ▸ hpos)
      exact h.issue ⟨rfl, rfl, hpos, hrun.lun ppa hppa, fun _ => ⟨n, hn, hsize⟩, by rintro ⟨⟩⟩
    · exact h

theorem readLocalLpn_onlyReads {acc : ReadRun × ConvFtl} (hrun : ReadRun.Sound spp acc.1)
    (h : OnlyReads spp s acc.2) (k : Nat) :
    ReadRun.Sound spp (readLocalLpn spp acc k).1 ∧
      OnlyReads spp s (readLocalLpn spp acc k).2 := by
  unfold readLocalLpn
  split
  · exact ⟨hrun, h⟩
  · rename_i cur hcur
    split
    · exact ⟨hrun, h⟩
    · rename_i hvalid
      rw [not_not] at hvalid
      split
      · obtain ⟨n, hn⟩ := hrun.size
        exact ⟨⟨hrun.lun, n + 1, by rw [hn]; rfl⟩, h⟩
      · refine ⟨⟨?_, 1, (Nat.mul_one _).symm⟩, issueRead_onlyReads hrun h⟩
        rintro p hp
        obtain rfl := Option.some.inj hp
        exact ⟨hvalid.1, hvalid.2.1⟩

theorem readPart_onlyReads (hvalid : ∀ k p, s.maptbl k = some p → ValidPpa spp p)
    (nrParts lpn last : Nat) : OnlyReads spp s (readPart spp nrParts lpn last s) := by
  have hfold : ∀ (ks : List Nat) (acc : ReadRun × ConvFtl), ReadRun.Sound spp acc.1 →
      OnlyReads spp s acc.2 → ReadRun.Sound spp (ks.foldl (readLocalLpn spp) acc).1 ∧
        OnlyReads spp s (ks.foldl (readLocalLpn spp) acc).2 := by
    intro ks
    induction ks with
    | nil => exact fun acc hrun h => ⟨hrun, h⟩
    | cons k ks ih =>
        intro acc hrun h
        obtain ⟨hrun', h'⟩ := readLocalLpn_onlyReads hrun h k
        exact ih _ hrun' h'
  have hstart : ReadRun.Sound spp { prevPpa := s.maptbl (lpn / nrParts), xferSize := 0 } :=
    ⟨fun p hp => ⟨(hvalid _ p hp).1, (hvalid _ p hp).2.1⟩, 0, rfl⟩
  obtain ⟨hrun, h⟩ := hfold _ (_, s) hstart (OnlyReads.refl s)
  exact issueRead_onlyReads hrun h

end Reads

section Namespaces

variable {g : Geometry} {cpp : ConvParams} {ns : ConvNs}

theorem readRound_log (h : Holds g.toSsdParams (Disciplined g.toSsdParams 0) ns)
    (last lpn : Nat) :
    Holds g.toSsdParams (Disciplined g.toSsdParams 0) (readRound g.toSsdParams last ns lpn) ∧
      OnlyReads g.toSsdParams (ns.ftls (lpn % ns.nrParts))
        ((readRound g.toSsdParams last ns lpn).ftls (lpn % ns.nrParts)) ∧
      ∀ part, part ≠ lpn % ns.nrParts →
        (readRound g.toSsdParams last ns lpn).ftls part = ns.ftls part := by
  have hvalid : ∀ k p, (ns.ftls (lpn % ns.nrParts)).maptbl k = some p →
      ValidPpa g.toSsdParams p :=
    fun k p hk => ((h.inv (lpn % ns.nrParts)).map.mapped.place k p hk).1
  have hreads := readPart_onlyReads hvalid ns.nrParts lpn last
  have hself : (readRound g.toSsdParams last ns lpn).ftls (lpn % ns.nrParts) =
      readPart g.toSsdParams ns.nrParts lpn last (ns.ftls (lpn % ns.nrParts)) :=
    Function.update_self ..
  have hother : ∀ part, part ≠ lpn % ns.nrParts →
      (readRound g.toSsdParams last ns lpn).ftls part = ns.ftls part :=
    fun part hne => Function.update_of_ne hne ..
  refine ⟨⟨?_, ?_⟩, hself ▸ hreads, hother⟩
  · intro part
    rcases eq_or_ne part (lpn % ns.nrParts) with rfl | hne
    · rw [hself]
      exact ftlInv_of_logged (h.inv _) (readPart_logged _ _ _ _ _)
    · rw [hother part hne]
      exact h.inv part
  · intro part
    rcases eq_or_ne part (lpn % ns.nrParts) with rfl | hne
    · rw [hself]
      exact disciplined_of_onlyReads (h.ftls _) hreads
    · rw [hother part hne]
      exact h.ftls part

/-- What a page written adds to the log of its partition: the program of a one-shot
page that it completes, whose buffer space is scheduled for release, and the commands of
garbage collection. -/
structure PageLog (spp : SsdParams) (part : Nat) (ns ns' : ConvNs) : Prop where
  parts : ns'.nrParts = ns.nrParts
  others : ∀ p, p ≠ part → ns'.ftls p = ns.ftls p
  program : ∃ (flush : Bool) (ppa : Ppa),
    CollectedSince ((ns.ftls part).ssd.ncmds ++
      if flush then [programCmd spp .userIo ppa] else []) (ns'.ftls part) ∧
    ns'.pending = ns.pending ++ if flush then [spp.pgsPerOneshotpg * spp.pgsz] else []

theorem writeLpn_log (hpls : g.plsPerLun = 1) (hdelay : cpp.enableGcDelay = true)
    (h : Holds g.toSsdParams (Disciplined g.toSsdParams 0) ns) {lpn : Nat}
    (hlpn : lpn / ns.nrParts < g.ttPgs) :
    Outcome (writeLpn g.toSsdParams cpp ns lpn)
      (fun ns' => Holds g.toSsdParams (Disciplined g.toSsdParams 0) ns' ∧
        PageLog g.toSsdParams (lpn % ns.nrParts) ns ns')
      (fun _ => True) := by
  refine Outcome.of_value ?_
  intro ns' hwrite
  have hholds := (writeLpn_holds hpls (disciplined_kept hpls hdelay) h hlpn).value hwrite
  refine ⟨hholds.1, ?_⟩
  obtain ⟨⟨flush, s'⟩, hlocal, hret⟩ := exists_of_bind_eq_ok hwrite
  cases hret
  obtain ⟨-, -, ppa, hsince⟩ := (writeLocalLpn_disciplined hpls hdelay
    (h.inv (lpn % ns.nrParts)) (h.ftls _) (lpn / ns.nrParts)).value hlocal
  refine ⟨rfl, fun p hne => Function.update_of_ne hne .., flush, ppa, ?_, ?_⟩
  · change CollectedSince _ (Function.update ns.ftls _ s' _)
    rw [Function.update_self]
    exact hsince
  · change (if flush = true then _ else _) = _
    split
    · rfl
    · exact (List.append_nil _).symm

end Namespaces

section Array

variable {g : Geometry} {s : ConvFtl} {k : Nat} {p : Ppa}

theorem used_below (h : LineInv g.toSsdParams none none s) (hpls : g.plsPerLun = 1)
    (hp : ValidPpa g.toSsdParams p) (hused : s.ssd.pg p ≠ .free) {q : Ppa}
    (hq : q ∈ blkPages g.toSsdParams p.blkAddr) (hle : q.pg ≤ p.pg) : s.ssd.pg q ≠ .free := by
  have hpl := mem_linePages_of_valid hpls hp
  have hql := mem_linePages_of_mem_blkPages hpl hq
  have hopen : ∀ io, p.blk = (s.getWp io).curline → s.ssd.pg q ≠ .free := by
    intro io hline
    have hfr := h.frontier io
    rw [hline] at hpl hql
    rw [ne_eq, hfr.free_iff q hql, not_and_or, not_not]
    rw [ne_eq, hfr.free_iff p hpl, not_and_or, not_not] at hused
    have hbefore := hused.resolve_right fun hnot => hnot fun hand => by cases hand.1
    have haddr := (mem_blkPages.mp hq).1
    simp only [Ppa.blkAddr, Prod.mk.injEq] at haddr
    obtain ⟨hch, hlun, -, -⟩ := haddr
    left
    -- Both pages stand in one block, so only their offsets matter.
    rcases Nat.lt_or_eq_of_le hle with hlt | heq
    · have hdigits := (lt_iff_digits g.pgsPerOneshotpg q.pg p.pg).mp hlt
      simp only [Before, hch, hlun] at hbefore ⊢
      omega
    · simp only [Before, hch, hlun, heq] at hbefore ⊢
      exact hbefore
  obtain ⟨role, hrole, -⟩ := exists_unique_role h hp.2.2.2.1
  cases role with
  | free => exact absurd (h.freeLines _ (List.mem_toFinset.mp hrole) p hpl) hused
  | full =>
      rw [h.fullLines _ (List.mem_toFinset.mp hrole) q hql]
      simp
  | victim => exact (h.victimLines _ ((mem_victim_iff h _).mp hrole)).1 q hql
  | host => exact hopen .userIo (Finset.mem_singleton.mp hrole)
  | gc => exact hopen .gcIo (Finset.mem_singleton.mp hrole)

theorem pg_lt_used (h : LineInv g.toSsdParams none none s) (hpls : g.plsPerLun = 1)
    (hp : ValidPpa g.toSsdParams p) (hused : s.ssd.pg p ≠ .free) :
    p.pg < used s p.blkAddr := by
  have hfree : countOf (blkPages g.toSsdParams p.blkAddr) s.ssd.pg .free ≤
      g.pgsPerBlk - (p.pg + 1) := by
    have hsub : (blkPages g.toSsdParams p.blkAddr).filter (fun q => s.ssd.pg q = .free) ⊆
        (Finset.Ico (p.pg + 1) g.pgsPerBlk).image fun pg =>
          { ch := p.ch, lun := p.lun, pl := p.pl, blk := p.blk, pg := pg } := by
      intro q hq
      obtain ⟨hq, hqfree⟩ := Finset.mem_filter.mp hq
      obtain ⟨haddr, hpg⟩ := mem_blkPages.mp hq
      simp only [Ppa.blkAddr, Prod.mk.injEq] at haddr
      have hlt : p.pg < q.pg := by
        by_contra hle
        exact used_below h hpls hp hused hq (not_lt.mp hle) hqfree
      refine Finset.mem_image.mpr ⟨q.pg, Finset.mem_Ico.mpr ⟨hlt, hpg⟩, ?_⟩
      exact Ppa.ext haddr.1.symm haddr.2.1.symm haddr.2.2.1.symm haddr.2.2.2.symm rfl
    have hcard := (Finset.card_le_card hsub).trans Finset.card_image_le
    rwa [Nat.card_Ico] at hcard
  have hsum := used_add_free h p.blkAddr
  have hlt := hp.2.2.2.2
  omega

/-- A mapped page has been programmed since the last erase of its block, unless its
one-shot page is not complete yet. -/
theorem mapped_on_array (hpls : g.plsPerLun = 1) (h : FtlInv g.toSsdParams s)
    (hd : Disciplined g.toSsdParams 0 s) (hk : s.maptbl k = some p) :
    (p.pg < used s p.blkAddr ∧
        used s p.blkAddr < (p.pg / g.pgsPerOneshotpg + 1) * g.pgsPerOneshotpg) ∨
      ∃ before after, nandLog g.toSsdParams s =
        before ++ .program p.blkAddr (p.pg / g.pgsPerOneshotpg) :: after ∧
          .erase p.blkAddr ∉ after := by
  rcases Nat.lt_or_ge (p.pg / g.pgsPerOneshotpg) (used s p.blkAddr / g.pgsPerOneshotpg)
    with hlt | hge
  · obtain ⟨blocks, hreplay, hblocks⟩ := hd.obeyed
    right
    exact exists_program_of_lt_level hreplay ((hblocks p.blkAddr).1 ▸ hlt)
  · obtain ⟨hvalid, hst, -, -⟩ := h.map.mapped.place k p hk
    refine Or.inl ⟨pg_lt_used h.lines hpls hvalid (by simp [hst]), ?_⟩
    exact Nat.lt_mul_of_div_lt (Nat.lt_succ_of_le hge) (pgsPerOneshotpg_pos g)

end Array

end NvmeVirt.CommandLog
