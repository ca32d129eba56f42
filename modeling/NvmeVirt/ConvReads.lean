import Mathlib.Algebra.BigOperators.Ring.Finset
import Mathlib.Data.List.Sort
import NvmeVirt.ConvAdmission
import NvmeVirt.ConvVictims
import NvmeVirt.PhaseRing

namespace NvmeVirt.ConvReads

open NvmeVirt.ConvAdmission
open NvmeVirt.ConvCollection
open NvmeVirt.ConvCommands
open NvmeVirt.ConvRuns
open NvmeVirt.ConventionalFtl
open NvmeVirt.FaultOutcome
open NvmeVirt.FlashGeometry
open NvmeVirt.PhaseRing

section Groups

variable {spp : SsdParams} {base s : ConvFtl} {run : ReadRun} {done ks : List Nat}

/-- The read `ncmd` is charged for the pages of the local LPNs `ks`, which lie in the
flash page that it names. -/
structure Charged (spp : SsdParams) (maptbl : Nat → Option Ppa) (ncmd : NandCmd)
    (ks : List Nat) : Prop where
  cmd : ncmd.type = .userIo ∧ ncmd.cmd = .read
  size : ncmd.xferSize = spp.pgsz * ks.length
  same : ∀ k ∈ ks, ∃ p, maptbl k = some p ∧ isSameFlashPage spp p ncmd.ppa = true

/-- The pages `ks` are aggregated in `run` and not yet read. -/
structure Pending (spp : SsdParams) (maptbl : Nat → Option Ppa) (run : ReadRun)
    (ks : List Nat) : Prop where
  size : run.xferSize = spp.pgsz * ks.length
  same : ∀ k ∈ ks, ∃ p q, maptbl k = some p ∧ run.prevPpa = some q ∧
    isSameFlashPage spp p q = true

/-- The reads issued for a partition since `base`, each with its pages. -/
def Issued (spp : SsdParams) (base s : ConvFtl) (groups : List (NandCmd × List Nat)) : Prop :=
  s.ssd.ncmds = base.ssd.ncmds ++ groups.map Prod.fst ∧
    ∀ group ∈ groups, Charged spp base.maptbl group.1 group.2

/-- After the pages of `done`: what has been read and what is pending are the mapped
pages among them, in order. -/
def Reading (spp : SsdParams) (base : ConvFtl) (done : List Nat) (acc : ReadRun × ConvFtl) :
    Prop :=
  Logged base acc.2 ∧ ∃ groups ks, Issued spp base acc.2 groups ∧
    Pending spp base.maptbl acc.1 ks ∧
    (groups.map Prod.snd).flatten ++ ks = done.filter fun k => (base.maptbl k).isSome

theorem Logged.maptbl (h : Logged base s) : s.maptbl = base.maptbl := by
  obtain ⟨ncmds, rfl⟩ := h
  rfl

theorem issueRead_issued (hpgsz : 0 < spp.pgsz) {groups : List (NandCmd × List Nat)}
    (h : Issued spp base s groups) (hpending : Pending spp base.maptbl run ks) :
    ∃ groups', Issued spp base (issueRead run s) groups' ∧
      (groups'.map Prod.snd).flatten = (groups.map Prod.snd).flatten ++ ks := by
  cases ks with
  | nil =>
      have hsize : run.xferSize = 0 := hpending.size
      have hsame : issueRead run s = s := by
        unfold issueRead
        split
        · rfl
        · rw [hsize, if_neg (Nat.lt_irrefl 0)]
      rw [hsame]
      exact ⟨groups, h, (List.append_nil _).symm⟩
  | cons k ks =>
      obtain ⟨p, q, -, hq, -⟩ := hpending.same k List.mem_cons_self
      have hpos : 0 < run.xferSize := by
        rw [hpending.size]
        exact Nat.mul_pos hpgsz (Nat.succ_pos _)
      obtain ⟨ncmd, hncmd⟩ : ∃ ncmd : NandCmd, ncmd =
          { type := .userIo, cmd := .read, xferSize := run.xferSize
            interleavePciDma := true, ppa := q } := ⟨_, rfl⟩
      have hissue : issueRead run s = s.issue ncmd := by
        unfold issueRead
        rw [hq]
        dsimp only
        rw [if_pos hpos, hncmd]
      refine ⟨groups ++ [(ncmd, k :: ks)], ⟨?_, ?_⟩, ?_⟩
      · rw [hissue, List.map_append, ← List.append_assoc, ← h.1]
        rfl
      · intro group hgroup
        rcases List.mem_append.mp hgroup with hold | hnew
        · exact h.2 group hold
        · obtain rfl := List.mem_singleton.mp hnew
          refine ⟨hncmd ▸ ⟨rfl, rfl⟩, ?_, ?_⟩
          · rw [hncmd]
            exact hpending.size
          · intro j hj
            obtain ⟨p', q', hp', hq', hsame⟩ := hpending.same j hj
            rw [hq] at hq'
            obtain rfl := Option.some.inj hq'
            exact ⟨p', hp', hncmd ▸ hsame⟩
      · rw [List.map_append, List.flatten_append]
        exact congrArg _ (List.append_nil _)

/-- A mapped page joins the pending pages of its flash page, or these are read first. -/
theorem Reading.next {acc : ReadRun × ConvFtl} (hpgsz : 0 < spp.pgsz)
    (hvalid : ∀ k p, base.maptbl k = some p → ValidPpa spp p)
    (h : Reading spp base done acc) (k : Nat) :
    Reading spp base (done ++ [k]) (readLocalLpn spp acc k) := by
  obtain ⟨hlogged, groups, ks, hissued, hpending, horder⟩ := h
  refine ⟨hlogged.trans (readLocalLpn_logged acc k), ?_⟩
  unfold readLocalLpn
  rw [Logged.maptbl hlogged, List.filter_append]
  cases hk : base.maptbl k with
  | none =>
      refine ⟨groups, ks, hissued, hpending, ?_⟩
      rw [horder, List.filter_cons_of_neg (by simp [hk]), List.filter_nil, List.append_nil]
  | some cur =>
      have hkept : [k].filter (fun k => (base.maptbl k).isSome) = [k] := by
        rw [List.filter_cons_of_pos (by simp [hk]), List.filter_nil]
      rw [hkept, ← horder]
      dsimp only
      rw [if_neg (not_not.mpr (hvalid k cur hk))]
      split
      · rename_i hsame
        obtain ⟨q, hq, hsame⟩ : ∃ q, acc.1.prevPpa = some q ∧ isSameFlashPage spp cur q = true := by
          cases hprev : acc.1.prevPpa with
          | none => simp [hprev] at hsame
          | some q => exact ⟨q, rfl, by simpa [hprev] using hsame⟩
        refine ⟨groups, ks ++ [k], hissued, ⟨?_, ?_⟩, (List.append_assoc _ _ _).symm⟩
        · rw [List.length_append, Nat.mul_add, ← hpending.size]
          exact congrArg _ (Nat.mul_one _).symm
        · intro j hj
          rcases List.mem_append.mp hj with hold | hnew
          · exact hpending.same j hold
          · obtain rfl := List.mem_singleton.mp hnew
            exact ⟨cur, q, hk, hq, hsame⟩
      · obtain ⟨groups', hissued', hflat⟩ := issueRead_issued hpgsz hissued hpending
        refine ⟨groups', [k], hissued', ⟨(Nat.mul_one _).symm, ?_⟩, by rw [hflat]⟩
        intro j hj
        obtain rfl := List.mem_singleton.mp hj
        exact ⟨cur, cur, hk, rfl, by simp [isSameFlashPage]⟩

theorem Reading.fold {acc : ReadRun × ConvFtl} (hpgsz : 0 < spp.pgsz)
    (hvalid : ∀ k p, base.maptbl k = some p → ValidPpa spp p) (ks : List Nat)
    (h : Reading spp base done acc) :
    Reading spp base (done ++ ks) (ks.foldl (readLocalLpn spp) acc) := by
  induction ks generalizing done acc with
  | nil =>
      rw [List.append_nil]
      exact h
  | cons k ks ih =>
      have hrest := ih (h.next hpgsz hvalid k)
      rwa [List.append_assoc] at hrest

/-- The pages that one stride of `conv_read` passes, as local LPNs. -/
def strideLpns (nrParts lpn last : Nat) : List Nat :=
  (List.range' lpn ((last - lpn) / nrParts + 1) nrParts).map (· / nrParts)

theorem readPart_issued (hpgsz : 0 < spp.pgsz)
    (hvalid : ∀ k p, s.maptbl k = some p → ValidPpa spp p) (nrParts lpn last : Nat) :
    ∃ groups, Issued spp s (readPart spp nrParts lpn last s) groups ∧
      (groups.map Prod.snd).flatten =
        (strideLpns nrParts lpn last).filter fun k => (s.maptbl k).isSome := by
  have hstart : Reading spp s [] ({ prevPpa := s.maptbl (lpn / nrParts), xferSize := 0 }, s) :=
    ⟨.refl s, [], [], ⟨(List.append_nil _).symm, by simp⟩, ⟨rfl, by simp⟩, rfl⟩
  have hfold := hstart.fold hpgsz hvalid (strideLpns nrParts lpn last)
  obtain ⟨-, groups, ks, hissued, hpending, horder⟩ := hfold
  obtain ⟨groups', hissued', hflat⟩ := issueRead_issued hpgsz hissued hpending
  exact ⟨groups', hissued', hflat.trans horder⟩

theorem Charged.length_le {maptbl : Nat → Option Ppa} {ncmd : NandCmd}
    (h : Charged spp maptbl ncmd ks) (hpos : 0 < spp.pgsPerFlashpg) (hnodup : ks.Nodup)
    (hinj : ∀ k k' p, maptbl k = some p → maptbl k' = some p → k = k') :
    ks.length ≤ spp.pgsPerFlashpg := by
  have hsub : ks.toFinset.card ≤ (Finset.range spp.pgsPerFlashpg).card := by
    refine Finset.card_le_card_of_injOn
      (fun k => (maptbl k).elim 0 fun p => p.pg % spp.pgsPerFlashpg) ?_ ?_
    · intro k hk
      obtain ⟨p, hp, -⟩ := h.same k (List.mem_toFinset.mp hk)
      simp only [hp, Option.elim_some, Finset.coe_range, Set.mem_Iio]
      exact Nat.mod_lt _ hpos
    · intro k hk k' hk' heq
      obtain ⟨p, hp, hsame⟩ := h.same k (List.mem_toFinset.mp hk)
      obtain ⟨p', hp', hsame'⟩ := h.same k' (List.mem_toFinset.mp hk')
      simp only [hp, hp', Option.elim_some] at heq
      simp only [isSameFlashPage, decide_eq_true_eq] at hsame hsame'
      have hpg : p.pg = p'.pg := by
        rw [← Nat.div_add_mod p.pg spp.pgsPerFlashpg, ← Nat.div_add_mod p'.pg spp.pgsPerFlashpg,
          hsame.2, hsame'.2, heq]
      have haddr := hsame.1.trans hsame'.1.symm
      simp only [Ppa.blkAddr, Prod.mk.injEq] at haddr
      have hpp : p = p' := Ppa.ext haddr.1 haddr.2.1 haddr.2.2.1 haddr.2.2.2 hpg
      exact hinj k k' p hp (hpp ▸ hp')
  rwa [List.toFinset_card_of_nodup hnodup, Finset.card_range] at hsub

end Groups

section Strides

variable {first last nrParts lpn : Nat}

theorem stride_eq (hparts : 0 < nrParts) (hlo : first ≤ lpn) (hhi : lpn < first + nrParts)
    (hle : lpn ≤ last) :
    List.range' lpn ((last - lpn) / nrParts + 1) nrParts =
      (List.range' first (last + 1 - first)).filter fun x => x % nrParts = lpn % nrParts := by
  refine List.Pairwise.eq_of_mem_iff (List.pairwise_lt_range' nrParts hparts)
    ((List.pairwise_lt_range' 1).filter _) fun x => ?_
  rw [List.mem_range', List.mem_filter, List.mem_range'_1, decide_eq_true_eq]
  constructor
  · rintro ⟨i, hi, rfl⟩
    have hbound : nrParts * i ≤ last - lpn :=
      (Nat.mul_le_mul_left nrParts (Nat.le_of_lt_succ hi)).trans (Nat.mul_div_le _ _)
    exact ⟨by omega, Nat.add_mul_mod_self_left _ _ _⟩
  · rintro ⟨hx, hmod⟩
    have hxq := Nat.div_add_mod x nrParts
    have hlq := Nat.div_add_mod lpn nrParts
    rw [hmod] at hxq
    -- a smaller LPN of the partition would lie below the first one of the command
    have hquot : lpn / nrParts ≤ x / nrParts := by
      by_contra hlt
      have hnext := Nat.mul_le_mul_left nrParts (Nat.succ_le_of_lt (not_le.mp hlt))
      rw [Nat.succ_eq_add_one, Nat.mul_add] at hnext
      omega
    obtain ⟨i, hi⟩ := Nat.exists_eq_add_of_le hquot
    rw [hi, Nat.mul_add] at hxq
    refine ⟨i, Nat.lt_succ_of_le ((Nat.le_div_iff_mul_le hparts).mpr ?_), by omega⟩
    rw [Nat.mul_comm]
    omega

theorem exists_round (hparts : 0 < nrParts) {x : Nat} (hlo : first ≤ x) (hhi : x ≤ last) :
    ∃ lpn ∈ List.range' first (min nrParts (last + 1 - first)), lpn % nrParts = x % nrParts := by
  have hmod := Nat.mod_lt (x - first) hparts
  have hle := Nat.mod_le (x - first) nrParts
  refine ⟨first + (x - first) % nrParts, ?_, ?_⟩
  · rw [List.mem_range'_1]
    omega
  · rw [Nat.add_mod_mod, Nat.add_sub_cancel' hlo]

end Strides

section Rounds

variable {spp : SsdParams} {ns : ConvNs} {cmd : RwCommand}

/-- One round of the outer loop of `conv_read`. -/
def readRound (spp : SsdParams) (last : Nat) (ns : ConvNs) (lpn : Nat) : ConvNs :=
  { ns with
    ftls := Function.update ns.ftls (lpn % ns.nrParts)
      (readPart spp ns.nrParts lpn last (ns.ftls (lpn % ns.nrParts))) }

theorem convRead_eq (hrange : endLpn spp cmd / ns.nrParts < spp.ttPgs) :
    convRead spp ns cmd = (true, (List.range' (startLpn spp cmd) (min ns.nrParts
      (endLpn spp cmd + 1 - startLpn spp cmd))).foldl (readRound spp (endLpn spp cmd)) ns) := by
  unfold convRead
  dsimp only
  rw [if_neg (not_le.mpr hrange)]
  rfl

theorem foldl_readRound_other (last : Nat) {lpns : List Nat} {part : Nat}
    (hother : ∀ lpn ∈ lpns, lpn % ns.nrParts ≠ part) :
    (lpns.foldl (readRound spp last) ns).ftls part = ns.ftls part := by
  induction lpns generalizing ns with
  | nil => rfl
  | cons lpn lpns ih =>
      have hrest : (lpns.foldl (readRound spp last) (readRound spp last ns lpn)).ftls part =
          (readRound spp last ns lpn).ftls part :=
        ih fun k hk => hother k (List.mem_cons_of_mem _ hk)
      rw [List.foldl_cons, hrest]
      exact Function.update_of_ne (Ne.symm (hother lpn List.mem_cons_self)) _ _

theorem foldl_readRound_self (last : Nat) {lpns : List Nat} {lpn : Nat}
    (hdistinct : lpns.Pairwise fun x y => x % ns.nrParts ≠ y % ns.nrParts) (hlpn : lpn ∈ lpns) :
    (lpns.foldl (readRound spp last) ns).ftls (lpn % ns.nrParts) =
      readPart spp ns.nrParts lpn last (ns.ftls (lpn % ns.nrParts)) := by
  induction lpns generalizing ns with
  | nil => cases hlpn
  | cons k lpns ih =>
      rw [List.pairwise_cons] at hdistinct
      rw [List.foldl_cons]
      rcases List.mem_cons.mp hlpn with rfl | hrest
      · have hlater : (lpns.foldl (readRound spp last) (readRound spp last ns lpn)).ftls
            (lpn % ns.nrParts) = (readRound spp last ns lpn).ftls (lpn % ns.nrParts) :=
          foldl_readRound_other last fun k hk => Ne.symm (hdistinct.1 k hk)
        exact hlater.trans (Function.update_self ..)
      · have hround : (lpns.foldl (readRound spp last) (readRound spp last ns k)).ftls
            (lpn % ns.nrParts) = readPart spp ns.nrParts lpn last
              ((readRound spp last ns k).ftls (lpn % ns.nrParts)) := ih hdistinct.2 hrest
        refine hround.trans (congrArg _ ?_)
        exact Function.update_of_ne (Ne.symm (hdistinct.1 lpn hrest)) _ _

def mappedLpns (spp : SsdParams) (ns : ConvNs) (cmd : RwCommand) (part : Nat) : List Nat :=
  (cmdLpns spp cmd).filter fun lpn =>
    lpn % ns.nrParts = part ∧ ((ns.ftls part).maptbl (lpn / ns.nrParts)).isSome

theorem convRead_issued (hparts : 0 < ns.nrParts) (hpgsz : 0 < spp.pgsz)
    (hvalid : ∀ part k p, (ns.ftls part).maptbl k = some p → ValidPpa spp p)
    (hrange : endLpn spp cmd / ns.nrParts < spp.ttPgs) (part : Nat) :
    ∃ groups, Issued spp (ns.ftls part) ((convRead spp ns cmd).2.ftls part) groups ∧
      (groups.map Prod.snd).flatten =
        (mappedLpns spp ns cmd part).map (· / ns.nrParts) := by
  rw [convRead_eq hrange]
  by_cases hround : ∃ lpn ∈ List.range' (startLpn spp cmd) (min ns.nrParts
      (endLpn spp cmd + 1 - startLpn spp cmd)), lpn % ns.nrParts = part
  · obtain ⟨lpn, hlpn, rfl⟩ := hround
    have hdistinct : (List.range' (startLpn spp cmd) (min ns.nrParts
        (endLpn spp cmd + 1 - startLpn spp cmd))).Pairwise
          fun x y => x % ns.nrParts ≠ y % ns.nrParts := by
      refine (List.pairwise_lt_range' 1).imp_of_mem ?_
      intro x y hx hy hlt
      rw [List.mem_range'_1] at hx hy
      exact mod_ne_of_close hlt (by omega)
    obtain ⟨groups, hissued, hflat⟩ := readPart_issued hpgsz (hvalid (lpn % ns.nrParts))
      ns.nrParts lpn (endLpn spp cmd)
    rw [foldl_readRound_self _ hdistinct hlpn]
    refine ⟨groups, hissued, hflat.trans ?_⟩
    rw [List.mem_range'_1] at hlpn
    have hle : lpn ≤ endLpn spp cmd := by omega
    rw [strideLpns, stride_eq hparts hlpn.1 (by omega) hle, List.filter_map,
      List.filter_filter, mappedLpns, cmdLpns]
    refine congrArg _ (List.filter_congr fun x _ => ?_)
    simp [Bool.and_comm]
  · have hother : ∀ lpn ∈ List.range' (startLpn spp cmd) (min ns.nrParts
        (endLpn spp cmd + 1 - startLpn spp cmd)), lpn % ns.nrParts ≠ part :=
      fun lpn hlpn heq => hround ⟨lpn, hlpn, heq⟩
    rw [foldl_readRound_other _ hother]
    refine ⟨[], ⟨(List.append_nil _).symm, by simp⟩, ?_⟩
    have hnone : mappedLpns spp ns cmd part = [] := by
      refine List.filter_eq_nil_iff.mpr fun x hx => ?_
      rw [cmdLpns, List.mem_range'_1] at hx
      intro htrue
      simp only [decide_eq_true_eq] at htrue
      obtain ⟨lpn, hlpn, hmod⟩ := exists_round hparts (show startLpn spp cmd ≤ x from hx.1)
        (show x ≤ endLpn spp cmd by omega)
      exact hother lpn hlpn (hmod.trans htrue.1)
    rw [hnone]
    rfl

theorem nodup_localLpns (part : Nat) :
    ((mappedLpns spp ns cmd part).map (· / ns.nrParts)).Nodup := by
  refine List.Nodup.map_on ?_ (List.Nodup.filter _ List.nodup_range')
  intro x hx y hy heq
  simp only [mappedLpns, List.mem_filter, decide_eq_true_eq] at hx hy
  have hxq := Nat.div_add_mod x ns.nrParts
  have hyq := Nat.div_add_mod y ns.nrParts
  rw [hx.2.1] at hxq
  rw [hy.2.1, ← heq] at hyq
  exact hxq.symm.trans hyq

end Rounds

section Totals

variable {spp : SsdParams} {ns ns' : ConvNs}

/-- The NAND commands that partition `part` has received from `ns` to `ns'`. -/
def newReads (ns ns' : ConvNs) (part : Nat) : List NandCmd :=
  (ns'.ftls part).ssd.ncmds.drop (ns.ftls part).ssd.ncmds.length

theorem Issued.newReads {part : Nat} {groups : List (NandCmd × List Nat)}
    (h : Issued spp (ns.ftls part) (ns'.ftls part) groups) :
    newReads ns ns' part = groups.map Prod.fst := by
  unfold ConvReads.newReads
  rw [h.1, List.drop_left]

theorem sum_sizes {maptbl : Nat → Option Ppa} {groups : List (NandCmd × List Nat)}
    (h : ∀ group ∈ groups, Charged spp maptbl group.1 group.2) :
    ((groups.map Prod.fst).map NandCmd.xferSize).sum =
      spp.pgsz * (groups.map Prod.snd).flatten.length := by
  induction groups with
  | nil => rfl
  | cons group groups ih =>
      have hrest := ih fun other hother => h other (List.mem_cons_of_mem _ hother)
      simp only [List.map_cons, List.sum_cons, List.flatten_cons, List.length_append, Nat.mul_add]
      rw [hrest, (h group List.mem_cons_self).size]

theorem sum_countP_mod {n : Nat} (hn : 0 < n) (Q : Nat → Nat → Bool) (xs : List Nat) :
    ∑ r ∈ Finset.range n, xs.countP (fun x => x % n = r ∧ Q r x) =
      xs.countP fun x => Q (x % n) x := by
  induction xs with
  | nil => simp
  | cons x xs ih =>
      have hone : ∑ r ∈ Finset.range n,
          (if decide (x % n = r ∧ Q r x = true) = true then 1 else 0) =
            if Q (x % n) x = true then 1 else 0 := by
        rw [Finset.sum_eq_single (x % n)]
        · simp
        · intro r _ hr
          simp [Ne.symm hr]
        · intro hout
          exact absurd (Finset.mem_range.mpr (Nat.mod_lt x hn)) hout
      simp only [List.countP_cons, Finset.sum_add_distrib]
      rw [ih, hone]

end Totals

section Results

variable {g : Geometry} {cpp : ConvParams} {nrParts : Nat} {ns₀ ns ns' : ConvNs}

theorem convIoStep_nsInv (hpls : g.plsPerLun = 1) (h : NsInv g.toSsdParams ns)
    {event : ConvIoEvent} (hstep : convIoStep g.toSsdParams cpp ns event = .ok ns') :
    NsInv g.toSsdParams ns' ∧ ns'.nrParts = ns.nrParts := by
  cases event with
  | release i =>
      obtain ⟨hinv, hext⟩ := (convStep_spec cpp hpls h (.release i)).value hstep
      exact ⟨hinv, hext.1⟩
  | cmd cmd =>
      obtain ⟨⟨status, ns₁⟩, hproc, hret⟩ := exists_of_bind_eq_ok hstep
      cases hret
      unfold convProcNvmeIoCmd at hproc
      cases hop : cmd.opcode with
      | write =>
          rw [hop] at hproc
          obtain ⟨⟨ok, ns₂⟩, hwrite, hret⟩ := exists_of_bind_eq_ok hproc
          cases hret
          obtain ⟨hinv, hext⟩ := (convWrite_spec cpp hpls h cmd.rw).value hwrite
          exact ⟨hinv, hext.1⟩
      | read =>
          rw [hop] at hproc
          cases hproc
          have hlogged : NsLogged ns (convRead g.toSsdParams ns cmd.rw).2 :=
            convRead_logged ns cmd.rw
          exact ⟨fun part => ftlInv_of_logged (h part) (hlogged.ftls part), hlogged.nrParts⟩
      | flush =>
          rw [hop] at hproc
          cases hproc
          exact ⟨h, rfl⟩
      | other code =>
          rw [hop] at hproc
          cases hproc
          exact ⟨h, rfl⟩

theorem convIoRun_nsInv {events : List ConvIoEvent} (hpls : g.plsPerLun = 1)
    (h : NsInv g.toSsdParams ns)
    (hrun : convIoRun g.toSsdParams cpp ns events = .ok ns') :
    NsInv g.toSsdParams ns' ∧ ns'.nrParts = ns.nrParts := by
  refine Outcome.value (P := fun ns' => NsInv g.toSsdParams ns' ∧ ns'.nrParts = ns.nrParts)
    (E := fun _ => True) ?_ hrun
  refine Outcome.foldlM ⟨h, rfl⟩ ?_
  rintro event - ns₁ ⟨h₁, hparts⟩
  cases hstep : convIoStep g.toSsdParams cpp ns₁ event with
  | error e => trivial
  | ok ns₂ =>
      obtain ⟨h₂, hparts₂⟩ := convIoStep_nsInv hpls h₁ hstep
      exact ⟨h₂, hparts₂.trans hparts⟩

end Results

end NvmeVirt.ConvReads
