import Mathlib.Algebra.GroupWithZero.Nat
import Mathlib.Algebra.BigOperators.Group.Finset.Piecewise
import NvmeVirt.ConvRuns

namespace NvmeVirt.ConvBuffer

open NvmeVirt.ConvMapping
open NvmeVirt.ConvRuns
open NvmeVirt.ConventionalFtl
open NvmeVirt.FaultOutcome
open NvmeVirt.FlashGeometry
open NvmeVirt.WriteBuffer

section HostLine

variable {spp : SsdParams} {cpp : ConvParams} {s : ConvFtl}

def KeepsHost (s : ConvFtl) (x : Except Fault ConvFtl) : Prop :=
  Outcome x (fun s' => s'.wp = s.wp) fun _ => True

theorem assert_bind {β : Type} {c : Prop} [Decidable c] {site : Site}
    {f : Unit → Except Fault β} {Q : β → Prop} (h : c → Outcome (f ()) Q fun _ => True) :
    Outcome (nvmevAssert c site >>= f) Q fun _ => True := by
  rw [nvmevAssert]
  split
  · next hc => exact h hc
  · trivial

theorem setMaptblEnt_keeps (lpn : Nat) (ppa : Ppa) :
    KeepsHost s (setMaptblEnt spp lpn ppa s) :=
  assert_bind fun _ => Outcome.pure rfl

theorem setRmapEnt_keeps (lpn : Option Nat) (ppa : Ppa) :
    KeepsHost s (setRmapEnt spp lpn ppa s) :=
  assert_bind fun _ => Outcome.pure rfl

theorem markPageValid_keeps (ppa : Ppa) : KeepsHost s (markPageValid spp ppa s) :=
  assert_bind fun _ => assert_bind fun _ => assert_bind fun _ => Outcome.pure rfl

theorem markPageInvalid_keeps (ppa : Ppa) : KeepsHost s (markPageInvalid spp ppa s) :=
  assert_bind fun _ => assert_bind fun _ => assert_bind fun _ => assert_bind fun _ =>
    assert_bind fun _ => assert_bind fun _ => Outcome.pure rfl

theorem KeepsHost.bind {x : Except Fault ConvFtl} {f : ConvFtl → Except Fault ConvFtl}
    (hx : KeepsHost s x) (hf : ∀ s', KeepsHost s' (f s')) : KeepsHost s (x >>= f) := by
  refine Outcome.bind hx fun s' hs' => (hf s').imp ?_ fun _ _ => trivial
  intro s'' hs''
  exact hs''.trans hs'

theorem KeepsHost.foldlM {α : Type} {xs : List α} {f : ConvFtl → α → Except Fault ConvFtl}
    (hf : ∀ s x, KeepsHost s (f s x)) : KeepsHost s (xs.foldlM f s) := by
  refine Outcome.foldlM (P := fun s' : ConvFtl => s'.wp = s.wp) rfl fun x _ s' hs' => ?_
  exact (hf s' x).imp (fun s'' hs'' => hs''.trans hs') fun _ _ => trivial

theorem openNext_wp (io : IoType) (wpp : WritePointer) (lm : LineMgmt) :
    Outcome (do
        let (curline, lm) ← getNextFreeLine lm
        let wpp := { wpp with curline := curline, blk := (lm.lines curline).id }
        nvmevAssert (wpp.blk < spp.blksPerPl) .advanceWritePointer
        nvmevAssert (wpp.pg = 0 ∧ wpp.lun = 0 ∧ wpp.ch = 0 ∧ wpp.pl = 0)
          .advanceWritePointer
        return { s with lm := lm }.setWp io wpp : Except Fault ConvFtl)
      (fun s' => match io with
        | .userIo => s'.wp.pg = wpp.pg
        | .gcIo => s'.wp = s.wp) fun _ => True := by
  refine Outcome.bind (P := fun _ => True) ?_ ?_
  · rw [getNextFreeLine]
    split <;> trivial
  · rintro ⟨curline, lm⟩ -
    refine assert_bind fun _ => assert_bind fun _ => ?_
    cases io <;> rfl

theorem closeLine_wp (io : IoType) (wpp : WritePointer) :
    Outcome (closeLine spp io wpp s)
      (fun s' => match io with
        | .userIo => s'.wp.pg = wpp.pg
        | .gcIo => s'.wp = s.wp) fun _ => True := by
  rw [closeLine]
  split
  · refine assert_bind fun _ => assert_bind fun _ => ?_
    exact openNext_wp io wpp _
  · refine assert_bind fun _ => assert_bind fun _ => assert_bind fun _ => ?_
    exact openNext_wp io wpp _

theorem advanceWritePointer_gc_keeps : KeepsHost s (advanceWritePointer spp .gcIo s) := by
  refine assert_bind fun _ => ?_
  dsimp only
  split
  · rfl
  · refine assert_bind fun _ => ?_
    split
    · rfl
    · refine assert_bind fun _ => ?_
      split
      · rfl
      · split
        · rfl
        · exact closeLine_wp .gcIo _

theorem gcWritePage_keeps (ppa : Ppa) : KeepsHost s (gcWritePage spp cpp ppa s) := by
  refine Outcome.bind (P := fun _ => True) (assert_bind fun _ => trivial) fun lpn _ => ?_
  cases lpn with
  | none => trivial
  | some lpn =>
      refine assert_bind fun _ => ?_
      refine Outcome.bind (P := fun _ => True) (assert_bind fun _ => trivial) fun ppa _ => ?_
      refine KeepsHost.bind (setMaptblEnt_keeps _ _) fun s => ?_
      refine KeepsHost.bind (setRmapEnt_keeps _ _) fun s => ?_
      refine KeepsHost.bind (markPageValid_keeps _) fun s => ?_
      refine KeepsHost.bind advanceWritePointer_gc_keeps fun s => ?_
      split
      · split <;> rfl
      · rfl

theorem cleanOneFlashpg_keeps (ppa : Ppa) : KeepsHost s (cleanOneFlashpg spp cpp ppa s) := by
  refine Outcome.bind (P := fun _ => True) ?_ fun cnt _ => ?_
  · cases countValid spp ppa s <;> trivial
  · split
    · rfl
    · generalize hbase : (if cpp.enableGcDelay = true then s.issue _ else s) = base
      have hwp : base.wp = s.wp := by
        rw [← hbase]
        split <;> rfl
      have hloop : KeepsHost base ((List.range spp.pgsPerFlashpg).foldlM (fun s i =>
          if s.ssd.pg (Ppa.addPg ppa i) = .valid then
            gcWritePage spp cpp (Ppa.addPg ppa i) s else .ok s) base) := by
        refine KeepsHost.foldlM fun s i => ?_
        split
        · exact gcWritePage_keeps _
        · rfl
      exact hloop.imp (fun s' hs' => hs'.trans hwp) fun _ _ => trivial

theorem gcFlashpg_keeps (blk flashpg ch lun : Nat) :
    KeepsHost s (gcFlashpg spp cpp blk flashpg ch lun s) := by
  refine KeepsHost.bind (cleanOneFlashpg_keeps _) fun s => ?_
  split
  · split <;> rfl
  · rfl

theorem doGc_keeps (force : Bool) :
    Outcome (doGc spp cpp force s) (fun r => r.2.wp = s.wp) fun _ => True := by
  rw [doGc]
  split
  · rfl
  · next victim base hvictim =>
    have hbase : base.wp = s.wp := by
      rw [selectVictimLine] at hvictim
      split at hvictim
      · cases hvictim
      · split at hvictim
        · cases hvictim
        · cases hvictim
          rfl
    refine Outcome.bind (P := fun s' : ConvFtl => s'.wp = s.wp) ?_ fun s' hs' => hs'
    refine Outcome.imp (KeepsHost.foldlM fun s flashpg => KeepsHost.foldlM fun s ch =>
      KeepsHost.foldlM fun s lun => gcFlashpg_keeps _ _ _ _) ?_ fun _ _ => trivial
    intro s' hs'
    exact hs'.trans hbase

theorem checkAndRefillWriteCredit_keeps :
    KeepsHost s (checkAndRefillWriteCredit spp cpp s) := by
  rw [checkAndRefillWriteCredit]
  split
  · refine KeepsHost.bind ?_ fun s => rfl
    rw [foregroundGc]
    split
    · refine Outcome.bind (doGc_keeps true) fun r hr => hr
    · rfl
  · rfl

/-- The pages of the open one-shot page that hold host data already. -/
def unflushed (spp : SsdParams) (s : ConvFtl) : Nat := s.wp.pg % spp.pgsPerOneshotpg

theorem succ_mod_add (n m : Nat) :
    (n + 1) % m + (if (n + 1) % m = 0 then m else 0) = n % m + 1 := by
  rcases Nat.eq_zero_or_pos m with rfl | hm
  · simp
  · have hlt := Nat.mod_lt n hm
    rcases Nat.lt_or_ge (n % m + 1) m with hroom | hfull
    · rw [← Nat.mod_add_mod, Nat.mod_eq_of_lt hroom, if_neg (Nat.succ_ne_zero _)]
    · have hlast : n % m + 1 = m := by omega
      rw [← Nat.mod_add_mod, hlast, Nat.mod_self, if_pos rfl]
      omega

/-- The host write pointer has taken one more page, and has left its one-shot
page when that was the last one. -/
def Advanced (spp : SsdParams) (s s' : ConvFtl) : Prop :=
  s.wp.pg < spp.pgsPerBlk ∧
    unflushed spp s' + (if (s.wp.pg + 1) % spp.pgsPerOneshotpg = 0 then
      spp.pgsPerOneshotpg else 0) = unflushed spp s + 1

theorem Advanced.of_start {s' : ConvFtl} (hlt : s.wp.pg < spp.pgsPerBlk)
    (hlast : (s.wp.pg + 1) % spp.pgsPerOneshotpg = 0)
    (hpg : s'.wp.pg % spp.pgsPerOneshotpg = 0) : Advanced spp s s' := by
  have hsucc := succ_mod_add s.wp.pg spp.pgsPerOneshotpg
  refine ⟨hlt, ?_⟩
  rw [unflushed, unflushed, hpg, ← hsucc, hlast]

theorem advanceWritePointer_user :
    Outcome (advanceWritePointer spp .userIo s) (Advanced spp s) fun _ => True := by
  refine assert_bind fun hlt => ?_
  dsimp only
  split
  · exact ⟨hlt, succ_mod_add s.wp.pg spp.pgsPerOneshotpg⟩
  · next hlast =>
    have hzero : (s.wp.pg + 1) % spp.pgsPerOneshotpg = 0 := not_not.1 hlast
    have hstart : (s.wp.pg + 1 - spp.pgsPerOneshotpg) % spp.pgsPerOneshotpg = 0 :=
      Nat.mod_eq_zero_of_dvd (Nat.dvd_sub (Nat.dvd_of_mod_eq_zero hzero) (Nat.dvd_refl _))
    refine assert_bind fun _ => ?_
    split
    · exact Outcome.pure (.of_start hlt hzero hstart)
    · refine assert_bind fun _ => ?_
      split
      · exact Outcome.pure (.of_start hlt hzero hstart)
      · split
        · refine Outcome.pure (.of_start hlt hzero ?_)
          change (s.wp.pg + 1 - spp.pgsPerOneshotpg + spp.pgsPerOneshotpg) %
            spp.pgsPerOneshotpg = 0
          rw [Nat.add_mod_right]
          exact hstart
        · refine (closeLine_wp .userIo _).imp ?_ fun _ he => he
          intro s' hpg
          refine .of_start hlt hzero ?_
          rw [show s'.wp.pg = 0 from hpg, Nat.zero_mod]

theorem Advanced.congr {base s' : ConvFtl} (h : Advanced spp base s') (hwp : base.wp = s.wp) :
    Advanced spp s s' := by
  rw [Advanced, unflushed, unflushed, hwp] at h
  exact h

theorem placeLpn_advanced (lpn : Nat) :
    Outcome (placeLpn spp .userIo lpn s)
      (fun r => r.1.pg = s.wp.pg % 2 ^ 16 ∧ Advanced spp s r.2) fun _ => True := by
  rw [placeLpn]
  have hpage : Outcome (getNewPage .userIo s) (fun ppa => ppa.pg = s.wp.pg % 2 ^ 16)
      fun _ => True := assert_bind fun _ => Outcome.pure rfl
  refine Outcome.bind hpage fun ppa hppa => ?_
  refine Outcome.bind (setMaptblEnt_keeps _ _) fun s₁ h₁ => ?_
  refine Outcome.bind (setRmapEnt_keeps _ _) fun s₂ h₂ => ?_
  refine Outcome.bind (markPageValid_keeps _) fun s₃ h₃ => ?_
  refine Outcome.bind advanceWritePointer_user fun s₄ h₄ => ?_
  exact Outcome.pure ⟨hppa, h₄.congr (h₃.trans (h₂.trans h₁))⟩

theorem lastPgInWordline_iff {ppa : Ppa} (hle : spp.pgsPerBlk ≤ 2 ^ 16)
    (hlt : s.wp.pg < spp.pgsPerBlk) (hppa : ppa.pg = s.wp.pg % 2 ^ 16)
    (hpos : 0 < spp.pgsPerOneshotpg) :
    lastPgInWordline spp ppa = true ↔ (s.wp.pg + 1) % spp.pgsPerOneshotpg = 0 := by
  have hpg : ppa.pg = s.wp.pg := by
    rw [hppa, Nat.mod_eq_of_lt (Nat.lt_of_lt_of_le hlt hle)]
  obtain ⟨n, hn⟩ := Nat.exists_eq_succ_of_ne_zero (Nat.ne_of_gt hpos)
  rw [lastPgInWordline, hpg, beq_iff_eq, hn]
  exact Nat.succ_mod_succ_eq_zero_iff.symm

theorem writeLocalLpn_unflushed (hle : spp.pgsPerBlk ≤ 2 ^ 16)
    (hpos : 0 < spp.pgsPerOneshotpg) (lpn : Nat) :
    Outcome (writeLocalLpn spp cpp lpn s)
      (fun r => unflushed spp r.2 + (if r.1 then spp.pgsPerOneshotpg else 0) =
        unflushed spp s + 1) fun _ => True := by
  have hretire : KeepsHost s (retireOld spp lpn s) := by
    rw [retireOld]
    split
    · exact KeepsHost.bind (markPageInvalid_keeps _) fun s => setRmapEnt_keeps _ _
    · rfl
  have hremap : Outcome (remapLpn spp lpn s)
      (fun r => r.1.pg = s.wp.pg % 2 ^ 16 ∧ Advanced spp s r.2) fun _ => True := by
    rw [remapLpn_eq]
    refine Outcome.bind hretire fun s₁ h₁ => ?_
    refine (placeLpn_advanced lpn).imp ?_ fun _ _ => trivial
    rintro r ⟨hppa, hadvanced⟩
    rw [h₁] at hppa
    exact ⟨hppa, hadvanced.congr h₁⟩
  rw [writeLocalLpn]
  refine Outcome.bind hremap ?_
  rintro ⟨ppa, s₁⟩ ⟨hppa, hlt, hadvanced⟩
  have hlast := lastPgInWordline_iff hle hlt hppa hpos
  dsimp only
  generalize hs₂ : (if lastPgInWordline spp ppa = true then s₁.issue _ else s₁) = s₂
  have hwp : s₂.wp = s₁.wp := by
    rw [← hs₂]
    split <;> rfl
  refine Outcome.bind checkAndRefillWriteCredit_keeps fun s₃ h₃ => Outcome.pure ?_
  have hunflushed : unflushed spp s₃ = unflushed spp s₁ := by
    rw [unflushed, h₃]
    exact congrArg (fun wp : WritePointer => wp.pg % spp.pgsPerOneshotpg) hwp
  rw [hunflushed, ← hadvanced]
  simp only [hlast]

end HostLine

section Balance

variable {g : Geometry} {cpp : ConvParams} {ns ns' : ConvNs}

/-- What is in the buffer or on its way back to it, and what the pages of the open
one-shot pages will bring back. -/
def held (spp : SsdParams) (ns : ConvNs) : Nat :=
  ns.writeBuffer.remaining + ns.pending.sum +
    spp.pgsz * ∑ part ∈ Finset.range ns.nrParts, unflushed spp (ns.ftls part)

theorem oneshot_pos (g : Geometry) : 0 < g.pgsPerOneshotpg := by
  have hline := g.pgsPerLine_pos
  have hblk := g.blk_oneshot
  refine Nat.pos_of_ne_zero fun hzero => ?_
  rw [hzero, Nat.zero_mul] at hblk
  rw [SsdParams.pgsPerLine, hblk, Nat.mul_zero] at hline
  exact absurd hline (Nat.lt_irrefl 0)

theorem writeLpn_held (hparts : 0 < ns.nrParts) (lpn : Nat) :
    Outcome (writeLpn g.toSsdParams cpp ns lpn)
      (fun ns' => ns'.nrParts = ns.nrParts ∧ ns'.writeBuffer = ns.writeBuffer ∧
        held g.toSsdParams ns' = held g.toSsdParams ns + g.pgsz) fun _ => True := by
  rw [writeLpn]
  refine Outcome.bind (writeLocalLpn_unflushed g.pgsPerBlk_le (oneshot_pos g) _) ?_
  rintro ⟨flush, s⟩ hpage
  dsimp only at hpage
  refine Outcome.pure ⟨rfl, rfl, ?_⟩
  have hmem : lpn % ns.nrParts ∈ Finset.range ns.nrParts :=
    Finset.mem_range.2 (Nat.mod_lt lpn hparts)
  have hupdate : (fun part => unflushed g.toSsdParams
      (Function.update ns.ftls (lpn % ns.nrParts) s part)) =
      Function.update (fun part => unflushed g.toSsdParams (ns.ftls part))
        (lpn % ns.nrParts) (unflushed g.toSsdParams s) := by
    funext part
    rcases eq_or_ne part (lpn % ns.nrParts) with rfl | hne
    · simp
    · simp [hne]
  have hsum : (∑ part ∈ Finset.range ns.nrParts, unflushed g.toSsdParams
      (Function.update ns.ftls (lpn % ns.nrParts) s part)) +
        unflushed g.toSsdParams (ns.ftls (lpn % ns.nrParts)) =
      (∑ part ∈ Finset.range ns.nrParts, unflushed g.toSsdParams (ns.ftls part)) +
        unflushed g.toSsdParams s := by
    rw [hupdate, Finset.sum_update_of_mem hmem,
      ← Finset.add_sum_erase _ (fun part => unflushed g.toSsdParams (ns.ftls part)) hmem,
      Finset.sdiff_singleton_eq_erase]
    omega
  simp only [held]
  cases flush with
  | true =>
      rw [if_pos rfl] at hpage
      rw [if_pos rfl, List.sum_append, List.sum_singleton]
      generalize (∑ part ∈ Finset.range ns.nrParts, unflushed g.toSsdParams
        (Function.update ns.ftls (lpn % ns.nrParts) s part)) = after at hsum ⊢
      have hcount : g.pgsPerOneshotpg + after =
          (∑ part ∈ Finset.range ns.nrParts, unflushed g.toSsdParams (ns.ftls part)) + 1 := by
        omega
      have hbytes := congrArg (g.pgsz * ·) hcount
      simp only [Nat.mul_add, Nat.mul_one] at hbytes
      rw [Nat.mul_comm g.pgsPerOneshotpg]
      omega
  | false =>
      rw [if_neg (by simp)] at hpage
      rw [if_neg (by simp)]
      generalize (∑ part ∈ Finset.range ns.nrParts, unflushed g.toSsdParams
        (Function.update ns.ftls (lpn % ns.nrParts) s part)) = after at hsum ⊢
      have hcount : after =
          (∑ part ∈ Finset.range ns.nrParts, unflushed g.toSsdParams (ns.ftls part)) + 1 := by
        omega
      have hbytes := congrArg (g.pgsz * ·) hcount
      simp only [Nat.mul_add, Nat.mul_one] at hbytes
      omega

theorem writeLpns_held (g : Geometry) (cpp : ConvParams) (ns : ConvNs)
    (hparts : 0 < ns.nrParts) (lpns : List Nat) :
    Outcome (lpns.foldlM (writeLpn g.toSsdParams cpp) ns)
      (fun ns' => ns'.nrParts = ns.nrParts ∧ ns'.writeBuffer = ns.writeBuffer ∧
        held g.toSsdParams ns' = held g.toSsdParams ns + g.pgsz * lpns.length)
      fun _ => True := by
  induction lpns generalizing ns with
  | nil => exact ⟨rfl, rfl, by simp⟩
  | cons lpn lpns ih =>
      rw [List.foldlM_cons]
      refine Outcome.bind (writeLpn_held hparts lpn) fun ns₁ h₁ => ?_
      refine (ih ns₁ (h₁.1 ▸ hparts)).imp ?_ fun _ _ => trivial
      rintro ns₂ ⟨hnr, hbuf, hheld⟩
      refine ⟨hnr.trans h₁.1, hbuf.trans h₁.2.1, ?_⟩
      rw [hheld, h₁.2.2, List.length_cons, Nat.mul_succ]
      omega

def WholePages (spp : SsdParams) : ConvEvent → Prop
  | .write cmd => cmd.slba % spp.secsPerPg = 0 ∧ cmd.nrLba % spp.secsPerPg = 0
  | .release _ => True

theorem length_cmdLpns_le {cmd : RwCommand}
    (haligned : WholePages g.toSsdParams (.write cmd)) :
    (cmdLpns g.toSsdParams cmd).length ≤ cmd.nrLba / g.secsPerPg := by
  obtain ⟨hstart, hlength⟩ := haligned
  have hpos : 0 < cmd.nrLba := Nat.succ_pos _
  have hsecs : 0 < g.secsPerPg := by
    refine Nat.pos_of_ne_zero fun hzero => ?_
    rw [hzero, Nat.mod_zero] at hlength
    omega
  obtain ⟨a, ha⟩ := Nat.dvd_of_mod_eq_zero hstart
  obtain ⟨n, hn⟩ := Nat.dvd_of_mod_eq_zero hlength
  have hend : endLpn g.toSsdParams cmd < a + n := by
    rw [endLpn, Nat.div_lt_iff_lt_mul hsecs]
    refine Nat.lt_of_le_of_lt (Nat.mod_le _ _) ?_
    rw [ha, hn, Nat.add_mul, Nat.mul_comm a, Nat.mul_comm n]
    omega
  have hfirst : startLpn g.toSsdParams cmd = a := by
    rw [startLpn, ha, Nat.mul_div_cancel_left _ hsecs]
  rw [cmdLpns, List.length_range', hfirst, hn, Nat.mul_div_cancel_left _ hsecs]
  omega

structure Solvent (spp : SsdParams) (ns : ConvNs) : Prop where
  parts : 0 < ns.nrParts
  held_le : held spp ns ≤ ns.writeBuffer.size

theorem convWrite_solvent {cmd : RwCommand} (hpgsz : g.pgsz = lbaToByte g.secsPerPg)
    (h : Solvent g.toSsdParams ns) (haligned : WholePages g.toSsdParams (.write cmd)) :
    Outcome (convWrite g.toSsdParams cpp ns cmd)
      (fun r => Solvent g.toSsdParams r.2) fun _ => True := by
  have hpages : g.pgsz * (cmdLpns g.toSsdParams cmd).length ≤ lbaToByte cmd.nrLba := by
    obtain ⟨n, hn⟩ := Nat.dvd_of_mod_eq_zero haligned.2
    have hbytes : lbaToByte cmd.nrLba = g.pgsz * (cmd.nrLba / g.secsPerPg) := by
      rw [hpgsz, lbaToByte, lbaToByte, Nat.mul_right_comm,
        Nat.mul_div_cancel_left' ⟨n, hn⟩]
    rw [hbytes]
    exact Nat.mul_le_mul_left _ (length_cmdLpns_le haligned)
  have hpos : 0 < lbaToByte cmd.nrLba := by
    rw [lbaToByte, RwCommand.nrLba]
    omega
  rw [convWrite]
  split
  · exact Outcome.pure h
  · have hallocate : Outcome (bufferAllocate ns.writeBuffer (lbaToByte cmd.nrLba))
        (fun r => r.2.size = ns.writeBuffer.size ∧
          r.2.remaining ≤ ns.writeBuffer.remaining ∧
          (lbaToByte cmd.nrLba ≤ r.1 →
            r.2.remaining + lbaToByte cmd.nrLba = ns.writeBuffer.remaining))
        fun _ => True := by
      cases hres : bufferAllocate ns.writeBuffer (lbaToByte cmd.nrLba) with
      | error e => trivial
      | ok r =>
          obtain ⟨hsize, ⟨-, hnone, hsame⟩ | ⟨-, hremaining⟩⟩ := bufferAllocate_cases hres
          · exact ⟨hsize, Nat.le_of_eq (congrArg Buffer.remaining hsame), fun hle => by omega⟩
          · exact ⟨hsize, by omega, fun _ => hremaining⟩
    have hle := h.held_le
    rw [held] at hle
    refine Outcome.bind hallocate ?_
    rintro ⟨allocated, buf⟩ ⟨hsize, hremaining, htaken⟩
    dsimp only at hsize hremaining htaken ⊢
    split
    · refine Outcome.pure ⟨h.parts, ?_⟩
      rw [held]
      dsimp only
      omega
    · next hgranted =>
      have hwrites := writeLpns_held g cpp { ns with writeBuffer := buf } h.parts
        (cmdLpns g.toSsdParams cmd)
      refine Outcome.bind hwrites ?_
      rintro ns₁ ⟨hnr, hbuf, hheld⟩
      refine Outcome.pure ⟨hnr ▸ h.parts, ?_⟩
      have hall := htaken (Nat.le_of_not_lt hgranted)
      rw [hheld, hbuf, held]
      dsimp only
      omega

theorem convStep_solvent {e : ConvEvent} (hpgsz : g.pgsz = lbaToByte g.secsPerPg)
    (h : Solvent g.toSsdParams ns) (haligned : WholePages g.toSsdParams e) :
    Outcome (convStep g.toSsdParams cpp ns e) (Solvent g.toSsdParams) fun _ => True := by
  cases e with
  | write cmd => exact Outcome.bind (convWrite_solvent hpgsz h haligned) fun r hr => hr
  | release i =>
      rw [convStep]
      split
      · exact h
      · next bytes hbytes =>
        obtain ⟨hi, rfl⟩ := List.getElem?_eq_some_iff.1 hbytes
        have hsum := List.add_sum_eraseIdx hi fun _ _ => AddCommute.all _ _
        have hle := h.held_le
        refine ⟨h.parts, ?_⟩
        rw [held] at hle ⊢
        simp only [bufferRelease]
        omega

end Balance

section Results

variable (g : Geometry) (cpp : ConvParams) (nrParts : Nat) (events : List ConvEvent)
  {ns₀ ns : ConvNs}

/-- In a run whose writes all cover whole pages, the free part of the buffer
together with everything scheduled for release never exceeds its size. -/
theorem write_buffer_not_over_released (hparts : 0 < nrParts)
    (hpgsz : g.pgsz = lbaToByte g.secsPerPg)
    (hinit : convInitNamespace g.toSsdParams nrParts = .ok ns₀)
    (haligned : ∀ e ∈ events, WholePages g.toSsdParams e)
    (hrun : convRun g.toSsdParams cpp ns₀ events = .ok ns) :
    ns.writeBuffer.remaining + ns.pending.sum ≤ ns.writeBuffer.size ∧
      ns.writeBuffer.remaining ≤ ns.writeBuffer.size := by
  have hstart : Solvent g.toSsdParams ns₀ := by
    obtain ⟨-, -, hnr, hftls⟩ := convInitNamespace_ok hinit
    obtain ⟨s, -, hns⟩ := exists_of_bind_eq_ok hinit
    obtain rfl := Except.ok.inj hns
    refine ⟨hparts, ?_⟩
    have hzero : unflushed g.toSsdParams s = 0 := by
      have hinitial : s = ConvLineReclaim.initialFtl g.toSsdParams := hftls 0
      rw [hinitial]
      simp [unflushed, ConvLineReclaim.initialFtl]
    simp [held, bufferInit, hzero]
  have hsolvent : Solvent g.toSsdParams ns := by
    refine Outcome.value (E := fun _ => True) ?_ hrun
    exact Outcome.foldlM hstart fun e he ns hns => convStep_solvent hpgsz hns (haligned e he)
  have hle := hsolvent.held_le
  rw [held] at hle
  omega

/-- A write of one 512-byte block takes 512 bytes of the buffer and gives a whole
page back. -/
theorem write_buffer_over_released :
    ∃ ns₀ ns, convInitNamespace fiveLines.toSsdParams 1 = .ok ns₀ ∧
      convRun fiveLines.toSsdParams convInitParams ns₀
        [.write { slba := 0, length := 0 }, .release 0] = .ok ns ∧
      ns.writeBuffer.size < ns.writeBuffer.remaining :=
  ⟨_, _, rfl, rfl, by decide⟩

theorem write_buffer_not_over_released_overwrites :
    ∃ ns₀ ns, convInitNamespace fiveLines.toSsdParams 1 = .ok ns₀ ∧
      convRun fiveLines.toSsdParams convInitParams ns₀ overwrites = .ok ns ∧
      ns.writeBuffer.remaining + ns.pending.sum ≤ ns.writeBuffer.size := by
  refine ⟨_, _, rfl, rfl, (write_buffer_not_over_released fiveLines convInitParams 1
    overwrites (by decide) rfl rfl ?_ rfl).1⟩
  intro e he
  obtain rfl := List.eq_of_mem_replicate he
  exact ⟨rfl, rfl⟩

end Results

end NvmeVirt.ConvBuffer
