import NvmeVirt.ConvLineReclaim
import NvmeVirt.InverseMaps

namespace NvmeVirt.ConvMapping

open NvmeVirt.ConventionalFtl
open NvmeVirt.ConvLineAccounting
open NvmeVirt.ConvLineReclaim
open NvmeVirt.FaultOutcome
open NvmeVirt.FlashGeometry
open NvmeVirt.InverseMaps
open NvmeVirt.StatusCounts
open NvmeVirt.WriteBuffer

/-- `maptbl` and `rmap` are inverse on the valid pages, the `moved` ones apart. -/
def Mapped (spp : SsdParams) (moved : Ppa → Prop) (s : ConvFtl)
    (maptbl : Nat → Option Ppa) : Prop :=
  Inverse (ppa2pgidx spp) (ValidPpa spp) (fun p => s.ssd.pg p = .valid) moved
    maptbl s.rmap

structure MapInv (spp : SsdParams) (moved : Ppa → Prop) (s : ConvFtl) : Prop where
  mapped : Mapped spp moved s s.maptbl
  bound : ∀ lpn ppa, s.maptbl lpn = some ppa → lpn < spp.ttPgs

/-- The calls by which `conv_write` and `gc_write_page` give the next page of a
write pointer to an LPN. -/
def placeLpn (spp : SsdParams) (io : IoType) (lpn : Nat) (s : ConvFtl) :
    Except Fault (Ppa × ConvFtl) := do
  let ppa ← getNewPage io s
  let s ← setMaptblEnt spp lpn ppa s
  let s ← setRmapEnt spp (some lpn) ppa s
  let s ← markPageValid spp ppa s
  let s ← advanceWritePointer spp io s
  return (ppa, s)

section Place

variable {g : Geometry} {victim : Option Nat} {s : ConvFtl}

theorem valid_wpPage {taken : Option IoType} (hpls : g.plsPerLun = 1)
    (h : LineInv g.toSsdParams victim taken s) (io : IoType) :
    ValidPpa g.toSsdParams (wpPage (s.getWp io)) :=
  valid_of_mem_linePages hpls (h.openLine io).1 (h.frontier io).page_mem

theorem getNewPage_eq {taken : Option IoType}
    (h : LineInv g.toSsdParams victim taken s) (io : IoType) :
    getNewPage io s = .ok (wpPage (s.getWp io)) := by
  have hfr := h.frontier io
  have hopen := (h.openLine io).1
  have hch : (s.getWp io).ch < 2 ^ 8 := Nat.lt_of_lt_of_le hfr.ch_lt g.nchs_le
  have hlun : (s.getWp io).lun < 2 ^ 8 := Nat.lt_of_lt_of_le hfr.lun_lt g.lunsPerCh_le
  have hblk : (s.getWp io).blk < 2 ^ 16 :=
    hfr.blk_eq ▸ Nat.lt_of_lt_of_le hopen g.blksPerPl_le
  have hpg : (s.getWp io).pg < 2 ^ 16 := Nat.lt_of_lt_of_le hfr.pg_lt g.pgsPerBlk_le
  have hppa : Ppa.ofFields (s.getWp io).ch (s.getWp io).lun (s.getWp io).pl
      (s.getWp io).blk (s.getWp io).pg = wpPage (s.getWp io) := by
    simp only [Ppa.ofFields, wpPage, Nat.mod_eq_of_lt hch, Nat.mod_eq_of_lt hlun,
      Nat.mod_eq_of_lt hblk, Nat.mod_eq_of_lt hpg, hfr.pl_eq, Nat.zero_mod]
  have hpl : (wpPage (s.getWp io)).pl = 0 := hfr.pl_eq
  simp only [getNewPage, hppa, nvmevAssert_of hpl]
  rfl

theorem setMaptblEnt_eq {spp : SsdParams} {lpn : Nat} (h : lpn < spp.ttPgs) (ppa : Ppa)
    (s : ConvFtl) : setMaptblEnt spp lpn ppa s =
      .ok { s with maptbl := Function.update s.maptbl lpn (some ppa) } := by
  simp only [setMaptblEnt, nvmevAssert_of h]
  rfl

theorem setRmapEnt_eq {spp : SsdParams} {ppa : Ppa} (h : ValidPpa spp ppa)
    (lpn : Option Nat) (s : ConvFtl) : setRmapEnt spp lpn ppa s =
      .ok { s with rmap := Function.update s.rmap (ppa2pgidx spp ppa) lpn } := by
  simp only [setRmapEnt, nvmevAssert_of (ppa2pgidx_lt h)]
  rfl

/-- What `placeLpn` leaves, apart from the maps. -/
structure Placed (spp : SsdParams) (io : IoType) (lpn : Nat) (s s' : ConvFtl) :
    Prop where
  maptbl : s'.maptbl = Function.update s.maptbl lpn (some (wpPage (s.getWp io)))
  pg : s'.ssd.pg = Function.update s.ssd.pg (wpPage (s.getWp io)) .valid
  wfc : s'.wfc = s.wfc
  freePages : freePages spp s' + 1 = freePages spp s

/-- The open line of `io` has one free page left. -/
def LastPage (spp : SsdParams) (io : IoType) (s : ConvFtl) : Prop :=
  countOf (linePages spp (s.getWp io).curline) s.ssd.pg .free = 1

/-- The pointer of `io` stays in its line, or it had the last page of the line and
goes to the first free line. -/
def Takes (spp : SsdParams) (io : IoType) (s s' : ConvFtl) : Prop :=
  (s'.getWp io).curline = (s.getWp io).curline ∧
      s'.lm.freeLineList = s.lm.freeLineList ∨
    LastPage spp io s ∧ s.lm.freeLineList = (s'.getWp io).curline :: s'.lm.freeLineList

/-- The last page of the line is taken and there is no free line. -/
def Starved (spp : SsdParams) (io : IoType) (s : ConvFtl) (e : Fault) : Prop :=
  e = .noFreeLine ∧ s.lm.freeLineList = [] ∧ LastPage spp io s

theorem Starved.freePages_le {spp : SsdParams} {io : IoType} {e : Fault}
    (h : Starved spp io s e) : freePages spp s ≤ spp.pgsPerLine + 1 := by
  obtain ⟨-, hnil, hlast⟩ := h
  have hhost := countOf_le_card (linePages spp s.wp.curline) s.ssd.pg .free
  have hgc := countOf_le_card (linePages spp s.gcWp.curline) s.ssd.pg .free
  rw [card_linePages] at hhost hgc
  simp only [freePages, hnil, List.length_nil, Nat.mul_zero, Nat.zero_add]
  unfold LastPage at hlast
  cases io <;> simp only [ConvFtl.getWp] at hlast <;> omega

theorem lastPage_of_used {spp : SsdParams} (h : LineInv spp victim none s) (io : IoType)
    (hused : ∀ p ∈ linePages spp (s.getWp io).curline, (programmed io s).ssd.pg p ≠ .free) :
    LastPage spp io s := by
  have hfr := h.frontier io
  have hlose := countOf_update_lose (c := PgStatus.valid) hfr.page_mem
    (hfr.page_free (by simp)) (by simp)
  have hzero : countOf (linePages spp (s.getWp io).curline)
      (Function.update s.ssd.pg (wpPage (s.getWp io)) .valid) .free = 0 :=
    countOf_eq_zero.mpr hused
  rw [hzero] at hlose
  exact hlose.symm

theorem placeLpn_spec (io : IoType) {moved : Ppa → Prop} {lpn : Nat}
    (hpls : g.plsPerLun = 1) (h : LineInv g.toSsdParams victim none s)
    (hlpn : lpn < g.ttPgs)
    (hmap : Mapped g.toSsdParams moved s (Function.update s.maptbl lpn none))
    (hmoved : ¬ moved (wpPage (s.getWp io))) :
    Outcome (placeLpn g.toSsdParams io lpn s)
      (fun r => r.1 = wpPage (s.getWp io) ∧ LineInv g.toSsdParams victim none r.2 ∧
        Mapped g.toSsdParams moved r.2 r.2.maptbl ∧ Placed g.toSsdParams io lpn s r.2 ∧
        Takes g.toSsdParams io s r.2)
      (Starved g.toSsdParams io s) := by
  have hvalid := valid_wpPage hpls h io
  have hdead : s.ssd.pg (wpPage (s.getWp io)) = .free :=
    (h.frontier io).page_free (by simp)
  have hnew := getNewPage_eq h io
  let s₁ : ConvFtl := { s with
    maptbl := Function.update s.maptbl lpn (some (wpPage (s.getWp io)))
    rmap := Function.update s.rmap (ppa2pgidx g.toSsdParams (wpPage (s.getWp io)))
      (some lpn) }
  have h₁ : LineInv g.toSsdParams victim none s₁ := h.of_same rfl rfl rfl rfl rfl
  have hwp : s₁.getWp io = s.getWp io := by cases io <;> rfl
  have hmark : markPageValid g.toSsdParams (wpPage (s.getWp io)) s₁ =
      .ok (programmed io s₁) := hwp ▸ markPageValid_eq h₁ io
  have hfree := freePages_programmed h₁ io
  have hsame : freePages g.toSsdParams s₁ = freePages g.toSsdParams s := rfl
  simp only [placeLpn, hnew, ok_bind, setMaptblEnt_eq hlpn, setRmapEnt_eq hvalid]
  change Outcome (markPageValid g.toSsdParams (wpPage (s.getWp io)) s₁ >>= _) _ _
  rw [hmark, ok_bind]
  have hadvance := advanceWritePointer_spec g.blk_oneshot (programmed_inv h₁ io)
  refine Outcome.bind (hadvance.imp (fun _ hr => hr) ?_) ?_
  · rintro e ⟨he, hnil, hused⟩
    rw [getWp_programmed, hwp] at hused
    exact ⟨he, hnil, lastPage_of_used h io hused⟩
  rintro s' ⟨hinv, hpages, hkeep, hadvances⟩
  obtain ⟨hmaptbl, hrmap, hssd, hwfc⟩ := hpages.frame
  have hput := Inverse.put hmap (l := lpn) (fun p q hp hq => ppa2pgidx_inj hp hq)
    (Function.update_self ..) hvalid (by simp [hdead]) hmoved
  have hlive : ∀ q, s'.ssd.pg q = .valid ↔
      s.ssd.pg q = .valid ∨ q = wpPage (s.getWp io) := by
    intro q
    rw [hssd]
    simp only [programmed, hwp]
    by_cases hq : q = wpPage (s.getWp io)
    · simp [hq]
    · rw [Function.update_of_ne hq]
      simp [hq, s₁]
  have hcount : freePages g.toSsdParams s' + 1 = freePages g.toSsdParams s := by omega
  refine ⟨rfl, hinv, ?_, ⟨hmaptbl, ?_, hwfc, hcount⟩, ?_⟩
  · change Inverse _ _ _ _ s'.maptbl s'.rmap
    rw [hmaptbl, hrmap]
    rw [Function.update_idem] at hput
    exact hput.congr (fun q _ => hlive q) fun _ _ _ => Iff.rfl
  · rw [hssd]
    simp only [programmed, hwp]
    rfl
  · unfold Advances at hadvances
    rw [getWp_programmed, hwp] at hadvances
    rcases hadvances with hstay | ⟨hused, hopen⟩
    · exact Or.inl hstay
    · exact Or.inr ⟨lastPage_of_used h io hused, hopen⟩

end Place

section HostWrite

variable {g : Geometry} {s : ConvFtl} {lpn : Nat}

/-- The part of a host write before `get_new_page`. -/
def retireOld (spp : SsdParams) (lpn : Nat) (s : ConvFtl) : Except Fault ConvFtl :=
  match s.maptbl lpn with
  | some ppa => do
      let s ← markPageInvalid spp ppa s
      setRmapEnt spp none ppa s
  | none => pure s

theorem remapLpn_eq (spp : SsdParams) (lpn : Nat) (s : ConvFtl) :
    remapLpn spp lpn s = retireOld spp lpn s >>= placeLpn spp .userIo lpn := by
  unfold remapLpn retireOld
  cases s.maptbl lpn with
  | none => rfl
  | some ppa =>
      simp only [bind_assoc]
      rfl

theorem retireOld_spec (lpn : Nat) (hpls : g.plsPerLun = 1) (h : LineInv g.toSsdParams none none s)
    (hmap : Mapped g.toSsdParams (fun _ => False) s s.maptbl) :
    ∃ s', retireOld g.toSsdParams lpn s = .ok s' ∧
      LineInv g.toSsdParams none none s' ∧
      Mapped g.toSsdParams (fun _ => False) s' (Function.update s'.maptbl lpn none) ∧
      s'.maptbl = s.maptbl ∧ s'.wfc = s.wfc ∧
      freePages g.toSsdParams s' = freePages g.toSsdParams s := by
  unfold retireOld
  cases hlpn : s.maptbl lpn with
  | none =>
      refine ⟨s, rfl, h, ?_, rfl, rfl, rfl⟩
      rwa [← hlpn, Function.update_eq_self]
  | some ppa =>
      obtain ⟨hvalid, hst, -, -⟩ := hmap.place lpn ppa hlpn
      obtain ⟨lm, hmark, hlm⟩ := markPageInvalid_spec h hvalid.2.2.2.1
        (mem_linePages_of_valid hpls hvalid) hst
      have hinv := invalidatedFtl_inv h (mem_linePages_of_valid hpls hvalid) hst hlm
      refine ⟨{ invalidatedFtl ppa lm s with
        rmap := Function.update s.rmap (ppa2pgidx g.toSsdParams ppa) none }, ?_, ?_, ?_,
        rfl, rfl, freePages_invalidatedFtl hst hlm⟩
      · simp only [hmark, ok_bind, setRmapEnt_eq hvalid]
        rfl
      · exact hinv.of_same rfl rfl rfl rfl rfl
      · have hdrop := Inverse.drop hmap (fun p q hp hq => ppa2pgidx_inj hp hq) hlpn
        apply hdrop.congr
        · intro q _
          simp only [invalidatedFtl]
          by_cases hq : q = ppa
          · simp [hq]
          · simp [hq]
        · exact fun _ _ _ => Iff.rfl

theorem remapLpn_spec (hpls : g.plsPerLun = 1) (h : LineInv g.toSsdParams none none s)
    (hmap : MapInv g.toSsdParams (fun _ => False) s) (hlpn : lpn < g.ttPgs) :
    Outcome (remapLpn g.toSsdParams lpn s)
      (fun r => LineInv g.toSsdParams none none r.2 ∧
        MapInv g.toSsdParams (fun _ => False) r.2 ∧
        r.2.maptbl = Function.update s.maptbl lpn (some r.1) ∧ r.2.wfc = s.wfc ∧
        freePages g.toSsdParams r.2 + 1 = freePages g.toSsdParams s)
      (fun e => e = .noFreeLine ∧ freePages g.toSsdParams s ≤ g.pgsPerLine + 1) := by
  obtain ⟨s₁, hretire, hinv, hmapped, hmaptbl, hwfc, hfree⟩ :=
    retireOld_spec lpn hpls h hmap.mapped
  rw [remapLpn_eq, hretire, ok_bind]
  have hplace := placeLpn_spec .userIo hpls hinv hlpn hmapped id
  refine hplace.imp ?_ fun e he => ⟨he.1, by have := he.freePages_le; omega⟩
  rintro ⟨ppa, s'⟩ ⟨rfl, hinv', hmap', hplaced, -⟩
  have hnew : s'.maptbl = Function.update s.maptbl lpn (some (wpPage (s₁.getWp .userIo))) := by
    rw [← hmaptbl]
    exact hplaced.maptbl
  refine ⟨hinv', ⟨hmap', ?_⟩, hnew, hplaced.wfc.trans hwfc, ?_⟩
  · intro k p hk
    change s'.maptbl k = some p at hk
    rw [hnew] at hk
    by_cases hkl : k = lpn
    · exact hkl ▸ hlpn
    · rw [Function.update_of_ne hkl] at hk
      exact hmap.bound k p hk
  · have hcount := hplaced.freePages
    change freePages g.toSsdParams s' + 1 = _ at hcount ⊢
    omega

end HostWrite

end NvmeVirt.ConvMapping
