import NvmeVirt.FaultOutcome
import NvmeVirt.RangeTiling
import NvmeVirt.StatusCounts
import NvmeVirt.ZonedFtl

namespace NvmeVirt.ZonedAccounting

open FaultOutcome
open FlashGeometry
open RangeTiling
open StatusCounts
open WriteBuffer
open ZonedFtl

/-- A device that `ssd_init_params` and `zns_init_params` can set up: 512-byte
blocks, 4 KiB mapping pages, zones of whole pages, and an LBA space that fits
32 bits. -/
structure ZonedDevice where
  spp : SsdParams
  zpp : ZnsParams
  secsz_eq : spp.secsz = 512
  secsPerPg_eq : spp.secsPerPg = 8
  pgsz_eq : spp.pgsz = 4096
  zoneSize_pos : 0 < zpp.zoneSize
  zoneSize_aligned : zpp.zoneSize % spp.pgsz = 0
  lbaSpace : zpp.nrZones * byteToLba zpp.zoneSize < 2 ^ 32

def opened : ZoneState → Bool
  | .openedImpl => true
  | .openedExpl => true
  | _ => false

def active : ZoneState → Bool
  | .openedImpl => true
  | .openedExpl => true
  | .closed => true
  | _ => false

def cnt (ftl : ZnsFtl) (type : ZoneResource) : Nat := (ftl.resInfos type).acquiredCnt

def total (ftl : ZnsFtl) (type : ZoneResource) : Nat := (ftl.resInfos type).totalCnt

section Primitives

variable {ftl : ZnsFtl} {zid : Nat} {type : ZoneResource}

@[simp] theorem cnt_setDesc (desc : ZoneDescriptor) :
    cnt (ftl.setDesc zid desc) = cnt ftl := rfl

@[simp] theorem total_setDesc (desc : ZoneDescriptor) :
    total (ftl.setDesc zid desc) = total ftl := rfl

@[simp] theorem zoneDescs_setDesc (desc : ZoneDescriptor) :
    (ftl.setDesc zid desc).zoneDescs = Function.update ftl.zoneDescs zid desc := rfl

@[simp] theorem cnt_changeZoneState (state : ZoneState) :
    cnt (changeZoneState ftl zid state) = cnt ftl := rfl

@[simp] theorem total_changeZoneState (state : ZoneState) :
    total (changeZoneState ftl zid state) = total ftl := rfl

@[simp] theorem zoneDescs_changeZoneState (state : ZoneState) :
    (changeZoneState ftl zid state).zoneDescs =
      Function.update ftl.zoneDescs zid { ftl.zoneDescs zid with state := state } := rfl

@[simp] theorem zoneDescs_release :
    (releaseZoneResource ftl type).zoneDescs = ftl.zoneDescs := rfl

@[simp] theorem total_release : total (releaseZoneResource ftl type) = total ftl := by
  funext t
  by_cases ht : t = type
  · subst ht
    simp [total, releaseZoneResource, ZnsFtl.setResource]
  · simp [total, releaseZoneResource, ZnsFtl.setResource, ht]

theorem cnt_release_self (h : 0 < cnt ftl type) :
    cnt (releaseZoneResource ftl type) type + 1 = cnt ftl type := by
  have hne : (ftl.resInfos type).acquiredCnt ≠ 0 := Nat.ne_of_gt h
  simp only [cnt, releaseZoneResource, ZnsFtl.setResource, Function.update_self,
    if_neg hne]
  omega

@[simp] theorem cnt_release_of_ne {t : ZoneResource} (ht : t ≠ type) :
    cnt (releaseZoneResource ftl type) t = cnt ftl t := by
  simp [cnt, releaseZoneResource, ZnsFtl.setResource, ht]

/-- The FTL after a successful `acquire_zone_resource`. -/
def acquired (ftl : ZnsFtl) (type : ZoneResource) : ZnsFtl :=
  ftl.setResource type
    { ftl.resInfos type with acquiredCnt := (ftl.resInfos type).acquiredCnt + 1 }

theorem acquire_of_lt (h : cnt ftl type < total ftl type) :
    acquireZoneResource ftl type = (true, acquired ftl type) := by
  have havail : isZoneResourceAvail ftl type = true := decide_eq_true h
  rw [acquireZoneResource, if_pos havail]
  rfl

theorem acquire_of_not_lt (h : ¬cnt ftl type < total ftl type) :
    acquireZoneResource ftl type = (false, ftl) := by
  rw [acquireZoneResource, if_neg]
  simpa [isZoneResourceAvail, cnt, total] using h

@[simp] theorem zoneDescs_acquire :
    (acquireZoneResource ftl type).2.zoneDescs = ftl.zoneDescs := by
  rw [acquireZoneResource]
  split <;> rfl

theorem isZoneResourceFull_iff :
    isZoneResourceFull ftl type = true ↔ cnt ftl type = total ftl type := by
  simp [isZoneResourceFull, cnt, total]

@[simp] theorem zoneDescs_acquired : (acquired ftl type).zoneDescs = ftl.zoneDescs := rfl

@[simp] theorem total_acquired : total (acquired ftl type) = total ftl := by
  funext t
  by_cases ht : t = type
  · subst ht
    simp [total, acquired, ZnsFtl.setResource]
  · simp [total, acquired, ZnsFtl.setResource, ht]

@[simp] theorem cnt_acquired_self : cnt (acquired ftl type) type = cnt ftl type + 1 := by
  simp [cnt, acquired, ZnsFtl.setResource]

@[simp] theorem cnt_acquired_of_ne {t : ZoneResource} (ht : t ≠ type) :
    cnt (acquired ftl type) t = cnt ftl t := by
  simp [cnt, acquired, ZnsFtl.setResource, ht]

@[simp] theorem total_acquire : total (acquireZoneResource ftl type).2 = total ftl := by
  by_cases h : cnt ftl type < total ftl type
  · rw [acquire_of_lt h, total_acquired]
  · rw [acquire_of_not_lt h]

@[simp] theorem cnt_acquire_of_ne {t : ZoneResource} (ht : t ≠ type) :
    cnt (acquireZoneResource ftl type).2 t = cnt ftl t := by
  by_cases h : cnt ftl type < total ftl type
  · rw [acquire_of_lt h, cnt_acquired_of_ne ht]
  · rw [acquire_of_not_lt h]

end Primitives

structure PlainZone (desc : ZoneDescriptor) : Prop where
  zslba_le : desc.zslba ≤ desc.wp
  wp_le : desc.wp ≤ desc.zslba + desc.zoneCapacity
  wp_of_empty : desc.state = .empty → desc.wp = desc.zslba
  wp_lt_of_active : active desc.state = true → desc.wp < desc.zslba + desc.zoneCapacity

/-- What a command may rely on when it addresses zone `zid`. -/
structure Sound (dev : ZonedDevice) (ftl : ZnsFtl) (zid : Nat) : Prop where
  open_le : cnt ftl .openZone ≤ total ftl .openZone
  active_le : cnt ftl .activeZone ≤ total ftl .activeZone
  open_pos : opened (ftl.zoneDescs zid).state = true → 0 < cnt ftl .openZone
  active_pos : active (ftl.zoneDescs zid).state = true → 0 < cnt ftl .activeZone
  empty_plain : (ftl.zoneDescs zid).state = .empty → (ftl.zoneDescs zid).zrwav = false
  zslba_eq : (ftl.zoneDescs zid).zslba = zid * byteToLba dev.zpp.zoneSize
  capacity_eq : (ftl.zoneDescs zid).zoneCapacity = byteToLba dev.zpp.zoneSize
  plain : (ftl.zoneDescs zid).zrwav = false → PlainZone (ftl.zoneDescs zid)

inductive WpEffect where
  | keep
  | reset
  | advance (nrLba : Nat)
deriving DecidableEq, Repr

/-- A change to zone `zid` only, in which the counters follow its state. -/
structure Move (ftl ftl' : ZnsFtl) (zid : Nat) (effect : WpEffect) : Prop where
  others : ∀ z, z ≠ zid → ftl'.zoneDescs z = ftl.zoneDescs z
  open_cnt : cnt ftl' .openZone + (opened (ftl.zoneDescs zid).state).toNat =
    cnt ftl .openZone + (opened (ftl'.zoneDescs zid).state).toNat
  active_cnt : cnt ftl' .activeZone + (active (ftl.zoneDescs zid).state).toNat =
    cnt ftl .activeZone + (active (ftl'.zoneDescs zid).state).toNat
  open_le : cnt ftl' .openZone ≤ total ftl .openZone
  active_le : cnt ftl' .activeZone ≤ total ftl .activeZone
  totals : total ftl' = total ftl
  zslba_eq : (ftl'.zoneDescs zid).zslba = (ftl.zoneDescs zid).zslba
  capacity_eq : (ftl'.zoneDescs zid).zoneCapacity = (ftl.zoneDescs zid).zoneCapacity
  empty_plain : (ftl'.zoneDescs zid).state = .empty → (ftl'.zoneDescs zid).zrwav = false
  plain : (ftl'.zoneDescs zid).zrwav = false → PlainZone (ftl'.zoneDescs zid)
  wp : (ftl'.zoneDescs zid).zrwav = false →
    match effect with
    | .keep => (ftl.zoneDescs zid).zrwav = false ∧
        (ftl'.zoneDescs zid).wp = (ftl.zoneDescs zid).wp
    | .reset => (ftl'.zoneDescs zid).wp = (ftl.zoneDescs zid).zslba
    | .advance nrLba => (ftl.zoneDescs zid).zrwav = false ∧
        (ftl'.zoneDescs zid).wp = (ftl.zoneDescs zid).wp + nrLba

variable {dev : ZonedDevice} {ftl ftl' ftl'' : ZnsFtl} {zid : Nat} {effect : WpEffect}

theorem ZonedDevice.eight_le (dev : ZonedDevice) : 8 ≤ byteToLba dev.zpp.zoneSize := by
  have haligned := dev.zoneSize_aligned
  have hpos := dev.zoneSize_pos
  rw [dev.pgsz_eq] at haligned
  rw [byteToLba]
  omega

theorem ZonedDevice.zoneLbas_pos (dev : ZonedDevice) :
    0 < byteToLba dev.zpp.zoneSize :=
  Nat.lt_of_lt_of_le (by decide) dev.eight_le

theorem Move.sound (h : Move ftl ftl' zid effect) (hsound : Sound dev ftl zid) :
    Sound dev ftl' zid where
  open_le := by
    rw [h.totals]
    exact h.open_le
  active_le := by
    rw [h.totals]
    exact h.active_le
  open_pos hopened := by
    have hcnt := h.open_cnt
    cases hbefore : opened (ftl.zoneDescs zid).state with
    | true =>
        have hpos := hsound.open_pos hbefore
        simp only [hopened, hbefore, Bool.toNat_true] at hcnt
        omega
    | false =>
        simp only [hopened, hbefore, Bool.toNat_true, Bool.toNat_false] at hcnt
        omega
  active_pos hactive := by
    have hcnt := h.active_cnt
    cases hbefore : active (ftl.zoneDescs zid).state with
    | true =>
        have hpos := hsound.active_pos hbefore
        simp only [hactive, hbefore, Bool.toNat_true] at hcnt
        omega
    | false =>
        simp only [hactive, hbefore, Bool.toNat_true, Bool.toNat_false] at hcnt
        omega
  empty_plain := h.empty_plain
  zslba_eq := h.zslba_eq.trans hsound.zslba_eq
  capacity_eq := h.capacity_eq.trans hsound.capacity_eq
  plain := h.plain

structure Same (ftl ftl' : ZnsFtl) : Prop where
  zoneDescs : ftl'.zoneDescs = ftl.zoneDescs
  resInfos : ftl'.resInfos = ftl.resInfos

theorem Same.move (hsame : Same ftl ftl') (h : Sound dev ftl zid) :
    Move ftl ftl' zid .keep := by
  have hcnt : cnt ftl' = cnt ftl := by
    funext t
    rw [cnt, hsame.resInfos, cnt]
  have htotal : total ftl' = total ftl := by
    funext t
    rw [total, hsame.resInfos, total]
  constructor
  all_goals try rw [hsame.zoneDescs]
  all_goals try rw [hcnt]
  · simp
  · exact h.open_le
  · exact h.active_le
  · exact htotal
  · exact h.empty_plain
  · exact h.plain
  · exact fun hplain => ⟨hplain, rfl⟩

theorem Move.of_state (state : ZoneState) (h : Sound dev ftl zid)
    (hdescs : ftl'.zoneDescs =
      Function.update ftl.zoneDescs zid { ftl.zoneDescs zid with state := state })
    (hopen : cnt ftl' .openZone + (opened (ftl.zoneDescs zid).state).toNat =
      cnt ftl .openZone + (opened state).toNat)
    (hactive : cnt ftl' .activeZone + (active (ftl.zoneDescs zid).state).toNat =
      cnt ftl .activeZone + (active state).toNat)
    (hopenLe : cnt ftl' .openZone ≤ total ftl .openZone)
    (hactiveLe : cnt ftl' .activeZone ≤ total ftl .activeZone)
    (htotal : total ftl' = total ftl) (hstate : state ≠ .empty)
    (hlive : active state = true →
      (ftl.zoneDescs zid).state = .empty ∨ active (ftl.zoneDescs zid).state = true) :
    Move ftl ftl' zid .keep := by
  have hzid : ftl'.zoneDescs zid = { ftl.zoneDescs zid with state := state } := by
    rw [hdescs, Function.update_self]
  constructor
  · intro z hz
    rw [hdescs, Function.update_of_ne hz]
  · rw [hzid]
    exact hopen
  · rw [hzid]
    exact hactive
  · exact hopenLe
  · exact hactiveLe
  · exact htotal
  · rw [hzid]
  · rw [hzid]
  · rw [hzid]
    exact fun hempty => absurd hempty hstate
  · rw [hzid]
    intro hplain
    have hzone := h.plain hplain
    refine ⟨hzone.zslba_le, hzone.wp_le, fun hempty => absurd hempty hstate, fun hnew => ?_⟩
    rcases hlive hnew with hempty | hactive
    · have hwp := hzone.wp_of_empty hempty
      have hcapacity := h.capacity_eq
      have hpos := dev.zoneLbas_pos
      change (ftl.zoneDescs zid).wp < (ftl.zoneDescs zid).zslba + (ftl.zoneDescs zid).zoneCapacity
      omega
    · exact hzone.wp_lt_of_active hactive
  · rw [hzid]
    exact fun hplain => ⟨hplain, rfl⟩

theorem Move.of_zrwa (desc : ZoneDescriptor)
    (hdescs : ftl'.zoneDescs = Function.update ftl.zoneDescs zid desc)
    (hzrwa : desc.zrwav = true) (hstate : desc.state ≠ .empty)
    (hzslba : desc.zslba = (ftl.zoneDescs zid).zslba)
    (hcapacity : desc.zoneCapacity = (ftl.zoneDescs zid).zoneCapacity)
    (hopen : cnt ftl' .openZone + (opened (ftl.zoneDescs zid).state).toNat =
      cnt ftl .openZone + (opened desc.state).toNat)
    (hactive : cnt ftl' .activeZone + (active (ftl.zoneDescs zid).state).toNat =
      cnt ftl .activeZone + (active desc.state).toNat)
    (hopenLe : cnt ftl' .openZone ≤ total ftl .openZone)
    (hactiveLe : cnt ftl' .activeZone ≤ total ftl .activeZone)
    (htotal : total ftl' = total ftl) : Move ftl ftl' zid effect := by
  have hzid : ftl'.zoneDescs zid = desc := by
    rw [hdescs, Function.update_self]
  have hvacuous : (ftl'.zoneDescs zid).zrwav ≠ false := by
    rw [hzid, hzrwa]
    simp
  constructor
  · intro z hz
    rw [hdescs, Function.update_of_ne hz]
  · rw [hzid]
    exact hopen
  · rw [hzid]
    exact hactive
  · exact hopenLe
  · exact hactiveLe
  · exact htotal
  · rw [hzid]
    exact hzslba
  · rw [hzid]
    exact hcapacity
  · rw [hzid]
    exact fun hempty => absurd hempty hstate
  · exact fun hplain => absurd hplain hvacuous
  · exact fun hplain => absurd hplain hvacuous

theorem active_of_opened {state : ZoneState} (h : opened state = true) :
    active state = true := by
  cases state <;> simp_all [opened, active]

section Management

theorem zmgmtSendCloseZone_move (h : Sound dev ftl zid) :
    Move ftl (zmgmtSendCloseZone ftl zid).2 zid .keep := by
  have hclose : opened (ftl.zoneDescs zid).state = true →
      Move ftl (releaseZoneResource (changeZoneState ftl zid .closed) .openZone) zid
        .keep := by
    intro hopened
    have hpos := h.open_pos hopened
    have hactive := active_of_opened hopened
    have hrelease : cnt (releaseZoneResource (changeZoneState ftl zid .closed) .openZone)
        .openZone + 1 = cnt ftl .openZone := cnt_release_self hpos
    have hle := h.open_le
    refine Move.of_state .closed h (by simp) ?_ ?_ ?_ ?_ (by simp) (by simp) ?_
    · rw [hopened]
      simpa [opened] using hrelease
    · rw [hactive]
      simp [active]
    · omega
    · simpa using h.active_le
    · exact fun _ => .inr hactive
  rw [zmgmtSendCloseZone]
  cases hstate : (ftl.zoneDescs zid).state with
  | openedImpl => exact hclose (by rw [hstate]; rfl)
  | openedExpl => exact hclose (by rw [hstate]; rfl)
  | closed => exact Same.move ⟨rfl, rfl⟩ h
  | empty => exact Same.move ⟨rfl, rfl⟩ h
  | readOnly => exact Same.move ⟨rfl, rfl⟩ h
  | full => exact Same.move ⟨rfl, rfl⟩ h
  | offline => exact Same.move ⟨rfl, rfl⟩ h

structure ActiveReleased (ftl ftl' : ZnsFtl) : Prop where
  zoneDescs : ftl'.zoneDescs = ftl.zoneDescs
  open_cnt : cnt ftl' .openZone = cnt ftl .openZone
  active_cnt : cnt ftl' .activeZone + 1 = cnt ftl .activeZone
  totals : total ftl' = total ftl

theorem releaseActive_spec (zid : Nat) (hpos : 0 < cnt ftl .activeZone) :
    ActiveReleased ftl (releaseActive ftl zid) := by
  have hrelease := cnt_release_self hpos
  rw [releaseActive]
  split
  · exact ⟨rfl, by simp, by simpa using hrelease, by simp⟩
  · exact ⟨rfl, by simp, hrelease, by simp⟩

/-- What finishing and resetting give back for an active zone. -/
def deactivate (ftl : ZnsFtl) (zid : Nat) : ZnsFtl :=
  if opened (ftl.zoneDescs zid).state then
    releaseActive (releaseZoneResource ftl .openZone) zid
  else releaseActive ftl zid

/-- All that the counters held for zone `zid` is given back. -/
structure Deactivated (ftl ftl' : ZnsFtl) (zid : Nat) : Prop where
  zoneDescs : ftl'.zoneDescs = ftl.zoneDescs
  open_cnt : cnt ftl' .openZone + (opened (ftl.zoneDescs zid).state).toNat =
    cnt ftl .openZone
  active_cnt : cnt ftl' .activeZone + (active (ftl.zoneDescs zid).state).toNat =
    cnt ftl .activeZone
  totals : total ftl' = total ftl

theorem deactivate_spec (h : Sound dev ftl zid)
    (hactive : active (ftl.zoneDescs zid).state = true) :
    Deactivated ftl (deactivate ftl zid) zid := by
  have hactivePos := h.active_pos hactive
  rw [deactivate]
  cases hopened : opened (ftl.zoneDescs zid).state with
  | true =>
      have hpos : 0 < cnt (releaseZoneResource ftl .openZone) .activeZone := by
        simpa using hactivePos
      have hspec := releaseActive_spec zid hpos
      have hopen := cnt_release_self (h.open_pos hopened)
      rw [if_pos rfl]
      refine ⟨hspec.zoneDescs, ?_, ?_, ?_⟩
      · rw [hspec.open_cnt, hopened]
        exact hopen
      · rw [hactive]
        simpa using hspec.active_cnt
      · rw [hspec.totals, total_release]
  | false =>
      have hspec := releaseActive_spec zid hactivePos
      rw [if_neg (by simp)]
      refine ⟨hspec.zoneDescs, ?_, ?_, hspec.totals⟩
      · rw [hopened]
        exact hspec.open_cnt
      · rw [hactive]
        exact hspec.active_cnt

theorem Deactivated.refl (hopened : opened (ftl.zoneDescs zid).state = false)
    (hactive : active (ftl.zoneDescs zid).state = false) : Deactivated ftl ftl zid :=
  ⟨rfl, by rw [hopened]; rfl, by rw [hactive]; rfl, rfl⟩

theorem Deactivated.finish (hrelease : Deactivated ftl ftl' zid) (h : Sound dev ftl zid) :
    Move ftl (changeZoneState ftl' zid .full) zid .keep := by
  have hopen := hrelease.open_cnt
  have hactive := hrelease.active_cnt
  have hopenLe := h.open_le
  have hactiveLe := h.active_le
  refine Move.of_state .full h ?_ ?_ ?_ ?_ ?_ hrelease.totals (by simp) (by simp [active])
  · rw [zoneDescs_changeZoneState, hrelease.zoneDescs]
  · simpa [opened] using hopen
  · simpa [active] using hactive
  · simp only [cnt_changeZoneState]
    omega
  · simp only [cnt_changeZoneState]
    omega

theorem zmgmtSendFinishZone_move (h : Sound dev ftl zid) :
    Move ftl (zmgmtSendFinishZone ftl zid).2 zid .keep := by
  have hfinish : active (ftl.zoneDescs zid).state = true →
      Move ftl (changeZoneState (deactivate ftl zid) zid .full) zid .keep :=
    fun hactive => (deactivate_spec h hactive).finish h
  rw [zmgmtSendFinishZone]
  cases hstate : (ftl.zoneDescs zid).state with
  | openedImpl =>
      rw [hstate, deactivate, hstate] at hfinish
      exact hfinish rfl
  | openedExpl =>
      rw [hstate, deactivate, hstate] at hfinish
      exact hfinish rfl
  | closed =>
      rw [hstate, deactivate, hstate] at hfinish
      exact hfinish rfl
  | empty =>
      have hnone : Deactivated ftl ftl zid := .refl (by rw [hstate]; rfl) (by rw [hstate]; rfl)
      exact hnone.finish h
  | full => exact Same.move ⟨rfl, rfl⟩ h
  | readOnly => exact Same.move ⟨rfl, rfl⟩ h
  | offline => exact Same.move ⟨rfl, rfl⟩ h

theorem Deactivated.reset (hrelease : Deactivated ftl ftl' zid) (h : Sound dev ftl zid) :
    Move ftl (resetZone dev.zpp (changeZoneState ftl' zid .empty) zid) zid .reset := by
  have hopen := hrelease.open_cnt
  have hactive := hrelease.active_cnt
  have hopenLe := h.open_le
  have hactiveLe := h.active_le
  have hdescs : (resetZone dev.zpp (changeZoneState ftl' zid .empty) zid).zoneDescs =
      Function.update ftl.zoneDescs zid
        { ftl.zoneDescs zid with
          state := .empty
          wp := (ftl.zoneDescs zid).zslba
          zrwav := false } := by
    rw [resetZone]
    split <;> simp [hrelease.zoneDescs, ZnsFtl.setDesc, ZnsFtl.setBuffer]
  have hres : (resetZone dev.zpp (changeZoneState ftl' zid .empty) zid).resInfos =
      ftl'.resInfos := by
    rw [resetZone]
    split <;> rfl
  have hcnt : ∀ t, cnt (resetZone dev.zpp (changeZoneState ftl' zid .empty) zid) t =
      cnt ftl' t := fun t => by rw [cnt, hres, cnt]
  constructor
  · intro z hz
    rw [hdescs, Function.update_of_ne hz]
  · rw [hdescs, Function.update_self, hcnt]
    simpa [opened] using hopen
  · rw [hdescs, Function.update_self, hcnt]
    simpa [active] using hactive
  · rw [hcnt]
    omega
  · rw [hcnt]
    omega
  · rw [← hrelease.totals]
    funext t
    rw [total, hres, total]
  · rw [hdescs, Function.update_self]
  · rw [hdescs, Function.update_self]
  · rw [hdescs, Function.update_self]
    exact fun _ => rfl
  · rw [hdescs, Function.update_self]
    exact fun _ => ⟨le_rfl, Nat.le_add_right _ _, fun _ => rfl, by simp [active]⟩
  · rw [hdescs, Function.update_self]
    exact fun _ => rfl

theorem zmgmtSendResetZone_move (h : Sound dev ftl zid) :
    Move ftl (zmgmtSendResetZone dev.zpp ftl zid).2 zid
      (if (zmgmtSendResetZone dev.zpp ftl zid).1 = .success then .reset else .keep) := by
  have hreset : active (ftl.zoneDescs zid).state = true → Move ftl (resetZone dev.zpp
      (changeZoneState (deactivate ftl zid) zid .empty) zid) zid .reset :=
    fun hactive => (deactivate_spec h hactive).reset h
  rw [zmgmtSendResetZone]
  cases hstate : (ftl.zoneDescs zid).state with
  | openedImpl =>
      rw [hstate, deactivate, hstate] at hreset
      exact hreset rfl
  | openedExpl =>
      rw [hstate, deactivate, hstate] at hreset
      exact hreset rfl
  | closed =>
      rw [hstate, deactivate, hstate] at hreset
      exact hreset rfl
  | empty =>
      have hnone : Deactivated ftl ftl zid := .refl (by rw [hstate]; rfl) (by rw [hstate]; rfl)
      exact hnone.reset h
  | full =>
      have hnone : Deactivated ftl ftl zid := .refl (by rw [hstate]; rfl) (by rw [hstate]; rfl)
      exact hnone.reset h
  | readOnly => exact Same.move ⟨rfl, rfl⟩ h
  | offline => exact Same.move ⟨rfl, rfl⟩ h

/-- `base` holds the active resource for zone `zid`, which is not open. -/
structure Activated (ftl base : ZnsFtl) (zid : Nat) : Prop where
  closed : opened (ftl.zoneDescs zid).state = false
  origin : (ftl.zoneDescs zid).state = .empty ∨ active (ftl.zoneDescs zid).state = true
  open_cnt : cnt base .openZone = cnt ftl .openZone
  active_cnt : cnt base .activeZone + (active (ftl.zoneDescs zid).state).toNat =
    cnt ftl .activeZone + 1
  active_le : cnt base .activeZone ≤ total ftl .activeZone
  totals : total base = total ftl

theorem Activated.of_closed (h : Sound dev ftl zid)
    (hstate : (ftl.zoneDescs zid).state = .closed) : Activated ftl ftl zid where
  closed := by rw [hstate]; rfl
  origin := .inr (by rw [hstate]; rfl)
  open_cnt := rfl
  active_cnt := by rw [hstate]; rfl
  active_le := h.active_le
  totals := rfl

theorem Activated.of_empty {base : ZnsFtl} (hstate : (ftl.zoneDescs zid).state = .empty)
    (hlt : cnt ftl .activeZone < total ftl .activeZone)
    (hopen : cnt base .openZone = cnt ftl .openZone)
    (hactive : cnt base .activeZone = cnt ftl .activeZone + 1)
    (htotal : total base = total ftl) : Activated ftl base zid where
  closed := by rw [hstate]; rfl
  origin := .inl hstate
  open_cnt := hopen
  active_cnt := by
    rw [hstate]
    simpa [active] using hactive
  active_le := by omega
  totals := htotal

theorem Activated.opened_cnt {base : ZnsFtl} (hbase : Activated ftl base zid)
    (state : ZoneState) (hopened : opened state = true)
    (hlt : cnt ftl .openZone < total ftl .openZone) :
    cnt (acquired base .openZone) .openZone + (opened (ftl.zoneDescs zid).state).toNat =
        cnt ftl .openZone + (opened state).toNat ∧
      cnt (acquired base .openZone) .activeZone + (active (ftl.zoneDescs zid).state).toNat =
        cnt ftl .activeZone + (active state).toNat ∧
      cnt (acquired base .openZone) .openZone ≤ total ftl .openZone ∧
      cnt (acquired base .openZone) .activeZone ≤ total ftl .activeZone ∧
      total (acquired base .openZone) = total ftl := by
  have hopen := hbase.open_cnt
  have hactive := hbase.active_cnt
  rw [hbase.closed, hopened, active_of_opened hopened]
  simp only [cnt_acquired_self, total_acquired, hbase.totals]
  rw [cnt_acquired_of_ne (by simp)]
  simp only [Bool.toNat_true, Bool.toNat_false]
  exact ⟨by omega, hactive, by omega, hbase.active_le, trivial⟩

theorem Activated.open {base : ZnsFtl} (hbase : Activated ftl base zid)
    (h : Sound dev ftl zid) (hdescs : base.zoneDescs = ftl.zoneDescs)
    (state : ZoneState) (hopened : opened state = true)
    (hlt : cnt ftl .openZone < total ftl .openZone) :
    Move ftl (changeZoneState (acquired base .openZone) zid state) zid .keep := by
  obtain ⟨hopen, hactive, hopenLe, hactiveLe, htotal⟩ := hbase.opened_cnt state hopened hlt
  refine Move.of_state state h ?_ hopen hactive hopenLe hactiveLe htotal ?_ fun _ =>
    hbase.origin
  · rw [zoneDescs_changeZoneState, zoneDescs_acquired, hdescs]
  · rintro rfl
    simp [opened] at hopened

theorem Activated.tryOpen {base : ZnsFtl} (hbase : Activated ftl base zid)
    (h : Sound dev ftl zid) (hdescs : base.zoneDescs = ftl.zoneDescs)
    (hrefused : ¬cnt ftl .openZone < total ftl .openZone → Same ftl base)
    (state : ZoneState) (hopened : opened state = true) (status : Status) :
    Move ftl (match acquireZoneResource base .openZone with
      | (false, ftl) => (status, ftl)
      | (true, ftl) => (.success, changeZoneState ftl zid state)).2 zid .keep := by
  by_cases hlt : cnt ftl .openZone < total ftl .openZone
  · have hlt' : cnt base .openZone < total base .openZone := by
      rw [hbase.open_cnt, hbase.totals]
      exact hlt
    rw [acquire_of_lt hlt']
    exact hbase.open h hdescs state hopened hlt
  · have hlt' : ¬cnt base .openZone < total base .openZone := by
      rw [hbase.open_cnt, hbase.totals]
      exact hlt
    rw [acquire_of_not_lt hlt']
    exact (hrefused hlt).move h

theorem cnt_lt_total_of_not_full {type : ZoneResource}
    (hle : cnt ftl type ≤ total ftl type) (hfull : ¬isZoneResourceFull ftl type = true) :
    cnt ftl type < total ftl type := by
  rw [isZoneResourceFull_iff] at hfull
  omega

theorem openZrwa_move (hstate : (ftl.zoneDescs zid).state = .empty)
    (hactive : cnt ftl .activeZone < total ftl .activeZone)
    (hopen : cnt ftl .openZone < total ftl .openZone) :
    Move ftl (openExplicitly (acquireZoneResource ((acquireZoneResource ftl .zrwaZone).2.setDesc
      zid { (acquireZoneResource ftl .zrwaZone).2.zoneDescs zid with zrwav := true })
        .activeZone).2 zid).2 zid .keep := by
  generalize hmarked : (acquireZoneResource ftl .zrwaZone).2.setDesc zid
    { (acquireZoneResource ftl .zrwaZone).2.zoneDescs zid with zrwav := true } = marked
  have hmarkedOpen : cnt marked .openZone = cnt ftl .openZone := by
    rw [← hmarked]
    simp
  have hmarkedActive : cnt marked .activeZone = cnt ftl .activeZone := by
    rw [← hmarked]
    simp
  have hmarkedTotal : total marked = total ftl := by
    rw [← hmarked]
    simp
  have hmarkedDescs : marked.zoneDescs = Function.update ftl.zoneDescs zid
      { ftl.zoneDescs zid with zrwav := true } := by
    rw [← hmarked]
    simp
  have hlt : cnt marked .activeZone < total marked .activeZone := by
    rw [hmarkedActive, hmarkedTotal]
    exact hactive
  have hbase : Activated ftl (acquired marked .activeZone) zid :=
    .of_empty hstate hactive (by simpa using hmarkedOpen) (by simpa using hmarkedActive)
      (by simpa using hmarkedTotal)
  have hltOpen : cnt (acquired marked .activeZone) .openZone <
      total (acquired marked .activeZone) .openZone := by
    rw [hbase.open_cnt, hbase.totals]
    exact hopen
  rw [acquire_of_lt hlt, openExplicitly, acquire_of_lt hltOpen]
  obtain ⟨hopenCnt, hactiveCnt, hopenLe, hactiveLe, htotal⟩ :=
    hbase.opened_cnt .openedExpl rfl hopen
  refine Move.of_zrwa { ftl.zoneDescs zid with zrwav := true, state := .openedExpl } ?_ rfl
    (by simp) rfl rfl hopenCnt hactiveCnt hopenLe hactiveLe htotal
  simp [hmarkedDescs]

theorem zmgmtSendOpenZone_move (h : Sound dev ftl zid) (zrwa : Bool) :
    Move ftl (zmgmtSendOpenZone ftl zid zrwa).2 zid .keep := by
  rw [zmgmtSendOpenZone]
  cases hstate : (ftl.zoneDescs zid).state with
  | empty =>
      dsimp only
      split
      · exact Same.move ⟨rfl, rfl⟩ h
      · next hactiveFull =>
        split
        · exact Same.move ⟨rfl, rfl⟩ h
        · next hopenFull =>
          have hactive := cnt_lt_total_of_not_full h.active_le hactiveFull
          have hopen := cnt_lt_total_of_not_full h.open_le hopenFull
          cases zrwa with
          | false =>
              rw [if_neg (by simp), acquire_of_lt hactive]
              have hbase : Activated ftl (acquired ftl .activeZone) zid :=
                .of_empty hstate hactive (by simp) (by simp) (by simp)
              exact hbase.tryOpen h rfl (fun hno => absurd hopen hno) .openedExpl rfl _
          | true =>
              rw [if_pos rfl]
              split
              · exact Same.move ⟨rfl, rfl⟩ h
              · exact openZrwa_move hstate hactive hopen
  | closed =>
      exact (Activated.of_closed h hstate).tryOpen h rfl (fun _ => ⟨rfl, rfl⟩) .openedExpl
        rfl _
  | openedImpl =>
      have hopen := h.open_le
      have hactive := h.active_le
      refine Move.of_state .openedExpl h (by simp) ?_ ?_ hopen hactive rfl (by simp)
        fun _ => .inr (by rw [hstate]; rfl)
      · simp [hstate, opened]
      · simp [hstate, active]
  | openedExpl => exact Same.move ⟨rfl, rfl⟩ h
  | readOnly => exact Same.move ⟨rfl, rfl⟩ h
  | full => exact Same.move ⟨rfl, rfl⟩ h
  | offline => exact Same.move ⟨rfl, rfl⟩ h

theorem zmgmtSendOfflineZone_move (h : Sound dev ftl zid) :
    Move ftl (zmgmtSendOfflineZone ftl zid).2 zid .keep := by
  rw [zmgmtSendOfflineZone]
  cases hstate : (ftl.zoneDescs zid).state with
  | readOnly =>
      refine Move.of_state .offline h (by simp) ?_ ?_ h.open_le h.active_le rfl (by simp)
        (by simp [active])
      · simp [hstate, opened]
      · simp [hstate, active]
  | _ => exact Same.move ⟨rfl, rfl⟩ h

theorem setWp_move (h : Sound dev ftl zid) (hzrwa : (ftl.zoneDescs zid).zrwav = true)
    (wp : Nat) :
    Move ftl (ftl.setDesc zid { ftl.zoneDescs zid with wp := wp }) zid effect := by
  refine Move.of_zrwa _ rfl hzrwa ?_ rfl rfl rfl rfl h.open_le h.active_le rfl
  intro hempty
  have hplain := h.empty_plain hempty
  simp [hzrwa] at hplain

theorem zrwaFinished_move {base : ZnsFtl} (h : Sound dev ftl zid)
    (hzrwa : (ftl.zoneDescs zid).zrwav = true)
    (hactive : active (ftl.zoneDescs zid).state = true) {wp : Nat}
    (hdescs : base.zoneDescs =
      Function.update ftl.zoneDescs zid { ftl.zoneDescs zid with wp := wp })
    (hopen : cnt base .openZone + (opened (ftl.zoneDescs zid).state).toNat =
      cnt ftl .openZone)
    (hactiveCnt : cnt base .activeZone = cnt ftl .activeZone)
    (htotal : total base = total ftl) :
    Move ftl (changeZoneState (releaseZoneResource (releaseZoneResource base .activeZone)
      .zrwaZone) zid .full) zid .keep := by
  have hpos : 0 < cnt base .activeZone := by
    rw [hactiveCnt]
    exact h.active_pos hactive
  have hrelease := cnt_release_self hpos
  have hopenLe := h.open_le
  have hactiveLe := h.active_le
  refine Move.of_zrwa { ftl.zoneDescs zid with wp := wp, state := .full } ?_ hzrwa (by simp)
    rfl rfl ?_ ?_ ?_ ?_ (by simp [htotal])
  · simp [hdescs]
  · simpa [opened] using hopen
  · simp only [cnt_changeZoneState]
    rw [cnt_release_of_ne (by simp), hactive]
    simp only [Bool.toNat_true, active, Bool.toNat_false]
    omega
  · simp only [cnt_changeZoneState]
    rw [cnt_release_of_ne (by simp), cnt_release_of_ne (by simp)]
    omega
  · simp only [cnt_changeZoneState]
    rw [cnt_release_of_ne (by simp)]
    omega

theorem flushZrwaTo_move (h : Sound dev ftl zid)
    (hzrwa : (ftl.zoneDescs zid).zrwav = true) (slba : Nat) :
    Move ftl (flushZrwaTo dev.spp dev.zpp ftl zid slba).2 zid .keep := by
  have hopenCase : opened (ftl.zoneDescs zid).state = true →
      Move ftl (if slba + 1 =
          zoneToSlba dev.spp dev.zpp zid + (ftl.zoneDescs zid).zoneCapacity then
        changeZoneState (releaseZoneResource (releaseZoneResource (releaseZoneResource
          (ftl.setDesc zid { ftl.zoneDescs zid with wp := slba + 1 }) .openZone)
            .activeZone) .zrwaZone) zid .full
        else ftl.setDesc zid { ftl.zoneDescs zid with wp := slba + 1 }) zid .keep := by
    intro hopened
    split
    · refine zrwaFinished_move h hzrwa (active_of_opened hopened) rfl ?_ (by simp) (by simp)
      rw [hopened]
      exact cnt_release_self (h.open_pos hopened)
    · exact setWp_move h hzrwa _
  rw [flushZrwaTo]
  dsimp only
  split
  · next hstate => exact hopenCase (by rw [hstate]; rfl)
  · next hstate => exact hopenCase (by rw [hstate]; rfl)
  · next hstate =>
    split
    · exact zrwaFinished_move h hzrwa (by rw [hstate]; rfl) rfl (by simp [hstate, opened])
        rfl rfl
    · exact setWp_move h hzrwa _
  · exact Same.move ⟨rfl, rfl⟩ h

/-- The effect of a zone-management action on the write pointer. -/
def sendEffect (dev : ZonedDevice) (ftl : ZnsFtl) (zid : Nat) (action : ZoneSendAction) :
    WpEffect :=
  if action = .resetZone ∧ (zmgmtSendResetZone dev.zpp ftl zid).1 = .success then .reset
  else .keep

theorem zmgmtSend_move {slba : Nat} {action : ZoneSendAction} {option : Bool}
    {status : Status} (h : Sound dev ftl (lbaToZone dev.spp dev.zpp slba))
    (hrun : zmgmtSend dev.spp dev.zpp ftl slba action option = .ok (status, ftl')) :
    Move ftl ftl' (lbaToZone dev.spp dev.zpp slba)
      (sendEffect dev ftl (lbaToZone dev.spp dev.zpp slba) action) := by
  cases action with
  | closeZone =>
      obtain rfl := congrArg Prod.snd (Except.ok.inj hrun)
      exact zmgmtSendCloseZone_move h
  | finishZone =>
      obtain rfl := congrArg Prod.snd (Except.ok.inj hrun)
      exact zmgmtSendFinishZone_move h
  | openZone =>
      obtain rfl := congrArg Prod.snd (Except.ok.inj hrun)
      exact zmgmtSendOpenZone_move h option
  | resetZone =>
      obtain rfl := congrArg Prod.snd (Except.ok.inj hrun)
      simpa [sendEffect] using zmgmtSendResetZone_move h
  | offlineZone =>
      obtain rfl := congrArg Prod.snd (Except.ok.inj hrun)
      exact zmgmtSendOfflineZone_move h
  | flushExplZrwa =>
      rw [zmgmtSend, zmgmtSendFlushExplicitZrwa] at hrun
      split at hrun
      · obtain rfl := congrArg Prod.snd (Except.ok.inj hrun)
        exact Same.move ⟨rfl, rfl⟩ h
      · next hzrwa =>
        split at hrun
        · obtain rfl := congrArg Prod.snd (Except.ok.inj hrun)
          exact Same.move ⟨rfl, rfl⟩ h
        · split at hrun
          · simp at hrun
          · split at hrun
            · obtain rfl := congrArg Prod.snd (Except.ok.inj hrun)
              exact Same.move ⟨rfl, rfl⟩ h
            · obtain rfl := congrArg Prod.snd (Except.ok.inj hrun)
              exact flushZrwaTo_move h (by simpa using hzrwa) slba
  | other code =>
      obtain rfl := congrArg Prod.snd (Except.ok.inj hrun)
      exact Same.move ⟨rfl, rfl⟩ h

end Management

section Addresses

theorem lpnToZone_lbaToLpn_of_aligned {spp : SsdParams} {zpp : ZnsParams} (hsecsz : spp.secsz = 512)
    (hsecs : spp.secsPerPg = 8) (hpgsz : spp.pgsz = 4096)
    (haligned : zpp.zoneSize % spp.pgsz = 0) (lba : Nat) :
    lpnToZone spp zpp (lbaToLpn spp lba) = lbaToZone spp zpp lba := by
  rw [hpgsz] at haligned
  have hblocks : zpp.zoneSize / 512 = 8 * (zpp.zoneSize / 4096) := by omega
  rw [lpnToZone, lbaToLpn, lbaToZone, hsecs, hpgsz, hsecsz, hblocks, Nat.div_div_eq_div_mul]

theorem znsProcNvmeIoCmd_write {spp : SsdParams} {zpp : ZnsParams} {ftl : ZnsFtl}
    {cmd : ZnsCommand} (hop : cmd.opcode = .write ∨ cmd.opcode = .zoneAppend) :
    znsProcNvmeIoCmd spp zpp ftl cmd = znsWrite spp zpp ftl cmd := by
  rcases hop with hop | hop
  · rw [znsProcNvmeIoCmd, hop]
  · rw [znsProcNvmeIoCmd, hop]

variable {z lba nrLba : Nat}

theorem ZonedDevice.end_lt (dev : ZonedDevice) (hz : z < dev.zpp.nrZones) :
    z * byteToLba dev.zpp.zoneSize + byteToLba dev.zpp.zoneSize < 2 ^ 32 := by
  have hspace := dev.lbaSpace
  have hle : (z + 1) * byteToLba dev.zpp.zoneSize ≤
      dev.zpp.nrZones * byteToLba dev.zpp.zoneSize := Nat.mul_le_mul_right _ hz
  rw [Nat.add_mul, Nat.one_mul] at hle
  omega

theorem ZonedDevice.lt_two_pow (dev : ZonedDevice) (hz : z < dev.zpp.nrZones) :
    z < 2 ^ 32 := by
  have hend := dev.end_lt hz
  have hle : z * 1 ≤ z * byteToLba dev.zpp.zoneSize :=
    Nat.mul_le_mul_left z dev.zoneLbas_pos
  omega

theorem lbaToZone_eq (dev : ZonedDevice) (lba : Nat) :
    lbaToZone dev.spp dev.zpp lba = lba / byteToLba dev.zpp.zoneSize % 2 ^ 32 := by
  rw [lbaToZone, dev.secsz_eq, byteToLba]

theorem zoneToSlba_eq (hz : z < dev.zpp.nrZones) :
    zoneToSlba dev.spp dev.zpp z = z * byteToLba dev.zpp.zoneSize := by
  have hend := dev.end_lt hz
  have hdef : zoneToSlba dev.spp dev.zpp z =
      z * byteToLba dev.zpp.zoneSize % 2 ^ 32 := by
    rw [zoneToSlba, dev.secsz_eq, byteToLba]
  rw [hdef, Nat.mod_eq_of_lt (by omega)]

theorem lbaToZone_of_mem (hz : z < dev.zpp.nrZones)
    (hlow : z * byteToLba dev.zpp.zoneSize ≤ lba)
    (hhigh : lba < z * byteToLba dev.zpp.zoneSize + byteToLba dev.zpp.zoneSize) :
    lbaToZone dev.spp dev.zpp lba = z := by
  have hdiv : lba / byteToLba dev.zpp.zoneSize = z := by
    refine Nat.div_eq_of_lt_le hlow ?_
    rw [Nat.add_mul, Nat.one_mul]
    exact hhigh
  rw [lbaToZone_eq, hdiv, Nat.mod_eq_of_lt (dev.lt_two_pow hz)]

theorem le_of_checkBoundaryError (hz : z < dev.zpp.nrZones)
    (hlow : z * byteToLba dev.zpp.zoneSize ≤ lba)
    (hhigh : lba < z * byteToLba dev.zpp.zoneSize + byteToLba dev.zpp.zoneSize)
    (hpos : 0 < nrLba) (hsize : nrLba ≤ 65536)
    (hcheck : checkBoundaryError dev.spp dev.zpp lba nrLba = true) :
    lba + nrLba ≤ z * byteToLba dev.zpp.zoneSize + byteToLba dev.zpp.zoneSize := by
  have hend := dev.end_lt hz
  have hlast : lastLba lba nrLba = lba + nrLba - 1 := by
    rw [lastLba, if_neg (by omega), Nat.mod_eq_of_lt (by omega)]
  rw [checkBoundaryError, beq_iff_eq, lbaToZone_of_mem hz hlow hhigh, hlast,
    lbaToZone_eq] at hcheck
  have hsmall : (lba + nrLba - 1) / byteToLba dev.zpp.zoneSize < 2 ^ 32 := by
    refine Nat.lt_of_le_of_lt (Nat.div_le_div_left dev.eight_le (by omega)) ?_
    omega
  rw [Nat.mod_eq_of_lt hsmall] at hcheck
  have hlt : lba + nrLba - 1 < (z + 1) * byteToLba dev.zpp.zoneSize :=
    (Nat.div_lt_iff_lt_mul dev.zoneLbas_pos).1 (by omega)
  rw [Nat.add_mul, Nat.one_mul] at hlt
  omega

end Addresses

theorem Move.trans (h : Move ftl ftl' zid .keep) (h' : Move ftl' ftl'' zid effect) :
    Move ftl ftl'' zid effect where
  others z hz := (h'.others z hz).trans (h.others z hz)
  open_cnt := by
    have h1 := h.open_cnt
    have h2 := h'.open_cnt
    omega
  active_cnt := by
    have h1 := h.active_cnt
    have h2 := h'.active_cnt
    omega
  open_le := by
    rw [← h.totals]
    exact h'.open_le
  active_le := by
    rw [← h.totals]
    exact h'.active_le
  totals := h'.totals.trans h.totals
  zslba_eq := h'.zslba_eq.trans h.zslba_eq
  capacity_eq := h'.capacity_eq.trans h.capacity_eq
  empty_plain := h'.empty_plain
  plain := h'.plain
  wp hplain := by
    have hwp := h'.wp hplain
    cases effect with
    | keep =>
        obtain ⟨hmid, heq⟩ := hwp
        exact ⟨(h.wp hmid).1, heq.trans (h.wp hmid).2⟩
    | reset => exact hwp.trans h.zslba_eq
    | advance nrLba =>
        obtain ⟨hmid, heq⟩ := hwp
        refine ⟨(h.wp hmid).1, ?_⟩
        rw [heq, (h.wp hmid).2]

theorem Move.congr (h : Move ftl ftl' zid effect) (hsame : Same ftl' ftl'') :
    Move ftl ftl'' zid effect := by
  have hcnt : cnt ftl'' = cnt ftl' := by
    funext t
    rw [cnt, hsame.resInfos, cnt]
  have htotal : total ftl'' = total ftl' := by
    funext t
    rw [total, hsame.resInfos, total]
  obtain ⟨h1, h2, h3, h4, h5, h6, h7, h8, h9, h10, h11⟩ := h
  refine ⟨?_, ?_, ?_, ?_, ?_, ?_, ?_, ?_, ?_, ?_, ?_⟩
  all_goals try rw [hsame.zoneDescs]
  all_goals try rw [hcnt]
  all_goals try rw [htotal]
  all_goals assumption

section Writes

theorem openForWrite_spec (h : Sound dev ftl zid) (slba : Nat) :
    ((openForWrite ftl zid slba).1 = .success ∧
      Move ftl (openForWrite ftl zid slba).2 zid .keep ∧
      opened ((openForWrite ftl zid slba).2.zoneDescs zid).state = true ∧
      ((openForWrite ftl zid slba).2.zoneDescs zid).zrwav = (ftl.zoneDescs zid).zrwav ∧
      ((ftl.zoneDescs zid).state = .empty ∨ active (ftl.zoneDescs zid).state = true)) ∨
    ((openForWrite ftl zid slba).1 ≠ .success ∧ (openForWrite ftl zid slba).2 = ftl) := by
  have hopenFrom : ∀ base, Activated ftl base zid → base.zoneDescs = ftl.zoneDescs →
      cnt ftl .openZone < total ftl .openZone →
      (openImplicitly base zid).1 = .success ∧
      Move ftl (openImplicitly base zid).2 zid .keep ∧
      opened ((openImplicitly base zid).2.zoneDescs zid).state = true ∧
      ((openImplicitly base zid).2.zoneDescs zid).zrwav = (ftl.zoneDescs zid).zrwav ∧
      ((ftl.zoneDescs zid).state = .empty ∨ active (ftl.zoneDescs zid).state = true) := by
    intro base hbase hdescs hlt
    have hlt' : cnt base .openZone < total base .openZone := by
      rw [hbase.open_cnt, hbase.totals]
      exact hlt
    rw [openImplicitly, acquire_of_lt hlt']
    exact ⟨rfl, hbase.open h hdescs .openedImpl rfl hlt, by simp [opened],
      by simp [hdescs], hbase.origin⟩
  rw [openForWrite]
  cases hstate : (ftl.zoneDescs zid).state with
  | empty =>
      dsimp only
      split
      · exact .inr ⟨by simp, rfl⟩
      · split
        · exact .inr ⟨by simp, rfl⟩
        · next hactiveFull =>
          split
          · exact .inr ⟨by simp, rfl⟩
          · next hopenFull =>
            have hactive := cnt_lt_total_of_not_full h.active_le hactiveFull
            have hopen := cnt_lt_total_of_not_full h.open_le hopenFull
            have hbase : Activated ftl (acquired ftl .activeZone) zid :=
              .of_empty hstate hactive (by simp) (by simp) (by simp)
            rw [acquire_of_lt hactive]
            rw [hstate] at hopenFrom
            exact .inl (hopenFrom _ hbase rfl hopen)
  | closed =>
      by_cases hlt : cnt ftl .openZone < total ftl .openZone
      · rw [hstate] at hopenFrom
        exact .inl (hopenFrom ftl (.of_closed h hstate) rfl hlt)
      · have hrefused : openImplicitly ftl zid = (.noOpenZone, ftl) := by
          rw [openImplicitly, acquire_of_not_lt hlt]
        exact .inr (by simp [hrefused])
  | openedImpl =>
      exact .inl ⟨rfl, Same.move ⟨rfl, rfl⟩ h, by rw [hstate]; rfl, rfl, .inr rfl⟩
  | openedExpl =>
      exact .inl ⟨rfl, Same.move ⟨rfl, rfl⟩ h, by rw [hstate]; rfl, rfl, .inr rfl⟩
  | full => exact .inr ⟨by simp, rfl⟩
  | readOnly => exact .inr ⟨by simp, rfl⟩
  | offline => exact .inr ⟨by simp, rfl⟩

theorem filled_cnt {base : ZnsFtl} (h : Sound dev ftl zid)
    (hopened : opened (ftl.zoneDescs zid).state = true) (hcnt : cnt base = cnt ftl) :
    cnt (releaseZoneResource (releaseZoneResource base .openZone) .activeZone) .openZone + 1 =
        cnt ftl .openZone ∧
      cnt (releaseZoneResource (releaseZoneResource base .openZone) .activeZone)
        .activeZone + 1 = cnt ftl .activeZone := by
  have hopen : 0 < cnt base .openZone := by
    rw [hcnt]
    exact h.open_pos hopened
  have hactive : 0 < cnt (releaseZoneResource base .openZone) .activeZone := by
    rw [cnt_release_of_ne (by simp), hcnt]
    exact h.active_pos (active_of_opened hopened)
  have hopenCnt := cnt_release_self hopen
  have hactiveCnt := cnt_release_self hactive
  constructor
  · rw [cnt_release_of_ne (by simp), hopenCnt, hcnt]
  · rw [hactiveCnt, cnt_release_of_ne (by simp), hcnt]

theorem increaseWritePtr_zrwa_move (h : Sound dev ftl zid)
    (hzrwa : (ftl.zoneDescs zid).zrwav = true)
    (hopened : opened (ftl.zoneDescs zid).state = true) (nrLba : Nat) :
    Move ftl (increaseWritePtr dev.spp dev.zpp ftl zid nrLba) zid effect := by
  rw [increaseWritePtr]
  dsimp only
  split
  · obtain ⟨hopen, hactive⟩ := filled_cnt h hopened (cnt_setDesc _)
    have hopenLe := h.open_le
    have hactiveLe := h.active_le
    refine Move.of_zrwa
      { ftl.zoneDescs zid with
        wp := ((ftl.zoneDescs zid).wp + nrLba) % 2 ^ 64
        state := .full } ?_ hzrwa (by simp) rfl rfl ?_ ?_ ?_ ?_ (by simp)
    · simp
    · rw [hopened]
      exact hopen
    · rw [active_of_opened hopened]
      exact hactive
    · rw [cnt_changeZoneState]
      omega
    · rw [cnt_changeZoneState]
      omega
  · exact setWp_move h hzrwa _

theorem Move.of_advance {nrLba : Nat} (state : ZoneState) (h : Sound dev ftl zid)
    (hplain : (ftl.zoneDescs zid).zrwav = false)
    (hdescs : ftl'.zoneDescs = Function.update ftl.zoneDescs zid
      { ftl.zoneDescs zid with wp := (ftl.zoneDescs zid).wp + nrLba, state := state })
    (hopen : cnt ftl' .openZone + (opened (ftl.zoneDescs zid).state).toNat =
      cnt ftl .openZone + (opened state).toNat)
    (hactive : cnt ftl' .activeZone + (active (ftl.zoneDescs zid).state).toNat =
      cnt ftl .activeZone + (active state).toNat)
    (hopenLe : cnt ftl' .openZone ≤ total ftl .openZone)
    (hactiveLe : cnt ftl' .activeZone ≤ total ftl .activeZone)
    (htotal : total ftl' = total ftl) (hstate : state ≠ .empty)
    (hfits : (ftl.zoneDescs zid).wp + nrLba ≤
      (ftl.zoneDescs zid).zslba + (ftl.zoneDescs zid).zoneCapacity)
    (hlive : active state = true → (ftl.zoneDescs zid).wp + nrLba ≠
      (ftl.zoneDescs zid).zslba + (ftl.zoneDescs zid).zoneCapacity) :
    Move ftl ftl' zid (.advance nrLba) := by
  have hzid : ftl'.zoneDescs zid = { ftl.zoneDescs zid with
      wp := (ftl.zoneDescs zid).wp + nrLba
      state := state } := by
    rw [hdescs, Function.update_self]
  have hlow := (h.plain hplain).zslba_le
  constructor
  · intro z hz
    rw [hdescs, Function.update_of_ne hz]
  · rw [hzid]
    exact hopen
  · rw [hzid]
    exact hactive
  · exact hopenLe
  · exact hactiveLe
  · exact htotal
  · rw [hzid]
  · rw [hzid]
  · rw [hzid]
    exact fun hempty => absurd hempty hstate
  · rw [hzid]
    exact fun _ => ⟨Nat.le_add_right_of_le hlow, hfits, fun hempty => absurd hempty hstate,
      fun hnew => Nat.lt_of_le_of_ne hfits (hlive hnew)⟩
  · rw [hzid]
    exact fun _ => ⟨hplain, rfl⟩

theorem increaseWritePtr_plain_move (h : Sound dev ftl zid) (hz : zid < dev.zpp.nrZones)
    (hplain : (ftl.zoneDescs zid).zrwav = false)
    (hopened : opened (ftl.zoneDescs zid).state = true) (nrLba : Nat)
    (hfits : (ftl.zoneDescs zid).wp + nrLba ≤
      zid * byteToLba dev.zpp.zoneSize + byteToLba dev.zpp.zoneSize) :
    Move ftl (increaseWritePtr dev.spp dev.zpp ftl zid nrLba) zid (.advance nrLba) := by
  have hend := dev.end_lt hz
  have hwp : ((ftl.zoneDescs zid).wp + nrLba) % 2 ^ 64 = (ftl.zoneDescs zid).wp + nrLba :=
    Nat.mod_eq_of_lt (by omega)
  have hopenLe := h.open_le
  have hactiveLe := h.active_le
  rw [← h.zslba_eq, ← h.capacity_eq] at hfits
  rw [increaseWritePtr]
  simp only [hwp, zoneToSlba_eq hz, ← h.zslba_eq]
  split
  · next hfull =>
    have hbase : cnt (ftl.setDesc zid
        { ftl.zoneDescs zid with wp := (ftl.zoneDescs zid).wp + nrLba }) = cnt ftl := rfl
    obtain ⟨hopen, hactive⟩ := filled_cnt h hopened hbase
    refine Move.of_advance .full h hplain (by simp) ?_ ?_ ?_ ?_ (by simp) (by simp) hfits
      (by simp [active])
    · rw [hopened]
      exact hopen
    · rw [active_of_opened hopened]
      exact hactive
    · exact Nat.le_trans (Nat.le_of_succ_le (Nat.le_of_eq hopen)) hopenLe
    · exact Nat.le_trans (Nat.le_of_succ_le (Nat.le_of_eq hactive)) hactiveLe
  · next hroom =>
    refine Move.of_advance (ftl.zoneDescs zid).state h hplain rfl rfl rfl hopenLe hactiveLe
      rfl ?_ hfits fun _ => hroom
    intro hempty
    simp [hempty, opened] at hopened

/-- The checks and the commitment of `__zns_write`: a success advances the write
pointer by the length of the write, and a rejection changes nothing. -/
theorem commitWrite_spec (h : Sound dev ftl zid) (hz : zid < dev.zpp.nrZones)
    (hplain : (ftl.zoneDescs zid).zrwav = false) (slba : Nat) {nrLba : Nat} (hpos : 0 < nrLba)
    (hsize : nrLba ≤ 65536) :
    ((commitWrite dev.spp dev.zpp ftl zid slba nrLba).1 = .success ∧
      slba = (ftl.zoneDescs zid).wp ∧
      Move ftl (commitWrite dev.spp dev.zpp ftl zid slba nrLba).2 zid (.advance nrLba)) ∨
    ((commitWrite dev.spp dev.zpp ftl zid slba nrLba).1 ≠ .success ∧
      (commitWrite dev.spp dev.zpp ftl zid slba nrLba).2 = ftl) := by
  rw [commitWrite]
  split
  · exact .inr ⟨by simp, rfl⟩
  · split
    · exact .inr ⟨by simp, rfl⟩
    · next hboundary =>
      split
      · exact .inr ⟨by simp, rfl⟩
      · next hwp =>
        have hslba : slba = (ftl.zoneDescs zid).wp := not_not.1 hwp
        obtain ⟨hsuccess, hmove, hopened, hzrwav, horigin⟩ | ⟨hrejected, hsame⟩ :=
          openForWrite_spec h slba
        · have hzone := h.plain hplain
          have hlt : slba < zid * byteToLba dev.zpp.zoneSize + byteToLba dev.zpp.zoneSize := by
            rw [← h.zslba_eq]
            have hcapacity := h.capacity_eq
            have hlbas := dev.zoneLbas_pos
            rcases horigin with hempty | hactive
            · have hstart := hzone.wp_of_empty hempty
              omega
            · have hlive := hzone.wp_lt_of_active hactive
              omega
          have hlow : zid * byteToLba dev.zpp.zoneSize ≤ slba := by
            rw [← h.zslba_eq, hslba]
            exact hzone.zslba_le
          have hfits := le_of_checkBoundaryError hz hlow hlt hpos hsize
            (by simpa using hboundary)
          generalize hopening : openForWrite ftl zid slba = opening at *
          obtain ⟨status, opening⟩ := opening
          obtain rfl : status = .success := hsuccess
          have hplain' := hzrwav.trans hplain
          have hadvance := increaseWritePtr_plain_move (hmove.sound h) hz hplain' hopened
            nrLba (by rw [(hmove.wp hplain').2, ← hslba]; exact hfits)
          exact .inl ⟨rfl, hslba, (hmove.trans hadvance).congr ⟨rfl, rfl⟩⟩
        · right
          generalize hopening : openForWrite ftl zid slba = opening at *
          obtain ⟨status, opening⟩ := opening
          cases status with
          | success => exact absurd rfl hrejected
          | _ => exact ⟨hrejected, hsame⟩

def Succeeded (reply : Option Reply) : Prop := ∃ r, reply = some r ∧ r.status = .success

/-- What a write leaves behind. A success is a write of `nrLba` blocks at the old
write pointer; an append reports where it went. -/
structure Written (dev : ZonedDevice) (ftl ftl' : ZnsFtl) (cmd cmd' : ZnsCommand)
    (reply : Option Reply) (zid : Nat) : Prop where
  committed : ∀ r, reply = some r → r.status = .success →
    Move ftl ftl' zid (.advance cmd.nrLba) ∧ cmd'.slba = (ftl.zoneDescs zid).wp ∧
      (cmd.opcode = .zoneAppend → r.result = (ftl.zoneDescs zid).wp) ∧
      (cmd.opcode ≠ .zoneAppend → cmd.slba = (ftl.zoneDescs zid).wp)
  rejected : ¬Succeeded reply → Same ftl ftl'

theorem ZnsCommand.nrLba_bounds (cmd : ZnsCommand) : 0 < cmd.nrLba ∧ cmd.nrLba ≤ 65536 := by
  have hlt : cmd.length % 2 ^ 16 < 2 ^ 16 := Nat.mod_lt _ (by decide)
  rw [ZnsCommand.nrLba]
  omega

theorem znsWritePlain_spec {cmd cmd' : ZnsCommand} {reply : Option Reply}
    (hzid : lbaToZone dev.spp dev.zpp cmd.slba = zid) (hz : zid < dev.zpp.nrZones)
    (h : Sound dev ftl zid) (hplain : (ftl.zoneDescs zid).zrwav = false)
    (hrun : znsWritePlain dev.spp dev.zpp ftl cmd = .ok (reply, cmd', ftl')) :
    Written dev ftl ftl' cmd cmd' reply zid := by
  rw [znsWritePlain, hzid] at hrun
  obtain ⟨⟨granted, buf⟩, hbuf, hrun⟩ := exists_of_bind_eq_ok hrun
  have hsame : Same ftl (ftl.setBuffer (writeBufferRef dev.zpp zid) buf) := ⟨rfl, rfl⟩
  dsimp only at hrun
  split at hrun
  · cases hrun
    refine ⟨by simp, fun _ => hsame⟩
  · obtain ⟨hpos, hsize⟩ := ZnsCommand.nrLba_bounds cmd
    have hsound := (hsame.move h).sound h
    obtain ⟨hsuccess, hslba, hmove⟩ | ⟨hrejected, hkept⟩ :=
      commitWrite_spec hsound hz hplain
        (if cmd.opcode = .zoneAppend then (ftl.zoneDescs zid).wp else cmd.slba) hpos hsize
    · cases hrun
      refine ⟨fun r hr _ => ?_, fun hno => absurd ⟨_, rfl, hsuccess⟩ hno⟩
      cases hr
      refine ⟨(hsame.move h).trans hmove, hslba, ?_, ?_⟩
      · intro happend
        simp [happend]
      · intro hwrite
        rw [if_neg hwrite] at hslba
        exact hslba
    · cases hrun
      refine ⟨fun r hr hsuccess => ?_, fun _ => ?_⟩
      · cases hr
        exact absurd hsuccess hrejected
      · rw [hkept]
        exact hsame

end Writes

end NvmeVirt.ZonedAccounting
