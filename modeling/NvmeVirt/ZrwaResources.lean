import NvmeVirt.ZoneArray

namespace NvmeVirt.ZrwaResources

open FaultOutcome
open FlashGeometry
open Relation
open StatusCounts
open WriteBuffer
open ZoneArray
open ZonedAccounting
open ZonedFtl
open ZonedRuns (zrwaOpens_of_openForZrwaWrite zrwaWrites_of_znsWriteZrwa flushedBy)
open ZrwaReachability

/-- A zoned namespace with random write areas that consist of whole flush groups. -/
structure ZrwaDevice extends ZoneGeometry where
  lbasPerZrwafg_pos : 0 < zpp.lbasPerZrwafg
  lbasPerZrwafg_dvd : zpp.lbasPerZrwafg ∣ zpp.lbasPerZrwa
  lbasPerZrwa_pos : 0 < zpp.lbasPerZrwa
  lbasPerZrwa_lt : zpp.lbasPerZrwa < 2 ^ 32

theorem ZrwaDevice.lbasPerZrwafg_le (dev : ZrwaDevice) :
    dev.zpp.lbasPerZrwafg ≤ dev.zpp.lbasPerZrwa :=
  Nat.le_of_dvd dev.lbasPerZrwa_pos dev.lbasPerZrwafg_dvd

variable {dev : ZrwaDevice} {ftl ftl' : ZnsFtl} {zid : Nat} {type : ZoneResource}

section Holding

/-- Whether a zone occupies a resource of the given type. -/
def uses (desc : ZoneDescriptor) : ZoneResource → Bool
  | .openZone => opened desc.state
  | .activeZone => active desc.state
  | .zrwaZone => desc.zrwav && active desc.state

/-- Apart from the share `used` of one zone the counters are `others`, and no
counter exceeds its limit. -/
structure Holding (others : ZoneResource → Nat) (ftl : ZnsFtl) (used : ZoneResource → Bool) :
    Prop where
  cnt_eq : ∀ t, cnt ftl t = others t + (used t).toNat
  cnt_le : ∀ t, cnt ftl t ≤ total ftl t

variable {others : ZoneResource → Nat} {used used' : ZoneResource → Bool}

theorem Holding.congr (h : Holding others ftl used) (hused : ∀ t, used t = used' t) :
    Holding others ftl used' :=
  ⟨fun t => hused t ▸ h.cnt_eq t, h.cnt_le⟩

theorem Holding.of_resInfos (h : Holding others ftl used)
    (hres : ftl'.resInfos = ftl.resInfos) : Holding others ftl' used := by
  obtain ⟨hcnt, hle⟩ := h
  constructor
  all_goals simp only [cnt, total, hres]
  · exact hcnt
  · exact hle

theorem Holding.release (h : Holding others ftl used) (hused : used type = true) :
    Holding others (releaseZoneResource ftl type) (Function.update used type false) := by
  have hcnt := h.cnt_eq type
  rw [hused, Bool.toNat_true] at hcnt
  have hself : cnt (releaseZoneResource ftl type) type + 1 = cnt ftl type :=
    cnt_release_self (by omega)
  constructor
  · intro t
    rcases eq_or_ne t type with rfl | hne
    · rw [Function.update_self, Bool.toNat_false]
      omega
    · rw [Function.update_of_ne hne, cnt_release_of_ne hne]
      exact h.cnt_eq t
  · intro t
    rw [total_release]
    have hle := h.cnt_le t
    rcases eq_or_ne t type with rfl | hne
    · omega
    · rw [cnt_release_of_ne hne]
      exact hle

theorem Holding.acquire (h : Holding others ftl used) (hused : used type = false)
    (hlt : cnt ftl type < total ftl type) :
    Holding others (acquired ftl type) (Function.update used type true) := by
  have hcnt := h.cnt_eq type
  rw [hused, Bool.toNat_false] at hcnt
  constructor
  · intro t
    rcases eq_or_ne t type with rfl | hne
    · rw [Function.update_self, cnt_acquired_self, hcnt]
      rfl
    · rw [Function.update_of_ne hne, cnt_acquired_of_ne hne]
      exact h.cnt_eq t
  · intro t
    rw [total_acquired]
    rcases eq_or_ne t type with rfl | hne
    · rw [cnt_acquired_self]
      exact hlt
    · rw [cnt_acquired_of_ne hne]
      exact h.cnt_le t

theorem Holding.lt_of_not_full (h : Holding others ftl used)
    (hfull : ¬isZoneResourceFull ftl type = true) : cnt ftl type < total ftl type :=
  cnt_lt_total_of_not_full (h.cnt_le type) hfull

end Holding

section Zones

/-- What holds of zone `z` in every run. -/
structure ZoneOk (dev : ZrwaDevice) (z : Nat) (desc : ZoneDescriptor) : Prop where
  zslba_eq : desc.zslba = z * dev.zoneLbas
  capacity_eq : desc.zoneCapacity = dev.zoneLbas
  empty : desc.state = .empty → desc.zrwav = false ∧ desc.wp = desc.zslba
  zrwa : desc.zrwav = true → desc.zslba ≤ desc.wp ∧ desc.wp < 2 ^ 60

/-- Zone `zid` accounts for all that the counters hold beyond `others`. -/
structure Good (dev : ZrwaDevice) (others : ZoneResource → Nat) (ftl : ZnsFtl) (zid : Nat) :
    Prop where
  holding : Holding others ftl (uses (ftl.zoneDescs zid))
  zone : ZoneOk dev zid (ftl.zoneDescs zid)

/-- Only zone `zid` has changed, and the counters have followed it. -/
structure Settled (dev : ZrwaDevice) (others : ZoneResource → Nat) (ftl ftl' : ZnsFtl)
    (zid : Nat) : Prop where
  frame : ∀ z, z ≠ zid → ftl'.zoneDescs z = ftl.zoneDescs z
  good : Good dev others ftl' zid

variable {others : ZoneResource → Nat} {used : ZoneResource → Bool}

theorem Settled.refl (h : Good dev others ftl zid) : Settled dev others ftl ftl zid :=
  ⟨fun _ _ => rfl, h⟩

theorem Settled.trans {ftl'' : ZnsFtl} (h : Settled dev others ftl ftl' zid)
    (h' : Settled dev others ftl' ftl'' zid) : Settled dev others ftl ftl'' zid :=
  ⟨fun z hz => (h'.frame z hz).trans (h.frame z hz), h'.good⟩

theorem Settled.of_same (h : Good dev others ftl zid) (hsame : Same ftl ftl') :
    Settled dev others ftl ftl' zid := by
  obtain ⟨hdescs, hres⟩ := hsame
  refine ⟨fun z _ => by rw [hdescs], ?_, ?_⟩
  · rw [hdescs]
    exact h.holding.of_resInfos hres
  · rw [hdescs]
    exact h.zone

theorem Settled.of_desc (desc : ZoneDescriptor)
    (hdescs : ftl'.zoneDescs = Function.update ftl.zoneDescs zid desc)
    (hholding : Holding others ftl' used) (hused : ∀ t, used t = uses desc t)
    (hzone : ZoneOk dev zid desc) : Settled dev others ftl ftl' zid := by
  have hzid : ftl'.zoneDescs zid = desc := by
    rw [hdescs, Function.update_self]
  refine ⟨fun z hz => ?_, ?_, ?_⟩
  · rw [hdescs, Function.update_of_ne hz]
  · rw [hzid]
    exact hholding.congr hused
  · rw [hzid]
    exact hzone

theorem ZoneOk.withState {desc : ZoneDescriptor} (h : ZoneOk dev zid desc) {state : ZoneState}
    (hstate : state ≠ .empty) : ZoneOk dev zid { desc with state := state } :=
  ⟨h.zslba_eq, h.capacity_eq, fun hempty => absurd hempty hstate, h.zrwa⟩

theorem ZoneOk.withWp {desc : ZoneDescriptor} (h : ZoneOk dev zid desc) (wp : Nat)
    (hzrwa : desc.zrwav = true → desc.zslba ≤ wp ∧ wp < 2 ^ 60)
    (hstate : desc.state ≠ .empty) : ZoneOk dev zid { desc with wp := wp } :=
  ⟨h.zslba_eq, h.capacity_eq, fun hempty => absurd hempty hstate, hzrwa⟩

theorem Holding.releaseActive (zid : Nat) (h : Holding others ftl used)
    (hactive : used .activeZone = true)
    (hzrwa : used .zrwaZone = (ftl.zoneDescs zid).zrwav) :
    Holding others (releaseActive ftl zid)
      fun t => if t = .openZone then used .openZone else false := by
  have hreleased := h.release hactive
  rw [ZonedFtl.releaseActive]
  split
  · next hset =>
    have hheld : Function.update used .activeZone false .zrwaZone = true := by
      rw [Function.update_of_ne (by simp), hzrwa, hset]
    refine (hreleased.release hheld).congr fun t => ?_
    cases t <;> simp
  · next hunset =>
    refine hreleased.congr fun t => ?_
    cases t <;> simp [hzrwa, hunset]

theorem Good.deactivate (h : Good dev others ftl zid)
    (hactive : active (ftl.zoneDescs zid).state = true) :
    Holding others (deactivate ftl zid) fun _ => false := by
  have hzrwa : uses (ftl.zoneDescs zid) .zrwaZone = (ftl.zoneDescs zid).zrwav := by
    rw [uses, hactive, Bool.and_true]
  rw [ZonedAccounting.deactivate]
  split
  · next hopened =>
    have hreleased : Holding others (releaseZoneResource ftl .openZone)
        (Function.update (uses (ftl.zoneDescs zid)) .openZone false) :=
      h.holding.release hopened
    refine (hreleased.releaseActive zid ?_ ?_).congr fun t => ?_
    · rw [Function.update_of_ne (by simp)]
      exact hactive
    · rw [Function.update_of_ne (by simp), zoneDescs_release]
      exact hzrwa
    · cases t <;> simp
  · next hclosed =>
    refine (h.holding.releaseActive zid hactive hzrwa).congr fun t => ?_
    cases t <;> simp [uses, hclosed]

end Zones

section Management

variable {others : ZoneResource → Nat}

theorem uses_of_inactive {desc : ZoneDescriptor} (h : active desc.state = false)
    (t : ZoneResource) : uses desc t = false := by
  cases t with
  | openZone =>
      rw [uses]
      cases hopened : opened desc.state with
      | false => rfl
      | true => simp [active_of_opened hopened] at h
  | activeZone => exact h
  | zrwaZone => rw [uses, h, Bool.and_false]

theorem zmgmtSendCloseZone_settled (h : Good dev others ftl zid) :
    Settled dev others ftl (zmgmtSendCloseZone ftl zid).2 zid := by
  have hclose : opened (ftl.zoneDescs zid).state = true → Settled dev others ftl
      (releaseZoneResource (changeZoneState ftl zid .closed) .openZone) zid := by
    intro hopened
    have hholding : Holding others (changeZoneState ftl zid .closed)
        (uses (ftl.zoneDescs zid)) := h.holding.of_resInfos rfl
    refine Settled.of_desc { ftl.zoneDescs zid with state := .closed } rfl
      (hholding.release hopened) (fun t => ?_) (h.zone.withState (by simp))
    have hactive := active_of_opened hopened
    have hclosed : opened .closed = false ∧ active .closed = true := ⟨rfl, rfl⟩
    cases t <;> simp [uses, hactive, hclosed]
  rw [zmgmtSendCloseZone]
  split
  · next hstate => exact hclose (by rw [hstate]; rfl)
  · next hstate => exact hclose (by rw [hstate]; rfl)
  · exact .refl h
  · exact .refl h

theorem Good.settle {base : ZnsFtl} (h : Good dev others ftl zid)
    (hdescs : base.zoneDescs = ftl.zoneDescs) (hholding : Holding others base fun _ => false)
    {state : ZoneState} (hstate : state ≠ .empty) (hinactive : active state = false) :
    Settled dev others ftl (changeZoneState base zid state) zid := by
  refine Settled.of_desc { ftl.zoneDescs zid with state := state }
    (by rw [zoneDescs_changeZoneState, hdescs])
    (hholding.of_resInfos rfl) (fun t => ?_) (h.zone.withState hstate)
  exact (uses_of_inactive hinactive t).symm

theorem Good.holding_inactive (h : Good dev others ftl zid)
    (hinactive : active (ftl.zoneDescs zid).state = false) :
    Holding others ftl fun _ => false :=
  h.holding.congr (uses_of_inactive hinactive)

theorem zoneDescs_deactivate : (deactivate ftl zid).zoneDescs = ftl.zoneDescs := by
  rw [deactivate, releaseActive, releaseActive]
  split
  · split <;> rfl
  · split <;> rfl

theorem zmgmtSendFinishZone_settled (h : Good dev others ftl zid) :
    Settled dev others ftl (zmgmtSendFinishZone ftl zid).2 zid := by
  have hfinish : active (ftl.zoneDescs zid).state = true → Settled dev others ftl
      (changeZoneState (deactivate ftl zid) zid .full) zid := fun hactive =>
    h.settle zoneDescs_deactivate (h.deactivate hactive) (by simp) rfl
  rw [zmgmtSendFinishZone]
  cases hstate : (ftl.zoneDescs zid).state with
  | openedImpl =>
      rw [hstate, deactivate, hstate] at hfinish
      exact hfinish rfl
  | openedExpl =>
      rw [hstate, deactivate, hstate] at hfinish
      exact hfinish rfl
  | closed =>
      rw [hstate, deactivate, hstate] at hfinish
      exact hfinish rfl
  | empty => exact h.settle rfl (h.holding_inactive (by rw [hstate]; rfl)) (by simp) rfl
  | full => exact .refl h
  | readOnly => exact .refl h
  | offline => exact .refl h

theorem Good.reset {base : ZnsFtl} (h : Good dev others ftl zid)
    (hdescs : base.zoneDescs = ftl.zoneDescs) (hholding : Holding others base fun _ => false) :
    Settled dev others ftl (resetZone dev.zpp (changeZoneState base zid .empty) zid) zid := by
  have hres : (resetZone dev.zpp (changeZoneState base zid .empty) zid).resInfos =
      base.resInfos := by
    rw [resetZone]
    split <;> rfl
  refine Settled.of_desc _ (by rw [zoneDescs_resetZone, hdescs]) (hholding.of_resInfos hres)
    (fun t => (uses_of_inactive rfl t).symm) ?_
  exact ⟨h.zone.zslba_eq, h.zone.capacity_eq, fun _ => ⟨rfl, rfl⟩, by simp⟩

theorem zmgmtSendResetZone_settled (h : Good dev others ftl zid) :
    Settled dev others ftl (zmgmtSendResetZone dev.zpp ftl zid).2 zid := by
  have hreset : active (ftl.zoneDescs zid).state = true → Settled dev others ftl
      (resetZone dev.zpp (changeZoneState (deactivate ftl zid) zid .empty) zid) zid :=
    fun hactive => h.reset zoneDescs_deactivate (h.deactivate hactive)
  rw [zmgmtSendResetZone]
  cases hstate : (ftl.zoneDescs zid).state with
  | openedImpl =>
      rw [hstate, deactivate, hstate] at hreset
      exact hreset rfl
  | openedExpl =>
      rw [hstate, deactivate, hstate] at hreset
      exact hreset rfl
  | closed =>
      rw [hstate, deactivate, hstate] at hreset
      exact hreset rfl
  | empty => exact h.reset rfl (h.holding_inactive (by rw [hstate]; rfl))
  | full => exact h.reset rfl (h.holding_inactive (by rw [hstate]; rfl))
  | readOnly => exact .refl h
  | offline => exact .refl h

theorem zmgmtSendOfflineZone_settled (h : Good dev others ftl zid) :
    Settled dev others ftl (zmgmtSendOfflineZone ftl zid).2 zid := by
  rw [zmgmtSendOfflineZone]
  split
  · next hstate =>
    exact h.settle rfl (h.holding_inactive (by rw [hstate]; rfl)) (by simp) rfl
  · exact .refl h
  · exact .refl h

def activeShare (desc : ZoneDescriptor) : ZoneResource → Bool
  | .openZone => false
  | .activeZone => true
  | .zrwaZone => desc.zrwav

/-- `base` is `ftl` with zone `zid` made active and described by `desc`; its state
is still the old one. -/
structure Activating (dev : ZrwaDevice) (others : ZoneResource → Nat) (ftl base : ZnsFtl)
    (zid : Nat) (desc : ZoneDescriptor) : Prop where
  zoneDescs : base.zoneDescs = Function.update ftl.zoneDescs zid desc
  holding : Holding others base (activeShare desc)
  zslba_eq : desc.zslba = zid * dev.zoneLbas
  capacity_eq : desc.zoneCapacity = dev.zoneLbas
  zrwa : desc.zrwav = true → desc.zslba ≤ desc.wp ∧ desc.wp < 2 ^ 60

theorem Activating.open {base : ZnsFtl} {desc : ZoneDescriptor}
    (h : Activating dev others ftl base zid desc)
    (hlt : cnt base .openZone < total base .openZone) {state : ZoneState}
    (hopened : opened state = true) :
    Settled dev others ftl (changeZoneState (acquired base .openZone) zid state) zid := by
  have hholding : Holding others (acquired base .openZone)
      (Function.update (activeShare desc) .openZone true) := h.holding.acquire rfl hlt
  have hstate : state ≠ .empty := by
    rintro rfl
    cases hopened
  refine Settled.of_desc { desc with state := state } ?_ (hholding.of_resInfos rfl) (fun t => ?_)
    ⟨h.zslba_eq, h.capacity_eq, fun hempty => absurd hempty hstate, h.zrwa⟩
  · rw [zoneDescs_changeZoneState, zoneDescs_acquired, h.zoneDescs, Function.update_idem,
      Function.update_self]
  · cases t <;> simp [uses, activeShare, hopened, active_of_opened hopened]

theorem Good.activating_closed (h : Good dev others ftl zid)
    (hstate : (ftl.zoneDescs zid).state = .closed) :
    Activating dev others ftl ftl zid (ftl.zoneDescs zid) := by
  refine ⟨by rw [Function.update_eq_self], h.holding.congr fun t => ?_, h.zone.zslba_eq,
    h.zone.capacity_eq, h.zone.zrwa⟩
  cases t <;> simp [uses, activeShare, hstate, opened, active]

theorem Good.activating_empty (h : Good dev others ftl zid)
    (hstate : (ftl.zoneDescs zid).state = .empty)
    (hlt : cnt ftl .activeZone < total ftl .activeZone) :
    Activating dev others ftl (acquired ftl .activeZone) zid (ftl.zoneDescs zid) := by
  have hholding : Holding others (acquired ftl .activeZone)
      (Function.update (fun _ => false) .activeZone true) :=
    (h.holding_inactive (by rw [hstate]; rfl)).acquire rfl hlt
  refine ⟨by rw [zoneDescs_acquired, Function.update_eq_self], hholding.congr fun t => ?_,
    h.zone.zslba_eq, h.zone.capacity_eq, h.zone.zrwa⟩
  cases t <;> simp [activeShare, (h.zone.empty hstate).1]

theorem Good.activating_zrwa (h : Good dev others ftl zid) (hz : zid < dev.zpp.nrZones)
    (hstate : (ftl.zoneDescs zid).state = .empty)
    (hzrwa : cnt ftl .zrwaZone < total ftl .zrwaZone)
    (hlt : cnt ftl .activeZone < total ftl .activeZone) :
    Activating dev others ftl
      (acquired ((acquired ftl .zrwaZone).setDesc zid
        { ftl.zoneDescs zid with zrwav := true }) .activeZone) zid
      { ftl.zoneDescs zid with zrwav := true } := by
  have hfirst : Holding others (acquired ftl .zrwaZone)
      (Function.update (fun _ => false) .zrwaZone true) :=
    (h.holding_inactive (by rw [hstate]; rfl)).acquire rfl hzrwa
  have hmarked : Holding others ((acquired ftl .zrwaZone).setDesc zid
      { ftl.zoneDescs zid with zrwav := true })
      (Function.update (fun _ => false) .zrwaZone true) := hfirst.of_resInfos rfl
  have hholding : Holding others (acquired ((acquired ftl .zrwaZone).setDesc zid
      { ftl.zoneDescs zid with zrwav := true }) .activeZone)
      (Function.update (Function.update (fun _ => false) .zrwaZone true) .activeZone true) :=
    hmarked.acquire (by simp) (by simpa using hlt)
  refine ⟨by simp, hholding.congr fun t => ?_, h.zone.zslba_eq, h.zone.capacity_eq, fun _ => ?_⟩
  · cases t <;> simp [activeShare]
  · have hwp := (h.zone.empty hstate).2
    have hslba := h.zone.zslba_eq
    have hlbas := dev.zoneLbas_bounds.2
    have hmul : zid * dev.zoneLbas ≤ 2 ^ 32 * 2 ^ 23 :=
      Nat.mul_le_mul (Nat.le_of_lt (Nat.lt_trans hz dev.nrZones_lt)) (Nat.le_of_lt hlbas)
    change (ftl.zoneDescs zid).zslba ≤ (ftl.zoneDescs zid).wp ∧ (ftl.zoneDescs zid).wp < 2 ^ 60
    omega

/-- An open that comes to an answer: a success leaves the zone open, and the zone
described by `desc` keeps or loses its random write area with it. -/
structure Opening (dev : ZrwaDevice) (others : ZoneResource → Nat) (ftl : ZnsFtl) (zid : Nat)
    (zrwav : Bool) (answer : Status × ZnsFtl) : Prop where
  settled : Settled dev others ftl answer.2 zid
  opened : answer.1 = .success → opened (answer.2.zoneDescs zid).state = true
  zrwav_eq : (answer.2.zoneDescs zid).zrwav = zrwav

theorem Activating.tryOpen {base : ZnsFtl} {desc : ZoneDescriptor}
    (h : Activating dev others ftl base zid desc)
    (hrefused : ¬cnt base .openZone < total base .openZone → Settled dev others ftl base zid)
    {state : ZoneState} (hopened : opened state = true) :
    Opening dev others ftl zid desc.zrwav (match acquireZoneResource base .openZone with
      | (false, ftl) => (.noOpenZone, ftl)
      | (true, ftl) => (.success, changeZoneState ftl zid state)) := by
  by_cases hlt : cnt base .openZone < total base .openZone
  · rw [acquire_of_lt hlt]
    refine ⟨h.open hlt hopened, fun _ => ?_, ?_⟩
    · simpa using hopened
    · simp [h.zoneDescs]
  · rw [acquire_of_not_lt hlt]
    exact ⟨hrefused hlt, by simp, by rw [h.zoneDescs, Function.update_self]⟩

theorem zmgmtSendOpenZone_settled (h : Good dev others ftl zid) (hz : zid < dev.zpp.nrZones)
    (zrwa : Bool) : Settled dev others ftl (zmgmtSendOpenZone ftl zid zrwa).2 zid := by
  rw [zmgmtSendOpenZone]
  cases hstate : (ftl.zoneDescs zid).state with
  | empty =>
      dsimp only
      split
      · exact .refl h
      · next hactiveFull =>
        split
        · exact .refl h
        · next hopenFull =>
          have hactive := h.holding.lt_of_not_full hactiveFull
          have hopen := h.holding.lt_of_not_full hopenFull
          cases zrwa with
          | false =>
              rw [if_neg (by simp), acquire_of_lt hactive]
              refine ((h.activating_empty hstate hactive).tryOpen (fun hno => ?_) rfl).settled
              exact absurd (by simpa using hopen) hno
          | true =>
              rw [if_pos rfl]
              split
              · exact .refl h
              · next hzrwaFull =>
                have hzrwa := h.holding.lt_of_not_full hzrwaFull
                have hlt : cnt ((acquired ftl .zrwaZone).setDesc zid
                    { ftl.zoneDescs zid with zrwav := true }) .activeZone <
                    total ((acquired ftl .zrwaZone).setDesc zid
                      { ftl.zoneDescs zid with zrwav := true }) .activeZone := by
                  simpa using hactive
                rw [acquire_of_lt hzrwa, zoneDescs_acquired, acquire_of_lt hlt]
                refine ((h.activating_zrwa hz hstate hzrwa hactive).tryOpen
                  (fun hno => ?_) rfl).settled
                exact absurd (by simpa using hopen) hno
  | closed => exact ((h.activating_closed hstate).tryOpen (fun _ => .refl h) rfl).settled
  | openedImpl =>
      refine Settled.of_desc { ftl.zoneDescs zid with state := .openedExpl } rfl
        (h.holding.of_resInfos rfl) (fun t => ?_) (h.zone.withState (by simp))
      cases t <;> simp [uses, hstate, opened, active]
  | openedExpl => exact .refl h
  | readOnly => exact .refl h
  | full => exact .refl h
  | offline => exact .refl h

theorem Good.setWp (h : Good dev others ftl zid) (wp : Nat)
    (hnotEmpty : (ftl.zoneDescs zid).state ≠ .empty)
    (hrange : (ftl.zoneDescs zid).zrwav = true →
      (ftl.zoneDescs zid).zslba ≤ wp ∧ wp < 2 ^ 60) :
    Settled dev others ftl (ftl.setDesc zid { ftl.zoneDescs zid with wp := wp }) zid :=
  .of_desc _ rfl (h.holding.of_resInfos rfl) (fun _ => rfl) (h.zone.withWp wp hrange hnotEmpty)

theorem flushZrwaTo_settled (h : Good dev others ftl zid)
    (hzrwa : (ftl.zoneDescs zid).zrwav = true) {slba : Nat}
    (hwp : (ftl.zoneDescs zid).wp ≤ slba) (hslba : slba < 2 ^ 56) :
    Settled dev others ftl (flushZrwaTo dev.spp dev.zpp ftl zid slba).2 zid := by
  have hrange : (ftl.zoneDescs zid).zslba ≤ slba + 1 ∧ slba + 1 < 2 ^ 60 := by
    have hlow := (h.zone.zrwa hzrwa).1
    omega
  have hnotEmpty : (ftl.zoneDescs zid).state ≠ .empty := by
    intro hempty
    simp [(h.zone.empty hempty).1] at hzrwa
  have hmoved := h.setWp (slba + 1) hnotEmpty fun _ => hrange
  have hstate : ((ftl.setDesc zid { ftl.zoneDescs zid with wp := slba + 1 }).zoneDescs zid).state =
      (ftl.zoneDescs zid).state := by
    rw [zoneDescs_setDesc, Function.update_self]
  have hset : ((ftl.setDesc zid { ftl.zoneDescs zid with wp := slba + 1 }).zoneDescs zid).zrwav =
      true := by
    rw [zoneDescs_setDesc, Function.update_self]
    exact hzrwa
  rw [flushZrwaTo]
  dsimp only
  generalize ftl.setDesc zid { ftl.zoneDescs zid with wp := slba + 1 } = flushed at *
  have hfull : active (ftl.zoneDescs zid).state = true → Settled dev others ftl
      (changeZoneState (deactivate flushed zid) zid .full) zid := fun hactive =>
    hmoved.trans (hmoved.good.settle zoneDescs_deactivate
      (hmoved.good.deactivate (by rw [hstate]; exact hactive)) (by simp) rfl)
  have hreleased : ∀ base : ZnsFtl, (base.zoneDescs zid).zrwav = true →
      releaseActive base zid =
        releaseZoneResource (releaseZoneResource base .activeZone) .zrwaZone :=
    fun base hbase => if_pos hbase
  have hopenCase : opened (ftl.zoneDescs zid).state = true → Settled dev others ftl
      (if slba + 1 = zoneToSlba dev.spp dev.zpp zid + (ftl.zoneDescs zid).zoneCapacity then
        changeZoneState (releaseZoneResource (releaseZoneResource
          (releaseZoneResource flushed .openZone) .activeZone) .zrwaZone) zid .full
      else flushed) zid := by
    intro hopened
    have hopenedFull := hfull (active_of_opened hopened)
    rw [deactivate, hstate, if_pos hopened, hreleased _ (by rw [zoneDescs_release]; exact hset)]
      at hopenedFull
    split
    · exact hopenedFull
    · exact hmoved
  cases hbefore : (ftl.zoneDescs zid).state with
  | openedImpl => exact hopenCase (by rw [hbefore]; rfl)
  | openedExpl => exact hopenCase (by rw [hbefore]; rfl)
  | closed =>
      have hclosedFull := hfull (by rw [hbefore]; rfl)
      rw [deactivate, hstate, hbefore, if_neg (by simp [opened]), hreleased _ hset] at hclosedFull
      dsimp only
      split
      · exact hclosedFull
      · exact hmoved
  | empty => exact .refl h
  | readOnly => exact .refl h
  | full => exact .refl h
  | offline => exact .refl h

theorem zmgmtSend_settled {slba : Nat} {action : ZoneSendAction} {option : Bool}
    {status : Status} (hz : lbaToZone dev.spp dev.zpp slba < dev.zpp.nrZones)
    (hslba : slba < dev.space)
    (h : Good dev others ftl (lbaToZone dev.spp dev.zpp slba))
    (hrun : zmgmtSend dev.spp dev.zpp ftl slba action option = .ok (status, ftl')) :
    Settled dev others ftl ftl' (lbaToZone dev.spp dev.zpp slba) := by
  cases action with
  | closeZone =>
      obtain rfl := congrArg Prod.snd (Except.ok.inj hrun)
      exact zmgmtSendCloseZone_settled h
  | finishZone =>
      obtain rfl := congrArg Prod.snd (Except.ok.inj hrun)
      exact zmgmtSendFinishZone_settled h
  | openZone =>
      obtain rfl := congrArg Prod.snd (Except.ok.inj hrun)
      exact zmgmtSendOpenZone_settled h hz option
  | resetZone =>
      obtain rfl := congrArg Prod.snd (Except.ok.inj hrun)
      exact zmgmtSendResetZone_settled h
  | offlineZone =>
      obtain rfl := congrArg Prod.snd (Except.ok.inj hrun)
      exact zmgmtSendOfflineZone_settled h
  | flushExplZrwa =>
      rw [zmgmtSend, zmgmtSendFlushExplicitZrwa] at hrun
      split at hrun
      · obtain rfl := congrArg Prod.snd (Except.ok.inj hrun)
        exact .refl h
      · next hzrwa =>
        split at hrun
        · obtain rfl := congrArg Prod.snd (Except.ok.inj hrun)
          exact .refl h
        · next hinside =>
          split at hrun
          · cases hrun
          · split at hrun
            · obtain rfl := congrArg Prod.snd (Except.ok.inj hrun)
              exact .refl h
            · obtain rfl := congrArg Prod.snd (Except.ok.inj hrun)
              exact flushZrwaTo_settled h (by simpa using hzrwa) (not_not.1 hinside).1
                (Nat.lt_trans hslba dev.space_lt)
  | other code =>
      obtain rfl := congrArg Prod.snd (Except.ok.inj hrun)
      exact .refl h

end Management

section Writes

variable {others : ZoneResource → Nat} {reply : Option Reply} {cmd cmd' : ZnsCommand}

theorem openForWrite_opening (h : Good dev others ftl zid) (slba : Nat) :
    Opening dev others ftl zid (ftl.zoneDescs zid).zrwav (openForWrite ftl zid slba) := by
  have hkept : ∀ status, status ≠ .success → Opening dev others ftl zid
      (ftl.zoneDescs zid).zrwav (status, ftl) :=
    fun status hstatus => ⟨.refl h, fun hok => absurd hok hstatus, rfl⟩
  rw [openForWrite]
  cases hstate : (ftl.zoneDescs zid).state with
  | empty =>
      dsimp only
      split
      · exact hkept _ (by simp)
      · split
        · exact hkept _ (by simp)
        · next hactiveFull =>
          split
          · exact hkept _ (by simp)
          · next hopenFull =>
            have hactive := h.holding.lt_of_not_full hactiveFull
            have hopen := h.holding.lt_of_not_full hopenFull
            rw [acquire_of_lt hactive]
            refine (h.activating_empty hstate hactive).tryOpen (fun hno => ?_) rfl
            exact absurd (by simpa using hopen) hno
  | closed => exact (h.activating_closed hstate).tryOpen (fun _ => .refl h) rfl
  | openedImpl => exact ⟨.refl h, fun _ => by rw [hstate]; rfl, rfl⟩
  | openedExpl => exact ⟨.refl h, fun _ => by rw [hstate]; rfl, rfl⟩
  | full => exact hkept _ (by simp)
  | readOnly => exact hkept _ (by simp)
  | offline => exact hkept _ (by simp)

/-- The write pointer of an open zone advances. The counters follow unless the
zone is filled while it has a random write area. -/
theorem increaseWritePtr_settled (h : Good dev others ftl zid)
    (hopened : opened (ftl.zoneDescs zid).state = true) (nrLba : Nat)
    (hzrwa : (ftl.zoneDescs zid).zrwav = true →
      (ftl.zoneDescs zid).zslba ≤ ((ftl.zoneDescs zid).wp + nrLba) % 2 ^ 64 ∧
      ((ftl.zoneDescs zid).wp + nrLba) % 2 ^ 64 < 2 ^ 60 ∧
      ((ftl.zoneDescs zid).wp + nrLba) % 2 ^ 64 ≠
        zoneToSlba dev.spp dev.zpp zid + (ftl.zoneDescs zid).zoneCapacity) :
    Settled dev others ftl (increaseWritePtr dev.spp dev.zpp ftl zid nrLba) zid := by
  have hnotEmpty : (ftl.zoneDescs zid).state ≠ .empty := by
    intro hempty
    simp [hempty, opened] at hopened
  have hmoved := h.setWp (((ftl.zoneDescs zid).wp + nrLba) % 2 ^ 64) hnotEmpty
    fun hset => ⟨(hzrwa hset).1, (hzrwa hset).2.1⟩
  rw [increaseWritePtr]
  dsimp only
  split
  · next hfull =>
    have hunset : (ftl.zoneDescs zid).zrwav = false := by
      cases hset : (ftl.zoneDescs zid).zrwav with
      | false => rfl
      | true => exact absurd hfull (hzrwa hset).2.2
    have hstate : ((ftl.setDesc zid { ftl.zoneDescs zid with
        wp := ((ftl.zoneDescs zid).wp + nrLba) % 2 ^ 64 }).zoneDescs zid).state =
        (ftl.zoneDescs zid).state := by
      rw [zoneDescs_setDesc, Function.update_self]
    have hplain : ((ftl.setDesc zid { ftl.zoneDescs zid with
        wp := ((ftl.zoneDescs zid).wp + nrLba) % 2 ^ 64 }).zoneDescs zid).zrwav ≠ true := by
      rw [zoneDescs_setDesc, Function.update_self]
      simp [hunset]
    generalize ftl.setDesc zid { ftl.zoneDescs zid with
      wp := ((ftl.zoneDescs zid).wp + nrLba) % 2 ^ 64 } = moved at *
    have hsettled : Settled dev others ftl (changeZoneState (deactivate moved zid) zid .full)
        zid := hmoved.trans (hmoved.good.settle zoneDescs_deactivate
      (hmoved.good.deactivate (by rw [hstate]; exact active_of_opened hopened)) (by simp) rfl)
    rw [deactivate, hstate, if_pos hopened, releaseActive, zoneDescs_release, if_neg hplain]
      at hsettled
    exact hsettled
  · exact hmoved

theorem commitWrite_settled (h : Good dev others ftl zid)
    (hplain : (ftl.zoneDescs zid).zrwav = false) (slba nrLba : Nat) :
    Settled dev others ftl (commitWrite dev.spp dev.zpp ftl zid slba nrLba).2 zid := by
  rw [commitWrite]
  split
  · exact .refl h
  · split
    · exact .refl h
    · split
      · exact .refl h
      · have hopening := openForWrite_opening h slba
        generalize openForWrite ftl zid slba = answer at hopening
        obtain ⟨status, base⟩ := answer
        obtain ⟨hsettled, hopened, hzrwav⟩ := hopening
        cases status with
        | success =>
            have hunset : (base.zoneDescs zid).zrwav = false := hzrwav.trans hplain
            have hadvance := increaseWritePtr_settled hsettled.good (hopened rfl) nrLba
              fun hset => absurd (hunset.symm.trans hset) (by simp)
            have hlast := hsettled.trans hadvance
            exact hlast.trans (.of_same hlast.good ⟨rfl, rfl⟩)
        | _ => exact hsettled

theorem znsWritePlain_settled (hzid : lbaToZone dev.spp dev.zpp cmd.slba = zid)
    (h : Good dev others ftl zid) (hplain : (ftl.zoneDescs zid).zrwav = false)
    (hrun : znsWritePlain dev.spp dev.zpp ftl cmd = .ok (reply, cmd', ftl')) :
    Settled dev others ftl ftl' zid := by
  rw [znsWritePlain, hzid] at hrun
  obtain ⟨⟨granted, buf⟩, -, hrun⟩ := exists_of_bind_eq_ok hrun
  have hsame : Settled dev others ftl (ftl.setBuffer (writeBufferRef dev.zpp zid) buf) zid :=
    .of_same h ⟨rfl, rfl⟩
  dsimp only at hrun
  split at hrun
  · cases hrun
    exact hsame
  · cases hrun
    exact hsame.trans (commitWrite_settled hsame.good hplain _ _)

end Writes

section ImplicitFlush

variable {others : ZoneResource → Nat} {reply : Option Reply} {cmd cmd' : ZnsCommand}
  {wp elba : Nat}

/-- An implicit flush stays behind the last block of the write, unless it is the
one that empties a random write area reaching to the end of the zone. -/
theorem zrwaFlushCount_bounds (hz : zid < dev.zpp.nrZones) (hlow : zid * dev.zoneLbas ≤ wp)
    (hwp : wp ≤ elba) (helba : elba < zid * dev.zoneLbas + dev.zoneLbas) :
    wp + zrwaFlushCount dev.spp dev.zpp zid wp elba ≤ elba + 1 ∧
      (wp + zrwaFlushCount dev.spp dev.zpp zid wp elba =
          zoneToSlba dev.spp dev.zpp zid + dev.zoneLbas →
        elba = zoneToElba dev.spp dev.zpp zid ∧ elba < wp + dev.zpp.lbasPerZrwa ∧
          zrwaFlushCount dev.spp dev.zpp zid wp elba = elba + 1 - wp) := by
  have hspace := dev.space_lt
  have hlbas := dev.zoneLbas_bounds.2
  have hend := dev.zone_end_le hz
  have hzrwa := dev.lbasPerZrwa_lt
  have hgroup := dev.lbasPerZrwafg_le
  have hgroupPos := dev.lbasPerZrwafg_pos
  have hstart : (wp + dev.zpp.lbasPerZrwa) % 2 ^ 64 = wp + dev.zpp.lbasPerZrwa :=
    Nat.mod_eq_of_lt (by omega)
  -- a write pointer inside the zone is never where the 32-bit product sees the end
  have hnot : ∀ p, zid * dev.zoneLbas ≤ p → p < zid * dev.zoneLbas + dev.zoneLbas →
      p ≠ zoneToSlba dev.spp dev.zpp zid + dev.zoneLbas := by
    intro p hge hlt
    rw [ZoneArray.zoneToSlba_eq]
    generalize zid * dev.zoneLbas = start at *
    omega
  rw [zrwaFlushCount, hstart]
  split
  · next hpast =>
    have hround := Nat.div_mul_le_self
      (elba - (wp + dev.zpp.lbasPerZrwa) + 1 + dev.zpp.lbasPerZrwafg - 1)
      dev.zpp.lbasPerZrwafg
    rw [divRoundUp]
    generalize (elba - (wp + dev.zpp.lbasPerZrwa) + 1 + dev.zpp.lbasPerZrwafg - 1) /
      dev.zpp.lbasPerZrwafg * dev.zpp.lbasPerZrwafg = flush at *
    have hle : wp + flush ≤ elba := by omega
    exact ⟨by omega, fun heq => absurd heq (hnot _ (by omega) (by omega))⟩
  · next hinside =>
    split
    · next hlast => exact ⟨by omega, fun _ => ⟨hlast, by omega, by omega⟩⟩
    · exact ⟨by omega, fun heq => absurd heq (hnot _ (by omega) (by omega))⟩

/-- The part of its random write area that a closed zone takes again. -/
def reopenSize (zpp : ZnsParams) (desc : ZoneDescriptor) : Nat :=
  if desc.state = .closed then zpp.zrwaSize else 0

/-- The implicit opening of a zone with a random write area: a success finds the
zone active. -/
structure ZrwaOpening (dev : ZrwaDevice) (others : ZoneResource → Nat) (ftl base : ZnsFtl)
    (zid : Nat) (status : Status) : Prop where
  settled : Settled dev others ftl base zid
  zrwav : (base.zoneDescs zid).zrwav = true
  opened : status = .success → opened (base.zoneDescs zid).state = true
  wp_eq : (base.zoneDescs zid).wp = (ftl.zoneDescs zid).wp
  active : status = .success → active (ftl.zoneDescs zid).state = true
  remaining : status = .success → (base.buffers (.zrwaBuffer zid)).remaining +
    reopenSize dev.zpp (ftl.zoneDescs zid) = (ftl.buffers (.zrwaBuffer zid)).remaining

theorem openForZrwaWrite_opening {status : Status} (h : Good dev others ftl zid)
    (hzrwa : (ftl.zoneDescs zid).zrwav = true)
    (hrun : openForZrwaWrite dev.zpp ftl zid = .ok (status, ftl')) :
    ZrwaOpening dev others ftl ftl' zid status := by
  cases zrwaOpens_of_openForZrwaWrite hrun with
  | already hopened =>
      refine ⟨.refl h, hzrwa, fun _ => hopened, rfl, fun _ => active_of_opened hopened,
        fun _ => ?_⟩
      have hstate : (ftl.zoneDescs zid).state ≠ .closed := by
        intro hclosed
        simp [hclosed, opened] at hopened
      rw [reopenSize, if_neg hstate, Nat.add_zero]
  | refused hstatus =>
      exact ⟨.refl h, hzrwa, fun hok => absurd hok hstatus, rfl, fun hok => absurd hok hstatus,
        fun hok => absurd hok hstatus⟩
  | @opens base hstate hlt hbase =>
      have hclosed : (ftl.zoneDescs zid).state = .closed := by
        refine hstate.resolve_right fun hempty => ?_
        simp [(h.zone.empty hempty).1] at hzrwa
      obtain ⟨⟨hdescs, hres⟩, hremaining⟩ := zrwaAllocate_spec hbase
      have hopened : Settled dev others ftl
          (changeZoneState (acquired ftl .openZone) zid .openedImpl) zid :=
        (h.activating_closed hclosed).open hlt rfl
      have hsame : Same (changeZoneState (acquired ftl .openZone) zid .openedImpl)
          (changeZoneState base zid .openedImpl) := by
        refine ⟨?_, hres⟩
        rw [zoneDescs_changeZoneState, zoneDescs_changeZoneState, hdescs]
      refine ⟨hopened.trans (.of_same hopened.good hsame), ?_, fun _ => ?_, ?_,
        fun _ => by rw [hclosed]; rfl, fun _ => ?_⟩
      · simp [hdescs, hzrwa]
      · simp [opened]
      · simp [hdescs]
      · rw [reopenSize, if_pos hclosed]
        exact hremaining rfl

/-- A write that an implicit flush turns into the end of its zone: it ends with
the zone, inside the random write area, and the buffer has room for the flush. -/
def FillsZrwaZone (dev : ZrwaDevice) (ftl : ZnsFtl) (cmd : ZnsCommand) : Prop :=
  (cmd.opcode = .write ∨ cmd.opcode = .zoneAppend) ∧
    (ftl.zoneDescs (lbaToZone dev.spp dev.zpp cmd.slba)).zrwav = true ∧
    active (ftl.zoneDescs (lbaToZone dev.spp dev.zpp cmd.slba)).state = true ∧
    lbaToByte cmd.nrLba % dev.spp.writeUnitSize = 0 ∧
    (ftl.zoneDescs (lbaToZone dev.spp dev.zpp cmd.slba)).wp ≤ cmd.slba ∧
    lastLba cmd.slba cmd.nrLba =
      zoneToElba dev.spp dev.zpp (lbaToZone dev.spp dev.zpp cmd.slba) ∧
    lastLba cmd.slba cmd.nrLba <
      (ftl.zoneDescs (lbaToZone dev.spp dev.zpp cmd.slba)).wp + dev.zpp.lbasPerZrwa ∧
    reopenSize dev.zpp (ftl.zoneDescs (lbaToZone dev.spp dev.zpp cmd.slba)) +
        lbaToByte (lastLba cmd.slba cmd.nrLba + 1 -
          (ftl.zoneDescs (lbaToZone dev.spp dev.zpp cmd.slba)).wp) ≤
      (ftl.buffers (.zrwaBuffer (lbaToZone dev.spp dev.zpp cmd.slba))).remaining

theorem znsWriteZrwa_settled (hzid : lbaToZone dev.spp dev.zpp cmd.slba = zid)
    (hslba : cmd.slba < dev.space)
    (hop : cmd.opcode = .write ∨ cmd.opcode = .zoneAppend)
    (hsafe : ¬FillsZrwaZone dev ftl cmd) (h : Good dev others ftl zid)
    (hzrwa : (ftl.zoneDescs zid).zrwav = true)
    (hrun : znsWriteZrwa dev.spp dev.zpp ftl cmd = .ok (reply, cmd', ftl')) :
    Settled dev others ftl ftl' zid := by
  subst hzid
  obtain ⟨hpos, hsize⟩ := ZnsCommand.nrLba_bounds cmd
  have hz := (lbaToZone_of_lt hslba).2
  obtain ⟨-, hwrites⟩ := zrwaWrites_of_znsWriteZrwa hrun
  cases hwrites with
  | rejected => exact .refl h
  | answered _ hopen => exact (openForZrwaWrite_opening h hzrwa hopen).settled
  | refused _ hopen hfilled =>
      have hopening := openForZrwaWrite_opening h hzrwa hopen
      exact hopening.settled.trans
        (.of_same hopening.settled.good (zrwaAllocate_spec hfilled).1)
  | @flushes base filled hchecked hopen hfilled =>
      obtain ⟨hlast, hlow, hhigh⟩ :=
        range_of_checkBoundaryError hslba hpos hsize hchecked.boundary
      have hwp := hchecked.low
      have hopening := openForZrwaWrite_opening h hzrwa hopen
      obtain ⟨hsame, hremaining⟩ := zrwaAllocate_spec hfilled
      have hmid := hopening.settled.trans (.of_same hopening.settled.good hsame)
      have hdesc := congrFun hsame.zoneDescs (lbaToZone dev.spp dev.zpp cmd.slba)
      have hwpEq : (filled.zoneDescs (lbaToZone dev.spp dev.zpp cmd.slba)).wp =
          (ftl.zoneDescs (lbaToZone dev.spp dev.zpp cmd.slba)).wp := by
        rw [hdesc, hopening.wp_eq]
      have hstart : lbaToZone dev.spp dev.zpp cmd.slba * dev.zoneLbas ≤
          (ftl.zoneDescs (lbaToZone dev.spp dev.zpp cmd.slba)).wp := by
        rw [← h.zone.zslba_eq]
        exact (h.zone.zrwa hzrwa).1
      obtain ⟨hbelow, hfills⟩ := zrwaFlushCount_bounds hz hstart
        (show _ ≤ lastLba cmd.slba cmd.nrLba by omega) (by omega)
      rw [← flushedBy] at hbelow hfills
      have hspace := dev.space_lt
      have hmod : ((ftl.zoneDescs (lbaToZone dev.spp dev.zpp cmd.slba)).wp +
          flushedBy dev.spp dev.zpp ftl cmd) % 2 ^ 64 =
          (ftl.zoneDescs (lbaToZone dev.spp dev.zpp cmd.slba)).wp +
            flushedBy dev.spp dev.zpp ftl cmd := Nat.mod_eq_of_lt (by omega)
      have hadvance : Settled dev others filled
          (increaseWritePtr dev.spp dev.zpp filled (lbaToZone dev.spp dev.zpp cmd.slba)
            (flushedBy dev.spp dev.zpp ftl cmd)) (lbaToZone dev.spp dev.zpp cmd.slba) := by
        refine increaseWritePtr_settled hmid.good ?_ _ fun _ => ?_
        · rw [hdesc]
          exact hopening.opened rfl
        · rw [hwpEq, hmod, hmid.good.zone.zslba_eq, hmid.good.zone.capacity_eq]
          refine ⟨by omega, by omega, fun hend => hsafe ?_⟩
          obtain ⟨hlastLba, hinside, hcount⟩ := hfills hend
          have htaken := hremaining rfl
          have hreopened := hopening.remaining rfl
          rw [hcount] at htaken
          exact ⟨hop, hzrwa, hopening.active rfl, hchecked.aligned, hwp, hlastLba, hinside,
            by omega⟩
      have hlastState := hmid.trans hadvance
      exact hlastState.trans (.of_same hlastState.good ⟨rfl, rfl⟩)

end ImplicitFlush

section Runs

variable {reply : Option Reply} {cmd cmd' : ZnsCommand}

def zonesUsing (dev : ZrwaDevice) (ftl : ZnsFtl) (type : ZoneResource) : Nat :=
  countOf (Finset.range dev.zpp.nrZones) (fun z => uses (ftl.zoneDescs z) type) true

/-- Every counter is the number of zones that occupy its resource. -/
structure Conserved (dev : ZrwaDevice) (ftl : ZnsFtl) : Prop where
  cnt_eq : ∀ t, cnt ftl t = zonesUsing dev ftl t
  cnt_le : ∀ t, cnt ftl t ≤ total ftl t
  zones : ∀ z, z < dev.zpp.nrZones → ZoneOk dev z (ftl.zoneDescs z)

/-- What the zones other than `zid` occupy. -/
def othersOf (ftl : ZnsFtl) (zid : Nat) (t : ZoneResource) : Nat :=
  cnt ftl t - (uses (ftl.zoneDescs zid) t).toNat

theorem Conserved.good (h : Conserved dev ftl) (hz : zid < dev.zpp.nrZones) :
    Good dev (othersOf ftl zid) ftl zid := by
  refine ⟨⟨fun t => ?_, h.cnt_le⟩, h.zones zid hz⟩
  rw [othersOf]
  cases hused : uses (ftl.zoneDescs zid) t with
  | false => simp
  | true =>
      have hpos : 0 < cnt ftl t := by
        rw [h.cnt_eq]
        exact countOf_pos (Finset.mem_range.2 hz) hused
      rw [Bool.toNat_true]
      omega

theorem Conserved.of_settled (h : Conserved dev ftl) (hz : zid < dev.zpp.nrZones)
    (hsettled : Settled dev (othersOf ftl zid) ftl ftl' zid) : Conserved dev ftl' := by
  refine ⟨fun t => ?_, hsettled.good.holding.cnt_le, fun z hlt => ?_⟩
  · have hupdate : (fun z => uses (ftl'.zoneDescs z) t) =
        Function.update (fun z => uses (ftl.zoneDescs z) t) zid
          (uses (ftl'.zoneDescs zid) t) := by
      funext z
      rcases eq_or_ne z zid with rfl | hne
      · rw [Function.update_self]
      · rw [Function.update_of_ne hne, hsettled.frame z hne]
    have hcount : zonesUsing dev ftl' t + (uses (ftl.zoneDescs zid) t).toNat =
        zonesUsing dev ftl t + (uses (ftl'.zoneDescs zid) t).toNat := by
      rw [zonesUsing, hupdate]
      exact countOf_update_toNat (p := fun z => uses (ftl.zoneDescs z) t)
        (Finset.mem_range.2 hz) (uses (ftl'.zoneDescs zid) t)
    have hbefore := (h.good hz).holding.cnt_eq t
    have hafter := hsettled.good.holding.cnt_eq t
    have heq := h.cnt_eq t
    omega
  · rcases eq_or_ne z zid with rfl | hne
    · exact hsettled.good.zone
    · rw [hsettled.frame z hne]
      exact h.zones z hlt

/-- The command addresses a zone of the namespace; a select-all needs no LBA. -/
def Addressed (dev : ZrwaDevice) (cmd : ZnsCommand) : Prop :=
  (cmd.opcode = .zoneMgmtSend ∧ cmd.selectAll = true) ∨
    cmd.slba < dev.space

theorem znsWrite_conserved (h : Conserved dev ftl)
    (hop : cmd.opcode = .write ∨ cmd.opcode = .zoneAppend)
    (hslba : cmd.slba < dev.space) (hsafe : ¬FillsZrwaZone dev ftl cmd)
    (hrun : znsWrite dev.spp dev.zpp ftl cmd = .ok (reply, cmd', ftl')) :
    Conserved dev ftl' := by
  have hz := (lbaToZone_of_lt hslba).2
  rw [znsWrite, lpnToZone_lbaToLpn] at hrun
  split at hrun
  · next hzrwa =>
    exact h.of_settled hz (znsWriteZrwa_settled rfl hslba hop hsafe (h.good hz) hzrwa hrun)
  · next hplain =>
    exact h.of_settled hz (znsWritePlain_settled rfl (h.good hz) (by simpa using hplain) hrun)

theorem zmgmtSend_conserved {slba : Nat} {action : ZoneSendAction} {option : Bool}
    {status : Status} (h : Conserved dev ftl) (hslba : slba < dev.space)
    (hrun : zmgmtSend dev.spp dev.zpp ftl slba action option = .ok (status, ftl')) :
    Conserved dev ftl' := by
  have hz := (lbaToZone_of_lt hslba).2
  exact h.of_settled hz (zmgmtSend_settled hz hslba (h.good hz) hrun)

theorem znsZmgmtSend_conserved {status : Status} (h : Conserved dev ftl)
    (haddressed : Addressed dev cmd)
    (hrun : znsZmgmtSend dev.spp dev.zpp ftl cmd = .ok (status, ftl')) :
    Conserved dev ftl' := by
  rw [znsZmgmtSend] at hrun
  split at hrun
  · next hall =>
    obtain ⟨last, hfold, hrun⟩ := exists_of_bind_eq_ok hrun
    cases hrun
    refine (Outcome.foldlM (E := fun _ => True) h ?_).value hfold
    intro z hz mid hmid
    have hslba := zoneToSlba_lt (List.mem_range.1 hz)
    cases hsend : zmgmtSend dev.spp dev.zpp mid (zoneToSlba dev.spp dev.zpp z) cmd.zsa
        cmd.zsaso with
    | error fault => trivial
    | ok sent => exact zmgmtSend_conserved hmid hslba hsend
  · next hall =>
    exact zmgmtSend_conserved h (haddressed.resolve_left fun hsend => hall hsend.2) hrun

/-- The event addresses the namespace and fills no zone that has a random write
area by an implicit flush. -/
def Careful (dev : ZrwaDevice) (ftl : ZnsFtl) : ZnsEvent → Prop
  | .cmd cmd => Addressed dev cmd ∧ ¬FillsZrwaZone dev ftl cmd
  | .release _ => True

instance (dev : ZrwaDevice) (cmd : ZnsCommand) : Decidable (Addressed dev cmd) :=
  inferInstanceAs (Decidable (_ ∨ _))

instance (dev : ZrwaDevice) (ftl : ZnsFtl) (cmd : ZnsCommand) :
    Decidable (FillsZrwaZone dev ftl cmd) :=
  inferInstanceAs (Decidable (_ ∧ _))

instance (dev : ZrwaDevice) (ftl : ZnsFtl) (e : ZnsEvent) : Decidable (Careful dev ftl e) :=
  match e with
  | .cmd _ => inferInstanceAs (Decidable (_ ∧ _))
  | .release _ => inferInstanceAs (Decidable True)

theorem znsStep_conserved {e : ZnsEvent} (h : Conserved dev ftl) (hcareful : Careful dev ftl e)
    (hrun : znsStep dev.spp dev.zpp ftl e = .ok ftl') : Conserved dev ftl' := by
  cases e with
  | release i =>
      have hsame : Same ftl ftl' := by
        rw [znsStep] at hrun
        split at hrun
        · cases hrun
          exact ⟨rfl, rfl⟩
        · cases hrun
          exact ⟨rfl, rfl⟩
      obtain ⟨hdescs, hres⟩ := hsame
      obtain ⟨hcnt, hle, hzones⟩ := h
      constructor
      all_goals simp only [cnt, total, zonesUsing, hdescs, hres]
      all_goals assumption
  | cmd cmd =>
      obtain ⟨haddressed, hsafe⟩ := hcareful
      have hslba : cmd.opcode ≠ .zoneMgmtSend →
          cmd.slba < dev.space := fun hsend =>
        haddressed.resolve_left fun hall => hsend hall.1
      obtain ⟨⟨reply, cmd', last⟩, hcmd, hrun⟩ := exists_of_bind_eq_ok hrun
      cases hrun
      rw [znsProcNvmeIoCmd] at hcmd
      cases hop : cmd.opcode with
      | write =>
          simp only [hop] at hcmd
          exact znsWrite_conserved h (.inl hop) (hslba (by simp [hop])) hsafe hcmd
      | zoneAppend =>
          simp only [hop] at hcmd
          exact znsWrite_conserved h (.inr hop) (hslba (by simp [hop])) hsafe hcmd
      | zoneMgmtSend =>
          simp only [hop] at hcmd
          obtain ⟨⟨status, sent⟩, hsend, hcmd⟩ := exists_of_bind_eq_ok hcmd
          cases hcmd
          exact znsZmgmtSend_conserved h haddressed hsend
      | read =>
          simp only [hop] at hcmd
          cases hcmd
          exact h
      | flush =>
          simp only [hop] at hcmd
          cases hcmd
          exact h
      | zoneMgmtRecv =>
          simp only [hop] at hcmd
          cases hcmd
          exact h
      | other code =>
          simp only [hop] at hcmd
          cases hcmd
          exact h

theorem znsInitFtl_conserved (dev : ZrwaDevice) (storage : Nat → UInt8) :
    Conserved dev (znsInitFtl dev.spp dev.zpp storage) := by
  refine ⟨fun t => ?_, fun _ => Nat.zero_le _, fun z _ => ?_⟩
  · refine (countOf_eq_zero.2 fun z _ => ?_).symm
    cases t <;> simp [uses, znsInitFtl, opened, active]
  · exact ⟨rfl, rfl, fun _ => ⟨rfl, rfl⟩, by simp [znsInitFtl]⟩

/-- In a run that fills no zone with a random write area by an implicit flush, the
counter of random write areas is the number of active zones that have one. -/
theorem zrwa_resources_conserved {storage : Nat → UInt8}
    (hrun : ReflTransGen
      (fun s s' => ∃ e, Careful dev s e ∧ znsStep dev.spp dev.zpp s e = .ok s')
      (znsInitFtl dev.spp dev.zpp storage) ftl) :
    (ftl.resInfos .zrwaZone).acquiredCnt =
      ((Finset.range dev.zpp.nrZones).filter fun z =>
        (ftl.zoneDescs z).zrwav = true ∧
          ((ftl.zoneDescs z).state = .openedImpl ∨ (ftl.zoneDescs z).state = .openedExpl ∨
            (ftl.zoneDescs z).state = .closed)).card := by
  have hconserved : Conserved dev ftl := by
    induction hrun with
    | refl => exact znsInitFtl_conserved dev storage
    | tail _ hstep ih =>
        obtain ⟨e, hcareful, hstep⟩ := hstep
        exact znsStep_conserved ih hcareful hstep
  refine (hconserved.cnt_eq .zrwaZone).trans ?_
  rw [zonesUsing, countOf]
  congr 1
  apply Finset.filter_congr
  intro z _
  change ((ftl.zoneDescs z).zrwav && active (ftl.zoneDescs z).state) = true ↔ _
  rw [Bool.and_eq_true]
  cases (ftl.zoneDescs z).state <;> simp [active]

/-- Two zones of 16 blocks, each of which can be a random write area. -/
def twoZrwaZones : ZrwaDevice where
  spp := twoZoneArray.spp
  zpp :=
    { twoZoneArray.zpp with
      zrwafgSize := 4096
      zrwaSize := 8192
      zrwaBufferSize := 16384
      lbasPerZrwafg := 8
      lbasPerZrwa := 16 }
  secsz_eq := twoZoneArray.secsz_eq
  secsPerPg_eq := twoZoneArray.secsPerPg_eq
  pgsz_eq := twoZoneArray.pgsz_eq
  zoneSize_pos := by decide
  zoneSize_aligned := rfl
  zoneSize_lt := by decide
  nrZones_lt := by decide
  lbasPerZrwafg_pos := by decide
  lbasPerZrwafg_dvd := by decide
  lbasPerZrwa_pos := by decide
  lbasPerZrwa_lt := by decide

def twoZrwaZonesFresh : ZnsFtl := znsInitFtl twoZrwaZones.spp twoZrwaZones.zpp fun _ => 0

theorem zrwa_resources_conserved_open :
    ∃ ftl, ReflTransGen
        (fun s s' => ∃ e, Careful twoZrwaZones s e ∧
          znsStep twoZrwaZones.spp twoZrwaZones.zpp s e = .ok s')
        twoZrwaZonesFresh ftl ∧
      (ftl.zoneDescs 0).wp = 8 ∧
      1 = ((Finset.range 2).filter fun z =>
        (ftl.zoneDescs z).zrwav = true ∧
          ((ftl.zoneDescs z).state = .openedImpl ∨ (ftl.zoneDescs z).state = .openedExpl ∨
            (ftl.zoneDescs z).state = .closed)).card := by
  let careful (s : ZnsFtl) (e : ZnsEvent) :=
    if Careful twoZrwaZones s e then znsStep twoZrwaZones.spp twoZrwaZones.zpp s e
    else .error (.bugOn .znsWriteZrwa)
  let test (s : ZnsFtl) : Bool :=
    (s.zoneDescs 0).wp == 8 && (s.resInfos .zrwaZone).acquiredCnt == 1
  obtain ⟨ftl, hsteps, htest⟩ : ∃ ftl,
      [.cmd (sendToFirst .openZone true), .cmd (ZonedRuns.command .write 0 7 (.other 0)),
        .cmd (ZonedRuns.command .zoneMgmtSend 7 0 .flushExplZrwa)].foldlM careful
          twoZrwaZonesFresh = .ok ftl ∧ test ftl = true :=
    exists_of_returns (by decide +kernel)
  simp only [test, Bool.and_eq_true, beq_iff_eq] at htest
  have hrun : ReflTransGen
      (fun s s' => ∃ e, Careful twoZrwaZones s e ∧
        znsStep twoZrwaZones.spp twoZrwaZones.zpp s e = .ok s') twoZrwaZonesFresh ftl := by
    refine reflTransGen_of_foldlM _ ?_ hsteps
    intro e _ s s' hstep
    simp only [careful] at hstep
    split at hstep
    · next hcareful => exact ⟨e, hcareful, hstep⟩
    · cases hstep
  exact ⟨ftl, hrun, htest.1, htest.2.symm.trans (zrwa_resources_conserved hrun)⟩

set_option maxRecDepth 4000 in
/-- A write of a whole zone that has a random write area: the zone is full and the
counter still holds the area. -/
theorem implicit_flush_leaks_zrwa :
    ∃ ftl, znsRun twoZrwaZones.spp twoZrwaZones.zpp twoZrwaZonesFresh
        [.cmd (sendToFirst .openZone true),
          .cmd (ZonedRuns.command .write 0 15 (.other 0))] = .ok ftl ∧
      (ftl.resInfos .zrwaZone).acquiredCnt = 1 ∧ (ftl.zoneDescs 0).state = .full ∧
      (ftl.zoneDescs 0).zrwav = true ∧ (ftl.zoneDescs 1).zrwav = false :=
  ⟨_, rfl, rfl, rfl, rfl, rfl⟩

end Runs

end NvmeVirt.ZrwaResources
