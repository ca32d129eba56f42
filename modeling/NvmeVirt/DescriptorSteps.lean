import NvmeVirt.ZoneArray

namespace NvmeVirt.DescriptorSteps

open FaultOutcome
open Relation (ReflTransGen)
open WriteBuffer
open ZonedAccounting
open ZonedFtl
open ZonedRuns
open ZoneArray
open ZrwaReachability

/-- One change to the descriptor of zone `zid`. -/
inductive DescStep (spp : FlashGeometry.SsdParams) (zpp : ZnsParams) (zid : Nat)
    (desc : ZoneDescriptor) : ZoneDescriptor → Prop
  /-- The zone is opened, closed or taken offline, which a full zone cannot be. -/
  | relabel (state : ZoneState) (h : desc.state ≠ .full) :
      DescStep spp zpp zid desc { desc with state := state }
  | finish : DescStep spp zpp zid desc { desc with state := .full }
  | allocate : DescStep spp zpp zid desc { desc with zrwav := true }
  | reset :
      DescStep spp zpp zid desc { desc with state := .empty, wp := desc.zslba, zrwav := false }
  /-- The write pointer moves without filling the zone, or onto its end. -/
  | advance (wp : Nat) (h : wp ≠ zoneToSlba spp zpp zid + desc.zoneCapacity) :
      DescStep spp zpp zid desc { desc with wp := wp }
  | fill (wp : Nat) : DescStep spp zpp zid desc { desc with wp := wp, state := .full }

def Evolves (spp : FlashGeometry.SsdParams) (zpp : ZnsParams) (ftl ftl' : ZnsFtl) : Prop :=
  ∀ z, ReflTransGen (DescStep spp zpp z) (ftl.zoneDescs z) (ftl'.zoneDescs z)

variable {spp : FlashGeometry.SsdParams} {zpp : ZnsParams} {ftl ftl' ftl'' base : ZnsFtl}
  {zid : Nat} {cmd : ZnsCommand}

theorem Evolves.invariant {P : Nat → ZoneDescriptor → Prop}
    (h : Evolves spp zpp ftl ftl')
    (hstep : ∀ z desc desc', DescStep spp zpp z desc desc' → P z desc → P z desc')
    {z : Nat} (hz : P z (ftl.zoneDescs z)) : P z (ftl'.zoneDescs z) := by
  have hall := h z
  generalize ftl'.zoneDescs z = desc' at hall
  induction hall with
  | refl => exact hz
  | tail _ hlast ih => exact hstep z _ _ hlast ih

section Descriptors

theorem Evolves.of_eq (h : ftl'.zoneDescs = ftl.zoneDescs) : Evolves spp zpp ftl ftl' := by
  intro z
  rw [h]

theorem Evolves.refl (ftl : ZnsFtl) : Evolves spp zpp ftl ftl := .of_eq rfl

theorem Evolves.trans (h : Evolves spp zpp ftl ftl') (h' : Evolves spp zpp ftl' ftl'') :
    Evolves spp zpp ftl ftl'' := fun z => (h z).trans (h' z)

theorem Evolves.of_step {desc : ZoneDescriptor} (hbase : base.zoneDescs = ftl.zoneDescs)
    (hdescs : ftl'.zoneDescs = Function.update base.zoneDescs zid desc)
    (hstep : DescStep spp zpp zid (base.zoneDescs zid) desc) : Evolves spp zpp ftl ftl' := by
  intro z
  rw [hdescs, ← hbase]
  rcases eq_or_ne z zid with rfl | hne
  · rw [Function.update_self]
    exact .single hstep
  · rw [Function.update_of_ne hne]

theorem Evolves.relabel (state : ZoneState) (hbase : base.zoneDescs = ftl.zoneDescs)
    (h : (ftl.zoneDescs zid).state ≠ .full) :
    Evolves spp zpp ftl (changeZoneState base zid state) := by
  refine .of_step hbase rfl (.relabel state ?_)
  rwa [hbase]

theorem Evolves.finish (hbase : base.zoneDescs = ftl.zoneDescs) :
    Evolves spp zpp ftl (changeZoneState base zid .full) :=
  .of_step hbase rfl .finish

theorem Evolves.reset (hbase : base.zoneDescs = ftl.zoneDescs) :
    Evolves spp zpp ftl (resetZone zpp (changeZoneState base zid .empty) zid) :=
  .of_step hbase zoneDescs_resetZone .reset

theorem Evolves.tryOpen (state : ZoneState) (status : Status)
    (hbase : base.zoneDescs = ftl.zoneDescs) (h : (ftl.zoneDescs zid).state ≠ .full) :
    Evolves spp zpp ftl (match acquireZoneResource base .openZone with
      | (false, ftl) => (status, ftl)
      | (true, ftl) => (.success, changeZoneState ftl zid state)).2 := by
  have hacquired : (acquireZoneResource base .openZone).2.zoneDescs = base.zoneDescs :=
    zoneDescs_acquire
  generalize acquireZoneResource base .openZone = taken at hacquired
  obtain ⟨ok, opening⟩ := taken
  cases ok with
  | false => exact .of_eq (hacquired.trans hbase)
  | true => exact .relabel state (hacquired.trans hbase) h

end Descriptors

section Actions

theorem zmgmtSendCloseZone_evolves : Evolves spp zpp ftl (zmgmtSendCloseZone ftl zid).2 := by
  have hclose : (ftl.zoneDescs zid).state ≠ .full → Evolves spp zpp ftl
      (releaseZoneResource (changeZoneState ftl zid .closed) .openZone) :=
    fun h => (Evolves.relabel .closed rfl h).trans (.of_eq zoneDescs_release)
  rw [zmgmtSendCloseZone]
  split
  · next hstate => exact hclose (by simp [hstate])
  · next hstate => exact hclose (by simp [hstate])
  · exact .refl ftl
  · exact .refl ftl

theorem zmgmtSendFinishZone_evolves : Evolves spp zpp ftl (zmgmtSendFinishZone ftl zid).2 := by
  rw [zmgmtSendFinishZone]
  split
  · exact .finish (zoneDescs_releaseActive.trans zoneDescs_release)
  · exact .finish (zoneDescs_releaseActive.trans zoneDescs_release)
  · exact .finish zoneDescs_releaseActive
  · exact .finish rfl
  · exact .refl ftl
  · exact .refl ftl

theorem zmgmtSendOpenZone_evolves (option : Bool) :
    Evolves spp zpp ftl (zmgmtSendOpenZone ftl zid option).2 := by
  rw [zmgmtSendOpenZone]
  split
  · next hstate =>
    have hopen : (ftl.zoneDescs zid).state ≠ .full := by simp [hstate]
    split
    · exact .refl ftl
    · split
      · exact .refl ftl
      · split
        · split
          · exact .refl ftl
          · -- the random write area is allocated before the zone is opened
            obtain ⟨area, harea⟩ : ∃ area : ZnsFtl, area =
                ((acquireZoneResource ftl .zrwaZone).2.setDesc zid
                  { (acquireZoneResource ftl .zrwaZone).2.zoneDescs zid with zrwav := true }) :=
              ⟨_, rfl⟩
            have halloc : Evolves spp zpp ftl area := by
              rw [harea]
              exact .of_step zoneDescs_acquire rfl .allocate
            have hstill : (area.zoneDescs zid).state ≠ .full := by
              rw [harea, zoneDescs_setDesc, Function.update_self, zoneDescs_acquire]
              exact hopen
            dsimp only
            rw [← harea]
            exact halloc.trans (.tryOpen .openedExpl .noOpenZone zoneDescs_acquire hstill)
        · exact .tryOpen .openedExpl .noOpenZone zoneDescs_acquire hopen
  · next hstate => exact .tryOpen .openedExpl .noOpenZone rfl (by simp [hstate])
  · next hstate => exact .relabel .openedExpl rfl (by simp [hstate])
  · exact .refl ftl
  · exact .refl ftl

theorem zmgmtSendResetZone_evolves : Evolves spp zpp ftl (zmgmtSendResetZone zpp ftl zid).2 := by
  rw [zmgmtSendResetZone]
  split
  · exact .reset (zoneDescs_releaseActive.trans zoneDescs_release)
  · exact .reset (zoneDescs_releaseActive.trans zoneDescs_release)
  · exact .reset zoneDescs_releaseActive
  · exact .reset rfl
  · exact .reset rfl
  · exact .refl ftl

theorem zmgmtSendOfflineZone_evolves : Evolves spp zpp ftl (zmgmtSendOfflineZone ftl zid).2 := by
  rw [zmgmtSendOfflineZone]
  split
  · next hstate => exact .relabel .offline rfl (by simp [hstate])
  · exact .refl ftl
  · exact .refl ftl

theorem flushZrwaTo_evolves (slba : Nat) :
    Evolves spp zpp ftl (flushZrwaTo spp zpp ftl zid slba).2 := by
  have hmoved : slba + 1 ≠ zoneToSlba spp zpp zid + (ftl.zoneDescs zid).zoneCapacity →
      Evolves spp zpp ftl (ftl.setDesc zid { ftl.zoneDescs zid with wp := slba + 1 }) :=
    fun h => .of_step rfl rfl (.advance _ h)
  -- the counters change between the two updates of the descriptor
  have hfilled : ∀ released : ZnsFtl, released.zoneDescs =
        Function.update ftl.zoneDescs zid { ftl.zoneDescs zid with wp := slba + 1 } →
      Evolves spp zpp ftl (changeZoneState (releaseZoneResource
        (releaseZoneResource released .activeZone) .zrwaZone) zid .full) := by
    intro released hreleased
    have hfill : DescStep spp zpp zid (ftl.zoneDescs zid)
        { ftl.zoneDescs zid with wp := slba + 1, state := .full } := .fill _
    refine .of_step rfl ?_ hfill
    rw [changeZoneState, zoneDescs_setDesc, zoneDescs_release, zoneDescs_release, hreleased,
      Function.update_idem, Function.update_self]
  rw [flushZrwaTo]
  dsimp only
  split
  · split
    · exact hfilled _ (by rw [zoneDescs_release]; rfl)
    · next hreached => exact hmoved hreached
  · split
    · exact hfilled _ (by rw [zoneDescs_release]; rfl)
    · next hreached => exact hmoved hreached
  · split
    · exact hfilled _ rfl
    · next hreached => exact hmoved hreached
  · exact .refl ftl

theorem zmgmtSend_evolves (slba : Nat) (action : ZoneSendAction) (option : Bool) :
    Outcome (zmgmtSend spp zpp ftl slba action option)
      (fun sent => Evolves spp zpp ftl sent.2) fun _ => True := by
  cases action with
  | closeZone => exact zmgmtSendCloseZone_evolves
  | finishZone => exact zmgmtSendFinishZone_evolves
  | openZone => exact zmgmtSendOpenZone_evolves option
  | resetZone => exact zmgmtSendResetZone_evolves
  | offlineZone => exact zmgmtSendOfflineZone_evolves
  | other code => exact Evolves.refl ftl
  | flushExplZrwa =>
      rw [zmgmtSend, zmgmtSendFlushExplicitZrwa]
      split
      · exact Evolves.refl ftl
      · split
        · exact Evolves.refl ftl
        · split
          · trivial
          · split
            · exact Evolves.refl ftl
            · exact flushZrwaTo_evolves slba

theorem znsZmgmtSend_evolves :
    Outcome (znsZmgmtSend spp zpp ftl cmd) (fun sent => Evolves spp zpp ftl sent.2)
      fun _ => True := by
  rw [znsZmgmtSend]
  split
  · refine Outcome.bind (P := fun last => Evolves spp zpp ftl last) ?_ fun last hlast => hlast
    refine Outcome.foldlM (.refl ftl) fun z _ mid hmid => ?_
    refine Outcome.bind (zmgmtSend_evolves _ _ _) ?_
    rintro ⟨status, last⟩ hlast
    exact hmid.trans hlast
  · exact zmgmtSend_evolves _ _ _

end Actions

section Writes

theorem openForWrite_evolves (zid slba : Nat) :
    Evolves spp zpp ftl (openForWrite ftl zid slba).2 := by
  rw [openForWrite]
  split
  · next hstate =>
    have hopen : (ftl.zoneDescs zid).state ≠ .full := by simp [hstate]
    split
    · exact .refl ftl
    · split
      · exact .refl ftl
      · split
        · exact .refl ftl
        · exact .tryOpen .openedImpl .noOpenZone zoneDescs_acquire hopen
  · next hstate => exact .tryOpen .openedImpl .noOpenZone rfl (by simp [hstate])
  · exact .refl ftl
  · exact .refl ftl
  · exact .refl ftl
  · exact .refl ftl
  · exact .refl ftl

theorem increaseWritePtr_evolves (nrLba : Nat) :
    Evolves spp zpp ftl (increaseWritePtr spp zpp ftl zid nrLba) := by
  rw [increaseWritePtr]
  split
  · have hfill : DescStep spp zpp zid (ftl.zoneDescs zid)
        { ftl.zoneDescs zid with
          wp := ((ftl.zoneDescs zid).wp + nrLba) % 2 ^ 64
          state := .full } := .fill _
    refine .of_step rfl ?_ hfill
    rw [changeZoneState, zoneDescs_setDesc, zoneDescs_release, zoneDescs_release,
      zoneDescs_setDesc, Function.update_idem, Function.update_self]
  · next hend => exact .of_step rfl rfl (.advance _ hend)

theorem commitWrite_evolves (zid slba nrLba : Nat) :
    Evolves spp zpp ftl (commitWrite spp zpp ftl zid slba nrLba).2 := by
  rw [commitWrite]
  split
  · exact .refl ftl
  · split
    · exact .refl ftl
    · split
      · exact .refl ftl
      · have hopened : Evolves spp zpp ftl (openForWrite ftl zid slba).2 :=
          openForWrite_evolves zid slba
        generalize openForWrite ftl zid slba = opening at hopened
        obtain ⟨status, opening⟩ := opening
        cases status with
        | success => exact hopened.trans ((increaseWritePtr_evolves nrLba).trans (.of_eq rfl))
        | _ => exact hopened

theorem znsWritePlain_evolves :
    Outcome (znsWritePlain spp zpp ftl cmd) (fun answer => Evolves spp zpp ftl answer.2.2)
      fun _ => True := by
  rw [znsWritePlain]
  refine Outcome.bind (P := fun _ => True) ?_ fun granted _ => ?_
  · exact (bufferAllocate_total _ _).imp (fun _ _ => trivial) fun _ _ => trivial
  · have hgranted : Evolves spp zpp ftl
        (ftl.setBuffer (writeBufferRef zpp (lbaToZone spp zpp cmd.slba)) granted.2) := .of_eq rfl
    dsimp only
    split
    · exact hgranted
    · exact Outcome.pure (hgranted.trans (commitWrite_evolves _ _ _))

theorem zrwaAllocate_evolves (size : Nat) :
    Outcome (zrwaAllocate zpp ftl zid size) (fun r => r.2.zoneDescs = ftl.zoneDescs)
      fun _ => True :=
  .of_value fun _ hrun => (zrwaAllocate_spec hrun).1.zoneDescs

theorem openForZrwaWrite_evolves :
    Outcome (openForZrwaWrite zpp ftl zid) (fun r => Evolves spp zpp ftl r.2)
      fun _ => True := by
  refine .of_value fun r hrun => ?_
  obtain ⟨status, opening⟩ := r
  cases zrwaOpens_of_openForZrwaWrite hrun with
  | already => exact Evolves.refl ftl
  | refused => exact Evolves.refl ftl
  | opens hstate _ hbase =>
      have hallocated := (zrwaAllocate_spec hbase).1.zoneDescs
      refine Evolves.relabel .openedImpl hallocated ?_
      rcases hstate with hstate | hstate
      · simp [hstate]
      · simp [hstate]

theorem znsWriteZrwa_evolves :
    Outcome (znsWriteZrwa spp zpp ftl cmd) (fun answer => Evolves spp zpp ftl answer.2.2)
      fun _ => True := by
  refine .of_value fun answer hrun => ?_
  obtain ⟨reply, cmd', ftl'⟩ := answer
  obtain ⟨-, hwrites⟩ := zrwaWrites_of_znsWriteZrwa hrun
  cases hwrites with
  | rejected => exact Evolves.refl ftl
  | answered _ hopen => exact openForZrwaWrite_evolves.value hopen
  | @refused base filled _ hopen hfilled =>
      have hopened : Evolves spp zpp ftl base := openForZrwaWrite_evolves.value hopen
      exact hopened.trans (.of_eq ((zrwaAllocate_evolves _).value hfilled))
  | @flushes base filled _ hopen hfilled =>
      have hopened : Evolves spp zpp ftl base := openForZrwaWrite_evolves.value hopen
      have hmid : Evolves spp zpp ftl filled :=
        hopened.trans (.of_eq ((zrwaAllocate_evolves _).value hfilled))
      exact hmid.trans ((increaseWritePtr_evolves _).trans (.of_eq rfl))

end Writes

section Runs

theorem znsProcNvmeIoCmd_evolves :
    Outcome (znsProcNvmeIoCmd spp zpp ftl cmd) (fun answer => Evolves spp zpp ftl answer.2.2)
      fun _ => True := by
  have hwrite : Outcome (znsWrite spp zpp ftl cmd)
      (fun answer => Evolves spp zpp ftl answer.2.2) fun _ => True := by
    rw [znsWrite]
    split
    · exact znsWriteZrwa_evolves
    · exact znsWritePlain_evolves
  rw [znsProcNvmeIoCmd]
  cases cmd.opcode with
  | write => exact hwrite
  | zoneAppend => exact hwrite
  | zoneMgmtSend =>
      refine Outcome.bind znsZmgmtSend_evolves ?_
      rintro ⟨status, last⟩ hlast
      exact hlast
  | read => exact Evolves.refl ftl
  | flush => exact Evolves.refl ftl
  | zoneMgmtRecv => exact Evolves.refl ftl
  | other code => exact Evolves.refl ftl

theorem znsStep_evolves (e : ZnsEvent) :
    Outcome (znsStep spp zpp ftl e) (fun last => Evolves spp zpp ftl last) fun _ => True := by
  cases e with
  | release i =>
      rw [znsStep]
      split
      · exact Evolves.refl ftl
      · exact Evolves.of_eq rfl
  | cmd cmd =>
      refine Outcome.bind znsProcNvmeIoCmd_evolves ?_
      rintro ⟨reply, cmd', last⟩ hlast
      exact hlast

theorem znsRun_evolves (events : List ZnsEvent) :
    Outcome (znsRun spp zpp ftl events) (fun last => Evolves spp zpp ftl last)
      fun _ => True := by
  refine Outcome.foldlM (.refl ftl) fun e _ mid hmid => ?_
  exact (znsStep_evolves e).imp (fun _ hlast => hmid.trans hlast) fun _ _ => trivial

end Runs

end NvmeVirt.DescriptorSteps
