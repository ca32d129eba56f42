import NvmeVirt.ZonedRuns

namespace NvmeVirt.ZrwaReachability

open FaultOutcome
open FlashGeometry
open Relation
open WriteBuffer
open ZonedAccounting
open ZonedFtl
open ZonedRuns

/-- The macros of `ssd_config.h` that `zns_init_params` reads. -/
structure ZnsConfig where
  zoneSize : Nat
  diesPerZone : Nat
  zoneWbSize : Nat
  maxZrwaZones : Nat
  zrwaSize : Nat
  zrwafgSize : Nat
  zrwaBufferSize : Nat

/-- `zns_init_params`. -/
def znsInitParams (cfg : ZnsConfig) (spp : SsdParams) (capacity : Nat) : ZnsParams where
  nrZones := capacity / cfg.zoneSize
  nrActiveZones := capacity / cfg.zoneSize
  nrOpenZones := capacity / cfg.zoneSize
  diesPerZone := cfg.diesPerZone
  zoneSize := cfg.zoneSize
  zoneWbSize := cfg.zoneWbSize
  nrZrwaZones := cfg.maxZrwaZones
  zrwafgSize := cfg.zrwafgSize
  zrwaSize := cfg.zrwaSize
  zrwaBufferSize := cfg.zrwaBufferSize
  lbasPerZrwafg := cfg.zrwafgSize / spp.secsz
  lbasPerZrwa := cfg.zrwaSize / spp.secsz

variable {spp : SsdParams} {zpp : ZnsParams} {ftl ftl' : ZnsFtl} {zid : Nat}

def Plain (ftl : ZnsFtl) : Prop := ∀ z, (ftl.zoneDescs z).zrwav = false

def sendTargets (spp : SsdParams) (zpp : ZnsParams) (cmd : ZnsCommand) : List Nat :=
  if cmd.selectAll then
    (List.range zpp.nrZones).map fun z => lbaToZone spp zpp (zoneToSlba spp zpp z)
  else [lbaToZone spp zpp cmd.slba]

/-- The zones that a command works on are zones of the namespace. -/
def InNamespace (spp : SsdParams) (zpp : ZnsParams) : ZnsEvent → Prop
  | .cmd cmd => ∀ z ∈ if cmd.opcode = .zoneMgmtSend then sendTargets spp zpp cmd
      else [lbaToZone spp zpp cmd.slba], z < zpp.nrZones
  | .release _ => True

instance (spp : SsdParams) (zpp : ZnsParams) (e : ZnsEvent) :
    Decidable (InNamespace spp zpp e) :=
  match e with
  | .cmd _ => inferInstanceAs (Decidable (∀ z ∈ _, _))
  | .release _ => .isTrue trivial

/-- An open that carries the option bit and works on an empty zone. -/
def AllocatesZrwa (spp : SsdParams) (zpp : ZnsParams) (ftl : ZnsFtl) : ZnsEvent → Prop
  | .cmd cmd => cmd.opcode = .zoneMgmtSend ∧ cmd.zsa = .openZone ∧ cmd.zsaso = true ∧
      ∃ z ∈ sendTargets spp zpp cmd, (ftl.zoneDescs z).state = .empty
  | .release _ => False

instance (spp : SsdParams) (zpp : ZnsParams) (ftl : ZnsFtl) (e : ZnsEvent) :
    Decidable (AllocatesZrwa spp zpp ftl e) := by
  cases e with
  | cmd cmd => exact inferInstanceAs (Decidable (_ ∧ _))
  | release i => exact inferInstanceAs (Decidable False)

section Descriptors

theorem Plain.of_zoneDescs (h : Plain ftl) (hdescs : ftl'.zoneDescs = ftl.zoneDescs) :
    Plain ftl' := by
  intro z
  rw [hdescs]
  exact h z

theorem Plain.setDesc (h : Plain ftl) {desc : ZoneDescriptor} (hdesc : desc.zrwav = false) :
    Plain (ftl.setDesc zid desc) := by
  intro z
  rw [zoneDescs_setDesc]
  rcases eq_or_ne z zid with rfl | hne
  · rw [Function.update_self]
    exact hdesc
  · rw [Function.update_of_ne hne]
    exact h z

theorem Plain.changeZoneState (h : Plain ftl) (state : ZoneState) :
    Plain (changeZoneState ftl zid state) :=
  h.setDesc (h zid)

theorem Plain.release (h : Plain ftl) (type : ZoneResource) :
    Plain (releaseZoneResource ftl type) :=
  h.of_zoneDescs zoneDescs_release

theorem Plain.acquire (h : Plain ftl) (type : ZoneResource) :
    Plain (acquireZoneResource ftl type).2 :=
  h.of_zoneDescs zoneDescs_acquire

theorem Plain.releaseActive (h : Plain ftl) : Plain (releaseActive ftl zid) := by
  rw [ZonedFtl.releaseActive]
  split
  · exact (h.release _).release _
  · exact h.release _

theorem zoneDescs_resetZone :
    (resetZone zpp (changeZoneState ftl zid .empty) zid).zoneDescs =
      Function.update ftl.zoneDescs zid
        { ftl.zoneDescs zid with
          state := .empty
          wp := (ftl.zoneDescs zid).zslba
          zrwav := false } := by
  rw [resetZone]
  split <;> simp [ZnsFtl.setDesc, ZnsFtl.setBuffer]

theorem Plain.resetZone (h : Plain ftl) : Plain (resetZone zpp ftl zid) := by
  rw [ZonedFtl.resetZone]
  split
  · exact Plain.setDesc (h.of_zoneDescs rfl) rfl
  · exact Plain.of_zoneDescs (Plain.setDesc (h.of_zoneDescs rfl) rfl) rfl

theorem Plain.tryOpen (h : Plain ftl) (state : ZoneState) (status : Status) :
    Plain (match acquireZoneResource ftl .openZone with
      | (false, ftl) => (status, ftl)
      | (true, ftl) => (.success, ZonedFtl.changeZoneState ftl zid state)).2 := by
  have hacquired := h.acquire .openZone
  generalize acquireZoneResource ftl .openZone = taken at hacquired
  obtain ⟨ok, base⟩ := taken
  cases ok with
  | false => exact hacquired
  | true => exact hacquired.changeZoneState state

end Descriptors

section Actions

theorem zmgmtSendCloseZone_plain (h : Plain ftl) : Plain (zmgmtSendCloseZone ftl zid).2 := by
  rw [zmgmtSendCloseZone]
  split
  · exact (h.changeZoneState .closed).release .openZone
  · exact (h.changeZoneState .closed).release .openZone
  · exact h
  · exact h

theorem zmgmtSendFinishZone_plain (h : Plain ftl) : Plain (zmgmtSendFinishZone ftl zid).2 := by
  rw [zmgmtSendFinishZone]
  split
  · exact (h.release .openZone).releaseActive.changeZoneState .full
  · exact (h.release .openZone).releaseActive.changeZoneState .full
  · exact h.releaseActive.changeZoneState .full
  · exact h.changeZoneState .full
  · exact h
  · exact h

theorem zmgmtSendOpenZone_plain (h : Plain ftl) {option : Bool}
    (hoption : option = true → (ftl.zoneDescs zid).state ≠ .empty) :
    Plain (zmgmtSendOpenZone ftl zid option).2 := by
  rw [zmgmtSendOpenZone]
  split
  · next hempty =>
    split
    · exact h
    · split
      · exact h
      · split
        · next hset => exact absurd hempty (hoption hset)
        · exact (h.acquire .activeZone).tryOpen .openedExpl .noOpenZone
  · exact h.tryOpen .openedExpl .noOpenZone
  · exact h.changeZoneState .openedExpl
  · exact h
  · exact h

theorem zmgmtSendResetZone_plain (h : Plain ftl) : Plain (zmgmtSendResetZone zpp ftl zid).2 := by
  rw [zmgmtSendResetZone]
  split
  · exact ((h.release .openZone).releaseActive.changeZoneState .empty).resetZone
  · exact ((h.release .openZone).releaseActive.changeZoneState .empty).resetZone
  · exact (h.releaseActive.changeZoneState .empty).resetZone
  · exact (h.changeZoneState .empty).resetZone
  · exact (h.changeZoneState .empty).resetZone
  · exact h

theorem zmgmtSendOfflineZone_plain (h : Plain ftl) : Plain (zmgmtSendOfflineZone ftl zid).2 := by
  rw [zmgmtSendOfflineZone]
  split
  · exact h.changeZoneState .offline
  · exact h
  · exact h

theorem zmgmtSendFlushExplicitZrwa_plain (h : Plain ftl) (slba : Nat) :
    zmgmtSendFlushExplicitZrwa spp zpp ftl slba = .ok (.invalidZoneOperation, ftl) :=
  if_pos (h _)

theorem zmgmtSend_plain (spp : SsdParams) (zpp : ZnsParams) (slba : Nat)
    {action : ZoneSendAction} {option : Bool} (h : Plain ftl)
    (hoption : action = .openZone → option = true →
      (ftl.zoneDescs (lbaToZone spp zpp slba)).state ≠ .empty) :
    ∃ status ftl', zmgmtSend spp zpp ftl slba action option = .ok (status, ftl') ∧
      Plain ftl' := by
  cases action with
  | closeZone => exact ⟨_, _, rfl, zmgmtSendCloseZone_plain h⟩
  | finishZone => exact ⟨_, _, rfl, zmgmtSendFinishZone_plain h⟩
  | openZone => exact ⟨_, _, rfl, zmgmtSendOpenZone_plain h (hoption rfl)⟩
  | resetZone => exact ⟨_, _, rfl, zmgmtSendResetZone_plain h⟩
  | offlineZone => exact ⟨_, _, rfl, zmgmtSendOfflineZone_plain h⟩
  | flushExplZrwa => exact ⟨_, _, zmgmtSendFlushExplicitZrwa_plain h slba, h⟩
  | other code => exact ⟨_, _, rfl, h⟩

theorem zmgmtSendOpenZone_empty {option : Bool} {z : Nat}
    (hempty : ((zmgmtSendOpenZone ftl zid option).2.zoneDescs z).state = .empty) :
    (ftl.zoneDescs z).state = .empty := by
  have hopen : ∀ base : ZnsFtl, (∀ z, (base.zoneDescs z).state = (ftl.zoneDescs z).state) →
      ((openExplicitly base zid).2.zoneDescs z).state = .empty →
      (ftl.zoneDescs z).state = .empty := by
    intro base hbase hopened
    rw [openExplicitly] at hopened
    have hacquired : (acquireZoneResource base .openZone).2.zoneDescs = base.zoneDescs :=
      zoneDescs_acquire
    generalize acquireZoneResource base .openZone = taken at hopened hacquired
    obtain ⟨ok, opening⟩ := taken
    cases ok with
    | false =>
        rw [← hbase, ← hacquired]
        exact hopened
    | true =>
        rcases eq_or_ne z zid with rfl | hne
        · simp at hopened
        · rw [← hbase, ← hacquired]
          simpa [hne] using hopened
  rw [zmgmtSendOpenZone] at hempty
  split at hempty
  · next hstate =>
    split at hempty
    · exact hempty
    · split at hempty
      · exact hempty
      · split at hempty
        · split at hempty
          · exact hempty
          · refine hopen _ (fun z => ?_) hempty
            rw [zoneDescs_acquire, zoneDescs_setDesc]
            rcases eq_or_ne z zid with rfl | hne
            · rw [Function.update_self, zoneDescs_acquire]
            · rw [Function.update_of_ne hne, zoneDescs_acquire]
        · exact hopen _ (fun z => by rw [zoneDescs_acquire]) hempty
  · exact hopen _ (fun _ => rfl) hempty
  · rcases eq_or_ne z zid with rfl | hne
    · simp at hempty
    · simpa [hne] using hempty
  · exact hempty
  · exact hempty

theorem znsZmgmtSend_plain {cmd : ZnsCommand} (h : Plain ftl)
    (hsafe : cmd.zsa = .openZone → cmd.zsaso = true →
      ∀ z ∈ sendTargets spp zpp cmd, (ftl.zoneDescs z).state ≠ .empty) :
    Outcome (znsZmgmtSend spp zpp ftl cmd) (fun sent => Plain sent.2) fun _ => False := by
  rw [znsZmgmtSend]
  rw [sendTargets] at hsafe
  split
  · next hall =>
    rw [if_pos hall] at hsafe
    -- the zones still to come keep their state, so none of them is empty
    refine Outcome.bind (P := fun mid => Plain mid ∧ (cmd.zsa = .openZone →
      cmd.zsaso = true → ∀ z ∈ (List.range zpp.nrZones).map fun z =>
        lbaToZone spp zpp (zoneToSlba spp zpp z), (mid.zoneDescs z).state ≠ .empty))
      ?_ fun last hlast => hlast.1
    refine Outcome.foldlM ⟨h, hsafe⟩ fun z hz mid hmid => ?_
    obtain ⟨status, ftl', hsend, hplain⟩ := zmgmtSend_plain spp zpp
      (zoneToSlba spp zpp z) hmid.1 fun hopen hset => hmid.2 hopen hset _ (List.mem_map_of_mem hz)
    rw [hsend]
    refine ⟨hplain, fun hopen hset w hw hempty => hmid.2 hopen hset w hw ?_⟩
    rw [hopen] at hsend
    obtain rfl : _ = ftl' := congrArg Prod.snd (Except.ok.inj hsend)
    exact zmgmtSendOpenZone_empty hempty
  · next hall =>
    rw [if_neg hall] at hsafe
    obtain ⟨status, ftl', hsend, hplain⟩ := zmgmtSend_plain spp zpp cmd.slba h
      fun hopen hset => hsafe hopen hset _ (List.mem_singleton.2 rfl)
    rw [hsend]
    exact hplain

theorem znsZmgmtSend_open {cmd : ZnsCommand} (hopen : cmd.zsa = .openZone) :
    Outcome (znsZmgmtSend spp zpp ftl cmd) (fun _ => True) fun _ => False := by
  rw [znsZmgmtSend, hopen]
  split
  · refine Outcome.bind (P := fun _ => True) ?_ fun _ _ => trivial
    exact Outcome.foldlM trivial fun _ _ _ _ => trivial
  · trivial

end Actions

section Writes

theorem openForWrite_plain (h : Plain ftl) (zid slba : Nat) :
    Plain (openForWrite ftl zid slba).2 := by
  rw [openForWrite]
  split
  · split
    · exact h
    · split
      · exact h
      · split
        · exact h
        · exact (h.acquire .activeZone).tryOpen .openedImpl .noOpenZone
  · exact h.tryOpen .openedImpl .noOpenZone
  · exact h
  · exact h
  · exact h
  · exact h
  · exact h

theorem increaseWritePtr_plain (h : Plain ftl) (nrLba : Nat) :
    Plain (increaseWritePtr spp zpp ftl zid nrLba) := by
  have hmoved : ∀ wp, Plain (ftl.setDesc zid { ftl.zoneDescs zid with wp := wp }) :=
    fun wp => h.setDesc (h zid)
  rw [increaseWritePtr]
  split
  · exact (((hmoved _).release .openZone).release .activeZone).changeZoneState .full
  · exact hmoved _

theorem commitWrite_plain (h : Plain ftl) (slba nrLba : Nat) :
    Plain (commitWrite spp zpp ftl zid slba nrLba).2 := by
  rw [commitWrite]
  split
  · exact h
  · split
    · exact h
    · split
      · exact h
      · have hopened := openForWrite_plain h zid slba
        generalize openForWrite ftl zid slba = opening at hopened
        obtain ⟨status, opening⟩ := opening
        cases status with
        | success => exact (increaseWritePtr_plain hopened nrLba).of_zoneDescs rfl
        | _ => exact hopened

theorem znsWritePlain_plain (h : Plain ftl) (cmd : ZnsCommand) :
    Outcome (znsWritePlain spp zpp ftl cmd) (fun answer => Plain answer.2.2)
      fun fault => fault = .bugOn .bufferAllocate := by
  rw [znsWritePlain]
  refine Outcome.bind (P := fun _ => True) ?_ fun granted _ => ?_
  · rw [bufferAllocate, nvmevAssert]
    split
    · trivial
    · rfl
  · have hgranted : Plain (ftl.setBuffer (writeBufferRef zpp (lbaToZone spp zpp cmd.slba))
        granted.2) := h.of_zoneDescs rfl
    dsimp only
    split
    · exact hgranted
    · exact Outcome.pure (commitWrite_plain hgranted _ _)

end Writes

section Runs

/-- What one event does when no zone has a random write area yet: without an
allocating open none gets one, and nothing is divided. -/
theorem znsStep_outcome (h : Plain ftl) (e : ZnsEvent) :
    Outcome (znsStep spp zpp ftl e) (fun ftl' => ¬AllocatesZrwa spp zpp ftl e → Plain ftl')
      fun fault => fault = .bugOn .bufferAllocate := by
  cases e with
  | release i =>
      rw [znsStep]
      split
      · exact fun _ => h
      · exact fun _ => h.of_zoneDescs rfl
  | cmd cmd =>
      refine Outcome.bind (P := fun answer => ¬AllocatesZrwa spp zpp ftl (.cmd cmd) →
        Plain answer.2.2) ?_ ?_
      swap
      · rintro ⟨reply, cmd', last⟩ hanswer
        exact Outcome.pure hanswer
      have hwrite : Outcome (znsWrite spp zpp ftl cmd)
          (fun answer => ¬AllocatesZrwa spp zpp ftl (.cmd cmd) → Plain answer.2.2)
          fun fault => fault = .bugOn .bufferAllocate := by
        rw [znsWrite, if_neg (by simp [h _])]
        exact (znsWritePlain_plain h cmd).imp (fun _ hplain _ => hplain) fun _ hfault => hfault
      rw [znsProcNvmeIoCmd]
      cases hop : cmd.opcode with
      | write => exact hwrite
      | zoneAppend => exact hwrite
      | zoneMgmtSend =>
          refine Outcome.bind (P := fun sent => ¬AllocatesZrwa spp zpp ftl (.cmd cmd) →
            Plain sent.2) ?_ ?_
          swap
          · rintro ⟨status, last⟩ hsent
            exact Outcome.pure hsent
          by_cases hallocates : AllocatesZrwa spp zpp ftl (.cmd cmd)
          · exact (znsZmgmtSend_open hallocates.2.1).imp
              (fun _ _ hsafe => absurd hallocates hsafe) fun _ hfault => hfault.elim
          · refine (znsZmgmtSend_plain h fun hopen hset z hz hempty => ?_).imp
              (fun _ hplain _ => hplain) fun _ hfault => hfault.elim
            exact hallocates ⟨hop, hopen, hset, z, hz, hempty⟩
      | read => exact fun _ => h
      | flush => exact fun _ => h
      | zoneMgmtRecv => exact fun _ => h
      | other code => exact fun _ => h

/-- In a run none of whose opens carries the option bit to an empty zone, no zone
ever has a random write area, and no next command divides by zero. -/
theorem zrwa_unreachable_without_option {storage : Nat → UInt8}
    (hrun : ReflTransGen
      (fun s s' => ∃ e, InNamespace spp zpp e ∧ ¬AllocatesZrwa spp zpp s e ∧
        znsStep spp zpp s e = .ok s')
      (znsInitFtl spp zpp storage) ftl) :
    (∀ z, (ftl.zoneDescs z).zrwav = false) ∧
      ∀ e site, InNamespace spp zpp e →
        znsStep spp zpp ftl e ≠ .error (.divideByZero site) := by
  have hplain : Plain ftl := by
    induction hrun with
    | refl => exact fun _ => rfl
    | tail _ hstep ih =>
        obtain ⟨e, -, hsafe, hstep⟩ := hstep
        exact (znsStep_outcome ih e).value hstep hsafe
  refine ⟨hplain, fun e site _ hfault => ?_⟩
  have hassert := (znsStep_outcome hplain e).fault hfault
  cases hassert

/-- A namespace of 128 MB in the `ZNS_PROTOTYPE` configuration. -/
def prototypeSsd : SsdParams :=
  ssdInitParams
    { lbaSize := 512
      nandChannels := 8
      plnsPerLun := 1
      lunsPerNandCh := 16
      blksPerPln := 0
      blkSize := 32 * 1024 * 1024
      flashPageSize := 64 * 1024
      oneshotPageSize := 128 * 1024
      writeUnitSize := 128 * 1024
      globalWbSize := 8 * 16 * (128 * 1024) * 2 }
    (128 * 1024 * 1024) 1

def prototypeZones : ZnsParams :=
  znsInitParams
    { zoneSize := 32 * 1024 * 1024
      diesPerZone := 1
      zoneWbSize := 0
      maxZrwaZones := 0
      zrwaSize := 0
      zrwafgSize := 0
      zrwaBufferSize := 0 }
    prototypeSsd (128 * 1024 * 1024)

/-- A zone-management-send for zone 0, with or without the option bit. -/
def sendToFirst (action : ZoneSendAction) (option : Bool) : ZnsCommand :=
  { command .zoneMgmtSend 0 0 action with zsaso := option }

set_option maxRecDepth 4000 in
theorem zrwa_unreachable_without_option_open :
    ∃ ftl, znsRun prototypeSsd prototypeZones (znsInitFtl prototypeSsd prototypeZones fun _ => 0)
        [.cmd (sendToFirst .openZone false)] = .ok ftl ∧
      (ftl.zoneDescs 0).state = .openedExpl ∧ (ftl.zoneDescs 0).zrwav = false := by
  obtain ⟨ftl, hrun, hstate⟩ : ∃ ftl, znsRun prototypeSsd prototypeZones
      (znsInitFtl prototypeSsd prototypeZones fun _ => 0)
      [.cmd (sendToFirst .openZone false)] = .ok ftl ∧
      (ftl.zoneDescs 0).state = .openedExpl := ⟨_, rfl, rfl⟩
  have hsteps := reflTransGen_of_foldlM (R := fun s s' => ∃ e,
      InNamespace prototypeSsd prototypeZones e ∧
      ¬AllocatesZrwa prototypeSsd prototypeZones s e ∧
      znsStep prototypeSsd prototypeZones s e = .ok s') _ (fun e he s s' hstep => ?_) hrun
  · exact ⟨ftl, hrun, hstate, (zrwa_unreachable_without_option hsteps).1 0⟩
  · obtain rfl := List.mem_singleton.1 he
    exact ⟨_, by decide, fun hallocates => by simpa [sendToFirst] using hallocates.2.2.1, hstep⟩

set_option maxRecDepth 4000 in
/-- With no random write area configured, opening zone 0 with the option bit gives
it one, and then both a flush and a write of zone 0 divide by zero. -/
theorem open_option_reaches_zero_divisor :
    prototypeZones.nrZrwaZones = 0 ∧ prototypeZones.lbasPerZrwa = 0 ∧
      prototypeZones.lbasPerZrwafg = 0 ∧
      ∃ ftl, znsRun prototypeSsd prototypeZones
          (znsInitFtl prototypeSsd prototypeZones fun _ => 0)
          [.cmd (sendToFirst .openZone true)] = .ok ftl ∧
        (ftl.zoneDescs 0).zrwav = true ∧
        znsStep prototypeSsd prototypeZones ftl (.cmd (sendToFirst .flushExplZrwa false)) =
          .error (.divideByZero .flushExplicitZrwa) ∧
        znsStep prototypeSsd prototypeZones ftl (.cmd (command .write 0 255 (.other 0))) =
          .error (.divideByZero .znsWriteZrwa) :=
  ⟨rfl, rfl, rfl, _, rfl, rfl, rfl, rfl⟩

end Runs

end NvmeVirt.ZrwaReachability
