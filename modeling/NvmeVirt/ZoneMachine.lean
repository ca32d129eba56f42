import NvmeVirt.LocalSteps
import NvmeVirt.ZrwaReachability

namespace NvmeVirt.ZoneMachine

open FaultOutcome
open FlashGeometry
open LocalSteps
open WriteBuffer
open ZonedAccounting
open ZonedFtl
open ZrwaReachability

@[ext] structure Zone where
  desc : ZoneDescriptor
  writeBuffer : Buffer

/-- Zone `z` of a namespace. -/
def zoneOf (ftl : ZnsFtl) (z : Nat) : Zone := ⟨ftl.zoneDescs z, ftl.buffers (.zoneWriteBuffer z)⟩

def IsZoneCommand (cmd : ZnsCommand) : Prop :=
  cmd.opcode = .write ∨ cmd.opcode = .zoneAppend ∨
    cmd.opcode = .zoneMgmtSend ∧ cmd.selectAll = false ∧
      (cmd.zsa = .openZone ∨ cmd.zsa = .closeZone ∨ cmd.zsa = .finishZone ∨
        cmd.zsa = .resetZone)

instance (cmd : ZnsCommand) : Decidable (IsZoneCommand cmd) :=
  inferInstanceAs (Decidable (_ ∨ _))

section Machine

variable (spp : SsdParams) (zpp : ZnsParams) (zid : Nat)

/-- The state in which a write at `slba` finds the zone open, or why it is
rejected. -/
def openState (desc : ZoneDescriptor) (slba : Nat) : Status × ZoneState :=
  match desc.state with
  | .empty => if slba ≠ desc.zslba then (.invalidWrite, .empty) else (.success, .openedImpl)
  | .closed => (.success, .openedImpl)
  | .openedImpl => (.success, .openedImpl)
  | .openedExpl => (.success, .openedExpl)
  | .full => (.errFull, .full)
  | .readOnly => (.errReadOnly, .readOnly)
  | .offline => (.errOffline, .offline)

/-- The write pointer moves, at the end of the zone into the full state. -/
def advance (desc : ZoneDescriptor) (nrLba : Nat) : ZoneDescriptor :=
  let wp := (desc.wp + nrLba) % 2 ^ 64
  if wp = zoneToSlba spp zpp zid + desc.zoneCapacity then
    { desc with wp := wp, state := .full }
  else { desc with wp := wp }

def commitZone (desc : ZoneDescriptor) (slba nrLba : Nat) : Status × ZoneDescriptor :=
  if lbaToByte nrLba % spp.writeUnitSize ≠ 0 then (.invalidWrite, desc)
  else if checkBoundaryError spp zpp slba nrLba = false then (.errBoundary, desc)
  else if slba ≠ desc.wp then (.invalidWrite, desc)
  else
    match openState desc slba with
    | (.success, state) => (.success, advance spp zpp zid { desc with state := state } nrLba)
    | (status, _) => (status, desc)

def writeZone (zone : Zone) (cmd : ZnsCommand) :
    Except Fault ((Option Reply × ZnsCommand) × Zone) := do
  let isAppend := cmd.opcode = .zoneAppend
  let slba := if isAppend then zone.desc.wp else cmd.slba
  let result := if isAppend then slba else 0
  let cmd' := { cmd with slba := slba }
  let (granted, buf) ← bufferAllocate zone.writeBuffer (lbaToByte cmd.nrLba)
  if granted < lbaToByte cmd.nrLba then
    return ((none, cmd'), ⟨zone.desc, buf⟩)
  else
    let (status, desc) := commitZone spp zpp zid zone.desc slba cmd.nrLba
    return ((some { status := status, result := result }, cmd'), ⟨desc, buf⟩)

/-- A zone-management action; `zrwaFull` says that no random write area is left. -/
def sendZone (zrwaFull : Bool) (desc : ZoneDescriptor) (action : ZoneSendAction)
    (option : Bool) : Status × ZoneDescriptor :=
  match action with
  | .closeZone =>
      match desc.state with
      | .openedImpl | .openedExpl => (.success, { desc with state := .closed })
      | .closed => (.success, desc)
      | _ => (.invalidTransition, desc)
  | .finishZone =>
      match desc.state with
      | .readOnly | .offline => (.invalidTransition, desc)
      | _ => (.success, { desc with state := .full })
  | .openZone =>
      match desc.state with
      | .empty =>
          if option then
            if zrwaFull then (.zrwaRsrcUnavail, desc)
            else (.success, { desc with zrwav := true, state := .openedExpl })
          else (.success, { desc with state := .openedExpl })
      | .closed | .openedImpl | .openedExpl => (.success, { desc with state := .openedExpl })
      | _ => (.invalidTransition, desc)
  | .resetZone =>
      match desc.state with
      | .readOnly | .offline => (.invalidTransition, desc)
      | _ => (.success, { desc with state := .empty, wp := desc.zslba, zrwav := false })
  | _ => (.indeterminate, desc)

def zoneCommand (zrwaFull : Bool) (cmd : ZnsCommand) (zone : Zone) :
    Except Fault ((Option Reply × ZnsCommand) × Zone) :=
  if cmd.opcode = .zoneMgmtSend then
    let sent := sendZone zrwaFull zone.desc cmd.zsa cmd.zsaso
    .ok ((some { status := sent.1, result := 0 }, cmd), ⟨sent.2, zone.writeBuffer⟩)
  else writeZone spp zpp zid zone cmd

end Machine

section Refinement

variable {spp : SsdParams} {zpp : ZnsParams} {ftl ftl' : ZnsFtl} {zid : Nat}

/-- The zone has no random write area and is not refused an open or an active
resource that it lacks. -/
structure Roomy (ftl : ZnsFtl) (zid : Nat) : Prop where
  plain : (ftl.zoneDescs zid).zrwav = false
  opens : opened (ftl.zoneDescs zid).state = false → cnt ftl .openZone < total ftl .openZone
  actives : active (ftl.zoneDescs zid).state = false →
    cnt ftl .activeZone < total ftl .activeZone

def areas (ftl : ZnsFtl) : ZoneResourceInfo := ftl.resInfos .zrwaZone

/-- A handler answers as the zone does and changes its descriptor alone; `info` is
what becomes of the random write areas. -/
structure Refines (ftl : ZnsFtl) (zid : Nat) (info : ZoneResourceInfo)
    (answer : Status × ZnsFtl) (result : Status × ZoneDescriptor) : Prop where
  status_eq : answer.1 = result.1
  areas_eq : areas answer.2 = info
  zoneDescs : answer.2.zoneDescs = Function.update ftl.zoneDescs zid result.2
  buffers : ∀ z, answer.2.buffers (.zoneWriteBuffer z) = ftl.buffers (.zoneWriteBuffer z)

theorem Refines.refl (status : Status) :
    Refines ftl zid (areas ftl) (status, ftl) (status, ftl.zoneDescs zid) :=
  ⟨rfl, rfl, by rw [Function.update_eq_self], fun _ => rfl⟩

theorem Refines.zoneOf_eq {info : ZoneResourceInfo} {answer : Status × ZnsFtl}
    {result : Status × ZoneDescriptor} (h : Refines ftl zid info answer result) :
    zoneOf answer.2 =
      Function.update (zoneOf ftl) zid ⟨result.2, (zoneOf ftl zid).writeBuffer⟩ := by
  funext z
  rcases eq_or_ne z zid with rfl | hne
  · rw [Function.update_self, zoneOf, h.zoneDescs, h.buffers, Function.update_self]
    rfl
  · rw [Function.update_of_ne hne, zoneOf, h.zoneDescs, h.buffers, Function.update_of_ne hne]
    rfl

/-- `base` differs from `ftl` in the open and active resources only. -/
structure Counted (ftl base : ZnsFtl) : Prop where
  areas_eq : areas base = areas ftl
  zoneDescs : base.zoneDescs = ftl.zoneDescs
  buffers : base.buffers = ftl.buffers

theorem Counted.refl (ftl : ZnsFtl) : Counted ftl ftl := ⟨rfl, rfl, rfl⟩

theorem areas_release {type : ZoneResource} (htype : type ≠ .zrwaZone) :
    areas (releaseZoneResource ftl type) = areas ftl :=
  Function.update_of_ne htype.symm _ _

theorem Counted.release (h : Counted ftl ftl') {type : ZoneResource}
    (htype : type ≠ .zrwaZone) : Counted ftl (releaseZoneResource ftl' type) :=
  ⟨(areas_release htype).trans h.areas_eq, h.zoneDescs, h.buffers⟩

theorem Counted.releaseActive (h : Counted ftl ftl')
    (hplain : (ftl.zoneDescs zid).zrwav = false) : Counted ftl (releaseActive ftl' zid) := by
  rw [← h.zoneDescs] at hplain
  rw [ZonedFtl.releaseActive, hplain]
  exact h.release (by simp)

theorem areas_acquire {type : ZoneResource} (htype : type ≠ .zrwaZone) :
    areas (acquireZoneResource ftl type).2 = areas ftl := by
  rw [acquireZoneResource]
  split
  · exact Function.update_of_ne htype.symm _ _
  · rfl

theorem buffers_acquire (type : ZoneResource) :
    (acquireZoneResource ftl type).2.buffers = ftl.buffers := by
  rw [acquireZoneResource]
  split <;> rfl

theorem Counted.refines (h : Counted ftl ftl') (status : Status) (state : ZoneState) :
    Refines ftl zid (areas ftl) (status, changeZoneState ftl' zid state)
      (status, { ftl.zoneDescs zid with state := state }) := by
  refine ⟨rfl, h.areas_eq, ?_, fun z => ?_⟩
  · rw [zoneDescs_changeZoneState, h.zoneDescs]
  · exact congrFun h.buffers _

theorem zmgmtSendCloseZone_refines (zrwaFull option : Bool) :
    Refines ftl zid (areas ftl) (zmgmtSendCloseZone ftl zid)
      (sendZone zrwaFull (ftl.zoneDescs zid) .closeZone option) := by
  have hclose : Refines ftl zid (areas ftl)
      (.success, releaseZoneResource (changeZoneState ftl zid .closed) .openZone)
      (.success, { ftl.zoneDescs zid with state := .closed }) :=
    ⟨rfl, areas_release (by simp), by simp, fun _ => rfl⟩
  rw [zmgmtSendCloseZone, sendZone]
  cases (ftl.zoneDescs zid).state with
  | openedImpl => exact hclose
  | openedExpl => exact hclose
  | closed | empty | readOnly | full | offline => exact .refl _

theorem zmgmtSendFinishZone_refines (h : Roomy ftl zid) (zrwaFull option : Bool) :
    Refines ftl zid (areas ftl) (zmgmtSendFinishZone ftl zid)
      (sendZone zrwaFull (ftl.zoneDescs zid) .finishZone option) := by
  have hopened : Counted ftl (releaseZoneResource ftl .openZone) :=
    (Counted.refl ftl).release (by simp)
  have hfull : (ftl.zoneDescs zid).state = .full →
      Refines ftl zid (areas ftl) (.success, ftl)
        (.success, { ftl.zoneDescs zid with state := .full }) := by
    intro hstate
    rw [← hstate]
    exact .refl _
  rw [zmgmtSendFinishZone, sendZone]
  cases hstate : (ftl.zoneDescs zid).state with
  | openedImpl | openedExpl => exact (hopened.releaseActive h.plain).refines _ _
  | closed => exact ((Counted.refl ftl).releaseActive h.plain).refines _ _
  | empty => exact (Counted.refl ftl).refines _ _
  | full => exact hfull hstate
  | readOnly | offline => exact .refl _

theorem Counted.reset (h : Counted ftl ftl') :
    Refines ftl zid (areas ftl) (.success, resetZone zpp (changeZoneState ftl' zid .empty) zid)
      (.success, { ftl.zoneDescs zid with
        state := .empty
        wp := (ftl.zoneDescs zid).zslba
        zrwav := false }) := by
  refine ⟨rfl, ?_, ?_, fun z => ?_⟩
  · rw [← h.areas_eq]
    dsimp only
    rw [resetZone]
    split <;> rfl
  · rw [zoneDescs_resetZone, h.zoneDescs]
  · have hne : BufferRef.zoneWriteBuffer z ≠ .zrwaBuffer zid := by simp
    rw [← h.buffers]
    dsimp only
    rw [resetZone]
    split
    · rfl
    · exact Function.update_of_ne hne (bufferRefill (ftl'.buffers (.zrwaBuffer zid))) ftl'.buffers

theorem zmgmtSendResetZone_refines (h : Roomy ftl zid) (zrwaFull option : Bool) :
    Refines ftl zid (areas ftl) (zmgmtSendResetZone zpp ftl zid)
      (sendZone zrwaFull (ftl.zoneDescs zid) .resetZone option) := by
  have hopened : Counted ftl (releaseZoneResource ftl .openZone) :=
    (Counted.refl ftl).release (by simp)
  rw [zmgmtSendResetZone, sendZone]
  cases (ftl.zoneDescs zid).state with
  | openedImpl | openedExpl => exact (hopened.releaseActive h.plain).reset
  | closed => exact ((Counted.refl ftl).releaseActive h.plain).reset
  | full | empty => exact (Counted.refl ftl).reset
  | readOnly | offline => exact .refl _

theorem tryOpen_refines {base : ZnsFtl} {info : ZoneResourceInfo} (desc : ZoneDescriptor)
    (hareas : areas base = info)
    (hdescs : base.zoneDescs = Function.update ftl.zoneDescs zid desc)
    (hbuffers : base.buffers = ftl.buffers)
    (hlt : cnt base .openZone < total base .openZone) (state : ZoneState) :
    Refines ftl zid info (match acquireZoneResource base .openZone with
      | (false, ftl) => (.noOpenZone, ftl)
      | (true, ftl) => (.success, changeZoneState ftl zid state))
      (.success, { desc with state := state }) := by
  have hacquired : areas (acquireZoneResource base .openZone).2 = areas base :=
    areas_acquire (by simp)
  rw [acquire_of_lt hlt] at hacquired ⊢
  refine ⟨rfl, hacquired.trans hareas, ?_, fun z => congrFun hbuffers _⟩
  rw [zoneDescs_changeZoneState, zoneDescs_acquired, hdescs, Function.update_idem,
    Function.update_self]

theorem not_full_of_lt {type : ZoneResource} (h : cnt ftl type < total ftl type) :
    ¬isZoneResourceFull ftl type = true := by
  rw [isZoneResourceFull_iff]
  exact Nat.ne_of_lt h

/-- An open with the option bit takes one random write area for an empty zone, as
long as there is one. -/
def areasAfterOpen (ftl : ZnsFtl) (zid : Nat) (option : Bool) : ZoneResourceInfo :=
  if option = true ∧ (ftl.zoneDescs zid).state = .empty then
    areas (acquireZoneResource ftl .zrwaZone).2
  else areas ftl

theorem tryOpen_refines_active (h : Roomy ftl zid)
    (hempty : (ftl.zoneDescs zid).state = .empty) (state : ZoneState) :
    Refines ftl zid (areas ftl)
      (match acquireZoneResource (acquireZoneResource ftl .activeZone).2 .openZone with
        | (false, ftl) => (.noOpenZone, ftl)
        | (true, ftl) => (.success, changeZoneState ftl zid state))
      (.success, { ftl.zoneDescs zid with state := state }) := by
  have hopen := h.opens (by rw [hempty]; rfl)
  refine tryOpen_refines (ftl.zoneDescs zid) (areas_acquire (by simp)) ?_ (buffers_acquire _) ?_ _
  · rw [zoneDescs_acquire, Function.update_eq_self]
  · simpa using hopen

theorem openExplicitly_refines_zrwa (h : Roomy ftl zid)
    (hempty : (ftl.zoneDescs zid).state = .empty) :
    Refines ftl zid (areas (acquireZoneResource ftl .zrwaZone).2)
      (openExplicitly (acquireZoneResource ((acquireZoneResource ftl .zrwaZone).2.setDesc zid
        { (acquireZoneResource ftl .zrwaZone).2.zoneDescs zid with zrwav := true })
          .activeZone).2 zid)
      (.success, { ftl.zoneDescs zid with zrwav := true, state := .openedExpl }) := by
  have hopen := h.opens (by rw [hempty]; rfl)
  refine tryOpen_refines { ftl.zoneDescs zid with zrwav := true } ?_ ?_ ?_ ?_ _
  · exact areas_acquire (by simp)
  · simp
  · rw [buffers_acquire]
    exact buffers_acquire _
  · simpa using hopen

theorem zmgmtSendOpenZone_refines (h : Roomy ftl zid) (option : Bool) :
    Refines ftl zid (areasAfterOpen ftl zid option) (zmgmtSendOpenZone ftl zid option)
      (sendZone (isZoneResourceFull ftl .zrwaZone) (ftl.zoneDescs zid) .openZone option) := by
  have hself : ftl.zoneDescs = Function.update ftl.zoneDescs zid (ftl.zoneDescs zid) := by
    rw [Function.update_eq_self]
  have hkept : (ftl.zoneDescs zid).state ≠ .empty →
      areasAfterOpen ftl zid option = areas ftl := fun hne => if_neg fun hno => hne hno.2
  rw [zmgmtSendOpenZone, sendZone]
  cases hstate : (ftl.zoneDescs zid).state with
  | empty =>
      have hopen := h.opens (by rw [hstate]; rfl)
      have hactive := h.actives (by rw [hstate]; rfl)
      rw [areasAfterOpen]
      dsimp only
      rw [if_neg (not_full_of_lt hactive), if_neg (not_full_of_lt hopen)]
      cases option with
      | false => exact tryOpen_refines_active h hstate _
      | true =>
          rw [if_pos ⟨rfl, hstate⟩, if_pos rfl, if_pos rfl]
          split
          · next hfull =>
            have hnone : ¬cnt ftl .zrwaZone < total ftl .zrwaZone :=
              Nat.not_lt_of_ge (isZoneResourceFull_iff.1 hfull).ge
            rw [acquire_of_not_lt hnone]
            exact .refl _
          · exact openExplicitly_refines_zrwa h hstate
  | closed =>
      rw [hkept (by rw [hstate]; simp)]
      exact tryOpen_refines _ rfl hself rfl (h.opens (by rw [hstate]; rfl)) _
  | openedImpl =>
      rw [hkept (by rw [hstate]; simp)]
      exact (Counted.refl ftl).refines _ _
  | openedExpl =>
      have hdesc : { ftl.zoneDescs zid with state := .openedExpl } = ftl.zoneDescs zid := by
        rw [← hstate]
      rw [hkept (by rw [hstate]; simp)]
      dsimp only
      rw [hdesc]
      exact .refl _
  | readOnly | full | offline =>
      rw [hkept (by rw [hstate]; simp)]
      exact .refl _

theorem openForWrite_refines (h : Roomy ftl zid) (slba : Nat) :
    Refines ftl zid (areas ftl) (openForWrite ftl zid slba)
      ((openState (ftl.zoneDescs zid) slba).1,
        { ftl.zoneDescs zid with state := (openState (ftl.zoneDescs zid) slba).2 }) := by
  have hself : ftl.zoneDescs = Function.update ftl.zoneDescs zid (ftl.zoneDescs zid) := by
    rw [Function.update_eq_self]
  have hkept : ∀ status, Refines ftl zid (areas ftl) (status, ftl)
      (status, { ftl.zoneDescs zid with state := (ftl.zoneDescs zid).state }) :=
    fun status => .refl status
  rw [openForWrite, openState]
  cases hstate : (ftl.zoneDescs zid).state with
  | empty =>
      have hopen := h.opens (by rw [hstate]; rfl)
      have hactive := h.actives (by rw [hstate]; rfl)
      rw [hstate] at hkept
      dsimp only
      rw [if_neg (not_full_of_lt hactive), if_neg (not_full_of_lt hopen)]
      split
      · exact hkept _
      · exact tryOpen_refines_active h hstate _
  | closed => exact tryOpen_refines _ rfl hself rfl (h.opens (by rw [hstate]; rfl)) _
  | openedImpl | openedExpl | readOnly | full | offline =>
      rw [hstate] at hkept
      exact hkept _

theorem zoneDescs_increaseWritePtr (nrLba : Nat) :
    (increaseWritePtr spp zpp ftl zid nrLba).zoneDescs =
      Function.update ftl.zoneDescs zid (advance spp zpp zid (ftl.zoneDescs zid) nrLba) := by
  rw [increaseWritePtr, advance]
  dsimp only
  split
  · simp
  · rfl

theorem buffers_increaseWritePtr (nrLba : Nat) :
    (increaseWritePtr spp zpp ftl zid nrLba).buffers = ftl.buffers := by
  rw [increaseWritePtr]
  dsimp only
  split <;> rfl

theorem areas_increaseWritePtr (nrLba : Nat) :
    areas (increaseWritePtr spp zpp ftl zid nrLba) = areas ftl := by
  rw [increaseWritePtr]
  dsimp only
  split
  · have hactive : ZoneResource.activeZone ≠ .zrwaZone := by simp
    have hopen : ZoneResource.openZone ≠ .zrwaZone := by simp
    exact (areas_release hactive).trans ((areas_release hopen).trans rfl)
  · rfl

theorem openState_kept (desc : ZoneDescriptor) (slba : Nat)
    (h : (openState desc slba).1 ≠ .success) :
    { desc with state := (openState desc slba).2 } = desc := by
  revert h
  rw [openState]
  cases hstate : desc.state with
  | empty =>
      dsimp only
      split
      · intro _
        rw [← hstate]
      · exact fun hno => absurd rfl hno
  | closed | openedImpl | openedExpl => exact fun hno => absurd rfl hno
  | readOnly | full | offline =>
      intro _
      dsimp only
      rw [← hstate]

theorem commitWrite_refines (h : Roomy ftl zid) (slba nrLba : Nat) :
    Refines ftl zid (areas ftl) (commitWrite spp zpp ftl zid slba nrLba)
      (commitZone spp zpp zid (ftl.zoneDescs zid) slba nrLba) := by
  have hopen := openForWrite_refines h slba
  rw [commitWrite, commitZone]
  split
  · exact .refl _
  · split
    · exact .refl _
    · split
      · exact .refl _
      · have hkept := openState_kept (ftl.zoneDescs zid) slba
        generalize openForWrite ftl zid slba = answer at hopen ⊢
        generalize openState (ftl.zoneDescs zid) slba = result at hopen hkept ⊢
        obtain ⟨status, base⟩ := answer
        obtain ⟨status', state⟩ := result
        obtain rfl : status = status' := hopen.status_eq
        cases status with
        | success =>
            refine ⟨rfl, (areas_increaseWritePtr nrLba).trans hopen.areas_eq, ?_, fun z => ?_⟩
            · change (increaseWritePtr spp zpp base zid nrLba).zoneDescs = _
              rw [zoneDescs_increaseWritePtr, hopen.zoneDescs, Function.update_idem,
                Function.update_self]
            · change (increaseWritePtr spp zpp base zid nrLba).buffers _ = _
              rw [buffers_increaseWritePtr]
              exact hopen.buffers z
        | _ =>
            have hdesc := hkept (by simp)
            rw [hdesc] at hopen
            exact hopen

theorem Roomy.setBuffer (h : Roomy ftl zid) (ref : BufferRef) (buf : Buffer) :
    Roomy (ftl.setBuffer ref buf) zid :=
  ⟨h.plain, h.opens, h.actives⟩

theorem zoneOf_setBuffer (buf : Buffer) :
    zoneOf (ftl.setBuffer (.zoneWriteBuffer zid) buf) =
      Function.update (zoneOf ftl) zid ⟨ftl.zoneDescs zid, buf⟩ := by
  funext z
  rcases eq_or_ne z zid with rfl | hne
  · simp [zoneOf, ZnsFtl.setBuffer]
  · simp [zoneOf, ZnsFtl.setBuffer, hne]

end Refinement

section Commands

variable {spp : SsdParams} {zpp : ZnsParams} {ftl ftl' : ZnsFtl} {zid : Nat}

/-- `zns_proc_nvme_io_cmd` with what it answers put together. -/
def perform (spp : SsdParams) (zpp : ZnsParams) (cmd : ZnsCommand) (ftl : ZnsFtl) :
    Except Fault ((Option Reply × ZnsCommand) × ZnsFtl) := do
  let (reply, cmd, ftl) ← znsProcNvmeIoCmd spp zpp ftl cmd
  return ((reply, cmd), ftl)

/-- The command faults or answers as the zone does, changes no other zone and leaves
the random write areas as `info` says. -/
def Performs (spp : SsdParams) (zpp : ZnsParams) (cmd : ZnsCommand) (zid : Nat)
    (info : ZoneResourceInfo) (ftl : ZnsFtl) : Prop :=
  match zoneCommand spp zpp zid (isZoneResourceFull ftl .zrwaZone) cmd (zoneOf ftl zid) with
  | .error e => perform spp zpp cmd ftl = .error e
  | .ok (a, zone) => ∃ ftl', perform spp zpp cmd ftl = .ok (a, ftl') ∧
      zoneOf ftl' = Function.update (zoneOf ftl) zid zone ∧ areas ftl' = info

variable {cmd : ZnsCommand} {info : ZoneResourceInfo}

theorem Performs.actsOn (h : Performs spp zpp cmd zid info ftl) :
    ActsOn zoneOf (perform spp zpp cmd) zid
      (zoneCommand spp zpp zid (isZoneResourceFull ftl .zrwaZone) cmd) ftl := by
  rw [Performs] at h
  rw [ActsOn]
  cases hzone : zoneCommand spp zpp zid (isZoneResourceFull ftl .zrwaZone) cmd
      (zoneOf ftl zid) with
  | error e =>
      rw [hzone] at h
      rw [h]
      rfl
  | ok result =>
      rw [hzone] at h
      obtain ⟨ftl', hrun, hview, -⟩ := h
      rw [hrun]
      exact congrArg (fun view => Except.ok (result.1, view)) hview

theorem Performs.areas_eq {a : Option Reply × ZnsCommand}
    (h : Performs spp zpp cmd zid info ftl) (hrun : perform spp zpp cmd ftl = .ok (a, ftl')) :
    areas ftl' = info := by
  rw [Performs] at h
  split at h
  · rw [hrun] at h
    cases h
  · obtain ⟨ftl'', hrun', -, hareas⟩ := h
    rw [hrun] at hrun'
    cases hrun'
    exact hareas

theorem Performs.zoneOf_of_ne {a : Option Reply × ZnsCommand} {z : Nat}
    (h : Performs spp zpp cmd zid info ftl) (hrun : perform spp zpp cmd ftl = .ok (a, ftl'))
    (hne : z ≠ zid) : zoneOf ftl' z = zoneOf ftl z := by
  rw [Performs] at h
  split at h
  · rw [hrun] at h
    cases h
  · obtain ⟨ftl'', hrun', hview, -⟩ := h
    rw [hrun] at hrun'
    cases hrun'
    rw [hview, Function.update_of_ne hne]

theorem Refines.performs {answer : Status × ZnsFtl} (hop : cmd.opcode = .zoneMgmtSend)
    (hsend : znsZmgmtSend spp zpp ftl cmd = .ok answer)
    (h : Refines ftl zid info answer
      (sendZone (isZoneResourceFull ftl .zrwaZone) (ftl.zoneDescs zid) cmd.zsa cmd.zsaso)) :
    Performs spp zpp cmd zid info ftl := by
  have hrun : perform spp zpp cmd ftl =
      .ok ((some { status := answer.1, result := 0 }, cmd), answer.2) := by
    rw [perform, znsProcNvmeIoCmd, hop]
    dsimp only
    rw [hsend]
    rfl
  rw [Performs, zoneCommand, if_pos hop]
  refine ⟨answer.2, ?_, h.zoneOf_eq, h.areas_eq⟩
  rw [hrun, h.status_eq]
  rfl

def TakesZrwa (cmd : ZnsCommand) (desc : ZoneDescriptor) : Prop :=
  cmd.opcode = .zoneMgmtSend ∧ cmd.zsa = .openZone ∧ cmd.zsaso = true ∧ desc.state = .empty

instance (cmd : ZnsCommand) (desc : ZoneDescriptor) : Decidable (TakesZrwa cmd desc) :=
  inferInstanceAs (Decidable (_ ∧ _))

def areasAfter (cmd : ZnsCommand) (ftl : ZnsFtl) (zid : Nat) : ZoneResourceInfo :=
  if TakesZrwa cmd (ftl.zoneDescs zid) then areas (acquireZoneResource ftl .zrwaZone).2
  else areas ftl

theorem zmgmtSend_performs (h : Roomy ftl zid) (hop : cmd.opcode = .zoneMgmtSend)
    (hone : cmd.selectAll = false)
    (haction : cmd.zsa = .openZone ∨ cmd.zsa = .closeZone ∨ cmd.zsa = .finishZone ∨
      cmd.zsa = .resetZone) (hzid : lbaToZone spp zpp cmd.slba = zid) :
    Performs spp zpp cmd zid (areasAfter cmd ftl zid) ftl := by
  have hsend : znsZmgmtSend spp zpp ftl cmd =
      zmgmtSend spp zpp ftl cmd.slba cmd.zsa cmd.zsaso := by
    rw [znsZmgmtSend, hone]
    rfl
  have hkept : cmd.zsa ≠ .openZone → areasAfter cmd ftl zid = areas ftl := fun hne =>
    if_neg fun htakes => hne htakes.2.1
  rcases haction with hzsa | hzsa | hzsa | hzsa
  · have hareas : areasAfter cmd ftl zid = areasAfterOpen ftl zid cmd.zsaso := by
      simp [areasAfter, areasAfterOpen, TakesZrwa, hop, hzsa]
    rw [hzsa, zmgmtSend, hzid] at hsend
    refine Refines.performs hop hsend ?_
    rw [hzsa, hareas]
    exact zmgmtSendOpenZone_refines h _
  · rw [hzsa, zmgmtSend, hzid] at hsend
    refine Refines.performs hop hsend ?_
    rw [hkept (by simp [hzsa]), hzsa]
    exact zmgmtSendCloseZone_refines _ _
  · rw [hzsa, zmgmtSend, hzid] at hsend
    refine Refines.performs hop hsend ?_
    rw [hkept (by simp [hzsa]), hzsa]
    exact zmgmtSendFinishZone_refines h _ _
  · rw [hzsa, zmgmtSend, hzid] at hsend
    refine Refines.performs hop hsend ?_
    rw [hkept (by simp [hzsa]), hzsa]
    exact zmgmtSendResetZone_refines h _ _

theorem znsWrite_performs (h : Roomy ftl zid)
    (hop : cmd.opcode = .write ∨ cmd.opcode = .zoneAppend) (hbuffer : zpp.zoneWbSize ≠ 0)
    (hzid : lbaToZone spp zpp cmd.slba = zid)
    (hpage : lpnToZone spp zpp (lbaToLpn spp cmd.slba) = zid) :
    Performs spp zpp cmd zid (areasAfter cmd ftl zid) ftl := by
  have hnone : cmd.opcode ≠ .zoneMgmtSend := by
    rintro hsend
    rcases hop with hop | hop <;> simp [hop] at hsend
  have hareas : areasAfter cmd ftl zid = areas ftl := if_neg fun htakes => hnone htakes.1
  have hwrite : znsProcNvmeIoCmd spp zpp ftl cmd = znsWritePlain spp zpp ftl cmd := by
    rw [znsProcNvmeIoCmd, znsWrite, hpage, h.plain]
    rcases hop with hop | hop <;> rw [hop] <;> rfl
  have hzone : zoneOf ftl zid = ⟨ftl.zoneDescs zid, ftl.buffers (.zoneWriteBuffer zid)⟩ := rfl
  rw [Performs, zoneCommand, if_neg hnone, writeZone, perform, hwrite, znsWritePlain, hzid,
    hareas, writeBufferRef, if_neg hbuffer, hzone]
  dsimp only
  generalize (if cmd.opcode = .zoneAppend then (ftl.zoneDescs zid).wp else cmd.slba) = slba
  cases bufferAllocate (ftl.buffers (.zoneWriteBuffer zid)) (lbaToByte cmd.nrLba) with
  | error e => rfl
  | ok grant =>
      obtain ⟨granted, buf⟩ := grant
      have hcommit : Refines (ftl.setBuffer (.zoneWriteBuffer zid) buf) zid (areas ftl)
          (commitWrite spp zpp (ftl.setBuffer (.zoneWriteBuffer zid) buf) zid slba cmd.nrLba)
          (commitZone spp zpp zid (ftl.zoneDescs zid) slba cmd.nrLba) :=
        commitWrite_refines (h.setBuffer _ buf) slba cmd.nrLba
      rw [ok_bind, ok_bind]
      dsimp only
      by_cases hlt : granted < lbaToByte cmd.nrLba
      · rw [if_pos hlt, if_pos hlt]
        exact ⟨ftl.setBuffer (.zoneWriteBuffer zid) buf, rfl, zoneOf_setBuffer buf, rfl⟩
      · rw [if_neg hlt, if_neg hlt]
        generalize commitWrite spp zpp (ftl.setBuffer (.zoneWriteBuffer zid) buf) zid slba
          cmd.nrLba = answer at hcommit ⊢
        generalize commitZone spp zpp zid (ftl.zoneDescs zid) slba cmd.nrLba = result
          at hcommit ⊢
        obtain ⟨status, after⟩ := answer
        obtain ⟨status', desc⟩ := result
        obtain rfl : status = status' := hcommit.status_eq
        refine ⟨after, rfl, ?_, hcommit.areas_eq⟩
        have hview := hcommit.zoneOf_eq
        rw [zoneOf_setBuffer, Function.update_self, Function.update_idem] at hview
        exact hview

theorem znsProcNvmeIoCmd_performs (h : Roomy ftl zid) (hcmd : IsZoneCommand cmd)
    (hbuffer : zpp.zoneWbSize ≠ 0) (hzid : lbaToZone spp zpp cmd.slba = zid)
    (hpage : lpnToZone spp zpp (lbaToLpn spp cmd.slba) = zid) :
    Performs spp zpp cmd zid (areasAfter cmd ftl zid) ftl := by
  rcases hcmd with hop | hop | ⟨hop, hone, haction⟩
  · exact znsWrite_performs h (.inl hop) hbuffer hzid hpage
  · exact znsWrite_performs h (.inr hop) hbuffer hzid hpage
  · exact zmgmtSend_performs h hop hone haction hzid

theorem zoneCommand_congr {zone : Zone} (hcmd : ¬TakesZrwa cmd zone.desc) (b b' : Bool) :
    zoneCommand spp zpp zid b cmd zone = zoneCommand spp zpp zid b' cmd zone := by
  rw [zoneCommand, zoneCommand]
  split
  · next hop =>
    have hsent : sendZone b zone.desc cmd.zsa cmd.zsaso =
        sendZone b' zone.desc cmd.zsa cmd.zsaso := by
      cases hzsa : cmd.zsa with
      | openZone =>
          rw [sendZone, sendZone]
          cases hstate : zone.desc.state with
          | empty =>
              cases hoption : cmd.zsaso with
              | false => rfl
              | true => exact absurd ⟨hop, hzsa, hoption, hstate⟩ hcmd
          | _ => rfl
      | _ => rfl
    rw [hsent]
  · rfl

theorem zoneCommand_fault (b : Bool) (zone : Zone) :
    Outcome (zoneCommand spp zpp zid b cmd zone) (fun _ => True)
      (· = .bugOn .bufferAllocate) := by
  rw [zoneCommand]
  split
  · trivial
  · rw [writeZone]
    refine Outcome.bind (P := fun _ => True) ?_ fun grant _ => ?_
    · rw [bufferAllocate, nvmevAssert]
      split
      · trivial
      · rfl
    · dsimp only
      split <;> trivial

theorem sendZone_takes {desc : ZoneDescriptor} (hcmd : TakesZrwa cmd desc) (b : Bool) :
    (sendZone b desc cmd.zsa cmd.zsaso).1 = if b then .zrwaRsrcUnavail else .success := by
  obtain ⟨-, hzsa, hoption, hstate⟩ := hcmd
  rw [hzsa, hoption, sendZone, hstate]
  cases b <;> rfl

theorem Performs.takes (h : Performs spp zpp cmd zid info ftl)
    (hcmd : TakesZrwa cmd (ftl.zoneDescs zid)) :
    ∃ ftl', perform spp zpp cmd ftl = .ok ((some
        { status := if isZoneResourceFull ftl .zrwaZone then .zrwaRsrcUnavail else .success
          result := 0 }, cmd), ftl') := by
  rw [Performs, zoneCommand, if_pos hcmd.1] at h
  obtain ⟨ftl', hrun, -⟩ := h
  refine ⟨ftl', ?_⟩
  rw [hrun, ← sendZone_takes hcmd]
  rfl

end Commands

end NvmeVirt.ZoneMachine
