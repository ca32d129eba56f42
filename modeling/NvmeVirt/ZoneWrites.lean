import NvmeVirt.ZoneAddressing

namespace NvmeVirt.ZoneWrites

open FaultOutcome
open WriteBuffer
open ZonedAccounting
open ZonedFtl
open ZoneAddressing
open ZoneArray

variable {spp : FlashGeometry.SsdParams} {zpp : ZnsParams} {ftl ftl' ftl'' : ZnsFtl}
  {zid slba nrLba : Nat}

section Relabelling

/-- Only states of zones and resource counters have changed, and no zone has
become empty. -/
structure Relabelled (ftl ftl' : ZnsFtl) : Prop where
  desc : ∀ z, ∃ state, (state = .empty → (ftl.zoneDescs z).state = .empty) ∧
    ftl'.zoneDescs z = { ftl.zoneDescs z with state := state }
  buffers : ftl'.buffers = ftl.buffers
  pending : ftl'.pending = ftl.pending

theorem Relabelled.refl (ftl : ZnsFtl) : Relabelled ftl ftl :=
  ⟨fun z => ⟨(ftl.zoneDescs z).state, id, rfl⟩, rfl, rfl⟩

theorem Relabelled.trans (h : Relabelled ftl ftl') (h' : Relabelled ftl' ftl'') :
    Relabelled ftl ftl'' := by
  refine ⟨fun z => ?_, h'.buffers.trans h.buffers, h'.pending.trans h.pending⟩
  obtain ⟨state, hstate, hdesc⟩ := h.desc z
  obtain ⟨state', hstate', hdesc'⟩ := h'.desc z
  refine ⟨state', fun hempty => hstate ?_, by rw [hdesc', hdesc]⟩
  rw [hdesc] at hstate'
  exact hstate' hempty

theorem Relabelled.release (h : Relabelled ftl ftl') (type : ZoneResource) :
    Relabelled ftl (releaseZoneResource ftl' type) :=
  h.trans ⟨fun z => ⟨(ftl'.zoneDescs z).state, id, rfl⟩, rfl, rfl⟩

theorem Relabelled.acquire (h : Relabelled ftl ftl') (type : ZoneResource) :
    Relabelled ftl (acquireZoneResource ftl' type).2 := by
  rw [acquireZoneResource]
  split
  · exact h.trans ⟨fun z => ⟨(ftl'.zoneDescs z).state, id, rfl⟩, rfl, rfl⟩
  · exact h

theorem Relabelled.changeZoneState (h : Relabelled ftl ftl') (zid : Nat) {state : ZoneState}
    (hstate : state ≠ .empty) : Relabelled ftl (changeZoneState ftl' zid state) := by
  refine h.trans ⟨fun z => ?_, rfl, rfl⟩
  rw [zoneDescs_changeZoneState]
  rcases eq_or_ne z zid with rfl | hne
  · exact ⟨state, fun hempty => absurd hempty hstate, Function.update_self ..⟩
  · exact ⟨(ftl'.zoneDescs z).state, id, Function.update_of_ne hne ..⟩

theorem Relabelled.releaseActive (h : Relabelled ftl ftl') (zid : Nat) :
    Relabelled ftl (releaseActive ftl' zid) := by
  rw [ZonedFtl.releaseActive]
  split
  · exact (h.release .activeZone).release .zrwaZone
  · exact h.release .activeZone

theorem Relabelled.tryOpen (h : Relabelled ftl ftl') (zid : Nat) {state : ZoneState}
    (hstate : state ≠ .empty) (status : Status) :
    Relabelled ftl (match acquireZoneResource ftl' .openZone with
      | (false, ftl) => (status, ftl)
      | (true, ftl) => (.success, ZonedFtl.changeZoneState ftl zid state)).2 := by
  have hacquired := h.acquire .openZone
  generalize acquireZoneResource ftl' .openZone = taken at hacquired
  obtain ⟨ok, opening⟩ := taken
  cases ok with
  | false => exact hacquired
  | true => exact hacquired.changeZoneState zid hstate

theorem openForWrite_relabelled (ftl : ZnsFtl) (zid slba : Nat) :
    Relabelled ftl (openForWrite ftl zid slba).2 := by
  rw [openForWrite]
  split
  · split
    · exact .refl ftl
    · split
      · exact .refl ftl
      · split
        · exact .refl ftl
        · exact ((Relabelled.refl ftl).acquire .activeZone).tryOpen zid (by decide) .noOpenZone
  · exact (Relabelled.refl ftl).tryOpen zid (by decide) .noOpenZone
  all_goals exact .refl ftl

theorem tryOpen_success {zid : Nat} {state : ZoneState} {status : Status}
    (hstate : state ≠ .empty) (hstatus : status ≠ .success)
    (hsuccess : (match acquireZoneResource ftl .openZone with
      | (false, ftl) => (status, ftl)
      | (true, ftl) => (.success, ZonedFtl.changeZoneState ftl zid state)).1 = .success) :
    ((match acquireZoneResource ftl .openZone with
      | (false, ftl) => (status, ftl)
      | (true, ftl) => (.success, ZonedFtl.changeZoneState ftl zid state)).2.zoneDescs
        zid).state ≠ .empty := by
  generalize acquireZoneResource ftl .openZone = taken at hsuccess ⊢
  obtain ⟨ok, opening⟩ := taken
  cases ok with
  | false => exact absurd hsuccess hstatus
  | true => simpa using hstate

theorem openForWrite_success (hsuccess : (openForWrite ftl zid slba).1 = .success) :
    (ftl.zoneDescs zid).state ≠ .full ∧
      ((openForWrite ftl zid slba).2.zoneDescs zid).state ≠ .empty := by
  rw [openForWrite] at hsuccess ⊢
  cases hstate : (ftl.zoneDescs zid).state with
  | empty =>
      simp only [hstate] at hsuccess ⊢
      refine ⟨by decide, ?_⟩
      split at hsuccess
      · cases hsuccess
      · next hslba =>
        rw [if_neg hslba]
        split at hsuccess
        · cases hsuccess
        · next hactive =>
          rw [if_neg hactive]
          split at hsuccess
          · cases hsuccess
          · next hopen =>
            rw [if_neg hopen]
            exact tryOpen_success (by decide) (by decide) hsuccess
  | closed =>
      simp only [hstate] at hsuccess ⊢
      exact ⟨by decide, tryOpen_success (by decide) (by decide) hsuccess⟩
  | openedImpl | openedExpl =>
      simp only [hstate]
      exact ⟨by decide, by decide⟩
  | full | readOnly | offline =>
      simp only [hstate] at hsuccess
      cases hsuccess

theorem Relabelled.wp_eq (h : Relabelled ftl ftl') (z : Nat) :
    (ftl'.zoneDescs z).wp = (ftl.zoneDescs z).wp := by
  obtain ⟨state, -, hdesc⟩ := h.desc z
  rw [hdesc]

theorem Relabelled.zslba_eq (h : Relabelled ftl ftl') (z : Nat) :
    (ftl'.zoneDescs z).zslba = (ftl.zoneDescs z).zslba := by
  obtain ⟨state, -, hdesc⟩ := h.desc z
  rw [hdesc]

theorem Relabelled.zrwav_eq (h : Relabelled ftl ftl') (z : Nat) :
    (ftl'.zoneDescs z).zrwav = (ftl.zoneDescs z).zrwav := by
  obtain ⟨state, -, hdesc⟩ := h.desc z
  rw [hdesc]

end Relabelling

section Commit

/-- What `__zns_write` schedules for a write of `nrLba` blocks at `slba`. -/
def releasesOf (spp : FlashGeometry.SsdParams) (zpp : ZnsParams) (zid slba nrLba : Nat) :
    List Nat :=
  let slpn := lbaToLpn spp slba
  let elpn := lbaToLpn spp (lastLba slba nrLba)
  writeReleases spp zpp elpn (zoneToElpn spp zpp zid) (elpn + 1 - slpn) slpn

/-- A write of `nrLba` blocks at the write pointer of zone `zid` was accepted. -/
structure Committed (spp : FlashGeometry.SsdParams) (zpp : ZnsParams) (ftl ftl' : ZnsFtl)
    (zid slba nrLba : Nat) : Prop where
  slba_eq : slba = (ftl.zoneDescs zid).wp
  boundary : checkBoundaryError spp zpp slba nrLba = true
  writable : (ftl.zoneDescs zid).state ≠ .full
  started : (ftl'.zoneDescs zid).state ≠ .empty
  wp : (ftl'.zoneDescs zid).wp = ((ftl.zoneDescs zid).wp + nrLba) % 2 ^ 64
  zslba : (ftl'.zoneDescs zid).zslba = (ftl.zoneDescs zid).zslba
  zrwav : (ftl'.zoneDescs zid).zrwav = (ftl.zoneDescs zid).zrwav
  buffers : ftl'.buffers = ftl.buffers
  pending : ftl'.pending = ftl.pending ++
    (releasesOf spp zpp zid slba nrLba).map fun bytes => (writeBufferRef zpp zid, bytes)

theorem increaseWritePtr_wp (spp : FlashGeometry.SsdParams) (zpp : ZnsParams) (ftl : ZnsFtl)
    (zid nrLba : Nat) :
    ∃ state, (state = .empty → (ftl.zoneDescs zid).state = .empty) ∧
      (increaseWritePtr spp zpp ftl zid nrLba).zoneDescs zid =
        { ftl.zoneDescs zid with
          wp := ((ftl.zoneDescs zid).wp + nrLba) % 2 ^ 64
          state := state } := by
  rw [increaseWritePtr]
  dsimp only
  split
  · exact ⟨.full, by simp, by simp⟩
  · exact ⟨(ftl.zoneDescs zid).state, id, by simp⟩

theorem increaseWritePtr_rest (spp : FlashGeometry.SsdParams) (zpp : ZnsParams) (ftl : ZnsFtl)
    (zid nrLba : Nat) :
    (increaseWritePtr spp zpp ftl zid nrLba).buffers = ftl.buffers ∧
      (increaseWritePtr spp zpp ftl zid nrLba).pending = ftl.pending := by
  rw [increaseWritePtr]
  dsimp only
  split
  · exact ⟨rfl, rfl⟩
  · exact ⟨rfl, rfl⟩

theorem commitWrite_success
    (hsuccess : (commitWrite spp zpp ftl zid slba nrLba).1 = .success) :
    Committed spp zpp ftl (commitWrite spp zpp ftl zid slba nrLba).2 zid slba nrLba := by
  rw [commitWrite] at hsuccess ⊢
  split at hsuccess
  · cases hsuccess
  · next haligned =>
    rw [if_neg haligned]
    split at hsuccess
    · cases hsuccess
    · next hboundary =>
      rw [if_neg hboundary]
      split at hsuccess
      · cases hsuccess
      · next hwp =>
        rw [if_neg hwp]
        have hopened := openForWrite_relabelled ftl zid slba
        have hstarted : (openForWrite ftl zid slba).1 = .success →
            (ftl.zoneDescs zid).state ≠ .full ∧
              ((openForWrite ftl zid slba).2.zoneDescs zid).state ≠ .empty :=
          openForWrite_success
        generalize openForWrite ftl zid slba = opening at hopened hstarted hsuccess
        obtain ⟨status, base⟩ := opening
        cases status with
        | success =>
            obtain ⟨hwritable, hopen⟩ := hstarted rfl
            obtain ⟨state, hstate, hdesc⟩ := increaseWritePtr_wp spp zpp base zid nrLba
            obtain ⟨hbuffers, hpending⟩ := increaseWritePtr_rest spp zpp base zid nrLba
            refine ⟨not_not.1 hwp, by simpa using hboundary, hwritable, ?_, ?_, ?_, ?_,
              hbuffers.trans hopened.buffers, ?_⟩
            · change ((increaseWritePtr spp zpp base zid nrLba).zoneDescs zid).state ≠ _
              rw [hdesc]
              exact fun hempty => hopen (hstate hempty)
            · change ((increaseWritePtr spp zpp base zid nrLba).zoneDescs zid).wp = _
              rw [hdesc, ← hopened.wp_eq]
            · change ((increaseWritePtr spp zpp base zid nrLba).zoneDescs zid).zslba = _
              rw [hdesc, ← hopened.zslba_eq]
            · change ((increaseWritePtr spp zpp base zid nrLba).zoneDescs zid).zrwav = _
              rw [hdesc, ← hopened.zrwav_eq]
            · change (increaseWritePtr spp zpp base zid nrLba).pending ++ _ = _
              rw [hpending, hopened.pending]
              rfl
        | _ => cases hsuccess

/-- A write or append that was answered with success, and the buffer space that
it took before it was committed. -/
structure Accepted (dev : ZoneGeometry) (ftl ftl' : ZnsFtl) (zid nrLba : Nat) : Prop where
  taken : ∃ buf slba, buf.size = (ftl.buffers (writeBufferRef dev.zpp zid)).size ∧
    buf.remaining + lbaToByte nrLba = (ftl.buffers (writeBufferRef dev.zpp zid)).remaining ∧
    Committed dev.spp dev.zpp (ftl.setBuffer (writeBufferRef dev.zpp zid) buf) ftl' zid slba nrLba

variable {dev : ZoneGeometry} {cmd cmd' : ZnsCommand} {r : Reply}

theorem znsProcNvmeIoCmd_plain (hop : cmd.opcode = .write ∨ cmd.opcode = .zoneAppend)
    (hplain : (ftl.zoneDescs (lbaToZone dev.spp dev.zpp cmd.slba)).zrwav = false) :
    znsProcNvmeIoCmd dev.spp dev.zpp ftl cmd = znsWritePlain dev.spp dev.zpp ftl cmd := by
  rw [znsProcNvmeIoCmd_write hop, znsWrite, lpnToZone_lbaToLpn, if_neg (by simp [hplain])]

theorem znsWritePlain_accepted (hzone : lbaToZone dev.spp dev.zpp cmd.slba = zid)
    (hrun : znsWritePlain dev.spp dev.zpp ftl cmd = .ok (some r, cmd', ftl'))
    (hsuccess : r.status = .success) : Accepted dev ftl ftl' zid cmd.nrLba := by
  obtain ⟨hpos, hsize⟩ := ZnsCommand.nrLba_bounds cmd
  have hbytes : lbaToByte cmd.nrLba % 2 ^ 32 = lbaToByte cmd.nrLba :=
    Nat.mod_eq_of_lt (by rw [lbaToByte]; omega)
  have hsome : 0 < lbaToByte cmd.nrLba := by
    rw [lbaToByte]
    omega
  rw [znsWritePlain, hzone] at hrun
  obtain ⟨⟨granted, buf⟩, hbuf, hrun⟩ := exists_of_bind_eq_ok hrun
  dsimp only at hrun
  obtain ⟨hbufSize, ⟨-, rfl, rfl⟩ | ⟨hgranted, hremaining⟩⟩ := bufferAllocate_cases hbuf
  · rw [if_pos hsome] at hrun
    cases hrun
  · rw [hgranted, hbytes, if_neg (Nat.lt_irrefl _)] at hrun
    cases hrun
    exact ⟨buf, _, hbufSize, hremaining, commitWrite_success hsuccess⟩

end Commit

end NvmeVirt.ZoneWrites
