import NvmeVirt.ZoneFill

namespace NvmeVirt.ZoneBuffers

open FaultOutcome
open Relation (ReflTransGen)
open WriteBuffer
open ZonedAccounting
open ZonedFtl
open ZonedRuns
open ZoneAddressing
open ZoneArray
open ZoneFill
open ZoneWrites
open ZrwaReachability

/-- A zoned namespace whose page offsets fit the 16 bits they have in `struct ppa`. -/
structure FittingGeometry extends OneshotGeometry where
  oneshot_le : spp.pgsPerOneshotpg ≤ 2 ^ 16

instance : Coe FittingGeometry OneshotGeometry := ⟨FittingGeometry.toOneshotGeometry⟩

variable {dev : FittingGeometry} {z n : Nat}

section Releases

/-- How far the pages of a zone are off in their one-shot pages. -/
def offBy (dev : FittingGeometry) (z : Nat) : Nat := shiftOf dev z % dev.spp.pgsPerOneshotpg

/-- The pages whose bytes have been given back once `n` pages of zone `z` are
written, from its start on. -/
def releasedBy (dev : FittingGeometry) (z n : Nat) : Nat :=
  if (z + 1) * dev.zoneLbas < 2 ^ 32 then
    releasedPages dev.spp.pgsPerOneshotpg dev.zonePages n
  else (n + offBy dev z) / dev.spp.pgsPerOneshotpg * dev.spp.pgsPerOneshotpg

theorem releasedBy_zero (dev : FittingGeometry) (z : Nat) : releasedBy dev z 0 = 0 := by
  have hpos := dev.zonePages_pos
  have hoff : offBy dev z < dev.spp.pgsPerOneshotpg := Nat.mod_lt _ dev.oneshot_pos
  rw [releasedBy, releasedPages]
  split
  · rw [if_neg (by omega), Nat.zero_div, Nat.zero_mul]
  · rw [Nat.zero_add, Nat.div_eq_of_lt hoff, Nat.zero_mul]

theorem releasedBy_eq_iff :
    releasedBy dev z n = n ↔
      n % dev.spp.pgsPerOneshotpg = 0 ∨ n = dev.zonePages ∧ (z + 1) * dev.zoneLbas < 2 ^ 32 := by
  have hp := dev.oneshot_pos
  have hoff : offBy dev z < dev.spp.pgsPerOneshotpg := Nat.mod_lt _ hp
  have hwhole : ∀ a, a / dev.spp.pgsPerOneshotpg * dev.spp.pgsPerOneshotpg = a ↔
      a % dev.spp.pgsPerOneshotpg = 0 := by
    intro a
    have hdiv := Nat.div_add_mod a dev.spp.pgsPerOneshotpg
    rw [Nat.mul_comm] at hdiv
    omega
  rw [releasedBy, releasedPages]
  split
  · next hbelow =>
    split
    · next hend => exact iff_of_true hend.symm (.inr ⟨hend, hbelow⟩)
    · next hend => simp [hend, hwhole]
  · next hbeyond =>
    simp only [hbeyond, and_false, or_false]
    constructor
    · intro heq
      rw [← heq, Nat.mul_mod_left]
    · intro hmod
      obtain ⟨q, rfl⟩ := Nat.dvd_of_mod_eq_zero hmod
      rw [Nat.mul_add_div hp, Nat.div_eq_of_lt hoff, Nat.add_zero, Nat.mul_comm]

/-- One round of the loop of `__zns_write`, over `k` pages, in a zone that does not
end below LBA 2^32. -/
theorem writeReleases_round_beyond {fuel a e k : Nat} (hz : z < dev.zpp.nrZones)
    (hbeyond : 2 ^ 32 ≤ (z + 1) * dev.zoneLbas) (hae : a ≤ e) (he : e < dev.zonePages)
    (hk : k = min (e - a + 1)
      (dev.spp.pgsPerOneshotpg - (a + offBy dev z) % dev.spp.pgsPerOneshotpg)) :
    (writeReleases dev.spp dev.zpp (z * dev.zonePages + e) (zoneToElpn dev.spp dev.zpp z)
        (fuel + 1) (z * dev.zonePages + a)).sum =
      (if (a + offBy dev z) % dev.spp.pgsPerOneshotpg + k = dev.spp.pgsPerOneshotpg then
        dev.spp.pgsPerOneshotpg else 0) * 4096 +
        (writeReleases dev.spp dev.zpp (z * dev.zonePages + e) (zoneToElpn dev.spp dev.zpp z)
          fuel (z * dev.zonePages + (a + k))).sum := by
  have hmod := Nat.mod_lt (a + offBy dev z) dev.oneshot_pos
  have hoffset : pgOffset dev.spp dev.zpp (z * dev.zonePages + a) =
      (a + offBy dev z) % dev.spp.pgsPerOneshotpg := by
    rw [pgOffset_eq hz (by omega) dev.oneshot_le, offBy, Nat.add_mod_mod]
  have hlen : min (z * dev.zonePages + e - (z * dev.zonePages + a) + 1)
      (dev.spp.pgsPerOneshotpg - (a + offBy dev z) % dev.spp.pgsPerOneshotpg) = k := by
    rw [Nat.add_sub_add_left, hk]
  have hlast : z * dev.zonePages + (a + k) - 1 ≠ zoneToElpn dev.spp dev.zpp z := by
    have hnone := zoneToElpn_beyond hz hbeyond (show a + k - 1 < dev.zonePages by omega)
    omega
  rw [writeReleases, if_neg (by omega)]
  dsimp only
  rw [hoffset, hlen, dev.pgsz_eq, Nat.add_assoc (z * dev.zonePages) a k]
  simp only [hlast, or_false, false_and, if_false]
  split
  · rw [List.sum_cons]
  · rw [Nat.zero_mul, Nat.zero_add]

theorem writeReleases_sum_beyond {fuel a e : Nat} (hz : z < dev.zpp.nrZones)
    (hbeyond : 2 ^ 32 ≤ (z + 1) * dev.zoneLbas) (ha : a ≤ e + 1) (he : e < dev.zonePages)
    (hfuel : e + 1 - a ≤ fuel) :
    (writeReleases dev.spp dev.zpp (z * dev.zonePages + e) (zoneToElpn dev.spp dev.zpp z)
        fuel (z * dev.zonePages + a)).sum +
      (a + offBy dev z) / dev.spp.pgsPerOneshotpg * dev.spp.pgsPerOneshotpg * 4096 =
      (e + 1 + offBy dev z) / dev.spp.pgsPerOneshotpg * dev.spp.pgsPerOneshotpg * 4096 := by
  induction fuel generalizing a with
  | zero =>
      obtain rfl : a = e + 1 := by omega
      rw [writeReleases, List.sum_nil, Nat.zero_add]
  | succ fuel ih =>
      rcases Nat.lt_or_eq_of_le ha with hlt | rfl
      · have hp := dev.oneshot_pos
        have hmod := Nat.mod_lt (a + offBy dev z) hp
        obtain ⟨k, hk⟩ : ∃ k, k = min (e - a + 1)
            (dev.spp.pgsPerOneshotpg - (a + offBy dev z) % dev.spp.pgsPerOneshotpg) := ⟨_, rfl⟩
        have hrest := ih (show a + k ≤ e + 1 by omega) (by omega)
        rw [writeReleases_round_beyond hz hbeyond (Nat.lt_succ_iff.1 hlt) he hk, ← hrest,
          Nat.add_right_comm a k]
        -- the quotient grows by one where the round completes a one-shot page
        by_cases hcloses : (a + offBy dev z) % dev.spp.pgsPerOneshotpg + k =
            dev.spp.pgsPerOneshotpg
        · rw [if_pos hcloses, div_add_of_boundary hp hcloses, Nat.add_mul _ 1, Nat.one_mul,
            Nat.add_mul]
          omega
        · have hinside : (a + offBy dev z) % dev.spp.pgsPerOneshotpg + k <
              dev.spp.pgsPerOneshotpg := by omega
          rw [if_neg hcloses, div_add_of_inside hp hinside, Nat.zero_mul, Nat.zero_add]
      · rw [writeReleases, if_pos (by omega), List.sum_nil, Nat.zero_add]

theorem releasesOf_balance {k : Nat} (hz : z < dev.zpp.nrZones) (hk : 0 < k)
    (hle : n + k ≤ dev.zonePages) :
    (releasesOf dev.spp dev.zpp z (z * dev.zoneLbas + 8 * n) (8 * k)).sum +
        releasedBy dev z n * 4096 = releasedBy dev z (n + k) * 4096 := by
  rw [releasedBy, releasedBy]
  rcases Nat.lt_or_ge ((z + 1) * dev.zoneLbas) (2 ^ 32) with hbelow | hbeyond
  · rw [if_pos hbelow, if_pos hbelow]
    exact releasesOf_sum (.inl ⟨hbelow, .inl dev.oneshot_le⟩) hz hk hle
  · have hfuel : n + k - 1 + 1 - n ≤ k := by omega
    have hsum := writeReleases_sum_beyond hz hbeyond (by omega) (by omega) hfuel
    rw [if_neg (by omega), if_neg (by omega), releasesOf_eq hz hk hle, hsum,
      Nat.sub_add_cancel (by omega)]

end Releases

section Accounts

variable {desc desc' : ZoneDescriptor} {buf : Buffer} {pending : Nat}

/-- What the write buffer of a zone has lent. With a random write area the zone
does not use it; without, the pages written hold it until they are released. -/
structure Account (dev : FittingGeometry) (z : Nat) (desc : ZoneDescriptor) (buf : Buffer)
    (pending : Nat) : Prop where
  zslba_eq : desc.zslba = z * dev.zoneLbas
  size_eq : buf.size = dev.zpp.zoneWbSize
  empty : desc.state = .empty → desc.wp = z * dev.zoneLbas
  area : desc.zrwav = true → buf.remaining + pending = dev.zpp.zoneWbSize
  plain : desc.zrwav = false → ∃ n, n ≤ dev.zonePages ∧ desc.wp = z * dev.zoneLbas + 8 * n ∧
    buf.remaining + pending + n * 4096 = dev.zpp.zoneWbSize + releasedBy dev z n * 4096

/-- The zone has a random write area, or what is written to it are complete
one-shot pages, or it is written to its end, which is recognised. -/
def CompletePages (dev : FittingGeometry) (z : Nat) (desc : ZoneDescriptor) : Prop :=
  desc.zrwav = true ∨ lbaToByte (desc.wp - desc.zslba) % dev.oneshotBytes = 0 ∨
    desc.wp = desc.zslba + dev.zoneLbas ∧ (z + 1) * dev.zoneLbas < 2 ^ 32

/-- What happens to the descriptor of a zone that neither writes to it without a
random write area nor resets it. -/
inductive Steady (desc : ZoneDescriptor) : ZoneDescriptor → Prop
  | relabel (state : ZoneState) (h : state = .empty → desc.state = .empty) :
      Steady desc { desc with state := state }
  | allocate (state : ZoneState) (h : desc.state = .empty) :
      Steady desc { desc with state := state, zrwav := true }
  | advance (wp : Nat) (state : ZoneState) (h : desc.zrwav = true) (hstate : state ≠ .empty) :
      Steady desc { desc with state := state, wp := wp }

theorem Steady.refl (desc : ZoneDescriptor) : Steady desc desc := .relabel desc.state id

theorem lbaToByte_mod (dev : FittingGeometry) (n : Nat) :
    lbaToByte (8 * n) % dev.oneshotBytes = n % dev.spp.pgsPerOneshotpg * 4096 := by
  have hbytes : lbaToByte (8 * n) = n * 4096 := by
    rw [lbaToByte]
    omega
  rw [hbytes, OneshotGeometry.oneshotBytes, Nat.mul_mod_mul_right]

theorem completePages_iff (hzslba : desc.zslba = z * dev.zoneLbas) (hplain : desc.zrwav = false)
    (hwp : desc.wp = z * dev.zoneLbas + 8 * n) :
    CompletePages dev z desc ↔ releasedBy dev z n = n := by
  have hlbas := dev.zoneLbas_eq
  rw [CompletePages, releasedBy_eq_iff, hplain, hwp, hzslba, Nat.add_sub_cancel_left,
    lbaToByte_mod]
  constructor
  · rintro (hzrwa | hwhole | ⟨hend, hbelow⟩)
    · cases hzrwa
    · exact .inl (by omega)
    · exact .inr ⟨by omega, hbelow⟩
  · rintro (hwhole | ⟨rfl, hbelow⟩)
    · exact .inr (.inl (by omega))
    · exact .inr (.inr ⟨by omega, hbelow⟩)

theorem Account.at_start (h : Account dev z desc buf pending)
    (hwp : desc.wp = z * dev.zoneLbas) : buf.remaining + pending = dev.zpp.zoneWbSize := by
  cases hzrwa : desc.zrwav with
  | true => exact h.area hzrwa
  | false =>
      obtain ⟨n, -, hn, hbalance⟩ := h.plain hzrwa
      obtain rfl : n = 0 := by omega
      rw [releasedBy_zero] at hbalance
      omega

theorem Account.same_sum {buf' : Buffer} {pending' : Nat} (h : Account dev z desc buf pending)
    (hsize : buf'.size = buf.size)
    (hsum : buf'.remaining + pending' = buf.remaining + pending) :
    Account dev z desc buf' pending' := by
  refine ⟨h.zslba_eq, hsize.trans h.size_eq, h.empty, ?_, ?_⟩
  · rw [hsum]
    exact h.area
  · rw [hsum]
    exact h.plain

theorem Account.steady (h : Account dev z desc buf pending) (hsteady : Steady desc desc') :
    Account dev z desc' buf pending := by
  cases hsteady with
  | relabel state hstate =>
      exact ⟨h.zslba_eq, h.size_eq, fun hempty => h.empty (hstate hempty), h.area, h.plain⟩
  | allocate state hstate =>
      have hwp := h.empty hstate
      exact ⟨h.zslba_eq, h.size_eq, fun _ => hwp, fun _ => h.at_start hwp, nofun⟩
  | advance wp state hzrwa hstate =>
      refine ⟨h.zslba_eq, h.size_eq, fun hempty => absurd hempty hstate, h.area, ?_⟩
      intro hplain
      exact absurd hzrwa (by simpa using hplain)

theorem Account.complete (h : Account dev z desc buf pending)
    (hcomplete : CompletePages dev z desc) :
    buf.remaining + pending = dev.zpp.zoneWbSize := by
  cases hzrwa : desc.zrwav with
  | true => exact h.area hzrwa
  | false =>
      obtain ⟨n, -, hwp, hbalance⟩ := h.plain hzrwa
      rw [(completePages_iff h.zslba_eq hzrwa hwp).1 hcomplete] at hbalance
      omega

theorem Account.reset (h : Account dev z desc buf pending)
    (hcomplete : CompletePages dev z desc) :
    Account dev z { desc with state := .empty, wp := desc.zslba, zrwav := false } buf pending where
  zslba_eq := h.zslba_eq
  size_eq := h.size_eq
  empty _ := h.zslba_eq
  area := nofun
  plain _ := by
    refine ⟨0, Nat.zero_le _, h.zslba_eq, ?_⟩
    rw [releasedBy_zero, h.complete hcomplete]

theorem completePages_reset (dev : FittingGeometry) (z : Nat) (desc : ZoneDescriptor) :
    CompletePages dev z { desc with state := .empty, wp := desc.zslba, zrwav := false } := by
  refine .inr (.inl ?_)
  rw [Nat.sub_self, lbaToByte, Nat.zero_mul, Nat.zero_mod]

end Accounts

section Quiet

variable {ftl ftl' ftl'' : ZnsFtl} {zid : Nat}

/-- The bytes of the write buffer of zone `z` whose release is scheduled. -/
def pendingBytes (z : Nat) (ftl : ZnsFtl) : Nat :=
  ((ftl.pending.filter fun entry => entry.1 = .zoneWriteBuffer z).map Prod.snd).sum

/-- The write buffer of zone `z` is left alone. -/
structure Quiet (z : Nat) (ftl ftl' : ZnsFtl) : Prop where
  buffer : ftl'.buffers (.zoneWriteBuffer z) = ftl.buffers (.zoneWriteBuffer z)
  pending : pendingBytes z ftl' = pendingBytes z ftl

theorem Quiet.of_same (hbuffers : ftl'.buffers = ftl.buffers)
    (hpending : ftl'.pending = ftl.pending) : Quiet z ftl ftl' := by
  refine ⟨by rw [hbuffers], ?_⟩
  rw [pendingBytes, pendingBytes, hpending]

theorem Quiet.refl (z : Nat) (ftl : ZnsFtl) : Quiet z ftl ftl := .of_same rfl rfl

theorem Quiet.trans (h : Quiet z ftl ftl') (h' : Quiet z ftl' ftl'') : Quiet z ftl ftl'' :=
  ⟨h'.buffer.trans h.buffer, h'.pending.trans h.pending⟩

theorem Quiet.setBuffer {ref : BufferRef} (href : ref ≠ .zoneWriteBuffer z) (buf : Buffer) :
    Quiet z ftl (ftl.setBuffer ref buf) :=
  ⟨Function.update_of_ne href.symm .., rfl⟩

theorem pendingBytes_schedule (z : Nat) (ftl : ZnsFtl) (ref : BufferRef) (releases : List Nat) :
    pendingBytes z (ftl.schedule (releases.map fun bytes => (ref, bytes))) =
      pendingBytes z ftl + if ref = .zoneWriteBuffer z then releases.sum else 0 := by
  rw [pendingBytes, ZnsFtl.schedule, List.filter_append, List.map_append, List.sum_append,
    pendingBytes, List.filter_map, List.map_map]
  congr 1
  split
  · next href =>
    rw [List.filter_eq_self.2 (by simp [href])]
    exact congrArg List.sum (List.map_id _)
  · next href =>
    rw [List.filter_eq_nil_iff.2 (by simp [href])]
    rfl

theorem Quiet.schedule {ref : BufferRef} (href : ref ≠ .zoneWriteBuffer z)
    (releases : List Nat) :
    Quiet z ftl (ftl.schedule (releases.map fun bytes => (ref, bytes))) := by
  refine ⟨rfl, ?_⟩
  rw [pendingBytes_schedule, if_neg href, Nat.add_zero]

/-- The write buffer of zone `z` is left alone, and its descriptor changes as it
does without a write or a reset. -/
structure Keeps (z : Nat) (ftl ftl' : ZnsFtl) : Prop where
  quiet : Quiet z ftl ftl'
  steady : Steady (ftl.zoneDescs z) (ftl'.zoneDescs z)

theorem Quiet.keeps (h : Quiet z ftl ftl') (hdesc : ftl'.zoneDescs z = ftl.zoneDescs z) :
    Keeps z ftl ftl' := by
  refine ⟨h, ?_⟩
  rw [hdesc]
  exact .refl _

theorem Keeps.refl (z : Nat) (ftl : ZnsFtl) : Keeps z ftl ftl := (Quiet.refl z ftl).keeps rfl

theorem Quiet.of_relabelled (h : Relabelled ftl ftl') : Quiet z ftl ftl' :=
  .of_same h.buffers h.pending

theorem Keeps.of_relabelled (h : Relabelled ftl ftl') : Keeps z ftl ftl' := by
  obtain ⟨state, hstate, hdesc⟩ := h.desc z
  refine ⟨.of_relabelled h, ?_⟩
  rw [hdesc]
  exact .relabel state hstate

end Quiet

section Actions

variable {ftl ftl' : ZnsFtl} {zid slba : Nat}

theorem zmgmtSendCloseZone_relabelled : Relabelled ftl (zmgmtSendCloseZone ftl zid).2 := by
  rw [zmgmtSendCloseZone]
  split
  · exact ((Relabelled.refl ftl).changeZoneState zid (by decide)).release .openZone
  · exact ((Relabelled.refl ftl).changeZoneState zid (by decide)).release .openZone
  · exact .refl ftl
  · exact .refl ftl

theorem zmgmtSendFinishZone_relabelled : Relabelled ftl (zmgmtSendFinishZone ftl zid).2 := by
  have hreleased := ((Relabelled.refl ftl).release .openZone).releaseActive zid
  rw [zmgmtSendFinishZone]
  split
  · exact hreleased.changeZoneState zid (by decide)
  · exact hreleased.changeZoneState zid (by decide)
  · exact ((Relabelled.refl ftl).releaseActive zid).changeZoneState zid (by decide)
  · exact (Relabelled.refl ftl).changeZoneState zid (by decide)
  · exact .refl ftl
  · exact .refl ftl

theorem zmgmtSendOfflineZone_relabelled : Relabelled ftl (zmgmtSendOfflineZone ftl zid).2 := by
  rw [zmgmtSendOfflineZone]
  split
  · exact (Relabelled.refl ftl).changeZoneState zid (by decide)
  · exact .refl ftl
  · exact .refl ftl

theorem zmgmtSendOpenZone_keeps (option : Bool) :
    Keeps z ftl (zmgmtSendOpenZone ftl zid option).2 := by
  have hopened : ZoneState.openedExpl ≠ .empty := by decide
  have hopen := (Relabelled.refl ftl).tryOpen zid hopened .noOpenZone
  rw [zmgmtSendOpenZone]
  split
  · next hempty =>
    split
    · exact .refl z ftl
    · split
      · exact .refl z ftl
      · split
        · split
          · exact .refl z ftl
          · obtain ⟨area, harea⟩ : ∃ area : ZnsFtl, area =
                ((acquireZoneResource ftl .zrwaZone).2.setDesc zid
                  { (acquireZoneResource ftl .zrwaZone).2.zoneDescs zid with zrwav := true }) :=
              ⟨_, rfl⟩
            have hacquired := (Relabelled.refl ftl).acquire .zrwaZone
            have hquiet : Quiet z ftl area := by
              rw [harea]
              exact .of_same hacquired.buffers hacquired.pending
            have hlast := ((Relabelled.refl area).acquire .activeZone).tryOpen zid hopened
              .noOpenZone
            dsimp only
            rw [← harea]
            refine ⟨hquiet.trans (.of_relabelled hlast), ?_⟩
            obtain ⟨state, hstate, hdesc⟩ := hlast.desc z
            have hareaDesc : area.zoneDescs z = Function.update ftl.zoneDescs zid
                { ftl.zoneDescs zid with zrwav := true } z := by
              rw [harea, zoneDescs_setDesc, zoneDescs_acquire]
            rw [hareaDesc] at hstate hdesc
            refine hdesc.symm ▸ ?_
            rcases eq_or_ne z zid with rfl | hne
            · rw [Function.update_self]
              exact .allocate state hempty
            · rw [Function.update_of_ne hne] at hstate ⊢
              exact .relabel state hstate
        · exact .of_relabelled (((Relabelled.refl ftl).acquire .activeZone).tryOpen zid
            (by decide) .noOpenZone)
  · exact .of_relabelled hopen
  · exact .of_relabelled ((Relabelled.refl ftl).changeZoneState zid (by decide))
  · exact .refl z ftl
  · exact .refl z ftl

theorem flushZrwaTo_keeps {spp : FlashGeometry.SsdParams} {zpp : ZnsParams}
    (hzrwa : (ftl.zoneDescs zid).zrwav = true) :
    Keeps z ftl (flushZrwaTo spp zpp ftl zid slba).2 := by
  have hmoved : ∀ last : ZnsFtl, ∀ state, state ≠ .empty → last.buffers = ftl.buffers →
      last.pending = ftl.pending →
      last.zoneDescs = Function.update ftl.zoneDescs zid
        { ftl.zoneDescs zid with wp := slba + 1, state := state } → Keeps z ftl last := by
    intro last state hstate hbuffers hpending hdescs
    refine ⟨.of_same hbuffers hpending, ?_⟩
    rw [hdescs]
    rcases eq_or_ne z zid with rfl | hne
    · rw [Function.update_self]
      exact .advance (slba + 1) state hzrwa hstate
    · rw [Function.update_of_ne hne]
      exact .refl _
  rw [flushZrwaTo]
  dsimp only
  cases hstate : (ftl.zoneDescs zid).state with
  | openedExpl | openedImpl | closed =>
      dsimp only
      split
      · refine hmoved _ .full (by decide) rfl rfl ?_
        simp [changeZoneState]
      · exact hmoved _ _ (by decide) rfl rfl rfl
  | empty | full | readOnly | offline => exact .refl z ftl

theorem zmgmtSendResetZone_quiet {zpp : ZnsParams} :
    Quiet z ftl (zmgmtSendResetZone zpp ftl zid).2 := by
  have hcleared : ∀ base : ZnsFtl, base.buffers = ftl.buffers → base.pending = ftl.pending →
      Quiet z ftl (resetZone zpp (changeZoneState base zid .empty) zid) := by
    intro base hbuffers hpending
    have hbase : Quiet z ftl base := .of_same hbuffers hpending
    rw [resetZone]
    split
    · exact hbase.trans (.of_same rfl rfl)
    · refine hbase.trans ⟨?_, rfl⟩
      simp [ZnsFtl.setBuffer, ZnsFtl.setDesc, changeZoneState]
  have hreleased := ((Relabelled.refl ftl).release .openZone).releaseActive zid
  have hactive := (Relabelled.refl ftl).releaseActive zid
  rw [zmgmtSendResetZone]
  split
  · exact hcleared _ hreleased.buffers hreleased.pending
  · exact hcleared _ hreleased.buffers hreleased.pending
  · exact hcleared _ hactive.buffers hactive.pending
  · exact hcleared _ rfl rfl
  · exact hcleared _ rfl rfl
  · exact .refl z ftl

end Actions

section Writes

variable {spp : FlashGeometry.SsdParams} {zpp : ZnsParams} {ftl : ZnsFtl} {zid slba : Nat}
  {cmd : ZnsCommand}

theorem zrwaBuffer_ne (zid z : Nat) : BufferRef.zrwaBuffer zid ≠ .zoneWriteBuffer z := by
  simp

theorem zrwaAllocate_quiet (z size : Nat) :
    Outcome (zrwaAllocate zpp ftl zid size)
      (fun r => r.2.zoneDescs = ftl.zoneDescs ∧ Quiet z ftl r.2) fun _ => True := by
  refine .of_value fun r hrun => ?_
  rw [zrwaAllocate] at hrun
  split at hrun
  · cases hrun
  · obtain ⟨taken, -, hrun⟩ := exists_of_bind_eq_ok hrun
    cases hrun
    exact ⟨rfl, .setBuffer (zrwaBuffer_ne zid z) taken.2⟩

theorem openForZrwaWrite_quiet (z : Nat) :
    Outcome (openForZrwaWrite zpp ftl zid)
      (fun r => Quiet z ftl r.2 ∧ ∃ state,
        (state = .empty → (ftl.zoneDescs zid).state = .empty ∧ r.1 ≠ .success) ∧
        r.2.zoneDescs =
          Function.update ftl.zoneDescs zid { ftl.zoneDescs zid with state := state })
      fun _ => True := by
  have hsame : Function.update ftl.zoneDescs zid
      { ftl.zoneDescs zid with state := (ftl.zoneDescs zid).state } = ftl.zoneDescs :=
    Function.update_eq_self zid ftl.zoneDescs
  refine .of_value fun r hrun => ?_
  obtain ⟨status, opening⟩ := r
  cases zrwaOpens_of_openForZrwaWrite hrun with
  | already hopened =>
      refine ⟨.refl z ftl, _, fun hempty => ?_, hsame.symm⟩
      simp [hempty, opened] at hopened
  | refused hstatus => exact ⟨.refl z ftl, _, fun hempty => ⟨hempty, hstatus⟩, hsame.symm⟩
  | @opens base _ _ hbase =>
      obtain ⟨hdescs, hquiet⟩ := (zrwaAllocate_quiet z _).value hbase
      have hacquired : Quiet z ftl (acquired ftl .openZone) := .of_same rfl rfl
      refine ⟨hacquired.trans (hquiet.trans (.of_same rfl rfl)), .openedImpl, by simp, ?_⟩
      rw [zoneDescs_changeZoneState, hdescs, zoneDescs_acquired]

theorem increaseWritePtr_quiet (nrLba : Nat) :
    Quiet z ftl (increaseWritePtr spp zpp ftl zid nrLba) :=
  .of_same (increaseWritePtr_rest spp zpp ftl zid nrLba).1
    (increaseWritePtr_rest spp zpp ftl zid nrLba).2

theorem znsWriteZrwa_quiet (z : Nat) :
    Outcome (znsWriteZrwa spp zpp ftl cmd) (fun answer => Quiet z ftl answer.2.2)
      fun _ => True := by
  refine .of_value fun answer hrun => ?_
  obtain ⟨reply, cmd', ftl'⟩ := answer
  obtain ⟨-, hwrites⟩ := zrwaWrites_of_znsWriteZrwa hrun
  cases hwrites with
  | rejected => exact .refl z ftl
  | answered _ hopen => exact ((openForZrwaWrite_quiet z).value hopen).1
  | refused _ hopen hfilled =>
      have hopened := ((openForZrwaWrite_quiet z).value hopen).1
      exact hopened.trans ((zrwaAllocate_quiet z _).value hfilled).2
  | flushes _ hopen hfilled =>
      have hopened := ((openForZrwaWrite_quiet z).value hopen).1
      have hgranted := ((zrwaAllocate_quiet z _).value hfilled).2
      exact hopened.trans (hgranted.trans
        ((increaseWritePtr_quiet _).trans (.schedule (zrwaBuffer_ne _ z) _)))

theorem znsWriteZrwa_keeps (hzone : lbaToZone spp zpp cmd.slba = z)
    (hzrwa : (ftl.zoneDescs z).zrwav = true) :
    Outcome (znsWriteZrwa spp zpp ftl cmd) (fun answer => Keeps z ftl answer.2.2)
      fun _ => True := by
  subst hzone
  refine .of_value fun answer hrun => ?_
  obtain ⟨reply, cmd', ftl'⟩ := answer
  refine ⟨(znsWriteZrwa_quiet _).value hrun, ?_⟩
  have hopened : ∀ {status : Status} {base : ZnsFtl},
      openForZrwaWrite zpp ftl (lbaToZone spp zpp cmd.slba) = .ok (status, base) →
      ∃ state, (state = .empty → (ftl.zoneDescs (lbaToZone spp zpp cmd.slba)).state = .empty ∧
          status ≠ .success) ∧
        base.zoneDescs (lbaToZone spp zpp cmd.slba) =
          { ftl.zoneDescs (lbaToZone spp zpp cmd.slba) with state := state } := by
    intro status base hopen
    obtain ⟨-, state, hstate, hdescs⟩ := (openForZrwaWrite_quiet 0).value hopen
    exact ⟨state, hstate, by rw [hdescs, Function.update_self]⟩
  obtain ⟨-, hwrites⟩ := zrwaWrites_of_znsWriteZrwa hrun
  cases hwrites with
  | rejected => exact .refl _
  | answered _ hopen =>
      obtain ⟨state, hstate, hdesc⟩ := hopened hopen
      exact hdesc.symm ▸ .relabel state fun h => (hstate h).1
  | refused _ hopen hfilled =>
      obtain ⟨state, hstate, hdesc⟩ := hopened hopen
      have hfilled' := congrFun ((zrwaAllocate_quiet 0 _).value hfilled).1
        (lbaToZone spp zpp cmd.slba)
      exact (hfilled'.trans hdesc).symm ▸ .relabel state fun h => (hstate h).1
  | @flushes base filled _ hopen hfilled =>
      obtain ⟨state, hstate, hdesc⟩ := hopened hopen
      have hfilled' := (congrFun ((zrwaAllocate_quiet 0 _).value hfilled).1
        (lbaToZone spp zpp cmd.slba)).trans hdesc
      have hstarted : state ≠ .empty := fun h => (hstate h).2 rfl
      obtain ⟨final, hfinal, hmoved⟩ := increaseWritePtr_wp spp zpp filled
        (lbaToZone spp zpp cmd.slba) (flushedBy spp zpp ftl cmd)
      rw [hfilled'] at hfinal hmoved
      change Steady _ ((increaseWritePtr spp zpp filled _ _).zoneDescs _)
      rw [hmoved]
      exact .advance _ final hzrwa fun h => hstarted (hfinal h)

theorem commitWrite_quiet (href : writeBufferRef zpp zid ≠ .zoneWriteBuffer z) (nrLba : Nat) :
    Quiet z ftl (commitWrite spp zpp ftl zid slba nrLba).2 := by
  rw [commitWrite]
  split
  · exact .refl z ftl
  · split
    · exact .refl z ftl
    · split
      · exact .refl z ftl
      · have hopened := openForWrite_relabelled ftl zid slba
        generalize openForWrite ftl zid slba = opening at hopened
        obtain ⟨status, opening⟩ := opening
        cases status with
        | success =>
            exact (Quiet.of_relabelled hopened).trans
              ((increaseWritePtr_quiet nrLba).trans (.schedule href _))
        | _ => exact .of_relabelled hopened

theorem znsWritePlain_quiet
    (href : writeBufferRef zpp (lbaToZone spp zpp cmd.slba) ≠ .zoneWriteBuffer z) :
    Outcome (znsWritePlain spp zpp ftl cmd) (fun answer => Quiet z ftl answer.2.2)
      fun _ => True := by
  rw [znsWritePlain]
  refine Outcome.bind (P := fun _ => True) ?_ fun granted _ => ?_
  · exact (bufferAllocate_total _ _).imp (fun _ _ => trivial) fun _ _ => trivial
  · have hgranted : Quiet z ftl
        (ftl.setBuffer (writeBufferRef zpp (lbaToZone spp zpp cmd.slba)) granted.2) :=
      .setBuffer href granted.2
    dsimp only
    split
    · exact hgranted
    · exact Outcome.pure (hgranted.trans (commitWrite_quiet href _))

end Writes

section Commands

variable {ftl ftl' : ZnsFtl} {slba : Nat} {action : ZoneSendAction} {option : Bool}
  {cmd : ZnsCommand}

/-- The account of zone `z` in a state of the FTL. -/
def Books (dev : FittingGeometry) (z : Nat) (ftl : ZnsFtl) : Prop :=
  Account dev z (ftl.zoneDescs z) (ftl.buffers (.zoneWriteBuffer z)) (pendingBytes z ftl)

theorem Books.keeps (h : Books dev z ftl) (hkeeps : Keeps z ftl ftl') : Books dev z ftl' := by
  rw [Books, hkeeps.quiet.buffer, hkeeps.quiet.pending]
  exact Account.steady h hkeeps.steady

theorem zoneDescs_zmgmtSendResetZone (zpp : ZnsParams) (ftl : ZnsFtl) (zid : Nat) :
    (zmgmtSendResetZone zpp ftl zid).2.zoneDescs =
        Function.update ftl.zoneDescs zid
          { ftl.zoneDescs zid with
            state := .empty
            wp := (ftl.zoneDescs zid).zslba
            zrwav := false } ∨
      (zmgmtSendResetZone zpp ftl zid).2.zoneDescs = ftl.zoneDescs := by
  have hreleased : (releaseActive (releaseZoneResource ftl .openZone) zid).zoneDescs =
      ftl.zoneDescs := zoneDescs_releaseActive.trans zoneDescs_release
  have hactive : (releaseActive ftl zid).zoneDescs = ftl.zoneDescs := zoneDescs_releaseActive
  rw [zmgmtSendResetZone]
  split
  · exact .inl (by rw [zoneDescs_resetZone, hreleased])
  · exact .inl (by rw [zoneDescs_resetZone, hreleased])
  · exact .inl (by rw [zoneDescs_resetZone, hactive])
  · exact .inl zoneDescs_resetZone
  · exact .inl zoneDescs_resetZone
  · exact .inr rfl

theorem zmgmtSendResetZone_books {zid : Nat} (h : Books dev z ftl)
    (hreset : zid = z → CompletePages dev z (ftl.zoneDescs z)) :
    Books dev z (zmgmtSendResetZone dev.zpp ftl zid).2 ∧
      (CompletePages dev z (ftl.zoneDescs z) →
        CompletePages dev z ((zmgmtSendResetZone dev.zpp ftl zid).2.zoneDescs z)) := by
  have hquiet : Quiet z ftl (zmgmtSendResetZone dev.zpp ftl zid).2 := zmgmtSendResetZone_quiet
  rcases zoneDescs_zmgmtSendResetZone dev.zpp ftl zid with hdescs | hdescs
  · rcases eq_or_ne z zid with rfl | hne
    · rw [Books, hquiet.buffer, hquiet.pending, hdescs, Function.update_self]
      exact ⟨Account.reset h (hreset rfl), fun _ => completePages_reset dev z _⟩
    · have hdesc : (zmgmtSendResetZone dev.zpp ftl zid).2.zoneDescs z = ftl.zoneDescs z := by
        rw [hdescs, Function.update_of_ne hne]
      refine ⟨h.keeps (hquiet.keeps hdesc), ?_⟩
      rw [hdesc]
      exact id
  · refine ⟨h.keeps (hquiet.keeps (congrFun hdescs z)), ?_⟩
    rw [hdescs]
    exact id

theorem zmgmtSend_books {R : Prop} (h : Books dev z ftl) (hkind : R → action = .resetZone)
    (hreset : action = .resetZone → lbaToZone dev.spp dev.zpp slba = z → R)
    (hcomplete : R → CompletePages dev z (ftl.zoneDescs z)) :
    Outcome (zmgmtSend dev.spp dev.zpp ftl slba action option)
      (fun sent => Books dev z sent.2 ∧ (R → CompletePages dev z (sent.2.zoneDescs z)))
      fun _ => True := by
  cases action with
  | closeZone =>
      exact ⟨h.keeps (.of_relabelled zmgmtSendCloseZone_relabelled), fun hR => nomatch hkind hR⟩
  | finishZone =>
      exact ⟨h.keeps (.of_relabelled zmgmtSendFinishZone_relabelled), fun hR => nomatch hkind hR⟩
  | openZone =>
      exact ⟨h.keeps (zmgmtSendOpenZone_keeps option), fun hR => nomatch hkind hR⟩
  | resetZone =>
      obtain ⟨hbooks, hstill⟩ := zmgmtSendResetZone_books h
        (fun hzone => hcomplete (hreset rfl hzone))
      exact ⟨hbooks, fun hR => hstill (hcomplete hR)⟩
  | offlineZone =>
      exact ⟨h.keeps (.of_relabelled zmgmtSendOfflineZone_relabelled), fun hR => nomatch hkind hR⟩
  | other code => exact ⟨h, fun hR => nomatch hkind hR⟩
  | flushExplZrwa =>
      refine Outcome.imp (P := fun sent => Books dev z sent.2) ?_
        (fun sent hsent => ⟨hsent, fun hR => nomatch hkind hR⟩) fun _ => id
      rw [zmgmtSend, zmgmtSendFlushExplicitZrwa]
      split
      · exact h
      · next hzrwa =>
        split
        · exact h
        · split
          · trivial
          · split
            · exact h
            · exact h.keeps (flushZrwaTo_keeps (by simpa using hzrwa))

/-- The command resets zone `z`. -/
def ResetsZone (dev : FittingGeometry) (z : Nat) (cmd : ZnsCommand) : Prop :=
  cmd.opcode = .zoneMgmtSend ∧ cmd.zsa = .resetZone ∧ z ∈ sendTargets dev.spp dev.zpp cmd

theorem znsZmgmtSend_books (h : Books dev z ftl) (hop : cmd.opcode = .zoneMgmtSend)
    (hcomplete : ResetsZone dev z cmd → CompletePages dev z (ftl.zoneDescs z)) :
    Outcome (znsZmgmtSend dev.spp dev.zpp ftl cmd) (fun sent => Books dev z sent.2)
      fun _ => True := by
  rw [znsZmgmtSend]
  split
  · next hall =>
    have htarget : ∀ i ∈ List.range dev.zpp.nrZones, cmd.zsa = .resetZone →
        lbaToZone dev.spp dev.zpp (zoneToSlba dev.spp dev.zpp i) = z →
        ResetsZone dev z cmd := by
      intro i hi hzsa hzone
      refine ⟨hop, hzsa, ?_⟩
      rw [sendTargets, if_pos hall]
      exact List.mem_map.2 ⟨i, hi, hzone⟩
    refine Outcome.bind (P := fun last => Books dev z last ∧
      (ResetsZone dev z cmd → CompletePages dev z (last.zoneDescs z))) ?_
      fun last hlast => hlast.1
    refine Outcome.foldlM ⟨h, hcomplete⟩ fun i hi mid hmid => ?_
    refine Outcome.bind (zmgmtSend_books hmid.1 (fun hR => hR.2.1) (htarget i hi) hmid.2) ?_
    rintro ⟨status, last⟩ hlast
    exact hlast
  · next hone =>
    have htarget : cmd.zsa = .resetZone → lbaToZone dev.spp dev.zpp cmd.slba = z →
        ResetsZone dev z cmd := by
      rintro hzsa rfl
      refine ⟨hop, hzsa, ?_⟩
      rw [sendTargets, if_neg hone]
      exact List.mem_singleton.2 rfl
    exact (zmgmtSend_books h (fun hR => hR.2.1) htarget hcomplete).imp
      (fun _ hsent => hsent.1) fun _ => id

end Commands

end NvmeVirt.ZoneBuffers
