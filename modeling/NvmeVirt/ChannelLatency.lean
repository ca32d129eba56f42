import NvmeVirt.ChannelCredits

namespace NvmeVirt.ChannelModel

open NvmeVirt.CreditTimeline NvmeVirt.FaultOutcome NvmeVirt.WriteBuffer

section Lengths

variable {ch : Channel} {maxCredits : Nat} {curTime requestTime n m : Nat}

theorem unitsToXfer_eq (h : m ≤ unitXferSize * (2 ^ 32 - 1)) :
    unitsToXfer m = (m + unitXferSize - 1) / unitXferSize := by
  rw [unitXferSize] at h
  have hsum : (m + 128 - 1) % 2 ^ 64 = m + 128 - 1 := Nat.mod_eq_of_lt (by omega)
  rw [unitsToXfer, unitXferSize, hsum]
  exact Nat.mod_eq_of_lt (by omega)

theorem unitsToXfer_mono (hle : n ≤ m) (h : m ≤ unitXferSize * (2 ^ 32 - 1)) :
    unitsToXfer n ≤ unitsToXfer m := by
  rw [unitsToXfer_eq h, unitsToXfer_eq (hle.trans h)]
  exact Nat.div_le_div_right (by omega)

theorem Stocked.window (h : Stocked maxCredits ch) :
    Window nrCreditEntries ch.head 0 ch.maxCredits ch.availCredits
      (fun j => ch.maxCredits - ch.availCredits ((ch.head + j) % nrCreditEntries)) := by
  intro j _
  rw [Nat.zero_add, Nat.sub_sub_self]
  exact (h.cells_le _).trans_eq h.maxCredits_eq.symm

/-- The slots that `grants` fill behind the first one, beyond the default for `units`. -/
def extraSlots (ch : Channel) (units : Nat) (grants : List Nat) : Nat :=
  grants.length - 1 - units / ch.maxCredits

theorem takeCredits_latency {offs : Nat} {granted : Nat → Nat} (requestTime length : Nat)
    (h : Stocked maxCredits ch)
    (hwindow : Window nrCreditEntries ch.head 0 ch.maxCredits ch.availCredits granted)
    (hoffs : offs < nrCreditEntries) :
    ∃ reply, takeCredits ch requestTime offs length = .ok reply ∧
      reply.grants =
        serve ch.maxCredits granted (nrCreditEntries - offs) offs (unitsToXfer length) ∧
      reply.time = (requestTime + (ch.xferLat * unitsToXfer length % 2 ^ 32 +
        extraSlots ch (unitsToXfer length) reply.grants * unitTimeInterval)) % 2 ^ 64 := by
  have hunits : (unitsToXfer length * unitXferCredits + ch.commandCredits) % 2 ^ 32 =
      unitsToXfer length := by
    rw [h.commandCredits, unitXferCredits, Nat.mul_one, Nat.add_zero]
    exact Nat.mod_eq_of_lt (Nat.mod_lt _ (Nat.two_pow_pos 32))
  obtain ⟨taken, htaken, hgrants, -, -, hdelay⟩ := consumeLoop_spec (unitsToXfer length) 0
    h.ready.head_lt hwindow (show offs + (nrCreditEntries - offs) = nrCreditEntries by omega)
    (by omega) (Nat.sub_le _ _)
  rw [Nat.zero_add] at hgrants
  have hextra : (if unitsToXfer length / ch.maxCredits < taken.delay then
      taken.delay - unitsToXfer length / ch.maxCredits else 0) =
      extraSlots ch (unitsToXfer length) taken.grants := by
    rw [extraSlots]
    split <;> omega
  rw [takeCredits, hunits, if_neg (Nat.ne_of_gt h.ready.maxCredits_pos), htaken, ok_bind, hextra]
  exact ⟨_, rfl, hgrants, rfl⟩

theorem time_le (requestTime lat : Nat) {units units' extra extra' slots : Nat}
    (hunits : units ≤ units') (hextra : extra ≤ extra' + slots) :
    requestTime + (lat * units + extra * unitTimeInterval) ≤
      requestTime + (lat * units' + extra' * unitTimeInterval) +
        (slots * unitTimeInterval - lat * (units' - units)) := by
  have htransfer : lat * units' = lat * units + lat * (units' - units) := by
    rw [← Nat.mul_add, Nat.add_sub_cancel' hunits]
  have hqueue : extra * unitTimeInterval ≤
      extra' * unitTimeInterval + slots * unitTimeInterval := by
    rw [← Nat.add_mul]
    exact Nat.mul_le_mul_right _ hextra
  omega

theorem extraSlots_le {units units' : Nat} {short long : List Nat}
    (hlength : short.length ≤ long.length) :
    extraSlots ch units short ≤
      extraSlots ch units' long + (units' / ch.maxCredits - units / ch.maxCredits) := by
  rw [extraSlots, extraSlots]
  omega

theorem extraSlots_le_succ {units units' : Nat} {short long : List Nat}
    (hpositive : 0 < ch.maxCredits) (hlength : short.length ≤ long.length)
    (hgap : units' ≤ units + ch.maxCredits * (long.length - short.length + 1)) :
    extraSlots ch units short ≤ extraSlots ch units' long + 1 := by
  have hdefault : units' / ch.maxCredits ≤
      units / ch.maxCredits + (long.length - short.length + 1) := by
    rw [← Nat.add_mul_div_left _ _ hpositive]
    exact Nat.div_le_div_right hgap
  rw [extraSlots, extraSlots]
  omega

/-- The two bounds on how much earlier the longer transfer may finish: the slots that its
default has more, and when all its credits are granted one slot. -/
def FinishLater (ch : Channel) (units units' : Nat) (short long : ChannelReply) : Prop :=
  short.time ≤ long.time + ((units' / ch.maxCredits - units / ch.maxCredits) * unitTimeInterval -
      ch.xferLat * (units' - units)) ∧
    (long.grants.sum = units' →
      short.time ≤ long.time + (unitTimeInterval - ch.xferLat * (units' - units)))

theorem takeCredits_finishLater {offs : Nat} (h : Stocked maxCredits ch)
    (hoffs : offs < nrCreditEntries) (hle : n ≤ m) (hlength : m ≤ unitXferSize * (2 ^ 32 - 1))
    (hlatency : ch.xferLat * unitsToXfer m < 2 ^ 32)
    (htime : requestTime + (2 ^ 32 + nrCreditEntries * unitTimeInterval) ≤ 2 ^ 64) :
    ∃ short long, takeCredits ch requestTime offs n = .ok short ∧
      takeCredits ch requestTime offs m = .ok long ∧
      FinishLater ch (unitsToXfer n) (unitsToXfer m) short long := by
  have hunits := unitsToXfer_mono hle hlength
  have hwithin {units : Nat} {grants : List Nat} (hgrants : grants.length ≤ nrCreditEntries) :
      requestTime + (ch.xferLat * units % 2 ^ 32 + extraSlots ch units grants * unitTimeInterval) <
        2 ^ 64 := by
    refine Nat.lt_of_lt_of_le (Nat.add_lt_add_left ?_ _) htime
    refine Nat.add_lt_add_of_lt_of_le (Nat.mod_lt _ (by decide)) (Nat.mul_le_mul_right _ ?_)
    exact ((Nat.sub_le _ _).trans (Nat.sub_le _ _)).trans hgrants
  obtain ⟨short, hshort, hgrants, hfirst⟩ := takeCredits_latency requestTime n h h.window hoffs
  obtain ⟨long, hlong, hgrants', hsecond⟩ := takeCredits_latency requestTime m h h.window hoffs
  have hroom : short.grants.length ≤ nrCreditEntries - offs := hgrants ▸ serve_length_le
  have hroom' : long.grants.length ≤ nrCreditEntries - offs := hgrants' ▸ serve_length_le
  have hslots : short.grants.length ≤ long.grants.length := by
    rw [hgrants, hgrants']
    exact serve_length_mono hunits
  rw [Nat.mod_eq_of_lt (hwithin (hroom.trans (Nat.sub_le _ _))),
    Nat.mod_eq_of_lt ((Nat.mul_le_mul_left _ hunits).trans_lt hlatency)] at hfirst
  rw [Nat.mod_eq_of_lt (hwithin (hroom'.trans (Nat.sub_le _ _))),
    Nat.mod_eq_of_lt hlatency] at hsecond
  refine ⟨short, long, hshort, hlong, ?_, fun hall => ?_⟩
  · rw [hfirst, hsecond]
    exact time_le requestTime ch.xferLat hunits (extraSlots_le hslots)
  · have hgap : unitsToXfer m ≤ unitsToXfer n +
        ch.maxCredits * (long.grants.length - short.grants.length + 1) := by
      rw [hgrants'] at hall ⊢
      rw [hgrants]
      exact serve_gap hunits hall
    have hone := time_le requestTime ch.xferLat hunits
      (extraSlots_le_succ h.ready.maxCredits_pos hslots hgap)
    rw [Nat.one_mul] at hone
    rw [hfirst, hsecond]
    exact hone

theorem chmodelRequest_finishLater (h : Stocked maxCredits ch) (hclock : curTime ≤ requestTime)
    (hle : n ≤ m) (hlength : m ≤ unitXferSize * (2 ^ 32 - 1))
    (hlatency : ch.xferLat * unitsToXfer m < 2 ^ 32)
    (htime : requestTime + (2 ^ 32 + nrCreditEntries * unitTimeInterval) ≤ 2 ^ 64) :
    ∃ short long, chmodelRequest ch curTime requestTime n = .ok short ∧
      chmodelRequest ch curTime requestTime m = .ok long ∧
      FinishLater ch (unitsToXfer n) (unitsToXfer m) short long := by
  have hhead := advanceHead_stocked h curTime
  rw [chmodelRequest, chmodelRequest, nvmevAssert_of hhead.ready.validLen_le, ok_bind, ok_bind]
  simp only [if_neg (Nat.not_lt.2 hclock)]
  by_cases hfar : nrCreditEntries ≤ slotOffs requestTime curTime
  · -- outside the window no length is looked at
    rw [if_pos hfar, if_pos hfar]
    exact ⟨_, _, rfl, rfl, Nat.le_add_right _ _, fun _ => Nat.le_add_right _ _⟩
  · rw [if_neg hfar, if_neg hfar]
    exact takeCredits_finishLater hhead (Nat.not_le.1 hfar) hle hlength hlatency htime

/-- In every run a longer transfer does not finish earlier, but for the slots by which the
default delay grows, at most one of them when all credits are granted. -/
theorem longer_transfers_finish_later {bandwidth : Nat} {requests : List Request} {s : Served}
    (hinit : chmodelInit bandwidth = .ok ch) (hlow : 1 ≤ ch.maxCredits)
    (hhigh : ch.maxCredits ≤ 255) (hrun : serveAll ch requests = .ok s)
    (hclock : curTime ≤ requestTime) (hle : n ≤ m) (hlength : m ≤ unitXferSize * (2 ^ 32 - 1))
    (hlatency : s.channel.xferLat * unitsToXfer m < 2 ^ 32)
    (htime : requestTime + (2 ^ 32 + nrCreditEntries * unitTimeInterval) ≤ 2 ^ 64) :
    ∃ short long, chmodelRequest s.channel curTime requestTime n = .ok short ∧
      chmodelRequest s.channel curTime requestTime m = .ok long ∧
      short.time ≤ long.time +
        ((unitsToXfer m / s.channel.maxCredits - unitsToXfer n / s.channel.maxCredits) *
          unitTimeInterval - s.channel.xferLat * (unitsToXfer m - unitsToXfer n)) ∧
      (long.grants.sum = unitsToXfer m → short.time ≤ long.time +
        (unitTimeInterval - s.channel.xferLat * (unitsToXfer m - unitsToXfer n))) := by
  have hstocked := foldlM_stocked (s := { channel := ch, served := [] })
    (chmodelInit_stocked hinit hlow hhigh) hrun
  exact chmodelRequest_finishLater hstocked hclock hle hlength hlatency htime

theorem longer_transfers_finish_later_one : ∃ ch s short long, chmodelInit 800 = .ok ch ∧
    serveAll ch [⟨1000, 1000, 4096⟩] = .ok s ∧
    chmodelRequest s.channel 2000 2000 3200 = .ok short ∧
    chmodelRequest s.channel 2000 2000 8192 = .ok long ∧
    (long.grants.sum = unitsToXfer 8192 →
      short.time ≤ long.time + (unitTimeInterval - s.channel.xferLat * (64 - 25))) := by
  have hrun : returns (chmodelInit 800) (fun ch => decide (1 ≤ ch.maxCredits) &&
      decide (ch.maxCredits ≤ 255) && returns (serveAll ch [⟨1000, 1000, 4096⟩]) fun s =>
        decide (s.channel.xferLat * unitsToXfer 8192 < 2 ^ 32)) = true := by
    decide +kernel
  obtain ⟨ch, hch, hrun⟩ := exists_of_returns hrun
  simp only [Bool.and_eq_true, decide_eq_true_eq] at hrun
  obtain ⟨⟨hlow, hhigh⟩, hserve⟩ := hrun
  obtain ⟨s, hs, hlatency⟩ := exists_of_returns hserve
  obtain ⟨short, long, hshort, hlong, -, hall⟩ := longer_transfers_finish_later hch hlow hhigh hs
    (Nat.le_refl 2000) (show 3200 ≤ 8192 by decide) (by decide) (of_decide_eq_true hlatency)
    (by decide)
  exact ⟨ch, s, short, long, hch, hs, hshort, hlong, hall⟩

end Lengths

/-- After `requests` a transfer of `m` bytes would finish before one of `n` bytes. -/
def FinishesEarlier (bandwidth : Nat) (requests : List Request)
    (curTime requestTime n m : Nat) : Prop :=
  ∃ ch s short long, chmodelInit bandwidth = .ok ch ∧ 1 ≤ ch.maxCredits ∧ ch.maxCredits ≤ 255 ∧
    serveAll ch requests = .ok s ∧ chmodelRequest s.channel curTime requestTime n = .ok short ∧
    chmodelRequest s.channel curTime requestTime m = .ok long ∧ long.time < short.time

theorem finishesEarlier_of_returns {bandwidth curTime requestTime n m : Nat}
    {requests : List Request}
    (h : returns (chmodelInit bandwidth) (fun ch => decide (1 ≤ ch.maxCredits) &&
      decide (ch.maxCredits ≤ 255) && returns (serveAll ch requests) fun s =>
        returns (chmodelRequest s.channel curTime requestTime n) fun short =>
          returns (chmodelRequest s.channel curTime requestTime m) fun long =>
            decide (long.time < short.time)) = true) :
    FinishesEarlier bandwidth requests curTime requestTime n m := by
  obtain ⟨ch, hch, h⟩ := exists_of_returns h
  simp only [Bool.and_eq_true, decide_eq_true_eq] at h
  obtain ⟨⟨hlow, hhigh⟩, hserve⟩ := h
  obtain ⟨s, hs, h⟩ := exists_of_returns hserve
  obtain ⟨short, hshort, h⟩ := exists_of_returns h
  obtain ⟨long, hlong, hearlier⟩ := exists_of_returns h
  exact ⟨ch, s, short, long, hch, hlow, hhigh, hs, hshort, hlong, of_decide_eq_true hearlier⟩

/-- At 800 MB/s a slot has 26 credits. Behind another transfer 25 units wait for two slots
and 26 units for one. The other transfers are so long that their units or their latency wrap
at 32 bits, or so late that the time does at 64. -/
theorem longer_transfer_finishes_earlier :
    FinishesEarlier 800 [⟨1000, 1000, 4096⟩] 2000 2000 3200 3328 ∧
      FinishesEarlier 800 [] 1000 1000 128 (2 ^ 39) ∧
      FinishesEarlier 800 [] 1000 ((nrCreditEntries - 1) * 4000) 128 (28256364 * 128) ∧
      FinishesEarlier 800 [] (2 ^ 64 - 200) (2 ^ 64 - 200) 128 256 :=
  ⟨finishesEarlier_of_returns (by decide +kernel), finishesEarlier_of_returns (by decide +kernel),
    finishesEarlier_of_returns (by decide +kernel), finishesEarlier_of_returns (by decide +kernel)⟩

end NvmeVirt.ChannelModel
