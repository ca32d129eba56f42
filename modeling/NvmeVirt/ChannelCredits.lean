import NvmeVirt.ChannelTimeline

namespace NvmeVirt.ChannelModel

open NvmeVirt.CreditTimeline NvmeVirt.FaultOutcome NvmeVirt.WriteBuffer

section Stock

/-- What holds of a channel in all runs, whatever the clock reads. -/
structure Stocked (maxCredits : Nat) (ch : Channel) : Prop where
  ready : Ready ch
  maxCredits_eq : ch.maxCredits = maxCredits
  maxCredits_lt : maxCredits < 2 ^ 8
  commandCredits : ch.commandCredits = 0
  cells_le : ∀ i, ch.availCredits i ≤ maxCredits

variable {ch : Channel} {maxCredits : Nat} {curTime requestTime length : Nat}

theorem memset_le {cells : Nat → Nat} {start value n : Nat} (h : ∀ i, cells i ≤ maxCredits)
    (hvalue : value ≤ maxCredits) (i : Nat) : memset cells start value n i ≤ maxCredits := by
  rw [memset]
  split
  · exact (Nat.mod_le _ _).trans hvalue
  · exact h i

theorem advanceHead_stocked (h : Stocked maxCredits ch) (curTime : Nat) :
    Stocked maxCredits (advanceHead ch curTime) where
  ready := advanceHead_ready h.ready curTime
  maxCredits_eq := h.maxCredits_eq
  maxCredits_lt := h.maxCredits_lt
  commandCredits := h.commandCredits
  cells_le := by
    have hvalue := Nat.le_of_eq h.maxCredits_eq
    rw [advanceHead]
    dsimp only
    rw [refill]
    split
    · exact memset_le (memset_le h.cells_le hvalue) hvalue
    · exact memset_le h.cells_le hvalue

theorem consumeLoop_le {head fuel pos remaining delay : Nat} {avail : Nat → Nat}
    {taken : Consumed} (h : consumeLoop head fuel avail pos remaining delay = .ok taken) (i : Nat) :
    taken.availCredits i ≤ avail i := by
  induction fuel generalizing avail pos remaining delay taken with
  | zero => cases h
  | succ fuel ih =>
      have hleft : ∀ consumed, Function.update avail pos (avail pos - consumed) i ≤ avail i := by
        intro consumed
        by_cases heq : i = pos
        · rw [heq, Function.update_self]
          exact Nat.sub_le _ _
        · rw [Function.update_of_ne heq]
      rw [consumeLoop] at h
      generalize (if remaining ≤ avail pos then remaining else avail pos) = consumed at h
      split at h
      · obtain ⟨rest, hrest, h⟩ := exists_of_bind_eq_ok h
        cases h
        exact (ih hrest).trans (hleft _)
      · cases h
        exact hleft _

theorem takeCredits_stocked {offs : Nat} {reply : ChannelReply} (h : Stocked maxCredits ch)
    (hready : Ready reply.channel)
    (hrun : takeCredits ch requestTime offs length = .ok reply) :
    Stocked maxCredits reply.channel := by
  rw [takeCredits] at hrun
  simp only at hrun
  split at hrun
  · cases hrun
  · obtain ⟨taken, htaken, hrun⟩ := exists_of_bind_eq_ok hrun
    cases hrun
    exact ⟨hready, h.maxCredits_eq, h.maxCredits_lt, h.commandCredits,
      fun i => (consumeLoop_le htaken i).trans (h.cells_le i)⟩

theorem chmodelRequest_stocked (h : Stocked maxCredits ch) (curTime requestTime length : Nat) :
    ∃ reply, chmodelRequest ch curTime requestTime length = .ok reply ∧
      Stocked maxCredits reply.channel := by
  obtain ⟨reply, hreply, hready, -⟩ :=
    chmodelRequest_ready h.ready curTime requestTime length
  refine ⟨reply, hreply, ?_⟩
  have hhead := advanceHead_stocked h curTime
  rw [chmodelRequest, nvmevAssert_of hhead.ready.validLen_le, ok_bind] at hreply
  dsimp only at hreply
  split at hreply
  · cases hreply
    exact hhead
  · split at hreply
    · cases hreply
      exact hhead
    · exact takeCredits_stocked hhead hready hreply

theorem foldlM_stocked {requests : List Request} {s s' : Served}
    (h : Stocked maxCredits s.channel) (hrun : requests.foldlM serveRequest s = .ok s') :
    Stocked maxCredits s'.channel := by
  induction requests generalizing s with
  | nil =>
      cases hrun
      exact h
  | cons r requests ih =>
      rw [List.foldlM_cons] at hrun
      obtain ⟨next, hnext, hrest⟩ := exists_of_bind_eq_ok hrun
      obtain ⟨reply, hreply, hstocked⟩ :=
        chmodelRequest_stocked h r.clock r.requestTime r.length
      rw [serveRequest, hreply, ok_bind] at hnext
      obtain rfl := Except.ok.inj hnext
      exact ih hstocked hrest

theorem chmodelInit_stocked {bandwidth : Nat} (hinit : chmodelInit bandwidth = .ok ch)
    (hlow : 1 ≤ ch.maxCredits) (hhigh : ch.maxCredits ≤ 255) :
    Stocked ch.maxCredits ch := by
  rw [chmodelInit] at hinit
  split at hinit
  · cases hinit
  · cases hinit
    exact ⟨⟨nrCreditEntries_pos, Nat.zero_le _, hlow⟩, rfl, Nat.lt_succ_of_le hhigh, rfl,
      memset_le (fun _ => Nat.zero_le _) (Nat.le_refl _)⟩

theorem Stocked.refilled (h : Stocked maxCredits ch) {j : Nat} (hj : j < curTimeOffs ch curTime) :
    (advanceHead ch curTime).availCredits ((ch.head + j) % nrCreditEntries) = maxCredits := by
  have hoffs : curTimeOffs ch curTime ≤ nrCreditEntries := by
    have hvalid := h.ready.validLen_le
    rw [curTimeOffs] at hj ⊢
    split <;> omega
  rw [advanceHead]
  dsimp only
  rw [h.maxCredits_eq, refill_cell _ h.ready.head_lt hoffs h.maxCredits_lt (by omega), if_pos hj]

end Stock

/-- A channel of this bandwidth has credits, its slots start with all of them, and in every
run a slot that is used again gets all of them again. -/
def RepresentsBandwidth (bandwidth : Nat) : Prop :=
  ∃ ch, chmodelInit bandwidth = .ok ch ∧ 0 < ch.maxCredits ∧
    (∀ i < nrCreditEntries, ch.availCredits i = ch.maxCredits) ∧
    ∀ requests s, serveAll ch requests = .ok s → ∀ curTime, ∀ j < curTimeOffs s.channel curTime,
      (advanceHead s.channel curTime).availCredits ((s.channel.head + j) % nrCreditEntries) =
        ch.maxCredits

theorem bandwidthToMaxCredits_eq (bandwidth : Nat) :
    bandwidthToMaxCredits bandwidth % 2 ^ 32 =
      bandwidth * 2 ^ 20 % 2 ^ 64 * 4000 % 2 ^ 64 / (128 * 10 ^ 9) := by
  have hunit : (1000000000 * 128 : Nat) = 128 * 10 ^ 9 := by decide
  rw [bandwidthToMaxCredits, unitTimeInterval, unitXferSize, unitXferCredits, Nat.mul_one,
    Nat.div_div_eq_div_mul, hunit]
  refine Nat.mod_eq_of_lt (Nat.div_lt_of_lt_mul ?_)
  exact (Nat.mod_lt _ (Nat.two_pow_pos 64)).trans (by decide)

/-- The channel moves between 128 and 256 * 128 bytes in a slot, where the products of 64
bits may wrap. -/
def Representable (bandwidth : Nat) : Prop :=
  128 * 10 ^ 9 ≤ bandwidth * 2 ^ 20 % 2 ^ 64 * 4000 % 2 ^ 64 ∧
    bandwidth * 2 ^ 20 % 2 ^ 64 * 4000 % 2 ^ 64 < 256 * (128 * 10 ^ 9)

theorem representable_iff {bandwidth : Nat} (h : bandwidth * (2 ^ 20 * 4000) < 2 ^ 64) :
    Representable bandwidth ↔ 31 ≤ bandwidth ∧ bandwidth ≤ 7812 := by
  have hbytes : bandwidth * 2 ^ 20 % 2 ^ 64 = bandwidth * 2 ^ 20 :=
    Nat.mod_eq_of_lt ((Nat.mul_le_mul_left bandwidth (by decide)).trans_lt h)
  have htotal : bandwidth * 2 ^ 20 * 4000 % 2 ^ 64 = bandwidth * (2 ^ 20 * 4000) := by
    rw [Nat.mul_assoc]
    exact Nat.mod_eq_of_lt h
  rw [Representable, hbytes, htotal]
  omega

theorem RepresentsBandwidth.representable {bandwidth : Nat} (h : RepresentsBandwidth bandwidth) :
    Representable bandwidth := by
  obtain ⟨ch, hinit, hpositive, hfull, -⟩ := h
  have hcredits := bandwidthToMaxCredits_eq bandwidth
  have hfirst := hfull 0 nrCreditEntries_pos
  rw [chmodelInit] at hinit
  split at hinit
  · cases hinit
  · obtain rfl := Except.ok.inj hinit
    dsimp only at hpositive hfirst
    rw [memset, if_pos ⟨Nat.le_refl 0, by decide⟩] at hfirst
    rw [hcredits] at hpositive hfirst
    rw [Representable]
    generalize bandwidth * 2 ^ 20 % 2 ^ 64 * 4000 % 2 ^ 64 = total at hpositive hfirst ⊢
    omega

/-- Credits stand for exactly the bandwidths that are representable. -/
theorem credits_represent_bandwidth_iff (bandwidth : Nat) :
    RepresentsBandwidth bandwidth ↔ Representable bandwidth := by
  refine ⟨RepresentsBandwidth.representable, ?_⟩
  rintro ⟨hlow, hhigh⟩
  have hsome : bandwidth * 2 ^ 20 % 2 ^ 64 ≠ 0 := by
    intro hzero
    rw [hzero] at hlow
    omega
  obtain ⟨ch, hinit, hmax, hcells⟩ : ∃ ch, chmodelInit bandwidth = .ok ch ∧
      ch.maxCredits = bandwidthToMaxCredits bandwidth % 2 ^ 32 ∧
      ch.availCredits = memset (fun _ => 0) 0 ch.maxCredits nrCreditEntries :=
    ⟨_, if_neg hsome, rfl, rfl⟩
  rw [bandwidthToMaxCredits_eq] at hmax
  generalize bandwidth * 2 ^ 20 % 2 ^ 64 * 4000 % 2 ^ 64 = total at hlow hhigh hmax
  have hone : 1 ≤ ch.maxCredits := by omega
  have hbyte : ch.maxCredits ≤ 255 := by omega
  have hstocked := chmodelInit_stocked hinit hone hbyte
  refine ⟨ch, hinit, hone, ?_, ?_⟩
  · intro i hi
    rw [hcells]
    exact memset_of_mem hstocked.maxCredits_lt (Nat.zero_le i) (by omega)
  · intro requests s hrun curTime j hj
    exact (foldlM_stocked (s := { channel := ch, served := [] }) hstocked hrun).refilled hj

/-- 30 MB/s are less than one credit in a slot, and 7813 MB/s are 256 credits, which a byte
does not hold. -/
theorem credits_miss_bandwidth : ¬RepresentsBandwidth 30 ∧ ¬RepresentsBandwidth 7813 := by
  constructor
  · intro h
    have hrange := (representable_iff (by decide)).1 h.representable
    omega
  · intro h
    have hrange := (representable_iff (by decide)).1 h.representable
    omega

end NvmeVirt.ChannelModel
