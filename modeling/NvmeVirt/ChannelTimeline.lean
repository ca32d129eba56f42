import NvmeVirt.ChannelModel
import Mathlib.Data.List.Chain

namespace NvmeVirt.ChannelModel

open NvmeVirt.CreditTimeline NvmeVirt.FaultOutcome NvmeVirt.WriteBuffer

section Ring

theorem nrCreditEntries_pos : 0 < nrCreditEntries := by decide

structure Tracks (ch : Channel) (granted : Nat → Nat) : Prop where
  head_lt : ch.head < nrCreditEntries
  validLen_le : ch.validLen ≤ nrCreditEntries
  maxCredits_pos : 0 < ch.maxCredits
  maxCredits_lt : ch.maxCredits < 2 ^ 8
  commandCredits : ch.commandCredits = 0
  /-- The cells say what is left in the slots of the window. -/
  window : Window nrCreditEntries ch.head (slotOf ch.curTime) ch.maxCredits
    ch.availCredits granted
  /-- Nothing is granted behind the valid part of the ring. -/
  beyond : ∀ s, slotOf ch.curTime + ch.validLen ≤ s → granted s = 0
  granted_le : ∀ s, granted s ≤ ch.maxCredits

variable {ch : Channel} {granted : Nat → Nat} {curTime : Nat}

theorem slotOffs_of_le {time past : Nat} (hle : past ≤ time)
    (hclose : slotOf time - slotOf past < 2 ^ 32) :
    slotOffs time past = slotOf time - slotOf past := by
  have hslots : slotOf past ≤ slotOf time := Nat.div_le_div_right hle
  have hsum : slotOf time + 2 ^ 64 - slotOf past =
      slotOf time - slotOf past + 2 ^ 32 * 2 ^ 32 := by omega
  rw [slotOffs, hsum, Nat.add_mul_mod_self_left, Nat.mod_eq_of_lt hclose]

theorem memset_of_mem {cells : Nat → Nat} {start value length i : Nat} (hvalue : value < 2 ^ 8)
    (hlow : start ≤ i) (hhigh : i < start + length) :
    memset cells start value length i = value := by
  rw [memset, if_pos ⟨hlow, hhigh⟩, Nat.mod_eq_of_lt hvalue]

theorem memset_of_not_mem {cells : Nat → Nat} {start value length i : Nat}
    (h : ¬(start ≤ i ∧ i < start + length)) : memset cells start value length i = cells i :=
  if_neg h

theorem add_mod_entries {head n j : Nat} (hhead : head < n) (hj : j ≤ n) :
    (head + j) % n = if head + j < n then head + j else head + j - n := by
  split
  · exact Nat.mod_eq_of_lt ‹_›
  · rw [Nat.mod_eq_sub_mod (by omega), Nat.mod_eq_of_lt (by omega)]

theorem refill_cell (cells : Nat → Nat) {head offs value : Nat}
    (hhead : head < nrCreditEntries) (hoffs : offs ≤ nrCreditEntries) (hvalue : value < 2 ^ 8)
    {j : Nat} (hj : j < nrCreditEntries) :
    refill cells head value offs ((head + j) % nrCreditEntries) =
      if j < offs then value else cells ((head + j) % nrCreditEntries) := by
  rw [add_mod_entries hhead (Nat.le_of_lt hj), refill]
  generalize nrCreditEntries = n at *
  by_cases hwrap : n ≤ head + offs
  · rw [if_pos hwrap]
    by_cases hin : head + j < n
    · rw [if_pos hin, memset_of_not_mem (by omega), memset_of_mem hvalue (by omega) (by omega),
        if_pos (by omega)]
    · rw [if_neg hin]
      by_cases hfilled : j < offs
      · rw [if_pos hfilled, memset_of_mem hvalue (by omega) (by omega)]
      · rw [if_neg hfilled, memset_of_not_mem (by omega), memset_of_not_mem (by omega)]
  · rw [if_neg hwrap]
    by_cases hfilled : j < offs
    · rw [if_pos (show head + j < n by omega), if_pos hfilled,
        memset_of_mem hvalue (by omega) (by omega)]
    · rw [if_neg hfilled]
      split
      · exact memset_of_not_mem (by omega)
      · exact memset_of_not_mem (by omega)

theorem curTimeOffs_spec (hle : ch.curTime ≤ curTime)
    (hclose : ch.validLen = 0 ∨ slotOf curTime - slotOf ch.curTime < 2 ^ 32) :
    curTimeOffs ch curTime ≤ ch.validLen ∧
      (slotOf ch.curTime + curTimeOffs ch curTime = slotOf curTime ∨
        curTimeOffs ch curTime = ch.validLen ∧ slotOf ch.curTime + ch.validLen ≤ slotOf curTime)
    := by
  have hslots : slotOf ch.curTime ≤ slotOf curTime := Nat.div_le_div_right hle
  rw [curTimeOffs]
  rcases hclose with hzero | hclose
  · rw [hzero, if_neg (Nat.not_lt_zero _)]
    omega
  · rw [slotOffs_of_le hle hclose]
    split <;> omega

theorem advanceHead_tracks (h : Tracks ch granted) (hle : ch.curTime ≤ curTime)
    (hclose : ch.validLen = 0 ∨ slotOf curTime - slotOf ch.curTime < 2 ^ 32) :
    Tracks (advanceHead ch curTime) granted := by
  obtain ⟨hoffs, hreach⟩ := curTimeOffs_spec hle hclose
  have hvalid := h.validLen_le
  have hcell := fun j => refill_cell ch.availCredits h.head_lt
    (Nat.le_trans hoffs hvalid) h.maxCredits_lt (j := j)
  have hwindow := h.window.advance (advanceHead ch curTime).availCredits
    (fun s hs => h.beyond s (by omega))
    (fun j hj => (hcell j (by omega)).trans (if_pos hj))
    (fun j hlow hhigh => (hcell j hhigh).trans (if_neg (Nat.not_lt.2 hlow)))
  refine
    { head_lt := Nat.mod_lt _ nrCreditEntries_pos
      validLen_le := Nat.le_trans (Nat.sub_le _ _) hvalid
      maxCredits_pos := h.maxCredits_pos
      maxCredits_lt := h.maxCredits_lt
      commandCredits := h.commandCredits
      window := ?_
      beyond := ?_
      granted_le := h.granted_le }
  · rcases hreach with hreach | ⟨hall, hreach⟩
    · exact hreach ▸ hwindow
    · exact hwindow.jump (by rw [hall]; exact hreach) fun s hs => h.beyond s (by rwa [← hall])
  · intro s hs
    change slotOf curTime + (ch.validLen - curTimeOffs ch curTime) ≤ s at hs
    exact h.beyond s (by omega)

theorem next_ne_head {head j : Nat} (hhead : head < nrCreditEntries)
    (hj : j < nrCreditEntries) :
    ((head + j) % nrCreditEntries + 1) % nrCreditEntries ≠ head ↔ j + 1 < nrCreditEntries := by
  rw [Nat.mod_add_mod, Nat.add_assoc, add_mod_entries hhead hj]
  split <;> omega

theorem consumeLoop_spec {head cur cap fuel room j : Nat} {avail : Nat → Nat}
    (remaining delay : Nat) (hhead : head < nrCreditEntries)
    (hwindow : Window nrCreditEntries head cur cap avail granted)
    (hj : j + room = nrCreditEntries) (hroom : 0 < room) (hfuel : room ≤ fuel) :
    ∃ taken, consumeLoop head fuel avail ((head + j) % nrCreditEntries) remaining delay
        = .ok taken ∧
      taken.grants = serve cap granted room (cur + j) remaining ∧
      Window nrCreditEntries head cur cap taken.availCredits
        (book granted (cur + j) taken.grants) ∧
      taken.pos = (head + (j + taken.grants.length - 1)) % nrCreditEntries ∧
      taken.delay + 1 = delay + taken.grants.length := by
  induction fuel generalizing room j avail granted remaining delay with
  | zero => omega
  | succ fuel ih =>
      obtain ⟨room, rfl⟩ := Nat.exists_eq_succ_of_ne_zero (Nat.ne_of_gt hroom)
      have hcell : avail ((head + j) % nrCreditEntries) = cap - granted (cur + j) :=
        hwindow j (by omega)
      obtain ⟨consumed, hconsumed⟩ : ∃ consumed, consumed =
          if remaining ≤ avail ((head + j) % nrCreditEntries) then remaining
          else avail ((head + j) % nrCreditEntries) := ⟨_, rfl⟩
      have hmin : consumed = min remaining (cap - granted (cur + j)) := by
        rw [hconsumed, hcell, Nat.min_def]
      have hleft := hwindow.take (show j < nrCreditEntries by omega) consumed
      have hmore : ((head + j) % nrCreditEntries + 1) % nrCreditEntries ≠ head ↔ 0 < room := by
        rw [next_ne_head hhead (by omega)]
        omega
      rw [consumeLoop, serve, ← hconsumed, ← hmin]
      by_cases hgo : remaining - consumed ≠ 0 ∧ 0 < room
      · rw [if_pos ⟨hgo.1, hmore.2 hgo.2⟩, if_neg hgo.1]
        obtain ⟨rest, hrest, hgrants, hwindow', hpos, hdelay⟩ :=
          ih (remaining - consumed) (delay + 1) hleft
            (show j + 1 + room = nrCreditEntries by omega) hgo.2 (by omega)
        rw [← Nat.add_assoc] at hgrants hwindow'
        have hnext : ((head + j) % nrCreditEntries + 1) % nrCreditEntries =
            (head + (j + 1)) % nrCreditEntries := by
          rw [Nat.mod_add_mod, Nat.add_assoc]
        have hpositive : 0 < rest.grants.length := by
          rw [hgrants, List.length_pos_iff]
          exact serve_ne_nil hgo.2
        rw [hnext, hrest]
        refine ⟨{ rest with grants := consumed :: rest.grants }, rfl, ?_, ?_, ?_, ?_⟩
        · dsimp only
          rw [hgrants]
          congr 1
          exact serve_congr fun s hs => Function.update_of_ne (by omega) _ _
        · rw [book_cons]
          exact hwindow'
        · dsimp only
          rw [hpos, List.length_cons]
          congr 2
          omega
        · dsimp only
          rw [List.length_cons]
          omega
      · have hstop : ¬(remaining - consumed ≠ 0 ∧
            ((head + j) % nrCreditEntries + 1) % nrCreditEntries ≠ head) := by
          rwa [hmore]
        rw [if_neg hstop]
        refine ⟨_, rfl, ?_, ?_, rfl, rfl⟩
        · dsimp only
          by_cases hdone : remaining - consumed = 0
          · rw [if_pos hdone]
          · rw [if_neg hdone, show room = 0 by omega]
            rfl
        · rw [book_cons, book_nil]
          exact hleft

/-- `valid_length` counts the cells from the head to the last one used. -/
theorem validLength_eq {head k : Nat} (hhead : head < nrCreditEntries)
    (hk : k < nrCreditEntries) :
    (if head ≤ (head + k) % nrCreditEntries then (head + k) % nrCreditEntries - head + 1
      else nrCreditEntries - (head - (head + k) % nrCreditEntries - 1)) = k + 1 := by
  rw [add_mod_entries hhead (Nat.le_of_lt hk)]
  split <;> split <;> omega

theorem takeCredits_spec {cur cap offs : Nat} (requestTime length : Nat)
    (hhead : ch.head < nrCreditEntries) (hmax : 0 < ch.maxCredits)
    (hwindow : Window nrCreditEntries ch.head cur cap ch.availCredits granted)
    (hoffs : offs < nrCreditEntries) :
    ∃ reply, takeCredits ch requestTime offs length = .ok reply ∧
      reply.channel = { ch with
        availCredits := reply.channel.availCredits
        validLen := max ch.validLen (offs + reply.grants.length) } ∧
      reply.grants = serve cap granted (nrCreditEntries - offs) (cur + offs)
        ((unitsToXfer length * unitXferCredits + ch.commandCredits) % 2 ^ 32) ∧
      Window nrCreditEntries ch.head cur cap reply.channel.availCredits
        (book granted (cur + offs) reply.grants) ∧
      reply.time = (requestTime + reply.latency) % 2 ^ 64 ∧
      reply.latency < 2 ^ 32 + nrCreditEntries * unitTimeInterval := by
  obtain ⟨taken, htaken, hgrants, hafter, hpos, hdelay⟩ := consumeLoop_spec
    ((unitsToXfer length * unitXferCredits + ch.commandCredits) % 2 ^ 32) 0
    hhead hwindow (show offs + (nrCreditEntries - offs) = nrCreditEntries by omega)
    (by omega) (Nat.sub_le _ _)
  have hlength : taken.grants.length ≤ nrCreditEntries - offs := by
    rw [hgrants]
    exact serve_length_le
  have hvalid : (if ch.head ≤ taken.pos then taken.pos - ch.head + 1
      else nrCreditEntries - (ch.head - taken.pos - 1)) = offs + taken.grants.length := by
    rw [hpos, validLength_eq hhead (by omega)]
    omega
  have hlatency : ∀ units defaultDelay : Nat,
      ch.xferLat * units % 2 ^ 32 +
        (if defaultDelay < taken.delay then taken.delay - defaultDelay else 0) * unitTimeInterval
        < 2 ^ 32 + nrCreditEntries * unitTimeInterval := by
    intro units defaultDelay
    refine Nat.add_lt_add_of_lt_of_le (Nat.mod_lt _ (by decide)) (Nat.mul_le_mul_right _ ?_)
    split <;> omega
  rw [takeCredits, if_neg (Nat.ne_of_gt hmax), htaken, ok_bind, hvalid]
  refine ⟨_, rfl, ?_, hgrants, hafter, rfl, hlatency _ _⟩
  dsimp only
  rw [Nat.max_def]
  congr 1
  split <;> split <;> omega

theorem book_beyond {cur valid offs s : Nat} {grants : List Nat}
    (h : ∀ s, cur + valid ≤ s → granted s = 0)
    (hs : cur + max valid (offs + grants.length) ≤ s) :
    book granted (cur + offs) grants s = 0 := by
  have hvalid := Nat.le_max_left valid (offs + grants.length)
  have hgrants := Nat.le_max_right valid (offs + grants.length)
  rw [book_of_le (by omega)]
  exact h s (by omega)

theorem Tracks.take {offs : Nat} {cells : Nat → Nat} {grants : List Nat}
    (h : Tracks ch granted) (hoffs : offs + grants.length ≤ nrCreditEntries)
    (hwindow : Window nrCreditEntries ch.head (slotOf ch.curTime) ch.maxCredits cells
      (book granted (slotOf ch.curTime + offs) grants))
    (hle : ∀ s, book granted (slotOf ch.curTime + offs) grants s ≤ ch.maxCredits) :
    Tracks { ch with
        availCredits := cells
        validLen := max ch.validLen (offs + grants.length) }
      (book granted (slotOf ch.curTime + offs) grants) where
  head_lt := h.head_lt
  validLen_le := Nat.max_le.2 ⟨h.validLen_le, hoffs⟩
  maxCredits_pos := h.maxCredits_pos
  maxCredits_lt := h.maxCredits_lt
  commandCredits := h.commandCredits
  window := hwindow
  beyond := fun _ hs => book_beyond h.beyond hs
  granted_le := hle

/-- How a request changes the clock of the channel and the time it returns. -/
structure Answered (ch : Channel) (curTime requestTime : Nat) (reply : ChannelReply) : Prop where
  curTime_eq : reply.channel.curTime = curTime
  maxCredits_eq : reply.channel.maxCredits = ch.maxCredits
  time_eq : reply.time = (requestTime + reply.latency) % 2 ^ 64
  latency_lt : reply.latency < 2 ^ 32 + nrCreditEntries * unitTimeInterval

theorem chmodelRequest_spec (length : Nat) {requestTime : Nat} (h : Tracks ch granted)
    (hle : ch.curTime ≤ curTime)
    (hclose : ch.validLen = 0 ∨ slotOf curTime - slotOf ch.curTime < 2 ^ 32)
    (hahead : slotOf requestTime - slotOf curTime < 2 ^ 32) (hfits : requestTime < 2 ^ 64) :
    ∃ reply, chmodelRequest ch curTime requestTime length = .ok reply ∧
      Tracks reply.channel (book granted (slotOf requestTime) reply.grants) ∧
      Answered ch curTime requestTime reply := by
  have hhead := advanceHead_tracks h hle hclose
  have hreturn : ∃ reply, (Except.ok
      { channel := advanceHead ch curTime, time := requestTime, latency := 0, grants := [] } :
        Except Fault ChannelReply) = .ok reply ∧
      Tracks reply.channel (book granted (slotOf requestTime) reply.grants) ∧
      Answered ch curTime requestTime reply := by
    refine ⟨_, rfl, ?_, rfl, rfl, ?_, ?_⟩
    · rw [book_nil]
      exact hhead
    · exact (Nat.mod_eq_of_lt hfits).symm
    · exact Nat.add_pos_left (Nat.two_pow_pos 32) _
  rw [chmodelRequest, nvmevAssert_of hhead.validLen_le, ok_bind]
  split
  · exact hreturn
  case isFalse hlate =>
    rw [slotOffs_of_le (Nat.not_lt.1 hlate) hahead]
    dsimp only
    split
    · exact hreturn
    case isFalse hnear =>
      obtain ⟨offs, hoffs⟩ : ∃ offs, slotOf requestTime = slotOf curTime + offs :=
        Nat.exists_eq_add_of_le (Nat.div_le_div_right (Nat.not_lt.1 hlate))
      rw [hoffs, Nat.add_sub_cancel_left] at hnear ⊢
      obtain ⟨reply, hreply, hchannel, hgrants, hwindow, htime, hlatency⟩ :=
        takeCredits_spec requestTime length hhead.head_lt
          hhead.maxCredits_pos hhead.window (Nat.not_le.1 hnear)
      have hlength : offs + reply.grants.length ≤ nrCreditEntries := by
        have := hgrants ▸ serve_length_le
        omega
      have hcredits : ∀ s, book granted (slotOf curTime + offs) reply.grants s
          ≤ (advanceHead ch curTime).maxCredits := by
        intro s
        rw [hgrants]
        exact book_serve_le hhead.granted_le
      refine ⟨reply, hreply, ?_, ?_, ?_, htime, hlatency⟩
      · rw [hchannel]
        exact hhead.take hlength hwindow hcredits
      · rw [hchannel]
        rfl
      · rw [hchannel]
        rfl

/-- What every request needs, whatever the credits and the clock are. -/
structure Ready (ch : Channel) : Prop where
  head_lt : ch.head < nrCreditEntries
  validLen_le : ch.validLen ≤ nrCreditEntries
  maxCredits_pos : 0 < ch.maxCredits

theorem advanceHead_ready (h : Ready ch) (curTime : Nat) : Ready (advanceHead ch curTime) where
  head_lt := Nat.mod_lt _ nrCreditEntries_pos
  validLen_le := Nat.le_trans (Nat.sub_le _ _) h.validLen_le
  maxCredits_pos := h.maxCredits_pos

/-- A request of a working channel is answered, and without overflow not
before the time asked for. -/
theorem chmodelRequest_ready (h : Ready ch) (curTime requestTime length : Nat) :
    ∃ reply, chmodelRequest ch curTime requestTime length = .ok reply ∧ Ready reply.channel ∧
      (requestTime + reply.latency < 2 ^ 64 → requestTime ≤ reply.time) := by
  have hhead := advanceHead_ready h curTime
  rw [chmodelRequest, nvmevAssert_of hhead.validLen_le, ok_bind]
  dsimp only
  split
  · exact ⟨_, rfl, hhead, fun _ => Nat.le_refl _⟩
  · split
    · exact ⟨_, rfl, hhead, fun _ => Nat.le_refl _⟩
    case isFalse hnear =>
      obtain ⟨cap, granted, hwindow⟩ := exists_window nrCreditEntries_pos
        (advanceHead ch curTime).head 0 (advanceHead ch curTime).availCredits
      obtain ⟨reply, hreply, hchannel, hgrants, _, htime, _⟩ :=
        takeCredits_spec requestTime length hhead.head_lt
          hhead.maxCredits_pos hwindow (Nat.not_le.1 hnear)
      have hlength := hgrants ▸ serve_length_le
      refine ⟨reply, hreply, ?_, fun hfits => ?_⟩
      · rw [hchannel]
        exact
          { head_lt := hhead.head_lt
            validLen_le := Nat.max_le.2 ⟨hhead.validLen_le, by omega⟩
            maxCredits_pos := hhead.maxCredits_pos }
      · rw [htime, Nat.mod_eq_of_lt hfits]
        exact Nat.le_add_right _ _

end Ring

section Runs

/-- A call of `chmodel_request` and the clock it reads. -/
structure Request where
  clock : Nat
  requestTime : Nat
  length : Nat

/-- Successive readings of the clock do not decrease, and neither they nor the
times asked for are 2^32 slots apart. -/
structure Paced (requests : List Request) : Prop where
  clocks : requests.IsChain fun r r' =>
    r.clock ≤ r'.clock ∧ slotOf r'.clock - slotOf r.clock < 2 ^ 32
  ahead : ∀ r ∈ requests, slotOf r.requestTime - slotOf r.clock < 2 ^ 32
  words : ∀ r ∈ requests, r.clock < 2 ^ 64 ∧ r.requestTime < 2 ^ 64 ∧ r.length < 2 ^ 64

/-- A channel and the requests it served, with what each got. -/
structure Served where
  channel : Channel
  served : List (Request × ChannelReply)

def serveRequest (s : Served) (r : Request) : Except Fault Served := do
  let reply ← chmodelRequest s.channel r.clock r.requestTime r.length
  return { channel := reply.channel, served := s.served ++ [(r, reply)] }

def serveAll (ch : Channel) (requests : List Request) : Except Fault Served :=
  requests.foldlM serveRequest { channel := ch, served := [] }

/-- The credits granted in each slot by all these requests. -/
def grantedBy (served : List (Request × ChannelReply)) : Nat → Nat :=
  served.foldl (fun granted p => book granted (slotOf p.1.requestTime) p.2.grants) fun _ => 0

theorem grantedBy_concat (served : List (Request × ChannelReply)) (r : Request)
    (reply : ChannelReply) :
    grantedBy (served ++ [(r, reply)]) =
      book (grantedBy served) (slotOf r.requestTime) reply.grants := by
  rw [grantedBy, List.foldl_append]
  rfl

/-- The time returned for a request, and when the 64-bit sum behind it wraps. -/
def InTime (p : Request × ChannelReply) : Prop :=
  p.2.latency < 2 ^ 32 + nrCreditEntries * unitTimeInterval ∧
    p.2.time = (p.1.requestTime + p.2.latency) % 2 ^ 64 ∧
    (p.1.requestTime ≤ p.2.time ↔ p.1.requestTime + p.2.latency < 2 ^ 64)

theorem Answered.inTime {ch : Channel} {r : Request} {reply : ChannelReply}
    (h : Answered ch r.clock r.requestTime reply) (hfits : r.requestTime < 2 ^ 64) :
    InTime (r, reply) := by
  obtain ⟨_, _, htime, hlatency⟩ := h
  have hsmall : 2 ^ 32 + nrCreditEntries * unitTimeInterval < 2 ^ 64 := by decide
  refine ⟨hlatency, htime, ?_⟩
  dsimp only at htime ⊢
  rw [htime]
  generalize 2 ^ 32 + nrCreditEntries * unitTimeInterval = bound at *
  constructor <;> intro hle <;> omega

structure Tracked (maxCredits : Nat) (s : Served) : Prop where
  tracks : Tracks s.channel (grantedBy s.served)
  maxCredits_eq : s.channel.maxCredits = maxCredits
  inTime : ∀ p ∈ s.served, InTime p

variable {maxCredits : Nat} {s : Served} {r : Request} {requests : List Request}

theorem serveRequest_tracked (h : Tracked maxCredits s) (hle : s.channel.curTime ≤ r.clock)
    (hclose : s.channel.validLen = 0 ∨ slotOf r.clock - slotOf s.channel.curTime < 2 ^ 32)
    (hahead : slotOf r.requestTime - slotOf r.clock < 2 ^ 32)
    (hfits : r.requestTime < 2 ^ 64) :
    ∃ s', serveRequest s r = .ok s' ∧ Tracked maxCredits s' ∧ s'.channel.curTime = r.clock ∧
      s'.served.map Prod.fst = s.served.map Prod.fst ++ [r] := by
  obtain ⟨reply, hreply, htracks, hanswered⟩ :=
    chmodelRequest_spec r.length h.tracks hle hclose hahead hfits
  rw [serveRequest, hreply, ok_bind]
  refine ⟨_, rfl, ⟨?_, ?_, ?_⟩, hanswered.curTime_eq, ?_⟩
  · rw [grantedBy_concat]
    exact htracks
  · exact hanswered.maxCredits_eq.trans h.maxCredits_eq
  · intro p hp
    rcases List.mem_append.1 hp with hp | hp
    · exact h.inTime p hp
    · obtain rfl := List.mem_singleton.1 hp
      exact hanswered.inTime hfits
  · rw [List.map_append]
    rfl

theorem foldlM_tracked (h : Tracked maxCredits s) (hpaced : Paced requests)
    (hfirst : ∀ r ∈ requests.head?, s.channel.curTime ≤ r.clock ∧
      (s.channel.validLen = 0 ∨ slotOf r.clock - slotOf s.channel.curTime < 2 ^ 32)) :
    ∃ s', requests.foldlM serveRequest s = .ok s' ∧ Tracked maxCredits s' ∧
      (∀ r ∈ requests.getLast?, s'.channel.curTime = r.clock) ∧
      s'.served.map Prod.fst = s.served.map Prod.fst ++ requests := by
  induction requests generalizing s with
  | nil => exact ⟨s, rfl, h, by simp, by simp⟩
  | cons r rest ih =>
      obtain ⟨hle, hclose⟩ := hfirst r rfl
      obtain ⟨next, hnext, htracked, hclock, hserved⟩ := serveRequest_tracked h hle hclose
        (hpaced.ahead r List.mem_cons_self) (hpaced.words r List.mem_cons_self).2.1
      have hrest : Paced rest :=
        { clocks := hpaced.clocks.tail
          ahead := fun r' hr' => hpaced.ahead r' (List.mem_cons_of_mem r hr')
          words := fun r' hr' => hpaced.words r' (List.mem_cons_of_mem r hr') }
      have hsecond : ∀ r' ∈ rest.head?, next.channel.curTime ≤ r'.clock ∧
          (next.channel.validLen = 0 ∨
            slotOf r'.clock - slotOf next.channel.curTime < 2 ^ 32) := by
        intro r' hr'
        have hpair := List.IsChain.rel_head? hpaced.clocks hr'
        rw [hclock]
        exact ⟨hpair.1, .inr hpair.2⟩
      obtain ⟨s', hs', htracked', hlast, hserved'⟩ := ih htracked hrest hsecond
      rw [List.foldlM_cons, hnext, ok_bind]
      refine ⟨s', hs', htracked', ?_, ?_⟩
      · cases rest with
        | nil =>
            obtain rfl : next = s' := Except.ok.inj hs'
            intro r' hr'
            obtain rfl := Option.some.inj hr'
            exact hclock
        | cons r' rest =>
            rw [List.getLast?_cons_cons]
            exact hlast
      · rw [hserved', hserved, List.append_assoc]
        rfl

theorem chmodelInit_tracked {bandwidth : Nat} {ch : Channel}
    (hinit : chmodelInit bandwidth = .ok ch) (hlow : 1 ≤ ch.maxCredits)
    (hhigh : ch.maxCredits ≤ 255) :
    ch.validLen = 0 ∧ ch.curTime = 0 ∧
      Tracked ch.maxCredits { channel := ch, served := [] } := by
  rw [chmodelInit] at hinit
  split at hinit
  · cases hinit
  · generalize bandwidthToMaxCredits bandwidth % 2 ^ 32 = maxCredits at hinit
    obtain rfl := Except.ok.inj hinit
    dsimp only at hlow hhigh ⊢
    have hfull : ∀ j, j < nrCreditEntries →
        memset (fun _ => 0) 0 maxCredits nrCreditEntries ((0 + j) % nrCreditEntries) =
          maxCredits - 0 := by
      intro j hj
      rw [Nat.zero_add, Nat.mod_eq_of_lt hj,
        memset_of_mem (Nat.lt_succ_of_le hhigh) (Nat.zero_le j) (by omega), Nat.sub_zero]
    refine ⟨rfl, rfl, ?_, rfl, fun p hp => absurd hp List.not_mem_nil⟩
    exact
      { head_lt := nrCreditEntries_pos
        validLen_le := Nat.zero_le _
        maxCredits_pos := hlow
        maxCredits_lt := Nat.lt_succ_of_le hhigh
        commandCredits := rfl
        window := hfull
        beyond := fun _ _ => rfl
        granted_le := fun _ => Nat.zero_le _ }

/-- After every sequence of requests the ring shows, for each slot of its
window, what is left of the credits granted there, and the times returned are
off by the latencies only. -/
theorem serveAll_refines_timeline {bandwidth : Nat} {ch : Channel}
    (hinit : chmodelInit bandwidth = .ok ch) (hlow : 1 ≤ ch.maxCredits)
    (hhigh : ch.maxCredits ≤ 255) (hpaced : Paced requests) :
    ∃ s, serveAll ch requests = .ok s ∧ s.served.map Prod.fst = requests ∧
      (∀ r ∈ requests.getLast?, s.channel.curTime = r.clock) ∧
      (∀ slot, slotOf s.channel.curTime ≤ slot →
        slot < slotOf s.channel.curTime + nrCreditEntries →
        s.channel.availCredits
            ((s.channel.head + slot - slotOf s.channel.curTime) % nrCreditEntries) =
          ch.maxCredits - grantedBy s.served slot) ∧
      (∀ slot, grantedBy s.served slot ≤ ch.maxCredits) ∧
      (∀ slot, slotOf s.channel.curTime + s.channel.validLen ≤ slot →
        grantedBy s.served slot = 0) ∧
      s.channel.validLen ≤ nrCreditEntries ∧
      (∀ p ∈ s.served, InTime p) := by
  obtain ⟨hvalid, hclock, htracked⟩ := chmodelInit_tracked hinit hlow hhigh
  obtain ⟨s, hs, htracked', hlast, hserved⟩ := foldlM_tracked htracked hpaced
    fun r _ => ⟨hclock ▸ Nat.zero_le _, .inl hvalid⟩
  have htracks := htracked'.tracks
  refine ⟨s, hs, hserved, hlast, ?_, ?_, htracks.beyond, htracks.validLen_le,
    htracked'.inTime⟩
  · intro slot hlow' hhigh'
    obtain ⟨j, rfl⟩ := Nat.exists_eq_add_of_le hlow'
    rw [Nat.add_sub_assoc (Nat.le_add_right _ j), Nat.add_sub_cancel_left,
      htracks.window j (by omega), htracked'.maxCredits_eq]
  · intro slot
    rw [← htracked'.maxCredits_eq]
    exact htracks.granted_le slot

theorem serveAll_refines_timeline_two : ∃ ch s, chmodelInit 800 = .ok ch ∧
    serveAll ch [⟨1000, 5000, 4096⟩, ⟨9000, 9000, 8192⟩] = .ok s ∧
    ∀ slot, 2 ≤ slot → slot < 2 + nrCreditEntries →
      s.channel.availCredits ((s.channel.head + slot - 2) % nrCreditEntries) =
        ch.maxCredits - grantedBy s.served slot := by
  obtain ⟨ch, hch, hcredits⟩ := exists_of_returns (x := chmodelInit 800)
    (p := fun ch => decide (1 ≤ ch.maxCredits) && decide (ch.maxCredits ≤ 255))
    (by decide +kernel)
  simp only [Bool.and_eq_true, decide_eq_true_eq] at hcredits
  have hpaced : Paced [⟨1000, 5000, 4096⟩, ⟨9000, 9000, 8192⟩] :=
    { clocks := .cons_cons (by decide) (.singleton _)
      ahead := by decide
      words := by decide }
  obtain ⟨s, hs, _, hlast, hcells, _⟩ :=
    serveAll_refines_timeline hch hcredits.1 hcredits.2 hpaced
  have hnow : slotOf s.channel.curTime = 2 := by
    rw [hlast _ rfl]
    rfl
  rw [hnow] at hcells
  exact ⟨ch, s, hch, hs, hcells⟩

def lateRequest : Request :=
  { clock := 2 ^ 64 - 100, requestTime := 2 ^ 64 - 50, length := 4096 }

theorem lateRequest_paced : Paced [lateRequest] where
  clocks := .singleton _
  ahead := by
    intro r hr
    obtain rfl := List.mem_singleton.1 hr
    decide
  words := by
    intro r hr
    obtain rfl := List.mem_singleton.1 hr
    decide

theorem returned_time_wraps : ∃ ch s, chmodelInit 800 = .ok ch ∧ 1 ≤ ch.maxCredits ∧
    ch.maxCredits ≤ 255 ∧ Paced [lateRequest] ∧ serveAll ch [lateRequest] = .ok s ∧
    ∃ p ∈ s.served, p.2.time < p.1.requestTime := by
  have hrun : returns (chmodelInit 800) (fun ch => decide (1 ≤ ch.maxCredits) &&
      decide (ch.maxCredits ≤ 255) && returns (serveAll ch [lateRequest]) fun s =>
        s.served.any fun p => decide (p.2.time < p.1.requestTime)) = true := by
    decide +kernel
  obtain ⟨ch, hch, hrun⟩ := exists_of_returns hrun
  simp only [Bool.and_eq_true, decide_eq_true_eq] at hrun
  obtain ⟨⟨hlow, hhigh⟩, hserve⟩ := hrun
  obtain ⟨s, hs, hany⟩ := exists_of_returns hserve
  obtain ⟨p, hp, hlate⟩ := List.any_eq_true.1 hany
  exact ⟨ch, s, hch, hlow, hhigh, lateRequest_paced, hs, p, hp, of_decide_eq_true hlate⟩

end Runs

end NvmeVirt.ChannelModel
