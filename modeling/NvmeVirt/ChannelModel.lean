import NvmeVirt.CreditTimeline
import NvmeVirt.WriteBuffer

/-!
The bandwidth model of `channel_model.c`: time is cut into slots of
`UNIT_TIME_INTERVAL` nanoseconds, each with `max_credits` credits, and a ring of
`NR_CREDIT_ENTRIES` cells keeps the credits left in the slots from the current
one on. The head moves lazily, when a request reads the clock.
-/

namespace NvmeVirt.ChannelModel

open NvmeVirt.CreditTimeline NvmeVirt.FaultOutcome NvmeVirt.WriteBuffer

def nrCreditEntries : Nat := 1024 * 96

def unitTimeInterval : Nat := 4000

def unitXferSize : Nat := 128

def unitXferCredits : Nat := 1

/-- `struct channel_model`; the credits are bytes. -/
structure Channel where
  curTime : Nat
  head : Nat
  validLen : Nat
  maxCredits : Nat
  commandCredits : Nat
  xferLat : Nat
  availCredits : Nat → Nat

/-- `MEMSET` of `length` one-byte credits from `start` on. -/
def memset (cells : Nat → Nat) (start value length : Nat) : Nat → Nat :=
  fun i => if start ≤ i ∧ i < start + length then value % 2 ^ 8 else cells i

/-- `BANDWIDTH_TO_MAX_CREDITS`, in 64 bits. -/
def bandwidthToMaxCredits (bandwidth : Nat) : Nat :=
  bandwidth * 2 ^ 20 % 2 ^ 64 * unitTimeInterval % 2 ^ 64 / 1000000000 / unitXferSize
    * unitXferCredits

/-- `BANDWIDTH_TO_TX_TIME`, in 64 bits. -/
def bandwidthToTxTime (bandwidth : Nat) : Nat :=
  unitXferSize * 1000000000 / (bandwidth * 2 ^ 20 % 2 ^ 64)

/-- `chmodel_init`. -/
def chmodelInit (bandwidth : Nat) : Except Fault Channel :=
  if bandwidth * 2 ^ 20 % 2 ^ 64 = 0 then .error (.divideByZero .chmodelInit)
  else
    let maxCredits := bandwidthToMaxCredits bandwidth % 2 ^ 32
    .ok
      { curTime := 0
        head := 0
        validLen := 0
        maxCredits := maxCredits
        commandCredits := 0
        xferLat := bandwidthToTxTime bandwidth % 2 ^ 32
        availCredits := memset (fun _ => 0) 0 maxCredits nrCreditEntries }

def slotOf (time : Nat) : Nat := time / unitTimeInterval

/-- The slots from `past` to `time`, as the 32-bit difference of the source. -/
def slotOffs (time past : Nat) : Nat := (slotOf time + 2 ^ 64 - slotOf past) % 2 ^ 32

/-- `cur_time_offs`: the slots since the last request, or all of the valid
part when more have gone by. -/
def curTimeOffs (ch : Channel) (curTime : Nat) : Nat :=
  let offs := slotOffs curTime ch.curTime
  if offs < ch.validLen then offs else ch.validLen

/-- The `offs` cells from the head on are filled up, in one or two pieces. -/
def refill (cells : Nat → Nat) (head maxCredits offs : Nat) : Nat → Nat :=
  if nrCreditEntries ≤ head + offs then
    memset (memset cells head maxCredits (nrCreditEntries - head))
      0 maxCredits (offs - (nrCreditEntries - head))
  else memset cells head maxCredits offs

/-- The first part of `chmodel_request`: the head moves to the slot of the
clock. -/
def advanceHead (ch : Channel) (curTime : Nat) : Channel :=
  let offs := curTimeOffs ch curTime
  { ch with
    availCredits := refill ch.availCredits ch.head ch.maxCredits offs
    head := (ch.head + offs) % nrCreditEntries
    curTime := curTime
    validLen := ch.validLen - offs }

/-- What the loop of `chmodel_request` leaves; `grants` lists the
`consumed_credits` of its rounds. -/
structure Consumed where
  availCredits : Nat → Nat
  pos : Nat
  delay : Nat
  grants : List Nat

/-- The loop of `chmodel_request`. It ends at the cell before the head, so as
many rounds as there are cells are enough. -/
def consumeLoop (head : Nat) : Nat → (Nat → Nat) → Nat → Nat → Nat → Except Fault Consumed
  | 0, _, _, _, _ => .error (.endlessLoop .chmodelRequest)
  | fuel + 1, avail, pos, remaining, delay =>
      let consumed := if remaining ≤ avail pos then remaining else avail pos
      let left := Function.update avail pos (avail pos - consumed)
      let nextPos := (pos + 1) % nrCreditEntries
      if remaining - consumed ≠ 0 ∧ nextPos ≠ head then do
        let rest ← consumeLoop head fuel left nextPos (remaining - consumed) (delay + 1)
        return { rest with grants := consumed :: rest.grants }
      else
        -- enough credits, or the ring is full
        .ok { availCredits := left, pos := pos, delay := delay, grants := [consumed] }

/-- What `chmodel_request` returns and leaves; `latency` is the delay it adds
to the time asked for. -/
structure ChannelReply where
  channel : Channel
  time : Nat
  latency : Nat
  grants : List Nat

/-- `DIV_ROUND_UP(length, UNIT_XFER_SIZE)`, stored in 32 bits. -/
def unitsToXfer (length : Nat) : Nat :=
  (length + unitXferSize - 1) % 2 ^ 64 / unitXferSize % 2 ^ 32

/-- The second part of `chmodel_request`: credits are taken from the slot of
the request on. -/
def takeCredits (ch : Channel) (requestTime requestTimeOffs length : Nat) :
    Except Fault ChannelReply := do
  let units := unitsToXfer length
  let pos := (ch.head + requestTimeOffs) % nrCreditEntries
  let remainingCredits := (units * unitXferCredits + ch.commandCredits) % 2 ^ 32
  if ch.maxCredits = 0 then .error (.divideByZero .chmodelRequest) else do
  let defaultDelay := remainingCredits / ch.maxCredits
  let taken ← consumeLoop ch.head nrCreditEntries ch.availCredits pos remainingCredits 0
  let validLength :=
    if ch.head ≤ taken.pos then taken.pos - ch.head + 1
    else nrCreditEntries - (ch.head - taken.pos - 1)
  let delay := if defaultDelay < taken.delay then taken.delay - defaultDelay else 0
  let totalLatency := ch.xferLat * units % 2 ^ 32 + delay * unitTimeInterval
  return {
    channel := { ch with
      availCredits := taken.availCredits
      validLen := if ch.validLen < validLength then validLength else ch.validLen }
    time := (requestTime + totalLatency) % 2 ^ 64
    latency := totalLatency
    grants := taken.grants }

/-- `chmodel_request` when the clock reads `curTime`. -/
def chmodelRequest (ch : Channel) (curTime requestTime length : Nat) :
    Except Fault ChannelReply := do
  let ch := advanceHead ch curTime
  nvmevAssert (ch.validLen ≤ nrCreditEntries) .chmodelRequest
  if requestTime < curTime then
    return { channel := ch, time := requestTime, latency := 0, grants := [] }
  else
    let requestTimeOffs := slotOffs requestTime curTime
    if nrCreditEntries ≤ requestTimeOffs then
      return { channel := ch, time := requestTime, latency := 0, grants := [] }
    else takeCredits ch requestTime requestTimeOffs length

end NvmeVirt.ChannelModel
