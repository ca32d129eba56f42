import NvmeVirt.BusyTimes
import NvmeVirt.PhaseRing
import NvmeVirt.WriteBuffer
import Mathlib.Algebra.Order.Ring.Nat
import Mathlib.Logic.Function.Basic
import Mathlib.Logic.Relation

/-!
The I/O units of `simple_ftl.c` and `kv_ftl.c`: a command keeps the units it
covers busy one after the other, and a flush waits for the busiest unit.
-/

namespace NvmeVirt.IoUnits

open NvmeVirt.BusyTimes NvmeVirt.FaultOutcome NvmeVirt.PhaseRing NvmeVirt.WriteBuffer

/-- The part of `struct nvmev_config` that the units depend on. -/
structure IoUnitConfig where
  nrIoUnits : Nat
  ioUnitShift : Nat
  writeDelay : Nat
  writeTime : Nat
  writeTrailing : Nat
  readDelay : Nat
  readTime : Nat
  readTrailing : Nat

inductive IoOpcode where
  | write
  | read
  | kvStore
  | kvRetrieve
  | kvBatch
  | other
deriving DecidableEq, Repr

/-- The two files with a `__schedule_io_units`, which tell opcodes apart
differently. -/
inductive UnitFtl where
  | simple
  | kv
deriving DecidableEq, Repr

structure Delays where
  delay : Nat
  latency : Nat
  trailing : Nat

def IoUnitConfig.writeDelays (cfg : IoUnitConfig) : Delays :=
  ⟨cfg.writeDelay, cfg.writeTime, cfg.writeTrailing⟩

def IoUnitConfig.readDelays (cfg : IoUnitConfig) : Delays :=
  ⟨cfg.readDelay, cfg.readTime, cfg.readTrailing⟩

/-- The branches at the start of `__schedule_io_units`. -/
def delaysOf (cfg : IoUnitConfig) : UnitFtl → IoOpcode → Delays
  | .simple, .write => cfg.writeDelays
  | .simple, .read => cfg.readDelays
  | .simple, _ => ⟨0, 0, 0⟩
  | .kv, .write => cfg.writeDelays
  | .kv, .kvStore => cfg.writeDelays
  | .kv, .kvBatch => cfg.writeDelays
  | .kv, .read => cfg.readDelays
  | .kv, .kvRetrieve => cfg.readDelays
  | .kv, .other => ⟨0, 0, 0⟩

/-- `io_unit_size`; shift counts are cut to the width of what is shifted, as
the processor does. -/
def ioUnitSize (cfg : IoUnitConfig) : Nat := 2 ^ (cfg.ioUnitShift % 32)

def firstUnit (cfg : IoUnitConfig) (lba : Nat) : Nat :=
  lba / 2 ^ ((cfg.ioUnitShift - 9) % 64) % cfg.nrIoUnits

def trailingRounds (cfg : IoUnitConfig) (length : Nat) : Nat :=
  min cfg.nrIoUnits ((length + ioUnitSize cfg - 1) % 2 ^ 32 / ioUnitSize cfg)

/-- The loop of `__schedule_io_units`; a round takes `io_unit_size` bytes off
`length`. It returns the last `latest`. -/
def scheduleLoop (cfg : IoUnitConfig) (d : Delays) :
    Nat → (Nat → Nat) → Nat → Nat → Nat → Nat → Except Fault (Nat × (Nat → Nat))
  | 0, _, _, _, _, _ => .error (.endlessLoop .scheduleIoUnits)
  | fuel + 1, stat, latest, ioUnit, nrIoUnits, length =>
      let latest := (latest + d.latency) % 2 ^ 64
      let stat := Function.update stat ioUnit
        (if 0 < nrIoUnits then (latest + d.trailing) % 2 ^ 64 else latest)
      let length := length - min length (ioUnitSize cfg)
      let ioUnit := if cfg.nrIoUnits ≤ ioUnit + 1 then 0 else ioUnit + 1
      if 0 < length then scheduleLoop cfg d fuel stat latest ioUnit (nrIoUnits - 1) length
      else .ok (latest, stat)

/-- What `simple_proc_nvme_io_cmd` and `kv_proc_nvme_io_cmd` pass to
`__schedule_io_units`: the length is in bytes and the start time is the clock. -/
structure UnitCall where
  opcode : IoOpcode
  lba : Nat
  length : Nat
  nsecsStart : Nat

/-- `__schedule_io_units`: the time to complete, and the busy times left. -/
def scheduleIoUnits (cfg : IoUnitConfig) (ftl : UnitFtl) (stat : Nat → Nat) (call : UnitCall) :
    Except Fault (Nat × (Nat → Nat)) :=
  if cfg.nrIoUnits = 0 then .error (.divideByZero .scheduleIoUnits)
  else
    let d := delaysOf cfg ftl call.opcode
    let ioUnit := firstUnit cfg call.lba
    scheduleLoop cfg d (call.length + 1) stat
      ((max call.nsecsStart (stat ioUnit) + d.delay) % 2 ^ 64) ioUnit
      (trailingRounds cfg call.length) call.length

/-- `__schedule_flush`. -/
def scheduleFlush (cfg : IoUnitConfig) (stat : Nat → Nat) : Nat :=
  (List.range cfg.nrIoUnits).foldl (fun latest i => max latest (stat i)) 0

def rounds (cfg : IoUnitConfig) (length : Nat) : Nat := (length - 1) / ioUnitSize cfg + 1

section Loop

variable {cfg : IoUnitConfig} {d : Delays}

theorem ioUnitSize_pos (cfg : IoUnitConfig) : 0 < ioUnitSize cfg := Nat.two_pow_pos _

theorem rounds_of_le {length : Nat} (h : length ≤ ioUnitSize cfg) : rounds cfg length = 1 := by
  have hpos := ioUnitSize_pos cfg
  rw [rounds, Nat.div_eq_of_lt (by omega)]

theorem rounds_of_gt {length : Nat} (h : ioUnitSize cfg < length) :
    rounds cfg length = rounds cfg (length - ioUnitSize cfg) + 1 := by
  have hsub : length - 1 = length - ioUnitSize cfg - 1 + ioUnitSize cfg := by omega
  rw [rounds, rounds, hsub, Nat.add_div_right _ (ioUnitSize_pos cfg)]

theorem nextUnit_eq {n i : Nat} (hi : i < n) : (if n ≤ i + 1 then 0 else i + 1) = (i + 1) % n := by
  split
  · rw [show i + 1 = n by omega, Nat.mod_self]
  · rw [Nat.mod_eq_of_lt (by omega)]

/-- The value that round `k` writes, without overflow. -/
def written (d : Delays) (latest nrIoUnits k : Nat) : Nat :=
  latest + (k + 1) * d.latency + if k < nrIoUnits then d.trailing else 0

theorem scheduleLoop_spec {fuel : Nat} {stat : Nat → Nat} {latest ioUnit nrIoUnits length : Nat}
    (hunit : ioUnit < cfg.nrIoUnits) (hfuel : length < fuel)
    (hfits : latest + rounds cfg length * d.latency + d.trailing < 2 ^ 64) :
    ∃ stat', scheduleLoop cfg d fuel stat latest ioUnit nrIoUnits length =
        .ok (latest + rounds cfg length * d.latency, stat') ∧
      (∀ k, k < rounds cfg length → rounds cfg length ≤ k + cfg.nrIoUnits →
        stat' ((ioUnit + k) % cfg.nrIoUnits) = written d latest nrIoUnits k) ∧
      (∀ u, (∀ k, k < rounds cfg length → u ≠ (ioUnit + k) % cfg.nrIoUnits) →
        stat' u = stat u) := by
  induction fuel generalizing stat latest ioUnit nrIoUnits length with
  | zero => omega
  | succ fuel ih =>
      obtain ⟨latest', hlatest'⟩ : ∃ latest', latest' = latest + d.latency := ⟨_, rfl⟩
      obtain ⟨stat₁, hstat₁⟩ : ∃ stat₁, stat₁ =
          Function.update stat ioUnit (written d latest nrIoUnits 0) := ⟨_, rfl⟩
      have hround : (latest + d.latency) % 2 ^ 64 = latest' := by
        have hmul : d.latency ≤ rounds cfg length * d.latency :=
          Nat.le_mul_of_pos_left _ (Nat.succ_pos _)
        rw [hlatest']
        exact Nat.mod_eq_of_lt (by omega)
      have hvalue : (if 0 < nrIoUnits then (latest' + d.trailing) % 2 ^ 64 else latest') =
          written d latest nrIoUnits 0 := by
        have hmul : d.latency ≤ rounds cfg length * d.latency :=
          Nat.le_mul_of_pos_left _ (Nat.succ_pos _)
        rw [written, Nat.zero_add, Nat.one_mul, ← hlatest']
        split
        · exact Nat.mod_eq_of_lt (by omega)
        · rfl
      rw [scheduleLoop]
      rw [hround, hvalue, ← hstat₁]
      by_cases hlast : length ≤ ioUnitSize cfg
      · rw [Nat.min_eq_left hlast, Nat.sub_self, if_neg (Nat.lt_irrefl 0), rounds_of_le hlast,
          Nat.one_mul, ← hlatest']
        refine ⟨stat₁, rfl, ?_, ?_⟩
        · intro k hk _
          obtain rfl : k = 0 := by omega
          rw [hstat₁, Nat.add_zero, Nat.mod_eq_of_lt hunit, Function.update_self]
        · intro u hu
          have hne := hu 0 Nat.zero_lt_one
          rw [Nat.add_zero, Nat.mod_eq_of_lt hunit] at hne
          rw [hstat₁, Function.update_of_ne hne]
      · have hmore : ioUnitSize cfg < length := Nat.not_le.1 hlast
        have hpos := ioUnitSize_pos cfg
        have hrounds := rounds_of_gt hmore
        have hsum : latest' + rounds cfg (length - ioUnitSize cfg) * d.latency =
            latest + rounds cfg length * d.latency := by
          rw [hrounds, Nat.add_mul, Nat.one_mul, hlatest']
          omega
        have hnext := nextUnit_eq hunit
        obtain ⟨stat', hloop, hcovered, hothers⟩ := @ih stat₁ latest'
          ((ioUnit + 1) % cfg.nrIoUnits) (nrIoUnits - 1) (length - ioUnitSize cfg)
          (Nat.mod_lt _ (by omega)) (by omega) (by omega)
        rw [Nat.min_eq_right (Nat.le_of_lt hmore), if_pos (by omega), hnext, hloop, hsum]
        refine ⟨stat', rfl, ?_, ?_⟩
        · intro k hk hlastRound
          cases k with
          | zero =>
              -- no later round comes back to the first unit
              have hlater : ∀ k, k < rounds cfg (length - ioUnitSize cfg) →
                  ioUnit ≠ ((ioUnit + 1) % cfg.nrIoUnits + k) % cfg.nrIoUnits := by
                intro k hk'
                have hne := mod_ne_of_close (n := cfg.nrIoUnits) (i := ioUnit)
                  (k := ioUnit + 1 + k) (by omega) (by omega)
                rw [Nat.mod_eq_of_lt hunit] at hne
                rwa [Nat.mod_add_mod]
              rw [Nat.add_zero, Nat.mod_eq_of_lt hunit, hothers _ hlater, hstat₁,
                Function.update_self]
          | succ k =>
              have hk' := hcovered k (by omega) (by omega)
              rw [Nat.mod_add_mod, Nat.add_assoc, Nat.add_comm 1] at hk'
              rw [hk', written, written, hlatest', Nat.add_mul (k + 1), Nat.one_mul]
              have hif : (if k < nrIoUnits - 1 then d.trailing else 0) =
                  if k + 1 < nrIoUnits then d.trailing else 0 := by
                split <;> split <;> omega
              rw [hif]
              omega
        · intro u hu
          have hlater : ∀ k, k < rounds cfg (length - ioUnitSize cfg) →
              u ≠ ((ioUnit + 1) % cfg.nrIoUnits + k) % cfg.nrIoUnits := by
            intro k hk
            rw [Nat.mod_add_mod, Nat.add_assoc, Nat.add_comm 1]
            exact hu (k + 1) (by omega)
          have hne := hu 0 (by omega)
          rw [Nat.add_zero, Nat.mod_eq_of_lt hunit] at hne
          rw [hothers u hlater, hstat₁, Function.update_of_ne hne]

theorem exists_last_round {n i k total : Nat} (hn : 0 < n) (hk : k < total) :
    ∃ k', k' < total ∧ total ≤ k' + n ∧ (i + k') % n = (i + k) % n := by
  have hdiv := Nat.div_add_mod (total - 1 - k) n
  have hmod := Nat.mod_lt (total - 1 - k) hn
  refine ⟨k + n * ((total - 1 - k) / n), by omega, by omega, ?_⟩
  rw [← Nat.add_assoc, Nat.add_mul_mod_self_left]

end Loop

section Commands

variable {cfg : IoUnitConfig} {ftl : UnitFtl} {stat stat' : Nat → Nat} {call : UnitCall} {t : Nat}

def baseTime (cfg : IoUnitConfig) (ftl : UnitFtl) (stat : Nat → Nat) (call : UnitCall) : Nat :=
  max call.nsecsStart (stat (firstUnit cfg call.lba)) + (delaysOf cfg ftl call.opcode).delay

def TimesFit (cfg : IoUnitConfig) (ftl : UnitFtl) (stat : Nat → Nat) (call : UnitCall) : Prop :=
  baseTime cfg ftl stat call +
      rounds cfg call.length * (delaysOf cfg ftl call.opcode).latency +
      (delaysOf cfg ftl call.opcode).trailing < 2 ^ 64

/-- None of the units that the command covers is busy for longer than its first unit, or than
the time of the dispatch. -/
def UnitsIdle (cfg : IoUnitConfig) (stat : Nat → Nat) (call : UnitCall) : Prop :=
  ∀ k < rounds cfg call.length, stat ((firstUnit cfg call.lba + k) % cfg.nrIoUnits) ≤
    max call.nsecsStart (stat (firstUnit cfg call.lba))

/-- Each unit that the command covers is busy with earlier commands no longer
than with this one. -/
def UnitsFree (cfg : IoUnitConfig) (ftl : UnitFtl) (stat : Nat → Nat) (call : UnitCall) : Prop :=
  ∀ k, k < rounds cfg call.length → rounds cfg call.length ≤ k + cfg.nrIoUnits →
    stat ((firstUnit cfg call.lba + k) % cfg.nrIoUnits) ≤
      written (delaysOf cfg ftl call.opcode) (baseTime cfg ftl stat call)
        (trailingRounds cfg call.length) k

theorem scheduleIoUnits_spec (hnr : 0 < cfg.nrIoUnits) (hfits : TimesFit cfg ftl stat call) :
    ∃ stat', scheduleIoUnits cfg ftl stat call =
        .ok (baseTime cfg ftl stat call +
          rounds cfg call.length * (delaysOf cfg ftl call.opcode).latency, stat') ∧
      (∀ k, k < rounds cfg call.length → rounds cfg call.length ≤ k + cfg.nrIoUnits →
        stat' ((firstUnit cfg call.lba + k) % cfg.nrIoUnits) =
          written (delaysOf cfg ftl call.opcode) (baseTime cfg ftl stat call)
            (trailingRounds cfg call.length) k) ∧
      (∀ u, (∀ k, k < rounds cfg call.length →
          u ≠ (firstUnit cfg call.lba + k) % cfg.nrIoUnits) → stat' u = stat u) := by
  have hbase : (max call.nsecsStart (stat (firstUnit cfg call.lba)) +
      (delaysOf cfg ftl call.opcode).delay) % 2 ^ 64 = baseTime cfg ftl stat call := by
    refine Nat.mod_eq_of_lt ?_
    rw [TimesFit, baseTime] at hfits
    omega
  rw [scheduleIoUnits, if_neg (Nat.ne_of_gt hnr)]
  dsimp only
  rw [hbase]
  exact scheduleLoop_spec (Nat.mod_lt _ hnr) (Nat.lt_succ_self _) hfits

/-- The busy times do not go back if and only if the covered units are free. -/
theorem stat_le_iff (hnr : 0 < cfg.nrIoUnits) (hfits : TimesFit cfg ftl stat call)
    (h : scheduleIoUnits cfg ftl stat call = .ok (t, stat')) :
    (∀ u, stat u ≤ stat' u) ↔ UnitsFree cfg ftl stat call := by
  obtain ⟨stat₁, hschedule, hcovered, hothers⟩ := scheduleIoUnits_spec hnr hfits
  obtain ⟨rfl, rfl⟩ := Prod.mk.inj (Except.ok.inj (h.symm.trans hschedule))
  constructor
  · intro hle k hk hlast
    rw [← hcovered k hk hlast]
    exact hle _
  · intro hfree u
    by_cases hu : ∀ k, k < rounds cfg call.length →
        u ≠ (firstUnit cfg call.lba + k) % cfg.nrIoUnits
    · exact Nat.le_of_eq (hothers u hu).symm
    · push Not at hu
      obtain ⟨k, hk, rfl⟩ := hu
      obtain ⟨k', hk', hlast, hsame⟩ := exists_last_round (i := firstUnit cfg call.lba) hnr hk
      rw [← hsame, hcovered k' hk' hlast]
      exact hfree k' hk' hlast

theorem unitsFree_of_idle (h : UnitsIdle cfg stat call) : UnitsFree cfg ftl stat call := by
  intro k hk _
  have hbusy := h k hk
  rw [written, baseTime]
  omega

theorem unitsIdle_of_le (h : call.length ≤ ioUnitSize cfg) :
    UnitsIdle cfg stat call := by
  intro k hk
  rw [rounds_of_le h] at hk
  obtain rfl : k = 0 := by omega
  rw [Nat.add_zero, firstUnit, Nat.mod_mod]
  exact Nat.le_max_right _ _

theorem target_le_stat (hnr : 0 < cfg.nrIoUnits) (hfits : TimesFit cfg ftl stat call)
    (h : scheduleIoUnits cfg ftl stat call = .ok (t, stat')) :
    ∃ u ∈ List.range cfg.nrIoUnits, t ≤ stat' u := by
  obtain ⟨stat₁, hschedule, hcovered, _⟩ := scheduleIoUnits_spec hnr hfits
  obtain ⟨rfl, rfl⟩ := Prod.mk.inj (Except.ok.inj (h.symm.trans hschedule))
  have hlast : rounds cfg call.length - 1 + 1 = rounds cfg call.length :=
    Nat.sub_add_cancel (Nat.succ_pos _)
  refine ⟨_, List.mem_range.2 (Nat.mod_lt _ hnr),
    Nat.le_trans ?_ (Nat.le_of_eq (hcovered (rounds cfg call.length - 1) (by omega)
      (by omega)).symm)⟩
  rw [written, hlast]
  exact Nat.le_add_right _ _

end Commands

section Runs

/-- The busy times, the last dispatch time and the target times given so far. -/
structure UnitState where
  stat : Nat → Nat
  now : Nat
  answers : List Nat

def idleUnits : UnitState := { stat := fun _ => 0, now := 0, answers := [] }

def dispatch (cfg : IoUnitConfig) (ftl : UnitFtl) (s : UnitState) (call : UnitCall) :
    Except Fault UnitState := do
  let reply ← scheduleIoUnits cfg ftl s.stat call
  return { stat := reply.2, now := call.nsecsStart, answers := s.answers ++ [reply.1] }

variable {cfg : IoUnitConfig} {ftl : UnitFtl} {s s' : UnitState} {call : UnitCall}

def Dispatched (cfg : IoUnitConfig) (ftl : UnitFtl) (s s' : UnitState) : Prop :=
  ∃ call, s.now ≤ call.nsecsStart ∧ dispatch cfg ftl s call = .ok s'

/-- A dispatch that finds the units it covers no busier than the first of them. -/
def DispatchedIdle (cfg : IoUnitConfig) (ftl : UnitFtl) (s s' : UnitState) : Prop :=
  ∃ call, s.now ≤ call.nsecsStart ∧ dispatch cfg ftl s call = .ok s' ∧
    TimesFit cfg ftl s.stat call ∧ UnitsIdle cfg s.stat call

theorem dispatch_inv (h : dispatch cfg ftl s call = .ok s') :
    ∃ t, scheduleIoUnits cfg ftl s.stat call = .ok (t, s'.stat) ∧
      s'.answers = s.answers ++ [t] := by
  obtain ⟨reply, hreply, h⟩ := exists_of_bind_eq_ok h
  obtain rfl := Except.ok.inj h
  exact ⟨reply.1, hreply, rfl⟩

theorem stat_le_of_idle (hnr : 0 < cfg.nrIoUnits) (h : DispatchedIdle cfg ftl s s') (u : Nat) :
    s.stat u ≤ s'.stat u := by
  obtain ⟨call, _, hstep, hfits, hidle⟩ := h
  obtain ⟨t, hschedule, _⟩ := dispatch_inv hstep
  exact (stat_le_iff hnr hfits hschedule).2 (unitsFree_of_idle hidle) u

theorem waits_of_idle (hnr : 0 < cfg.nrIoUnits) (h : DispatchedIdle cfg ftl s s')
    (hwaits : Waits s.stat (List.range cfg.nrIoUnits) s.answers) :
    Waits s'.stat (List.range cfg.nrIoUnits) s'.answers := by
  have hle := stat_le_of_idle hnr h
  obtain ⟨call, _, hstep, hfits, _⟩ := h
  obtain ⟨t, hschedule, hanswers⟩ := dispatch_inv hstep
  obtain ⟨u, hu, ht⟩ := target_le_stat hnr hfits hschedule
  rw [hanswers]
  exact (hwaits.mono hle).answer hu ht

theorem waits_of_run (hnr : 0 < cfg.nrIoUnits)
    (hrun : Relation.ReflTransGen (DispatchedIdle cfg ftl) idleUnits s) :
    Waits s.stat (List.range cfg.nrIoUnits) s.answers := by
  induction hrun with
  | refl => exact fun t ht => absurd ht List.not_mem_nil
  | tail _ hstep ih => exact waits_of_idle hnr hstep ih

/-- In every run whose commands find none of their units busier than the first, the busy times
never go back and a flush waits for every command. -/
theorem flush_waits_when_idle (hnr : 0 < cfg.nrIoUnits)
    (hrun : Relation.ReflTransGen (DispatchedIdle cfg ftl) idleUnits s)
    (hrest : Relation.ReflTransGen (DispatchedIdle cfg ftl) s s') :
    (∀ u, s.stat u ≤ s'.stat u) ∧ ∀ t ∈ s'.answers, t ≤ scheduleFlush cfg s'.stat := by
  constructor
  · intro u
    induction hrest with
    | refl => exact Nat.le_refl _
    | tail _ hstep ih => exact Nat.le_trans ih (stat_le_of_idle hnr hstep u)
  · intro t ht
    exact (waits_of_run hnr (hrun.trans hrest)).le_idleTime ht 0

def defaultUnits : IoUnitConfig where
  nrIoUnits := 8
  ioUnitShift := 12
  writeDelay := 1
  writeTime := 1
  writeTrailing := 0
  readDelay := 1
  readTime := 1
  readTrailing := 0

instance (cfg : IoUnitConfig) (ftl : UnitFtl) (stat : Nat → Nat) (call : UnitCall) :
    Decidable (TimesFit cfg ftl stat call) :=
  inferInstanceAs (Decidable (_ < _))

instance (cfg : IoUnitConfig) (stat : Nat → Nat) (call : UnitCall) :
    Decidable (UnitsIdle cfg stat call) :=
  inferInstanceAs (Decidable (∀ k < _, _ ≤ _))

theorem flush_waits_when_idle_two : ∃ s,
    Relation.ReflTransGen (DispatchedIdle defaultUnits .simple) idleUnits s ∧
      s.answers = [103, 106] ∧ ∀ t ∈ s.answers, t ≤ scheduleFlush defaultUnits s.stat := by
  let careful (s : UnitState) (call : UnitCall) :=
    if s.now ≤ call.nsecsStart ∧ TimesFit defaultUnits .simple s.stat call ∧
        UnitsIdle defaultUnits s.stat call
    then dispatch defaultUnits .simple s call else .error (.bugOn .scheduleIoUnits)
  obtain ⟨s, hs, hanswers⟩ :
      ∃ s, [⟨.read, 0, 8192, 100⟩, ⟨.read, 8, 8192, 100⟩].foldlM careful idleUnits = .ok s ∧
        (s.answers == [103, 106]) = true :=
    exists_of_returns (by decide +kernel)
  have hrun : Relation.ReflTransGen (DispatchedIdle defaultUnits .simple) idleUnits s := by
    refine reflTransGen_of_foldlM _ ?_ hs
    intro call _ s s' hstep
    simp only [careful] at hstep
    split at hstep
    · next hidle => exact ⟨call, hidle.1, hstep, hidle.2⟩
    · cases hstep
  exact ⟨s, hrun, beq_iff_eq.1 hanswers, (flush_waits_when_idle (by decide) hrun .refl).2⟩

/-- Read as its second unit, a busy unit is recorded free too early, and a flush
does not wait for the command that keeps it busy. -/
theorem flush_misses_command : ∃ s s',
    Relation.ReflTransGen (Dispatched defaultUnits .simple) idleUnits s ∧
    Dispatched defaultUnits .simple s s' ∧ s'.stat 1 < s.stat 1 ∧
    ∃ t ∈ s'.answers, scheduleFlush defaultUnits s'.stat < t := by
  let inOrder (s : UnitState) (call : UnitCall) :=
    if s.now ≤ call.nsecsStart then dispatch defaultUnits .simple s call
    else .error (.bugOn .scheduleIoUnits)
  let test (s : UnitState) : Bool :=
    decide (s.now ≤ 100) &&
      returns (dispatch defaultUnits .simple s ⟨.read, 0, 8192, 100⟩) fun s' =>
        decide (s'.stat 1 < s.stat 1) &&
          s'.answers.any fun t => decide (scheduleFlush defaultUnits s'.stat < t)
  obtain ⟨s, hs, htest⟩ : ∃ s, [⟨.read, 8, 4096, 100⟩, ⟨.read, 8, 4096, 100⟩].foldlM
      inOrder idleUnits = .ok s ∧ test s = true :=
    exists_of_returns (by decide +kernel)
  simp only [test, Bool.and_eq_true, decide_eq_true_eq] at htest
  obtain ⟨hnow, hreturns⟩ := htest
  obtain ⟨s', hs', hafter⟩ := exists_of_returns hreturns
  simp only [Bool.and_eq_true, decide_eq_true_eq, List.any_eq_true] at hafter
  refine ⟨s, s', reflTransGen_of_foldlM _ ?_ hs, ⟨_, hnow, hs'⟩, hafter.1, hafter.2⟩
  intro call _ s s' hstep
  simp only [inOrder] at hstep
  split at hstep
  · next hle => exact ⟨call, hle, hstep⟩
  · cases hstep

end Runs

end NvmeVirt.IoUnits
