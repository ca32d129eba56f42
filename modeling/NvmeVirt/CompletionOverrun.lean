import Mathlib.Logic.Relation
import NvmeVirt.AdminQueues
import NvmeVirt.PhaseRing

namespace NvmeVirt.CompletionOverrun

open AdminQueues
open FaultOutcome
open IoDispatch
open IoSteps
open IoWorkers
open PhaseRing
open Relation
open WriteBuffer

variable {μ κ : Type}

/-- The history of the completion queues: how many completions were written to
each and released by the host since it was created, and which completion each
slot holds. `overrun` tells whether one was ever written over a completion that
had not been released. -/
structure Ledger where
  written : Nat → Nat
  released : Nat → Nat
  serial : Nat → Nat → Option Nat
  overrun : Bool

namespace Ledger

def empty : Ledger where
  written _ := 0
  released _ := 0
  serial _ _ := none
  overrun := false

/-- The slot holds a completion the host has not released. -/
def holds (l : Ledger) (cqid slot : Nat) : Bool :=
  match l.serial cqid slot with
  | none => false
  | some i => decide (l.released cqid ≤ i)

def create (l : Ledger) (cqid : Nat) : Ledger :=
  { l with
    written := Function.update l.written cqid 0
    released := Function.update l.released cqid 0
    serial := Function.update l.serial cqid fun _ => none }

def post (l : Ledger) (cqid slot : Nat) : Ledger :=
  { l with
    written := Function.update l.written cqid (l.written cqid + 1)
    serial := Function.update l.serial cqid
      (Function.update (l.serial cqid) slot (some (l.written cqid)))
    overrun := l.overrun || l.holds cqid slot }

def release (l : Ledger) (cqid n : Nat) : Ledger :=
  { l with released := Function.update l.released cqid (l.released cqid + n) }

end Ledger

/-- Where `__fill_cq_result` put a completion: the head before the step. -/
def recordPost (vdev : NvmevDev μ κ) (l : Ledger) (w : IoWork) : Ledger :=
  match vdev.cqes w.cqid with
  | none => l
  | some cq => l.post w.cqid cq.cqHead

def Ledger.record (l : Ledger) (ctrl : Controller μ κ) (event : CtrlEvent κ)
    (ctrl' : Controller μ κ) : Ledger :=
  match event with
  | .io _ =>
      (ctrl'.dev.posted.drop ctrl.dev.posted.length).foldl (recordPost ctrl.dev) l
  | .admin eid =>
      if ctrl.dev.pass.isSome then l
      else
        match (ctrl.adminQ.nvmeSq eid).request with
        | .createCq cqid _ _ => l.create cqid
        | _ => l
  | .ringCq cqid db =>
      match ctrl.dev.cqes cqid with
      | none => l
      | some cq => l.release cqid (distance cq.queueSize (ctrl.cqDbs cqid) db)
  | _ => l

def ledgerStep (be : Backend μ κ) (s : Controller μ κ × Ledger) (event : CtrlEvent κ) :
    Except Fault (Controller μ κ × Ledger) := do
  let ctrl' ← ctrlStep be s.1 event
  return (ctrl', s.2.record s.1 event ctrl')

/-- The host moves the head doorbell only over completions it was given. -/
def HostRule (s : Controller μ κ × Ledger) : CtrlEvent κ → Prop
  | .ringCq cqid db =>
      ∀ cq, s.1.dev.cqes cqid = some cq → db < cq.queueSize ∧
        s.2.released cqid + distance cq.queueSize (s.1.cqDbs cqid) db ≤ s.2.written cqid
  | _ => True

/-- When the step posts a completion, fewer completions of its queue are
unreleased than the queue has slots. -/
def PostsFit (s : Controller μ κ × Ledger) : CtrlEvent κ → Prop
  | .io (.worker id now) =>
      ∀ w, completes s.1.dev id now = some w → ∀ cq, s.1.dev.cqes w.cqid = some cq →
        s.2.written w.cqid < s.2.released w.cqid + cq.queueSize
  | _ => True

instance (s : Controller μ κ × Ledger) (event : CtrlEvent κ) :
    Decidable (HostRule s event) :=
  match event with
  | .ringCq cqid db =>
      inferInstanceAs (Decidable (∀ cq ∈ s.1.dev.cqes cqid, db < cq.queueSize ∧
        s.2.released cqid + distance cq.queueSize (s.1.cqDbs cqid) db ≤ s.2.written cqid))
  | .io _ => .isTrue trivial
  | .admin _ => .isTrue trivial
  | .adminWrite _ _ => .isTrue trivial
  | .procCqDb _ => .isTrue trivial

instance (s : Controller μ κ × Ledger) (event : CtrlEvent κ) :
    Decidable (PostsFit s event) :=
  match event with
  | .io (.worker id now) =>
      inferInstanceAs (Decidable (∀ w ∈ completes s.1.dev id now,
        ∀ cq ∈ s.1.dev.cqes w.cqid,
          s.2.written w.cqid < s.2.released w.cqid + cq.queueSize))
  | .io (.hostWrite _ _ _) => .isTrue trivial
  | .io (.hostRing _ _) => .isTrue trivial
  | .io (.beginPass _) => .isTrue trivial
  | .io (.procIo _ _) => .isTrue trivial
  | .io (.internal _ _ _ _) => .isTrue trivial
  | .io .reclaim => .isTrue trivial
  | .admin _ => .isTrue trivial
  | .adminWrite _ _ => .isTrue trivial
  | .ringCq _ _ => .isTrue trivial
  | .procCqDb _ => .isTrue trivial

/-- The ledger of one queue: the writer stands behind the last completion, the
host behind the last one it released, and each slot holds the last completion
written to it. -/
structure Numbered (cq : CompletionQueue) (written released db : Nat)
    (serial : Nat → Option Nat) : Prop where
  size_pos : 0 < cq.queueSize
  head : cq.cqHead = written % cq.queueSize
  doorbell : db = released % cq.queueSize
  released_le : released ≤ written
  window : written ≤ released + cq.queueSize
  laid : Laid cq.queueSize serial ((List.range written).map some)
  blank : ∀ i < cq.queueSize, written ≤ i → serial i = none

section Queue

variable {cq cq' : CompletionQueue} {written released db : Nat} {serial : Nat → Option Nat}

theorem numbered_new (qsize : Nat) (memory : Nat → Completion) :
    Numbered (newCq qsize memory) 0 0 0 fun _ => none where
  size_pos := Nat.succ_pos qsize
  head := by simp [newCq]
  doorbell := by simp
  released_le := Nat.le_refl 0
  window := Nat.zero_le _
  laid := by simp [Laid]
  blank _ _ _ := rfl

theorem Numbered.congr (h : Numbered cq written released db serial)
    (hsize : cq'.queueSize = cq.queueSize) (hhead : cq'.cqHead = cq.cqHead) :
    Numbered cq' written released db serial := by
  obtain ⟨h1, h2, h3, h4, h5, h6, h7⟩ := h
  refine ⟨?_, ?_, ?_, h4, ?_, ?_, ?_⟩
  · rwa [hsize]
  · rwa [hhead, hsize]
  · rwa [hsize]
  · rwa [hsize]
  · rwa [hsize]
  · rwa [hsize]

theorem Numbered.taken_iff (h : Numbered cq written released db serial) :
    (∃ i, serial cq.cqHead = some i ∧ released ≤ i) ↔
      released + cq.queueSize ≤ written := by
  have hpos := h.size_pos
  rw [h.head]
  rcases Nat.lt_or_ge written cq.queueSize with hfirst | hlater
  · rw [Nat.mod_eq_of_lt hfirst, h.blank written hfirst (Nat.le_refl _)]
    constructor
    · rintro ⟨i, hi, -⟩
      cases hi
    · omega
  · obtain ⟨k, hk⟩ := Nat.exists_eq_add_of_le' hlater
    have hlength : k < ((List.range written).map some).length := by
      rw [List.length_map, List.length_range]
      omega
    have hslot := h.laid k hlength (by rw [List.length_map, List.length_range]; omega)
    have hmod : written % cq.queueSize = k % cq.queueSize := by
      rw [hk, Nat.add_mod_right]
    rw [hmod, hslot, List.getElem_map, List.getElem_range]
    constructor
    · rintro ⟨i, hi, hle⟩
      cases hi
      omega
    · intro hfull
      exact ⟨k, rfl, by omega⟩

theorem Numbered.post (h : Numbered cq written released db serial) (w : IoWork)
    (hfit : written < released + cq.queueSize) :
    Numbered (postEntry cq w) (written + 1) released db
      (Function.update serial cq.cqHead (some written)) where
  size_pos := h.size_pos
  head := by
    have hhead : (postEntry cq w).cqHead =
        if cq.cqHead + 1 = cq.queueSize then 0 else cq.cqHead + 1 := rfl
    rw [hhead, h.head]
    exact succ_mod h.size_pos
  doorbell := h.doorbell
  released_le := Nat.le_succ_of_le h.released_le
  window := hfit
  laid := by
    have hlaid := h.laid.write (some written)
    rw [List.length_map, List.length_range, ← h.head] at hlaid
    rw [List.range_succ, List.map_append]
    exact hlaid
  blank i hi hwritten := by
    have hi' : i < cq.queueSize := hi
    have hne : i ≠ cq.cqHead := by
      rw [h.head, Nat.mod_eq_of_lt (by omega)]
      omega
    rw [Function.update_of_ne hne]
    exact h.blank i hi' (by omega)

theorem Numbered.release (h : Numbered cq written released db serial) {db' : Nat}
    (hdb : db' < cq.queueSize) (hle : released + distance cq.queueSize db db' ≤ written) :
    Numbered cq written (released + distance cq.queueSize db db') db' serial where
  size_pos := h.size_pos
  head := h.head
  doorbell := by
    rw [h.doorbell, distance_mod hdb]
  released_le := hle
  window := by
    have hwindow := h.window
    omega
  laid := h.laid
  blank := h.blank

end Queue

/-- The ledger is right about every completion queue there is. -/
def Balanced (s : Controller μ κ × Ledger) : Prop :=
  ∀ cqid cq, s.1.dev.cqes cqid = some cq →
    Numbered cq (s.2.written cqid) (s.2.released cqid) (s.1.cqDbs cqid) (s.2.serial cqid)

section Steps

variable {be : Backend μ κ} {vdev vdev' : NvmevDev μ κ} {s s' : Controller μ κ × Ledger}
  {event : CtrlEvent κ}

/-- What a step of the I/O side does to the completion queues. -/
inductive Posting (vdev : NvmevDev μ κ) (event : Event κ) (vdev' : NvmevDev μ κ) : Prop where
  | none (cqes : vdev'.cqes = vdev.cqes) (posted : vdev'.posted = vdev.posted)
      (quiet : ∀ id now, event = .worker id now → completes vdev id now = Option.none)
  | one (id now : Nat) (w w' : IoWork) (cq : CompletionQueue)
      (event_eq : event = .worker id now) (completes : completes vdev id now = some w')
      (cqid : w'.cqid = w.cqid) (present : vdev.cqes w.cqid = some cq)
      (cqes : vdev'.cqes = Function.update vdev.cqes w.cqid (some (postEntry cq w)))
      (posted : vdev'.posted = vdev.posted ++ [w])

theorem step_posting {event : Event κ} (h : step be vdev event = .ok vdev') :
    Posting vdev event vdev' := by
  cases step_result h with
  | idle _ other _ =>
      refine .none rfl rfl ?_
      intro id now heq
      have hge := other id now heq
      rw [completes, if_neg (by omega)]
  | work id now medium moved lt perform effect =>
      refine .none rfl rfl ?_
      rintro id' now' heq
      cases heq
      exact completes_eq_none moved (by simp [effect])
  | release id now medium moved writeBuffer buffsToRelease lt perform effect =>
      refine .none rfl rfl ?_
      rintro id' now' heq
      cases heq
      exact completes_eq_none moved (by simp [effect])
  | post id now medium moved w cq lt perform effect present =>
      obtain ⟨w', hcompletes, -, hcqid⟩ := completes_of_effect lt effect
      exact .one id now w w' cq rfl hcompletes hcqid present rfl rfl
  | _ => exact .none rfl rfl (by simp)

/-- One step keeps the books, and runs over a completion exactly when it posts
to a full queue. -/
structure Kept (s s' : Controller μ κ × Ledger) (event : CtrlEvent κ) : Prop where
  balanced : PostsFit s event → Balanced s'
  overrun : s'.2.overrun = false ↔ s.2.overrun = false ∧ PostsFit s event

theorem Kept.of_same (hfit : PostsFit s event) (hbalanced : Balanced s')
    (hoverrun : s'.2.overrun = s.2.overrun) : Kept s s' event := by
  refine ⟨fun _ => hbalanced, ?_⟩
  rw [hoverrun]
  exact (and_iff_left hfit).symm

theorem postsFit_of_completes_none {event : Event κ}
    (h : ∀ id now, event = .worker id now → completes s.1.dev id now = none) :
    PostsFit s (.io event) := by
  cases event with
  | worker id now =>
      intro w hw
      rw [h id now rfl] at hw
      cases hw
  | _ => exact trivial

theorem ledgerStep_io {event : Event κ} (h : Balanced s)
    (hstep : ledgerStep be s (.io event) = .ok s') : Kept s s' (.io event) := by
  obtain ⟨ctrl, l⟩ := s
  obtain ⟨ctrl', hctrl, hstep⟩ := exists_of_bind_eq_ok hstep
  obtain ⟨vdev', hdev, hctrl⟩ := exists_of_bind_eq_ok hctrl
  cases hctrl
  cases hstep
  cases step_posting hdev with
  | none cqes posted quiet =>
      have hrecord : l.record ctrl (.io event) { ctrl with dev := vdev' } = l := by
        simp [Ledger.record, posted]
      rw [hrecord]
      refine Kept.of_same (postsFit_of_completes_none quiet) ?_ rfl
      intro cqid cq hcq
      dsimp only at hcq
      rw [cqes] at hcq
      exact h cqid cq hcq
  | one id now w w' cq event_eq completes cqid present cqes posted =>
      subst event_eq
      have hrecord : l.record ctrl (.io (.worker id now)) { ctrl with dev := vdev' } =
          l.post w.cqid cq.cqHead := by
        have hcq : ctrl.dev.cqes w.cqid = some cq := present
        simp [Ledger.record, posted, recordPost, hcq]
      have hfit : PostsFit (ctrl, l) (.io (.worker id now)) ↔
          l.written w.cqid < l.released w.cqid + cq.queueSize := by
        constructor
        · intro hfit
          have hroom := hfit w' completes cq (by rw [cqid]; exact present)
          rwa [cqid] at hroom
        · intro hroom w'' hw'' cq'' hcq''
          rw [completes] at hw''
          cases hw''
          rw [cqid] at hcq'' ⊢
          dsimp only at hcq''
          rw [present] at hcq''
          cases hcq''
          exact hroom
      have hnumbered : Numbered cq (l.written w.cqid) (l.released w.cqid)
          (ctrl.cqDbs w.cqid) (l.serial w.cqid) := h w.cqid cq present
      rw [hrecord]
      constructor
      · intro hroom cqid' cq' hcq'
        dsimp only at hcq'
        rw [cqes] at hcq'
        by_cases heq : cqid' = w.cqid
        · subst heq
          rw [Function.update_self, Option.some.injEq] at hcq'
          subst hcq'
          simp only [Ledger.post, Function.update_self]
          exact hnumbered.post w (hfit.1 hroom)
        · rw [Function.update_of_ne heq] at hcq'
          simp only [Ledger.post, Function.update_of_ne heq]
          exact h cqid' cq' hcq'
      · rw [hfit]
        have htaken := hnumbered.taken_iff
        have hholds : l.holds w.cqid cq.cqHead = false ↔
            l.written w.cqid < l.released w.cqid + cq.queueSize := by
          rw [← not_le, ← htaken, Ledger.holds]
          cases hserial : l.serial w.cqid cq.cqHead with
          | none => simp
          | some i => simp
        simp only [Ledger.post, Bool.or_eq_false_iff]
        exact and_congr_right fun _ => hholds

theorem ledgerStep_admin {eid : Nat} (h : Balanced s)
    (hstep : ledgerStep be s (.admin eid) = .ok s') : Kept s s' (.admin eid) := by
  obtain ⟨ctrl, l⟩ := s
  obtain ⟨ctrl', hctrl, hstep⟩ := exists_of_bind_eq_ok hstep
  cases hstep
  rw [ctrlStep] at hctrl
  by_cases hpass : ctrl.dev.pass.isSome
  · rw [if_pos hpass] at hctrl
    cases hctrl
    refine Kept.of_same trivial ?_ ?_
    · simpa [Ledger.record, hpass] using h
    · simp [Ledger.record, hpass]
  · rw [if_neg hpass] at hctrl
    cases handled_of_procAdminReq hctrl
    cases hrequest : (ctrl.adminQ.nvmeSq eid).request with
    | createCq cqid qsize memory =>
        refine Kept.of_same trivial ?_ ?_
        · intro cqid' cq' hcq'
          simp only [handleAdminReq, hrequest, nvmevAdminCreateCq, Ledger.record, hpass,
            Bool.false_eq_true, if_false, Ledger.create] at hcq' ⊢
          by_cases heq : cqid' = cqid
          · subst heq
            rw [Function.update_self, Option.some.injEq] at hcq'
            subst hcq'
            simp only [Function.update_self]
            exact numbered_new qsize memory
          · rw [Function.update_of_ne heq] at hcq'
            simp only [Function.update_of_ne heq]
            exact h cqid' cq' hcq'
        · simp [Ledger.record, hpass, hrequest, Ledger.create]
    | deleteCq qid =>
        refine Kept.of_same trivial ?_ ?_
        · intro cqid' cq' hcq'
          simp only [handleAdminReq, hrequest, nvmevAdminDeleteCq, Ledger.record, hpass,
            Bool.false_eq_true, if_false] at hcq' ⊢
          by_cases heq : cqid' = qid
          · subst heq
            rw [Function.update_self] at hcq'
            cases hcq'
          · rw [Function.update_of_ne heq] at hcq'
            exact h cqid' cq' hcq'
        · simp [Ledger.record, hpass, hrequest]
    | _ =>
        refine Kept.of_same trivial ?_ ?_
        · simp only [handleAdminReq, hrequest, Ledger.record, hpass, Bool.false_eq_true, if_false]
          exact h
        · simp [Ledger.record, hpass, hrequest]

theorem procCqDb_cqes {ctrl ctrl' : Controller μ κ} {cqid : Nat}
    (h : procCqDb ctrl cqid = .ok ctrl') :
    ctrl'.cqDbs = ctrl.cqDbs ∧ ∀ q cq', ctrl'.dev.cqes q = some cq' →
      ∃ cq, ctrl.dev.cqes q = some cq ∧ cq'.queueSize = cq.queueSize ∧
        cq'.cqHead = cq.cqHead := by
  rw [procCqDb] at h
  cases hcq : ctrl.dev.cqes cqid with
  | none =>
      simp only [hcq] at h
      cases h
      exact ⟨rfl, fun q cq' hq => ⟨cq', hq, rfl, rfl⟩⟩
  | some cq =>
      simp only [hcq] at h
      split at h
      · cases h
        exact ⟨rfl, fun q cq' hq => ⟨cq', hq, rfl, rfl⟩⟩
      · obtain ⟨dev, hdev, h⟩ := exists_of_bind_eq_ok h
        cases h
        rw [procIoCq] at hdev
        simp only [hcq] at hdev
        obtain ⟨sqes, -, hdev⟩ := exists_of_bind_eq_ok hdev
        cases hdev
        refine ⟨rfl, ?_⟩
        intro q cq' hq
        dsimp only at hq
        by_cases heq : q = cqid
        · subst heq
          rw [Function.update_self, Option.some.injEq] at hq
          subst hq
          exact ⟨cq, hcq, rfl, rfl⟩
        · rw [Function.update_of_ne heq] at hq
          exact ⟨cq', hq, rfl, rfl⟩

theorem ledgerStep_kept {event : CtrlEvent κ} (h : Balanced s) (hhost : HostRule s event)
    (hstep : ledgerStep be s event = .ok s') : Kept s s' event := by
  cases event with
  | io event => exact ledgerStep_io h hstep
  | admin eid => exact ledgerStep_admin h hstep
  | adminWrite eid cmd =>
      cases hstep
      exact Kept.of_same trivial h rfl
  | ringCq cqid db =>
      obtain ⟨ctrl, l⟩ := s
      cases hstep
      cases hcq : ctrl.dev.cqes cqid with
      | none =>
          refine Kept.of_same trivial ?_ ?_
          · intro cqid' cq' hcq'
            have hne : cqid' ≠ cqid := by
              rintro rfl
              dsimp only at hcq'
              rw [hcq] at hcq'
              cases hcq'
            simp only [Ledger.record, hcq, Function.update_of_ne hne]
            exact h cqid' cq' hcq'
          · simp [Ledger.record, hcq]
      | some cq =>
          refine Kept.of_same trivial ?_ ?_
          · intro cqid' cq' hcq'
            simp only [Ledger.record, hcq, Ledger.release]
            by_cases heq : cqid' = cqid
            · subst heq
              dsimp only at hcq'
              rw [hcq] at hcq'
              cases hcq'
              obtain ⟨hdb, hle⟩ := hhost cq hcq
              simp only [Function.update_self]
              exact (h cqid' cq hcq).release hdb hle
            · simp only [Function.update_of_ne heq]
              exact h cqid' cq' hcq'
          · simp [Ledger.record, hcq, Ledger.release]
  | procCqDb cqid =>
      obtain ⟨ctrl, l⟩ := s
      obtain ⟨ctrl', hctrl, hstep⟩ := exists_of_bind_eq_ok hstep
      cases hstep
      rw [ctrlStep] at hctrl
      refine Kept.of_same trivial ?_ rfl
      split at hctrl
      · cases hctrl
        exact h
      · obtain ⟨hdbs, hcqes⟩ := procCqDb_cqes hctrl
        intro q cq' hq
        obtain ⟨cq, hcq, hsize, hhead⟩ := hcqes q cq' hq
        simp only [Ledger.record, hdbs]
        exact (h q cq hcq).congr hsize hhead

end Steps

/-- Posting to a queue with fewer unreleased completions than slots never runs
over one, and nothing else keeps it from doing so. -/
theorem completions_not_overrun (be : Backend μ κ) (start : Controller μ κ)
    (hstart : ∀ cqid, start.dev.cqes cqid = none) {s : Controller μ κ × Ledger}
    (hrun : ReflTransGen (fun s s' => ∃ event, HostRule s event ∧ PostsFit s event ∧
      ledgerStep be s event = .ok s') (start, .empty) s) :
    s.2.overrun = false ∧
      ∀ event s', HostRule s event → ledgerStep be s event = .ok s' →
        (s'.2.overrun = false ↔ PostsFit s event) := by
  have hboth : Balanced s ∧ s.2.overrun = false := by
    induction hrun with
    | refl =>
        refine ⟨?_, rfl⟩
        intro cqid cq hcq
        dsimp only at hcq
        rw [hstart] at hcq
        cases hcq
    | tail _ hstep ih =>
        obtain ⟨event, hhost, hfit, hstep⟩ := hstep
        have hkept := ledgerStep_kept ih.1 hhost hstep
        exact ⟨hkept.balanced hfit, hkept.overrun.2 ⟨ih.2, hfit⟩⟩
  refine ⟨hboth.2, ?_⟩
  intro event s' hhost hstep
  rw [(ledgerStep_kept hboth.1 hhost hstep).overrun]
  exact and_iff_right hboth.2

section Overload

/-- It submits three commands at once, which all complete before it looks. -/
def threeCommands : List (CtrlEvent Nat) :=
  [.io (.hostRing 1 3), .io (.beginPass 1),
    .io (.procIo 0 (some ⟨0, 5, 0⟩)), .io .reclaim, .io .reclaim,
    .io (.procIo 1 (some ⟨0, 5, 0⟩)), .io .reclaim, .io .reclaim,
    .io (.procIo 2 (some ⟨0, 5, 0⟩)), .io .reclaim, .io .reclaim,
    .io (.worker 0 10), .io (.worker 0 10), .io (.worker 0 10), .io (.worker 0 10)]

/-- The third completion is written over the first, which the host has not
released. -/
theorem completions_overrun :
    ∃ s, ReflTransGen (fun s s' => ∃ event, HostRule s event ∧
        ledgerStep namedBackend s event = .ok s') (bareController, .empty) s ∧
      s.2.overrun = true := by
  obtain ⟨s, hrun, hover⟩ :
      ∃ s, (createPair ++ threeCommands).foldlM (ledgerStep namedBackend)
        (bareController, .empty) = .ok s ∧ s.2.overrun = true :=
    exists_of_returns (p := fun s : Controller Unit Nat × Ledger => s.2.overrun)
      (by decide +kernel)
  refine ⟨s, reflTransGen_of_foldlM _ ?_ hrun, hover⟩
  intro event hevent s s' hstep
  refine ⟨event, ?_, hstep⟩
  simp only [createPair, threeCommands, List.cons_append, List.nil_append, List.mem_cons,
    List.not_mem_nil, or_false] at hevent
  rcases hevent with rfl | rfl | rfl | rfl | rfl | rfl | rfl | rfl | rfl | rfl | rfl | rfl |
    rfl | rfl | rfl | rfl | rfl | rfl | rfl <;> exact trivial

def carefulStep (be : Backend μ κ) (s : Controller μ κ × Ledger) (event : CtrlEvent κ) :
    Except Fault (Controller μ κ × Ledger) :=
  if HostRule s event ∧ PostsFit s event then ledgerStep be s event
  else .error (.bugOn .fillCqResult)

/-- One command at a time, each released before the next one is submitted. -/
def releasedCommands : List (CtrlEvent Nat) :=
  [.io (.hostRing 1 1), .io (.beginPass 1), .io (.procIo 0 (some ⟨0, 5, 0⟩)),
    .io (.worker 0 10), .io (.worker 0 10), .ringCq 1 1, .io .reclaim, .io .reclaim,
    .io (.procIo 0 none), .procCqDb 1, .io (.hostRing 1 2), .io (.beginPass 1),
    .io (.procIo 1 (some ⟨0, 5, 0⟩)), .io (.worker 0 20), .io (.worker 0 20),
    .io (.worker 0 20)]

theorem completions_not_overrun_released :
    ∃ s : Controller Unit Nat × Ledger, s.1.dev.posted.length = 2 ∧ s.2.overrun = false := by
  obtain ⟨s, hrun, hposted⟩ :
      ∃ s, (createPair ++ releasedCommands).foldlM (carefulStep namedBackend)
        (bareController, .empty) = .ok s ∧ (s.1.dev.posted.length == 2) = true :=
    exists_of_returns (p := fun s : Controller Unit Nat × Ledger =>
      s.1.dev.posted.length == 2) (by decide +kernel)
  refine ⟨s, by simpa using hposted, (completions_not_overrun namedBackend bareController
    (fun _ => rfl) (reflTransGen_of_foldlM _ ?_ hrun)).1⟩
  intro event _ s s' hstep
  rw [carefulStep] at hstep
  split at hstep
  · next hboth => exact ⟨event, hboth.1, hboth.2, hstep⟩
  · cases hstep

end Overload

end NvmeVirt.CompletionOverrun
