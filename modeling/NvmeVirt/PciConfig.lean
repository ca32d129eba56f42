import Mathlib.Order.Basic
import Mathlib.Tactic.SplitIfs
import NvmeVirt.MaskedBytes

/-!
The PCI configuration space of the virtual device (`pci.c`): what the host can
write, the flags that the device keeps beside it, and how interrupts are raised.
-/

namespace NvmeVirt.PciConfig

open ByteMemory
open MaskedBytes

/-- `struct nvmev_dev`, as far as the configuration space goes. `pdev` is the
`msix_enabled` of the device that the bus scan found, once it has found it. -/
structure PciDev where
  virtDev : Memory
  intxDisabled : Bool
  pdev : Option Bool

def offsPciPmCap : Nat := 0x40
def offsPciMsixCap : Nat := 0x50
def offsPcieCap : Nat := 0x60

def pciCommand : Nat := 0x04
def pciStatus : Nat := 0x06
def pciBist : Nat := 0x0F
def pciBaseAddress0 : Nat := 0x10
def pciInterruptLine : Nat := 0x3C
def pciMsixFlags : Nat := 2

def pciCommandIntxDisable : BitVec 32 := 0x400
def pciMsixFlagsEnable : BitVec 32 := 0x8000
def pciMsixFlagsMaskall : BitVec 32 := 0x4000

/-- The `mask` that `nvmev_pci_write` arrives at. -/
def writeMask (offs : Nat) : BitVec 32 :=
  if offs < offsPciPmCap then
    if offs = pciCommand then pciCommandIntxDisable
    else if offs = pciStatus then 0xF200
    else if offs = pciBist then 0x40
    else if offs = pciBaseAddress0 then 0xFFFFC000
    else if offs = pciInterruptLine then 0xFF
    else 0
  else if offs < offsPciMsixCap then BitVec.allOnes 32
  else if offs < offsPcieCap then
    if offs - offsPciMsixCap = pciMsixFlags then pciMsixFlagsMaskall ||| pciMsixFlagsEnable
    else 0
  else BitVec.allOnes 32

/-- An assignment to `pcihdr->sts.is`. -/
def setSts (mem : Memory) (v : Bool) : Memory := fun i =>
  if i = pciStatus then (if v then mem i ||| 8 else mem i &&& ~~~8) else mem i

/-- `nvmev_pci_write`. What it stores was loaded before `sts.is` is cleared. -/
def nvmevPciWrite (pci : PciDev) (offs size : Nat) (newVal : BitVec 32) : PciDev :=
  let val := load pci.virtDev offs size
  let pci :=
    if offs = pciCommand ∧ (val ^^^ newVal) &&& pciCommandIntxDisable ≠ 0 then
      let disabled : Bool := newVal &&& pciCommandIntxDisable ≠ 0
      { pci with
        intxDisabled := disabled
        virtDev := if disabled then pci.virtDev else setSts pci.virtDev false }
    else if offs = offsPciMsixCap + pciMsixFlags ∧
        (val ^^^ newVal) &&& pciMsixFlagsEnable ≠ 0 then
      { pci with pdev := pci.pdev.map fun _ => newVal &&& pciMsixFlagsEnable ≠ 0 }
    else pci
  let mask := writeMask offs
  { pci with
    virtDev := store pci.virtDev offs size ((val &&& ~~~mask) ||| (newVal &&& mask)) }

/-- An assignment to the fields of `n` bytes of zeroed memory that make up `v`. -/
def setWord (offs n v : Nat) (mem : Memory) : Memory := store mem offs n (BitVec.ofNat 32 v)

/-- `PCI_HEADER_SETTINGS`. -/
def pciHeaderSettings (basePa : Nat) (mem : Memory) : Memory :=
  mem |> setWord 0x00 2 0x0c51 |> setWord 0x02 2 0x0110
    |> setWord pciCommand 2 (1 <<< 1) |> setWord pciStatus 2 (1 <<< 4)
    |> setWord 0x08 1 0x01
    |> setWord 0x09 1 0x02 |> setWord 0x0A 1 0x08 |> setWord 0x0B 1 0x01
    |> setWord 0x0E 1 0
    |> setWord pciBaseAddress0 4 ((2 <<< 1) + (basePa % 2 ^ 32 / 2 ^ 14) <<< 14)
    |> setWord 0x14 4 (basePa / 2 ^ 32)
    |> setWord 0x2C 2 0x0c51 |> setWord 0x2E 2 0x370d
    |> setWord 0x30 4 0 |> setWord 0x34 1 offsPciPmCap
    |> setWord pciInterruptLine 1 15 |> setWord 0x3D 1 0

/-- `PCI_PMCAP_SETTINGS`. -/
def pciPmcapSettings (mem : Memory) : Memory :=
  mem |> setWord offsPciPmCap 1 0x01 |> setWord (offsPciPmCap + 1) 1 offsPciMsixCap
    |> setWord (offsPciPmCap + 2) 2 3 |> setWord (offsPciPmCap + 4) 2 (1 <<< 3)

/-- `PCI_MSIXCAP_SETTINGS`. -/
def pciMsixcapSettings (mem : Memory) : Memory :=
  mem |> setWord offsPciMsixCap 1 0x11 |> setWord (offsPciMsixCap + 1) 1 offsPcieCap
    |> setWord (offsPciMsixCap + pciMsixFlags) 2 (127 + 1 <<< 15)
    |> setWord (offsPciMsixCap + 4) 4 (0x400 <<< 3)
    |> setWord (offsPciMsixCap + 8) 4 (0x1000 <<< 3)

/-- `PCI_PCIECAP_SETTINGS`. -/
def pciPciecapSettings (mem : Memory) : Memory :=
  mem |> setWord offsPcieCap 1 0x10 |> setWord (offsPcieCap + 1) 1 0
    |> setWord (offsPcieCap + 2) 2 2
    |> setWord (offsPcieCap + 4) 4
      (1 + 1 <<< 5 + 6 <<< 6 + 2 <<< 9 + 1 <<< 15 + 1 <<< 28)

/-- `PCI_EXTCAP_SETTINGS`: the chain of extended capabilities, with their offsets,
identifiers and successors. -/
def pciExtcapSettings (mem : Memory) : Memory :=
  [(0x100, 0x01, 0x150), (0x150, 0x02, 0x180), (0x180, 0x04, 0x190), (0x190, 0x0E, 0x270),
    (0x270, 0x03, 0x2a0), (0x2a0, 0x19, 0)].foldl (fun mem cap =>
      setWord cap.1 4 (cap.2.1 + 1 <<< 16 + cap.2.2 <<< 20) mem) mem

/-- `VDEV_INIT` and `NVMEV_PCI_INIT` up to the bus scan. -/
def nvmevPciInit (basePa : Nat) : PciDev where
  virtDev := pciExtcapSettings (pciPciecapSettings (pciMsixcapSettings (pciPmcapSettings
    (pciHeaderSettings basePa fun _ => 0))))
  intxDisabled := false
  pdev := none

inductive Irq where
  | msi (index : Nat)
  | intx
deriving DecidableEq, Repr

/-- `nvmev_signal_irq`; there is no answer while `pdev` is `NULL`. -/
def nvmevSignalIrq (pci : PciDev) (msiIndex : Nat) : Option (PciDev × Irq) :=
  match pci.pdev with
  | none => none
  | some true => some (pci, .msi msiIndex)
  | some false => some ({ pci with virtDev := setSts pci.virtDev true }, .intx)

inductive PciEvent where
  | write (offs size : Nat) (val : BitVec 32)
  | signal (msiIndex : Nat)
deriving DecidableEq, Repr

def pciStep (pci : PciDev) : PciEvent → Option PciDev
  | .write offs size val => some (nvmevPciWrite pci offs size val)
  | .signal msiIndex => (nvmevSignalIrq pci msiIndex).map Prod.fst

def pciRun (pci : PciDev) (events : List PciEvent) : Option PciDev := events.foldlM pciStep pci

/-- The accesses that the PCI core makes: aligned, inside the page, with a value
that fits. -/
def Proper : PciEvent → Prop
  | .write offs size val =>
      (size = 1 ∨ size = 2 ∨ size = 4) ∧ offs % size = 0 ∧ val.toNat < 2 ^ (8 * size)
  | .signal _ => True

/-- The bits of the configuration space that the host can change, by the byte and the
mask of their register. -/
def writableBits : List (Nat × BitVec 32) :=
  [(pciCommand, pciCommandIntxDisable), (pciStatus, 0xF200), (pciBist, 0x40),
    (pciBaseAddress0, 0xFFFFC000), (pciInterruptLine, 0xFF),
    (offsPciMsixCap + pciMsixFlags, pciMsixFlagsMaskall ||| pciMsixFlagsEnable)]

def Writable (k : Nat) : Prop :=
  (∃ reg ∈ writableBits, 8 * reg.1 ≤ k ∧ reg.2.getLsbD (k - 8 * reg.1)) ∨
    8 * offsPciPmCap ≤ k ∧ k < 8 * offsPciMsixCap ∨ 8 * offsPcieCap ≤ k

/-- Bit 3 of the status register, `sts.is`. -/
def stsIs : Nat := 8 * pciStatus + 3

def intxDisableBit : Nat := 8 * pciCommand + 10

def msixEnableBit : Nat := 8 * (offsPciMsixCap + pciMsixFlags) + 15

theorem testBit_eight {j : Nat} (hj : j < 8) :
    Nat.testBit (8 : UInt8).toNat j = decide (j = 3) ∧
      Nat.testBit (~~~8 : UInt8).toNat j = decide (j ≠ 3) := by
  revert j
  decide

theorem bit_setSts (mem : Memory) (v : Bool) (k : Nat) :
    bit (setSts mem v) k = if k = stsIs then v else bit mem k := by
  have hbyte : k = stsIs ↔ k / 8 = pciStatus ∧ k % 8 = 3 := by
    simp only [stsIs, pciStatus]
    omega
  obtain ⟨hset, hclear⟩ := testBit_eight (Nat.mod_lt k (by decide : 0 < 8))
  rw [bit, setSts]
  by_cases hk : k / 8 = pciStatus
  · rw [if_pos hk]
    cases v with
    | true =>
        rw [if_pos rfl, UInt8.toNat_or, Nat.testBit_or, hset]
        by_cases hlow : k % 8 = 3
        · rw [if_pos (hbyte.mpr ⟨hk, hlow⟩)]
          simp [hlow]
        · simp [hlow, bit, mt (fun h => (hbyte.mp h).2) hlow]
    | false =>
        rw [if_neg Bool.false_ne_true, UInt8.toNat_and, Nat.testBit_and, hclear]
        by_cases hlow : k % 8 = 3
        · rw [if_pos (hbyte.mpr ⟨hk, hlow⟩)]
          simp [hlow]
        · simp [hlow, bit, mt (fun h => (hbyte.mp h).2) hlow]
  · rw [if_neg hk, if_neg fun h => hk (hbyte.mp h).1, bit]

theorem and_twoPow_ne_zero {x : BitVec 32} {i : Nat} (hi : i < 32) :
    x &&& BitVec.twoPow 32 i ≠ 0 ↔ x.getLsbD i = true := by
  have hone : BitVec.twoPow 32 i ≠ 0#32 := by
    intro hzero
    have hbit := congrArg (fun y : BitVec 32 => y.getLsbD i) hzero
    simp [hi] at hbit
  rw [BitVec.and_twoPow]
  cases x.getLsbD i with
  | true => simpa using hone
  | false => simp

section Write

variable {pci pci' : PciDev} {offs size k : Nat} {val : BitVec 32}

def Reenables (pci : PciDev) (offs size : Nat) (val : BitVec 32) : Prop :=
  offs = pciCommand ∧ (load pci.virtDev offs size).getLsbD 10 = true ∧ val.getLsbD 10 = false

instance (pci : PciDev) (offs size : Nat) (val : BitVec 32) :
    Decidable (Reenables pci offs size val) :=
  inferInstanceAs (Decidable (_ ∧ _ ∧ _))

theorem intxDisable_ne_zero (x : BitVec 32) :
    x &&& pciCommandIntxDisable ≠ 0 ↔ x.getLsbD 10 = true :=
  and_twoPow_ne_zero (show 10 < 32 by decide)

theorem msixEnable_ne_zero (x : BitVec 32) :
    x &&& pciMsixFlagsEnable ≠ 0 ↔ x.getLsbD 15 = true :=
  and_twoPow_ne_zero (show 15 < 32 by decide)

theorem decide_eq_getLsbD {x mask : BitVec 32} {i : Nat}
    (h : x &&& mask ≠ 0 ↔ x.getLsbD i = true) : decide (x &&& mask ≠ 0) = x.getLsbD i := by
  cases hbit : x.getLsbD i with
  | true => exact decide_eq_true (h.mpr hbit)
  | false => exact decide_eq_false fun hne => by simp [h.mp hne] at hbit

theorem nvmevPciWrite_eq (pci : PciDev) (offs size : Nat) (val : BitVec 32) :
    (nvmevPciWrite pci offs size val).virtDev =
        store (if Reenables pci offs size val then setSts pci.virtDev false else pci.virtDev)
          offs size ((load pci.virtDev offs size &&& ~~~writeMask offs) |||
            (val &&& writeMask offs)) ∧
      (nvmevPciWrite pci offs size val).intxDisabled =
        (if offs = pciCommand ∧ (load pci.virtDev offs size).getLsbD 10 ≠ val.getLsbD 10 then
          val.getLsbD 10 else pci.intxDisabled) ∧
      (nvmevPciWrite pci offs size val).pdev =
        (if offs = offsPciMsixCap + pciMsixFlags ∧
            (load pci.virtDev offs size).getLsbD 15 ≠ val.getLsbD 15 then
          pci.pdev.map fun _ => val.getLsbD 15 else pci.pdev) := by
  have hintx := intxDisable_ne_zero (load pci.virtDev offs size ^^^ val)
  have hmsix := msixEnable_ne_zero (load pci.virtDev offs size ^^^ val)
  rw [BitVec.getLsbD_xor, bne_iff_ne] at hintx hmsix
  have hdisabled := decide_eq_getLsbD (intxDisable_ne_zero val)
  have henabled := decide_eq_getLsbD (msixEnable_ne_zero val)
  have hne : offsPciMsixCap + pciMsixFlags ≠ pciCommand := by decide
  unfold nvmevPciWrite
  dsimp only
  rw [hdisabled, henabled]
  by_cases hintxFlip : offs = pciCommand ∧
      (load pci.virtDev offs size).getLsbD 10 ≠ val.getLsbD 10
  · have hcommand := hintxFlip.1
    rw [if_pos ⟨hcommand, hintx.mpr hintxFlip.2⟩, if_pos hintxFlip,
      if_neg fun h : offs = offsPciMsixCap + pciMsixFlags ∧ _ => hne (h.1.symm.trans hcommand)]
    refine ⟨?_, rfl, rfl⟩
    cases hnew : val.getLsbD 10 with
    | true =>
        have hkept : ¬ Reenables pci offs size val := by
          rintro ⟨-, -, hclear⟩
          rw [hnew] at hclear
          cases hclear
        rw [if_pos rfl, if_neg hkept]
    | false =>
        rw [hnew] at hintxFlip
        rw [if_neg Bool.false_ne_true,
          if_pos ⟨hcommand, eq_true_of_ne_false hintxFlip.2, hnew⟩]
  · have hkept : ¬ Reenables pci offs size val := by
      rintro ⟨hoffs, hold, hnew⟩
      refine hintxFlip ⟨hoffs, ?_⟩
      rw [hold, hnew]
      decide
    rw [if_neg fun h => hintxFlip ⟨h.1, hintx.mp h.2⟩, if_neg hintxFlip, if_neg hkept]
    by_cases hmsixFlip : offs = offsPciMsixCap + pciMsixFlags ∧
        (load pci.virtDev offs size).getLsbD 15 ≠ val.getLsbD 15
    · rw [if_pos ⟨hmsixFlip.1, hmsix.mpr hmsixFlip.2⟩, if_pos hmsixFlip]
      exact ⟨rfl, rfl, rfl⟩
    · rw [if_neg fun h => hmsixFlip ⟨h.1, hmsix.mp h.2⟩, if_neg hmsixFlip]
      exact ⟨rfl, rfl, rfl⟩

/-- A write stores the bits of its mask. Whatever else it covers keeps the value that
was there before `sts.is` was cleared. -/
theorem bit_nvmevPciWrite (hsize : size ≤ 4) :
    bit (nvmevPciWrite pci offs size val).virtDev k =
      if 8 * offs ≤ k ∧ k < 8 * (offs + size) then
        if (writeMask offs).getLsbD (k - 8 * offs) then val.getLsbD (k - 8 * offs)
        else bit pci.virtDev k
      else if Reenables pci offs size val ∧ k = stsIs then false
      else bit pci.virtDev k := by
  rw [(nvmevPciWrite_eq ..).1, bit_store_masked hsize]
  by_cases hre : Reenables pci offs size val
  · rw [if_pos hre, bit_setSts]
    simp [hre]
  · simp [hre]

end Write

section Runs

variable {pci pci' : PciDev} {offs size k : Nat} {val : BitVec 32} {events : List PciEvent}

theorem writable_of_mask (hsize : size = 1 ∨ size = 2 ∨ size = 4) (haligned : offs % size = 0)
    (hlow : 8 * offs ≤ k) (hhigh : k < 8 * (offs + size))
    (hmask : (writeMask offs).getLsbD (k - 8 * offs) = true) : Writable k := by
  have hreg : ∀ mask, (offs, mask) ∈ writableBits → mask.getLsbD (k - 8 * offs) = true →
      Writable k := fun mask hmem hbit => Or.inl ⟨(offs, mask), hmem, hlow, hbit⟩
  have hend : ∀ n, offs < 4 * n → offs + size ≤ 4 * n := by
    intro n hn
    rcases hsize with rfl | rfl | rfl <;> omega
  have hpm := hend 16
  have hmsix := hend 20
  unfold writeMask at hmask
  split_ifs at hmask with hhdr hcommand hstatus hbist hbar hline hpmcap hmsixcap hflags
  · exact hreg _ (by simp [hcommand, writableBits]) hmask
  · exact hreg _ (by simp [hstatus, writableBits]) hmask
  · exact hreg _ (by simp [hbist, writableBits]) hmask
  · exact hreg _ (by simp [hbar, writableBits]) hmask
  · exact hreg _ (by simp [hline, writableBits]) hmask
  · simp at hmask
  · refine Or.inr (Or.inl ?_)
    simp only [offsPciPmCap, offsPciMsixCap] at hhdr hpmcap ⊢
    omega
  · have hoffs : offs = offsPciMsixCap + pciMsixFlags := by
      simp only [offsPciMsixCap, pciMsixFlags] at hpmcap hflags ⊢
      omega
    exact hreg _ (by rw [hoffs]; simp [writableBits]) hmask
  · simp at hmask
  · refine Or.inr (Or.inr ?_)
    simp only [offsPcieCap] at hmsixcap ⊢
    omega

theorem size_le (h : size = 1 ∨ size = 2 ∨ size = 4) : size ≤ 4 := by
  rcases h with rfl | rfl | rfl <;> decide

theorem pciStep_readOnly {event : PciEvent} (hproper : Proper event)
    (hstep : pciStep pci event = some pci') (hk : ¬ Writable k) (hsts : k ≠ stsIs) :
    bit pci'.virtDev k = bit pci.virtDev k := by
  cases event with
  | write offs size val =>
      obtain ⟨hsize, haligned, -⟩ := hproper
      cases hstep
      rw [bit_nvmevPciWrite (size_le hsize)]
      split_ifs with hin hmask hre
      · exact absurd (writable_of_mask hsize haligned hin.1 hin.2 hmask) hk
      · rfl
      · exact absurd hre.2 hsts
      · rfl
  | signal msiIndex =>
      simp only [pciStep, nvmevSignalIrq] at hstep
      split at hstep
      · cases hstep
      · cases hstep
        rfl
      · cases hstep
        change bit (setSts pci.virtDev true) k = _
        rw [bit_setSts, if_neg hsts]

/-- The flags beside the configuration space say what is written there. -/
structure Mirrors (pci : PciDev) : Prop where
  intx : pci.intxDisabled = bit pci.virtDev intxDisableBit
  msix : ∀ enabled, pci.pdev = some enabled → enabled = bit pci.virtDev msixEnableBit

theorem getLsbD_of_lt {n i : Nat} (h : val.toNat < 2 ^ n) (hi : n ≤ i) :
    val.getLsbD i = false := by
  rw [← BitVec.testBit_toNat]
  exact Nat.testBit_lt_two_pow
    (Nat.lt_of_lt_of_le h (Nat.pow_le_pow_right Nat.two_pos hi))

/-- Bit `k` of the byte `reg + 1` can only be written through the register `reg`. -/
theorem flag_of_write (reg i : Nat) (hproper : Proper (.write offs size val))
    (heven : reg % 2 = 0) (hi : 8 ≤ i ∧ i < 16) (hk : k = 8 * reg + i)
    (hmask : (writeMask reg).getLsbD i = true) (hnext : writeMask (reg + 1) = 0)
    (hdword : reg % 4 = 0 ∨ writeMask (reg - 2) = 0) (hsts : k ≠ stsIs) :
    bit (nvmevPciWrite pci offs size val).virtDev k =
      if offs = reg ∧ (load pci.virtDev offs size).getLsbD i ≠ val.getLsbD i then
        val.getLsbD i else bit pci.virtDev k := by
  obtain ⟨hsize, haligned, hval⟩ := hproper
  have hle := size_le hsize
  rw [bit_nvmevPciWrite hle, getLsbD_load hle]
  rcases eq_or_ne offs reg with rfl | hne
  · have hbit : k - 8 * offs = i := by omega
    rw [hbit, hmask, if_pos rfl, hk]
    rcases hsize with rfl | hsize
    · have hclear := getLsbD_of_lt hval hi.1
      rw [hclear, decide_eq_false (by omega), if_neg (by omega), if_neg fun h => hsts (hk ▸ h.2)]
      simp
    · rw [if_pos (by omega), decide_eq_true (by omega), Bool.true_and]
      cases bit pci.virtDev (8 * offs + i) <;> cases val.getLsbD i <;> simp
  · rw [if_neg fun h : offs = reg ∧ _ => hne h.1]
    split_ifs with hin hbit hre
    · exfalso
      rcases hsize with rfl | rfl | rfl
      · obtain rfl : offs = reg + 1 := by omega
        simp [hnext] at hbit
      · exact hne (by omega)
      · rcases hdword with haligned' | hzero
        · exact hne (by omega)
        · rcases Nat.lt_or_ge offs reg with hlt | hge
          · obtain rfl : offs = reg - 2 := by omega
            simp [hzero] at hbit
          · exact hne (by omega)
    · rfl
    · exact absurd hre.2 hsts
    · rfl

theorem nvmevPciWrite_mirrors (h : Mirrors pci) (hproper : Proper (.write offs size val)) :
    Mirrors (nvmevPciWrite pci offs size val) := by
  obtain ⟨-, hintx, hpdev⟩ := nvmevPciWrite_eq pci offs size val
  constructor
  · rw [hintx, flag_of_write (k := intxDisableBit) pciCommand 10 hproper
      (by decide) (by decide) rfl (by decide) (by decide) (Or.inl (by decide)) (by decide),
      h.intx]
  · intro enabled henabled
    rw [flag_of_write (k := msixEnableBit) (offsPciMsixCap + pciMsixFlags) 15
      hproper (by decide) (by decide) rfl (by decide) (by decide) (Or.inr (by decide))
      (by decide)]
    rw [hpdev] at henabled
    split_ifs at henabled ⊢ with hflip
    · obtain ⟨-, -, hval⟩ := Option.map_eq_some_iff.mp henabled
      exact hval.symm
    · exact h.msix enabled henabled

theorem pciStep_mirrors {event : PciEvent} (h : Mirrors pci) (hproper : Proper event)
    (hstep : pciStep pci event = some pci') : Mirrors pci' := by
  cases event with
  | write offs size val =>
      cases hstep
      exact nvmevPciWrite_mirrors h hproper
  | signal msiIndex =>
      simp only [pciStep, nvmevSignalIrq] at hstep
      split at hstep
      · cases hstep
      · cases hstep
        exact h
      · cases hstep
        have hkept : ∀ k, k ≠ stsIs → bit (setSts pci.virtDev true) k = bit pci.virtDev k := by
          intro k hk
          rw [bit_setSts, if_neg hk]
        refine ⟨h.intx.trans (hkept _ (by decide)).symm, ?_⟩
        intro enabled henabled
        exact (h.msix enabled henabled).trans (hkept _ (by decide)).symm

theorem pciRun_keeps {P : PciDev → Prop}
    (hstep : ∀ pci pci' event, P pci → Proper event → pciStep pci event = some pci' → P pci')
    (h : P pci) (hproper : ∀ event ∈ events, Proper event)
    (hrun : pciRun pci events = some pci') : P pci' := by
  induction events generalizing pci with
  | nil =>
      cases hrun
      exact h
  | cons event events ih =>
      simp only [pciRun, List.foldlM_cons] at hrun
      obtain ⟨mid, hmid, hrest⟩ := Option.bind_eq_some_iff.mp hrun
      exact ih (hstep pci mid event h (hproper event List.mem_cons_self) hmid)
        (fun e he => hproper e (List.mem_cons_of_mem _ he)) hrest

end Runs

section Results

variable {k : Nat}

theorem settable (offs size : Nat) (mask : BitVec 32) (v : Bool)
    (hsize : size = 1 ∨ size = 2 ∨ size = 4) (haligned : offs % size = 0)
    (hfits : mask.toNat < 2 ^ (8 * size)) (hpage : offs + size ≤ 4096) (hlow : 8 * offs ≤ k)
    (hmask : mask.getLsbD (k - 8 * offs) = true)
    (hwrite : (writeMask offs).getLsbD (k - 8 * offs) = true) :
    ∃ offs size val, Proper (.write offs size val) ∧ offs + size ≤ 4096 ∧ ∀ pci,
      bit (nvmevPciWrite pci offs size val).virtDev k = v := by
  have hhigh : k < 8 * (offs + size) := by
    by_contra hge
    have hclear := getLsbD_of_lt (i := k - 8 * offs) hfits (by omega)
    rw [hclear] at hmask
    cases hmask
  refine ⟨offs, size, if v then mask else 0, ⟨hsize, haligned, ?_⟩, hpage, ?_⟩
  · cases v with
    | true => exact hfits
    | false => exact Nat.two_pow_pos _
  · intro pci
    rw [bit_nvmevPciWrite (size_le hsize), if_pos ⟨hlow, hhigh⟩, if_pos hwrite]
    cases v with
    | true => exact hmask
    | false => simp

theorem settable_of_writable (hk : Writable k) (hpage : k < 8 * 4096) (v : Bool) :
    ∃ offs size val, Proper (.write offs size val) ∧ offs + size ≤ 4096 ∧ ∀ pci,
      bit (nvmevPciWrite pci offs size val).virtDev k = v := by
  rcases hk with ⟨⟨offs, mask⟩, hmem, hlow, hmask⟩ | hbytes
  · simp only [writableBits, List.mem_cons, Prod.mk.injEq, List.not_mem_nil, or_false] at hmem
    rcases hmem with ⟨rfl, rfl⟩ | ⟨rfl, rfl⟩ | ⟨rfl, rfl⟩ | ⟨rfl, rfl⟩ | ⟨rfl, rfl⟩ | ⟨rfl, rfl⟩
    · exact settable _ _ _ v (Or.inr (Or.inl rfl)) (by decide) (by decide) (by decide) hlow
        hmask hmask
    · exact settable _ _ _ v (Or.inr (Or.inl rfl)) (by decide) (by decide) (by decide) hlow
        hmask hmask
    · exact settable _ _ _ v (Or.inl rfl) (by decide) (by decide) (by decide) hlow hmask hmask
    · exact settable _ _ _ v (Or.inr (Or.inr rfl)) (by decide) (by decide) (by decide) hlow
        hmask hmask
    · exact settable _ _ _ v (Or.inl rfl) (by decide) (by decide) (by decide) hlow hmask hmask
    · exact settable _ _ _ v (Or.inr (Or.inl rfl)) (by decide) (by decide) (by decide) hlow
        hmask hmask
  · -- Where every bit is writable, one byte is enough.
    have hall : writeMask (k / 8) = BitVec.allOnes 32 := by
      have hhdr : ¬ k / 8 < offsPciPmCap := by
        simp only [offsPciPmCap, offsPciMsixCap, offsPcieCap] at hbytes ⊢
        omega
      rw [writeMask, if_neg hhdr]
      split
      · rfl
      · rename_i hmsix
        have hcap : ¬ k / 8 < offsPcieCap := by
          simp only [offsPciPmCap, offsPciMsixCap, offsPcieCap] at hbytes hmsix ⊢
          omega
        rw [if_neg hcap]
    have hbit : k - 8 * (k / 8) < 8 := by omega
    refine settable (k / 8) 1 0xFF v (Or.inl rfl)
      (Nat.mod_one _) (by decide) (by omega) (by omega) ?_ ?_
    · generalize k - 8 * (k / 8) = i at hbit
      revert i
      decide
    · rw [hall, BitVec.getLsbD_allOnes]
      exact decide_eq_true (Nat.lt_trans hbit (by decide))

/-- Whatever aligned accesses and interrupts come, a bit of the configuration space that
is not writable keeps its value, `sts.is` apart; every writable bit of the page can be
set to either value. -/
theorem read_only_bits_kept {pci pci' : PciDev} {events : List PciEvent}
    (hproper : ∀ event ∈ events, Proper event) (hrun : pciRun pci events = some pci') :
    (∀ k, ¬ Writable k → k ≠ stsIs → bit pci'.virtDev k = bit pci.virtDev k) ∧
    ∀ k, Writable k → k < 8 * 4096 → ∀ v, ∃ offs size val, Proper (.write offs size val) ∧
      offs + size ≤ 4096 ∧ bit (nvmevPciWrite pci' offs size val).virtDev k = v := by
  constructor
  · intro k hk hsts
    refine pciRun_keeps (P := fun mid => bit mid.virtDev k = bit pci.virtDev k) ?_ rfl
      hproper hrun
    intro mid mid' event hmid hevent hstep
    exact (pciStep_readOnly hevent hstep hk hsts).trans hmid
  · intro k hk hpage v
    obtain ⟨offs, size, val, hwrite, hfits, hset⟩ := settable_of_writable hk hpage v
    exact ⟨offs, size, val, hwrite, hfits, hset pci'⟩

/-- The probing host sizes BAR 0, puts an address into it and turns MSI-X off. -/
def probe : List PciEvent :=
  [.write pciBaseAddress0 4 0xFFFFFFFF, .write pciBaseAddress0 4 0x80000000,
    .write (offsPciMsixCap + pciMsixFlags) 2 0x007F]

theorem read_only_bits_kept_probe :
    ∃ pci', pciRun (nvmevPciInit 0xFE004000) probe = some pci' ∧
      bit pci'.virtDev (8 * pciBaseAddress0 + 2) = true := by
  have hproper : ∀ event ∈ probe, Proper event := by
    intro event hevent
    simp only [probe, List.mem_cons, List.not_mem_nil, or_false] at hevent
    rcases hevent with rfl | rfl | rfl <;> simp [Proper, pciBaseAddress0, offsPciMsixCap,
      pciMsixFlags]
  refine ⟨_, rfl, ((read_only_bits_kept hproper rfl).1 (8 * pciBaseAddress0 + 2) ?_
    (by decide)).trans ?_⟩
  · simp [Writable, writableBits, offsPciPmCap, offsPcieCap, pciCommand, pciStatus, pciBist,
      pciBaseAddress0, pciInterruptLine, offsPciMsixCap, pciMsixFlags]
  · decide

/-- From a state in which the flags kept beside the configuration space agree with it,
they agree after every run, and an interrupt is raised by MSI-X exactly when the host
has it enabled, and otherwise pending in `sts.is`. A word write that turns INTx on
again acknowledges it; a double word that covers the status register as well does not. -/
theorem interrupt_flags_mirrored {pci pci' : PciDev} {events : List PciEvent}
    (h : Mirrors pci) (hproper : ∀ event ∈ events, Proper event)
    (hrun : pciRun pci events = some pci') :
    Mirrors pci' ∧
    (∀ msiIndex pci'' irq, nvmevSignalIrq pci' msiIndex = some (pci'', irq) →
      (irq = .msi msiIndex ↔ bit pci'.virtDev msixEnableBit = true) ∧
      (irq = .intx → bit pci''.virtDev stsIs = true)) ∧
    ∀ size val, Proper (.write pciCommand size val) → Reenables pci' pciCommand size val →
      bit (nvmevPciWrite pci' pciCommand size val).virtDev stsIs =
        if size = 4 then bit pci'.virtDev stsIs else false := by
  have hend : Mirrors pci' := pciRun_keeps
    (fun _ _ _ hmid hevent hstep => pciStep_mirrors hmid hevent hstep) h hproper hrun
  refine ⟨hend, ?_, ?_⟩
  · intro msiIndex pci'' irq hsignal
    unfold nvmevSignalIrq at hsignal
    split at hsignal
    · cases hsignal
    · rename_i hpdev
      cases hsignal
      rw [← hend.msix true hpdev]
      exact ⟨iff_of_true rfl rfl, fun hirq => by cases hirq⟩
    · rename_i hpdev
      cases hsignal
      rw [← hend.msix false hpdev]
      refine ⟨iff_of_false (by simp) (by simp), ?_⟩
      intro _
      change bit (setSts pci'.virtDev true) stsIs = true
      rw [bit_setSts, if_pos rfl]
  · rintro size val ⟨hsize, haligned, hval⟩ hre
    rw [bit_nvmevPciWrite (size_le hsize)]
    rcases hsize with rfl | rfl | rfl
    · rw [if_neg (by decide), if_pos ⟨hre, rfl⟩, if_neg (by decide)]
    · rw [if_neg (by decide), if_pos ⟨hre, rfl⟩, if_neg (by decide)]
    · rw [if_pos (by decide), if_neg (by decide), if_pos rfl]

/-- The configured device as the driver finds it, with MSI-X off. -/
def foundDevice : PciDev :=
  { nvmevPciWrite (nvmevPciInit 0xFE004000) (offsPciMsixCap + pciMsixFlags) 2 0x007F with
    pdev := some false }

theorem interrupt_flags_mirrored_enabled :
    ∃ pci', pciRun foundDevice [.write (offsPciMsixCap + pciMsixFlags) 2 0x807F] = some pci' ∧
      Mirrors pci' := by
  have hmirrors : Mirrors foundDevice := by
    constructor
    · decide
    · intro enabled henabled
      obtain rfl := Option.some.inj henabled
      decide
  have hproper : ∀ event ∈ [PciEvent.write (offsPciMsixCap + pciMsixFlags) 2 0x807F],
      Proper event := by
    intro event hevent
    obtain rfl := List.mem_singleton.mp hevent
    simp [Proper, offsPciMsixCap, pciMsixFlags]
  exact ⟨_, rfl, (interrupt_flags_mirrored hmirrors hproper rfl).1⟩

end Results

end NvmeVirt.PciConfig
