import AksFirmware.SamdSender
import Mathlib.Order.Bounds.Basic

/-!
# The length of an uploaded firmware

The length of an upload reaches `SAMD_firmware_download` unchecked, and three things there
depend on it: the staging buffer of 32 KiB, the mask that rounds the length up, which has
16 bits, and the two bytes of the length in the last message.  The buffer gives way first,
at 32769 bytes.
-/

namespace AksFirmware.SamdLength

open ByteMemory CText SamdDownload SamdSender

/-! ### The length in the last message -/

/-- The length that a receiver reads in the last message. -/
def doneLength (done : List UInt8) : Nat :=
  (done[4]?.getD 0).toNat + 256 * (done[5]?.getD 0).toNat

theorem doneLength_eq (firmware : List UInt8) :
    doneLength (done_msg firmware) = firmware.length % 0x10000 := by
  have hlo : (done_msg firmware)[4]? = some firmware.length.toUInt8 := rfl
  have hhi : (done_msg firmware)[5]? = some (firmware.length >>> 8).toUInt8 := rfl
  simp only [doneLength, hlo, hhi, Option.getD_some, Nat.toUInt8_eq, UInt8.toNat_ofNat',
    Nat.shiftRight_eq_div_pow]
  omega

/-! ### What a length must be for a download -/

/-- The least whole number of packets that holds a firmware of this length. -/
def LeastPadding (len pad : Nat) : Prop := IsLeast {n | PKT_SIZE ∣ n ∧ len ≤ n} pad

theorem leastPadding_padLen {len : Nat} (h : len ≤ FIRMWARE_PAD_SIZE) :
    LeastPadding len (padLen len) := by
  obtain ⟨hpad, hle⟩ := padLen_eq h
  refine ⟨⟨?_, hle⟩, ?_⟩
  · rw [hpad]
    exact Nat.dvd_mul_right ..
  · rintro n ⟨⟨k, rfl⟩, hn⟩
    rw [hpad]
    apply Nat.mul_le_mul_left
    simp only [PKT_SIZE] at *
    omega

theorem padLen_le {len : Nat} (h : len ≤ FIRMWARE_PAD_SIZE) : padLen len ≤ FIRMWARE_PAD_SIZE := by
  have hleast := (leastPadding_padLen h).2
  exact hleast ⟨by decide, h⟩

/-- The firmware is refused: whatever the SAMD would answer, the call returns an error and
has sent nothing. -/
def Refused (firmware : List UInt8) (which : Int) : Prop :=
  ∀ s : Sender Answers, ∃ ret s',
    SamdSender.SAMD_firmware_download script firmware which s = some (ret, s') ∧ ret ≠ 0 ∧
      s'.sent = s.sent

/-- The firmware is refused, or it is padded within the buffer and announced with its
length. -/
def Handled (firmware : List UInt8) (which : Int) : Prop :=
  Refused firmware which ∨
    LeastPadding firmware.length (padLen firmware.length) ∧
      padLen firmware.length ≤ FIRMWARE_PAD_SIZE ∧
      doneLength (done_msg firmware) = firmware.length

/-- A firmware that does not fit the buffer is not refused: it is copied over its end. -/
theorem not_handled {firmware : List UInt8} (which : Int)
    (h : FIRMWARE_PAD_SIZE < firmware.length) : ¬ Handled firmware which := by
  rintro (hrefused | ⟨hleast, hle, -⟩)
  · obtain ⟨ret, s', hrun, -⟩ := hrefused (idleSender [])
    rw [SamdSender.SAMD_firmware_download, if_pos h] at hrun
    cases hrun
  · exact absurd (Nat.le_trans hleast.1.2 hle) (Nat.not_le.mpr h)

/-- **The uploads that are handled are those of at most 32 KiB.** -/
theorem handled_iff (firmware : List UInt8) (which : Int) :
    Handled firmware which ↔ firmware.length ≤ FIRMWARE_PAD_SIZE := by
  constructor
  · intro hhandled
    by_contra hlarge
    exact not_handled which (Nat.lt_of_not_le hlarge) hhandled
  · intro h
    refine Or.inr ⟨leastPadding_padLen h, padLen_le h, ?_⟩
    rw [doneLength_eq]
    exact Nat.mod_eq_of_lt (Nat.lt_of_le_of_lt h (by decide))

/-- An upload of 64 KiB: nothing of it would be sent, and its length would read zero. -/
theorem large_upload :
    ¬ Handled (List.replicate 65536 0) 0 ∧ padLen 65536 = 0 ∧
      doneLength (done_msg (List.replicate 65536 0)) = 0 := by
  refine ⟨not_handled 0 ?_, by decide, ?_⟩
  · rw [List.length_replicate]
    decide
  · rw [doneLength_eq, List.length_replicate]

end AksFirmware.SamdLength
