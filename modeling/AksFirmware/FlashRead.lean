import AksFirmware.CText

/-!
# Reading the flash through the web server

`CGI_flash_read` sends `LEN` blocks of the flash from block `START` on.  A request that does
not fit gets the last 64 blocks of the first megabyte instead.  The test adds the two numbers
as `int`s, so that a sum from 2^31 on counts as a negative one and passes; the addresses are
`unsigned int`s.
-/

namespace AksFirmware.FlashRead

open ByteMemory CText

/-- The size of the flash in KiB. -/
def CONFIG_XROUTER_FLASH_SIZE : Int := 2048

def flashBytes : Nat := 2048 * 1024

/-- `a + b` as the processor adds two `int`s. -/
def addInt (a b : Int) : Int := int32 ((a + b) % 0x100000000).toNat

/-- What the two variables of the request ask for. -/
def asked (START LEN : Option Text) : Int × Int :=
  match START, LEN with
  | some start, some len => (atoi start, atoi len)
  | _, _ => (-1, -1)

/-- `istart` and `ilen` behind the test. -/
def granted (START LEN : Option Text) : Int × Int :=
  let r := asked START LEN
  if r.1 < 0 ∨ r.2 ≤ 0 ∨ addInt r.1 r.2 > CONFIG_XROUTER_FLASH_SIZE then (1024 - 64, 64) else r

/-- `(istart+i)*1024` as the first argument of `flsh_read`. -/
def address (istart : Int) (i : Nat) : Nat := ((istart + i) * 1024 % 0x100000000).toNat

inductive Answer where
  | printed (msg : Text)
  | blocks (sent : List (Nat × List UInt8))
deriving DecidableEq

/-- The addresses that `flsh_read` is called with. -/
def Answer.addresses : Answer → List Nat
  | .printed _ => []
  | .blocks sent => sent.map Prod.fst

/-- `flsh_read addr` is what the driver puts into the buffer, and `buff` whether there is one. -/
def CGI_flash_read (flsh_read : Nat → List UInt8) (buff : Bool) (START LEN : Option Text) :
    Answer :=
  let r := granted START LEN
  if buff then
    .blocks ((List.range r.2.toNat).map fun i => (address r.1 i, flsh_read (address r.1 i)))
  else .printed (ascii "no memory!")

/-! ### The sum of two numbers -/

/-- The two numbers pass for themselves, but not their sum. -/
def Overflows (istart ilen : Int) : Prop := 0 ≤ istart ∧ 0 < ilen ∧ 0x80000000 ≤ istart + ilen

theorem asked_range (START LEN : Option Text) :
    (asked START LEN).1 < 0x80000000 ∧ (asked START LEN).2 < 0x80000000 := by
  unfold asked
  split
  · exact ⟨(atoi_range _).2, (atoi_range _).2⟩
  · decide

theorem addInt_of_small {a b : Int} (h : 0 ≤ a + b) (h' : a + b < 0x80000000) :
    addInt a b = a + b := by
  rw [addInt, Int.emod_eq_of_lt h (by omega), int32_of_lt (by omega), Int.toNat_of_nonneg h]

theorem addInt_of_overflow {a b : Int} (h : 0x80000000 ≤ a + b) (h' : a + b < 0x100000000) :
    addInt a b = a + b - 0x100000000 := by
  have hmod : (a + b) % 0x100000000 = a + b := Int.emod_eq_of_lt (by omega) h'
  rw [addInt, hmod, int32]
  have hlow : (a + b).toNat % 0x100000000 = (a + b).toNat := Nat.mod_eq_of_lt (by omega)
  simp only [hlow]
  rw [if_neg (by omega), Int.toNat_of_nonneg (by omega)]

/-- Without an overflow the granted blocks lie inside the flash. -/
theorem granted_in_flash {START LEN : Option Text}
    (h : ¬ Overflows (asked START LEN).1 (asked START LEN).2) :
    0 ≤ (granted START LEN).1 ∧
      (granted START LEN).1 + (granted START LEN).2 ≤ CONFIG_XROUTER_FLASH_SIZE := by
  unfold granted
  dsimp only
  split
  · decide
  · rename_i hpass
    have hsum : addInt (asked START LEN).1 (asked START LEN).2 =
        (asked START LEN).1 + (asked START LEN).2 := by
      unfold Overflows at h
      exact addInt_of_small (by omega) (by omega)
    rw [hsum] at hpass
    omega

/-- With an overflow the request is granted as it stands. -/
theorem granted_of_overflows {START LEN : Option Text}
    (h : Overflows (asked START LEN).1 (asked START LEN).2) :
    granted START LEN = asked START LEN := by
  obtain ⟨hstart, hlen, hsum⟩ := h
  have hrange := asked_range START LEN
  have hadd := addInt_of_overflow hsum (by omega)
  have hsize : CONFIG_XROUTER_FLASH_SIZE = 2048 := rfl
  unfold granted
  dsimp only
  rw [if_neg]
  omega

theorem address_in_flash {istart : Int} {i : Nat} (h : 0 ≤ istart)
    (h' : istart + i < CONFIG_XROUTER_FLASH_SIZE) : address istart i + 1024 ≤ flashBytes := by
  simp only [CONFIG_XROUTER_FLASH_SIZE] at h'
  simp only [address, flashBytes]
  rw [Int.emod_eq_of_lt (by omega) (by omega)]
  omega

/-- Some block of an overflowing range is the last one below 2^31. -/
theorem exists_address_outside {istart ilen : Int} (h : Overflows istart ilen)
    (hstart : istart < 0x80000000) :
    ∃ i < ilen.toNat, flashBytes ≤ address istart i := by
  obtain ⟨hnonneg, hlen, hsum⟩ := h
  refine ⟨(0x7fffffff - istart).toNat, by omega, ?_⟩
  have hlast : istart + ((0x7fffffff - istart).toNat : Nat) = 0x7fffffff := by omega
  rw [address, hlast]
  decide

theorem addresses_eq (flsh_read : Nat → List UInt8) (START LEN : Option Text) :
    (CGI_flash_read flsh_read true START LEN).addresses =
      (List.range (granted START LEN).2.toNat).map (address (granted START LEN).1) := by
  rw [CGI_flash_read, if_pos rfl, Answer.addresses, List.map_map]
  rfl

theorem overflows_asked_iff (START LEN : Option Text) :
    (∃ start len, START = some start ∧ LEN = some len ∧
      0 ≤ atoi start ∧ 0 < atoi len ∧ 0x80000000 ≤ atoi start + atoi len) ↔
      Overflows (asked START LEN).1 (asked START LEN).2 := by
  constructor
  · rintro ⟨start, len, rfl, rfl, h⟩
    exact h
  · intro h
    cases START with
    | none => exact absurd h.1 (show ¬ (0 : Int) ≤ -1 by decide)
    | some start =>
      cases LEN with
      | none => exact absurd h.1 (show ¬ (0 : Int) ≤ -1 by decide)
      | some len => exact ⟨start, len, rfl, rfl, h⟩

/-! ### The addresses of a request -/

/-- `START=2147483647&LEN=1` reads the last kilobyte of the address range. -/
theorem flash_read_leaves_flash :
    ∃ addr ∈ (CGI_flash_read (fun _ => []) true (some (ascii "2147483647"))
      (some (ascii "1"))).addresses, ¬ addr < flashBytes := by
  decide

/-- A block at an address inside the flash ends inside it too. -/
theorem flash_read_addresses_iff (flsh_read : Nat → List UInt8) (buff : Bool)
    (START LEN : Option Text) :
    (∀ addr ∈ (CGI_flash_read flsh_read buff START LEN).addresses,
        addr < flashBytes ∧ addr + 1024 ≤ flashBytes) ↔
      ¬ (buff = true ∧ ∃ start len, START = some start ∧ LEN = some len ∧
        0 ≤ atoi start ∧ 0 < atoi len ∧ 0x80000000 ≤ atoi start + atoi len) := by
  rw [overflows_asked_iff]
  cases buff with
  | false =>
    refine iff_of_true (fun addr haddr => ?_) (by simp)
    rw [CGI_flash_read, if_neg (by decide)] at haddr
    exact nomatch haddr
  | true =>
    rw [addresses_eq]
    constructor
    · rintro hall ⟨-, hover⟩
      obtain ⟨i, hi, hout⟩ := exists_address_outside hover (asked_range START LEN).1
      rw [← granted_of_overflows hover] at hi hout
      have hin := (hall _ (List.mem_map.mpr ⟨i, List.mem_range.mpr hi, rfl⟩)).1
      exact absurd hin (Nat.not_lt.mpr hout)
    · intro hnot addr haddr
      obtain ⟨hstart, hend⟩ := granted_in_flash fun hover => hnot ⟨rfl, hover⟩
      obtain ⟨i, hi, rfl⟩ := List.mem_map.mp haddr
      rw [List.mem_range] at hi
      have hblock : address (granted START LEN).1 i + 1024 ≤ flashBytes :=
        address_in_flash hstart (by omega)
      exact ⟨by omega, hblock⟩

end AksFirmware.FlashRead
