import AksFirmware.WebConfig

/-!
# The gaffer window

A second Art-Net universe may take over a window of DMX channels.  A packet of
the gaffer universe is never sent on; `check_gaffer_packet` keeps the window of
its slots in `gaffer_data`, and `replace_channel_data` puts the kept slots into
the packets of the main universe.

Both routines count channels from 1 and index from `&data[17]`, so that channel
`c` is byte `17 + c` of the packet and byte `c` of `gaffer_data`.
-/

namespace AksFirmware.Gaffer

open ByteMemory CText WebConfig

/-- `sizeof(gaffer_data)`. -/
def GAFFER_DATA_SIZE : Nat := 514

/-- The size of the buffer that packets are received into. -/
def PACKET_SIZE : Nat := 638

/-- `(uni | sub << 4) & 0xff`, on 32-bit integers. -/
def portAddress (uni sub : Int) : Nat :=
  ((BitVec.ofInt 32 uni ||| BitVec.ofInt 32 sub <<< 4) &&& 0xff#32).toNat

/-- A configured number: `ratpac_get_str` into `char Uni[4]`, then `atoi`.  A text that
does not fit the buffer leaves the outcome undefined. -/
def number (G : Globals) (id : Nat) : Option Int :=
  let Uni := (ratpac_get_str G id).2
  if Uni.length < 4 then some (atoi Uni) else none

def configuredAddress (G : Globals) (uniId subId : Nat) : Option Nat := do
  let uni_num ← number G uniId
  let art_sub ← number G subId
  pure (portAddress uni_num art_sub)

/-- The test that both routines start with: only `1` switches the gaffer off. -/
def disabled (G : Globals) : Bool :=
  (ratpac_get_str G (CFG_str2id "GAFFER_ENABLE")).2.head? = some 0x31

/-- Keep the window of a packet on the gaffer universe.  The packet is read through
`char *`, which is signed on this target. -/
def check_gaffer_packet (G : Globals) (gaffer_data data : Mem) (len : Nat) : Option Mem :=
  if len < 50 then some gaffer_data
  else if disabled G then some gaffer_data
  else do
    let uni_num ← configuredAddress G (CFG_str2id "GAFFER_UNIVERSE") (CFG_str2id "GAFFER_SUBNET")
    if (uni_num : Int) = (data 14).toInt8.toInt then
      let lower ← number G (CFG_str2id "GAFFER_LOWER")
      let upper ← number G (CFG_str2id "GAFFER_UPPER")
      move gaffer_data GAFFER_DATA_SIZE lower data PACKET_SIZE (17 + lower) (upper - lower + 1)
    else some gaffer_data

def replace_channel_data (G : Globals) (gaffer_data data : Mem) : Option Mem :=
  if disabled G then some data
  else do
    let lower ← number G (CFG_str2id "GAFFER_LOWER")
    let upper ← number G (CFG_str2id "GAFFER_UPPER")
    move data PACKET_SIZE (17 + lower) gaffer_data GAFFER_DATA_SIZE lower (upper - lower + 1)

/-! ### What the two routines do under a sound configuration -/

theorem portAddress_of_lt {uni sub : Nat} (hu : uni < 16) (hs : sub < 16) :
    portAddress uni sub = 16 * sub + uni := by
  have hall : ∀ u < 16, ∀ s < 16, portAddress (u : Nat) (s : Nat) = 16 * s + u := by
    decide +kernel
  exact hall uni hu sub hs

/-- The gaffer is enabled on a universe and a subnet in `0..15`, with a window inside
the 512 channels. -/
structure Window (G : Globals) (uni sub lower upper : Nat) : Prop where
  enabled : disabled G = false
  uni_eq : number G (CFG_str2id "GAFFER_UNIVERSE") = some (uni : Int)
  uni_lt : uni < 16
  sub_eq : number G (CFG_str2id "GAFFER_SUBNET") = some (sub : Int)
  sub_lt : sub < 16
  lower_eq : number G (CFG_str2id "GAFFER_LOWER") = some (lower : Int)
  upper_eq : number G (CFG_str2id "GAFFER_UPPER") = some (upper : Int)
  lower_pos : 1 ≤ lower
  lower_le : lower ≤ upper
  upper_le : upper ≤ 512

section Window

variable {G : Globals} {uni sub lower upper : Nat} (w : Window G uni sub lower upper)
include w

theorem Window.address_eq :
    configuredAddress G (CFG_str2id "GAFFER_UNIVERSE") (CFG_str2id "GAFFER_SUBNET") =
      some (16 * sub + uni) := by
  simp only [configuredAddress, w.uni_eq, w.sub_eq, Option.bind_eq_bind, Option.bind_some,
    Option.pure_def, portAddress_of_lt w.uni_lt w.sub_lt]

theorem Window.width : (upper : Int) - lower + 1 = ((upper - lower + 1 : Nat) : Int) := by
  have := w.lower_le
  omega

/-- A packet whose signed universe byte is the gaffer address refills the window; any
other packet leaves the kept slots alone. -/
theorem Window.check_slots (gaffer_data data : Mem) {len : Nat} (hlen : 50 ≤ len) :
    ∃ kept, check_gaffer_packet G gaffer_data data len = some kept ∧
      (((16 * sub + uni : Nat) : Int) = (data 14).toInt8.toInt →
        ∀ c, lower ≤ c → c ≤ upper → kept c = data (17 + c)) ∧
      (((16 * sub + uni : Nat) : Int) ≠ (data 14).toInt8.toInt → kept = gaffer_data) := by
  have hle := w.lower_le
  have hup := w.upper_le
  have hmove : move gaffer_data GAFFER_DATA_SIZE lower data PACKET_SIZE (17 + lower : Nat)
      (upper - lower + 1 : Nat) =
        some (store gaffer_data lower (load data (17 + lower) (upper - lower + 1))) :=
    move_eq_some gaffer_data data (by simp only [GAFFER_DATA_SIZE]; omega)
      (by simp only [PACKET_SIZE]; omega)
  simp only [check_gaffer_packet, if_neg (Nat.not_lt.mpr hlen), w.enabled, Bool.false_eq_true,
    if_false, w.address_eq, w.lower_eq, w.upper_eq, w.width, Option.bind_eq_bind,
    Option.bind_some]
  split
  · rename_i huni
    refine ⟨_, hmove, fun _ c hlo hhi => ?_, fun h => absurd huni h⟩
    rw [store_load_eq, if_pos (by omega), show 17 + lower + (c - lower) = 17 + c by omega]
  · rename_i huni
    exact ⟨_, rfl, fun h => absurd h huni, fun _ => rfl⟩

/-- Only the bytes of the window change, and they come from the kept slots. -/
theorem Window.replace_slots (gaffer_data data : Mem) :
    ∃ merged, replace_channel_data G gaffer_data data = some merged ∧
      ∀ x, merged x =
        if 17 + lower ≤ x ∧ x ≤ 17 + upper then gaffer_data (x - 17) else data x := by
  have hle := w.lower_le
  have hup := w.upper_le
  have hmove : move data PACKET_SIZE (17 + lower : Nat) gaffer_data GAFFER_DATA_SIZE lower
      (upper - lower + 1 : Nat) =
        some (store data (17 + lower) (load gaffer_data lower (upper - lower + 1))) :=
    move_eq_some data gaffer_data (by simp only [PACKET_SIZE]; omega)
      (by simp only [GAFFER_DATA_SIZE]; omega)
  simp only [replace_channel_data, w.enabled, Bool.false_eq_true, if_false, w.lower_eq,
    w.upper_eq, w.width, Option.bind_eq_bind, Option.bind_some]
  refine ⟨_, hmove, fun x => ?_⟩
  rw [store_load_eq]
  by_cases hx : 17 + lower ≤ x ∧ x ≤ 17 + upper
  · rw [if_pos hx, if_pos (by omega), show lower + (x - (17 + lower)) = x - 17 by omega]
  · rw [if_neg hx, if_neg (by omega)]

end Window

end AksFirmware.Gaffer
