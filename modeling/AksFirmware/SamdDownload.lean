import AksFirmware.SamdLink

/-!
# Downloading the firmware of the SAMD

`SAMD_firmware_download` pads the firmware to whole blocks and sends them one by one.
`Send_SAMD_CMD` sends a command again when no answer comes in time, and the loop over the
blocks sends a block again when its answer is not `ok`.  Blocks carry no number.

The receiver appends every block with a good checksum.  Nothing gets lost on the way to
it; its answers may arrive late, in any order, or never.  They are texts that `ret_buff`
holds; `SamdSender` takes answers of any length.
-/

namespace AksFirmware.SamdDownload

open ByteMemory CText
open SamdLink (RET_BUFF_SIZE)

def PKT_SIZE : Nat := 512
def FIRMWARE_PAD_SIZE : Nat := 32 * 1024

/-! ### The receiver and the line to it -/

def checksum (bytes : List UInt8) : UInt8 := bytes.foldl (· ^^^ ·) 0

/-- A block followed by its checksum. -/
def isPacket (msg : List UInt8) : Bool :=
  msg.length = PKT_SIZE + 1 && msg.drop PKT_SIZE = [checksum (msg.take PKT_SIZE)]

/-- A text that `ret_buff` holds with its zero. -/
structure Answer where
  text : Text
  fits : text.length < RET_BUFF_SIZE
  clean : (0 : UInt8) ∉ text

def okAnswer : Answer := ⟨ascii "ok", by decide, by decide⟩

/-- What the receiver answers to other messages than blocks, and which of the answers on
the line arrives in time after each transmission, the latest answer being number 0. -/
structure Setup where
  answer : List UInt8 → Answer
  arrival : Nat → Option Nat

/-- The blocks that the receiver has appended, the answers on the line with the latest
first, the number of transmissions so far, and the reply buffer of the sender. -/
structure System where
  appended : List (List UInt8)
  answers : List Answer
  sent : Nat
  ret_buff : Text

def receive (S : Setup) (msg : List UInt8) (s : System) : System :=
  if isPacket msg then
    { s with appended := s.appended ++ [msg.take PKT_SIZE], answers := okAnswer :: s.answers }
  else { s with answers := S.answer msg :: s.answers }

/-- One transmission, and the answer that arrives before the time is over. -/
def transmit (S : Setup) (msg : List UInt8) (s : System) : Option Answer × System :=
  let s' := receive S msg s
  match (S.arrival s.sent).bind fun k => (s'.answers[k]?).map fun a => (k, a) with
  | none => (none, { s' with sent := s.sent + 1 })
  | some (k, a) => (some a, { s' with sent := s.sent + 1, answers := s'.answers.eraseIdx k })

/-- The loop over `try_snd`. -/
def sendLoop (S : Setup) (cmd : List UInt8) : Nat → System → Int × System
  | 0, s => (-101, s)
  | tries + 1, s =>
      match transmit S cmd s with
      | (some a, s') => (0, { s' with ret_buff := a.text })
      | (none, s') => sendLoop S cmd tries s'

/-- `Send_SAMD_CMD` with whole answers; `SamdLink` looks at how they are received. -/
def Send_SAMD_CMD (S : Setup) (cmd : List UInt8) (s : System) : Int × System :=
  let s := { s with ret_buff := [] }
  if cmd.length = 0 then (-100, s) else sendLoop S cmd 2 s

/-! ### Blocks -/

def padLen (len : Nat) : Nat := (len + PKT_SIZE - 1) &&& 0xfe00

def firmware_pad (firmware : List UInt8) : List UInt8 :=
  firmware ++ List.replicate (padLen firmware.length - firmware.length) 0

/-- The blocks in the order of `total_len`. -/
def blocks (firmware : List UInt8) : List (List UInt8) :=
  (List.range (padLen firmware.length / PKT_SIZE)).map fun i =>
    ((firmware_pad firmware).drop (PKT_SIZE * i)).take PKT_SIZE

/-- A 32-bit word as its four bytes in memory. -/
structure Word where
  b0 : UInt8
  b1 : UInt8
  b2 : UInt8
  b3 : UInt8
deriving DecidableEq

def Word.xor (v w : Word) : Word := ⟨v.b0 ^^^ w.b0, v.b1 ^^^ w.b1, v.b2 ^^^ w.b2, v.b3 ^^^ w.b3⟩

def Word.zero : Word := ⟨0, 0, 0, 0⟩

/-- `pCksum[0] ^ pCksum[1] ^ pCksum[2] ^ pCksum[3]`. -/
def Word.fold (w : Word) : UInt8 := w.b0 ^^^ w.b1 ^^^ w.b2 ^^^ w.b3

/-- The words that a pointer to `uint32_t` walks over. -/
def words : List UInt8 → List Word
  | b0 :: b1 :: b2 :: b3 :: rest => ⟨b0, b1, b2, b3⟩ :: words rest
  | _ => []

def cksum (block : List UInt8) : Word := (words block).foldl Word.xor Word.zero

/-- `samd_pkt_buff` for a block. -/
def samd_pkt (block : List UInt8) : List UInt8 := block ++ [(cksum block).fold]

/-! ### The download -/

def Settings (which : Int) : List UInt8 :=
  ascii "Art-Net" ++ [0, 0, 50, 0, 0, if which = 0 then 7 else 8]

/-- The loop that asks for an update; an error is returned from inside it. -/
def promptLoop (S : Setup) (which : Int) : Nat → Nat → Int → System → Except Int Int × System
  | 0, _, ret, s => (.ok ret, s)
  | tries + 1, i, _, s =>
      let (ret, s) := Send_SAMD_CMD S (Settings which) s
      if ret ≠ 0 then promptLoop S which tries (i + 1) ret s
      else if ¬ strstr s.ret_buff (ascii "update") then
        if which = 1 ∨ i = 1 then (.error (-102), s) else promptLoop S which tries (i + 1) ret s
      else (.ok ret, s)

/-- The loop over `try` for one block. -/
def blockLoop (S : Setup) (pkt : List UInt8) : Nat → Nat → System → Int × System
  | 0, _, s => (0, s)
  | tries + 1, try_, s =>
      let (ret, s) := Send_SAMD_CMD S pkt s
      if ret ≠ 0 then (ret, s)
      else if ¬ strstr s.ret_buff (ascii "ok") then
        if try_ = 0 then blockLoop S pkt tries (try_ + 1) s else (-104, s)
      else (0, s)

/-- The loop over `remain_len`. -/
def blocksLoop (S : Setup) : List (List UInt8) → System → Int × System
  | [], s => (0, s)
  | b :: rest, s =>
      let (ret, s) := blockLoop S (samd_pkt b) 2 0 s
      if ret ≠ 0 then (ret, s) else blocksLoop S rest s

def done_msg (firmware : List UInt8) : List UInt8 :=
  let code_cksum := (blocks firmware).foldl (fun w b => w.xor (cksum b)) Word.zero
  ascii "done" ++
    [firmware.length.toUInt8, (firmware.length >>> 8).toUInt8, code_cksum.fold]

/-- A firmware that does not fit `firmware_pad` has no outcome. -/
def SAMD_firmware_download (S : Setup) (firmware : List UInt8) (which : Int) (s : System) :
    Option (Int × System) :=
  if FIRMWARE_PAD_SIZE < firmware.length then none
  else
    match promptLoop S which 2 0 0 s with
    | (.error ret, s) => some (ret, s)
    | (.ok ret, s) =>
        if ret ≠ 0 then some (ret, s)
        else
          let (ret, s) := Send_SAMD_CMD S (ascii "yes") s
          if ret ≠ 0 then some (ret, s)
          else if ¬ strstr s.ret_buff (ascii "ok") then some (-103, s)
          else
            let (ret, s) := blocksLoop S (blocks firmware) s
            if ret ≠ 0 then some (ret, s)
            else some (0, (Send_SAMD_CMD S (done_msg firmware) s).2)

/-! ### The padded firmware -/

theorem and_fe00 {n : Nat} (h : n < 0x10000) : n &&& 0xfe00 = PKT_SIZE * (n / PKT_SIZE) := by
  have hmask : ∀ i < 16, Nat.testBit 0xfe00 i = decide (9 ≤ i) := by decide
  have hshift : PKT_SIZE * (n / PKT_SIZE) = (n >>> 9) <<< 9 := by
    rw [Nat.shiftLeft_eq, Nat.shiftRight_eq_div_pow, Nat.mul_comm]
    rfl
  rw [hshift]
  apply Nat.eq_of_testBit_eq
  intro i
  rw [Nat.testBit_and, Nat.testBit_shiftLeft, Nat.testBit_shiftRight]
  by_cases hi : i < 16
  · rw [hmask i hi]
    by_cases h9 : 9 ≤ i
    · simp [h9]
    · simp [h9]
  · have hzero : n.testBit i = false :=
      Nat.testBit_lt_two_pow (Nat.lt_of_lt_of_le h
        (Nat.pow_le_pow_right (by decide : 2 > 0) (by omega : 16 ≤ i)))
    rw [hzero, show 9 + (i - 9) = i by omega, hzero]
    simp

theorem padLen_eq {len : Nat} (h : len ≤ FIRMWARE_PAD_SIZE) :
    padLen len = PKT_SIZE * ((len + PKT_SIZE - 1) / PKT_SIZE) ∧ len ≤ padLen len := by
  have hpad : padLen len = PKT_SIZE * ((len + PKT_SIZE - 1) / PKT_SIZE) :=
    and_fe00 (by simp only [PKT_SIZE, FIRMWARE_PAD_SIZE] at *; omega)
  refine ⟨hpad, ?_⟩
  rw [hpad]
  simp only [PKT_SIZE]
  omega

theorem firmware_pad_length {firmware : List UInt8}
    (h : firmware.length ≤ FIRMWARE_PAD_SIZE) :
    (firmware_pad firmware).length = padLen firmware.length := by
  have hle := (padLen_eq h).2
  simp only [firmware_pad, List.length_append, List.length_replicate]
  omega

theorem mem_blocks_length {firmware : List UInt8} (h : firmware.length ≤ FIRMWARE_PAD_SIZE)
    {b : List UInt8} (hb : b ∈ blocks firmware) : b.length = PKT_SIZE := by
  obtain ⟨i, hi, rfl⟩ := List.mem_map.mp hb
  have hlt := List.mem_range.mp hi
  have hmul := Nat.mul_le_mul_left PKT_SIZE (Nat.succ_le_of_lt hlt)
  have hdiv := Nat.mul_div_le (padLen firmware.length) PKT_SIZE
  rw [List.length_take, List.length_drop, firmware_pad_length h]
  rw [Nat.mul_succ] at hmul
  omega

theorem flatten_slices {α : Type} (k : Nat) (l : List α) (n : Nat) :
    ((List.range n).map fun i => (l.drop (k * i)).take k).flatten = l.take (k * n) := by
  induction n with
  | zero => simp
  | succ n ih =>
    rw [List.range_succ, List.map_append, List.flatten_append, ih, Nat.mul_succ, List.take_add]
    simp

/-- The blocks cut the padded firmware up. -/
theorem blocks_flatten {firmware : List UInt8} (h : firmware.length ≤ FIRMWARE_PAD_SIZE) :
    (blocks firmware).flatten = firmware_pad firmware := by
  have hpad := (padLen_eq h).1
  have hmul : PKT_SIZE * (padLen firmware.length / PKT_SIZE) = padLen firmware.length := by
    rw [hpad, Nat.mul_div_cancel_left _ (by decide)]
  rw [blocks, flatten_slices, hmul, ← firmware_pad_length h, List.take_length]

/-! ### Packets -/

theorem fold_xor (w : Word) (ws : List Word) :
    (ws.foldl Word.xor w).fold = ws.foldl (fun c v => c ^^^ v.fold) w.fold := by
  induction ws generalizing w with
  | nil => rfl
  | cons v ws ih =>
    have hone : (w.xor v).fold = w.fold ^^^ v.fold := by
      simp only [Word.xor, Word.fold]
      ac_rfl
    rw [List.foldl_cons, List.foldl_cons, ih, hone]

/-- The checksum by words is the checksum by bytes. -/
theorem words_checksum (bytes : List UInt8) (h : 4 ∣ bytes.length) (c : UInt8) :
    (words bytes).foldl (fun c v => c ^^^ v.fold) c = bytes.foldl (· ^^^ ·) c := by
  induction bytes using words.induct generalizing c with
  | case1 b0 b1 b2 b3 rest ih =>
    have hrest : 4 ∣ rest.length := by simpa using h
    simp only [words, List.foldl_cons]
    rw [ih hrest]
    congr 1
    simp only [Word.fold]
    ac_rfl
  | case2 bytes hshort =>
    rcases bytes with _ | ⟨b0, _ | ⟨b1, _ | ⟨b2, _ | ⟨b3, rest⟩⟩⟩⟩
    · rfl
    · simp at h
    · simp at h
    · simp at h
    · exact absurd rfl (hshort b0 b1 b2 b3 rest)

theorem cksum_fold {b : List UInt8} (h : b.length = PKT_SIZE) : (cksum b).fold = checksum b := by
  rw [cksum, fold_xor, words_checksum b (by rw [h]; decide)]
  rfl

/-- The receiver takes the packet of a block for a block. -/
theorem isPacket_samd_pkt {b : List UInt8} (h : b.length = PKT_SIZE) :
    isPacket (samd_pkt b) = true ∧ (samd_pkt b).take PKT_SIZE = b := by
  have htake : (samd_pkt b).take PKT_SIZE = b := by
    rw [samd_pkt, ← h, List.take_left]
  refine ⟨?_, htake⟩
  rw [isPacket, htake, samd_pkt, cksum_fold h, ← h, List.drop_left]
  simp

/-! ### Transmissions -/

/-- Every answer arrives in time. -/
def Prompt (S : Setup) : Prop := ∀ i, S.arrival i = some 0

/-- The list repeats each element in its turn, at least once and at most `most` times. -/
inductive Repeats {α : Type} (most : Nat) : List α → List α → Prop where
  | nil : Repeats most [] []
  | cons {b : α} {bs as : List α} {n : Nat} (once : 1 ≤ n) (le : n ≤ most)
      (rest : Repeats most bs as) : Repeats most (b :: bs) (List.replicate n b ++ as)

theorem transmit_appended (S : Setup) (msg : List UInt8) (s : System) :
    (transmit S msg s).2.appended = (receive S msg s).appended := by
  simp only [transmit]
  split <;> rfl

theorem transmit_prompt {S : Setup} (h : Prompt S) {msg : List UInt8} (hmsg : isPacket msg = true)
    (s : System) : (transmit S msg s).1 = some okAnswer := by
  simp [transmit, receive, h s.sent, hmsg]

section Packet

variable (S : Setup) {msg : List UInt8} (hmsg : isPacket msg = true)

include hmsg

/-- The transmissions of one packet: as often as tried, and once if the answer is prompt. -/
theorem sendLoop_packet (tries : Nat) (s : System) :
    ∃ n, n ≤ tries ∧ (0 < tries → 1 ≤ n) ∧
      (sendLoop S msg tries s).2.appended =
        s.appended ++ List.replicate n (msg.take PKT_SIZE) ∧
      (Prompt S → 0 < tries → n = 1 ∧ (sendLoop S msg tries s).1 = 0 ∧
        (sendLoop S msg tries s).2.ret_buff = ascii "ok") := by
  induction tries generalizing s with
  | zero => exact ⟨0, Nat.le_refl 0, fun h => absurd h (by decide), by simp [sendLoop],
      fun _ h => absurd h (by decide)⟩
  | succ tries ih =>
    have hone : (transmit S msg s).2.appended = s.appended ++ [msg.take PKT_SIZE] := by
      rw [transmit_appended, receive, if_pos hmsg]
    cases hsent : transmit S msg s with
    | mk arrived s₁ =>
      rw [hsent] at hone
      cases arrived with
      | some a =>
        simp only [sendLoop, hsent]
        refine ⟨1, by omega, fun _ => Nat.le_refl 1, hone, fun hprompt _ => ⟨rfl, trivial, ?_⟩⟩
        have hok := transmit_prompt hprompt hmsg s
        rw [hsent] at hok
        rw [Option.some.inj hok]
        rfl
      | none =>
        simp only [sendLoop, hsent]
        obtain ⟨n, hle, -, happended, -⟩ := ih s₁
        refine ⟨n + 1, by omega, fun _ => by omega, ?_, fun hprompt _ => ?_⟩
        · rw [happended, hone, List.append_assoc, List.replicate_succ]
          rfl
        · have hok := transmit_prompt hprompt hmsg s
          rw [hsent] at hok
          cases hok

theorem Send_SAMD_CMD_packet (s : System) :
    ∃ n, 1 ≤ n ∧ n ≤ 2 ∧
      (Send_SAMD_CMD S msg s).2.appended =
        s.appended ++ List.replicate n (msg.take PKT_SIZE) ∧
      (Prompt S → n = 1 ∧ (Send_SAMD_CMD S msg s).1 = 0 ∧
        (Send_SAMD_CMD S msg s).2.ret_buff = ascii "ok") := by
  have hlen : msg.length ≠ 0 := by
    intro h0
    simp [isPacket, h0] at hmsg
  obtain ⟨n, hle, hge, happended, hprompt⟩ := sendLoop_packet S hmsg 2 { s with ret_buff := [] }
  rw [Send_SAMD_CMD, if_neg hlen]
  exact ⟨n, hge (by decide), hle, happended, fun h => hprompt h (by decide)⟩

theorem blockLoop_packet (tries try_ : Nat) {s s' : System}
    (h : blockLoop S msg tries try_ s = (0, s')) :
    ∃ n, n ≤ 2 * tries ∧ (0 < tries → 1 ≤ n) ∧
      s'.appended = s.appended ++ List.replicate n (msg.take PKT_SIZE) ∧
      (Prompt S → 0 < tries → n = 1) := by
  induction tries generalizing try_ s with
  | zero =>
    obtain ⟨-, rfl⟩ := Prod.mk.inj h
    exact ⟨0, Nat.le_refl 0, fun h0 => absurd h0 (by decide), by simp,
      fun _ h0 => absurd h0 (by decide)⟩
  | succ tries ih =>
    obtain ⟨n, hge, hle, happended, hprompt⟩ := Send_SAMD_CMD_packet S hmsg s
    simp only [blockLoop] at h
    split at h
    · rename_i hret
      exact absurd (Prod.mk.inj h).1 hret
    split at h
    · rename_i hbad
      have hlate : ¬ Prompt S := by
        intro hall
        rw [(hprompt hall).2.2] at hbad
        exact hbad (by decide)
      split at h
      · obtain ⟨m, hmle, -, hrest, -⟩ := ih _ h
        refine ⟨n + m, by omega, fun _ => by omega, ?_, fun hall => absurd hall hlate⟩
        rw [hrest, happended, List.append_assoc, List.replicate_append_replicate]
      · exact absurd (Prod.mk.inj h).1 (by decide)
    · obtain ⟨-, rfl⟩ := Prod.mk.inj h
      exact ⟨n, by omega, fun _ => hge, happended, fun hall _ => (hprompt hall).1⟩

end Packet

/-- The loop over the blocks: each block is appended in its turn. -/
theorem blocksLoop_repeats (S : Setup) {bs : List (List UInt8)}
    (hbs : ∀ b ∈ bs, b.length = PKT_SIZE) {s s' : System}
    (h : blocksLoop S bs s = (0, s')) :
    ∃ as, s'.appended = s.appended ++ as ∧ Repeats 4 bs as ∧ (Prompt S → as = bs) := by
  induction bs generalizing s with
  | nil =>
    obtain ⟨-, rfl⟩ := Prod.mk.inj h
    exact ⟨[], by simp, .nil, fun _ => rfl⟩
  | cons b bs ih =>
    obtain ⟨hpacket, htake⟩ := isPacket_samd_pkt (hbs b List.mem_cons_self)
    simp only [blocksLoop] at h
    cases hblock : blockLoop S (samd_pkt b) 2 0 s with
    | mk ret s₁ =>
      simp only [hblock] at h
      split at h
      · rename_i hret
        exact absurd (Prod.mk.inj h).1 hret
      · rename_i hret
        rw [not_not.mp hret] at hblock
        obtain ⟨n, hle, hge, happended, hprompt⟩ := blockLoop_packet S hpacket 2 0 hblock
        obtain ⟨as, hrest, hrepeats, hall⟩ := ih (fun b' hb' => hbs b' (List.mem_cons_of_mem b hb')) h
        rw [htake] at happended
        refine ⟨List.replicate n b ++ as, ?_, .cons (hge (by decide)) hle hrepeats, fun hp => ?_⟩
        · rw [hrest, happended, List.append_assoc]
        · rw [hprompt hp (by decide), hall hp]
          rfl

/-! ### The other messages -/

theorem sendLoop_other (S : Setup) {msg : List UInt8} (hmsg : isPacket msg = false) (tries : Nat)
    (s : System) : (sendLoop S msg tries s).2.appended = s.appended := by
  induction tries generalizing s with
  | zero => rfl
  | succ tries ih =>
    have hsame : (transmit S msg s).2.appended = s.appended := by
      rw [transmit_appended, receive, if_neg (by simp [hmsg])]
    cases hsent : transmit S msg s with
    | mk arrived s₁ =>
      rw [hsent] at hsame
      cases arrived with
      | some a => simpa only [sendLoop, hsent] using hsame
      | none => simpa only [sendLoop, hsent] using (ih s₁).trans hsame

theorem Send_SAMD_CMD_other (S : Setup) {msg : List UInt8} (hlen : msg.length ≠ PKT_SIZE + 1)
    (s : System) : (Send_SAMD_CMD S msg s).2.appended = s.appended := by
  rw [Send_SAMD_CMD]
  split
  · rfl
  · exact sendLoop_other S (by simp [isPacket, hlen]) 2 _

theorem promptLoop_other (S : Setup) (which : Int) (tries i : Nat) (ret : Int) (s : System) :
    (promptLoop S which tries i ret s).2.appended = s.appended := by
  have hlen : (Settings which).length ≠ PKT_SIZE + 1 := by
    simp [Settings, ascii, PKT_SIZE]
  induction tries generalizing i ret s with
  | zero => rfl
  | succ tries ih =>
    have hsame := Send_SAMD_CMD_other S hlen s
    simp only [promptLoop]
    split
    · rw [ih, hsame]
    · split
      · split
        · exact hsame
        · rw [ih, hsame]
      · exact hsame

theorem promptLoop_error {S : Setup} {which : Int} {tries i : Nat} {ret rc : Int} {s s' : System}
    (h : promptLoop S which tries i ret s = (.error rc, s')) : rc = -102 := by
  induction tries generalizing i ret s with
  | zero => cases h
  | succ tries ih =>
    simp only [promptLoop] at h
    split at h
    · exact ih h
    · split at h
      · split at h
        · cases h
          rfl
        · exact ih h
      · cases h

/-- **What the receiver holds after a download.**  Whatever is lost or late, if
`SAMD_firmware_download` returns 0 then the receiver has appended the blocks of the padded
firmware in order, each at least once and at most four times in a row; and each exactly
once if every answer arrives in time. -/
theorem download_repeats (S : Setup) (firmware : List UInt8) (which : Int) (s s' : System)
    (h : SAMD_firmware_download S firmware which s = some (0, s')) :
    (blocks firmware).flatten = firmware_pad firmware ∧
      ∃ as, s'.appended = s.appended ++ as ∧ Repeats 4 (blocks firmware) as ∧
        (Prompt S → as = blocks firmware) := by
  have hyes : (ascii "yes").length ≠ PKT_SIZE + 1 := by decide
  have hdone : (done_msg firmware).length ≠ PKT_SIZE + 1 := by
    simp [done_msg, ascii, PKT_SIZE]
  unfold SAMD_firmware_download at h
  split at h
  · cases h
  rename_i hfit
  have hfit' := Nat.not_lt.mp hfit
  refine ⟨blocks_flatten hfit', ?_⟩
  have hsettings := promptLoop_other S which 2 0 0 s
  split at h
  · rename_i ret s₁ hprompt
    have hret := promptLoop_error hprompt
    rw [(Prod.mk.inj (Option.some.inj h)).1] at hret
    exact absurd hret (by decide)
  · rename_i ret s₁ hprompt
    rw [hprompt] at hsettings
    split at h
    · rename_i hret
      exact absurd (Prod.mk.inj (Option.some.inj h)).1 hret
    have hsame := Send_SAMD_CMD_other S hyes s₁
    simp only at h
    split at h
    · rename_i hret
      exact absurd (Prod.mk.inj (Option.some.inj h)).1 hret
    split at h
    · exact absurd (Prod.mk.inj (Option.some.inj h)).1 (by decide)
    cases hblocks : blocksLoop S (blocks firmware) (Send_SAMD_CMD S (ascii "yes") s₁).2 with
    | mk ret' s₂ =>
      rw [hblocks] at h
      split at h
      · rename_i hret
        exact absurd (Prod.mk.inj (Option.some.inj h)).1 hret
      · rename_i hret
        obtain rfl : ret' = 0 := not_not.mp hret
        obtain ⟨as, happended, hrepeats, hall⟩ :=
          blocksLoop_repeats S (fun b hb => mem_blocks_length hfit' hb) hblocks
        obtain ⟨-, rfl⟩ := Prod.mk.inj (Option.some.inj h)
        refine ⟨as, ?_, hrepeats, hall⟩
        rw [Send_SAMD_CMD_other S hdone, happended, hsame, hsettings]

/-- A receiver that has just started, and what it answers. -/
def sampleSetup (arrival : Nat → Option Nat) : Setup where
  answer := fun msg =>
    if msg = ascii "yes" then okAnswer else ⟨ascii "update", by decide, by decide⟩
  arrival := arrival

def startSystem : System := ⟨[], [], 0, []⟩

theorem download_repeats_sample :
    ∃ s', SAMD_firmware_download (sampleSetup fun _ => some 0) [7] 0 startSystem = some (0, s') ∧
      (blocks [7]).flatten = firmware_pad [7] ∧
        ∃ as, s'.appended = [] ++ as ∧ Repeats 4 (blocks [7]) as ∧
          (Prompt (sampleSetup fun _ => some 0) → as = blocks [7]) := by
  have hrun : (SAMD_firmware_download (sampleSetup fun _ => some 0) [7] 0 startSystem).map (·.1) =
      some 0 := by decide +kernel
  obtain ⟨⟨ret, s'⟩, hdown, hret⟩ := Option.map_eq_some_iff.mp hrun
  obtain rfl : ret = 0 := hret
  exact ⟨s', hdown, download_repeats _ [7] 0 startSystem s' hdown⟩

/-- The first answer to the only block is lost: the download returns 0 and the block is
appended twice. -/
theorem lost_answer_repeats_block :
    ∃ s', SAMD_firmware_download (sampleSetup fun i => if i = 2 then none else some 0) [7] 0
        startSystem = some (0, s') ∧ s'.appended ≠ blocks [7] := by
  have hrun : (SAMD_firmware_download (sampleSetup fun i => if i = 2 then none else some 0) [7] 0
      startSystem).map (fun p => (p.1, p.2.appended.length)) = some (0, 2) := by decide +kernel
  obtain ⟨⟨ret, s'⟩, hdown, hret⟩ := Option.map_eq_some_iff.mp hrun
  obtain ⟨rfl, hlen⟩ := Prod.mk.inj hret
  refine ⟨s', hdown, fun heq => ?_⟩
  rw [heq] at hlen
  revert hlen
  decide +kernel

end AksFirmware.SamdDownload
