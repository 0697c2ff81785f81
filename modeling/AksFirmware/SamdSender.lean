import AksFirmware.SamdDownload

/-!
# The sender of a firmware

`SAMD_firmware_download` once more, with everything the node itself does: the messages
that it gives to the UART, the mutex, and the variables that it leaves behind.  What is at
the other end of the line is a parameter.  `SamdDownload` has a receiver there
(`download_eq`); here the answers also come from a script, so that a theorem about every
script is one about every sequence of answers and timeouts.

An answer is any bytes.  `Send_SAMD_CMD` copies all of them and a zero to the 32 bytes of
`ret_buff`, so that a longer answer has no outcome, and what is searched for `update` or
`ok` is the text up to the first zero.
-/

namespace AksFirmware.SamdSender

open ByteMemory CText SamdDownload
open SamdLink (RET_BUFF_SIZE)

inductive MutexOp where
  | lock | unlock
deriving DecidableEq, Repr

/-- The other end of the line: what arrives before the time after a transmission is over. -/
abbrev Line (σ : Type) := List UInt8 → σ → Option (List UInt8) × σ

/-- The text at the beginning of an answer. -/
def answerText (answer : List UInt8) : Text := answer.takeWhile (· ≠ 0)

/-- What is copied to `ret_buff` in front of the zero. -/
def copyAnswer (answer : List UInt8) : Option (List UInt8) :=
  if answer.length < RET_BUFF_SIZE then some answer else none

structure Sender (σ : Type) where
  line : σ
  sent : List (List UInt8)
  ret_buff : List UInt8
  uart_rvc_done : Bool
  samd_mutex : List MutexOp
  artnet_enable : Int

section Routines

variable {σ : Type} (exchange : Line σ)

/-- The loop over `try_snd`. -/
def sendLoop (cmd : List UInt8) : Nat → Sender σ → Option (Int × Sender σ)
  | 0, s => some (-101, { s with uart_rvc_done := true })
  | tries + 1, s =>
      let s := { s with uart_rvc_done := false, sent := s.sent ++ [cmd] }
      match exchange cmd s.line with
      | (some a, line) => (copyAnswer a).map fun reply =>
          (0, { s with line := line, uart_rvc_done := true, ret_buff := reply })
      | (none, line) => sendLoop cmd tries { s with line := line }

def Send_SAMD_CMD (cmd : List UInt8) (s : Sender σ) : Option (Int × Sender σ) :=
  let s := { s with ret_buff := [] }
  if cmd.length = 0 then some (-100, s) else sendLoop exchange cmd 2 s

def promptLoop (which : Int) : Nat → Nat → Int → Sender σ → Option (Except Int Int × Sender σ)
  | 0, _, ret, s => some (.ok ret, s)
  | tries + 1, i, _, s => (Send_SAMD_CMD exchange (Settings which) s).bind fun r =>
      if r.1 ≠ 0 then promptLoop which tries (i + 1) r.1 r.2
      else if ¬ strstr (answerText r.2.ret_buff) (ascii "update") then
        if which = 1 ∨ i = 1 then some (.error (-102), r.2)
        else promptLoop which tries (i + 1) r.1 r.2
      else some (.ok r.1, r.2)

def blockLoop (pkt : List UInt8) : Nat → Nat → Sender σ → Option (Int × Sender σ)
  | 0, _, s => some (0, s)
  | tries + 1, try_, s => (Send_SAMD_CMD exchange pkt s).bind fun r =>
      if r.1 ≠ 0 then some r
      else if ¬ strstr (answerText r.2.ret_buff) (ascii "ok") then
        if try_ = 0 then blockLoop pkt tries (try_ + 1) r.2 else some (-104, r.2)
      else some (0, r.2)

def blocksLoop : List (List UInt8) → Sender σ → Option (Int × Sender σ)
  | [], s => some (0, s)
  | b :: rest, s => (blockLoop exchange (samd_pkt b) 2 0 s).bind fun r =>
      if r.1 ≠ 0 then some r else blocksLoop rest r.2

/-- Every exit unlocks the mutex and lets Art-Net through again. -/
def release (ret : Int) (s : Sender σ) : Int × Sender σ :=
  (ret, { s with samd_mutex := s.samd_mutex ++ [.unlock], artnet_enable := 1 })

/-- The download once the prompt is answered. -/
def afterPrompt (firmware : List UInt8) (s : Sender σ) : Option (Int × Sender σ) :=
  (Send_SAMD_CMD exchange (ascii "yes") s).bind fun r =>
    if r.1 ≠ 0 then some (release r.1 r.2)
    else if ¬ strstr (answerText r.2.ret_buff) (ascii "ok") then some (release (-103) r.2)
    else (blocksLoop exchange (blocks firmware) r.2).bind fun r =>
      if r.1 ≠ 0 then some (release r.1 r.2)
      else (Send_SAMD_CMD exchange (done_msg firmware) r.2).map fun r => release 0 r.2

/-- The state in which the prompt is sent. -/
def beforePrompt (s : Sender σ) : Sender σ :=
  { s with artnet_enable := 0, samd_mutex := s.samd_mutex ++ [.lock] }

/-- A firmware that does not fit `firmware_pad` has no outcome. -/
def SAMD_firmware_download (firmware : List UInt8) (which : Int) (s : Sender σ) :
    Option (Int × Sender σ) :=
  if FIRMWARE_PAD_SIZE < firmware.length then none
  else (promptLoop exchange which 2 0 0 (beforePrompt s)).bind fun r =>
    match r.1 with
    | .error ret => some (release ret r.2)
    | .ok ret => if ret ≠ 0 then some (release ret r.2) else afterPrompt exchange firmware r.2

end Routines

/-! ### The receiver of `SamdDownload` on the line -/

def receiverLine (S : Setup) : Line System := fun msg sys =>
  ((transmit S msg sys).1.map Answer.text, (transmit S msg sys).2)

theorem answerText_text (a : Answer) : answerText a.text = a.text :=
  List.takeWhile_eq_self_iff.mpr fun _ hc =>
    decide_eq_true fun h0 => a.clean (h0 ▸ hc)

theorem copyAnswer_text (a : Answer) : copyAnswer a.text = some a.text := by
  rw [copyAnswer, if_pos a.fits]

/-- The system that `SamdDownload` sees: its reply is the text in the sender's buffer. -/
def view (s : Sender System) : System := { s.line with ret_buff := answerText s.ret_buff }

@[simp] theorem view_ret_buff (s : Sender System) :
    (view s).ret_buff = answerText s.ret_buff := rfl

/-- The outcome of a routine here, as `SamdDownload` sees it. -/
def viewed {α : Type} (r : α × Sender System) : α × System := (r.1, view r.2)

theorem transmit_ret_buff (S : Setup) (msg : List UInt8) (sys : System) (r : Text) :
    transmit S msg { sys with ret_buff := r } =
      ((transmit S msg sys).1, { (transmit S msg sys).2 with ret_buff := r }) := by
  have hreceive : receive S msg { sys with ret_buff := r } =
      { receive S msg sys with ret_buff := r } := by
    unfold receive
    split <;> rfl
  simp only [transmit, hreceive]
  cases (S.arrival sys.sent).bind fun k => ((receive S msg sys).answers[k]?).map fun a => (k, a) with
  | none => rfl
  | some p => rfl

theorem sendLoop_view (S : Setup) (cmd : List UInt8) (tries : Nat) (s : Sender System) :
    (sendLoop (receiverLine S) cmd tries s).map viewed =
      some (SamdDownload.sendLoop S cmd tries (view s)) := by
  induction tries generalizing s with
  | zero => rfl
  | succ tries ih =>
    simp only [SamdDownload.sendLoop, sendLoop, receiverLine, view, transmit_ret_buff]
    cases hsent : transmit S cmd s.line with
    | mk arrived sys =>
      cases arrived with
      | some a =>
        simp only [Option.map_some, copyAnswer_text, viewed, view, answerText_text]
      | none => exact ih { s with uart_rvc_done := false, sent := s.sent ++ [cmd], line := sys }

theorem Send_SAMD_CMD_view (S : Setup) (cmd : List UInt8) (s : Sender System) :
    (Send_SAMD_CMD (receiverLine S) cmd s).map viewed =
      some (SamdDownload.Send_SAMD_CMD S cmd (view s)) := by
  simp only [SamdDownload.Send_SAMD_CMD, Send_SAMD_CMD]
  split
  · rfl
  · exact sendLoop_view S cmd 2 { s with ret_buff := [] }

/-- A routine that `SamdDownload` sees returns. -/
theorem of_viewed {α : Type} {o : Option (α × Sender System)} {p : α × System}
    (h : o.map viewed = some p) : ∃ r, o = some r ∧ p = (r.1, view r.2) := by
  obtain ⟨r, hr, hp⟩ := Option.map_eq_some_iff.mp h
  exact ⟨r, hr, hp.symm⟩

theorem promptLoop_view (S : Setup) (which : Int) (tries i : Nat) (ret : Int)
    (s : Sender System) :
    (promptLoop (receiverLine S) which tries i ret s).map viewed =
      some (SamdDownload.promptLoop S which tries i ret (view s)) := by
  induction tries generalizing i ret s with
  | zero => rfl
  | succ tries ih =>
    obtain ⟨r, hsend, hsent⟩ := of_viewed (Send_SAMD_CMD_view S (Settings which) s)
    simp only [SamdDownload.promptLoop, promptLoop, hsend, hsent, Option.bind_some, view_ret_buff]
    split
    · exact ih ..
    · split
      · split
        · rfl
        · exact ih ..
      · rfl

theorem blockLoop_view (S : Setup) (pkt : List UInt8) (tries try_ : Nat) (s : Sender System) :
    (blockLoop (receiverLine S) pkt tries try_ s).map viewed =
      some (SamdDownload.blockLoop S pkt tries try_ (view s)) := by
  induction tries generalizing try_ s with
  | zero => rfl
  | succ tries ih =>
    obtain ⟨r, hsend, hsent⟩ := of_viewed (Send_SAMD_CMD_view S pkt s)
    simp only [SamdDownload.blockLoop, blockLoop, hsend, hsent, Option.bind_some, view_ret_buff]
    split
    · rfl
    · split
      · split
        · exact ih ..
        · rfl
      · rfl

theorem blocksLoop_view (S : Setup) (bs : List (List UInt8)) (s : Sender System) :
    (blocksLoop (receiverLine S) bs s).map viewed =
      some (SamdDownload.blocksLoop S bs (view s)) := by
  induction bs generalizing s with
  | nil => rfl
  | cons b bs ih =>
    obtain ⟨r, hblock, hseen⟩ := of_viewed (blockLoop_view S (samd_pkt b) 2 0 s)
    simp only [SamdDownload.blocksLoop, blocksLoop, hblock, hseen, Option.bind_some]
    split
    · rfl
    · exact ih _

/-- `SamdDownload` looks at the same routine: its runs are the runs of the sender with the
receiver at the other end. -/
theorem download_eq (S : Setup) (firmware : List UInt8) (which : Int) (s : Sender System) :
    SamdDownload.SAMD_firmware_download S firmware which (view s) =
      (SAMD_firmware_download (receiverLine S) firmware which s).map viewed := by
  simp only [SamdDownload.SAMD_firmware_download, SAMD_firmware_download]
  split
  · rfl
  obtain ⟨⟨answer, s₁⟩, hprompt, hseen⟩ := of_viewed (promptLoop_view S which 2 0 0 (beforePrompt s))
  rw [show view s = view (beforePrompt s) from rfl]
  simp only [hprompt, hseen, Option.bind_some]
  cases answer with
  | error ret => rfl
  | ok ret =>
    obtain ⟨r₂, hyes, hseen₂⟩ := of_viewed (Send_SAMD_CMD_view S (ascii "yes") s₁)
    obtain ⟨r₃, hblocks, hseen₃⟩ := of_viewed (blocksLoop_view S (blocks firmware) r₂.2)
    obtain ⟨r₄, hdone, hseen₄⟩ := of_viewed (Send_SAMD_CMD_view S (done_msg firmware) r₃.2)
    simp only [afterPrompt, hyes, hseen₂, hblocks, hseen₃, hdone, hseen₄, Option.bind_some,
      Option.map_some, view_ret_buff]
    split
    · rfl
    split
    · rfl
    split
    · rfl
    split
    · rfl
    · rfl

/-! ### Answers from a script -/

/-- What arrives after each transmission, or that the time is over. -/
abbrev Answers := List (Option (List UInt8))

/-- The answers that arrive, in order; nothing arrives after the last of them. -/
def script : Line Answers
  | _, [] => (none, [])
  | _, a :: rest => (a, rest)

def answered {σ : Type} (cmd : List UInt8) (a : List UInt8) (line : σ) (s : Sender σ) : Sender σ :=
  { s with
    line := line
    sent := s.sent ++ [cmd]
    ret_buff := a
    uart_rvc_done := true }

section Answered

variable {σ : Type} {exchange : Line σ} {s : Sender σ} {a : List UInt8} {line : σ}

theorem Send_SAMD_CMD_answered {cmd : List UInt8} (hcmd : cmd ≠ [])
    (h : exchange cmd s.line = (some a, line)) :
    Send_SAMD_CMD exchange cmd s =
      if a.length < RET_BUFF_SIZE then some (0, answered cmd a line s) else none := by
  have hlen : cmd.length ≠ 0 := fun h0 => hcmd (List.eq_nil_of_length_eq_zero h0)
  rw [Send_SAMD_CMD, if_neg hlen]
  simp only [sendLoop, h, copyAnswer]
  split <;> rfl

theorem promptLoop_answered {which : Int} (h : exchange (Settings which) s.line = (some a, line))
    (ha : strstr (answerText a) (ascii "update") = true) :
    promptLoop exchange which 2 0 0 s =
      if a.length < RET_BUFF_SIZE then some (.ok 0, answered (Settings which) a line s)
      else none := by
  have hcmd : Settings which ≠ [] := List.append_ne_nil_of_right_ne_nil _ (by simp)
  simp only [promptLoop, Send_SAMD_CMD_answered hcmd h]
  split
  · simp only [Option.bind_some, answered, ha]
    rfl
  · rfl

theorem blockLoop_answered {pkt : List UInt8} (hpkt : pkt ≠ [])
    (h : exchange pkt s.line = (some a, line)) (ha : strstr (answerText a) (ascii "ok") = true) :
    blockLoop exchange pkt 2 0 s =
      if a.length < RET_BUFF_SIZE then some (0, answered pkt a line s) else none := by
  simp only [blockLoop, Send_SAMD_CMD_answered hpkt h]
  split
  · simp only [Option.bind_some, answered, ha]
    rfl
  · rfl

end Answered

/-- The sender after a run of messages that were answered at once. -/
theorem blocksLoop_answered {bs oks : List (List UInt8)} (hlen : oks.length = bs.length)
    (hoks : ∀ a ∈ oks, strstr (answerText a) (ascii "ok") = true)
    (hshort : ∀ a ∈ oks, a.length < RET_BUFF_SIZE)
    {rest : Answers} {s : Sender Answers}
    (hs : s.line = oks.map some ++ rest) :
    ∃ s', blocksLoop script bs s = some (0, s') ∧ s'.line = rest ∧
      s'.sent = s.sent ++ bs.map samd_pkt := by
  induction bs generalizing oks s with
  | nil =>
    obtain rfl := List.eq_nil_of_length_eq_zero hlen
    exact ⟨s, rfl, hs, by simp⟩
  | cons b bs ih =>
    cases oks with
    | nil => cases hlen
    | cons a oks =>
      have hpkt : samd_pkt b ≠ [] := List.append_ne_nil_of_right_ne_nil _ (by simp)
      have hexchange : script (samd_pkt b) s.line = (some a, oks.map some ++ rest) := by
        rw [hs]
        rfl
      have hblock := blockLoop_answered hpkt hexchange (hoks a List.mem_cons_self)
      rw [if_pos (hshort a List.mem_cons_self)] at hblock
      obtain ⟨s', hrun, hline, hsent⟩ := ih (Nat.succ.inj hlen)
        (fun a' ha' => hoks a' (List.mem_cons_of_mem a ha'))
        (fun a' ha' => hshort a' (List.mem_cons_of_mem a ha'))
        (s := answered (samd_pkt b) a (oks.map some ++ rest) s) rfl
      refine ⟨s', ?_, hline, ?_⟩
      · simp only [blocksLoop, hblock]
        exact hrun
      · rw [hsent, answered, List.map_cons, List.append_assoc]
        rfl

/-- One long answer among them ends the run. -/
theorem blocksLoop_overrun {bs oks : List (List UInt8)} (hlen : oks.length = bs.length)
    (hoks : ∀ a ∈ oks, strstr (answerText a) (ascii "ok") = true)
    (hlong : ∃ a ∈ oks, ¬ a.length < RET_BUFF_SIZE)
    {rest : Answers} {s : Sender Answers}
    (hs : s.line = oks.map some ++ rest) : blocksLoop script bs s = none := by
  induction bs generalizing oks s with
  | nil =>
    obtain rfl := List.eq_nil_of_length_eq_zero hlen
    obtain ⟨a, ha, -⟩ := hlong
    exact absurd ha List.not_mem_nil
  | cons b bs ih =>
    cases oks with
    | nil => cases hlen
    | cons a oks =>
      have hpkt : samd_pkt b ≠ [] := List.append_ne_nil_of_right_ne_nil _ (by simp)
      have hexchange : script (samd_pkt b) s.line = (some a, oks.map some ++ rest) := by
        rw [hs]
        rfl
      have hblock := blockLoop_answered hpkt hexchange (hoks a List.mem_cons_self)
      by_cases ha : a.length < RET_BUFF_SIZE
      · rw [if_pos ha] at hblock
        have hlater : ∃ a' ∈ oks, ¬ a'.length < RET_BUFF_SIZE := by
          obtain ⟨a', ha', hlong⟩ := hlong
          rcases List.mem_cons.mp ha' with rfl | ha'
          · exact absurd ha hlong
          · exact ⟨a', ha', hlong⟩
        simp only [blocksLoop, hblock]
        exact ih (Nat.succ.inj hlen) (fun a' ha' => hoks a' (List.mem_cons_of_mem a ha')) hlater
          (s := answered (samd_pkt b) a (oks.map some ++ rest) s) rfl
      · rw [if_neg ha] at hblock
        simp only [blocksLoop, hblock]
        rfl

/-! ### The messages of a download -/

/-- Every transmission is answered at once and as the sender wants it: the prompt with
`update`, the confirmation and each block with `ok`, and the last message in any way. -/
structure Positive (firmware : List UInt8) (update yes : List UInt8) (oks : List (List UInt8)) :
    Prop where
  update : strstr (answerText update) (ascii "update") = true
  yes : strstr (answerText yes) (ascii "ok") = true
  count : oks.length = (blocks firmware).length
  oks : ∀ a ∈ oks, strstr (answerText a) (ascii "ok") = true

/-- The answers of such a download, with more that may follow. -/
def answersOf (update yes : List UInt8) (oks : List (List UInt8)) (done : List UInt8)
    (rest : Answers) : Answers :=
  some update :: some yes :: (oks.map some ++ some done :: rest)

/-- `ret_buff` holds each of them. -/
def AllShort (update yes : List UInt8) (oks : List (List UInt8)) (done : List UInt8) : Prop :=
  ∀ a ∈ update :: yes :: (oks ++ [done]), a.length < RET_BUFF_SIZE

theorem allShort_iff {update yes done : List UInt8} {oks : List (List UInt8)} :
    AllShort update yes oks done ↔ update.length < RET_BUFF_SIZE ∧ yes.length < RET_BUFF_SIZE ∧
      (∀ a ∈ oks, a.length < RET_BUFF_SIZE) ∧ done.length < RET_BUFF_SIZE := by
  rw [AllShort, List.forall_mem_cons, List.forall_mem_cons, List.forall_mem_append,
    List.forall_mem_singleton]

/-- What the packets and the last message of a download must say about the firmware: the
blocks cut it up, filled with zeros to whole blocks, each packet ends in the checksum of
its block, and the last message has the length, its low byte first, and the checksum. -/
structure Describes (firmware : List UInt8) (pkts : List (List UInt8)) (done : List UInt8) :
    Prop where
  payload : ∃ k < PKT_SIZE, PKT_SIZE ∣ firmware.length + k ∧
    (pkts.map (List.take PKT_SIZE)).flatten = firmware ++ List.replicate k 0
  packet : ∀ p ∈ pkts, p.length = PKT_SIZE + 1 ∧ p[PKT_SIZE]? = some (checksum (p.take PKT_SIZE))
  length : ∃ lo hi, done[4]? = some lo ∧ done[5]? = some hi ∧
    lo.toNat + 256 * hi.toNat = firmware.length
  sum : done[6]? = some (checksum firmware)

theorem foldl_xor (bytes : List UInt8) (c : UInt8) :
    bytes.foldl (· ^^^ ·) c = c ^^^ checksum bytes := by
  induction bytes generalizing c with
  | nil => exact (UInt8.xor_zero).symm
  | cons b bytes ih =>
    have hsum : checksum (b :: bytes) = 0 ^^^ b ^^^ checksum bytes := ih (0 ^^^ b)
    rw [List.foldl_cons, ih, hsum, UInt8.zero_xor, UInt8.xor_assoc]

theorem checksum_append (bytes bytes' : List UInt8) :
    checksum (bytes ++ bytes') = checksum bytes ^^^ checksum bytes' := by
  rw [checksum, List.foldl_append, foldl_xor]
  rfl

theorem checksum_zeros (k : Nat) : checksum (List.replicate k 0) = 0 := by
  induction k with
  | zero => rfl
  | succ k ih => rw [List.replicate_succ, ← List.singleton_append, checksum_append, ih]; rfl

/-- The checksum over words and blocks is the one over the bytes. -/
theorem code_cksum {bs : List (List UInt8)} (hbs : ∀ b ∈ bs, b.length = PKT_SIZE) (w : Word) :
    (bs.foldl (fun w b => w.xor (cksum b)) w).fold = w.fold ^^^ checksum bs.flatten := by
  induction bs generalizing w with
  | nil => exact (UInt8.xor_zero).symm
  | cons b bs ih =>
    have hone : (w.xor (cksum b)).fold = w.fold ^^^ checksum b := by
      rw [← cksum_fold (hbs b List.mem_cons_self)]
      exact fold_xor w [cksum b]
    rw [List.foldl_cons, ih (fun b' hb' => hbs b' (List.mem_cons_of_mem b hb')), hone,
      List.flatten_cons, checksum_append, UInt8.xor_assoc]

theorem describes {firmware : List UInt8} (h : firmware.length ≤ FIRMWARE_PAD_SIZE) :
    Describes firmware ((blocks firmware).map samd_pkt) (done_msg firmware) := by
  have hblock : ∀ b ∈ blocks firmware, b.length = PKT_SIZE := fun b hb => mem_blocks_length h hb
  have hflat := blocks_flatten h
  obtain ⟨hpad, hle⟩ := padLen_eq h
  have htake : ((blocks firmware).map samd_pkt).map (List.take PKT_SIZE) = blocks firmware := by
    rw [List.map_map]
    exact (List.map_congr_left fun b hb => (isPacket_samd_pkt (hblock b hb)).2).trans
      (List.map_id _)
  refine ⟨⟨padLen firmware.length - firmware.length, ?_, ?_, ?_⟩, fun p hp => ?_, ?_, ?_⟩
  · simp only [hpad, PKT_SIZE]
    omega
  · rw [Nat.add_sub_cancel' hle, hpad]
    exact Nat.dvd_mul_right ..
  · rw [htake, hflat, firmware_pad]
  · obtain ⟨b, hb, rfl⟩ := List.mem_map.mp hp
    have hlen := hblock b hb
    rw [(isPacket_samd_pkt hlen).2, samd_pkt, cksum_fold hlen, ← hlen]
    simp
  · refine ⟨firmware.length.toUInt8, (firmware.length >>> 8).toUInt8, rfl, rfl, ?_⟩
    simp only [FIRMWARE_PAD_SIZE, Nat.toUInt8_eq, UInt8.toNat_ofNat',
      Nat.shiftRight_eq_div_pow] at *
    omega
  · have hsum := code_cksum hblock Word.zero
    rw [hflat, firmware_pad, checksum_append, checksum_zeros, UInt8.xor_zero] at hsum
    have hzero : Word.zero.fold = 0 := by decide
    rw [hzero, UInt8.zero_xor] at hsum
    rw [done_msg, hsum]
    rfl

theorem done_msg_ne_nil (firmware : List UInt8) : done_msg firmware ≠ [] :=
  List.append_ne_nil_of_right_ne_nil _ (by simp)

theorem download_prompted {σ : Type} {exchange : Line σ} {firmware : List UInt8} {which : Int}
    {s s₁ : Sender σ} (h : firmware.length ≤ FIRMWARE_PAD_SIZE)
    (hprompt : promptLoop exchange which 2 0 0 (beforePrompt s) = some (.ok 0, s₁)) :
    SAMD_firmware_download exchange firmware which s = afterPrompt exchange firmware s₁ := by
  rw [SAMD_firmware_download, if_neg (Nat.not_lt.mpr h), hprompt]
  rfl

section Run

variable {firmware : List UInt8} (h : firmware.length ≤ FIRMWARE_PAD_SIZE) (which : Int)
  {update yes done : List UInt8} {oks : List (List UInt8)} {rest : Answers}
  (hpos : Positive firmware update yes oks) {s : Sender Answers}
  (hline : s.line = answersOf update yes oks done rest)

include h hpos hline

/-- The run up to the blocks. -/
theorem download_confirmed (hupdate : update.length < RET_BUFF_SIZE)
    (hyes : yes.length < RET_BUFF_SIZE) :
    ∃ s₂ : Sender Answers, s₂.line = oks.map some ++ some done :: rest ∧
      s₂.sent = s.sent ++ [Settings which, ascii "yes"] ∧
      SAMD_firmware_download script firmware which s =
        (blocksLoop script (blocks firmware) s₂).bind fun r =>
          if r.1 ≠ 0 then some (release r.1 r.2)
          else (Send_SAMD_CMD script (done_msg firmware) r.2).map fun r => release 0 r.2 := by
  obtain ⟨s₁, hs₁⟩ : ∃ s₁, s₁ = answered (Settings which) update
      (some yes :: (oks.map some ++ some done :: rest)) (beforePrompt s) := ⟨_, rfl⟩
  have hexchange : script (Settings which) (beforePrompt s).line =
      (some update, some yes :: (oks.map some ++ some done :: rest)) := by
    rw [beforePrompt, hline]
    rfl
  have hprompt := promptLoop_answered hexchange hpos.update
  rw [if_pos hupdate, ← hs₁] at hprompt
  have hexchange₁ : script (ascii "yes") s₁.line =
      (some yes, oks.map some ++ some done :: rest) := by
    rw [hs₁]
    rfl
  have hconfirm := Send_SAMD_CMD_answered (by decide) hexchange₁
  rw [if_pos hyes] at hconfirm
  refine ⟨answered (ascii "yes") yes (oks.map some ++ some done :: rest) s₁, rfl, ?_, ?_⟩
  · simp [hs₁, answered, beforePrompt]
  · have hok : strstr (answerText yes) (ascii "ok") = true := hpos.yes
    rw [download_prompted h hprompt, afterPrompt, hconfirm]
    simp only [Option.bind_some, answered, hok, ne_eq, not_true_eq_false, if_false]

theorem download_sends (hshort : AllShort update yes oks done) :
    ∃ s', SAMD_firmware_download script firmware which s = some (0, s') ∧
      s'.sent = s.sent ++ Settings which :: ascii "yes" ::
        ((blocks firmware).map samd_pkt ++ [done_msg firmware]) := by
  obtain ⟨hupdate, hyes, hoks, hdone⟩ := allShort_iff.mp hshort
  obtain ⟨s₂, hline₂, hsent₂, hrun⟩ := download_confirmed h which hpos hline hupdate hyes
  obtain ⟨s₃, hblocks, hline₃, hsent₃⟩ := blocksLoop_answered hpos.count hpos.oks hoks hline₂
  have hexchange : script (done_msg firmware) s₃.line = (some done, rest) := by
    rw [hline₃]
    rfl
  have hlast := Send_SAMD_CMD_answered (done_msg_ne_nil firmware) hexchange
  rw [if_pos hdone] at hlast
  refine ⟨(release 0 (answered (done_msg firmware) done rest s₃)).2, ?_, ?_⟩
  · simp only [hrun, hblocks, Option.bind_some, ne_eq, not_true_eq_false, if_false, hlast]
    rfl
  · simp [release, answered, hsent₃, hsent₂]

theorem download_overruns (hlong : ¬ AllShort update yes oks done) :
    SAMD_firmware_download script firmware which s = none := by
  by_cases hupdate : update.length < RET_BUFF_SIZE
  · by_cases hyes : yes.length < RET_BUFF_SIZE
    · obtain ⟨s₂, hline₂, -, hrun⟩ := download_confirmed h which hpos hline hupdate hyes
      rw [hrun]
      by_cases hoks : ∀ a ∈ oks, a.length < RET_BUFF_SIZE
      · have hdone : ¬ done.length < RET_BUFF_SIZE := fun hdone =>
          hlong (allShort_iff.mpr ⟨hupdate, hyes, hoks, hdone⟩)
        obtain ⟨s₃, hblocks, hline₃, -⟩ := blocksLoop_answered hpos.count hpos.oks hoks hline₂
        have hexchange : script (done_msg firmware) s₃.line = (some done, rest) := by
          rw [hline₃]
          rfl
        have hlast := Send_SAMD_CMD_answered (done_msg_ne_nil firmware) hexchange
        rw [if_neg hdone] at hlast
        simp only [hblocks, Option.bind_some, ne_eq, not_true_eq_false, if_false, hlast]
        rfl
      · have hlate : ∃ a ∈ oks, ¬ a.length < RET_BUFF_SIZE := by
          simpa only [not_forall, exists_prop] using hoks
        rw [blocksLoop_overrun hpos.count hpos.oks hlate hline₂]
        rfl
    · have hexchange : script (Settings which) (beforePrompt s).line =
          (some update, some yes :: (oks.map some ++ some done :: rest)) := by
        rw [beforePrompt, hline]
        rfl
      have hprompt := promptLoop_answered hexchange hpos.update
      rw [if_pos hupdate] at hprompt
      have hyesne : ascii "yes" ≠ [] := by decide
      have hconfirm := Send_SAMD_CMD_answered (s := answered (Settings which) update
        (some yes :: (oks.map some ++ some done :: rest)) (beforePrompt s)) hyesne
        (show script (ascii "yes") _ = (some yes, _) from rfl)
      rw [if_neg hyes] at hconfirm
      rw [download_prompted h hprompt, afterPrompt, hconfirm]
      rfl
  · have hexchange : script (Settings which) (beforePrompt s).line =
        (some update, some yes :: (oks.map some ++ some done :: rest)) := by
      rw [beforePrompt, hline]
      rfl
    have hprompt := promptLoop_answered hexchange hpos.update
    rw [if_neg hupdate] at hprompt
    rw [SAMD_firmware_download, if_neg (Nat.not_lt.mpr h), hprompt]
    rfl

/-- **What a download sends.**  Of any firmware that fits, when every transmission is
answered at once as the sender wants it, `SAMD_firmware_download` sends the prompt, the
confirmation, the packets of the firmware and the last message, and returns 0, exactly when
`ret_buff` holds every answer. -/
theorem download_messages_iff :
    (∃ s' pkts last, SAMD_firmware_download script firmware which s = some (0, s') ∧
      s'.sent = s.sent ++ Settings which :: ascii "yes" :: (pkts ++ [last]) ∧
      Describes firmware pkts last) ↔ AllShort update yes oks done := by
  constructor
  · rintro ⟨s', pkts, last, hrun, -, -⟩
    by_contra hlong
    rw [download_overruns h which hpos hline hlong] at hrun
    cases hrun
  · intro hshort
    obtain ⟨s', hrun, hsent⟩ := download_sends h which hpos hline hshort
    exact ⟨s', (blocks firmware).map samd_pkt, done_msg firmware, hrun, hsent, describes h⟩

end Run

/-- A sender before a download whose answers are those. -/
def idleSender (answers : Answers) : Sender Answers where
  line := answers
  sent := []
  ret_buff := []
  uart_rvc_done := true
  samd_mutex := []
  artnet_enable := 1

theorem download_messages_sample :
    (∃ s' pkts last, SAMD_firmware_download script [7, 1, 2] 0
        (idleSender (answersOf (ascii "update") (ascii "ok") [ascii "ok:"] (ascii "ok") [])) =
          some (0, s') ∧
      s'.sent = [] ++ Settings 0 :: ascii "yes" :: (pkts ++ [last]) ∧
      Describes [7, 1, 2] pkts last) ↔
        AllShort (ascii "update") (ascii "ok") [ascii "ok:"] (ascii "ok") := by
  have hpos : Positive [7, 1, 2] (ascii "update") (ascii "ok") [ascii "ok:"] :=
    ⟨by decide, by decide, by decide, by decide⟩
  exact download_messages_iff (by decide) 0 hpos rfl

/-- A prompt answered with `update` and 26 blanks overruns `ret_buff`. -/
theorem long_answer_overruns :
    Positive [7, 1, 2] (ascii "update" ++ List.replicate 26 0x20) (ascii "ok") [ascii "ok"] ∧
      SAMD_firmware_download script [7, 1, 2] 0 (idleSender
        (answersOf (ascii "update" ++ List.replicate 26 0x20) (ascii "ok") [ascii "ok"]
          (ascii "ok") [])) = none := by
  have hpos : Positive [7, 1, 2] (ascii "update" ++ List.replicate 26 0x20) (ascii "ok")
      [ascii "ok"] := ⟨by decide, by decide, by decide, by decide⟩
  have hlong : ¬ AllShort (ascii "update" ++ List.replicate 26 0x20) (ascii "ok") [ascii "ok"]
      (ascii "ok") := fun h => absurd (allShort_iff.mp h).1 (by decide)
  exact ⟨hpos, download_overruns (by decide) 0 hpos rfl hlong⟩

end AksFirmware.SamdSender
