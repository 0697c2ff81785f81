import AksFirmware.SamdLink

/-!
# The buffers behind a reply

A reply passes through three arrays: the chunk of the UART driver, of which at most 60 bytes
are taken, `uart_rcv_data` with 64 bytes, and the caller's `ret_buff` with 32.  A chunk is
clipped but the sum of the chunks is not, and the copy takes `uart_rvc_len` bytes whatever
the size of the caller's array.

Here the calls and the chunks come in any order and number.  A run keeps within its arrays
exactly if each of its steps fits in the state it is taken from.
-/

namespace AksFirmware.SamdBuffers

open ByteMemory CText SamdLink

/-- A chunk for the callback, a call of `Send_SAMD_CMD` with a command of `len` bytes, the
next step of the call that is running, or `clear_uart_recv` on its own. -/
inductive Act where
  | callback (data : List UInt8)
  | call (len : Nat)
  | thread (expired : Bool)
  | clear
deriving DecidableEq

/-- A caller waits until the call before it has returned. -/
def call (len : Nat) (s : Link) : Link :=
  match s.pc with
  | .returned _ => { s with expect_resp := [], pc := if len = 0 then .returned (-100) else .send 0 }
  | _ => s

def thread (expired : Bool) (s : Link) : Option Link :=
  match s.pc with
  | .returned _ => some s
  | _ => Send_SAMD_CMD expired s

/-- No outcome when a byte outside an array is read or written; every act has one
otherwise. -/
def step (s : Link) : Act → Option Link
  | .callback data => uart_recv_callback data s
  | .call len => some (call len s)
  | .thread expired => thread expired s
  | .clear => some (clear_uart_recv s)

def idle : Link where
  uart_rcv_data := zeroed
  uart_rvc_len := 0
  uart_rvc_done := true
  expect_resp := []
  pc := .returned 0
  pending := []

/-- Up to the end of the sequence every access lies inside its array and `uart_rvc_len` is
at most 63. -/
def Bounded (acts : List Act) : Prop :=
  ∀ before after, acts = before ++ after →
    ∃ s, Runs.exec step idle before = some s ∧ s.uart_rvc_len ≤ 63

/-- A chunk that is stored leaves room for the terminating zero, and the reply that is
copied leaves room for it in 32 bytes. -/
def Fits (s : Link) : Act → Prop
  | .callback data => s.uart_rvc_done = false → s.uart_rvc_len + min data.length 60 ≤ 63
  | .thread _ => s.pc = .copy → s.uart_rvc_len ≤ 31
  | _ => True

theorem callback_fits {data : List UInt8} (hdata : data ≠ []) {s : Link}
    (hs : s.uart_rvc_len ≤ 63) :
    (∃ s', uart_recv_callback data s = some s' ∧ s'.uart_rvc_len ≤ 63) ↔
      Fits s (.callback data) := by
  have hpos := List.length_pos_of_ne_nil hdata
  have hclip : (if data.length > 60 then 60 else data.length) = min data.length 60 := by
    split <;> omega
  simp only [uart_recv_callback, Fits, hclip]
  cases s.uart_rvc_done with
  | true => simp
  | false =>
    simp only [Bool.false_eq_true, if_false, forall_const]
    constructor
    · rintro ⟨s', hstep, hlen⟩
      split at hstep
      · cases hstep
      split at hstep
      · split at hstep
        · cases hstep
          exact hlen
        · cases hstep
      · cases hstep
        exact hlen
    · intro hroom
      rw [if_neg (by simp only [UART_BUFF_SIZE]; omega)]
      split
      · exact ⟨_, if_pos (by simp only [UART_BUFF_SIZE]; omega), hroom⟩
      · exact ⟨_, rfl, hroom⟩

theorem thread_fits {expired : Bool} {s : Link} (hs : s.uart_rvc_len ≤ 63) :
    (∃ s', thread expired s = some s' ∧ s'.uart_rvc_len ≤ 63) ↔ Fits s (.thread expired) := by
  simp only [thread, Fits, Send_SAMD_CMD]
  cases s.pc with
  | send try_snd => simp [clear_uart_recv]
  | wait try_snd => simp only [reduceCtorEq, false_imp_iff, iff_true]; split <;> exact ⟨_, rfl, hs⟩
  | check try_snd =>
    simp only [reduceCtorEq, false_imp_iff, iff_true]
    split
    · exact ⟨_, rfl, hs⟩
    split <;> exact ⟨_, rfl, hs⟩
  | copy =>
    simp only [forall_const]
    constructor
    · rintro ⟨s', hstep, -⟩
      split at hstep
      · rename_i hlt
        exact Nat.le_of_lt_succ hlt
      · cases hstep
    · intro hle
      exact ⟨_, if_pos (Nat.lt_succ_of_le hle), hs⟩
  | returned rc => simp [hs]

theorem call_fits (len : Nat) {s : Link} (hs : s.uart_rvc_len ≤ 63) :
    (call len s).uart_rvc_len ≤ 63 := by
  unfold call
  split <;> exact hs

theorem step_fits {a : Act} (hdata : a ≠ .callback []) {s : Link} (hs : s.uart_rvc_len ≤ 63) :
    (∃ s', step s a = some s' ∧ s'.uart_rvc_len ≤ 63) ↔ Fits s a := by
  cases a with
  | callback data => exact callback_fits (fun hnil => hdata (by rw [hnil])) hs
  | call len => exact iff_of_true ⟨_, rfl, call_fits len hs⟩ trivial
  | thread expired => exact thread_fits hs
  | clear => exact iff_of_true ⟨_, rfl, Nat.zero_le 63⟩ trivial

/-- **The bounds of the receive path.**  A sequence of callbacks and calls keeps within its
arrays if and only if each of its steps fits. -/
theorem bounded_iff {acts : List Act} (hdata : Act.callback [] ∉ acts) :
    Bounded acts ↔ Runs.Each step Fits idle acts :=
  Runs.exec_within_iff (P := fun s : Link => s.uart_rvc_len ≤ 63)
    (fun _ _ ha hs => step_fits (fun heq => hdata (heq ▸ ha)) hs) (Nat.zero_le 63)

theorem bounded_iff_sample :
    Bounded [.call 15, .thread false, .callback (ascii "ok" ++ [CR]), .thread false] ↔
      Runs.Each step Fits idle
        [.call 15, .thread false, .callback (ascii "ok" ++ [CR]), .thread false] :=
  bounded_iff (by decide)

/-- Two chunks of 60 bytes without a line end run past `uart_rcv_data`, and a line of 33
bytes past `ret_buff`. -/
theorem long_reply_overruns :
    ¬ Bounded [.clear, .callback (List.replicate 60 0x41), .callback (List.replicate 60 0x41)] ∧
      ¬ Bounded [.call 15, .thread false, .callback (List.replicate 32 0x41 ++ [LF]),
        .thread false, .thread false, .thread false] := by
  constructor
  · intro h
    obtain ⟨s, hrun, -⟩ := h _ [] (List.append_nil _).symm
    have hnone : Runs.exec step idle [.clear, .callback (List.replicate 60 0x41),
        .callback (List.replicate 60 0x41)] = none := by
      rfl
    rw [hnone] at hrun
    cases hrun
  · intro h
    obtain ⟨s, hrun, -⟩ := h _ [] (List.append_nil _).symm
    have hnone : Runs.exec step idle [.call 15, .thread false,
        .callback (List.replicate 32 0x41 ++ [LF]), .thread false, .thread false,
        .thread false] = none := by
      rfl
    rw [hnone] at hrun
    cases hrun

end AksFirmware.SamdBuffers
