import AksFirmware.CText
import AksFirmware.Runs

/-!
# Waiting for a reply

`Send_SAMD_CMD` sends a command to the SAMD and waits for a line of text.  The UART
driver hands the line over in chunks, from its own thread: `uart_recv_callback` collects
them in `uart_rcv_data` and sets `uart_rvc_done` at the end of the line.

The two threads take turns here in any order.  The waiting thread moves by one access to
the shared variables at a time, and the time it has waited is up to the schedule.
-/

namespace AksFirmware.SamdLink

open ByteMemory CText

def CR : UInt8 := 0x0d
def LF : UInt8 := 0x0a

/-- Where a call of `Send_SAMD_CMD` stands, with its `try_snd`. -/
inductive Pc where
  | send (try_snd : Nat)
  | wait (try_snd : Nat)
  | check (try_snd : Nat)
  | copy
  | returned (rc : Int)
deriving DecidableEq

/-- The shared variables, the bytes copied to `expect_resp` so far, and the chunks of the
reply that the UART has still to deliver. -/
structure Link where
  uart_rcv_data : Mem
  uart_rvc_len : Nat
  uart_rvc_done : Bool
  expect_resp : List UInt8
  pc : Pc
  pending : List (List UInt8)

def UART_BUFF_SIZE : Nat := 64
def RET_BUFF_SIZE : Nat := 32

def clear_uart_recv (s : Link) : Link := { s with uart_rvc_done := false, uart_rvc_len := 0 }

/-- No outcome when a byte outside the buffer is read or written. -/
def uart_recv_callback (data : List UInt8) (s : Link) : Option Link :=
  if s.uart_rvc_done then some { s with uart_rvc_len := 0 }
  else
    let copy_len := if data.length > 60 then 60 else data.length
    let rcv := store s.uart_rcv_data s.uart_rvc_len (strncpyBytes copy_len data)
    let len := s.uart_rvc_len + copy_len
    if len = 0 ∨ UART_BUFF_SIZE < len then none
    else if rcv (len - 1) = LF ∨ rcv (len - 1) = CR then
      if len < UART_BUFF_SIZE then
        some { s with
          uart_rcv_data := store rcv len [0], uart_rvc_len := len, uart_rvc_done := true }
      else none
    else some { s with uart_rcv_data := rcv, uart_rvc_len := len }

/-- One step of the waiting thread; `expired` is the outcome of the time comparison. -/
def Send_SAMD_CMD (expired : Bool) (s : Link) : Option Link :=
  match s.pc with
  | .send try_snd => some { clear_uart_recv s with pc := .wait try_snd }
  | .wait try_snd => some (if expired || s.uart_rvc_done then { s with pc := .check try_snd } else s)
  | .check try_snd =>
      if s.uart_rvc_done then some { s with pc := .copy }
      else if try_snd + 1 < 2 then some { s with pc := .send (try_snd + 1) }
      else some { s with uart_rvc_done := true, pc := .returned (-101) }
  | .copy =>
      let rcv := store s.uart_rcv_data 31 [0]
      if s.uart_rvc_len < RET_BUFF_SIZE then
        some { s with
          uart_rvc_done := true
          uart_rcv_data := rcv
          expect_resp := load rcv 0 s.uart_rvc_len
          pc := .returned 0 }
      else none
  | .returned _ => none

inductive Act where
  | callback
  | thread (expired : Bool)
deriving DecidableEq

def step (s : Link) : Act → Option Link
  | .callback =>
      match s.pending with
      | [] => none
      | data :: pending => uart_recv_callback data { s with pending := pending }
  | .thread expired => Send_SAMD_CMD expired s

/-! ### The reply -/

/-- A line of text, and the way the UART cuts it into chunks. -/
structure ReplyLine where
  text : List UInt8
  terminator : List UInt8
  chunks : List (List UInt8)
  plain : ∀ b ∈ text, b ≠ CR ∧ b ≠ LF
  ending : terminator = [CR] ∨ terminator = [LF] ∨ terminator = [CR, LF]
  cut : chunks.flatten = text ++ terminator
  nonempty : ∀ c ∈ chunks, c ≠ []
  short : (text ++ terminator).length ≤ 31

/-- `Send_SAMD_CMD` after its first `clear_uart_recv`, with the reply on its way. -/
def ReplyLine.start (L : ReplyLine) (uart_rcv_data : Mem) : Link where
  uart_rcv_data := uart_rcv_data
  uart_rvc_len := 0
  uart_rvc_done := false
  expect_resp := []
  pc := .wait 0
  pending := L.chunks

/-- The text was copied out whole, with the end of the line as far as it was awaited. -/
def ReplyLine.Whole (L : ReplyLine) (s : Link) : Prop :=
  ∃ t, t ≠ [] ∧ t <+: L.terminator ∧ s.expect_resp = L.text ++ t

/-- Until the call returns, no chunk arrives once the line is complete, the command is not
sent again once a chunk was received, and in every chunk only zeros follow a zero. -/
def Careful (s : Link) : Act → Prop
  | .callback => (∀ rc, s.pc ≠ .returned rc) →
      s.uart_rvc_done = false ∧ ∀ c ∈ s.pending.head?, ∀ b ∈ c.dropWhile (· ≠ 0), b = 0
  | .thread _ => ∀ try_snd, s.pc = .send try_snd → s.uart_rvc_len = 0 ∧ s.uart_rvc_done = false

/-! ### Lines and their prefixes -/

def endsLine (bytes : List UInt8) : Bool :=
  match bytes.getLast? with
  | some b => b = LF || b = CR
  | none => false

theorem endsLine_iff {bytes : List UInt8} :
    endsLine bytes = true ↔ ∃ b, bytes.getLast? = some b ∧ (b = LF ∨ b = CR) := by
  unfold endsLine
  cases bytes.getLast? <;> simp

namespace ReplyLine

variable (L : ReplyLine)

theorem terminator_length : 1 ≤ L.terminator.length ∧ L.terminator.length ≤ 2 := by
  rcases L.ending with h | h | h <;> rw [h] <;> decide

theorem not_endsLine_text {bytes : List UInt8} (h : bytes <+: L.text) : endsLine bytes = false := by
  rw [← Bool.not_eq_true, endsLine_iff]
  rintro ⟨b, hb, hend⟩
  have hmem := L.plain b (h.subset (List.mem_of_getLast? hb))
  rcases hend with rfl | rfl
  · exact hmem.2 rfl
  · exact hmem.1 rfl

/-- A prefix of the line that ends a line holds the whole text. -/
theorem prefix_of_endsLine {bytes : List UInt8} (h : bytes <+: L.text ++ L.terminator)
    (hend : endsLine bytes = true) : ∃ t, t ≠ [] ∧ t <+: L.terminator ∧ bytes = L.text ++ t := by
  obtain ⟨rest, hrest⟩ := h
  rcases List.append_eq_append_iff.mp hrest with ⟨t, htext, -⟩ | ⟨t, hbytes, hterm⟩
  · rw [L.not_endsLine_text ⟨t, htext.symm⟩] at hend
    cases hend
  · refine ⟨t, ?_, ⟨rest, hterm.symm⟩, hbytes⟩
    rintro rfl
    rw [hbytes, List.append_nil, L.not_endsLine_text List.prefix_rfl] at hend
    cases hend

end ReplyLine

/-! ### What has become of the chunks -/

/-- The bytes that the callback stores for chunks. -/
def stored (got : List (List UInt8)) : List UInt8 := got.flatMap fun c => strncpyBytes c.length c

theorem stored_length (got : List (List UInt8)) : (stored got).length = got.flatten.length := by
  induction got with
  | nil => rfl
  | cons c got ih =>
    simp only [stored, List.flatMap_cons, List.flatten_cons, List.length_append,
      strncpyBytes_length]
    rw [← ih]
    rfl

theorem stored_concat (got : List (List UInt8)) (c : List UInt8) :
    stored (got ++ [c]) = stored got ++ strncpyBytes c.length c := by
  simp [stored]

/-- Chunks are stored as they are exactly when in each only zeros follow a zero. -/
theorem stored_eq_iff (got : List (List UInt8)) :
    stored got = got.flatten ↔ ∀ c ∈ got, ∀ b ∈ c.dropWhile (· ≠ 0), b = 0 := by
  induction got with
  | nil => simp [stored]
  | cons c got ih =>
    rw [List.forall_mem_cons, ← ih, ← strncpyBytes_eq_iff, List.flatten_cons]
    constructor
    · intro h
      exact List.append_inj h (strncpyBytes_length _ _)
    · rintro ⟨hc, hgot⟩
      rw [← hgot]
      exact congrArg (· ++ stored got) hc

/-- A byte that is stored is zero or the byte received in its place. -/
theorem stored_getElem {got : List (List UInt8)} {i : Nat} {b : UInt8}
    (h : (stored got)[i]? = some b) (hb : b ≠ 0) : got.flatten[i]? = some b := by
  induction got generalizing i with
  | nil => simp [stored] at h
  | cons c got ih =>
    rw [List.flatten_cons]
    by_cases hi : i < c.length
    · have hlt : i < (strncpyBytes c.length c).length := by rwa [strncpyBytes_length]
      rw [List.getElem?_append_left hi]
      exact strncpyBytes_getElem ((List.getElem?_append_left hlt).symm.trans h) hb
    · have hle : (strncpyBytes c.length c).length ≤ i := by
        rw [strncpyBytes_length]
        exact Nat.not_lt.mp hi
      have hrest : (stored got)[i - c.length]? = some b := by
        rw [← strncpyBytes_length c.length c, ← List.getElem?_append_right hle]
        exact h
      rw [List.getElem?_append_right (Nat.not_lt.mp hi)]
      exact ih hrest

theorem stored_getLast {got : List (List UInt8)} {b : UInt8}
    (h : (stored got).getLast? = some b) (hb : b ≠ 0) : got.flatten.getLast? = some b := by
  rw [List.getLast?_eq_getElem?, stored_length] at h
  rw [List.getLast?_eq_getElem?]
  exact stored_getElem h hb

/-- While the call runs: the chunks `lost` came before the command was sent again, `got`
since then, and `late` after they had completed a line. -/
structure Heard (L : ReplyLine) (lost got late : List (List UInt8)) (s : Link) : Prop where
  running : ∀ rc, s.pc ≠ .returned rc
  split : L.chunks = lost ++ got ++ late ++ s.pending
  done_iff : s.uart_rvc_done = true ↔ endsLine (stored got) = true
  late_done : late ≠ [] → s.uart_rvc_done = true
  data : load s.uart_rcv_data 0 (stored got).length = stored got
  len : s.uart_rvc_len = if late = [] then (stored got).length else 0
  copying : s.pc = .copy → s.uart_rvc_done = true

/-- Nothing was lost, late or cut short. -/
def Intact (lost got late : List (List UInt8)) : Prop :=
  lost = [] ∧ late = [] ∧ ∀ c ∈ got, ∀ b ∈ c.dropWhile (· ≠ 0), b = 0

section

variable {L : ReplyLine} {lost got late : List (List UInt8)} {s : Link}

theorem Heard.line (h : Heard L lost got late s) :
    lost.flatten ++ (got.flatten ++ (late.flatten ++ s.pending.flatten)) =
      L.text ++ L.terminator := by
  rw [← L.cut, h.split]
  simp only [List.flatten_append, List.append_assoc]

theorem Heard.lost_eq_nil (h : Heard L lost got late s) (hlost : lost.flatten = []) : lost = [] := by
  apply List.eq_nil_iff_forall_not_mem.mpr
  intro c hc
  refine L.nonempty c ?_ (List.flatten_eq_nil_iff.mp hlost c hc)
  rw [h.split, List.append_assoc, List.append_assoc]
  exact List.mem_append_left _ hc

/-- A line that was copied whole lost nothing before it. -/
theorem Heard.nothing_lost (h : Heard L lost got late s) {t : List UInt8} (hne : t ≠ [])
    (hpre : t <+: L.terminator) (hstored : stored got = L.text ++ t) : lost = [] := by
  refine h.lost_eq_nil ?_
  by_contra hlost
  have hline := h.line
  have hlen := congrArg List.length hline
  have hgot := congrArg List.length hstored
  rw [stored_length] at hgot
  simp only [List.length_append] at hlen hgot
  have hlost1 := List.length_pos_of_ne_nil hlost
  have ht1 := List.length_pos_of_ne_nil hne
  have hterm := L.terminator_length.2
  -- only `\r\n` is long enough: the `\r` would have been received after the byte lost
  have hrest : late.flatten ++ s.pending.flatten = [] :=
    List.length_eq_zero_iff.mp (by rw [List.length_append]; omega)
  obtain ⟨c, rfl⟩ : ∃ c, t = [c] := List.length_eq_one_iff.mp (by omega)
  have hcrlf : L.terminator = [CR, LF] := by
    rcases L.ending with hend | hend | hend
    · rw [hend] at hlen
      simp only [List.length_singleton] at hlen hgot
      omega
    · rw [hend] at hlen
      simp only [List.length_singleton] at hlen hgot
      omega
    · exact hend
  have hc : c = CR := by
    rw [hcrlf] at hpre
    exact (List.cons_prefix_cons.mp hpre).1
  have hlast : (stored got).getLast? = some CR := by rw [hstored, hc, List.getLast?_concat]
  have hreceived := stored_getLast hlast (by decide)
  have hline' := congrArg List.getLast? hline
  rw [hrest, List.append_nil, List.getLast?_append, hreceived, hcrlf, List.getLast?_append] at hline'
  have hcr : CR = LF := Option.some.inj hline'
  revert hcr
  decide

/-- What is copied out of a complete line is the whole text exactly when the chunks are
intact. -/
theorem Heard.whole_iff (h : Heard L lost got late s) (hdone : s.uart_rvc_done = true) :
    (∃ t, t ≠ [] ∧ t <+: L.terminator ∧ (if late = [] then stored got else []) = L.text ++ t) ↔
      Intact lost got late := by
  constructor
  · rintro ⟨t, hne, hpre, hcopied⟩
    have hlate : late = [] := by
      by_contra hlate
      rw [if_neg hlate] at hcopied
      exact hne (List.append_eq_nil_iff.mp hcopied.symm).2
    rw [if_pos hlate] at hcopied
    have hlost := h.nothing_lost hne hpre hcopied
    have hline := h.line
    rw [hlost, List.flatten_nil, List.nil_append] at hline
    obtain ⟨rest, hrest⟩ := hpre
    rw [← hrest, ← List.append_assoc L.text, ← hcopied] at hline
    exact ⟨hlost, hlate, (stored_eq_iff got).mp (List.append_inj hline (stored_length got).symm).1.symm⟩
  · rintro ⟨hlost, hlate, hzeros⟩
    have hgot := (stored_eq_iff got).mpr hzeros
    have hline := h.line
    rw [hlost, List.flatten_nil, List.nil_append] at hline
    obtain ⟨t, hne, hpre, hcopied⟩ :=
      L.prefix_of_endsLine ⟨_, hline⟩ (by rw [← hgot]; exact h.done_iff.mp hdone)
    exact ⟨t, hne, hpre, by rw [if_pos hlate, hgot, hcopied]⟩

end

/-! ### Steps -/

theorem Heard.length_le {L : ReplyLine} {lost got late : List (List UInt8)} {s : Link}
    (h : Heard L lost got late s) :
    (stored got).length + s.pending.flatten.length ≤ 31 ∧ s.uart_rvc_len ≤ 31 := by
  have hlen := congrArg List.length h.line
  have hshort := L.short
  simp only [List.length_append] at hlen hshort
  rw [h.len, stored_length]
  split <;> omega

theorem Heard.copied {L : ReplyLine} {lost got late : List (List UInt8)} {s : Link}
    (h : Heard L lost got late s) :
    load (store s.uart_rcv_data 31 [0]) 0 s.uart_rvc_len = if late = [] then stored got else [] := by
  rw [load_store_disjoint _ _ (Or.inl (by have := h.length_le.2; omega)), h.len]
  split
  · exact h.data
  · rfl

theorem ReplyLine.start_heard (L : ReplyLine) (rcv : Mem) : Heard L [] [] [] (L.start rcv) where
  running := by simp [ReplyLine.start]
  split := rfl
  done_iff := by simp [ReplyLine.start, stored, endsLine]
  late_done := by simp
  data := rfl
  len := rfl
  copying := by simp [ReplyLine.start]

/-- A chunk that is stored, in a buffer with room for it. -/
theorem uart_recv_callback_stores {s : Link} {data bytes : List UInt8}
    (hdone : s.uart_rvc_done = false) (hne : data ≠ []) (hroom : s.uart_rvc_len + data.length ≤ 31)
    (hlen : s.uart_rvc_len = bytes.length) (hbytes : load s.uart_rcv_data 0 bytes.length = bytes) :
    ∃ rcv, uart_recv_callback data s = some { s with
        uart_rcv_data := rcv
        uart_rvc_len := s.uart_rvc_len + data.length
        uart_rvc_done := endsLine (bytes ++ strncpyBytes data.length data) } ∧
      load rcv 0 (s.uart_rvc_len + data.length) = bytes ++ strncpyBytes data.length data := by
  have hpos := List.length_pos_of_ne_nil hne
  have hstored : load (store s.uart_rcv_data s.uart_rvc_len (strncpyBytes data.length data)) 0
      (s.uart_rvc_len + data.length) = bytes ++ strncpyBytes data.length data := by
    have hnew := load_store_same s.uart_rcv_data s.uart_rvc_len (strncpyBytes data.length data)
    rw [strncpyBytes_length] at hnew
    rw [load_add, Nat.zero_add, hnew, load_store_disjoint _ _ (Or.inl (Nat.zero_add _).le), hlen,
      hbytes]
  have hlast : endsLine (bytes ++ strncpyBytes data.length data) = true ↔
      store s.uart_rcv_data s.uart_rvc_len (strncpyBytes data.length data)
          (s.uart_rvc_len + data.length - 1) = LF ∨
        store s.uart_rcv_data s.uart_rvc_len (strncpyBytes data.length data)
          (s.uart_rvc_len + data.length - 1) = CR := by
    rw [← hstored, endsLine_iff, load_getLast _ _ (by omega)]
    simp
  have hcopy : (if data.length > 60 then 60 else data.length) = data.length := if_neg (by omega)
  unfold uart_recv_callback
  simp only [hdone, hcopy, Bool.false_eq_true, if_false]
  rw [if_neg (by simp only [UART_BUFF_SIZE]; omega)]
  by_cases hend : endsLine (bytes ++ strncpyBytes data.length data) = true
  · rw [if_pos (hlast.mp hend), if_pos (by simp only [UART_BUFF_SIZE]; omega)]
    refine ⟨_, by rw [hend], ?_⟩
    rw [load_store_disjoint _ _ (Or.inl (Nat.zero_add _).le)]
    exact hstored
  · rw [if_neg (hlast.not.mp hend)]
    exact ⟨_, by rw [Bool.not_eq_true _ |>.mp hend, ← hdone], hstored⟩

theorem Heard.callback {L : ReplyLine} {lost got late : List (List UInt8)} {s s' : Link}
    (h : Heard L lost got late s) (hstep : step s .callback = some s') :
    ∃ got' late', Heard L lost got' late' s' ∧
      (Intact lost got' late' ↔ Intact lost got late ∧ Careful s .callback) := by
  cases hpending : s.pending with
  | nil => simp [step, hpending] at hstep
  | cons data pending =>
    simp only [step, hpending] at hstep
    have hcareful : Careful s .callback ↔
        s.uart_rvc_done = false ∧ ∀ b ∈ data.dropWhile (· ≠ 0), b = 0 := by
      simp [Careful, h.running, hpending]
    cases hdone : s.uart_rvc_done with
    | true =>
      simp only [uart_recv_callback, hdone, if_true] at hstep
      obtain rfl := Option.some.inj hstep
      refine ⟨got, late ++ [data], ⟨h.running, ?_, hdone ▸ h.done_iff, fun _ => rfl, h.data, ?_,
        fun _ => rfl⟩, ?_⟩
      · rw [h.split, hpending]
        simp
      · simp
      · rw [hcareful, hdone]
        simp [Intact]
    | false =>
      have hlate : late = [] := by
        by_contra hne
        rw [h.late_done hne] at hdone
        cases hdone
      have hlen : s.uart_rvc_len = (stored got).length := by rw [h.len, if_pos hlate]
      have hroom := h.length_le.1
      rw [hpending, List.flatten_cons, List.length_append] at hroom
      have hmem : data ∈ L.chunks := by
        rw [h.split, hpending]
        exact List.mem_append_right _ List.mem_cons_self
      obtain ⟨rcv, hrun, hload⟩ := uart_recv_callback_stores (s := { s with pending := pending })
        hdone (L.nonempty data hmem) (by dsimp only; omega) hlen h.data
      obtain rfl := Option.some.inj (hrun.symm.trans hstep)
      refine ⟨got ++ [data], [], ⟨h.running, ?_, ?_, fun hne => absurd rfl hne, ?_, ?_, ?_⟩, ?_⟩
      · rw [h.split, hpending, hlate]
        simp
      · rw [stored_concat]
      · rw [stored_concat, ← hload, load_length]
      · rw [if_pos rfl, stored_concat, List.length_append, strncpyBytes_length, ← hlen]
      · intro hcopy
        rw [h.copying hcopy] at hdone
        cases hdone
      · rw [hcareful, hdone]
        simp [Intact, hlate, or_imp, forall_and, and_assoc]

theorem Heard.setPc {L : ReplyLine} {lost got late : List (List UInt8)} {s : Link}
    (h : Heard L lost got late s) {pc : Pc} (hrunning : ∀ rc, pc ≠ .returned rc)
    (hcopy : pc = .copy → s.uart_rvc_done = true) : Heard L lost got late { s with pc := pc } :=
  ⟨hrunning, h.split, h.done_iff, h.late_done, h.data, h.len, hcopy⟩

theorem Heard.resend {L : ReplyLine} {lost got late : List (List UInt8)} {s : Link}
    (h : Heard L lost got late s) {try_snd : Nat} (hpc : s.pc = .send try_snd) (expired : Bool) :
    Heard L (lost ++ got ++ late) [] [] { clear_uart_recv s with pc := .wait try_snd } ∧
      (Intact (lost ++ got ++ late) [] [] ↔
        Intact lost got late ∧ Careful s (.thread expired)) := by
  have hcareful : Careful s (.thread expired) ↔ s.uart_rvc_len = 0 ∧ s.uart_rvc_done = false := by
    simp [Careful, hpc]
  refine ⟨⟨by simp, by simpa [clear_uart_recv] using h.split, by simp [clear_uart_recv, stored, endsLine],
    by simp, rfl, rfl, by simp⟩, ?_⟩
  rw [hcareful]
  constructor
  · rintro ⟨hnone, -, -⟩
    obtain ⟨hrest, hlate⟩ := List.append_eq_nil_iff.mp hnone
    obtain ⟨hlost, hgot⟩ := List.append_eq_nil_iff.mp hrest
    have hlen := h.len
    have hdone := h.done_iff
    rw [hgot] at hlen hdone
    refine ⟨⟨hlost, hlate, by simp [hgot]⟩, by simpa [hlate, stored] using hlen, ?_⟩
    rw [← Bool.not_eq_true, hdone]
    simp [stored, endsLine]
  · rintro ⟨⟨hlost, hlate, -⟩, hlen, -⟩
    have hgot : got.flatten = [] := by
      rw [h.len, if_pos hlate, stored_length] at hlen
      exact List.length_eq_zero_iff.mp hlen
    have hnone : got = [] := by
      apply List.eq_nil_iff_forall_not_mem.mpr
      intro c hc
      refine L.nonempty c ?_ (List.flatten_eq_nil_iff.mp hgot c hc)
      rw [h.split, List.append_assoc, List.append_assoc]
      exact List.mem_append_right _ (List.mem_append_left _ hc)
    exact ⟨by simp [hlost, hnone, hlate], rfl, by simp⟩

/-- A step of the waiting thread: the call goes on, or returns with what was received. -/
theorem Heard.thread {L : ReplyLine} {lost got late : List (List UInt8)} {s s' : Link}
    (h : Heard L lost got late s) {expired : Bool}
    (hstep : step s (.thread expired) = some s') :
    (∃ lost' got' late', Heard L lost' got' late' s' ∧
        (Intact lost' got' late' ↔ Intact lost got late ∧ Careful s (.thread expired))) ∨
      ∃ rc, s'.pc = .returned rc ∧
        (rc = 0 → (L.Whole s' ↔ Intact lost got late ∧ Careful s (.thread expired))) := by
  have hcareful : (∀ try_snd, s.pc ≠ .send try_snd) →
      (Intact lost got late ↔ Intact lost got late ∧ Careful s (.thread expired)) := by
    intro hpc
    exact (and_iff_left fun try_snd heq => absurd heq (hpc try_snd)).symm
  simp only [step, Send_SAMD_CMD] at hstep
  cases hpc : s.pc with
  | send try_snd =>
    simp only [hpc] at hstep
    obtain rfl := Option.some.inj hstep
    exact Or.inl ⟨_, [], [], h.resend hpc expired⟩
  | wait try_snd =>
    simp only [hpc] at hstep
    obtain rfl := Option.some.inj hstep
    refine Or.inl ⟨lost, got, late, ?_, hcareful (by simp [hpc])⟩
    split
    · exact h.setPc (by simp) (by simp)
    · exact h
  | check try_snd =>
    simp only [hpc] at hstep
    split at hstep
    · rename_i hdone
      obtain rfl := Option.some.inj hstep
      exact Or.inl ⟨lost, got, late, h.setPc (by simp) fun _ => hdone, hcareful (by simp [hpc])⟩
    · split at hstep
      · obtain rfl := Option.some.inj hstep
        exact Or.inl ⟨lost, got, late, h.setPc (by simp) (by simp), hcareful (by simp [hpc])⟩
      · obtain rfl := Option.some.inj hstep
        exact Or.inr ⟨-101, rfl, fun h0 => absurd h0 (by decide)⟩
  | copy =>
    simp only [hpc] at hstep
    split at hstep
    · obtain rfl := Option.some.inj hstep
      refine Or.inr ⟨0, rfl, fun _ => ?_⟩
      rw [← hcareful (by simp [hpc]), ← h.whole_iff (h.copying hpc), ← h.copied]
      rfl
    · cases hstep
  | returned rc => exact absurd hpc (h.running rc)

/-! ### Runs -/

theorem uart_recv_callback_keeps {data : List UInt8} {s s' : Link}
    (h : uart_recv_callback data s = some s') :
    s'.pc = s.pc ∧ s'.expect_resp = s.expect_resp := by
  simp only [uart_recv_callback] at h
  generalize (if data.length > 60 then 60 else data.length) = copy_len at h
  split at h
  · obtain rfl := Option.some.inj h
    exact ⟨rfl, rfl⟩
  split at h
  · cases h
  split at h
  · split at h
    · obtain rfl := Option.some.inj h
      exact ⟨rfl, rfl⟩
    · cases h
  · obtain rfl := Option.some.inj h
    exact ⟨rfl, rfl⟩

/-- After the call has returned, callbacks do not reach what was copied. -/
theorem after_return {acts : List Act} {s s' : Link} {rc : Int} (hpc : s.pc = .returned rc)
    (hrun : Runs.exec step s acts = some s') :
    s'.pc = s.pc ∧ s'.expect_resp = s.expect_resp ∧ Runs.Each step Careful s acts := by
  induction acts generalizing s with
  | nil =>
    obtain rfl := Option.some.inj hrun
    exact ⟨rfl, rfl, trivial⟩
  | cons a acts ih =>
    obtain ⟨s₁, hstep, hrest⟩ := Runs.exec_cons_eq_some.mp hrun
    rw [Runs.each_cons hstep]
    cases a with
    | thread expired => simp [step, Send_SAMD_CMD, hpc] at hstep
    | callback =>
      have hkeep : s₁.pc = s.pc ∧ s₁.expect_resp = s.expect_resp := by
        simp only [step] at hstep
        split at hstep
        · cases hstep
        · obtain ⟨hpc₁, hresp₁⟩ := uart_recv_callback_keeps hstep
          exact ⟨hpc₁, hresp₁⟩
      obtain ⟨hpc', hresp, heach⟩ := ih (hkeep.1.trans hpc) hrest
      exact ⟨hpc'.trans hkeep.1, hresp.trans hkeep.2, fun hrunning => absurd hpc (hrunning rc),
        heach⟩

theorem run_whole_iff {L : ReplyLine} {acts : List Act} {lost got late : List (List UInt8)}
    {s s' : Link} (h : Heard L lost got late s) (hrun : Runs.exec step s acts = some s')
    (hret : s'.pc = .returned 0) :
    L.Whole s' ↔ Intact lost got late ∧ Runs.Each step Careful s acts := by
  induction acts generalizing s lost got late with
  | nil =>
    obtain rfl := Option.some.inj hrun
    exact absurd hret (h.running 0)
  | cons a acts ih =>
    obtain ⟨s₁, hstep, hrest⟩ := Runs.exec_cons_eq_some.mp hrun
    rw [Runs.each_cons hstep, ← and_assoc]
    cases a with
    | callback =>
      obtain ⟨got', late', h₁, hintact⟩ := h.callback hstep
      rw [← hintact]
      exact ih h₁ hrest
    | thread expired =>
      rcases h.thread hstep with ⟨lost', got', late', h₁, hintact⟩ | ⟨rc, hpc, hwhole⟩
      · rw [← hintact]
        exact ih h₁ hrest
      · obtain ⟨hpc', hresp, heach⟩ := after_return hpc hrest
        have hrc : rc = 0 := by
          rw [hpc', hpc] at hret
          exact Pc.returned.inj hret
        have hsame : L.Whole s' ↔ L.Whole s₁ := by rw [ReplyLine.Whole, hresp]; rfl
        rw [hsame, hwhole hrc]
        exact (and_iff_left heach).symm

/-- **Exactly when the whole reply is copied out.**  Over any interleaving of the callbacks
with a call that returns 0, `expect_resp` holds the text of the line if and only if every
step up to the return is careful. -/
theorem reply_whole_iff (L : ReplyLine) (uart_rcv_data : Mem) {acts : List Act} {s' : Link}
    (hrun : Runs.exec step (L.start uart_rcv_data) acts = some s') (hret : s'.pc = .returned 0) :
    L.Whole s' ↔ Runs.Each step Careful (L.start uart_rcv_data) acts := by
  rw [run_whole_iff (L.start_heard uart_rcv_data) hrun hret]
  exact and_iff_right ⟨rfl, rfl, by simp⟩

/-- The line `ok`, in one chunk or with its line feed apart. -/
def okLine (chunks : List (List UInt8)) (hcut : chunks.flatten = ascii "ok" ++ [CR, LF])
    (hne : ∀ c ∈ chunks, c ≠ []) : ReplyLine where
  text := ascii "ok"
  terminator := [CR, LF]
  chunks := chunks
  plain := by simp [ascii, CR, LF]
  ending := Or.inr (Or.inr rfl)
  cut := hcut
  nonempty := hne
  short := by decide

theorem reply_whole_sample :
    ∃ s', Runs.exec step ((okLine [ascii "ok" ++ [CR, LF]] (by decide) (by decide)).start zeroed)
        [.callback, .thread false, .thread false, .thread false] = some s' ∧
      ((okLine [ascii "ok" ++ [CR, LF]] (by decide) (by decide)).Whole s' ↔
        Runs.Each step Careful
          ((okLine [ascii "ok" ++ [CR, LF]] (by decide) (by decide)).start zeroed)
          [.callback, .thread false, .thread false, .thread false]) :=
  ⟨_, rfl, reply_whole_iff _ zeroed rfl rfl⟩

/-- The line feed arrives after the carriage return has ended the line and before the
copy: the call returns 0 with nothing copied. -/
theorem late_line_feed_loses_reply :
    ∃ s', Runs.exec step
        ((okLine [ascii "ok" ++ [CR], [LF]] (by decide) (by decide)).start zeroed)
        [.callback, .callback, .thread false, .thread false, .thread false] = some s' ∧
      s'.pc = .returned 0 ∧
        ¬ (okLine [ascii "ok" ++ [CR], [LF]] (by decide) (by decide)).Whole s' := by
  refine ⟨_, rfl, rfl, ?_⟩
  rintro ⟨t, -, -, hcopied⟩
  cases hcopied

end AksFirmware.SamdLink
