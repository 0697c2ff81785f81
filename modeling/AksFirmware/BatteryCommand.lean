import AksFirmware.SamdLink

/-!
# What the battery command publishes

`Send_Battery_Command` takes the version of the SAMD and the battery text from fixed
offsets of `ret_buff`, which all commands share and none clears: behind a short answer
stand the bytes of an earlier one.

The answers are whole lines here; how a line gets from its chunks to `expect_resp` is the
subject of `SamdLink`.
-/

namespace AksFirmware.BatteryCommand

open ByteMemory CText SamdLink

/-! ### Answers -/

/-- An answer of the SAMD: up to 31 bytes that end in a CR or an LF. -/
structure Line where
  bytes : List UInt8
  short : bytes.length ≤ 31
  ends : bytes.getLast? = some CR ∨ bytes.getLast? = some LF

theorem Line.length_pos (L : Line) : 0 < L.bytes.length := by
  rcases L.ends with h | h <;> exact List.length_pos_of_ne_nil fun hnil => by simp [hnil] at h

/-- The buffers of the receive path and the two texts that are published. -/
structure Samd where
  uart_rcv_data : Mem
  ret_buff : Mem
  samd_ver : Mem
  battery_info : Mem

/-- The call as a whole: the line is in `uart_rcv_data` when it is copied; `none` when both
tries time out. -/
def Send_SAMD_CMD (answer : Option Line) (s : Samd) : Int × Samd :=
  let s := { s with ret_buff := store s.ret_buff 0 [0] }
  match answer with
  | none => (-101, s)
  | some line =>
      let rcv := store (store s.uart_rcv_data 0 line.bytes) line.bytes.length [0]
      let rcv := store rcv 31 [0]
      let ret := store s.ret_buff 0 (load rcv 0 line.bytes.length)
      (0, { s with
        uart_rcv_data := rcv
        ret_buff := store ret line.bytes.length [0] })

def BATTERY_SIZE : Nat := 32

/-- What `Send_Battery_Command` does with the answer in `ret_buff`. -/
def publish (s : Samd) : Samd :=
  let ver := store s.samd_ver 0 [s.ret_buff 0]
  let ver := store ver 2 [s.ret_buff 2]
  let info := storeText s.battery_info 0 (text s.ret_buff 3 (RET_BUFF_SIZE - 3))
  let info := (strtok [LF, CR] info 0 BATTERY_SIZE).1
  { s with samd_ver := ver, battery_info := store info 6 [0] }

def Send_Battery_Command (answer : Option Line) (s : Samd) : Int × Samd :=
  let done := Send_SAMD_CMD answer s
  if done.1 ≠ 0 then done else (0, publish done.2)

/-- The commands that share `ret_buff`, each with the answer it gets. -/
inductive Command where
  | battery (answer : Option Line)
  | other (answer : Option Line)

def step (s : Samd) : Command → Samd
  | .battery answer => (Send_Battery_Command answer s).2
  | .other answer => (Send_SAMD_CMD answer s).2

def boot : Samd where
  uart_rcv_data := zeroed
  ret_buff := zeroed
  samd_ver := storeText zeroed 0 (ascii "1.x")
  battery_info := storeText zeroed 0 (ascii "1")

def after (h : List Command) : Samd := h.foldl step boot

/-- The two texts, as the web pages and the announcements read them. -/
def published (s : Samd) : Text × Text :=
  (text s.samd_ver 0 4, text s.battery_info 0 BATTERY_SIZE)

/-! ### The call is that of the two threads -/

/-- A line without zeros that arrives in one chunk while the call waits is copied as
`Send_SAMD_CMD` copies it. -/
theorem link_delivers (L : Line) (hzero : (0 : UInt8) ∉ L.bytes) {s : Link}
    (hpc : s.pc = .wait 0) (hlen : s.uart_rvc_len = 0) (hdone : s.uart_rvc_done = false)
    (hpending : s.pending = [L.bytes]) (old : Samd) (hold : old.uart_rcv_data = s.uart_rcv_data) :
    ∃ s', Runs.exec SamdLink.step s [.callback, .thread false, .thread false, .thread false] =
        some s' ∧ s'.pc = .returned 0 ∧
      s'.uart_rcv_data = (Send_SAMD_CMD (some L) old).2.uart_rcv_data ∧
      (Send_SAMD_CMD (some L) old).2.ret_buff =
        store (store (store old.ret_buff 0 [0]) 0 s'.expect_resp) s'.uart_rvc_len [0] := by
  have hshort := L.short
  have hpos := L.length_pos
  have hwhole : strncpyBytes L.bytes.length L.bytes = L.bytes := by
    rw [strncpyBytes_eq_iff]
    intro b hb
    rw [List.dropWhile_eq_nil_iff.mpr fun c hc => by simpa using fun h0 : c = 0 => hzero (h0 ▸ hc)]
      at hb
    exact absurd hb List.not_mem_nil
  have hlast : store s.uart_rcv_data 0 L.bytes (L.bytes.length - 1) = LF ∨
      store s.uart_rcv_data 0 L.bytes (L.bytes.length - 1) = CR := by
    have hat := store_at s.uart_rcv_data 0 (L.bytes.length - 1) L.bytes (by omega)
    rw [Nat.zero_add] at hat
    have hget := L.ends
    rw [List.getLast?_eq_getElem?, List.getElem?_eq_getElem (by omega), Option.some.injEq,
      Option.some.injEq, ← hat] at hget
    exact hget.symm
  have hcallback : SamdLink.step s .callback = some { s with
      pending := []
      uart_rcv_data := store (store s.uart_rcv_data 0 L.bytes) L.bytes.length [0]
      uart_rvc_len := L.bytes.length
      uart_rvc_done := true } := by
    simp only [SamdLink.step, hpending, uart_recv_callback, hdone, hlen, Bool.false_eq_true,
      if_false, Nat.zero_add, if_neg (show ¬ L.bytes.length > 60 by omega), hwhole, if_pos hlast]
    rw [if_neg (by simp only [UART_BUFF_SIZE]; omega),
      if_pos (by simp only [UART_BUFF_SIZE]; omega)]
  have hfits : L.bytes.length < RET_BUFF_SIZE := by simp only [RET_BUFF_SIZE]; omega
  rw [Runs.exec, hcallback, Option.bind_some]
  simp only [Runs.exec, SamdLink.step, SamdLink.Send_SAMD_CMD, hpc, Bool.false_or, if_true,
    Option.bind_some, if_pos hfits]
  exact ⟨_, rfl, rfl, by rw [← hold]; rfl, by rw [← hold]; rfl⟩

/-! ### What an answer leaves in `ret_buff` -/

theorem send_ret_buff (L : Line) (s : Samd) :
    (Send_SAMD_CMD (some L) s).2.ret_buff = storeText s.ret_buff 0 L.bytes := by
  have hshort := L.short
  have hpos := L.length_pos
  have hcopied : load (store (store (store s.uart_rcv_data 0 L.bytes) L.bytes.length [0]) 31 [0]) 0
      L.bytes.length = L.bytes := by
    rw [load_store_disjoint _ _ (.inl (by omega)), load_store_disjoint _ _ (.inl (by omega)),
      load_store_same]
  simp only [Send_SAMD_CMD, hcopied]
  funext x
  rcases Nat.lt_trichotomy x L.bytes.length with hx | hx | hx
  · have hat := storeText_at s.ret_buff 0 x L.bytes hx
    have hat' := store_at (store s.ret_buff 0 [0]) 0 x L.bytes hx
    rw [Nat.zero_add] at hat hat'
    rw [hat, store_of_outside _ _ (by omega), hat']
  · have hend := storeText_end s.ret_buff 0 L.bytes
    rw [Nat.zero_add] at hend
    rw [hx, hend]
    exact store_at _ L.bytes.length 0 [0] Nat.zero_lt_one
  · have hsingle : ([0] : List UInt8).length = 1 := rfl
    rw [storeText_of_outside _ _ (by omega), store_of_outside _ _ (by omega),
      store_of_outside _ _ (by omega), store_of_outside _ _ (by omega)]

/-- What every command keeps: some byte of `ret_buff` from 3 on ends the battery text, and
the version has its point and its end. -/
structure Sane (s : Samd) : Prop where
  ended : Terminated s.ret_buff 3 (RET_BUFF_SIZE - 3)
  point : s.samd_ver 1 = 0x2e
  ver_end : s.samd_ver 3 = 0

theorem terminated_answer {ret : Mem} (h : Terminated ret 3 (RET_BUFF_SIZE - 3)) (L : Line) :
    Terminated (storeText ret 0 L.bytes) 3 (RET_BUFF_SIZE - 3) := by
  have hshort := L.short
  by_cases hlong : 3 ≤ L.bytes.length
  · refine ⟨L.bytes.length - 3, by simp only [RET_BUFF_SIZE]; omega, ?_⟩
    rw [Nat.add_sub_cancel' hlong]
    simpa using storeText_end ret 0 L.bytes
  · refine (terminated_congr fun i _ => ?_).mpr h
    exact storeText_of_outside ret L.bytes (by omega)

theorem Sane.send {s : Samd} (hs : Sane s) (answer : Option Line) :
    Sane (Send_SAMD_CMD answer s).2 := by
  cases answer with
  | none =>
    refine ⟨?_, hs.point, hs.ver_end⟩
    refine (terminated_congr fun i _ => ?_).mpr hs.ended
    exact store_byte_of_ne s.ret_buff 0 (show 3 + i ≠ 0 by omega)
  | some L =>
    refine ⟨?_, hs.point, hs.ver_end⟩
    rw [send_ret_buff]
    exact terminated_answer hs.ended L

theorem version_point (v : Mem) (a b : UInt8) : store (store v 0 [a]) 2 [b] 1 = v 1 :=
  (store_byte_of_ne _ b (by decide)).trans (store_byte_of_ne v a (by decide))

theorem version_end (v : Mem) (a b : UInt8) : store (store v 0 [a]) 2 [b] 3 = v 3 :=
  (store_byte_of_ne _ b (by decide)).trans (store_byte_of_ne v a (by decide))

theorem Sane.publish {s : Samd} (hs : Sane s) : Sane (publish s) :=
  ⟨hs.ended, (version_point s.samd_ver (s.ret_buff 0) (s.ret_buff 2)).trans hs.point,
    (version_end s.samd_ver (s.ret_buff 0) (s.ret_buff 2)).trans hs.ver_end⟩

theorem Sane.battery {s : Samd} (hs : Sane s) (answer : Option Line) :
    Sane (Send_Battery_Command answer s).2 := by
  unfold Send_Battery_Command
  simp only
  split
  · exact hs.send answer
  · exact (hs.send answer).publish

theorem sane_after (h : List Command) : Sane (after h) := by
  induction h using List.reverseRecOn with
  | nil => exact ⟨⟨0, by decide, rfl⟩, rfl, rfl⟩
  | append_singleton h c ih =>
    rw [after, List.foldl_concat]
    cases c with
    | battery answer => exact ih.battery answer
    | other answer => exact ih.send answer

/-! ### What is published -/

/-- The version with its first and last character from the answer. -/
def versionText (first last : UInt8) : Text := [first, 0x2e, last].takeWhile (· ≠ 0)

/-- The battery text up to the end of its first token, of at most six characters. -/
def batteryText (s : Text) : Text := (upToToken [LF, CR] s).take 6

theorem published_publish {s : Samd} (hs : Sane s) :
    published (publish s) =
      (versionText (s.ret_buff 0) (s.ret_buff 2),
        batteryText (text s.ret_buff 3 (RET_BUFF_SIZE - 3))) := by
  rw [published]
  congr 1
  · have hload : load (publish s).samd_ver 0 4 = [s.ret_buff 0, 0x2e, s.ret_buff 2, 0] := by
      simp [publish, load, List.range_succ, store_eq, hs.point, hs.ver_end]
    rw [text, hload, versionText]
    exact takeWhile_append_zero [s.ret_buff 0, 0x2e, s.ret_buff 2] []
  · have hclean := zero_notMem_text s.ret_buff 3 (RET_BUFF_SIZE - 3)
    have hlen := hs.ended.text_length_lt
    simp only [publish]
    generalize text s.ret_buff 3 (RET_BUFF_SIZE - 3) = t at hclean hlen
    simp only [RET_BUFF_SIZE] at hlen
    have hcut : HoldsText (store (strtok [LF, CR] (storeText s.battery_info 0 t) 0
        BATTERY_SIZE).1 6 [0]) 0 (batteryText t) :=
      (strtok_holds [LF, CR] (holdsText_storeText s.battery_info 0 t) hclean
        (by simp only [BATTERY_SIZE]; omega)).cut 6
    have hpre := (List.take_prefix 6 (upToToken [LF, CR] t)).trans (upToToken_begins _ t)
    exact hcut.text_eq (fun hmem => hclean (hpre.subset hmem))
      (Nat.lt_of_le_of_lt hpre.length_le (by simp only [BATTERY_SIZE]; omega))

/-- The texts published for an answer over the old contents of `ret_buff`. -/
theorem published_battery {s : Samd} (hs : Sane s) (L : Line) :
    published (Send_Battery_Command (some L) s).2 =
      (versionText (storeText s.ret_buff 0 L.bytes 0) (storeText s.ret_buff 0 L.bytes 2),
        batteryText (text (storeText s.ret_buff 0 L.bytes) 3 (RET_BUFF_SIZE - 3))) := by
  have hcall : (Send_Battery_Command (some L) s).2 = publish (Send_SAMD_CMD (some L) s).2 := rfl
  rw [hcall, published_publish (hs.send (some L)), send_ret_buff]

/-! ### Exactly which answers are published as they should -/

def LineEnd (c : UInt8) : Prop := c ∈ [LF, CR]

instance (c : UInt8) : Decidable (LineEnd c) := inferInstanceAs (Decidable (c ∈ [LF, CR]))

/-- The texts do not depend on what came before. -/
def AnswerAlone (L : Line) : Prop :=
  ∀ h h', published (Send_Battery_Command (some L) (after h)).2 =
    published (Send_Battery_Command (some L) (after h')).2

/-- The texts have at most 3 and 6 characters and no line end among them. -/
def Displayable (p : Text × Text) : Prop :=
  p.1.length ≤ 3 ∧ p.2.length ≤ 6 ∧ ∀ c ∈ p.1 ++ p.2, ¬ LineEnd c

/-- The bytes that are taken from fixed offsets belong to the answer and are no line
ends. -/
def Publishable (bytes : List UInt8) : Prop :=
  3 ≤ bytes.length ∧
    (∀ c ∈ bytes[0]?, c ≠ 0 → ¬ LineEnd c ∧ ∀ d ∈ bytes[2]?, ¬ LineEnd d) ∧
    ∀ c ∈ bytes[3]?, ¬ LineEnd c

theorem versionText_clean_iff (first last : UInt8) :
    (∀ c ∈ versionText first last, ¬ LineEnd c) ↔
      (first ≠ 0 → ¬ LineEnd first ∧ ¬ LineEnd last) := by
  have hpoint : ¬ LineEnd 0x2e := by decide
  have hzero : ¬ LineEnd 0 := by decide
  by_cases hfirst : first = 0
  · simp [versionText, hfirst]
  by_cases hlast : last = 0
  · simp [versionText, hfirst, hlast, hpoint, hzero]
  · simp [versionText, hfirst, hlast, hpoint]

/-- A line of three bytes or more leaves no old byte where the texts are taken from. -/
theorem long_line_texts (ret : Mem) (L : Line) (h : 3 ≤ L.bytes.length) :
    L.bytes[0]? = some (storeText ret 0 L.bytes 0) ∧
      L.bytes[2]? = some (storeText ret 0 L.bytes 2) ∧
      text (storeText ret 0 L.bytes) 3 (RET_BUFF_SIZE - 3) =
        (L.bytes.drop 3).takeWhile (· ≠ 0) := by
  have hshort := L.short
  have hat : ∀ i < L.bytes.length, L.bytes[i]? = some (storeText ret 0 L.bytes i) := by
    intro i hi
    have hbyte := storeText_at ret 0 i L.bytes hi
    rw [Nat.zero_add] at hbyte
    rw [hbyte, List.getElem?_eq_getElem hi]
  have hholds := (holdsText_storeText ret 0 L.bytes).drop h
  rw [Nat.zero_add] at hholds
  exact ⟨hat 0 (by omega), hat 2 (by omega),
    hholds.text_takeWhile (by simp only [List.length_drop, RET_BUFF_SIZE]; omega)⟩

theorem batteryText_clean_iff (s : Text) :
    (∀ c ∈ batteryText (s.takeWhile (· ≠ 0)), ¬ LineEnd c) ↔ ∀ c ∈ s[0]?, ¬ LineEnd c := by
  have hzero : ¬ LineEnd 0 := by decide
  rw [batteryText, ← List.head?_eq_getElem?]
  refine (upToToken_clean_iff (by decide)).trans ?_
  cases s with
  | nil => rfl
  | cons c s =>
    by_cases hc : c = 0
    · simp [hc, hzero]
    · simp [hc, LineEnd]

/-- An answer whose fourth byte is not a line end. -/
def probe : Line where
  bytes := ascii "1.0A" ++ [LF]
  short := by decide
  ends := by decide

/-- Behind a line of one or two bytes the battery text is an old one. -/
theorem short_line_shows_old {L : Line} (h : L.bytes.length < 3) : ¬ AnswerAlone L := by
  intro halone
  have hold : ∀ ret : Mem, text (storeText ret 0 L.bytes) 3 (RET_BUFF_SIZE - 3) =
      text ret 3 (RET_BUFF_SIZE - 3) := by
    intro ret
    exact text_congr fun i _ => storeText_of_outside ret L.bytes (by omega)
  have hsame := congrArg Prod.snd (halone [] [.other (some probe)])
  rw [published_battery (sane_after _), published_battery (sane_after _)] at hsame
  simp only [hold] at hsame
  revert hsame
  decide +kernel

/-- **What the battery command publishes.**  After every sequence of commands and answers
the published texts are those of this answer, short enough and without line ends, if and
only if the answer is publishable. -/
theorem published_iff (L : Line) :
    (AnswerAlone L ∧ ∀ h, Displayable (published (Send_Battery_Command (some L) (after h)).2)) ↔
      Publishable L.bytes := by
  by_cases hlong : 3 ≤ L.bytes.length
  swap
  · exact iff_of_false (fun h => short_line_shows_old (Nat.not_le.mp hlong) h.1)
      fun h => hlong h.1
  have htexts : ∀ h, ∃ first last, L.bytes[0]? = some first ∧ L.bytes[2]? = some last ∧
      published (Send_Battery_Command (some L) (after h)).2 =
        (versionText first last, batteryText ((L.bytes.drop 3).takeWhile (· ≠ 0))) := by
    intro h
    obtain ⟨hfirst, hlast, htext⟩ := long_line_texts (after h).ret_buff L hlong
    exact ⟨_, _, hfirst, hlast, by rw [published_battery (sane_after h), htext]⟩
  have halone : AnswerAlone L := by
    intro h h'
    obtain ⟨first, last, hfirst, hlast, hpub⟩ := htexts h
    obtain ⟨first', last', hfirst', hlast', hpub'⟩ := htexts h'
    rw [hpub, hpub', Option.some.inj (hfirst.symm.trans hfirst'),
      Option.some.inj (hlast.symm.trans hlast')]
  have hclean : ∀ h, Displayable (published (Send_Battery_Command (some L) (after h)).2) ↔
      Publishable L.bytes := by
    intro h
    obtain ⟨first, last, hfirst, hlast, hpub⟩ := htexts h
    have hver : (versionText first last).length ≤ 3 :=
      (List.takeWhile_prefix _).length_le
    have hbat : (batteryText ((L.bytes.drop 3).takeWhile (· ≠ 0))).length ≤ 6 :=
      List.length_take_le 6 _
    rw [hpub, Displayable, and_iff_right hver, and_iff_right hbat, List.forall_mem_append,
      versionText_clean_iff, batteryText_clean_iff, Publishable, and_iff_right hlong, hfirst, hlast]
    simp
  rw [and_iff_right halone]
  constructor
  · intro h
    exact (hclean []).mp (h [])
  · intro h h'
    exact (hclean h').mpr h

/-- Behind an answer of two bytes the old battery text is published, and an answer without
battery text leaves its line end to be published. -/
theorem short_answers_unpublishable :
    (∃ L : Line, L.bytes = ascii "1" ++ [LF] ∧ ¬ AnswerAlone L) ∧
      ∃ L : Line, L.bytes = ascii "1.0" ++ [CR, LF] ∧
        (published (Send_Battery_Command (some L) (after [])).2).2 = [CR, LF] := by
  constructor
  · exact ⟨⟨ascii "1" ++ [LF], by decide, by decide⟩, rfl, short_line_shows_old (by decide)⟩
  · exact ⟨⟨ascii "1.0" ++ [CR, LF], by decide, by decide⟩, rfl, by decide +kernel⟩

end AksFirmware.BatteryCommand
