import AksFirmware.BatteryCommand
import AksFirmware.SamdVerdict

/-!
# What a command to the SAMD leaves behind

Every command takes `samd_mutex`, talks to the SAMD and gives the mutex back on each of its
exits; the receive flag `uart_rvc_done` is left set, so that the callback drops what still
arrives.  `SAMD_firmware_download` stops Art-Net meanwhile and lets it through again.

All of it is one fact about `Send_SAMD_CMD`, carried through the loops: whatever the line
answers, it touches neither the mutex nor `artnet_enable` and sets the flag.  What can keep
a command from its exits is an answer that `ret_buff` does not hold.
-/

namespace AksFirmware.SamdCommands

open ByteMemory CText SamdDownload SamdSender SamdVerdict

/-! ### The commands -/

/-- The packet for a command: the header is that of Art-Net. -/
def artnetSettings (command : List UInt8) : List UInt8 :=
  ascii "Art-Net" ++ [0, 0, 50, 0, 0] ++ command

section Commands

variable {σ : Type} (exchange : Line σ)

def lock (s : Sender σ) : Sender σ := { s with samd_mutex := s.samd_mutex ++ [.lock] }

def unlock (s : Sender σ) : Sender σ := { s with samd_mutex := s.samd_mutex ++ [.unlock] }

/-- A command whose answer must contain `ok`. -/
def okCommand (Settings : List UInt8) (s : Sender σ) : Option (Int × Sender σ) :=
  (Send_SAMD_CMD exchange Settings (lock s)).map fun r =>
    if r.1 ≠ 0 then (r.1, unlock r.2)
    else if strstr (answerText r.2.ret_buff) (ascii "ok") then (0, unlock r.2)
    else (-106, unlock r.2)

def Send_Link_Command : Sender σ → Option (Int × Sender σ) :=
  okCommand exchange (artnetSettings [3, 2])

def Send_UnLink_Command : Sender σ → Option (Int × Sender σ) :=
  okCommand exchange (artnetSettings [3, 1])

def Send_ID_Command : Sender σ → Option (Int × Sender σ) :=
  okCommand exchange (artnetSettings [4])

/-- The answer is not checked; what becomes of it is the subject of `BatteryCommand`. -/
def Send_Battery_Command (samd : BatteryCommand.Samd) (s : Sender σ) :
    Option (Int × BatteryCommand.Samd × Sender σ) :=
  (Send_SAMD_CMD exchange (artnetSettings [5]) (lock s)).map fun r =>
    let samd := { samd with ret_buff := storeText samd.ret_buff 0 r.2.ret_buff }
    if r.1 ≠ 0 then (r.1, samd, unlock r.2) else (0, BatteryCommand.publish samd, unlock r.2)

/-- The texts that the battery command publishes are those of `BatteryCommand`. -/
theorem battery_published (L : BatteryCommand.Line) (samd : BatteryCommand.Samd) {s : Sender σ}
    {line : σ} (h : exchange (artnetSettings [5]) s.line = (some L.bytes, line)) :
    ∃ r, Send_Battery_Command exchange samd s = some r ∧
      BatteryCommand.published r.2.1 =
        BatteryCommand.published (BatteryCommand.Send_Battery_Command (some L) samd).2 := by
  have hsend := Send_SAMD_CMD_answered (s := lock s) (by decide) h
  rw [if_pos (show L.bytes.length < SamdLink.RET_BUFF_SIZE from Nat.lt_succ_of_le L.short)] at hsend
  have hbuff := BatteryCommand.send_ret_buff L samd
  refine ⟨_, by rw [Send_Battery_Command, hsend, Option.map_some], ?_⟩
  simp only [answered, BatteryCommand.Send_Battery_Command]
  rw [if_neg (by decide), if_neg (by simp [BatteryCommand.Send_SAMD_CMD])]
  simp only [BatteryCommand.published, BatteryCommand.publish, hbuff]
  rfl

end Commands

/-! ### What the exchange with the SAMD leaves alone -/

section Quiet

variable {σ : Type}

/-- Neither the mutex nor `artnet_enable` is touched, and the receive flag is set. -/
structure Quiet (s s' : Sender σ) : Prop where
  samd_mutex : s'.samd_mutex = s.samd_mutex
  artnet_enable : s'.artnet_enable = s.artnet_enable
  uart_rvc_done : s'.uart_rvc_done = true

theorem Quiet.refl {s : Sender σ} (h : s.uart_rvc_done = true) : Quiet s s := ⟨rfl, rfl, h⟩

theorem Quiet.trans {s s₁ s₂ : Sender σ} (h : Quiet s s₁) (h' : Quiet s₁ s₂) : Quiet s s₂ :=
  ⟨h'.samd_mutex.trans h.samd_mutex, h'.artnet_enable.trans h.artnet_enable, h'.uart_rvc_done⟩

variable (exchange : Line σ)

theorem sendLoop_quiet {cmd : List UInt8} {tries : Nat} {s : Sender σ} {r : Int × Sender σ}
    (h : sendLoop exchange cmd tries s = some r) : Quiet s r.2 := by
  induction tries generalizing s with
  | zero =>
    rw [← Option.some.inj h]
    exact ⟨rfl, rfl, rfl⟩
  | succ tries ih =>
    simp only [SamdSender.sendLoop] at h
    split at h
    · obtain ⟨buff, -, rfl⟩ := Option.map_eq_some_iff.mp h
      exact ⟨rfl, rfl, rfl⟩
    · obtain ⟨hmutex, henable, hdone⟩ := ih h
      exact ⟨hmutex, henable, hdone⟩

theorem Send_SAMD_CMD_quiet {cmd : List UInt8} (hcmd : cmd ≠ []) {s : Sender σ}
    {r : Int × Sender σ} (h : Send_SAMD_CMD exchange cmd s = some r) : Quiet s r.2 := by
  have hlen : cmd.length ≠ 0 := fun h0 => hcmd (List.eq_nil_of_length_eq_zero h0)
  rw [SamdSender.Send_SAMD_CMD, if_neg hlen] at h
  obtain ⟨hmutex, henable, hdone⟩ := sendLoop_quiet exchange h
  exact ⟨hmutex, henable, hdone⟩

theorem promptLoop_quiet {which : Int} {tries i : Nat} {ret : Int} {s : Sender σ}
    {r : Except Int Int × Sender σ} (h : promptLoop exchange which tries i ret s = some r)
    (hdone : 0 < tries ∨ s.uart_rvc_done = true) : Quiet s r.2 := by
  induction tries generalizing i ret s with
  | zero =>
    rw [← Option.some.inj h]
    exact .refl (hdone.resolve_left (by decide))
  | succ tries ih =>
    obtain ⟨r₁, hsend, h⟩ := Option.bind_eq_some_iff.mp h
    have hquiet := Send_SAMD_CMD_quiet exchange (settings_ne_nil which) hsend
    split at h
    · exact hquiet.trans (ih h (Or.inr hquiet.uart_rvc_done))
    · split at h
      · split at h
        · rw [← Option.some.inj h]
          exact hquiet
        · exact hquiet.trans (ih h (Or.inr hquiet.uart_rvc_done))
      · rw [← Option.some.inj h]
        exact hquiet

theorem blockLoop_quiet {pkt : List UInt8} (hpkt : pkt ≠ []) {tries try_ : Nat} {s : Sender σ}
    {r : Int × Sender σ} (h : blockLoop exchange pkt tries try_ s = some r)
    (hdone : 0 < tries ∨ s.uart_rvc_done = true) : Quiet s r.2 := by
  induction tries generalizing try_ s with
  | zero =>
    rw [← Option.some.inj h]
    exact .refl (hdone.resolve_left (by decide))
  | succ tries ih =>
    obtain ⟨r₁, hsend, h⟩ := Option.bind_eq_some_iff.mp h
    have hquiet := Send_SAMD_CMD_quiet exchange hpkt hsend
    split at h
    · rw [← Option.some.inj h]
      exact hquiet
    · split at h
      · split at h
        · exact hquiet.trans (ih h (Or.inr hquiet.uart_rvc_done))
        · rw [← Option.some.inj h]
          exact hquiet
      · rw [← Option.some.inj h]
        exact hquiet

theorem blocksLoop_quiet {bs : List (List UInt8)} {s : Sender σ} {r : Int × Sender σ}
    (h : blocksLoop exchange bs s = some r) (hdone : s.uart_rvc_done = true) : Quiet s r.2 := by
  induction bs generalizing s with
  | nil =>
    rw [← Option.some.inj h]
    exact .refl hdone
  | cons b bs ih =>
    have hpkt : samd_pkt b ≠ [] := List.append_ne_nil_of_right_ne_nil _ (by simp)
    obtain ⟨r₁, hblock, h⟩ := Option.bind_eq_some_iff.mp h
    have hquiet := blockLoop_quiet exchange hpkt hblock (Or.inl (by decide))
    split at h
    · rw [← Option.some.inj h]
      exact hquiet
    · exact hquiet.trans (ih h hquiet.uart_rvc_done)

end Quiet

/-! ### The exits -/

section Exits

variable {σ : Type} (exchange : Line σ)

/-- The mutex was taken and given back once, and the receive flag is set. -/
structure Released (s s' : Sender σ) : Prop where
  samd_mutex : s'.samd_mutex = s.samd_mutex ++ [.lock, .unlock]
  uart_rvc_done : s'.uart_rvc_done = true

theorem released_of_quiet {s s' : Sender σ} (h : Quiet (lock s) s') : Released s (unlock s') := by
  refine ⟨?_, h.uart_rvc_done⟩
  rw [unlock, h.samd_mutex, lock, List.append_assoc]
  rfl

theorem okCommand_released {command : List UInt8} (hcommand : command ≠ []) {s : Sender σ}
    {r : Int × Sender σ} (h : okCommand exchange command s = some r) : Released s r.2 := by
  obtain ⟨r₁, hsend, rfl⟩ := Option.map_eq_some_iff.mp h
  have hquiet := Send_SAMD_CMD_quiet exchange hcommand hsend
  split
  · exact released_of_quiet hquiet
  · split
    · exact released_of_quiet hquiet
    · exact released_of_quiet hquiet

theorem artnetSettings_ne_nil (command : List UInt8) : artnetSettings command ≠ [] :=
  List.append_ne_nil_of_left_ne_nil (by simp [ascii]) _

theorem battery_released {samd : BatteryCommand.Samd} {s : Sender σ}
    {r : Int × BatteryCommand.Samd × Sender σ}
    (h : Send_Battery_Command exchange samd s = some r) : Released s r.2.2 := by
  obtain ⟨r₁, hsend, rfl⟩ := Option.map_eq_some_iff.mp h
  have hquiet := Send_SAMD_CMD_quiet exchange (artnetSettings_ne_nil [5]) hsend
  simp only
  split
  · exact released_of_quiet hquiet
  · exact released_of_quiet hquiet

theorem release_released {ret : Int} {s s₁ : Sender σ} (h : Quiet (beforePrompt s) s₁) :
    Released s (release ret s₁).2 ∧ (release ret s₁).2.artnet_enable = 1 := by
  refine ⟨⟨?_, h.uart_rvc_done⟩, rfl⟩
  rw [release, h.samd_mutex, beforePrompt, List.append_assoc]
  rfl

theorem afterPrompt_released {firmware : List UInt8} {s s₁ : Sender σ} {r : Int × Sender σ}
    (hprompt : Quiet (beforePrompt s) s₁) (h : afterPrompt exchange firmware s₁ = some r) :
    Released s r.2 ∧ r.2.artnet_enable = 1 := by
  obtain ⟨r₁, hsend, h⟩ := Option.bind_eq_some_iff.mp h
  have hyes := hprompt.trans (Send_SAMD_CMD_quiet exchange (by decide) hsend)
  split at h
  · rw [← Option.some.inj h]
    exact release_released hyes
  split at h
  · rw [← Option.some.inj h]
    exact release_released hyes
  obtain ⟨r₂, hloop, h⟩ := Option.bind_eq_some_iff.mp h
  have hblocks := hyes.trans (blocksLoop_quiet exchange hloop hyes.uart_rvc_done)
  split at h
  · rw [← Option.some.inj h]
    exact release_released hblocks
  obtain ⟨r₃, hlast, rfl⟩ := Option.map_eq_some_iff.mp h
  exact release_released
    (hblocks.trans (Send_SAMD_CMD_quiet exchange (done_msg_ne_nil firmware) hlast))

/-- Each exit of the download goes through `release`. -/
theorem download_released {firmware : List UInt8} {which : Int} {s : Sender σ}
    {r : Int × Sender σ} (h : SAMD_firmware_download exchange firmware which s = some r) :
    Released s r.2 ∧ r.2.artnet_enable = 1 := by
  rw [SamdSender.SAMD_firmware_download] at h
  split at h
  · cases h
  obtain ⟨⟨answer, s₁⟩, hloop, h⟩ := Option.bind_eq_some_iff.mp h
  have hprompt := promptLoop_quiet exchange hloop (Or.inl (by decide))
  cases answer with
  | error ret =>
    rw [← Option.some.inj h]
    exact release_released hprompt
  | ok ret =>
    simp only at h
    split at h
    · rw [← Option.some.inj h]
      exact release_released hprompt
    · exact afterPrompt_released exchange hprompt h

end Exits

/-! ### Which commands return -/

section Returns

variable (s : Sender Recorded)

theorem okCommand_release_iff {command : List UInt8} (hcommand : command ≠ []) :
    (∃ r, okCommand recorder command s = some r ∧ Released s r.2) ↔
      ReplyFits s.line.answers := by
  have hreturns : (∃ r, okCommand recorder command s = some r) ↔ ReplyFits s.line.answers :=
    (map_returns_iff _).trans (send_returns_iff hcommand (lock s))
  rw [← hreturns]
  constructor
  · rintro ⟨r, hrun, -⟩
    exact ⟨r, hrun⟩
  · rintro ⟨r, hrun⟩
    exact ⟨r, hrun, okCommand_released recorder hcommand hrun⟩

theorem battery_release_iff (samd : BatteryCommand.Samd) :
    (∃ r, Send_Battery_Command recorder samd s = some r ∧ Released s r.2.2) ↔
      ReplyFits s.line.answers := by
  have hreturns : (∃ r, Send_Battery_Command recorder samd s = some r) ↔
      ReplyFits s.line.answers :=
    (map_returns_iff _).trans (send_returns_iff (artnetSettings_ne_nil [5]) (lock s))
  rw [← hreturns]
  constructor
  · rintro ⟨r, hrun, -⟩
    exact ⟨r, hrun⟩
  · rintro ⟨r, hrun⟩
    exact ⟨r, hrun, battery_released recorder hrun⟩

theorem download_release_iff (firmware : List UInt8) (which : Int) :
    (∃ r, SAMD_firmware_download recorder firmware which s = some r ∧ Released s r.2 ∧
        r.2.artnet_enable = 1) ↔
      firmware.length ≤ FIRMWARE_PAD_SIZE ∧
        downloadAnswers which (blocks firmware).length s.line.answers ≠ .overrun := by
  rw [← download_returns_iff]
  constructor
  · rintro ⟨r, hrun, -⟩
    exact ⟨r, hrun⟩
  · rintro ⟨r, hrun⟩
    exact ⟨r, hrun, download_released recorder hrun⟩

/-- **Whichever exit is taken.**  The commands return as they must exactly when the answers
that they read fit `ret_buff`, and the download when its image fits `firmware_pad` too. -/
theorem commands_release_iff (firmware : List UInt8) (which : Int) (samd : BatteryCommand.Samd) :
    ((∃ r, SAMD_firmware_download recorder firmware which s = some r ∧ Released s r.2 ∧
        r.2.artnet_enable = 1) ↔
      firmware.length ≤ FIRMWARE_PAD_SIZE ∧
        downloadAnswers which (blocks firmware).length s.line.answers ≠ .overrun) ∧
      ((∃ r, Send_Link_Command recorder s = some r ∧ Released s r.2) ↔
        ReplyFits s.line.answers) ∧
      ((∃ r, Send_UnLink_Command recorder s = some r ∧ Released s r.2) ↔
        ReplyFits s.line.answers) ∧
      ((∃ r, Send_ID_Command recorder s = some r ∧ Released s r.2) ↔
        ReplyFits s.line.answers) ∧
      ((∃ r, Send_Battery_Command recorder samd s = some r ∧ Released s r.2.2) ↔
        ReplyFits s.line.answers) :=
  ⟨download_release_iff s firmware which,
    okCommand_release_iff s (artnetSettings_ne_nil _),
    okCommand_release_iff s (artnetSettings_ne_nil _),
    okCommand_release_iff s (artnetSettings_ne_nil _),
    battery_release_iff s samd⟩

end Returns

/-- An answer of 32 bytes overruns `ret_buff`. -/
theorem long_answer_no_return :
    Send_Link_Command recorder (startSender [some (List.replicate 32 0x6f)]) = none := by
  decide

end AksFirmware.SamdCommands
