import AksFirmware.ConfigCommands
import AksFirmware.TurnLoop

/-!
# The settings of a request

A request to the web server sets options of two stores: the record `g_web_config`, and what
the configuration module of the firmware keeps behind `CFG_set_str`.  That module is not part
of the repository; `Services` stands for it and for the other code that `CGI_do_cmd` calls.

Three commands have loops over the `SETi` of their own and jump to `ReadyToOut` from there.

`CGI_do_cmd_web` shows that the record is set as `ConfigCommands` has it.
-/

namespace AksFirmware.SettingsRequest

open ByteMemory CText WebConfig ConfigFlash TurnLoop
open ConfigCommands (Platform Request CGI_RC_OK CGI_RC_CFG_OK CGI_RC_REBOOT CGI_RC_CFG_ERR
  stackText setArg setValue loopSets handlerOf Handler readyToOut setLoop setTurn direct)

def CFG_WLN_WscModeOption : Nat := CFG_WLN_ 112 CFG_TYPE_INT
def CFG_WLN_WscPinCode : Nat := CFG_WLN_ 114 CFG_TYPE_INT
def CFG_WLN_WscConfMode : Nat := CFG_WLN_ 134 CFG_TYPE_INT
def CFG_WLN_WscConfStatus : Nat := CFG_WLN_ 135 CFG_TYPE_INT
def CFG_WLN_SSIDIndex : Nat := CFG_WLN_ 233 CFG_TYPE_INT
def CFG_WLN_MACRepeaterEn : Nat := CFG_WLN_ 240 CFG_TYPE_INT

/-- The configuration module, whose settings are a `κ`, and the entries of the two tables of
commands; those called at the end return no negative code.  `lastByte` is what stands on the
stack behind the one byte of the variable of that name that is written. -/
structure Services (κ : Type) where
  CFG_set_str : Nat → Text → κ → Int × κ
  CFG_set : Nat → Int → κ → Int × κ
  CFG_get_str : Nat → κ → Text
  CFG_id2str : Nat → Text
  CFG_str2id : Text → Nat
  CFG_save : κ → κ
  m2m_cfg_set : String → String → κ → κ
  f_setting_get : String → κ → Text
  ps_cgi_cmds : Text → κ → Option (Int × κ)
  as_cgi_cmds : Text → Option Nat
  lastByte : Text

/-- The record with its flash page, and the settings of the configuration module. -/
structure Store (κ : Type) where
  web : ConfigStore
  cfg : κ

structure Reply (κ : Type) where
  rc : Int
  reboot : Bool
  store : Store κ

variable {κ : Type}

/-! ### The loops over the `SETi` -/

/-- A loop over the `SETi`: the code and the stores it starts with, its turns, and what is done
to the stores behind it. -/
structure SetLoop (κ : Type) where
  rc : Int
  start : Store κ
  turn : Text → Store κ → Turn (Store κ)
  settle : Store κ → Option (Store κ)

def SetLoop.run (l : SetLoop κ) (req : Request) : Int × Store κ :=
  loop CGI_RC_CFG_OK CGI_RC_CFG_ERR l.turn req.sets l.rc l.start

def SetLoop.turns (l : SetLoop κ) (req : Request) : List (Turn (Store κ)) :=
  TurnLoop.turns l.turn req.sets l.start

def callSetStr (S : Services κ) (id : Nat) (val : Text) (s : Store κ) : Turn (Store κ) :=
  let rc := S.CFG_set_str id val s.cfg
  .sets rc.1 { s with cfg := rc.2 }

/-- A turn of the loop of `CGI_do_cmd`. -/
def settingTurn (S : Services κ) (cmdv : Text) (s : Store κ) : Turn (Store κ) :=
  match setArg cmdv with
  | none => .malformed
  | some (id, val) =>
      if id = 0 then .passes
      else
        let rc := ratpac_set_str s.web.g_web_config id (setValue id val)
        let s := { s with web := { s.web with g_web_config := rc.2 } }
        if rc.1 = -1 then callSetStr S id (setValue id val) s else .sets rc.1 s

/-- Whether `CGI_do_wireless_security` sets an option, from the last character of its name and
the number read there. -/
def securitySets (ssid_index_num : Int) (id : Nat) (c : UInt8) (index : Int) : Bool :=
  if ¬ isdigit c then
    ¬ (ssid_index_num ≠ 0 ∧ id ∈ [0x4920200, 0x4900100, 0x4910100, 0x4710100])
  -- the lists and policies for access are counted from 0, the others from 1
  else if id ∈ [0x4A60200, 0x4A70200, 0x4A80200, 0x4A90200, 0x46A0100, 0x46B0100, 0x46C0100,
      0x46D0100] then
    index = ssid_index_num
  else index = ssid_index_num + 1

/-- A turn of the loop of `CGI_do_wireless_security`. -/
def securityTurn (S : Services κ) (ssid_index_num : Int) (cmdv : Text) (s : Store κ) :
    Turn (Store κ) :=
  match setArg cmdv with
  | none => .malformed
  | some (id, val) =>
      if id = 0 then .passes
      else
        match (S.CFG_id2str id).getLast? with
        | none => .ends
        | some c =>
            if securitySets ssid_index_num id c (atoi (c :: S.lastByte)) then
              callSetStr S id (setValue id val) s
            else .leavesOut

/-- The first loop of `CGI_do_wireless_security`, which looks for the index of the SSID in all
variables. -/
def findSSIDIndex : List (Option Text) → Int → Int → Int × Int
  | [], rc, ssid_index_num => (rc, ssid_index_num)
  | none :: rest, rc, ssid_index_num => findSSIDIndex rest rc ssid_index_num
  | some cmdv2 :: rest, rc, ssid_index_num =>
      match setArg cmdv2 with
      | none => findSSIDIndex rest CGI_RC_CFG_ERR ssid_index_num
      | some (id2, val2) =>
          if id2 = CFG_WLN_SSIDIndex then (rc, atoi val2)
          else findSSIDIndex rest rc ssid_index_num

def securityLoop (S : Services κ) (req : Request) (s : Store κ) : Option (SetLoop κ) := do
  let SSIDIndexTemp ← stackText 255 (S.CFG_get_str CFG_WLN_SSIDIndex s.cfg)
  let found := findSSIDIndex ((List.range 50).map req.SET) 0 (atoi SSIDIndexTemp)
  some ⟨found.1, s, securityTurn S found.2, some⟩

/-- What `WIRELESS_APCLI_SETUP` sets behind the loop. -/
def apcliSetup (S : Services κ) (c : κ) : Option κ := do
  let var ← stackText 5 (S.CFG_get_str (S.CFG_str2id (ascii "WLN_ApCliEnable")) c)
  if strcmp var (ascii "1") = 0 then
    let c := S.m2m_cfg_set "M2M_WIFI_MODE" "STA" c
    let fver ← stackText 5 (S.f_setting_get "FVERSION" c)
    let c := S.m2m_cfg_set "WLN_CountryRegion" "5" c
    if strcmp fver (ascii "z") = 0 then
      let c := S.m2m_cfg_set "SYS_OPMODE" "3" (S.m2m_cfg_set "LAN_DHCPD_EN" "0" c)
      some (S.CFG_save (S.CFG_set_str CFG_WLN_MACRepeaterEn (ascii "1") c).2)
    else
      let c := S.m2m_cfg_set "SYS_OPMODE" "2" (S.m2m_cfg_set "LAN_DHCPD_EN" "1" c)
      some (S.CFG_save (S.CFG_set_str CFG_WLN_MACRepeaterEn (ascii "0") c).2)
  else
    let c := S.m2m_cfg_set "WLN_CountryRegion" "5" (S.m2m_cfg_set "LAN_DHCPD_EN" "1" c)
    let c := S.m2m_cfg_set "SYS_OPMODE" "1" (S.m2m_cfg_set "M2M_WIFI_MODE" "AP" c)
    some (S.CFG_save (S.CFG_set_str CFG_WLN_MACRepeaterEn (ascii "0") c).2)

def mainLoop (S : Services κ) (cmd : Text) (s : Store κ) : SetLoop κ :=
  let p := (S.ps_cgi_cmds cmd s.cfg).getD (0, s.cfg)
  { rc := p.1
    start := { s with cfg := p.2 }
    turn := settingTurn S
    settle := fun s =>
      if cmd = ascii "WIRELESS_APCLI_SETUP" then
        (apcliSetup S s.cfg).map fun c => { s with cfg := c }
      else some s }

/-! ### The commands with loops of their own -/

def CGI_do_wireless_security (S : Services κ) (req : Request) (s : Store κ) :
    Option (Int × Store κ) :=
  (securityLoop S req s).map fun l => l.run req

/-- `WscPinCode` and `WscMode` once the first ten variables are read. -/
def wscCodes (S : Services κ) (req : Request) (s : Store κ) : Int × Int :=
  ((List.range 10).map req.SET).reduceOption.foldl
    (fun codes cmdv2 =>
      match setArg cmdv2 with
      | none => codes
      | some (id2, val2) =>
          if id2 = CFG_WLN_WscPinCode then (atoi val2, codes.2)
          else if id2 = CFG_WLN_WscModeOption then (codes.1, atoi val2)
          else codes)
    (atoi (S.CFG_get_str CFG_WLN_WscPinCode s.cfg), atoi (S.CFG_get_str CFG_WLN_WscModeOption s.cfg))

def setPinCode (S : Services κ) (req : Request) (s : Store κ) : Int × κ :=
  S.CFG_set CFG_WLN_WscPinCode (wscCodes S req s).1 s.cfg

def setModeOption (S : Services κ) (req : Request) (s : Store κ) : Int × κ :=
  S.CFG_set CFG_WLN_WscModeOption (wscCodes S req s).2 (setPinCode S req s).2

/-- Neither a malformed variable nor the answers of `CFG_set` change the code. -/
def CGI_do_wireless_simple_config_device (S : Services κ) (req : Request) (s : Store κ) :
    Option (Int × Store κ) := do
  let _ ← stackText 255 (S.CFG_get_str CFG_WLN_WscPinCode s.cfg)
  let _ ← stackText 10 (S.CFG_get_str CFG_WLN_WscModeOption s.cfg)
  let _ ← stackText 10 (S.CFG_get_str CFG_WLN_WscConfMode s.cfg)
  let _ ← stackText 10 (S.CFG_get_str CFG_WLN_WscConfStatus s.cfg)
  some (CGI_RC_CFG_OK, { s with cfg := (setModeOption S req s).2 })

/-! ### `CGI_do_cmd` -/

/-- Where a request gets to: a return in front of `ReadyToOut`, or `ReadyToOut` with a code,
whether a reboot is forced, and the stores. -/
inductive Arrival (κ : Type)
  | returns (r : Reply κ)
  | readyToOut (rc : Int) (sACNforceToReboot : Bool) (s : Store κ)

def Arrival.store : Arrival κ → Store κ
  | .returns r => r.store
  | .readyToOut _ _ s => s

def sACNforceToReboot (req : Request) : Bool :=
  (loopSets req.sets).any fun w => w.1 = CFG_SACN_UNIV || w.1 = CFG_PROTNAME

def arrive (S : Services κ) (req : Request) (s : Store κ) : Option (Arrival κ) :=
  match req.CMD with
  | none => some (.returns ⟨CGI_RC_OK, false, s⟩)
  | some cmd =>
      if cmd = ascii "WIRELESS_SECURITY" ∨ cmd = ascii "ACL" then
        (CGI_do_wireless_security S req s).map fun p => .readyToOut p.1 false p.2
      else if cmd = ascii "WIRELESS_SIMPLE_CONFIG_DEVICE" then
        (CGI_do_wireless_simple_config_device S req s).map fun p => .readyToOut p.1 false p.2
      else
        let l := mainLoop S cmd s
        if l.rc < 0 then some (.returns ⟨l.rc, false, l.start⟩)
        else
          (l.settle (l.run req).2).bind fun s =>
            if cmd = ascii "CONSTELLATION_REFRESH" then some (.returns ⟨CGI_RC_OK, false, s⟩)
            else
              match handlerOf cmd with
              | some h =>
                  (h.run cmd s.web).map fun r =>
                    .returns ⟨r.rc, r.reboot, { s with web := r.store }⟩
              | none => some (.readyToOut (l.run req).1 (sACNforceToReboot req) s)

/-- The end of `CGI_do_cmd` needs of a platform the commands called there. -/
def Services.exits (S : Services κ) : Platform :=
  ⟨fun _ => none, fun cmd => (S.as_cgi_cmds cmd).map Int.ofNat, fun _ _ => -1⟩

def Arrival.finish (S : Services κ) (cmd : Text) : Arrival κ → Reply κ
  | .returns r => r
  | .readyToOut rc sACNforceToReboot s =>
      let r := ConfigCommands.readyToOut S.exits cmd rc sACNforceToReboot s.web
      ⟨r.rc, r.reboot, ⟨r.store, if rc = CGI_RC_CFG_OK then S.CFG_save s.cfg else s.cfg⟩⟩

def CGI_do_cmd (S : Services κ) (req : Request) (s : Store κ) : Option (Reply κ) :=
  (arrive S req s).map (Arrival.finish S (req.CMD.getD []))

/-! ### The record alone -/

theorem callSetStr_web {S : Services κ} {id : Nat} {val : Text} {s s' : Store κ} {answer : Int}
    (h : callSetStr S id val s = .sets answer s') : s'.web = s.web := by
  obtain ⟨-, rfl⟩ := Turn.sets.inj h
  rfl

theorem securityTurn_web {S : Services κ} {ssid_index_num : Int} {cmdv : Text} {s s' : Store κ}
    {answer : Int} (h : securityTurn S ssid_index_num cmdv s = .sets answer s') :
    s'.web = s.web := by
  unfold securityTurn at h
  cases harg : setArg cmdv with
  | none => simp [harg] at h
  | some a =>
    obtain ⟨id, val⟩ := a
    simp only [harg] at h
    by_cases hid : id = 0
    · simp [hid] at h
    rw [if_neg hid] at h
    cases hlast : (S.CFG_id2str id).getLast? with
    | none => simp [hlast] at h
    | some c =>
      simp only [hlast] at h
      split at h
      · exact callSetStr_web h
      · cases h

/-- The wireless commands do not touch the record. -/
theorem CGI_do_wireless_security_web {S : Services κ} {req : Request} {s : Store κ}
    {p : Int × Store κ} (h : CGI_do_wireless_security S req s = some p) : p.2.web = s.web := by
  obtain ⟨l, hl, rfl⟩ := Option.map_eq_some_iff.mp h
  obtain ⟨temp, -, hl⟩ := Option.bind_eq_some_iff.mp hl
  obtain rfl := Option.some.inj hl
  refine loop_keeps (P := fun s' : Store κ => s'.web = s.web) ?_ _ _ ?_
  · exact fun _ _ _ _ hturn hs => (securityTurn_web hturn).trans hs
  · rfl

theorem CGI_do_wireless_simple_config_device_web {S : Services κ} {req : Request} {s : Store κ}
    {p : Int × Store κ} (h : CGI_do_wireless_simple_config_device S req s = some p) :
    p.2.web = s.web := by
  unfold CGI_do_wireless_simple_config_device at h
  simp only [Option.bind_eq_bind, Option.bind_eq_some_iff] at h
  obtain ⟨_, -, _, -, _, -, _, -, h⟩ := h
  obtain rfl := Option.some.inj h
  rfl

/-- If the answers of `CFG_set_str` do not depend on its settings, a turn does to the code and
the record what `setTurn` does. -/
theorem settingTurn_web {S : Services κ} {P : Platform} {id : Nat} {val cmdv : Text}
    (hanswer : ∀ id val c, (S.CFG_set_str id val c).1 = P.CFG_set_str id val)
    (harg : setArg cmdv = some (id, val)) (hid : id ≠ 0) (s : Store κ) (rc : Int) (b : Bool) :
    ∃ answer s', settingTurn S cmdv s = .sets answer s' ∧ s'.web.flash = s.web.flash ∧
      setTurn P id val ⟨rc, s.web.g_web_config, b⟩ =
        ⟨judged CGI_RC_CFG_OK answer, s'.web.g_web_config,
          b || (id = CFG_SACN_UNIV || id = CFG_PROTNAME)⟩ := by
  unfold settingTurn setTurn
  simp only [harg, if_neg hid]
  by_cases hrat : (ratpac_set_str s.web.g_web_config id (setValue id val)).1 = -1
  · rw [if_pos hrat, if_pos hrat]
    exact ⟨_, _, rfl, rfl, by rw [hanswer]; rfl⟩
  · rw [if_neg hrat, if_neg hrat]
    exact ⟨_, _, rfl, rfl, rfl⟩

theorem settingLoop_web {S : Services κ} {P : Platform}
    (hanswer : ∀ id val c, (S.CFG_set_str id val c).1 = P.CFG_set_str id val)
    (cmdvs : List Text) (rc : Int) (s : Store κ) (b : Bool) :
    (loop CGI_RC_CFG_OK CGI_RC_CFG_ERR (settingTurn S) cmdvs rc s).2.web.flash = s.web.flash ∧
      setLoop P cmdvs ⟨rc, s.web.g_web_config, b⟩ =
        ⟨(loop CGI_RC_CFG_OK CGI_RC_CFG_ERR (settingTurn S) cmdvs rc s).1,
          (loop CGI_RC_CFG_OK CGI_RC_CFG_ERR (settingTurn S) cmdvs rc s).2.web.g_web_config,
          b || (loopSets cmdvs).any fun w => w.1 = CFG_SACN_UNIV || w.1 = CFG_PROTNAME⟩ := by
  induction cmdvs generalizing rc s b with
  | nil => exact ⟨rfl, by simp [setLoop, loop, loopSets]⟩
  | cons cmdv cmdvs ih =>
    cases harg : setArg cmdv with
    | none => simp [setLoop, loop, settingTurn, loopSets, harg]
    | some a =>
      obtain ⟨id, val⟩ := a
      by_cases hid : id = 0
      · have hturn : settingTurn S cmdv s = .passes := by simp [settingTurn, harg, hid]
        unfold setLoop loop loopSets
        simp only [harg, hturn, if_pos hid]
        exact ih rc s b
      · obtain ⟨answer, s', hturn, hflash, hset⟩ :=
          settingTurn_web hanswer harg hid s rc b
        unfold setLoop loop loopSets
        simp only [harg, hturn, if_neg hid, hset, List.any_cons, ← Bool.or_assoc]
        obtain ⟨hflash', hloop⟩ := ih (judged CGI_RC_CFG_OK answer) s' _
        exact ⟨hflash'.trans hflash, hloop⟩

/-- The platform on which `ConfigCommands` runs the request: the return codes are those of the
services in the stores that the request starts from. -/
def Services.platform (S : Services κ) (req : Request) (s : Store κ) : Platform where
  ps_cgi_cmds := fun cmd =>
    if cmd = ascii "WIRELESS_SECURITY" ∨ cmd = ascii "ACL" then
      (CGI_do_wireless_security S req s).map (·.1)
    else if cmd = ascii "WIRELESS_SIMPLE_CONFIG_DEVICE" then
      (CGI_do_wireless_simple_config_device S req s).map (·.1)
    else (S.ps_cgi_cmds cmd s.cfg).map (·.1)
  as_cgi_cmds := S.exits.as_cgi_cmds
  CFG_set_str := fun id val => (S.CFG_set_str id val s.cfg).1

theorem settle_web {S : Services κ} {cmd : Text} {s₀ s s' : Store κ}
    (h : (mainLoop S cmd s₀).settle s = some s') : s'.web = s.web := by
  simp only [mainLoop] at h
  split at h
  · obtain ⟨c, -, rfl⟩ := Option.map_eq_some_iff.mp h
    rfl
  · obtain rfl := Option.some.inj h
    rfl

/-- **The record is set as in `ConfigCommands`**, on services whose `CFG_set_str` answers the
same whatever its settings. -/
theorem CGI_do_cmd_web {S : Services κ} {req : Request} {s : Store κ} {r : Reply κ}
    (hanswer : ∀ id val c, (S.CFG_set_str id val c).1 = (S.CFG_set_str id val s.cfg).1)
    (h : CGI_do_cmd S req s = some r) :
    ConfigCommands.CGI_do_cmd (S.platform req s) req s.web = some ⟨r.rc, r.reboot, r.store.web⟩ := by
  obtain ⟨a, ha, rfl⟩ := Option.map_eq_some_iff.mp h
  unfold arrive at ha
  unfold ConfigCommands.CGI_do_cmd
  cases hcmd : req.CMD with
  | none =>
    simp only [hcmd] at ha
    obtain rfl := Option.some.inj ha
    rfl
  | some cmd =>
    simp only [hcmd] at ha ⊢
    by_cases hsec : cmd = ascii "WIRELESS_SECURITY" ∨ cmd = ascii "ACL"
    · rw [if_pos hsec] at ha
      obtain ⟨p, hp, rfl⟩ := Option.map_eq_some_iff.mp ha
      have hdirect : cmd ∈ direct := by
        rcases hsec with rfl | rfl <;> simp [direct]
      have hps : (S.platform req s).ps_cgi_cmds cmd = some p.1 := by
        simp only [Services.platform, if_pos hsec, hp, Option.map_some]
      rw [if_pos hdirect, hps, ← CGI_do_wireless_security_web hp]
      rfl
    rw [if_neg hsec] at ha
    by_cases hsimple : cmd = ascii "WIRELESS_SIMPLE_CONFIG_DEVICE"
    · rw [if_pos hsimple] at ha
      obtain ⟨p, hp, rfl⟩ := Option.map_eq_some_iff.mp ha
      have hdirect : cmd ∈ direct := by simp [direct, hsimple]
      have hps : (S.platform req s).ps_cgi_cmds cmd = some p.1 := by
        simp only [Services.platform, if_neg hsec, if_pos hsimple, hp, Option.map_some]
      rw [if_pos hdirect, hps, ← CGI_do_wireless_simple_config_device_web hp]
      rfl
    rw [if_neg hsimple] at ha
    have hdirect : cmd ∉ direct := by
      simp only [direct, List.mem_cons, List.not_mem_nil, or_false]
      tauto
    have hps : ((S.platform req s).ps_cgi_cmds cmd).getD 0 = (mainLoop S cmd s).rc := by
      simp only [Services.platform, if_neg hsec, if_neg hsimple, mainLoop]
      cases S.ps_cgi_cmds cmd s.cfg <;> rfl
    rw [if_neg hdirect, hps]
    by_cases hneg : (mainLoop S cmd s).rc < 0
    · rw [if_pos hneg] at ha ⊢
      obtain rfl := Option.some.inj ha
      rfl
    rw [if_neg hneg] at ha ⊢
    obtain ⟨s', hsettle, ha⟩ := Option.bind_eq_some_iff.mp ha
    have hweb := settle_web hsettle
    obtain ⟨hflash, hloop⟩ := settingLoop_web (P := S.platform req s) hanswer req.sets
      (mainLoop S cmd s).rc (mainLoop S cmd s).start false
    have hweb' : (⟨((mainLoop S cmd s).run req).2.web.g_web_config, s.web.flash⟩ : ConfigStore) =
        s'.web := by
      rw [hweb]
      exact congrArg _ hflash.symm
    have hset : setLoop (S.platform req s) req.sets
        ⟨(mainLoop S cmd s).rc, s.web.g_web_config, false⟩ =
          ⟨((mainLoop S cmd s).run req).1, ((mainLoop S cmd s).run req).2.web.g_web_config,
            sACNforceToReboot req⟩ := hloop
    simp only [hset, hweb']
    by_cases hrefresh : cmd = ascii "CONSTELLATION_REFRESH"
    · rw [if_pos hrefresh] at ha ⊢
      obtain rfl := Option.some.inj ha
      rfl
    rw [if_neg hrefresh] at ha ⊢
    cases hhandler : handlerOf cmd with
    | none =>
      simp only [hhandler] at ha
      obtain rfl := Option.some.inj ha
      rfl
    | some handler =>
      simp only [hhandler] at ha
      obtain ⟨r, hr, rfl⟩ := Option.map_eq_some_iff.mp ha
      exact hr

end AksFirmware.SettingsRequest
