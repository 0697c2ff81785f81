import AksFirmware.ConfigCommands

/-!
# What a request leaves behind

A request to the web server sets the record in RAM first, one `SETi` after the other, and
decides afterwards whether to write the flash.  The return code of each `SETi` replaces that
of the one before, a malformed one ends the loop, and some commands return before the code
is looked at.

`agrees_iff` says after which requests the flash holds the record that is in RAM.
-/

namespace AksFirmware.ConfigRequests

open ByteMemory CText WebConfig ConfigFlash ConfigCommands

/-! ### The loop over the settings -/

/-- The settings of the request as the loop starts. -/
def startState (P : Platform) (cmd : Text) (s : ConfigStore) : SetState :=
  ⟨(P.ps_cgi_cmds cmd).getD 0, s.g_web_config, false⟩

/-- The value is taken by `ratpac_set_str` or else by `CFG_set_str`. -/
def Taken (P : Platform) (w : Nat × Text) : Prop :=
  (setCases.lookup w.1).isSome ∨ 0 ≤ P.CFG_set_str w.1 w.2

instance (P : Platform) (w : Nat × Text) : Decidable (Taken P w) :=
  inferInstanceAs (Decidable (_ ∨ _))

def itemCode (P : Platform) (w : Nat × Text) : Int :=
  if Taken P w then CGI_RC_CFG_OK else P.CFG_set_str w.1 w.2

/-- Every variable has a `=` behind its id. -/
def AllNamed (cmdvs : List Text) : Prop := ∀ cmdv ∈ cmdvs, (setArg cmdv).isSome

instance (cmdvs : List Text) : Decidable (AllNamed cmdvs) :=
  inferInstanceAs (Decidable (∀ cmdv ∈ cmdvs, _))

theorem ratpac_set_str_code (g : Mem) (id : Nat) (val : Text) :
    (ratpac_set_str g id val).1 = if (setCases.lookup id).isSome then 0 else -1 := by
  unfold ratpac_set_str
  cases setCases.lookup id <;> rfl

theorem setTurn_rc (P : Platform) (id : Nat) (val : Text) (st : SetState) :
    (setTurn P id val st).rc = itemCode P (id, setValue id val) := by
  simp only [setTurn, itemCode, Taken, ratpac_set_str_code]
  by_cases hcase : (setCases.lookup id).isSome = true
  · simp [hcase]
  · simp [hcase]

/-- The last setting gives the code, unless a malformed one ends the loop. -/
theorem setLoop_rc (P : Platform) (cmdvs : List Text) (st : SetState) :
    (setLoop P cmdvs st).rc =
      if AllNamed cmdvs then (((loopSets cmdvs).getLast?).map (itemCode P)).getD st.rc
      else CGI_RC_CFG_ERR := by
  induction cmdvs generalizing st with
  | nil => simp [setLoop, loopSets, AllNamed]
  | cons cmdv cmdvs ih =>
    unfold setLoop loopSets
    cases harg : setArg cmdv with
    | none => simp [AllNamed, harg]
    | some a =>
      obtain ⟨id, val⟩ := a
      have hnamed : AllNamed (cmdv :: cmdvs) ↔ AllNamed cmdvs := by simp [AllNamed, harg]
      simp only [hnamed, ih]
      split
      · split
        · rfl
        · rw [List.getLast?_cons, setTurn_rc]
          cases (loopSets cmdvs).getLast? <;> rfl
      · rfl

/-- A setting of the protocol or of its universe asks for a reboot. -/
theorem setLoop_reboot (P : Platform) (cmdvs : List Text) (st : SetState) :
    (setLoop P cmdvs st).sACNforceToReboot =
      (st.sACNforceToReboot ||
        (loopSets cmdvs).any fun w => w.1 = CFG_SACN_UNIV || w.1 = CFG_PROTNAME) := by
  induction cmdvs generalizing st with
  | nil => simp [setLoop, loopSets]
  | cons cmdv cmdvs ih =>
    unfold setLoop loopSets
    cases setArg cmdv with
    | none => simp
    | some a =>
      obtain ⟨id, val⟩ := a
      simp only [ih]
      split
      · rfl
      · simp only [setTurn, List.any_cons, Bool.or_assoc]

/-! ### The ways through a request -/

/-- The copies of the settings that an accepted request carries out. -/
def settings (P : Platform) (req : Request) : List Copy :=
  (req.accepted P).toList.flatMap fun _ => (loopSets req.sets).flatMap setCopy

/-- The record once the settings are carried out. -/
def withSettings (P : Platform) (req : Request) (s : ConfigStore) : ConfigStore :=
  { s with g_web_config := applyCopies s.g_web_config (settings P req) }

/-- How a request that has an outcome came to it. -/
inductive Way (P : Platform) (req : Request) (s : ConfigStore) (r : Reply) : Prop
  | refused (hacc : req.accepted P = none)
      (hstore : r.store = s ∨ r.store = write_data_to_flash s)
  | refreshed {cmd : Text} (hacc : req.accepted P = some cmd)
      (hcmd : cmd = ascii "CONSTELLATION_REFRESH") (hreply : r = ok (withSettings P req s))
  | handled {cmd : Text} {h : Handler} (hacc : req.accepted P = some cmd)
      (hcmd : cmd ≠ ascii "CONSTELLATION_REFRESH") (hhandler : handlerOf cmd = some h)
      (hrun : h.run cmd (withSettings P req s) = some r)
  | common {cmd : Text} (hacc : req.accepted P = some cmd)
      (hcmd : cmd ≠ ascii "CONSTELLATION_REFRESH") (hhandler : handlerOf cmd = none)
      (hreply : r = readyToOut P cmd (setLoop P req.sets (startState P cmd s)).rc
        (setLoop P req.sets (startState P cmd s)).sACNforceToReboot (withSettings P req s))

/-- The request gets to the common exit. -/
def Common (P : Platform) (req : Request) : Prop :=
  ∃ cmd ∈ req.accepted P, cmd ≠ ascii "CONSTELLATION_REFRESH" ∧ handlerOf cmd = none

theorem accepted_of {P : Platform} {req : Request} {cmd : Text} (hcmd : req.CMD = some cmd) :
    req.accepted P =
      if cmd ∉ direct ∧ 0 ≤ (P.ps_cgi_cmds cmd).getD 0 then some cmd else none := by
  simp [Request.accepted, hcmd, Option.filter_some]

theorem CGI_do_cmd_way {P : Platform} {req : Request} {s : ConfigStore} {r : Reply}
    (h : CGI_do_cmd P req s = some r) : Way P req s r := by
  unfold CGI_do_cmd at h
  cases hcmd : req.CMD with
  | none =>
    rw [hcmd] at h
    cases h
    exact .refused (by simp [Request.accepted, hcmd]) (.inl rfl)
  | some cmd =>
    have hacc := accepted_of (P := P) hcmd
    simp only [hcmd] at h
    by_cases hdirect : cmd ∈ direct
    · rw [if_pos hdirect] at h
      cases h
      rw [if_neg (by simp [hdirect])] at hacc
      refine .refused hacc ?_
      rw [readyToOut_store]
      split
      · exact .inr rfl
      · exact .inl rfl
    rw [if_neg hdirect] at h
    by_cases hrc : (P.ps_cgi_cmds cmd).getD 0 < 0
    · rw [if_pos hrc] at h
      cases h
      exact .refused (by rw [hacc, if_neg (by omega)]) (.inl rfl)
    rw [if_neg hrc] at h
    rw [if_pos ⟨hdirect, Int.not_lt.mp hrc⟩] at hacc
    have hloop : { s with
        g_web_config := (setLoop P req.sets
          ⟨(P.ps_cgi_cmds cmd).getD 0, s.g_web_config, false⟩).g_web_config } =
          withSettings P req s := by
      rw [withSettings, settings, hacc, setLoop_copies]
      simp
    simp only [hloop] at h
    split at h
    · rename_i hrefresh
      cases h
      exact .refreshed hacc hrefresh rfl
    · rename_i hrefresh
      split at h
      · rename_i handler hhandler
        exact .handled hacc hrefresh hhandler h
      · rename_i hhandler
        cases h
        exact .common hacc hrefresh hhandler rfl

/-! ### The record and the flash after a command -/

/-- The options are set and the flash is written, if there are any to set. -/
def saveSets (s : ConfigStore) : List (Nat × Text) → ConfigStore
  | [] => s
  | w :: sets => saveAll s (w :: sets)

theorem withArgument_store {s : ConfigStore} {h : Handler} {cmd : Text} {r : Reply}
    {body : Text → Option Reply} (hrun : withArgument cmd s body = some r)
    (hbody : ∀ tmp1, body tmp1 = some r →
      r.store = saveSets s (h.texts tmp1).2) :
    r.store = saveSets s (h.textsOf cmd).2 := by
  unfold withArgument at hrun
  unfold Handler.textsOf
  cases hcut : cut 0x3d cmd with
  | none =>
    rw [hcut] at hrun
    cases hrun
    rfl
  | some p =>
    rw [hcut] at hrun
    exact hbody p.2 hrun

theorem setOption_store {h : Handler} {size id : Nat}
    (htexts : ∀ tmp1, h.texts tmp1 = ([(size, tmp1)], [(id, tmp1)])) {s : ConfigStore} {cmd : Text}
    {r : Reply} (hrun : setOption size id cmd s = some r) :
    r.store = saveSets s (h.textsOf cmd).2 := by
  apply withArgument_store hrun
  intro tmp1 hbody
  obtain ⟨buf, hbuf, hr⟩ := Option.bind_eq_some_iff.mp hbody
  cases hr
  rw [htexts, (stackText_eq_some hbuf).2]
  rfl

/-- A command without the parts it looks for changes nothing; otherwise it sets its options
and writes the flash. -/
theorem Handler.run_store {h : Handler} {cmd : Text} {s : ConfigStore} {r : Reply}
    (hrun : h.run cmd s = some r) :
    r.store = saveSets s (h.textsOf cmd).2 := by
  cases h with
  | SET_UNIVERSE =>
    apply withArgument_store hrun
    intro tmp1 hbody
    simp only [Handler.texts]
    cases hcut : cut 0x2d tmp1 with
    | none =>
      rw [hcut] at hbody
      cases hbody
      rfl
    | some p =>
      simp only [hcut] at hbody
      obtain ⟨sub, hsub, hbody⟩ := Option.bind_eq_some_iff.mp hbody
      obtain ⟨uni, huni, hr⟩ := Option.bind_eq_some_iff.mp hbody
      cases hr
      rw [(stackText_eq_some hsub).2, (stackText_eq_some huni).2]
      rfl
  | SET_PROTO_UNIVERSE =>
    apply withArgument_store hrun
    intro tmp1 hbody
    simp only [Handler.texts]
    cases hparts : protoParts tmp1 with
    | none =>
      rw [hparts] at hbody
      cases hbody
      rfl
    | some p =>
      simp only [hparts, Option.bind_eq_bind, Option.bind_eq_some_iff] at hbody
      obtain ⟨_, -, _, -, sub, hsub, uni, huni, suni, hsuni, prot, hprot, hr⟩ := hbody
      cases hr
      rw [(stackText_eq_some hsub).2, (stackText_eq_some huni).2, (stackText_eq_some hsuni).2,
        (stackText_eq_some hprot).2]
      rfl
  | RENAME_AKS =>
    apply withArgument_store hrun
    intro tmp1 hbody
    obtain ⟨name, hname, hr⟩ := Option.bind_eq_some_iff.mp hbody
    cases hr
    rw [(stackText_eq_some hname).2]
    rfl
  | SET_SORT => exact setOption_store (h := .SET_SORT) (fun _ => rfl) hrun
  | SET_TIMO_POWER => exact setOption_store (h := .SET_TIMO_POWER) (fun _ => rfl) hrun
  | SET_LED_COLOR => exact setOption_store (h := .SET_LED_COLOR) (fun _ => rfl) hrun
  | AUTO_SACN_UNIV =>
    apply withArgument_store hrun
    intro tmp1 hbody
    simp only [Option.bind_eq_bind, Option.bind_eq_some_iff] at hbody
    obtain ⟨num, hnum, _, -, hr⟩ := hbody
    cases hr
    rw [(stackText_eq_some hnum).2]
    rfl
  | AUTO_ARTNET_UNIV =>
    apply withArgument_store hrun
    intro tmp1 hbody
    simp only [Option.bind_eq_bind, Option.bind_eq_some_iff] at hbody
    obtain ⟨num, hnum, sub, hsub, uni, huni, hr⟩ := hbody
    cases hr
    rw [(stackText_eq_some hsub).2, (stackText_eq_some huni).2, (stackText_eq_some hnum).2]
    rfl

/-- The flash holds the record that is in RAM, up to `initFlag`. -/
def Agrees (s : ConfigStore) : Prop :=
  ∀ x, 1 ≤ x → x < WEB_DATA_SIZE → s.flash x = s.g_web_config x

theorem write_agrees (s : ConfigStore) : Agrees (write_data_to_flash s) := by
  intro x _ hx
  simp only [write_data_to_flash]
  rw [store_load_eq, if_pos (by omega)]
  simp

/-- The settings that are carried out leave every byte of the record as it was. -/
def Unchanged (P : Platform) (req : Request) (s : ConfigStore) : Prop :=
  ∀ x, 1 ≤ x → x < WEB_DATA_SIZE → (withSettings P req s).g_web_config x = s.g_web_config x

theorem unchanged_of_refused {P : Platform} {req : Request} (h : req.accepted P = none)
    (s : ConfigStore) : Unchanged P req s := by
  intro x _ _
  simp [withSettings, settings, h, applyCopies]

/-- From a state where they agree, the flash still holds the record after the settings
exactly if these changed nothing. -/
theorem agrees_withSettings {P : Platform} {req : Request} {s : ConfigStore} (hs : Agrees s) :
    Agrees (withSettings P req s) ↔ Unchanged P req s := by
  constructor
  · intro h x hx hlt
    exact (h x hx hlt).symm.trans (hs x hx hlt)
  · intro h x hx hlt
    exact (hs x hx hlt).trans (h x hx hlt).symm

/-- The last setting was taken; without any, the command has asked for the write itself. -/
def LastTaken (P : Platform) (cmd : Text) (req : Request) : Prop :=
  match (loopSets req.sets).getLast? with
  | some w => Taken P w
  | none => P.ps_cgi_cmds cmd = some CGI_RC_CFG_OK

/-- The request gets to a `write_data_to_flash` after its settings: a command that finds
the parts of its argument, or the common exit after a last setting that was taken. -/
def Saved (P : Platform) (req : Request) : Prop :=
  ∃ cmd ∈ req.accepted P, cmd ≠ ascii "CONSTELLATION_REFRESH" ∧
    match handlerOf cmd with
    | some h => (h.textsOf cmd).2 ≠ []
    | none => AllNamed req.sets ∧ LastTaken P cmd req

theorem itemCode_eq_ok {P : Platform} {w : Nat × Text} :
    itemCode P w = CGI_RC_CFG_OK ↔ Taken P w := by
  unfold itemCode
  split
  · rename_i h
    exact iff_of_true rfl h
  · rename_i h
    refine iff_of_false (fun heq => h (.inr ?_)) h
    rw [heq]
    decide

theorem loop_rc_eq_ok {P : Platform} {req : Request} {cmd : Text} {s : ConfigStore} :
    (setLoop P req.sets (startState P cmd s)).rc = CGI_RC_CFG_OK ↔
      AllNamed req.sets ∧ LastTaken P cmd req := by
  rw [setLoop_rc, LastTaken]
  by_cases hnamed : AllNamed req.sets
  · rw [if_pos hnamed, and_iff_right hnamed]
    cases (loopSets req.sets).getLast? with
    | some w => exact itemCode_eq_ok
    | none =>
      simp only [startState, Option.map_none, Option.getD_none]
      cases P.ps_cgi_cmds cmd with
      | none => exact iff_of_false (by decide) (by simp)
      | some rc => simp
  · rw [if_neg hnamed]
    exact iff_of_false (by decide) fun h => hnamed h.1

/-- **When the flash holds what is in RAM.**  A request that starts from a state where they
agree ends in one exactly if it gets to the write, or its settings change nothing. -/
theorem agrees_iff {P : Platform} {req : Request} {s : ConfigStore} {r : Reply}
    (h : CGI_do_cmd P req s = some r) (hs : Agrees s) :
    Agrees r.store ↔ Saved P req ∨ Unchanged P req s := by
  cases CGI_do_cmd_way h with
  | refused hacc hstore =>
    refine iff_of_true ?_ (.inr (unchanged_of_refused hacc s))
    rcases hstore with hstore | hstore
    · rw [hstore]
      exact hs
    · rw [hstore]
      exact write_agrees s
  | refreshed hacc hcmd hreply =>
    have hnot : ¬ Saved P req := by
      rintro ⟨cmd', hacc', hne, -⟩
      rw [hacc] at hacc'
      exact hne (Option.some.inj hacc' ▸ hcmd)
    rw [or_iff_right hnot, hreply]
    exact agrees_withSettings hs
  | @handled cmd handler hacc hcmd hhandler hrun =>
    have hsaved : Saved P req ↔ (handler.textsOf cmd).2 ≠ [] := by
      simp [Saved, hacc, hcmd, hhandler]
    rw [hsaved, Handler.run_store hrun]
    cases (handler.textsOf cmd).2 with
    | nil =>
      rw [or_iff_right (not_not.mpr rfl)]
      exact agrees_withSettings hs
    | cons w sets => exact iff_of_true (write_agrees _) (.inl (List.cons_ne_nil w sets))
  | @common cmd hacc hcmd hhandler hreply =>
    have hsaved : Saved P req ↔ AllNamed req.sets ∧ LastTaken P cmd req := by
      simp [Saved, hacc, hcmd, hhandler]
    rw [hsaved, ← loop_rc_eq_ok (s := s), hreply, readyToOut_store]
    split
    · rename_i hok
      exact iff_of_true (write_agrees _) (.inl hok)
    · rename_i hok
      rw [or_iff_right hok]
      exact agrees_withSettings hs

def nameRequest (CMD : String) : Request where
  CMD := some (ascii CMD)
  SET := fun i => if i = 0 then some (ascii "302055936=Stage left") else none

def writtenStore : ConfigStore := write_data_to_flash factoryStore

theorem agrees_iff_sample :
    ∃ r, CGI_do_cmd quietPlatform (nameRequest "LAN") writtenStore = some r ∧
      (Agrees r.store ↔ Saved quietPlatform (nameRequest "LAN") ∨
        Unchanged quietPlatform (nameRequest "LAN") writtenStore) :=
  ⟨_, rfl, @agrees_iff quietPlatform (nameRequest "LAN") _ _ rfl (write_agrees _)⟩

/-- `CONSTELLATION_REFRESH` returns before the flash is written: the new name is in RAM
only. -/
theorem refresh_loses_setting :
    ¬ ∀ P req s r, CGI_do_cmd P req s = some r → Agrees s → Agrees r.store := by
  intro hall
  have hagrees := hall quietPlatform (nameRequest "CONSTELLATION_REFRESH") writtenStore _ rfl
    (write_agrees _)
  exact absurd (hagrees 1 (by decide) (by decide)) (by decide +kernel)

end AksFirmware.ConfigRequests
