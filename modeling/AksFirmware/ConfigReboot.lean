import AksFirmware.ConfigRequests

/-!
# Reboots after a change of the protocol

`sACN_main` reads the protocol and its universe once, when it starts.  A command that
changes them is expected to ask for a reboot, and the commands do so each in its own way:
by the id of a setting, by comparing the old texts with the new ones, or by looking at the
protocol afterwards.  Some ask for none.

A run is judged by two things: what a receiver that started now would read, and how many
reboots have been asked for.
-/

namespace AksFirmware.ConfigReboot

open ByteMemory CText WebConfig ConfigFlash ConfigCommands ConfigRequests

/-! ### What the receiver reads -/

/-- `temp_buf` of `sACN_main`. -/
def protocol (g : Mem) : Text := (ratpac_get_str ⟨g, 0⟩ CFG_PROTNAME).2

/-- `(uint16_t)atoi(sacn_univ_buff)`. -/
def sacn_univ (g : Mem) : Nat := (atoi (ratpac_get_str ⟨g, 0⟩ CFG_SACN_UNIV).2 % 65536).toNat

/-- The receiver that started with the record `boot` does not fit the record `g`. -/
def Stale (boot g : Mem) : Prop :=
  protocol g ≠ protocol boot ∨
    ((protocol g).head? = some 0x31 ∧ sacn_univ g ≠ sacn_univ boot)

instance (boot g : Mem) : Decidable (Stale boot g) := inferInstanceAs (Decidable (_ ∨ _))

/-- The protocol, and the universe as far as it is read. -/
def reception (g : Mem) : Text × Option Nat :=
  (protocol g, if (protocol g).head? = some 0x31 then some (sacn_univ g) else none)

theorem stale_iff (boot g : Mem) : Stale boot g ↔ reception g ≠ reception boot := by
  unfold Stale reception
  by_cases hprot : protocol g = protocol boot
  · rw [hprot]
    by_cases hsacn : (protocol boot).head? = some 0x31
    · simp [hsacn]
    · simp [hsacn]
  · simp [hprot]

/-- What `ratpac_get_str` leaves of a member's text. -/
def shownText (limit : Option Nat) (t : Text) : Text :=
  match limited limit t with
  | [] => ascii "0"
  | s => s

theorem protocol_eq (g : Mem) : protocol g = shownText (some 2) (fieldText g .protname) := by
  have hcase : getCases.lookup CFG_PROTNAME = some (.protname, some 2) := rfl
  simp only [protocol, ratpac_get_str, hcase, shownText]
  split <;> simp_all

theorem sacn_text_eq (g : Mem) :
    (ratpac_get_str ⟨g, 0⟩ CFG_SACN_UNIV).2 = shownText none (fieldText g .sacn_universe) := by
  have hcase : getCases.lookup CFG_SACN_UNIV = some (.sacn_universe, none) := rfl
  simp only [ratpac_get_str, hcase, shownText]
  split <;> simp_all

theorem reception_congr {g g' : Mem} (h : ∀ x, 57 ≤ x → x < WEB_DATA_SIZE → g x = g' x) :
    reception g = reception g' := by
  have hprot : fieldText g .protname = fieldText g' .protname :=
    text_congr fun i hi => h _ (by simp only [Field.offset]; omega)
      (by simp only [Field.offset] at hi ⊢; omega)
  have hsacn : fieldText g .sacn_universe = fieldText g' .sacn_universe :=
    text_congr fun i hi => h _ (by simp only [Field.offset]; omega)
      (by simp only [Field.offset] at hi ⊢; omega)
  simp only [reception, sacn_univ, protocol_eq, sacn_text_eq, hprot, hsacn]

theorem reception_written {s s' : ConfigStore} {ws : List Copy} (h : Written s ws s') :
    reception s'.g_web_config = reception (applyCopies s.g_web_config ws) :=
  reception_congr fun x hx _ => h x (by omega)

theorem reception_write (s : ConfigStore) :
    reception (write_data_to_flash s).g_web_config = reception s.g_web_config :=
  reception_congr fun _ hx _ => write_keeps s (by omega)

/-- A text that is shown whole is shown again. -/
theorem shownText_idem {limit : Option Nat} (hlimit : ∀ k, limit = some k → 2 ≤ k) (t : Text) :
    shownText limit (shownText limit t) = shownText limit t := by
  have hzero : limited limit (ascii "0") = ascii "0" := by
    cases limit with
    | none => rfl
    | some k => exact List.take_of_length_le (by have := hlimit k rfl; simp [ascii]; omega)
  have hagain : limited limit (limited limit t) = limited limit t := by
    cases limit with
    | none => rfl
    | some k => simp [limited, clip, List.take_take]
  unfold shownText
  cases hshown : limited limit t with
  | nil => rw [hzero]; rfl
  | cons c s =>
    rw [hshown] at hagain
    rw [hagain]

/-! ### The two members when they are set -/

theorem fieldText_setProt (g : Mem) {prot : Text} (h : prot.length < 4) :
    fieldText (setField g .protname prot) .protname = prot.takeWhile (· ≠ 0) :=
  (holdsText_storeText g _ prot).text_takeWhile (Nat.lt_trans h (by decide))

theorem fieldText_setSacn (g : Mem) {suni : Text} (h : suni.length < 8) (prot : Text) :
    fieldText (setField (setField g .sacn_universe suni) .protname prot) .sacn_universe =
      suni.takeWhile (· ≠ 0) := by
  have hin : ∀ i < 8, setField (setField g .sacn_universe suni) .protname prot (57 + i) =
      storeText g 57 suni (57 + i) :=
    fun i hi => storeText_of_outside _ prot (.inl (by simp only [Field.offset]; omega))
  have hterm : Terminated (setField (setField g .sacn_universe suni) .protname prot) 57 8 :=
    (terminated_congr hin).mpr (terminated_storeText g h)
  rw [fieldText, ← (holdsText_storeText g 57 suni).text_takeWhile h, ← text_congr hin]
  exact hterm.text_eq_of_le (by decide)

theorem fieldText_prot_of_sacn (g : Mem) {suni : Text} (h : suni.length < 8) :
    fieldText (setField g .sacn_universe suni) .protname = fieldText g .protname :=
  text_congr fun _ _ => storeText_of_outside _ suni (.inr (by simp only [Field.offset]; omega))

theorem protocol_setProt (g : Mem) {prot : Text} (h : prot.length < 4) {old : Mem}
    (hsame : strcmp (protocol old) prot = 0) :
    protocol (setField g .protname prot) = protocol old := by
  have hfree : (0 : UInt8) ∉ protocol old := zero_notMem_ratpac_get_str _ _
  rw [protocol_eq, fieldText_setProt g h, ← takeWhile_of_strcmp hsame, takeWhile_eq_self hfree,
    protocol_eq old]
  exact shownText_idem (fun k hk => (Option.some.inj hk).le) _

theorem sacn_univ_setSacn (g : Mem) {suni : Text} (h : suni.length < 8) (prot : Text) {old : Mem}
    (hsame : strcmp (ratpac_get_str ⟨old, 0⟩ CFG_SACN_UNIV).2 suni = 0) :
    sacn_univ (setField (setField g .sacn_universe suni) .protname prot) = sacn_univ old := by
  have hfree : (0 : UInt8) ∉ (ratpac_get_str ⟨old, 0⟩ CFG_SACN_UNIV).2 :=
    zero_notMem_ratpac_get_str _ _
  have hshown : shownText none (suni.takeWhile (· ≠ 0)) =
      (ratpac_get_str ⟨old, 0⟩ CFG_SACN_UNIV).2 := by
    rw [← takeWhile_of_strcmp hsame, takeWhile_eq_self hfree, sacn_text_eq]
    exact shownText_idem (fun k hk => by cases hk) _
  rw [sacn_univ, sacn_text_eq, fieldText_setSacn g h, hshown, sacn_univ]

/-! ### The commands that compare -/

/-- Without a reboot, `SET_PROTO_UNIVERSE` has found the texts it sets in place. -/
theorem setProtoUniverse_reception {cmd : Text} {s : ConfigStore} {r : Reply}
    (hrun : SET_PROTO_UNIVERSE cmd s = some r) (hreboot : r.reboot = false) :
    reception r.store.g_web_config = reception s.g_web_config := by
  unfold SET_PROTO_UNIVERSE withArgument at hrun
  cases hcut : cut 0x3d cmd with
  | none =>
    rw [hcut] at hrun
    cases hrun
    rfl
  | some p =>
    simp only [hcut] at hrun
    cases hparts : protoParts p.2 with
    | none =>
      rw [hparts] at hrun
      cases hrun
      rfl
    | some q =>
      simp only [hparts, Option.bind_eq_bind, Option.bind_eq_some_iff] at hrun
      obtain ⟨pre_prot, hpre_prot, pre_suni, hpre_suni, sub, -, uni, -, suni, hsuni, prot, hprot,
        hr⟩ := hrun
      cases hr
      have hsuni_lt := (stackText_eq_some hsuni).1
      have hprot_lt := (stackText_eq_some hprot).1
      rw [(stackText_eq_some hpre_prot).2, (stackText_eq_some hpre_suni).2,
        (stackText_eq_some hsuni).2, (stackText_eq_some hprot).2] at hreboot
      simp only [Bool.or_eq_false_iff, Bool.and_eq_false_imp, decide_eq_false_iff_not,
        decide_eq_true_eq, ne_eq, not_not] at hreboot
      obtain ⟨hprot_same, hsuni_same⟩ := hreboot
      rw [(stackText_eq_some hsuni).2, (stackText_eq_some hprot).2]
      refine (reception_write _).trans ?_
      change reception (setField (setField (setField (setField s.g_web_config .universe uni)
        .subnet sub) .sacn_universe q.2.2.1) .protname q.2.2.2) = _
      generalize setField (setField s.g_web_config .universe uni) .subnet sub = g
      have hprotocol : protocol (setField (setField g .sacn_universe q.2.2.1) .protname q.2.2.2) =
          protocol s.g_web_config := protocol_setProt _ hprot_lt hprot_same
      simp only [reception, hprotocol]
      by_cases hsacn : (protocol s.g_web_config).head? = some 0x31
      · have huniv : sacn_univ (setField (setField g .sacn_universe q.2.2.1) .protname q.2.2.2) =
            sacn_univ s.g_web_config := sacn_univ_setSacn g hsuni_lt q.2.2.2 (hsuni_same hsacn)
        rw [if_pos hsacn, if_pos hsacn, huniv]
      · rw [if_neg hsacn, if_neg hsacn]

/-- Without a reboot, `AUTO_SACN_UNIV` has found that the protocol is not sACN. -/
theorem autoSacnUniv_reception {cmd : Text} {s : ConfigStore} {r : Reply}
    (hrun : AUTO_SACN_UNIV cmd s = some r)
    (hshort : ∀ w ∈ (Handler.AUTO_SACN_UNIV.textsOf cmd).2, w.2.length < 8)
    (hreboot : r.reboot = false) :
    reception r.store.g_web_config = reception s.g_web_config := by
  unfold AUTO_SACN_UNIV withArgument at hrun
  unfold Handler.textsOf at hshort
  cases hcut : cut 0x3d cmd with
  | none =>
    rw [hcut] at hrun
    cases hrun
    rfl
  | some p =>
    simp only [hcut] at hrun hshort
    obtain ⟨num, hnum, hrun⟩ := Option.bind_eq_some_iff.mp hrun
    obtain ⟨pre_prot, hpre_prot, hr⟩ := Option.bind_eq_some_iff.mp hrun
    cases hr
    obtain ⟨-, rfl⟩ := stackText_eq_some hnum
    obtain ⟨-, rfl⟩ := stackText_eq_some hpre_prot
    have hlt : p.2.length < 8 := hshort _ List.mem_cons_self
    have hstore := reception_write
      { s with g_web_config := setField s.g_web_config .sacn_universe p.2 }
    have hprot : protocol (setField s.g_web_config .sacn_universe p.2) =
        protocol s.g_web_config := by
      rw [protocol_eq, protocol_eq, fieldText_prot_of_sacn _ hlt]
    have hnot : (protocol s.g_web_config).head? ≠ some 0x31 := by
      rw [← hprot]
      have hsame := congrArg Prod.fst hstore
      simp only [reception] at hsame
      rw [← hsame]
      exact of_decide_eq_false hreboot
    refine hstore.trans ?_
    simp only [reception, hprot]
    rw [if_neg hnot, if_neg hnot]

/-! ### One command -/

/-- The settings and the command leave what the receiver reads, or the command is one that
asks for a reboot when it does not. -/
def Quiet (P : Platform) (req : Request) (s : ConfigStore) : Prop :=
  reception (withSettings P req s).g_web_config = reception s.g_web_config ∧
    ∀ p ∈ req.handler P,
      match p.1 with
      | .SET_PROTO_UNIVERSE => True
      | .AUTO_SACN_UNIV => ∀ w ∈ (p.1.textsOf p.2).2, w.2.length < 8
      | _ => reception (applyCopies (withSettings P req s).g_web_config
          ((p.1.textsOf p.2).2.flatMap setCopy)) = reception s.g_web_config

/-- A setting of the protocol or its universe is carried out on the way to the common
exit. -/
def Announced (P : Platform) (req : Request) : Prop :=
  Common P req ∧ ∃ w ∈ loopSets req.sets, w.1 = CFG_SACN_UNIV ∨ w.1 = CFG_PROTNAME

theorem saveSets_reception (s : ConfigStore) (sets : List (Nat × Text)) :
    reception (saveSets s sets).g_web_config =
      reception (applyCopies s.g_web_config (sets.flatMap setCopy)) := by
  cases sets with
  | nil => rfl
  | cons w sets => exact reception_written (saveAll_written s _)

theorem CGI_do_cmd_reception {P : Platform} {req : Request} {s : ConfigStore} {r : Reply}
    (h : CGI_do_cmd P req s = some r) (hcareful : Announced P req ∨ Quiet P req s)
    (hreboot : r.reboot = false) :
    reception r.store.g_web_config = reception s.g_web_config := by
  cases CGI_do_cmd_way h with
  | refused hacc hstore =>
    rcases hstore with hstore | hstore
    · rw [hstore]
    · rw [hstore, reception_write]
  | refreshed hacc hcmd hreply =>
    rcases hcareful with ⟨⟨cmd', hacc', hne, -⟩, -⟩ | ⟨hquiet, -⟩
    · rw [hacc] at hacc'
      exact absurd (Option.some.inj hacc' ▸ hcmd) hne
    · rw [hreply]
      exact hquiet
  | @handled cmd handler hacc hcmd hhandler hrun =>
    rcases hcareful with ⟨⟨cmd', hacc', -, hnone⟩, -⟩ | ⟨hquiet, hown⟩
    · rw [hacc] at hacc'
      rw [← Option.some.inj hacc', hhandler] at hnone
      cases hnone
    · have hmem : req.handler P = some (handler, cmd) := by
        simp [Request.handler, hacc, hcmd, hhandler]
      have hown := hown _ hmem
      have hstore := Handler.run_store hrun
      rw [← hquiet]
      cases handler with
      | SET_PROTO_UNIVERSE => exact setProtoUniverse_reception hrun hreboot
      | AUTO_SACN_UNIV => exact autoSacnUniv_reception hrun hown hreboot
      | SET_UNIVERSE | RENAME_AKS | SET_SORT | SET_TIMO_POWER | SET_LED_COLOR
      | AUTO_ARTNET_UNIV => rw [hstore, saveSets_reception, hown, hquiet]
  | @common cmd hacc hcmd hhandler hreply =>
    rcases hcareful with ⟨-, w, hw, hid⟩ | ⟨hquiet, -⟩
    · have hflag : (setLoop P req.sets (startState P cmd s)).sACNforceToReboot = true := by
        rw [setLoop_reboot, Bool.or_eq_true, List.any_eq_true]
        exact .inr ⟨w, hw, by simpa using hid⟩
      rw [hreply, hflag] at hreboot
      cases hreboot
    · rw [← hquiet, hreply, readyToOut_store]
      split
      · exact reception_write _
      · rfl

theorem cmd_web_para_written {s : ConfigStore} {name : String} {ws : Text → List Copy} {lo hi : Int}
    {argv : List Text} {r : AtReply} (hset : ∀ arg, setCopy (CFG_str2id name, arg) = ws arg)
    (h : cmd_web_para name lo hi argv s = some r) :
    Written s (oneCopy argv fun arg => if lo ≤ atoi arg ∧ atoi arg ≤ hi then ws arg else [])
      r.store := by
  rcases argv with _ | ⟨arg, _ | ⟨_, _⟩⟩
  · obtain ⟨_, -, hr⟩ := Option.bind_eq_some_iff.mp h
    cases hr
    exact Written.refl s
  · have hsave := saveAll_written s [(CFG_str2id name, arg)]
    rw [List.flatMap_cons, List.flatMap_nil, List.append_nil, hset] at hsave
    simp only [cmd_web_para] at h
    simp only [oneCopy]
    split at h
    · rename_i hrange
      cases h
      rw [if_pos hrange]
      exact hsave
    · rename_i hrange
      cases h
      rw [if_neg hrange]
      exact Written.refl s
  · cases h
    exact Written.refl s

theorem node_name_written {s : ConfigStore} {argv : List Text} {r : AtReply}
    (h : cmd_web_para_node_name argv s = some r) :
    Written s (AtCommand.copies .NODENAME argv) r.store := by
  rcases argv with _ | ⟨arg, _ | ⟨_, _⟩⟩
  · obtain ⟨_, -, hr⟩ := Option.bind_eq_some_iff.mp h
    cases hr
    exact Written.refl s
  · cases h
    exact saveAll_written s [(CFG_str2id "AKS_NAME", arg)]
  · cases h
    exact Written.refl s

theorem AtCommand.run_written {build_img : Text} {c : AtCommand} (hc : c ≠ .DEFAULT)
    {argv : List Text} {s : ConfigStore} {r : AtReply} (h : c.run build_img argv s = some r) :
    Written s (c.copies argv) r.store := by
  have hreload : ∀ f lo hi, reload_cmd_web_para f lo hi argv s = some r →
      Written s (rangeCopy lo hi argv f) r.store := by
    intro f lo hi hrun
    obtain ⟨r', hrun', hwritten⟩ := reload_cmd_web_para_spec s f lo hi argv
    rw [hrun] at hrun'
    exact Option.some.inj hrun' ▸ hwritten
  cases c with
  | NODENAME => exact node_name_written h
  | UNIVERSE | TIMOPOWER | CHANNELWIDTH | SECONDCHANNEL =>
    exact cmd_web_para_written (fun arg => (rfl : setCopy (_, arg) = [(_, arg)])) h
  | BITSETTING =>
    have hset : ∀ arg, setCopy (CFG_str2id "AKS_SETTINGS", arg) = [] := fun _ => rfl
    have hnone := cmd_web_para_written hset h
    have hcopies : (oneCopy argv fun arg => if (0 : Int) ≤ atoi arg ∧ atoi arg ≤ 1 then [] else []) =
        ([] : List Copy) := by
      unfold oneCopy
      split
      · exact ite_self []
      · rfl
    rw [hcopies] at hnone
    exact hnone
  | DEFAULT => exact absurd rfl hc
  | WNODENAME =>
    rcases argv with _ | ⟨arg, _ | ⟨_, _⟩⟩
    · cases h
      exact Written.refl s
    · cases h
      exact written_write rfl
    · cases h
      exact Written.refl s
  | WUNIVERSE | WTIMOPOWER | WCHANNELWIDTH | WSECONDCHANNEL | WBITSETTING => exact hreload _ _ _ h

/-! ### Runs -/

/-- The record and the flash, and the number of `MON_CMD_REBOOT` sent since the boot. -/
structure Node where
  store : ConfigStore
  reboots : Nat

def step (build_img : Text) (n : Node) : Command → Option Node
  | .cgi P req => (CGI_do_cmd P req n.store).map fun r => ⟨r.store, n.reboots + r.reboot.toNat⟩
  | .atcmd c argv => (c.run build_img argv n.store).map fun r => ⟨r.store, n.reboots⟩

/-- The command asks for a reboot if it changes what the receiver reads.  An AT command asks
for none, so its copies leave that alone, and `AT+DEFAULT` finds the factory settings. -/
def Careful (build_img : Text) (n : Node) : Command → Prop
  | .cgi P req => Announced P req ∨ Quiet P req n.store
  | .atcmd c argv =>
      if c = .DEFAULT then
        argv.length = 1 →
          reception (factoryRecord build_img zeroed) = reception n.store.g_web_config
      else
        reception (applyCopies n.store.g_web_config (c.copies argv)) =
          reception n.store.g_web_config

theorem default_reception {build_img : Text} {argv : List Text} {s : ConfigStore} {r : AtReply}
    (h : cmd_web_para_default build_img argv s = some r)
    (hfactory : argv.length = 1 →
      reception (factoryRecord build_img zeroed) = reception s.g_web_config) :
    reception r.store.g_web_config = reception s.g_web_config := by
  rcases argv with _ | ⟨arg, _ | ⟨_, _⟩⟩
  · cases h
    rfl
  · cases h
    rw [← hfactory rfl]
    exact reception_congr fun x hx hlt => default_record build_img s (by omega) hlt
  · cases h
    rfl

theorem step_reception {build_img : Text} {n n' : Node} {c : Command}
    (h : step build_img n c = some n') (hcareful : Careful build_img n c) :
    n.reboots ≤ n'.reboots ∧ (n'.reboots = n.reboots →
      reception n'.store.g_web_config = reception n.store.g_web_config) := by
  cases c with
  | cgi P req =>
    obtain ⟨r, hrun, rfl⟩ := Option.map_eq_some_iff.mp h
    refine ⟨Nat.le_add_right _ _, fun hsame => CGI_do_cmd_reception hrun hcareful ?_⟩
    cases hreboot : r.reboot with
    | false => rfl
    | true =>
      rw [hreboot] at hsame
      exact absurd hsame (Nat.succ_ne_self n.reboots)
  | atcmd c argv =>
    obtain ⟨r, hrun, rfl⟩ := Option.map_eq_some_iff.mp h
    refine ⟨Nat.le_refl _, fun _ => ?_⟩
    simp only [Careful] at hcareful
    split at hcareful
    · rename_i hc
      rw [hc] at hrun
      exact default_reception hrun hcareful
    · rename_i hc
      rw [reception_written (AtCommand.run_written hc hrun), hcareful]

theorem run_reception {build_img : Text} {n n' : Node} {cmds : List Command}
    (h : Runs.exec (step build_img) n cmds = some n')
    (hcareful : Runs.Each (step build_img) (Careful build_img) n cmds) :
    n.reboots ≤ n'.reboots ∧ (n'.reboots = n.reboots →
      reception n'.store.g_web_config = reception n.store.g_web_config) := by
  induction cmds generalizing n with
  | nil =>
    obtain rfl := Option.some.inj h
    exact ⟨Nat.le_refl _, fun _ => rfl⟩
  | cons c cmds ih =>
    obtain ⟨m, hstep, hrest⟩ := Runs.exec_cons_eq_some.mp h
    obtain ⟨hle, hsame⟩ := step_reception hstep hcareful.1
    obtain ⟨hle', hsame'⟩ := ih hrest (hcareful.2 m hstep)
    refine ⟨hle.trans hle', fun heq => ?_⟩
    rw [hsame' (by omega), hsame (by omega)]

/-- Whenever the receiver that started with the first record no longer fits, a reboot has
been asked for since it last did. -/
def RebootSinceChange (build_img : Text) (s : ConfigStore) (cmds : List Command) : Prop :=
  ∀ before after later n₁ n₂, cmds = before ++ (after ++ later) →
    Runs.exec (step build_img) ⟨s, 0⟩ before = some n₁ →
    Runs.exec (step build_img) n₁ after = some n₂ →
    ¬ Stale s.g_web_config n₁.store.g_web_config → Stale s.g_web_config n₂.store.g_web_config →
      n₁.reboots < n₂.reboots

/-- **Reboots after a change of the protocol or its universe**, in every run of careful
commands. -/
theorem reboot_since_change (build_img : Text) {s : ConfigStore} {cmds : List Command}
    (hcareful : Runs.Each (step build_img) (Careful build_img) ⟨s, 0⟩ cmds) :
    RebootSinceChange build_img s cmds := by
  rintro before after later n₁ n₂ rfl hbefore hafter hfresh hstale
  obtain ⟨hle, hsame⟩ := run_reception hafter (hcareful.drop hbefore).take
  rw [stale_iff, not_not] at hfresh
  rw [stale_iff] at hstale
  refine Nat.lt_of_le_of_ne hle fun heq => hstale ?_
  rw [hsame heq.symm, hfresh]

def sacnStore : ConfigStore :=
  { factoryStore with g_web_config := setField factoryStore.g_web_config .protname (ascii "1") }

def autoRequest : Request := ⟨some (ascii "AUTO_SACN_UNIV=7"), fun _ => none⟩

/-- An AT command that changes something else, and then the universe. -/
def carefulCommands : List Command :=
  [.atcmd .WUNIVERSE [ascii "5"], .cgi quietPlatform autoRequest]

theorem autoRequest_quiet (s : ConfigStore) : Quiet quietPlatform autoRequest s := by
  have hhandler : autoRequest.handler quietPlatform =
      some (.AUTO_SACN_UNIV, ascii "AUTO_SACN_UNIV=7") := by decide +kernel
  have hshort : ∀ w ∈ (Handler.AUTO_SACN_UNIV.textsOf (ascii "AUTO_SACN_UNIV=7")).2,
      w.2.length < 8 := by decide +kernel
  refine ⟨rfl, fun p hp => ?_⟩
  rw [hhandler] at hp
  obtain rfl := Option.some.inj hp
  exact hshort

theorem carefulCommands_careful :
    Runs.Each (step (ascii "AKS")) (Careful (ascii "AKS")) ⟨sacnStore, 0⟩ carefulCommands := by
  refine ⟨?_, fun n _ => ⟨.inr (autoRequest_quiet n.store), fun _ _ => trivial⟩⟩
  rw [Careful, if_neg (by decide)]
  decide +kernel

theorem reboot_since_change_sample :
    RebootSinceChange (ascii "AKS") sacnStore carefulCommands :=
  reboot_since_change (ascii "AKS") carefulCommands_careful

/-- `AT+DEFAULT` puts Art-Net in the place of sACN, and no reboot is asked for. -/
theorem default_without_reboot :
    ¬ ∀ s cmds, RebootSinceChange (ascii "AKS") s cmds := by
  intro hall
  have hreboot := hall sacnStore [.atcmd .DEFAULT [ascii "1"]] [] [.atcmd .DEFAULT [ascii "1"]] []
    _ _ rfl rfl rfl
  exact absurd (hreboot (by decide +kernel) (by decide +kernel)) (Nat.lt_irrefl 0)

end AksFirmware.ConfigReboot
