import AksFirmware.Constellation
import AksFirmware.ScriptText

/-!
# One row of the constellation page

For every entry `CGI_var_map` writes a call `BuildDisplayMsg` with thirteen quoted texts into
the script of the page.  Eleven of them are members of the entry, and for a peer these are
what it announced.  The rows of the update page go through `sc_convert` before they are
quoted; these do not.

So the browser reads the call with the texts as its arguments exactly when no member holds,
as the browser decodes it, a quote, a backslash or a line end, or the end of the script.
-/

namespace AksFirmware.Constellation

open ByteMemory CText WebConfig PeerTable ScriptText

/-! ### The line -/

/-- The arguments of the call in the order they are printed in. -/
def DisplayMsg.texts (m : DisplayMsg) : List Text :=
  [m.name, m.node_name, m.ip_addr, m.protocol, m.art_sub, m.dmxUniverse, m.sacn_uni, m.host_mode,
    m.battery, m.timo_power, m.led_color, m.sort_by, m.this_node]

/-- `WEB_printf` of `BuildDisplayMsg('%s','%s',...);`. -/
def displayLine (m : DisplayMsg) : Text :=
  ascii "BuildDisplayMsg('" ++ m.name ++ ascii "','" ++ m.node_name ++ ascii "','" ++ m.ip_addr ++
    ascii "','" ++ m.protocol ++ ascii "','" ++ m.art_sub ++ ascii "','" ++ m.dmxUniverse ++
    ascii "','" ++ m.sacn_uni ++ ascii "','" ++ m.host_mode ++ ascii "','" ++ m.battery ++
    ascii "','" ++ m.timo_power ++ ascii "','" ++ m.led_color ++ ascii "','" ++ m.sort_by ++
    ascii "','" ++ m.this_node ++ ascii "');\n"

theorem displayLine_eq (m : DisplayMsg) :
    displayLine m = callBytes (ascii "BuildDisplayMsg") m.texts := by
  have hpieces : ∀ opening next closing : Text, opening = ascii "BuildDisplayMsg" ++ [0x28, 0x27] →
      next = [0x27, 0x2c, 0x27] → closing = [0x27, 0x29, 0x3b, 0x0a] →
      opening ++ m.name ++ next ++ m.node_name ++ next ++ m.ip_addr ++ next ++ m.protocol ++ next ++
        m.art_sub ++ next ++ m.dmxUniverse ++ next ++ m.sacn_uni ++ next ++ m.host_mode ++ next ++
        m.battery ++ next ++ m.timo_power ++ next ++ m.led_color ++ next ++ m.sort_by ++ next ++
        m.this_node ++ closing = callBytes (ascii "BuildDisplayMsg") m.texts := by
    rintro opening next closing rfl rfl rfl
    simp only [callBytes, DisplayMsg.texts, argBytes_cons_cons, argBytes_singleton,
      List.append_assoc, List.cons_append, List.nil_append]
  exact hpieces _ _ _ rfl rfl rfl

/-- The browser reads the line as one call with the texts as they are, and the script goes
on behind it. -/
def ReadAsCall (C : Charset) (m : DisplayMsg) : Prop :=
  ¬ EndsScript (C.decode (displayLine m)) ∧
    parseCall (ascii "BuildDisplayMsg" |>.map UInt8.toUInt16) (C.decode (displayLine m)) =
      some (m.texts.map C.decode)

instance (C : Charset) (m : DisplayMsg) : Decidable (ReadAsCall C m) := by
  unfold ReadAsCall; infer_instance

/-- The browser sees nothing in the text that has a meaning in a quoted literal. -/
def Harmless (C : Charset) (s : Text) : Prop :=
  (∀ c ∈ C.decode s, Plain c) ∧ ¬ EndsScript (C.decode s)

theorem readAsCall_iff (C : Charset) (m : DisplayMsg) :
    ReadAsCall C m ↔ ∀ s ∈ m.texts, Harmless C s := by
  have hascii : ∀ c ∈ ascii "BuildDisplayMsg", c.toNat < 0x80 :=
    List.all_iff_forall_prop.mp (by decide)
  have hname : (ascii "BuildDisplayMsg").map UInt8.toUInt16 =
      0x42 :: (ascii "uildDisplayMsg").map UInt8.toUInt16 := rfl
  have htag : ∀ d ∈ 0x42 :: (ascii "uildDisplayMsg").map UInt8.toUInt16, d ≠ 0x3c :=
    List.all_iff_forall_prop.mp (by decide)
  have htexts : m.texts.map C.decode ≠ [] := List.cons_ne_nil _ _
  rw [ReadAsCall, displayLine_eq, C.decode_callBytes hascii, hname,
    callText_read_iff (by decide) (by decide) htag htexts, List.forall_mem_map]
  exact Iff.rfl

/-! ### The texts of an entry -/

section

variable (C : Charset)

theorem harmless_nil : Harmless C [] := by
  rw [Harmless, C.decode_nil]
  exact ⟨fun _ hc => absurd hc List.not_mem_nil, by decide⟩

/-- A byte that changes nothing where it stands before a text. -/
def Tame (c : UInt8) : Prop := c.toNat < 0x80 ∧ Plain c.toUInt16 ∧ c.toUInt16 ≠ 0x3c

instance (c : UInt8) : Decidable (Tame c) := by unfold Tame; infer_instance

theorem harmless_cons {c : UInt8} (hc : Tame c) (s : Text) :
    Harmless C (c :: s) ↔ Harmless C s := by
  obtain ⟨hascii, hplain, hlt⟩ := hc
  rw [Harmless, C.decode_cons hascii, List.forall_mem_cons, endsScript_cons,
    or_iff_right (not_startsEndTag hlt _), and_iff_right hplain, Harmless]

theorem harmless_append {s : Text} (hs : ∀ c ∈ s, Tame c) (s' : Text) :
    Harmless C (s ++ s') ↔ Harmless C s' := by
  induction s with
  | nil => exact Iff.rfl
  | cons c s ih =>
    rw [List.cons_append, harmless_cons C (hs c List.mem_cons_self)]
    exact ih fun d hd => hs d (List.mem_cons_of_mem c hd)

theorem harmless_of_tame {s : Text} (hs : ∀ c ∈ s, Tame c) : Harmless C s := by
  have happend := harmless_append C hs []
  rw [List.append_nil] at happend
  exact happend.mpr (harmless_nil C)

theorem harmless_concat {c : UInt8} (hc : c.toNat < 0x30) (hplain : Plain c.toUInt16)
    (hapart : Apart c.toUInt16) (s : Text) : Harmless C (s ++ [c]) ↔ Harmless C s := by
  have hnil : ¬ EndsScript [] := by decide
  rw [Harmless, C.decode_sep s [] hc, C.decode_nil, endsScript_apart hapart, or_iff_left hnil,
    List.forall_mem_append, List.forall_mem_singleton, and_iff_left hplain, Harmless]

theorem tame_digit {c : UInt8} (h : 48 ≤ c.toNat ∧ c.toNat ≤ 57) : Tame c := by
  have hne : ∀ d : UInt16, d.toNat < 48 ∨ 57 < d.toNat → c.toUInt16 ≠ d := by
    rintro d hd rfl
    rw [UInt8.toNat_toUInt16] at hd
    omega
  exact ⟨by omega, ⟨hne _ (by decide), hne _ (by decide), hne _ (by decide), hne _ (by decide)⟩,
    hne _ (by decide)⟩

theorem harmless_inet_ntoa (ip : InAddr) : Harmless C (inet_ntoa ip) := by
  have hdecimal : ∀ n, ∀ c ∈ decimal n, Tame c := fun n c hc => tame_digit (mem_decimal hc)
  have hdot : ∀ c ∈ ascii ".", Tame c :=
    List.all_iff_forall_prop.mp (by decide)
  refine harmless_of_tame C fun c hc => ?_
  simp only [inet_ntoa, List.mem_append] at hc
  rcases hc with (((((hc | hc) | hc) | hc) | hc) | hc) | hc
  all_goals first | exact hdecimal _ c hc | exact hdot c hc

theorem harmless_consName (k : Nat) : Harmless C (ascii "AKS_CONS" ++ decimal k) := by
  have hname : ∀ c ∈ ascii "AKS_CONS", Tame c :=
    List.all_iff_forall_prop.mp (by decide)
  rw [harmless_append C hname]
  exact harmless_of_tame C fun c hc => tame_digit (mem_decimal hc)

theorem harmless_name (s : Text) :
    Harmless C (if s.length = 0 then ascii "NoName" else s) ↔ Harmless C s := by
  split
  · rename_i hempty
    have hname : ∀ c ∈ ascii "NoName", Tame c :=
      List.all_iff_forall_prop.mp (by decide)
    rw [List.eq_nil_of_length_eq_zero hempty]
    exact iff_of_true (harmless_of_tame C hname) (harmless_nil C)
  · exact Iff.rfl

/-- The percent sign is cut off when the level takes seven bytes. -/
theorem harmless_battery {s : Text} (hs : s.length < 8) :
    Harmless C (ascii "B" ++ clip 8 (s ++ ascii "%")) ↔ Harmless C s := by
  have hb : ∀ c ∈ ascii "B", Tame c :=
    List.all_iff_forall_prop.mp (by decide)
  rw [harmless_append C hb, clip, List.take_append]
  rcases Nat.lt_or_ge s.length 7 with hlt | hge
  · rw [List.take_of_length_le (Nat.le_of_lt hlt), List.take_of_length_le]
    · exact harmless_concat C (by decide) (by decide) (by decide) s
    · simp only [ascii, List.length_map]
      exact Nat.sub_pos_of_lt hlt
  · rw [List.take_of_length_le (Nat.le_of_lt_succ hs), Nat.sub_eq_zero_of_le hge, List.take_zero,
      List.append_nil]

end

/-! ### Every entry -/

/-- The members that the call shows. -/
def shownMembers : List Member :=
  [.node_name, .ip_addr, .protocol, .subnet, .universe, .sacn_univ, .host_mode, .baterry,
    .crmx_power, .led_color, .sort_by]

theorem ageSlot_this_node (new : Bool) (t : Table) (i : Nat) :
    (ageSlot new t i).this_node_ip_address = t.this_node_ip_address := by
  simp only [ageSlot]
  split
  · split
    · rfl
    · split <;> rfl
  · rfl

theorem age_client_list_this_node {N : NodeInfo} {new : Bool} {t t' : Table}
    (h : age_client_list N new t = some t') : t'.this_node_ip_address = N.ownIp := by
  obtain ⟨t₁, hown, rfl⟩ := Option.map_eq_some_iff.mp h
  have hloop : ∀ (is : List Nat) (t : Table),
      (is.foldl (ageSlot new) t).this_node_ip_address = t.this_node_ip_address := by
    intro is
    induction is with
    | nil => exact fun _ => rfl
    | cons i is ih =>
      intro t
      rw [List.foldl_cons, ih, ageSlot_this_node]
  rw [hloop]
  simp only [refreshOwn, Option.bind_eq_bind, Option.bind_eq_some_iff] at hown
  obtain ⟨e, -, hown⟩ := hown
  obtain rfl := Option.some.inj hown
  rfl

/-- The address of the node itself is the text of an address. -/
def OwnAddressText (t : Table) : Prop := ∃ ip, t.this_node_ip_address = inet_ntoa ip

theorem age_client_list_ownAddressText {N : NodeInfo} {new : Bool} {t t' : Table}
    (h : age_client_list N new t = some t') : OwnAddressText t' :=
  ⟨N.ipAddress, (age_client_list_this_node h).trans N.ownIp_eq⟩

theorem step_ownAddressText {t t' : Table} {e : Event} (h : OwnAddressText t)
    (hstep : step t e = some t') : OwnAddressText t' := by
  have hfill : ∀ {N : NodeInfo} {t : Table} {i : Nat} {ws : List Write} {t' : Table},
      fillSlot N t i ws = some t' → OwnAddressText t' := by
    intro N t i ws t' hfill
    simp only [fillSlot, Option.bind_eq_bind, Option.bind_eq_some_iff] at hfill
    obtain ⟨e, -, hage⟩ := hfill
    exact age_client_list_ownAddressText hage
  cases e with
  | tick N => exact age_client_list_ownAddressText hstep
  | announce N sin_addr rcv_msg =>
    simp only [step, populate_new_client] at hstep
    split at hstep
    · exact Option.some.inj hstep ▸ h
    · split at hstep
      · exact hfill hstep
      · split at hstep
        · exact hfill hstep
        · exact Option.some.inj hstep ▸ h

/-- **One row of the page.**  In every table that a run of announcements and ticks reaches,
the browser reads the line of an entry as one call with the texts of the entry exactly when
each of its shown members is harmless. -/
theorem printed_line_iff (C : Charset) {N₀ : NodeInfo} {t₀ t : Table} {events : List Event}
    (hstart : server_start N₀ = some t₀) (hrun : Runs.exec step t₀ events = some t)
    (k client_ptr : Nat) :
    ReadAsCall C (displayMsg (ascii "AKS_CONS" ++ decimal k) t client_ptr) ↔
      ∀ m ∈ shownMembers, Harmless C ((t.client_valid_list client_ptr).member m) := by
  obtain ⟨ip, hown⟩ := Runs.exec_invariant (P := OwnAddressText)
    (fun _ _ _ h hstep => step_ownAddressText h hstep) (age_client_list_ownAddressText hstart) hrun
  have hthis : Harmless C t.this_node_ip_address := hown ▸ harmless_inet_ntoa C ip
  have hbattery := harmless_battery C ((t.client_valid_list client_ptr).fits .baterry)
  rw [readAsCall_iff]
  simp only [DisplayMsg.texts, displayMsg, shownMembers, List.forall_mem_cons, harmless_consName,
    harmless_name, hbattery, hthis, true_and, and_true, List.not_mem_nil, false_imp_iff,
    implies_true]

theorem printed_line_sample :
    ∃ t₀ t, server_start factoryNode = some t₀ ∧
      Runs.exec step t₀ [.announce factoryNode ⟨10, 10, 100, 1⟩ sampleMsg] = some t ∧
        (ReadAsCall latin1 (displayMsg (ascii "AKS_CONS" ++ decimal 2) t 1) ↔
          ∀ m ∈ shownMembers, Harmless latin1 ((t.client_valid_list 1).member m)) := by
  obtain ⟨t₀, hstart⟩ := age_client_list_defined factoryNode_fits true emptyTable
  have hfits : ∀ e ∈ [Event.announce factoryNode ⟨10, 10, 100, 1⟩ sampleMsg], e.Fits := by
    simp [Event.Fits, factoryNode_fits, sampleMsg_fits]
  obtain ⟨t, hrun⟩ := run_defined hfits t₀
  exact ⟨t₀, t, hstart, hrun, printed_line_iff latin1 hstart hrun 2 1⟩

/-- An announcement with quotes in the name. -/
def quotingMsg : Mem := storeText sampleMsg 0 (ascii "');alert(1);('")

def quotingPeer : List Act :=
  [.server (.announce factoryNode ⟨10, 10, 100, 1⟩ quotingMsg), .render factoryNode 1,
    .render factoryNode 2]

/-- The name ends the call and adds one of its own. -/
theorem announced_call_added :
    ∃ t₀ p, server_start factoryNode = some t₀ ∧
      Runs.exec pageStep ⟨t₀, fun _ => none, 0, []⟩ quotingPeer = some p ∧
        ∃ r ∈ p.rows, ¬ ReadAsCall latin1 r.msg ∧
          (displayLine r.msg).take 41 = ascii "BuildDisplayMsg('AKS_CONS1','');alert(1);" := by
  have hcheck : ((server_start factoryNode).bind fun t₀ =>
      (Runs.exec pageStep ⟨t₀, fun _ => none, 0, []⟩ quotingPeer).map fun p =>
        decide (∃ r ∈ p.rows, ¬ ReadAsCall latin1 r.msg ∧
          (displayLine r.msg).take 41 = ascii "BuildDisplayMsg('AKS_CONS1','');alert(1);")) =
        some true := by decide +kernel
  obtain ⟨t₀, hstart, hmap⟩ := Option.bind_eq_some_iff.mp hcheck
  obtain ⟨p, hexec, hrow⟩ := Option.map_eq_some_iff.mp hmap
  exact ⟨t₀, p, hstart, hexec, of_decide_eq_true hrow⟩

end AksFirmware.Constellation
