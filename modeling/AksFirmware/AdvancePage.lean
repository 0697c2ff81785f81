import AksFirmware.PeerTable

/-!
# The firmware page

The page asks for the number of listed nodes, adds so many rows to its table, and then asks
for `CFG_AKS_ADVA1` to `CFG_AKS_ADVA24`, each of which fills one row with an entry of the
valid list.

Each row has two Update buttons, which are printed to the 128 bytes of `cmd_buff` one after
the other.  Such a button has 121 characters besides the address of the node, and an address
has at least seven, so that its zero already lies outside.  Since the node itself is always
listed, no page gets beyond its first row.

The number of nodes goes through a text of two bytes, of which only the first digit arrives.
The ids lie in two ranges as on the constellation page.

What a browser reads between the quotes of a row is a parameter.
-/

namespace AksFirmware.AdvancePage

open ByteMemory CText WebConfig PeerTable

/-! ### What the server writes -/

/-- The ids `CFG_AKS_ADVA1` to `CFG_AKS_ADVA24`. -/
def CFG_AKS_ADVA (k : Nat) : Nat :=
  CFG_USER_ (if k ≤ 16 then 47 + k else 74 + k) CFG_TYPE_STR

/-- A backslash before each quote and backslash. -/
def sc_convert : Text → Text
  | [] => []
  | c :: s =>
      if c = 0x22 ∨ c = 0x27 ∨ c = 0x5c then 0x5c :: c :: sc_convert s else c :: sc_convert s

def fill_space (datarray : Text) (arrlen : Nat) : Text :=
  (datarray ++ List.replicate (arrlen - 1 - datarray.length) 0x20).take (arrlen - 1)

/-- The texts that `get_client_entry_adva` copies out. -/
structure Adva where
  node_name : Text
  ip_addr : Text
  ecos_ver : Text
  samd_ver : Text
  timo_ver : Text
deriving DecidableEq

def Adva.of (e : ClientEnt) : Adva where
  node_name := if (e.member .node_name).length = 0 then ascii "NoName" else e.member .node_name
  ip_addr := e.member .ip_addr
  ecos_ver := e.member .eCos_ver
  samd_ver := e.member .samd_ver
  timo_ver := e.member .timo_ver

/-- The SAMD and the TIMO version fit `universe` and `art_sub`. -/
def Adva.Fits (a : Adva) : Prop := a.samd_ver.length < 4 ∧ a.timo_ver.length < 4

instance (a : Adva) : Decidable a.Fits := by unfold Adva.Fits; infer_instance

/-- `some none` when `-1` is returned. -/
def get_client_entry_adva (t : Table) (idx : Int) : Option (Option Adva) :=
  if idx ≥ t.client_valid_num then some none
  else if idx < 0 then none
  else
    let a := Adva.of (t.client_valid_list idx.toNat)
    if a.Fits then some (some a) else none

def nodeLink (ip_addr node_name : Text) : Text :=
  ascii "<a href=\"http://" ++ ip_addr ++ ascii "\" target=\"_blank\">" ++ node_name ++ ascii "</a>"

def idButton (ip_addr : Text) : Text :=
  ascii "<button type=\"button\" onclick=\"popupCenter('http://" ++ ip_addr ++
    ascii "/EN/id.html', 'myPop1',400,300);\">ID</button>"

def updateButton (form ip_addr : Text) : Text :=
  ascii "<button type=\"button\" onclick=\"updateFirmware(document." ++ form ++ ascii ", 'http://" ++
    ip_addr ++ ascii "/EN/update_firmware.html');\">Update</button>"

/-- A text with spaces behind it. -/
def spaced (s : Text) (room : Nat) : Text := fill_space s (s.length + room)

/-- The four texts of a row. -/
def rowTexts (a : Adva) : List Text :=
  let href_link := nodeLink a.ip_addr a.node_name
  [fill_space href_link (href_link.length + 17 - a.node_name.length) ++ fill_space a.ip_addr 17,
    spaced (idButton a.ip_addr) 5,
    a.ecos_ver ++ ascii " " ++ spaced (updateButton (ascii "Upgrade_eCos") a.ip_addr) 5,
    a.samd_ver ++ ascii " " ++ spaced (updateButton (ascii "Upgrade_SAMD") a.ip_addr) 3]

def CMD_BUFF_SIZE : Nat := 128

/-- The text is printed to `cmd_buff` and filled with spaces there, its zero included. -/
def FitsCmdBuff (s : Text) (room : Nat) : Prop :=
  s.length < CMD_BUFF_SIZE ∧ s.length + room ≤ CMD_BUFF_SIZE

instance (s : Text) (room : Nat) : Decidable (FitsCmdBuff s room) := by
  unfold FitsCmdBuff; infer_instance

/-- What is printed to `cmd_buff` for a row stays within it; the ID button is quoted there. -/
def RowFits (a : Adva) : Prop :=
  FitsCmdBuff (idButton a.ip_addr) 5 ∧
    (sc_convert (spaced (idButton a.ip_addr) 5)).length < CMD_BUFF_SIZE ∧
    FitsCmdBuff (updateButton (ascii "Upgrade_eCos") a.ip_addr) 5 ∧
    FitsCmdBuff (updateButton (ascii "Upgrade_SAMD") a.ip_addr) 3

instance (a : Adva) : Decidable (RowFits a) := by unfold RowFits; infer_instance

/-- A call in the script of the page, with the bytes between its quotes. -/
inductive Call where
  | consAddRow (aks_num : Text)
  | displayMsg (eleID : Text) (strMsg : List Text)
deriving DecidableEq

/-- `CGI_var_map` for the ids that the page asks for; no outcome when `cmd_buff` overruns. -/
def CGI_var_map (g_web_config : Mem) (t : Table) (name : Text) (id : Nat) : Option (List Call) :=
  if id = CFG_AKS_CONS_NUM then
    some [.consAddRow (ratpac_get_str ⟨g_web_config, t.client_valid_num⟩ id).2]
  else
    let base_idx := (CFG_AKS_ADVA 1 >>> 16) &&& 0xff
    let idx : Int := ((id >>> 16) &&& 0xff : Nat) - (base_idx : Int)
    match get_client_entry_adva t idx with
    | none => none
    | some none => some []
    | some (some a) =>
        if RowFits a then some [.displayMsg name ((rowTexts a).map sc_convert)] else none

/-- The id of the element in the `k`-th row, and the name of its request. -/
def rowId (k : Nat) : Text := ascii "AKS_ADVA" ++ decimal k

def requests : List (Text × Nat) :=
  (ascii "AKS_CONS_NUM", CFG_AKS_CONS_NUM) ::
    (List.range' 1 24).map fun k => (rowId k, CFG_AKS_ADVA k)

/-- The script that the requests write. -/
def script (g_web_config : Mem) (t : Table) : List (Text × Nat) → Option (List Call)
  | [] => some []
  | r :: rs => do
      let calls ← CGI_var_map g_web_config t r.1 r.2
      let later ← script g_web_config t rs
      some (calls ++ later)

/-! ### What the browser makes of it -/

structure PageRow where
  id : Text
  innerHTML : Text
deriving DecidableEq

/-- The rows that the script has added to `ADVA_TBL`. -/
abbrev Document := List PageRow

/-- `1*aks_num` rows are added; the text has decimal digits only. -/
def consAddRow (aks_num : Text) (d : Document) : Document :=
  d ++ (List.range' 1 (leadingNumber aks_num)).map fun i => ⟨rowId i, []⟩

/-- `getElementById(eleID).innerHTML = strMsg`: no outcome without such an element. -/
def displayMsg (eleID : Text) (strMsg : Text) : Document → Option Document
  | [] => none
  | r :: d =>
      if r.id = eleID then some ({ r with innerHTML := strMsg } :: d)
      else (displayMsg eleID strMsg d).map (r :: ·)

section Browser

variable (readLiteral : Text → Option Text)

/-- The message is a sum of literals. -/
def runCall (d : Document) : Call → Option Document
  | .consAddRow aks_num => some (consAddRow aks_num d)
  | .displayMsg eleID strMsg =>
      (strMsg.mapM readLiteral).bind fun texts => displayMsg eleID texts.flatten d

/-- The page after its script. -/
def advance (g_web_config : Mem) (t : Table) : Option Document :=
  (script g_web_config t requests).bind fun calls => calls.foldlM (runCall readLiteral) []

end Browser

/-- One row for each listed node, filled with its entry. -/
def shownRows (t : Table) : Document :=
  (List.range t.client_valid_num).map fun k =>
    ⟨rowId (k + 1), (rowTexts (Adva.of (t.client_valid_list k))).flatten⟩

/-! ### The number of rows -/

theorem request_cons_num {g_web_config : Mem} {t : Table} (hnum : t.client_valid_num ≤ 24)
    (name : Text) :
    CGI_var_map g_web_config t name CFG_AKS_CONS_NUM =
      some [.consAddRow (clip 2 (decimal t.client_valid_num))] := by
  have hlookup : getCases.lookup CFG_AKS_CONS_NUM = none := by decide
  have hdigits : ∀ n < 25, clip 2 (decimal n) ≠ [] := by decide
  obtain ⟨c, s, hcount⟩ := List.exists_cons_of_ne_nil (hdigits t.client_valid_num (by omega))
  simp only [CGI_var_map, ratpac_get_str, hlookup, if_true]
  rw [hcount]

/-- Only up to nine nodes get a row each. -/
theorem consAddRow_count_iff {n : Nat} (h : n ≤ 24) :
    (consAddRow (clip 2 (decimal n)) []).length = n ↔ n ≤ 9 := by
  have hall : ∀ n < 25, leadingNumber (clip 2 (decimal n)) = n ↔ n ≤ 9 := by decide
  rw [consAddRow, List.nil_append, List.length_map, List.length_range']
  exact hall n (by omega)

/-! ### The rows -/

theorem seven_le_inet_ntoa (ip : InAddr) : 7 ≤ (inet_ntoa ip).length := by
  have hdigit : ∀ n, 1 ≤ (decimal n).length := fun n => List.length_pos_iff.mpr (decimal_ne_nil n)
  have ha := hdigit ip.a.toNat
  have hb := hdigit ip.b.toNat
  have hc := hdigit ip.c.toNat
  have hd := hdigit ip.d.toNat
  have hdot : (ascii ".").length = 1 := rfl
  simp only [inet_ntoa, List.length_append, hdot]
  omega

/-- No Update button leaves room for its zero in the 128 bytes of `cmd_buff`. -/
theorem updateButton_overruns {form : Text} (hform : form.length = 12) (ip : InAddr) :
    128 ≤ (updateButton form (inet_ntoa ip)).length := by
  have hip := seven_le_inet_ntoa ip
  have hhead : (ascii "<button type=\"button\" onclick=\"updateFirmware(document.").length = 55 := rfl
  have hmid : (ascii ", 'http://").length = 10 := rfl
  have htail : (ascii "/EN/update_firmware.html');\">Update</button>").length = 44 := rfl
  rw [updateButton]
  simp only [List.length_append, hform]
  omega

theorem not_rowFits {a : Adva} {ip : InAddr} (h : a.ip_addr = inet_ntoa ip) : ¬ RowFits a := by
  rintro ⟨-, -, ⟨hlen, -⟩, -⟩
  have hform : (ascii "Upgrade_eCos").length = 12 := rfl
  rw [h] at hlen
  exact absurd hlen (Nat.not_lt.mpr (updateButton_overruns hform ip))

/-- The first entry of the valid list has the address of the node itself. -/
def OwnRow (t : Table) : Prop := ∃ ip, (t.client_valid_list 0).member .ip_addr = inet_ntoa ip

theorem age_client_list_ownRow {N : NodeInfo} {new : Bool} {t t' : Table}
    (h : age_client_list N new t = some t') : OwnRow t' :=
  ⟨N.ipAddress, (age_client_list_spec h).own_ip.trans N.ownIp_eq⟩

theorem my_ip_address_ownRow (N : NodeInfo) (t : Table) : OwnRow (my_ip_address N t) := by
  refine ⟨N.ipAddress, Eq.trans ?_ N.ownIp_eq⟩
  simp [my_ip_address]

theorem fillSlot_ownRow {N : NodeInfo} {t t' : Table} {i : Nat} {ws : List Write}
    (h : fillSlot N t i ws = some t') : OwnRow t' := by
  obtain ⟨e, -, hage⟩ := Option.bind_eq_some_iff.mp h
  exact age_client_list_ownRow hage

theorem step_ownRow {t t' : Table} {e : Event} (h : step t e = some t') : OwnRow t' := by
  cases e with
  | tick N => exact age_client_list_ownRow h
  | announce N sin_addr rcv_msg =>
    simp only [step, populate_new_client] at h
    split at h
    · exact Option.some.inj h ▸ my_ip_address_ownRow N t
    · split at h
      · exact fillSlot_ownRow h
      · split at h
        · exact fillSlot_ownRow h
        · exact Option.some.inj h ▸ my_ip_address_ownRow N t

theorem run_ownRow {N₀ : NodeInfo} {t₀ t : Table} {events : List Event}
    (hstart : server_start N₀ = some t₀) (hrun : Runs.exec step t₀ events = some t) : OwnRow t :=
  Runs.exec_invariant (fun _ _ _ _ hstep => step_ownRow hstep) (age_client_list_ownRow hstart) hrun

/-- The node's own row is never printed. -/
theorem request_own {g_web_config : Mem} {t : Table} (hnum : 1 ≤ t.client_valid_num)
    (hown : OwnRow t) (name : Text) : CGI_var_map g_web_config t name (CFG_AKS_ADVA 1) = none := by
  obtain ⟨ip, hip⟩ := hown
  have hne : CFG_AKS_ADVA 1 ≠ CFG_AKS_CONS_NUM := by decide
  have hrow : ¬ RowFits (Adva.of (t.client_valid_list 0)) := not_rowFits hip
  simp only [CGI_var_map, if_neg hne, Int.sub_self, get_client_entry_adva]
  rw [if_neg (by omega), if_neg (by decide)]
  by_cases hfits : (Adva.of (t.client_valid_list 0)).Fits
  · simp [hfits, hrow]
  · simp [hfits]

theorem script_eq_none {g_web_config : Mem} {t : Table} {rs : List (Text × Nat)} {r : Text × Nat}
    (hr : r ∈ rs) (h : CGI_var_map g_web_config t r.1 r.2 = none) :
    script g_web_config t rs = none := by
  induction rs with
  | nil => exact absurd hr List.not_mem_nil
  | cons q rs ih =>
    rw [script]
    rcases List.mem_cons.mp hr with rfl | hr
    · rw [h]
      rfl
    · rw [ih hr]
      cases CGI_var_map g_web_config t q.1 q.2 <;> rfl

/-! ### The whole page -/

/-- **The firmware page.**  In no table that a run of announcements and ticks reaches does the
page get a row for each listed node, filled with its entry. -/
theorem advance_page_never (readLiteral : Text → Option Text) (g_web_config : Mem)
    {N₀ : NodeInfo} {t₀ t : Table} {events : List Event} (hstart : server_start N₀ = some t₀)
    (hrun : Runs.exec step t₀ events = some t) :
    advance readLiteral g_web_config t ≠ some (shownRows t) := by
  have hnum := (run_tracks (server_start_tracks hstart) hrun).listed.1
  have hfirst : (rowId 1, CFG_AKS_ADVA 1) ∈ requests :=
    List.mem_cons_of_mem _ (List.mem_map.mpr ⟨1, by decide, rfl⟩)
  have hscript : script g_web_config t requests = none :=
    script_eq_none hfirst (request_own hnum (run_ownRow hstart hrun) _)
  rw [advance, hscript]
  exact Option.some_ne_none _ |>.symm

/-- The value of a literal of one line in which quotes and backslashes are escaped; the first
argument tells whether a backslash has just been read. -/
def readEscaped : Bool → Text → Option Text
  | false, [] => some []
  | true, [] => none
  | true, c :: s => (readEscaped false s).map (c :: ·)
  | false, c :: s =>
      if c = 0x5c then readEscaped true s
      else if c = 0x27 ∨ c = 0x0a ∨ c = 0x0d then none
      else (readEscaped false s).map (c :: ·)

theorem readEscaped_sc_convert {s : Text} (hs : ∀ c ∈ s, c ≠ 0x0a ∧ c ≠ 0x0d) :
    readEscaped false (sc_convert s) = some s := by
  induction s with
  | nil => rfl
  | cons c s ih =>
    obtain ⟨⟨hlf, hcr⟩, hs⟩ := List.forall_mem_cons.mp hs
    rw [sc_convert]
    split
    · rw [readEscaped, if_pos rfl, readEscaped, ih hs]
      rfl
    · rename_i hspecial
      obtain ⟨-, hspecial⟩ := not_or.mp hspecial
      obtain ⟨hquote, hbackslash⟩ := not_or.mp hspecial
      rw [readEscaped, if_neg hbackslash, if_neg (by simp [hquote, hlf, hcr]), ih hs]
      rfl

theorem advance_page_sample :
    ∃ t₀ t, server_start factoryNode = some t₀ ∧
      Runs.exec step t₀ [.announce factoryNode ⟨10, 10, 100, 1⟩ sampleMsg] = some t ∧
        advance (readEscaped false) factoryNode.g_web_config t ≠ some (shownRows t) := by
  obtain ⟨t₀, hstart⟩ := age_client_list_defined factoryNode_fits true emptyTable
  have hfits : ∀ e ∈ [Event.announce factoryNode ⟨10, 10, 100, 1⟩ sampleMsg], e.Fits := by
    simp [Event.Fits, factoryNode_fits, sampleMsg_fits]
  obtain ⟨t, hrun⟩ := run_defined hfits t₀
  exact ⟨t₀, t, hstart, hrun,
    advance_page_never (readEscaped false) factoryNode.g_web_config hstart hrun⟩

/-- A node on its own, with one entry on its list: its row is not printed. -/
theorem lone_node_no_row :
    ∃ t₀, server_start factoryNode = some t₀ ∧ t₀.client_valid_num = 1 ∧
      advance (readEscaped false) factoryNode.g_web_config t₀ ≠ some (shownRows t₀) := by
  obtain ⟨t₀, hstart⟩ := age_client_list_defined factoryNode_fits true emptyTable
  have hnum : t₀.client_valid_num = 1 :=
    (server_start_tracks hstart).num_eq List.nodup_nil (by simp)
  have hscript : script factoryNode.g_web_config t₀ requests = none :=
    script_eq_none (List.mem_cons_of_mem _ (List.mem_map.mpr ⟨1, by decide, rfl⟩))
      (request_own hnum.ge (age_client_list_ownRow hstart) _)
  refine ⟨t₀, hstart, hnum, ?_⟩
  rw [advance, hscript]
  exact Option.some_ne_none _ |>.symm

end AksFirmware.AdvancePage
