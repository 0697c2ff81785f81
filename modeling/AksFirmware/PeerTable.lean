import AksFirmware.ConfigFlash
import AksFirmware.Runs
import AksFirmware.Leases
import Mathlib.Data.List.Nodup

/-!
# The peer table

Every node announces itself on the constellation port.  `populate_new_client` enters
the announcement into a slot of `client_list`, `age_client_list` counts the slots down
and rebuilds `client_valid_list`, the list that the pages show.  Slot 0 of both belongs
to the node itself.

Entries are records of texts here: a text that does not fit its member, or a format
that is undefined, has no outcome.  What the code does there is the subject of
`PeerMemory`, which works on the bytes.
-/

namespace AksFirmware.PeerTable

open ByteMemory CText WebConfig

def MAX_NUM_ENTRY : Nat := 24
def AGE_COUNT : Int := 3
def MAX_MSG : Nat := 108

/-! ### Entries -/

/-- The text members of `struct client_ent`. -/
inductive Member where
  | node_name | ip_addr | universe | subnet | baterry | eCos_ver | samd_ver | timo_ver
  | sacn_univ | sort_by | crmx_power | host_mode | protocol | led_color
deriving DecidableEq, Repr

def Member.size : Member → Nat
  | .node_name => 20
  | .ip_addr => 20
  | .universe => 4
  | .subnet => 4
  | .baterry => 8
  | .eCos_ver => 8
  | .samd_ver => 8
  | .timo_ver => 8
  | .sacn_univ => 8
  | .sort_by => 4
  | .crmx_power => 4
  | .host_mode => 4
  | .protocol => 4
  | .led_color => 8

/-- `struct client_ent`: every text fits its member. -/
structure ClientEnt where
  member : Member → Text
  age_cnt : Int
  fits : ∀ m, (member m).length < m.size

def ClientEnt.set (e : ClientEnt) (m : Member) (s : Text) (h : s.length < m.size) : ClientEnt where
  member := Function.update e.member m s
  age_cnt := e.age_cnt
  fits := by
    intro m'
    by_cases hm : m' = m
    · subst hm
      simpa using h
    · simpa [Function.update_of_ne hm] using e.fits m'

@[simp] theorem ClientEnt.set_member (e : ClientEnt) (m : Member) (s : Text)
    (h : s.length < m.size) : (e.set m s h).member = Function.update e.member m s := rfl

@[simp] theorem ClientEnt.set_age_cnt (e : ClientEnt) (m : Member) (s : Text)
    (h : s.length < m.size) : (e.set m s h).age_cnt = e.age_cnt := rfl

/-- An entry in static storage. -/
def ClientEnt.blank : ClientEnt where
  member := fun _ => []
  age_cnt := 0
  fits := by intro m; cases m <;> decide

/-- A text and the member it is printed to; no text when its format is undefined. -/
abbrev Write := Member × Option Text

def ClientEnt.put (e : ClientEnt) (w : Write) : Option ClientEnt := do
  let s ← w.2
  if h : s.length < w.1.size then some (e.set w.1 s h) else none

def ClientEnt.putAll (e : ClientEnt) (ws : List Write) : Option ClientEnt :=
  ws.foldlM ClientEnt.put e

def Fits (w : Write) : Prop := ∃ s, w.2 = some s ∧ s.length < w.1.size

instance (w : Write) : Decidable (Fits w) :=
  decidable_of_iff (∃ s ∈ w.2, s.length < w.1.size) (by simp [Fits])

/-! ### Messages -/

/-- `%s` of the text at an offset of the message; no zero before the end of the message
leaves the outcome undefined. -/
def plainAt (msg : Mem) (a : Nat) : Option Text :=
  if Terminated msg a (MAX_MSG - a) then some (text msg a (MAX_MSG - a)) else none

/-- The text at an offset of the message used as a format. -/
def formatAt (msg : Mem) (a : Nat) : Option Text := (plainAt msg a).bind printf

/-- The members that are printed with the message as the format, and where it is read. -/
def formatWrites : List (Member × Nat) :=
  [(.universe, 20), (.subnet, 24), (.baterry, 30), (.eCos_ver, 40), (.samd_ver, 48),
    (.timo_ver, 56), (.sacn_univ, 64), (.protocol, 72), (.crmx_power, 76), (.sort_by, 80),
    (.host_mode, 84), (.led_color, 90)]

/-- The writes of `populate_new_client` to a slot it refreshes. -/
def refreshWrites (msg : Mem) : List Write :=
  (.node_name, plainAt msg 0) :: formatWrites.map fun p => (p.1, formatAt msg p.2)

/-- The writes of `populate_new_client` to a free slot. -/
def insertWrites (ip_ad : Text) (msg : Mem) : List Write :=
  (.node_name, plainAt msg 0) :: (.ip_addr, some ip_ad) ::
    formatWrites.map fun p => (p.1, formatAt msg p.2)

/-! ### The node itself -/

/-- What the table routines read about the node. -/
structure NodeInfo where
  g_web_config : Mem
  battery_info : Text
  eCos_ver : Text
  samd_ver : Text
  timo_ver : Text
  operation_mode : Nat
  ipAddress : InAddr

/-- `ratpac_get_str` into `char tmp_buff[20]`. -/
def NodeInfo.configText (N : NodeInfo) (client_valid_num id : Nat) : Option Text :=
  let tmp_buff := (ratpac_get_str ⟨N.g_web_config, client_valid_num⟩ id).2
  if tmp_buff.length < 20 then some tmp_buff else none

/-- The writes of `age_client_list` to slot 0.  All but the name use the configured text
as the format. -/
def NodeInfo.ownWrites (N : NodeInfo) (client_valid_num : Nat) : List Write :=
  let get := N.configText client_valid_num
  [(.node_name, get (CFG_str2id "AKS_NAME")),
    (.universe, (get (CFG_str2id "AKS_UNIVERSE")).bind printf),
    (.subnet, (get (CFG_str2id "AKS_SUBNET")).bind printf),
    (.sacn_univ, (get CFG_SACN_UNIV).bind printf),
    (.sort_by, (get CFG_SORT_BY).bind printf),
    (.crmx_power, (get CFG_TIMO_POWER).bind printf),
    (.protocol, (get CFG_PROTNAME).bind printf),
    (.led_color, (get CFG_LED_COLOR).bind printf),
    (.eCos_ver, some N.eCos_ver), (.samd_ver, some N.samd_ver), (.timo_ver, some N.timo_ver),
    (.host_mode, some (decimal N.operation_mode))]

/-- The node's address as `snprintf(.., 20, ..)` leaves it. -/
def NodeInfo.ownIp (N : NodeInfo) : Text := clip 20 (inet_ntoa N.ipAddress)

theorem NodeInfo.ownIp_fits (N : NodeInfo) : N.ownIp.length < Member.ip_addr.size :=
  clip_length_lt (by decide) _

theorem NodeInfo.battery_fits (N : NodeInfo) :
    (clip 7 N.battery_info).length < Member.baterry.size :=
  Nat.lt_trans (clip_length_lt (by decide) _) (by decide)

/-! ### The table -/

structure Table where
  client_list : Nat → ClientEnt
  client_valid_list : Nat → ClientEnt
  client_valid_num : Nat
  this_node_ip_address : Text

/-- The slots of the peers, in the order of the loops. -/
def slots : List Nat := List.range' 1 (MAX_NUM_ENTRY - 1)

def Table.live (t : Table) (i : Nat) : Bool := decide ((t.client_list i).age_cnt > 0)

def Table.ip (t : Table) (i : Nat) : Text := (t.client_list i).member .ip_addr

def Table.setEntry (t : Table) (i : Nat) (e : ClientEnt) : Table :=
  { t with client_list := Function.update t.client_list i e }

def save_valid_client_entry (t : Table) (i : Nat) : Table :=
  { t with
    client_valid_list := Function.update t.client_valid_list t.client_valid_num (t.client_list i)
    client_valid_num := t.client_valid_num + 1 }

/-- The part of `age_client_list` before its loop: slot 0. -/
def refreshOwn (N : NodeInfo) (t : Table) : Option Table := do
  let e ← (t.client_list 0).putAll (N.ownWrites t.client_valid_num)
  let own : ClientEnt := { e with age_cnt := 3 }
  let shown := (own.set .baterry (clip 7 N.battery_info) N.battery_fits).set .ip_addr N.ownIp
    N.ownIp_fits
  some { client_list := Function.update t.client_list 0 own
         client_valid_list := Function.update t.client_valid_list 0 shown
         client_valid_num := 1
         this_node_ip_address := N.ownIp }

/-- The body of the loop of `age_client_list`. -/
def ageSlot (new : Bool) (t : Table) (i : Nat) : Table :=
  let e := t.client_list i
  if e.age_cnt > 0 then
    if new then save_valid_client_entry t i
    else
      let t := t.setEntry i { e with age_cnt := e.age_cnt - 1 }
      if e.age_cnt - 1 > 0 then save_valid_client_entry t i else t
  else t

def age_client_list (N : NodeInfo) (new : Bool) (t : Table) : Option Table :=
  (refreshOwn N t).map fun t => slots.foldl (ageSlot new) t

def my_ip_address (N : NodeInfo) (t : Table) : Table :=
  { t with
    client_valid_list := Function.update t.client_valid_list 0
      ((t.client_valid_list 0).set .ip_addr N.ownIp N.ownIp_fits) }

def fillSlot (N : NodeInfo) (t : Table) (i : Nat) (ws : List Write) : Option Table := do
  let e ← (t.client_list i).putAll ws
  age_client_list N true (t.setEntry i { e with age_cnt := AGE_COUNT })

def populate_new_client (N : NodeInfo) (ip_ad : Text) (rcv_msg : Mem) (t : Table) :
    Option Table :=
  let t := my_ip_address N t
  if strcmp ((t.client_valid_list 0).member .ip_addr) ip_ad = 0 then some t
  else
    match slots.find? fun i => strcmp (t.ip i) ip_ad = 0 && t.live i with
    | some i => fillSlot N t i (refreshWrites rcv_msg)
    | none =>
        match slots.find? fun i => (t.client_list i).age_cnt = 0 with
        | some i => fillSlot N t i (insertWrites ip_ad rcv_msg)
        | none => some t

/-! ### Runs of the table -/

/-- The table in static storage, as `server_thread_main` prepares it. -/
def emptyTable : Table where
  client_list := Function.update (fun _ => .blank) 0
    (ClientEnt.blank.set .ip_addr (ascii "10.10.100.254") (by decide))
  client_valid_list := fun _ => .blank
  client_valid_num := 0
  this_node_ip_address := []

/-- The table when `server_thread_main` enters its loop. -/
def server_start (N : NodeInfo) : Option Table := age_client_list N true emptyTable

/-- What happens to the table: an announcement, or two seconds passing. -/
inductive Event where
  | announce (N : NodeInfo) (sin_addr : InAddr) (rcv_msg : Mem)
  | tick (N : NodeInfo)

def step (t : Table) : Event → Option Table
  | .announce N sin_addr rcv_msg => populate_new_client N (inet_ntoa sin_addr) rcv_msg t
  | .tick N => age_client_list N false t

/-! ### Writing an entry -/

theorem ClientEnt.put_eq_some {e e' : ClientEnt} {w : Write} :
    e.put w = some e' ↔ ∃ s h, w.2 = some s ∧ e' = e.set w.1 s h := by
  simp [ClientEnt.put, Option.bind_eq_some_iff, eq_comm (a := e')]

theorem ClientEnt.putAll_cons {e e' : ClientEnt} {w : Write} {ws : List Write} :
    e.putAll (w :: ws) = some e' ↔ ∃ e₁, e.put w = some e₁ ∧ e₁.putAll ws = some e' := by
  simp [ClientEnt.putAll, List.foldlM_cons, Option.bind_eq_some_iff]

theorem ClientEnt.putAll_defined (e : ClientEnt) {ws : List Write} (h : ∀ w ∈ ws, Fits w) :
    ∃ e', e.putAll ws = some e' := by
  induction ws generalizing e with
  | nil => exact ⟨e, rfl⟩
  | cons w ws ih =>
    obtain ⟨s, hs, hlen⟩ := h w List.mem_cons_self
    obtain ⟨e', he'⟩ := ih (e.set w.1 s hlen) fun w' hw' => h w' (List.mem_cons_of_mem w hw')
    exact ⟨e', ClientEnt.putAll_cons.mpr ⟨_, ClientEnt.put_eq_some.mpr ⟨s, hlen, hs, rfl⟩, he'⟩⟩

theorem ClientEnt.putAll_frame {e e' : ClientEnt} {ws : List Write} (h : e.putAll ws = some e') :
    e'.age_cnt = e.age_cnt ∧ ∀ m, (∀ w ∈ ws, w.1 ≠ m) → e'.member m = e.member m := by
  induction ws generalizing e with
  | nil =>
    cases Option.some.inj h
    exact ⟨rfl, fun _ _ => rfl⟩
  | cons w ws ih =>
    obtain ⟨e₁, hput, hrest⟩ := ClientEnt.putAll_cons.mp h
    obtain ⟨s, hlen, -, rfl⟩ := ClientEnt.put_eq_some.mp hput
    obtain ⟨hage, hmem⟩ := ih hrest
    refine ⟨hage, fun m hm => ?_⟩
    rw [hmem m fun w' hw' => hm w' (List.mem_cons_of_mem w hw')]
    exact Function.update_of_ne (hm w List.mem_cons_self).symm _ _

theorem ClientEnt.putAll_last {e e' : ClientEnt} {pre post : List Write} {m : Member} {s : Text}
    (h : e.putAll (pre ++ (m, some s) :: post) = some e') (hpost : ∀ w ∈ post, w.1 ≠ m) :
    e'.member m = s := by
  induction pre generalizing e with
  | nil =>
    obtain ⟨e₁, hput, hrest⟩ := ClientEnt.putAll_cons.mp h
    obtain ⟨s', hlen, hs, rfl⟩ := ClientEnt.put_eq_some.mp hput
    rw [(ClientEnt.putAll_frame hrest).2 m hpost]
    simpa using (Option.some.inj hs).symm
  | cons w pre ih =>
    obtain ⟨e₁, -, hrest⟩ := ClientEnt.putAll_cons.mp h
    exact ih hrest

theorem formatWrites_ne_ip (msg : Mem) :
    ∀ w ∈ formatWrites.map fun p => ((p.1, formatAt msg p.2) : Write), w.1 ≠ .ip_addr := by
  intro w hw
  have hall : ∀ p ∈ formatWrites, p.1 ≠ .ip_addr := by decide
  obtain ⟨p, hp, rfl⟩ := List.mem_map.mp hw
  exact hall p hp

/-! ### Aging -/

/-- An entry after its turn in the loop of `age_client_list`. -/
def aged (new : Bool) (e : ClientEnt) : ClientEnt :=
  if e.age_cnt > 0 ∧ new = false then { e with age_cnt := e.age_cnt - 1 } else e

def peers (t : Table) : List ClientEnt :=
  (List.range' 1 (t.client_valid_num - 1)).map t.client_valid_list

theorem peers_save {t : Table} (h : 1 ≤ t.client_valid_num) (i : Nat) :
    peers (save_valid_client_entry t i) = peers t ++ [t.client_list i] := by
  obtain ⟨n, hn⟩ := Nat.exists_eq_add_of_le h
  have hrange : List.range' 1 (t.client_valid_num + 1 - 1) =
      List.range' 1 (t.client_valid_num - 1) ++ [t.client_valid_num] := by
    rw [hn, Nat.add_sub_cancel, Nat.add_sub_cancel_left, Nat.add_comm 1 n, List.range'_concat]
    simp [Nat.add_comm]
  simp only [peers, save_valid_client_entry, hrange, List.map_append, List.map_singleton,
    Function.update_self]
  congr 1
  apply List.map_congr_left
  intro k hk
  have := List.mem_range'_1.mp hk
  exact Function.update_of_ne (by omega) _ _

theorem ageSlot_eq (new : Bool) (t : Table) (i : Nat) :
    ageSlot new t i =
      if (aged new (t.client_list i)).age_cnt > 0 then
        save_valid_client_entry (t.setEntry i (aged new (t.client_list i))) i
      else t.setEntry i (aged new (t.client_list i)) := by
  by_cases hlive : (t.client_list i).age_cnt > 0
  · cases new with
    | true => simp [ageSlot, aged, hlive, Table.setEntry]
    | false => simp [ageSlot, aged, hlive]
  · simp [ageSlot, aged, hlive, Table.setEntry]

/-- Between two states of a loop that only appends to the valid list. -/
structure Extends (t t' : Table) : Prop where
  num_le : t.client_valid_num ≤ t'.client_valid_num
  own : t'.client_valid_list 0 = t.client_valid_list 0
  beyond : ∀ p, t'.client_valid_num ≤ p → t'.client_valid_list p = t.client_valid_list p

theorem Extends.trans {t t' t'' : Table} (h : Extends t t') (h' : Extends t' t'') :
    Extends t t'' :=
  ⟨h.num_le.trans h'.num_le, h'.own.trans h.own,
    fun p hp => (h'.beyond p hp).trans (h.beyond p (h'.num_le.trans hp))⟩

theorem ageSlot_spec (new : Bool) {t : Table} (h : 1 ≤ t.client_valid_num) (i : Nat) :
    (ageSlot new t i).client_list =
        Function.update t.client_list i (aged new (t.client_list i)) ∧
      Extends t (ageSlot new t i) ∧
      peers (ageSlot new t i) = peers t ++
        if (aged new (t.client_list i)).age_cnt > 0 then [aged new (t.client_list i)] else [] := by
  rw [ageSlot_eq]
  split
  · refine ⟨rfl, ⟨Nat.le_succ _, Function.update_of_ne (by simp [Table.setEntry]; omega) _ _,
      fun p hp => Function.update_of_ne ?_ _ _⟩, ?_⟩
    · simp only [save_valid_client_entry, Table.setEntry] at hp ⊢
      omega
    · rw [peers_save (t := t.setEntry i (aged new (t.client_list i))) h]
      simp [Table.setEntry, peers]
  · exact ⟨rfl, ⟨Nat.le_refl _, rfl, fun _ _ => rfl⟩, (List.append_nil _).symm⟩

/-- The loop of `age_client_list` over any run of distinct slots. -/
theorem ageLoop (new : Bool) {t : Table} (h : 1 ≤ t.client_valid_num) {is : List Nat}
    (hnodup : is.Nodup) :
    (∀ i, (is.foldl (ageSlot new) t).client_list i =
        if i ∈ is then aged new (t.client_list i) else t.client_list i) ∧
      Extends t (is.foldl (ageSlot new) t) ∧
      peers (is.foldl (ageSlot new) t) = peers t ++
        ((is.map fun i => aged new (t.client_list i)).filter fun e => e.age_cnt > 0) := by
  induction is generalizing t with
  | nil => exact ⟨by simp, ⟨Nat.le_refl _, rfl, fun _ _ => rfl⟩, by simp⟩
  | cons i is ih =>
    obtain ⟨hi, hnodup⟩ := List.nodup_cons.mp hnodup
    obtain ⟨hlist, hext, hpeers⟩ := ageSlot_spec new h i
    obtain ⟨hlist', hext', hpeers'⟩ := ih (h.trans hext.num_le) hnodup
    have hrest : ∀ j ∈ is, (ageSlot new t i).client_list j = t.client_list j := by
      intro j hj
      rw [hlist]
      exact Function.update_of_ne (fun heq : j = i => hi (heq ▸ hj)) _ _
    refine ⟨fun j => ?_, hext.trans hext', ?_⟩
    · rw [List.foldl_cons, hlist' j, hlist]
      by_cases hji : j = i
      · subst hji
        simp [hi]
      · simp [hji]
    · rw [List.foldl_cons, hpeers', hpeers, List.map_cons, List.filter_cons, List.append_assoc]
      congr 1
      rw [List.map_congr_left fun j hj => by rw [hrest j hj]]
      split <;> simp_all

/-! ### The valid list and the slots -/

/-- The valid list holds the live slots, in order, behind the node itself. -/
def Listed (t : Table) : Prop :=
  1 ≤ t.client_valid_num ∧ peers t = (slots.map t.client_list).filter fun e => e.age_cnt > 0

theorem mem_slots {i : Nat} : i ∈ slots ↔ 1 ≤ i ∧ i < MAX_NUM_ENTRY := by
  simp [slots, MAX_NUM_ENTRY, List.mem_range'_1]

theorem slots_nodup : slots.Nodup := List.nodup_range'

theorem refreshOwn_spec {N : NodeInfo} {t t' : Table} (h : refreshOwn N t = some t') :
    (∀ i ∈ slots, t'.client_list i = t.client_list i) ∧ (t'.client_list 0).age_cnt = 3 ∧
      (t'.client_valid_list 0).member .ip_addr = N.ownIp ∧ t'.client_valid_num = 1 ∧
      ∀ p, 1 ≤ p → t'.client_valid_list p = t.client_valid_list p := by
  simp only [refreshOwn, Option.bind_eq_bind, Option.bind_eq_some_iff] at h
  obtain ⟨e, -, h⟩ := h
  obtain rfl := Option.some.inj h
  refine ⟨fun i hi => Function.update_of_ne ?_ _ _, by simp, by simp, rfl,
    fun p hp => Function.update_of_ne (by omega) _ _⟩
  have := mem_slots.mp hi
  omega

/-- What `age_client_list` does, whatever slot 0 held before. -/
structure Rebuilt (N : NodeInfo) (new : Bool) (t t' : Table) : Prop where
  entry : ∀ i ∈ slots, t'.client_list i = aged new (t.client_list i)
  own_age : (t'.client_list 0).age_cnt = 3
  own_ip : (t'.client_valid_list 0).member .ip_addr = N.ownIp
  listed : Listed t'
  beyond : ∀ p, t'.client_valid_num ≤ p → t'.client_valid_list p = t.client_valid_list p

theorem age_client_list_spec {N : NodeInfo} {new : Bool} {t t' : Table}
    (h : age_client_list N new t = some t') : Rebuilt N new t t' := by
  simp only [age_client_list, Option.map_eq_some_iff] at h
  obtain ⟨t₀, hown, rfl⟩ := h
  obtain ⟨hsame, hage, hip, hnum₀, hvalid⟩ := refreshOwn_spec hown
  obtain ⟨hlist, hext, hpeers⟩ := ageLoop new hnum₀.ge slots_nodup
  have hentry : ∀ i ∈ slots,
      (slots.foldl (ageSlot new) t₀).client_list i = aged new (t.client_list i) := by
    intro i hi
    rw [hlist, if_pos hi, hsame i hi]
  have hnum : 1 ≤ (slots.foldl (ageSlot new) t₀).client_valid_num := hnum₀ ▸ hext.num_le
  refine ⟨hentry, ?_, by rw [hext.own, hip], ⟨hnum, ?_⟩, fun p hp => ?_⟩
  · rw [hlist, if_neg (by decide), hage]
  · rw [hpeers, List.map_congr_left hentry, peers, hnum₀]
    simp only [Nat.sub_self, List.range'_zero, List.map_nil, List.nil_append]
    rw [List.map_congr_left fun i hi => by rw [hsame i hi]]
  · rw [hext.beyond p hp, hvalid p (hnum.trans hp)]

theorem NodeInfo.ownIp_eq (N : NodeInfo) : N.ownIp = inet_ntoa N.ipAddress := by
  have := inet_ntoa_length N.ipAddress
  exact List.take_of_length_le (by omega)

/-- Filling a slot changes no other slot, restarts its age and rebuilds the valid list. -/
structure Filled (t : Table) (i : Nat) (ws : List Write) (t' : Table) : Prop where
  entry : ∃ e, (t.client_list i).putAll ws = some e ∧
    t'.client_list i = { e with age_cnt := AGE_COUNT }
  other : ∀ j ∈ slots, j ≠ i → t'.client_list j = t.client_list j
  own_age : (t'.client_list 0).age_cnt = 3
  listed : Listed t'
  beyond : ∀ p, t'.client_valid_num ≤ p → t'.client_valid_list p = t.client_valid_list p

theorem fillSlot_spec {N : NodeInfo} {t t' : Table} {i : Nat} {ws : List Write} (hi : i ∈ slots)
    (h : fillSlot N t i ws = some t') : Filled t i ws t' := by
  simp only [fillSlot, Option.bind_eq_bind, Option.bind_eq_some_iff] at h
  obtain ⟨e, hput, hage⟩ := h
  have hrebuilt := age_client_list_spec hage
  have hsame : ∀ j ∈ slots, t'.client_list j =
      Function.update t.client_list i { e with age_cnt := AGE_COUNT } j := by
    intro j hj
    rw [hrebuilt.entry j hj]
    exact if_neg (by simp)
  refine ⟨⟨e, hput, ?_⟩, fun j hj hne => ?_, hrebuilt.own_age, hrebuilt.listed, hrebuilt.beyond⟩
  · rw [hsame i hi, Function.update_self]
  · rw [hsame j hj, Function.update_of_ne hne]

/-! ### Announcements -/

/-- The announcement is entered into the table: its sender is not the node itself, and it
is listed already or a slot is free. -/
def Accepts (N : NodeInfo) (t : Table) (ip_ad : Text) : Prop :=
  ip_ad ≠ N.ownIp ∧
    ((∃ i ∈ slots, t.live i = true ∧ t.ip i = ip_ad) ∨
      ∃ i ∈ slots, (t.client_list i).age_cnt = 0)

instance (N : NodeInfo) (t : Table) (ip_ad : Text) : Decidable (Accepts N t ip_ad) := by
  unfold Accepts; infer_instance

def NodeInfo.Fits (N : NodeInfo) : Prop := ∀ n, ∀ w ∈ N.ownWrites n, PeerTable.Fits w

theorem NodeInfo.ownWrites_eq (N : NodeInfo) (n : Nat) : N.ownWrites n = N.ownWrites 0 := rfl

def MessageFits (rcv_msg : Mem) : Prop := ∀ w ∈ refreshWrites rcv_msg, PeerTable.Fits w

theorem age_client_list_defined {N : NodeInfo} (hN : N.Fits) (new : Bool) (t : Table) :
    ∃ t', age_client_list N new t = some t' := by
  obtain ⟨e, he⟩ := ClientEnt.putAll_defined (t.client_list 0) (hN t.client_valid_num)
  simp [age_client_list, refreshOwn, he]

theorem fillSlot_defined {N : NodeInfo} (hN : N.Fits) (t : Table) (i : Nat) {ws : List Write}
    (hws : ∀ w ∈ ws, PeerTable.Fits w) : ∃ t', fillSlot N t i ws = some t' := by
  obtain ⟨e, he⟩ := ClientEnt.putAll_defined (t.client_list i) hws
  obtain ⟨t', ht'⟩ := age_client_list_defined hN true
    (t.setEntry i { e with age_cnt := AGE_COUNT })
  exact ⟨t', by simp [fillSlot, he, ht']⟩

theorem insertWrites_fit {ip_ad : Text} {rcv_msg : Mem} (hlen : ip_ad.length < 20)
    (h : MessageFits rcv_msg) : ∀ w ∈ insertWrites ip_ad rcv_msg, PeerTable.Fits w := by
  intro w hw
  simp only [insertWrites, List.mem_cons] at hw
  rcases hw with rfl | rfl | hw
  · exact h _ List.mem_cons_self
  · exact ⟨ip_ad, rfl, hlen⟩
  · exact h w (List.mem_cons_of_mem _ hw)

/-! ### The slots as leases -/

/-- The table agrees with the remaining life of every address. -/
structure Tracks (t : Table) (life : Text → Nat) : Prop where
  listed : Listed t
  bound : ∀ i < MAX_NUM_ENTRY,
    0 ≤ (t.client_list i).age_cnt ∧ (t.client_list i).age_cnt ≤ AGE_COUNT
  life_eq : ∀ i ∈ slots, t.live i = true → (life (t.ip i) : Int) = (t.client_list i).age_cnt
  covered : ∀ ip, 0 < life ip → ∃ i ∈ slots, t.live i = true ∧ t.ip i = ip
  distinct : ∀ i ∈ slots, ∀ j ∈ slots, t.live i = true → t.live j = true → t.ip i = t.ip j → i = j
  clean : ∀ i ∈ slots, (0 : UInt8) ∉ t.ip i

theorem live_iff {t : Table} {i : Nat} : t.live i = true ↔ 0 < (t.client_list i).age_cnt := by
  simp [Table.live]

theorem live_of_entry_eq {t t' : Table} {i : Nat} (h : t'.client_list i = t.client_list i) :
    t'.live i = t.live i := by
  rw [Table.live, h, Table.live]

theorem ip_of_entry_eq {t t' : Table} {i : Nat} (h : t'.client_list i = t.client_list i) :
    t'.ip i = t.ip i := by
  rw [Table.ip, h, Table.ip]

section Rebuilt

variable {N : NodeInfo} {t t' : Table} {i : Nat}

theorem Rebuilt.ip_eq {new : Bool} (h : Rebuilt N new t t') (hi : i ∈ slots) :
    t'.ip i = t.ip i := by
  rw [Table.ip, h.entry i hi, aged]
  split <;> rfl

theorem Rebuilt.age_eq (h : Rebuilt N false t t') (hi : i ∈ slots) :
    (t'.client_list i).age_cnt =
      if 0 < (t.client_list i).age_cnt then (t.client_list i).age_cnt - 1
      else (t.client_list i).age_cnt := by
  rw [h.entry i hi, aged]
  by_cases hpos : 0 < (t.client_list i).age_cnt
  · rw [if_pos ⟨hpos, rfl⟩, if_pos hpos]
  · rw [if_neg fun hc => hpos hc.1, if_neg hpos]

theorem Rebuilt.live_iff_age (h : Rebuilt N false t t') (hi : i ∈ slots) :
    t'.live i = true ↔ 1 < (t.client_list i).age_cnt := by
  rw [live_iff, h.age_eq hi]
  split
  · omega
  · omega

theorem Rebuilt.was_live (h : Rebuilt N false t t') (hi : i ∈ slots) (hl : t'.live i = true) :
    t.live i = true := by
  have hgt := (h.live_iff_age hi).mp hl
  exact live_iff.mpr (by omega)

end Rebuilt

theorem Tracks.tick {N : NodeInfo} {t t' : Table} {life : Text → Nat} (h : Tracks t life)
    (hage : age_client_list N false t = some t') : Tracks t' (Leases.apply 3 life .tick) := by
  have hrebuilt := age_client_list_spec hage
  refine ⟨hrebuilt.listed, fun i hi => ?_, fun i hi hl => ?_, fun ip hpos => ?_,
    fun i hi j hj hil hjl heq => ?_, fun i hi => hrebuilt.ip_eq hi ▸ h.clean i hi⟩
  · by_cases h0 : i = 0
    · rw [h0, hrebuilt.own_age]
      decide
    · have hold := h.bound i hi
      rw [hrebuilt.age_eq (mem_slots.mpr ⟨by omega, hi⟩)]
      split
      · omega
      · exact hold
  · have hgt := (hrebuilt.live_iff_age hi).mp hl
    have hlife := h.life_eq i hi (hrebuilt.was_live hi hl)
    rw [hrebuilt.ip_eq hi, hrebuilt.age_eq hi, if_pos (by omega)]
    simp only [Leases.apply]
    omega
  · simp only [Leases.apply] at hpos
    obtain ⟨i, hi, hl, rfl⟩ := h.covered ip (by omega)
    have hlife := h.life_eq i hi hl
    exact ⟨i, hi, (hrebuilt.live_iff_age hi).mpr (by omega), hrebuilt.ip_eq hi⟩
  · rw [hrebuilt.ip_eq hi, hrebuilt.ip_eq hj] at heq
    exact h.distinct i hi j hj (hrebuilt.was_live hi hil) (hrebuilt.was_live hj hjl) heq

theorem Tracks.renew {t t' : Table} {life : Text → Nat} (h : Tracks t life) {i : Nat} {ip : Text}
    (hi : i ∈ slots) (hclean : (0 : UInt8) ∉ ip) (hold : t.live i = true → t.ip i = ip)
    (hfresh : ∀ j ∈ slots, j ≠ i → t.live j = true → t.ip j ≠ ip)
    (hage : (t'.client_list i).age_cnt = AGE_COUNT) (hip : t'.ip i = ip)
    (hother : ∀ j ∈ slots, j ≠ i → t'.client_list j = t.client_list j)
    (hown : (t'.client_list 0).age_cnt = 3) (hlisted : Listed t') :
    Tracks t' (Leases.apply 3 life (.renew ip)) := by
  have hlive : t'.live i = true := live_iff.mpr (by rw [hage]; decide)
  have hlive_other : ∀ j ∈ slots, j ≠ i → t'.live j = t.live j :=
    fun j hj hne => live_of_entry_eq (hother j hj hne)
  have hip_other : ∀ j ∈ slots, j ≠ i → t'.ip j = t.ip j :=
    fun j hj hne => ip_of_entry_eq (hother j hj hne)
  -- another slot cannot come to hold the address that was renewed
  have hapart : ∀ j ∈ slots, j ≠ i → t'.live j = true → t'.ip j ≠ ip := by
    intro j hj hji hl
    rw [hlive_other j hj hji] at hl
    rw [hip_other j hj hji]
    exact hfresh j hj hji hl
  refine ⟨hlisted, fun j hj => ?_, fun j hj hl => ?_, fun k hpos => ?_,
    fun j hj k hk hjl hkl heq => ?_, fun j hj => ?_⟩
  · by_cases h0 : j = 0
    · subst h0
      rw [hown]
      decide
    by_cases hji : j = i
    · subst hji
      rw [hage]
      decide
    · rw [hother j (mem_slots.mpr ⟨by omega, hj⟩) hji]
      exact h.bound j hj
  · by_cases hji : j = i
    · subst hji
      simp [Leases.apply, hip, hage, AGE_COUNT]
    · rw [hlive_other j hj hji] at hl
      rw [hip_other j hj hji, hother j hj hji]
      simpa [Leases.apply, Function.update_of_ne (hfresh j hj hji hl)] using h.life_eq j hj hl
  · by_cases hk : k = ip
    · exact ⟨i, hi, hlive, hip.trans hk.symm⟩
    · simp only [Leases.apply, Function.update_of_ne hk] at hpos
      obtain ⟨j, hj, hl, hjip⟩ := h.covered k hpos
      have hji : j ≠ i := by
        rintro rfl
        exact hk (hjip.symm.trans (hold hl))
      exact ⟨j, hj, by rw [hlive_other j hj hji, hl], by rw [hip_other j hj hji, hjip]⟩
  · by_cases hji : j = i <;> by_cases hki : k = i
    · rw [hji, hki]
    · rw [hji, hip] at heq
      exact absurd heq.symm (hapart k hk hki hkl)
    · rw [hki, hip] at heq
      exact absurd heq (hapart j hj hji hjl)
    · rw [hlive_other j hj hji] at hjl
      rw [hlive_other k hk hki] at hkl
      rw [hip_other j hj hji, hip_other k hk hki] at heq
      exact h.distinct j hj k hk hjl hkl heq
  · by_cases hji : j = i
    · subst hji
      rwa [hip]
    · rw [hip_other j hj hji]
      exact h.clean j hj

theorem my_ip_address_tracks {N : NodeInfo} {t : Table} {life : Text → Nat} (h : Tracks t life) :
    Tracks (my_ip_address N t) life := by
  have hpeers : peers (my_ip_address N t) = peers t := by
    apply List.map_congr_left
    intro i hi
    have := List.mem_range'_1.mp hi
    exact Function.update_of_ne (by omega) _ _
  exact ⟨⟨h.listed.1, hpeers.trans h.listed.2⟩, h.bound, h.life_eq, h.covered, h.distinct, h.clean⟩

/-- What becomes of the leases in one step. -/
def changeOf (t : Table) : Event → Leases.Change Text
  | .announce N sin_addr _ =>
      if Accepts N t (inet_ntoa sin_addr) then .renew (inet_ntoa sin_addr) else .idle
  | .tick _ => .tick

/-- What `populate_new_client` can do. -/
inductive Populated (N : NodeInfo) (t : Table) (ip_ad : Text) (rcv_msg : Mem) : Table → Prop where
  /-- The node heard itself. -/
  | own : ip_ad = N.ownIp → Populated N t ip_ad rcv_msg (my_ip_address N t)
  /-- The sender is listed already. -/
  | refreshed {i : Nat} {t' : Table} : ip_ad ≠ N.ownIp → i ∈ slots → t.live i = true →
      t.ip i = ip_ad → Filled (my_ip_address N t) i (refreshWrites rcv_msg) t' →
      Populated N t ip_ad rcv_msg t'
  /-- The sender is new and takes a free slot. -/
  | inserted {i : Nat} {t' : Table} : ip_ad ≠ N.ownIp →
      (∀ j ∈ slots, t.live j = true → t.ip j ≠ ip_ad) → i ∈ slots →
      (t.client_list i).age_cnt = 0 →
      Filled (my_ip_address N t) i (insertWrites ip_ad rcv_msg) t' →
      Populated N t ip_ad rcv_msg t'
  /-- The sender is new and no slot is free. -/
  | full : ip_ad ≠ N.ownIp → (∀ j ∈ slots, t.live j = true → t.ip j ≠ ip_ad) →
      (∀ j ∈ slots, (t.client_list j).age_cnt ≠ 0) →
      Populated N t ip_ad rcv_msg (my_ip_address N t)

theorem populate_cases {N : NodeInfo} {t t' : Table} {rcv_msg : Mem} {sin_addr : InAddr}
    (hclean : ∀ i ∈ slots, (0 : UInt8) ∉ t.ip i)
    (hstep : populate_new_client N (inet_ntoa sin_addr) rcv_msg t = some t') :
    Populated N t (inet_ntoa sin_addr) rcv_msg t' := by
  have hsender := zero_notMem_inet_ntoa sin_addr
  have hownip : ((my_ip_address N t).client_valid_list 0).member .ip_addr = N.ownIp := by
    simp [my_ip_address]
  have hcmp : strcmp N.ownIp (inet_ntoa sin_addr) = 0 ↔ N.ownIp = inet_ntoa sin_addr :=
    strcmp_eq_zero_iff (N.ownIp_eq ▸ zero_notMem_inet_ntoa _) hsender
  have hmatch : ∀ i ∈ slots, (strcmp ((my_ip_address N t).ip i) (inet_ntoa sin_addr) = 0 ↔
      t.ip i = inet_ntoa sin_addr) :=
    fun i hi => strcmp_eq_zero_iff (hclean i hi) hsender
  simp only [populate_new_client, hownip, hcmp] at hstep
  by_cases hown : N.ownIp = inet_ntoa sin_addr
  · rw [if_pos hown] at hstep
    obtain rfl := Option.some.inj hstep
    exact .own hown.symm
  rw [if_neg hown] at hstep
  cases hfind : slots.find? fun i =>
      decide (strcmp ((my_ip_address N t).ip i) (inet_ntoa sin_addr) = 0) &&
        (my_ip_address N t).live i with
  | some i =>
    rw [hfind] at hstep
    have hi := List.mem_of_find?_eq_some hfind
    have hsat := List.find?_some hfind
    simp only [Bool.and_eq_true, decide_eq_true_eq, hmatch i hi] at hsat
    exact .refreshed (Ne.symm hown) hi hsat.2 hsat.1 (fillSlot_spec hi hstep)
  | none =>
    rw [hfind] at hstep
    have hnone : ∀ i ∈ slots, t.live i = true → t.ip i ≠ inet_ntoa sin_addr := by
      intro i hi hl heq
      have hfalse := List.find?_eq_none.mp hfind i hi
      simp only [Bool.and_eq_true, decide_eq_true_eq, hmatch i hi, not_and] at hfalse
      exact hfalse heq hl
    cases hfree : slots.find? fun i => ((my_ip_address N t).client_list i).age_cnt = 0 with
    | some i =>
      simp only [hfree] at hstep
      have hi := List.mem_of_find?_eq_some hfree
      have hage := List.find?_some hfree
      exact .inserted (Ne.symm hown) hnone hi (of_decide_eq_true hage) (fillSlot_spec hi hstep)
    | none =>
      simp only [hfree] at hstep
      obtain rfl := Option.some.inj hstep
      refine .full (Ne.symm hown) hnone fun i hi heq => ?_
      exact List.find?_eq_none.mp hfree i hi (decide_eq_true heq)

theorem Filled.refreshed_ip {t t' : Table} {i : Nat} {rcv_msg : Mem}
    (h : Filled t i (refreshWrites rcv_msg) t') : t'.ip i = t.ip i := by
  obtain ⟨e, hput, hentry⟩ := h.entry
  rw [Table.ip, hentry]
  apply (ClientEnt.putAll_frame hput).2 _
  intro w hw
  rcases List.mem_cons.mp hw with rfl | hw
  · exact Member.noConfusion
  · exact formatWrites_ne_ip rcv_msg w hw

theorem Filled.inserted_ip {t t' : Table} {i : Nat} {ip_ad : Text} {rcv_msg : Mem}
    (h : Filled t i (insertWrites ip_ad rcv_msg) t') : t'.ip i = ip_ad := by
  obtain ⟨e, hput, hentry⟩ := h.entry
  rw [Table.ip, hentry]
  have hput : (t.client_list i).putAll ([(.node_name, plainAt rcv_msg 0)] ++
      (.ip_addr, some ip_ad) :: formatWrites.map fun p => (p.1, formatAt rcv_msg p.2)) =
        some e := hput
  have hset := ClientEnt.putAll_last hput (formatWrites_ne_ip rcv_msg)
  exact hset

theorem Filled.age {t t' : Table} {i : Nat} {ws : List Write} (h : Filled t i ws t') :
    (t'.client_list i).age_cnt = AGE_COUNT := by
  obtain ⟨e, -, hentry⟩ := h.entry
  rw [hentry]

/-- Refreshing a slot leaves the addresses of the live slots alone. -/
theorem Filled.refreshed_addresses {t t' : Table} {i : Nat} {rcv_msg : Mem}
    (h : Filled t i (refreshWrites rcv_msg) t') (hl : t.live i = true) :
    (slots.filter t'.live).map t'.ip = (slots.filter t.live).map t.ip := by
  have hlive : ∀ j ∈ slots, t'.live j = t.live j := by
    intro j hj
    by_cases hji : j = i
    · subst hji
      rw [hl]
      exact live_iff.mpr (by rw [h.age]; decide)
    · exact live_of_entry_eq (h.other j hj hji)
  have hip : ∀ j ∈ slots, t'.ip j = t.ip j := by
    intro j hj
    by_cases hji : j = i
    · subst hji
      exact h.refreshed_ip
    · exact ip_of_entry_eq (h.other j hj hji)
  rw [List.filter_congr hlive, List.map_congr_left fun j hj => hip j (List.mem_filter.mp hj).1]

/-- One announcement renews the lease of its sender exactly when it is accepted. -/
theorem populate_tracks {N : NodeInfo} {t t' : Table} {life : Text → Nat} {rcv_msg : Mem}
    (h : Tracks t life) {sin_addr : InAddr}
    (hstep : populate_new_client N (inet_ntoa sin_addr) rcv_msg t = some t') :
    Tracks t' (Leases.apply 3 life (changeOf t (.announce N sin_addr rcv_msg))) := by
  have hsender := zero_notMem_inet_ntoa sin_addr
  have hmine := my_ip_address_tracks (N := N) h
  simp only [changeOf]
  cases populate_cases h.clean hstep with
  | own hown =>
    rw [if_neg fun hacc => hacc.1 hown]
    exact hmine
  | @refreshed i _ hown hi hl hip hfill =>
    have haccept : Accepts N t (inet_ntoa sin_addr) := ⟨hown, Or.inl ⟨i, hi, hl, hip⟩⟩
    rw [if_pos haccept]
    refine hmine.renew hi hsender (fun _ => hip) (fun j hj hji hl' heq => ?_) hfill.age
      (hfill.refreshed_ip.trans hip) hfill.other hfill.own_age hfill.listed
    exact hji (h.distinct j hj i hi hl' hl (heq.trans hip.symm))
  | @inserted i _ hown hnone hi hage hfill =>
    have haccept : Accepts N t (inet_ntoa sin_addr) := ⟨hown, Or.inr ⟨i, hi, hage⟩⟩
    rw [if_pos haccept]
    refine hmine.renew hi hsender (fun hl => ?_) (fun j hj _ hl => hnone j hj hl) hfill.age
      hfill.inserted_ip hfill.other hfill.own_age hfill.listed
    have hpos : 0 < (t.client_list i).age_cnt := live_iff.mp hl
    omega
  | full hown hnone hfull =>
    have hrejected : ¬ Accepts N t (inet_ntoa sin_addr) := by
      rintro ⟨-, ⟨i, hi, hl, heq⟩ | ⟨i, hi, hz⟩⟩
      · exact hnone i hi hl heq
      · exact hfull i hi hz
    rw [if_neg hrejected]
    exact hmine

/-! ### Runs -/

/-- Every text that the event makes the code print fits. -/
def Event.Fits : Event → Prop
  | .announce N _ rcv_msg => N.Fits ∧ MessageFits rcv_msg
  | .tick N => N.Fits

def Event.isTick : Event → Bool
  | .announce .. => false
  | .tick _ => true

theorem populate_defined {N : NodeInfo} {rcv_msg : Mem} (hN : N.Fits) (hmsg : MessageFits rcv_msg)
    (t : Table) (sin_addr : InAddr) :
    ∃ t', populate_new_client N (inet_ntoa sin_addr) rcv_msg t = some t' := by
  have hlen : (inet_ntoa sin_addr).length < 20 :=
    Nat.lt_of_le_of_lt (inet_ntoa_length sin_addr) (by decide)
  simp only [populate_new_client]
  split
  · exact ⟨_, rfl⟩
  split
  · exact fillSlot_defined hN _ _ hmsg
  split
  · exact fillSlot_defined hN _ _ (insertWrites_fit hlen hmsg)
  · exact ⟨_, rfl⟩

theorem step_defined {e : Event} (he : e.Fits) (t : Table) : ∃ t', step t e = some t' := by
  cases e with
  | announce N sin_addr rcv_msg => exact populate_defined he.1 he.2 t sin_addr
  | tick N => exact age_client_list_defined he false t

theorem run_defined {events : List Event} (hevents : ∀ e ∈ events, e.Fits) (t : Table) :
    ∃ t', Runs.exec step t events = some t' := by
  induction events generalizing t with
  | nil => exact ⟨t, rfl⟩
  | cons e events ih =>
    obtain ⟨t₁, hstep⟩ := step_defined (hevents e List.mem_cons_self) t
    obtain ⟨t', hrun⟩ := ih (fun e' he' => hevents e' (List.mem_cons_of_mem e he')) t₁
    exact ⟨t', Runs.exec_cons_eq_some.mpr ⟨t₁, hstep, hrun⟩⟩

theorem step_tracks {t t' : Table} {life : Text → Nat} (h : Tracks t life) {e : Event}
    (hstep : step t e = some t') : Tracks t' (Leases.apply 3 life (changeOf t e)) := by
  cases e with
  | announce N sin_addr rcv_msg => exact populate_tracks h hstep
  | tick N => exact h.tick hstep

def changes : Table → List Event → List (Leases.Change Text)
  | _, [] => []
  | t, e :: events => changeOf t e :: ((step t e).elim [] fun t' => changes t' events)

theorem run_tracks {t t' : Table} {life : Text → Nat} (h : Tracks t life) {events : List Event}
    (hrun : Runs.exec step t events = some t') :
    Tracks t' ((changes t events).foldl (Leases.apply 3) life) := by
  induction events generalizing t life with
  | nil => exact Option.some.inj hrun ▸ h
  | cons e events ih =>
    obtain ⟨t₁, hstep, hrest⟩ := Runs.exec_cons_eq_some.mp hrun
    simpa only [changes, hstep, Option.elim_some, List.foldl_cons] using
      ih (step_tracks h hstep) hrest

/-- Some announcement of `ip` was accepted with fewer than `bound` ticks after it. -/
def AcceptedWithin (t : Table) (events : List Event) (ip : Text) (bound : Nat) : Prop :=
  ∃ before N sin_addr rcv_msg later t₁,
    events = before ++ .announce N sin_addr rcv_msg :: later ∧
      Runs.exec step t before = some t₁ ∧ inet_ntoa sin_addr = ip ∧ Accepts N t₁ ip ∧
      later.countP Event.isTick < bound

theorem acceptedWithin_cons {t t' : Table} {e : Event} (hstep : step t e = some t')
    (events : List Event) (ip : Text) (bound : Nat) :
    AcceptedWithin t (e :: events) ip bound ↔
      (changeOf t e = .renew ip ∧ events.countP Event.isTick < bound) ∨
        AcceptedWithin t' events ip bound := by
  constructor
  · rintro ⟨before, N, sin_addr, rcv_msg, later, t₁, hsplit, hrun, hip, hacc, hticks⟩
    cases before with
    | nil =>
      obtain ⟨rfl, rfl⟩ := List.cons.inj hsplit
      obtain rfl := Option.some.inj hrun
      subst hip
      exact Or.inl ⟨if_pos hacc, hticks⟩
    | cons e' before =>
      obtain ⟨rfl, rfl⟩ := List.cons.inj hsplit
      obtain ⟨t₂, hstep₂, hrest⟩ := Runs.exec_cons_eq_some.mp hrun
      obtain rfl := Option.some.inj (hstep.symm.trans hstep₂)
      exact Or.inr ⟨before, N, sin_addr, rcv_msg, later, t₁, rfl, hrest, hip, hacc, hticks⟩
  · rintro (⟨hrenew, hticks⟩ | ⟨before, N, sin_addr, rcv_msg, later, t₁, rfl, hrun, hrest⟩)
    · cases e with
      | tick N => cases hrenew
      | announce N sin_addr rcv_msg =>
        simp only [changeOf] at hrenew
        split at hrenew
        · rename_i hacc
          obtain rfl := Leases.Change.renew.inj hrenew
          exact ⟨[], N, sin_addr, rcv_msg, events, t, rfl, rfl, rfl, hacc, hticks⟩
        · cases hrenew
    · exact ⟨e :: before, N, sin_addr, rcv_msg, later, t₁, rfl,
        Runs.exec_cons_eq_some.mpr ⟨t', hstep, hrun⟩, hrest⟩

/-- The leases of a run, read off its announcements. -/
theorem renewedWithin_changes {t t' : Table} {events : List Event}
    (hrun : Runs.exec step t events = some t') (ip : Text) (bound : Nat) :
    Leases.ticks (changes t events) = events.countP Event.isTick ∧
      (Leases.RenewedWithin (changes t events) ip bound ↔ AcceptedWithin t events ip bound) := by
  induction events generalizing t with
  | nil => simp [changes, Leases.ticks, Leases.RenewedWithin, AcceptedWithin]
  | cons e events ih =>
    obtain ⟨t₁, hstep, hrest⟩ := Runs.exec_cons_eq_some.mp hrun
    obtain ⟨hticks, hiff⟩ := ih hrest
    have hchanges : changes t (e :: events) = changeOf t e :: changes t₁ events := by
      simp only [changes, hstep, Option.elim_some]
    rw [hchanges, Leases.renewedWithin_cons, acceptedWithin_cons hstep, hiff, hticks]
    refine ⟨?_, Iff.rfl⟩
    cases e with
    | tick N => simpa [Leases.ticks, changeOf, Event.isTick, List.countP_cons] using hticks
    | announce N sin_addr rcv_msg =>
      by_cases hacc : Accepts N t (inet_ntoa sin_addr)
      · simpa [Leases.ticks, changeOf, Event.isTick, hacc] using hticks
      · simpa [Leases.ticks, changeOf, Event.isTick, hacc] using hticks

/-! ### Which peers are listed -/

def addresses (t : Table) : List Text := (peers t).map fun e => e.member .ip_addr

def listedCount (t : Table) (ip : Text) : Nat := (addresses t).count ip

theorem Listed.peers_eq {t : Table} (h : Listed t) :
    peers t = (slots.filter t.live).map t.client_list := by
  rw [h.2, List.filter_map]
  rfl

theorem Listed.num_le {t : Table} (h : Listed t) : t.client_valid_num ≤ MAX_NUM_ENTRY := by
  have hlen : (peers t).length ≤ slots.length := by
    rw [h.peers_eq, List.length_map]
    exact List.length_filter_le _ _
  simp only [peers, List.length_map, List.length_range', slots, MAX_NUM_ENTRY] at hlen ⊢
  omega

theorem Listed.addresses_eq {t : Table} (h : Listed t) :
    addresses t = (slots.filter t.live).map t.ip := by
  rw [addresses, h.peers_eq, List.map_map]
  rfl

theorem Tracks.addresses_nodup {t : Table} {life : Text → Nat} (h : Tracks t life) :
    (addresses t).Nodup := by
  rw [h.listed.addresses_eq]
  refine List.Nodup.map_on (fun i hi j hj heq => ?_) (slots_nodup.filter _)
  obtain ⟨hi, hil⟩ := List.mem_filter.mp hi
  obtain ⟨hj, hjl⟩ := List.mem_filter.mp hj
  exact h.distinct i hi j hj hil hjl heq

theorem Tracks.mem_addresses {t : Table} {life : Text → Nat} (h : Tracks t life) {ip : Text} :
    ip ∈ addresses t ↔ 0 < life ip := by
  rw [h.listed.addresses_eq]
  constructor
  · intro hmem
    obtain ⟨i, hi, rfl⟩ := List.mem_map.mp hmem
    obtain ⟨hi, hl⟩ := List.mem_filter.mp hi
    have := h.life_eq i hi hl
    have := live_iff.mp hl
    omega
  · intro hpos
    obtain ⟨i, hi, hl, rfl⟩ := h.covered ip hpos
    exact List.mem_map.mpr ⟨i, List.mem_filter.mpr ⟨hi, hl⟩, rfl⟩

theorem Tracks.listedCount_eq {t : Table} {life : Text → Nat} (h : Tracks t life) (ip : Text) :
    listedCount t ip = if 0 < life ip then 1 else 0 := by
  split
  · rename_i hpos
    exact List.count_eq_one_of_mem h.addresses_nodup (h.mem_addresses.mpr hpos)
  · rename_i hpos
    exact List.count_eq_zero_of_not_mem fun hmem => hpos (h.mem_addresses.mp hmem)

theorem server_start_tracks {N : NodeInfo} {t : Table} (h : server_start N = some t) :
    Tracks t fun _ => 0 := by
  obtain ⟨hlist, hown, -, hlisted, -⟩ := age_client_list_spec h
  have hentry : ∀ i ∈ slots, t.client_list i = .blank := by
    intro i hi
    have hne : i ≠ 0 := by
      have := mem_slots.mp hi
      omega
    rw [hlist i hi]
    simp [aged, emptyTable, hne]
  have hdead : ∀ i ∈ slots, ¬ t.live i = true := fun i hi hl => by
    rw [live_iff, hentry i hi] at hl
    exact absurd hl (by decide)
  refine ⟨hlisted, fun i hi => ?_, fun i hi hl => absurd hl (hdead i hi),
    fun _ hpos => absurd hpos (by decide), fun i hi _ _ hl => absurd hl (hdead i hi),
    fun i hi => ?_⟩
  · by_cases h0 : i = 0
    · subst h0
      rw [hown]
      decide
    · rw [hentry i (mem_slots.mpr ⟨by omega, hi⟩)]
      decide
  · rw [Table.ip, hentry i hi]
    exact List.not_mem_nil

theorem Tracks.num_eq {t : Table} {life : Text → Nat} (h : Tracks t life) {leased : List Text}
    (hnodup : leased.Nodup) (hleased : ∀ ip, 0 < life ip ↔ ip ∈ leased) :
    t.client_valid_num = 1 + leased.length := by
  have hperm : (addresses t).Perm leased :=
    (List.perm_ext_iff_of_nodup h.addresses_nodup hnodup).mpr
      fun ip => h.mem_addresses.trans (hleased ip)
  have hlen := hperm.length_eq
  have hnum := h.listed.1
  simp only [addresses, peers, List.length_map, List.length_range'] at hlen
  omega

theorem Tracks.free_slot {t : Table} {life : Text → Nat} (h : Tracks t life)
    (hnum : t.client_valid_num < MAX_NUM_ENTRY) : ∃ i ∈ slots, (t.client_list i).age_cnt = 0 := by
  by_contra hfull
  push Not at hfull
  have hall : slots.filter t.live = slots := by
    refine List.filter_eq_self.mpr fun i hi => live_iff.mpr ?_
    have hne := hfull i hi
    have hbound := (h.bound i (mem_slots.mp hi).2).1
    omega
  have hlen := congrArg List.length h.listed.peers_eq
  rw [hall] at hlen
  have hpos := h.listed.1
  simp only [peers, List.length_map, List.length_range', slots, MAX_NUM_ENTRY] at hlen hnum
  omega

/-- Up to 23 peers that announce themselves are all listed. -/
theorem announce_all {N : NodeInfo} (hN : N.Fits) {rcv_msg : Mem} (hmsg : MessageFits rcv_msg)
    {t₀ : Table} (hstart : server_start N = some t₀) {addrs : List InAddr}
    (hnodup : (addrs.map inet_ntoa).Nodup) (hown : N.ownIp ∉ addrs.map inet_ntoa)
    (hlen : addrs.length < MAX_NUM_ENTRY) :
    ∃ t life, Runs.exec step t₀ (addrs.map fun a => .announce N a rcv_msg) = some t ∧
      Tracks t life ∧ ∀ ip, 0 < life ip ↔ ip ∈ addrs.map inet_ntoa := by
  induction addrs using List.reverseRecOn with
  | nil => exact ⟨t₀, _, rfl, server_start_tracks hstart, by simp⟩
  | append_singleton addrs a ih =>
    rw [List.map_append, List.map_singleton] at hnodup hown
    rw [List.length_append, List.length_singleton] at hlen
    have hnodup' := (List.nodup_append.mp hnodup).1
    obtain ⟨t, life, hrun, htracks, hleased⟩ := ih hnodup'
      (fun hmem => hown (List.mem_append_left _ hmem)) (by omega)
    obtain ⟨t', hstep⟩ := populate_defined hN hmsg t a
    have hnum := htracks.num_eq hnodup' hleased
    rw [List.length_map] at hnum
    have haccept : Accepts N t (inet_ntoa a) := by
      refine ⟨fun heq => hown ?_, Or.inr (htracks.free_slot (by omega))⟩
      rw [← heq]
      exact List.mem_append_right _ List.mem_cons_self
    have htracks' := populate_tracks htracks hstep
    rw [changeOf, if_pos haccept] at htracks'
    refine ⟨t', _, ?_, htracks', fun ip => ?_⟩
    · rw [List.map_append, Runs.exec_append, hrun]
      exact Runs.exec_cons_eq_some.mpr ⟨t', hstep, rfl⟩
    · rw [List.map_append, List.mem_append, ← hleased ip]
      by_cases hip : ip = inet_ntoa a
      · simp [Leases.apply, hip]
      · simp [Leases.apply, hip]

/-- What holds of the table `t` after the run `events` from `t₀`: live slots have distinct
addresses, ages lie in `0..3`, the valid list has between 1 and 24 entries, and a peer
stands on it once if an announcement of it was accepted fewer than three ticks ago, and
not at all otherwise. -/
structure Sound (t₀ : Table) (events : List Event) (t : Table) : Prop where
  distinct : ∀ i ∈ slots, ∀ j ∈ slots,
    0 < (t.client_list i).age_cnt → 0 < (t.client_list j).age_cnt → t.ip i = t.ip j → i = j
  ages : ∀ i < MAX_NUM_ENTRY, 0 ≤ (t.client_list i).age_cnt ∧ (t.client_list i).age_cnt ≤ 3
  num : 1 ≤ t.client_valid_num ∧ t.client_valid_num ≤ 24
  listed : ∀ ip, AcceptedWithin t₀ events ip 3 → listedCount t ip = 1
  unlisted : ∀ ip, ¬ AcceptedWithin t₀ events ip 3 → listedCount t ip = 0

theorem run_sound {N : NodeInfo} {events : List Event} {t₀ t : Table}
    (hstart : server_start N = some t₀) (hrun : Runs.exec step t₀ events = some t) :
    Sound t₀ events t := by
  have htracks := run_tracks (server_start_tracks hstart) hrun
  have halive : ∀ ip, 0 < _ ↔ AcceptedWithin t₀ events ip 3 := fun ip =>
    (Leases.lt_after_iff 3 (changes t₀ events) ip 0).trans
      (renewedWithin_changes hrun ip (3 - 0)).2
  refine ⟨fun i hi j hj hil hjl => htracks.distinct i hi j hj (live_iff.mpr hil)
    (live_iff.mpr hjl), htracks.bound, ⟨htracks.listed.1, htracks.listed.num_le⟩,
    fun ip hacc => ?_, fun ip hacc => ?_⟩
  · rw [htracks.listedCount_eq ip]
    exact if_pos ((halive ip).mpr hacc)
  · rw [htracks.listedCount_eq ip]
    exact if_neg fun hpos => hacc ((halive ip).mp hpos)

theorem server_run_defined {N : NodeInfo} (hN : N.Fits) {events : List Event}
    (hevents : ∀ e ∈ events, e.Fits) :
    ∃ t₀ t, server_start N = some t₀ ∧ Runs.exec step t₀ events = some t := by
  obtain ⟨t₀, h₀⟩ := age_client_list_defined hN true emptyTable
  obtain ⟨t, hrun⟩ := run_defined hevents t₀
  exact ⟨t₀, t, h₀, hrun⟩

/-- **The peer table over whole runs.**  The table is sound in every state that a run of
announcements and ticks reaches, and a run whose texts all fit has an outcome. -/
theorem peer_table_runs (N : NodeInfo) (events : List Event) :
    (∀ t₀ t, server_start N = some t₀ → Runs.exec step t₀ events = some t → Sound t₀ events t) ∧
      (N.Fits → (∀ e ∈ events, e.Fits) →
        ∃ t₀ t, server_start N = some t₀ ∧ Runs.exec step t₀ events = some t) := by
  constructor
  · intro t₀ t hstart hrun
    exact run_sound hstart hrun
  · intro hN hevents
    exact server_run_defined hN hevents

def factoryNode : NodeInfo where
  g_web_config := ConfigFlash.factoryRecord (ascii "AKS") zeroed
  battery_info := ascii "88"
  eCos_ver := ascii "1.05"
  samd_ver := ascii "1.2"
  timo_ver := ascii "1.3"
  operation_mode := 1
  ipAddress := ⟨10, 10, 100, 254⟩

theorem factoryNode_fits : factoryNode.Fits := by
  intro n
  rw [NodeInfo.ownWrites_eq]
  decide +kernel

/-- An announcement as another node sends it. -/
def sampleMsg : Mem :=
  [(0, "Stage left"), (20, "3"), (24, "1"), (30, "75"), (40, "1.05"), (48, "1.2"), (56, "1.3"),
    (64, "12"), (72, "0"), (76, "3"), (80, "0"), (84, "1"), (90, "EEEEEE")].foldl
    (fun msg p => storeText msg p.1 (ascii p.2)) zeroed

theorem sampleMsg_fits : MessageFits sampleMsg := by
  unfold MessageFits
  decide +kernel

def sampleEvents : List Event :=
  [.announce factoryNode ⟨10, 10, 100, 1⟩ sampleMsg, .announce factoryNode ⟨10, 10, 100, 2⟩ sampleMsg,
    .tick factoryNode, .announce factoryNode ⟨10, 10, 100, 2⟩ sampleMsg, .tick factoryNode,
    .tick factoryNode]

theorem peer_table_runs_sample :
    ∃ t₀ t, server_start factoryNode = some t₀ ∧ Runs.exec step t₀ sampleEvents = some t ∧
      Sound t₀ sampleEvents t := by
  have hfits : ∀ e ∈ sampleEvents, e.Fits := by
    simp [sampleEvents, Event.Fits, factoryNode_fits, sampleMsg_fits]
  obtain ⟨t₀, t, hstart, hrun⟩ :=
    (peer_table_runs factoryNode sampleEvents).2 factoryNode_fits hfits
  exact ⟨t₀, t, hstart, hrun, (peer_table_runs factoryNode sampleEvents).1 t₀ t hstart hrun⟩

end AksFirmware.PeerTable
