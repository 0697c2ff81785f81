import AksFirmware.PeerRefinement

/-!
# Announcing a node to its peers

`client_thread_main` prints thirteen texts into one static buffer and sends a hundred
bytes of it; `server_thread_main` puts zeros into what it receives and
`populate_new_client` reads the texts back at offsets of its own.  `announcement_stored`
says that the two tables of offsets agree: nothing is cut and nothing runs together,
whatever the buffer held before.
-/

namespace AksFirmware.Announcement

open ByteMemory CText WebConfig PeerTable PeerMemory

/-! ### The sender -/

def AP_MODE : Nat := 1
def STA_ETH_MODE : Nat := 2
def STA_WIFI_MODE : Nat := 3

/-- What one turn of `client_thread_main` prints into `cli_recv`, and where. -/
def messageTexts (N : NodeInfo) (client_valid_num : Nat) : List (Nat × Text) :=
  let get := fun id => (ratpac_get_str ⟨N.g_web_config, client_valid_num⟩ id).2
  [(0, get (CFG_str2id "AKS_NAME")), (20, get (CFG_str2id "AKS_UNIVERSE")),
    (24, get (CFG_str2id "AKS_SUBNET")), (30, N.battery_info), (40, N.eCos_ver),
    (48, N.samd_ver), (56, N.timo_ver), (64, get CFG_SACN_UNIV), (72, get CFG_PROTNAME),
    (76, get CFG_TIMO_POWER), (80, get CFG_SORT_BY), (84, decimal N.operation_mode),
    (90, get CFG_LED_COLOR)]

/-- One turn of the loop: the buffer it leaves, and the datagram if one is sent. -/
def client_thread_main (N : NodeInfo) (client_valid_num : Nat) (cli_recv : Mem) :
    Mem × Option (List UInt8) :=
  if N.ipAddress.a = 0 then (cli_recv, none)
  else
    let cli_recv := storeTexts cli_recv (messageTexts N client_valid_num)
    let cli_recv := store cli_recv 36 [0]
    (cli_recv, some (load cli_recv 0 100))

/-- What the getters of the sender return, by the member that is to show it. -/
def ownValues (N : NodeInfo) (client_valid_num : Nat) : List (Member × Text) :=
  let get := fun id => (ratpac_get_str ⟨N.g_web_config, client_valid_num⟩ id).2
  [(.node_name, get CFG_AKS_NAME), (.universe, get CFG_AKS_UNIVERSE),
    (.subnet, get CFG_AKS_SUBNET), (.baterry, N.battery_info), (.eCos_ver, N.eCos_ver),
    (.samd_ver, N.samd_ver), (.timo_ver, N.timo_ver), (.sacn_univ, get CFG_SACN_UNIV),
    (.protocol, get CFG_PROTNAME), (.crmx_power, get CFG_TIMO_POWER),
    (.sort_by, get CFG_SORT_BY), (.host_mode, decimal N.operation_mode),
    (.led_color, get CFG_LED_COLOR)]

/-- A configuration whose texts end inside their arrays, have no percent sign and are short
enough where the arrays alone do not bound them. -/
structure Announceable (N : NodeInfo) : Prop where
  terminated : TextsTerminated N.g_web_config
  fields_plain : ∀ f : Field, f.isText = true → (0x25 : UInt8) ∉ fieldText N.g_web_config f
  clean : CleanNode N
  reports_plain : ∀ s ∈ [N.battery_info, N.eCos_ver, N.samd_ver, N.timo_ver], (0x25 : UInt8) ∉ s
  battery_info : N.battery_info.length ≤ 6
  eCos_ver : N.eCos_ver.length ≤ 4
  samd_ver : N.samd_ver.length ≤ 3
  timo_ver : N.timo_ver.length ≤ 3
  -- the zero of static storage, then what `app_main` assigns
  operation_mode : N.operation_mode ∈ [0, AP_MODE, STA_ETH_MODE, STA_WIFI_MODE]

/-! ### The texts of an announcement -/

/-- Where the texts of a message stand, and how long each may be. -/
def rooms : List (Nat × Nat) :=
  [(0, 19), (20, 2), (24, 2), (30, 6), (40, 4), (48, 3), (56, 3), (64, 7), (72, 1), (76, 2),
    (80, 3), (84, 1), (90, 7)]

/-- The zeros put in by either side fall outside the characters of every text. -/
theorem rooms_apart :
    ∀ r ∈ rooms, r.1 + r.2 < 100 ∧ ∀ t ∈ 36 :: terminators, t < r.1 ∨ r.1 + r.2 ≤ t := by
  decide

section Sender

variable {N : NodeInfo} (hN : Announceable N) (client_valid_num : Nat)
include hN

theorem Announceable.getter_length {id : Nat} {f : Field} {limit : Option Nat}
    (hcase : getCases.lookup id = some (f, limit)) (htext : f.isText = true) (hsize : 2 ≤ f.size) :
    (ratpac_get_str ⟨N.g_web_config, client_valid_num⟩ id).2.length < f.size :=
  ratpac_get_str_lt hcase hsize (hN.terminated f htext)

theorem Announceable.getter_plain {id : Nat} {f : Field} {limit : Option Nat}
    (hcase : getCases.lookup id = some (f, limit)) (htext : f.isText = true) :
    (0x25 : UInt8) ∉ (ratpac_get_str ⟨N.g_web_config, client_valid_num⟩ id).2 := by
  intro hmem
  rcases mem_ratpac_get_str hcase hmem with hzero | hfield
  · exact absurd hzero (by decide)
  · exact hN.fields_plain f htext hfield

theorem Announceable.mode_length : (decimal N.operation_mode).length ≤ 1 := by
  have hall : ∀ mode ∈ [0, AP_MODE, STA_ETH_MODE, STA_WIFI_MODE], (decimal mode).length ≤ 1 := by
    decide
  exact hall _ hN.operation_mode

theorem Announceable.texts_room :
    List.Forall₂ (fun r w => w.1 = r.1 ∧ w.2.length ≤ r.2) rooms
      (messageTexts N client_valid_num) := by
  have hget := @Announceable.getter_length N hN client_valid_num
  simp only [rooms, messageTexts, List.forall₂_cons, List.forall₂_nil_left_iff, true_and, and_true]
  refine ⟨?_, ?_, ?_, hN.battery_info, hN.eCos_ver, hN.samd_ver, hN.timo_ver, ?_, ?_, ?_, ?_,
    hN.mode_length, ?_⟩
  · exact Nat.le_of_lt_succ (hget (f := .name) rfl rfl (by decide))
  · exact Nat.le_of_lt_succ (hget (f := .universe) rfl rfl (by decide))
  · exact Nat.le_of_lt_succ (hget (f := .subnet) rfl rfl (by decide))
  · exact Nat.le_of_lt_succ (hget (f := .sacn_universe) rfl rfl (by decide))
  · exact Nat.le_of_lt_succ (hget (f := .protname) rfl rfl (by decide))
  · exact Nat.le_of_lt_succ (hget (f := .timopower) rfl rfl (by decide))
  · exact Nat.le_of_lt_succ (hget (f := .sort_by) rfl rfl (by decide))
  · exact Nat.le_of_lt_succ (hget (f := .led_color) rfl rfl (by decide))

theorem Announceable.room_of_text :
    ∀ w ∈ messageTexts N client_valid_num, ∃ r ∈ rooms, w.1 = r.1 ∧ w.2.length ≤ r.2 := by
  intro w hw
  obtain ⟨i, hi, rfl⟩ := List.getElem_of_mem hw
  obtain ⟨hlen, hall⟩ := List.forall₂_iff_get.mp (hN.texts_room client_valid_num)
  have hi' : i < rooms.length := hlen ▸ hi
  exact ⟨rooms[i], List.getElem_mem hi', hall i hi' hi⟩

theorem Announceable.texts_chain :
    (messageTexts N client_valid_num).IsChain fun w w' => w.1 + w.2.length < w'.1 := by
  have hroom := hN.texts_room client_valid_num
  simp only [rooms, messageTexts, List.forall₂_cons, List.forall₂_nil_left_iff] at hroom
  simp only [messageTexts, List.isChain_cons_cons, List.isChain_singleton, and_true]
  omega

theorem Announceable.texts_plain :
    ∀ w ∈ messageTexts N client_valid_num, (0 : UInt8) ∉ w.2 ∧ (0x25 : UInt8) ∉ w.2 := by
  have hzero := zero_notMem_ratpac_get_str ⟨N.g_web_config, client_valid_num⟩
  have hget := @Announceable.getter_plain N hN client_valid_num
  have hreports := hN.reports_plain
  simp only [List.forall_mem_cons] at hreports
  obtain ⟨hbattery, heCos, hsamd, htimo, -⟩ := hreports
  have hmode : (0x25 : UInt8) ∉ decimal N.operation_mode :=
    fun h => absurd (mem_decimal h).1 (by decide)
  simp only [messageTexts, List.forall_mem_cons]
  refine ⟨⟨hzero _, hget (f := .name) rfl rfl⟩, ⟨hzero _, hget (f := .universe) rfl rfl⟩,
    ⟨hzero _, hget (f := .subnet) rfl rfl⟩, ⟨hN.clean.battery_info, hbattery⟩,
    ⟨hN.clean.eCos_ver, heCos⟩, ⟨hN.clean.samd_ver, hsamd⟩, ⟨hN.clean.timo_ver, htimo⟩,
    ⟨hzero _, hget (f := .sacn_universe) rfl rfl⟩, ⟨hzero _, hget (f := .protname) rfl rfl⟩,
    ⟨hzero _, hget (f := .timopower) rfl rfl⟩, ⟨hzero _, hget (f := .sort_by) rfl rfl⟩,
    ⟨zero_notMem_decimal _, hmode⟩, ⟨hzero _, hget (f := .led_color) rfl rfl⟩, ?_⟩
  exact List.forall_mem_nil _

/-- What is received holds every text where it was printed. -/
theorem Announceable.received_holds {cli_recv cli_recv' : Mem} {datagram : List UInt8}
    (hsend : client_thread_main N client_valid_num cli_recv = (cli_recv', some datagram)) :
    ∀ w ∈ messageTexts N client_valid_num, HoldsText (received datagram) w.1 w.2 := by
  intro w hw
  obtain ⟨r, hr, hat, hlen⟩ := hN.room_of_text client_valid_num w hw
  obtain ⟨hin, hzeros⟩ := rooms_apart r hr
  have hzeros : ∀ t ∈ 36 :: terminators, t < w.1 ∨ w.1 + w.2.length ≤ t := by
    intro t ht
    have := hzeros t ht
    omega
  obtain ⟨hmark, hterm⟩ := List.forall_mem_cons.mp hzeros
  have hbuffer := (storeTexts_holds cli_recv (hN.texts_chain client_valid_num) w hw).store_zero hmark
  simp only [client_thread_main] at hsend
  split at hsend
  · cases hsend
  obtain ⟨rfl, hload⟩ := Prod.mk.inj hsend
  obtain rfl := Option.some.inj hload
  refine HoldsText.store_zeros hterm (hbuffer.congr fun x hx hx' => ?_)
  rw [List.take_of_length_le (by rw [load_length]; decide), store_load_eq, if_pos (by omega)]
  simp

/-- `populate_new_client` prints exactly the values of the sender. -/
theorem Announceable.refreshWrites_eq {cli_recv cli_recv' : Mem} {datagram : List UInt8}
    (hsend : client_thread_main N client_valid_num cli_recv = (cli_recv', some datagram)) :
    refreshWrites (received datagram) =
      (ownValues N client_valid_num).map fun p => (p.1, some p.2) := by
  have hplain : ∀ w ∈ messageTexts N client_valid_num,
      plainAt (received datagram) w.1 = some w.2 := by
    intro w hw
    have hholds := hN.received_holds client_valid_num hsend w hw
    obtain ⟨r, hr, hat, hlen⟩ := hN.room_of_text client_valid_num w hw
    have hroom : w.2.length < MAX_MSG - w.1 := by
      have := (rooms_apart r hr).1
      simp only [MAX_MSG]
      omega
    rw [plainAt, if_pos (hholds.terminated hroom),
      hholds.text_eq (hN.texts_plain client_valid_num w hw).1 hroom]
  have hformat : ∀ w ∈ messageTexts N client_valid_num,
      formatAt (received datagram) w.1 = some w.2 := by
    intro w hw
    rw [formatAt, hplain w hw]
    exact printf_plain (hN.texts_plain client_valid_num w hw).2
  simp only [messageTexts, List.forall_mem_cons] at hplain hformat
  simp only [refreshWrites, formatWrites, ownValues, List.map_cons, List.map_nil, hplain, hformat]
  rfl

theorem Announceable.ownValues_fit :
    ∀ p ∈ ownValues N client_valid_num, p.2.length < p.1.size := by
  have hroom := hN.texts_room client_valid_num
  have hname : CFG_str2id "AKS_NAME" = CFG_AKS_NAME := rfl
  have huniverse : CFG_str2id "AKS_UNIVERSE" = CFG_AKS_UNIVERSE := rfl
  have hsubnet : CFG_str2id "AKS_SUBNET" = CFG_AKS_SUBNET := rfl
  simp only [rooms, messageTexts, List.forall₂_cons, List.forall₂_nil_left_iff, hname, huniverse,
    hsubnet] at hroom
  simp only [ownValues, List.forall_mem_cons, Member.size]
  refine ⟨?_, ?_, ?_, ?_, ?_, ?_, ?_, ?_, ?_, ?_, ?_, ?_, ?_, List.forall_mem_nil _⟩ <;> omega

/-- A node that can announce itself can also keep its own entry. -/
theorem Announceable.fits : N.Fits := by
  intro n
  have hconfig : ∀ {id : Nat} {f : Field} {limit : Option Nat},
      getCases.lookup id = some (f, limit) → f.isText = true → 2 ≤ f.size → f.size ≤ 20 →
      N.configText n id = some (ratpac_get_str ⟨N.g_web_config, n⟩ id).2 := by
    intro id f limit hcase htext hsize hbuff
    exact if_pos (Nat.lt_of_lt_of_le (hN.getter_length n hcase htext hsize) hbuff)
  have hformat : ∀ {id : Nat} {f : Field} {limit : Option Nat} {m : Member},
      getCases.lookup id = some (f, limit) → f.isText = true → 2 ≤ f.size → f.size ≤ 20 →
      f.size ≤ m.size → PeerTable.Fits (m, (N.configText n id).bind printf) := by
    intro id f limit m hcase htext hsize hbuff hm
    rw [hconfig hcase htext hsize hbuff, Option.bind_some,
      printf_plain (hN.getter_plain n hcase htext)]
    exact ⟨_, rfl, Nat.lt_of_lt_of_le (hN.getter_length n hcase htext hsize) hm⟩
  simp only [NodeInfo.ownWrites, List.forall_mem_cons]
  refine ⟨?_, hformat (f := .universe) rfl rfl (by decide) (by decide) (by decide),
    hformat (f := .subnet) rfl rfl (by decide) (by decide) (by decide),
    hformat (f := .sacn_universe) rfl rfl (by decide) (by decide) (by decide),
    hformat (f := .sort_by) rfl rfl (by decide) (by decide) (by decide),
    hformat (f := .timopower) rfl rfl (by decide) (by decide) (by decide),
    hformat (f := .protname) rfl rfl (by decide) (by decide) (by decide),
    hformat (f := .led_color) rfl rfl (by decide) (by decide) (by decide),
    ⟨_, rfl, Nat.lt_of_le_of_lt hN.eCos_ver (by decide : 4 < Member.eCos_ver.size)⟩,
    ⟨_, rfl, Nat.lt_of_le_of_lt hN.samd_ver (by decide : 3 < Member.samd_ver.size)⟩,
    ⟨_, rfl, Nat.lt_of_le_of_lt hN.timo_ver (by decide : 3 < Member.timo_ver.size)⟩,
    ⟨_, rfl, Nat.lt_of_le_of_lt hN.mode_length (by decide : 1 < Member.host_mode.size)⟩,
    List.forall_mem_nil _⟩
  exact ⟨_, hconfig (f := .name) rfl rfl (by decide) (by decide),
    hN.getter_length n (f := .name) rfl rfl (by decide)⟩

end Sender

/-! ### The receiver -/

/-- **An announcement arrives unchanged.**  Whatever the buffer of the sender and the table
of the receiver held before, the slot that the receiver refreshes or fills shows, in every
announced member, the text that the sender's getter returns. -/
theorem announcement_stored {N N' : NodeInfo} (hN : Announceable N) (hN' : N'.Fits)
    {client_valid_num : Nat} {cli_recv cli_recv' : Mem} {datagram : List UInt8}
    (hsend : client_thread_main N client_valid_num cli_recv = (cli_recv', some datagram))
    {sin_addr : InAddr} {M : Memory} {i : Nat} {ws : List Write}
    (hslot : chosenSlot N' (inet_ntoa sin_addr) (received datagram) M = some (i, ws)) :
    datagram.length = 100 ∧
      ∃ M', populate_new_client N' (inet_ntoa sin_addr) (received datagram) M = some M' ∧
        ∀ p ∈ ownValues N client_valid_num,
          Terminated M'.client_list (memberAt i p.1) p.1.size ∧ textOf M'.client_list i p.1 = p.2 := by
  have hwrites := hN.refreshWrites_eq client_valid_num hsend
  have hmsg : MessageFits (received datagram) := by
    intro w hw
    rw [hwrites] at hw
    obtain ⟨p, hp, rfl⟩ := List.mem_map.mp hw
    exact ⟨p.2, rfl, hN.ownValues_fit client_valid_num p hp⟩
  obtain ⟨hi, hws⟩ := chosenSlot_writes hslot
  have hfit := (writes_fit_iff hws).mpr hmsg
  have hpos := Nat.le_mul_of_pos_right ENTRY_SIZE (mem_slots.mp hi).1
  refine ⟨?_, ?_⟩
  · simp only [client_thread_main] at hsend
    split at hsend
    · cases hsend
    · exact Option.some.inj (Prod.mk.inj hsend).2 ▸ load_length _ 0 100
  rcases PeerMemory.populate_cases hN' hslot with ⟨-, hnone⟩ | ⟨M', list, hsome, hlist, hframe⟩
  · obtain ⟨list, hlist⟩ := printAll_defined (mem_slots.mp hi).2 M.client_list hfit
    rw [hlist] at hnone
    cases hnone
  refine ⟨M', hsome, fun p hp => ?_⟩
  have hrefresh : (p.1, some p.2) ∈ refreshWrites (received datagram) :=
    hwrites ▸ List.mem_map_of_mem hp
  have hmem : (p.1, some p.2) ∈ ws := by
    rcases hws with rfl | rfl
    · exact hrefresh
    · exact mem_insertWrites.mpr (.inr hrefresh)
  have hlen := hN.ownValues_fit client_valid_num p hp
  have hend := memberAt_end_le i p.1
  have hage := ageAt_lt (mem_slots.mp hi).2
  have hholds : HoldsText M'.client_list (memberAt i p.1) p.2 := by
    apply (printAll_holds hlist (writes_nodup hws) hfit _ hmem p.2 rfl).congr
    intro x hx hx'
    simp only [memberAt] at hx hx' hend
    rw [hframe x (by omega)]
    exact store_of_outside _ _ (.inl (by omega))
  have hclean := refreshWrites_clean _ _ hrefresh p.2 rfl
  exact ⟨hholds.terminated hlen, hholds.text_eq hclean (by omega)⟩

theorem factoryNode_announceable : Announceable factoryNode where
  terminated := by decide +kernel
  fields_plain := by
    have hall : ∀ f ∈ Field.all, f.isText = true →
        (0x25 : UInt8) ∉ fieldText factoryNode.g_web_config f := by
      decide +kernel
    intro f
    exact hall f f.mem_all
  clean := ⟨by decide, by decide, by decide, by decide⟩
  reports_plain := by decide
  battery_info := by decide
  eCos_ver := by decide
  samd_ver := by decide
  timo_ver := by decide
  operation_mode := by decide

def factoryDatagram : List UInt8 := (client_thread_main factoryNode 1 zeroed).2.getD []

theorem factoryDatagram_slot :
    chosenSlot factoryNode (inet_ntoa ⟨10, 10, 100, 1⟩) (received factoryDatagram) startMemory =
      some (1, insertWrites (inet_ntoa ⟨10, 10, 100, 1⟩) (received factoryDatagram)) := by
  decide +kernel

theorem announcement_stored_sample :
    factoryDatagram.length = 100 ∧
      ∃ M', populate_new_client factoryNode (inet_ntoa ⟨10, 10, 100, 1⟩)
          (received factoryDatagram) startMemory = some M' ∧
        ∀ p ∈ ownValues factoryNode 1, Terminated M'.client_list (memberAt 1 p.1) p.1.size ∧
          textOf M'.client_list 1 p.1 = p.2 :=
  have hsend : client_thread_main factoryNode 1 zeroed = (_, some factoryDatagram) := rfl
  announcement_stored factoryNode_announceable factoryNode_fits hsend factoryDatagram_slot

end AksFirmware.Announcement
