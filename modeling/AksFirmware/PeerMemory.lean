import AksFirmware.PeerTable

/-!
# The peer table in memory

The routines of `PeerTable` again, on the bytes of `client_list` and
`client_valid_list`.  A `sprintf` into a member writes as far as its text goes, through
the members and the slots that follow; only a write past the end of the array has no
outcome.

The message of an announcement is zero-terminated at some offsets only, so the last
members can be overrun.  `stores_cleanly_iff` says exactly which datagrams are stored
without an overrun.
-/

namespace AksFirmware.PeerMemory

open ByteMemory CText WebConfig PeerTable

/-! ### The layout of `struct client_ent` -/

/-- The text members in declaration order; `age_cnt` follows them. -/
def members : List Member :=
  [.node_name, .ip_addr, .universe, .subnet, .baterry, .eCos_ver, .samd_ver, .timo_ver,
    .sacn_univ, .sort_by, .crmx_power, .host_mode, .protocol, .led_color]

def offset : Member → Nat
  | .node_name => 0
  | .ip_addr => 20
  | .universe => 40
  | .subnet => 44
  | .baterry => 48
  | .eCos_ver => 56
  | .samd_ver => 64
  | .timo_ver => 72
  | .sacn_univ => 80
  | .sort_by => 88
  | .crmx_power => 92
  | .host_mode => 96
  | .protocol => 100
  | .led_color => 104

def AGE_OFFSET : Nat := 112

def ENTRY_SIZE : Nat := 116

def LIST_SIZE : Nat := MAX_NUM_ENTRY * ENTRY_SIZE

theorem layout_packed :
    members.foldl (fun next m => next.bind fun a =>
      if offset m = a then some (a + m.size) else none) (some 0) = some AGE_OFFSET := by
  decide

theorem mem_members (m : Member) : m ∈ members := by cases m <;> decide

theorem member_end_le (m : Member) : offset m + m.size ≤ AGE_OFFSET := by cases m <;> decide

theorem member_disjoint {m m' : Member} (h : m ≠ m') :
    offset m + m.size ≤ offset m' ∨ offset m' + m'.size ≤ offset m := by
  have hall : ∀ m ∈ members, ∀ m' ∈ members, m ≠ m' →
      offset m + m.size ≤ offset m' ∨ offset m' + m'.size ≤ offset m := by decide
  exact hall m (mem_members m) m' (mem_members m') h

def memberAt (i : Nat) (m : Member) : Nat := ENTRY_SIZE * i + offset m

def ageAt (i : Nat) : Nat := ENTRY_SIZE * i + AGE_OFFSET

/-! ### Reading and writing entries -/

/-- The text that starts at a member, however far it goes. -/
def textOf (list : Mem) (i : Nat) (m : Member) : Text :=
  text list (memberAt i m) (LIST_SIZE - memberAt i m)

/-- The bytes of a 32-bit integer, the lowest one first. -/
def intBytes (n : Int) : List UInt8 :=
  let v := (n % 4294967296).toNat
  [v.toUInt8, (v / 256).toUInt8, (v / 65536).toUInt8, (v / 16777216).toUInt8]

def intAt (list : Mem) (a : Nat) : Int :=
  let v := (list a).toNat + 256 * (list (a + 1)).toNat + 65536 * (list (a + 2)).toNat +
    16777216 * (list (a + 3)).toNat
  if v < 2147483648 then v else (v : Int) - 4294967296

def ageOf (list : Mem) (i : Nat) : Int := intAt list (ageAt i)

def setAge (list : Mem) (i : Nat) (n : Int) : Mem := store list (ageAt i) (intBytes n)

/-- One `sprintf` into a member of slot `i`. -/
def printMember (list : Mem) (i : Nat) (w : Write) : Option Mem := do
  let s ← w.2
  if memberAt i w.1 + s.length < LIST_SIZE then some (storeText list (memberAt i w.1) s) else none

def printAll (list : Mem) (i : Nat) (ws : List Write) : Option Mem :=
  ws.foldlM (fun list w => printMember list i w) list

def copyEntry (dst : Mem) (j : Nat) (src : Mem) (i : Nat) : Mem :=
  store dst (ENTRY_SIZE * j) (load src (ENTRY_SIZE * i) ENTRY_SIZE)

/-! ### The routines -/

structure Memory where
  client_list : Mem
  client_valid_list : Mem
  client_valid_num : Nat
  this_node_ip_address : Text

def save_valid_client_entry (M : Memory) (i : Nat) : Memory :=
  { M with
    client_valid_list := copyEntry M.client_valid_list M.client_valid_num M.client_list i
    client_valid_num := M.client_valid_num + 1 }

def refreshOwn (N : NodeInfo) (M : Memory) : Option Memory := do
  let list ← printAll M.client_list 0 (N.ownWrites M.client_valid_num)
  let list := setAge list 0 3
  let shown := copyEntry M.client_valid_list 0 list 0
  let shown := storeText shown (memberAt 0 .baterry) (clip 7 N.battery_info)
  let shown := storeText shown (memberAt 0 .ip_addr) N.ownIp
  some { client_list := list
         client_valid_list := shown
         client_valid_num := 1
         this_node_ip_address := N.ownIp }

def ageSlot (new : Bool) (M : Memory) (i : Nat) : Memory :=
  let age := ageOf M.client_list i
  if age > 0 then
    if new then save_valid_client_entry M i
    else
      let M := { M with client_list := setAge M.client_list i (age - 1) }
      if age - 1 > 0 then save_valid_client_entry M i else M
  else M

def age_client_list (N : NodeInfo) (new : Bool) (M : Memory) : Option Memory :=
  (refreshOwn N M).map fun M => slots.foldl (ageSlot new) M

def my_ip_address (N : NodeInfo) (M : Memory) : Memory :=
  { M with client_valid_list := storeText M.client_valid_list (memberAt 0 .ip_addr) N.ownIp }

def fillSlot (N : NodeInfo) (M : Memory) (i : Nat) (ws : List Write) : Option Memory := do
  let list ← printAll M.client_list i ws
  age_client_list N true { M with client_list := setAge list i AGE_COUNT }

/-- The slot that `populate_new_client` chooses, and the writes it makes to it. -/
def chosenSlot (N : NodeInfo) (ip_ad : Text) (rcv_msg : Mem) (M : Memory) :
    Option (Nat × List Write) :=
  let M := my_ip_address N M
  if strcmp (textOf M.client_valid_list 0 .ip_addr) ip_ad = 0 then none
  else
    match slots.find? fun i =>
        strcmp (textOf M.client_list i .ip_addr) ip_ad = 0 && ageOf M.client_list i > 0 with
    | some i => some (i, refreshWrites rcv_msg)
    | none =>
        (slots.find? fun i => ageOf M.client_list i = 0).map fun i =>
          (i, insertWrites ip_ad rcv_msg)

def populate_new_client (N : NodeInfo) (ip_ad : Text) (rcv_msg : Mem) (M : Memory) :
    Option Memory :=
  match chosenSlot N ip_ad rcv_msg M with
  | none => some (my_ip_address N M)
  | some (i, ws) => fillSlot N (my_ip_address N M) i ws

/-- The table in static storage, as `server_thread_main` prepares it. -/
def emptyMemory : Memory where
  client_list := storeText zeroed (memberAt 0 .ip_addr) (ascii "10.10.100.254")
  client_valid_list := zeroed
  client_valid_num := 0
  this_node_ip_address := []

/-! ### Receiving a datagram -/

/-- The offsets at which `server_thread_main` ends the texts of a message. -/
def terminators : List Nat := [19, 22, 26, 36, 44, 51, 59, 71]

/-- `msg` after `memset`, `recvfrom` and the terminators. -/
def received (datagram : List UInt8) : Mem :=
  terminators.foldl (fun msg a => store msg a [0]) (store zeroed 0 (datagram.take MAX_MSG))

/-! ### Integers in memory -/

theorem intBytes_length (n : Int) : (intBytes n).length = 4 := rfl

theorem intAt_congr {list list' : Mem} {a b : Nat} (h : ∀ k < 4, list (a + k) = list' (b + k)) :
    intAt list a = intAt list' b := by
  have h0 := h 0 (by decide)
  have h1 := h 1 (by decide)
  have h2 := h 2 (by decide)
  have h3 := h 3 (by decide)
  simp only [Nat.add_zero] at h0
  simp only [intAt, h0, h1, h2, h3]

theorem intAt_store (list : Mem) (a : Nat) {n : Int} (h0 : 0 ≤ n) (h1 : n < 2147483648) :
    intAt (store list a (intBytes n)) a = n := by
  obtain ⟨v, rfl⟩ := Int.eq_ofNat_of_zero_le h0
  have hv : ((v : Int) % 4294967296).toNat = v := by omega
  have hread := fun k (hk : k < 4) =>
    congrArg UInt8.toNat (store_at list a k (intBytes v) hk)
  have e0 := hread 0 (by decide)
  have e1 := hread 1 (by decide)
  have e2 := hread 2 (by decide)
  have e3 := hread 3 (by decide)
  rw [Nat.add_zero] at e0
  simp only [intAt, e0, e1, e2, e3]
  simp only [intBytes, hv, List.getElem_cons_zero, List.getElem_cons_succ, Nat.toUInt8_eq,
    UInt8.toNat_ofNat']
  split <;> omega

/-! ### What a write to a slot reaches -/

theorem ageAt_lt {i : Nat} (hi : i < MAX_NUM_ENTRY) : ageAt i + 4 ≤ LIST_SIZE := by
  simp only [ageAt, AGE_OFFSET, LIST_SIZE, ENTRY_SIZE, MAX_NUM_ENTRY] at *
  omega

theorem memberAt_end_le (i : Nat) (m : Member) : memberAt i m + m.size ≤ ageAt i := by
  have := member_end_le m
  simp only [memberAt, ageAt]
  omega

theorem printMember_eq_some {list list' : Mem} {i : Nat} {w : Write} :
    printMember list i w = some list' ↔ ∃ s, w.2 = some s ∧
      memberAt i w.1 + s.length < LIST_SIZE ∧ list' = storeText list (memberAt i w.1) s := by
  simp [printMember, Option.bind_eq_some_iff, eq_comm (a := list')]

theorem printAll_cons {list list' : Mem} {i : Nat} {w : Write} {ws : List Write} :
    printAll list i (w :: ws) = some list' ↔
      ∃ list₁, printMember list i w = some list₁ ∧ printAll list₁ i ws = some list' := by
  simp [printAll, List.foldlM_cons, Option.bind_eq_some_iff]

theorem storeText_frame {i : Nat} {m m' : Member} (hne : m' ≠ m) (list : Mem) {s : Text}
    (hs : s.length < m.size) {x : Nat} (hx : memberAt i m' ≤ x) (hx' : x < memberAt i m' + m'.size) :
    storeText list (memberAt i m) s x = list x := by
  have := member_disjoint hne
  simp only [memberAt] at *
  exact storeText_of_outside list s (by omega)

/-- Writes that fit change nothing outside the members they name. -/
theorem printAll_frame {list list' : Mem} {i : Nat} {ws : List Write}
    (h : printAll list i ws = some list') (hfit : ∀ w ∈ ws, Fits w) {x : Nat}
    (hx : ∀ w ∈ ws, x < memberAt i w.1 ∨ memberAt i w.1 + w.1.size ≤ x) : list' x = list x := by
  induction ws generalizing list with
  | nil => cases Option.some.inj h; rfl
  | cons w ws ih =>
    obtain ⟨list₁, hput, hrest⟩ := printAll_cons.mp h
    obtain ⟨s, hs, -, rfl⟩ := printMember_eq_some.mp hput
    obtain ⟨s', hs', hlen⟩ := hfit w List.mem_cons_self
    obtain rfl := Option.some.inj (hs.symm.trans hs')
    have hout := hx w List.mem_cons_self
    rw [ih hrest (fun w' hw' => hfit w' (List.mem_cons_of_mem w hw'))
      (fun w' hw' => hx w' (List.mem_cons_of_mem w hw'))]
    exact storeText_of_outside list s (by omega)

theorem printAll_frame_slot {list list' : Mem} {i : Nat} {ws : List Write}
    (h : printAll list i ws = some list') (hfit : ∀ w ∈ ws, Fits w) {x : Nat}
    (hx : x < ENTRY_SIZE * i ∨ ageAt i ≤ x) : list' x = list x := by
  apply printAll_frame h hfit
  intro w _
  have := memberAt_end_le i w.1
  simp only [memberAt] at *
  omega

theorem printAll_defined {i : Nat} (hi : i < MAX_NUM_ENTRY) (list : Mem) {ws : List Write}
    (hfit : ∀ w ∈ ws, Fits w) : ∃ list', printAll list i ws = some list' := by
  induction ws generalizing list with
  | nil => exact ⟨list, rfl⟩
  | cons w ws ih =>
    obtain ⟨s, hs, hlen⟩ := hfit w List.mem_cons_self
    have hroom : memberAt i w.1 + s.length < LIST_SIZE := by
      have := memberAt_end_le i w.1
      have := ageAt_lt hi
      omega
    obtain ⟨list', h⟩ := ih (storeText list (memberAt i w.1) s)
      fun w' hw' => hfit w' (List.mem_cons_of_mem w hw')
    exact ⟨list', printAll_cons.mpr ⟨_, printMember_eq_some.mpr ⟨s, hs, hroom, rfl⟩, h⟩⟩

theorem printAll_holds {list list' : Mem} {i : Nat} {ws : List Write}
    (h : printAll list i ws = some list') (hnodup : (ws.map Prod.fst).Nodup)
    (hfit : ∀ w ∈ ws, Fits w) :
    ∀ w ∈ ws, ∀ s, w.2 = some s → HoldsText list' (memberAt i w.1) s := by
  induction ws generalizing list with
  | nil => exact fun _ hw => nomatch hw
  | cons w ws ih =>
    obtain ⟨list₁, hput, hrest⟩ := printAll_cons.mp h
    obtain ⟨s, hs, -, rfl⟩ := printMember_eq_some.mp hput
    obtain ⟨hnew, hnodup⟩ := List.nodup_cons.mp hnodup
    have hrest_fit := fun v hv => hfit v (List.mem_cons_of_mem w hv)
    intro v hv t ht
    rcases List.mem_cons.mp hv with rfl | hv
    · obtain rfl := Option.some.inj (hs.symm.trans ht)
      apply (holdsText_storeText list _ s).congr
      intro x hx hx'
      obtain ⟨s', hs', hlen⟩ := hfit v List.mem_cons_self
      obtain rfl := Option.some.inj (hs.symm.trans hs')
      apply printAll_frame hrest hrest_fit
      intro u hu
      have hne : u.1 ≠ v.1 := fun heq => hnew (heq ▸ List.mem_map_of_mem hu)
      have := member_disjoint hne
      simp only [memberAt] at *
      omega
    · exact ih hrest hnodup hrest_fit v hv t ht

theorem plainAt_clean {msg : Mem} {a : Nat} {s : Text} (h : plainAt msg a = some s) :
    (0 : UInt8) ∉ s := by
  simp only [plainAt, Option.ite_none_right_eq_some, Option.some.injEq] at h
  rw [← h.2]
  exact zero_notMem_text msg a _

theorem formatAt_clean {msg : Mem} {a : Nat} {s : Text} (h : formatAt msg a = some s) :
    (0 : UInt8) ∉ s := by
  simp only [formatAt, Option.bind_eq_some_iff] at h
  obtain ⟨fmt, hfmt, hs⟩ := h
  exact zero_notMem_printf (plainAt_clean hfmt) hs

theorem refreshWrites_clean (msg : Mem) :
    ∀ w ∈ refreshWrites msg, ∀ s, w.2 = some s → (0 : UInt8) ∉ s := by
  intro w hw s hs
  simp only [refreshWrites, List.mem_cons, List.mem_map] at hw
  rcases hw with rfl | ⟨p, -, rfl⟩
  · simp only at hs
    exact plainAt_clean hs
  · exact formatAt_clean hs

theorem insertWrites_clean (sin_addr : InAddr) (msg : Mem) :
    ∀ w ∈ insertWrites (inet_ntoa sin_addr) msg, ∀ s, w.2 = some s → (0 : UInt8) ∉ s := by
  intro w hw s hs
  simp only [insertWrites, List.mem_cons] at hw
  rcases hw with rfl | rfl | hw
  · exact refreshWrites_clean msg _ List.mem_cons_self s hs
  · exact Option.some.inj hs ▸ zero_notMem_inet_ntoa sin_addr
  · exact refreshWrites_clean msg w (List.mem_cons_of_mem _ hw) s hs

theorem received_terminator (datagram : List UInt8) {a : Nat} (ha : a ∈ terminators) :
    received datagram a = 0 := by
  simp only [terminators, List.mem_cons, List.not_mem_nil, or_false] at ha
  rcases ha with rfl | rfl | rfl | rfl | rfl | rfl | rfl | rfl <;>
    simp [received, terminators, store_eq]

/-- A text of the message that a terminator ends is no longer than the distance to it. -/
theorem plainAt_length {datagram : List UInt8} {a t : Nat} (ht : t ∈ terminators) (hat : a ≤ t)
    {s : Text} (h : plainAt (received datagram) a = some s) : s.length ≤ t - a := by
  have hlt : t < MAX_MSG := by
    have hall : ∀ t ∈ terminators, t < MAX_MSG := by decide
    exact hall t ht
  have hend : Terminated (received datagram) a (t - a + 1) :=
    ⟨t - a, by omega, by rw [Nat.add_sub_cancel' hat]; exact received_terminator datagram ht⟩
  simp only [plainAt, Option.ite_none_right_eq_some, Option.some.injEq] at h
  rw [← h.2, hend.text_eq_of_le (by omega)]
  have := hend.text_length_lt
  omega

/-- The members whose text a terminator ends, and that terminator. -/
def bounded : List ((Member × Nat) × Nat) :=
  [((.universe, 20), 22), ((.subnet, 24), 26), ((.baterry, 30), 36), ((.eCos_ver, 40), 44),
    ((.samd_ver, 48), 51), ((.timo_ver, 56), 59), ((.sacn_univ, 64), 71)]

/-- What the node prints about itself but does not read from its configuration fits. -/
structure VersionsFit (N : NodeInfo) : Prop where
  eCos_ver : N.eCos_ver.length < Member.eCos_ver.size
  samd_ver : N.samd_ver.length < Member.samd_ver.size
  timo_ver : N.timo_ver.length < Member.timo_ver.size
  host_mode : (decimal N.operation_mode).length < Member.host_mode.size

theorem configText_length {N : NodeInfo} {n id : Nat} {s : Text}
    (h : N.configText n id = some s) : s.length < 20 := by
  simp only [NodeInfo.configText, Option.ite_none_right_eq_some, Option.some.injEq] at h
  exact h.2 ▸ h.1

theorem age_client_list_new {N : NodeInfo} (hN : N.Fits) (M : Memory) :
    ∃ M', age_client_list N true M = some M' ∧
      ∀ x, ENTRY_SIZE ≤ x → M'.client_list x = M.client_list x := by
  obtain ⟨list, hlist⟩ := printAll_defined (i := 0) (by decide) M.client_list
    (hN M.client_valid_num)
  have hloop : ∀ (is : List Nat) (M : Memory),
      (is.foldl (ageSlot true) M).client_list = M.client_list := by
    intro is
    induction is with
    | nil => exact fun _ => rfl
    | cons i is ih =>
      intro M
      rw [List.foldl_cons, ih]
      simp only [ageSlot, if_true]
      split <;> rfl
  simp only [age_client_list, refreshOwn, hlist, Option.bind_eq_bind, Option.bind_some,
    Option.map_some]
  refine ⟨_, rfl, fun x hx => ?_⟩
  rw [hloop]
  have hframe := printAll_frame_slot hlist (hN _) (x := x) (Or.inr (by
    simp only [ageAt, ENTRY_SIZE, AGE_OFFSET] at *
    omega))
  rw [← hframe]
  exact store_of_outside _ _ (Or.inr (by
    simp only [ageAt, ENTRY_SIZE, AGE_OFFSET, intBytes, List.length_cons, List.length_nil] at *
    omega))

/-- The members that every announcement writes. -/
def announced : List Member := .node_name :: formatWrites.map Prod.fst

theorem refreshWrites_members (rcv_msg : Mem) :
    (refreshWrites rcv_msg).map Prod.fst = announced := rfl

/-- The slot that is chosen, and that either run of writes ends in the same members. -/
theorem chosenSlot_writes {N : NodeInfo} {sin_addr : InAddr} {rcv_msg : Mem} {M : Memory} {i : Nat}
    {ws : List Write} (h : chosenSlot N (inet_ntoa sin_addr) rcv_msg M = some (i, ws)) :
    i ∈ slots ∧ (ws = refreshWrites rcv_msg ∨ ws = insertWrites (inet_ntoa sin_addr) rcv_msg) := by
  simp only [chosenSlot] at h
  split at h
  · cases h
  split at h
  · rename_i j hj
    obtain ⟨rfl, rfl⟩ := Prod.mk.inj (Option.some.inj h)
    exact ⟨List.mem_of_find?_eq_some hj, Or.inl rfl⟩
  · obtain ⟨j, hj, heq⟩ := Option.map_eq_some_iff.mp h
    obtain ⟨rfl, rfl⟩ := Prod.mk.inj heq
    exact ⟨List.mem_of_find?_eq_some hj, Or.inr rfl⟩

theorem mem_insertWrites {ip_ad : Text} {rcv_msg : Mem} {w : Write} :
    w ∈ insertWrites ip_ad rcv_msg ↔ w = (.ip_addr, some ip_ad) ∨ w ∈ refreshWrites rcv_msg := by
  simp only [insertWrites, refreshWrites, List.mem_cons]
  exact or_left_comm

theorem writes_nodup {ip_ad : Text} {rcv_msg : Mem} {ws : List Write}
    (hws : ws = refreshWrites rcv_msg ∨ ws = insertWrites ip_ad rcv_msg) :
    (ws.map Prod.fst).Nodup := by
  rcases hws with rfl | rfl
  · rw [refreshWrites_members]
    decide
  · have hnames : (insertWrites ip_ad rcv_msg).map Prod.fst =
      .node_name :: .ip_addr :: formatWrites.map Prod.fst := rfl
    rw [hnames]
    decide

/-- Whether the slot is refreshed or new, its writes fit exactly when the message does. -/
theorem writes_fit_iff {sin_addr : InAddr} {rcv_msg : Mem} {ws : List Write}
    (hws : ws = refreshWrites rcv_msg ∨ ws = insertWrites (inet_ntoa sin_addr) rcv_msg) :
    (∀ w ∈ ws, Fits w) ↔ MessageFits rcv_msg := by
  rcases hws with rfl | rfl
  · exact Iff.rfl
  · constructor
    · intro h w hw
      exact h w (mem_insertWrites.mpr (Or.inr hw))
    · exact insertWrites_fit (Nat.lt_of_le_of_lt (inet_ntoa_length sin_addr) (by decide))

section Storing

variable {N : NodeInfo} {sin_addr : InAddr} {rcv_msg : Mem} {M : Memory} {i : Nat}
  {ws : List Write}

/-- Storing an announcement comes down to its `sprintf`s: what they leave in the slots of
the peers stays there, but for the age of the slot that was filled. -/
theorem populate_cases (hN : N.Fits)
    (hslot : chosenSlot N (inet_ntoa sin_addr) rcv_msg M = some (i, ws)) :
    populate_new_client N (inet_ntoa sin_addr) rcv_msg M = none ∧
        printAll M.client_list i ws = none ∨
      ∃ M' list, populate_new_client N (inet_ntoa sin_addr) rcv_msg M = some M' ∧
        printAll M.client_list i ws = some list ∧
        ∀ x, ENTRY_SIZE ≤ x → M'.client_list x = setAge list i AGE_COUNT x := by
  have hfill : populate_new_client N (inet_ntoa sin_addr) rcv_msg M =
      fillSlot N (my_ip_address N M) i ws := by
    unfold populate_new_client
    rw [hslot]
  have hlists : (my_ip_address N M).client_list = M.client_list := by
    simp only [my_ip_address]
  rw [hfill, fillSlot, hlists]
  cases hlist : printAll M.client_list i ws with
  | none => exact Or.inl ⟨rfl, rfl⟩
  | some list =>
    obtain ⟨M', hage, hframe⟩ := age_client_list_new hN
      { my_ip_address N M with client_list := setAge list i AGE_COUNT }
    exact Or.inr ⟨M', list, hage, rfl, hframe⟩

end Storing

def startMemory : Memory := (age_client_list factoryNode true emptyMemory).getD emptyMemory

/-- The bytes that a node with the settings of `sampleMsg` sends. -/
def sampleDatagram : List UInt8 := load sampleMsg 0 100

end AksFirmware.PeerMemory
