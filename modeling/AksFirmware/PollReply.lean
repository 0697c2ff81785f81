import AksFirmware.ArtNetDispatch
import AksFirmware.ConfigCommands

/-!
# What a poll reply says of the node

`init_artpollreply_msg` fills the reply once, when `sACN_main` starts; before the reply is
sent `process_artnet_msg` puts in the IP address again and nothing else.  The name is
changed by commands while the node runs, and `NetSwitch`, `SubSwitch` and `SwOut` are left
at zero: the universe and the subnet are read only where a DMX packet is compared with
them.
-/

namespace AksFirmware.PollReply

open ByteMemory CText WebConfig Gaffer ConfigFlash ConfigCommands ArtNet ArtNetDispatch

/-! ### The running node -/

/-- The record that `sACN_main` started with, the record now, what other threads set, the
receiver, and the replies sent so far with the setup each was sent under. -/
structure Running where
  started : Mem
  config : ConfigStore
  ipAddress : InAddr
  artnet_enable : Int
  node : Node
  sent : List (Setup × List UInt8)

/-- No text that the receiver reads depends on the number of clients. -/
def Running.setup (s : Running) : Setup :=
  ⟨⟨s.config.g_web_config, 0⟩, s.ipAddress, s.artnet_enable⟩

inductive Event where
  | command (c : Command)
  | ipAddress (ip : InAddr)
  | artnet_enable (on : Int)
  | datagram (raw : Mem) (len : Nat) (sin_addr : InAddr)
  | restart

/-- From reset to the loop of `sACN_main`. -/
def app_main (build_img : Text) (config : ConfigStore) (sent : List (Setup × List UInt8)) :
    Running :=
  let config := web_flash_data_init build_img 0 config
  { started := config.g_web_config
    config := config
    ipAddress := ⟨0, 0, 0, 0⟩
    artnet_enable := 0
    node := boot ⟨⟨config.g_web_config, 0⟩, ⟨0, 0, 0, 0⟩, 0⟩
    sent := sent }

/-- `temp_buf[0] == '0'`, on the protocol that was read when `sACN_main` started. -/
def ArtNetChosen (started : Mem) : Prop :=
  (ratpac_get_str ⟨started, 0⟩ CFG_PROTNAME).2.head? = some 0x30

instance (started : Mem) : Decidable (ArtNetChosen started) := inferInstanceAs (Decidable (_ = _))

/-- Under another protocol a datagram is not seen by `process_artnet_msg`. -/
def step (build_img : Text) (s : Running) : Event → Option Running
  | .command c => (ConfigCommands.step build_img s.config c).map fun config =>
      { s with config := config }
  | .ipAddress ip => some { s with ipAddress := ip }
  | .artnet_enable on => some { s with artnet_enable := on }
  | .datagram raw len sin_addr =>
      if ArtNetChosen s.started then
        (process_artnet_msg s.setup raw len sin_addr s.node).map fun done =>
          { s with
            node := done.2
            sent := s.sent ++
              (done.2.replies.drop s.node.replies.length).map fun r => (s.setup, r.2) }
      else some s
  | .restart => some (app_main build_img s.config s.sent)

/-! ### What a reply says -/

structure Advertised where
  ip : List UInt8
  name : Text
  address : Nat
deriving DecidableEq

/-- `IP_Address`, `ShortName` up to its end, and the Port-Address of `NetSwitch`,
`SubSwitch` and `SwOut[0]`. -/
def advertised (reply : List UInt8) : Advertised :=
  let m := store zeroed 0 reply
  { ip := load m 10 4
    name := text m 26 18
    address := (m 18).toNat % 128 * 256 + (m 19).toNat % 16 * 16 + (m 190).toNat % 16 }

def nodeName (g : Mem) : Text := (ratpac_get_str ⟨g, 0⟩ (CFG_str2id "AKS_NAME")).2

/-- What a reply ought to say: the name and the IP address of this moment, and the address
that a DMX packet is compared with. -/
def inUse (S : Setup) : Option Advertised :=
  (mainAddress S.G).map fun a => ⟨ipBytes S.ipAddress, nodeName S.G.g_web_config, a⟩

/-- A reply sent now says what is in use: the name is still the one the node was started
with, short enough for `ShortName`, and the address is 0. -/
def Current (s : Running) : Prop :=
  (nodeName s.started).take 18 = nodeName s.config.g_web_config ∧ mainAddress s.setup.G = some 0

/-- The datagram is answered. -/
def Answered (s : Running) : Event → Prop
  | .datagram raw len _ => ArtNetChosen s.started ∧ TakenForPoll raw len
  | _ => False

/-! ### The reply that is kept -/

/-- What the kept reply holds in the bytes that are never written again. -/
structure Filled (started msg : Mem) : Prop where
  name : text msg 26 18 = (nodeName started).take 18
  netSwitch : msg 18 = 0
  subSwitch : msg 19 = 0
  swOut : msg 190 = 0

theorem nodeName_length (g : Mem) : (nodeName g).length ≤ 100 := by
  have hfield : (fieldText g .name).length ≤ 100 := by
    have htake := (List.takeWhile_prefix (l := load g Field.name.offset
      (WEB_DATA_SIZE - Field.name.offset)) (· ≠ 0)).length_le
    rwa [load_length] at htake
  have hcase : getCases.lookup (CFG_str2id "AKS_NAME") = some (.name, none) := rfl
  simp only [nodeName, ratpac_get_str, hcase]
  split
  · exact Nat.zero_le _
  · decide
  · rename_i heq
    exact Option.some.inj heq ▸ hfield

/-- The only copy that reaches these bytes after the `memset` is the one of the name. -/
theorem init_byte (S : Setup) (n : Node) {x : Nat}
    (hx : x = 18 ∨ x = 19 ∨ x = 190 ∨ 26 ≤ x ∧ x < 44) :
    (init_artpollreply_msg S n).artpollreply_msg x =
      storeText zeroed 26 (ratpac_get_str S.G (CFG_str2id "AKS_NAME")).2 x := by
  have hid : (ascii "Art-Net").length = 7 := rfl
  have hlong : (ascii "Ratpac AKS - Designed by Ratpac Dimmers").length = 39 := rfl
  have hroom : 0 ≤ x ∧ x < 0 + (List.replicate ARTPOLLREPLY_SIZE (0 : UInt8)).length := by
    rw [List.length_replicate, ARTPOLLREPLY_SIZE]
    omega
  simp only [init_artpollreply_msg]
  -- behind the name
  rw [store_of_outside _ _ (by simp; omega), store_of_outside _ _ (by simp; omega),
    store_of_outside _ _ (by simp; omega), store_of_outside _ _ (by simp; omega),
    store_of_outside _ _ (by simp; omega), storeText_of_outside _ _ (by rw [hlong]; omega)]
  apply storeText_congr
  -- before the name
  rw [store_of_outside _ _ (by simp; omega), store_of_outside _ _ (by simp; omega),
    store_of_outside _ _ (by simp; omega), store_of_outside _ _ (by simp; omega),
    store_of_outside _ _ (by simp; omega), store_of_outside _ _ (by simp [ipBytes]; omega),
    store_of_outside _ _ (by simp; omega), storeText_of_outside _ _ (.inr (by rw [hid]; omega)),
    store_eq, dif_pos hroom, List.getElem_replicate]
  rfl

theorem boot_filled (S : Setup) : Filled S.G.g_web_config (boot S).artpollreply_msg := by
  have hname : (ratpac_get_str S.G (CFG_str2id "AKS_NAME")).2 = nodeName S.G.g_web_config := rfl
  have hlen := nodeName_length S.G.g_web_config
  constructor
  · have hzero : (0 : UInt8) ∉ nodeName S.G.g_web_config := zero_notMem_ratpac_get_str _ _
    rw [← text_storeText_take zeroed 26 18 hzero, ← hname]
    exact text_congr fun i hi => init_byte S _ (by omega)
  · rw [boot, init_byte S _ (by omega), hname, storeText_of_outside _ _ (by omega)]
    rfl
  · rw [boot, init_byte S _ (by omega), hname, storeText_of_outside _ _ (by omega)]
    rfl
  · rw [boot, init_byte S _ (by omega), hname, storeText_of_outside _ _ (by omega)]
    rfl

theorem app_main_filled (build_img : Text) (config : ConfigStore)
    (sent : List (Setup × List UInt8)) :
    Filled (app_main build_img config sent).started
      (app_main build_img config sent).node.artpollreply_msg :=
  boot_filled ⟨⟨(web_flash_data_init build_img 0 config).g_web_config, 0⟩, ⟨0, 0, 0, 0⟩, 0⟩

theorem Filled.with_address {started msg : Mem} (h : Filled started msg) (ip : InAddr) :
    Filled started (store msg 10 (ipBytes ip)) := by
  have hout : ∀ x, 14 ≤ x → store msg 10 (ipBytes ip) x = msg x := fun x hx =>
    store_of_outside msg _ (by simp [ipBytes]; omega)
  constructor
  · rw [← h.name]
    exact text_congr fun i _ => hout (26 + i) (by omega)
  · rw [hout 18 (by decide), h.netSwitch]
  · rw [hout 19 (by decide), h.subSwitch]
  · rw [hout 190 (by decide), h.swOut]

theorem step_filled {build_img : Text} {s t : Running} {e : Event}
    (hs : Filled s.started s.node.artpollreply_msg) (h : step build_img s e = some t) :
    Filled t.started t.node.artpollreply_msg := by
  cases e with
  | command c =>
    obtain ⟨config, -, rfl⟩ := Option.map_eq_some_iff.mp h
    exact hs
  | ipAddress ip =>
    obtain rfl := Option.some.inj h
    exact hs
  | artnet_enable on =>
    obtain rfl := Option.some.inj h
    exact hs
  | datagram raw len sin_addr =>
    rw [step] at h
    split at h
    · obtain ⟨done, hdone, rfl⟩ := Option.map_eq_some_iff.mp h
      change Filled s.started done.2.artpollreply_msg
      rw [(artnet_outputs hdone).2.1]
      split
      · exact hs.with_address _
      · exact hs
    · obtain rfl := Option.some.inj h
      exact hs
  | restart =>
    obtain rfl := Option.some.inj h
    exact app_main_filled build_img s.config s.sent

/-! ### What the replies of a run say -/

/-- Whatever is in use, a reply has the IP address of the moment, the name from the start
of the node and the address 0. -/
theorem advertised_pollReply {S : Setup} {n : Node} {started : Mem}
    (h : Filled started n.artpollreply_msg) :
    advertised (pollReply S n) = ⟨ipBytes S.ipAddress, (nodeName started).take 18, 0⟩ := by
  have hfilled := h.with_address S.ipAddress
  have hbyte : ∀ x < ARTPOLLREPLY_SIZE, store zeroed 0 (pollReply S n) x =
      store n.artpollreply_msg 10 (ipBytes S.ipAddress) x := by
    intro x hx
    rw [pollReply, store_load_eq, if_pos (by omega), Nat.sub_zero, Nat.zero_add]
  have hsize : ARTPOLLREPLY_SIZE = 239 := rfl
  have hip : load (store zeroed 0 (pollReply S n)) 10 4 = ipBytes S.ipAddress := by
    rw [load_congr fun i _ => hbyte (10 + i) (by omega)]
    exact load_store_same n.artpollreply_msg 10 (ipBytes S.ipAddress)
  have hname : text (store zeroed 0 (pollReply S n)) 26 18 = (nodeName started).take 18 := by
    rw [text_congr fun i _ => hbyte (26 + i) (by omega)]
    exact hfilled.name
  simp only [advertised, hip, hname, hbyte 18 (by decide), hbyte 19 (by decide),
    hbyte 190 (by decide), hfilled.netSwitch, hfilled.subSwitch, hfilled.swOut]
  rfl

theorem reply_inUse_iff {s : Running} (h : Filled s.started s.node.artpollreply_msg) :
    some (advertised (pollReply s.setup s.node)) = inUse s.setup ↔ Current s := by
  rw [advertised_pollReply h, Current, inUse]
  cases mainAddress s.setup.G with
  | none => simp
  | some a => simp [Running.setup, eq_comm]

theorem step_sent {build_img : Text} {s t : Running} {e : Event}
    (hs : Filled s.started s.node.artpollreply_msg) (h : step build_img s e = some t) :
    ∃ new, t.sent = s.sent ++ new ∧
      ((∀ r ∈ new, some (advertised r.2) = inUse r.1) ↔ (Answered s e → Current s)) := by
  have hsilent : ¬ Answered s e → t.sent = s.sent → ∃ new, t.sent = s.sent ++ new ∧
      ((∀ r ∈ new, some (advertised r.2) = inUse r.1) ↔ (Answered s e → Current s)) :=
    fun hnot hsame => ⟨[], by rw [hsame, List.append_nil],
      iff_of_true (List.forall_mem_nil _) fun hyes => absurd hyes hnot⟩
  cases e with
  | command c =>
    obtain ⟨config, -, rfl⟩ := Option.map_eq_some_iff.mp h
    exact hsilent id rfl
  | ipAddress ip =>
    obtain rfl := Option.some.inj h
    exact hsilent id rfl
  | artnet_enable on =>
    obtain rfl := Option.some.inj h
    exact hsilent id rfl
  | datagram raw len sin_addr =>
    rw [step] at h
    split at h
    · rename_i hchosen
      obtain ⟨done, hdone, rfl⟩ := Option.map_eq_some_iff.mp h
      refine ⟨_, rfl, ?_⟩
      rw [(artnet_outputs hdone).1, List.drop_left]
      by_cases htaken : TakenForPoll raw len
      · have hanswered : Answered s (.datagram raw len sin_addr) := ⟨hchosen, htaken⟩
        simp only [if_pos htaken, List.map_cons, List.map_nil, List.forall_mem_singleton,
          reply_inUse_iff hs, hanswered, true_imp_iff]
      · have hnot : ¬ Answered s (.datagram raw len sin_addr) := fun hyes => htaken hyes.2
        simp [if_neg htaken, hnot]
    · rename_i hchosen
      obtain rfl := Option.some.inj h
      exact hsilent (fun hyes => hchosen hyes.1) rfl
  | restart =>
    obtain rfl := Option.some.inj h
    exact hsilent id rfl

/-- **What the replies of a run say.**  In every run from the start of a node, all replies
sent carry the IP address and the name of the moment and the address that DMX packets are
compared with if and only if each poll is answered while the name is the one the node was
started with and the address is 0. -/
theorem replies_in_use_iff {build_img : Text} {config : ConfigStore} {events : List Event}
    {s : Running}
    (hrun : Runs.exec (step build_img) (app_main build_img config []) events = some s) :
    (∀ r ∈ s.sent, some (advertised r.2) = inUse r.1) ↔
      Runs.Each (step build_img) (fun s e => Answered s e → Current s)
        (app_main build_img config []) events := by
  rw [Runs.exec_log_iff (fun _ _ _ => step_filled) (fun _ _ _ => step_sent)
    (app_main_filled build_img config []) hrun]
  exact and_iff_right (List.forall_mem_nil _)

/-! ### A poll after a change -/

def blankFlash : ConfigStore := ⟨zeroed, zeroed⟩

/-- A node as it leaves the factory. -/
def factoryNode : Running := app_main (ascii "AKS") blankFlash []

/-- The node gets an address and is polled. -/
def firstPoll : List Event :=
  [.ipAddress ⟨10, 10, 100, 254⟩, .datagram pollPacket 14 ⟨10, 10, 100, 1⟩]

/-- A poll always has an outcome, and one reply. -/
theorem step_poll (build_img : Text) {s : Running} (hchosen : ArtNetChosen s.started) {raw : Mem}
    {len : Nat} (h : TakenForPoll raw len) (sin_addr : InAddr) :
    ∃ t, step build_img s (.datagram raw len sin_addr) = some t ∧
      t.sent = s.sent ++ [(s.setup, pollReply s.setup s.node)] := by
  obtain ⟨done, hdone⟩ : ∃ done, process_artnet_msg s.setup raw len sin_addr s.node = some done := by
    obtain ⟨hid, hlen, hop⟩ := h
    unfold process_artnet_msg
    simp only [store_byte_of_ne raw 0 (show 9 ≠ 7 by decide)]
    rw [if_neg (not_not.mpr ((strcmp_id_iff raw).mpr hid)), if_pos hlen, if_neg (not_not.mpr hop)]
    exact ⟨_, rfl⟩
  have hsent : (done.2.replies.drop s.node.replies.length).map (fun r => (s.setup, r.2)) =
      [(s.setup, pollReply s.setup s.node)] := by
    rw [(artnet_outputs hdone).1, if_pos h, List.drop_left, List.map_singleton]
  rw [step, if_pos hchosen, hdone]
  exact ⟨_, rfl, congrArg (s.sent ++ ·) hsent⟩

theorem firstPoll_sent (build_img : Text) {s : Running} (hchosen : ArtNetChosen s.started) :
    ∃ t, Runs.exec (step build_img) s firstPoll = some t ∧
      t.sent = s.sent ++ [({ s with ipAddress := ⟨10, 10, 100, 254⟩ }.setup,
        pollReply { s with ipAddress := ⟨10, 10, 100, 254⟩ }.setup s.node)] := by
  have htaken : TakenForPoll pollPacket 14 := by decide
  obtain ⟨t, hstep, hsent⟩ := step_poll build_img
    (s := { s with ipAddress := ⟨10, 10, 100, 254⟩ }) hchosen htaken ⟨10, 10, 100, 1⟩
  exact ⟨t, Runs.exec_cons_eq_some.mpr ⟨_, rfl, Runs.exec_cons_eq_some.mpr ⟨t, hstep, rfl⟩⟩, hsent⟩

theorem factoryNode_chosen : ArtNetChosen factoryNode.started := by decide +kernel

theorem replies_in_use_first_poll :
    ∃ s, Runs.exec (step (ascii "AKS")) factoryNode firstPoll = some s ∧ s.sent ≠ [] ∧
      ((∀ r ∈ s.sent, some (advertised r.2) = inUse r.1) ↔
        Runs.Each (step (ascii "AKS")) (fun s e => Answered s e → Current s) factoryNode
          firstPoll) := by
  obtain ⟨s, hrun, hsent⟩ := firstPoll_sent (ascii "AKS") factoryNode_chosen
  exact ⟨s, hrun, by simp [hsent], replies_in_use_iff hrun⟩

/-- A reply that follows a command is wrong if the command leaves other values in use. -/
theorem stale_reply {build_img : Text} {s : Running} {c : Command} {config : ConfigStore}
    (hfilled : Filled s.started s.node.artpollreply_msg) (hchosen : ArtNetChosen s.started)
    (hstep : ConfigCommands.step build_img s.config c = some config)
    (hchange : ¬ Current { s with config := config, ipAddress := ⟨10, 10, 100, 254⟩ }) :
    ∃ t, Runs.exec (step build_img) s (.command c :: firstPoll) = some t ∧
      ¬ ∀ r ∈ t.sent, some (advertised r.2) = inUse r.1 := by
  have hcommand : step build_img s (.command c) = some { s with config := config } := by
    rw [step, hstep, Option.map_some]
  obtain ⟨t, hrun, hsent⟩ := firstPoll_sent build_img (s := { s with config := config }) hchosen
  refine ⟨t, Runs.exec_cons_eq_some.mpr ⟨_, hcommand, hrun⟩, fun hall => hchange ?_⟩
  have hlast := hall _ (by rw [hsent]; exact List.mem_append_right _ List.mem_cons_self)
  exact (reply_inUse_iff (s := { s with config := config, ipAddress := ⟨10, 10, 100, 254⟩ })
    hfilled).mp hlast

def renameRequest : Request := ⟨some (ascii "RENAME_AKS=Stage left"), fun _ => none⟩

/-- The node is renamed by a request, or moved to universe 5 by an AT command, and then
polled. -/
theorem stale_replies :
    (∃ s, Runs.exec (step (ascii "AKS")) factoryNode
        (.command (.cgi quietPlatform renameRequest) :: firstPoll) = some s ∧
      ¬ ∀ r ∈ s.sent, some (advertised r.2) = inUse r.1) ∧
    ∃ s, Runs.exec (step (ascii "AKS")) factoryNode
        (.command (.atcmd .UNIVERSE [ascii "5"]) :: firstPoll) = some s ∧
      ¬ ∀ r ∈ s.sent, some (advertised r.2) = inUse r.1 := by
  constructor
  · apply stale_reply (app_main_filled _ _ _) factoryNode_chosen rfl
    unfold Current
    decide +kernel
  · apply stale_reply (app_main_filled _ _ _) factoryNode_chosen rfl
    unfold Current
    decide +kernel

end AksFirmware.PollReply
