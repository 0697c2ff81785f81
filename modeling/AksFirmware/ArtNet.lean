import AksFirmware.Gaffer
import AksFirmware.Runs

/-!
# The Art-Net receiver

`process_artnet_msg` answers polls and hands the DMX packets of the main universe
to the serial port, with the gaffer's window merged in.  `send_artnet_header` turns
the slots of an E1.31 packet into an Art-Net packet in place.

What leaves the node is kept in two logs: the frames given to `hfuart_send` and the
datagrams given to `sendto`.
-/

namespace AksFirmware.ArtNet

open ByteMemory CText WebConfig Gaffer

/-- What the receiver reads from the rest of the firmware. -/
structure Setup where
  G : Globals
  ipAddress : InAddr
  artnet_enable : Int

/-- The receiver's own globals and its two outputs. -/
structure Node where
  gaffer_data : Mem
  artpollreply_msg : Mem
  artnet_hdr_msg : Mem
  dmx_count : UInt32
  uart : List (List UInt8)
  replies : List (InAddr × List UInt8)

/-! ### The messages of the node -/

def ARTPOLLREPLY_SIZE : Nat := 239

def ARTNET_HDR_SIZE : Nat := 18

def ipBytes (ip : InAddr) : List UInt8 := [ip.a, ip.b, ip.c, ip.d]

def init_artpollreply_msg (S : Setup) (n : Node) : Node :=
  let m := store n.artpollreply_msg 0 (List.replicate ARTPOLLREPLY_SIZE 0)
  let m := storeText m 0 (ascii "Art-Net")
  let m := store m 8 [0x00, 0x21]             -- OpCode
  let m := store m 10 (ipBytes S.ipAddress)   -- IP_Address
  let m := store m 14 [0x36, 0x19]            -- Port
  let m := store m 16 [12, 18]                -- VersInfoH, VersInfoL
  let m := store m 21 [0xff]                  -- OemLo
  let m := store m 24 [0xD7]                  -- EstaManLo, twice in the source
  let m := store m 24 [0x51]
  let m := storeText m 26 (ratpac_get_str S.G (CFG_str2id "AKS_NAME")).2
  let m := storeText m 44 (ascii "Ratpac AKS - Designed by Ratpac Dimmers")
  let m := store m 173 [1]                    -- NumPortsLo
  let m := store m 174 [0b10000000]           -- PortTypes
  let m := store m 178 [0b10000000, 0b00001000, 0b00001000, 0b00001000]
  let m := store m 182 [0b10000000]           -- GoodOutput
  let m := store m 212 [15]                   -- Status2
  let h := store n.artnet_hdr_msg 0 (List.replicate ARTNET_HDR_SIZE 0)
  let h := storeText h 0 (ascii "Art-Net")
  let h := store h 8 [0, 0x50]                -- OpCode
  let h := store h 10 [0, 0xe]                -- ProtVer
  let h := store h 16 [0x2, 0x0]              -- Length
  { n with artpollreply_msg := m, artnet_hdr_msg := h }

/-- The node at start-up: statics are zero and nothing has been sent. -/
def boot (S : Setup) : Node :=
  init_artpollreply_msg S
    { gaffer_data := zeroed, artpollreply_msg := zeroed, artnet_hdr_msg := zeroed,
      dmx_count := 0, uart := [], replies := [] }

/-! ### Handling a datagram -/

/-- The packet buffer after the call, and the node. -/
def process_artnet_msg (S : Setup) (raw : Mem) (len : Nat) (sin_addr : InAddr) (n : Node) :
    Option (Mem × Node) :=
  let raw := store raw 7 [0]
  if strcmp (text raw 0 8) (ascii "Art-Net") ≠ 0 then some (raw, n)
  else if len ≤ 50 then
    if raw 9 ≠ 0x20 then some (raw, n)
    else
      let reply := store n.artpollreply_msg 10 (ipBytes S.ipAddress)
      some (raw, { n with
        artpollreply_msg := reply
        replies := n.replies ++ [(sin_addr, load reply 0 ARTPOLLREPLY_SIZE)] })
  else if raw 9 ≠ 0x50 ∨ S.artnet_enable = 0 then some (raw, n)
  else do
    let gaffer_data ← check_gaffer_packet S.G n.gaffer_data raw len
    let uni_num ← configuredAddress S.G (CFG_str2id "AKS_UNIVERSE") (CFG_str2id "AKS_SUBNET")
    if uni_num = (raw 14).toNat then
      let raw ← replace_channel_data S.G gaffer_data raw
      some (raw, { n with
        gaffer_data := gaffer_data
        dmx_count := n.dmx_count + 1
        uart := n.uart ++ [load raw 0 len] })
    else some (raw, { n with gaffer_data := gaffer_data })

/-- Put an Art-Net header before the slots that start at `dmx_slot` and send both.
`accepted` is the count that `hfuart_send` returns. -/
def send_artnet_header (seq : UInt8) (packet : Mem) (dmx_slot : Nat) (slot_cnt accepted : Int)
    (n : Node) : Mem × Node :=
  let dmx_data := dmx_slot - ARTNET_HDR_SIZE
  let hdr := store n.artnet_hdr_msg 12 [seq]
  let packet := store packet dmx_data (load hdr 0 ARTNET_HDR_SIZE)
  let len := ARTNET_HDR_SIZE + slot_cnt
  (packet, { n with
    artnet_hdr_msg := hdr
    uart := n.uart ++ [load packet dmx_data len.toNat]
    dmx_count := if accepted = len then n.dmx_count + 1 else n.dmx_count })

/-! ### DMX packets -/

def ARTDMX_SIZE : Nat := 530

/-- A full ArtDmx packet, in a buffer that may hold older bytes behind it. -/
structure ArtDmx (raw : Mem) : Prop where
  id : load raw 0 8 = ascii "Art-Net" ++ [0]
  opCode : load raw 8 2 = [0x00, 0x50]
  length : load raw 16 2 = [0x02, 0x00]

def subUni (raw : Mem) : Nat := (raw 14).toNat

theorem ArtDmx.terminated {raw : Mem} (h : ArtDmx raw) : store raw 7 [0] = raw := by
  funext x
  rw [store_eq]
  split
  · have hx : x = 7 := by simp only [List.length_singleton] at *; omega
    subst hx
    exact (load_getElem raw 0 8 7 (by simp) ▸ by simp [h.id, ascii] : raw (0 + 7) = 0).symm
  · rfl

theorem ArtDmx.id_text {raw : Mem} (h : ArtDmx raw) : text raw 0 8 = ascii "Art-Net" := by
  rw [text, h.id]
  decide

theorem ArtDmx.opCode_high {raw : Mem} (h : ArtDmx raw) : raw 9 = 0x50 := by
  have hget := congrArg (fun bytes => bytes[1]?) h.opCode
  simpa [load] using hget

def handle (S : Setup) (sin_addr : InAddr) (n : Node) (raw : Mem) : Option Node :=
  (process_artnet_msg S raw ARTDMX_SIZE sin_addr n).map Prod.snd

/-! ### What the gaffer is for -/

/-- A rule for the slots that replace the window of a packet, from the packets
before it. -/
abbrev WindowRule := List Mem → Nat → UInt8

/-- Slot `c`, counted from 1, of the most recent packet on a universe; zero before the
first one. -/
def latestSlot (address : Nat) : WindowRule := fun earlier c =>
  match earlier.reverse.find? fun p => subUni p = address with
  | some p => p (17 + c)
  | none => 0

/-- A packet with the window of its slots replaced. -/
def mergedFrame (rule : WindowRule) (lower upper : Nat) (earlier : List Mem) (p : Mem) :
    List UInt8 :=
  (List.range ARTDMX_SIZE).map fun x =>
    if 17 + lower ≤ x ∧ x ≤ 17 + upper then rule earlier (x - 17) else p x

/-- The frames to send for a stream of packets that follows `earlier`: one for each
packet on the main universe and none for any other. -/
def mergedFrames (rule : WindowRule) (main lower upper : Nat) :
    List Mem → List Mem → List (List UInt8)
  | _, [] => []
  | earlier, p :: rest =>
      (if subUni p = main then [mergedFrame rule lower upper earlier p] else []) ++
        mergedFrames rule main lower upper (earlier ++ [p]) rest

/-- No packet on the main universe follows a gaffer packet with a slot of the window
that is not zero. -/
def NothingKept (address main lower upper : Nat) (stream : List Mem) : Prop :=
  ∀ earlier p rest, stream = earlier ++ p :: rest → subUni p = main →
    ∀ c, lower ≤ c → c ≤ upper → latestSlot address earlier c = 0

/-! ### What the code keeps -/

/-- The universe byte is compared as a signed one, so the upper half of the addresses
never matches. -/
theorem signed_match_iff (address : Nat) (b : UInt8) :
    (address : Int) = b.toInt8.toInt ↔ address < 128 ∧ b.toNat = address := by
  have hall : ∀ b : BitVec 8, b.toInt = if b.toNat < 128 then (b.toNat : Int) else b.toNat - 256 := by
    intro b
    rw [BitVec.toInt_eq_toNat_cond]
    split <;> split <;> omega
  have hb : b.toInt8.toInt = if b.toNat < 128 then (b.toNat : Int) else b.toNat - 256 :=
    hall b.toBitVec
  have hlt := b.toNat_lt
  rw [hb]
  split <;> omega

/-- What `gaffer_data` holds after the packets `earlier`. -/
def keptSlot (address : Nat) : WindowRule := fun earlier c =>
  if address < 128 then latestSlot address earlier c else 0

theorem latestSlot_concat (address : Nat) (earlier : List Mem) (p : Mem) (c : Nat) :
    latestSlot address (earlier ++ [p]) c =
      if subUni p = address then p (17 + c) else latestSlot address earlier c := by
  simp only [latestSlot, List.reverse_append, List.reverse_singleton, List.singleton_append,
    List.find?_cons]
  by_cases h : subUni p = address <;> simp [h]

theorem keptSlot_concat (address : Nat) (earlier : List Mem) (p : Mem) (c : Nat) :
    keptSlot address (earlier ++ [p]) c =
      if (address : Int) = (p 14).toInt8.toInt then p (17 + c)
      else keptSlot address earlier c := by
  simp only [signed_match_iff, keptSlot, latestSlot_concat]
  by_cases hlow : address < 128
  · simp only [hlow, if_true, true_and]
    rfl
  · simp [hlow]

theorem boot_kept (S : Setup) (address : Nat) {lower upper : Nat} :
    ∀ c, lower ≤ c → c ≤ upper → (boot S).gaffer_data c = keptSlot address [] c := by
  intro c _ _
  simp [boot, init_artpollreply_msg, zeroed, keptSlot, latestSlot]

theorem process_artDmx {S : Setup} (henable : S.artnet_enable = 1) (sin_addr : InAddr) (n : Node)
    {raw : Mem} (hraw : ArtDmx raw) :
    process_artnet_msg S raw ARTDMX_SIZE sin_addr n = (do
      let gaffer_data ← check_gaffer_packet S.G n.gaffer_data raw ARTDMX_SIZE
      let uni_num ← configuredAddress S.G (CFG_str2id "AKS_UNIVERSE") (CFG_str2id "AKS_SUBNET")
      if uni_num = subUni raw then
        let merged ← replace_channel_data S.G gaffer_data raw
        some (merged, { n with
          gaffer_data := gaffer_data
          dmx_count := n.dmx_count + 1
          uart := n.uart ++ [load merged 0 ARTDMX_SIZE] })
      else some (raw, { n with gaffer_data := gaffer_data })) := by
  have hid : strcmp (text raw 0 8) (ascii "Art-Net") = 0 := by rw [hraw.id_text]; decide
  have hopen : ¬ (raw 9 ≠ 0x50 ∨ S.artnet_enable = 0) := by
    rw [hraw.opCode_high, henable]
    decide
  simp only [process_artnet_msg, hraw.terminated]
  rw [if_neg (not_not.mpr hid), if_neg (by decide), if_neg hopen]
  rfl

section Stream

variable {S : Setup} {uni sub lower upper main : Nat} (sin_addr : InAddr)
  (henable : S.artnet_enable = 1) (w : Window S.G uni sub lower upper)
  (hmain : configuredAddress S.G (CFG_str2id "AKS_UNIVERSE") (CFG_str2id "AKS_SUBNET") = some main)
  (hne : main ≠ 16 * sub + uni)
include henable w hmain hne

theorem handle_step {n : Node} {earlier : List Mem} {p : Mem} (hp : ArtDmx p)
    (hkept : ∀ c, lower ≤ c → c ≤ upper → n.gaffer_data c = keptSlot (16 * sub + uni) earlier c) :
    ∃ n', handle S sin_addr n p = some n' ∧
      (∀ c, lower ≤ c → c ≤ upper →
        n'.gaffer_data c = keptSlot (16 * sub + uni) (earlier ++ [p]) c) ∧
      n'.uart = n.uart ++ (if subUni p = main then
        [mergedFrame (keptSlot (16 * sub + uni)) lower upper earlier p] else []) := by
  obtain ⟨kept, hcheck, hhit, hmiss⟩ := w.check_slots n.gaffer_data p (show 50 ≤ ARTDMX_SIZE by decide)
  have hnext : ∀ c, lower ≤ c → c ≤ upper →
      kept c = keptSlot (16 * sub + uni) (earlier ++ [p]) c := by
    intro c hlo hhi
    rw [keptSlot_concat]
    split
    · rename_i hk
      exact hhit hk c hlo hhi
    · rename_i hk
      rw [hmiss hk]
      exact hkept c hlo hhi
  simp only [handle, process_artDmx henable sin_addr n hp, hcheck, hmain, Option.bind_eq_bind,
    Option.bind_some]
  by_cases huni : subUni p = main
  · -- the packet is not one of the gaffer's, so the window holds what was kept before
    have hold : kept = n.gaffer_data :=
      hmiss fun h => hne (huni ▸ ((signed_match_iff _ _).mp h).2)
    obtain ⟨merged, hreplace, hbytes⟩ := w.replace_slots kept p
    have hframe : load merged 0 ARTDMX_SIZE =
        mergedFrame (keptSlot (16 * sub + uni)) lower upper earlier p := by
      unfold load mergedFrame
      apply List.map_congr_left
      intro x _
      rw [Nat.zero_add, hbytes, hold]
      split
      · exact hkept (x - 17) (by omega) (by omega)
      · rfl
    rw [if_pos huni.symm, if_pos huni, hreplace]
    exact ⟨_, rfl, hnext, by rw [hframe]⟩
  · rw [if_neg (Ne.symm huni)]
    refine ⟨_, rfl, hnext, ?_⟩
    rw [if_neg huni, List.append_nil]

/-- A stream: the frames sent are the merged frames of the kept slots. -/
theorem handle_stream {stream : List Mem} (hstream : ∀ p ∈ stream, ArtDmx p) {n : Node}
    {earlier : List Mem} (hkept : ∀ c, lower ≤ c → c ≤ upper →
      n.gaffer_data c = keptSlot (16 * sub + uni) earlier c) :
    ∃ n', Runs.exec (handle S sin_addr) n stream = some n' ∧
      n'.uart = n.uart ++
        mergedFrames (keptSlot (16 * sub + uni)) main lower upper earlier stream := by
  induction stream generalizing n earlier with
  | nil => exact ⟨n, rfl, by simp [mergedFrames]⟩
  | cons p rest ih =>
    obtain ⟨n₁, hstep, hkept₁, huart₁⟩ := handle_step sin_addr henable w hmain hne
      (hstream p List.mem_cons_self) hkept
    obtain ⟨n', hrun, huart⟩ := ih (fun q hq => hstream q (List.mem_cons_of_mem p hq)) hkept₁
    refine ⟨n', Runs.exec_cons_eq_some.mpr ⟨n₁, hstep, hrun⟩, ?_⟩
    rw [huart, huart₁, mergedFrames, List.append_assoc]

end Stream

/-! ### Exactly when the merge is right -/

theorem mergedFrame_eq_iff {rule rule' : WindowRule} {lower upper : Nat} (hupp : upper ≤ 512)
    (earlier : List Mem) (p : Mem) :
    mergedFrame rule lower upper earlier p = mergedFrame rule' lower upper earlier p ↔
      ∀ c, lower ≤ c → c ≤ upper → rule earlier c = rule' earlier c := by
  constructor
  · intro h c hlo hhi
    unfold mergedFrame at h
    have hx : 17 + c ∈ List.range ARTDMX_SIZE :=
      List.mem_range.mpr (show 17 + c < 530 by omega)
    have hbyte := List.map_inj_left.mp h (17 + c) hx
    rwa [if_pos (by omega), if_pos (by omega), Nat.add_sub_cancel_left] at hbyte
  · intro h
    unfold mergedFrame
    apply List.map_congr_left
    intro x _
    split
    · exact h (x - 17) (by omega) (by omega)
    · rfl

/-- Two rules send the same frames exactly when they agree at every packet that is sent. -/
theorem mergedFrames_eq_iff {rule rule' : WindowRule} {main lower upper : Nat} (hupp : upper ≤ 512)
    (earlier stream : List Mem) :
    mergedFrames rule main lower upper earlier stream =
        mergedFrames rule' main lower upper earlier stream ↔
      ∀ before p rest, stream = before ++ p :: rest → subUni p = main →
        ∀ c, lower ≤ c → c ≤ upper → rule (earlier ++ before) c = rule' (earlier ++ before) c := by
  induction stream generalizing earlier with
  | nil => simp [mergedFrames]
  | cons p stream ih =>
    have hsplit : mergedFrames rule main lower upper earlier (p :: stream) =
          mergedFrames rule' main lower upper earlier (p :: stream) ↔
        (subUni p = main →
          ∀ c, lower ≤ c → c ≤ upper → rule earlier c = rule' earlier c) ∧
        mergedFrames rule main lower upper (earlier ++ [p]) stream =
          mergedFrames rule' main lower upper (earlier ++ [p]) stream := by
      rw [mergedFrames, mergedFrames]
      by_cases huni : subUni p = main
      · simp [huni, mergedFrame_eq_iff hupp]
      · simp [huni]
    rw [hsplit, ih]
    constructor
    · rintro ⟨hhead, htail⟩ before q rest hcut
      cases before with
      | nil =>
        obtain ⟨rfl, -⟩ := List.cons.inj hcut
        simpa using hhead
      | cons p' before =>
        obtain ⟨rfl, htl⟩ := List.cons.inj hcut
        simpa using htail before q rest htl
    · intro h
      refine ⟨by simpa using h [] p stream rfl, fun before q rest hcut => ?_⟩
      simpa using h (p :: before) q rest (by rw [hcut, List.cons_append])

/-- **Exactly when the window of the gaffer universe is merged in.**  From start-up, the
frames sent are the packets of the main universe with the gaffer's latest slots in the
window if and only if the gaffer universe has an address below 128, or the stream never
makes the difference visible. -/
theorem gaffer_merge_iff {S : Setup} {uni sub lower upper main : Nat} (sin_addr : InAddr)
    (henable : S.artnet_enable = 1) (w : Window S.G uni sub lower upper)
    (hmain : configuredAddress S.G (CFG_str2id "AKS_UNIVERSE") (CFG_str2id "AKS_SUBNET") =
      some main)
    (hne : main ≠ 16 * sub + uni) {stream : List Mem} (hstream : ∀ p ∈ stream, ArtDmx p) :
    (∃ n, Runs.exec (handle S sin_addr) (boot S) stream = some n ∧
        n.uart = mergedFrames (latestSlot (16 * sub + uni)) main lower upper [] stream) ↔
      16 * sub + uni < 128 ∨ NothingKept (16 * sub + uni) main lower upper stream := by
  obtain ⟨n, hrun, huart⟩ := handle_stream sin_addr henable w hmain hne hstream
    (boot_kept S _)
  have huart : n.uart = mergedFrames (keptSlot (16 * sub + uni)) main lower upper [] stream :=
    huart
  simp only [hrun, Option.some.injEq, exists_eq_left', huart, mergedFrames_eq_iff w.upper_le,
    List.nil_append, NothingKept]
  by_cases hlow : 16 * sub + uni < 128
  · simp [keptSlot, hlow]
  · simp only [keptSlot, hlow, if_false, false_or]
    exact ⟨fun h before p rest hcut hp c hlo hhi => (h before p rest hcut hp c hlo hhi).symm,
      fun h before p rest hcut hp c hlo hhi => (h before p rest hcut hp c hlo hhi).symm⟩

/-! ### A setup with the gaffer in a chosen subnet -/

/-- The main universe is 0 and the gaffer takes over channels 1 and 2 from universe 1 of
the subnet `sub`. -/
def gafferSetup (sub : String) : Setup where
  G :=
    { g_web_config := [(Field.universe, "0"), (.subnet, "0"), (.gaffer_enb, "0"),
        (.gaffer_univ, "1"), (.gaffer_sub, sub), (.gaffer_lower, "1"), (.gaffer_upper, "2")].foldl
        (fun g p => setField g p.1 (ascii p.2)) zeroed
      client_valid_num := 1 }
  ipAddress := ⟨10, 10, 100, 254⟩
  artnet_enable := 1

/-- A full ArtDmx packet whose 512 slots all have the same level. -/
def levelPacket (address level : UInt8) : Mem :=
  store zeroed 0 (ascii "Art-Net" ++ [0, 0x00, 0x50, 0, 14, 0, 0, address, 0, 0x02, 0x00] ++
    List.replicate 512 level)

theorem levelPacket_artDmx (address level : UInt8) : ArtDmx (levelPacket address level) :=
  ⟨rfl, rfl, rfl⟩

theorem gafferSetup_window :
    Window (gafferSetup "0").G 1 0 1 2 ∧ Window (gafferSetup "8").G 1 8 1 2 := by
  constructor <;> constructor <;> decide +kernel

theorem gafferSetup_main :
    configuredAddress (gafferSetup "0").G (CFG_str2id "AKS_UNIVERSE") (CFG_str2id "AKS_SUBNET") =
        some 0 ∧
      configuredAddress (gafferSetup "8").G (CFG_str2id "AKS_UNIVERSE")
        (CFG_str2id "AKS_SUBNET") = some 0 := by
  constructor <;> decide +kernel

theorem gaffer_merge_subnet_zero :
    (∃ n, Runs.exec (handle (gafferSetup "0") ⟨10, 10, 100, 1⟩) (boot (gafferSetup "0"))
          [levelPacket 1 200, levelPacket 0 7] = some n ∧
        n.uart = mergedFrames (latestSlot (16 * 0 + 1)) 0 1 2 []
          [levelPacket 1 200, levelPacket 0 7]) ↔
      16 * 0 + 1 < 128 ∨
        NothingKept (16 * 0 + 1) 0 1 2 [levelPacket 1 200, levelPacket 0 7] :=
  gaffer_merge_iff ⟨10, 10, 100, 1⟩ rfl gafferSetup_window.1 gafferSetup_main.1 (by decide)
    (by simp [levelPacket_artDmx])

/-- With the gaffer in subnet 8 its packet is not kept, and the frame of the main
universe goes out with zeros in channels 1 and 2. -/
theorem gaffer_subnet_eight_ignored :
    ¬ ∃ n, Runs.exec (handle (gafferSetup "8") ⟨10, 10, 100, 1⟩) (boot (gafferSetup "8"))
          [levelPacket 0x81 200, levelPacket 0 7] = some n ∧
        n.uart = mergedFrames (latestSlot (16 * 8 + 1)) 0 1 2 []
          [levelPacket 0x81 200, levelPacket 0 7] := by
  rintro ⟨n, hrun, huart⟩
  obtain ⟨n', hrun', huart'⟩ := handle_stream ⟨10, 10, 100, 1⟩ rfl gafferSetup_window.2
    gafferSetup_main.2 (by decide) 
    (by simp [levelPacket_artDmx] : ∀ p ∈ [levelPacket 0x81 200, levelPacket 0 7], ArtDmx p)
    (boot_kept (gafferSetup "8") _)
  obtain rfl := Option.some.inj (hrun.symm.trans hrun')
  have hsame := (mergedFrames_eq_iff (by decide) [] _).mp (huart'.symm.trans huart)
  have hslot := hsame [levelPacket 0x81 200] (levelPacket 0 7) [] rfl rfl 1 (by decide) (by decide)
  revert hslot
  decide +kernel

end AksFirmware.ArtNet
