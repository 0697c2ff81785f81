import AksFirmware.UniverseIsolation

/-!
# The frames of sACN mode

A packet that passes all tests of `sACN_main` is sent on by `send_artnet_header`, which
puts an Art-Net header before its slots, in the packet buffer.  The header is built once,
and only its sequence number is renewed; the number of slots is what the packet says it
is.
-/

namespace AksFirmware.SacnFrames

open ByteMemory CText Gaffer ArtNet E131 PacketBuffer UniverseIsolation

/-! ### The call of `send_artnet_header` -/

structure HeaderCall where
  seq : UInt8
  dmx_slot : Nat
  slot_cnt : Int
deriving DecidableEq

/-- The call made for the packet in the buffer, if it passes the tests. -/
def headerCall (sacn_univ : UInt16) (r : Receiver) : Option HeaderCall :=
  if e131_pkt_validate r.packet = .NONE ∧ e131_pkt_discard r.packet r.last_seq = false ∧
      frame_universe r.packet = sacn_univ.toNat ∧ r.packet PROP_VAL = 0x00 then
    some ⟨seq_number r.packet, PROP_VAL + 1, (prop_val_cnt r.packet : Int) - 1⟩
  else none

theorem sacnPacket_of_call {sacn_univ : UInt16} {r : Receiver} {c : HeaderCall}
    (h : headerCall sacn_univ r = some c) (accepted : Int) :
    sacnPacket sacn_univ accepted r =
      ({ packet := (send_artnet_header c.seq r.packet c.dmx_slot c.slot_cnt accepted r.node).1
         last_seq := c.seq
         node := (send_artnet_header c.seq r.packet c.dmx_slot c.slot_cnt accepted r.node).2 },
        .forwarded c.seq) := by
  obtain ⟨⟨hvalid, hkeep, huniv, hcode⟩, hc⟩ := Option.ite_none_right_eq_some.mp h
  obtain rfl := Option.some.inj hc
  simp [sacnPacket, hvalid, hkeep, huniv, hcode]

/-- The packets that are sent on are those with a call. -/
theorem headerCall_isSome_iff (sacn_univ : UInt16) (accepted : Int) (r : Receiver) :
    (headerCall sacn_univ r).isSome ↔
      ∃ seq, (sacnPacket sacn_univ accepted r).2 = .forwarded seq := by
  constructor
  · intro h
    obtain ⟨c, hc⟩ := Option.isSome_iff_exists.mp h
    exact ⟨c.seq, by rw [sacnPacket_of_call hc]⟩
  · rintro ⟨seq, h⟩
    simp only [sacnPacket] at h
    split at h
    · cases h
    split at h
    · cases h
    split at h
    · cases h
    split at h
    · cases h
    simp_all [headerCall]

/-- At most 512 slots, and the bytes that are sent lie inside the packet buffer. -/
def HeaderCall.Inside (c : HeaderCall) : Prop :=
  0 ≤ c.slot_cnt ∧ c.slot_cnt ≤ 512 ∧ ARTNET_HDR_SIZE ≤ c.dmx_slot ∧
    (c.dmx_slot - ARTNET_HDR_SIZE : Int) + (ARTNET_HDR_SIZE + c.slot_cnt) ≤ PACKET_SIZE

/-- **The slot count.**  The call for a packet stays inside the buffer if and only if the
packet counts 1 to 513 property values. -/
theorem slots_inside_iff {sacn_univ : UInt16} {r : Receiver} {c : HeaderCall}
    (h : headerCall sacn_univ r = some c) :
    c.Inside ↔ 1 ≤ prop_val_cnt r.packet ∧ prop_val_cnt r.packet ≤ 513 := by
  obtain ⟨-, hc⟩ := Option.ite_none_right_eq_some.mp h
  obtain rfl := Option.some.inj hc
  simp only [HeaderCall.Inside, ARTNET_HDR_SIZE, PROP_VAL, PACKET_SIZE]
  omega

/-- The packets that the sender makes count their start code and 1 to 512 slots. -/
theorem e131_pkt_init_counts {dmxUniverse num_slots : Nat} {packet : Mem}
    (h : e131_pkt_init dmxUniverse num_slots = some packet) (seq : UInt8) (slots : List UInt8) :
    1 ≤ prop_val_cnt (store (store packet 111 [seq]) PROP_VAL (0 :: slots)) ∧
      prop_val_cnt (store (store packet 111 [seq]) PROP_VAL (0 :: slots)) ≤ 513 := by
  simp only [e131_pkt_init] at h
  split at h
  · cases h
  obtain rfl := Option.some.inj h
  have hcnt : ∀ m : Mem, prop_val_cnt (store (store (store m 123 (bytes16 (num_slots + 1))) 111
      [seq]) PROP_VAL (0 :: slots)) = num_slots + 1 := by
    intro m
    simp [prop_val_cnt, be16, store_eq, bytes16, PROP_VAL]
    omega
  rw [hcnt]
  omega

/-- The receiver with a packet of universe 1 in the buffer that counts `cnt` values. -/
def counting (cnt : Nat) : Receiver :=
  { start (gafferSetup "0") with
    packet := (e131_recv zeroed (load (store (plainBytes 1 30) 123 (bytes16 cnt)) 0 126)).1 }

/-- No values at all, and more values than the buffer has room for. -/
theorem counted_outside :
    (∃ c, headerCall 1 (counting 0) = some c ∧ ¬ c.Inside) ∧
      ∃ c, headerCall 1 (counting 65535) = some c ∧ ¬ c.Inside := by
  have hnone : headerCall 1 (counting 0) = some ⟨30, 126, -1⟩ := by decide +kernel
  have hmany : headerCall 1 (counting 65535) = some ⟨30, 126, 65534⟩ := by decide +kernel
  constructor
  · exact ⟨_, hnone, by simp [HeaderCall.Inside]⟩
  · exact ⟨_, hmany, by simp [HeaderCall.Inside]⟩

theorem slots_inside_sample :
    ∃ c, headerCall 1 (counting 1) = some c ∧
      (c.Inside ↔ 1 ≤ prop_val_cnt (counting 1).packet ∧
        prop_val_cnt (counting 1).packet ≤ 513) :=
  have hcall : headerCall 1 (counting 1) = some ⟨30, 126, 0⟩ := by decide +kernel
  ⟨_, hcall, slots_inside_iff hcall⟩

/-! ### The Art-Net packet that is sent -/

/-- An ArtDmx packet with the given sequence number and slots. -/
structure ArtDmxFrame (seq : UInt8) (slots frame : List UInt8) : Prop where
  id : frame.take 8 = ascii "Art-Net" ++ [0]
  opCode : (frame.drop 8).take 2 = [0x00, 0x50]
  protVer : (frame.drop 10).take 2 = [0, 14]
  sequence : frame[12]? = some seq
  length : (frame.drop 16).take 2 = bytes16 slots.length
  data : frame.drop 18 = slots

/-- The header as it is sent, with the slots behind it. -/
def headedFrame (seq : UInt8) (slots : List UInt8) : List UInt8 :=
  ascii "Art-Net" ++ [0, 0x00, 0x50, 0, 14, seq, 0, 0, 0, 0x02, 0x00] ++ slots

theorem headedFrame_artDmx_iff (seq : UInt8) (slots : List UInt8) :
    ArtDmxFrame seq slots (headedFrame seq slots) ↔ bytes16 slots.length = bytes16 512 := by
  constructor
  · intro h
    exact h.length.symm
  · intro h
    exact ⟨rfl, rfl, rfl, rfl, h.symm, rfl⟩

theorem bytes16_inj {m n : Nat} (hm : m < 65536) (hn : n < 65536) :
    bytes16 m = bytes16 n ↔ m = n := by
  simp only [bytes16, List.cons.injEq, and_true, ← UInt8.toNat_inj, Nat.toUInt8_eq,
    UInt8.toNat_ofNat']
  omega

theorem sentFrame_eq {hdr : Mem} (S : Setup) (h : SameHeader hdr (start S).node.artnet_hdr_msg)
    {packet : Mem} {n : Nat} (hcnt : prop_val_cnt packet = n + 1) :
    sentFrame packet hdr = headedFrame (seq_number packet) (load packet 126 n) := by
  have hhdr : load (store hdr 12 [seq_number packet]) 0 ARTNET_HDR_SIZE =
      ascii "Art-Net" ++ [0, 0x00, 0x50, 0, 14, seq_number packet, 0, 0, 0, 0x02, 0x00] := by
    rw [h.store]
    rfl
  unfold headedFrame
  generalize ascii "Art-Net" ++ [0, 0x00, 0x50, 0, 14, seq_number packet, 0, 0, 0, 0x02, 0x00] =
    header at hhdr ⊢
  have hlen : header.length = 18 := by rw [← hhdr, load_length]; rfl
  rw [sentFrame, hhdr, hcnt, show 17 + (n + 1) = 18 + n by omega, load_add]
  congr 1
  · rw [← hlen]
    exact load_store_same packet 108 header
  · exact load_store_disjoint packet header (.inr (by omega))

/-- **The packet that is sent.**  In sACN mode a valid packet of the configured universe in
its order, with `n` slots of DMX data, is sent on as an Art-Net packet that counts 512
slots; it is well formed if and only if there are so many. -/
theorem sent_artDmx_iff {protocol : UInt8} (hp : protocol ≠ 0x30) {sacn_univ : UInt16}
    {h : History} {r : Receiver} (hr : h.receiver protocol sacn_univ = some r) {a : Arrival}
    (hv : Valid a.datagram) (hown : Own sacn_univ a.datagram)
    (hcode : packetOf a.datagram PROP_VAL = 0)
    (hseq : ¬ Behind (seq_number (packetOf a.datagram)) r.last_seq) {n : Nat}
    (hcnt : prop_val_cnt (packetOf a.datagram) = n + 1) (S : Setup) :
    ∃ frame, shown S protocol sacn_univ r a =
        some (.forwarded (seq_number (packetOf a.datagram)), [frame]) ∧
      frame = headedFrame (seq_number (packetOf a.datagram)) (load (packetOf a.datagram) 126 n) ∧
      (ArtDmxFrame (seq_number (packetOf a.datagram)) (load (packetOf a.datagram) 126 n) frame ↔
        n = 512) := by
  have hturn : shown S protocol sacn_univ r a = some (UniverseIsolation.turn sacn_univ r a).2 := by
    simp [shown, sACN_main, hp, UniverseIsolation.turn]
  have hshort : n < 65536 := by
    have hslots := hv.slots
    have hlen : (received a.datagram).length ≤ PACKET_SIZE := List.length_take_le _ _
    simp only [PROP_VAL, PACKET_SIZE] at hslots hlen
    omega
  refine ⟨_, ?_, sentFrame_eq h.setup (receiver_header hr) hcnt, ?_⟩
  · rw [hturn, hv.turn_eq, if_neg hseq, if_neg (not_not.mpr hown), if_neg (not_not.mpr hcode)]
  · rw [sentFrame_eq h.setup (receiver_header hr) hcnt, headedFrame_artDmx_iff, load_length,
      bytes16_inj hshort (by decide)]

theorem onePacket_valid : Valid (onePacket 10) := by
  constructor <;> decide +kernel

def freshReceiver : Receiver :=
  { start (gafferSetup "0") with packet := fun x => if x < PACKET_SIZE then 0 else zeroed x }

/-- The packet with one slot goes out with a Length of 512. -/
theorem one_slot_counted_as_512 :
    ¬ ∀ (h : History) r a n, h.receiver 0x31 1 = some r → Valid a.datagram → Own 1 a.datagram →
      packetOf a.datagram PROP_VAL = 0 →
      ¬ Behind (seq_number (packetOf a.datagram)) r.last_seq →
      prop_val_cnt (packetOf a.datagram) = n + 1 → 1 ≤ n → n ≤ 512 →
        ∃ frame, shown h.setup 0x31 1 r a =
            some (.forwarded (seq_number (packetOf a.datagram)), [frame]) ∧
          ArtDmxFrame (seq_number (packetOf a.datagram)) (load (packetOf a.datagram) 126 n)
            frame := by
  intro hall
  have hone := hall ⟨gafferSetup "0", [], zeroed⟩ freshReceiver (onePacketArrival 10) 1
    (receiver_fresh _ _ _ _) onePacket_valid (by decide +kernel) (by decide +kernel)
    (by decide +kernel) (by decide +kernel) le_rfl (by decide)
  obtain ⟨frame, hshown, hframe⟩ := hone
  have hsent : shown (gafferSetup "0") 0x31 1 freshReceiver (onePacketArrival 10) =
      some (.forwarded 10, [headedFrame 10 [0]]) := by
    decide +kernel
  rw [hsent] at hshown
  obtain ⟨-, hframes⟩ := Prod.mk.inj (Option.some.inj hshown)
  obtain rfl := (List.cons.inj hframes).1
  exact absurd hframe.length (by decide +kernel)

theorem sent_artDmx_one :
    ∃ frame, shown (gafferSetup "0") 0x31 1 freshReceiver (onePacketArrival 10) =
        some (.forwarded (seq_number (packetOf (onePacket 10))), [frame]) ∧
      frame = headedFrame (seq_number (packetOf (onePacket 10)))
        (load (packetOf (onePacket 10)) 126 1) ∧
      (ArtDmxFrame (seq_number (packetOf (onePacket 10)))
        (load (packetOf (onePacket 10)) 126 1) frame ↔ 1 = 512) :=
  @sent_artDmx_iff 0x31 (by decide) 1 _ _ (receiver_fresh (gafferSetup "0") 0x31 1 zeroed)
    (onePacketArrival 10) onePacket_valid (by decide +kernel) (by decide +kernel)
    (by decide +kernel) 1 (by decide +kernel) (gafferSetup "0")

end AksFirmware.SacnFrames
