import AksFirmware.ArtNet

/-!
# The E1.31 receiver

`sACN_main` receives every datagram into one packet buffer.  In Art-Net mode it hands
the buffer to `process_artnet_msg`; in sACN mode it validates the packet, checks its
sequence number and its universe, and sends the slots on as an Art-Net packet.

The sequence check compares with `last_seq`, which a packet out of order sets as well:
the receiver resynchronises on it.  So the number that a packet is compared with is
not always that of the last packet sent, and the theorems below say which one it is.
-/

namespace AksFirmware.E131

open ByteMemory CText WebConfig Gaffer ArtNet

/-! ### The packet -/

/-- `ntohs` of the two bytes at `a`. -/
def be16 (m : Mem) (a : Nat) : Nat := (m a).toNat * 256 + (m (a + 1)).toNat

/-- `ntohl` of the four bytes at `a`. -/
def be32 (m : Mem) (a : Nat) : Nat := be16 m a * 65536 + be16 m (a + 2)

def bytes16 (n : Nat) : List UInt8 := [(n / 256).toUInt8, n.toUInt8]

def bytes32 (n : Nat) : List UInt8 := bytes16 (n / 65536) ++ bytes16 n

def E131_ACN_PID : List UInt8 :=
  [0x41, 0x53, 0x43, 0x2d, 0x45, 0x31, 0x2e, 0x31, 0x37, 0x00, 0x00, 0x00]

/-- `packet->frame.seq_number`. -/
def seq_number (packet : Mem) : UInt8 := packet 111

/-- `ntohs(packet->frame.universe)`. -/
def frame_universe (packet : Mem) : Nat := be16 packet 113

/-- `ntohs(packet->dmp.prop_val_cnt)`. -/
def prop_val_cnt (packet : Mem) : Nat := be16 packet 123

/-- The offset of `packet->dmp.prop_val`. -/
def PROP_VAL : Nat := 125

/-- A packet with its layers filled in; `none` when the arguments are rejected. -/
def e131_pkt_init (dmxUniverse num_slots : Nat) : Option Mem :=
  if dmxUniverse < 1 ∨ dmxUniverse > 63999 ∨ num_slots < 1 ∨ num_slots > 512 then none
  else
    let cnt := num_slots + 1
    let dmp_length := cnt + 523 - 513
    let frame_length := 77 + dmp_length
    let root_length := 2 + 4 + 16 + frame_length
    let packet := store zeroed 0 (bytes16 0x0010)                     -- preamble_size
    let packet := store packet 2 (bytes16 0x0000)                     -- postamble_size
    let packet := store packet 4 E131_ACN_PID
    let packet := store packet 16 (bytes16 (0x7000 ||| root_length))
    let packet := store packet 18 (bytes32 0x00000004)                -- root.vector
    let packet := store packet 38 (bytes16 (0x7000 ||| frame_length))
    let packet := store packet 40 (bytes32 0x00000002)                -- frame.vector
    let packet := store packet 108 [0x64]                             -- priority
    let packet := store packet 113 (bytes16 dmxUniverse)
    let packet := store packet 115 (bytes16 (0x7000 ||| dmp_length))
    let packet := store packet 117 [0x02]                             -- dmp.vector
    let packet := store packet 118 [0xa1]                             -- dmp.type
    let packet := store packet 119 (bytes16 0x0000)                   -- first_addr
    let packet := store packet 121 (bytes16 0x0001)                   -- addr_inc
    some (store packet 123 (bytes16 cnt))

/-! ### Checking a packet -/

inductive e131_error_t where
  | NONE | PREAMBLE_SIZE | POSTAMBLE_SIZE | ACN_PID | VECTOR_ROOT | VECTOR_FRAME
  | VECTOR_DMP | TYPE_DMP | FIRST_ADDR_DMP | ADDR_INC_DMP
deriving DecidableEq, Repr

def e131_pkt_validate (packet : Mem) : e131_error_t :=
  if be16 packet 0 ≠ 0x0010 then .PREAMBLE_SIZE
  else if be16 packet 2 ≠ 0x0000 then .POSTAMBLE_SIZE
  else if load packet 4 12 ≠ E131_ACN_PID then .ACN_PID
  else if be32 packet 18 ≠ 0x00000004 then .VECTOR_ROOT
  else if be32 packet 40 ≠ 0x00000002 then .VECTOR_FRAME
  else if packet 117 ≠ 0x02 then .VECTOR_DMP
  else if packet 118 ≠ 0xa1 then .TYPE_DMP
  else if be16 packet 119 ≠ 0x0000 then .FIRST_ADDR_DMP
  else if be16 packet 121 ≠ 0x0001 then .ADDR_INC_DMP
  else .NONE

def e131_strerror : e131_error_t → Text
  | .NONE => ascii "Success"
  | .PREAMBLE_SIZE => ascii "Invalid Preamble Size"
  | .POSTAMBLE_SIZE => ascii "Invalid Post-amble Size"
  | .ACN_PID => ascii "Invalid ACN Packet Identifier"
  | .VECTOR_ROOT => ascii "Invalid Root Layer Vector"
  | .VECTOR_FRAME => ascii "Invalid Framing Layer Vector"
  | .VECTOR_DMP => ascii "Invalid Device Management Protocol (DMP) Layer Vector"
  | .TYPE_DMP => ascii "Invalid DMP Address & Data Type"
  | .FIRST_ADDR_DMP => ascii "Invalid DMP First Address"
  | .ADDR_INC_DMP => ascii "Invalid DMP Address Increment"

/-- The sequence number `seq` is the reference itself or fewer than 20 behind it, as a
signed 8-bit difference. -/
def Behind (seq reference : UInt8) : Prop :=
  -20 < (seq - reference).toInt8.toInt ∧ (seq - reference).toInt8.toInt ≤ 0

instance (seq reference : UInt8) : Decidable (Behind seq reference) := by
  unfold Behind; infer_instance

def e131_pkt_discard (packet : Mem) (last_seq_number : UInt8) : Bool :=
  let seq_num_diff := (seq_number packet - last_seq_number).toInt8.toInt
  decide (seq_num_diff > -20 ∧ seq_num_diff ≤ 0)

theorem discard_iff (packet : Mem) (last : UInt8) :
    e131_pkt_discard packet last = true ↔ Behind (seq_number packet) last := by
  simp [e131_pkt_discard, Behind]

/-- Every packet that `e131_pkt_init` makes passes the receiver's checks, whatever
sequence number and slots are put into it. -/
theorem e131_pkt_init_valid {dmxUniverse num_slots : Nat} {packet : Mem}
    (h : e131_pkt_init dmxUniverse num_slots = some packet) (seq : UInt8) (slots : List UInt8) :
    e131_pkt_validate (store (store packet 111 [seq]) PROP_VAL (0 :: slots)) = .NONE := by
  simp only [e131_pkt_init] at h
  split at h
  · cases h
  obtain rfl := Option.some.inj h
  simp [e131_pkt_validate, be16, be32, store_eq, bytes16, bytes32, load, List.range_succ, E131_ACN_PID, PROP_VAL]

/-! ### The loop of `sACN_main` -/

/-- The packet buffer, the local `last_seq` and the node. -/
structure Receiver where
  packet : Mem
  last_seq : UInt8
  node : Node

/-- A datagram, its sender, and the count that `hfuart_send` returns should the
datagram be sent on. -/
structure Arrival where
  datagram : List UInt8
  sin_addr : InAddr
  accepted : Int

inductive Verdict where
  | ignored
  | invalid (error : e131_error_t)
  | outOfOrder (seq : UInt8)
  | otherUniverse
  | notDmx (seq : UInt8)
  | forwarded (seq : UInt8)
  | artNet
deriving DecidableEq, Repr

/-- Diagnostics go out on the serial port too. -/
def aks_printf (s : Text) (n : Node) : Node := { n with uart := n.uart ++ [s] }

/-- The buffer after `recvfrom`, and the number of bytes received. -/
def e131_recv (packet : Mem) (datagram : List UInt8) : Mem × Nat :=
  let received := datagram.take PACKET_SIZE
  (store packet 0 received, received.length)

/-- The loop body in sACN mode, for the packet in the buffer. -/
def sacnPacket (sacn_univ : UInt16) (accepted : Int) (r : Receiver) : Receiver × Verdict :=
  let error := e131_pkt_validate r.packet
  if error ≠ .NONE then
    let line := ascii "e131_pkt_validate: " ++ e131_strerror error ++ ascii "\n"
    ({ r with node := aks_printf line r.node }, .invalid error)
  else if e131_pkt_discard r.packet r.last_seq then
    ({ r with
        last_seq := seq_number r.packet
        node := aks_printf (ascii "warning: packet out of order received\n") r.node },
      .outOfOrder (seq_number r.packet))
  else if frame_universe r.packet ≠ sacn_univ.toNat then (r, .otherUniverse)
  else if r.packet PROP_VAL ≠ 0x00 then
    ({ r with last_seq := seq_number r.packet }, .notDmx (seq_number r.packet))
  else
    let sent := send_artnet_header (seq_number r.packet) r.packet (PROP_VAL + 1)
      ((prop_val_cnt r.packet : Int) - 1) accepted r.node
    ({ packet := sent.1, last_seq := seq_number r.packet, node := sent.2 },
      .forwarded (seq_number r.packet))

/-- One turn of the loop in sACN mode. -/
def sacnLoop (sacn_univ : UInt16) (r : Receiver) (a : Arrival) : Receiver × Verdict :=
  let got := e131_recv r.packet a.datagram
  if got.2 = 0 then ({ r with packet := got.1 }, .ignored)
  else sacnPacket sacn_univ a.accepted { r with packet := got.1 }

/-- One turn of the loop in Art-Net mode. -/
def artnetLoop (S : Setup) (r : Receiver) (a : Arrival) : Option (Receiver × Verdict) :=
  let got := e131_recv r.packet a.datagram
  if got.2 = 0 then some ({ r with packet := got.1 }, .ignored)
  else
    (process_artnet_msg S got.1 got.2 a.sin_addr r.node).map fun done =>
      ({ r with packet := done.1, node := done.2 }, .artNet)

/-- One turn of the loop; `protocol` is the first character of the stored protocol. -/
def sACN_main (S : Setup) (protocol : UInt8) (sacn_univ : UInt16) (r : Receiver) (a : Arrival) :
    Option (Receiver × Verdict) :=
  if protocol = 0x30 then artnetLoop S r a else some (sacnLoop sacn_univ r a)

def start (S : Setup) : Receiver where
  packet := zeroed
  last_seq := 0x00
  node := aks_printf (ascii "waiting for E1.31 packets ...\n") (boot S)

/-- The protocol is read once, so a loop that is not in Art-Net mode stays in sACN mode. -/
theorem sACN_main_run (S : Setup) {protocol : UInt8} (h : protocol ≠ 0x30) (sacn_univ : UInt16)
    (arrivals : List Arrival) :
    Runs.exec (fun r a => (sACN_main S protocol sacn_univ r a).map Prod.fst) (start S) arrivals =
      some (Runs.react (sacnLoop sacn_univ) (start S) arrivals).1 := by
  refine Runs.exec_eq_react (fun r a => ?_) (start S) arrivals
  rw [sACN_main, if_neg h, Option.map_some]

/-! ### What `last_seq` holds -/

/-- The sequence number that a turn leaves in `last_seq`, if it sets it. -/
def Verdict.number : Verdict → Option UInt8
  | .outOfOrder seq => some seq
  | .notDmx seq => some seq
  | .forwarded seq => some seq
  | _ => none

/-- The number that the next packet is compared with: the last one that set it. -/
def reference (verdicts : List Verdict) : UInt8 :=
  verdicts.foldl (fun last v => v.number.getD last) 0

theorem reference_concat (verdicts : List Verdict) (v : Verdict) :
    reference (verdicts ++ [v]) = v.number.getD (reference verdicts) := by
  simp [reference]

theorem reference_append_of_none (verdicts : List Verdict) {between : List Verdict}
    (h : ∀ v ∈ between, v.number = none) :
    reference (verdicts ++ between) = reference verdicts := by
  induction between using List.reverseRecOn with
  | nil => simp
  | append_singleton between v ih =>
    rw [← List.append_assoc, reference_concat, h v (by simp)]
    exact ih fun u hu => h u (List.mem_append_left _ hu)

theorem sacnLoop_last_seq (sacn_univ : UInt16) (r : Receiver) (a : Arrival) :
    (sacnLoop sacn_univ r a).1.last_seq =
      (sacnLoop sacn_univ r a).2.number.getD r.last_seq := by
  simp only [sacnLoop, sacnPacket]
  split <;> [rfl; split] <;> [rfl; split] <;> [rfl; split] <;> [rfl; split] <;> rfl

theorem sacnLoop_forwarded {sacn_univ : UInt16} {r : Receiver} {a : Arrival} {seq : UInt8}
    (h : (sacnLoop sacn_univ r a).2 = .forwarded seq) :
    let packet := (e131_recv r.packet a.datagram).1
    e131_pkt_validate packet = .NONE ∧ frame_universe packet = sacn_univ.toNat ∧
      packet PROP_VAL = 0x00 ∧ seq = seq_number packet ∧ ¬ Behind seq r.last_seq := by
  simp only [sacnLoop, sacnPacket] at h
  split at h
  · cases h
  split at h
  · cases h
  rename_i hvalid
  split at h
  · cases h
  rename_i hkeep
  split at h
  · cases h
  rename_i huniv
  split at h
  · cases h
  rename_i hcode
  obtain rfl := Verdict.forwarded.inj h
  exact ⟨not_not.mp hvalid, not_not.mp huniv, not_not.mp hcode, rfl,
    fun hbehind => hkeep ((discard_iff _ _).mpr hbehind)⟩

/-! ### Which packets are sent on -/

def verdicts (sacn_univ : UInt16) (S : Setup) (arrivals : List Arrival) : List Verdict :=
  (Runs.react (sacnLoop sacn_univ) (start S) arrivals).2

/-- No packet is sent on behind the last packet that was sent on. -/
def NeverBehindLastSent (vs : List Verdict) : Prop :=
  ∀ before last between seq after,
    vs = before ++ .forwarded last :: between ++ .forwarded seq :: after →
      (∀ v ∈ between, ∀ s, v ≠ .forwarded s) → ¬ Behind seq last

/-- No packet is sent on behind the number it is compared with, and none behind the last
packet that was sent on unless the comparison moved in between: to a packet discarded as
out of order, or to one of the configured universe that carries no DMX data. -/
def SequenceRule (vs : List Verdict) : Prop :=
  ∀ earlier seq after, vs = earlier ++ .forwarded seq :: after →
    ¬ Behind seq (reference earlier) ∧
      ∀ before last between, earlier = before ++ .forwarded last :: between →
        (∀ v ∈ between, ∀ s, v ≠ .forwarded s ∧ v ≠ .outOfOrder s ∧ v ≠ .notDmx s) →
          ¬ Behind seq last

theorem run_last_seq (sacn_univ : UInt16) (S : Setup) (arrivals : List Arrival) :
    (Runs.react (sacnLoop sacn_univ) (start S) arrivals).1.last_seq =
      reference (verdicts sacn_univ S arrivals) := by
  refine Runs.react_induction (sacnLoop sacn_univ) (start S)
    (fun _ vs r => r.last_seq = reference vs) rfl ?_ arrivals
  intro _ vs r a hlast
  rw [sacnLoop_last_seq, reference_concat, hlast]

theorem run_forwarded (sacn_univ : UInt16) (S : Setup) (arrivals : List Arrival)
    {earlier after : List Verdict} {seq : UInt8}
    (h : verdicts sacn_univ S arrivals = earlier ++ .forwarded seq :: after) :
    ¬ Behind seq (reference earlier) := by
  obtain ⟨arrivals₀, a, _, _, hearlier, hverdict⟩ := Runs.react_output_eq h
  have hlast := run_last_seq sacn_univ S arrivals₀
  rw [verdicts, hearlier] at hlast
  rw [← hlast]
  exact (sacnLoop_forwarded hverdict).2.2.2.2

/-- **The sequence check over whole runs.** -/
theorem sequence_rule (sacn_univ : UInt16) (S : Setup) (arrivals : List Arrival) :
    SequenceRule (verdicts sacn_univ S arrivals) := by
  intro earlier seq after hrun
  have hseq := run_forwarded sacn_univ S arrivals hrun
  refine ⟨hseq, fun before last between hsplit hquiet => ?_⟩
  have hnone : ∀ v ∈ between, v.number = none := by
    intro v hv
    cases v with
    | outOfOrder s => exact absurd rfl (hquiet _ hv s).2.1
    | notDmx s => exact absurd rfl (hquiet _ hv s).2.2
    | forwarded s => exact absurd rfl (hquiet _ hv s).1
    | _ => rfl
  have href : reference earlier = last := by
    rw [hsplit, List.append_cons, reference_append_of_none _ hnone, reference_concat]
    rfl
  rwa [href] at hseq

def onePacket (seq : UInt8) : List UInt8 :=
  match e131_pkt_init 1 1 with
  | some packet => load (store packet 111 [seq]) 0 127
  | none => []

def onePacketArrival (seq : UInt8) : Arrival := ⟨onePacket seq, ⟨10, 0, 0, 1⟩, 19⟩

/-- Packet 5 is discarded and becomes the reference, so that packet 10 is sent on twice. -/
theorem resync_repeats_packet :
    ¬ NeverBehindLastSent (verdicts 1 (gafferSetup "0")
      [onePacketArrival 10, onePacketArrival 5, onePacketArrival 10]) := by
  have hrun : verdicts 1 (gafferSetup "0")
      [onePacketArrival 10, onePacketArrival 5, onePacketArrival 10] =
        [.forwarded 10, .outOfOrder 5, .forwarded 10] := by
    decide +kernel
  intro h
  exact h [] 10 [.outOfOrder 5] 10 [] hrun (by simp) (by decide)

end AksFirmware.E131
