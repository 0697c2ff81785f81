import AksFirmware.PacketBuffer

/-!
# Packets for other universes

The receiver is meant to send on the packets of one universe as if no others were on the
network.  `expectedFrames` says what that is: a packet is compared with the one before it on
the same universe.

The code keeps a single `last_seq` and sets it before it looks at the universe when it
discards a packet.  A packet for another universe is without effect exactly if it is not
strictly behind `last_seq` when it arrives.
-/

namespace AksFirmware.UniverseIsolation

open ByteMemory ArtNet E131 PacketBuffer

/-! ### Packets -/

/-- The received bytes of a datagram, with zeros behind them. -/
def packetOf (datagram : List UInt8) : Mem := store zeroed 0 (received datagram)

/-- A valid packet with all the slots it counts. -/
structure Valid (datagram : List UInt8) : Prop where
  complete : 126 ≤ (received datagram).length
  accepted : e131_pkt_validate (packetOf datagram) = .NONE
  slots : PROP_VAL + prop_val_cnt (packetOf datagram) ≤ (received datagram).length

def Own (sacn_univ : UInt16) (datagram : List UInt8) : Prop :=
  frame_universe (packetOf datagram) = sacn_univ.toNat

instance (sacn_univ : UInt16) (datagram : List UInt8) : Decidable (Own sacn_univ datagram) :=
  inferInstanceAs (Decidable (_ = _))

/-- The number of the packet is fewer than 20 behind `last_seq`, and not equal to it. -/
def StrictlyBehind (datagram : List UInt8) (last_seq : UInt8) : Prop :=
  Behind (seq_number (packetOf datagram)) last_seq ∧ seq_number (packetOf datagram) ≠ last_seq

def ownPackets (sacn_univ : UInt16) (arrivals : List Arrival) : List (List UInt8) :=
  (arrivals.map Arrival.datagram).filter fun d => Own sacn_univ d

/-! ### The frames of a run -/

def turn (sacn_univ : UInt16) (r : Receiver) (a : Arrival) :
    Receiver × (Verdict × List (List UInt8)) :=
  let done := sacnLoop sacn_univ r a
  (done.1, done.2, done.1.node.uart.drop r.node.uart.length)

/-- What is written for a packet that is sent on. -/
def forwardedFrames : Verdict × List (List UInt8) → List (List UInt8)
  | (.forwarded _, frames) => frames
  | _ => []

/-- The frames forwarded from `r` on. -/
def frames (sacn_univ : UInt16) (r : Receiver) (arrivals : List Arrival) : List (List UInt8) :=
  (Runs.react (turn sacn_univ) r arrivals).2.flatMap forwardedFrames

theorem frames_nil (sacn_univ : UInt16) (r : Receiver) : frames sacn_univ r [] = [] := rfl

theorem frames_cons (sacn_univ : UInt16) (r : Receiver) (a : Arrival) (as : List Arrival) :
    frames sacn_univ r (a :: as) =
      forwardedFrames (turn sacn_univ r a).2 ++ frames sacn_univ (sacnLoop sacn_univ r a).1 as := by
  rw [frames, Runs.react, List.flatMap_cons]
  rfl

/-! ### A node that is alone on its universe -/

/-- The frames for the packets of one universe: each packet is compared with the one before
it, sent on if it is not behind it, and has to carry DMX data. -/
def expectedFrames (hdr : Mem) : UInt8 → List (List UInt8) → List (List UInt8)
  | _, [] => []
  | last, d :: ds =>
      (if ¬ Behind (seq_number (packetOf d)) last ∧ packetOf d PROP_VAL = 0 then
        [sentFrame (packetOf d) hdr] else []) ++
        expectedFrames hdr (seq_number (packetOf d)) ds

/-! ### One turn -/

section Turn

variable {sacn_univ : UInt16} {r : Receiver} {a : Arrival} (hv : Valid a.datagram)
include hv

/-- The fields of a valid packet are read as they were sent, whatever the buffer held. -/
theorem Valid.turn_eq :
    (turn sacn_univ r a).2 =
      if Behind (seq_number (packetOf a.datagram)) r.last_seq then
        (.outOfOrder (seq_number (packetOf a.datagram)),
          [CText.ascii "warning: packet out of order received\n"])
      else if ¬ Own sacn_univ a.datagram then (.otherUniverse, [])
      else if packetOf a.datagram PROP_VAL ≠ 0 then
        (.notDmx (seq_number (packetOf a.datagram)), [])
      else (.forwarded (seq_number (packetOf a.datagram)),
        [sentFrame (packetOf a.datagram) r.node.artnet_hdr_msg]) := by
  have hn := hv.complete
  have hagree := agree_received zeroed r.packet a.datagram
  have hvalid : e131_pkt_validate (store r.packet 0 (received a.datagram)) = .NONE :=
    (validate_whole hagree (by omega)).symm.trans hv.accepted
  have hseq : seq_number (packetOf a.datagram) =
      seq_number (store r.packet 0 (received a.datagram)) := hagree 111 (by omega)
  have huniv : frame_universe (packetOf a.datagram) =
      frame_universe (store r.packet 0 (received a.datagram)) := hagree.be16 (by omega)
  have hcode : packetOf a.datagram PROP_VAL =
      store r.packet 0 (received a.datagram) PROP_VAL := hagree PROP_VAL hn
  have hframe := sentFrame_congr hagree hn hv.slots
    (fun _ _ => rfl : SameHeader r.node.artnet_hdr_msg r.node.artnet_hdr_msg)
  have hturn : (turn sacn_univ r a).2 =
      sacnShown sacn_univ a.accepted { r with packet := store r.packet 0 (received a.datagram) } := by
    have hne : ¬ (received a.datagram).length = 0 := by omega
    have hloop : sacnLoop sacn_univ r a = sacnPacket sacn_univ a.accepted
        { r with packet := store r.packet 0 (received a.datagram) } := if_neg hne
    rw [turn, hloop]
    rfl
  rw [hturn, sacnShown_valid sacn_univ a.accepted
    (r := { r with packet := store r.packet 0 (received a.datagram) }) hvalid]
  simp only [Own, ← hseq, ← huniv, ← hcode, ← hframe, packetOf, ne_eq]
  rfl

/-- A packet of the configured universe becomes the reference, sent on or not. -/
theorem Valid.own_last_seq (hown : Own sacn_univ a.datagram) :
    (sacnLoop sacn_univ r a).1.last_seq = seq_number (packetOf a.datagram) := by
  have hturn := congrArg Prod.fst (@Valid.turn_eq sacn_univ r a hv)
  rw [sacnLoop_last_seq]
  simp only [turn] at hturn
  rw [hturn, if_neg (not_not.mpr hown)]
  split <;> [rfl; split] <;> rfl

theorem Valid.own_frames (hown : Own sacn_univ a.datagram) :
    forwardedFrames (turn sacn_univ r a).2 =
      if ¬ Behind (seq_number (packetOf a.datagram)) r.last_seq ∧ packetOf a.datagram PROP_VAL = 0
        then [sentFrame (packetOf a.datagram) r.node.artnet_hdr_msg] else [] := by
  rw [hv.turn_eq, if_neg (not_not.mpr hown)]
  split
  · rename_i hbehind
    rw [if_neg (fun h => h.1 hbehind)]
    rfl
  split
  · rename_i hcode
    rw [if_neg (fun h => hcode h.2)]
    rfl
  · rename_i hkeep hcode
    rw [if_pos ⟨hkeep, not_not.mp hcode⟩]
    rfl

/-- A packet for another universe is not sent on, and moves `last_seq` only if it is behind. -/
theorem Valid.foreign_last_seq (hforeign : ¬ Own sacn_univ a.datagram) :
    (sacnLoop sacn_univ r a).1.last_seq =
      if Behind (seq_number (packetOf a.datagram)) r.last_seq then
        seq_number (packetOf a.datagram) else r.last_seq := by
  have hturn := congrArg Prod.fst (@Valid.turn_eq sacn_univ r a hv)
  rw [sacnLoop_last_seq]
  simp only [turn] at hturn
  rw [hturn, if_pos hforeign]
  split <;> rfl

theorem Valid.foreign_frames (hforeign : ¬ Own sacn_univ a.datagram) :
    forwardedFrames (turn sacn_univ r a).2 = [] := by
  rw [hv.turn_eq, if_pos hforeign]
  split <;> rfl

end Turn

theorem sacnLoop_header (sacn_univ : UInt16) (r : Receiver) (a : Arrival) :
    SameHeader (sacnLoop sacn_univ r a).1.node.artnet_hdr_msg r.node.artnet_hdr_msg := by
  unfold sacnLoop
  simp only
  split
  · intro _ _
    exact rfl
  · exact sacnPacket_header sacn_univ a.accepted _

/-- A frame shows nothing of the header's old sequence number. -/
theorem sentFrame_header {hdr hdr' : Mem} (h : SameHeader hdr hdr') (packet : Mem) :
    sentFrame packet hdr = sentFrame packet hdr' := by
  rw [sentFrame, sentFrame, h.store]

theorem expectedFrames_header {hdr hdr' : Mem} (h : SameHeader hdr hdr') (last : UInt8)
    (ds : List (List UInt8)) : expectedFrames hdr last ds = expectedFrames hdr' last ds := by
  induction ds generalizing last with
  | nil => rfl
  | cons d ds ih => rw [expectedFrames, expectedFrames, ih, sentFrame_header h]

/-! ### Whole runs -/

/-- No packet for another universe is strictly behind `last_seq` when it arrives. -/
def Undisturbed (sacn_univ : UInt16) (r : Receiver) (arrivals : List Arrival) : Prop :=
  Runs.Each (fun r a => some (sacnLoop sacn_univ r a).1)
    (fun r a => ¬ Own sacn_univ a.datagram → ¬ StrictlyBehind a.datagram r.last_seq) r arrivals

/-- An undisturbed receiver sends what it would send alone on its universe. -/
theorem undisturbed_frames {sacn_univ : UInt16} {r : Receiver} {arrivals : List Arrival}
    (hv : ∀ a ∈ arrivals, Valid a.datagram) (h : Undisturbed sacn_univ r arrivals) :
    frames sacn_univ r arrivals =
      expectedFrames r.node.artnet_hdr_msg r.last_seq (ownPackets sacn_univ arrivals) := by
  induction arrivals generalizing r with
  | nil => rfl
  | cons a as ih =>
    obtain ⟨ha, hrest⟩ := (Runs.each_cons rfl).mp h
    have hva := hv a List.mem_cons_self
    rw [frames_cons, ih (fun b hb => hv b (List.mem_cons_of_mem a hb)) hrest,
      expectedFrames_header (sacnLoop_header sacn_univ r a)]
    by_cases hown : Own sacn_univ a.datagram
    · have hkept : ownPackets sacn_univ (a :: as) = a.datagram :: ownPackets sacn_univ as := by
        simp [ownPackets, hown]
      rw [hkept, expectedFrames, hva.own_frames hown, hva.own_last_seq hown]
    · have hdropped : ownPackets sacn_univ (a :: as) = ownPackets sacn_univ as := by
        simp [ownPackets, hown]
      rw [hdropped, hva.foreign_frames hown, hva.foreign_last_seq hown, List.nil_append]
      split
      · -- behind but not strictly: the number is the one that is there already
        rename_i hbehind
        rw [not_not.mp fun hne => ha hown ⟨hbehind, hne⟩]
      · rfl

def AllOwn (sacn_univ : UInt16) (arrivals : List Arrival) : Prop :=
  ∀ a ∈ arrivals, Valid a.datagram ∧ Own sacn_univ a.datagram

/-- Stopped at any point of the sequence, the receiver treats all further packets of its own
universe as if it had received no others. -/
def Invisible (sacn_univ : UInt16) (r : Receiver) (arrivals : List Arrival) : Prop :=
  ∀ before after own, arrivals = before ++ after → AllOwn sacn_univ own →
    frames sacn_univ r (before ++ own) =
      frames sacn_univ r (before.filter (fun a => Own sacn_univ a.datagram) ++ own)

theorem undisturbed_cons {sacn_univ : UInt16} {r : Receiver} {a : Arrival} {as : List Arrival} :
    Undisturbed sacn_univ r (a :: as) ↔
      (¬ Own sacn_univ a.datagram → ¬ StrictlyBehind a.datagram r.last_seq) ∧
        Undisturbed sacn_univ (sacnLoop sacn_univ r a).1 as :=
  Runs.each_cons rfl

theorem undisturbed_own {sacn_univ : UInt16} (r : Receiver) {own : List Arrival}
    (hown : AllOwn sacn_univ own) : Undisturbed sacn_univ r own := by
  induction own generalizing r with
  | nil => trivial
  | cons a as ih =>
    obtain ⟨ha, has⟩ := List.forall_mem_cons.mp hown
    exact undisturbed_cons.mpr ⟨absurd ha.2, ih _ has⟩

theorem undisturbed_append_own {sacn_univ : UInt16} {r : Receiver}
    {before after own : List Arrival} (h : Undisturbed sacn_univ r (before ++ after))
    (hown : AllOwn sacn_univ own) : Undisturbed sacn_univ r (before ++ own) := by
  induction before generalizing r with
  | nil => exact undisturbed_own r hown
  | cons a before ih =>
    obtain ⟨ha, hrest⟩ := undisturbed_cons.mp h
    exact undisturbed_cons.mpr ⟨ha, ih hrest⟩

/-- The frames of packets of the own universe depend on `last_seq` and the header only. -/
theorem allOwn_frames {sacn_univ : UInt16} {r r' : Receiver} {own : List Arrival}
    (hown : AllOwn sacn_univ own) (hlast : r.last_seq = r'.last_seq)
    (hhdr : SameHeader r.node.artnet_hdr_msg r'.node.artnet_hdr_msg) :
    frames sacn_univ r own = frames sacn_univ r' own := by
  rw [undisturbed_frames (fun a ha => (hown a ha).1) (undisturbed_own r hown),
    undisturbed_frames (fun a ha => (hown a ha).1) (undisturbed_own r' hown), hlast,
    expectedFrames_header hhdr]

theorem ownPackets_filter (sacn_univ : UInt16) (before own : List Arrival) :
    ownPackets sacn_univ (before.filter (fun a => Own sacn_univ a.datagram) ++ own) =
      ownPackets sacn_univ (before ++ own) := by
  simp only [ownPackets, List.map_append, List.filter_append, List.filter_map, List.filter_filter,
    Function.comp_def, Bool.and_self]

theorem Undisturbed.invisible {sacn_univ : UInt16} {r : Receiver} {arrivals : List Arrival}
    (hv : ∀ a ∈ arrivals, Valid a.datagram) (h : Undisturbed sacn_univ r arrivals) :
    Invisible sacn_univ r arrivals := by
  rintro before after own rfl hown
  have hvalid : ∀ a ∈ before ++ own, Valid a.datagram := by
    intro a ha
    rcases List.mem_append.mp ha with hbefore | hin
    · exact hv a (List.mem_append_left after hbefore)
    · exact (hown a hin).1
  have hfiltered : AllOwn sacn_univ
      (before.filter (fun a => Own sacn_univ a.datagram) ++ own) := by
    intro a ha
    rcases List.mem_append.mp ha with hbefore | hin
    · obtain ⟨hmem, hkept⟩ := List.mem_filter.mp hbefore
      exact ⟨hv a (List.mem_append_left after hmem), of_decide_eq_true hkept⟩
    · exact hown a hin
  rw [undisturbed_frames hvalid (undisturbed_append_own h hown),
    undisturbed_frames (fun a ha => (hfiltered a ha).1)
      (undisturbed_own r hfiltered),
    ownPackets_filter]

/-! ### A packet that tells the difference -/

def plainBytes (sacn_univ : UInt16) (seq : UInt8) : Mem :=
  store (store (store validBytes 111 [seq]) 113 (bytes16 sacn_univ.toNat)) 123 (bytes16 1)

def plainPacket (sacn_univ : UInt16) (seq : UInt8) : List UInt8 :=
  load (plainBytes sacn_univ seq) 0 126

theorem received_plainPacket (sacn_univ : UInt16) (seq : UInt8) :
    received (plainPacket sacn_univ seq) = plainPacket sacn_univ seq :=
  List.take_of_length_le (by simp [plainPacket, Gaffer.PACKET_SIZE])

theorem plainPacket_agree (sacn_univ : UInt16) (seq : UInt8) :
    Agree 126 (packetOf (plainPacket sacn_univ seq)) (plainBytes sacn_univ seq) := by
  intro x hx
  rw [packetOf, received_plainPacket, plainPacket, store_load_eq, if_pos (by omega)]
  simp

theorem plainPacket_seq (sacn_univ : UInt16) (seq : UInt8) :
    seq_number (packetOf (plainPacket sacn_univ seq)) = seq := by
  rw [seq_number, plainPacket_agree _ _ 111 (by decide)]
  simp [plainBytes, store_eq, bytes16]

theorem plainPacket_own (sacn_univ : UInt16) (seq : UInt8) :
    Own sacn_univ (plainPacket sacn_univ seq) := by
  have hlt := sacn_univ.toNat_lt
  have huniv : be16 (plainBytes sacn_univ seq) 113 = sacn_univ.toNat := by
    simp [be16, plainBytes, store_eq, bytes16]
    omega
  rw [Own, frame_universe, (plainPacket_agree sacn_univ seq).be16 (by decide), huniv]

theorem plainPacket_code (sacn_univ : UInt16) (seq : UInt8) :
    packetOf (plainPacket sacn_univ seq) PROP_VAL = 0 := by
  rw [plainPacket_agree _ _ PROP_VAL (by decide)]
  simp [plainBytes, store_eq, bytes16, PROP_VAL]
  decide

theorem plainPacket_valid (sacn_univ : UInt16) (seq : UInt8) :
    Valid (plainPacket sacn_univ seq) := by
  have hagree := plainPacket_agree sacn_univ seq
  have hcnt : prop_val_cnt (packetOf (plainPacket sacn_univ seq)) = 1 := by
    rw [prop_val_cnt, hagree.be16 (by decide)]
    simp [be16, plainBytes, store_eq, bytes16]
  have hclear : ∀ c ∈ checks, (c.offset + c.bytes.length ≤ 111 ∨ 112 ≤ c.offset) ∧
      (c.offset + c.bytes.length ≤ 113 ∨ 115 ≤ c.offset) ∧ c.offset + c.bytes.length ≤ 123 ∧
      load validBytes c.offset c.bytes.length = c.bytes := by
    decide
  constructor
  · rw [received_plainPacket]
    simp [plainPacket]
  · rw [validate_whole hagree (by decide), validate_eq_none]
    intro c hc
    obtain ⟨hseq, huniv, hend, hbytes⟩ := hclear c hc
    rw [plainBytes, load_store_disjoint _ _ (.inl hend), load_store_disjoint _ _ huniv,
      load_store_disjoint _ _ hseq, hbytes]
  · rw [received_plainPacket, hcnt]
    simp [plainPacket, PROP_VAL]

theorem behind_self (seq : UInt8) : Behind seq seq := by
  rw [Behind, UInt8.sub_self]
  decide

/-- A number strictly behind the reference makes room for the reference itself. -/
theorem StrictlyBehind.reference_ahead {datagram : List UInt8} {last : UInt8}
    (h : StrictlyBehind datagram last) :
    ¬ Behind last (seq_number (packetOf datagram)) := by
  obtain ⟨⟨hlo, hhi⟩, hne⟩ := h
  generalize seq_number (packetOf datagram) = seq at hlo hhi hne ⊢
  have hall : ∀ d : BitVec 8, -20 < d.toInt → d.toInt ≤ 0 → d ≠ 0 →
      ¬ (-20 < (-d).toInt ∧ (-d).toInt ≤ 0) := by
    decide +kernel
  have hdiff : (last - seq).toBitVec = -(seq - last).toBitVec := by
    rw [UInt8.toBitVec_sub, UInt8.toBitVec_sub]
    bv_omega
  have hzero : (seq - last).toBitVec ≠ 0 := by
    intro h0
    rw [UInt8.toBitVec_sub] at h0
    exact hne (UInt8.toBitVec_inj.mp (by bv_omega))
  intro hback
  have hsigned : (last - seq).toInt8.toInt = (-(seq - last).toBitVec).toInt := by
    rw [← hdiff]
    rfl
  rw [Behind, hsigned] at hback
  exact hall _ hlo hhi hzero hback

/-- A packet with the number of the reference is sent on once a foreign packet has moved the
reference behind it. -/
theorem StrictlyBehind.shows {sacn_univ : UInt16} {r : Receiver} {a probe : Arrival}
    (hbehind : StrictlyBehind a.datagram r.last_seq) (hva : Valid a.datagram)
    (hforeign : ¬ Own sacn_univ a.datagram) (hvalid : Valid probe.datagram)
    (hmine : Own sacn_univ probe.datagram)
    (hseq : seq_number (packetOf probe.datagram) = r.last_seq)
    (hcode : packetOf probe.datagram PROP_VAL = 0) :
    frames sacn_univ (sacnLoop sacn_univ r a).1 [probe] ≠ frames sacn_univ r [probe] := by
  intro hframes
  have hmoved : (sacnLoop sacn_univ r a).1.last_seq = seq_number (packetOf a.datagram) := by
    rw [hva.foreign_last_seq hforeign, if_pos hbehind.1]
  rw [frames_cons, frames_cons, frames_nil, frames_nil, hvalid.own_frames hmine,
    hvalid.own_frames hmine, hmoved, hseq, hcode, if_pos ⟨hbehind.reference_ahead, rfl⟩,
    if_neg (fun h => h.1 (behind_self r.last_seq))] at hframes
  cases hframes

/-- What is invisible leaves the receiver undisturbed. -/
theorem Invisible.undisturbed {sacn_univ : UInt16} {r : Receiver} {arrivals : List Arrival}
    (hv : ∀ a ∈ arrivals, Valid a.datagram) (h : Invisible sacn_univ r arrivals) :
    Undisturbed sacn_univ r arrivals := by
  induction arrivals generalizing r with
  | nil => trivial
  | cons a as ih =>
    obtain ⟨hva, hvas⟩ := List.forall_mem_cons.mp hv
    by_cases hown : Own sacn_univ a.datagram
    · refine undisturbed_cons.mpr ⟨absurd hown, ih hvas ?_⟩
      rintro before after own rfl hin
      have hframes := h (a :: before) after own rfl hin
      rw [List.filter_cons_of_pos (by simpa using hown), List.cons_append, List.cons_append,
        frames_cons, frames_cons] at hframes
      exact List.append_cancel_left hframes
    · have hskip : ∀ before after own, as = before ++ after → AllOwn sacn_univ own →
          frames sacn_univ (sacnLoop sacn_univ r a).1 (before ++ own) =
            frames sacn_univ r (before.filter (fun a => Own sacn_univ a.datagram) ++ own) := by
        rintro before after own rfl hin
        have hframes := h (a :: before) after own rfl hin
        rwa [List.filter_cons_of_neg (by simpa using hown), List.cons_append, frames_cons,
          hva.foreign_frames hown, List.nil_append] at hframes
      have hharmless : ¬ StrictlyBehind a.datagram r.last_seq := by
        intro hbehind
        have hprobe : AllOwn sacn_univ [⟨plainPacket sacn_univ r.last_seq, ⟨0, 0, 0, 0⟩, 0⟩] := by
          simpa [AllOwn] using ⟨plainPacket_valid sacn_univ r.last_seq,
            plainPacket_own sacn_univ r.last_seq⟩
        obtain ⟨hvalid, hmine⟩ := hprobe _ List.mem_cons_self
        exact hbehind.shows hva hown hvalid hmine (plainPacket_seq _ _) (plainPacket_code _ _)
          (hskip [] as _ rfl hprobe)
      have hlast : (sacnLoop sacn_univ r a).1.last_seq = r.last_seq := by
        rw [hva.foreign_last_seq hown]
        split
        · rename_i hin
          exact not_not.mp fun hne => hharmless ⟨hin, hne⟩
        · rfl
      refine undisturbed_cons.mpr ⟨fun _ => hharmless, ih hvas ?_⟩
      rintro before after own rfl hin
      rw [hskip before after own rfl hin]
      refine (allOwn_frames ?_ hlast (sacnLoop_header sacn_univ r a)).symm
      intro b hb
      rcases List.mem_append.mp hb with hbefore | hmem
      · obtain ⟨hmem, hkept⟩ := List.mem_filter.mp hbefore
        exact ⟨hvas b (List.mem_append_left after hmem), of_decide_eq_true hkept⟩
      · exact hin b hmem

/-- **Isolation from other universes.**  Two sequences with the same packets for the
configured universe forward the same frames if both leave the receiver undisturbed; and
leaving it undisturbed is what it takes for a sequence to be invisible. -/
theorem isolation (S : Setup) (sacn_univ : UInt16) {arrivals : List Arrival}
    (hv : ∀ a ∈ arrivals, Valid a.datagram) :
    (Undisturbed sacn_univ (start S) arrivals →
      ∀ arrivals', (∀ a ∈ arrivals', Valid a.datagram) →
        Undisturbed sacn_univ (start S) arrivals' →
        ownPackets sacn_univ arrivals' = ownPackets sacn_univ arrivals →
          frames sacn_univ (start S) arrivals' = frames sacn_univ (start S) arrivals) ∧
      (Invisible sacn_univ (start S) arrivals ↔ Undisturbed sacn_univ (start S) arrivals) := by
  refine ⟨fun h arrivals' hv' h' hsame => ?_, fun h => h.undisturbed hv, fun h => h.invisible hv⟩
  rw [undisturbed_frames hv' h', undisturbed_frames hv h, hsame]

/-! ### A packet that disturbs -/

def plainArrival (sacn_univ : UInt16) (seq : UInt8) : Arrival :=
  ⟨plainPacket sacn_univ seq, ⟨10, 0, 0, 1⟩, 18⟩

/-- With a packet of universe 2 in between that is five behind, packet 10 of universe 1 is
sent on twice. -/
theorem foreign_packet_repeats_frame :
    ¬ ∀ xs ys : List Arrival, (∀ a ∈ xs ++ ys, Valid a.datagram) →
      ownPackets 1 xs = ownPackets 1 ys →
        frames 1 (start (gafferSetup "0")) xs = frames 1 (start (gafferSetup "0")) ys := by
  intro hall
  have hsame := hall [plainArrival 1 10, plainArrival 2 5, plainArrival 1 10]
    [plainArrival 1 10, plainArrival 1 10] ?_ (by decide +kernel)
  · exact absurd hsame (by decide +kernel)
  · simp [plainArrival, plainPacket_valid]

theorem isolation_sample :
    (Undisturbed 1 (start (gafferSetup "0")) [plainArrival 2 5, plainArrival 1 10] →
      ∀ arrivals', (∀ a ∈ arrivals', Valid a.datagram) →
        Undisturbed 1 (start (gafferSetup "0")) arrivals' →
        ownPackets 1 arrivals' = ownPackets 1 [plainArrival 2 5, plainArrival 1 10] →
          frames 1 (start (gafferSetup "0")) arrivals' =
            frames 1 (start (gafferSetup "0")) [plainArrival 2 5, plainArrival 1 10]) ∧
      (Invisible 1 (start (gafferSetup "0")) [plainArrival 2 5, plainArrival 1 10] ↔
        Undisturbed 1 (start (gafferSetup "0")) [plainArrival 2 5, plainArrival 1 10]) :=
  isolation (gafferSetup "0") 1 (by simp [plainArrival, plainPacket_valid])

end AksFirmware.UniverseIsolation
