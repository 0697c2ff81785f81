import AksFirmware.E131

/-!
# What an old packet leaves in the buffer

`sACN_main` receives each datagram over the one before it.  The count that `recvfrom`
returns is tested for zero and not used again in sACN mode, so behind a short packet the
bytes of an earlier, longer one are read as if they had been received.

Two histories are compared that differ in nothing the receiver keeps but these bytes.
Art-Net mode passes the count on and is independent of them; for sACN mode the datagrams
that are handled alike are described by `Covered`, in terms of the received bytes only.
-/

namespace AksFirmware.PacketBuffer

open ByteMemory CText WebConfig Gaffer ArtNet E131

/-! ### Histories -/

/-- How a receiver got where it is: the set-up at its start, the datagrams since then with
the set-up at each, and the bytes that stand behind the packet buffer now. -/
structure History where
  setup : Setup
  arrivals : List (Setup × Arrival)
  behind : Mem

def turn (protocol : UInt8) (sacn_univ : UInt16) (r : Receiver) (x : Setup × Arrival) :
    Option Receiver :=
  (sACN_main x.1 protocol sacn_univ r x.2).map Prod.fst

def History.receiver (protocol : UInt8) (sacn_univ : UInt16) (h : History) : Option Receiver :=
  (Runs.exec (turn protocol sacn_univ) (start h.setup) h.arrivals).map fun r =>
    { r with packet := fun x => if x < PACKET_SIZE then r.packet x else h.behind x }

/-- What a datagram leads to: the decision, and the writes to the serial port. -/
def shown (S : Setup) (protocol : UInt8) (sacn_univ : UInt16) (r : Receiver) (a : Arrival) :
    Option (Verdict × List (List UInt8)) :=
  (sACN_main S protocol sacn_univ r a).map fun done =>
    (done.2, done.1.node.uart.drop r.node.uart.length)

/-- Every history that leaves the same `last_seq` and the same gaffer buffer leads to the
same decision and the same writes. -/
def Independent (S : Setup) (protocol : UInt8) (sacn_univ : UInt16) (r : Receiver) (a : Arrival) :
    Prop :=
  ∀ (h : History) r', h.receiver protocol sacn_univ = some r' → r'.last_seq = r.last_seq →
    r'.node.gaffer_data = r.node.gaffer_data →
      shown S protocol sacn_univ r' a = shown S protocol sacn_univ r a

/-! ### Two buffers that hold the same received bytes -/

def Agree (n : Nat) (m m' : Mem) : Prop := ∀ x < n, m x = m' x

theorem Agree.symm {n : Nat} {m m' : Mem} (h : Agree n m m') : Agree n m' m :=
  fun x hx => (h x hx).symm

theorem Agree.store {n : Nat} {m m' : Mem} (h : Agree n m m') (a : Nat) (bytes : List UInt8) :
    Agree n (store m a bytes) (store m' a bytes) := by
  intro x hx
  rw [store_eq, store_eq, h x hx]

theorem Agree.load {n : Nat} {m m' : Mem} (h : Agree n m m') {a k : Nat} (hk : a + k ≤ n) :
    load m a k = load m' a k :=
  load_congr fun i hi => h (a + i) (by omega)

theorem Agree.be16 {n : Nat} {m m' : Mem} (h : Agree n m m') {a : Nat} (ha : a + 2 ≤ n) :
    be16 m a = be16 m' a := by
  rw [E131.be16, E131.be16, h a (by omega), h (a + 1) (by omega)]

def received (datagram : List UInt8) : List UInt8 := datagram.take PACKET_SIZE

theorem e131_recv_eq (packet : Mem) (datagram : List UInt8) :
    e131_recv packet datagram = (store packet 0 (received datagram), (received datagram).length) :=
  rfl

theorem agree_received (m m' : Mem) (datagram : List UInt8) :
    Agree (received datagram).length (store m 0 (received datagram))
      (store m' 0 (received datagram)) := by
  intro x hx
  have h := store_at m 0 x (received datagram) hx
  have h' := store_at m' 0 x (received datagram) hx
  rw [Nat.zero_add] at h h'
  rw [h, h']

/-! ### Which error is found -/

/-- A field that `e131_pkt_validate` compares with fixed bytes. -/
structure Check where
  offset : Nat
  bytes : List UInt8
  error : e131_error_t

def checks : List Check :=
  [⟨0, bytes16 0x0010, .PREAMBLE_SIZE⟩, ⟨2, bytes16 0x0000, .POSTAMBLE_SIZE⟩,
    ⟨4, E131_ACN_PID, .ACN_PID⟩, ⟨18, bytes32 0x00000004, .VECTOR_ROOT⟩,
    ⟨40, bytes32 0x00000002, .VECTOR_FRAME⟩, ⟨117, [0x02], .VECTOR_DMP⟩, ⟨118, [0xa1], .TYPE_DMP⟩,
    ⟨119, bytes16 0x0000, .FIRST_ADDR_DMP⟩, ⟨121, bytes16 0x0001, .ADDR_INC_DMP⟩]

def firstError (m : Mem) : List Check → e131_error_t
  | [] => .NONE
  | c :: cs => if load m c.offset c.bytes.length ≠ c.bytes then c.error else firstError m cs

theorem be16_eq_iff (m : Mem) (a : Nat) {v : Nat} (hv : v < 65536) :
    be16 m a = v ↔ load m a 2 = bytes16 v := by
  have h1 := (m a).toNat_lt
  have h2 := (m (a + 1)).toNat_lt
  have hload : load m a 2 = [m a, m (a + 1)] := rfl
  rw [hload, bytes16, List.cons.injEq, List.cons.injEq, ← UInt8.toNat_inj, ← UInt8.toNat_inj, be16]
  simp only [Nat.toUInt8_eq, UInt8.toNat_ofNat']
  constructor
  · intro h
    exact ⟨by omega, by omega, trivial⟩
  · rintro ⟨ha, hb, -⟩
    omega

theorem be32_eq_iff (m : Mem) (a : Nat) {v : Nat} (hv : v < 0x100000000) :
    be32 m a = v ↔ load m a 4 = bytes32 v := by
  have hhi := be16_eq_iff m a (v := v / 65536) (by omega)
  have hlo := be16_eq_iff m (a + 2) (v := v % 65536) (by omega)
  have hload : load m a 4 = load m a 2 ++ load m (a + 2) 2 := load_add m a 2 2
  have hmod : bytes16 v = bytes16 (v % 65536) := by
    simp only [bytes16, List.cons.injEq, and_true, ← UInt8.toNat_inj, Nat.toUInt8_eq,
      UInt8.toNat_ofNat']
    constructor <;> omega
  have h1 := (m (a + 2)).toNat_lt
  have h2 := (m (a + 2 + 1)).toNat_lt
  have hsplit : be32 m a = v ↔ be16 m a = v / 65536 ∧ be16 m (a + 2) = v % 65536 := by
    simp only [be32, be16]
    omega
  rw [hsplit, hhi, hlo, hload, bytes32, hmod]
  constructor
  · rintro ⟨ha, hb⟩
    rw [ha, hb]
  · intro h
    exact List.append_inj h (by simp [bytes16])

theorem e131_pkt_validate_eq (packet : Mem) :
    e131_pkt_validate packet = firstError packet checks := by
  have h16 : ∀ a v, v < 65536 → (be16 packet a = v ↔ load packet a 2 = bytes16 v) :=
    fun a _ => be16_eq_iff packet a
  have h32 : ∀ a v, v < 0x100000000 → (be32 packet a = v ↔ load packet a 4 = bytes32 v) :=
    fun a _ => be32_eq_iff packet a
  have h8 : ∀ a b, packet a = b ↔ load packet a 1 = [b] := by
    intro a b
    simp [load]
  unfold e131_pkt_validate
  simp only [checks, firstError, ne_eq, h16 _ _ (show 0x0010 < 65536 by decide),
    h16 _ _ (show 0 < 65536 by decide), h16 _ _ (show 1 < 65536 by decide),
    h32 _ _ (show 4 < 0x100000000 by decide), h32 _ _ (show 2 < 0x100000000 by decide), h8]
  rfl

theorem firstError_eq_none {m : Mem} {cs : List Check} (hcs : ∀ c ∈ cs, c.error ≠ .NONE) :
    firstError m cs = .NONE ↔ ∀ c ∈ cs, load m c.offset c.bytes.length = c.bytes := by
  induction cs with
  | nil => simp [firstError]
  | cons c cs ih =>
    have hc := hcs c List.mem_cons_self
    rw [firstError, List.forall_mem_cons]
    split
    · rename_i hfail
      exact iff_of_false hc fun h => hfail h.1
    · rename_i hpass
      rw [ih fun d hd => hcs d (List.mem_cons_of_mem c hd), and_iff_right (not_not.mp hpass)]

def Contradicted (n : Nat) (m : Mem) (c : Check) : Prop :=
  ∃ i < c.bytes.length, c.offset + i < n ∧ c.bytes[i]? ≠ some (m (c.offset + i))

/-- A received byte of some field differs, so the packet is rejected whatever stands behind
the received bytes. -/
def Rejected (n : Nat) (m : Mem) : Prop := ∃ c ∈ checks, Contradicted n m c

instance (n : Nat) (m : Mem) (c : Check) : Decidable (Contradicted n m c) := by
  unfold Contradicted; infer_instance

instance (n : Nat) (m : Mem) : Decidable (Rejected n m) := by
  unfold Rejected; infer_instance

theorem Contradicted.fails {n : Nat} {m m' : Mem} {c : Check} (h : Contradicted n m c)
    (hm : Agree n m m') : load m' c.offset c.bytes.length ≠ c.bytes := by
  obtain ⟨i, hi, hn, hne⟩ := h
  intro heq
  have hget : c.bytes[i]? = (load m' c.offset c.bytes.length)[i]? := by rw [heq]
  rw [load_getElem?_eq m' c.offset hi, ← hm _ hn] at hget
  exact hne hget

theorem Contradicted.congr {n : Nat} {m m' : Mem} {c : Check} (h : Contradicted n m c)
    (hm : Agree n m m') : Contradicted n m' c := by
  obtain ⟨i, hi, hn, hne⟩ := h
  exact ⟨i, hi, hn, hm _ hn ▸ hne⟩

/-- With a received byte that differs the error is settled by the received bytes. -/
theorem firstError_congr {n : Nat} {m m' : Mem} (hm : Agree n m m') {cs : List Check}
    (hcs : cs.Pairwise fun c d => c.offset + c.bytes.length ≤ d.offset)
    (h : ∃ c ∈ cs, Contradicted n m c) : firstError m cs = firstError m' cs := by
  induction cs with
  | nil => simp at h
  | cons c cs ih =>
    obtain ⟨hhead, htail⟩ := List.pairwise_cons.mp hcs
    by_cases hwhole : c.offset + c.bytes.length ≤ n
    · rw [firstError, firstError, hm.load hwhole]
      split
      · rfl
      · rename_i hpass
        obtain ⟨d, hd, hcon⟩ := h
        rcases List.mem_cons.mp hd with rfl | hd
        · exact absurd (hcon.fails hm) hpass
        · exact ih htail ⟨d, hd, hcon⟩
    · -- no later field has been received, so the byte that differs is in this one
      obtain ⟨d, hd, hcon⟩ := h
      rcases List.mem_cons.mp hd with rfl | hd
      · rw [firstError, firstError, if_pos (hcon.fails fun _ _ => rfl), if_pos (hcon.fails hm)]
      · obtain ⟨i, _, hn, _⟩ := hcon
        have := hhead d hd
        omega

theorem firstError_whole {n : Nat} {m m' : Mem} (hm : Agree n m m') {cs : List Check}
    (hcs : ∀ c ∈ cs, c.offset + c.bytes.length ≤ n) : firstError m cs = firstError m' cs := by
  induction cs with
  | nil => rfl
  | cons c cs ih =>
    rw [firstError, firstError, hm.load (hcs c List.mem_cons_self),
      ih fun d hd => hcs d (List.mem_cons_of_mem c hd)]

theorem checks_end : ∀ c ∈ checks, c.offset + c.bytes.length ≤ 123 := by decide

theorem validate_whole {n : Nat} {m m' : Mem} (hm : Agree n m m') (hn : 123 ≤ n) :
    e131_pkt_validate m = e131_pkt_validate m' := by
  rw [e131_pkt_validate_eq, e131_pkt_validate_eq]
  exact firstError_whole hm fun c hc => (checks_end c hc).trans hn

theorem validate_congr {n : Nat} {m m' : Mem} (hm : Agree n m m') (h : Rejected n m) :
    e131_pkt_validate m = e131_pkt_validate m' := by
  rw [e131_pkt_validate_eq, e131_pkt_validate_eq]
  exact firstError_congr hm (by decide) h

theorem validate_eq_none {m : Mem} :
    e131_pkt_validate m = .NONE ↔ ∀ c ∈ checks, load m c.offset c.bytes.length = c.bytes := by
  rw [e131_pkt_validate_eq]
  exact firstError_eq_none (by decide)

theorem Rejected.invalid {n : Nat} {m : Mem} (h : Rejected n m) : e131_pkt_validate m ≠ .NONE := by
  obtain ⟨c, hc, hcon⟩ := h
  intro hnone
  exact hcon.fails (fun _ _ => rfl) (validate_eq_none.mp hnone c hc)

/-- The bytes that every valid packet has. -/
def validBytes : Mem := checks.foldl (fun m c => store m c.offset c.bytes) zeroed

/-- Behind received bytes that contradict no field, old bytes can complete the packet. -/
theorem validate_completed {n : Nat} {m : Mem} (h : ¬ Rejected n m)
    (hrest : ∀ x, n ≤ x → x < 123 → m x = validBytes x) : e131_pkt_validate m = .NONE := by
  have hvalid : ∀ c ∈ checks, load validBytes c.offset c.bytes.length = c.bytes := by decide
  rw [validate_eq_none]
  intro c hc
  have hend := checks_end c hc
  apply List.ext_getElem?
  intro i
  by_cases hi : i < c.bytes.length
  · rw [load_getElem?_eq m c.offset hi]
    by_cases hn : c.offset + i < n
    · exact (not_not.mp fun hne => h ⟨c, hc, i, hi, hn, fun heq => hne heq.symm⟩)
    · rw [hrest _ (by omega) (by omega)]
      rw [← load_getElem?_eq validBytes c.offset hi, hvalid c hc]
  · rw [List.getElem?_eq_none (by simpa using hi), List.getElem?_eq_none (by omega)]

/-! ### Art-Net mode -/

theorem move_agree {n : Nat} {g data data' : Mem} (h : Agree n data data') (d k : Int) :
    Option.Rel (fun kept kept' : Mem => ∀ c, 17 + c < n → kept c = kept' c)
      (move g GAFFER_DATA_SIZE d data PACKET_SIZE (17 + d) k)
      (move g GAFFER_DATA_SIZE d data' PACKET_SIZE (17 + d) k) := by
  unfold move
  split
  · rename_i hin
    refine .some fun c hc => ?_
    rw [store_load_eq, store_load_eq]
    split
    · exact h _ (by omega)
    · rfl
  · exact .none

/-- The kept window is the same as far as it was received. -/
theorem check_gaffer_agree (G : Globals) (g : Mem) {n : Nat} {data data' : Mem}
    (h : Agree n data data') :
    Option.Rel (fun kept kept' : Mem => ∀ c, 17 + c < n → kept c = kept' c)
      (check_gaffer_packet G g data n) (check_gaffer_packet G g data' n) := by
  unfold check_gaffer_packet
  split
  · exact .some fun _ _ => rfl
  split
  · exact .some fun _ _ => rfl
  rename_i hlen _
  rw [h 14 (by omega)]
  cases configuredAddress G (CFG_str2id "GAFFER_UNIVERSE") (CFG_str2id "GAFFER_SUBNET") with
  | none => exact .none
  | some uni_num =>
    simp only [Option.bind_eq_bind, Option.bind_some]
    split
    · cases number G (CFG_str2id "GAFFER_LOWER") with
      | none => exact .none
      | some lower =>
        cases number G (CFG_str2id "GAFFER_UPPER") with
        | none => exact .none
        | some upper => exact move_agree h lower _
    · exact .some fun _ _ => rfl

theorem replace_channel_data_agree (G : Globals) {n : Nat} {kept kept' data data' : Mem}
    (hk : ∀ c, 17 + c < n → kept c = kept' c) (h : Agree n data data') :
    Option.Rel (Agree n) (replace_channel_data G kept data)
      (replace_channel_data G kept' data') := by
  unfold replace_channel_data
  split
  · exact .some h
  cases number G (CFG_str2id "GAFFER_LOWER") with
  | none => exact .none
  | some lower =>
    cases number G (CFG_str2id "GAFFER_UPPER") with
    | none => exact .none
    | some upper =>
      simp only [Option.bind_eq_bind, Option.bind_some, move]
      split
      · refine .some fun x hx => ?_
        rw [store_load_eq, store_load_eq]
        split
        · exact hk _ (by omega)
        · exact h x hx
      · exact .none

/-- The writes to the serial port for an Art-Net datagram, `none` when undefined. -/
def artnetWrites (S : Setup) (raw : Mem) (len : Nat) (sin_addr : InAddr) (n : Node) :
    Option (List (List UInt8)) :=
  (process_artnet_msg S raw len sin_addr n).map fun done => done.2.uart.drop n.uart.length

/-- A short datagram is never sent on, whatever its header is taken to be. -/
theorem artnetWrites_short (S : Setup) (raw : Mem) {len : Nat} (hlen : len ≤ 50)
    (sin_addr : InAddr) (n : Node) : artnetWrites S raw len sin_addr n = some [] := by
  unfold artnetWrites process_artnet_msg
  simp only [if_pos hlen]
  split
  · simp
  split <;> simp

theorem artnetWrites_agree (S : Setup) {len : Nat} {raw raw' : Mem} (h : Agree len raw raw')
    (sin_addr : InAddr) {n n' : Node} (hg : n.gaffer_data = n'.gaffer_data) :
    artnetWrites S raw len sin_addr n = artnetWrites S raw' len sin_addr n' := by
  by_cases hlen : len ≤ 50
  · rw [artnetWrites_short S raw hlen, artnetWrites_short S raw' hlen]
  have h7 := h.store 7 [0]
  have hid : text (store raw 7 [0]) 0 8 = text (store raw' 7 [0]) 0 8 :=
    text_congr fun i hi => h7 (0 + i) (by omega)
  unfold artnetWrites process_artnet_msg
  simp only [if_neg hlen, hid, h7 9 (by omega), h7 14 (by omega), hg]
  split
  · simp
  split
  · simp
  have hgaffer := check_gaffer_agree S.G n'.gaffer_data h7
  generalize check_gaffer_packet S.G n'.gaffer_data (store raw 7 [0]) len = kept at hgaffer ⊢
  generalize check_gaffer_packet S.G n'.gaffer_data (store raw' 7 [0]) len = kept' at hgaffer ⊢
  cases hgaffer with
  | none => rfl
  | some hkept =>
    simp only [Option.bind_eq_bind, Option.bind_some]
    cases configuredAddress S.G (CFG_str2id "AKS_UNIVERSE") (CFG_str2id "AKS_SUBNET") with
    | none => rfl
    | some uni_num =>
      simp only [Option.bind_some]
      split
      · have hmerged := replace_channel_data_agree S.G hkept h7
        generalize replace_channel_data S.G _ (store raw 7 [0]) = merged at hmerged ⊢
        generalize replace_channel_data S.G _ (store raw' 7 [0]) = merged' at hmerged ⊢
        cases hmerged with
        | none => rfl
        | some hframe => simp [hframe.load (Nat.zero_add len).le]
      · simp

theorem shown_artnet (S : Setup) (sacn_univ : UInt16) (r : Receiver) (a : Arrival) :
    shown S 0x30 sacn_univ r a =
      if (received a.datagram).length = 0 then some (.ignored, [])
      else (artnetWrites S (store r.packet 0 (received a.datagram)) (received a.datagram).length
        a.sin_addr r.node).map fun writes => (.artNet, writes) := by
  unfold shown sACN_main artnetLoop artnetWrites
  rw [if_pos rfl, e131_recv_eq]
  simp only
  split
  · simp
  · simp only [Option.map_map, Function.comp_def]

/-! ### sACN mode -/

/-- The frame that `send_artnet_header` sends for the packet. -/
def sentFrame (packet hdr : Mem) : List UInt8 :=
  load (store packet 108 (load (store hdr 12 [seq_number packet]) 0 ARTNET_HDR_SIZE)) 108
    (17 + prop_val_cnt packet)

def sacnShown (sacn_univ : UInt16) (accepted : Int) (r : Receiver) :
    Verdict × List (List UInt8) :=
  ((sacnPacket sacn_univ accepted r).2,
    (sacnPacket sacn_univ accepted r).1.node.uart.drop r.node.uart.length)

theorem shown_sacn (S : Setup) {protocol : UInt8} (hp : protocol ≠ 0x30) (sacn_univ : UInt16)
    (r : Receiver) (a : Arrival) :
    shown S protocol sacn_univ r a =
      some (if (received a.datagram).length = 0 then (.ignored, [])
        else sacnShown sacn_univ a.accepted
          { r with packet := store r.packet 0 (received a.datagram) }) := by
  unfold shown sACN_main sacnLoop sacnShown
  rw [if_neg hp, e131_recv_eq, Option.map_some]
  simp only
  split <;> simp

theorem sacnShown_invalid (sacn_univ : UInt16) (accepted : Int) {r : Receiver}
    (h : e131_pkt_validate r.packet ≠ .NONE) :
    sacnShown sacn_univ accepted r =
      (.invalid (e131_pkt_validate r.packet),
        [ascii "e131_pkt_validate: " ++ e131_strerror (e131_pkt_validate r.packet) ++
          ascii "\n"]) := by
  simp [sacnShown, sacnPacket, h, aks_printf]

theorem sacnShown_valid (sacn_univ : UInt16) (accepted : Int) {r : Receiver}
    (h : e131_pkt_validate r.packet = .NONE) :
    sacnShown sacn_univ accepted r =
      if Behind (seq_number r.packet) r.last_seq then
        (.outOfOrder (seq_number r.packet), [ascii "warning: packet out of order received\n"])
      else if frame_universe r.packet ≠ sacn_univ.toNat then (.otherUniverse, [])
      else if r.packet PROP_VAL ≠ 0 then (.notDmx (seq_number r.packet), [])
      else (.forwarded (seq_number r.packet), [sentFrame r.packet r.node.artnet_hdr_msg]) := by
  have hlen : (ARTNET_HDR_SIZE + ((prop_val_cnt r.packet : Int) - 1)).toNat =
      17 + prop_val_cnt r.packet := by
    simp only [ARTNET_HDR_SIZE]
    omega
  unfold sacnShown sacnPacket
  simp only [h, ne_eq, not_true_eq_false, if_false, discard_iff]
  split
  · simp [aks_printf]
  split
  · simp
  split
  · simp
  · simp only [send_artnet_header, hlen, List.drop_left, sentFrame]
    rfl

/-- The received bytes decide: there are none, one of them rejects the packet, the packet is
out of order or for another universe, it carries no DMX data, or all its slots are there. -/
def Covered (sacn_univ : UInt16) (last_seq : UInt8) (datagram : List UInt8) : Prop :=
  let n := (received datagram).length
  let packet := store zeroed 0 (received datagram)
  n = 0 ∨ Rejected n packet ∨
    (123 ≤ n ∧ (Behind (seq_number packet) last_seq ∨
      frame_universe packet ≠ sacn_univ.toNat)) ∨
    (126 ≤ n ∧ (packet PROP_VAL ≠ 0 ∨ PROP_VAL + prop_val_cnt packet ≤ n))

instance (sacn_univ : UInt16) (last_seq : UInt8) (datagram : List UInt8) :
    Decidable (Covered sacn_univ last_seq datagram) := by
  unfold Covered; infer_instance

/-- Two headers that differ in the sequence number only. -/
def SameHeader (hdr hdr' : Mem) : Prop := ∀ x, x ≠ 12 → hdr x = hdr' x

theorem SameHeader.store {hdr hdr' : Mem} (h : SameHeader hdr hdr') (seq : UInt8) :
    store hdr 12 [seq] = store hdr' 12 [seq] := by
  funext x
  rw [store_eq, store_eq]
  split
  · rfl
  · rename_i hx
    exact h x fun heq => hx (by simp [heq])

theorem sentFrame_congr {n : Nat} {packet packet' hdr hdr' : Mem} (h : Agree n packet packet')
    (hn : 126 ≤ n) (hcnt : PROP_VAL + prop_val_cnt packet ≤ n) (hhdr : SameHeader hdr hdr') :
    sentFrame packet hdr = sentFrame packet' hdr' := by
  have hseq : seq_number packet = seq_number packet' := h 111 (by omega)
  have hval : prop_val_cnt packet = prop_val_cnt packet' := h.be16 (by omega)
  simp only [PROP_VAL] at hcnt
  rw [sentFrame, sentFrame, hhdr.store, hseq, ← hval]
  exact (h.store 108 _).load (by omega)

/-- A datagram that is covered is handled alike over any old bytes. -/
theorem sacnShown_congr {sacn_univ : UInt16} {datagram : List UInt8} {r r' : Receiver}
    (hcov : Covered sacn_univ r.last_seq datagram) (accepted : Int)
    (hne : (received datagram).length ≠ 0) (hlast : r'.last_seq = r.last_seq)
    (hhdr : SameHeader r.node.artnet_hdr_msg r'.node.artnet_hdr_msg)
    (h : Agree (received datagram).length (store zeroed 0 (received datagram)) r.packet)
    (h' : Agree (received datagram).length (store zeroed 0 (received datagram)) r'.packet) :
    sacnShown sacn_univ accepted r = sacnShown sacn_univ accepted r' := by
  have hboth : Agree (received datagram).length r.packet r'.packet :=
    fun x hx => (h x hx).symm.trans (h' x hx)
  simp only [Covered] at hcov
  rcases hcov with hzero | hrej | hcov
  · exact absurd hzero hne
  · have hvalid := validate_congr h hrej
    have hvalid' := validate_congr h' hrej
    rw [sacnShown_invalid _ _ (hvalid ▸ hrej.invalid), sacnShown_invalid _ _ (hvalid' ▸ hrej.invalid),
      ← hvalid, ← hvalid']
  have hn : 123 ≤ (received datagram).length := by omega
  have hvalid : e131_pkt_validate r'.packet = e131_pkt_validate r.packet :=
    validate_whole hboth.symm hn
  by_cases hnone : e131_pkt_validate r.packet = .NONE
  · have hseq : seq_number r'.packet = seq_number r.packet := hboth.symm 111 (by omega)
    have huniv : frame_universe r'.packet = frame_universe r.packet := hboth.symm.be16 (by omega)
    have hseq₀ : seq_number (store zeroed 0 (received datagram)) = seq_number r.packet :=
      h 111 (by omega)
    have huniv₀ : frame_universe (store zeroed 0 (received datagram)) = frame_universe r.packet :=
      h.be16 (by omega)
    rw [hseq₀, huniv₀] at hcov
    rw [sacnShown_valid _ _ hnone, sacnShown_valid _ _ (hvalid.trans hnone), hlast, hseq, huniv]
    split
    · rfl
    split
    · rfl
    rename_i hkeep hmine
    obtain ⟨hn, hslots⟩ : 126 ≤ (received datagram).length ∧
        (store zeroed 0 (received datagram) PROP_VAL ≠ 0 ∨
          PROP_VAL + prop_val_cnt (store zeroed 0 (received datagram)) ≤
            (received datagram).length) := by
      rcases hcov with ⟨_, hbehind | hother⟩ | hslots
      · exact absurd hbehind hkeep
      · exact absurd hother hmine
      · exact hslots
    have hcode : r'.packet PROP_VAL = r.packet PROP_VAL := hboth.symm PROP_VAL hn
    rw [hcode]
    split
    · rfl
    · rename_i hdmx
      rw [h PROP_VAL hn] at hslots
      have hcnt : prop_val_cnt (store zeroed 0 (received datagram)) = prop_val_cnt r.packet :=
        h.be16 (by omega)
      rw [hcnt] at hslots
      rw [sentFrame_congr hboth hn (hslots.resolve_left hdmx) hhdr]
  · rw [sacnShown_invalid _ _ hnone, sacnShown_invalid _ _ (hvalid.symm ▸ hnone), hvalid]

/-! ### Any old bytes can be left in the buffer -/

theorem process_artnet_msg_header {S : Setup} {raw : Mem} {len : Nat} {sin_addr : InAddr}
    {n : Node} {done : Mem × Node} (h : process_artnet_msg S raw len sin_addr n = some done) :
    done.2.artnet_hdr_msg = n.artnet_hdr_msg := by
  unfold process_artnet_msg at h
  simp only at h
  split at h
  · cases h; rfl
  split at h
  · split at h <;> (cases h; rfl)
  split at h
  · cases h; rfl
  simp only [Option.bind_eq_bind, Option.bind_eq_some_iff] at h
  obtain ⟨kept, -, uni_num, -, h⟩ := h
  split at h
  · obtain ⟨merged, -, h⟩ := Option.bind_eq_some_iff.mp h
    cases h; rfl
  · cases h; rfl

theorem sacnPacket_header (sacn_univ : UInt16) (accepted : Int) (r : Receiver) :
    SameHeader (sacnPacket sacn_univ accepted r).1.node.artnet_hdr_msg r.node.artnet_hdr_msg := by
  intro x hx
  unfold sacnPacket
  simp only
  split <;> [rfl; split] <;> [rfl; split] <;> [rfl; split] <;> [rfl; skip]
  exact store_of_outside r.node.artnet_hdr_msg _ (by simp; omega)

theorem sACN_main_header {S : Setup} {protocol : UInt8} {sacn_univ : UInt16} {r : Receiver}
    {a : Arrival} {done : Receiver × Verdict}
    (h : sACN_main S protocol sacn_univ r a = some done) :
    SameHeader done.1.node.artnet_hdr_msg r.node.artnet_hdr_msg := by
  unfold sACN_main at h
  split at h
  · unfold artnetLoop at h
    simp only at h
    split at h
    · cases h
      intro _ _
      exact rfl
    · obtain ⟨sent, hsent, rfl⟩ := Option.map_eq_some_iff.mp h
      intro x _
      exact congrFun (process_artnet_msg_header hsent) x
  · cases h
    unfold sacnLoop
    simp only
    split
    · intro _ _
      exact rfl
    · exact sacnPacket_header sacn_univ a.accepted _

/-- The header of every receiver is the one that is made at its start. -/
theorem receiver_header {protocol : UInt8} {sacn_univ : UInt16} {h : History} {r : Receiver}
    (hr : h.receiver protocol sacn_univ = some r) :
    SameHeader r.node.artnet_hdr_msg (start h.setup).node.artnet_hdr_msg := by
  obtain ⟨r₀, hrun, rfl⟩ := Option.map_eq_some_iff.mp hr
  refine Runs.exec_invariant
    (P := fun r => SameHeader r.node.artnet_hdr_msg (start h.setup).node.artnet_hdr_msg)
    ?_ (fun _ _ => rfl) hrun
  intro r x t hold hstep
  obtain ⟨done, hdone, rfl⟩ := Option.map_eq_some_iff.mp hstep
  intro y hy
  exact (sACN_main_header hdone y hy).trans (hold y hy)

/-- A datagram that fills the buffer and is rejected for its first byte. -/
def spoiled (old : Mem) : Arrival := ⟨0xff :: load old 1 637, ⟨0, 0, 0, 0⟩, 0⟩

theorem received_spoiled (old : Mem) : received (spoiled old).datagram = 0xff :: load old 1 637 :=
  List.take_of_length_le (by simp [spoiled, PACKET_SIZE])

theorem store_spoiled (m old : Mem) {x : Nat} (hlo : 1 ≤ x) (hhi : x < PACKET_SIZE) :
    store m 0 (0xff :: load old 1 637) x = old x := by
  simp only [PACKET_SIZE] at hhi
  have hat := store_at m 0 x (0xff :: load old 1 637) (by simp; omega)
  rw [Nat.zero_add, List.getElem_cons, dif_neg (by omega), load_getElem] at hat
  rw [hat, Nat.add_sub_cancel' hlo]

/-- It leaves its bytes in the buffer, and nothing else that the receiver keeps. -/
theorem sacnLoop_spoiled (sacn_univ : UInt16) (r : Receiver) (old : Mem) :
    (sacnLoop sacn_univ r (spoiled old)).1.packet = store r.packet 0 (0xff :: load old 1 637) ∧
      (sacnLoop sacn_univ r (spoiled old)).1.last_seq = r.last_seq ∧
      (sacnLoop sacn_univ r (spoiled old)).1.node.gaffer_data = r.node.gaffer_data := by
  have hinvalid : e131_pkt_validate (store r.packet 0 (0xff :: load old 1 637)) ≠ .NONE := by
    apply Rejected.invalid (n := 638)
    refine ⟨_, List.mem_cons_self, 0, by decide, by decide, ?_⟩
    rw [Nat.add_zero, store_at r.packet 0 0 _ (by simp), List.getElem_cons_zero]
    decide
  unfold sacnLoop sacnPacket
  rw [e131_recv_eq, received_spoiled, if_neg (by simp)]
  simp [hinvalid, aks_printf]

/-- After every history the bytes beyond the first can be any at all. -/
theorem History.overwrite {protocol : UInt8} (hp : protocol ≠ 0x30) {sacn_univ : UInt16}
    {h : History} {r : Receiver} (hr : h.receiver protocol sacn_univ = some r) (old : Mem) :
    ∃ (h' : History) (r' : Receiver), h'.receiver protocol sacn_univ = some r' ∧
      r'.last_seq = r.last_seq ∧ r'.node.gaffer_data = r.node.gaffer_data ∧
      ∀ x, 1 ≤ x → r'.packet x = old x := by
  obtain ⟨r₀, hrun, rfl⟩ := Option.map_eq_some_iff.mp hr
  obtain ⟨hpacket, hlast, hgaffer⟩ := sacnLoop_spoiled sacn_univ r₀ old
  have hstep : turn protocol sacn_univ r₀ (h.setup, spoiled old) =
      some (sacnLoop sacn_univ r₀ (spoiled old)).1 := by
    rw [turn, sACN_main, if_neg hp, Option.map_some]
  generalize (sacnLoop sacn_univ r₀ (spoiled old)).1 = r₁ at hpacket hlast hgaffer hstep
  refine ⟨⟨h.setup, h.arrivals ++ [(h.setup, spoiled old)], old⟩,
    { r₁ with packet := fun x => if x < PACKET_SIZE then r₁.packet x else old x },
    ?_, hlast, hgaffer, fun x hx => ?_⟩
  · rw [receiver, Runs.exec_append, hrun, Option.bind_some, Runs.exec, hstep]
    rfl
  · simp only [hpacket]
    split
    · rename_i hin
      exact store_spoiled r₀.packet old hx hin
    · rfl

/-! ### Which datagrams are handled alike after every history -/

theorem artNet_independent (S : Setup) (sacn_univ : UInt16) (r : Receiver) (a : Arrival) :
    Independent S 0x30 sacn_univ r a := by
  intro h r' _ _ hgaffer
  rw [shown_artnet, shown_artnet, artnetWrites_agree S (agree_received r'.packet r.packet a.datagram)
    a.sin_addr hgaffer]

theorem covered_independent (S : Setup) {protocol : UInt8} (hp : protocol ≠ 0x30)
    {sacn_univ : UInt16} {h : History} {r : Receiver}
    (hr : h.receiver protocol sacn_univ = some r) {a : Arrival}
    (hcov : Covered sacn_univ r.last_seq a.datagram) :
    Independent S protocol sacn_univ r a := by
  intro h' r' hr' hlast _
  rw [shown_sacn S hp, shown_sacn S hp]
  split
  · rfl
  rename_i hne
  have hhdr : SameHeader r.node.artnet_hdr_msg r'.node.artnet_hdr_msg :=
    fun x hx => (receiver_header hr x hx).trans (receiver_header hr' x hx).symm
  rw [@sacnShown_congr sacn_univ a.datagram
    { r with packet := store r.packet 0 (received a.datagram) }
    { r' with packet := store r'.packet 0 (received a.datagram) } hcov a.accepted hne hlast hhdr
    (agree_received _ _ _) (agree_received _ _ _)]

theorem Independent.over {S : Setup} {protocol : UInt8} (hp : protocol ≠ 0x30)
    {sacn_univ : UInt16} {h : History} {r : Receiver}
    (hr : h.receiver protocol sacn_univ = some r) {a : Arrival}
    (hind : Independent S protocol sacn_univ r a) (hne : (received a.datagram).length ≠ 0)
    (old : Mem) :
    ∃ r' : Receiver, r'.last_seq = r.last_seq ∧
      Agree (received a.datagram).length (store zeroed 0 (received a.datagram)) r'.packet ∧
      (∀ x, (received a.datagram).length ≤ x → r'.packet x = old x) ∧
      some (sacnShown sacn_univ a.accepted r') = shown S protocol sacn_univ r a := by
  obtain ⟨h', r', hr', hlast, hgaffer, hold⟩ := h.overwrite hp hr old
  refine ⟨{ r' with packet := store r'.packet 0 (received a.datagram) }, hlast,
    agree_received _ _ _, fun x hx => ?_, ?_⟩
  · simp only
    rw [store_of_outside r'.packet _ (by omega)]
    exact hold x (by omega)
  · rw [← hind h' r' hr' hlast hgaffer, shown_sacn S hp, if_neg hne]

theorem not_rejected_congr {n : Nat} {m m' : Mem} (hm : Agree n m m') (h : ¬ Rejected n m) :
    ¬ Rejected n m' := by
  rintro ⟨c, hc, hcon⟩
  exact h ⟨c, hc, hcon.congr hm.symm⟩

section Necessary

variable {S : Setup} {protocol : UInt8} {sacn_univ : UInt16} {h : History} {r : Receiver}
  {a : Arrival} {n : Nat} {packet : Mem}

/-- Unless a received byte rejects the packet, all checked bytes have been received: the
last of them would be an old byte. -/
theorem Independent.checked (hp : protocol ≠ 0x30) (hr : h.receiver protocol sacn_univ = some r)
    (hind : Independent S protocol sacn_univ r a) (hne : (received a.datagram).length ≠ 0)
    (hrej : ¬ Rejected (received a.datagram).length (store zeroed 0 (received a.datagram))) :
    123 ≤ (received a.datagram).length := by
  by_contra hshort
  obtain ⟨r₁, -, hagree₁, hold₁, hshown₁⟩ := hind.over hp hr hne validBytes
  obtain ⟨r₂, -, hagree₂, hold₂, hshown₂⟩ := hind.over hp hr hne zeroed
  have hvalid : e131_pkt_validate r₁.packet = .NONE :=
    validate_completed (not_rejected_congr hagree₁ hrej) fun x hx _ => hold₁ x hx
  have hinvalid : e131_pkt_validate r₂.packet ≠ .NONE := by
    intro hnone
    have hfield := validate_eq_none.mp hnone ⟨121, bytes16 0x0001, .ADDR_INC_DMP⟩ (by simp [checks])
    have hbyte : r₂.packet 122 = 1 := (List.cons.inj (List.cons.inj hfield).2).1
    rw [hold₂ 122 (by omega)] at hbyte
    exact absurd hbyte (by decide)
  have heq := congrArg Prod.fst (Option.some.inj (hshown₁.trans hshown₂.symm))
  rw [sacnShown_invalid _ _ hinvalid, sacnShown_valid _ _ hvalid] at heq
  split at heq <;> [cases heq; split at heq] <;> [cases heq; split at heq] <;> cases heq

/-- A packet of the configured universe in its order, over given old bytes. -/
theorem Independent.overMine (hp : protocol ≠ 0x30)
    (hr : h.receiver protocol sacn_univ = some r) (hind : Independent S protocol sacn_univ r a)
    (hn : n = (received a.datagram).length) (hpacket : packet = store zeroed 0 (received a.datagram))
    (hrej : ¬ Rejected n packet) (h123 : 123 ≤ n)
    (hkeep : ¬ Behind (seq_number packet) r.last_seq)
    (hmine : frame_universe packet = sacn_univ.toNat) (old : Mem) :
    ∃ r' : Receiver, Agree n packet r'.packet ∧ (∀ x, n ≤ x → r'.packet x = old x) ∧
      some (if r'.packet PROP_VAL ≠ 0 then (.notDmx (seq_number r'.packet), [])
        else (.forwarded (seq_number r'.packet),
          [sentFrame r'.packet r'.node.artnet_hdr_msg])) = shown S protocol sacn_univ r a := by
  obtain ⟨r', hlast, hagree, hold, hshown⟩ := hind.over hp hr (by omega) old
  rw [← hn, ← hpacket] at hagree
  rw [← hn] at hold
  have hvalid : e131_pkt_validate r'.packet = .NONE :=
    validate_completed (not_rejected_congr hagree hrej) fun x hx _ => by omega
  have hseq : seq_number packet = seq_number r'.packet := hagree 111 (by omega)
  have huniv : frame_universe packet = frame_universe r'.packet := hagree.be16 (by omega)
  rw [sacnShown_valid _ _ hvalid, if_neg (by rwa [hlast, ← hseq]),
    if_neg (by rwa [← huniv, not_not])] at hshown
  exact ⟨r', hagree, hold, hshown⟩

theorem independent_covered (hp : protocol ≠ 0x30) (hr : h.receiver protocol sacn_univ = some r)
    (hind : Independent S protocol sacn_univ r a) : Covered sacn_univ r.last_seq a.datagram := by
  by_contra hcov
  simp only [Covered, not_or, not_and, not_le, not_not] at hcov
  obtain ⟨hne, hrej, h123, h126⟩ := hcov
  have hn := hind.checked hp hr hne hrej
  obtain ⟨hkeep, hmine⟩ := h123 hn
  have hover := hind.overMine hp hr rfl rfl hrej hn hkeep hmine
  by_cases hcode : (received a.datagram).length < 126
  · -- the start code is an old byte
    obtain ⟨r₁, _, hold₁, hshown₁⟩ := hover zeroed
    obtain ⟨r₂, _, hold₂, hshown₂⟩ := hover fun _ => 1
    have heq := congrArg Prod.fst (Option.some.inj (hshown₁.trans hshown₂.symm))
    rw [hold₁ PROP_VAL (by simp only [PROP_VAL]; omega),
      hold₂ PROP_VAL (by simp only [PROP_VAL]; omega)] at heq
    simp [zeroed] at heq
  · -- the first slot that was not received is an old byte
    obtain ⟨hzero, hlong⟩ := h126 (Nat.not_lt.mp hcode)
    simp only [PROP_VAL] at hlong hzero
    have hframe : ∀ old : Mem, ∃ v, shown S protocol sacn_univ r a = some v ∧
        v.2.head?.bind (fun frame => frame[(received a.datagram).length - 108]?) =
          some (old (received a.datagram).length) := by
      intro old
      obtain ⟨r', hagree, hold, hshown⟩ := hover old
      refine ⟨_, hshown.symm, ?_⟩
      have hcnt : prop_val_cnt (store zeroed 0 (received a.datagram)) = prop_val_cnt r'.packet :=
        hagree.be16 (by omega)
      rw [← hagree PROP_VAL (by simp only [PROP_VAL]; omega)]
      simp only [PROP_VAL, hzero, ne_eq, not_true_eq_false, if_false, List.head?_cons,
        Option.bind_some, sentFrame]
      rw [load_getElem?_eq _ _ (by omega), Nat.add_sub_cancel' (by omega),
        store_of_outside r'.packet _ (by simp [ARTNET_HDR_SIZE]; omega), hold _ le_rfl]
    obtain ⟨v₁, hshown₁, hbyte₁⟩ := hframe zeroed
    obtain ⟨v₂, hshown₂, hbyte₂⟩ := hframe fun _ => 1
    obtain rfl := Option.some.inj (hshown₁.symm.trans hshown₂)
    rw [hbyte₁] at hbyte₂
    simp [zeroed] at hbyte₂

end Necessary

/-- **Old bytes of the buffer.**  In Art-Net mode a datagram is handled alike after every
history that leaves the same `last_seq` and gaffer buffer; in sACN mode this holds of the
datagrams that are covered, and of no other. -/
theorem independent_iff (S : Setup) (protocol : UInt8) (sacn_univ : UInt16) {h : History}
    {r : Receiver} (hr : h.receiver protocol sacn_univ = some r) (a : Arrival) :
    Independent S protocol sacn_univ r a ↔
      protocol = 0x30 ∨ Covered sacn_univ r.last_seq a.datagram := by
  by_cases hp : protocol = 0x30
  · rw [hp]
    exact iff_of_true (artNet_independent S sacn_univ r a) (.inl rfl)
  · rw [or_iff_right hp]
    exact ⟨independent_covered hp hr, covered_independent S hp hr⟩

/-! ### A packet that was cut short -/

def otherUniverseArrival : Arrival :=
  match e131_pkt_init 2 1 with
  | some packet => ⟨load (store (store packet 111 [1]) 126 [9]) 0 127, ⟨10, 0, 0, 2⟩, 19⟩
  | none => ⟨[], ⟨10, 0, 0, 2⟩, 19⟩

/-- A packet of universe 1 that lacks its slot. -/
def cutArrival : Arrival := ⟨(onePacket 5).take 126, ⟨10, 0, 0, 1⟩, 19⟩

theorem sacnLoop_gaffer_data (sacn_univ : UInt16) (r : Receiver) (a : Arrival) :
    (sacnLoop sacn_univ r a).1.node.gaffer_data = r.node.gaffer_data := by
  simp only [sacnLoop, sacnPacket]
  split <;> [rfl; split] <;> [rfl; split] <;> [rfl; split] <;> [rfl; split] <;> rfl

theorem receiver_fresh (S : Setup) (protocol : UInt8) (sacn_univ : UInt16) (behind : Mem) :
    (History.mk S [] behind).receiver protocol sacn_univ =
      some { start S with packet := fun x => if x < PACKET_SIZE then 0 else behind x } :=
  rfl

theorem receiver_single (S : Setup) (sacn_univ : UInt16) (a : Arrival) (behind : Mem) :
    (History.mk S [(S, a)] behind).receiver 0x31 sacn_univ =
      some { (sacnLoop sacn_univ (start S) a).1 with
        packet := fun x => if x < PACKET_SIZE then (sacnLoop sacn_univ (start S) a).1.packet x
          else behind x } := by
  rw [History.receiver, Runs.exec, turn, sACN_main, if_neg (by decide)]
  rfl

/-- The slot of the packet of universe 2 is sent on as one of universe 1. -/
theorem cut_packet_shows_other_universe :
    ¬ ∀ (h : History) r, h.receiver 0x31 1 = some r →
      Independent (gafferSetup "0") 0x31 1 r cutArrival := by
  intro hall
  have hsame := hall _ _ (receiver_fresh (gafferSetup "0") 0x31 1 zeroed) _ _
    (receiver_single (gafferSetup "0") 1 otherUniverseArrival zeroed) (by decide +kernel)
    (by simp only [sacnLoop_gaffer_data])
  exact absurd hsame (by decide +kernel)

theorem independent_iff_sample :
    ∃ r, (History.mk (gafferSetup "0") [] zeroed).receiver 0x31 1 = some r ∧
      Independent (gafferSetup "0") 0x31 1 r (onePacketArrival 10) :=
  ⟨_, rfl, (independent_iff (gafferSetup "0") 0x31 1
    (receiver_fresh (gafferSetup "0") 0x31 1 zeroed) (onePacketArrival 10)).mpr
      (.inr (by decide +kernel))⟩

end AksFirmware.PacketBuffer
