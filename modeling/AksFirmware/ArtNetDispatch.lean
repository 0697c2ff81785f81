import AksFirmware.ArtNet

/-!
# What the Art-Net receiver does with a datagram

`process_artnet_msg` tells a poll from a DMX packet by the length of the datagram and the
high byte of the OpCode alone.  For a DMX packet it calls the two gaffer routines, which
copy the configured window between `gaffer_data` and the packet; neither compares the
window with the length of anything.
-/

namespace AksFirmware.ArtNetDispatch

open ByteMemory CText WebConfig Gaffer ArtNet

/-! ### Which datagrams are answered and which are sent on -/

/-- The seven characters that are compared; the byte behind them is overwritten. -/
def ArtNetId (raw : Mem) : Prop := load raw 0 7 = ascii "Art-Net"

instance (raw : Mem) : Decidable (ArtNetId raw) := inferInstanceAs (Decidable (_ = _))

def TakenForPoll (raw : Mem) (len : Nat) : Prop := ArtNetId raw ∧ len ≤ 50 ∧ raw 9 = 0x20

def TakenForDmx (raw : Mem) (len : Nat) : Prop := ArtNetId raw ∧ 50 < len ∧ raw 9 = 0x50

instance (raw : Mem) (len : Nat) : Decidable (TakenForPoll raw len) :=
  inferInstanceAs (Decidable (_ ∧ _ ∧ _))

instance (raw : Mem) (len : Nat) : Decidable (TakenForDmx raw len) :=
  inferInstanceAs (Decidable (_ ∧ _ ∧ _))

/-- `((uni_num | art_sub) & 0xff)` of the main universe. -/
def mainAddress (G : Globals) : Option Nat :=
  configuredAddress G (CFG_str2id "AKS_UNIVERSE") (CFG_str2id "AKS_SUBNET")

def gafferAddress (G : Globals) : Option Nat :=
  configuredAddress G (CFG_str2id "GAFFER_UNIVERSE") (CFG_str2id "GAFFER_SUBNET")

/-- The packet is sent on. -/
def SentOn (S : Setup) (raw : Mem) (len : Nat) : Prop :=
  TakenForDmx raw len ∧ S.artnet_enable ≠ 0 ∧ mainAddress S.G = some (raw 14).toNat

instance (S : Setup) (raw : Mem) (len : Nat) : Decidable (SentOn S raw len) :=
  inferInstanceAs (Decidable (_ ∧ _ ∧ _))

/-- The reply with the node's present address. -/
def pollReply (S : Setup) (n : Node) : List UInt8 :=
  load (store n.artpollreply_msg 10 (ipBytes S.ipAddress)) 0 ARTPOLLREPLY_SIZE

theorem mainAddress_of_lt {G : Globals} {uni sub : Nat}
    (huni : number G (CFG_str2id "AKS_UNIVERSE") = some (uni : Int)) (hu : uni < 16)
    (hsub : number G (CFG_str2id "AKS_SUBNET") = some (sub : Int)) (hs : sub < 16) :
    mainAddress G = some (sub * 16 + uni) := by
  simp only [mainAddress, configuredAddress, huni, hsub, Option.bind_eq_bind, Option.bind_some,
    Option.pure_def, portAddress_of_lt hu hs, Nat.mul_comm]

/-- The comparison with `"Art-Net"` looks at the first seven bytes. -/
theorem strcmp_id_iff (raw : Mem) :
    strcmp (text (store raw 7 [0]) 0 8) (ascii "Art-Net") = 0 ↔ ArtNetId raw := by
  have hload : load (store raw 7 [0]) 0 8 = load raw 0 7 ++ [0] := by
    rw [load_add (store raw 7 [0]) 0 7 1, load_store_disjoint raw [0] (by simp)]
    exact congrArg (load raw 0 7 ++ ·) (load_store_same raw 7 [0])
  have htext : text (store raw 7 [0]) 0 8 = (load raw 0 7).takeWhile (· ≠ 0) := by
    rw [text, hload, takeWhile_append_zero]
  rw [strcmp_eq_zero_iff (zero_notMem_text _ _ _) (by decide), htext, ArtNetId]
  constructor
  · intro h
    -- the text has all seven characters, so nothing was cut off
    have hwhole : (load raw 0 7).takeWhile (· ≠ 0) = load raw 0 7 :=
      (List.takeWhile_prefix _).eq_of_length (by rw [h, load_length]; rfl)
    rw [← hwhole, h]
  · intro h
    rw [h]
    decide

/-- What a call sends, and the reply it keeps. -/
theorem artnet_outputs {S : Setup} {raw : Mem} {len : Nat} {sin_addr : InAddr} {n : Node}
    {done : Mem × Node} (h : process_artnet_msg S raw len sin_addr n = some done) :
    done.2.replies =
        n.replies ++ (if TakenForPoll raw len then [(sin_addr, pollReply S n)] else []) ∧
      done.2.artpollreply_msg = (if TakenForPoll raw len then
        store n.artpollreply_msg 10 (ipBytes S.ipAddress) else n.artpollreply_msg) ∧
      done.2.uart = n.uart ++ (if SentOn S raw len then [load done.1 0 len] else []) := by
  unfold process_artnet_msg at h
  simp only [store_byte_of_ne raw 0 (show 9 ≠ 7 by decide),
    store_byte_of_ne raw 0 (show 14 ≠ 7 by decide)] at h
  split at h
  · rename_i hid
    obtain rfl := Option.some.inj h
    have hno : ¬ ArtNetId raw := fun hyes => hid ((strcmp_id_iff raw).mpr hyes)
    simp [TakenForPoll, SentOn, TakenForDmx, hno]
  rename_i hid
  have hyes : ArtNetId raw := (strcmp_id_iff raw).mp (not_not.mp hid)
  split at h
  · rename_i hlen
    have hdmx : ¬ SentOn S raw len := fun hsent => absurd hsent.1.2.1 (Nat.not_lt.mpr hlen)
    split at h
    · rename_i hop
      obtain rfl := Option.some.inj h
      simp [TakenForPoll, hop, hdmx]
    · rename_i hop
      obtain rfl := Option.some.inj h
      simp [TakenForPoll, hyes, hlen, not_not.mp hop, hdmx, pollReply]
  rename_i hlen
  have hpoll : ¬ TakenForPoll raw len := fun htaken => hlen htaken.2.1
  split at h
  · rename_i hop
    obtain rfl := Option.some.inj h
    have hdmx : ¬ SentOn S raw len := fun hsent => hop.elim (· hsent.1.2.2) (hsent.2.1 ·)
    simp [hpoll, hdmx]
  rename_i hop
  rw [not_or, not_not] at hop
  simp only [Option.bind_eq_bind, Option.bind_eq_some_iff] at h
  obtain ⟨kept, -, uni_num, hmain, h⟩ := h
  split at h
  · rename_i huni
    obtain ⟨merged, -, h⟩ := Option.bind_eq_some_iff.mp h
    obtain rfl := Option.some.inj h
    have hsent : SentOn S raw len := ⟨⟨hyes, by omega, hop.1⟩, hop.2, huni ▸ hmain⟩
    simp [hpoll, hsent]
  · rename_i huni
    obtain rfl := Option.some.inj h
    have hsent : ¬ SentOn S raw len := fun hsent =>
      huni (Option.some.inj (hmain.symm.trans hsent.2.2))
    simp [hpoll, hsent]

/-- **What leaves the node.**  A datagram taken for a poll is answered, to its sender, and
no other is; a datagram on the main universe taken for DMX is sent on, and no other is. -/
theorem artnet_classified {S : Setup} {raw : Mem} {len : Nat} {sin_addr : InAddr} {n : Node}
    {done : Mem × Node} (h : process_artnet_msg S raw len sin_addr n = some done) :
    done.2.replies =
        n.replies ++ (if TakenForPoll raw len then [(sin_addr, pollReply S n)] else []) ∧
      done.2.uart = n.uart ++ (if SentOn S raw len then [load done.1 0 len] else []) ∧
      ∀ uni sub : Nat, number S.G (CFG_str2id "AKS_UNIVERSE") = some (uni : Int) → uni < 16 →
        number S.G (CFG_str2id "AKS_SUBNET") = some (sub : Int) → sub < 16 →
          (SentOn S raw len ↔
            TakenForDmx raw len ∧ S.artnet_enable ≠ 0 ∧ (raw 14).toNat = sub * 16 + uni) := by
  obtain ⟨hreplies, -, huart⟩ := artnet_outputs h
  refine ⟨hreplies, huart, fun uni sub huni hu hsub hs => ?_⟩
  rw [SentOn, mainAddress_of_lt huni hu hsub hs, Option.some.injEq, eq_comm (a := sub * 16 + uni)]

/-! ### Datagrams as the protocol defines them -/

def OpPoll (raw : Mem) : Prop :=
  load raw 0 8 = ascii "Art-Net" ++ [0] ∧ load raw 8 2 = [0x00, 0x20]

def OpDmx (raw : Mem) : Prop :=
  load raw 0 8 = ascii "Art-Net" ++ [0] ∧ load raw 8 2 = [0x00, 0x50]

/-- The address that a DMX packet is meant for: Net 0, and the configured subnet and
universe. -/
def Addressed (G : Globals) (raw : Mem) : Prop :=
  raw 15 = 0 ∧ ∃ uni sub, number G (CFG_str2id "AKS_UNIVERSE") = some uni ∧
    number G (CFG_str2id "AKS_SUBNET") = some sub ∧ ((raw 14).toNat : Int) = sub * 16 + uni

/-- The datagrams of the protocol that ought to be answered and sent on are. -/
def ByProtocol (S : Setup) (raw : Mem) (len : Nat) (sin_addr : InAddr) (n : Node) : Prop :=
  ∃ done, process_artnet_msg S raw len sin_addr n = some done ∧
    (done.2.replies ≠ n.replies ↔ OpPoll raw) ∧
    (done.2.uart ≠ n.uart ↔ OpDmx raw ∧ Addressed S.G raw ∧ S.artnet_enable ≠ 0)

def pollPacket : Mem := store zeroed 0 (ascii "Art-Net" ++ [0, 0x00, 0x20, 0, 14, 2, 0])

/-- A poll with filler behind it, a packet of two slots, and a full packet for Net 1. -/
theorem not_by_protocol :
    (OpPoll pollPacket ∧
        ¬ ByProtocol (gafferSetup "0") pollPacket 60 ⟨10, 0, 0, 1⟩ (boot (gafferSetup "0"))) ∧
      (OpDmx (levelPacket 0 7) ∧ ¬ ByProtocol (gafferSetup "0") (levelPacket 0 7) 20
        ⟨10, 0, 0, 1⟩ (boot (gafferSetup "0"))) ∧
      ¬ ByProtocol (gafferSetup "0") (store (levelPacket 0 7) 15 [1]) ARTDMX_SIZE ⟨10, 0, 0, 1⟩
        (boot (gafferSetup "0")) := by
  refine ⟨⟨⟨rfl, rfl⟩, ?_⟩, ⟨⟨rfl, rfl⟩, ?_⟩, ?_⟩
  · rintro ⟨done, hdone, hreplies, -⟩
    have hpoll : ¬ TakenForPoll pollPacket 60 := fun h => absurd h.2.1 (by decide)
    refine hreplies.mpr ⟨rfl, rfl⟩ ?_
    rw [(artnet_outputs hdone).1, if_neg hpoll, List.append_nil]
  · rintro ⟨done, hdone, -, huart⟩
    have hsent : ¬ SentOn (gafferSetup "0") (levelPacket 0 7) 20 :=
      fun h => absurd h.1.2.1 (by decide)
    have haddressed : Addressed (gafferSetup "0").G (levelPacket 0 7) :=
      ⟨rfl, 0, 0, by decide +kernel, by decide +kernel, rfl⟩
    refine huart.mpr ⟨⟨rfl, rfl⟩, haddressed, by decide⟩ ?_
    rw [(artnet_outputs hdone).2.2, if_neg hsent, List.append_nil]
  · rintro ⟨done, hdone, -, huart⟩
    have hsent : SentOn (gafferSetup "0") (store (levelPacket 0 7) 15 [1]) ARTDMX_SIZE :=
      ⟨by decide, by decide, gafferSetup_main.1⟩
    have hnet := (huart.mp (by simp [(artnet_outputs hdone).2.2, hsent])).2.1.1
    exact absurd hnet (by decide)

theorem artnet_classified_poll :
    ∃ done, process_artnet_msg (gafferSetup "0") pollPacket 14 ⟨10, 0, 0, 1⟩
        (boot (gafferSetup "0")) = some done ∧
      done.2.replies = (boot (gafferSetup "0")).replies ++
        [(⟨10, 0, 0, 1⟩, pollReply (gafferSetup "0") (boot (gafferSetup "0")))] ∧
      (SentOn (gafferSetup "0") pollPacket 14 ↔
        TakenForDmx pollPacket 14 ∧ (gafferSetup "0").artnet_enable ≠ 0 ∧
          (pollPacket 14).toNat = 0 * 16 + 0) :=
  have hdone : process_artnet_msg (gafferSetup "0") pollPacket 14 ⟨10, 0, 0, 1⟩
      (boot (gafferSetup "0")) = some _ := rfl
  have hrun := artnet_classified hdone
  ⟨_, hdone, hrun.1, hrun.2.2 0 0 (by decide +kernel) (by decide) (by decide +kernel) (by decide)⟩

/-! ### The copies of the gaffer window -/

/-- `count` bytes at `gaffer` of `gaffer_data` and as many at `packet` of the packet. -/
structure Copy where
  gaffer : Int
  packet : Int
  count : Int
deriving DecidableEq

/-- The count is not negative, and what it counts lies inside `gaffer_data` and inside the
first `len` bytes of the packet. -/
def Copy.Inside (len : Nat) (c : Copy) : Prop :=
  0 ≤ c.count ∧ (c.count = 0 ∨ 0 ≤ c.gaffer ∧ c.gaffer + c.count ≤ GAFFER_DATA_SIZE ∧
    0 ≤ c.packet ∧ c.packet + c.count ≤ len)

def windowCopy (G : Globals) : Option Copy := do
  let lower ← number G (CFG_str2id "GAFFER_LOWER")
  let upper ← number G (CFG_str2id "GAFFER_UPPER")
  pure ⟨lower, 17 + lower, upper - lower + 1⟩

/-- The copies that `check_gaffer_packet` makes. -/
def keepCopies (G : Globals) (data : Mem) (len : Nat) : Option (List Copy) :=
  if len < 50 then some []
  else if disabled G then some []
  else do
    let uni_num ← gafferAddress G
    if (uni_num : Int) = (data 14).toInt8.toInt then (windowCopy G).map ([·]) else some []

/-- The copies that `replace_channel_data` makes. -/
def mergeCopies (G : Globals) : Option (List Copy) :=
  if disabled G then some [] else (windowCopy G).map ([·])

def Copy.keep (data gaffer_data : Mem) (c : Copy) : Option Mem :=
  move gaffer_data GAFFER_DATA_SIZE c.gaffer data PACKET_SIZE c.packet c.count

def Copy.merge (gaffer_data data : Mem) (c : Copy) : Option Mem :=
  move data PACKET_SIZE c.packet gaffer_data GAFFER_DATA_SIZE c.gaffer c.count

theorem check_gaffer_packet_eq (G : Globals) (gaffer_data data : Mem) (len : Nat) :
    check_gaffer_packet G gaffer_data data len =
      (keepCopies G data len).bind fun cs => Runs.exec (Copy.keep data) gaffer_data cs := by
  unfold check_gaffer_packet keepCopies
  split
  · rfl
  split
  · rfl
  change (gafferAddress G).bind _ = ((gafferAddress G).bind _).bind _
  cases gafferAddress G with
  | none => rfl
  | some uni_num =>
    simp only [Option.bind_some]
    split
    · cases hlo : number G (CFG_str2id "GAFFER_LOWER") with
      | none => simp [windowCopy, hlo]
      | some lower =>
        cases hhi : number G (CFG_str2id "GAFFER_UPPER") with
        | none => simp [windowCopy, hlo, hhi]
        | some upper => simp [windowCopy, hlo, hhi, Runs.exec, Copy.keep]
    · rfl

theorem replace_channel_data_eq (G : Globals) (gaffer_data data : Mem) :
    replace_channel_data G gaffer_data data =
      (mergeCopies G).bind fun cs => Runs.exec (Copy.merge gaffer_data) data cs := by
  unfold replace_channel_data mergeCopies
  split
  · rfl
  cases hlo : number G (CFG_str2id "GAFFER_LOWER") with
  | none => simp [windowCopy, hlo]
  | some lower =>
    cases hhi : number G (CFG_str2id "GAFFER_UPPER") with
    | none => simp [windowCopy, hlo, hhi]
    | some upper => simp [windowCopy, hlo, hhi, Runs.exec, Copy.merge]

/-- The copies made for a datagram. -/
def copies (S : Setup) (raw : Mem) (len : Nat) : Option (List Copy) :=
  if TakenForDmx raw len ∧ S.artnet_enable ≠ 0 then do
    let kept ← keepCopies S.G raw len
    let uni_num ← mainAddress S.G
    if uni_num = (raw 14).toNat then (mergeCopies S.G).map (kept ++ ·) else some kept
  else some []

theorem Copy.inside_of_move {c : Copy} {dst src m : Mem} :
    move dst GAFFER_DATA_SIZE c.gaffer src PACKET_SIZE c.packet c.count = some m ∨
      move dst PACKET_SIZE c.packet src GAFFER_DATA_SIZE c.gaffer c.count = some m →
        c.Inside PACKET_SIZE := by
  unfold move Copy.Inside
  rintro (h | h)
  all_goals
    obtain ⟨hin, -⟩ := Option.ite_none_right_eq_some.mp h
    exact ⟨by omega, .inr (by omega)⟩

/-- A call with an outcome makes the copies of `copies`, each inside the two buffers. -/
theorem copies_of_outcome {S : Setup} {raw : Mem} {len : Nat} {sin_addr : InAddr} {n : Node}
    {done : Mem × Node} (h : process_artnet_msg S raw len sin_addr n = some done) :
    ∃ cs, copies S raw len = some cs ∧ ∀ c ∈ cs, c.Inside PACKET_SIZE := by
  by_cases hdmx : TakenForDmx raw len ∧ S.artnet_enable ≠ 0
  swap
  · exact ⟨[], if_neg hdmx, List.forall_mem_nil _⟩
  obtain ⟨⟨hid, hlen, hop⟩, henable⟩ := id hdmx
  unfold process_artnet_msg at h
  simp only [store_byte_of_ne raw 0 (show 9 ≠ 7 by decide),
    store_byte_of_ne raw 0 (show 14 ≠ 7 by decide)] at h
  rw [if_neg (not_not.mpr ((strcmp_id_iff raw).mpr hid)), if_neg (Nat.not_le.mpr hlen),
    if_neg (by simp [hop, henable])] at h
  simp only [Option.bind_eq_bind, Option.bind_eq_some_iff, check_gaffer_packet_eq] at h
  obtain ⟨kept, ⟨ks, hkeep, hkept⟩, uni_num, hmain, h⟩ := h
  have hkeep : keepCopies S.G raw len = some ks := by
    rwa [keepCopies, store_byte_of_ne raw 0 (by decide)] at hkeep
  have hks : ∀ c ∈ ks, c.Inside PACKET_SIZE := by
    intro c hc
    obtain ⟨_, _, hmove⟩ := Runs.exec_step_of_mem hkept hc
    exact Copy.inside_of_move (.inl hmove)
  simp only [copies, if_pos hdmx, hkeep, mainAddress, hmain, Option.bind_eq_bind,
    Option.bind_some]
  split at h
  · rename_i huni
    rw [if_pos huni]
    obtain ⟨merged, hmerge, -⟩ := Option.bind_eq_some_iff.mp h
    rw [replace_channel_data_eq] at hmerge
    obtain ⟨ms, hms, hmerged⟩ := Option.bind_eq_some_iff.mp hmerge
    refine ⟨ks ++ ms, by rw [hms]; rfl, List.forall_mem_append.mpr ⟨hks, fun c hc => ?_⟩⟩
    obtain ⟨_, _, hmove⟩ := Runs.exec_step_of_mem hmerged hc
    exact Copy.inside_of_move (.inr hmove)
  · rename_i huni
    exact ⟨ks, if_neg huni, hks⟩

/-! ### Exactly when the copies are inside -/

/-- A copy is made: the gaffer is on, and the packet is one of its universe or of the main
one. -/
def UsesWindow (S : Setup) (raw : Mem) (len : Nat) : Prop :=
  TakenForDmx raw len ∧ S.artnet_enable ≠ 0 ∧ disabled S.G = false ∧
    ((∃ a, gafferAddress S.G = some a ∧ (a : Int) = (raw 14).toInt8.toInt) ∨
      mainAddress S.G = some (raw 14).toNat)

/-- The window is empty, or its channels have a place in `gaffer_data` and in a packet of
`len` bytes. -/
def WindowFits (lower upper : Int) (len : Nat) : Prop :=
  upper + 1 = lower ∨ 0 ≤ lower ∧ lower ≤ upper ∧ upper ≤ 513 ∧ 17 + upper < len

theorem windowCopy_inside_iff (lower upper : Int) (len : Nat) :
    (Copy.mk lower (17 + lower) (upper - lower + 1)).Inside len ↔ WindowFits lower upper len := by
  simp only [Copy.Inside, WindowFits, GAFFER_DATA_SIZE]
  omega

/-- A text that is terminated within its array, of at most four bytes, has a number. -/
theorem number_defined {G : Globals} (hterm : TextsTerminated G.g_web_config) {id : Nat}
    {f : Field} {limit : Option Nat} (hcase : getCases.lookup id = some (f, limit))
    (htext : f.isText = true) (hsize : 2 ≤ f.size ∧ f.size ≤ 4) : ∃ v, number G id = some v := by
  have hlt := ratpac_get_str_lt hcase hsize.1 (hterm f htext)
  exact ⟨_, if_pos (Nat.lt_of_lt_of_le hlt hsize.2)⟩

theorem configuredAddress_defined {G : Globals} {uniId subId : Nat}
    (huni : ∃ v, number G uniId = some v) (hsub : ∃ v, number G subId = some v) :
    ∃ a, configuredAddress G uniId subId = some a := by
  obtain ⟨uni_num, huni⟩ := huni
  obtain ⟨art_sub, hsub⟩ := hsub
  exact ⟨portAddress uni_num art_sub, by rw [configuredAddress, huni, hsub]; rfl⟩

section Stored

variable {S : Setup} (hterm : TextsTerminated S.G.g_web_config)
include hterm

theorem mainAddress_defined : ∃ a, mainAddress S.G = some a :=
  configuredAddress_defined
    (number_defined hterm (f := .universe) rfl rfl (by decide))
    (number_defined hterm (f := .subnet) rfl rfl (by decide))

theorem gafferAddress_defined : ∃ a, gafferAddress S.G = some a :=
  configuredAddress_defined
    (number_defined hterm (f := .gaffer_univ) rfl rfl (by decide))
    (number_defined hterm (f := .gaffer_sub) rfl rfl (by decide))

theorem window_defined :
    ∃ lower upper, number S.G (CFG_str2id "GAFFER_LOWER") = some lower ∧
      number S.G (CFG_str2id "GAFFER_UPPER") = some upper ∧
      windowCopy S.G = some ⟨lower, 17 + lower, upper - lower + 1⟩ := by
  obtain ⟨lower, hlower⟩ := @number_defined S.G hterm (CFG_str2id "GAFFER_LOWER") .gaffer_lower _
    rfl rfl (by decide)
  obtain ⟨upper, hupper⟩ := @number_defined S.G hterm (CFG_str2id "GAFFER_UPPER") .gaffer_upper _
    rfl rfl (by decide)
  exact ⟨lower, upper, hlower, hupper, by rw [windowCopy, hlower, hupper]; rfl⟩

/-- All copies for a datagram are copies of the window, and there is one exactly if the
datagram uses the window. -/
theorem copies_spec {c : Copy} (hc : windowCopy S.G = some c) (raw : Mem) (len : Nat) :
    ∃ cs, copies S raw len = some cs ∧ (∀ d ∈ cs, d = c) ∧ (c ∈ cs ↔ UsesWindow S raw len) := by
  obtain ⟨main, hmain⟩ := mainAddress_defined hterm
  obtain ⟨address, haddress⟩ := gafferAddress_defined hterm
  by_cases hdmx : TakenForDmx raw len ∧ S.artnet_enable ≠ 0
  swap
  · refine ⟨[], if_neg hdmx, List.forall_mem_nil _, ?_⟩
    exact iff_of_false List.not_mem_nil fun huse => hdmx ⟨huse.1, huse.2.1⟩
  have hlen : ¬ len < 50 := by have := hdmx.1.2.1; omega
  cases hoff : disabled S.G with
  | true =>
    refine ⟨[], ?_, List.forall_mem_nil _, ?_⟩
    · simp [copies, hdmx, keepCopies, mergeCopies, hoff, hlen, hmain]
    · exact iff_of_false List.not_mem_nil fun huse => by simp [UsesWindow, hoff] at huse
  | false =>
    by_cases hkeep : (address : Int) = (raw 14).toInt8.toInt <;>
      by_cases hmerge : main = (raw 14).toNat
    all_goals
      simp [copies, hdmx, keepCopies, mergeCopies, hoff, hlen, hmain, haddress, hc, UsesWindow,
        hkeep, hmerge]

/-- The two runs of the copy are inside the two arrays. -/
def Copy.Movable (c : Copy) : Prop :=
  0 ≤ c.count ∧ 0 ≤ c.gaffer ∧ c.gaffer + c.count ≤ GAFFER_DATA_SIZE ∧ 0 ≤ c.packet ∧
    c.packet + c.count ≤ PACKET_SIZE

omit hterm in
theorem exec_copies {step : Mem → Copy → Option Mem} {cs : List Copy}
    (h : ∀ c ∈ cs, ∀ m, ∃ m', step m c = some m') (m : Mem) :
    ∃ m', Runs.exec step m cs = some m' := by
  induction cs generalizing m with
  | nil => exact ⟨m, rfl⟩
  | cons c cs ih =>
    obtain ⟨m₁, hstep⟩ := h c List.mem_cons_self m
    obtain ⟨m', hrun⟩ := ih (fun d hd => h d (List.mem_cons_of_mem c hd)) m₁
    exact ⟨m', Runs.exec_cons_eq_some.mpr ⟨m₁, hstep, hrun⟩⟩

/-- Under a stored configuration a datagram has an outcome when it does not use the window or
the window is inside the arrays. -/
theorem process_artnet_msg_defined {c : Copy} (hc : windowCopy S.G = some c) {raw : Mem}
    {len : Nat} (hinside : UsesWindow S raw len → c.Movable) (sin_addr : InAddr) (n : Node) :
    ∃ done, process_artnet_msg S raw len sin_addr n = some done := by
  unfold process_artnet_msg
  simp only [store_byte_of_ne raw 0 (show 9 ≠ 7 by decide),
    store_byte_of_ne raw 0 (show 14 ≠ 7 by decide)]
  split
  · exact ⟨_, rfl⟩
  rename_i hid
  split
  · split
    · exact ⟨_, rfl⟩
    · exact ⟨_, rfl⟩
  rename_i hlen
  split
  · exact ⟨_, rfl⟩
  rename_i hop
  rw [not_or, not_not] at hop
  have hdmx : TakenForDmx raw len ∧ S.artnet_enable ≠ 0 :=
    ⟨⟨(strcmp_id_iff raw).mp (not_not.mp hid), Nat.lt_of_not_le hlen, hop.1⟩, hop.2⟩
  obtain ⟨cs, hcopies, hall, hmem⟩ := copies_spec hterm hc raw len
  obtain ⟨main, hmain⟩ := mainAddress_defined hterm
  have hmove : ∀ d ∈ cs, d.Movable := by
    intro d hd
    obtain rfl := hall d hd
    exact hinside (hmem.mp hd)
  have hkeeps : ∀ d ∈ cs, ∀ data gaffer_data, ∃ m, d.keep data gaffer_data = some m := by
    intro d hd data gaffer_data
    obtain ⟨hcount, hgaffer, hgafferEnd, hpacket, hpacketEnd⟩ := hmove d hd
    exact ⟨_, if_pos ⟨hcount, hgaffer, hgafferEnd, hpacket, hpacketEnd⟩⟩
  have hmerges : ∀ d ∈ cs, ∀ gaffer_data data, ∃ m, d.merge gaffer_data data = some m := by
    intro d hd gaffer_data data
    obtain ⟨hcount, hgaffer, hgafferEnd, hpacket, hpacketEnd⟩ := hmove d hd
    exact ⟨_, if_pos ⟨hcount, hpacket, hpacketEnd, hgaffer, hgafferEnd⟩⟩
  simp only [copies, if_pos hdmx, Option.bind_eq_bind, hmain, Option.bind_some] at hcopies
  obtain ⟨ks, hkeep, hcopies⟩ := Option.bind_eq_some_iff.mp hcopies
  have hkeep' : keepCopies S.G (store raw 7 [0]) len = some ks := by
    rwa [keepCopies, store_byte_of_ne raw 0 (by decide)]
  rw [check_gaffer_packet_eq, hkeep', show configuredAddress S.G (CFG_str2id "AKS_UNIVERSE")
    (CFG_str2id "AKS_SUBNET") = some main from hmain]
  simp only [Option.bind_some]
  by_cases huni : main = (raw 14).toNat
  · rw [if_pos huni] at hcopies
    obtain ⟨ms, hmerge, rfl⟩ := Option.map_eq_some_iff.mp hcopies
    obtain ⟨kept, hkept⟩ := exec_copies (fun d hd => hkeeps d (List.mem_append_left _ hd)
      (store raw 7 [0])) n.gaffer_data
    obtain ⟨merged, hmerged⟩ := exec_copies (fun d hd => hmerges d (List.mem_append_right _ hd)
      kept) (store raw 7 [0])
    simp only [hkept, Option.bind_eq_bind, Option.bind_some, if_pos huni, replace_channel_data_eq,
      hmerge, hmerged]
    exact ⟨_, rfl⟩
  · rw [if_neg huni] at hcopies
    obtain rfl := Option.some.inj hcopies
    obtain ⟨kept, hkept⟩ := exec_copies (fun d hd => hkeeps d hd (store raw 7 [0])) n.gaffer_data
    simp only [hkept, Option.bind_eq_bind, Option.bind_some, if_neg huni]
    exact ⟨_, rfl⟩

end Stored

/-- All copies made for the datagram are inside. -/
def CopiesInside (S : Setup) (raw : Mem) (len : Nat) : Prop :=
  ∃ cs, copies S raw len = some cs ∧ ∀ c ∈ cs, c.Inside len

/-- **Where the gaffer's copies are inside.**  Under a stored configuration the copies for
a datagram stay inside `gaffer_data` and the received packet if and only if none is made
or the window fits both. -/
theorem gaffer_copies_inside_iff {S : Setup} (hterm : TextsTerminated S.G.g_web_config)
    (raw : Mem) (len : Nat) :
    ∃ lower upper, number S.G (CFG_str2id "GAFFER_LOWER") = some lower ∧
      number S.G (CFG_str2id "GAFFER_UPPER") = some upper ∧
      (CopiesInside S raw len ↔ ¬ UsesWindow S raw len ∨ WindowFits lower upper len) := by
  obtain ⟨lower, upper, hlower, hupper, hwindow⟩ := window_defined hterm
  obtain ⟨cs, hcs, hall, hmem⟩ := copies_spec hterm hwindow raw len
  refine ⟨lower, upper, hlower, hupper, ?_⟩
  rw [← windowCopy_inside_iff, ← hmem]
  constructor
  · rintro ⟨cs', hcs', hin⟩
    obtain rfl := Option.some.inj (hcs.symm.trans hcs')
    exact (Classical.em _).symm.imp id fun hc => hin _ hc
  · rintro h
    refine ⟨cs, hcs, fun d hd => ?_⟩
    obtain rfl := hall d hd
    exact h.resolve_left (not_not.mpr hd)

/-- The gaffer takes over the channels `lower` to `upper` of the main universe 0 from
universe 1. -/
def windowSetup (lower upper : String) : Setup :=
  { gafferSetup "0" with
    G := { (gafferSetup "0").G with
      g_web_config := setField (setField (gafferSetup "0").G.g_web_config .gaffer_lower
        (ascii lower)) .gaffer_upper (ascii upper) } }

/-- Channels that no packet has, more channels than the packet has, and a window that ends
before it starts. -/
theorem window_outside :
    (TextsTerminated (windowSetup "900" "950").G.g_web_config ∧
        ¬ CopiesInside (windowSetup "900" "950") (levelPacket 0 7) ARTDMX_SIZE) ∧
      (TextsTerminated (windowSetup "400" "512").G.g_web_config ∧
        ¬ CopiesInside (windowSetup "400" "512") (levelPacket 1 7) 60) ∧
      (TextsTerminated (windowSetup "5" "1").G.g_web_config ∧
        ¬ CopiesInside (windowSetup "5" "1") (levelPacket 0 7) ARTDMX_SIZE) := by
  have hone : ∀ {S raw len} {c : Copy}, copies S raw len = some [c] →
      CopiesInside S raw len → c.Inside len := by
    rintro S raw len c hc ⟨cs, hcs, hin⟩
    obtain rfl := Option.some.inj (hc.symm.trans hcs)
    exact hin c List.mem_cons_self
  refine ⟨⟨by decide +kernel, fun h => ?_⟩, ⟨by decide +kernel, fun h => ?_⟩,
    ⟨by decide +kernel, fun h => ?_⟩⟩
  · exact absurd (hone (c := ⟨900, 917, 51⟩) (by decide +kernel) h)
      (by simp [Copy.Inside, GAFFER_DATA_SIZE])
  · exact absurd (hone (c := ⟨400, 417, 113⟩) (by decide +kernel) h)
      (by simp [Copy.Inside])
  · exact absurd (hone (c := ⟨5, 22, -3⟩) (by decide +kernel) h)
      (by simp [Copy.Inside])

theorem gaffer_copies_inside_two :
    ∃ lower upper, number (gafferSetup "0").G (CFG_str2id "GAFFER_LOWER") = some lower ∧
      number (gafferSetup "0").G (CFG_str2id "GAFFER_UPPER") = some upper ∧
      (CopiesInside (gafferSetup "0") (levelPacket 1 7) ARTDMX_SIZE ↔
        ¬ UsesWindow (gafferSetup "0") (levelPacket 1 7) ARTDMX_SIZE ∨
          WindowFits lower upper ARTDMX_SIZE) :=
  gaffer_copies_inside_iff (by decide +kernel) (levelPacket 1 7) ARTDMX_SIZE

end AksFirmware.ArtNetDispatch
