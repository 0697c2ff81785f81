import AksFirmware.PeerRefinement

/-!
# Addresses and ages

Who is on the list, and for how long, depends on two members of a slot only: `ip_addr`
and `age_cnt`.  A text that is too long runs over the members behind its own, and past
the end of the slot, but a message ends before it could reach the address of the next
slot, and the age is set after the texts.  So the two members can be followed on the
bytes for every datagram.
-/

namespace AksFirmware.PeerMemory

open ByteMemory CText WebConfig PeerTable

/-! ### The two members -/

def ipOf (list : Mem) (i : Nat) : Text := text list (memberAt i .ip_addr) Member.ip_addr.size

def EndsAt (list : Mem) (i : Nat) : Prop :=
  Terminated list (memberAt i .ip_addr) Member.ip_addr.size

def SameIp (list list' : Mem) (i : Nat) : Prop :=
  ∀ k < Member.ip_addr.size, list' (memberAt i .ip_addr + k) = list (memberAt i .ip_addr + k)

theorem SameIp.trans {a b c : Mem} {i : Nat} (h : SameIp a b i) (h' : SameIp b c i) :
    SameIp a c i :=
  fun k hk => (h' k hk).trans (h k hk)

theorem SameIp.ipOf_eq {list list' : Mem} {i : Nat} (h : SameIp list list' i) :
    ipOf list' i = ipOf list i :=
  text_congr h

theorem SameIp.endsAt {list list' : Mem} {i : Nat} (h : SameIp list list' i) :
    EndsAt list' i ↔ EndsAt list i :=
  terminated_congr h

theorem EndsAt.textOf_eq {list : Mem} {i : Nat} (h : EndsAt list i) (hi : i < MAX_NUM_ENTRY) :
    textOf list i .ip_addr = ipOf list i := by
  have hend := memberAt_end_le i .ip_addr
  have hlast := ageAt_lt hi
  exact h.text_eq_of_le (by omega)

theorem zero_notMem_ipOf (list : Mem) (i : Nat) : (0 : UInt8) ∉ ipOf list i :=
  zero_notMem_text list _ _

theorem setAge_sameIp (list : Mem) (i j : Nat) (n : Int) : SameIp list (setAge list i n) j := by
  intro k hk
  have hlen := intBytes_length n
  refine store_of_outside list _ ?_
  simp only [memberAt, ageAt, offset, Member.size, ENTRY_SIZE, AGE_OFFSET] at *
  omega

theorem ageOf_setAge_of_ne (list : Mem) {i j : Nat} (hne : j ≠ i) (n : Int) :
    ageOf (setAge list i n) j = ageOf list j := by
  refine intAt_congr fun k hk => setAge_sameOutside list i n _ ?_
  simp only [ageAt, ENTRY_SIZE, AGE_OFFSET]
  omega

/-! ### What a text can reach -/

/-- A write that spares every address and the ages of the other slots: it ends before its own
slot's address, or starts behind it and ends before the next one. -/
def SparesPeers (w : Write) : Prop :=
  ∀ s, w.2 = some s → offset w.1 + s.length < offset .ip_addr ∨
    offset .universe ≤ offset w.1 ∧ offset w.1 + s.length < ENTRY_SIZE + offset .ip_addr

/-- The bytes that no sparing write to slot `i` reaches. -/
def Spared (i x : Nat) : Prop :=
  x < ENTRY_SIZE * i ∨ memberAt i .ip_addr ≤ x ∧ x < memberAt i .universe ∨
    memberAt (i + 1) .ip_addr ≤ x

theorem spared_ip (i j : Nat) {k : Nat} (hk : k < Member.ip_addr.size) :
    Spared i (memberAt j .ip_addr + k) := by
  simp only [Spared, memberAt, offset, Member.size, ENTRY_SIZE] at *
  omega

theorem spared_age {i j : Nat} (hne : j ≠ i) {k : Nat} (hk : k < 4) : Spared i (ageAt j + k) := by
  simp only [Spared, memberAt, ageAt, offset, ENTRY_SIZE, AGE_OFFSET]
  omega

theorem printAll_spares {list list' : Mem} {i : Nat} {ws : List Write}
    (h : printAll list i ws = some list') (hspare : ∀ w ∈ ws, SparesPeers w) {x : Nat}
    (hx : Spared i x) : list' x = list x := by
  induction ws generalizing list with
  | nil => exact Option.some.inj h ▸ rfl
  | cons w ws ih =>
    obtain ⟨list₁, hput, hrest⟩ := printAll_cons.mp h
    obtain ⟨s, hs, -, rfl⟩ := printMember_eq_some.mp hput
    have hw := hspare w List.mem_cons_self s hs
    rw [ih hrest fun w' hw' => hspare w' (List.mem_cons_of_mem w hw')]
    refine storeText_of_outside list s ?_
    simp only [Spared, memberAt, offset, ENTRY_SIZE] at *
    omega

theorem formatAt_length {msg : Mem} {a : Nat} {s : Text} (h : formatAt msg a = some s) :
    s.length < MAX_MSG - a := by
  obtain ⟨fmt, hfmt, hs⟩ := Option.bind_eq_some_iff.mp h
  simp only [plainAt, Option.ite_none_right_eq_some, Option.some.injEq] at hfmt
  have hlen := hfmt.1.text_length_lt
  rw [hfmt.2] at hlen
  exact Nat.lt_of_le_of_lt (printf_length_le hs) hlen

theorem node_name_spares (datagram : List UInt8) :
    SparesPeers (.node_name, plainAt (received datagram) 0) := by
  simp only [SparesPeers]
  intro s hs
  have hlen := plainAt_length (t := 19) (by decide) (by decide) hs
  exact Or.inl (by simp only [offset]; omega)

theorem formatWrites_spare (msg : Mem) :
    ∀ w ∈ formatWrites.map fun p => ((p.1, formatAt msg p.2) : Write), SparesPeers w := by
  -- even the longest text that starts there stops short of the next address
  have hreach : ∀ p ∈ formatWrites, offset .universe ≤ offset p.1 ∧
      offset p.1 + (MAX_MSG - p.2) ≤ ENTRY_SIZE + offset .ip_addr := by
    decide
  intro w hw
  obtain ⟨p, hp, rfl⟩ := List.mem_map.mp hw
  obtain ⟨hstart, hend⟩ := hreach p hp
  intro s hs
  have hlen : s.length < MAX_MSG - p.2 := formatAt_length hs
  exact Or.inr ⟨hstart, Nat.lt_of_lt_of_le (Nat.add_lt_add_left hlen _) hend⟩

theorem refreshWrites_spare (datagram : List UInt8) :
    ∀ w ∈ refreshWrites (received datagram), SparesPeers w := by
  intro w hw
  rcases List.mem_cons.mp hw with rfl | hw
  · exact node_name_spares datagram
  · exact formatWrites_spare _ w hw

theorem behind_spares {m : Member} {o : Option Text} (hm : offset .universe ≤ offset m)
    (ho : ∀ s, o = some s → s.length < 20) : SparesPeers (m, o) := by
  intro s hs
  have hlen := ho s hs
  have hend := member_end_le m
  have hsize : 4 ≤ m.size := by cases m <;> decide
  refine Or.inr ⟨hm, ?_⟩
  simp only [offset, ENTRY_SIZE, AGE_OFFSET] at *
  omega

theorem ownWrites_spare {N : NodeInfo} (hN : VersionsFit N) (n : Nat) :
    ∀ w ∈ N.ownWrites n, SparesPeers w := by
  have hformat : ∀ id s, (N.configText n id).bind printf = some s → s.length < 20 := by
    intro id s hs
    obtain ⟨fmt, hfmt, hs⟩ := Option.bind_eq_some_iff.mp hs
    exact Nat.lt_of_le_of_lt (printf_length_le hs) (configText_length hfmt)
  have hversion : ∀ t : Text, t.length < 20 → ∀ s, some t = some s → s.length < 20 :=
    fun t ht s hs => Option.some.inj hs ▸ ht
  obtain ⟨hecos, hsamd, htimo, hmode⟩ := hN
  simp only [Member.size] at hecos hsamd htimo hmode
  intro w hw
  simp only [NodeInfo.ownWrites, List.mem_cons, List.not_mem_nil, or_false] at hw
  rcases hw with rfl | rfl | rfl | rfl | rfl | rfl | rfl | rfl | rfl | rfl | rfl | rfl
  · intro s hs
    have hlen := configText_length hs
    exact Or.inl (by simp only [offset]; omega)
  iterate 7 exact behind_spares (by decide) (hformat _)
  all_goals exact behind_spares (by decide) (hversion _ (by omega))

/-! ### Filling a slot -/

/-- Slot `i` now belongs to `ip`; the other peers keep their addresses and ages. -/
structure Entered (list list' : Mem) (i : Nat) (ip : Text) : Prop where
  ends : EndsAt list' i
  ip_eq : ipOf list' i = ip
  same_ip : ∀ j, j ≠ i → SameIp list list' j
  same_age : ∀ j ∈ slots, j ≠ i → ageOf list' j = ageOf list j

theorem printAll_sameIp {list list' : Mem} {i : Nat} {ws : List Write}
    (h : printAll list i ws = some list') (hspare : ∀ w ∈ ws, SparesPeers w) (j : Nat) :
    SameIp list list' j :=
  fun _ hk => printAll_spares h hspare (spared_ip i j hk)

theorem printAll_same_age {list list' : Mem} {i j : Nat} {ws : List Write}
    (h : printAll list i ws = some list') (hspare : ∀ w ∈ ws, SparesPeers w) (hne : j ≠ i) :
    ageOf list' j = ageOf list j :=
  intAt_congr fun _ hk => printAll_spares h hspare (spared_age hne hk)

theorem refresh_entered {list list' : Mem} {i : Nat} {datagram : List UInt8} (hends : EndsAt list i)
    (h : printAll list i (refreshWrites (received datagram)) = some list') :
    Entered list list' i (ipOf list i) := by
  have hspare := refreshWrites_spare datagram
  have hsame := printAll_sameIp h hspare
  exact ⟨(hsame i).endsAt.mpr hends, (hsame i).ipOf_eq, fun j _ => hsame j,
    fun j _ hne => printAll_same_age h hspare hne⟩

theorem storeIp_entered (list : Mem) (i : Nat) (sin_addr : InAddr) :
    Entered list (storeText list (memberAt i .ip_addr) (inet_ntoa sin_addr)) i
      (inet_ntoa sin_addr) := by
  have hfit : (inet_ntoa sin_addr).length < Member.ip_addr.size :=
    Nat.lt_of_le_of_lt (inet_ntoa_length sin_addr) (by decide)
  have hsame := print_sameOutside list i hfit
  refine ⟨terminated_storeText list hfit,
    text_storeText list (zero_notMem_inet_ntoa sin_addr) hfit, fun j hne k hk => hsame _ ?_,
    fun j _ hne => intAt_congr fun k hk => hsame _ ?_⟩
  · simp only [memberAt, offset, Member.size, ENTRY_SIZE] at *
    omega
  · simp only [ageAt, ENTRY_SIZE, AGE_OFFSET]
    omega

theorem insert_entered {list list' : Mem} {i : Nat} {sin_addr : InAddr} {datagram : List UInt8}
    (h : printAll list i (insertWrites (inet_ntoa sin_addr) (received datagram)) = some list') :
    Entered list list' i (inet_ntoa sin_addr) := by
  have hname : ∀ w ∈ [((.node_name, plainAt (received datagram) 0) : Write)], SparesPeers w :=
    List.forall_mem_singleton.mpr (node_name_spares datagram)
  have hformats := formatWrites_spare (received datagram)
  obtain ⟨list₁, hput₁, h⟩ := printAll_cons.mp h
  obtain ⟨list₂, hput₂, h⟩ := printAll_cons.mp h
  have hfirst : printAll list i [(.node_name, plainAt (received datagram) 0)] = some list₁ :=
    printAll_cons.mpr ⟨list₁, hput₁, rfl⟩
  obtain ⟨s, hs, -, rfl⟩ := printMember_eq_some.mp hput₂
  obtain rfl := Option.some.inj hs
  have hip := storeIp_entered list₁ i sin_addr
  have hrest := printAll_sameIp h hformats
  refine ⟨(hrest i).endsAt.mpr hip.ends, (hrest i).ipOf_eq.trans hip.ip_eq, fun j hne => ?_,
    fun j hj hne => ?_⟩
  · exact ((printAll_sameIp hfirst hname j).trans (hip.same_ip j hne)).trans (hrest j)
  · rw [printAll_same_age h hformats hne, hip.same_age j hj hne,
      printAll_same_age hfirst hname hne]

/-! ### The entries that are shown -/

/-- The valid list shows these addresses, in this order. -/
def Shows (M : Memory) (addrs : List Text) : Prop :=
  M.client_valid_num = addrs.length ∧
    ∀ k ip, addrs[k]? = some ip → EndsAt M.client_valid_list k ∧ ipOf M.client_valid_list k = ip

theorem copyEntry_ip (dst src : Mem) (j i : Nat) {k : Nat} (hk : k < Member.ip_addr.size) :
    copyEntry dst j src i (memberAt j .ip_addr + k) = src (memberAt i .ip_addr + k) := by
  simp only [memberAt, offset, Member.size, ENTRY_SIZE] at *
  rw [copyEntry, store_load_eq, if_pos (by simp only [ENTRY_SIZE]; omega)]
  congr 1
  simp only [ENTRY_SIZE]
  omega

theorem copyEntry_sameIp (dst src : Mem) {j k : Nat} (hne : k ≠ j) (i : Nat) :
    SameIp dst (copyEntry dst j src i) k := by
  intro b hb
  rw [copyEntry, store_load_eq, if_neg]
  simp only [memberAt, offset, Member.size, ENTRY_SIZE] at *
  omega

theorem save_shows {M : Memory} {addrs : List Text} (h : Shows M addrs) {i : Nat}
    (hends : EndsAt M.client_list i) :
    Shows (save_valid_client_entry M i) (addrs ++ [ipOf M.client_list i]) := by
  obtain ⟨hnum, hentries⟩ := h
  constructor
  · rw [List.length_append, ← hnum]
    rfl
  · intro k ip hk
    simp only [save_valid_client_entry]
    by_cases hlast : k = M.client_valid_num
    · subst hlast
      have hip := fun b hb => copyEntry_ip M.client_valid_list M.client_list M.client_valid_num i
        (k := b) hb
      rw [hnum, List.getElem?_concat_length] at hk
      refine ⟨(terminated_congr hip).mpr hends, ?_⟩
      rw [← Option.some.inj hk]
      exact text_congr hip
    · have hlt := (List.getElem?_eq_some_iff.mp hk).1
      rw [List.length_append, List.length_singleton] at hlt
      rw [List.getElem?_append_left (by omega)] at hk
      have hsame := copyEntry_sameIp M.client_valid_list M.client_list hlast i
      obtain ⟨hend, hip⟩ := hentries k ip hk
      exact ⟨hsame.endsAt.mpr hend, hsame.ipOf_eq.trans hip⟩

theorem storeOwn_shows {M : Memory} {N : NodeInfo} {own : Text} {rest : List Text} {shown : Mem}
    (h : Shows M (own :: rest)) (hsame : ∀ k, k ≠ 0 → SameIp M.client_valid_list shown k) :
    Shows { M with client_valid_list := storeText shown (memberAt 0 .ip_addr) N.ownIp }
      (N.ownIp :: rest) := by
  obtain ⟨hnum, hentries⟩ := h
  refine ⟨hnum, fun k ip hk => ?_⟩
  cases k with
  | zero =>
    obtain rfl := Option.some.inj hk
    exact ⟨terminated_storeText shown N.ownIp_fits,
      text_storeText shown (zero_notMem_ownIp N) N.ownIp_fits⟩
  | succ k =>
    obtain ⟨hend, hip⟩ := hentries (k + 1) ip hk
    have hstore : SameIp M.client_valid_list (storeText shown (memberAt 0 .ip_addr) N.ownIp)
        (k + 1) := by
      refine (hsame (k + 1) (Nat.succ_ne_zero k)).trans fun b hb => ?_
      refine print_sameOutside shown 0 N.ownIp_fits _ (Or.inr ?_)
      simp only [memberAt, ENTRY_SIZE]
      omega
    exact ⟨hstore.endsAt.mpr hend, hstore.ipOf_eq.trans hip⟩

theorem my_ip_address_shows {N : NodeInfo} {M : Memory} {own : Text} {rest : List Text}
    (h : Shows M (own :: rest)) : Shows (my_ip_address N M) (N.ownIp :: rest) :=
  storeOwn_shows h fun _ _ _ _ => rfl

/-! ### Ageing -/

/-- `age_cnt` after the turn of its slot in the loop of `age_client_list`. -/
def agedCount (new : Bool) (n : Int) : Int := if 0 < n ∧ new = false then n - 1 else n

/-- `client_list` after the turn of slot `i`. -/
def agedList (new : Bool) (list : Mem) (i : Nat) : Mem :=
  if 0 < ageOf list i ∧ new = false then setAge list i (ageOf list i - 1) else list

theorem ageSlot_eq (new : Bool) (M : Memory) (i : Nat) :
    ageSlot new M i =
      if 0 < agedCount new (ageOf M.client_list i) then
        save_valid_client_entry { M with client_list := agedList new M.client_list i } i
      else { M with client_list := agedList new M.client_list i } := by
  by_cases hlive : 0 < ageOf M.client_list i
  · cases new with
    | true => simp [ageSlot, agedCount, agedList, hlive]
    | false => simp [ageSlot, agedCount, agedList, hlive]
  · simp [ageSlot, agedCount, agedList, hlive]

/-- The slots of `is` were aged, and no address changed. -/
structure Aged (new : Bool) (is : List Nat) (list list' : Mem) : Prop where
  same_ip : ∀ j, SameIp list list' j
  age_eq : ∀ j, ageOf list' j =
    if j ∈ is then agedCount new (ageOf list j) else ageOf list j

theorem agedList_aged (new : Bool) (list : Mem) (i : Nat) :
    Aged new [i] list (agedList new list i) := by
  simp only [agedList]
  split
  · rename_i hage
    refine ⟨fun j => setAge_sameIp list i j _, fun j => ?_⟩
    by_cases hji : j = i
    · subst hji
      have hlt := ageOf_lt list j
      rw [if_pos List.mem_cons_self, agedCount, if_pos hage]
      exact intAt_store _ _ (by omega) (by omega)
    · rw [if_neg (mt List.mem_singleton.mp hji)]
      exact ageOf_setAge_of_ne list hji _
  · rename_i hage
    refine ⟨fun _ _ _ => rfl, fun j => ?_⟩
    by_cases hji : j = i
    · subst hji
      rw [if_pos List.mem_cons_self, agedCount, if_neg hage]
    · rw [if_neg (mt List.mem_singleton.mp hji)]

theorem ageSlot_client_list (new : Bool) (M : Memory) (i : Nat) :
    (ageSlot new M i).client_list = agedList new M.client_list i := by
  rw [ageSlot_eq]
  split <;> simp only [save_valid_client_entry]

theorem ageSlot_shows (new : Bool) {M : Memory} {addrs : List Text} (h : Shows M addrs) {i : Nat}
    (hends : EndsAt M.client_list i) :
    Shows (ageSlot new M i) (addrs ++
      if 0 < agedCount new (ageOf M.client_list i) then [ipOf M.client_list i] else []) := by
  have hsame := (agedList_aged new M.client_list i).same_ip i
  have hset : Shows { M with client_list := agedList new M.client_list i } addrs := h
  rw [ageSlot_eq]
  split
  · rw [← hsame.ipOf_eq]
    exact save_shows hset (hsame.endsAt.mpr hends)
  · rwa [List.append_nil]

theorem ageLoop_aged (new : Bool) {is : List Nat} (hnodup : is.Nodup) (M : Memory) :
    Aged new is M.client_list (is.foldl (ageSlot new) M).client_list := by
  induction is generalizing M with
  | nil => exact ⟨fun _ _ _ => rfl, fun _ => (if_neg List.not_mem_nil).symm⟩
  | cons i is ih =>
    obtain ⟨hi, hnodup⟩ := List.nodup_cons.mp hnodup
    have hfirst := agedList_aged new M.client_list i
    rw [← ageSlot_client_list new M i] at hfirst
    have hrest := ih hnodup (ageSlot new M i)
    refine ⟨fun j => (hfirst.same_ip j).trans (hrest.same_ip j), fun j => ?_⟩
    rw [List.foldl_cons, hrest.age_eq j, hfirst.age_eq j]
    by_cases hji : j = i
    · subst hji
      rw [if_neg hi, if_pos List.mem_cons_self, if_pos List.mem_cons_self]
    · simp [hji]

theorem ageLoop_shows (new : Bool) {is : List Nat} (hnodup : is.Nodup) {M : Memory}
    {addrs : List Text} (h : Shows M addrs) (hends : ∀ i ∈ is, EndsAt M.client_list i) :
    Shows (is.foldl (ageSlot new) M) (addrs ++
      (is.filter fun i => 0 < agedCount new (ageOf M.client_list i)).map (ipOf M.client_list)) := by
  induction is generalizing M addrs with
  | nil => simpa using h
  | cons i is ih =>
    obtain ⟨hi, hnodup⟩ := List.nodup_cons.mp hnodup
    have haged := agedList_aged new M.client_list i
    rw [← ageSlot_client_list new M i] at haged
    have hfirst := ageSlot_shows new h (hends i List.mem_cons_self)
    have hrest := ih hnodup hfirst fun j hj =>
      (haged.same_ip j).endsAt.mpr (hends j (List.mem_cons_of_mem i hj))
    -- the turn of slot `i` changes neither address nor age of the slots behind it
    have hage : ∀ j ∈ is, ageOf (ageSlot new M i).client_list j = ageOf M.client_list j := by
      intro j hj
      rw [haged.age_eq j, if_neg]
      exact fun hmem => hi (List.mem_singleton.mp hmem ▸ hj)
    rw [List.filter_congr fun j hj => by rw [hage j hj],
      List.map_congr_left fun j _ => (haged.same_ip j).ipOf_eq, List.append_assoc] at hrest
    rw [List.foldl_cons, List.filter_cons]
    split
    · rename_i hpos
      rwa [if_pos (of_decide_eq_true hpos)] at hrest
    · rename_i hpos
      rwa [if_neg fun hc => hpos (decide_eq_true hc)] at hrest

theorem refreshOwn_peers {N : NodeInfo} (hN : VersionsFit N) {M M' : Memory}
    (h : refreshOwn N M = some M') :
    (∀ j, SameIp M.client_list M'.client_list j) ∧
      (∀ j, j ≠ 0 → ageOf M'.client_list j = ageOf M.client_list j) ∧ Shows M' [N.ownIp] := by
  simp only [refreshOwn, Option.bind_eq_bind, Option.bind_eq_some_iff] at h
  obtain ⟨list, hprint, h⟩ := h
  obtain rfl := Option.some.inj h
  have hspare := ownWrites_spare hN M.client_valid_num
  refine ⟨fun j => (printAll_sameIp hprint hspare j).trans (setAge_sameIp list 0 j 3),
    fun j hne => (ageOf_setAge_of_ne list hne 3).trans (printAll_same_age hprint hspare hne),
    rfl, fun k ip hk => ?_⟩
  obtain ⟨rfl, rfl⟩ : k = 0 ∧ N.ownIp = ip := by
    cases k with
    | zero => exact ⟨rfl, Option.some.inj hk⟩
    | succ k => simp at hk
  exact ⟨terminated_storeText _ N.ownIp_fits,
    text_storeText _ (zero_notMem_ownIp N) N.ownIp_fits⟩

/-- The addresses of the slots that count, in the order of the slots. -/
def liveAddresses (list : Mem) : List Text :=
  (slots.filter fun i => 0 < ageOf list i).map (ipOf list)

theorem mem_liveAddresses {list : Mem} {ip : Text} :
    ip ∈ liveAddresses list ↔ ∃ i ∈ slots, 0 < ageOf list i ∧ ipOf list i = ip := by
  simp [liveAddresses, and_assoc]

theorem age_client_list_peers {N : NodeInfo} (hN : VersionsFit N) {new : Bool} {M M' : Memory}
    (hends : ∀ i ∈ slots, EndsAt M.client_list i) (h : age_client_list N new M = some M') :
    (∀ j, SameIp M.client_list M'.client_list j) ∧
      (∀ i ∈ slots, ageOf M'.client_list i = agedCount new (ageOf M.client_list i)) ∧
      Shows M' (N.ownIp :: liveAddresses M'.client_list) := by
  obtain ⟨M₀, hown, rfl⟩ := Option.map_eq_some_iff.mp h
  obtain ⟨hip, hage, hshow⟩ := refreshOwn_peers hN hown
  have haged := ageLoop_aged new slots_nodup M₀
  have hages : ∀ i ∈ slots, ageOf (slots.foldl (ageSlot new) M₀).client_list i =
      agedCount new (ageOf M₀.client_list i) := by
    intro i hi
    rw [haged.age_eq i, if_pos hi]
  refine ⟨fun j => (hip j).trans (haged.same_ip j), fun i hi => ?_, ?_⟩
  · have hpos := (mem_slots.mp hi).1
    rw [hages i hi, hage i (by omega)]
  · have hall := ageLoop_shows new slots_nodup hshow fun i hi => (hip i).endsAt.mpr (hends i hi)
    rw [List.filter_congr fun i hi => by rw [← hages i hi],
      List.map_congr_left fun i _ => ((haged.same_ip i).ipOf_eq).symm] at hall
    rw [liveAddresses]
    rwa [List.singleton_append] at hall

/-! ### Announcements -/

/-- The slot that `populate_new_client` fills: the one that holds the sender already, or a
free one for a sender that no slot holds. -/
theorem chosenSlot_some {N : NodeInfo} {sin_addr : InAddr} {rcv_msg : Mem} {M : Memory} {i : Nat}
    {ws : List Write} (hends : ∀ i ∈ slots, EndsAt M.client_list i)
    (h : chosenSlot N (inet_ntoa sin_addr) rcv_msg M = some (i, ws)) :
    i ∈ slots ∧ inet_ntoa sin_addr ≠ N.ownIp ∧
      (ws = refreshWrites rcv_msg ∧ 0 < ageOf M.client_list i ∧
          ipOf M.client_list i = inet_ntoa sin_addr ∨
        ws = insertWrites (inet_ntoa sin_addr) rcv_msg ∧ ageOf M.client_list i = 0 ∧
          inet_ntoa sin_addr ∉ liveAddresses M.client_list) := by
  have hsender := zero_notMem_inet_ntoa sin_addr
  have hown : textOf (my_ip_address N M).client_valid_list 0 .ip_addr = N.ownIp := by
    have hend : EndsAt (my_ip_address N M).client_valid_list 0 :=
      terminated_storeText _ N.ownIp_fits
    rw [hend.textOf_eq (by decide)]
    exact text_storeText _ (zero_notMem_ownIp N) N.ownIp_fits
  have hmatch : ∀ i ∈ slots, strcmp (textOf M.client_list i .ip_addr) (inet_ntoa sin_addr) = 0 ↔
      ipOf M.client_list i = inet_ntoa sin_addr := by
    intro i hi
    rw [(hends i hi).textOf_eq (mem_slots.mp hi).2]
    exact strcmp_eq_zero_iff (zero_notMem_ipOf _ i) hsender
  have hlists : (my_ip_address N M).client_list = M.client_list := by simp only [my_ip_address]
  simp only [chosenSlot, hown, hlists] at h
  split at h
  · cases h
  rename_i hself
  rw [strcmp_eq_zero_iff (zero_notMem_ownIp N) hsender] at hself
  split at h
  · rename_i j hj
    obtain ⟨rfl, rfl⟩ := Prod.mk.inj (Option.some.inj h)
    have hi := List.mem_of_find?_eq_some hj
    have hsat := List.find?_some hj
    simp only [Bool.and_eq_true, decide_eq_true_eq, hmatch j hi] at hsat
    exact ⟨hi, Ne.symm hself, Or.inl ⟨rfl, hsat.2, hsat.1⟩⟩
  · rename_i hnone
    obtain ⟨j, hj, heq⟩ := Option.map_eq_some_iff.mp h
    obtain ⟨rfl, rfl⟩ := Prod.mk.inj heq
    have hfree := List.find?_some hj
    refine ⟨List.mem_of_find?_eq_some hj, Ne.symm hself,
      Or.inr ⟨rfl, of_decide_eq_true hfree, fun hmem => ?_⟩⟩
    obtain ⟨i, hi, hlive, hip⟩ := mem_liveAddresses.mp hmem
    have hfalse := List.find?_eq_none.mp hnone i hi
    simp only [Bool.and_eq_true, decide_eq_true_eq, hmatch i hi, not_and] at hfalse
    exact hfalse hip hlive

theorem populate_eq_fill {N : NodeInfo} {ip_ad : Text} {rcv_msg : Mem} {M : Memory} {i : Nat}
    {ws : List Write} (h : chosenSlot N ip_ad rcv_msg M = some (i, ws)) :
    populate_new_client N ip_ad rcv_msg M = fillSlot N (my_ip_address N M) i ws := by
  unfold populate_new_client
  rw [h]

theorem populate_eq_own {N : NodeInfo} {ip_ad : Text} {rcv_msg : Mem} {M : Memory}
    (h : chosenSlot N ip_ad rcv_msg M = none) :
    populate_new_client N ip_ad rcv_msg M = some (my_ip_address N M) := by
  unfold populate_new_client
  rw [h]

theorem agedCount_new (n : Int) : agedCount true n = n := if_neg (by simp)

theorem agedCount_tick (n : Int) : agedCount false n = if 0 < n then n - 1 else n := by
  simp [agedCount]

section Announcing

variable {N : NodeInfo} {sin_addr : InAddr} {datagram : List UInt8} {M M' : Memory} {i : Nat}
  {ws : List Write}

theorem populate_entered (hN : VersionsFit N) (hends : ∀ i ∈ slots, EndsAt M.client_list i)
    (hslot : chosenSlot N (inet_ntoa sin_addr) (received datagram) M = some (i, ws))
    (hstep : populate_new_client N (inet_ntoa sin_addr) (received datagram) M = some M') :
    Entered M.client_list M'.client_list i (inet_ntoa sin_addr) ∧
      ageOf M'.client_list i = AGE_COUNT ∧
      Shows M' (N.ownIp :: liveAddresses M'.client_list) := by
  obtain ⟨hi, -, hcases⟩ := chosenSlot_some hends hslot
  rw [populate_eq_fill hslot] at hstep
  simp only [fillSlot, my_ip_address, Option.bind_eq_bind, Option.bind_eq_some_iff] at hstep
  obtain ⟨list, hprint, hage⟩ := hstep
  have hlist : Entered M.client_list list i (inet_ntoa sin_addr) := by
    rcases hcases with ⟨rfl, -, hip⟩ | ⟨rfl, -, -⟩
    · exact hip ▸ refresh_entered (hends i hi) hprint
    · exact insert_entered hprint
  have hset := setAge_sameIp list i
  have hends' : ∀ j ∈ slots, EndsAt (setAge list i AGE_COUNT) j := by
    intro j hj
    rw [(hset j _).endsAt]
    by_cases hji : j = i
    · exact hji ▸ hlist.ends
    · exact (hlist.same_ip j hji).endsAt.mpr (hends j hj)
  obtain ⟨hip, hages, hshow⟩ := age_client_list_peers hN hends' hage
  have hsame := fun j => (hset j AGE_COUNT).trans (hip j)
  refine ⟨⟨(hsame i).endsAt.mpr hlist.ends, (hsame i).ipOf_eq.trans hlist.ip_eq,
    fun j hne => (hlist.same_ip j hne).trans (hsame j), fun j hj hne => ?_⟩, ?_, hshow⟩
  · rw [hages j hj, agedCount_new, ageOf_setAge_of_ne list hne, hlist.same_age j hj hne]
  · rw [hages i hi, agedCount_new]
    exact intAt_store list (ageAt i) (by decide) (by decide)

end Announcing

/-! ### What holds of the slots in every run -/

/-- Addresses end inside their member, ages lie in `0..3`, no two slots that count share an
address, and the valid list shows the node and these slots. -/
structure Presence (M : Memory) : Prop where
  ends : ∀ i ∈ slots, EndsAt M.client_list i
  ages : ∀ i ∈ slots, 0 ≤ ageOf M.client_list i ∧ ageOf M.client_list i ≤ AGE_COUNT
  distinct : ∀ i ∈ slots, ∀ j ∈ slots, 0 < ageOf M.client_list i → 0 < ageOf M.client_list j →
    ipOf M.client_list i = ipOf M.client_list j → i = j
  shows : ∃ own, Shows M (own :: liveAddresses M.client_list)

theorem Presence.liveAddresses_nodup {M : Memory} (h : Presence M) :
    (liveAddresses M.client_list).Nodup := by
  refine List.Nodup.map_on (fun i hi j hj heq => ?_) (slots_nodup.filter _)
  obtain ⟨hi, hil⟩ := List.mem_filter.mp hi
  obtain ⟨hj, hjl⟩ := List.mem_filter.mp hj
  exact h.distinct i hi j hj (of_decide_eq_true hil) (of_decide_eq_true hjl) heq

theorem liveAddresses_length_lt (list : Mem) : (liveAddresses list).length < MAX_NUM_ENTRY := by
  rw [liveAddresses, List.length_map]
  exact Nat.lt_of_le_of_lt (List.length_filter_le _ slots) (by decide)

theorem Presence.tick {N : NodeInfo} (hN : VersionsFit N) {M M' : Memory} (h : Presence M)
    (hage : age_client_list N false M = some M') : Presence M' := by
  obtain ⟨hip, hages, hshow⟩ := age_client_list_peers hN h.ends hage
  have hwas : ∀ i ∈ slots, 0 < ageOf M'.client_list i → 0 < ageOf M.client_list i := by
    intro i hi hpos
    rw [hages i hi, agedCount_tick] at hpos
    split at hpos
    · omega
    · exact hpos
  refine ⟨fun i hi => (hip i).endsAt.mpr (h.ends i hi), fun i hi => ?_,
    fun i hi j hj hil hjl heq => ?_, ⟨N.ownIp, hshow⟩⟩
  · have hold := h.ages i hi
    rw [hages i hi, agedCount_tick]
    split
    · omega
    · exact hold
  · rw [(hip i).ipOf_eq, (hip j).ipOf_eq] at heq
    exact h.distinct i hi j hj (hwas i hi hil) (hwas j hj hjl) heq

section Announcing

variable {N : NodeInfo} {sin_addr : InAddr} {datagram : List UInt8} {M M' : Memory} {i : Nat}
  {ws : List Write}

/-- A slot other than the one that was filled holds another address. -/
theorem Presence.other_ne (h : Presence M)
    (hslot : chosenSlot N (inet_ntoa sin_addr) (received datagram) M = some (i, ws)) {j : Nat}
    (hj : j ∈ slots) (hne : j ≠ i) (hlive : 0 < ageOf M.client_list j) :
    ipOf M.client_list j ≠ inet_ntoa sin_addr := by
  obtain ⟨hi, -, ⟨-, hil, hip⟩ | ⟨-, -, hfresh⟩⟩ := chosenSlot_some h.ends hslot
  · intro heq
    exact hne (h.distinct j hj i hi hlive hil (heq.trans hip.symm))
  · intro heq
    exact hfresh (mem_liveAddresses.mpr ⟨j, hj, hlive, heq⟩)

theorem Presence.announced (hN : VersionsFit N) (h : Presence M)
    (hstep : populate_new_client N (inet_ntoa sin_addr) (received datagram) M = some M') :
    Presence M' := by
  cases hslot : chosenSlot N (inet_ntoa sin_addr) (received datagram) M with
  | none =>
    rw [populate_eq_own hslot] at hstep
    obtain rfl := Option.some.inj hstep
    obtain ⟨own, hshow⟩ := h.shows
    exact ⟨h.ends, h.ages, h.distinct, ⟨N.ownIp, my_ip_address_shows hshow⟩⟩
  | some chosen =>
    obtain ⟨i, ws⟩ := chosen
    obtain ⟨hent, hage, hshow⟩ := populate_entered hN h.ends hslot hstep
    have hapart : ∀ j ∈ slots, j ≠ i → 0 < ageOf M'.client_list j →
        ipOf M'.client_list j ≠ inet_ntoa sin_addr := by
      intro j hj hne hlive
      rw [hent.same_age j hj hne] at hlive
      rw [(hent.same_ip j hne).ipOf_eq]
      exact h.other_ne hslot hj hne hlive
    refine ⟨fun j hj => ?_, fun j hj => ?_, fun j hj k hk hjl hkl heq => ?_, ⟨N.ownIp, hshow⟩⟩
    · by_cases hji : j = i
      · exact hji ▸ hent.ends
      · exact (hent.same_ip j hji).endsAt.mpr (h.ends j hj)
    · by_cases hji : j = i
      · rw [hji, hage]
        decide
      · rw [hent.same_age j hj hji]
        exact h.ages j hj
    · by_cases hji : j = i <;> by_cases hki : k = i
      · rw [hji, hki]
      · rw [hji, hent.ip_eq] at heq
        exact absurd heq.symm (hapart k hk hki hkl)
      · rw [hki, hent.ip_eq] at heq
        exact absurd heq (hapart j hj hji hjl)
      · rw [(hent.same_ip j hji).ipOf_eq, (hent.same_ip k hki).ipOf_eq] at heq
        rw [hent.same_age j hj hji] at hjl
        rw [hent.same_age k hk hki] at hkl
        exact h.distinct j hj k hk hjl hkl heq

end Announcing

theorem ageOf_emptyMemory {i : Nat} (hi : i ∈ slots) : ageOf emptyMemory.client_list i = 0 := by
  have hpos := (mem_slots.mp hi).1
  have hzero : ageOf emptyMemory.client_list i = ageOf zeroed i := by
    refine intAt_congr fun k hk => storeText_of_outside zeroed _ (Or.inr ?_)
    have hlen : (ascii "10.10.100.254").length = 13 := by decide
    rw [hlen]
    simp only [memberAt, ageAt, offset, ENTRY_SIZE, AGE_OFFSET]
    omega
  rw [hzero]
  rfl

theorem server_start_presence {N : NodeInfo} (hN : VersionsFit N) {M : Memory}
    (h : server_start N = some M) :
    Presence M ∧ liveAddresses M.client_list = [] ∧ Shows M [N.ownIp] := by
  have hends : ∀ i ∈ slots, EndsAt emptyMemory.client_list i := by
    intro i hi
    exact (emptyMemory_represents.client_list i (mem_slots.mp hi).2).ends .ip_addr
  obtain ⟨hip, hages, hshow⟩ := age_client_list_peers hN hends h
  have hdead : ∀ i ∈ slots, ageOf M.client_list i = 0 := by
    intro i hi
    rw [hages i hi, agedCount_new, ageOf_emptyMemory hi]
  have hnone : liveAddresses M.client_list = [] := by
    rw [liveAddresses, List.map_eq_nil_iff, List.filter_eq_nil_iff]
    intro i hi
    rw [hdead i hi]
    decide
  refine ⟨⟨fun i hi => (hip i).endsAt.mpr (hends i hi), fun i hi => ?_,
    fun i hi _ _ hil => ?_, ⟨N.ownIp, hshow⟩⟩, hnone, hnone ▸ hshow⟩
  · rw [hdead i hi]
    decide
  · rw [hdead i hi] at hil
    exact absurd hil (by decide)

end AksFirmware.PeerMemory
