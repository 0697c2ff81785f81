import AksFirmware.PeerMemory

/-!
# The bytes hold the records

`PeerTable` keeps the peers as records of texts, `PeerMemory` keeps the bytes of
`client_list` and `client_valid_list`.  Whenever the records have an outcome, the bytes
have one too and still hold the records, so what is proved of the table over whole runs
is true of the arrays.

The records have no outcome where a text does not fit its member.  There the bytes go
their own way, and `PeerMemory.stores_cleanly_iff` says when that happens.
-/

namespace AksFirmware.PeerMemory

open ByteMemory CText WebConfig PeerTable

/-! ### One entry -/

/-- Slot `i` of an array holds a record: every member ends inside its array and has the
record's text. -/
structure Holds (list : Mem) (i : Nat) (e : ClientEnt) : Prop where
  ends : ∀ m : Member, Terminated list (memberAt i m) m.size
  text_eq : ∀ m : Member, text list (memberAt i m) m.size = e.member m
  age_eq : ageOf list i = e.age_cnt

/-- The same bytes hold the same record, wherever they stand. -/
theorem Holds.of_bytes {list list' : Mem} {i j : Nat} {e : ClientEnt} (h : Holds list i e)
    (hbytes : ∀ k < ENTRY_SIZE, list' (ENTRY_SIZE * j + k) = list (ENTRY_SIZE * i + k)) :
    Holds list' j e := by
  have hmember : ∀ (m : Member) (k : Nat), k < m.size →
      list' (memberAt j m + k) = list (memberAt i m + k) := by
    intro m k hk
    have hend := member_end_le m
    simp only [memberAt, Nat.add_assoc]
    exact hbytes (offset m + k) (by simp only [ENTRY_SIZE, AGE_OFFSET] at *; omega)
  refine ⟨fun m => ?_, fun m => ?_, ?_⟩
  · exact (terminated_congr (hmember m)).mpr (h.ends m)
  · rw [text_congr (hmember m)]
    exact h.text_eq m
  · rw [← h.age_eq]
    apply intAt_congr
    intro k hk
    simp only [ageAt, Nat.add_assoc]
    exact hbytes (AGE_OFFSET + k) (by simp only [ENTRY_SIZE, AGE_OFFSET]; omega)

theorem Holds.printed {list : Mem} {i : Nat} {e : ClientEnt} (h : Holds list i e) {m : Member}
    {s : Text} (hlen : s.length < m.size) (hs : (0 : UInt8) ∉ s) :
    Holds (storeText list (memberAt i m) s) i (e.set m s hlen) := by
  have hother : ∀ m', m' ≠ m → ∀ k < m'.size,
      storeText list (memberAt i m) s (memberAt i m' + k) = list (memberAt i m' + k) :=
    fun m' hne k hk => storeText_frame hne list hlen (by omega) (by omega)
  refine ⟨fun m' => ?_, fun m' => ?_, ?_⟩
  · by_cases hm : m' = m
    · subst hm
      exact terminated_storeText list hlen
    · exact (terminated_congr (hother m' hm)).mpr (h.ends m')
  · by_cases hm : m' = m
    · subst hm
      simpa using text_storeText list hs hlen
    · rw [text_congr (hother m' hm), h.text_eq m', ClientEnt.set_member,
        Function.update_of_ne hm]
  · rw [ClientEnt.set_age_cnt, ← h.age_eq]
    have hend := memberAt_end_le i m
    exact intAt_congr fun k hk => storeText_of_outside list s (by omega)

theorem Holds.withAge {list : Mem} {i : Nat} {e : ClientEnt} (h : Holds list i e) {n : Int}
    (h0 : 0 ≤ n) (h1 : n < 2147483648) : Holds (setAge list i n) i { e with age_cnt := n } := by
  have hmember : ∀ (m : Member) (k : Nat), k < m.size →
      setAge list i n (memberAt i m + k) = list (memberAt i m + k) := by
    intro m k hk
    have hend := memberAt_end_le i m
    exact store_of_outside list _ (by omega)
  refine ⟨fun m => ?_, fun m => ?_, intAt_store list (ageAt i) h0 h1⟩
  · exact (terminated_congr (hmember m)).mpr (h.ends m)
  · rw [text_congr (hmember m)]
    exact h.text_eq m

/-- Reading a member without regard to its size gives the record's text. -/
theorem Holds.textOf_eq {list : Mem} {i : Nat} (hi : i < MAX_NUM_ENTRY) {e : ClientEnt}
    (h : Holds list i e) (m : Member) : textOf list i m = e.member m := by
  have hend := memberAt_end_le i m
  have hlast := ageAt_lt hi
  rw [textOf, (h.ends m).text_eq_of_le (by omega)]
  exact h.text_eq m

theorem ageOf_lt (list : Mem) (i : Nat) : ageOf list i < 2147483648 := by
  have h0 := (list (ageAt i)).toNat_lt
  have h1 := (list (ageAt i + 1)).toNat_lt
  have h2 := (list (ageAt i + 2)).toNat_lt
  have h3 := (list (ageAt i + 3)).toNat_lt
  simp only [ageOf, intAt]
  split <;> omega

/-! ### One array -/

def Rows (list : Mem) (entries : Nat → ClientEnt) : Prop :=
  ∀ i < MAX_NUM_ENTRY, Holds list i (entries i)

def SameOutside (i : Nat) (list list' : Mem) : Prop :=
  ∀ x, x < ENTRY_SIZE * i ∨ ENTRY_SIZE * (i + 1) ≤ x → list' x = list x

theorem Rows.update {list list' : Mem} {entries : Nat → ClientEnt} (h : Rows list entries)
    {i : Nat} {e : ClientEnt} (he : Holds list' i e) (hframe : SameOutside i list list') :
    Rows list' (Function.update entries i e) := by
  intro j hj
  by_cases hji : j = i
  · subst hji
    rwa [Function.update_self]
  · rw [Function.update_of_ne hji]
    refine (h j hj).of_bytes fun k hk => hframe _ ?_
    simp only [ENTRY_SIZE] at *
    omega

theorem print_sameOutside (list : Mem) (i : Nat) {m : Member} {s : Text}
    (hlen : s.length < m.size) : SameOutside i list (storeText list (memberAt i m) s) := by
  intro x hx
  have hend := member_end_le m
  refine storeText_of_outside list s ?_
  simp only [memberAt, ENTRY_SIZE, AGE_OFFSET] at *
  omega

theorem setAge_sameOutside (list : Mem) (i : Nat) (n : Int) :
    SameOutside i list (setAge list i n) := by
  intro x hx
  have hlen := intBytes_length n
  refine store_of_outside list _ ?_
  simp only [ageAt, ENTRY_SIZE, AGE_OFFSET] at *
  omega

theorem Rows.printed {list : Mem} {entries : Nat → ClientEnt} (h : Rows list entries) {i : Nat}
    (hi : i < MAX_NUM_ENTRY) {m : Member} {s : Text} (hlen : s.length < m.size)
    (hs : (0 : UInt8) ∉ s) :
    Rows (storeText list (memberAt i m) s)
      (Function.update entries i ((entries i).set m s hlen)) :=
  h.update ((h i hi).printed hlen hs) (print_sameOutside list i hlen)

theorem Rows.withAge {list : Mem} {entries : Nat → ClientEnt} (h : Rows list entries) {i : Nat}
    (hi : i < MAX_NUM_ENTRY) {n : Int} (h0 : 0 ≤ n) (h1 : n < 2147483648) :
    Rows (setAge list i n) (Function.update entries i { entries i with age_cnt := n }) :=
  h.update ((h i hi).withAge h0 h1) (setAge_sameOutside list i n)

/-- The assignment of an entry, also beyond the end of the array. -/
theorem Rows.copied {list src : Mem} {entries : Nat → ClientEnt} (h : Rows list entries)
    {i : Nat} {e : ClientEnt} (he : Holds src i e) (j : Nat) :
    Rows (copyEntry list j src i) (Function.update entries j e) := by
  refine h.update (he.of_bytes fun k hk => ?_) fun x hx => ?_
  · rw [copyEntry, store_load_eq, if_pos (by omega), Nat.add_sub_cancel_left]
  · rw [copyEntry, store_load_eq, if_neg (by simp only [ENTRY_SIZE] at *; omega)]

/-- The writes to a slot that have an outcome on the record have the same one on the bytes. -/
theorem Rows.allPrinted {list : Mem} {entries : Nat → ClientEnt} (h : Rows list entries) {i : Nat}
    (hi : i < MAX_NUM_ENTRY) {ws : List Write}
    (hclean : ∀ w ∈ ws, ∀ s, w.2 = some s → (0 : UInt8) ∉ s) {e : ClientEnt}
    (hput : (entries i).putAll ws = some e) :
    ∃ list', printAll list i ws = some list' ∧ Rows list' (Function.update entries i e) := by
  induction ws generalizing list entries with
  | nil =>
    obtain rfl := Option.some.inj hput
    exact ⟨list, rfl, (Function.update_eq_self i entries).symm ▸ h⟩
  | cons w ws ih =>
    obtain ⟨e₁, hfirst, hrest⟩ := ClientEnt.putAll_cons.mp hput
    obtain ⟨s, hlen, hs, rfl⟩ := ClientEnt.put_eq_some.mp hfirst
    have hroom : memberAt i w.1 + s.length < LIST_SIZE := by
      have hend := memberAt_end_le i w.1
      have hlast := ageAt_lt hi
      omega
    have hrows := h.printed hi hlen (hclean w List.mem_cons_self s hs)
    obtain ⟨list', hprint, hrows'⟩ := ih hrows
      (fun w' hw' => hclean w' (List.mem_cons_of_mem w hw')) (by rwa [Function.update_self])
    rw [Function.update_idem] at hrows'
    exact ⟨list', printAll_cons.mpr ⟨_, printMember_eq_some.mpr ⟨s, hs, hroom, rfl⟩, hprint⟩,
      hrows'⟩

/-! ### Both arrays -/

structure Represents (t : Table) (M : Memory) : Prop where
  client_list : Rows M.client_list t.client_list
  client_valid_list : Rows M.client_valid_list t.client_valid_list
  client_valid_num : M.client_valid_num = t.client_valid_num
  this_node_ip_address : M.this_node_ip_address = t.this_node_ip_address

theorem save_represents {t : Table} {M : Memory} (h : Represents t M) {i : Nat}
    (hi : i < MAX_NUM_ENTRY) :
    Represents (PeerTable.save_valid_client_entry t i) (save_valid_client_entry M i) := by
  refine ⟨h.client_list, ?_, congrArg (· + 1) h.client_valid_num, h.this_node_ip_address⟩
  simp only [save_valid_client_entry, h.client_valid_num]
  exact h.client_valid_list.copied (h.client_list i hi) t.client_valid_num

theorem ageSlot_represents {t : Table} {M : Memory} (h : Represents t M) (new : Bool) {i : Nat}
    (hi : i < MAX_NUM_ENTRY) : Represents (PeerTable.ageSlot new t i) (ageSlot new M i) := by
  have hage := (h.client_list i hi).age_eq
  have hlt := ageOf_lt M.client_list i
  simp only [ageSlot, PeerTable.ageSlot, hage]
  by_cases hpos : (t.client_list i).age_cnt > 0
  · rw [if_pos hpos, if_pos hpos]
    cases new with
    | true => exact save_represents h hi
    | false =>
      have hset : Represents
          (t.setEntry i { t.client_list i with age_cnt := (t.client_list i).age_cnt - 1 })
          { M with client_list := setAge M.client_list i ((t.client_list i).age_cnt - 1) } :=
        ⟨h.client_list.withAge hi (by omega) (by omega), h.client_valid_list, h.client_valid_num,
          h.this_node_ip_address⟩
      by_cases hleft : (t.client_list i).age_cnt - 1 > 0
      · simpa only [Bool.false_eq_true, if_false, if_pos hleft] using save_represents hset hi
      · simpa only [Bool.false_eq_true, if_false, if_neg hleft] using hset
  · rw [if_neg hpos, if_neg hpos]
    exact h

theorem ageLoop_represents {t : Table} {M : Memory} (h : Represents t M) (new : Bool)
    {is : List Nat} (his : ∀ i ∈ is, i < MAX_NUM_ENTRY) :
    Represents (is.foldl (PeerTable.ageSlot new) t) (is.foldl (ageSlot new) M) := by
  induction is generalizing t M with
  | nil => exact h
  | cons i is ih =>
    exact ih (ageSlot_represents h new (his i List.mem_cons_self))
      fun j hj => his j (List.mem_cons_of_mem i hj)

/-! ### The node's own texts -/

/-- What the node reports about itself are texts: no character of them is zero. -/
structure CleanNode (N : NodeInfo) : Prop where
  battery_info : (0 : UInt8) ∉ N.battery_info
  eCos_ver : (0 : UInt8) ∉ N.eCos_ver
  samd_ver : (0 : UInt8) ∉ N.samd_ver
  timo_ver : (0 : UInt8) ∉ N.timo_ver

theorem ownWrites_clean {N : NodeInfo} (hN : CleanNode N) (n : Nat) :
    ∀ w ∈ N.ownWrites n, ∀ s, w.2 = some s → (0 : UInt8) ∉ s := by
  have hget : ∀ id s, N.configText n id = some s → (0 : UInt8) ∉ s := by
    intro id s hs
    simp only [NodeInfo.configText, Option.ite_none_right_eq_some, Option.some.injEq] at hs
    exact hs.2 ▸ zero_notMem_ratpac_get_str _ _
  have hformat : ∀ id s, (N.configText n id).bind printf = some s → (0 : UInt8) ∉ s := by
    intro id s hs
    obtain ⟨fmt, hfmt, hs⟩ := Option.bind_eq_some_iff.mp hs
    exact zero_notMem_printf (hget id fmt hfmt) hs
  intro w hw s hs
  simp only [NodeInfo.ownWrites, List.mem_cons, List.not_mem_nil, or_false] at hw
  rcases hw with rfl | rfl | rfl | rfl | rfl | rfl | rfl | rfl | rfl | rfl | rfl | rfl
  · exact hget _ s hs
  iterate 7 exact hformat _ s hs
  · exact Option.some.inj hs ▸ hN.eCos_ver
  · exact Option.some.inj hs ▸ hN.samd_ver
  · exact Option.some.inj hs ▸ hN.timo_ver
  · exact Option.some.inj hs ▸ zero_notMem_decimal N.operation_mode

theorem zero_notMem_ownIp (N : NodeInfo) : (0 : UInt8) ∉ N.ownIp :=
  N.ownIp_eq ▸ zero_notMem_inet_ntoa N.ipAddress

/-! ### The routines agree -/

section Routines

variable {N : NodeInfo} {t t' : Table} {M : Memory}

theorem refreshOwn_represents (h : Represents t M) (hN : CleanNode N)
    (hown : PeerTable.refreshOwn N t = some t') :
    ∃ M', refreshOwn N M = some M' ∧ Represents t' M' := by
  have h0 : 0 < MAX_NUM_ENTRY := by decide
  simp only [PeerTable.refreshOwn, Option.bind_eq_bind, Option.bind_eq_some_iff] at hown
  obtain ⟨e, hput, hsome⟩ := hown
  obtain rfl := Option.some.inj hsome
  obtain ⟨list, hprint, hrows⟩ := h.client_list.allPrinted h0 (ownWrites_clean hN _) hput
  have hlist := hrows.withAge h0 (n := 3) (by decide) (by decide)
  rw [Function.update_idem, Function.update_self] at hlist
  have hshown := ((h.client_valid_list.copied (hlist 0 h0) 0).printed h0 N.battery_fits
    (zero_notMem_clip hN.battery_info 7)).printed h0 N.ownIp_fits (zero_notMem_ownIp N)
  simp only [Function.update_idem, Function.update_self] at hshown
  rw [refreshOwn, h.client_valid_num, hprint]
  exact ⟨_, rfl, ⟨hlist, hshown, rfl, rfl⟩⟩

theorem age_client_list_represents (h : Represents t M) (hN : CleanNode N) {new : Bool}
    (hage : PeerTable.age_client_list N new t = some t') :
    ∃ M', age_client_list N new M = some M' ∧ Represents t' M' := by
  obtain ⟨t₀, hown, rfl⟩ := Option.map_eq_some_iff.mp hage
  obtain ⟨M₀, hown', h₀⟩ := refreshOwn_represents h hN hown
  refine ⟨_, Option.map_eq_some_iff.mpr ⟨M₀, hown', rfl⟩, ?_⟩
  exact ageLoop_represents h₀ new fun i hi => (mem_slots.mp hi).2

theorem my_ip_address_represents (h : Represents t M) :
    Represents (PeerTable.my_ip_address N t) (my_ip_address N M) :=
  ⟨h.client_list,
    h.client_valid_list.printed (by decide) N.ownIp_fits (zero_notMem_ownIp N),
    h.client_valid_num, h.this_node_ip_address⟩

theorem fillSlot_represents (h : Represents t M) (hN : CleanNode N) {i : Nat} (hi : i ∈ slots)
    {ws : List Write} (hclean : ∀ w ∈ ws, ∀ s, w.2 = some s → (0 : UInt8) ∉ s)
    (hfill : PeerTable.fillSlot N t i ws = some t') :
    ∃ M', fillSlot N M i ws = some M' ∧ Represents t' M' := by
  have hlt := (mem_slots.mp hi).2
  simp only [PeerTable.fillSlot, Option.bind_eq_bind, Option.bind_eq_some_iff] at hfill
  obtain ⟨e, hput, hage⟩ := hfill
  obtain ⟨list, hprint, hrows⟩ := h.client_list.allPrinted hlt hclean hput
  have hlist := hrows.withAge hlt (n := AGE_COUNT) (by decide) (by decide)
  rw [Function.update_idem, Function.update_self] at hlist
  have hset : Represents (t.setEntry i { e with age_cnt := AGE_COUNT })
      { M with client_list := setAge list i AGE_COUNT } :=
    ⟨hlist, h.client_valid_list, h.client_valid_num, h.this_node_ip_address⟩
  obtain ⟨M', hage', h'⟩ := age_client_list_represents hset hN hage
  refine ⟨M', ?_, h'⟩
  simp only [fillSlot, hprint, Option.bind_eq_bind, Option.bind_some, hage']

/-- Both look through the slots and find the same one. -/
theorem find_slot_eq {p q : Nat → Bool} (hpq : ∀ i < MAX_NUM_ENTRY, p i = q i) :
    slots.find? p = slots.find? q := by
  rw [← List.head?_filter, ← List.head?_filter,
    List.filter_congr fun i hi => hpq i (mem_slots.mp hi).2]

theorem populate_represents (h : Represents t M) (hN : CleanNode N) {sin_addr : InAddr}
    {rcv_msg : Mem}
    (hstep : PeerTable.populate_new_client N (inet_ntoa sin_addr) rcv_msg t = some t') :
    ∃ M', populate_new_client N (inet_ntoa sin_addr) rcv_msg M = some M' ∧ Represents t' M' := by
  have hmine := my_ip_address_represents (N := N) h
  have hown := (hmine.client_valid_list 0 (by decide)).textOf_eq (by decide) .ip_addr
  have hlisted : (slots.find? fun i =>
      strcmp ((PeerTable.my_ip_address N t).ip i) (inet_ntoa sin_addr) = 0 &&
        (PeerTable.my_ip_address N t).live i) = slots.find? fun i =>
      strcmp (textOf (my_ip_address N M).client_list i .ip_addr) (inet_ntoa sin_addr) = 0 &&
        ageOf (my_ip_address N M).client_list i > 0 := by
    apply find_slot_eq
    intro i hi
    have hrow := hmine.client_list i hi
    rw [Table.ip, Table.live, hrow.textOf_eq hi, hrow.age_eq]
  have hfree : (slots.find? fun i => ((PeerTable.my_ip_address N t).client_list i).age_cnt = 0) =
      slots.find? fun i => ageOf (my_ip_address N M).client_list i = 0 := by
    apply find_slot_eq
    intro i hi
    simp only [(hmine.client_list i hi).age_eq]
  simp only [PeerTable.populate_new_client, hlisted, hfree] at hstep
  unfold populate_new_client
  split at hstep
  · rename_i hself
    obtain rfl := Option.some.inj hstep
    have hslot : chosenSlot N (inet_ntoa sin_addr) rcv_msg M = none := by
      rw [chosenSlot, hown, if_pos hself]
    rw [hslot]
    exact ⟨_, rfl, hmine⟩
  rename_i hself
  split at hstep
  · rename_i i hi
    have hslot : chosenSlot N (inet_ntoa sin_addr) rcv_msg M =
        some (i, refreshWrites rcv_msg) := by
      rw [chosenSlot, hown, if_neg hself, hi]
    rw [hslot]
    exact fillSlot_represents hmine hN (List.mem_of_find?_eq_some hi)
      (refreshWrites_clean rcv_msg) hstep
  rename_i hnone
  have hslot : chosenSlot N (inet_ntoa sin_addr) rcv_msg M =
      (slots.find? fun i => ageOf (my_ip_address N M).client_list i = 0).map fun i =>
        (i, insertWrites (inet_ntoa sin_addr) rcv_msg) := by
    rw [chosenSlot, hown, if_neg hself, hnone]
  rw [hslot]
  split at hstep
  · rename_i i hi
    rw [hi]
    exact fillSlot_represents hmine hN (List.mem_of_find?_eq_some hi)
      (insertWrites_clean sin_addr rcv_msg) hstep
  · rename_i hfull
    obtain rfl := Option.some.inj hstep
    rw [hfull]
    exact ⟨_, rfl, hmine⟩

end Routines

/-! ### Runs -/

def step (M : Memory) : Event → Option Memory
  | .announce N sin_addr rcv_msg => populate_new_client N (inet_ntoa sin_addr) rcv_msg M
  | .tick N => age_client_list N false M

/-- The memory when `server_thread_main` enters its loop. -/
def server_start (N : NodeInfo) : Option Memory := age_client_list N true emptyMemory

def CleanEvent : Event → Prop
  | .announce N _ _ => CleanNode N
  | .tick N => CleanNode N

theorem step_represents {t t' : Table} {M : Memory} {e : Event} (he : CleanEvent e)
    (h : Represents t M) (hstep : PeerTable.step t e = some t') :
    ∃ M', step M e = some M' ∧ Represents t' M' := by
  cases e with
  | announce N sin_addr rcv_msg =>
    rw [PeerTable.step] at hstep
    rw [step]
    exact populate_represents h he hstep
  | tick N =>
    rw [PeerTable.step] at hstep
    exact age_client_list_represents h he hstep

theorem emptyMemory_represents : Represents emptyTable emptyMemory := by
  have hzero : Rows zeroed fun _ => .blank := by
    intro i _
    have hsize : ∀ m : Member, 1 ≤ m.size := by
      intro m
      cases m <;> decide
    refine ⟨fun m => ⟨0, hsize m, rfl⟩, fun m => ?_, rfl⟩
    have hfirst : Terminated zeroed (memberAt i m) 1 := ⟨0, Nat.one_pos, rfl⟩
    rw [hfirst.text_eq_of_le (hsize m)]
    exact List.eq_nil_of_length_eq_zero (Nat.lt_one_iff.mp hfirst.text_length_lt)
  exact ⟨hzero.printed (by decide) _ (by decide), hzero, rfl, rfl⟩

/-- **The records are the bytes.**  A run of the table from the start is a run of the
arrays, which hold the table in the end. -/
theorem run_represents {N : NodeInfo} (hN : CleanNode N) {events : List Event}
    (hevents : ∀ e ∈ events, CleanEvent e) {t₀ t : Table}
    (hstart : PeerTable.server_start N = some t₀)
    (hrun : Runs.exec PeerTable.step t₀ events = some t) :
    ∃ M₀ M, server_start N = some M₀ ∧ Runs.exec step M₀ events = some M ∧ Represents t M := by
  obtain ⟨M₀, hstart', h₀⟩ := age_client_list_represents emptyMemory_represents hN hstart
  have next : ∀ t t' M e, CleanEvent e → Represents t M → PeerTable.step t e = some t' →
      ∃ M', step M e = some M' ∧ Represents t' M' := fun _ _ _ _ => step_represents
  obtain ⟨M, hrun', h⟩ := Runs.exec_simulates Represents next hevents h₀ hrun
  exact ⟨M₀, M, hstart', hrun', h⟩

/-- As long as every text fits, the arrays hold a sound table. -/
theorem memory_runs_sound {N : NodeInfo} (hN : CleanNode N) (hfits : N.Fits)
    {events : List Event} (hevents : ∀ e ∈ events, CleanEvent e ∧ e.Fits) :
    ∃ M₀ M t₀ t, server_start N = some M₀ ∧ Runs.exec step M₀ events = some M ∧
      Represents t M ∧ PeerTable.Sound t₀ events t := by
  obtain ⟨t₀, t, hstart, hrun⟩ := server_run_defined hfits fun e he => (hevents e he).2
  obtain ⟨M₀, M, hstart', hrun', h⟩ :=
    run_represents hN (fun e he => (hevents e he).1) hstart hrun
  exact ⟨M₀, M, t₀, t, hstart', hrun', h, run_sound hstart hrun⟩

end AksFirmware.PeerMemory
