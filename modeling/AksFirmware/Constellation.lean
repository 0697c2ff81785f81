import AksFirmware.PeerTable
import Mathlib.Data.List.Perm.Subperm

/-!
# The constellation page

The page asks for `CFG_AKS_CONS1` to `CFG_AKS_CONS24` one after the other.  The first
request sorts pointers to the entries of the valid list into `sort_array`; every request
then prints the entry behind one of these pointers, as long as its index is below
`client_valid_num`.

The index is computed from the configuration id, and the ids lie in two ranges, so the
rows from the seventeenth on are never printed.  And the server thread goes on changing
the valid list while the page is printed.
-/

namespace AksFirmware.Constellation

open ByteMemory CText WebConfig PeerTable

/-! ### Sorting -/

/-- The comparison of `sort_client_list` under a sort key; none for an unknown key. -/
def compareBy (key : UInt8) : Option (ClientEnt → ClientEnt → Int) :=
  if key = 0x30 then some fun a b => strcmp (a.member .node_name) (b.member .node_name)
  else if key = 0x31 then some fun a b => strcmp (a.member .ip_addr) (b.member .ip_addr)
  else if key = 0x32 then some fun a b => strcmp (a.member .baterry) (b.member .baterry)
  else if key = 0x33 then some fun a b =>
    strcmp (a.member .subnet ++ a.member .universe) (b.member .subnet ++ b.member .universe)
  else if key = 0x34 then some fun a b => strcmp (a.member .sacn_univ) (b.member .sacn_univ)
  else none

/-- The texts `str1` and `str2` of the third key fit their eight bytes. -/
theorem sort_text_fits (e : ClientEnt) : (e.member .subnet ++ e.member .universe).length < 8 := by
  have hsub := e.fits .subnet
  have huni := e.fits .universe
  simp only [Member.size] at hsub huni
  rw [List.length_append]
  omega

/-- The turns of the two nested loops. -/
def sortPairs (n : Nat) : List (Nat × Nat) :=
  (List.range n).flatMap fun i => (List.range' (i + 1) (n - (i + 1))).map fun j => (i, j)

def swap (a : Nat → Nat) (i j : Nat) : Nat → Nat :=
  Function.update (Function.update a i (a j)) j (a i)

/-- The pointers that `sort_client_list` leaves in the first `n` places, as indices of
the valid list. -/
def sortOrder (key : UInt8) (entries : Nat → ClientEnt) (n : Nat) : Nat → Nat :=
  match compareBy key with
  | none => id
  | some result =>
      (sortPairs n).foldl (fun a p =>
        if result (entries (a p.1)) (entries (a p.2)) > 0 then swap a p.1 p.2 else a) id

/-- The first `n` places hold each of the first `n` indices once. -/
structure IsOrder (n : Nat) (a : Nat → Nat) : Prop where
  lt : ∀ k < n, a k < n
  inj : ∀ j < n, ∀ k < n, a j = a k → j = k

theorem IsOrder.swap {n : Nat} {a : Nat → Nat} (h : IsOrder n a) {i j : Nat} (hi : i < n)
    (hj : j < n) : IsOrder n (swap a i j) := by
  have hval : ∀ k, Constellation.swap a i j k = a (if k = j then i else if k = i then j else k) := by
    intro k
    by_cases hkj : k = j
    · subst hkj
      simp [Constellation.swap]
    · by_cases hki : k = i
      · subst hki
        simp [Constellation.swap, hkj]
      · simp [Constellation.swap, hkj, hki]
  constructor
  · intro k hk
    rw [hval]
    exact h.lt _ (by split_ifs <;> omega)
  · intro k hk l hl heq
    rw [hval, hval] at heq
    have hidx := h.inj _ (by split_ifs <;> omega) _ (by split_ifs <;> omega) heq
    split_ifs at hidx <;> omega

theorem mem_sortPairs {n : Nat} {p : Nat × Nat} (h : p ∈ sortPairs n) : p.1 < n ∧ p.2 < n := by
  simp only [sortPairs, List.mem_flatMap, List.mem_map, List.mem_range, List.mem_range'_1] at h
  obtain ⟨i, hi, j, hj, rfl⟩ := h
  exact ⟨hi, by dsimp only; omega⟩

theorem sortOrder_isOrder (key : UInt8) (entries : Nat → ClientEnt) (n : Nat) :
    IsOrder n (sortOrder key entries n) := by
  have hid : IsOrder n id := ⟨fun _ hk => hk, fun _ _ _ _ heq => heq⟩
  have hfold : ∀ (result : ClientEnt → ClientEnt → Int) (ps : List (Nat × Nat)) (a : Nat → Nat),
      (∀ p ∈ ps, p.1 < n ∧ p.2 < n) → IsOrder n a → IsOrder n (ps.foldl (fun a p =>
        if result (entries (a p.1)) (entries (a p.2)) > 0 then swap a p.1 p.2 else a) a) := by
    intro result ps
    induction ps with
    | nil => exact fun _ _ ha => ha
    | cons p ps ih =>
      intro a hps ha
      refine ih _ (fun q hq => hps q (List.mem_cons_of_mem p hq)) ?_
      obtain ⟨h₁, h₂⟩ := hps p List.mem_cons_self
      dsimp only
      split
      · exact ha.swap h₁ h₂
      · exact ha
  unfold sortOrder
  split
  · exact hid
  · exact hfold _ _ _ (fun p hp => mem_sortPairs hp) hid

theorem IsOrder.perm {n : Nat} {a : Nat → Nat} (h : IsOrder n a) :
    ((List.range n).map a).Perm (List.range n) := by
  have hnodup : ((List.range n).map a).Nodup :=
    List.Nodup.map_on (fun j hj k hk heq =>
      h.inj j (List.mem_range.mp hj) k (List.mem_range.mp hk) heq) List.nodup_range
  have hsub : (List.range n).map a ⊆ List.range n := by
    intro x hx
    obtain ⟨k, hk, rfl⟩ := List.mem_map.mp hx
    exact List.mem_range.mpr (h.lt k (List.mem_range.mp hk))
  exact (List.subperm_of_subset hnodup hsub).perm_of_length_le (by simp)

/-! ### Rendering -/

/-- The ids `CFG_AKS_CONS1` to `CFG_AKS_CONS24`. -/
def CFG_AKS_CONS (k : Nat) : Nat :=
  CFG_USER_ (if k ≤ 16 then 7 + k else 58 + k) CFG_TYPE_STR

/-- The arguments of one `BuildDisplayMsg` call. -/
structure DisplayMsg where
  name : Text
  node_name : Text
  ip_addr : Text
  protocol : Text
  art_sub : Text
  dmxUniverse : Text
  sacn_uni : Text
  host_mode : Text
  battery : Text
  timo_power : Text
  led_color : Text
  sort_by : Text
  this_node : Text
deriving DecidableEq

/-- A printed row: the index and the pointer it was printed through, and its text. -/
structure Row where
  idx : Nat
  client_ptr : Nat
  msg : DisplayMsg
deriving DecidableEq

/-- The table, the pointers into its valid list, and the page printed so far.  `sorted`
counts the pointers that the latest call of `sort_client_list` has set. -/
structure Page where
  table : Table
  sort_array : Nat → Option Nat
  sorted : Nat
  rows : List Row

/-- `sortby[0]`, the configured sort key. -/
def sortKey (N : NodeInfo) (client_valid_num : Nat) : UInt8 :=
  (ratpac_get_str ⟨N.g_web_config, client_valid_num⟩ CFG_SORT_BY).2.headD 0

def sort_client_list (N : NodeInfo) (p : Page) : Page :=
  let n := p.table.client_valid_num
  let order := sortOrder (sortKey N n) p.table.client_valid_list n
  { p with
    sort_array := fun i => if i < n then some (order i) else p.sort_array i
    sorted := n }

/-- The pointer behind an index: `some none` when `-1` is returned, `none` when the index
is negative or a null pointer is followed. -/
def get_client_entry (p : Page) (idx : Int) : Option (Option Nat) :=
  if idx ≥ p.table.client_valid_num then some none
  else if idx < 0 then none
  else (p.sort_array idx.toNat).map some

/-- The texts that `get_client_entry` copies out, as `CGI_var_map` prints them. -/
def displayMsg (name : Text) (t : Table) (client_ptr : Nat) : DisplayMsg :=
  let e := t.client_valid_list client_ptr
  { name := name
    node_name := if (e.member .node_name).length = 0 then ascii "NoName" else e.member .node_name
    ip_addr := e.member .ip_addr
    protocol := e.member .protocol
    art_sub := e.member .subnet
    dmxUniverse := e.member .universe
    sacn_uni := e.member .sacn_univ
    host_mode := e.member .host_mode
    battery := ascii "B" ++ clip 8 (e.member .baterry ++ ascii "%")
    timo_power := e.member .crmx_power
    led_color := e.member .led_color
    sort_by := e.member .sort_by
    this_node := t.this_node_ip_address }

/-- `CGI_var_map` for the ids of the constellation page. -/
def CGI_var_map (N : NodeInfo) (name : Text) (id : Nat) (p : Page) : Option Page := do
  let p := if CFG_AKS_CONS 1 = id then sort_client_list N { p with rows := [] } else p
  let base_idx := (CFG_AKS_CONS 1 >>> 16) &&& 0xff
  let idx : Int := ((id >>> 16) &&& 0xff : Nat) - (base_idx : Int)
  match ← get_client_entry p idx with
  | none => some p
  | some client_ptr =>
      some { p with
        rows := p.rows ++ [⟨idx.toNat, client_ptr, displayMsg name p.table client_ptr⟩] }

/-- A step of the server thread, or the rendering of one row by the web thread. -/
inductive Act where
  | server (e : Event)
  | render (N : NodeInfo) (k : Nat)

def pageStep (p : Page) : Act → Option Page
  | .server e => (step p.table e).map fun t => { p with table := t }
  | .render N k => CGI_var_map N (ascii "AKS_CONS" ++ decimal k) (CFG_AKS_CONS k) p

/-! ### One request -/

/-- The index that `CGI_var_map` computes for the `k`-th id. -/
def consIdx (k : Nat) : Int :=
  ((CFG_AKS_CONS k >>> 16) &&& 0xff : Nat) - ((CFG_AKS_CONS 1 >>> 16) &&& 0xff : Nat)

/-- The ids from the seventeenth on lie in the second range. -/
theorem consIdx_eq {k : Nat} (h1 : 1 ≤ k) (h24 : k ≤ 24) :
    consIdx k = if k ≤ 16 then (k : Int) - 1 else k + 50 := by
  have hall : ∀ k < 25, 1 ≤ k → consIdx k = if k ≤ 16 then (k : Int) - 1 else k + 50 := by decide
  exact hall k (by omega) h1

def rowAt (t : Table) (k client_ptr : Nat) : Row :=
  ⟨k - 1, client_ptr, displayMsg (ascii "AKS_CONS" ++ decimal k) t client_ptr⟩

theorem render_next (N : NodeInfo) {p : Page} {k : Nat} (h2 : 2 ≤ k) (h24 : k ≤ 24)
    (hnum : p.table.client_valid_num ≤ 24) :
    pageStep p (.render N k) =
      if k ≤ 16 ∧ k ≤ p.table.client_valid_num then
        (p.sort_array (k - 1)).map fun client_ptr =>
          { p with rows := p.rows ++ [rowAt p.table k client_ptr] }
      else some p := by
  have hidx := consIdx_eq (by omega : 1 ≤ k) h24
  have hne : CFG_AKS_CONS 1 ≠ CFG_AKS_CONS k := by
    have hall : ∀ k < 25, 2 ≤ k → CFG_AKS_CONS 1 ≠ CFG_AKS_CONS k := by decide
    exact hall k (by omega) h2
  simp only [pageStep, CGI_var_map, if_neg hne]
  rw [show (((CFG_AKS_CONS k >>> 16) &&& 0xff : Nat) : Int) -
    (((CFG_AKS_CONS 1 >>> 16) &&& 0xff : Nat) : Int) = consIdx k from rfl]
  by_cases hrow : k ≤ 16 ∧ k ≤ p.table.client_valid_num
  · rw [if_pos hrow.1] at hidx
    rw [if_pos hrow, hidx, get_client_entry, if_neg (by omega), if_neg (by omega),
      show ((k : Int) - 1).toNat = k - 1 by omega]
    cases p.sort_array (k - 1) <;> rfl
  · have hpast : consIdx k ≥ p.table.client_valid_num := by
      rw [hidx]
      split <;> omega
    rw [if_neg hrow, get_client_entry, if_pos hpast]
    rfl

theorem render_first (N : NodeInfo) {p : Page} (hnum : 1 ≤ p.table.client_valid_num) :
    ∃ order, IsOrder p.table.client_valid_num order ∧
      pageStep p (.render N 1) = some
        { table := p.table
          sort_array := fun i =>
            if i < p.table.client_valid_num then some (order i) else p.sort_array i
          sorted := p.table.client_valid_num
          rows := [rowAt p.table 1 (order 0)] } := by
  refine ⟨sortOrder (sortKey N p.table.client_valid_num) p.table.client_valid_list
    p.table.client_valid_num, sortOrder_isOrder _ _ _, ?_⟩
  simp only [pageStep, CGI_var_map, if_true]
  rw [show (((CFG_AKS_CONS 1 >>> 16) &&& 0xff : Nat) : Int) -
    (((CFG_AKS_CONS 1 >>> 16) &&& 0xff : Nat) : Int) = 0 from rfl]
  have hget : ∀ q : Page, q.table.client_valid_num = p.table.client_valid_num →
      get_client_entry q 0 = (q.sort_array 0).map some := by
    intro q hq
    rw [get_client_entry, if_neg (by omega), if_neg (by omega)]
    rfl
  rw [hget (sort_client_list N { p with rows := [] }) rfl]
  simp only [sort_client_list, if_pos (Nat.lt_of_lt_of_le Nat.zero_lt_one hnum)]
  rfl

/-! ### A page without table changes -/

def requests (N : NodeInfo) (m : Nat) : List Act := (List.range' 1 m).map (.render N)

/-- The page shows every entry of the valid list in one row, in the order of the sorted
pointers. -/
def Complete (t : Table) (p : Page) : Prop :=
  ∃ order : Nat → Nat,
    (∀ k < t.client_valid_num, p.sort_array k = some (order k)) ∧
      ((List.range t.client_valid_num).map order).Perm (List.range t.client_valid_num) ∧
      p.rows = (List.range t.client_valid_num).map fun k => rowAt t (k + 1) (order k)

/-- What a page holds when nothing interferes: the rows up to the sixteenth. -/
theorem quiet_page (N : NodeInfo) {p : Page} (hnum : 1 ≤ p.table.client_valid_num)
    (hnum24 : p.table.client_valid_num ≤ 24) :
    ∃ order, IsOrder p.table.client_valid_num order ∧ ∀ m ≤ 24, 1 ≤ m →
      ∃ p', Runs.exec pageStep p (requests N m) = some p' ∧ p'.table = p.table ∧
        (∀ k < p.table.client_valid_num, p'.sort_array k = some (order k)) ∧
        p'.rows = (List.range (min m (min p.table.client_valid_num 16))).map fun k =>
          rowAt p.table (k + 1) (order k) := by
  obtain ⟨order, horder, hfirst⟩ := render_first N hnum
  refine ⟨order, horder, fun m => ?_⟩
  induction m with
  | zero => omega
  | succ m ih =>
    intro h24 _
    by_cases hm : m = 0
    · subst hm
      refine ⟨_, Runs.exec_cons_eq_some.mpr ⟨_, hfirst, rfl⟩, rfl, fun k hk => if_pos hk, ?_⟩
      rw [show min (0 + 1) (min p.table.client_valid_num 16) = 1 by omega]
      rfl
    · obtain ⟨p', hrun, htable, hsort, hrows⟩ := ih (by omega) (by omega)
      have hlast : requests N (m + 1) = requests N m ++ [.render N (m + 1)] := by
        simp [requests, List.range'_concat, Nat.add_comm]
      have hnext := render_next N (p := p') (k := m + 1) (by omega) h24 (by rw [htable]; exact hnum24)
      rw [htable] at hnext
      rw [hlast, Runs.exec_append, hrun, Option.bind_some]
      by_cases hrow : m + 1 ≤ 16 ∧ m + 1 ≤ p.table.client_valid_num
      · rw [if_pos hrow, Nat.add_sub_cancel, hsort m (by omega)] at hnext
        refine ⟨_, Runs.exec_cons_eq_some.mpr ⟨_, hnext, rfl⟩, rfl, hsort, ?_⟩
        dsimp only
        rw [hrows, show min (m + 1) (min p.table.client_valid_num 16) = m + 1 by omega,
          show min m (min p.table.client_valid_num 16) = m by omega, List.range_succ,
          List.map_append]
        rfl
      · rw [if_neg hrow] at hnext
        refine ⟨_, Runs.exec_cons_eq_some.mpr ⟨_, hnext, rfl⟩, htable, hsort, ?_⟩
        rw [hrows, show min (m + 1) (min p.table.client_valid_num 16) =
          min m (min p.table.client_valid_num 16) by omega]

/-- **Exactly which tables are shown completely.**  With no table change in between, the
24 requests print one row for every entry of the valid list, in sorted order, if and only
if there are at most 16 entries. -/
theorem page_complete_iff {N₀ : NodeInfo} {t₀ t : Table} {events : List Event}
    (hstart : server_start N₀ = some t₀) (hrun : Runs.exec step t₀ events = some t)
    (N : NodeInfo) (sort_array : Nat → Option Nat) (sorted : Nat) (rows : List Row) :
    (∃ p', Runs.exec pageStep ⟨t, sort_array, sorted, rows⟩ (requests N 24) = some p' ∧
        Complete t p') ↔
      t.client_valid_num ≤ 16 := by
  have hlisted := (run_tracks (server_start_tracks hstart) hrun).listed
  obtain ⟨order, horder, hpage⟩ :=
    quiet_page N (p := ⟨t, sort_array, sorted, rows⟩) hlisted.1 hlisted.num_le
  obtain ⟨p', hexec, -, hsort, hrows⟩ := hpage 24 (by decide) (by decide)
  constructor
  · rintro ⟨p'', hexec', _, _, _, hall⟩
    obtain rfl := Option.some.inj (hexec.symm.trans hexec')
    have hlen := congrArg List.length (hrows.symm.trans hall)
    simp only [List.length_map, List.length_range] at hlen
    omega
  · intro hle
    refine ⟨p', hexec, order, hsort, horder.perm, ?_⟩
    rw [hrows]
    dsimp only
    rw [show min 24 (min t.client_valid_num 16) = t.client_valid_num by omega]

theorem page_complete_factory :
    ∃ t₀, server_start factoryNode = some t₀ ∧
      ((∃ p', Runs.exec pageStep ⟨t₀, fun _ => none, 0, []⟩ (requests factoryNode 24) = some p' ∧
        Complete t₀ p') ↔ t₀.client_valid_num ≤ 16) := by
  obtain ⟨t₀, hstart⟩ := age_client_list_defined factoryNode_fits true emptyTable
  exact ⟨t₀, hstart,
    page_complete_iff hstart (Runs.exec_nil step t₀) factoryNode (fun _ => none) 0 []⟩

def sixteenPeers : List InAddr := (List.range 16).map fun i => ⟨10, 10, 100, (i + 1).toUInt8⟩

/-- With sixteen peers the table has seventeen entries, and the page stops one short. -/
theorem seventeen_entries_cut_short :
    ∃ t₀ t, server_start factoryNode = some t₀ ∧
      Runs.exec step t₀ (sixteenPeers.map fun a => .announce factoryNode a sampleMsg) = some t ∧
      t.client_valid_num = 17 ∧
      ¬ ∃ p', Runs.exec pageStep ⟨t, fun _ => none, 0, []⟩ (requests factoryNode 24) = some p' ∧
        Complete t p' := by
  obtain ⟨t₀, hstart⟩ := age_client_list_defined factoryNode_fits true emptyTable
  have hnodup : (sixteenPeers.map inet_ntoa).Nodup := by decide +kernel
  obtain ⟨t, life, hrun, htracks, hleased⟩ := announce_all factoryNode_fits sampleMsg_fits hstart
    hnodup (by decide +kernel) (by decide)
  have hnum : t.client_valid_num = 17 := by
    rw [htracks.num_eq hnodup hleased]
    rfl
  refine ⟨t₀, t, hstart, hrun, hnum, ?_⟩
  rintro ⟨p', hexec, _, _, _, hall⟩
  obtain ⟨order, -, hpage⟩ := quiet_page factoryNode (p := ⟨t, fun _ => none, 0, []⟩)
    (by simp [hnum]) (by simp [hnum])
  obtain ⟨p'', hexec', -, -, hrows⟩ := hpage 24 (by decide) (by decide)
  obtain rfl := Option.some.inj (hexec.symm.trans hexec')
  have hlen := congrArg List.length (hrows.symm.trans hall)
  simp [hnum] at hlen

/-! ### Steps of the server that move no peer -/

def addressAt (t : Table) (q : Nat) : Text := (t.client_valid_list q).member .ip_addr

/-- The step inserts no new peer, and no peer expires before one that stays. -/
def Quiet (t : Table) : Event → Prop
  | .announce N sin_addr _ =>
      inet_ntoa sin_addr = N.ownIp ∨
        (∃ i ∈ slots, t.live i = true ∧ t.ip i = inet_ntoa sin_addr) ∨
        ∀ i ∈ slots, (t.client_list i).age_cnt ≠ 0
  | .tick _ => slots.Pairwise fun i j =>
      (t.client_list i).age_cnt = 1 → (t.client_list j).age_cnt ≤ 1

instance (t : Table) : (e : Event) → Decidable (Quiet t e)
  | .announce _ _ _ => inferInstanceAs (Decidable (_ ∨ _ ∨ _))
  | .tick _ => inferInstanceAs (Decidable (List.Pairwise _ _))

/-- If whatever is dropped has nothing kept behind it, the kept ones are a prefix. -/
theorem filter_prefix {α : Type} {l : List α} {kept before : α → Bool}
    (hsub : ∀ x ∈ l, kept x = true → before x = true)
    (hdrop : l.Pairwise fun x y => before x = true → kept x = false → kept y = false) :
    l.filter kept <+: l.filter before := by
  induction l with
  | nil => exact List.prefix_rfl
  | cons x l ih =>
    obtain ⟨hx, hrest⟩ := List.pairwise_cons.mp hdrop
    have hpre := ih (fun y hy => hsub y (List.mem_cons_of_mem x hy)) hrest
    cases hkept : kept x with
    | true =>
      rw [List.filter_cons_of_pos hkept, List.filter_cons_of_pos (hsub x List.mem_cons_self hkept)]
      exact List.prefix_cons_inj x |>.mpr hpre
    | false =>
      rw [List.filter_cons_of_neg (by simp [hkept])]
      cases hbefore : before x with
      | true =>
        have hnone : l.filter kept = [] :=
          List.filter_eq_nil_iff.mpr fun y hy => by simp [hx y hy hbefore hkept]
        rw [hnone]
        exact List.nil_prefix
      | false =>
        rwa [List.filter_cons_of_neg (by simp [hbefore])]

theorem addressAt_eq {t : Table} {q : Nat} (h1 : 1 ≤ q) (hq : q < t.client_valid_num) :
    (addresses t)[q - 1]? = some (addressAt t q) := by
  have hlt : q - 1 < t.client_valid_num - 1 := by omega
  simp only [addresses, peers, List.map_map, List.getElem?_map]
  rw [List.getElem?_range' hlt]
  simp only [Option.map_some, Function.comp_apply, addressAt]
  rw [show 1 + 1 * (q - 1) = q by omega]

/-- It is enough that the addresses are a prefix and the entries behind them are not
written. -/
theorem addressAt_of_prefix {t t' : Table} (h : Listed t) (h' : Listed t')
    (hpre : addresses t' <+: addresses t)
    (hbeyond : ∀ q, 1 ≤ q → t'.client_valid_num ≤ q → addressAt t' q = addressAt t q) :
    t'.client_valid_num ≤ t.client_valid_num ∧ ∀ q, 1 ≤ q → addressAt t' q = addressAt t q := by
  have hlen := hpre.length_le
  have hnum := h.1
  have hnum' := h'.1
  simp only [addresses, peers, List.length_map, List.length_range'] at hlen
  refine ⟨by omega, fun q h1 => ?_⟩
  by_cases hq : q < t'.client_valid_num
  · have hget := List.prefix_iff_getElem?.mp hpre (q - 1) (by
      simp only [addresses, peers, List.length_map, List.length_range']
      omega)
    have hnew := addressAt_eq h1 hq
    rw [addressAt_eq h1 (by omega), ← List.getElem?_eq_getElem, hnew] at hget
    exact (Option.some.inj hget).symm
  · exact hbeyond q h1 (by omega)

/-- A quiet tick takes the peers off the end of the list. -/
theorem quiet_tick_live {N : NodeInfo} {t t' : Table} (h : Rebuilt N false t t')
    (hquiet : slots.Pairwise fun i j =>
      (t.client_list i).age_cnt = 1 → (t.client_list j).age_cnt ≤ 1) :
    slots.filter t'.live <+: slots.filter t.live := by
  apply filter_prefix
  · intro i hi hl
    exact h.was_live hi hl
  · refine List.Pairwise.imp_of_mem (fun {i j} hi hj hij hl hdead => ?_) hquiet
    have hpos := live_iff.mp hl
    have hone : (t.client_list i).age_cnt = 1 := by
      have := (h.live_iff_age hi).not.mp (Bool.eq_false_iff.mp hdead)
      omega
    have hle := hij hone
    exact Bool.eq_false_iff.mpr ((h.live_iff_age hj).not.mpr (by omega))

/-- A quiet step leaves every address of the valid list where it is. -/
theorem quiet_step {t t' : Table} {life : Text → Nat} (h : Tracks t life) {e : Event}
    (hquiet : Quiet t e) (hstep : step t e = some t') :
    t'.client_valid_num ≤ t.client_valid_num ∧ ∀ q, 1 ≤ q → addressAt t' q = addressAt t q := by
  have hlisted' := (step_tracks h hstep).listed
  cases e with
  | tick N =>
    have hrebuilt := age_client_list_spec hstep
    apply addressAt_of_prefix h.listed hlisted'
    · rw [hlisted'.addresses_eq, h.listed.addresses_eq,
        List.map_congr_left fun i hi => hrebuilt.ip_eq (List.mem_filter.mp hi).1]
      exact (quiet_tick_live hrebuilt hquiet).map _
    · intro q _ hq
      rw [addressAt, hrebuilt.beyond q hq, addressAt]
  | announce N sin_addr rcv_msg =>
    have hmine : ∀ q, 1 ≤ q → addressAt (my_ip_address N t) q = addressAt t q := by
      intro q h1
      simp only [addressAt, my_ip_address]
      rw [Function.update_of_ne (by omega)]
    cases populate_cases h.clean hstep with
    | own _ => exact ⟨Nat.le_refl _, hmine⟩
    | full _ _ _ => exact ⟨Nat.le_refl _, hmine⟩
    | @refreshed i _ _ hi hl _ hfill =>
      apply addressAt_of_prefix h.listed hlisted'
      · rw [hlisted'.addresses_eq, h.listed.addresses_eq, hfill.refreshed_addresses hl]
        exact List.prefix_rfl
      · intro q h1 hq
        rw [← hmine q h1, addressAt, hfill.beyond q hq, addressAt]
    | @inserted i _ hown hnone hi hage hfill =>
      rcases hquiet with heq | ⟨j, hj, hl, heq⟩ | hfull
      · exact absurd heq hown
      · exact absurd heq (hnone j hj hl)
      · exact absurd hage (hfull i hi)

/-! ### A page while the table changes -/

def Act.row : Act → Option Nat
  | .server _ => none
  | .render _ k => some k

def QuietAct (p : Page) : Act → Prop
  | .server e => Quiet p.table e
  | .render _ _ => True

/-- Every row was read through a pointer that this page has sorted, and no peer is shown
twice. -/
structure PageSound (p : Page) : Prop where
  fresh : ∀ r ∈ p.rows, r.idx < p.sorted
  once : p.rows.Pairwise fun r s => r.client_ptr ≠ s.client_ptr ∧
    (1 ≤ r.client_ptr → 1 ≤ s.client_ptr → r.msg.ip_addr ≠ s.msg.ip_addr)

/-- The page while its rows up to `done` are asked for: the pointers are still the ones
sorted into `order`, and the entries behind them still hold the addresses `shown`. -/
structure Printing (order : Nat → Nat) (shown : Nat → Text) (n done : Nat) (p : Page) : Prop where
  tracks : ∃ life, Tracks p.table life
  num_le : p.table.client_valid_num ≤ n
  sorted_eq : p.sorted = n
  pointers : ∀ i < n, p.sort_array i = some (order i)
  stays : ∀ q, 1 ≤ q → addressAt p.table q = shown q
  printed : ∀ r ∈ p.rows, r.idx < n ∧ r.idx < done ∧ r.client_ptr = order r.idx ∧
    (1 ≤ r.client_ptr → r.msg.ip_addr = shown r.client_ptr)
  ordered : p.rows.Pairwise fun r s => r.idx < s.idx

theorem Tracks.addressAt_inj {t : Table} {life : Text → Nat} (h : Tracks t life) {q r : Nat}
    (hq1 : 1 ≤ q) (hq : q < t.client_valid_num) (hr1 : 1 ≤ r) (hr : r < t.client_valid_num)
    (heq : addressAt t q = addressAt t r) : q = r := by
  have hget : (addresses t)[q - 1]? = (addresses t)[r - 1]? := by
    rw [addressAt_eq hq1 hq, addressAt_eq hr1 hr, heq]
  have hlt : q - 1 < (addresses t).length := by
    simp only [addresses, peers, List.length_map, List.length_range']
    omega
  have := (List.getElem?_inj hlt h.addresses_nodup).mp hget
  omega

section

variable {order : Nat → Nat} {shown : Nat → Text} {n : Nat}

theorem Printing.sound {done : Nat} {p : Page} (h : Printing order shown n done p)
    (horder : IsOrder n order)
    (hshown : ∀ q r, 1 ≤ q → q < n → 1 ≤ r → r < n → shown q = shown r → q = r) :
    PageSound p := by
  refine ⟨fun r hr => h.sorted_eq ▸ (h.printed r hr).1, ?_⟩
  refine List.Pairwise.imp_of_mem (fun {r s} hr hs hlt => ?_) h.ordered
  obtain ⟨hrn, -, hrptr, hrip⟩ := h.printed r hr
  obtain ⟨hsn, -, hsptr, hsip⟩ := h.printed s hs
  have hne : r.client_ptr ≠ s.client_ptr := by
    rw [hrptr, hsptr]
    intro heq
    exact absurd (horder.inj _ hrn _ hsn heq) (by omega)
  have hrlt : r.client_ptr < n := hrptr ▸ horder.lt _ hrn
  have hslt : s.client_ptr < n := hsptr ▸ horder.lt _ hsn
  refine ⟨hne, fun hr1 hs1 heq => hne (hshown _ _ hr1 hrlt hs1 hslt ?_)⟩
  rw [← hrip hr1, ← hsip hs1, heq]

/-- A quiet step of the server keeps the page as it is. -/
theorem Printing.server {done : Nat} {p : Page} (h : Printing order shown n done p) {e : Event}
    (hquiet : Quiet p.table e) {t : Table} (hstep : step p.table e = some t) :
    Printing order shown n done { p with table := t } := by
  obtain ⟨life, htracks⟩ := h.tracks
  obtain ⟨hnum, hstays⟩ := quiet_step htracks hquiet hstep
  exact ⟨⟨_, step_tracks htracks hstep⟩, hnum.trans h.num_le, h.sorted_eq, h.pointers,
    fun q h1 => (hstays q h1).trans (h.stays q h1), h.printed, h.ordered⟩

/-- The next row has an outcome, and is read through a pointer of this page. -/
theorem Printing.render {done : Nat} {p : Page} (h : Printing order shown n done p)
    (hdone : 1 ≤ done) (h24 : done + 1 ≤ 24) (N : NodeInfo) :
    ∃ p', pageStep p (.render N (done + 1)) = some p' ∧ Printing order shown n (done + 1) p' := by
  obtain ⟨life, htracks⟩ := h.tracks
  have hnext := render_next N (by omega) h24 htracks.listed.num_le
  have hlater : ∀ r ∈ p.rows, r.idx < n ∧ r.idx < done + 1 ∧ r.client_ptr = order r.idx ∧
      (1 ≤ r.client_ptr → r.msg.ip_addr = shown r.client_ptr) := by
    intro r hr
    obtain ⟨hn, hlt, hrest⟩ := h.printed r hr
    exact ⟨hn, Nat.lt_succ_of_lt hlt, hrest⟩
  by_cases hrow : done + 1 ≤ 16 ∧ done + 1 ≤ p.table.client_valid_num
  · have hlt : done < n := Nat.lt_of_lt_of_le hrow.2 h.num_le
    rw [if_pos hrow, Nat.add_sub_cancel, h.pointers done hlt] at hnext
    refine ⟨_, hnext, h.tracks, h.num_le, h.sorted_eq, h.pointers, h.stays, ?_, ?_⟩
    · intro r hr
      rcases List.mem_append.mp hr with hr | hr
      · exact hlater r hr
      · obtain rfl := List.mem_singleton.mp hr
        exact ⟨hlt, Nat.lt_succ_self _, rfl, fun h1 => h.stays _ h1⟩
    · refine List.pairwise_append.mpr ⟨h.ordered, List.pairwise_singleton _ _, ?_⟩
      intro r hr s hs
      obtain rfl := List.mem_singleton.mp hs
      exact (h.printed r hr).2.1
  · rw [if_neg hrow] at hnext
    exact ⟨p, hnext, h.tracks, h.num_le, h.sorted_eq, h.pointers, h.stays, hlater, h.ordered⟩

/-- A quiet run that asks for `m` further rows in order ends in a page being printed. -/
theorem Printing.run {acts : List Act} {done m : Nat} {p p' : Page}
    (h : Printing order shown n done p) (hdone : 1 ≤ done) (h24 : done + m ≤ 24)
    (hrows : acts.filterMap Act.row = List.range' (done + 1) m) (hquiet : Runs.Each pageStep QuietAct p acts)
    (hrun : Runs.exec pageStep p acts = some p') : Printing order shown n (done + m) p' := by
  induction acts generalizing p done m with
  | nil =>
    obtain rfl := Option.some.inj hrun
    have hm := congrArg List.length hrows
    simp only [List.filterMap_nil, List.length_nil, List.length_range'] at hm
    rwa [← hm, Nat.add_zero]
  | cons a acts ih =>
    obtain ⟨p₁, hstep, hrest⟩ := Runs.exec_cons_eq_some.mp hrun
    have hquiet' := hquiet.2 p₁ hstep
    cases a with
    | server e =>
      obtain ⟨t, ht, rfl⟩ := Option.map_eq_some_iff.mp hstep
      exact ih (h.server hquiet.1 ht) hdone h24 hrows hquiet' hrest
    | render N k =>
      cases m with
      | zero => simp [Act.row] at hrows
      | succ m =>
        rw [List.range'_succ] at hrows
        obtain ⟨rfl, hlater⟩ := List.cons.inj (hrows : k :: acts.filterMap Act.row = _)
        obtain ⟨p₂, hstep₂, hnext⟩ := h.render hdone (by omega) N
        obtain rfl := Option.some.inj (hstep.symm.trans hstep₂)
        rw [show done + (m + 1) = done + 1 + m by omega]
        exact ih hnext (by omega) (by omega) hlater hquiet' hrest

end

theorem printing_first {t : Table} {life : Text → Nat} (h : Tracks t life) (N : NodeInfo)
    (sort_array : Nat → Option Nat) (sorted : Nat) (rows : List Row) :
    ∃ order p, IsOrder t.client_valid_num order ∧
      pageStep ⟨t, sort_array, sorted, rows⟩ (.render N 1) = some p ∧
      Printing order (addressAt t) t.client_valid_num 1 p := by
  obtain ⟨order, horder, hfirst⟩ := render_first N (p := ⟨t, sort_array, sorted, rows⟩) h.listed.1
  refine ⟨order, _, horder, hfirst, ⟨life, h⟩, Nat.le_refl _, rfl, fun i hi => if_pos hi,
    fun _ _ => rfl, fun r hr => ?_, List.pairwise_singleton _ _⟩
  obtain rfl := List.mem_singleton.mp hr
  exact ⟨h.listed.1, Nat.zero_lt_one, rfl, fun _ => rfl⟩

/-- **A page over any quiet interleaving.**  If no step of the server between the rows
inserts a new peer or lets a peer expire before one that stays, then after every row the
page is sound, and the next row has an outcome. -/
theorem quiet_page_sound {N₀ : NodeInfo} {t₀ t : Table} {events : List Event}
    (hstart : server_start N₀ = some t₀) (hrun : Runs.exec step t₀ events = some t)
    (N : NodeInfo) (sort_array : Nat → Option Nat) (sorted : Nat) (rows : List Row)
    {acts : List Act} {m : Nat} (hm : m < 24)
    (hrows : acts.filterMap Act.row = List.range' 2 m)
    (hquiet : Runs.Each pageStep QuietAct ⟨t, sort_array, sorted, rows⟩ (.render N 1 :: acts)) :
    (∃ p, pageStep ⟨t, sort_array, sorted, rows⟩ (.render N 1) = some p) ∧
      ∀ p, Runs.exec pageStep ⟨t, sort_array, sorted, rows⟩ (.render N 1 :: acts) = some p →
        PageSound p ∧
          (m + 2 ≤ 24 → ∀ N', ∃ p', pageStep p (.render N' (m + 2)) = some p') := by
  have htracks := run_tracks (server_start_tracks hstart) hrun
  obtain ⟨order, p₁, horder, hfirst, hprinting⟩ := printing_first htracks N sort_array sorted rows
  refine ⟨⟨p₁, hfirst⟩, fun p hexec => ?_⟩
  obtain ⟨p₂, hstep, hrest⟩ := Runs.exec_cons_eq_some.mp hexec
  obtain rfl := Option.some.inj (hfirst.symm.trans hstep)
  have hlast := hprinting.run (Nat.le_refl 1) (by omega) hrows (hquiet.2 _ hfirst) hrest
  refine ⟨hlast.sound horder fun q r hq1 hq hr1 hr => Tracks.addressAt_inj htracks hq1 hq hr1 hr,
    fun h24 N' => ?_⟩
  obtain ⟨p', hnext, -⟩ := hlast.render (by omega) (by omega) N'
  exact ⟨p', by rwa [show 1 + m + 1 = m + 2 by omega] at hnext⟩

theorem quiet_page_sound_sample :
    ∃ t₀ t, server_start factoryNode = some t₀ ∧
      Runs.exec step t₀ [.announce factoryNode ⟨10, 10, 100, 1⟩ sampleMsg] = some t ∧
        ∀ p, Runs.exec pageStep ⟨t, fun _ => none, 0, []⟩
          [.render factoryNode 1, .server (.tick factoryNode), .render factoryNode 2] = some p →
            PageSound p := by
  have hcheck : ((server_start factoryNode).bind fun t₀ =>
      (Runs.exec step t₀ [.announce factoryNode ⟨10, 10, 100, 1⟩ sampleMsg]).map fun t =>
        decide (Quiet t (.tick factoryNode))) = some true := by decide +kernel
  obtain ⟨t₀, hstart, hmap⟩ := Option.bind_eq_some_iff.mp hcheck
  obtain ⟨t, hrun, htick⟩ := Option.map_eq_some_iff.mp hmap
  have hlisted := (run_tracks (server_start_tracks hstart) hrun).listed
  obtain ⟨order, -, hfirst⟩ :=
    render_first factoryNode (p := ⟨t, fun _ => none, 0, []⟩) hlisted.1
  have hquiet : Runs.Each pageStep QuietAct ⟨t, fun _ => none, 0, []⟩
      [.render factoryNode 1, .server (.tick factoryNode), .render factoryNode 2] := by
    have htick' : Quiet t (.tick factoryNode) := of_decide_eq_true htick
    exact (Runs.each_cons hfirst).mpr ⟨trivial, htick', fun _ _ => ⟨trivial, fun _ _ => trivial⟩⟩
  exact ⟨t₀, t, hstart, hrun, fun p hexec => ((quiet_page_sound hstart hrun factoryNode
    (fun _ => none) 0 [] (m := 1) (by decide) rfl hquiet).2 p hexec).1⟩

/-- The only peer expires, the next page is sorted without it, and a new peer announces
itself before the second row. -/
def expiredPeer : List Act :=
  [.server (.announce factoryNode ⟨10, 10, 100, 1⟩ sampleMsg), .render factoryNode 1,
    .server (.tick factoryNode), .server (.tick factoryNode), .server (.tick factoryNode),
    .render factoryNode 1, .server (.announce factoryNode ⟨10, 10, 100, 2⟩ sampleMsg),
    .render factoryNode 2]

/-- The second row is read through a pointer that the first page has left. -/
theorem stale_pointer_read :
    ∃ t₀ p, server_start factoryNode = some t₀ ∧
      Runs.exec pageStep ⟨t₀, fun _ => none, 0, []⟩ expiredPeer = some p ∧ ¬ PageSound p := by
  have hcheck : ((server_start factoryNode).bind fun t₀ =>
      (Runs.exec pageStep ⟨t₀, fun _ => none, 0, []⟩ expiredPeer).map fun p =>
        (p.sorted, p.rows.map Row.idx)) = some (1, [0, 1]) := by decide +kernel
  obtain ⟨t₀, hstart, hmap⟩ := Option.bind_eq_some_iff.mp hcheck
  obtain ⟨p, hexec, hrows⟩ := Option.map_eq_some_iff.mp hmap
  obtain ⟨hsorted, hidx⟩ := Prod.mk.inj hrows
  refine ⟨t₀, p, hstart, hexec, fun hsound => ?_⟩
  have hmem : 1 ∈ p.rows.map Row.idx := by simp [hidx]
  obtain ⟨r, hr, hr1⟩ := List.mem_map.mp hmem
  have := hsound.fresh r hr
  omega

end AksFirmware.Constellation
