import AksFirmware.Constellation
import AksFirmware.ExchangeSort
import Mathlib.Tactic.Ring

/-!
# The order of the constellation page

`sort_client_list` exchanges pointers while it compares, and the key of each comparison is
a text.  `strcmp` is a total order on C strings, so the pointers end up in the order of
the texts; of nodes with equal texts nothing is promised.

The page offers the order of universe numbers, which is another one: as a text "10" comes
before "9", and a subnet and a universe without anything between them may read the same as
another pair.
-/

namespace AksFirmware.ConstellationSort

open ByteMemory CText WebConfig PeerTable Constellation

/-! ### Keys -/

/-- The text that a sort key compares; none for an unknown key. -/
def sortText (key : UInt8) : Option (ClientEnt → Text) :=
  if key = 0x30 then some fun e => e.member .node_name
  else if key = 0x31 then some fun e => e.member .ip_addr
  else if key = 0x32 then some fun e => e.member .baterry
  else if key = 0x33 then some fun e => e.member .subnet ++ e.member .universe
  else if key = 0x34 then some fun e => e.member .sacn_univ
  else none

theorem compareBy_eq (key : UInt8) :
    compareBy key = (sortText key).map fun text a b => strcmp (text a) (text b) := by
  unfold compareBy sortText
  split_ifs <;> rfl

/-- The valid list as it lies in memory: its members hold C strings. -/
structure ClientList where
  client_valid_list : Nat → ClientEnt
  client_valid_num : Nat
  strings : ∀ k m, (0 : UInt8) ∉ (client_valid_list k).member m

/-- The page with this valid list. -/
def ClientList.page (L : ClientList) (p : Page) : Page :=
  { p with
    table := { p.table with
      client_valid_list := L.client_valid_list
      client_valid_num := L.client_valid_num } }

theorem zero_notMem_sortText {key : UInt8} {text : ClientEnt → Text}
    (h : sortText key = some text) (L : ClientList) (k : Nat) :
    (0 : UInt8) ∉ text (L.client_valid_list k) := by
  unfold sortText at h
  split_ifs at h <;> obtain rfl := Option.some.inj h
  · exact L.strings k _
  · exact L.strings k _
  · exact L.strings k _
  · intro hmem
    rcases List.mem_append.mp hmem with hmem | hmem
    · exact L.strings k _ hmem
    · exact L.strings k _ hmem
  · exact L.strings k _

/-! ### The sort -/

/-- The comparison of two pointers. -/
def Greater (text : ClientEnt → Text) (entries : Nat → ClientEnt) (x y : Nat) : Prop :=
  strcmp (text (entries x)) (text (entries y)) > 0

instance (text : ClientEnt → Text) (entries : Nat → ClientEnt) :
    DecidableRel (Greater text entries) := fun x y => by unfold Greater; infer_instance

theorem not_greater_iff {text : ClientEnt → Text} {entries : Nat → ClientEnt} {x y : Nat} :
    ¬ Greater text entries x y ↔ strcmp (text (entries x)) (text (entries y)) ≤ 0 :=
  Int.not_lt

theorem comparison {text : ClientEnt → Text} {entries : Nat → ClientEnt}
    (hstrings : ∀ k, (0 : UInt8) ∉ text (entries k)) :
    ExchangeSort.Comparison (Greater text entries) where
  asymm := by
    intro x y hxy
    rw [not_greater_iff, strcmp_swap]
    exact Int.neg_nonpos_of_nonneg (Int.le_of_lt hxy)
  chain := by
    intro x y z hxy hyz
    rw [not_greater_iff] at hxy hyz ⊢
    exact strcmp_le_trans (hstrings x) (hstrings y) hxy hyz

/-- The two loops of `sort_client_list` are an exchange sort. -/
theorem sortOrder_eq_sort {key : UInt8} {text : ClientEnt → Text} (h : sortText key = some text)
    (entries : Nat → ClientEnt) (n : Nat) :
    sortOrder key entries n = ExchangeSort.sort (Greater text entries) n id := by
  have hcompare : compareBy key = some fun a b => strcmp (text a) (text b) := by
    rw [compareBy_eq, h]
    rfl
  unfold sortOrder
  rw [hcompare]
  simp only [sortPairs, List.foldl_flatMap, List.foldl_map]
  rfl

theorem sortOrder_sorted {key : UInt8} {text : ClientEnt → Text} (h : sortText key = some text)
    (L : ClientList) {i j : Nat} (hij : i < j) (hj : j < L.client_valid_num) :
    strcmp (text (L.client_valid_list
        (sortOrder key L.client_valid_list L.client_valid_num i)))
      (text (L.client_valid_list
        (sortOrder key L.client_valid_list L.client_valid_num j))) ≤ 0 := by
  have hsettled := ExchangeSort.sort_settled
    (comparison fun k => zero_notMem_sortText h L k) (n := L.client_valid_num) id
  rw [sortOrder_eq_sort h, ← not_greater_iff]
  exact hsettled i (Nat.lt_trans hij hj) j hij hj

/-- The key is the first character of the configured `sort_by`, or `0` for an empty text. -/
theorem sortKey_eq (N : NodeInfo) (client_valid_num : Nat) :
    sortKey N client_valid_num = (fieldText N.g_web_config .sort_by).headD 0x30 := by
  have hcase : getCases.lookup CFG_SORT_BY = some (.sort_by, some 2) := by decide
  simp only [sortKey, ratpac_get_str, hcase]
  cases fieldText N.g_web_config .sort_by <;> rfl

/-- **What `sort_client_list` leaves in `sort_array`.** -/
theorem sort_client_list_sorts (L : ClientList) (N : NodeInfo) (p : Page) :
    ∃ order : Nat → Nat,
      (∀ k < L.client_valid_num,
        (sort_client_list N (L.page p)).sort_array k = some (order k)) ∧
      ((List.range L.client_valid_num).map order).Perm (List.range L.client_valid_num) ∧
      (∀ text, sortText (sortKey N L.client_valid_num) = some text →
        ∀ i j, i < j → j < L.client_valid_num →
          strcmp (text (L.client_valid_list (order i)))
            (text (L.client_valid_list (order j))) ≤ 0) ∧
      (sortText (sortKey N L.client_valid_num) = none → ∀ k, order k = k) := by
  refine ⟨sortOrder (sortKey N L.client_valid_num) L.client_valid_list L.client_valid_num,
    fun k hk => if_pos hk, (sortOrder_isOrder _ _ _).perm, fun text htext i j hij hj => ?_, ?_⟩
  · exact sortOrder_sorted htext L hij hj
  · intro hnone k
    have hcompare : compareBy (sortKey N L.client_valid_num) = none := by
      rw [compareBy_eq, hnone]
      rfl
    rw [sortOrder, hcompare]
    rfl

/-! ### Numbers -/

def artText (e : ClientEnt) : Text := e.member .subnet ++ e.member .universe

def portAddress (e : ClientEnt) : Int :=
  16 * atoi (e.member .subnet) + atoi (e.member .universe)

def sacnText (e : ClientEnt) : Text := e.member .sacn_univ

def sacnUniverse (e : ClientEnt) : Int := atoi (e.member .sacn_univ)

/-- The pointers after the sort. -/
def ClientList.order (L : ClientList) (key : UInt8) : Nat → Nat :=
  sortOrder key L.client_valid_list L.client_valid_num

/-- The same nodes in other slots. -/
def ClientList.arrange (L : ClientList) (σ : Nat → Nat) : ClientList where
  client_valid_list := fun k => L.client_valid_list (σ k)
  client_valid_num := L.client_valid_num
  strings := fun k => L.strings (σ k)

/-- The numbers of the listed nodes do not decrease. -/
def Ascending (key : UInt8) (v : ClientEnt → Int) (L : ClientList) : Prop :=
  ∀ i j, i < j → j < L.client_valid_num →
    v (L.client_valid_list (L.order key i)) ≤ v (L.client_valid_list (L.order key j))

/-- Of any two listed nodes the one whose text comes first has the smaller number. -/
def Agrees (text : ClientEnt → Text) (v : ClientEnt → Int) (L : ClientList) : Prop :=
  ∀ x < L.client_valid_num, ∀ y < L.client_valid_num,
    strcmp (text (L.client_valid_list x)) (text (L.client_valid_list y)) ≤ 0 →
      v (L.client_valid_list x) ≤ v (L.client_valid_list y)

section Keyed

variable {key : UInt8} {text : ClientEnt → Text} (hkey : sortText key = some text)
  {v : ClientEnt → Int}

theorem order_lt (L : ClientList) (key : UInt8) {i : Nat} (hi : i < L.client_valid_num) :
    L.order key i < L.client_valid_num :=
  (sortOrder_isOrder key L.client_valid_list L.client_valid_num).lt i hi

/-- Every node is listed somewhere. -/
theorem exists_place (L : ClientList) (key : UInt8) {x : Nat} (hx : x < L.client_valid_num) :
    ∃ i < L.client_valid_num, L.order key i = x := by
  have hperm := (sortOrder_isOrder key L.client_valid_list L.client_valid_num).perm
  obtain ⟨i, hi, hix⟩ := List.mem_map.mp (hperm.mem_iff.mpr (List.mem_range.mpr hx))
  exact ⟨i, List.mem_range.mp hi, hix⟩

include hkey

theorem ascending_of_agrees {L : ClientList} (h : Agrees text v L) : Ascending key v L := by
  intro i j hij hj
  exact h _ (order_lt L key (Nat.lt_trans hij hj)) _ (order_lt L key hj)
    (sortOrder_sorted hkey L hij hj)

theorem agrees_lt_of_ascending {L : ClientList} (h : Ascending key v L) {x y : Nat}
    (hx : x < L.client_valid_num) (hy : y < L.client_valid_num)
    (hlt : strcmp (text (L.client_valid_list x)) (text (L.client_valid_list y)) < 0) :
    v (L.client_valid_list x) ≤ v (L.client_valid_list y) := by
  obtain ⟨i, hi, rfl⟩ := exists_place L key hx
  obtain ⟨j, hj, rfl⟩ := exists_place L key hy
  rcases Nat.lt_trichotomy i j with hij | rfl | hji
  · exact h i j hij hj
  · exact Int.le_refl _
  · have hle := sortOrder_sorted hkey L hji hi
    rw [strcmp_swap] at hle
    exact absurd hlt (Int.not_lt.mpr (Int.nonneg_of_neg_nonpos hle))

omit hkey in
theorem swap_id_apply (x y k : Nat) :
    Constellation.swap id x y k = if k = y then x else if k = x then y else k := by
  by_cases hky : k = y
  · rw [if_pos hky, Constellation.swap, hky, Function.update_self]
    rfl
  · rw [if_neg hky, Constellation.swap, Function.update_of_ne hky]
    by_cases hkx : k = x
    · rw [if_pos hkx, hkx, Function.update_self]
      rfl
    · rw [if_neg hkx, Function.update_of_ne hkx]
      rfl

/-- The sort sees the texts only: two nodes with the same text may change slots. -/
theorem order_arrange {L : ClientList} {σ : Nat → Nat}
    (hσ : ∀ k, text (L.client_valid_list (σ k)) = text (L.client_valid_list k)) :
    (L.arrange σ).order key = L.order key := by
  have hcompare : compareBy key = some fun a b => strcmp (text a) (text b) := by
    rw [compareBy_eq, hkey]
    rfl
  simp only [ClientList.order, ClientList.arrange, sortOrder, hcompare, hσ]

/-- In every arrangement of the nodes the numbers do not decrease, exactly when the texts
agree with them. -/
theorem ascending_arrange_iff (L : ClientList) :
    (∀ σ, IsOrder L.client_valid_num σ → Ascending key v (L.arrange σ)) ↔ Agrees text v L := by
  constructor
  · intro hall x hx y hy hle
    have hid : Ascending key v L := hall id ⟨fun _ hk => hk, fun _ _ _ _ heq => heq⟩
    rcases Int.lt_or_eq_of_le hle with hlt | heq
    · exact agrees_lt_of_ascending hkey hid hx hy hlt
    -- equal texts: one of the two arrangements lists them the other way round
    have htext := (strcmp_eq_zero_iff (zero_notMem_sortText hkey L x)
      (zero_notMem_sortText hkey L y)).mp heq
    by_cases hxy : x = y
    · exact Int.le_of_eq (congrArg (fun k => v (L.client_valid_list k)) hxy)
    have hsame : ∀ k, text (L.client_valid_list (Constellation.swap id x y k)) =
        text (L.client_valid_list k) := by
      intro k
      rw [swap_id_apply]
      split_ifs with hky hkx
      · rw [hky, htext]
      · rw [hkx, htext]
      · rfl
    have horder : IsOrder L.client_valid_num (Constellation.swap id x y) :=
      IsOrder.swap ⟨fun _ hk => hk, fun _ _ _ _ heq => heq⟩ hx hy
    obtain ⟨i, hi, hix⟩ := exists_place L key hx
    obtain ⟨j, hj, hjy⟩ := exists_place L key hy
    rcases Nat.lt_trichotomy i j with hij | hij | hji
    · rw [← hix, ← hjy]
      exact hid i j hij hj
    · exact absurd (hix.symm.trans (hij ▸ hjy)) hxy
    · have hswapped := hall _ horder j i hji hi
      rw [order_arrange hkey hsame, hix, hjy] at hswapped
      simp only [ClientList.arrange, swap_id_apply, if_true, if_neg hxy] at hswapped
      exact hswapped
  · intro hagrees σ hσ
    apply ascending_of_agrees hkey
    intro x hx y hy hle
    exact hagrees _ (hσ.lt x hx) _ (hσ.lt y hy) hle

end Keyed

/-- **When the page lists the nodes in numeric order.**  By key '3' two nodes with the same
text stand in an order of the moment; everything else is decided by the texts. -/
theorem numeric_order_iff (L : ClientList) :
    (Ascending 0x34 sacnUniverse L ↔ Agrees sacnText sacnUniverse L) ∧
      ((∀ σ, IsOrder L.client_valid_num σ → Ascending 0x33 portAddress (L.arrange σ)) ↔
        Agrees artText portAddress L) ∧
      (Agrees artText portAddress L → Ascending 0x33 portAddress L) ∧
      (Ascending 0x33 portAddress L →
        ∀ x < L.client_valid_num, ∀ y < L.client_valid_num,
          strcmp (artText (L.client_valid_list x)) (artText (L.client_valid_list y)) < 0 →
            portAddress (L.client_valid_list x) ≤ portAddress (L.client_valid_list y)) := by
  have hart : sortText 0x33 = some artText := rfl
  have hsacn : sortText 0x34 = some sacnText := rfl
  refine ⟨⟨fun h x hx y hy hle => ?_, ascending_of_agrees hsacn⟩, ascending_arrange_iff hart L,
    ascending_of_agrees hart, fun h x hx y hy hlt => agrees_lt_of_ascending hart h hx hy hlt⟩
  rcases Int.lt_or_eq_of_le hle with hlt | heq
  · exact agrees_lt_of_ascending hsacn h hx hy hlt
  · have htext := (strcmp_eq_zero_iff (zero_notMem_sortText hsacn L x)
      (zero_notMem_sortText hsacn L y)).mp heq
    exact Int.le_of_eq (congrArg atoi htext)

/-! ### Numbers with the same number of digits -/

def IsNumber (s : Text) : Prop := ∀ c ∈ s, isdigit c = true

/-- What `strtol` makes of the digits, from a number on that was read before. -/
def digitsFrom (acc : Nat) (s : Text) : Nat := s.foldl (fun acc c => acc * 10 + (c.toNat - 0x30)) acc

/-- Digit by digit the smaller text is the smaller number. -/
theorem digitsFrom_le {s t : Text} (hs : IsNumber s) (ht : IsNumber t)
    (hlen : s.length = t.length) {a b : Nat} (h : a < b ∨ a = b ∧ strcmp s t ≤ 0) :
    digitsFrom a s ≤ digitsFrom b t := by
  induction s generalizing t a b with
  | nil =>
    obtain rfl := List.eq_nil_of_length_eq_zero hlen.symm
    rcases h with h | ⟨rfl, -⟩
    · exact Nat.le_of_lt h
    · exact Nat.le_refl a
  | cons c s ih =>
    cases t with
    | nil => cases hlen
    | cons d t =>
      have hc := isdigit_iff.mp (hs c List.mem_cons_self)
      have hd := isdigit_iff.mp (ht d List.mem_cons_self)
      refine ih (fun x hx => hs x (List.mem_cons_of_mem c hx))
        (fun x hx => ht x (List.mem_cons_of_mem d hx)) (Nat.succ.inj hlen) ?_
      dsimp only
      rcases h with h | ⟨rfl, h⟩
      · exact Or.inl (by omega)
      · rcases (strcmp_cons_le_iff c d s t).mp h with hlt | ⟨rfl, hle⟩
        · exact Or.inl (by omega)
        · exact Or.inr ⟨rfl, hle⟩

theorem atoi_eq {s : Text} (h : IsNumber s) : atoi s = clampInt (digitsFrom 0 s) := by
  have htake : s.takeWhile isdigit = s := List.takeWhile_eq_self_iff.mpr h
  rw [atoi_of_digits h, leadingNumber, htake]
  rfl

theorem clampInt_mono {a b : Int} (h : a ≤ b) : clampInt a ≤ clampInt b := by
  unfold clampInt
  omega

theorem digitsFrom_eq (acc : Nat) (s : Text) :
    digitsFrom acc s = acc * 10 ^ s.length + digitsFrom 0 s := by
  induction s generalizing acc with
  | nil => simp [digitsFrom]
  | cons c s ih =>
    have hacc := ih (acc * 10 + (c.toNat - 0x30))
    have hzero := ih (0 * 10 + (c.toNat - 0x30))
    simp only [digitsFrom, List.foldl_cons, List.length_cons] at hacc hzero ⊢
    rw [hacc, hzero]
    ring

theorem digitsFrom_lt {s : Text} (h : IsNumber s) : digitsFrom 0 s < 10 ^ s.length := by
  induction s with
  | nil => simp [digitsFrom]
  | cons c s ih =>
    have hc := isdigit_iff.mp (h c List.mem_cons_self)
    have hrest := ih fun x hx => h x (List.mem_cons_of_mem c hx)
    have hcons : digitsFrom 0 (c :: s) = digitsFrom (0 * 10 + (c.toNat - 0x30)) s := rfl
    have hdigit : (c.toNat - 0x30) * 10 ^ s.length ≤ 9 * 10 ^ s.length :=
      Nat.mul_le_mul_right _ (by omega)
    rw [hcons, digitsFrom_eq, List.length_cons, Nat.pow_succ, Nat.zero_mul, Nat.zero_add]
    omega

section SameDigits

variable {L : ClientList}

/-- sACN universes with one number of digits are listed in their order. -/
theorem sacn_agrees_of_length {len : Nat}
    (hnumber : ∀ k < L.client_valid_num, IsNumber (sacnText (L.client_valid_list k)))
    (hlen : ∀ k < L.client_valid_num, (sacnText (L.client_valid_list k)).length = len) :
    Agrees sacnText sacnUniverse L := by
  intro x hx y hy hle
  have hdigits := digitsFrom_le (hnumber x hx) (hnumber y hy) ((hlen x hx).trans (hlen y hy).symm)
    (Or.inr ⟨rfl, hle⟩ : 0 < 0 ∨ _)
  change atoi (sacnText _) ≤ atoi (sacnText _)
  rw [atoi_eq (hnumber x hx), atoi_eq (hnumber y hy)]
  exact clampInt_mono (Int.ofNat_le.mpr hdigits)

/-- A subnet and a universe as the configuration page sends them. -/
def IsAddress (e : ClientEnt) : Prop :=
  IsNumber (e.member .subnet) ∧ digitsFrom 0 (e.member .subnet) ≤ 15 ∧
    IsNumber (e.member .universe) ∧ digitsFrom 0 (e.member .universe) ≤ 15

theorem portAddress_eq {e : ClientEnt} (h : IsAddress e) :
    portAddress e =
      16 * (digitsFrom 0 (e.member .subnet) : Int) + digitsFrom 0 (e.member .universe) := by
  obtain ⟨hsub, hsub15, huni, huni15⟩ := h
  rw [portAddress, atoi_eq hsub, atoi_eq huni]
  unfold clampInt
  omega

/-- Nodes whose subnets have one number of digits, and whose universes have one, are listed
in the order of their Port-Addresses. -/
theorem art_agrees_of_length {len len' : Nat}
    (haddress : ∀ k < L.client_valid_num, IsAddress (L.client_valid_list k))
    (hlen : ∀ k < L.client_valid_num, ((L.client_valid_list k).member .subnet).length = len ∧
      ((L.client_valid_list k).member .universe).length = len') :
    Agrees artText portAddress L := by
  intro x hx y hy hle
  obtain ⟨hxsub, -, hxuni, hx15⟩ := haddress x hx
  obtain ⟨hysub, -, hyuni, -⟩ := haddress y hy
  have hnumber : ∀ {s u : Text}, IsNumber s → IsNumber u → IsNumber (s ++ u) :=
    fun hs hu c hc => (List.mem_append.mp hc).elim (hs c) (hu c)
  have hsame : (artText (L.client_valid_list x)).length =
      (artText (L.client_valid_list y)).length := by
    simp only [artText, List.length_append, hlen x hx, hlen y hy]
  have hdigits := digitsFrom_le (hnumber hxsub hxuni) (hnumber hysub hyuni) hsame
    (Or.inr ⟨rfl, hle⟩ : 0 < 0 ∨ _)
  have hvalue : ∀ s u : Text, digitsFrom 0 (s ++ u) =
      digitsFrom 0 s * 10 ^ u.length + digitsFrom 0 u := by
    intro s u
    rw [digitsFrom, List.foldl_append]
    exact digitsFrom_eq _ u
  have hbelow := digitsFrom_lt hyuni
  rw [hvalue, hvalue, (hlen x hx).2, (hlen y hy).2] at hdigits
  rw [(hlen y hy).2] at hbelow
  rw [portAddress_eq (haddress x hx), portAddress_eq (haddress y hy)]
  -- the subnets decide unless they are equal
  rcases Nat.lt_trichotomy (digitsFrom 0 ((L.client_valid_list x).member .subnet))
      (digitsFrom 0 ((L.client_valid_list y).member .subnet)) with hlt | heq | hgt
  · omega
  · rw [heq] at hdigits ⊢
    omega
  · have hmul := Nat.mul_le_mul_right (10 ^ len') (Nat.succ_le_of_lt hgt)
    rw [Nat.succ_mul] at hmul
    omega

end SameDigits

/-! ### Two nodes -/

theorem strings_set {e : ClientEnt} (he : ∀ m, (0 : UInt8) ∉ e.member m) {m : Member} {s : Text}
    {h : s.length < m.size} (hs : (0 : UInt8) ∉ s) : ∀ m', (0 : UInt8) ∉ (e.set m s h).member m' := by
  intro m'
  rw [ClientEnt.set_member, Function.update_apply]
  split
  · exact hs
  · exact he m'

/-- An entry with these universes, on subnet 0. -/
def sampleEnt (univ : Text) (h : univ.length < 4) : ClientEnt :=
  ((ClientEnt.blank.set .subnet (ascii "0") (by decide)).set .universe univ h).set .sacn_univ
    univ (Nat.lt_trans h (by decide))

/-- Two nodes with these universes. -/
def sampleList (u u' : Text) (h : u.length < 4) (h' : u'.length < 4) (hu : (0 : UInt8) ∉ u)
    (hu' : (0 : UInt8) ∉ u') : ClientList where
  client_valid_list := fun k => if k = 0 then sampleEnt u h else sampleEnt u' h'
  client_valid_num := 2
  strings := by
    intro k
    have hent : ∀ (v : Text) (hv : v.length < 4), (0 : UInt8) ∉ v →
        ∀ m, (0 : UInt8) ∉ (sampleEnt v hv).member m := by
      intro v hv h0
      exact strings_set (strings_set (strings_set (fun _ => List.not_mem_nil) (by decide)) h0) h0
    split
    · exact hent u h hu
    · exact hent u' h' hu'

def nineTen : ClientList :=
  sampleList (ascii "9") (ascii "10") (by decide) (by decide) (by decide) (by decide)

/-- Universe 10 is listed before universe 9, by either key. -/
theorem ten_before_nine :
    ¬ Ascending 0x34 sacnUniverse nineTen ∧ ¬ Ascending 0x33 portAddress nineTen := by
  constructor
  · intro h
    exact absurd (h 0 1 (by decide) (by decide)) (by decide +kernel)
  · intro h
    exact absurd (h 0 1 (by decide) (by decide)) (by decide +kernel)

end AksFirmware.ConstellationSort
