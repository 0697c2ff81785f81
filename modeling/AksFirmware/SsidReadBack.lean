import Mathlib.Tactic.IntervalCases
import AksFirmware.SsidSettings

/-!
# Reading the settings back

What `save_mbss_value_to_flash` saves, `parse_config_file` reads, but for empty texts.  Most
of them are saved or read as something else on purpose.  An empty item of a list is lost
instead, when it is not the only one: `strtok` passes over it and the later items move up.
-/

namespace AksFirmware.SsidReadBack

open ByteMemory CText WebConfig Runs SeparatedText SsidSettings

/-! ### Printed numbers -/

theorem natAbs_lt (n : Int32) : n.toInt.natAbs < 10000000000 := by
  have hlow := n.le_toInt
  have hhigh := n.toInt_lt
  omega

theorem printInt_ne_nil (n : Int32) : printInt n ≠ [] := by
  unfold printInt
  split
  · exact List.cons_ne_nil _ _
  · exact decimal_ne_nil _

theorem mem_printInt {n : Int32} {c : UInt8} (h : c ∈ printInt n) :
    c = 0x2d ∨ 48 ≤ c.toNat ∧ c.toNat ≤ 57 := by
  unfold printInt at h
  split at h
  · exact (List.mem_cons.mp h).imp_right mem_decimal
  · exact .inr (mem_decimal h)

theorem printInt_length (n : Int32) : (printInt n).length < 12 := by
  have hdigits : (decimal n.toInt.natAbs).length ≤ 10 := by
    rw [decimal, List.length_map, Nat.length_toDigits_le_iff (by decide) (by decide)]
    exact natAbs_lt n
  unfold printInt
  split
  · rw [List.length_cons]
    omega
  · omega

/-- A number is read as it was printed. -/
theorem atoi_printInt (n : Int32) : atoi (printInt n) = n.toInt := by
  have hlow := n.le_toInt
  have hhigh := n.toInt_lt
  unfold printInt
  split
  · rename_i hneg
    have hsign : atoi (0x2d :: decimal n.toInt.natAbs) =
        clampInt (-(leadingNumber (decimal n.toInt.natAbs) : Int)) := rfl
    rw [hsign, leadingNumber_decimal, clampInt]
    omega
  · rename_i hpos
    rw [atoi_decimal (by omega)]
    omega

/-! ### What stands for an empty text -/

/-- The text that is read when an empty one has been saved. -/
def whenEmpty : TextMember → Nat → Text
  | .SSID, i => ssidDefault i
  | .AuthMode, _ => ascii "OPEN"
  | .EncrypType, _ => ascii "NONE"
  | .VlanName, _ => ascii "ralink-vlan0"
  | .RekeyMethod, _ => ascii "DISABLE"
  | .radius_secret, _ => []
  | _, _ => ascii "0"

/-- The texts that are saved in a list as they are. -/
def Listed (f : TextMember) : Prop := f = .AuthMode ∨ f = .EncrypType ∨ f = .VlanName

instance (f : TextMember) : Decidable (Listed f) := by unfold Listed; infer_instance

theorem whenEmpty_const {f : TextMember} (hf : f ≠ .SSID) (i : Nat) :
    whenEmpty f i = whenEmpty f 0 := by
  cases f <;> first | exact absurd rfl hf | rfl

theorem whenEmpty_ne_nil {f : TextMember} (hf : Listed f) : whenEmpty f 0 ≠ [] := by
  rcases hf with rfl | rfl | rfl <;> decide

theorem whenEmpty_fits (f : TextMember) {i : Nat} (hi : i < 4) :
    (whenEmpty f i).length < f.size ∧ (0 : UInt8) ∉ whenEmpty f i ∧
      (0x3b : UInt8) ∉ whenEmpty f i := by
  by_cases hf : f = .SSID
  · rw [hf]
    interval_cases i <;> decide
  · rw [whenEmpty_const hf]
    cases f <;> decide

theorem substitute_substitute (a b s : Text) :
    substitute a (substitute b s) = substitute (substitute a b) s := by
  unfold substitute
  by_cases hs : s = []
  · rw [if_pos hs, if_pos hs]
  · rw [if_neg hs, if_neg hs, if_neg hs]

theorem substitute_nil (s : Text) : substitute [] s = s := by
  unfold substitute
  split
  · rename_i h
    exact h.symm
  · rfl

theorem substitute_of_ne_nil (instead : Text) {s : Text} (h : s ≠ []) : substitute instead s = s :=
  if_neg h

theorem substitute_mem {P : Text → Prop} {instead s : Text} (h : P instead) (h' : P s) :
    P (substitute instead s) := by
  unfold substitute
  split
  · exact h
  · exact h'

theorem intoArray_eq_some {k : Nat} {s : Text} (hlen : s.length < k) (hzero : (0 : UInt8) ∉ s) :
    ∃ v, intoArray k s = some v ∧ v.val = s :=
  ⟨⟨s, hlen, hzero⟩, dif_pos ⟨hlen, hzero⟩, rfl⟩

/-! ### The calls of `CFG_set` -/

/-- The text that an entry holds. -/
def Stored (cfg : Cfg) (w : Nat × Text) : Prop := ∃ v, cfg w.1 = some v ∧ v.val = w.2

theorem Stored.get {cfg : Cfg} {id : Nat} {s : Text} (h : Stored cfg (id, s)) (val : Text) :
    CFG_get_str cfg id val = s := by
  obtain ⟨v, hv, rfl⟩ := h
  rw [CFG_get_str, hv]

/-- Texts for different ids are all stored, and no other entry changes. -/
theorem exec_CFG_set (ws : List (Nat × Text))
    (hfits : ∀ w ∈ ws, w.2.length < 255 ∧ (0 : UInt8) ∉ w.2) (hids : (ws.map Prod.fst).Nodup)
    (cfg : Cfg) :
    ∃ cfg', exec CFG_set cfg ws = some cfg' ∧ (∀ w ∈ ws, Stored cfg' w) ∧
      ∀ id ∉ ws.map Prod.fst, cfg' id = cfg id := by
  induction ws generalizing cfg with
  | nil => exact ⟨cfg, rfl, by simp, fun _ _ => rfl⟩
  | cons w ws ih =>
    obtain ⟨hw, hfits⟩ := List.forall_mem_cons.mp hfits
    obtain ⟨hfresh, hids⟩ := List.nodup_cons.mp hids
    obtain ⟨v, hv, hval⟩ := intoArray_eq_some hw.1 hw.2
    have hset : CFG_set cfg w = some (Function.update cfg w.1 (some v)) := by
      rw [CFG_set, hv, Option.map_some]
    obtain ⟨cfg', hrun, hstored, hsame⟩ := ih hfits hids (Function.update cfg w.1 (some v))
    refine ⟨cfg', exec_cons_eq_some.mpr ⟨_, hset, hrun⟩, ?_, fun id hid => ?_⟩
    · refine List.forall_mem_cons.mpr ⟨⟨v, ?_, hval⟩, hstored⟩
      rw [hsame _ hfresh, Function.update_self]
    · rw [List.map_cons, List.mem_cons, not_or] at hid
      rw [hsame id hid.2, Function.update_of_ne hid.1]

/-! ### What is saved -/

section Saved

variable {t : Table} {n : Nat}

theorem enabled_eq (hn : n ≤ 4) (h : ∀ i < 4, t i (.int .enable) = 1 ↔ i < n) :
    enabled t = List.range n := by
  have hfilter : enabled t = (List.range 4).filter fun i => i < n := by
    apply List.filter_congr
    intro i hi
    exact decide_eq_decide.mpr (h i (List.mem_range.mp hi))
  rw [hfilter]
  interval_cases n <;> rfl

/-- The ids that a block writes for `n` enabled entries. -/
def ids (n : Nat) : SaveBlock → List Nat
  | .list id _ _ => [id]
  | .each ids _ _ => (List.range n).map fun i => ids.getD i 0

theorem map_fst_writes (hen : enabled t = List.range n) (b : SaveBlock) :
    (b.writes t).map Prod.fst = ids n b := by
  cases b with
  | list id m instead => rfl
  | each is f instead =>
    rw [SaveBlock.writes, hen, List.map_map]
    rfl

theorem ids_nodup (hn : n ≤ 4) :
    (CFG_WLN_NewVersion :: CFG_WLN_BssidNum :: (savedBlocks 1).flatMap (ids n)).Nodup := by
  interval_cases n <;> decide

/-- A member prints as a text of this many bytes. -/
def width : Member → Nat
  | .int _ => 12
  | .text f => f.size

theorem printValue_fits (m : Member) (v : m.Value) :
    (printValue m v).length < width m ∧ (0 : UInt8) ∉ printValue m v := by
  cases m with
  | int f =>
    refine ⟨printInt_length v, fun h => ?_⟩
    rcases mem_printInt h with h | h
    · exact absurd h (by decide)
    · exact absurd h.1 (by decide)
  | text f => exact ⟨v.fits, v.clean⟩

/-- The items of a list are short, and the texts saved for an empty one too. -/
def Narrow : SaveBlock → Prop
  | .list _ m instead => width m ≤ 20 ∧ instead.length < 20 ∧ (0 : UInt8) ∉ instead
  | .each _ _ instead => instead.length < 20 ∧ (0 : UInt8) ∉ instead

instance (b : SaveBlock) : Decidable (Narrow b) := by
  cases b <;> (unfold Narrow; infer_instance)

theorem narrow_of_mem {b : SaveBlock} (hb : b ∈ savedBlocks 1) : Narrow b := by
  have hall : (savedBlocks 1).all fun b => Narrow b := by decide
  exact of_decide_eq_true (List.all_eq_true.mp hall b hb)

/-- The items of a list. -/
def items (t : Table) (n : Nat) (m : Member) (instead : Text) : List Text :=
  (List.range n).map fun i => substitute instead (printValue m (t i m))

theorem writes_fit (hn : n ≤ 4) (hen : enabled t = List.range n) {b : SaveBlock} (hb : Narrow b)
    {w : Nat × Text} (hw : w ∈ b.writes t) : w.2.length < 255 ∧ (0 : UInt8) ∉ w.2 := by
  cases b with
  | list id m instead =>
    obtain ⟨hwidth, hlen, hzero⟩ := hb
    rw [SaveBlock.writes, hen, List.mem_singleton] at hw
    obtain rfl := hw
    have hitem : ∀ v ∈ items t n m instead, v.length < 20 ∧ (0 : UInt8) ∉ v := by
      intro v hv
      obtain ⟨i, -, rfl⟩ := List.mem_map.mp hv
      have hprint := printValue_fits m (t i m)
      exact substitute_mem (P := fun s => s.length < 20 ∧ (0 : UInt8) ∉ s) ⟨hlen, hzero⟩
        ⟨Nat.lt_of_lt_of_le hprint.1 hwidth, hprint.2⟩
    have hjoined := joined_length_le 0x3b fun v hv => (hitem v hv).1
    rw [items, List.length_map, List.length_range] at hjoined
    refine ⟨by dsimp only; omega, fun hmem => ?_⟩
    rcases mem_joined hmem with h | ⟨v, hv, h⟩
    · exact absurd h (by decide)
    · exact (hitem v hv).2 h
  | each is f instead =>
    obtain ⟨hlen, hzero⟩ := hb
    obtain ⟨i, -, rfl⟩ := List.mem_map.mp hw
    have hsize : f.size ≤ 65 := by cases f <;> decide
    have hfits := (t i (.text f)).fits
    exact substitute_mem (P := fun s => s.length < 255 ∧ (0 : UInt8) ∉ s) ⟨by omega, hzero⟩
      ⟨by omega, (t i (.text f)).clean⟩

theorem saved_ids (hen : enabled t = List.range n) :
    ((savedBlocks 1).flatMap (·.writes t)).map Prod.fst = (savedBlocks 1).flatMap (ids n) := by
  rw [List.map_flatMap]
  exact List.flatMap_congr fun b _ => map_fst_writes hen b

theorem saved_fit (hn : n ≤ 4) (hen : enabled t = List.range n) {w : Nat × Text}
    (hw : w ∈ (savedBlocks 1).flatMap (·.writes t)) : w.2.length < 255 ∧ (0 : UInt8) ∉ w.2 := by
  obtain ⟨b, hb, hw⟩ := List.mem_flatMap.mp hw
  exact writes_fit hn hen (narrow_of_mem hb) hw

/-- Everything is saved, and no other entry changes. -/
theorem save_stores (hn1 : 1 ≤ n) (hn : n ≤ 4) (hen : enabled t = List.range n) (cfg : Cfg) :
    ∃ cfg', save_mbss_value_to_flash 1 t cfg = some cfg' ∧
      Stored cfg' (CFG_WLN_NewVersion, ascii "2") ∧
      (∀ b ∈ savedBlocks 1, ∀ w ∈ b.writes t, Stored cfg' w) ∧
      cfg' CFG_WLN_BssidNum = cfg CFG_WLN_BssidNum := by
  have hids := ids_nodup hn
  rw [List.nodup_cons, List.nodup_cons, List.mem_cons, not_or] at hids
  obtain ⟨⟨-, hversion⟩, hnum, hrest⟩ := hids
  obtain ⟨cfg', hrun, hstored, hsame⟩ := exec_CFG_set
    ((CFG_WLN_NewVersion, ascii "2") :: (savedBlocks 1).flatMap (·.writes t))
    (List.forall_mem_cons.mpr ⟨by decide, fun w hw => saved_fit hn hen hw⟩)
    (by
      rw [List.map_cons, saved_ids hen]
      exact List.nodup_cons.mpr ⟨hversion, hrest⟩)
    cfg
  obtain ⟨hfirst, hothers⟩ := List.forall_mem_cons.mp hstored
  have hne : enabled t ≠ [] := by
    rw [hen]
    exact fun h => absurd (List.range_eq_nil.mp h) (by omega)
  refine ⟨cfg', by rw [save_mbss_value_to_flash, if_neg hne, hrun], hfirst,
    fun b hb w hw => hothers w (List.mem_flatMap.mpr ⟨b, hb, hw⟩), hsame _ ?_⟩
  rw [List.map_cons, saved_ids hen, List.mem_cons, not_or]
  exact ⟨by decide, hnum⟩

end Saved

/-! ### The loops of the reader -/

section Loops

variable {R : Nat → (m : Member) → m.Value → Prop} {P : Member → Prop}

/-- The members `P` of the entries from `lo` to `hi` have values in `R`, and no others
have changed. -/
def Fills (R : Nat → (m : Member) → m.Value → Prop) (P : Member → Prop) (lo hi : Nat)
    (s s' : ParseState) : Prop :=
  (∀ i, lo ≤ i → i < hi → ∀ m, P m → R i m (s'.mBSSID i m)) ∧
    ∀ i m, ¬ (lo ≤ i ∧ i < hi ∧ P m) → s'.mBSSID i m = s.mBSSID i m

theorem Fills.trans {lo mid hi : Nat} {s s' s'' : ParseState} (hlo : lo ≤ mid) (hhi : mid ≤ hi)
    (h : Fills R P lo mid s s') (h' : Fills R P mid hi s' s'') : Fills R P lo hi s s'' := by
  refine ⟨fun i hi₁ hi₂ m hm => ?_, fun i m hout => ?_⟩
  · rcases Nat.lt_or_ge i mid with hlt | hge
    · rw [h'.2 i m fun hin => by omega]
      exact h.1 i hi₁ hlt m hm
    · exact h'.1 i hge hi₂ m hm
  · rw [h'.2 i m fun hin => hout ⟨by omega, hin.2.1, hin.2.2⟩,
      h.2 i m fun hin => hout ⟨hin.1, by omega, hin.2.2⟩]

theorem Fills.whole {hi : Nat} {s s' : ParseState} (h : Fills R P 0 hi s s') :
    (∀ m, P m → ∀ i < hi, R i m (s'.mBSSID i m)) ∧
      ∀ m, ¬ P m → ∀ i, s'.mBSSID i m = s.mBSSID i m :=
  ⟨fun m hm i hin => h.1 i (Nat.zero_le i) hin m hm,
    fun m hm i => h.2 i m fun hin => hm hin.2.2⟩

theorem forEach_fills {α : Type} (body : Nat → α → ParseState → Option ParseState) (as : List α) :
    ∀ start : Nat, (∀ k (h : k < as.length) s, ∃ s', body (start + k) as[k] s = some s' ∧
      Fills R P (start + k) (start + k + 1) s s') →
    ∀ s, ∃ s', forEach body start as s = some s' ∧ Fills R P start (start + as.length) s s' := by
  induction as with
  | nil =>
    intro start _ s
    exact ⟨s, rfl, fun i hlo hhi => absurd hlo (Nat.not_le.mpr hhi), fun _ _ _ => rfl⟩
  | cons a as ih =>
    intro start hbody s
    obtain ⟨s₁, hfirst, hfills⟩ := hbody 0 (Nat.zero_lt_succ _) s
    obtain ⟨s₂, hrest, hfills'⟩ := ih (start + 1) (fun k hk s => by
      have hk' := hbody (k + 1) (Nat.succ_lt_succ hk) s
      rwa [show start + (k + 1) = start + 1 + k by omega] at hk') s₁
    refine ⟨s₂, ?_, hfills.trans (Nat.le_succ start) (by rw [List.length_cons]; omega) ?_⟩
    · rw [forEach, show body start a s = some s₁ from hfirst, Option.bind_some, hrest]
    · rwa [List.length_cons, show start + (as.length + 1) = start + 1 + as.length by omega]

theorem flag_mBSSID (s : ParseState) (m : Member) (tok : Text) :
    (s.flag m tok).mBSSID = s.mBSSID := by
  unfold ParseState.flag
  split
  · split <;> rfl
  · split <;> rfl
  · split
    · rfl
    · split <;> rfl
  · rfl

theorem set_eq_some (t : Table) {i : Nat} (hi : i < 4) (m : Member) (v : m.Value) :
    ∃ t', t.set i m v = some t' ∧ t' i m = v ∧
      ∀ j m', (j ≠ i ∨ m' ≠ m) → t' j m' = t j m' := by
  refine ⟨_, if_pos hi, by rw [Function.update_self, Function.update_self], fun j m' hne => ?_⟩
  by_cases hj : j = i
  · rw [hj, Function.update_self, Function.update_of_ne (hne.resolve_left fun h => h hj)]
  · rw [Function.update_of_ne hj]

/-- One value in one entry. -/
theorem put_fills {m : Member} {i : Nat} {tok : Text} (hi : i < 4) {v : m.Value}
    (hread : readValue m tok = some v) (hR : R i m v) (s : ParseState) :
    ∃ s', s.put m i tok = some s' ∧ Fills R (· = m) i (i + 1) s s' := by
  obtain ⟨t', hset, hat, hsame⟩ := set_eq_some s.mBSSID hi m v
  refine ⟨_, by rw [ParseState.put, hread, Option.bind_eq_bind, Option.bind_some, hset]; rfl, ?_, ?_⟩
  · rintro j hlo hhi m' rfl
    obtain rfl : j = i := by omega
    rw [flag_mBSSID]
    change R j m' (t' j m')
    rwa [hat]
  · intro j m' hout
    rw [flag_mBSSID]
    apply hsame
    by_contra hnot
    rw [not_or, not_not, not_not] at hnot
    exact hout ⟨by omega, by omega, hnot.2⟩

end Loops

/-! ### What is read -/

/-- What a member of the entry `i` holds when it has been read back.  Nothing is said of
`TxRate`, which is not saved, and of an item that other items surround and that may be empty. -/
def Restored (n : Nat) (t : Table) (i : Nat) : (m : Member) → m.Value → Prop
  | .int f, v => f ≠ .TxRate → v = t i (.int f)
  | .text f, v =>
      (Listed f → n = 1 ∨ ∀ j < n, (t j (.text f)).val ≠ []) →
        v.val = substitute (whenEmpty f i) (t i (.text f)).val

def fills : ParseBlock → Member → Prop
  | .ssid, m => m = .text .SSID ∨ m = .int .enable
  | .list _ m' _ _, m => m = m'
  | .each _ f, m => m = .text f

instance (b : ParseBlock) (m : Member) : Decidable (fills b m) := by
  cases b <;> (unfold fills; infer_instance)

/-- A block restores its members in the enabled entries and leaves all others alone. -/
def Restores (n : Nat) (t : Table) (cfg : Cfg) (b : ParseBlock) : Prop :=
  ∀ s, ∃ s', b.run cfg n s = some s' ∧
    (∀ m, fills b m → ∀ i < n, Restored n t i m (s'.mBSSID i m)) ∧
    ∀ m, ¬ fills b m → ∀ i, s'.mBSSID i m = s.mBSSID i m

theorem readValue_text {f : TextMember} {s : Text} (hlen : s.length < f.size)
    (hzero : (0 : UInt8) ∉ s) : ∃ v, readValue (.text f) s = some v ∧ v.val = s :=
  intoArray_eq_some hlen hzero

/-- A text and the one that stands for it when it is empty fit the array that they are read into. -/
theorem readValue_substitute (f : TextMember) {i : Nat} (hi : i < 4) (s : Str f.size) :
    ∃ v, readValue (.text f) (substitute (whenEmpty f i) s.val) = some v ∧
      v.val = substitute (whenEmpty f i) s.val := by
  obtain ⟨hlen, hzero, -⟩ := whenEmpty_fits f hi
  have hfits := substitute_mem (P := fun s => s.length < f.size ∧ (0 : UInt8) ∉ s) ⟨hlen, hzero⟩
    ⟨s.fits, s.clean⟩
  exact readValue_text hfits.1 hfits.2

section Read

variable {t : Table} {n : Nat} {cfg : Cfg}

theorem getNumbered_fills {is : List Nat} {f : TextMember} (empty : Nat → Text) {instead : Text}
    {i : Nat} (hi : i < 4)
    (hstored : Stored cfg (is.getD i 0, substitute instead (t i (.text f)).val))
    (hempty : substitute (empty i) instead = whenEmpty f i) (s : ParseState) :
    ∃ s', getNumbered cfg is f empty i s = some s' ∧
      Fills (Restored n t) (· = .text f) i (i + 1) s s' := by
  obtain ⟨v, hv, hval⟩ := readValue_substitute f hi (t i (.text f))
  have hread : readValue (.text f) (substitute (empty i)
      (substitute instead (t i (.text f)).val)) = some v := by
    rw [substitute_substitute, hempty]
    exact hv
  rw [getNumbered, if_pos hi, hstored.get]
  exact put_fills hi hread (fun _ => hval) _

theorem each_restores {is : List Nat} {f : TextMember} {instead : Text} (hn : n ≤ 4)
    (hstored : ∀ i < n, Stored cfg (is.getD i 0, substitute instead (t i (.text f)).val))
    (hf : f ≠ .SSID) (hempty : whenEmpty f 0 = instead) : Restores n t cfg (.each is f) := by
  intro s
  obtain ⟨s', hrun, hfills⟩ := forEach_fills (R := Restored n t) (P := (· = .text f))
    (fun i _ => getNumbered cfg is f (fun _ => []) i) (List.range n) 0
    (fun k hk s => by
      rw [List.length_range] at hk
      rw [Nat.zero_add]
      refine getNumbered_fills _ (by omega) (hstored k hk) ?_ s
      rw [substitute_nil, whenEmpty_const hf, hempty]) s
  rw [Nat.zero_add, List.length_range] at hfills
  exact ⟨s', hrun, hfills.whole⟩

theorem ssid_restores (hn : n ≤ 4) (henable : ∀ i < n, t i (.int .enable) = 1)
    (hstored : ∀ i < n, Stored cfg (CFG_WLN_SSID.getD i 0, substitute [] (t i (.text .SSID)).val)) :
    Restores n t cfg .ssid := by
  intro s
  obtain ⟨s', hrun, hfills⟩ := forEach_fills (R := Restored n t) (P := fills .ssid)
      (fun i (_ : Nat) (s : ParseState) => (s.mBSSID.set i (.int .enable) 1).bind fun t =>
        getNumbered cfg CFG_WLN_SSID .SSID ssidDefault i { s with mBSSID := t })
      (List.range n) 0 (fun k hk s => by
    rw [List.length_range] at hk
    rw [Nat.zero_add]
    obtain ⟨t', hset, hat, hsame⟩ := set_eq_some s.mBSSID (i := k) (by omega) (.int .enable) 1
    obtain ⟨s', hrun, hfills⟩ := getNumbered_fills (n := n) ssidDefault (by omega)
      (hstored k hk) rfl { s with mBSSID := t' }
    refine ⟨s', by rw [hset, Option.bind_some, hrun], ?_, ?_⟩
    · rintro i hlo hhi m (rfl | rfl)
      · exact hfills.1 i hlo hhi _ rfl
      · obtain rfl : i = k := by omega
        intro _
        rw [hfills.2 i (.int .enable) fun hin => nomatch hin.2.2]
        exact hat.trans (henable i hk).symm
    · intro i m hout
      rw [hfills.2 i m fun hin => hout ⟨hin.1, hin.2.1, .inl hin.2.2⟩]
      apply hsame
      by_contra hnot
      rw [not_or, not_not, not_not] at hnot
      exact hout ⟨by omega, by omega, .inr hnot.2⟩) s
  rw [Nat.zero_add, List.length_range] at hfills
  exact ⟨s', hrun, hfills.whole⟩

/-- The items that are read for a member restore it. -/
structure Reads (n : Nat) (t : Table) (m : Member) (bounded : Bool) (toks : List Text) : Prop where
  within : bounded = true ∨ toks.length ≤ n
  item : ∀ k (h : k < toks.length), k < n → ∃ v, readValue m toks[k] = some v ∧ Restored n t k m v
  all : toks.length = n ∨ ∀ i v, Restored n t i m v

theorem Reads.restores {m : Member} {bounded : Bool} {toks : List Text} (hn : n ≤ 4)
    (h : Reads n t m bounded toks) (s : ParseState) :
    ∃ s', forEach (fun i tok s => if bounded = true ∧ n ≤ i then some s else s.put m i tok) 0 toks s =
        some s' ∧
      (∀ m', m' = m → ∀ i < n, Restored n t i m' (s'.mBSSID i m')) ∧
      ∀ m' ≠ m, ∀ i, s'.mBSSID i m' = s.mBSSID i m' := by
  obtain ⟨s', hrun, hfills⟩ := forEach_fills
    (R := fun i m v => i < n → Restored n t i m v) (P := (· = m))
    (fun i tok s => if bounded = true ∧ n ≤ i then some s else s.put m i tok)
    toks 0 (fun k hk s => by
      rw [Nat.zero_add]
      by_cases hskip : bounded = true ∧ n ≤ k
      · rw [if_pos hskip]
        exact ⟨s, rfl, fun i hlo _ m _ hi => absurd hskip.2 (by omega), fun _ _ _ => rfl⟩
      · rw [if_neg hskip]
        have hkn : k < n := by
          rcases h.within with hb | hlen
          · exact Nat.lt_of_not_le fun hle => hskip ⟨hb, hle⟩
          · omega
        obtain ⟨v, hread, hv⟩ := h.item k hk hkn
        exact put_fills (by omega) hread (fun _ => hv) s) s
  rw [Nat.zero_add] at hfills
  refine ⟨s', hrun, ?_, hfills.whole.2⟩
  rintro m rfl i hi
  rcases h.all with hlen | hall
  · exact hfills.1 i (Nat.zero_le i) (hlen ▸ hi) m rfl hi
  · exact hall i _

/-- What is saved in a list for an empty text. -/
def stands : Member → Text
  | .int _ => []
  | .text f => if Listed f then [] else whenEmpty f 0

theorem readValue_printInt (f : IntMember) (v : Int32) :
    readValue (.int f) (printInt v) = some v := by
  rw [readValue, atoi_printInt, Int32.ofInt_toInt]

/-- Items that are not empty and that restore the member are all read. -/
theorem reads_items {m : Member} (bounded : Bool) {instead : Text}
    (hitem : ∀ v ∈ items t n m instead, v ≠ [] ∧ (0x3b : UInt8) ∉ v)
    (hread : ∀ i < n, ∃ v, readValue m (substitute instead (printValue m (t i m))) = some v ∧
      Restored n t i m v) :
    Reads n t m bounded (tokens 0x3b (joined 0x3b (items t n m instead))) := by
  have htokens : tokens 0x3b (joined 0x3b (items t n m instead)) = items t n m instead := by
    rw [tokens_joined fun v hv => (hitem v hv).2]
    exact List.filter_eq_self.mpr fun v hv => decide_eq_true (hitem v hv).1
  have hlen : (items t n m instead).length = n := by
    rw [items, List.length_map, List.length_range]
  rw [htokens]
  refine ⟨.inr hlen.le, fun k hk hkn => ?_, .inl hlen⟩
  have hget : (items t n m instead)[k] = substitute instead (printValue m (t k m)) := by
    simp only [items, List.getElem_map, List.getElem_range]
  rw [hget]
  exact hread k hkn

theorem items_ne_blank {m : Member} {instead : Text}
    (h : ∀ i < n, substitute instead (printValue m (t i m)) ≠ []) :
    items t n m instead ≠ [[]] := by
  intro hblank
  have hmem : ([] : Text) ∈ items t n m instead := by
    rw [hblank]
    exact List.mem_singleton.mpr rfl
  obtain ⟨i, hi, hnil⟩ := List.mem_map.mp hmem
  exact h i (List.mem_range.mp hi) hnil

theorem reads_int (f : IntMember) (bounded : Bool) :
    Reads n t (.int f) bounded (tokens 0x3b (joined 0x3b (items t n (.int f) []))) := by
  refine reads_items bounded (fun v hv => ?_) fun i _ => ?_
  · obtain ⟨i, -, rfl⟩ := List.mem_map.mp hv
    rw [substitute_nil]
    refine ⟨printInt_ne_nil _, fun h => ?_⟩
    rcases mem_printInt h with h | h
    · exact absurd h (by decide)
    · exact absurd h.2 (by decide)
  · rw [substitute_nil]
    exact ⟨_, readValue_printInt f (t i (.int f)), fun _ => rfl⟩

/-- A text that is saved as another one when it is empty. -/
theorem reads_text {f : TextMember} (bounded : Bool) {instead : Text}
    (hsemi : ∀ i < n, (0x3b : UInt8) ∉ (t i (.text f)).val) (hn : n ≤ 4)
    (hitem : ∀ i < n, substitute instead (t i (.text f)).val ≠ [] ∧
      substitute instead (t i (.text f)).val = substitute (whenEmpty f i) (t i (.text f)).val) :
    Reads n t (.text f) bounded (tokens 0x3b (joined 0x3b (items t n (.text f) instead))) := by
  refine reads_items bounded (fun v hv => ?_) fun i hi => ?_
  · obtain ⟨i, hi, rfl⟩ := List.mem_map.mp hv
    have hin := List.mem_range.mp hi
    obtain ⟨hne, heq⟩ := hitem i hin
    refine ⟨hne, ?_⟩
    rw [printValue, heq]
    exact substitute_mem (P := fun s => (0x3b : UInt8) ∉ s)
      (whenEmpty_fits f (Nat.lt_of_lt_of_le hin hn)).2.2 (hsemi i hin)
  · obtain ⟨v, hv, hval⟩ :=
      readValue_substitute f (Nat.lt_of_lt_of_le hi hn) (t i (.text f))
    rw [printValue, (hitem i hi).2]
    exact ⟨v, hv, fun _ => hval⟩

/-- Where an item of several is empty, the others are read, but nothing is said of them. -/
theorem reads_gaps {f : TextMember} (bounded : Bool)
    (hsemi : ∀ i < n, (0x3b : UInt8) ∉ (t i (.text f)).val) (hf : Listed f)
    (hgap : ¬ (n = 1 ∨ ∀ j < n, (t j (.text f)).val ≠ [])) :
    Reads n t (.text f) bounded (tokens 0x3b (joined 0x3b (items t n (.text f) []))) := by
  have hitems : ∀ v ∈ items t n (.text f) [], v.length < f.size ∧ (0 : UInt8) ∉ v ∧
      (0x3b : UInt8) ∉ v := by
    intro v hv
    obtain ⟨i, hi, rfl⟩ := List.mem_map.mp hv
    rw [substitute_nil]
    exact ⟨(t i (.text f)).fits, (t i (.text f)).clean, hsemi i (List.mem_range.mp hi)⟩
  have hnone : ∀ i v, Restored n t i (.text f) v := fun i v hall => absurd (hall hf) hgap
  rw [tokens_joined fun v hv => (hitems v hv).2.2]
  refine ⟨.inr ?_, fun k hk _ => ?_, .inr hnone⟩
  · have hlen := List.length_filter_le (fun v : Text => decide (v ≠ [])) (items t n (.text f) [])
    rwa [items, List.length_map, List.length_range] at hlen
  · obtain ⟨hlen, hzero, -⟩ := hitems _ (List.mem_of_mem_filter (List.getElem_mem hk))
    obtain ⟨v, hv, -⟩ := readValue_text hlen hzero
    exact ⟨v, hv, hnone k v⟩

/-- What the reader takes an empty text for agrees with what has been saved. -/
def Agrees (empty : EmptyText) : Member → Prop
  | .int _ => True
  | .text f =>
      f ≠ .SSID ∧ if Listed f then empty = .text (whenEmpty f 0) else whenEmpty f 0 ≠ []

instance (empty : EmptyText) (m : Member) : Decidable (Agrees empty m) := by
  cases m <;> (unfold Agrees; infer_instance)

theorem list_run {id : Nat} (m : Member) (empty : EmptyText) (bounded : Bool) {val : Text}
    (hval : CFG_get_str cfg id [] = val) (hne : val ≠ []) (s : ParseState) :
    (ParseBlock.list id m empty bounded).run cfg n s =
      forEach (fun i tok s => if bounded = true ∧ n ≤ i then some s else s.put m i tok) 0
        (tokens 0x3b val) { s with val := val } := by
  cases empty with
  | text default => rw [ParseBlock.run, hval, substitute_of_ne_nil default hne]
  | first default => rw [ParseBlock.run, hval, if_neg hne]

/-- A list that is not empty is restored when its items are. -/
theorem items_restores {id : Nat} {m : Member} {empty : EmptyText} {bounded : Bool} (hn1 : 1 ≤ n)
    (hn : n ≤ 4) {instead : Text}
    (hstored : Stored cfg (id, joined 0x3b (items t n m instead)))
    (hne : items t n m instead ≠ [[]])
    (hreads : Reads n t m bounded (tokens 0x3b (joined 0x3b (items t n m instead)))) :
    Restores n t cfg (.list id m empty bounded) := by
  intro s
  have hsome : items t n m instead ≠ [] := by
    intro hnil
    have hlen := congrArg List.length hnil
    rw [items, List.length_map, List.length_range, List.length_nil] at hlen
    omega
  have hjoined : joined 0x3b (items t n m instead) ≠ [] := fun h =>
    hne ((joined_eq_nil_iff hsome).mp h)
  obtain ⟨s', hrun, hrest, hsame⟩ := hreads.restores hn
    { s with val := joined 0x3b (items t n m instead) }
  exact ⟨s', by rw [list_run m empty bounded (hstored.get []) hjoined, hrun], hrest, hsame⟩

/-- A single empty item is read as the default. -/
theorem empty_restores {id : Nat} {f : TextMember} {bounded : Bool} (hf : Listed f)
    (hstored : Stored cfg (id, [])) (hempty : (t 0 (.text f)).val = []) :
    Restores 1 t cfg (.list id (.text f) (.text (whenEmpty f 0)) bounded) := by
  intro s
  obtain ⟨hlen, hzero, hsemi⟩ := whenEmpty_fits f (i := 0) (by decide)
  obtain ⟨v, hv, hval⟩ := readValue_text hlen hzero
  have hsub : substitute (whenEmpty f 0) [] = whenEmpty f 0 := if_pos rfl
  have hreads : Reads 1 t (.text f) bounded (tokens 0x3b (whenEmpty f 0)) := by
    rw [tokens_of_notMem hsemi (whenEmpty_ne_nil hf)]
    refine ⟨.inr le_rfl, fun k hk _ => ?_, .inl rfl⟩
    obtain rfl : k = 0 := by simpa using hk
    exact ⟨v, hv, fun _ => by rw [hval, hempty, hsub]⟩
  obtain ⟨s', hrun, hrest, hsame⟩ := hreads.restores (by decide) { s with val := [] }
  exact ⟨s', by rw [ParseBlock.run, hstored.get, hsub]; exact hrun, hrest, hsame⟩

theorem int_restores {id : Nat} {f : IntMember} {empty : EmptyText} {bounded : Bool}
    (hn1 : 1 ≤ n) (hn : n ≤ 4) (hstored : Stored cfg (id, joined 0x3b (items t n (.int f) []))) :
    Restores n t cfg (.list id (.int f) empty bounded) := by
  refine items_restores hn1 hn hstored (items_ne_blank fun i _ => ?_) (reads_int f bounded)
  rw [substitute_nil]
  exact printInt_ne_nil _

/-- A text of a list, where an empty one is saved as another. -/
theorem text_restores {id : Nat} {f : TextMember} {empty : EmptyText} {bounded : Bool}
    {instead : Text} (hn1 : 1 ≤ n) (hn : n ≤ 4)
    (hsemi : ∀ i < n, (0x3b : UInt8) ∉ (t i (.text f)).val)
    (hstored : Stored cfg (id, joined 0x3b (items t n (.text f) instead)))
    (hitem : ∀ i < n, substitute instead (t i (.text f)).val ≠ [] ∧
      substitute instead (t i (.text f)).val = substitute (whenEmpty f i) (t i (.text f)).val) :
    Restores n t cfg (.list id (.text f) empty bounded) :=
  items_restores hn1 hn hstored (items_ne_blank fun i hi => (hitem i hi).1)
    (reads_text bounded hsemi hn hitem)

/-- A text of a list, where an empty one is saved as it is. -/
theorem listed_restores {id : Nat} {f : TextMember} {bounded : Bool} (hf : Listed f)
    (hn1 : 1 ≤ n) (hn : n ≤ 4) (hsemi : ∀ i < n, (0x3b : UInt8) ∉ (t i (.text f)).val)
    (hstored : Stored cfg (id, joined 0x3b (items t n (.text f) []))) :
    Restores n t cfg (.list id (.text f) (.text (whenEmpty f 0)) bounded) := by
  by_cases hall : ∀ j < n, (t j (.text f)).val ≠ []
  · refine text_restores hn1 hn hsemi hstored fun i hi => ?_
    rw [substitute_nil, substitute_of_ne_nil _ (hall i hi)]
    exact ⟨hall i hi, rfl⟩
  by_cases hone : n = 1
  · subst hone
    have hblank : (t 0 (.text f)).val = [] := by
      by_contra hne
      exact hall fun j hj => by rwa [Nat.lt_one_iff.mp hj]
    refine empty_restores hf ?_ hblank
    rwa [items, List.range_one, List.map_singleton, joined_singleton, substitute_nil,
      printValue, hblank] at hstored
  · refine items_restores hn1 hn hstored (fun h => ?_)
      (reads_gaps bounded hsemi hf fun hor => hor.elim hone hall)
    have hlen := congrArg List.length h
    rw [items, List.length_map, List.length_range, List.length_singleton] at hlen
    exact hone hlen

theorem list_restores {id : Nat} {m : Member} {empty : EmptyText} {bounded : Bool} (hn1 : 1 ≤ n)
    (hn : n ≤ 4) (hsemi : ∀ i < n, ∀ f, (0x3b : UInt8) ∉ (t i (.text f)).val)
    (hstored : Stored cfg (id, joined 0x3b (items t n m (stands m)))) (hagree : Agrees empty m) :
    Restores n t cfg (.list id m empty bounded) := by
  cases m with
  | int f => exact int_restores hn1 hn hstored
  | text f =>
    obtain ⟨hssid, hagree⟩ := hagree
    by_cases hf : Listed f
    · rw [if_pos hf] at hagree
      rw [stands, if_pos hf] at hstored
      rw [hagree]
      exact listed_restores hf hn1 hn (fun i hi => hsemi i hi f) hstored
    · rw [if_neg hf] at hagree
      rw [stands, if_neg hf] at hstored
      refine text_restores hn1 hn (fun i hi => hsemi i hi f) hstored fun i _ => ⟨?_, ?_⟩
      · unfold substitute
        split
        · exact hagree
        · assumption
      · rw [whenEmpty_const hssid i]

/-- The list that is not saved. -/
theorem txRate_restores (hn : n ≤ 4) (id : Nat) (default : Text) :
    Restores n t cfg (.list id (.int .TxRate) (.text default) true) := by
  intro s
  have hany : ∀ i v, Restored n t i (.int .TxRate) v := fun i v hne => absurd rfl hne
  have hreads : Reads n t (.int .TxRate) true
      (tokens 0x3b (substitute default (CFG_get_str cfg id []))) :=
    ⟨.inl rfl, fun k _ _ => ⟨_, rfl, hany k _⟩, .inr hany⟩
  obtain ⟨s', hrun, hrest, hsame⟩ := hreads.restores hn { s with val := CFG_get_str cfg id [] }
  exact ⟨s', hrun, hrest, hsame⟩

end Read

/-! ### All blocks -/

/-- A block of the reader reads what a block of the writer saves. -/
def Paired : ParseBlock → Prop
  | .ssid => .each CFG_WLN_SSID .SSID [] ∈ savedBlocks 1
  | .list id m empty bounded =>
      (m = .int .TxRate ∧ empty = .text (ascii "0") ∧ bounded = true) ∨
        .list id m (stands m) ∈ savedBlocks 1 ∧ Agrees empty m
  | .each is f => f ≠ .SSID ∧ .each is f (whenEmpty f 0) ∈ savedBlocks 1

instance (b : ParseBlock) : Decidable (Paired b) := by
  cases b <;> (unfold Paired; infer_instance)

theorem paired_of_mem {b : ParseBlock} (hb : b ∈ parseBlocks) : Paired b := by
  have hall : parseBlocks.all fun b => Paired b := by decide
  exact of_decide_eq_true (List.all_eq_true.mp hall b hb)

/-- Every member that is saved is read. -/
theorem exists_fills (m : Member) : ∃ b ∈ parseBlocks, fills b m := by
  have hany : parseBlocks.any fun b => fills b m := by
    cases m with
    | int f => cases f <;> decide
    | text f => cases f <;> decide
  obtain ⟨b, hb, hfills⟩ := List.any_eq_true.mp hany
  exact ⟨b, hb, of_decide_eq_true hfills⟩

section Blocks

variable {t : Table} {n : Nat} {cfg : Cfg}

theorem paired_restores {b : ParseBlock} (hn1 : 1 ≤ n) (hn : n ≤ 4)
    (hen : enabled t = List.range n) (henable : ∀ i < n, t i (.int .enable) = 1)
    (hsemi : ∀ i < n, ∀ f, (0x3b : UInt8) ∉ (t i (.text f)).val)
    (hstored : ∀ b ∈ savedBlocks 1, ∀ w ∈ b.writes t, Stored cfg w) (hb : Paired b) :
    Restores n t cfg b := by
  have heach : ∀ {is : List Nat} {f : TextMember} {instead : Text},
      .each is f instead ∈ savedBlocks 1 →
      ∀ i < n, Stored cfg (is.getD i 0, substitute instead (t i (.text f)).val) := by
    intro is f instead hmem i hi
    apply hstored _ hmem
    rw [SaveBlock.writes, hen]
    exact List.mem_map.mpr ⟨i, List.mem_range.mpr hi, rfl⟩
  cases b with
  | ssid => exact ssid_restores hn henable (heach hb)
  | each is f => exact each_restores hn (heach hb.2) hb.1 rfl
  | list id m empty bounded =>
    rcases hb with ⟨rfl, rfl, rfl⟩ | ⟨hmem, hagree⟩
    · exact txRate_restores hn id _
    · refine list_restores hn1 hn hsemi (hstored _ hmem _ ?_) hagree
      rw [SaveBlock.writes, hen]
      exact List.mem_singleton.mpr rfl

/-- Blocks that restore their members restore all of them one after the other. -/
theorem exec_restores {bs : List ParseBlock} (hbs : ∀ b ∈ bs, Restores n t cfg b) :
    ∀ s, ∃ s', exec (ParseBlock.run cfg n) s bs = some s' ∧
      (∀ m, (∃ b ∈ bs, fills b m) → ∀ i < n, Restored n t i m (s'.mBSSID i m)) ∧
      ∀ m, (∀ b ∈ bs, ¬ fills b m) → ∀ i, s'.mBSSID i m = s.mBSSID i m := by
  induction bs with
  | nil => exact fun s => ⟨s, rfl, by simp, fun _ _ _ => rfl⟩
  | cons b bs ih =>
    intro s
    obtain ⟨hb, hbs⟩ := List.forall_mem_cons.mp hbs
    obtain ⟨s₁, hfirst, hown, hother⟩ := hb s
    obtain ⟨s₂, hrest, hfilled, hsame⟩ := ih hbs s₁
    refine ⟨s₂, exec_cons_eq_some.mpr ⟨s₁, hfirst, hrest⟩, fun m hm i hi => ?_, fun m hm i => ?_⟩
    · by_cases hlater : ∃ b ∈ bs, fills b m
      · exact hfilled m hlater i hi
      · have hhere : fills b m := by
          obtain ⟨b', hb', hf⟩ := hm
          rcases List.mem_cons.mp hb' with rfl | hmem
          · exact hf
          · exact absurd ⟨b', hmem, hf⟩ hlater
        rw [hsame m fun b' hb' hf => hlater ⟨b', hb', hf⟩]
        exact hown m hhere i hi
    · obtain ⟨hhere, hlater⟩ := List.forall_mem_cons.mp hm
      rw [hsame m hlater, hother m hhere]

/-- The version is stored again, which changes nothing. -/
theorem CFG_set_again {w : Nat × Text} (h : Stored cfg w) : CFG_set cfg w = some cfg := by
  obtain ⟨v, hv, hval⟩ := h
  obtain ⟨v', hv', hval'⟩ := intoArray_eq_some (k := 255) (s := w.2) (hval ▸ v.fits)
    (hval ▸ v.clean)
  have hsame : v' = v := Str.ext (hval'.trans hval.symm)
  rw [CFG_set, hv', Option.map_some, hsame, ← hv, Function.update_eq_self]

theorem saved_restored (hn1 : 1 ≤ n) (hn : n ≤ 4)
    (henable : ∀ i < 4, t i (.int .enable) = 1 ↔ i < n)
    (hsemi : ∀ i < n, ∀ f, (0x3b : UInt8) ∉ (t i (.text f)).val)
    (hnum : bssidNum (CFG_get_str cfg CFG_WLN_BssidNum []) = n) (before : Table) :
    ∃ cfg' t' rc, save_mbss_value_to_flash 1 t cfg = some cfg' ∧
      parse_config_file before cfg' = some (t', rc) ∧
      ∀ i < n, ∀ m, Restored n t i m (t' i m) := by
  have hen := enabled_eq hn henable
  obtain ⟨cfg', hsave, hversion, hstored, hsame⟩ := save_stores hn1 hn hen cfg
  have hval : CFG_get_str cfg' CFG_WLN_BssidNum [] = CFG_get_str cfg CFG_WLN_BssidNum [] := by
    rw [CFG_get_str, hsame, CFG_get_str]
  obtain ⟨s', hrun, hrest, -⟩ := exec_restores
    (fun b hb => paired_restores hn1 hn hen (fun i hi => (henable i (by omega)).mpr hi) hsemi
      hstored (paired_of_mem hb))
    ⟨before, CFG_get_str cfg CFG_WLN_BssidNum [], false, false, false⟩
  refine ⟨cfg', s'.mBSSID, returnCode s', hsave, ?_, fun i hi m => hrest m (exists_fills m) i hi⟩
  rw [parse_config_file, CFG_set_again hversion, Option.bind_eq_bind, Option.bind_some, hval]
  dsimp only
  rw [hnum, hrun]
  rfl

end Blocks

/-! ### Saving and reading -/

/-- The first `n` BSSIDs are enabled; the other members are numbers `k` and texts `s`. -/
def net (n : Nat) (k : Int32) (s : (f : TextMember) → Str f.size) : Table := fun i m =>
  match m with
  | .int .enable => if i < n then 1 else 0
  | .int _ => k
  | .text f => s f

def blankNet : Table := net 1 0 fun f => ⟨[], by cases f <;> decide, by decide⟩

def fullNet : Table := net 2 (-5) fun f => ⟨ascii "abc", by cases f <;> decide, by decide⟩

def bssids (num : Str 255) : Cfg := Function.update (fun _ => none) CFG_WLN_BssidNum (some num)

def oneBssid : Cfg := bssids ⟨ascii "1", by decide, by decide⟩

def twoBssids : Cfg := bssids ⟨ascii "2", by decide, by decide⟩

/-- The key of an open network, an empty text, is read as a zero. -/
theorem empty_key_comes_back :
    ((∀ i < 4, blankNet i (.int .enable) = 1 ↔ i < 1) ∧
      (∀ i < 1, ∀ f, (0x3b : UInt8) ∉ (blankNet i (.text f)).val) ∧
      bssidNum (CFG_get_str oneBssid CFG_WLN_BssidNum []) = 1) ∧
    ∃ cfg' t' rc, save_mbss_value_to_flash 1 blankNet oneBssid = some cfg' ∧
      parse_config_file blankNet cfg' = some (t', rc) ∧
      (blankNet 0 (.text .WPAPSK)).val = [] ∧ (t' 0 (.text .WPAPSK)).val = ascii "0" := by
  have henable : ∀ i < 4, blankNet i (.int .enable) = 1 ↔ i < 1 := by decide
  have hsemi : ∀ i < 1, ∀ f, (0x3b : UInt8) ∉ (blankNet i (.text f)).val :=
    fun _ _ _ => List.not_mem_nil
  have hnum : bssidNum (CFG_get_str oneBssid CFG_WLN_BssidNum []) = 1 := by decide
  obtain ⟨cfg', t', rc, hsave, hparse, hrest⟩ :=
    saved_restored (by decide) (by decide) henable hsemi hnum blankNet
  refine ⟨⟨henable, hsemi, hnum⟩, cfg', t', rc, hsave, hparse, rfl, ?_⟩
  exact hrest 0 (by decide) (.text .WPAPSK) fun hlisted => absurd hlisted (by decide)

/-- The settings of the enabled BSSIDs come back.  An empty text comes back as the one that
stands for it; where several are enabled, the modes and the VLAN names must not be empty. -/
theorem save_then_parse {t : Table} {n : Nat} {cfg : Cfg} (hn1 : 1 ≤ n) (hn : n ≤ 4)
    (henable : ∀ i < 4, t i (.int .enable) = 1 ↔ i < n)
    (hsemi : ∀ i < n, ∀ f, (0x3b : UInt8) ∉ (t i (.text f)).val)
    (hnum : bssidNum (CFG_get_str cfg CFG_WLN_BssidNum []) = n) (before : Table) :
    ∃ cfg' t' rc, save_mbss_value_to_flash 1 t cfg = some cfg' ∧
      parse_config_file before cfg' = some (t', rc) ∧
      ∀ i < n,
        (∀ f, f ≠ IntMember.TxRate → t' i (.int f) = t i (.int f)) ∧
        ∀ f, (Listed f → n = 1 ∨ ∀ j < n, (t j (.text f)).val ≠ []) →
          (t' i (.text f)).val = substitute (whenEmpty f i) (t i (.text f)).val := by
  obtain ⟨cfg', t', rc, hsave, hparse, hrest⟩ :=
    saved_restored hn1 hn henable hsemi hnum before
  exact ⟨cfg', t', rc, hsave, hparse, fun i hi =>
    ⟨fun f => hrest i hi (.int f), fun f => hrest i hi (.text f)⟩⟩

theorem save_then_parse_full :
    ∃ cfg' t' rc, save_mbss_value_to_flash 1 fullNet twoBssids = some cfg' ∧
      parse_config_file blankNet cfg' = some (t', rc) ∧
      ∀ i < 2,
        (∀ f, f ≠ IntMember.TxRate → t' i (.int f) = fullNet i (.int f)) ∧
        ∀ f, (Listed f → 2 = 1 ∨ ∀ j < 2, (fullNet j (.text f)).val ≠ []) →
          (t' i (.text f)).val = substitute (whenEmpty f i) (fullNet i (.text f)).val :=
  save_then_parse (by decide) (by decide) (by decide)
    (fun _ _ _ => (by decide : (0x3b : UInt8) ∉ ascii "abc"))
    (by decide) blankNet

end AksFirmware.SsidReadBack
