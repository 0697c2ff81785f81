import AksFirmware.ConfigFlash

/-!
# One damaged byte of the saved configuration

The first byte of the saved record is the exclusive or of the others, and a boot that
finds another sum falls back to the factory defaults.  An exclusive or notices any single
change, but the reader's sum is not one: the first byte that is `0xff` turns it into zero,
which is what the source means by a sum that is not valid.  Zero is a checksum like any
other, so a record whose stored checksum is zero is accepted with any byte erased to
`0xff`, and a record that holds a `0xff` is accepted once its checksum byte reads zero.

The main result says for every record, position and new value whether the boot notices.
-/

namespace AksFirmware.FlashCorruption

open ByteMemory CText WebConfig ConfigFlash

/-! ### The writer's sum with one byte replaced -/

/-- What one byte adds to the sum of the writer. -/
def weight (b : UInt8) : UInt8 := if b = 0xff then 0 else b

theorem writeSum_from (bytes : List UInt8) (ck_sum : UInt8) :
    bytes.foldl (fun ck_sum b => if b = 0xff then ck_sum else ck_sum ^^^ b) ck_sum =
      ck_sum ^^^ writeSum bytes := by
  induction bytes generalizing ck_sum with
  | nil => simp [writeSum]
  | cons b rest ih =>
    have hrest := ih (if b = 0xff then 0 else 0 ^^^ b)
    simp only [writeSum, List.foldl_cons] at hrest ⊢
    rw [ih, hrest]
    by_cases hb : b = 0xff
    · simp only [if_pos hb, UInt8.zero_xor]
      rfl
    · simp only [if_neg hb, UInt8.zero_xor]
      exact UInt8.xor_assoc _ _ _

theorem writeSum_cons (b : UInt8) (rest : List UInt8) :
    writeSum (b :: rest) = weight b ^^^ writeSum rest := by
  rw [show writeSum (b :: rest) = rest.foldl _ (if b = 0xff then 0 else 0 ^^^ b) from rfl,
    writeSum_from, UInt8.zero_xor]
  rfl

theorem writeSum_append (front back : List UInt8) :
    writeSum (front ++ back) = writeSum front ^^^ writeSum back := by
  rw [show writeSum (front ++ back) = _ from List.foldl_append, writeSum_from]
  rfl

theorem writeSum_at (front back : List UInt8) (b : UInt8) :
    writeSum (front ++ b :: back) = weight b ^^^ writeSum (front ++ back) := by
  rw [writeSum_append, writeSum_cons, writeSum_append, ← UInt8.xor_assoc,
    UInt8.xor_comm (writeSum front), UInt8.xor_assoc]

theorem xor_left_eq_iff (a b c : UInt8) : a ^^^ c = b ^^^ c ↔ a = b := by
  constructor
  · intro h
    have hcancel := congrArg (· ^^^ c) h
    simpa [UInt8.xor_assoc] using hcancel
  · intro h
    rw [h]

/-- A replaced byte leaves the sum alone only when both values are skipped or both count
the same. -/
theorem weight_eq_iff {b v : UInt8} (hv : v ≠ 0xff) (hne : v ≠ b) :
    weight v = weight b ↔ b = 0xff ∧ v = 0 := by
  unfold weight
  rw [if_neg hv]
  by_cases hb : b = 0xff
  · rw [if_pos hb]
    exact ⟨fun h => ⟨hb, h⟩, fun h => h.2⟩
  · rw [if_neg hb]
    exact ⟨fun h => absurd h hne, fun h => absurd h.1 hb⟩

/-- **The reader's sum of a run with one byte replaced**, against the writer's sum of the
run as it was. -/
theorem readSum_replaced_iff (front back : List UInt8) {b v : UInt8} (hne : v ≠ b) :
    readSum 0 (front ++ v :: back) = writeSum (front ++ b :: back) ↔
      if v = 0xff ∨ 0xff ∈ front ++ back then writeSum (front ++ b :: back) = 0
      else b = 0xff ∧ v = 0 := by
  have hmem : 0xff ∈ front ++ v :: back ↔ v = 0xff ∨ 0xff ∈ front ++ back := by
    simp only [List.mem_append, List.mem_cons, @eq_comm _ (0xff : UInt8) v]
    exact or_left_comm
  by_cases hff : v = 0xff ∨ 0xff ∈ front ++ back
  · rw [if_pos hff, readSum_of_ff (hmem.mpr hff)]
    exact eq_comm
  · rw [if_neg hff, (readSum_eq_writeSum_iff _).mpr (Or.inl (mt hmem.mp hff)), writeSum_at,
      writeSum_at, xor_left_eq_iff]
    exact weight_eq_iff (fun hv => hff (Or.inl hv)) hne

/-! ### The boot -/

/-- The test of `web_flash_data_init(0)` on the record it found. -/
def Rejects (g : Mem) : Prop :=
  g Field.initFlag.offset ≠ readSum 0 (checkedBytes g) ∨ g 99 ≠ MAGIC0 ∨ g 100 ≠ MAGIC1

instance (g : Mem) : Decidable (Rejects g) := by unfold Rejects; infer_instance

theorem not_rejects_iff (g : Mem) :
    ¬ Rejects g ↔ g 0 = readSum 0 (checkedBytes g) ∧ HasMagic g := by
  simp only [Rejects, HasMagic, not_or, not_not]
  rfl

/-- The record in RAM after the flash was read. -/
def found (s : ConfigStore) : Mem :=
  store (store s.g_web_config 0 (List.replicate WEB_DATA_SIZE 0)) 0 (load s.flash 0 WEB_DATA_SIZE)

theorem found_eq (s : ConfigStore) {x : Nat} (hx : x < WEB_DATA_SIZE) : found s x = s.flash x := by
  rw [found, store_load_eq, if_pos (by omega), Nat.zero_add, Nat.sub_zero]

theorem web_flash_data_init_eq (build_img : Text) (s : ConfigStore) :
    web_flash_data_init build_img 0 s =
      if Rejects (found s) then
        write_data_to_flash { s with g_web_config := factoryRecord build_img (found s) }
      else { s with g_web_config := found s } := by
  unfold web_flash_data_init
  simp only [show (0 : Int) ≠ 1 by decide, if_false]
  rfl

/-- The factory defaults are in force and saved. -/
def InstallsDefaults (build_img : Text) (s : ConfigStore) : Prop :=
  (∀ x, 1 ≤ x → x < WEB_DATA_SIZE → s.g_web_config x = factoryRecord build_img zeroed x) ∧
    load s.flash 0 WEB_DATA_SIZE = load s.g_web_config 0 WEB_DATA_SIZE

theorem installsDefaults_of_rejects {build_img : Text} {s : ConfigStore} (h : Rejects (found s)) :
    InstallsDefaults build_img (web_flash_data_init build_img 0 s) := by
  rw [web_flash_data_init_eq, if_pos h]
  refine ⟨fun x hx hlt => ?_, flash_after_write _⟩
  rw [write_keeps _ hx]
  exact factoryRecord_eq build_img _ hlt

/-! ### The damage -/

section Damage

variable (build_img : Text) (ram : Mem) (s : ConfigStore) (i : Nat) (v : UInt8)

/-- The saved record with byte `i` replaced, at the next boot. -/
def damaged : ConfigStore :=
  { g_web_config := ram, flash := store (write_data_to_flash s).flash i [v] }

/-- The boot notices the damage and installs the factory defaults. -/
def Detected : Prop :=
  Rejects (found (damaged ram s i v)) ∧
    InstallsDefaults build_img (web_flash_data_init build_img 0 (damaged ram s i v))

/-- The damage that goes unnoticed, on the record `g` as it was saved. -/
def Missed (g : Mem) : Prop :=
  HasMagic (store g i [v]) ∧
    if i = 0 then 0xff ∈ checkedBytes g ∧ v = 0
    else if v = 0xff ∨ ∃ j < WEB_DATA_SIZE, 1 ≤ j ∧ j ≠ i ∧ g j = 0xff then
      writeSum (checkedBytes g) = 0
    else g i = 0xff ∧ v = 0

instance (g : Mem) : Decidable (Missed i v g) := by unfold Missed; infer_instance

variable {i}

theorem found_damaged {x : Nat} (hx : x < WEB_DATA_SIZE) :
    found (damaged ram s i v) x = store (write_data_to_flash s).g_web_config i [v] x := by
  have hflash : (write_data_to_flash s).flash x = (write_data_to_flash s).g_web_config x := by
    have hbyte := load_eq_iff.mp (flash_after_write s) x hx
    rwa [Nat.zero_add] at hbyte
  rw [found_eq _ hx]
  simp only [damaged, store, hflash]

theorem hasMagic_damaged :
    HasMagic (found (damaged ram s i v)) ↔ HasMagic (store s.g_web_config i [v]) := by
  have hsame : ∀ x, 1 ≤ x → x < WEB_DATA_SIZE →
      found (damaged ram s i v) x = store s.g_web_config i [v] x := by
    intro x hx hlt
    rw [found_damaged ram s v hlt]
    simp only [store, write_keeps s hx]
  rw [HasMagic, hsame 99 (by decide) (by decide), hsame 100 (by decide) (by decide)]
  rfl

theorem checkedBytes_split (g : Mem) (hpos : 1 ≤ i) (hi : i < WEB_DATA_SIZE) :
    checkedBytes g = load g 1 (i - 1) ++ g i :: load g (i + 1) (WEB_DATA_SIZE - 1 - i) := by
  have hlen : (i - 1) + (1 + (WEB_DATA_SIZE - 1 - i)) = WEB_DATA_SIZE - 1 := by omega
  have hsplit := load_add g 1 (i - 1) (1 + (WEB_DATA_SIZE - 1 - i))
  rw [hlen, Nat.add_sub_cancel' hpos, load_add] at hsplit
  exact hsplit

theorem ff_mem_others_iff (g : Mem) (hpos : 1 ≤ i) (hi : i < WEB_DATA_SIZE) :
    0xff ∈ load g 1 (i - 1) ++ load g (i + 1) (WEB_DATA_SIZE - 1 - i) ↔
      ∃ j < WEB_DATA_SIZE, 1 ≤ j ∧ j ≠ i ∧ g j = 0xff := by
  simp only [List.mem_append, load, List.mem_map, List.mem_range]
  constructor
  · rintro (⟨k, hk, hval⟩ | ⟨k, hk, hval⟩)
    · exact ⟨1 + k, by omega, by omega, by omega, hval⟩
    · exact ⟨i + 1 + k, by omega, by omega, by omega, hval⟩
  · rintro ⟨j, hlt, hj, hne, hval⟩
    rcases Nat.lt_or_gt_of_ne hne with hbefore | hafter
    · exact Or.inl ⟨j - 1, by omega, by rwa [Nat.add_sub_cancel' hj]⟩
    · exact Or.inr ⟨j - (i + 1), by omega, by rwa [Nat.add_sub_cancel' hafter]⟩

/-- The checksum byte itself is damaged. -/
theorem sum_damaged_zero (hne : v ≠ writeSum (checkedBytes s.g_web_config)) :
    found (damaged ram s 0 v) 0 = readSum 0 (checkedBytes (found (damaged ram s 0 v))) ↔
      0xff ∈ checkedBytes s.g_web_config ∧ v = 0 := by
  have hflag : found (damaged ram s 0 v) 0 = v := found_damaged ram s v (by decide)
  have hbytes : checkedBytes (found (damaged ram s 0 v)) = checkedBytes s.g_web_config := by
    rw [← checkedBytes_write s]
    apply load_congr
    intro k hk
    rw [found_damaged ram s v (by simp only [WEB_DATA_SIZE] at *; omega)]
    exact store_byte_of_ne _ _ (by omega)
  rw [hflag, hbytes]
  by_cases hff : 0xff ∈ checkedBytes s.g_web_config
  · rw [readSum_of_ff hff]
    exact (and_iff_right hff).symm
  · rw [(readSum_eq_writeSum_iff _).mpr (Or.inl hff)]
    exact ⟨fun h => absurd h hne, fun h => absurd h.1 hff⟩

/-- One of the summed bytes is damaged. -/
theorem sum_damaged_pos (hpos : 1 ≤ i) (hi : i < WEB_DATA_SIZE) (hne : v ≠ s.g_web_config i) :
    found (damaged ram s i v) 0 = readSum 0 (checkedBytes (found (damaged ram s i v))) ↔
      if v = 0xff ∨ ∃ j < WEB_DATA_SIZE, 1 ≤ j ∧ j ≠ i ∧ s.g_web_config j = 0xff then
        writeSum (checkedBytes s.g_web_config) = 0
      else s.g_web_config i = 0xff ∧ v = 0 := by
  have hflag : found (damaged ram s i v) 0 = writeSum (checkedBytes s.g_web_config) := by
    rw [found_damaged ram s v (by decide), store_byte_of_ne _ _ (by omega)]
    exact write_initFlag s
  have hother : ∀ x, 1 ≤ x → x < WEB_DATA_SIZE → x ≠ i →
      found (damaged ram s i v) x = s.g_web_config x := by
    intro x hx hlt hxi
    rw [found_damaged ram s v hlt, store_byte_of_ne _ _ hxi, write_keeps s hx]
  have hat : found (damaged ram s i v) i = v := by
    rw [found_damaged ram s v hi, store_eq, dif_pos (by simp)]
    simp
  have hfront : load (found (damaged ram s i v)) 1 (i - 1) = load s.g_web_config 1 (i - 1) :=
    load_congr fun k hk => hother _ (by omega) (by omega) (by omega)
  have hback : load (found (damaged ram s i v)) (i + 1) (WEB_DATA_SIZE - 1 - i) =
      load s.g_web_config (i + 1) (WEB_DATA_SIZE - 1 - i) :=
    load_congr fun k hk => hother _ (by omega) (by omega) (by omega)
  rw [hflag, checkedBytes_split (found _) hpos hi, hat, hfront, hback, @eq_comm _ (writeSum _),
    checkedBytes_split s.g_web_config hpos hi, readSum_replaced_iff _ _ hne]
  simp only [ff_mem_others_iff _ hpos hi]

theorem damage_notices_iff (hi : i < WEB_DATA_SIZE)
    (hne : v ≠ (write_data_to_flash s).g_web_config i) :
    Rejects (found (damaged ram s i v)) ↔ ¬ Missed i v s.g_web_config := by
  rw [← not_iff_not, not_not, not_rejects_iff, hasMagic_damaged, and_comm, Missed]
  apply and_congr_right
  intro _
  rcases Nat.eq_zero_or_pos i with rfl | hpos
  · rw [if_pos rfl]
    exact sum_damaged_zero ram s v hne
  · rw [if_neg (Nat.ne_of_gt hpos)]
    rw [write_keeps s hpos] at hne
    exact sum_damaged_pos ram s v hpos hi hne

variable {build_img ram s v} in
theorem detected_iff_rejects :
    Detected build_img ram s i v ↔ Rejects (found (damaged ram s i v)) :=
  ⟨fun h => h.1, fun h => ⟨h, installsDefaults_of_rejects h⟩⟩

/-- **Exactly which single-byte damage the boot notices.** -/
theorem damage_detected_iff (hi : i < WEB_DATA_SIZE)
    (hne : v ≠ (write_data_to_flash s).g_web_config i) :
    Detected build_img ram s i v ↔ ¬ Missed i v s.g_web_config := by
  rw [detected_iff_rejects]
  exact damage_notices_iff ram s v hi hne

theorem hasMagic_store {g : Mem} (hmagic : HasMagic g) {i : Nat} (hi : i < 99) (v : UInt8) :
    HasMagic (store g i [v]) :=
  ⟨(store_byte_of_ne g v (by omega)).trans hmagic.1,
    (store_byte_of_ne g v (by omega)).trans hmagic.2⟩

/-- A record with the checksum zero: any byte may be erased, and an erased one cleared. -/
theorem missed_of_sum_zero {g : Mem} {i : Nat} {v : UInt8} (hi : i ≠ 0)
    (hmagic : HasMagic (store g i [v])) (hsum : writeSum (checkedBytes g) = 0)
    (hv : v = 0xff ∨ g i = 0xff ∧ v = 0) : Missed i v g := by
  refine ⟨hmagic, ?_⟩
  rw [if_neg hi]
  split
  · exact hsum
  · rename_i hnot
    exact hv.resolve_left fun hff => hnot (Or.inl hff)

theorem exists_missed_of_sum_zero {g : Mem} (hmagic : HasMagic g)
    (hsum : writeSum (checkedBytes g) = 0) : ∃ v, v ≠ g 1 ∧ Missed 1 v g := by
  have hstore := hasMagic_store hmagic (show 1 < 99 by decide)
  by_cases hff : g 1 = 0xff
  · refine ⟨0, ?_, missed_of_sum_zero Nat.one_ne_zero (hstore 0) hsum (Or.inr ⟨hff, rfl⟩)⟩
    rw [hff]
    decide
  · exact ⟨0xff, Ne.symm hff,
      missed_of_sum_zero Nat.one_ne_zero (hstore 0xff) hsum (Or.inl rfl)⟩

theorem missed_of_ff {g : Mem} (hmagic : HasMagic g) (hff : 0xff ∈ checkedBytes g) :
    Missed 0 0 g := by
  refine ⟨hasMagic_store hmagic (by decide) 0, ?_⟩
  rw [if_pos rfl]
  exact ⟨hff, rfl⟩

/-- **Which records are safe.**  Every damage of a valid record is noticed exactly when it
holds no `0xff` and its checksum is not zero. -/
theorem every_damage_detected_iff (hmagic : HasMagic s.g_web_config) :
    (∀ i < WEB_DATA_SIZE, ∀ v, v ≠ (write_data_to_flash s).g_web_config i →
        Detected build_img ram s i v) ↔
      0xff ∉ checkedBytes s.g_web_config ∧ writeSum (checkedBytes s.g_web_config) ≠ 0 := by
  constructor
  · intro hall
    have hnot : ∀ i < WEB_DATA_SIZE, ∀ v, v ≠ (write_data_to_flash s).g_web_config i →
        ¬ Missed i v s.g_web_config := fun i hi v hne =>
      (damage_notices_iff ram s v hi hne).mp (detected_iff_rejects.mp (hall i hi v hne))
    have hsum : writeSum (checkedBytes s.g_web_config) ≠ 0 := by
      intro hzero
      obtain ⟨v, hv, hmissed⟩ := exists_missed_of_sum_zero hmagic hzero
      rw [← write_keeps s (Nat.le_refl 1)] at hv
      exact hnot 1 (by decide) v hv hmissed
    refine ⟨fun hff => ?_, hsum⟩
    exact hnot 0 (by decide) 0 (Ne.symm hsum) (missed_of_ff hmagic hff)
  · rintro ⟨hff, hsum⟩ i hi v hne
    rw [detected_iff_rejects, damage_notices_iff ram s v hi hne]
    rintro ⟨-, hmissed⟩
    have hnone : ∀ j, 1 ≤ j → j < WEB_DATA_SIZE → s.g_web_config j ≠ 0xff := by
      intro j hj hlt hval
      rw [checkedBytes_split _ hj hlt, hval] at hff
      exact hff (List.mem_append_right _ List.mem_cons_self)
    split at hmissed
    · exact hff hmissed.1
    · rename_i hpos
      split at hmissed
      · exact hsum hmissed
      · exact hnone i (Nat.pos_of_ne_zero hpos) hi hmissed.1

end Damage

/-- A factory record under another name, as a rename leaves it. -/
def renamed (name : String) : ConfigStore :=
  ⟨setField (factoryRecord (ascii "AKS") zeroed) .name (ascii name), zeroed⟩

theorem damage_detected_renamed :
    (Detected (ascii "AKS") zeroed (renamed "Main Stage 1") 1 0xff ↔
        ¬ Missed 1 0xff (renamed "Main Stage 1").g_web_config) ∧
      ¬ Missed 1 0xff (renamed "Main Stage 1").g_web_config :=
  ⟨damage_detected_iff _ _ _ _ (by decide) (by decide +kernel), by decide +kernel⟩

/-- The record of a node named "Main Stage 29" has the checksum zero: with the first letter
erased it is accepted, and the node comes up under a damaged name. -/
theorem erased_letter_accepted :
    TextsTerminated (renamed "Main Stage 29").g_web_config ∧
      (write_data_to_flash (renamed "Main Stage 29")).g_web_config 1 ≠ 0xff ∧
      ¬ Detected (ascii "AKS") zeroed (renamed "Main Stage 29") 1 0xff ∧
      (web_flash_data_init (ascii "AKS") 0
        (damaged zeroed (renamed "Main Stage 29") 1 0xff)).g_web_config 1 = 0xff := by
  refine ⟨by decide +kernel, by decide +kernel, fun hdetected => ?_, by decide +kernel⟩
  exact absurd hdetected.1 (by decide +kernel)

end AksFirmware.FlashCorruption
