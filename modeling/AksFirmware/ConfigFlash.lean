import AksFirmware.WebConfig

/-!
# Saving the configuration and reading it back at boot

`write_data_to_flash` stores the exclusive-or of the record in its first byte,
skipping the bytes that are `0xff`.  `web_flash_data_init` recomputes it, but
takes the checksum of a record with a `0xff` byte to be zero, and falls back to
the factory defaults when the two disagree.

The flash page is a parameter of the platform: an erase fills it with `0xff` and
a read returns what was written.
-/

namespace AksFirmware.ConfigFlash

open ByteMemory CText WebConfig

def MAGIC0 : UInt8 := 0x55
def MAGIC1 : UInt8 := 0x35

/-- The record in RAM and the user page of the flash. -/
structure ConfigStore where
  g_web_config : Mem
  flash : Mem

def FLASH_PAGE_SIZE : Nat := 4096

def checkedBytes (g : Mem) : List UInt8 := load g 1 (WEB_DATA_SIZE - 1)

/-! ### Writing -/

/-- The loop of `write_data_to_flash`. -/
def writeSum (bytes : List UInt8) : UInt8 :=
  bytes.foldl (fun ck_sum b => if b = 0xff then ck_sum else ck_sum ^^^ b) 0

def write_data_to_flash (s : ConfigStore) : ConfigStore :=
  let g := store s.g_web_config Field.initFlag.offset [writeSum (checkedBytes s.g_web_config)]
  let erased := store s.flash 0 (List.replicate FLASH_PAGE_SIZE 0xff)
  { g_web_config := g, flash := store erased 0 (load g 0 WEB_DATA_SIZE) }

/-! ### Reading -/

/-- The loop of `web_flash_data_init`: a `0xff` byte ends it with the sum zero. -/
def readSum : UInt8 → List UInt8 → UInt8
  | ck_sum, [] => ck_sum
  | ck_sum, b :: rest => if b = 0xff then 0 else readSum (ck_sum ^^^ b) rest

/-- The factory texts that do not depend on the image. -/
def factoryTexts : List (Field × String) :=
  [(.universe, "0"), (.subnet, "0"), (.gaffer_enb, "1"), (.protname, "0"),
    (.gaffer_sub, "0"), (.gaffer_univ, "0"), (.gaffer_lower, "1"), (.gaffer_upper, "1"),
    (.sacn_enb, "1"), (.sacn_universe, "1"), (.timopower, "3"), (.channelWidth, "16"),
    (.secondChannel, "0"), (.bitSetting, "0"), (.led_g, "112"), (.led_b, "102"),
    (.use_xlr, "0"), (.main_xlr, "0"), (.sort_by, "0")]

/-- The name and the colour of the image that was built. -/
def imageTexts (build_img : Text) : List (Field × String) :=
  if strcmp build_img (ascii "AKS") = 0 then
    [(.name, "Ratpac AKS"), (.led_color, "EEEEEE")]
  else
    [(.name, "Satellite"), (.led_color, "1EE7E8")]

def setTexts (g : Mem) (texts : List (Field × String)) : Mem :=
  texts.foldl (fun g p => setField g p.1 (ascii p.2)) g

/-- The record as the fallback of `web_flash_data_init` fills it. -/
def factoryRecord (build_img : Text) (g : Mem) : Mem :=
  let cleared := store g 0 (List.replicate WEB_DATA_SIZE 0)
  store (setTexts cleared (imageTexts build_img ++ factoryTexts)) Field.magic.offset
    [MAGIC0, MAGIC1]

def web_flash_data_init (build_img : Text) (flag : Int) (s : ConfigStore) : ConfigStore :=
  let cleared := store s.g_web_config 0 (List.replicate WEB_DATA_SIZE 0)
  let g := store cleared 0 (load s.flash 0 WEB_DATA_SIZE)
  let ck_sum := if flag = 1 then 0x55 else readSum 0 (checkedBytes g)
  let g := if flag = 1 then store g Field.initFlag.offset [1] else g
  if g 0 ≠ ck_sum ∨ g 99 ≠ MAGIC0 ∨ g 100 ≠ MAGIC1 then
    write_data_to_flash { s with g_web_config := factoryRecord build_img g }
  else
    { s with g_web_config := g }

/-! ### The two checksums -/

theorem readSum_of_no_ff {bytes : List UInt8} (h : ∀ b ∈ bytes, b ≠ 0xff) (ck_sum : UInt8) :
    readSum ck_sum bytes =
      bytes.foldl (fun ck_sum b => if b = 0xff then ck_sum else ck_sum ^^^ b) ck_sum := by
  induction bytes generalizing ck_sum with
  | nil => rfl
  | cons b rest ih =>
    have hb : b ≠ 0xff := h b List.mem_cons_self
    simp only [readSum, List.foldl_cons, if_neg hb]
    exact ih (fun c hc => h c (List.mem_cons_of_mem _ hc)) _

theorem readSum_of_ff {bytes : List UInt8} (h : 0xff ∈ bytes) (ck_sum : UInt8) :
    readSum ck_sum bytes = 0 := by
  induction bytes generalizing ck_sum with
  | nil => cases h
  | cons b rest ih =>
    by_cases hb : b = 0xff
    · simp only [readSum, if_pos hb]
    · simp only [readSum, if_neg hb]
      exact ih ((List.mem_cons.mp h).resolve_left (Ne.symm hb)) _

/-- The reader finds the writer's checksum exactly when no byte is `0xff` or the
writer's checksum happens to be zero. -/
theorem readSum_eq_writeSum_iff (bytes : List UInt8) :
    readSum 0 bytes = writeSum bytes ↔ 0xff ∉ bytes ∨ writeSum bytes = 0 := by
  by_cases hff : (0xff : UInt8) ∈ bytes
  · rw [readSum_of_ff hff]
    constructor
    · intro h
      exact Or.inr h.symm
    · rintro (h | h)
      · exact absurd hff h
      · exact h.symm
  · have hall : ∀ b ∈ bytes, b ≠ 0xff := fun b hb heq => hff (heq ▸ hb)
    exact ⟨fun _ => Or.inl hff, fun _ => readSum_of_no_ff hall 0⟩

/-! ### What a write leaves in the record and in the flash -/

theorem write_keeps (s : ConfigStore) {x : Nat} (hx : 1 ≤ x) :
    (write_data_to_flash s).g_web_config x = s.g_web_config x := by
  simp only [write_data_to_flash]
  exact store_of_outside _ _ (Or.inr (by simpa [Field.offset] using hx))

theorem write_initFlag (s : ConfigStore) :
    (write_data_to_flash s).g_web_config 0 = writeSum (checkedBytes s.g_web_config) := rfl

@[simp] theorem checkedBytes_write (s : ConfigStore) :
    checkedBytes (write_data_to_flash s).g_web_config = checkedBytes s.g_web_config :=
  load_congr fun _ _ => write_keeps s (by omega)

/-- The flash returns the record as it stood after the write. -/
theorem flash_after_write (s : ConfigStore) :
    load (write_data_to_flash s).flash 0 WEB_DATA_SIZE =
      load (write_data_to_flash s).g_web_config 0 WEB_DATA_SIZE := by
  conv_lhs => rw [← load_length (write_data_to_flash s).g_web_config 0 WEB_DATA_SIZE]
  exact load_store_same _ 0 _

theorem reread_byte (ram : Mem) (s : ConfigStore) {x : Nat} (hx : x < WEB_DATA_SIZE) :
    store ram 0 (load (write_data_to_flash s).flash 0 WEB_DATA_SIZE) x =
      (write_data_to_flash s).g_web_config x := by
  rw [flash_after_write]
  have hat := store_at ram 0 x (load (write_data_to_flash s).g_web_config 0 WEB_DATA_SIZE)
    (by simpa using hx)
  simpa using hat

/-! ### The factory record -/

theorem setTexts_congr {g g' : Mem} {n : Nat} (h : ∀ x < n, g x = g' x)
    (texts : List (Field × String)) : ∀ x < n, setTexts g texts x = setTexts g' texts x := by
  induction texts generalizing g g' with
  | nil => exact h
  | cons p texts ih =>
    apply ih
    intro x hx
    simp only [setField, storeText, store, h x hx]

theorem factoryRecord_eq (build_img : Text) (g : Mem) {x : Nat} (hx : x < WEB_DATA_SIZE) :
    factoryRecord build_img g x = factoryRecord build_img zeroed x := by
  have hcleared : ∀ y < WEB_DATA_SIZE, store g 0 (List.replicate WEB_DATA_SIZE 0) y =
      store zeroed 0 (List.replicate WEB_DATA_SIZE 0) y := by
    intro y hy
    have hz := fun m : Mem => store_at m 0 y (List.replicate WEB_DATA_SIZE 0) (by simpa using hy)
    simpa using (hz g).trans (hz zeroed).symm
  have htexts := setTexts_congr hcleared (imageTexts build_img ++ factoryTexts) x hx
  simp only [factoryRecord]
  unfold store at htexts ⊢
  rw [htexts]

theorem factoryRecord_ne_ff (build_img : Text) (g : Mem) {x : Nat} (hx : x < WEB_DATA_SIZE) :
    factoryRecord build_img g x ≠ 0xff := by
  rw [factoryRecord_eq build_img g hx]
  have haks : ∀ x < WEB_DATA_SIZE, store (setTexts (store zeroed 0
      (List.replicate WEB_DATA_SIZE 0)) ([(.name, "Ratpac AKS"), (.led_color, "EEEEEE")] ++
      factoryTexts)) Field.magic.offset [MAGIC0, MAGIC1] x ≠ 0xff := by decide +kernel
  have hsat : ∀ x < WEB_DATA_SIZE, store (setTexts (store zeroed 0
      (List.replicate WEB_DATA_SIZE 0)) ([(.name, "Satellite"), (.led_color, "1EE7E8")] ++
      factoryTexts)) Field.magic.offset [MAGIC0, MAGIC1] x ≠ 0xff := by decide +kernel
  simp only [factoryRecord, imageTexts]
  split
  · exact haks x hx
  · exact hsat x hx

/-! ### The round trip -/

def HasMagic (g : Mem) : Prop := g 99 = MAGIC0 ∧ g 100 = MAGIC1

instance (g : Mem) : Decidable (HasMagic g) := by unfold HasMagic; infer_instance

/-- Two records agree on every member but the checksum, which the writer sets. -/
def SameFields (g g' : Mem) : Prop :=
  ∀ f : Field, f ≠ .initFlag → load g f.offset f.size = load g' f.offset f.size

theorem sameFields_iff {g g' : Mem} :
    SameFields g g' ↔ ∀ x, 1 ≤ x → x < WEB_DATA_SIZE → g x = g' x := by
  constructor
  · intro h x hx hlt
    obtain ⟨f, hlo, hhi⟩ := exists_field_of_lt hlt
    have hf : f ≠ .initFlag := by
      rintro rfl
      simp only [Field.offset, Field.size] at hhi
      omega
    have hbyte := load_eq_iff.mp (h f hf) (x - f.offset) (by omega)
    rwa [Nat.add_sub_cancel' hlo] at hbyte
  · intro h f hf
    apply load_congr
    intro i hi
    have hend := f.end_le
    have hpos : 1 ≤ f.offset := by cases f <;> simp_all [Field.offset]
    exact h _ (by omega) (by omega)

theorem writeSum_eq_filter (bytes : List UInt8) :
    writeSum bytes = (bytes.filter (· ≠ 0xff)).foldl (· ^^^ ·) 0 := by
  rw [writeSum, List.foldl_filter]
  congr
  funext ck_sum b
  by_cases hb : b = 0xff <;> simp [hb]

section Reload

variable (build_img : Text) (ram : Mem) (s : ConfigStore)

/-- The boot after `write_data_to_flash`: whatever the RAM holds, the flash
returns what was written. -/
def reload : ConfigStore :=
  web_flash_data_init build_img 0
    { g_web_config := ram, flash := (write_data_to_flash s).flash }

def reread : Mem :=
  store (store ram 0 (List.replicate WEB_DATA_SIZE 0)) 0
    (load (write_data_to_flash s).flash 0 WEB_DATA_SIZE)

theorem reread_eq {x : Nat} (hx : x < WEB_DATA_SIZE) :
    reread ram s x = (write_data_to_flash s).g_web_config x :=
  reread_byte _ s hx

theorem checkedBytes_reread : checkedBytes (reread ram s) = checkedBytes s.g_web_config := by
  rw [← checkedBytes_write s]
  exact load_congr fun i hi => reread_eq ram s (by simp only [WEB_DATA_SIZE] at *; omega)

/-- The reader accepts exactly the records whose checksum it recomputes. -/
theorem reload_eq (hmagic : HasMagic s.g_web_config) :
    (reload build_img ram s).g_web_config =
      if readSum 0 (checkedBytes s.g_web_config) = writeSum (checkedBytes s.g_web_config) then
        reread ram s
      else
        (write_data_to_flash
          { g_web_config := factoryRecord build_img (reread ram s),
            flash := (write_data_to_flash s).flash }).g_web_config := by
  have hbyte : ∀ x, 1 ≤ x → x < WEB_DATA_SIZE → reread ram s x = s.g_web_config x :=
    fun x hx hlt => (reread_eq ram s hlt).trans (write_keeps s hx)
  have hflag : reread ram s 0 = writeSum (checkedBytes s.g_web_config) :=
    (reread_eq ram s (by decide)).trans (write_initFlag s)
  have h99 : reread ram s 99 = MAGIC0 := (hbyte 99 (by decide) (by decide)).trans hmagic.1
  have h100 : reread ram s 100 = MAGIC1 := (hbyte 100 (by decide) (by decide)).trans hmagic.2
  simp only [reload, web_flash_data_init, show (0 : Int) ≠ 1 by decide, if_false]
  change (if reread ram s 0 ≠ readSum 0 (checkedBytes (reread ram s)) ∨
    reread ram s 99 ≠ MAGIC0 ∨ reread ram s 100 ≠ MAGIC1 then _ else _ : ConfigStore).g_web_config = _
  rw [checkedBytes_reread, hflag, h99, h100]
  by_cases hsum : readSum 0 (checkedBytes s.g_web_config) = writeSum (checkedBytes s.g_web_config)
  · rw [if_pos hsum, if_neg (by simp [hsum])]
    rfl
  · rw [if_neg hsum, if_pos (Or.inl (Ne.symm hsum))]
    rfl

/-- **Exactly when saved settings survive a reboot.**  A record with a `0xff`
byte comes back only if the other bytes cancel out. -/
theorem flash_round_trip_iff (hmagic : HasMagic s.g_web_config) :
    SameFields (reload build_img ram s).g_web_config s.g_web_config ↔
      0xff ∉ checkedBytes s.g_web_config ∨
        ((checkedBytes s.g_web_config).filter (· ≠ 0xff)).foldl (· ^^^ ·) 0 = 0 := by
  rw [← writeSum_eq_filter, ← readSum_eq_writeSum_iff, reload_eq build_img ram s hmagic,
    sameFields_iff]
  constructor
  · intro hsame
    by_contra hsum
    rw [if_neg hsum] at hsame
    -- a rejected record has a 0xff byte, which no factory record has
    have hff : 0xff ∈ checkedBytes s.g_web_config := by
      by_contra hnone
      exact hsum ((readSum_eq_writeSum_iff _).mpr (Or.inl hnone))
    obtain ⟨i, hi, hval⟩ := List.mem_map.mp hff
    have hi' : 1 + i < WEB_DATA_SIZE := by
      have := List.mem_range.mp hi
      simp only [WEB_DATA_SIZE] at *
      omega
    have heq := hsame (1 + i) (by omega) hi'
    rw [write_keeps _ (by omega), hval] at heq
    exact factoryRecord_ne_ff build_img _ hi' heq
  · intro hsum x hx hlt
    rw [if_pos hsum, reread_eq ram s hlt, write_keeps s hx]

end Reload

theorem flash_round_trip_factory :
    HasMagic (factoryRecord (ascii "AKS") zeroed) ∧
      (SameFields
          (reload (ascii "AKS") zeroed ⟨factoryRecord (ascii "AKS") zeroed, zeroed⟩).g_web_config
          (factoryRecord (ascii "AKS") zeroed) ↔
        0xff ∉ checkedBytes (factoryRecord (ascii "AKS") zeroed) ∨
          ((checkedBytes (factoryRecord (ascii "AKS") zeroed)).filter
            (· ≠ 0xff)).foldl (· ^^^ ·) 0 = 0) :=
  ⟨by decide +kernel, flash_round_trip_iff (ascii "AKS") zeroed
    ⟨factoryRecord (ascii "AKS") zeroed, zeroed⟩ (by decide +kernel)⟩

/-- The factory record with a name that ends in the Latin-1 letter `0xff`. -/
def latinNameRecord : Mem :=
  setField (factoryRecord (ascii "AKS") zeroed) .name (ascii "Stage " ++ [0xff])

/-- Such a record is well formed, and the reboot replaces its name by the factory's. -/
theorem latin_name_lost :
    HasMagic latinNameRecord ∧ TextsTerminated latinNameRecord ∧
      ¬ SameFields (reload (ascii "AKS") zeroed ⟨latinNameRecord, zeroed⟩).g_web_config
        latinNameRecord := by
  refine ⟨by decide +kernel, by decide +kernel, fun hsame => ?_⟩
  have hname := sameFields_iff.mp hsame 1 (by decide) (by decide)
  revert hname
  decide +kernel

end AksFirmware.ConfigFlash
