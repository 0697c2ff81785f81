import AksFirmware.WebConfig

/-!
# A configuration value on a page

`CGI_get_cfg` copies a stored text for a page: a quote becomes `&quot;`, a backslash two, and
every other byte stays.  It builds the copy in an array as large as the one of the value and
carries it over a second one for each byte, so that the copy of a value that fits may not.
-/

namespace AksFirmware.ConfigEscape

open ByteMemory CText WebConfig

/-- A text written into one of the arrays of 255 bytes; nothing is said when it does not fit. -/
def intoArray (s : Text) : Option Text := if s.length < 255 then some s else none

/-- What is printed behind the copy for a byte of the value. -/
def escapeByte (c : UInt8) : Text :=
  if c = 0x22 then ascii "&quot;" else if c = 0x5c then ascii "\\\\" else [c]

/-- `strcpy(temp2, temp)` and the `sprintf` that puts `temp2` and the byte into `temp`. -/
def appendByte (temp : Text) (c : UInt8) : Option Text := do
  let temp2 ← intoArray temp
  intoArray (temp2 ++ escapeByte c)

def escapeLoop : Text → Text → Option Text
  | [], temp => some temp
  | c :: val, temp => do
      let temp ← appendByte temp c
      escapeLoop val temp

/-- The text that is printed.  `CFG_get_str` leaves an array alone when it finds nothing. -/
def CGI_get_cfg (CFG_get_str : Nat → Option Text) (tag : Nat) : Option Text := do
  let val ← intoArray ((CFG_get_str tag).getD [])
  if CFG_ID_TYPE tag = CFG_TYPE_STR then escapeLoop val [] else some val

/-! ### The length of the copy -/

theorem escapeByte_length (c : UInt8) :
    (escapeByte c).length = 1 + (if c = 0x22 then 5 else 0) + if c = 0x5c then 1 else 0 := by
  unfold escapeByte
  by_cases hquote : c = 0x22
  · rw [if_pos hquote, if_pos hquote, if_neg (by rw [hquote]; decide)]
    rfl
  · rw [if_neg hquote, if_neg hquote]
    by_cases hslash : c = 0x5c
    · rw [if_pos hslash, if_pos hslash]
      rfl
    · rw [if_neg hslash, if_neg hslash]
      rfl

theorem escape_length (v : Text) :
    (v.flatMap escapeByte).length = v.length + 5 * v.count 0x22 + v.count 0x5c := by
  induction v with
  | nil => rfl
  | cons c v ih =>
    rw [List.flatMap_cons, List.length_append, ih, escapeByte_length, List.length_cons,
      List.count_cons, List.count_cons]
    simp only [beq_iff_eq]
    split <;> split <;> omega

theorem appendByte_eq {temp : Text} (h : temp.length < 255) (c : UInt8) :
    appendByte temp c = intoArray (temp ++ escapeByte c) := by
  rw [appendByte, intoArray, if_pos h]
  rfl

/-- The copy is complete exactly when it fits as a whole. -/
theorem escapeLoop_eq (v : Text) : ∀ temp : Text, temp.length < 255 →
    escapeLoop v temp = intoArray (temp ++ v.flatMap escapeByte) := by
  induction v with
  | nil =>
    intro temp h
    rw [escapeLoop, List.flatMap_nil, List.append_nil, intoArray, if_pos h]
  | cons c v ih =>
    intro temp h
    rw [escapeLoop, appendByte_eq h, List.flatMap_cons, ← List.append_assoc]
    by_cases hfits : (temp ++ escapeByte c).length < 255
    · rw [intoArray, if_pos hfits]
      exact ih _ hfits
    · have hlong : ¬ (temp ++ escapeByte c ++ v.flatMap escapeByte).length < 255 := by
        rw [List.length_append]
        omega
      rw [intoArray, if_neg hfits, intoArray, if_neg hlong]
      rfl

/-! ### Reading the copy -/

/-- `&quot;` stands for a quote and two backslashes for one. -/
def decode : Text → Text
  | [] => []
  | 0x26 :: 0x71 :: 0x75 :: 0x6f :: 0x74 :: 0x3b :: s => 0x22 :: decode s
  | 0x5c :: 0x5c :: s => 0x5c :: decode s
  | c :: s => c :: decode s

def entity : Text := ascii "&quot;"

theorem entity_eq : entity = [0x26, 0x71, 0x75, 0x6f, 0x74, 0x3b] := by decide

/-- Behind its first letter the entity has none that the copy changes or starts with. -/
theorem entity_letters : ∀ c ∈ ([0x71, 0x75, 0x6f, 0x74, 0x3b] : Text), c ≠ 0x26 ∧ c ≠ 0x5c := by
  have hall : ([0x71, 0x75, 0x6f, 0x74, 0x3b] : Text).all fun c => c ≠ 0x26 ∧ c ≠ 0x5c := by decide
  exact fun c hc => of_decide_eq_true (List.all_eq_true.mp hall c hc)

theorem decode_entity (s : Text) : decode (entity ++ s) = 0x22 :: decode s := rfl

theorem decode_cons {c : UInt8} {s : Text} (hentity : ¬ entity <+: c :: s) (hc : c ≠ 0x5c) :
    decode (c :: s) = c :: decode s := by
  rw [decode]
  · rintro t rfl rfl
    exact hentity (List.prefix_append entity t)
  · rintro t rfl
    exact absurd rfl hc

/-- No copied byte but a plain one starts with a letter of the entity. -/
theorem prefix_of_prefix_escape {w : Text} (hw : ∀ c ∈ w, c ≠ 0x26 ∧ c ≠ 0x5c) :
    ∀ {v : Text}, w <+: v.flatMap escapeByte → w <+: v := by
  induction w with
  | nil => exact fun _ => List.nil_prefix
  | cons c w ih =>
    intro v h
    obtain ⟨⟨hamp, hslash⟩, hw⟩ := List.forall_mem_cons.mp hw
    cases v with
    | nil => exact absurd (List.prefix_nil.mp h) (List.cons_ne_nil c w)
    | cons d v =>
      rw [List.flatMap_cons, escapeByte] at h
      split at h
      · exact absurd (List.cons_prefix_cons.mp h).1 hamp
      · split at h
        · exact absurd (List.cons_prefix_cons.mp h).1 hslash
        · obtain ⟨rfl, hrest⟩ := List.cons_prefix_cons.mp h
          exact List.cons_prefix_cons.mpr ⟨rfl, ih hw hrest⟩

theorem decode_escapeByte {c : UInt8} {v : Text} (h : ¬ entity <+: c :: v) :
    decode (escapeByte c ++ v.flatMap escapeByte) = c :: decode (v.flatMap escapeByte) := by
  unfold escapeByte
  by_cases hquote : c = 0x22
  · rw [if_pos hquote, hquote]
    exact decode_entity _
  · rw [if_neg hquote]
    by_cases hslash : c = 0x5c
    · rw [if_pos hslash, hslash]
      rfl
    · rw [if_neg hslash]
      apply decode_cons _ hslash
      intro hentity
      rw [entity_eq] at h hentity
      obtain ⟨rfl, hrest⟩ := List.cons_prefix_cons.mp hentity
      exact h (List.cons_prefix_cons.mpr ⟨rfl, prefix_of_prefix_escape entity_letters hrest⟩)

theorem decode_escape {v : Text} (h : ¬ entity <:+: v) : decode (v.flatMap escapeByte) = v := by
  induction v with
  | nil => rfl
  | cons c v ih =>
    rw [List.flatMap_cons, decode_escapeByte fun hpre => h hpre.isInfix,
      ih fun hin => h (List.infix_cons hin)]

/-- Reading the copy never makes the value longer, and an entity makes it shorter. -/
theorem decode_escape_length (n : Nat) : ∀ v : Text, v.length ≤ n →
    (decode (v.flatMap escapeByte)).length ≤ v.length ∧
      (entity <:+: v → (decode (v.flatMap escapeByte)).length < v.length) := by
  induction n with
  | zero =>
    intro v hv
    obtain rfl := List.length_eq_zero_iff.mp (Nat.le_zero.mp hv)
    exact ⟨Nat.le_refl 0, fun h => absurd (List.infix_nil.mp h) (by decide)⟩
  | succ n ih =>
    intro v hv
    by_cases hentity : entity <+: v
    · -- the six bytes are copied as they are and read as one
      obtain ⟨t, rfl⟩ := hentity
      have hlen : entity.length = 6 := rfl
      have hcopy : (entity ++ t).flatMap escapeByte = entity ++ t.flatMap escapeByte := by
        rw [List.flatMap_append]
        rfl
      rw [List.length_append, hlen] at hv
      have hrest := (ih t (by omega)).1
      rw [hcopy, decode_entity, List.length_cons, List.length_append, hlen]
      exact ⟨by omega, fun _ => by omega⟩
    · cases v with
      | nil => exact ⟨Nat.le_refl 0, fun h => absurd (List.infix_nil.mp h) (by decide)⟩
      | cons c v =>
        have hrest := ih v (Nat.le_of_succ_le_succ hv)
        rw [List.flatMap_cons, decode_escapeByte hentity, List.length_cons, List.length_cons]
        refine ⟨by omega, fun hin => Nat.succ_lt_succ (hrest.2 ?_)⟩
        exact (List.infix_cons_iff.mp hin).resolve_left hentity

theorem decode_escape_iff (v : Text) : decode (v.flatMap escapeByte) = v ↔ ¬ entity <:+: v := by
  refine ⟨fun h hin => ?_, decode_escape⟩
  have hlt := (decode_escape_length v.length v (Nat.le_refl _)).2 hin
  rw [h] at hlt
  exact Nat.lt_irrefl _ hlt

/-! ### What the page gets -/

theorem CGI_get_cfg_eq {CFG_get_str : Nat → Option Text} {tag : Nat} {v : Text}
    (hstr : CFG_ID_TYPE tag = CFG_TYPE_STR) (hget : CFG_get_str tag = some v)
    (hlen : v.length ≤ 254) :
    CGI_get_cfg CFG_get_str tag = intoArray (v.flatMap escapeByte) := by
  have hval : intoArray v = some v := if_pos (by omega)
  have hcopy := escapeLoop_eq v [] (by decide)
  rw [List.nil_append] at hcopy
  rw [CGI_get_cfg, hget, Option.getD_some, hval, ← hcopy]
  exact if_pos hstr

def CFG_WLN_WPAPSK1 : Nat := CFG_WLN_ 154 CFG_TYPE_STR

/-- A passphrase of forty-three quotes does not fit, and one that holds the text of the entity is
read back with a quote. -/
theorem get_cfg_loses_value :
    CGI_get_cfg (fun _ => some (List.replicate 43 0x22)) CFG_WLN_WPAPSK1 = none ∧
      (CGI_get_cfg (fun _ => some (ascii "pass&quot;")) CFG_WLN_WPAPSK1).map decode =
        some (ascii "pass\"") := by
  decide

/-- The copy fits and gives the value back exactly when it is short enough and the value does
not hold the text of the entity. -/
theorem get_cfg_decodes_iff {CFG_get_str : Nat → Option Text} {tag : Nat} {v : Text}
    (hstr : CFG_ID_TYPE tag = CFG_TYPE_STR) (hget : CFG_get_str tag = some v)
    (hlen : v.length ≤ 254) :
    (∃ out, CGI_get_cfg CFG_get_str tag = some out ∧ decode out = v) ↔
      v.length + 5 * v.count 0x22 + v.count 0x5c ≤ 254 ∧ ¬ ascii "&quot;" <:+: v := by
  rw [CGI_get_cfg_eq hstr hget hlen, ← escape_length, ← entity, ← decode_escape_iff]
  simp only [intoArray, Option.ite_none_right_eq_some, Option.some.injEq]
  constructor
  · rintro ⟨out, ⟨hfits, rfl⟩, hout⟩
    exact ⟨Nat.le_of_lt_succ hfits, hout⟩
  · rintro ⟨hfits, hout⟩
    exact ⟨_, ⟨Nat.lt_succ_of_le hfits, rfl⟩, hout⟩

/-- The value `a"\b` is copied as `a&quot;\\b`. -/
theorem get_cfg_decodes_quote :
    ∃ out, CGI_get_cfg (fun _ => some (ascii "a\"\\b")) CFG_WLN_WPAPSK1 = some out ∧
      decode out = ascii "a\"\\b" :=
  (get_cfg_decodes_iff (by decide) rfl (by decide)).mpr (by decide)

end AksFirmware.ConfigEscape
