import AksFirmware.ByteMemory
import Mathlib.Data.List.Infix

/-!
# The C library's text functions

Texts are runs of non-zero bytes, as `ByteMemory.text` reads them.  The
definitions follow the documented behaviour of the C library; where that leaves
the outcome undefined (a conversion in a format that has no argument) the result
is `none`.
-/

namespace CText

open ByteMemory

/-- The bytes of an ASCII literal. -/
def ascii (s : String) : Text := s.toList.map fun c => c.toNat.toUInt8

/-- What `%d` prints for a number that is not negative. -/
def decimal (n : Nat) : Text := (Nat.toDigits 10 n).map fun c => c.toNat.toUInt8

/-- An address, in the order in which it is written. -/
structure InAddr where
  a : UInt8
  b : UInt8
  c : UInt8
  d : UInt8
deriving DecidableEq, Repr

def inet_ntoa (ip : InAddr) : Text :=
  decimal ip.a.toNat ++ ascii "." ++ decimal ip.b.toNat ++ ascii "." ++
    decimal ip.c.toNat ++ ascii "." ++ decimal ip.d.toNat

theorem mem_decimal {n : Nat} {c : UInt8} (h : c ∈ decimal n) : 48 ≤ c.toNat ∧ c.toNat ≤ 57 := by
  obtain ⟨d, hd, rfl⟩ := List.mem_map.mp h
  have hdigit := Nat.isDigit_of_mem_toDigits (by decide) (by decide) hd
  have hrange : 48 ≤ d.toNat ∧ d.toNat ≤ 57 := Char.isDigit_iff_toNat.mp hdigit
  simp only [Nat.toUInt8_eq, UInt8.toNat_ofNat']
  omega

theorem zero_notMem_decimal (n : Nat) : (0 : UInt8) ∉ decimal n :=
  fun h => absurd (mem_decimal h).1 (by decide)

theorem decimal_ne_nil (n : Nat) : decimal n ≠ [] :=
  fun h => Nat.toDigits_ne_nil (List.map_eq_nil_iff.mp h)

theorem decimal_byte_length (b : UInt8) : (decimal b.toNat).length ≤ 3 := by
  have hlt := b.toNat_lt
  rw [decimal, List.length_map, Nat.length_toDigits_le_iff (by decide) (by decide)]
  omega

theorem inet_ntoa_length (ip : InAddr) : (inet_ntoa ip).length ≤ 15 := by
  have := decimal_byte_length ip.a
  have := decimal_byte_length ip.b
  have := decimal_byte_length ip.c
  have := decimal_byte_length ip.d
  have hdot : (ascii ".").length = 1 := rfl
  simp only [inet_ntoa, List.length_append, hdot]
  omega

theorem zero_notMem_inet_ntoa (ip : InAddr) : (0 : UInt8) ∉ inet_ntoa ip := by
  have hdot : (0 : UInt8) ∉ ascii "." := by decide
  simp only [inet_ntoa, List.mem_append, zero_notMem_decimal, hdot, or_self, not_false_eq_true]

/-! ### Numbers -/

def isspace (c : UInt8) : Bool := c = 0x20 || (0x09 ≤ c && c ≤ 0x0d)

def isdigit (c : UInt8) : Bool := 0x30 ≤ c && c ≤ 0x39

def leadingNumber (s : Text) : Nat :=
  (s.takeWhile isdigit).foldl (fun acc c => acc * 10 + (c.toNat - 0x30)) 0

/-- `atoi` is `strtol` in base ten, which stays within the 32-bit range. -/
def clampInt (n : Int) : Int := max (-2147483648) (min 2147483647 n)

def atoi (s : Text) : Int :=
  match s.dropWhile isspace with
  | 0x2d :: rest => clampInt (-(leadingNumber rest : Int))
  | 0x2b :: rest => clampInt (leadingNumber rest)
  | rest => clampInt (leadingNumber rest)

theorem atoi_range (s : Text) : -0x80000000 ≤ atoi s ∧ atoi s < 0x80000000 := by
  have hclamp : ∀ n, -0x80000000 ≤ clampInt n ∧ clampInt n < 0x80000000 := by
    intro n
    simp only [clampInt]
    omega
  unfold atoi
  split <;> exact hclamp _

theorem isdigit_iff {c : UInt8} : isdigit c = true ↔ 48 ≤ c.toNat ∧ c.toNat ≤ 57 := by
  simp [isdigit, UInt8.le_iff_toNat_le]

/-- Digits are not passed as blanks and are no sign. -/
theorem atoi_of_digits {s : Text} (h : ∀ c ∈ s, isdigit c = true) :
    atoi s = clampInt (leadingNumber s) := by
  cases s with
  | nil => rfl
  | cons c s =>
    obtain ⟨hlow, hhigh⟩ := isdigit_iff.mp (h c List.mem_cons_self)
    have hspace : isspace c = false := by
      simp only [isspace, Bool.or_eq_false_iff, decide_eq_false_iff_not, Bool.and_eq_false_imp,
        decide_eq_true_eq, UInt8.le_iff_toNat_le]
      refine ⟨fun heq => ?_, fun _ hle => ?_⟩
      · rw [heq] at hlow
        exact absurd hlow (by decide)
      · exact absurd (Nat.le_trans hlow hle) (by decide)
    rw [atoi, List.dropWhile_cons_of_neg (by simp [hspace])]
    split
    · rename_i heq
      rw [(List.cons.inj heq).1] at hlow
      exact absurd hlow (by decide)
    · rename_i heq
      rw [(List.cons.inj heq).1] at hlow
      exact absurd hlow (by decide)
    · rfl

theorem isdigit_decimal {n : Nat} : ∀ c ∈ decimal n, isdigit c = true :=
  fun _ hc => isdigit_iff.mpr (mem_decimal hc)

theorem leadingNumber_decimal (n : Nat) : leadingNumber (decimal n) = n := by
  have hdigit : ∀ d ∈ Nat.toDigits 10 n, d.toNat.toUInt8.toNat = d.toNat := by
    intro d hd
    have hrange := Char.isDigit_iff_toNat.mp (Nat.isDigit_of_mem_toDigits (by decide) (by decide) hd)
    simp only [Nat.toUInt8_eq, UInt8.toNat_ofNat']
    have hsmall : d.toNat ≤ 57 := hrange.2
    omega
  have hfold : ∀ (l : List Char) (acc : Nat), (∀ d ∈ l, d.toNat.toUInt8.toNat = d.toNat) →
      (l.map fun d => d.toNat.toUInt8).foldl (fun acc c => acc * 10 + (c.toNat - 0x30)) acc =
        Nat.ofDigitChars 10 l acc := by
    intro l
    induction l with
    | nil => exact fun acc _ => Nat.ofDigitChars_nil.symm
    | cons d l ih =>
      intro acc hl
      rw [List.forall_mem_cons] at hl
      rw [List.map_cons, List.foldl_cons, ih _ hl.2, hl.1, Nat.ofDigitChars_cons, Nat.mul_comm]
      rfl
  rw [leadingNumber, List.takeWhile_eq_self_iff.mpr isdigit_decimal, decimal, hfold _ 0 hdigit,
    Nat.ofDigitChars_ten_toDigits]

theorem decimal_inj {n k : Nat} (h : decimal n = decimal k) : n = k := by
  rw [← leadingNumber_decimal n, h, leadingNumber_decimal]

theorem atoi_decimal {n : Nat} (h : n < 0x80000000) : atoi (decimal n) = n := by
  rw [atoi_of_digits isdigit_decimal, leadingNumber_decimal, clampInt]
  omega

/-- The value of an `int` that a longer number is assigned to. -/
def int32 (n : Nat) : Int :=
  let low := n % 0x100000000
  if low < 0x80000000 then low else low - 0x100000000

theorem int32_of_lt {n : Nat} (h : n < 0x80000000) : int32 n = n := by
  have hlow : n % 0x100000000 = n := Nat.mod_eq_of_lt (by omega)
  simp only [int32, hlow, if_pos h]

/-! ### Tokens -/

/-- The text at `a` up to the end of its first token, with the delimiters in front. -/
def upToToken (delims s : Text) : Text :=
  s.takeWhile (· ∈ delims) ++ (s.dropWhile (· ∈ delims)).takeWhile (· ∉ delims)

/-- The first call of `strtok` on the text at `a`: the token, if there is one, and a zero
behind it.  Delimiters in front of the token stay where they are. -/
def strtok (delims : Text) (m : Mem) (a n : Nat) : Mem × Option Text :=
  let s := text m a n
  let token := (s.dropWhile (· ∈ delims)).takeWhile (· ∉ delims)
  if token = [] then (m, none)
  else (store m (a + (upToToken delims s).length) [0], some token)

theorem upToToken_begins (delims s : Text) : upToToken delims s <+: s := by
  have hrest := List.takeWhile_prefix (l := s.dropWhile (· ∈ delims)) (· ∉ delims)
  have happ := (List.prefix_append_right_inj (s.takeWhile (· ∈ delims))).mpr hrest
  rwa [List.takeWhile_append_dropWhile] at happ

/-- Without a token there is nothing but delimiters. -/
theorem upToToken_of_no_token {delims s : Text}
    (h : (s.dropWhile (· ∈ delims)).takeWhile (· ∉ delims) = []) : upToToken delims s = s := by
  rw [upToToken, h, List.append_nil]
  have hnil : s.dropWhile (· ∈ delims) = [] := by
    cases hrest : s.dropWhile (· ∈ delims) with
    | nil => rfl
    | cons c rest =>
      have hc : c ∉ delims := by simpa using not_of_dropWhile_cons hrest
      simp [hrest, hc] at h
  have hall := List.takeWhile_append_dropWhile (p := (· ∈ delims)) (l := s)
  rwa [hnil, List.append_nil] at hall

theorem strtok_holds (delims : Text) {m : Mem} {a n : Nat} {s : Text} (h : HoldsText m a s)
    (hs : (0 : UInt8) ∉ s) (hn : s.length < n) :
    HoldsText (strtok delims m a n).1 a (upToToken delims s) := by
  have htext : text m a n = s := h.text_eq hs hn
  simp only [strtok, htext]
  split
  · rename_i htoken
    rwa [upToToken_of_no_token htoken]
  · have hcut := h.cut (upToToken delims s).length
    rwa [(List.prefix_iff_eq_take.mp (upToToken_begins delims s)).symm] at hcut

/-- The delimiters in front of the token are the only ones that are left. -/
theorem upToToken_clean_iff {delims s : Text} {k : Nat} (hk : 0 < k) :
    (∀ c ∈ (upToToken delims s).take k, c ∉ delims) ↔ ∀ c ∈ s.head?, c ∉ delims := by
  cases s with
  | nil => simp [upToToken]
  | cons c s =>
    obtain ⟨k, rfl⟩ := Nat.exists_eq_succ_of_ne_zero hk.ne'
    by_cases hc : c ∈ delims
    · simp [upToToken, hc]
    · have htoken : upToToken delims (c :: s) = (c :: s).takeWhile (· ∉ delims) := by
        simp [upToToken, hc]
      rw [htoken]
      refine iff_of_true (fun d hd => ?_) (by simpa using hc)
      simpa using List.mem_takeWhile_imp (List.mem_of_mem_take hd)

/-! ### Comparison and search -/

/-- The difference of the first two characters that disagree, zero for equal texts. -/
def strcmp : Text → Text → Int
  | [], [] => 0
  | [], d :: _ => -(d.toNat : Int)
  | c :: _, [] => c.toNat
  | c :: s, d :: t => if c = d then strcmp s t else (c.toNat : Int) - d.toNat

/-- Texts that `strcmp` finds equal are equal up to their ends. -/
theorem takeWhile_of_strcmp {s t : Text} (h : strcmp s t = 0) :
    s.takeWhile (· ≠ 0) = t.takeWhile (· ≠ 0) := by
  induction s generalizing t with
  | nil =>
    cases t with
    | nil => rfl
    | cons d t =>
      have hd : d = 0 := UInt8.toNat_inj.mp (by simp [strcmp] at h; exact h)
      simp [hd]
  | cons c s ih =>
    cases t with
    | nil =>
      have hc : c = 0 := UInt8.toNat_inj.mp (by simp [strcmp] at h; exact h)
      simp [hc]
    | cons d t =>
      simp only [strcmp] at h
      split at h
      · rename_i hcd
        rw [hcd, List.takeWhile_cons, List.takeWhile_cons, ih h]
      · rename_i hcd
        exact absurd (UInt8.toNat_inj.mp (by omega)) hcd

theorem strcmp_self (s : Text) : strcmp s s = 0 := by
  induction s with
  | nil => rfl
  | cons c s ih => rw [strcmp, if_pos rfl, ih]

theorem strcmp_eq_zero_iff {s t : Text} (hs : (0 : UInt8) ∉ s) (ht : (0 : UInt8) ∉ t) :
    strcmp s t = 0 ↔ s = t := by
  constructor
  · intro h
    have hends := takeWhile_of_strcmp h
    rwa [takeWhile_eq_self hs, takeWhile_eq_self ht] at hends
  · rintro rfl
    exact strcmp_self s

theorem strcmp_swap (s t : Text) : strcmp t s = -strcmp s t := by
  induction s generalizing t with
  | nil =>
    cases t with
    | nil => rfl
    | cons d t => simp [strcmp]
  | cons c s ih =>
    cases t with
    | nil => simp [strcmp]
    | cons d t =>
      by_cases hcd : c = d
      · rw [strcmp, if_pos hcd.symm, strcmp, if_pos hcd, ih]
      · rw [strcmp, if_neg (Ne.symm hcd), strcmp, if_neg hcd]
        omega

theorem strcmp_cons_le_iff (c d : UInt8) (s t : Text) :
    strcmp (c :: s) (d :: t) ≤ 0 ↔ c.toNat < d.toNat ∨ c = d ∧ strcmp s t ≤ 0 := by
  rw [strcmp]
  by_cases hcd : c = d
  · rw [if_pos hcd, hcd]
    simp
  · have hne : c.toNat ≠ d.toNat := fun heq => hcd (UInt8.toNat_inj.mp heq)
    rw [if_neg hcd]
    simp only [hcd, false_and, or_false]
    omega

/-- `strcmp` orders the texts of C. -/
theorem strcmp_le_trans {s t u : Text} (hs : (0 : UInt8) ∉ s) (ht : (0 : UInt8) ∉ t)
    (hst : strcmp s t ≤ 0) (htu : strcmp t u ≤ 0) : strcmp s u ≤ 0 := by
  have hend : ∀ {c : UInt8} {r : Text}, (0 : UInt8) ∉ c :: r → ¬ strcmp (c :: r) [] ≤ 0 := by
    intro c r hr hle
    simp only [strcmp] at hle
    have hc : c = 0 := UInt8.toNat_inj.mp (show c.toNat = (0 : UInt8).toNat by simpa using hle)
    exact hr (hc ▸ List.mem_cons_self)
  induction s generalizing t u with
  | nil => cases u <;> simp [strcmp]
  | cons c s ih =>
    cases t with
    | nil => exact absurd hst (hend hs)
    | cons d t =>
      cases u with
      | nil => exact absurd htu (hend ht)
      | cons e u =>
        rw [strcmp_cons_le_iff] at hst htu ⊢
        rcases hst with hcd | ⟨rfl, hst⟩
        · rcases htu with hde | ⟨rfl, -⟩
          · exact Or.inl (Nat.lt_trans hcd hde)
          · exact Or.inl hcd
        · rcases htu with hde | ⟨rfl, htu⟩
          · exact Or.inl hde
          · exact Or.inr ⟨rfl, ih (List.not_mem_of_not_mem_cons hs)
              (List.not_mem_of_not_mem_cons ht) hst htu⟩

/-- The effect of `p = strchr(s, c); *p = 0; p++`: the text before the first `c`
and the text after it. -/
def cut (c : UInt8) (s : Text) : Option (Text × Text) :=
  match s.dropWhile (· ≠ c) with
  | [] => none
  | _ :: rest => some (s.takeWhile (· ≠ c), rest)

/-- `strstr` finds `needle` somewhere in `hay`. -/
def strstr (hay needle : Text) : Bool := decide (needle <:+: hay)

/-- A text without the separator is found on one side of it. -/
theorem infix_around {needle a b : Text} {c : UInt8} (hne : needle ≠ []) (hc : c ∉ needle) :
    needle <:+: a ++ c :: b ↔ needle <:+: a ∨ needle <:+: b := by
  have hstart : ∀ a : Text, needle <+: a ++ c :: b → needle <+: a := by
    intro a h
    refine List.prefix_of_prefix_length_le h (List.prefix_append a _) ?_
    by_contra hlong
    -- a longer needle would hold the separator
    have hsep : a ++ [c] <+: needle := by
      have hfirst : a ++ [c] <+: a ++ c :: b := ⟨b, by simp⟩
      refine List.prefix_of_prefix_length_le hfirst h ?_
      rw [List.length_append, List.length_singleton]
      omega
    exact hc (hsep.subset (List.mem_append_right a List.mem_cons_self))
  constructor
  · intro h
    induction a with
    | nil =>
      rcases List.infix_cons_iff.mp h with h | h
      · exact absurd (List.prefix_nil.mp (hstart [] h)) hne
      · exact Or.inr h
    | cons d a ih =>
      rcases List.infix_cons_iff.mp h with h | h
      · exact Or.inl (hstart (d :: a) h).isInfix
      · exact (ih h).imp_left List.infix_cons
  · rintro (h | h)
    · exact h.trans (List.prefix_append a _).isInfix
    · exact (List.infix_cons h).trans (List.suffix_append a _).isInfix

/-- How far from the start of `hay` `strstr` finds `needle`; it stops at a zero. -/
def strstrOffset (needle : Text) : List UInt8 → Option Nat
  | [] => if needle = [] then some 0 else none
  | c :: hay =>
    if needle.isPrefixOf (c :: hay) then some 0
    else if c = 0 then none
    else (strstrOffset needle hay).map (· + 1)

/-- Where `strstr(&src[a], needle)` points to in `src`. -/
def strstrFrom (src : List UInt8) (a : Nat) (needle : Text) : Option Nat :=
  (strstrOffset needle (src.drop a)).map (a + ·)

theorem strstrOffset_eq_some {needle hay : Text} {n : Nat} (hzero : (0 : UInt8) ∉ hay)
    (hat : needle <+: hay.drop n) (hfirst : ∀ m < n, ¬ needle <+: hay.drop m) :
    strstrOffset needle hay = some n := by
  induction hay generalizing n with
  | nil =>
    have hnil : needle = [] := List.prefix_nil.mp (List.drop_nil ▸ hat)
    rcases Nat.eq_zero_or_pos n with rfl | hpos
    · exact if_pos hnil
    · exact absurd (hnil ▸ List.nil_prefix) (hfirst 0 hpos)
  | cons c hay ih =>
    have hc : c ≠ 0 := fun h => hzero (h ▸ List.mem_cons_self)
    cases n with
    | zero => exact if_pos (List.isPrefixOf_iff_prefix.mpr hat)
    | succ n =>
      have hnot : ¬ needle.isPrefixOf (c :: hay) = true := fun h =>
        hfirst 0 (Nat.succ_pos n) (List.isPrefixOf_iff_prefix.mp h)
      have hrest := ih (fun h => hzero (List.mem_cons_of_mem c h)) hat
        fun m hm => hfirst (m + 1) (Nat.succ_lt_succ hm)
      rw [strstrOffset, if_neg hnot, if_neg hc, hrest, Option.map_some]

theorem strstrOffset_eq_none {needle hay : Text} (hne : needle ≠ [])
    (h : ∀ m, ¬ needle <+: hay.drop m) : strstrOffset needle hay = none := by
  induction hay with
  | nil => exact if_neg hne
  | cons c hay ih =>
    have hnot : ¬ needle.isPrefixOf (c :: hay) = true := fun hpre =>
      h 0 (List.isPrefixOf_iff_prefix.mp hpre)
    rw [strstrOffset, if_neg hnot, ih fun m => h (m + 1)]
    exact ite_self none

/-- What stands behind the end of a text is not searched. -/
theorem strstrOffset_append_zero {needle : Text} (hne : needle ≠ []) (hzero : (0 : UInt8) ∉ needle)
    (hay rest : List UInt8) :
    strstrOffset needle (hay ++ 0 :: rest) = strstrOffset needle hay := by
  have hcut : ∀ hay : List UInt8, needle <+: hay ++ 0 :: rest ↔ needle <+: hay := by
    intro hay
    refine ⟨fun hpre => ?_, fun hpre => hpre.trans (List.prefix_append hay _)⟩
    rcases List.prefix_or_prefix_of_prefix hpre (List.prefix_append hay (0 :: rest)) with h | h
    · exact h
    · obtain ⟨t, rfl⟩ := h
      rw [List.prefix_append_right_inj] at hpre
      cases t with
      | nil => rw [List.append_nil]
      | cons c t =>
        rw [List.cons_prefix_cons] at hpre
        exact absurd (hpre.1 ▸ List.mem_append_right hay List.mem_cons_self) hzero
  induction hay with
  | nil =>
    have hnot : ¬ needle.isPrefixOf (0 :: rest) = true := fun hpre =>
      hne (List.prefix_nil.mp ((hcut []).mp (List.isPrefixOf_iff_prefix.mp hpre)))
    simp only [List.nil_append, strstrOffset, if_neg hnot, if_neg hne, if_true]
  | cons c hay ih =>
    have hiff : needle.isPrefixOf (c :: (hay ++ 0 :: rest)) = needle.isPrefixOf (c :: hay) := by
      rw [Bool.eq_iff_iff, List.isPrefixOf_iff_prefix, List.isPrefixOf_iff_prefix]
      exact hcut (c :: hay)
    rw [List.cons_append, strstrOffset, strstrOffset, hiff, ih]

/-- The first place of a tag of two characters, whatever stands behind it. -/
theorem strstrOffset_pair {a b : UInt8} (hab : a ≠ b) {pre : Text} (hzero : (0 : UInt8) ∉ pre)
    (hpre : ¬ [a, b] <:+: pre) (rest : List UInt8) :
    strstrOffset [a, b] (pre ++ a :: b :: rest) = some pre.length := by
  induction pre with
  | nil => exact if_pos (by simp)
  | cons c pre ih =>
    have hc : c ≠ 0 := fun h => hzero (h ▸ List.mem_cons_self)
    have hnot : ¬ [a, b].isPrefixOf (c :: (pre ++ a :: b :: rest)) = true := by
      intro hfirst
      obtain ⟨rfl, hnext⟩ := List.cons_prefix_cons.mp (List.isPrefixOf_iff_prefix.mp hfirst)
      cases pre with
      | nil => exact hab (List.cons_prefix_cons.mp hnext).1.symm
      | cons d pre =>
        obtain ⟨rfl, -⟩ := List.cons_prefix_cons.mp hnext
        exact hpre (List.prefix_append [a, b] pre).isInfix
    have hrest := ih (fun h => hzero (List.mem_cons_of_mem c h))
      fun h => hpre (List.infix_cons h)
    rw [List.cons_append, strstrOffset, if_neg hnot, if_neg hc, hrest, Option.map_some,
      List.length_cons]

/-- A text with a tag of two characters, cut at its first place. -/
theorem exists_first_pair {a b : UInt8} {t : Text} (h : [a, b] <:+: t) :
    ∃ pre rest, t = pre ++ [a, b] ++ rest ∧ ¬ [a, b] <:+: pre := by
  induction t with
  | nil => exact absurd (List.infix_nil.mp h) (List.cons_ne_nil _ _)
  | cons c t ih =>
    by_cases hfirst : [a, b] <+: c :: t
    · obtain ⟨rest, hrest⟩ := hfirst
      exact ⟨[], rest, hrest.symm, by simp⟩
    · have hlater := (List.infix_cons_iff.mp h).resolve_left hfirst
      obtain ⟨pre, rest, rfl, hpre⟩ := ih hlater
      refine ⟨c :: pre, rest, rfl, fun hin => ?_⟩
      rcases List.infix_cons_iff.mp hin with hat | hin
      · exact hfirst (hat.trans ⟨[a, b] ++ rest, by simp⟩)
      · exact hpre hin

theorem strstrOffset_of_not_infix {needle hay : Text} (hne : needle ≠ [])
    (h : ¬ needle <:+: hay) : strstrOffset needle hay = none :=
  strstrOffset_eq_none hne fun m hpre => h (hpre.isInfix.trans (List.drop_suffix m hay).isInfix)

theorem strstrFrom_eq_some {src needle : Text} {a n : Nat} (hzero : (0 : UInt8) ∉ src.drop a)
    (han : a ≤ n) (hat : needle <+: src.drop n)
    (hfirst : ∀ m, a ≤ m → m < n → ¬ needle <+: src.drop m) : strstrFrom src a needle = some n := by
  obtain ⟨k, rfl⟩ := Nat.exists_eq_add_of_le han
  rw [← List.drop_drop] at hat
  have hoffset : strstrOffset needle (src.drop a) = some k := by
    apply strstrOffset_eq_some hzero hat
    intro m hm hpre
    rw [List.drop_drop] at hpre
    exact hfirst (a + m) (Nat.le_add_right a m) (Nat.add_lt_add_left hm a) hpre
  rw [strstrFrom, hoffset, Option.map_some]

theorem strstrFrom_eq_none {src needle : Text} {a : Nat} (hne : needle ≠ [])
    (h : ∀ m, a ≤ m → ¬ needle <+: src.drop m) : strstrFrom src a needle = none := by
  rw [strstrFrom, strstrOffset_eq_none hne, Option.map_none]
  intro m hpre
  rw [List.drop_drop] at hpre
  exact h (a + m) (Nat.le_add_right a m) hpre

theorem strstrOffset_le {needle : Text} {hay : List UInt8} {n : Nat}
    (h : strstrOffset needle hay = some n) : n + needle.length ≤ hay.length := by
  induction hay generalizing n with
  | nil =>
    simp only [strstrOffset, Option.ite_none_right_eq_some, Option.some.injEq] at h
    obtain ⟨rfl, rfl⟩ := h
    exact le_rfl
  | cons c hay ih =>
    rw [strstrOffset] at h
    split at h
    · rename_i hpre
      obtain rfl := Option.some.inj h
      rw [Nat.zero_add]
      exact (List.isPrefixOf_iff_prefix.mp hpre).length_le
    · simp only [Option.ite_none_left_eq_some, Option.map_eq_some_iff] at h
      obtain ⟨-, m, hm, rfl⟩ := h
      have hle := ih hm
      rw [List.length_cons]
      omega

/-- What is found stands in the text, not before the place where the search starts. -/
theorem strstrFrom_bounds {src needle : Text} {a n : Nat} (hne : needle ≠ [])
    (h : strstrFrom src a needle = some n) : a ≤ n ∧ n + needle.length ≤ src.length := by
  obtain ⟨k, hk, rfl⟩ := Option.map_eq_some_iff.mp h
  have hle := strstrOffset_le hk
  have hpos := List.length_pos_iff.mpr hne
  rw [List.length_drop] at hle
  omega

/-- What `snprintf(buf, k, "%s", s)` leaves of `s`. -/
def clip (k : Nat) (s : Text) : Text := s.take (k - 1)

theorem clip_length_lt {k : Nat} (hk : 0 < k) (s : Text) : (clip k s).length < k := by
  simp only [clip, List.length_take]
  omega

theorem zero_notMem_clip {s : Text} (h : (0 : UInt8) ∉ s) (k : Nat) : (0 : UInt8) ∉ clip k s :=
  fun hmem => h (List.mem_of_mem_take hmem)

/-- The bytes that `strncpy(d, s, n)` writes: zeros from the first zero of `s` on. -/
def strncpyBytes (n : Nat) (s : List UInt8) : List UInt8 :=
  let t := (s.take n).takeWhile (· ≠ 0)
  t ++ List.replicate (n - t.length) 0

theorem strncpyBytes_length (n : Nat) (s : List UInt8) : (strncpyBytes n s).length = n := by
  have hpre := (List.takeWhile_prefix (· ≠ (0 : UInt8)) : _ <+: s.take n).length_le
  rw [List.length_take] at hpre
  simp only [strncpyBytes, List.length_append, List.length_replicate]
  omega

theorem strncpyBytes_getElem {s : List UInt8} {i : Nat} {b : UInt8}
    (h : (strncpyBytes s.length s)[i]? = some b) (hb : b ≠ 0) : s[i]? = some b := by
  simp only [strncpyBytes, List.take_length] at h
  by_cases hi : i < (s.takeWhile (· ≠ 0)).length
  · rw [List.getElem?_append_left hi] at h
    rw [← List.takeWhile_append_dropWhile (p := (· ≠ (0 : UInt8))) (l := s),
      List.getElem?_append_left hi]
    exact h
  · rw [List.getElem?_append_right (Nat.not_lt.mp hi), List.getElem?_replicate] at h
    split at h
    · exact absurd (Option.some.inj h).symm hb
    · cases h

/-- The bytes are copied as they are exactly when only zeros follow a zero. -/
theorem strncpyBytes_eq_iff (s : List UInt8) :
    strncpyBytes s.length s = s ↔ ∀ b ∈ s.dropWhile (· ≠ 0), b = 0 := by
  have hsplit := List.takeWhile_append_dropWhile (p := (· ≠ (0 : UInt8))) (l := s)
  have hlen := congrArg List.length hsplit
  rw [List.length_append] at hlen
  have hzeros : strncpyBytes s.length s =
      s.takeWhile (· ≠ 0) ++ List.replicate (s.dropWhile (· ≠ 0)).length 0 := by
    simp only [strncpyBytes, List.take_length]
    congr 2
    omega
  rw [hzeros]
  conv_lhs => rhs; rw [← hsplit]
  rw [List.append_cancel_left_eq, eq_comm, List.eq_replicate_iff]
  simp

/-! ### Formats without arguments -/

/-- The output of `sprintf(buf, fmt)` when no argument follows: `%%` prints a
percent sign and every other conversion is undefined. -/
def printf : Text → Option Text
  | [] => some []
  | 0x25 :: 0x25 :: rest => (printf rest).map (0x25 :: ·)
  | 0x25 :: _ => none
  | c :: rest => (printf rest).map (c :: ·)

theorem printf_plain {fmt : Text} (h : (0x25 : UInt8) ∉ fmt) : printf fmt = some fmt := by
  induction fmt with
  | nil => rfl
  | cons c fmt ih =>
    have hc : c ≠ 0x25 := fun heq => h (heq ▸ List.mem_cons_self)
    rw [printf, ih fun hmem => h (List.mem_cons_of_mem c hmem)]
    · rfl
    · intro _ heq
      exact absurd heq hc
    · intro heq
      exact hc heq

theorem printf_length_le : ∀ {fmt out : Text}, printf fmt = some out → out.length ≤ fmt.length := by
  intro fmt
  induction fmt using printf.induct with
  | case1 => intro out h; simp_all [printf]
  | case2 rest ih =>
    intro out h
    simp only [printf, Option.map_eq_some_iff] at h
    obtain ⟨tail, htail, rfl⟩ := h
    have := ih htail
    simp only [List.length_cons]
    omega
  | case3 rest hne => intro out h; simp_all [printf]
  | case4 c rest _ hne ih =>
    intro out h
    rw [printf, Option.map_eq_some_iff] at h
    · obtain ⟨tail, htail, rfl⟩ := h
      have := ih htail
      simp only [List.length_cons]
      omega
    · simp_all
    · simp_all

theorem zero_notMem_printf : ∀ {fmt out : Text}, (0 : UInt8) ∉ fmt → printf fmt = some out →
    (0 : UInt8) ∉ out := by
  intro fmt
  induction fmt using printf.induct with
  | case1 => intro out _ h; simp_all [printf]
  | case2 rest ih =>
    intro out hfmt h
    simp only [printf, Option.map_eq_some_iff] at h
    obtain ⟨tail, htail, rfl⟩ := h
    have hrest := ih (fun hmem => hfmt (by simp [hmem])) htail
    simp [hrest]
  | case3 rest hne => intro out _ h; simp_all [printf]
  | case4 c rest _ hne ih =>
    intro out hfmt h
    rw [printf, Option.map_eq_some_iff] at h
    · obtain ⟨tail, htail, rfl⟩ := h
      have hrest := ih (fun hmem => hfmt (List.mem_cons_of_mem _ hmem)) htail
      have hc : (0 : UInt8) ≠ c := fun heq => hfmt (heq ▸ List.mem_cons_self)
      simp [hrest, hc]
    · simp_all
    · simp_all

end CText
