import Mathlib.Data.Bool.AllAny
import Mathlib.Data.List.Basic
import Mathlib.Data.List.Infix
import Mathlib.Tactic.SplitIfs

/-!
# Texts in a script

A web server writes calls with quoted arguments into a script, and a browser reads them
back: it decodes the bytes, ends the script at the first end tag whatever that interrupts,
and parses the rest.  Texts that the server does not control are harmless in such a call
when the browser gets the arguments back as they were.

A literal never stands for more units than it is written with, and for as many only when
no unit has a meaning of its own (`stringBody_spec`).  So a call that is written with its
arguments as they are and read with the same arguments has been read without any escape
or gap.
-/

namespace ScriptText

/-! ### From bytes to code units -/

abbrev CodeUnit := UInt16

/-- An encoding in which a byte below `0x30` always stands for itself, and an ASCII byte at
the start of a text does, as in UTF-8 or GBK: `shown` decodes a run of other bytes. -/
structure Charset where
  shown : List UInt8 → List CodeUnit
  nil : shown [] = []
  ascii : ∀ c run, c.toNat < 0x80 → shown (c :: run) = c.toUInt16 :: shown run

def Charset.decodeFrom (C : Charset) : List UInt8 → List UInt8 → List CodeUnit
  | run, [] => C.shown run
  | run, c :: bytes =>
      if c.toNat < 0x30 then C.shown run ++ c.toUInt16 :: C.decodeFrom [] bytes
      else C.decodeFrom (run ++ [c]) bytes

def Charset.decode (C : Charset) (bytes : List UInt8) : List CodeUnit := C.decodeFrom [] bytes

theorem Charset.decode_nil (C : Charset) : C.decode [] = [] := C.nil

theorem Charset.decode_sep (C : Charset) (a b : List UInt8) {c : UInt8} (hc : c.toNat < 0x30) :
    C.decode (a ++ c :: b) = C.decode a ++ c.toUInt16 :: C.decode b := by
  have hrun : ∀ run, C.decodeFrom run (a ++ c :: b) =
      C.decodeFrom run a ++ c.toUInt16 :: C.decode b := by
    induction a with
    | nil =>
      intro run
      simp only [List.nil_append, decodeFrom, if_pos hc]
      rfl
    | cons d a ih =>
      intro run
      simp only [List.cons_append, decodeFrom]
      split
      · rw [ih, List.append_assoc, List.cons_append]
      · exact ih _
  exact hrun []

theorem Charset.decodeFrom_ascii (C : Charset) {c : UInt8} (hc : c.toNat < 0x80)
    (run bytes : List UInt8) :
    C.decodeFrom (c :: run) bytes = c.toUInt16 :: C.decodeFrom run bytes := by
  induction bytes generalizing run with
  | nil => exact C.ascii c run hc
  | cons d bytes ih =>
    rw [decodeFrom, decodeFrom]
    split
    · rw [C.ascii c run hc, List.cons_append]
    · exact ih (run ++ [d])

theorem Charset.decode_cons (C : Charset) {c : UInt8} (hc : c.toNat < 0x80)
    (bytes : List UInt8) : C.decode (c :: bytes) = c.toUInt16 :: C.decode bytes := by
  rw [decode, decodeFrom]
  split
  · rw [C.nil]
    rfl
  · exact C.decodeFrom_ascii hc [] bytes

theorem Charset.decode_append (C : Charset) {a : List UInt8} (ha : ∀ c ∈ a, c.toNat < 0x80)
    (b : List UInt8) : C.decode (a ++ b) = a.map UInt8.toUInt16 ++ C.decode b := by
  induction a with
  | nil => rfl
  | cons c a ih =>
    rw [List.cons_append, C.decode_cons (ha c List.mem_cons_self),
      ih fun d hd => ha d (List.mem_cons_of_mem c hd)]
    rfl

theorem Charset.decode_ascii (C : Charset) {bytes : List UInt8}
    (h : ∀ c ∈ bytes, c.toNat < 0x80) : C.decode bytes = bytes.map UInt8.toUInt16 := by
  have happend := C.decode_append h []
  rwa [List.append_nil, C.decode_nil, List.append_nil] at happend

/-- The encoding in which every byte is the unit of the same number. -/
def latin1 : Charset where
  shown := List.map UInt8.toUInt16
  nil := rfl
  ascii := fun _ _ _ => rfl

/-! ### The end of a script -/

def lower (c : CodeUnit) : CodeUnit := if 0x41 ≤ c ∧ c ≤ 0x5a then c + 0x20 else c

/-- `</script`, and the units that may follow it. -/
def endTagName : List CodeUnit := [0x3c, 0x2f, 0x73, 0x63, 0x72, 0x69, 0x70, 0x74]

def endTagEnds : List CodeUnit := [0x09, 0x0a, 0x0c, 0x0d, 0x20, 0x2f, 0x3e]

def StartsEndTag (u : List CodeUnit) : Prop :=
  (u.take 8).map lower = endTagName ∧ ∃ c ∈ u[8]?, c ∈ endTagEnds

instance (u : List CodeUnit) : Decidable (StartsEndTag u) := by
  unfold StartsEndTag; infer_instance

/-- The browser finds the end of the script in the text.  What `<!--` and `<script` in front of
it change, which can only hold the end back, is left out. -/
def EndsScript (u : List CodeUnit) : Prop := ∃ t ∈ u.tails, StartsEndTag t

instance (u : List CodeUnit) : Decidable (EndsScript u) := by unfold EndsScript; infer_instance

/-! ### Literals -/

def quote : CodeUnit := 0x27
def backslash : CodeUnit := 0x5c
def LF : CodeUnit := 0x0a
def CR : CodeUnit := 0x0d

/-- A unit that stands for itself in a single-quoted literal. -/
def Plain (c : CodeUnit) : Prop := c ≠ quote ∧ c ≠ backslash ∧ c ≠ LF ∧ c ≠ CR

instance (c : CodeUnit) : Decidable (Plain c) := by unfold Plain; infer_instance

def hexVal (c : CodeUnit) : Option Nat :=
  if 0x30 ≤ c ∧ c ≤ 0x39 then some (c.toNat - 0x30)
  else if 0x41 ≤ c ∧ c ≤ 0x46 then some (c.toNat - 0x37)
  else if 0x61 ≤ c ∧ c ≤ 0x66 then some (c.toNat - 0x57)
  else none

/-- Exactly so many hexadecimal digits. -/
def hexDigits : Nat → Nat → List CodeUnit → Option (Nat × List CodeUnit)
  | 0, acc, u => some (acc, u)
  | _ + 1, _, [] => none
  | n + 1, acc, c :: u => (hexVal c).bind fun d => hexDigits n (acc * 16 + d) u

/-- Hexadecimal digits up to a closing brace. -/
def hexBrace : Nat → List CodeUnit → Option (Nat × List CodeUnit)
  | _, [] => none
  | acc, c :: u =>
      if c = 0x7d then some (acc, u) else (hexVal c).bind fun d => hexBrace (acc * 16 + d) u

/-- A code point as code units. -/
def utf16 (v : Nat) : List CodeUnit :=
  if v < 0x10000 then [v.toUInt16]
  else [(0xd800 + (v - 0x10000) / 0x400).toUInt16, (0xdc00 + (v - 0x10000) % 0x400).toUInt16]

def octVal (c : CodeUnit) : Option Nat :=
  if 0x30 ≤ c ∧ c ≤ 0x37 then some (c.toNat - 0x30) else none

/-- The rest of an octal escape after its first digit: at most two more, and at most 255. -/
def octalRest (d : Nat) : List CodeUnit → Nat × List CodeUnit
  | [] => (d, [])
  | c :: u =>
      match octVal c with
      | none => (d, c :: u)
      | some e =>
          match u with
          | [] => (d * 8 + e, [])
          | c' :: u' =>
              match octVal c' with
              | none => (d * 8 + e, c' :: u')
              | some f => if d ≤ 3 then (d * 64 + e * 8 + f, u') else (d * 8 + e, c' :: u')

/-- A character escape of one unit. -/
def escapeUnit (c : CodeUnit) : CodeUnit :=
  if c = 0x62 then 0x08 else if c = 0x74 then 0x09 else if c = 0x6e then 0x0a
  else if c = 0x76 then 0x0b else if c = 0x66 then 0x0c else if c = 0x72 then 0x0d else c

/-- An escape of exactly so many hexadecimal digits. -/
def hexEscape (n : Nat) (u : List CodeUnit) : Option (List CodeUnit × List CodeUnit) :=
  (hexDigits n 0 u).map fun r => ([r.1.toUInt16], r.2)

/-- What follows `\u`: four digits, or at least one in braces. -/
def unicodeEscape : List CodeUnit → Option (List CodeUnit × List CodeUnit)
  | 0x7b :: d :: u =>
      (hexVal d).bind fun v => (hexBrace v u).bind fun r =>
        if r.1 ≤ 0x10ffff then some (utf16 r.1, r.2) else none
  | u => hexEscape 4 u

/-- What follows a backslash: the units it stands for, and the rest. -/
def unescape : List CodeUnit → Option (List CodeUnit × List CodeUnit)
  | [] => none
  | c :: u =>
      if c = 0x78 then hexEscape 2 u
      else if c = 0x75 then unicodeEscape u
      else if c = LF ∨ c = 0x2028 ∨ c = 0x2029 then some ([], u)
      else if c = CR then some ([], if u.head? = some LF then u.tail else u)
      else
        match octVal c with
        | some d => some ([(octalRest d u).1.toUInt16], (octalRest d u).2)
        | none => some ([escapeUnit c], u)

/-- The inside of a literal up to its closing quote: the value, and what follows. -/
def stringBody : Nat → List CodeUnit → Option (List CodeUnit × List CodeUnit)
  | 0, _ => none
  | _ + 1, [] => none
  | n + 1, c :: u =>
      if c = quote then some ([], u)
      else if c = backslash then
        (unescape u).bind fun e => (stringBody n e.2).map fun r => (e.1 ++ r.1, r.2)
      else if c = LF ∨ c = CR then none
      else (stringBody n u).map fun r => (c :: r.1, r.2)

/-! ### Calls -/

/-- White space and line ends. -/
def isSpace (c : CodeUnit) : Bool :=
  c ∈ ([0x09, 0x0a, 0x0b, 0x0c, 0x0d, 0x20, 0xa0, 0x1680, 0x2028, 0x2029, 0x202f, 0x205f, 0x3000,
    0xfeff] : List CodeUnit) || (0x2000 ≤ c && c ≤ 0x200a)

def isLineEnd (c : CodeUnit) : Bool := c = LF || c = CR || c = 0x2028 || c = 0x2029

/-- What follows the end of a comment. -/
def afterComment : List CodeUnit → Option (List CodeUnit)
  | [] => none
  | c :: u => if c = 0x2a ∧ u.head? = some 0x2f then some u.tail else afterComment u

/-- White space and comments are passed over. -/
def skip : Nat → List CodeUnit → List CodeUnit
  | 0, u => u
  | _ + 1, [] => []
  | n + 1, c :: u =>
      if isSpace c then skip n u
      else if c = 0x2f ∧ u.head? = some 0x2a then
        match afterComment u.tail with
        | some v => skip n v
        | none => c :: u
      else if c = 0x2f ∧ u.head? = some 0x2f then skip n (u.dropWhile fun d => ! isLineEnd d)
      else c :: u

def skipAll (u : List CodeUnit) : List CodeUnit := skip u.length u

/-- The arguments of a call behind its opening parenthesis, all of them literals: their
values, and what follows the closing parenthesis. -/
def args : Nat → List CodeUnit → Option (List (List CodeUnit) × List CodeUnit)
  | 0, _ => none
  | n + 1, u =>
      match skipAll u with
      | [] => none
      | c :: u =>
          if c = 0x29 then some ([], u)
          else if c = quote then
            (stringBody (u.length + 1) u).bind fun r =>
              match skipAll r.2 with
              | [] => none
              | d :: rest =>
                  if d = 0x2c then (args n rest).map fun s => (r.1 :: s.1, s.2)
                  else if d = 0x29 then some ([r.1], rest)
                  else none
          else none

/-- One call of `name` with literals, ended by a semicolon, and nothing behind it. -/
def parseCall (name u : List CodeUnit) : Option (List (List CodeUnit)) :=
  if name.isPrefixOf (skipAll u) then
    match skipAll ((skipAll u).drop name.length) with
    | [] => none
    | c :: u =>
        if c = 0x28 then
          (args (u.length + 1) u).bind fun r =>
            match skipAll r.2 with
            | [] => none
            | d :: rest => if d = 0x3b ∧ skipAll rest = [] then some r.1 else none
        else none
  else none

/-! ### A literal is no shorter than its value -/

theorem hexDigits_spec {n acc v : Nat} {u r : List CodeUnit} (h : hexDigits n acc u = some (v, r)) :
    r <:+ u ∧ r.length + n = u.length := by
  induction n generalizing acc u with
  | zero =>
    cases h
    exact ⟨List.suffix_refl r, rfl⟩
  | succ n ih =>
    cases u with
    | nil => cases h
    | cons c u =>
      obtain ⟨d, -, hd⟩ := Option.bind_eq_some_iff.mp h
      obtain ⟨hsuffix, hlen⟩ := ih hd
      exact ⟨hsuffix.trans (List.suffix_cons c u), by rw [List.length_cons]; omega⟩

theorem hexBrace_spec {acc v : Nat} {u r : List CodeUnit} (h : hexBrace acc u = some (v, r)) :
    r <:+ u ∧ r.length < u.length := by
  induction u generalizing acc with
  | nil => cases h
  | cons c u ih =>
    rw [hexBrace] at h
    split at h
    · cases h
      exact ⟨List.suffix_cons c _, Nat.lt_succ_self _⟩
    · obtain ⟨d, -, hd⟩ := Option.bind_eq_some_iff.mp h
      obtain ⟨hsuffix, hlen⟩ := ih hd
      exact ⟨hsuffix.trans (List.suffix_cons c u), Nat.lt_succ_of_lt hlen⟩

theorem octalRest_suffix (d : Nat) (u : List CodeUnit) : (octalRest d u).2 <:+ u := by
  rcases u with _ | ⟨c, _ | ⟨c', u⟩⟩
  · exact List.suffix_refl _
  · simp only [octalRest]
    split
    · exact List.suffix_refl _
    · exact List.suffix_cons c _
  · simp only [octalRest]
    split
    · exact List.suffix_refl _
    · split
      · exact List.suffix_cons c _
      · split
        · exact (List.suffix_cons c' u).trans (List.suffix_cons c _)
        · exact List.suffix_cons c _

theorem utf16_length (v : Nat) : (utf16 v).length ≤ 2 := by
  unfold utf16
  split <;> simp

theorem hexEscape_spec {n : Nat} {u out r : List CodeUnit} (h : hexEscape n u = some (out, r)) :
    r <:+ u ∧ out.length + r.length + n = u.length + 1 := by
  obtain ⟨⟨v, r'⟩, hhex, heq⟩ := Option.map_eq_some_iff.mp h
  obtain ⟨rfl, rfl⟩ := Prod.mk.inj heq
  obtain ⟨hsuffix, hlen⟩ := hexDigits_spec hhex
  refine ⟨hsuffix, ?_⟩
  simp only [List.length_cons, List.length_nil]
  omega

theorem unicodeEscape_spec {u out r : List CodeUnit} (h : unicodeEscape u = some (out, r)) :
    r <:+ u ∧ out.length + r.length ≤ u.length := by
  unfold unicodeEscape at h
  split at h
  · rename_i d u
    obtain ⟨v, -, h⟩ := Option.bind_eq_some_iff.mp h
    obtain ⟨⟨w, r'⟩, hbrace, h⟩ := Option.bind_eq_some_iff.mp h
    split at h
    · obtain ⟨rfl, rfl⟩ := Prod.mk.inj (Option.some.inj h)
      obtain ⟨hsuffix, hlen⟩ := hexBrace_spec hbrace
      have htwo := utf16_length w
      refine ⟨hsuffix.trans ⟨[0x7b, d], rfl⟩, ?_⟩
      simp only [List.length_cons] at hlen ⊢
      omega
    · cases h
  · obtain ⟨hsuffix, hlen⟩ := hexEscape_spec h
    exact ⟨hsuffix, by omega⟩

/-- An escape stands for no more units than it is written with behind its backslash. -/
theorem unescape_spec {u out r : List CodeUnit} (h : unescape u = some (out, r)) :
    r <:+ u ∧ out.length + r.length ≤ u.length := by
  cases u with
  | nil => cases h
  | cons c u =>
    have hcons := List.suffix_cons c u
    simp only [unescape] at h
    simp only [List.length_cons]
    split at h
    · obtain ⟨hsuffix, hlen⟩ := hexEscape_spec h
      exact ⟨hsuffix.trans hcons, by omega⟩
    split at h
    · obtain ⟨hsuffix, hlen⟩ := unicodeEscape_spec h
      exact ⟨hsuffix.trans hcons, by omega⟩
    split at h
    · obtain ⟨rfl, rfl⟩ := Prod.mk.inj (Option.some.inj h)
      exact ⟨hcons, by simp⟩
    split at h
    · obtain ⟨rfl, rfl⟩ := Prod.mk.inj (Option.some.inj h)
      split
      · have htail := List.tail_suffix u
        have hle := htail.length_le
        exact ⟨htail.trans hcons, by rw [List.length_nil]; omega⟩
      · exact ⟨hcons, by simp⟩
    split at h
    · rename_i d _
      obtain ⟨rfl, rfl⟩ := Prod.mk.inj (Option.some.inj h)
      have hsuffix := octalRest_suffix d u
      have hle := hsuffix.length_le
      exact ⟨hsuffix.trans hcons, by simp only [List.length_cons, List.length_nil]; omega⟩
    · obtain ⟨rfl, rfl⟩ := Prod.mk.inj (Option.some.inj h)
      exact ⟨hcons, by simp [Nat.add_comm]⟩

/-- **A literal and its value.**  The value is no longer than the text between the quotes,
and as long only when it is that text. -/
theorem stringBody_spec {n : Nat} {u v r : List CodeUnit} (h : stringBody n u = some (v, r)) :
    ∃ raw, u = raw ++ quote :: r ∧ v.length ≤ raw.length ∧
      (v.length = raw.length → raw = v ∧ ∀ c ∈ v, Plain c) := by
  induction n generalizing u v with
  | zero => cases h
  | succ n ih =>
    cases u with
    | nil => cases h
    | cons c u =>
      rw [stringBody] at h
      split at h
      · rename_i hquote
        cases h
        exact ⟨[], by rw [hquote]; rfl, Nat.le_refl _,
          fun _ => ⟨rfl, fun _ hmem => absurd hmem List.not_mem_nil⟩⟩
      split at h
      · -- an escape: its backslash is a unit that the value does not have
        obtain ⟨⟨out, u'⟩, hescape, h⟩ := Option.bind_eq_some_iff.mp h
        obtain ⟨⟨v', r'⟩, hbody, heq⟩ := Option.map_eq_some_iff.mp h
        obtain ⟨rfl, rfl⟩ := Prod.mk.inj heq
        obtain ⟨⟨mid, rfl⟩, hlen⟩ := unescape_spec hescape
        obtain ⟨raw, rfl, hraw, -⟩ := ih hbody
        refine ⟨c :: (mid ++ raw), by simp, ?_, ?_⟩
        · simp only [List.length_append, List.length_cons] at hlen ⊢
          omega
        · intro heq
          simp only [List.length_append, List.length_cons] at hlen heq
          omega
      split at h
      · cases h
      · rename_i hquote hbackslash hline
        obtain ⟨⟨v', r'⟩, hbody, heq⟩ := Option.map_eq_some_iff.mp h
        obtain ⟨rfl, rfl⟩ := Prod.mk.inj heq
        obtain ⟨raw, rfl, hraw, hsame⟩ := ih hbody
        refine ⟨c :: raw, rfl, Nat.succ_le_succ hraw, fun heq => ?_⟩
        obtain ⟨rfl, hplain⟩ := hsame (Nat.succ.inj heq)
        refine ⟨rfl, fun d hd => ?_⟩
        rcases List.mem_cons.mp hd with rfl | hd
        · exact ⟨hquote, hbackslash, fun h => hline (Or.inl h), fun h => hline (Or.inr h)⟩
        · exact hplain d hd

theorem stringBody_plain {n : Nat} {v r : List CodeUnit} (hv : ∀ c ∈ v, Plain c)
    (hn : v.length < n) : stringBody n (v ++ quote :: r) = some (v, r) := by
  induction v generalizing n with
  | nil =>
    obtain ⟨n, rfl⟩ := Nat.exists_eq_succ_of_ne_zero (Nat.ne_of_gt hn)
    rfl
  | cons c v ih =>
    obtain ⟨n, rfl⟩ := Nat.exists_eq_succ_of_ne_zero (Nat.ne_of_gt (Nat.zero_lt_of_lt hn))
    obtain ⟨hquote, hbackslash, hlf, hcr⟩ := hv c List.mem_cons_self
    rw [List.cons_append, stringBody, if_neg hquote, if_neg hbackslash,
      if_neg (not_or.mpr ⟨hlf, hcr⟩),
      ih (fun d hd => hv d (List.mem_cons_of_mem c hd)) (Nat.lt_of_succ_lt_succ hn)]
    rfl

/-! ### A call is read back as it is written only when nothing in it has a meaning -/

theorem afterComment_suffix {u v : List CodeUnit} (h : afterComment u = some v) : v <:+ u := by
  induction u with
  | nil => cases h
  | cons c u ih =>
    rw [afterComment] at h
    split at h
    · cases h
      exact (List.tail_suffix u).trans (List.suffix_cons c u)
    · exact (ih h).trans (List.suffix_cons c u)

theorem skip_suffix (n : Nat) (u : List CodeUnit) : skip n u <:+ u := by
  induction n generalizing u with
  | zero => exact List.suffix_refl u
  | succ n ih =>
    cases u with
    | nil => exact List.suffix_refl []
    | cons c u =>
      rw [skip]
      split
      · exact (ih u).trans (List.suffix_cons c u)
      split
      · split
        · rename_i v hcomment
          exact ((ih v).trans (afterComment_suffix hcomment)).trans
            ((List.tail_suffix u).trans (List.suffix_cons c u))
        · exact List.suffix_refl _
      split
      · exact ((ih _).trans (List.dropWhile_suffix _)).trans (List.suffix_cons c u)
      · exact List.suffix_refl _

theorem skipAll_suffix (u : List CodeUnit) : skipAll u <:+ u := skip_suffix u.length u

theorem skipAll_cons {c : CodeUnit} {u : List CodeUnit} (hspace : isSpace c = false)
    (hslash : c ≠ 0x2f) : skipAll (c :: u) = c :: u := by
  rw [skipAll, List.length_cons, skip, hspace, if_neg Bool.false_ne_true,
    if_neg fun h => hslash h.1, if_neg fun h => hslash h.1]

/-- The arguments as they are written, from behind the opening parenthesis. -/
def argText : List (List CodeUnit) → List CodeUnit → List CodeUnit
  | [], r => 0x29 :: r
  | [v], r => quote :: v ++ quote :: 0x29 :: r
  | v :: vs, r => quote :: v ++ quote :: 0x2c :: argText vs r

theorem argText_cons_cons (v w : List CodeUnit) (vs : List (List CodeUnit)) (r : List CodeUnit) :
    argText (v :: w :: vs) r = quote :: v ++ quote :: 0x2c :: argText (w :: vs) r := rfl

/-- How many units the arguments take at least. -/
def argRoom : List (List CodeUnit) → Nat
  | [] => 0
  | v :: vs => v.length + 3 + argRoom vs

@[simp] theorem argRoom_nil : argRoom [] = 0 := rfl

@[simp] theorem argRoom_cons (v : List CodeUnit) (vs : List (List CodeUnit)) :
    argRoom (v :: vs) = v.length + 3 + argRoom vs := rfl

theorem length_le_argRoom (vs : List (List CodeUnit)) : vs.length ≤ argRoom vs := by
  induction vs with
  | nil => exact Nat.le_refl 0
  | cons v vs ih =>
    rw [argRoom_cons, List.length_cons]
    omega

theorem argText_length {vs : List (List CodeUnit)} (hvs : vs ≠ []) (r : List CodeUnit) :
    (argText vs r).length = argRoom vs + r.length := by
  induction vs with
  | nil => exact absurd rfl hvs
  | cons v vs ih =>
    cases vs with
    | nil =>
      simp only [argText, argRoom_cons, argRoom_nil, List.length_append, List.length_cons]
      omega
    | cons v' vs =>
      have hrest := ih (List.cons_ne_nil v' vs)
      simp only [argText, argRoom_cons, List.length_append, List.length_cons] at hrest ⊢
      omega

theorem suffix_argText {vs : List (List CodeUnit)} (hvs : vs ≠ []) (r : List CodeUnit) :
    r <:+ argText vs r := by
  induction vs with
  | nil => exact absurd rfl hvs
  | cons v vs ih =>
    cases vs with
    | nil => exact ⟨quote :: v ++ [quote, 0x29], by simp [argText]⟩
    | cons w vs =>
      obtain ⟨text, htext⟩ := ih (List.cons_ne_nil w vs)
      exact ⟨quote :: v ++ quote :: 0x2c :: text, by rw [argText_cons_cons, ← htext]; simp⟩

/-- An argument and what it is read from: a literal with the value `v` stands at the start of
`u`, then the separator `d` and `rest`.  A text with no more than that is these pieces as
they are. -/
structure ArgRead (u v : List CodeUnit) (d : CodeUnit) (rest : List CodeUnit) : Prop where
  suffix : rest <:+ u
  room : v.length + 3 + rest.length ≤ u.length
  exact : u.length ≤ v.length + 3 + rest.length →
    u = quote :: v ++ quote :: d :: rest ∧ ∀ c ∈ v, Plain c

theorem argRead_of {n : Nat} {u u' u'' v rest : List CodeUnit} {d : CodeUnit}
    (hskip : skipAll u = quote :: u') (hbody : stringBody n u' = some (v, u''))
    (hskip' : skipAll u'' = d :: rest) : ArgRead u v d rest := by
  obtain ⟨raw, rfl, hraw, hsame⟩ := stringBody_spec hbody
  have hfirst := skipAll_suffix u
  have hnext := skipAll_suffix u''
  rw [hskip] at hfirst
  rw [hskip'] at hnext
  have hlen := hfirst.length_le
  have hlen' := hnext.length_le
  simp only [List.length_append, List.length_cons] at hlen hlen'
  constructor
  · have hbehind : u'' <:+ quote :: (raw ++ quote :: u'') := ⟨quote :: raw ++ [quote], by simp⟩
    exact ((List.suffix_cons d rest).trans hnext).trans (hbehind.trans hfirst)
  · omega
  · intro hexact
    -- there is no room for blanks, comments or escapes
    obtain ⟨rfl, hplain⟩ := hsame (by omega)
    have hu := hfirst.eq_of_length (by simp only [List.length_append, List.length_cons]; omega)
    have hgap := hnext.eq_of_length (by simp only [List.length_cons]; omega)
    exact ⟨by rw [← hu, ← hgap]; rfl, hplain⟩

/-- The ways in which arguments are read: there is none, one more, or a last one. -/
theorem args_cases {n : Nat} {u r : List CodeUnit} {vs : List (List CodeUnit)}
    (h : args (n + 1) u = some (vs, r)) :
    (vs = [] ∧ 0x29 :: r <:+ u) ∨
      (∃ v vs' rest, vs = v :: vs' ∧ ArgRead u v 0x2c rest ∧ args n rest = some (vs', r)) ∨
        ∃ v, vs = [v] ∧ ArgRead u v 0x29 r := by
  rw [args] at h
  cases hskip : skipAll u with
  | nil =>
    rw [hskip] at h
    cases h
  | cons c u' =>
    rw [hskip] at h
    dsimp only at h
    split at h
    · rename_i hparen
      obtain ⟨rfl, rfl⟩ := Prod.mk.inj (Option.some.inj h)
      exact Or.inl ⟨rfl, hparen ▸ hskip ▸ skipAll_suffix u⟩
    split at h
    · rename_i hquote
      obtain ⟨⟨v, u''⟩, hbody, h⟩ := Option.bind_eq_some_iff.mp h
      dsimp only at h
      cases hskip' : skipAll u'' with
      | nil =>
        rw [hskip'] at h
        cases h
      | cons d rest =>
        rw [hskip'] at h
        have hread := argRead_of (hquote ▸ hskip) hbody hskip'
        dsimp only at h
        split at h
        · rename_i hcomma
          obtain ⟨⟨vs', r'⟩, hargs, heq⟩ := Option.map_eq_some_iff.mp h
          obtain ⟨rfl, rfl⟩ := Prod.mk.inj heq
          exact Or.inr (Or.inl ⟨v, vs', rest, rfl, hcomma ▸ hread, hargs⟩)
        split at h
        · rename_i hparen
          obtain ⟨rfl, rfl⟩ := Prod.mk.inj (Option.some.inj h)
          exact Or.inr (Or.inr ⟨v, rfl, hparen ▸ hread⟩)
        · cases h
    · cases h

theorem args_suffix {n : Nat} {u r : List CodeUnit} {vs : List (List CodeUnit)}
    (h : args n u = some (vs, r)) : r <:+ u := by
  induction n generalizing u vs with
  | zero => cases h
  | succ n ih =>
    rcases args_cases h with ⟨-, hnone⟩ | ⟨v, vs', rest, -, hread, hargs⟩ | ⟨v, -, hread⟩
    · exact (List.suffix_cons _ r).trans hnone
    · exact (ih hargs).trans hread.suffix
    · exact hread.suffix

/-- **Arguments and what they are read from.**  They take at least their own units, two
quotes and one separator each; a text with no more than that is the arguments as they are. -/
theorem args_spec {n : Nat} {u r : List CodeUnit} {vs : List (List CodeUnit)}
    (h : args n u = some (vs, r)) :
    argRoom vs + r.length ≤ u.length ∧
      (u.length = argRoom vs + r.length →
        u = argText vs r ∧ ∀ v ∈ vs, ∀ c ∈ v, Plain c) := by
  induction n generalizing u vs with
  | zero => cases h
  | succ n ih =>
    rcases args_cases h with
      ⟨rfl, hnone⟩ | ⟨v, vs', rest, rfl, hread, hargs⟩ | ⟨v, rfl, hread⟩
    · have hlen := hnone.length_le
      rw [List.length_cons] at hlen
      rw [argRoom_nil]
      exact ⟨by omega, fun heq => absurd hlen (by omega)⟩
    · obtain ⟨hroom, hall⟩ := ih hargs
      have hfirst := hread.room
      rw [argRoom_cons]
      refine ⟨by omega, fun heq => ?_⟩
      obtain ⟨hu, hplain⟩ := hread.exact (by omega)
      obtain ⟨hrest, hplains⟩ := hall (by omega)
      refine ⟨?_, List.forall_mem_cons.mpr ⟨hplain, hplains⟩⟩
      cases vs' with
      | nil =>
        -- a comma before the closing parenthesis takes one more
        have hlen := congrArg List.length hrest
        have hu' := congrArg List.length hu
        simp only [argText, argRoom_nil, List.length_append, List.length_cons] at hlen hu' heq
        omega
      | cons w ws => rw [hu, hrest, argText_cons_cons]
    · have hfirst := hread.room
      rw [argRoom_cons, argRoom_nil]
      refine ⟨by omega, fun heq => ?_⟩
      obtain ⟨hu, hplain⟩ := hread.exact (by omega)
      exact ⟨hu, List.forall_mem_singleton.mpr hplain⟩

theorem skipAll_quote (u : List CodeUnit) : skipAll (quote :: u) = quote :: u :=
  skipAll_cons (by decide) (by decide)

theorem args_plain {n : Nat} {vs : List (List CodeUnit)} (r : List CodeUnit) (hvs : vs ≠ [])
    (hplain : ∀ v ∈ vs, ∀ c ∈ v, Plain c) (hn : vs.length ≤ n) :
    args n (argText vs r) = some (vs, r) := by
  induction vs generalizing n with
  | nil => exact absurd rfl hvs
  | cons v vs ih =>
    obtain ⟨n, rfl⟩ := Nat.exists_eq_succ_of_ne_zero (Nat.ne_of_gt (Nat.zero_lt_of_lt hn))
    have hv := hplain v List.mem_cons_self
    have hbody : ∀ rest, stringBody ((v ++ quote :: rest).length + 1) (v ++ quote :: rest) =
        some (v, rest) := by
      intro rest
      apply stringBody_plain hv
      simp only [List.length_append, List.length_cons]
      omega
    cases vs with
    | nil =>
      rw [argText, List.cons_append, args, skipAll_quote]
      dsimp only
      rw [if_neg (by decide), if_pos rfl, hbody, Option.bind_some]
      dsimp only
      rw [skipAll_cons (by decide) (by decide)]
      rfl
    | cons w vs =>
      rw [argText_cons_cons, List.cons_append, args, skipAll_quote]
      dsimp only
      rw [if_neg (by decide), if_pos rfl, hbody, Option.bind_some]
      dsimp only
      rw [skipAll_cons (by decide) (by decide)]
      dsimp only
      rw [if_pos rfl, ih (List.cons_ne_nil w vs)
        (fun v hmem => hplain v (List.mem_cons_of_mem _ hmem)) (Nat.le_of_succ_le_succ hn)]
      rfl

/-- A call as it is written, with a semicolon and a line end. -/
def callText (name : List CodeUnit) (vs : List (List CodeUnit)) : List CodeUnit :=
  name ++ 0x28 :: argText vs [0x3b, LF]

/-- Up to its arguments a written call is read as it is. -/
theorem parseCall_callText_eq {c : CodeUnit} (name : List CodeUnit) (vs : List (List CodeUnit))
    (hspace : isSpace c = false) (hslash : c ≠ 0x2f) :
    parseCall (c :: name) (callText (c :: name) vs) =
      (args ((argText vs [0x3b, LF]).length + 1) (argText vs [0x3b, LF])).bind fun r =>
        match skipAll r.2 with
        | [] => none
        | d :: rest => if d = 0x3b ∧ skipAll rest = [] then some r.1 else none := by
  have hname : skipAll (callText (c :: name) vs) = callText (c :: name) vs :=
    skipAll_cons hspace hslash
  have hpre : (c :: name).isPrefixOf (callText (c :: name) vs) = true :=
    List.isPrefixOf_iff_prefix.mpr (List.prefix_append _ _)
  have hparen : skipAll (0x28 :: argText vs [0x3b, LF]) = 0x28 :: argText vs [0x3b, LF] :=
    skipAll_cons (by decide) (by decide)
  unfold parseCall
  rw [hname, if_pos hpre, callText, List.drop_left, hparen]
  rfl

/-- Behind the arguments only the semicolon and the line end are left, so that the arguments
are read from no more than their own text. -/
theorem argText_plain {n : Nat} {vs : List (List CodeUnit)} {r : List CodeUnit} (hvs : vs ≠ [])
    (hargs : args n (argText vs [0x3b, LF]) = some (vs, r)) (hr : skipAll r ≠ []) :
    ∀ v ∈ vs, ∀ d ∈ v, Plain d := by
  obtain ⟨hroom, hexact⟩ := args_spec hargs
  rw [argText_length hvs] at hroom hexact
  have hsuffix := List.suffix_of_suffix_length_le (args_suffix hargs)
    (suffix_argText hvs [0x3b, LF]) (Nat.le_of_add_le_add_left hroom)
  rcases r with _ | ⟨a, _ | ⟨b, r⟩⟩
  · exact absurd rfl hr
  · rcases List.suffix_cons_iff.mp hsuffix with h | hsuffix
    · cases h
    · rw [hsuffix.eq_of_length rfl] at hr
      exact absurd rfl hr
  · refine (hexact ?_).2
    simp only [List.length_cons, List.length_nil] at hroom ⊢
    omega

/-- **A written call is read back exactly when its arguments are plain.** -/
theorem parseCall_callText_iff {c : CodeUnit} {name : List CodeUnit} {vs : List (List CodeUnit)}
    (hspace : isSpace c = false) (hslash : c ≠ 0x2f) (hvs : vs ≠ []) :
    parseCall (c :: name) (callText (c :: name) vs) = some vs ↔ ∀ v ∈ vs, ∀ d ∈ v, Plain d := by
  rw [parseCall_callText_eq name vs hspace hslash]
  constructor
  · intro h
    obtain ⟨⟨vs', r⟩, hargs, h⟩ := Option.bind_eq_some_iff.mp h
    dsimp only at h
    cases hskip : skipAll r with
    | nil =>
      rw [hskip] at h
      cases h
    | cons d rest =>
      rw [hskip] at h
      dsimp only at h
      split at h
      · obtain rfl := Option.some.inj h
        exact argText_plain hvs hargs (by rw [hskip]; exact List.cons_ne_nil d rest)
      · cases h
  · intro hplain
    rw [args_plain _ hvs hplain, Option.bind_some]
    · rfl
    · have hlen := argText_length hvs [0x3b, LF]
      have hroom := length_le_argRoom vs
      omega

/-! ### Where an end tag can be -/

theorem not_startsEndTag_nil : ¬ StartsEndTag [] := by decide

theorem endsScript_cons (c : CodeUnit) (u : List CodeUnit) :
    EndsScript (c :: u) ↔ StartsEndTag (c :: u) ∨ EndsScript u := by
  simp only [EndsScript, List.tails_cons, List.mem_cons, exists_eq_or_imp]

/-- A unit that no end tag has in it. -/
def Apart (q : CodeUnit) : Prop := lower q ∉ endTagName ∧ q ∉ endTagEnds

instance (q : CodeUnit) : Decidable (Apart q) := by unfold Apart; infer_instance

theorem startsEndTag_apart {q : CodeUnit} (hq : Apart q) (a b : List CodeUnit) :
    StartsEndTag (a ++ q :: b) ↔ StartsEndTag a := by
  rcases Nat.lt_or_ge 8 a.length with hlong | hshort
  · rw [StartsEndTag, StartsEndTag, List.take_append_of_le_length (Nat.le_of_lt hlong),
      List.getElem?_append_left hlong]
  · constructor
    · rintro ⟨hname, c, hc, hend⟩
      exfalso
      rcases Nat.lt_or_eq_of_le hshort with hlt | heq
      · -- the unit would be one of the name
        have htake : q ∈ (a ++ q :: b).take 8 := by
          rw [List.take_append, List.mem_append, List.take_cons (Nat.sub_pos_of_lt hlt)]
          exact Or.inr List.mem_cons_self
        have hmem := List.mem_map_of_mem (f := lower) htake
        rw [hname] at hmem
        exact hq.1 hmem
      · rw [List.getElem?_append_right (Nat.le_of_eq heq), heq, Nat.sub_self] at hc
        cases hc
        exact hq.2 hend
    · rintro ⟨-, c, hc, -⟩
      rw [List.getElem?_eq_none hshort] at hc
      cases hc

/-- The end tags of a text with such a unit in it are those before it and those behind it. -/
theorem endsScript_apart {q : CodeUnit} (hq : Apart q) (a b : List CodeUnit) :
    EndsScript (a ++ q :: b) ↔ EndsScript a ∨ EndsScript b := by
  induction a with
  | nil =>
    have hhead := startsEndTag_apart hq [] b
    rw [List.nil_append] at hhead ⊢
    rw [endsScript_cons, hhead]
    have hnil : ¬ EndsScript [] := by decide
    simp only [not_startsEndTag_nil, hnil, false_or]
  | cons c a ih =>
    have hhead := startsEndTag_apart hq (c :: a) b
    rw [List.cons_append] at hhead ⊢
    rw [endsScript_cons, endsScript_cons, hhead, ih, or_assoc]

theorem endsScript_quote (a b : List CodeUnit) :
    EndsScript (a ++ quote :: b) ↔ EndsScript a ∨ EndsScript b :=
  endsScript_apart (by decide) a b

theorem not_startsEndTag {c : CodeUnit} (hc : c ≠ 0x3c) (u : List CodeUnit) :
    ¬ StartsEndTag (c :: u) := by
  intro h
  have hlower : lower c = 0x3c := (List.cons.inj h.1).1
  unfold lower at hlower
  split at hlower
  · rename_i hupper
    have hle := UInt16.le_iff_toNat_le.mp hupper.1
    have hsum := congrArg UInt16.toNat hlower
    have hle' := UInt16.le_iff_toNat_le.mp hupper.2
    rw [UInt16.toNat_add] at hsum
    change 65 ≤ c.toNat at hle
    change c.toNat ≤ 90 at hle'
    change (c.toNat + 32) % 65536 = 60 at hsum
    omega
  · exact hc hlower

theorem endsScript_append {a : List CodeUnit} (ha : ∀ c ∈ a, c ≠ 0x3c) (b : List CodeUnit) :
    EndsScript (a ++ b) ↔ EndsScript b := by
  induction a with
  | nil => exact Iff.rfl
  | cons c a ih =>
    rw [List.cons_append, endsScript_cons,
      or_iff_right (not_startsEndTag (ha c List.mem_cons_self) _)]
    exact ih fun d hd => ha d (List.mem_cons_of_mem c hd)

/-- A written call ends the script only when one of its arguments does. -/
theorem endsScript_argText {vs : List (List CodeUnit)} {r : List CodeUnit}
    (hr : ¬ EndsScript (0x29 :: r)) :
    EndsScript (argText vs r) ↔ ∃ v ∈ vs, EndsScript v := by
  have hopen : ∀ u, EndsScript (quote :: u) ↔ EndsScript u := fun u => by
    have hsplit := endsScript_quote [] u
    have hnil : ¬ EndsScript [] := by decide
    rwa [List.nil_append, or_iff_right hnil] at hsplit
  induction vs with
  | nil =>
    rw [argText]
    simp only [List.not_mem_nil, false_and, exists_false, iff_false]
    exact hr
  | cons v vs ih =>
    rw [List.exists_mem_cons_iff]
    cases vs with
    | nil =>
      rw [argText, List.cons_append, hopen, endsScript_quote, or_iff_left hr]
      simp only [List.not_mem_nil, false_and, exists_false, or_false]
    | cons w vs =>
      rw [argText_cons_cons, List.cons_append, hopen, endsScript_quote, endsScript_cons,
        or_iff_right (not_startsEndTag (by decide) _)]
      exact or_congr_right ih

theorem endsScript_callText {name : List CodeUnit} (hname : ∀ c ∈ name, c ≠ 0x3c)
    (vs : List (List CodeUnit)) :
    EndsScript (callText name vs) ↔ ∃ v ∈ vs, EndsScript v := by
  rw [callText, endsScript_append hname, endsScript_cons,
    or_iff_right (not_startsEndTag (by decide) _)]
  exact endsScript_argText (by decide)

/-- **A written call.**  The browser reads it as one call with the arguments as they are, and
the script goes on behind it, exactly when every unit of the arguments is plain and no
argument ends the script. -/
theorem callText_read_iff {c : CodeUnit} {name : List CodeUnit} {vs : List (List CodeUnit)}
    (hspace : isSpace c = false) (hslash : c ≠ 0x2f) (hname : ∀ d ∈ c :: name, d ≠ 0x3c)
    (hvs : vs ≠ []) :
    (¬ EndsScript (callText (c :: name) vs) ∧
        parseCall (c :: name) (callText (c :: name) vs) = some vs) ↔
      ∀ v ∈ vs, (∀ d ∈ v, Plain d) ∧ ¬ EndsScript v := by
  rw [endsScript_callText hname, parseCall_callText_iff hspace hslash hvs]
  constructor
  · rintro ⟨hends, hplain⟩ v hv
    exact ⟨hplain v hv, fun h => hends ⟨v, hv, h⟩⟩
  · intro h
    refine ⟨?_, fun v hv => (h v hv).1⟩
    rintro ⟨v, hv, hends⟩
    exact (h v hv).2 hends

/-! ### From the server -/

/-- The bytes of the arguments from behind the opening parenthesis. -/
def argBytes : List (List UInt8) → List UInt8 → List UInt8
  | [], r => 0x29 :: r
  | [v], r => 0x27 :: v ++ 0x27 :: 0x29 :: r
  | v :: vs, r => 0x27 :: v ++ 0x27 :: 0x2c :: argBytes vs r

def callBytes (name : List UInt8) (vs : List (List UInt8)) : List UInt8 :=
  name ++ 0x28 :: argBytes vs [0x3b, 0x0a]

theorem argBytes_singleton (v r : List UInt8) :
    argBytes [v] r = 0x27 :: v ++ 0x27 :: 0x29 :: r := rfl

theorem argBytes_cons_cons (v w : List UInt8) (vs : List (List UInt8)) (r : List UInt8) :
    argBytes (v :: w :: vs) r = 0x27 :: v ++ 0x27 :: 0x2c :: argBytes (w :: vs) r := rfl

theorem Charset.decode_argBytes (C : Charset) (vs : List (List UInt8)) (r : List UInt8) :
    C.decode (argBytes vs r) = argText (vs.map C.decode) (C.decode r) := by
  induction vs with
  | nil => exact C.decode_cons (by decide) r
  | cons v vs ih =>
    cases vs with
    | nil =>
      rw [argBytes_singleton, List.cons_append, C.decode_cons (by decide),
        C.decode_sep v _ (by decide), C.decode_cons (by decide)]
      rfl
    | cons w vs =>
      rw [argBytes_cons_cons, List.cons_append, C.decode_cons (by decide),
        C.decode_sep v _ (by decide), C.decode_cons (by decide), ih]
      rfl

theorem Charset.decode_callBytes (C : Charset) {name : List UInt8}
    (hname : ∀ c ∈ name, c.toNat < 0x80) (vs : List (List UInt8)) :
    C.decode (callBytes name vs) = callText (name.map UInt8.toUInt16) (vs.map C.decode) := by
  have htail : ∀ c ∈ ([0x3b, 0x0a] : List UInt8), c.toNat < 0x80 :=
    List.all_iff_forall_prop.mp (by decide)
  rw [callBytes, C.decode_append hname, C.decode_cons (by decide), C.decode_argBytes,
    C.decode_ascii htail]
  rfl

end ScriptText
