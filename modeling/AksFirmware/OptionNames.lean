import AksFirmware.PageOutput

/-!
# Options and macros

An OPT block is meant for the macros that the option file defines.  `option_match` looks for
the name of the option in the lines that start with `#define`: anywhere in the line, and in
each piece of 254 bytes of a longer one as if it were a line.  So an option counts as defined
when its name is a part of another macro's name, or stands in a value or a comment.

`blocks_right_iff` says for which option files and names the blocks are right.
-/

namespace AksFirmware.OptionNames

open ByteMemory CText WebComp PageOutput

/-! ### Lines and macros -/

/-- The lines of a file, each with its newline. -/
def lines : List UInt8 → List Text
  | [] => []
  | c :: file =>
    if c = 0x0a then [c] :: lines file
    else
      match lines file with
      | [] => [[c]]
      | line :: rest => (c :: line) :: rest

def isBlank (c : UInt8) : Bool := c = 0x20 || c = 0x09

def isNameChar (c : UInt8) : Bool :=
  (0x30 ≤ c && c ≤ 0x39) || (0x41 ≤ c && c ≤ 0x5a) || c = 0x5f || (0x61 ≤ c && c ≤ 0x7a)

/-- What is left of a text behind a word. -/
def behind (word s : Text) : Option Text :=
  if word <+: s then some (s.drop word.length) else none

/-- The macro that a `#define` line is for; there may be blanks in front of `#` and behind it. -/
def macroName (line : Text) : Option Text := do
  let s ← behind (ascii "#") (line.dropWhile isBlank)
  let s ← behind (ascii "define") (s.dropWhile isBlank)
  let name := (s.dropWhile isBlank).takeWhile isNameChar
  if s.takeWhile isBlank = [] ∨ name = [] then none else some name

/-- The file has a `#define` line whose macro is `name`. -/
def Defines (file : List UInt8) (name : Text) : Prop :=
  ∃ line ∈ lines file, macroName line = some name

instance (file : List UInt8) (name : Text) : Decidable (Defines file name) :=
  inferInstanceAs (Decidable (∃ line ∈ lines file, macroName line = some name))

/-! ### Blocks -/

/-- The scanner is at an OPT tag whose block ends. -/
structure AtBlock (s : Scan) (o : OptionTag) (blk_end after : Nat) : Prop where
  tag : ∃ tag tail end_tag,
    (tests.find? fun test => test.1.isPrefixOf (s.src.drop s.opos)) =
      some (tag, .option tail end_tag) ∧
    blockEnd s.src tag end_tag (s.src.length + 1) (s.opos + tag.length) (s.opos + tag.length) =
      some blk_end ∧
    optionTag s.src (s.opos + tag.length) tail = some o ∧ after = blk_end + end_tag.length

/-- The body of the block is processed. -/
def Kept (optfile : Option (List UInt8)) (clen : Nat) (s : Scan) (blk_end after : Nat) : Prop :=
  ∃ s', turn optfile clen s = .body blk_end after s'

/-- The scanner goes on behind the block. -/
def Dropped (optfile : Option (List UInt8)) (clen : Nat) (s : Scan) (after : Nat) : Prop :=
  ∃ s', turn optfile clen s = .on 0 s' ∧ s'.opos = after

/-- Some block has this name for its option. -/
def IsOptionName (name : Text) : Prop :=
  ∃ s o blk_end after, AtBlock s o blk_end after ∧ o.name = name

/-- Wherever the scanner comes to a block for the option, it keeps and drops it by the macros
of the file. -/
def BlocksRight (file : List UInt8) (name : Text) : Prop :=
  ∀ clen s o blk_end after, AtBlock s o blk_end after → o.name = name →
    (o.inverse = false →
      (Kept (some file) clen s blk_end after ↔ Defines file name) ∧
      (Dropped (some file) clen s after ↔ ¬ Defines file name)) ∧
    (o.inverse = true →
      (Kept (some file) clen s blk_end after ↔ ¬ Defines file name) ∧
      (Dropped (some file) clen s after ↔ Defines file name))

/-! ### Where a name is looked for -/

/-- The piece of a line that one call of `fgets` reads. -/
def piece (line : Text) (k : Nat) : Text := (line.drop (254 * k)).take 254

/-- The name stands in a line that starts with `#define`, be it a piece of a longer one. -/
def Occurs (file : List UInt8) (name : Text) : Prop :=
  ∃ line ∈ lines file, ∃ k, 254 * k < line.length ∧ ascii "#define" <+: piece line k ∧
    name <:+: (piece line k).takeWhile (· ≠ 0)

/-- The line starts with `#define`, and the name of its macro is in the first 254 bytes. -/
def Plain (line name : Text) : Prop :=
  macroName line = some name ∧ ascii "#define" <+: line ∧
    7 + ((line.drop 7).takeWhile isBlank).length + name.length ≤ 254

/-- The macro is defined by a plain line, or the name is neither a macro nor in a line that
starts with `#define`, or it is a macro that is defined otherwise but stands in such a line. -/
def Clear (file : List UInt8) (name : Text) : Prop :=
  (∃ line ∈ lines file, Plain line name) ∨ (¬ Defines file name ∧ ¬ Occurs file name) ∨
    (Defines file name ∧ Occurs file name)

/-! ### Lines and `fgets` -/

theorem lines_newline {buf : Text} (hbuf : (0x0a : UInt8) ∉ buf) (file : List UInt8) :
    lines (buf ++ 0x0a :: file) = (buf ++ [0x0a]) :: lines file := by
  induction buf with
  | nil => simp [lines]
  | cons c buf ih =>
    rw [List.mem_cons, not_or] at hbuf
    rw [List.cons_append, lines, if_neg (Ne.symm hbuf.1), ih hbuf.2]
    rfl

theorem lines_append {buf : Text} (hbuf : (0x0a : UInt8) ∉ buf) (hne : buf ≠ [])
    (file : List UInt8) :
    lines (buf ++ file) = (buf ++ (lines file).headD []) :: (lines file).tail := by
  induction buf with
  | nil => exact absurd rfl hne
  | cons c buf ih =>
    rw [List.mem_cons, not_or] at hbuf
    rw [List.cons_append, lines, if_neg (Ne.symm hbuf.1)]
    rcases eq_or_ne buf [] with rfl | hbuf'
    · rw [List.nil_append]
      cases lines file <;> rfl
    · rw [ih hbuf.2 hbuf']
      rfl

/-- The pieces of all lines. -/
def IsPiece (file : List UInt8) (b : Text) : Prop :=
  ∃ line ∈ lines file, ∃ k, 254 * k < line.length ∧ b = piece line k

/-- The pieces of a line that fits in one. -/
theorem short_line {line b : Text} (hne : line ≠ []) (hlen : line.length ≤ 254) :
    (∃ k, 254 * k < line.length ∧ b = piece line k) ↔ b = line := by
  constructor
  · rintro ⟨k, hk, rfl⟩
    obtain rfl : k = 0 := by omega
    exact List.take_of_length_le hlen
  · rintro rfl
    exact ⟨0, List.length_pos_iff.mpr hne, (List.take_of_length_le hlen).symm⟩

/-- A line goes on behind a whole piece. -/
theorem long_line {front line b : Text} (hlen : front.length = 254) :
    (∃ k, 254 * k < (front ++ line).length ∧ b = piece (front ++ line) k) ↔
      b = front ∨ ∃ k, 254 * k < line.length ∧ b = piece line k := by
  have hfirst : piece (front ++ line) 0 = front := by
    rw [piece, Nat.mul_zero, List.drop_zero, ← hlen, List.take_left]
  have hnext (k : Nat) : piece (front ++ line) (k + 1) = piece line k := by
    rw [piece, piece, show 254 * (k + 1) = front.length + 254 * k by omega, ← List.drop_drop,
      List.drop_left]
  rw [List.length_append, hlen]
  constructor
  · rintro ⟨k, hk, rfl⟩
    cases k with
    | zero => exact .inl hfirst
    | succ k => exact .inr ⟨k, by omega, hnext k⟩
  · rintro (rfl | ⟨k, hk, rfl⟩)
    · exact ⟨0, by omega, hfirst.symm⟩
    · exact ⟨k + 1, by omega, (hnext k).symm⟩

/-- `fgets` reads the pieces of the lines. -/
theorem mem_fgetsAll {buf : Text} (hbuf : (0x0a : UInt8) ∉ buf) (hlen : buf.length < 254)
    (file : List UInt8) (b : Text) : b ∈ fgetsAll buf file ↔ IsPiece (buf ++ file) b := by
  induction file generalizing buf with
  | nil =>
    rw [fgetsAll, List.append_nil, IsPiece]
    rcases eq_or_ne buf [] with rfl | hne
    · simp [lines]
    · have hline : lines buf = [buf] := by
        have happend := lines_append hbuf hne []
        rw [List.append_nil] at happend
        rw [happend]
        simp [lines]
      rw [if_neg hne, hline, List.mem_singleton]
      simp only [List.mem_singleton, exists_eq_left]
      exact (short_line hne hlen.le).symm
  | cons c file ih =>
    have hlen' : (buf ++ [c]).length = buf.length + 1 := by simp
    have hne : buf ++ [c] ≠ [] := by simp
    rw [fgetsAll]
    by_cases hc : c = 0x0a
    · subst hc
      rw [if_pos (.inl rfl), List.mem_cons, ih List.not_mem_nil (by simp), List.nil_append, IsPiece,
        IsPiece, lines_newline hbuf]
      simp only [List.mem_cons, or_and_right, exists_or, exists_eq_left]
      rw [short_line hne (by omega)]
    · have hbuf' : (0x0a : UInt8) ∉ buf ++ [c] := by
        simp [hbuf, Ne.symm hc]
      have hsplit : buf ++ c :: file = (buf ++ [c]) ++ file := by simp
      by_cases hfull : buf.length + 1 = 254
      · rw [if_pos (.inr hfull), List.mem_cons, ih List.not_mem_nil (by simp), List.nil_append,
          hsplit, IsPiece, IsPiece, lines_append hbuf' hne]
        simp only [List.mem_cons, or_and_right, exists_or, exists_eq_left]
        rw [long_line (hlen'.trans hfull)]
        cases lines file with
        | nil => simp
        | cons line rest => simp [or_and_right, exists_or, or_assoc]
      · rw [if_neg (not_or.mpr ⟨hc, hfull⟩), ih hbuf' (by omega), hsplit]

theorem option_match_iff (file : List UInt8) (name : Text) :
    option_match name (some file) = 1 ↔ Occurs file name := by
  have hany : ((fgetsAll [] file).any fun buf =>
      strstr (buf.takeWhile (· ≠ 0)) name && (ascii "#define").isPrefixOf buf) = true ↔
      Occurs file name := by
    rw [List.any_eq_true]
    constructor
    · rintro ⟨b, hb, hfound⟩
      obtain ⟨line, hline, k, hk, rfl⟩ := (mem_fgetsAll List.not_mem_nil (by simp) file b).mp hb
      obtain ⟨hname, hdefine⟩ := Bool.and_eq_true_iff.mp hfound
      exact ⟨line, hline, k, hk, List.isPrefixOf_iff_prefix.mp hdefine, of_decide_eq_true hname⟩
    · rintro ⟨line, hline, k, hk, hdefine, hname⟩
      refine ⟨piece line k, ?_, Bool.and_eq_true_iff.mpr ⟨decide_eq_true hname,
        List.isPrefixOf_iff_prefix.mpr hdefine⟩⟩
      exact (mem_fgetsAll List.not_mem_nil (by simp) file _).mpr ⟨line, hline, k, hk, rfl⟩
  rw [option_match, ← hany]
  split
  · rename_i hfound
    exact iff_of_true rfl hfound
  · rename_i hfound
    exact iff_of_false (by decide) hfound

theorem option_match_zero_or_one (file : List UInt8) (name : Text) :
    option_match name (some file) = 0 ∨ option_match name (some file) = 1 := by
  rw [option_match]
  split
  · exact .inr rfl
  · exact .inl rfl

/-- A block is kept if the name of its option occurs or, with `!`, if it does not. -/
theorem holds_iff (file : List UInt8) (o : OptionTag) :
    o.holds (some file) = true ↔ (Occurs file o.name ↔ o.inverse = false) := by
  rw [← option_match_iff]
  rcases option_match_zero_or_one file o.name with hmatch | hmatch <;>
    cases hinverse : o.inverse <;> simp [OptionTag.holds, hmatch, hinverse]

/-! ### The scanner at a block -/

section Scanner

variable {optfile : Option (List UInt8)} {clen : Nat} {s : Scan} {o : OptionTag}
  {blk_end after : Nat}

theorem turn_at_block (h : AtBlock s o blk_end after) :
    turn optfile clen s =
      if o.holds optfile then .body blk_end after ((s.copy clen).cut o)
      else .on 0 { (s.copy clen).cut o with opos := after } := by
  obtain ⟨tag, tail, end_tag, htest, hblk, ho, rfl⟩ := h.tag
  rw [turn, htest]
  simp only [optionTurn, hblk, ho]

theorem kept_iff (h : AtBlock s o blk_end after) :
    Kept optfile clen s blk_end after ↔ o.holds optfile = true := by
  rw [Kept, turn_at_block h]
  cases o.holds optfile <;> simp

theorem dropped_iff (h : AtBlock s o blk_end after) :
    Dropped optfile clen s after ↔ o.holds optfile = false := by
  rw [Dropped, turn_at_block h]
  cases o.holds optfile <;> simp

end Scanner

/-- The blocks are right exactly if the name occurs when it is a macro, and only then. -/
theorem blocks_right_of_occurs {file : List UInt8} {name : Text} (h : IsOptionName name) :
    BlocksRight file name ↔ (Occurs file name ↔ Defines file name) := by
  constructor
  · intro hright
    obtain ⟨s, o, blk_end, after, hat, rfl⟩ := h
    obtain ⟨hplain, hinverse⟩ := hright 0 s o blk_end after hat rfl
    have hkept : Kept file 0 s blk_end after ↔ _ := kept_iff hat
    have hholds := holds_iff file o
    rw [← hkept] at hholds
    cases hinv : o.inverse with
    | false =>
      rw [(hplain hinv).1, hinv] at hholds
      simpa using hholds.symm
    | true =>
      rw [(hinverse hinv).1, hinv] at hholds
      simpa [not_iff_not] using hholds.symm
  · rintro hoccurs clen s o blk_end after hat rfl
    have hholds := holds_iff file o
    rw [hoccurs] at hholds
    rw [kept_iff hat, dropped_iff hat, ← Bool.not_eq_true (o.holds (some file)), hholds]
    constructor
    · intro hinv
      rw [hinv]
      exact ⟨iff_true_right rfl, not_congr (iff_true_right rfl)⟩
    · intro hinv
      have hfalse : ¬ (o.inverse = false) := by simp [hinv]
      rw [iff_false_right hfalse, not_not]
      exact ⟨Iff.rfl, Iff.rfl⟩

/-! ### Plain lines -/

theorem behind_eq {word s t : Text} (h : behind word s = some t) : s = word ++ t := by
  obtain ⟨hpre, ht⟩ := Option.ite_none_right_eq_some.mp h
  obtain ⟨rest, rfl⟩ := hpre
  rw [List.drop_left] at ht
  rw [Option.some.inj ht]

/-- What stands behind the `#define` that a line starts with. -/
theorem macroName_plain {t name : Text} (h : macroName (ascii "#define" ++ t) = some name) :
    ∃ rest, t = t.takeWhile isBlank ++ (name ++ rest) ∧ ∀ c ∈ name, isNameChar c := by
  have hdefine : ascii "#define" = ascii "#" ++ ascii "define" := by decide
  have hhash : (ascii "#define" ++ t).dropWhile isBlank = ascii "#" ++ (ascii "define" ++ t) := by
    rw [hdefine, List.append_assoc]
    exact List.dropWhile_cons_of_neg (by decide)
  have hword : (ascii "define" ++ t).dropWhile isBlank = ascii "define" ++ t :=
    List.dropWhile_cons_of_neg (by decide)
  rw [macroName] at h
  obtain ⟨s, hs, h⟩ := Option.bind_eq_some_iff.mp h
  rw [hhash] at hs
  obtain rfl := List.append_cancel_left (behind_eq hs)
  obtain ⟨s, hs, h⟩ := Option.bind_eq_some_iff.mp h
  rw [hword] at hs
  obtain rfl := List.append_cancel_left (behind_eq hs)
  obtain ⟨-, h⟩ := Option.ite_none_left_eq_some.mp h
  obtain rfl := Option.some.inj h
  refine ⟨(t.dropWhile isBlank).dropWhile isNameChar, ?_, fun c hc => List.mem_takeWhile_imp hc⟩
  rw [List.takeWhile_append_dropWhile, List.takeWhile_append_dropWhile]

/-- The macro of a plain line is found. -/
theorem Plain.occurs {file : List UInt8} {line name : Text} (hline : line ∈ lines file)
    (h : Plain line name) : Occurs file name := by
  obtain ⟨hname, ⟨t, rfl⟩, hlen⟩ := h
  obtain ⟨rest, ht, hchars⟩ := macroName_plain hname
  have hseven : (ascii "#define").length = 7 := by decide
  rw [← hseven, List.drop_left] at hlen
  have hgap : ∀ c ∈ t.takeWhile isBlank, isBlank c := fun c hc => List.mem_takeWhile_imp hc
  generalize t.takeWhile isBlank = gap at ht hlen hgap
  subst ht
  -- the first piece starts with the name and what is in front of it
  have hfront : (ascii "#define" ++ (gap ++ name)).length ≤ 254 := by
    rw [List.length_append, List.length_append, hseven]
    omega
  have hshape : ascii "#define" ++ (gap ++ (name ++ rest)) =
      (ascii "#define" ++ (gap ++ name)) ++ rest := by simp
  have hpiece : piece (ascii "#define" ++ (gap ++ (name ++ rest))) 0 =
      (ascii "#define" ++ (gap ++ name)) ++
        rest.take (254 - (ascii "#define" ++ (gap ++ name)).length) := by
    rw [piece, Nat.mul_zero, List.drop_zero, hshape, List.take_append,
      List.take_of_length_le hfront]
  have hclean : ∀ c ∈ ascii "#define" ++ (gap ++ name), decide (c ≠ 0) = true := by
    intro c hc
    rw [decide_eq_true_iff]
    rintro rfl
    rw [List.mem_append, List.mem_append] at hc
    rcases hc with hc | hc | hc
    · exact absurd hc (by decide)
    · exact absurd (hgap 0 hc) (by decide)
    · exact absurd (hchars 0 hc) (by decide)
  have hpos : 254 * 0 < (ascii "#define" ++ (gap ++ (name ++ rest))).length := by
    rw [List.length_append, hseven]
    omega
  refine ⟨_, hline, 0, hpos, ?_, ?_⟩
  · rw [hpiece, List.append_assoc]
    exact List.prefix_append _ _
  · rw [hpiece, List.takeWhile_append_of_pos hclean]
    have hname : name <:+ ascii "#define" ++ (gap ++ name) :=
      (List.suffix_append gap name).trans (List.suffix_append _ _)
    exact hname.isInfix.trans (List.prefix_append _ _).isInfix

/-- **Options are not macros.**  The OPT blocks for a name are kept and dropped by the macros
of the option file if and only if the name is clear in it. -/
theorem blocks_right_iff (file : List UInt8) {name : Text} (h : IsOptionName name) :
    BlocksRight file name ↔ Clear file name := by
  rw [blocks_right_of_occurs h]
  constructor
  · intro hoccurs
    by_cases hdefines : Defines file name
    · exact .inr (.inr ⟨hdefines, hoccurs.mpr hdefines⟩)
    · exact .inr (.inl ⟨hdefines, mt hoccurs.mp hdefines⟩)
  · rintro (⟨line, hline, hplain⟩ | ⟨hdefines, hoccurs⟩ | ⟨hdefines, hoccurs⟩)
    · exact iff_of_true (hplain.occurs hline) ⟨line, hline, hplain.1⟩
    · exact iff_of_false hoccurs hdefines
    · exact iff_of_true hoccurs hdefines

def sampleFile : List UInt8 := ascii "/* options */\n#define FOOBAR 1\n"

def samplePage (name : Text) : List UInt8 :=
  HTML_OPTION_BEGIN_TAG ++ ascii "#" ++ name ++ ascii "-->x" ++ HTML_OPTION_END_TAG

theorem sample_option_name {name : Text}
    (h : ((optionTag (samplePage name) 7 HTML_OPTION_TAIL).map OptionTag.name) = some name ∧
      (blockEnd (samplePage name) HTML_OPTION_BEGIN_TAG HTML_OPTION_END_TAG
        ((samplePage name).length + 1) 7 7).isSome) : IsOptionName name := by
  obtain ⟨hname, hblk⟩ := h
  obtain ⟨o, ho, hname⟩ := Option.map_eq_some_iff.mp hname
  obtain ⟨blk_end, hblk⟩ := Option.isSome_iff_exists.mp hblk
  exact ⟨⟨samplePage name, 0, [], 0⟩, o, blk_end, _, ⟨_, _, _, rfl, hblk, ho, rfl⟩, hname⟩

theorem blocks_right_sample : BlocksRight sampleFile (ascii "FOOBAR") := by
  refine (blocks_right_iff sampleFile (sample_option_name (by decide +kernel))).mpr (.inl ?_)
  refine ⟨ascii "#define FOOBAR 1\n", by decide, ?_, ?_, ?_⟩ <;> decide +kernel

/-- `FOO` is a part of the name of a macro, and its block is kept. -/
theorem prefix_taken_for_macro : ¬ BlocksRight sampleFile (ascii "FOO") ∧
    ¬ Defines sampleFile (ascii "FOO") ∧
    proc_fake (some sampleFile) (samplePage (ascii "FOO")) = some (some (ascii "x", 1)) := by
  have hdefines : ¬ Defines sampleFile (ascii "FOO") := by decide +kernel
  have hoccurs : Occurs sampleFile (ascii "FOO") :=
    (option_match_iff _ _).mp (by decide +kernel)
  refine ⟨?_, hdefines, by decide +kernel⟩
  rw [blocks_right_of_occurs (sample_option_name (by decide +kernel))]
  exact fun h => hdefines (h.mp hoccurs)

end AksFirmware.OptionNames
