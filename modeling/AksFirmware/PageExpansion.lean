import AksFirmware.TaggedText
import AksFirmware.WebComp

/-!
# What the page compiler makes of a page

A page whose tags are properly nested is a tree, and its expansion is a recursion over the
tree.  `proc_tag_expands` says that the scanner, which keeps no stack and searches for the
ends of blocks without regard to the block it is in, comes to the same text.

The texts of the tags must stand nowhere else in the page: what looks like a tag is one.
-/

namespace AksFirmware.PageExpansion

open ByteMemory CText WebComp TaggedText

/-! ### Pages -/

inductive Syntax where
  | js | html
deriving DecidableEq, Repr

/-- The blocks that are dropped. -/
inductive Block where
  | demo (k : Syntax)
  | doCgi
deriving DecidableEq, Repr

inductive Page where
  | empty
  | char (c : UInt8) (rest : Page)
  | block (b : Block) (body rest : Page)
  | real (k : Syntax) (body rest : Page)
  | opt (k : Syntax) (inverse : Bool) (name : Text) (body rest : Page)
  | aopt (inverse : Bool) (name : Text) (rest : Page)

/-- What is left of a page when the options for which `holds` is true are defined, nothing
if the page is not to be included. -/
def Page.expand (holds : Text → Bool) : Page → Option Text
  | .empty => some []
  | .char c rest => do
    let tail ← rest.expand holds
    some (c :: tail)
  | .block _ _ rest => rest.expand holds
  | .real _ body rest => do
    let inner ← body.expand holds
    let tail ← rest.expand holds
    some (inner ++ tail)
  | .opt _ inverse name body rest => do
    let inner ← (if holds name = inverse then some [] else body.expand holds)
    let tail ← rest.expand holds
    some (inner ++ tail)
  | .aopt inverse name rest => if holds name = inverse then none else rest.expand holds

/-! ### The text of a page -/

inductive Tag where
  | blockBegin (b : Block)
  | blockEnd (b : Block)
  | realBegin (k : Syntax)
  | realEnd (k : Syntax)
  | optBegin (k : Syntax)
  | optEnd (k : Syntax)
  | pageOpt
deriving DecidableEq, Repr

def Tag.text : Tag → Text
  | .blockBegin (.demo .js) => JS_DEMO_BEGIN_TAG
  | .blockBegin (.demo .html) => HTML_DEMO_BEGIN_TAG
  | .blockBegin .doCgi => DOCGI_BEGIN_TAG
  | .blockEnd (.demo .js) => JS_DEMO_END_TAG
  | .blockEnd (.demo .html) => HTML_DEMO_END_TAG
  | .blockEnd .doCgi => DOCGI_END_TAG
  | .realBegin .js => JS_REAL_BEGIN_TAG
  | .realBegin .html => HTML_REAL_BEGIN_TAG
  | .realEnd .js => JS_REAL_END_TAG
  | .realEnd .html => HTML_REAL_END_TAG
  | .optBegin .js => JS_OPTION_BEGIN_TAG
  | .optBegin .html => HTML_OPTION_BEGIN_TAG
  | .optEnd .js => JS_OPTION_END_TAG
  | .optEnd .html => HTML_OPTION_END_TAG
  | .pageOpt => HTML_PAGE_OPTION_TAG

def tailText : Syntax → Text
  | .js => JS_OPTION_TAIL
  | .html => HTML_OPTION_TAIL

/-- An option behind its tag. -/
def optionText (k : Syntax) (inverse : Bool) (name : Text) : Text :=
  (if inverse then OPT_NOT_DEFINE else OPT_DEFINE) ++ name ++ tailText k

def Tag.all : List Tag :=
  [.blockBegin (.demo .js), .blockBegin (.demo .html), .blockBegin .doCgi,
    .blockEnd (.demo .js), .blockEnd (.demo .html), .blockEnd .doCgi, .realBegin .js,
    .realBegin .html, .realEnd .js, .realEnd .html, .optBegin .js, .optBegin .html,
    .optEnd .js, .optEnd .html, .pageOpt]

theorem Tag.mem_all (t : Tag) : t ∈ Tag.all := by
  rcases t with ((_ | _) | _) | ((_ | _) | _) | (_ | _) | (_ | _) | (_ | _) | (_ | _) | _ <;> decide

theorem Tag.text_ne_nil (t : Tag) : t.text ≠ [] := by
  have hall : ∀ t ∈ Tag.all, t.text ≠ [] := by decide
  exact hall t t.mem_all

/-- A byte of the page that belongs to no tag. -/
def charPiece (c : UInt8) : Piece Tag.text := ⟨none, [c], List.cons_ne_nil c [], nofun⟩

/-- A tag, with the option that belongs to it. -/
def tagPiece (t : Tag) (option : Text) : Piece Tag.text where
  tag := some t
  bytes := t.text ++ option
  nonempty := List.append_ne_nil_of_left_ne_nil t.text_ne_nil option
  tagged := fun _ ht => Option.some.inj ht ▸ List.prefix_append _ _

def pieces : Page → List (Piece Tag.text)
  | .empty => []
  | .char c rest => charPiece c :: pieces rest
  | .block b body rest =>
    tagPiece (.blockBegin b) [] :: (pieces body ++ tagPiece (.blockEnd b) [] :: pieces rest)
  | .real k body rest =>
    tagPiece (.realBegin k) [] :: (pieces body ++ tagPiece (.realEnd k) [] :: pieces rest)
  | .opt k inverse name body rest =>
    tagPiece (.optBegin k) (optionText k inverse name) ::
      (pieces body ++ tagPiece (.optEnd k) [] :: pieces rest)
  | .aopt inverse name rest =>
    tagPiece .pageOpt (optionText .html inverse name) :: pieces rest

def pageText (p : Page) : Text := bytes (pieces p)

def Page.hasBlock (b : Block) : Page → Bool
  | .empty => false
  | .char _ rest => rest.hasBlock b
  | .block b' body rest => b' = b || body.hasBlock b || rest.hasBlock b
  | .real _ body rest => body.hasBlock b || rest.hasBlock b
  | .opt _ _ _ body rest => body.hasBlock b || rest.hasBlock b
  | .aopt _ _ rest => rest.hasBlock b

/-- The name of an option goes up to the first tail. -/
def NameEnds (k : Syntax) (name : Text) : Prop :=
  ∀ m < name.length, ¬ tailText k <+: (name ++ tailText k).drop m

instance (k : Syntax) (name : Text) : Decidable (NameEnds k name) :=
  inferInstanceAs (Decidable (∀ m < name.length, ¬ tailText k <+: (name ++ tailText k).drop m))

/-- No block is inside another of its kind, and every name ends where its tail is. -/
def Page.Proper : Page → Prop
  | .empty => True
  | .char _ rest => rest.Proper
  | .block b body rest => body.hasBlock b = false ∧ body.Proper ∧ rest.Proper
  | .real _ body rest => body.Proper ∧ rest.Proper
  | .opt k _ name body rest => NameEnds k name ∧ body.Proper ∧ rest.Proper
  | .aopt _ name rest => NameEnds .html name ∧ rest.Proper

instance Page.decidableProper : (p : Page) → Decidable p.Proper
  | .empty => inferInstanceAs (Decidable True)
  | .char _ rest => rest.decidableProper
  | .block b body rest =>
    have := body.decidableProper
    have := rest.decidableProper
    inferInstanceAs (Decidable (body.hasBlock b = false ∧ body.Proper ∧ rest.Proper))
  | .real _ body rest =>
    have := body.decidableProper
    have := rest.decidableProper
    inferInstanceAs (Decidable (body.Proper ∧ rest.Proper))
  | .opt k _ name body rest =>
    have := body.decidableProper
    have := rest.decidableProper
    inferInstanceAs (Decidable (NameEnds k name ∧ body.Proper ∧ rest.Proper))
  | .aopt _ name rest =>
    have := rest.decidableProper
    inferInstanceAs (Decidable (NameEnds .html name ∧ rest.Proper))

/-- A page is a text, and the text of a tag stands nowhere in it but at a tag. -/
structure WellTagged (ps : List (Piece Tag.text)) : Prop where
  no_zero : (0 : UInt8) ∉ bytes ps
  only_tags : ∀ t, OnlyTagged t ps

instance (ps : List (Piece Tag.text)) : Decidable (WellTagged ps) :=
  decidable_of_iff ((0 : UInt8) ∉ bytes ps ∧ ∀ t ∈ Tag.all, ∀ n < (bytes ps).length,
      t.text <+: (bytes ps).drop n → n ∈ starts t 0 ps)
    ⟨fun h => ⟨h.1, fun t => (onlyTagged_iff t.text_ne_nil).mpr (h.2 t t.mem_all)⟩,
      fun h => ⟨h.no_zero, fun t _ => (onlyTagged_iff t.text_ne_nil).mp (h.only_tags t)⟩⟩

/-! ### What the scanner tests -/

def scanned : List (Tag × Action) :=
  [(.blockBegin (.demo .js), .block (Tag.blockEnd (.demo .js)).text),
    (.blockBegin .doCgi, .block (Tag.blockEnd .doCgi).text),
    (.blockBegin (.demo .html), .block (Tag.blockEnd (.demo .html)).text),
    (.realBegin .js, .marker), (.realEnd .js, .marker),
    (.realBegin .html, .marker), (.realEnd .html, .marker),
    (.optBegin .js, .option (tailText .js) (Tag.optEnd .js).text),
    (.optBegin .html, .option (tailText .html) (Tag.optEnd .html).text),
    (.pageOpt, .pageOption (tailText .html))]

theorem tests_eq : tests = scanned.map fun p => (p.1.text, p.2) := rfl

section Tests

variable {A C : List (Piece Tag.text)} {pc : Piece Tag.text} (h : WellTagged (A ++ pc :: C))
include h

theorem find_test_none (hpc : pc.tag = none) :
    tests.find? (fun test => test.1.isPrefixOf (bytes (pc :: C))) = none := by
  rw [tests_eq, List.find?_map, Option.map_eq_none_iff, List.find?_eq_none]
  intro p _ hpre
  have htag := (h.only_tags p.1).prefix_iff.mp (List.isPrefixOf_iff_prefix.mp hpre)
  rw [hpc] at htag
  cases htag

theorem find_test_some {t : Tag} {action : Action} (hpc : pc.tag = some t)
    (hmem : (t, action) ∈ scanned) :
    tests.find? (fun test => test.1.isPrefixOf (bytes (pc :: C))) = some (t.text, action) := by
  have hkeys : ∀ p ∈ scanned, ∀ q ∈ scanned, p.1 = q.1 → p = q := by decide
  have hown : ∀ p : Tag × Action, p.1.text.isPrefixOf (bytes (pc :: C)) = true ↔ p.1 = t := by
    intro p
    rw [List.isPrefixOf_iff_prefix, (h.only_tags p.1).prefix_iff, hpc, Option.some.injEq, eq_comm]
  rw [tests_eq, List.find?_map, Option.map_eq_some_iff]
  refine ⟨(t, action), ?_, rfl⟩
  cases hfind : scanned.find? ((fun test => test.1.isPrefixOf (bytes (pc :: C))) ∘
      fun p : Tag × Action => (p.1.text, p.2)) with
  | none => exact absurd ((hown _).mpr rfl) (List.find?_eq_none.mp hfind _ hmem)
  | some p =>
    have hpre := List.find?_some hfind
    have hp := (hown p).mp hpre
    rw [hkeys p (List.mem_of_find?_eq_some hfind) _ hmem hp]

end Tests

theorem optionStart_eq {k : Syntax} {name : Text} (inverse : Bool) {src rest : List UInt8} {optn : Nat}
    (hsrc : src.drop optn = optionText k inverse name ++ rest) :
    ∃ start, optionStart src optn = some (inverse, start) ∧ optn ≤ start ∧
      start + (name ++ tailText k).length = optn + (optionText k inverse name).length ∧
      src.drop start = name ++ tailText k ++ rest := by
  cases inverse with
  | true =>
    refine ⟨optn + OPT_NOT_DEFINE.length, ?_, Nat.le_add_right _ _, ?_, ?_⟩
    · rw [optionStart, hsrc]
      rfl
    · simp [optionText, Nat.add_assoc]
    · rw [← List.drop_drop, hsrc]
      rfl
  | false =>
    refine ⟨optn + OPT_DEFINE.length, ?_, Nat.le_add_right _ _, ?_, ?_⟩
    · rw [optionStart, hsrc]
      rfl
    · simp [optionText, Nat.add_assoc]
    · rw [← List.drop_drop, hsrc]
      rfl

/-- The search for the tail finds the end of the name. -/
theorem tail_found {k : Syntax} {name : Text} (hname : NameEnds k name) {src rest : List UInt8}
    {start : Nat} (hdrop : src.drop start = name ++ tailText k ++ rest)
    (hzero : (0 : UInt8) ∉ src.drop start) :
    strstrFrom src start (tailText k) = some (start + name.length) := by
  refine strstrFrom_eq_some hzero (Nat.le_add_right _ _) ?_ ?_
  · rw [← List.drop_drop, hdrop, List.append_assoc, List.drop_left]
    exact List.prefix_append _ _
  · intro m hm hlt hpre
    obtain ⟨j, rfl⟩ := Nat.exists_eq_add_of_le hm
    have hj : j < name.length := by omega
    rw [← List.drop_drop, hdrop, List.drop_append_of_le_length (by simp; omega)] at hpre
    refine hname j hj (List.prefix_of_prefix_length_le hpre (List.prefix_append _ _) ?_)
    simp only [List.length_drop, List.length_append]
    omega

/-- The option behind a tag is read as it was written. -/
theorem optionTag_eq {k : Syntax} {name : Text} (hname : NameEnds k name) (inverse : Bool)
    {src rest : List UInt8} {optn : Nat}
    (hsrc : src.drop optn = optionText k inverse name ++ rest)
    (hzero : (0 : UInt8) ∉ src.drop optn) :
    ∃ o, optionTag src optn (tailText k) = some o ∧ o.inverse = inverse ∧ o.name = name ∧
      o.optb < o.next ∧ o.next = optn + (optionText k inverse name).length := by
  obtain ⟨start, hstart, hle, hlen, hdrop⟩ := optionStart_eq inverse hsrc
  have hzero' : (0 : UInt8) ∉ src.drop start := by
    obtain ⟨d, rfl⟩ := Nat.exists_eq_add_of_le hle
    rw [← List.drop_drop]
    exact fun h => hzero (List.mem_of_mem_drop h)
  have hfound := tail_found hname hdrop hzero'
  have htaken : (src.drop start).take (start + name.length - start) = name := by
    rw [hdrop, Nat.add_sub_cancel_left, List.append_assoc, List.take_left]
  refine ⟨⟨inverse, name, start + name.length, start + name.length + (tailText k).length⟩, ?_, rfl,
    rfl, ?_, ?_⟩
  · rw [optionTag, hstart]
    simp only [Option.bind_eq_bind, Option.bind_some, hfound, htaken]
  · have htail : 0 < (tailText k).length := by cases k <;> decide
    exact Nat.lt_add_of_pos_right htail
  · rw [List.length_append] at hlen
    rw [Nat.add_assoc]
    exact hlen

theorem closing_tag (k : Syntax) {t : Tag} (hopen : t ≠ .optBegin k) (hclose : t ≠ .optEnd k)
    (option : Text) (depth o : Nat) (C : List (Piece Tag.text)) :
    closing (.optBegin k) (.optEnd k) depth o (tagPiece t option :: C) =
      closing (.optBegin k) (.optEnd k) depth (o + (tagPiece t option).bytes.length) C :=
  closing_other C (fun h => hopen (Option.some.inj h)) (fun h => hclose (Option.some.inj h)) depth o

/-- Opening and closing tags of a page match each other. -/
theorem closing_pieces (k : Syntax) (p : Page) (depth o : Nat) (C : List (Piece Tag.text)) :
    closing (.optBegin k) (.optEnd k) depth o (pieces p ++ C) =
      closing (.optBegin k) (.optEnd k) depth (o + (pageText p).length) C := by
  have hne : Tag.optBegin k ≠ Tag.optEnd k := by simp
  induction p generalizing depth o C with
  | empty => rfl
  | char c rest ih =>
    have hskip := @closing_other _ _ _ (.optBegin k) (.optEnd k) (charPiece c) (pieces rest ++ C)
      (by simp [charPiece]) (by simp [charPiece]) depth o
    rw [pieces, List.cons_append, hskip, ih]
    simp [pageText, pieces, Nat.add_assoc]
  | block b body rest ihbody ihrest =>
    rw [pieces, List.cons_append, List.append_assoc, List.cons_append,
      closing_tag k (t := .blockBegin b) (by simp) (by simp), ihbody,
      closing_tag k (t := .blockEnd b) (by simp) (by simp), ihrest]
    simp [pageText, pieces, Nat.add_assoc]
  | real k' body rest ihbody ihrest =>
    rw [pieces, List.cons_append, List.append_assoc, List.cons_append,
      closing_tag k (t := .realBegin k') (by simp) (by simp), ihbody,
      closing_tag k (t := .realEnd k') (by simp) (by simp), ihrest]
    simp [pageText, pieces, Nat.add_assoc]
  | opt k' inverse name body rest ihbody ihrest =>
    rw [pieces, List.cons_append, List.append_assoc, List.cons_append]
    by_cases hk : k' = k
    · subst hk
      rw [closing_open _ hne rfl, ihbody, closing_close _ rfl, ihrest]
      simp [pageText, pieces, Nat.add_assoc]
    · rw [closing_tag k (t := .optBegin k') (fun h => hk (Tag.optBegin.inj h)) (by simp), ihbody,
        closing_tag k (t := .optEnd k') (by simp) (fun h => hk (Tag.optEnd.inj h)), ihrest]
      simp [pageText, pieces, Nat.add_assoc]
  | aopt inverse name rest ih =>
    rw [pieces, List.cons_append, closing_tag k (t := .pageOpt) (by simp) (by simp), ih]
    simp [pageText, pieces, Nat.add_assoc]

theorem pieces_no_block {b : Block} {p : Page} (h : p.hasBlock b = false) :
    ∀ pc ∈ pieces p, pc.tag ≠ some (.blockEnd b) := by
  induction p with
  | empty => exact fun _ hpc => nomatch hpc
  | char c rest ih =>
    exact List.forall_mem_cons.mpr ⟨nofun, ih h⟩
  | block b' body rest ihbody ihrest =>
    simp only [Page.hasBlock, Bool.or_eq_false_iff, decide_eq_false_iff_not] at h
    obtain ⟨⟨hb, hbody⟩, hrest⟩ := h
    refine List.forall_mem_cons.mpr ⟨nofun, List.forall_mem_append.mpr ⟨ihbody hbody, ?_⟩⟩
    exact List.forall_mem_cons.mpr
      ⟨fun heq => hb (Tag.blockEnd.inj (Option.some.inj heq)), ihrest hrest⟩
  | real k body rest ihbody ihrest | opt k inverse name body rest ihbody ihrest =>
    simp only [Page.hasBlock, Bool.or_eq_false_iff] at h
    refine List.forall_mem_cons.mpr ⟨nofun, List.forall_mem_append.mpr ⟨ihbody h.1, ?_⟩⟩
    exact List.forall_mem_cons.mpr ⟨nofun, ihrest h.2⟩
  | aopt inverse name rest ih =>
    exact List.forall_mem_cons.mpr ⟨nofun, ih h⟩

theorem pieces_long (p : Page) (k : Syntax) :
    ∀ pc ∈ pieces p, pc.tag = some (.optBegin k) →
      (Tag.optBegin k).text.length < pc.bytes.length := by
  have hother : ∀ {t : Tag} {option : Text}, t ≠ .optBegin k →
      (tagPiece t option).tag = some (.optBegin k) →
      (Tag.optBegin k).text.length < (tagPiece t option).bytes.length :=
    fun ht heq => absurd (Option.some.inj heq) ht
  induction p with
  | empty => exact fun _ hpc => nomatch hpc
  | char c rest ih => exact List.forall_mem_cons.mpr ⟨nofun, ih⟩
  | block b body rest ihbody ihrest =>
    refine List.forall_mem_cons.mpr ⟨hother nofun, List.forall_mem_append.mpr ⟨ihbody, ?_⟩⟩
    exact List.forall_mem_cons.mpr ⟨hother nofun, ihrest⟩
  | real k' body rest ihbody ihrest =>
    refine List.forall_mem_cons.mpr ⟨hother nofun, List.forall_mem_append.mpr ⟨ihbody, ?_⟩⟩
    exact List.forall_mem_cons.mpr ⟨hother nofun, ihrest⟩
  | opt k' inverse name body rest ihbody ihrest =>
    refine List.forall_mem_cons.mpr ⟨fun heq => ?_, List.forall_mem_append.mpr ⟨ihbody, ?_⟩⟩
    · obtain rfl := Tag.optBegin.inj (Option.some.inj heq)
      have htail : 0 < (tailText k').length := by cases k' <;> decide
      simp only [tagPiece, optionText, List.length_append]
      omega
    · exact List.forall_mem_cons.mpr ⟨hother nofun, ihrest⟩
  | aopt inverse name rest ih => exact List.forall_mem_cons.mpr ⟨hother nofun, ih⟩

/-! ### The end of an OPT block -/

/-- The loop goes through the places of the two tags in step. -/
theorem blockEnd_eq_pick {src : List UInt8} {begin_tag end_tag : Text} (hend : end_tag ≠ [])
    (hbegin : begin_tag ≠ []) {es bs : List Nat}
    (hes : es.Pairwise fun a b => a + end_tag.length ≤ b)
    (hbs : bs.Pairwise fun a b => a + begin_tag.length ≤ b) {next_end next_opt turns : Nat}
    (hes_le : ∀ e ∈ es, next_end ≤ e) (hbs_le : ∀ b ∈ bs, next_opt ≤ b)
    (hE : ∀ m, next_end ≤ m → strstrFrom src m end_tag = es.find? (m ≤ ·))
    (hB : ∀ m, next_opt ≤ m → strstrFrom src m begin_tag = bs.find? (m ≤ ·))
    (hturns : es.length < turns) :
    blockEnd src begin_tag end_tag turns next_end next_opt = pick begin_tag.length es bs := by
  have hend_pos := List.length_pos_of_ne_nil hend
  have hbegin_pos := List.length_pos_of_ne_nil hbegin
  induction es generalizing bs next_end next_opt turns with
  | nil =>
    obtain ⟨turns, rfl⟩ := Nat.exists_eq_succ_of_ne_zero (Nat.ne_of_gt hturns)
    rw [blockEnd, hE next_end (Nat.le_refl _)]
    rfl
  | cons e es ih =>
    obtain ⟨turns, rfl⟩ := Nat.exists_eq_succ_of_ne_zero (Nat.ne_of_gt (Nat.zero_lt_of_lt hturns))
    obtain ⟨hfirst, hes⟩ := List.pairwise_cons.mp hes
    rw [blockEnd, hE next_end (Nat.le_refl _), find?_eq_head? hes_le, List.head?_cons,
      hB next_opt (Nat.le_refl _), find?_eq_head? hbs_le]
    cases bs with
    | nil => rfl
    | cons b bs =>
      obtain ⟨hfirst', hbs⟩ := List.pairwise_cons.mp hbs
      have hnext : ∀ {n k m : Nat} {l : List Nat}, 0 < k → n + k ≤ m →
          (n :: l).find? (m ≤ ·) = l.find? (m ≤ ·) := by
        intro n k m l hk hm
        exact List.find?_cons_of_neg (by simp; omega)
      have he := hes_le e List.mem_cons_self
      have hb := hbs_le b List.mem_cons_self
      simp only [List.head?_cons, pick]
      split
      · refine ih hes hbs hfirst hfirst' (fun m hm => ?_) (fun m hm => ?_) ?_
        · rw [hE m (by omega), hnext hend_pos hm]
        · rw [hB m (by omega), hnext hbegin_pos hm]
        · exact Nat.lt_of_succ_lt_succ hturns
      · rfl

/-! ### The scan between two pieces -/

/-- The arguments of `scan` that change from turn to turn. -/
structure Config where
  fuel : Nat
  clen : Nat
  s : Scan

def Config.run (c : Config) (optfile : Option (List UInt8)) (oend : Nat) : Option (Int × Scan) :=
  scan optfile c.fuel oend c.clen c.s

/-- What is written when the bytes of the last turns are, too. -/
def Config.shown (c : Config) : Text := (c.s.copy c.clen).out

/-- The scan has come to the end of `A`, and `B` is before it.  From the bytes that are not
copied yet on, the page is as it was at first. -/
structure At (page : Page) (A B : List (Piece Tag.text)) (c : Config) : Prop where
  split : pieces page = A ++ B
  opos : c.s.opos = (bytes A).length
  clen_le : c.clen ≤ c.s.opos
  src : c.s.src.drop (c.s.opos - c.clen) = (pageText page).drop (c.s.opos - c.clen)
  length : c.s.src.length = (pageText page).length
  nlen : c.s.nlen = c.s.out.length
  fuel : (pageText page).length - c.s.opos < c.fuel

section Position

variable {page : Page} {A B C : List (Piece Tag.text)} {c : Config} (h : At page A B c)
include h

theorem At.drop {n : Nat} (hn : c.s.opos - c.clen ≤ n) : c.s.src.drop n = (pageText page).drop n := by
  obtain ⟨d, rfl⟩ := Nat.exists_eq_add_of_le hn
  rw [← List.drop_drop, h.src, List.drop_drop]

theorem At.here : c.s.src.drop c.s.opos = bytes B := by
  rw [h.drop (Nat.sub_le _ _), h.opos, pageText, h.split, bytes_append, List.drop_left]

theorem At.opos_add : c.s.opos + (bytes B).length = (pageText page).length := by
  rw [h.opos, pageText, h.split, bytes_append, List.length_append]

theorem At.pending_length : ((c.s.src.drop (c.s.opos - c.clen)).take c.clen).length = c.clen := by
  have := h.opos_add
  have := h.length
  have := h.clen_le
  rw [List.length_take, List.length_drop]
  omega

theorem At.copy_nlen : (c.s.copy c.clen).nlen = (c.s.copy c.clen).out.length := by
  simp only [Scan.copy, List.length_append, h.pending_length, h.nlen]

end Position

/-- The scan goes on from `c` at `c'`, with `text` written in between. -/
structure Gets (optfile : Option (List UInt8)) (oend : Nat) (c c' : Config) (text : Text) : Prop where
  run : c.run optfile oend = c'.run optfile oend
  shown : c'.shown = c.shown ++ text

theorem Gets.trans {optfile : Option (List UInt8)} {oend : Nat} {c c' c'' : Config} {text text' : Text}
    (h : Gets optfile oend c c' text) (h' : Gets optfile oend c' c'' text') :
    Gets optfile oend c c'' (text ++ text') :=
  ⟨h.run.trans h'.run, by rw [h'.shown, h.shown, List.append_assoc]⟩

/-- What comes of scanning a part of the page that expands to this. -/
inductive Leads (optfile : Option (List UInt8)) (page : Page) (A C : List (Piece Tag.text))
    (oend : Nat) (c : Config) : Option Text → Prop
  | on {c' : Config} {text : Text} (hat : At page A C c') (hgets : Gets optfile oend c c' text) :
      Leads optfile page A C oend c (some text)
  | off {s : Scan} (hrun : c.run optfile oend = some (-1, s)) : Leads optfile page A C oend c none

theorem Leads.bind {optfile : Option (List UInt8)} {page : Page} {A A' C C' : List (Piece Tag.text)}
    {oend : Nat} {c : Config} {r r' : Option Text} (h : Leads optfile page A C oend c r)
    (hrest : ∀ c', At page A C c' → Leads optfile page A' C' oend c' r') :
    Leads optfile page A' C' oend c (do
      let inner ← r
      let tail ← r'
      some (inner ++ tail)) := by
  cases h with
  | off hrun => exact .off hrun
  | on hat hgets =>
    cases hrest _ hat with
    | off hrun => exact .off (hgets.run.trans hrun)
    | on hat' hgets' => exact .on hat' (hgets.trans hgets')

theorem Leads.skip {optfile : Option (List UInt8)} {page : Page} {A C : List (Piece Tag.text)}
    {oend : Nat} {c c' : Config} {r : Option Text} (hgets : Gets optfile oend c c' [])
    (h : Leads optfile page A C oend c' r) : Leads optfile page A C oend c r := by
  cases h with
  | off hrun => exact .off (hgets.run.trans hrun)
  | on hat hgets' => exact .on hat (hgets.trans hgets')

section Turn

variable {page : Page} {A B C : List (Piece Tag.text)} {c : Config} (h : At page A (B ++ C) c)
  (hB : B ≠ [])
include h hB

theorem At.opos_lt : c.s.opos < (bytes (A ++ B)).length := by
  have hopos := h.opos
  obtain ⟨pc, ps, rfl⟩ := List.exists_cons_of_ne_nil hB
  have := pc.length_pos
  simp only [bytes_append, bytes_cons, List.length_append]
  omega

theorem At.fuel_left {fuel : Nat} (hfuel : c.fuel = fuel + 1) :
    (pageText page).length - (bytes (A ++ B)).length < fuel := by
  have := h.fuel
  have := h.opos_lt hB
  have hadd := h.opos_add
  have hopos := h.opos
  simp only [bytes_append, List.length_append] at *
  omega

/-- The turn after which the bytes before `opos` have been copied and `B` is behind. -/
theorem At.turn {fuel : Nat} (hfuel : (pageText page).length - (bytes (A ++ B)).length < fuel)
    {src : List UInt8} (hlen : src.length = c.s.src.length)
    (hsrc : src.drop (bytes (A ++ B)).length = c.s.src.drop (bytes (A ++ B)).length) :
    At page (A ++ B) C
      ⟨fuel, 0, { c.s.copy c.clen with src := src, opos := (bytes (A ++ B)).length }⟩ := by
  have hlt := h.opos_lt hB
  refine ⟨by rw [h.split, List.append_assoc], rfl, Nat.zero_le _, ?_, hlen.trans h.length,
    h.copy_nlen, hfuel⟩
  rw [Nat.sub_zero, hsrc]
  exact h.drop (by omega)

end Turn

theorem shown_zero (fuel : Nat) (s : Scan) : Config.shown ⟨fuel, 0, s⟩ = s.out := by
  rw [Config.shown, Scan.copy_zero]

theorem At.fuel_eq {page : Page} {A B : List (Piece Tag.text)} {c : Config} (h : At page A B c) :
    ∃ fuel, c.fuel = fuel + 1 :=
  Nat.exists_eq_succ_of_ne_zero (Nat.ne_of_gt (Nat.zero_lt_of_lt h.fuel))

/-- At the end of its part of the page a call copies what is left and returns. -/
theorem At.run_end {page : Page} {A B : List (Piece Tag.text)} {c : Config} (h : At page A B c)
    (optfile : Option (List UInt8)) :
    c.run optfile (bytes A).length = some (0, c.s.copy c.clen) := by
  obtain ⟨fuel, hfuel⟩ := h.fuel_eq
  rw [Config.run, hfuel, scan, if_neg (Nat.not_lt.mpr (Nat.le_of_eq h.opos.symm))]

/-! ### Single turns -/

section Steps

variable {page : Page} (hw : WellTagged (pieces page)) (optfile : Option (List UInt8))
  {A C : List (Piece Tag.text)} {c : Config} {oend : Nat}
include hw

theorem step_char {ch : UInt8} (h : At page A (charPiece ch :: C) c)
    (hoend : (bytes (A ++ [charPiece ch])).length ≤ oend) :
    ∃ c', At page (A ++ [charPiece ch]) C c' ∧ Gets optfile oend c c' [ch] := by
  obtain ⟨fuel, hfuel⟩ := h.fuel_eq
  have hlt : c.s.opos < oend := Nat.lt_of_lt_of_le (h.opos_lt (B := [charPiece ch]) nofun) hoend
  have hle := h.clen_le
  have hlast : (c.s.src.drop (c.s.opos - c.clen))[c.clen]? = some ch := by
    have hhead := congrArg List.head? h.here
    rwa [List.head?_drop, ← Nat.sub_add_cancel hle, ← List.getElem?_drop] at hhead
  have hsub : c.s.opos + 1 - (c.clen + 1) = c.s.opos - c.clen := Nat.add_sub_add_right _ _ _
  -- The byte is only counted here; a later copy writes it.
  refine ⟨⟨fuel, c.clen + 1, { c.s with opos := c.s.opos + 1 }⟩, ?_, ?_, ?_⟩
  · refine ⟨by rw [h.split, List.append_assoc]; rfl, ?_, Nat.succ_le_succ hle, ?_, h.length, h.nlen,
      ?_⟩
    · simp only [bytes_append, List.length_append, h.opos]
      rfl
    · rw [hsub]
      exact h.src
    · have := h.fuel_left (B := [charPiece ch]) nofun hfuel
      rw [bytes_append, List.length_append, ← h.opos] at this
      exact this
  · have hfind := find_test_none (h.split ▸ hw) rfl
    rw [Config.run, hfuel, scan, if_pos hlt, h.here, hfind]
    rfl
  · simp only [Config.shown, Scan.copy, hsub]
    rw [List.take_add_one, hlast, Option.toList_some, List.append_assoc]

theorem step_marker {t : Tag} (hscan : (t, .marker) ∈ scanned) (h : At page A (tagPiece t [] :: C) c)
    (hoend : (bytes (A ++ [tagPiece t []])).length ≤ oend) :
    ∃ c', At page (A ++ [tagPiece t []]) C c' ∧ Gets optfile oend c c' [] := by
  obtain ⟨fuel, hfuel⟩ := h.fuel_eq
  have hlt : c.s.opos < oend := Nat.lt_of_lt_of_le (h.opos_lt (B := [tagPiece t []]) nofun) hoend
  have hnext : c.s.opos + t.text.length = (bytes (A ++ [tagPiece t []])).length := by
    simp [h.opos, tagPiece]
  have hleft := h.fuel_left (B := [tagPiece t []]) nofun hfuel
  refine ⟨_, h.turn (B := [tagPiece t []]) nofun hleft rfl rfl, ?_, ?_⟩
  · have hfind := find_test_some (h.split ▸ hw) rfl hscan
    rw [Config.run, hfuel, scan, if_pos hlt, h.here, hfind]
    simp only [hnext]
    rfl
  · rw [shown_zero, List.append_nil]
    rfl

/-- Both markers are stripped, and what is between them is scanned like the rest. -/
theorem step_real {k : Syntax} {body : Page} {r : Option Text}
    (hbody : ∀ inner, At page (A ++ [tagPiece (.realBegin k) []])
        (pieces body ++ tagPiece (.realEnd k) [] :: C) inner →
      Leads optfile page (A ++ [tagPiece (.realBegin k) []] ++ pieces body)
        (tagPiece (.realEnd k) [] :: C) oend inner r)
    (h : At page A (tagPiece (.realBegin k) [] :: (pieces body ++ tagPiece (.realEnd k) [] :: C)) c)
    (hoend : (bytes (A ++ [tagPiece (.realBegin k) []] ++ pieces body ++
      [tagPiece (.realEnd k) []])).length ≤ oend) :
    Leads optfile page (A ++ [tagPiece (.realBegin k) []] ++ pieces body ++
      [tagPiece (.realEnd k) []]) C oend c r := by
  have hbegin : (Tag.realBegin k, Action.marker) ∈ scanned := by cases k <;> decide
  have hend : (Tag.realEnd k, Action.marker) ∈ scanned := by cases k <;> decide
  have hfirst := bytes_length_le_of_append (bytes_length_le_of_append hoend)
  obtain ⟨inner, hat, hgets⟩ := step_marker hw optfile hbegin h hfirst
  have hinside := hbody inner hat
  cases hinside with
  | off hrun => exact .off (hgets.run.trans hrun)
  | on hat' hgets' =>
    obtain ⟨c', hat'', hgets''⟩ := step_marker hw optfile hend hat' hoend
    have hall := (hgets.trans hgets').trans hgets''
    rw [List.nil_append, List.append_nil] at hall
    exact .on hat'' hall

theorem step_block {b : Block} {body : Page} (hbody : body.hasBlock b = false)
    (h : At page A (tagPiece (.blockBegin b) [] :: (pieces body ++ tagPiece (.blockEnd b) [] :: C)) c)
    (hoend : (bytes (A ++ tagPiece (.blockBegin b) [] ::
      (pieces body ++ [tagPiece (.blockEnd b) []]))).length ≤ oend) :
    ∃ c', At page (A ++ tagPiece (.blockBegin b) [] ::
        (pieces body ++ [tagPiece (.blockEnd b) []])) C c' ∧ Gets optfile oend c c' [] := by
  obtain ⟨fuel, hfuel⟩ := h.fuel_eq
  have hwhole : tagPiece (.blockBegin b) [] :: (pieces body ++ tagPiece (.blockEnd b) [] :: C) =
      (tagPiece (.blockBegin b) [] :: (pieces body ++ [tagPiece (.blockEnd b) []])) ++ C := by
    simp
  have hinside : ∀ pc ∈ tagPiece (.blockBegin b) [] :: pieces body, pc.tag ≠ some (.blockEnd b) :=
    List.forall_mem_cons.mpr ⟨nofun, pieces_no_block hbody⟩
  have hfound : strstrFrom c.s.src c.s.opos (Tag.blockEnd b).text =
      some ((bytes A).length + (bytes (tagPiece (.blockBegin b) [] :: pieces body)).length) := by
    rw [strstrFrom_eq (hw.only_tags _) (Tag.text_ne_nil _) hw.no_zero (h.drop (Nat.sub_le _ _)),
      h.split, h.opos, find?_starts_at]
    exact head?_starts hinside _ rfl C
  have hscan : (Tag.blockBegin b, Action.block (Tag.blockEnd b).text) ∈ scanned := by
    rcases b with (_ | _) | _ <;> decide
  have hfind := find_test_some (h.split ▸ hw) rfl hscan
  have hhere := h.here
  rw [hwhole] at h
  have hlt := Nat.lt_of_lt_of_le (h.opos_lt nofun) hoend
  have hnext : (bytes A).length + (bytes (tagPiece (.blockBegin b) [] :: pieces body)).length +
      (Tag.blockEnd b).text.length = (bytes (A ++ tagPiece (.blockBegin b) [] ::
        (pieces body ++ [tagPiece (.blockEnd b) []]))).length := by
    simp [tagPiece, Nat.add_assoc]
  refine ⟨_, h.turn nofun (h.fuel_left nofun hfuel) rfl rfl, ?_, ?_⟩
  · rw [Config.run, hfuel, scan, if_pos hlt, hhere, hfind]
    simp only [hfound, hnext]
    rfl
  · rw [shown_zero, List.append_nil]
    rfl

omit hw in
/-- The option of a tag is read, and its name cut out of the page behind the scan. -/
theorem At.option (hw : WellTagged (pieces page)) {t : Tag} {k : Syntax} {inverse : Bool}
    {name : Text} (hname : NameEnds k name)
    (h : At page A (tagPiece t (optionText k inverse name) :: C) c) {fuel : Nat}
    (hfuel : c.fuel = fuel + 1) :
    ∃ o, optionTag c.s.src (c.s.opos + t.text.length) (tailText k) = some o ∧
      o.inverse = inverse ∧ o.name = name ∧
      At page (A ++ [tagPiece t (optionText k inverse name)]) C
        ⟨fuel, 0, (c.s.copy c.clen).cut o⟩ := by
  have hsrc : c.s.src.drop (c.s.opos + t.text.length) = optionText k inverse name ++ bytes C := by
    rw [← List.drop_drop, h.here, bytes_cons, tagPiece, List.append_assoc, List.drop_left]
  have hzero : (0 : UInt8) ∉ c.s.src.drop (c.s.opos + t.text.length) := by
    rw [h.drop (by omega)]
    intro hmem
    exact hw.no_zero (List.mem_of_mem_drop hmem)
  obtain ⟨o, ho, hinverse, hname, hoptb, hnext⟩ := optionTag_eq hname inverse hsrc hzero
  refine ⟨o, ho, hinverse, hname, ?_⟩
  have hopos : o.next = (bytes (A ++ [tagPiece t (optionText k inverse name)])).length := by
    simp [hnext, h.opos, tagPiece, Nat.add_assoc]
  have hleft := h.fuel_left (B := [tagPiece t (optionText k inverse name)]) nofun hfuel
  have hat := h.turn (B := [tagPiece t (optionText k inverse name)]) nofun hleft
    (List.length_set : (c.s.src.set o.optb 0).length = _) (List.drop_set_of_lt (hopos ▸ hoptb))
  rwa [← hopos] at hat

end Steps

def defined (file : List UInt8) (name : Text) : Bool := option_match name (some file) = 1

theorem holds_iff (file : List UInt8) (o : OptionTag) :
    o.holds (some file) = true ↔ defined file o.name ≠ o.inverse := by
  simp only [OptionTag.holds, defined, option_match]
  split <;> cases o.inverse <;> decide

section Options

variable {page : Page} (hw : WellTagged (pieces page)) (file : List UInt8)
  {A C : List (Piece Tag.text)} {c : Config} {oend : Nat}
include hw

omit hw in
/-- The loop that counts the tags comes to the one that closes the block. -/
theorem At.blockEnd_closing (hw : WellTagged (pieces page)) {k : Syntax} {option : Text}
    {inside : List (Piece Tag.text)} (h : At page A (tagPiece (.optBegin k) option :: inside) c)
    (hoption : option ≠ []) :
    blockEnd c.s.src (Tag.optBegin k).text (Tag.optEnd k).text (c.s.src.length + 1)
        (c.s.opos + (Tag.optBegin k).text.length) (c.s.opos + (Tag.optBegin k).text.length) =
      closing (.optBegin k) (.optEnd k) 0
        ((bytes A).length + (tagPiece (.optBegin k) option).bytes.length) inside := by
  have hopos := h.opos
  have hadd := h.opos_add
  have hlength := h.length
  have hlen : (tagPiece (.optBegin k) option).bytes.length =
      (Tag.optBegin k).text.length + option.length := List.length_append
  have hpos := List.length_pos_of_ne_nil hoption
  have htag := List.length_pos_of_ne_nil (Tag.optBegin k).text_ne_nil
  rw [bytes_cons, List.length_append] at hadd
  -- Both searches start behind the opening tag, where the page is as it was.
  have hsearch : ∀ t m, c.s.opos + (Tag.optBegin k).text.length ≤ m → strstrFrom c.s.src m t.text =
      (starts t ((bytes A).length + (tagPiece (.optBegin k) option).bytes.length) inside).find?
        (m ≤ ·) := by
    intro t m hm
    rw [strstrFrom_eq (hw.only_tags t) t.text_ne_nil hw.no_zero (h.drop (by omega)), h.split,
      find?_starts_after t A _ _ (by omega)]
  have hbehind : ∀ t, ∀ n ∈ starts t ((bytes A).length +
      (tagPiece (.optBegin k) option).bytes.length) inside,
      c.s.opos + (Tag.optBegin k).text.length ≤ n := by
    intro t n hn
    have hle := (starts_bounds hn).1
    omega
  have hturns := starts_length_le (.optEnd k)
    ((bytes A).length + (tagPiece (.optBegin k) option).bytes.length) inside
  have hlong : ∀ pc ∈ inside, pc.tag = some (.optBegin k) →
      (Tag.optBegin k).text.length < pc.bytes.length := by
    intro pc hpc
    exact pieces_long page k pc (h.split ▸ List.mem_append_right A (List.mem_cons_of_mem _ hpc))
  rw [blockEnd_eq_pick (Tag.text_ne_nil _) (Tag.text_ne_nil _) (starts_pairwise _ _ _)
    (starts_pairwise _ _ _) (hbehind _) (hbehind _) (hsearch _) (hsearch _) (by omega)]
  exact @pick_starts _ Tag.text _ (.optBegin k) (.optEnd k) nofun inside hlong _ [] nofun

omit hw in
theorem At.blockEnd (hw : WellTagged (pieces page)) {k : Syntax} {option : Text} {body : Page}
    (h : At page A (tagPiece (.optBegin k) option ::
      (pieces body ++ tagPiece (.optEnd k) [] :: C)) c)
    (hoption : option ≠ []) :
    WebComp.blockEnd c.s.src (Tag.optBegin k).text (Tag.optEnd k).text (c.s.src.length + 1)
        (c.s.opos + (Tag.optBegin k).text.length) (c.s.opos + (Tag.optBegin k).text.length) =
      some (bytes (A ++ [tagPiece (.optBegin k) option] ++ pieces body)).length := by
  rw [h.blockEnd_closing hw hoption, closing_pieces, closing_end _ rfl]
  simp [pageText, Nat.add_assoc]

theorem step_aopt {inverse : Bool} {name : Text} (hname : NameEnds .html name)
    (h : At page A (tagPiece .pageOpt (optionText .html inverse name) :: C) c)
    (hoend : (bytes (A ++ [tagPiece .pageOpt (optionText .html inverse name)])).length ≤ oend) :
    if defined file name = inverse then ∃ s, c.run (some file) oend = some (-1, s)
    else ∃ c', At page (A ++ [tagPiece .pageOpt (optionText .html inverse name)]) C c' ∧
      Gets (some file) oend c c' [] := by
  obtain ⟨fuel, hfuel⟩ := h.fuel_eq
  obtain ⟨o, ho, rfl, rfl, hat⟩ := h.option hw hname hfuel
  have hlt := Nat.lt_of_lt_of_le
    (h.opos_lt (B := [tagPiece .pageOpt (optionText .html o.inverse o.name)]) nofun) hoend
  have hfind := find_test_some (h.split ▸ hw) rfl
    (by decide : (Tag.pageOpt, Action.pageOption (tailText .html)) ∈ scanned)
  have hrun : c.run (some file) oend =
      if o.holds (some file) then scan (some file) fuel oend 0 ((c.s.copy c.clen).cut o)
      else some (-1, (c.s.copy c.clen).cut o) := by
    rw [Config.run, hfuel, scan, if_pos hlt, h.here, hfind]
    simp only [ho]
  split
  · rename_i hoff
    rw [if_neg (fun hon => (holds_iff file o).mp hon hoff)] at hrun
    exact ⟨_, hrun⟩
  · rename_i hon
    rw [if_pos ((holds_iff file o).mpr hon)] at hrun
    refine ⟨_, hat, hrun, ?_⟩
    rw [shown_zero, List.append_nil]
    rfl

/-- A turn at an OPT block, in terms of the call for its body. -/
theorem run_opt {k : Syntax} {inverse : Bool} {name : Text} {body : Page} (hname : NameEnds k name)
    (h : At page A (tagPiece (.optBegin k) (optionText k inverse name) ::
      (pieces body ++ tagPiece (.optEnd k) [] :: C)) c) (hlt : c.s.opos < oend) :
    ∃ inner : Config, At page (A ++ [tagPiece (.optBegin k) (optionText k inverse name)])
        (pieces body ++ tagPiece (.optEnd k) [] :: C) inner ∧ inner.shown = c.shown ∧
      inner.clen = 0 ∧ c.run (some file) oend =
        if defined file name = inverse then
          scan (some file) inner.fuel oend 0 { inner.s with
            opos := (bytes (A ++ [tagPiece (.optBegin k) (optionText k inverse name)] ++
              pieces body)).length + (Tag.optEnd k).text.length }
        else
          match inner.run (some file) (bytes (A ++ [tagPiece (.optBegin k)
            (optionText k inverse name)] ++ pieces body)).length with
          | none => none
          | some (rc, s) =>
            if rc < 0 then some (-1, s)
            else scan (some file) inner.fuel oend 0 { s with
              opos := (bytes (A ++ [tagPiece (.optBegin k) (optionText k inverse name)] ++
                pieces body)).length + (Tag.optEnd k).text.length } := by
  obtain ⟨fuel, hfuel⟩ := h.fuel_eq
  obtain ⟨o, ho, rfl, rfl, hat⟩ := h.option hw hname hfuel
  have hoption : optionText k o.inverse o.name ≠ [] := by
    cases o.inverse <;> exact List.cons_ne_nil _ _
  have hend := h.blockEnd hw hoption
  have hscan : (Tag.optBegin k, Action.option (tailText k) (Tag.optEnd k).text) ∈ scanned := by
    cases k <;> decide
  have hfind := find_test_some (h.split ▸ hw) rfl hscan
  refine ⟨_, hat, shown_zero _ _, rfl, ?_⟩
  rw [Config.run, hfuel, scan, if_pos hlt, h.here, hfind]
  simp only [hend, ho]
  by_cases hon : defined file o.name = o.inverse
  · rw [if_pos hon, if_neg fun hholds => (holds_iff file o).mp hholds hon]
  · rw [if_neg hon, if_pos ((holds_iff file o).mpr hon)]
    rfl

omit hw in
/-- The scan goes on behind the end of a block. -/
theorem At.behind {B : List (Piece Tag.text)} {e : Piece Tag.text} (h : At page A (B ++ e :: C) c)
    {fuel : Nat} (hfuel : (pageText page).length - (bytes A).length < fuel) :
    At page (A ++ (B ++ [e])) C
      ⟨fuel, 0, { c.s.copy c.clen with opos := (bytes (A ++ B)).length + e.bytes.length }⟩ := by
  have hB : B ++ [e] ≠ [] := List.append_ne_nil_of_right_ne_nil B (List.cons_ne_nil e [])
  have hsplit : B ++ e :: C = (B ++ [e]) ++ C := by rw [List.append_assoc]; rfl
  have hopos : (bytes (A ++ (B ++ [e]))).length = (bytes (A ++ B)).length + e.bytes.length := by
    simp [Nat.add_assoc]
  rw [hsplit] at h
  have hlt := h.opos_lt hB
  have hstart := h.opos
  have hleft : (pageText page).length - (bytes (A ++ (B ++ [e]))).length < fuel := by omega
  have hat := h.turn hB hleft rfl rfl
  rwa [hopos] at hat

theorem step_opt {k : Syntax} {inverse : Bool} {name : Text} {body : Page} (hname : NameEnds k name)
    (hbody : ∀ inner, At page (A ++ [tagPiece (.optBegin k) (optionText k inverse name)])
        (pieces body ++ tagPiece (.optEnd k) [] :: C) inner →
      Leads (some file) page
        (A ++ [tagPiece (.optBegin k) (optionText k inverse name)] ++ pieces body)
        (tagPiece (.optEnd k) [] :: C)
        (bytes (A ++ [tagPiece (.optBegin k) (optionText k inverse name)] ++ pieces body)).length
        inner (body.expand (defined file)))
    (h : At page A (tagPiece (.optBegin k) (optionText k inverse name) ::
      (pieces body ++ tagPiece (.optEnd k) [] :: C)) c) (hlt : c.s.opos < oend) :
    Leads (some file) page
      (A ++ [tagPiece (.optBegin k) (optionText k inverse name)] ++
        (pieces body ++ [tagPiece (.optEnd k) []])) C oend c
      (if defined file name = inverse then some [] else body.expand (defined file)) := by
  obtain ⟨inner, hinner, hshown, hclen, hrun⟩ := run_opt hw file hname h hlt
  have hend : (tagPiece (.optEnd k) []).bytes = (Tag.optEnd k).text := List.append_nil _
  have hfuel := hinner.fuel
  rw [hinner.opos] at hfuel
  by_cases hoff : defined file name = inverse
  · rw [if_pos hoff] at hrun ⊢
    -- The scan goes on from where the option's name was cut, past the body.
    have hat := hinner.behind hfuel
    rw [hclen, Scan.copy_zero, hend] at hat
    refine .on hat ⟨hrun, ?_⟩
    rw [shown_zero, List.append_nil, ← hshown, Config.shown, hclen, Scan.copy_zero]
  · rw [if_neg hoff] at hrun ⊢
    have hleads := hbody inner hinner
    generalize body.expand (defined file) = r at hleads ⊢
    -- A body that is given up takes the page with it.
    cases hleads with
    | off hrun' =>
      rw [hrun'] at hrun
      exact .off hrun
    | @on c' text hat hgets =>
      have hreturn := hat.run_end (some file)
      have hleft : (pageText page).length - (bytes (A ++ [tagPiece (.optBegin k)
          (optionText k inverse name)] ++ pieces body)).length < inner.fuel := by
        rw [bytes_append, List.length_append]
        omega
      have hafter := At.behind (B := []) hat hleft
      rw [List.append_nil, List.nil_append, List.append_assoc, hend] at hafter
      rw [hgets.run, hreturn] at hrun
      refine .on hafter ⟨hrun, ?_⟩
      rw [shown_zero, ← hshown]
      exact hgets.shown

end Options

/-! ### Whole pages -/

section Whole

variable {page : Page} (hw : WellTagged (pieces page)) (file : List UInt8)
include hw

/-- A part of the page leads to its expansion, whatever stands before and behind it. -/
theorem scan_page {p : Page} (hproper : p.Proper) {A C : List (Piece Tag.text)} {c : Config}
    {oend : Nat} (h : At page A (pieces p ++ C) c) (hoend : (bytes (A ++ pieces p)).length ≤ oend) :
    Leads (some file) page (A ++ pieces p) C oend c (p.expand (defined file)) := by
  induction p generalizing A C c oend with
  | empty =>
    rw [pieces, List.append_nil]
    exact .on h ⟨rfl, (List.append_nil _).symm⟩
  | char ch rest ih =>
    have hsplit : A ++ pieces (.char ch rest) = A ++ [charPiece ch] ++ pieces rest := by
      simp [pieces]
    rw [hsplit] at hoend ⊢
    have hfirst : (bytes (A ++ [charPiece ch])).length ≤ oend :=
      bytes_length_le_of_append hoend
    obtain ⟨c', hat, hgets⟩ := step_char hw (some file) h hfirst
    exact Leads.bind (.on hat hgets) fun c' hat => ih hproper hat hoend
  | block b body rest ihbody ihrest =>
    -- The body is skipped, whatever it holds.
    obtain ⟨hbody, -, hrest⟩ := hproper
    have hsplit : A ++ pieces (.block b body rest) =
        A ++ tagPiece (.blockBegin b) [] :: (pieces body ++ [tagPiece (.blockEnd b) []]) ++
          pieces rest := by
      simp [pieces]
    rw [hsplit] at hoend ⊢
    rw [pieces, List.cons_append, List.append_assoc, List.cons_append] at h
    have hfirst : (bytes (A ++ tagPiece (.blockBegin b) [] ::
        (pieces body ++ [tagPiece (.blockEnd b) []]))).length ≤ oend :=
      bytes_length_le_of_append hoend
    obtain ⟨c', hat, hgets⟩ := step_block hw (some file) hbody h hfirst
    exact Leads.skip hgets (ihrest hrest hat hoend)
  | real k body rest ihbody ihrest =>
    obtain ⟨hbody, hrest⟩ := hproper
    have hsplit : A ++ pieces (.real k body rest) =
        A ++ [tagPiece (.realBegin k) []] ++ pieces body ++ [tagPiece (.realEnd k) []] ++
          pieces rest := by
      simp [pieces]
    rw [hsplit] at hoend ⊢
    rw [pieces, List.cons_append, List.append_assoc, List.cons_append] at h
    have hclosed := bytes_length_le_of_append hoend
    have hinside := bytes_length_le_of_append hclosed
    have hstep := step_real hw (some file) (fun inner hat => ihbody hbody hat hinside) h hclosed
    exact Leads.bind hstep fun c' hat => ihrest hrest hat hoend
  | opt k inverse name body rest ihbody ihrest =>
    obtain ⟨hname, hbody, hrest⟩ := hproper
    have hsplit : A ++ pieces (.opt k inverse name body rest) =
        A ++ [tagPiece (.optBegin k) (optionText k inverse name)] ++
          (pieces body ++ [tagPiece (.optEnd k) []]) ++ pieces rest := by
      simp [pieces]
    rw [hsplit] at hoend ⊢
    rw [pieces, List.cons_append, List.append_assoc, List.cons_append] at h
    have hfirst := bytes_length_le_of_append (bytes_length_le_of_append hoend)
    have hlt := Nat.lt_of_lt_of_le (h.opos_lt (List.cons_ne_nil _ _)) hfirst
    have hstep := step_opt hw file hname
      (fun inner hat => ihbody hbody hat (Nat.le_refl _)) h hlt
    exact Leads.bind hstep fun c' hat => ihrest hrest hat hoend
  | aopt inverse name rest ih =>
    obtain ⟨hname, hrest⟩ := hproper
    have hsplit : A ++ pieces (.aopt inverse name rest) =
        A ++ [tagPiece .pageOpt (optionText .html inverse name)] ++ pieces rest := by
      simp [pieces]
    rw [hsplit] at hoend ⊢
    have hfirst : (bytes (A ++ [tagPiece .pageOpt (optionText .html inverse name)])).length ≤
        oend :=
      bytes_length_le_of_append hoend
    have hstep := step_aopt hw file hname h hfirst
    rw [Page.expand]
    split at hstep
    · rename_i hoff
      obtain ⟨s, hrun⟩ := hstep
      rw [if_pos hoff]
      exact .off hrun
    · rename_i hon
      obtain ⟨c', hat, hgets⟩ := hstep
      rw [if_neg hon]
      exact Leads.skip hgets (ih hrest hat hoend)

end Whole

theorem scan_proper (file : List UInt8) {p : Page} (hproper : p.Proper)
    (hw : WellTagged (pieces p)) :
    Leads (some file) p (pieces p) [] (pageText p).length
      ⟨(pageText p).length + (pageText p).length + 1, 0, ⟨pageText p, 0, [], 0⟩⟩
      (p.expand (defined file)) := by
  refine scan_page hw file hproper (A := []) ?_ (Nat.le_refl _)
  refine ⟨by rw [List.nil_append, List.append_nil], rfl, Nat.le_refl _, rfl, rfl, rfl, ?_⟩
  exact Nat.lt_succ_of_le (Nat.le_trans (Nat.sub_le _ _) (Nat.le_add_right _ _))

/-- `proc_tag` writes the expansion of the page and reports its length, or gives the page up
where it has no expansion. -/
theorem proc_tag_expands (file : List UInt8) {p : Page} (hproper : p.Proper)
    (hw : WellTagged (pieces p)) :
    ∃ rc s, proc_tag (some file) ⟨pageText p, 0, [], 0⟩ (pageText p).length = some (rc, s) ∧
      match p.expand (defined file) with
      | none => rc = -1
      | some text => rc = 0 ∧ s.out = text ∧ s.nlen = text.length := by
  have hleads := scan_proper file hproper hw
  have hstart : (0 : Nat) + (pageText p).length = (pageText p).length := Nat.zero_add _
  simp only [proc_tag, hstart]
  generalize p.expand (defined file) = r at hleads ⊢
  cases hleads with
  | off hrun => exact ⟨-1, _, hrun, rfl⟩
  | on hat hgets =>
    have hend := hat.run_end (some file)
    refine ⟨0, _, hgets.run.trans hend, rfl, ?_, ?_⟩
    · exact hgets.shown
    · rw [hat.copy_nlen]
      exact congrArg List.length hgets.shown

/-- The page `a<!--REALbREAL-->/*DEMO*/c/*END_DEMO*//*OPT#A*/d/*OPT!#A*/e/*END_OPT*//*END_OPT*/`
and behind it `<!--AOPT#A-->f`. -/
def samplePage : Page :=
  let inner : Page := .char 0x64 (.opt .js true (ascii "A") (.char 0x65 .empty) .empty)
  let options : Page := .opt .js false (ascii "A") inner
    (.aopt false (ascii "A") (.char 0x66 .empty))
  .char 0x61 (.real .html (.char 0x62 .empty) (.block (.demo .js) (.char 0x63 .empty) options))

theorem proc_tag_expands_sample :
    ∃ rc s, proc_tag (some (ascii "#define A\n")) ⟨pageText samplePage, 0, [], 0⟩
        (pageText samplePage).length = some (rc, s) ∧
      rc = 0 ∧ s.out = ascii "abdf" ∧ s.nlen = 4 := by
  have hexpand : samplePage.expand (defined (ascii "#define A\n")) = some (ascii "abdf") := by
    decide +kernel
  obtain ⟨rc, s, hrun, hout⟩ :=
    proc_tag_expands (ascii "#define A\n") (p := samplePage) (by decide) (by decide +kernel)
  rw [hexpand] at hout
  exact ⟨rc, s, hrun, hout⟩

/-- `proc_fake` replaces the block by the expansion, unless the page is given up. -/
theorem proc_fake_expands (file : List UInt8) {p : Page} (hproper : p.Proper)
    (hw : WellTagged (pieces p)) (hne : pageText p ≠ []) :
    proc_fake (some file) (pageText p) =
      some ((p.expand (defined file)).map fun text => (text, text.length)) := by
  have hleads := scan_proper file hproper hw
  have hstart : (0 : Nat) + (pageText p).length = (pageText p).length := Nat.zero_add _
  simp only [proc_fake, if_neg hne, proc_tag, hstart]
  generalize p.expand (defined file) = r at hleads ⊢
  cases hleads with
  | off hrun =>
    rw [Config.run] at hrun
    rw [hrun]
    rfl
  | on hat hgets =>
    have hrun := hgets.run.trans (hat.run_end (some file))
    have hout := hgets.shown
    rw [Config.run] at hrun
    rw [Config.shown] at hout
    rw [hrun, Option.map_some, Option.map_some, if_neg (Int.lt_irrefl 0), hat.copy_nlen, hout]
    rfl

end AksFirmware.PageExpansion
