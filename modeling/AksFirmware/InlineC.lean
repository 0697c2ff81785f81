import AksFirmware.WebComp
import Mathlib.Algebra.GroupWithZero.Nat
import Mathlib.Data.List.Chain

/-!
# Inline C

`compile` of `webcomp_sin.c` turns a processed page into three streams: the text goes to
the data file, `<% %>` code goes into the page function between the calls that write the
text, and `<%+ +%>` code goes to the head of the file.

`inline_c_right_iff` says which pages come out right.  It takes a page apart by a grammar
of its own (`Splits`), which admits every section that the code takes for terminated.
-/

namespace AksFirmware.InlineC

open ByteMemory CText WebComp

/-! ### The compiler -/

/-- What is printed to `c1_outfp`: a call of `WEB_write_blk`, or code. -/
inductive Item where
  | write_blk (offset length : Nat)
  | code (s : Text)

structure Output where
  dbg_outfp : Text
  c1_outfp : List Item
  c_outfp : List Text

/-- `write_array`, and the call for what it wrote. -/
def Output.block (o : Output) (outbytes : Nat) (s : Text) : Output :=
  { o with
    dbg_outfp := o.dbg_outfp ++ s
    c1_outfp := o.c1_outfp ++ [.write_blk outbytes s.length] }

def Output.inline (o : Output) (s : Text) : Output :=
  { o with c1_outfp := o.c1_outfp ++ [.code s] }

def Output.outside (o : Output) (s : Text) : Output := { o with c_outfp := o.c_outfp ++ [s] }

/-- The condition of the loop: where the next section starts. -/
def nextSection (proc_blk : List UInt8) (last : Nat) : Option Nat :=
  if (proc_blk[last]?).getD 0 = 0 then none else strstrFrom proc_blk last (ascii "<%")

/-- The rest of the text, up to its end. -/
def restBlock (proc_blk : List UInt8) (last outbytes : Nat) (o : Output) : Output :=
  if (proc_blk[last]?).getD 0 = 0 then o
  else o.block outbytes ((proc_blk.drop last).takeWhile (· ≠ 0))

/-- The loop over the sections, and whether it got to the end of the page.  Each turn moves
`last` on.  The outcome is undefined when code of a negative length is written. -/
def sections : Nat → List UInt8 → Nat → Nat → Output → Option (Bool × Output)
  | 0, _, _, _, _ => none
  | turns + 1, proc_blk, last, outbytes, o =>
    match nextSection proc_blk last with
    | none => some (true, restBlock proc_blk last outbytes o)
    | some next =>
      let (o, outbytes) :=
        if next > last then
          (o.block outbytes ((proc_blk.drop last).take (next - last)), outbytes + (next - last))
        else (o, outbytes)
      if proc_blk[next + 2]? = some 0x2b then
        let next := next + 3
        match strstrFrom proc_blk next (ascii "%>") with
        | none => some (false, o)
        | some endp =>
          if proc_blk[endp - 1]? ≠ some 0x2b then some (false, o)
          else
            let endp := endp - 1
            if endp < next then none
            else
              sections turns (proc_blk.set endp 0) (endp + 3) outbytes
                (o.outside ((proc_blk.drop next).take (endp - next)))
      else
        let next := next + 2
        match strstrFrom proc_blk next (ascii "%>") with
        | none => some (false, o)
        | some endp =>
          sections turns (proc_blk.set endp 0) (endp + 2) outbytes
            (o.inline ((proc_blk.drop next).take (endp - next)))

/-- What `proc_cgi` looks for. -/
inductive Cgi where
  | none
  | unended
  | block (body : Text)

def Cgi.isBlock : Cgi → Bool
  | .block _ => true
  | _ => false

def findCgi (page : List UInt8) : Cgi :=
  match (List.range page.length).find? fun k => DOCGI_BEGIN_TAG.isPrefixOf (page.drop k) with
  | none => .none
  | some start =>
    match strstrFrom page start DOCGI_END_TAG with
    | none => .unended
    | some blk_end =>
      let body := start + DOCGI_BEGIN_TAG.length
      .block ((page.drop body).take (blk_end - body))

/-- `do_cgi`, when `newblk` says whether there is memory and `cgifp` whether `cgi_list` can be
opened.  Behind the function `free` is given a pointer into the block, and the outcome is
undefined. -/
def proc_cgi (newblk cgifp : Bool) (page : List UInt8) : Option Bool :=
  match findCgi page with
  | .none => some false
  | .unended => some false
  | .block _ => if newblk ∧ ¬ cgifp then some false else none

/-- The branch for a type of file with inline C; `some none` when `proc_fake` gives the page
up. -/
def inline_c (optfile : Option (List UInt8)) (page : List UInt8) :
    Option (Option (Bool × Output)) :=
  match proc_fake optfile page with
  | none => none
  | some none => some none
  | some (some (proc_blk, _)) =>
    (sections (proc_blk.length + 1) proc_blk 0 0 ⟨[], [], []⟩).map some

/-- `compile` from `proc_cgi` on, for a type of file with inline C and with memory for every
block. -/
def compile (cgifp : Bool) (optfile : Option (List UInt8)) (page : List UInt8) :
    Option (Option (Bool × Output)) :=
  (proc_cgi true cgifp page).bind fun _ => inline_c optfile page

inductive Piece where
  | text (s : Text)
  | inline (code : Text)
  | outside (code : Text)
  /-- A section whose two `+` are the same character. -/
  | joined
deriving DecidableEq

def Piece.source : Piece → Text
  | .text s => s
  | .inline code => ascii "<%" ++ code ++ ascii "%>"
  | .outside code => ascii "<%+" ++ code ++ ascii "+%>"
  | .joined => ascii "<%+%>"

def Piece.isText : Piece → Bool
  | .text _ => true
  | _ => false

/-- A section ends at the first `%>` behind its start, and text holds no start. -/
def Piece.WellFormed : Piece → Prop
  | .text s => s ≠ [] ∧ ¬ ascii "<%" <:+: s
  | .inline code => code.head? ≠ some 0x2b ∧ ¬ ascii "%>" <:+: code
  | .outside code => ¬ ascii "%>" <:+: code
  | .joined => True

instance : (p : Piece) → Decidable p.WellFormed
  | .text s => inferInstanceAs (Decidable (s ≠ [] ∧ ¬ ascii "<%" <:+: s))
  | .inline code => inferInstanceAs (Decidable (code.head? ≠ some 0x2b ∧ ¬ ascii "%>" <:+: code))
  | .outside code => inferInstanceAs (Decidable (¬ ascii "%>" <:+: code))
  | .joined => inferInstanceAs (Decidable True)

/-- The page is made of these pieces: its sections are all terminated. -/
structure Splits (page : Text) (pieces : List Piece) : Prop where
  page_eq : page = pieces.flatMap Piece.source
  well_formed : ∀ p ∈ pieces, p.WellFormed
  texts_apart : pieces.IsChain fun p q => p.isText = true → q.isText = false

/-! ### What should come out -/

def Piece.onPage : Piece → Text
  | .text s => s
  | _ => []

def Piece.inFunction : Piece → Option Piece
  | .outside _ => none
  | p => some p

def Piece.inHead : Piece → Option Text
  | .outside code => some code
  | _ => none

/-- The piece that an item stands for, its block looked up in the data file. -/
def Item.read (dbg : Text) : Item → Piece
  | .write_blk offset length => .text ((dbg.drop offset).take length)
  | .code s => .inline s

def Output.blocks (o : Output) : List (Nat × Nat) :=
  o.c1_outfp.filterMap fun
    | .write_blk offset length => some (offset, length)
    | .code _ => none

/-- Each block starts where the ones before it end. -/
def Contiguous (blocks : List (Nat × Nat)) : Prop :=
  ∀ before b after, blocks = before ++ b :: after → b.1 = (before.map Prod.snd).sum

/-- The streams are right: the calls go through the data file without a gap, they give the
text of the page, with the code of each section between the blocks it stands between,
and the code of the other sections is at the head. -/
structure Renders (o : Output) (pieces : List Piece) : Prop where
  contiguous : Contiguous o.blocks
  total : (o.blocks.map Prod.snd).sum = o.dbg_outfp.length
  followed : (o.blocks.flatMap fun b => (o.dbg_outfp.drop b.1).take b.2) =
    pieces.flatMap Piece.onPage
  in_order : o.c1_outfp.map (Item.read o.dbg_outfp) = pieces.filterMap Piece.inFunction
  head : o.c_outfp = pieces.filterMap Piece.inHead

/-! ### The pieces one by one -/

/-- The output of one more piece. -/
def Output.piece (o : Output) : Piece → Output
  | .text s => o.block o.dbg_outfp.length s
  | .inline code => o.inline code
  | .outside code => o.outside code
  | .joined => o

/-- Every call stays within the data file. -/
def Output.Inside (o : Output) : Prop := ∀ b ∈ o.blocks, b.1 + b.2 ≤ o.dbg_outfp.length

theorem blocks_block (o : Output) (outbytes : Nat) (s : Text) :
    (o.block outbytes s).blocks = o.blocks ++ [(outbytes, s.length)] := by
  simp [Output.blocks, Output.block]

theorem blocks_inline (o : Output) (s : Text) : (o.inline s).blocks = o.blocks := by
  simp [Output.blocks, Output.inline]

/-- A block that was written is not changed by what is written behind it. -/
theorem block_append {dbg : Text} {a n : Nat} (h : a + n ≤ dbg.length) (s : Text) :
    ((dbg ++ s).drop a).take n = (dbg.drop a).take n := by
  have hroom : n ≤ (dbg.drop a).length := by
    rw [List.length_drop]
    omega
  rw [List.drop_append_of_le_length (by omega), List.take_append_of_le_length hroom]

theorem contiguous_concat {blocks : List (Nat × Nat)} (h : Contiguous blocks) {b : Nat × Nat}
    (hb : b.1 = (blocks.map Prod.snd).sum) : Contiguous (blocks ++ [b]) := by
  intro before c after hcut
  rcases List.eq_nil_or_concat after with rfl | ⟨after, d, rfl⟩
  · obtain ⟨rfl, hc⟩ := List.append_inj' hcut rfl
    obtain rfl := (List.cons.inj hc).1
    exact hb
  · rw [List.concat_eq_append, ← List.cons_append, ← List.append_assoc] at hcut
    exact h before c after (List.append_inj' hcut rfl).1

theorem read_append {o : Output} (h : o.Inside) (s : Text) :
    o.c1_outfp.map (Item.read (o.dbg_outfp ++ s)) = o.c1_outfp.map (Item.read o.dbg_outfp) := by
  apply List.map_congr_left
  intro item hitem
  cases item with
  | code s' => rfl
  | write_blk offset length =>
    have hmem : (offset, length) ∈ o.blocks := List.mem_filterMap.mpr ⟨_, hitem, rfl⟩
    rw [Item.read, Item.read, block_append (h _ hmem)]

theorem followed_append {o : Output} (h : o.Inside) (s : Text) :
    (o.blocks.flatMap fun b => ((o.dbg_outfp ++ s).drop b.1).take b.2) =
      o.blocks.flatMap fun b => (o.dbg_outfp.drop b.1).take b.2 := by
  rw [List.flatMap_def, List.flatMap_def,
    List.map_congr_left fun b hb => block_append (h b hb) s]

theorem renders_text {o : Output} {pieces : List Piece} (h : Renders o pieces) (hin : o.Inside)
    (s : Text) :
    Renders (o.piece (.text s)) (pieces ++ [.text s]) ∧ (o.piece (.text s)).Inside := by
  have hblocks : (o.piece (.text s)).blocks = o.blocks ++ [(o.dbg_outfp.length, s.length)] :=
    blocks_block o _ s
  have hdbg : (o.piece (.text s)).dbg_outfp = o.dbg_outfp ++ s := rfl
  have hc1 : (o.piece (.text s)).c1_outfp =
      o.c1_outfp ++ [.write_blk o.dbg_outfp.length s.length] := rfl
  refine ⟨⟨?_, ?_, ?_, ?_, ?_⟩, fun b hb => ?_⟩
  · rw [hblocks]
    exact contiguous_concat h.contiguous h.total.symm
  · rw [hblocks, hdbg, List.map_append, List.sum_append, h.total, List.length_append]
    simp
  · rw [hblocks, hdbg, List.flatMap_append, List.flatMap_append, followed_append hin, h.followed]
    simp [Piece.onPage]
  · rw [hc1, hdbg, List.map_append, read_append hin, h.in_order, List.filterMap_append]
    simp [Item.read, Piece.inFunction]
  · rw [List.filterMap_append, ← h.head]
    simp [Output.piece, Output.block, Piece.inHead]
  · rw [hblocks, List.mem_append, List.mem_singleton] at hb
    rw [hdbg, List.length_append]
    rcases hb with hb | rfl
    · exact Nat.le_add_right_of_le (hin b hb)
    · exact le_rfl

theorem renders_inline {o : Output} {pieces : List Piece} (h : Renders o pieces) (code : Text) :
    Renders (o.piece (.inline code)) (pieces ++ [.inline code]) := by
  have hblocks : (o.piece (.inline code)).blocks = o.blocks := blocks_inline o code
  have hdbg : (o.piece (.inline code)).dbg_outfp = o.dbg_outfp := rfl
  refine ⟨?_, ?_, ?_, ?_, ?_⟩
  · rw [hblocks]
    exact h.contiguous
  · rw [hblocks, hdbg, h.total]
  · rw [hblocks, hdbg, List.flatMap_append, h.followed]
    simp [Piece.onPage]
  · rw [hdbg, List.filterMap_append, ← h.in_order]
    simp [Output.piece, Output.inline, Item.read, Piece.inFunction]
  · rw [List.filterMap_append, ← h.head]
    simp [Output.piece, Output.inline, Piece.inHead]

theorem renders_outside {o : Output} {pieces : List Piece} (h : Renders o pieces) (code : Text) :
    Renders (o.piece (.outside code)) (pieces ++ [.outside code]) := by
  refine ⟨h.contiguous, h.total, ?_, ?_, ?_⟩
  · rw [List.flatMap_append, ← h.followed]
    simp [Output.piece, Output.outside, Output.blocks, Piece.onPage]
  · rw [List.filterMap_append, ← h.in_order]
    simp [Output.piece, Output.outside, Piece.inFunction]
  · rw [List.filterMap_append, ← h.head]
    simp [Output.piece, Output.outside, Piece.inHead]

/-- Piece after piece the streams come out right. -/
theorem renders_pieces {pieces : List Piece} (hjoined : .joined ∉ pieces) :
    Renders (pieces.foldl Output.piece ⟨[], [], []⟩) pieces ∧
      (pieces.foldl Output.piece ⟨[], [], []⟩).Inside := by
  induction pieces using List.reverseRecOn with
  | nil =>
    have hnone : (⟨[], [], []⟩ : Output).blocks = [] := rfl
    refine ⟨⟨fun before b after hcut => ?_, rfl, rfl, rfl, rfl⟩, ?_⟩
    · simp [hnone] at hcut
    · simp [Output.Inside, hnone]
  | append_singleton pieces p ih =>
    rw [List.mem_append, not_or] at hjoined
    obtain ⟨hrenders, hin⟩ := ih hjoined.1
    rw [List.foldl_append, List.foldl_cons, List.foldl_nil]
    cases p with
    | text s => exact renders_text hrenders hin s
    | inline code =>
      refine ⟨renders_inline hrenders code, fun b hb => hin b ?_⟩
      rwa [Output.piece, blocks_inline] at hb
    | outside code => exact ⟨renders_outside hrenders code, hin⟩
    | joined => exact absurd List.mem_cons_self hjoined.2

/-! ### The scan -/

/-- What is left at `last` is `t`, up to the end of the text. -/
structure Rest (proc_blk : List UInt8) (last : Nat) (t : Text) : Prop where
  clean : (0 : UInt8) ∉ t
  split : ∃ tail, proc_blk.drop last = t ++ tail ∧ (tail = [] ∨ ∃ more, tail = 0 :: more)

theorem open_tag : ascii "<%" = [0x3c, 0x25] := by decide

theorem close_tag : ascii "%>" = [0x25, 0x3e] := by decide

theorem open_outside : ascii "<%+" = ascii "<%" ++ [0x2b] := by decide

theorem close_outside : ascii "+%>" = 0x2b :: ascii "%>" := by decide

theorem open_close_joined : ascii "<%+%>" = ascii "<%+" ++ ascii "%>" := by decide

section Scan

variable {proc_blk : List UInt8} {last : Nat} {s t : Text}

theorem Rest.drop (h : Rest proc_blk last (s ++ t)) : Rest proc_blk (last + s.length) t := by
  obtain ⟨hclean, tail, hsplit, htail⟩ := h
  refine ⟨fun hmem => hclean (List.mem_append_right s hmem), tail, ?_, htail⟩
  rw [← List.drop_drop, hsplit, List.append_assoc, List.drop_left]

theorem Rest.set (h : Rest proc_blk last t) {i : Nat} (hi : i < last) (b : UInt8) :
    Rest (proc_blk.set i b) last t := by
  obtain ⟨hclean, tail, hsplit, htail⟩ := h
  exact ⟨hclean, tail, by rw [List.drop_set_of_lt hi, hsplit], htail⟩

theorem Rest.take (h : Rest proc_blk last (s ++ t)) :
    (proc_blk.drop last).take s.length = s := by
  obtain ⟨-, tail, hsplit, -⟩ := h
  rw [hsplit, List.append_assoc, List.take_left]

theorem Rest.getElem? (h : Rest proc_blk last t) {k : Nat} (hk : k < t.length) :
    proc_blk[last + k]? = t[k]? := by
  obtain ⟨-, tail, hsplit, -⟩ := h
  rw [← List.getElem?_drop, hsplit, List.getElem?_append_left hk]

theorem Rest.atEnd_iff (h : Rest proc_blk last t) :
    (proc_blk[last]?).getD 0 = 0 ↔ t = [] := by
  obtain ⟨hclean, tail, hsplit, htail⟩ := h
  have hhead : proc_blk[last]? = (t ++ tail).head? := by
    rw [← hsplit, List.head?_drop]
  rw [hhead]
  cases t with
  | nil => rcases htail with rfl | ⟨more, rfl⟩ <;> simp
  | cons c t =>
    have hc : c ≠ 0 := fun heq => hclean (heq ▸ List.mem_cons_self)
    simp [hc]

theorem Rest.head?_iff (h : Rest proc_blk last t) {c : UInt8} (hc : c ≠ 0) :
    proc_blk[last]? = some c ↔ t.head? = some c := by
  obtain ⟨-, tail, hsplit, htail⟩ := h
  rw [← List.head?_drop, hsplit]
  cases t with
  | nil => rcases htail with rfl | ⟨more, rfl⟩ <;> simp [hc.symm]
  | cons d t => simp

theorem Rest.takeWhile (h : Rest proc_blk last t) : (proc_blk.drop last).takeWhile (· ≠ 0) = t := by
  obtain ⟨hclean, tail, hsplit, rfl | ⟨more, rfl⟩⟩ := h
  · rw [hsplit, List.append_nil, takeWhile_eq_self hclean]
  · rw [hsplit, takeWhile_append_zero, takeWhile_eq_self hclean]

/-- The first place of a tag of two characters in what is left. -/
theorem Rest.find {a b : UInt8} (hab : a ≠ b) (h : Rest proc_blk last (s ++ [a, b] ++ t))
    (hs : ¬ [a, b] <:+: s) : strstrFrom proc_blk last [a, b] = some (last + s.length) := by
  obtain ⟨hclean, tail, hsplit, -⟩ := h
  have hzero : (0 : UInt8) ∉ s := fun hmem => hclean (by simp [hmem])
  have hshape : proc_blk.drop last = s ++ a :: b :: (t ++ tail) := by
    rw [hsplit]
    simp
  rw [strstrFrom, hshape, strstrOffset_pair hab hzero hs, Option.map_some]

theorem Rest.find_none {needle : Text} (hne : needle ≠ []) (hzero : (0 : UInt8) ∉ needle)
    (h : Rest proc_blk last t) (ht : ¬ needle <:+: t) : strstrFrom proc_blk last needle = none := by
  obtain ⟨hclean, tail, hsplit, rfl | ⟨more, rfl⟩⟩ := h
  · rw [strstrFrom, hsplit, List.append_nil, strstrOffset_of_not_infix hne ht, Option.map_none]
  · rw [strstrFrom, hsplit, strstrOffset_append_zero hne hzero,
      strstrOffset_of_not_infix hne ht, Option.map_none]

end Scan

/-! ### One turn of the loop -/

/-- The block in front of a section, if there is one. -/
def Output.front (o : Output) (outbytes : Nat) (s : Text) : Output :=
  if s = [] then o else o.block outbytes s

section Turn

variable {proc_blk : List UInt8} {last : Nat} {s t code : Text}

theorem nextSection_eq (h : Rest proc_blk last (s ++ ascii "<%" ++ t)) (hs : ¬ ascii "<%" <:+: s) :
    nextSection proc_blk last = some (last + s.length) := by
  rw [nextSection, if_neg (by rw [h.atEnd_iff, open_tag]; simp)]
  rw [open_tag] at h hs ⊢
  exact h.find (by decide) hs

theorem front_eq (h : Rest proc_blk last (s ++ t)) (outbytes : Nat) (o : Output) :
    (if last + s.length > last then
        (o.block outbytes ((proc_blk.drop last).take s.length), outbytes + s.length)
      else (o, outbytes)) = (o.front outbytes s, outbytes + s.length) := by
  rw [h.take, Output.front]
  cases s with
  | nil => simp
  | cons c s => simp

/-- The place of the closing tag, and the text in front of it. -/
theorem close_eq (h : Rest proc_blk last (code ++ ascii "%>" ++ t))
    (hcode : ¬ ascii "%>" <:+: code) :
    strstrFrom proc_blk last (ascii "%>") = some (last + code.length) := by
  rw [close_tag] at h hcode ⊢
  exact h.find (by decide) hcode

/-- Where the body of a `<%` section starts. -/
theorem inline_open (h : Rest proc_blk last (s ++ (ascii "<%" ++ t))) (hs : ¬ ascii "<%" <:+: s)
    (hplus : t.head? ≠ some 0x2b) :
    nextSection proc_blk last = some (last + s.length) ∧
      proc_blk[last + s.length + 2]? ≠ some 0x2b ∧ Rest proc_blk (last + s.length + 2) t := by
  have hopen := h
  rw [← List.append_assoc] at hopen
  have hbody := hopen.drop
  rw [List.length_append, ← Nat.add_assoc] at hbody
  exact ⟨nextSection_eq hopen hs, mt (hbody.head?_iff (by decide)).mp hplus, hbody⟩

/-- Where the body of a `<%+` section starts. -/
theorem outside_open (h : Rest proc_blk last (s ++ (ascii "<%+" ++ t)))
    (hs : ¬ ascii "<%" <:+: s) :
    nextSection proc_blk last = some (last + s.length) ∧
      proc_blk[last + s.length + 2]? = some 0x2b ∧ Rest proc_blk (last + s.length + 3) t := by
  have hopen : Rest proc_blk last (s ++ ascii "<%" ++ ([0x2b] ++ t)) := by
    simpa [open_outside] using h
  have hplus := hopen.drop
  rw [List.length_append, ← Nat.add_assoc] at hplus
  exact ⟨nextSection_eq hopen hs, (hplus.head?_iff (by decide)).mpr rfl, hplus.drop⟩

theorem sections_inline (hplus : code.head? ≠ some 0x2b) (hcode : ¬ ascii "%>" <:+: code)
    (h : Rest proc_blk last (s ++ ((Piece.inline code).source ++ t)))
    (hs : ¬ ascii "<%" <:+: s) :
    ∃ proc_blk' last', Rest proc_blk' last' t ∧ ∀ turns outbytes o,
      sections (turns + 1) proc_blk last outbytes o =
        sections turns proc_blk' last' (outbytes + s.length)
          ((o.front outbytes s).inline code) := by
  have hsource : Rest proc_blk last (s ++ (ascii "<%" ++ (code ++ ascii "%>" ++ t))) := by
    simpa [Piece.source] using h
  have hhead : (code ++ ascii "%>" ++ t).head? ≠ some 0x2b := by
    cases code with
    | nil => simp [close_tag]
    | cons c code => simpa using hplus
  obtain ⟨hnext, hfirst, hbody⟩ := inline_open hsource hs hhead
  have hclose := close_eq hbody hcode
  have hfront := front_eq (t := (Piece.inline code).source ++ t) h
  have hrest : Rest proc_blk (last + s.length + 2 + code.length + 2) t := by
    have hdrop := hbody.drop
    rwa [List.length_append, ← Nat.add_assoc] at hdrop
  have htake : (proc_blk.drop (last + s.length + 2)).take code.length = code := by
    rw [List.append_assoc] at hbody
    exact hbody.take
  refine ⟨_, _, hrest.set (i := last + s.length + 2 + code.length) (by omega) 0,
    fun turns outbytes o => ?_⟩
  simp only [sections, hnext, hfront, if_neg hfirst, hclose, Nat.add_sub_cancel_left, htake]

theorem sections_outside (hcode : ¬ ascii "%>" <:+: code)
    (h : Rest proc_blk last (s ++ ((Piece.outside code).source ++ t)))
    (hs : ¬ ascii "<%" <:+: s) :
    ∃ proc_blk' last', Rest proc_blk' last' t ∧ ∀ turns outbytes o,
      sections (turns + 1) proc_blk last outbytes o =
        sections turns proc_blk' last' (outbytes + s.length)
          ((o.front outbytes s).outside code) := by
  have hsource : Rest proc_blk last
      (s ++ (ascii "<%+" ++ (code ++ [0x2b] ++ ascii "%>" ++ t))) := by
    simpa [Piece.source, close_outside] using h
  have hend : ¬ ascii "%>" <:+: code ++ [0x2b] := by
    rw [List.infix_concat_iff, not_or, close_tag]
    refine ⟨fun hsuffix => ?_, close_tag ▸ hcode⟩
    obtain ⟨pre, hpre⟩ := hsuffix
    have hlast := congrArg List.getLast? hpre
    simp at hlast
  obtain ⟨hnext, hplus, hbody⟩ := outside_open hsource hs
  have hclose := close_eq hbody hend
  have hfront := front_eq (t := (Piece.outside code).source ++ t) h
  rw [List.length_append, List.length_singleton, ← Nat.add_assoc] at hclose
  have hlast : proc_blk[last + s.length + 3 + code.length]? = some 0x2b := by
    rw [hbody.getElem? (by simp)]
    simp
  have hrest : Rest proc_blk (last + s.length + 3 + code.length + 3) t := by
    have hdrop := hbody.drop
    rwa [List.length_append, List.length_append, ← Nat.add_assoc, ← Nat.add_assoc] at hdrop
  have htake : (proc_blk.drop (last + s.length + 3)).take code.length = code := by
    rw [List.append_assoc, List.append_assoc] at hbody
    exact hbody.take
  refine ⟨_, _, hrest.set (i := last + s.length + 3 + code.length) (by omega) 0,
    fun turns outbytes o => ?_⟩
  have hroom : ¬ last + s.length + 3 + code.length < last + s.length + 3 := by omega
  simp only [sections, hnext, hplus, if_true, hclose, hlast, not_true_eq_false, ne_eq, if_false,
    Nat.add_sub_cancel, if_neg hroom, Nat.add_sub_cancel_left, htake, hfront]

/-- The closing `+` is found in front of the code. -/
theorem sections_joined (h : Rest proc_blk last (s ++ (Piece.joined.source ++ t)))
    (hs : ¬ ascii "<%" <:+: s) (turns outbytes : Nat) (o : Output) :
    sections (turns + 1) proc_blk last outbytes o = none := by
  have hsource : Rest proc_blk last (s ++ (ascii "<%+" ++ ([] ++ ascii "%>" ++ t))) := by
    simpa [Piece.source, open_close_joined] using h
  obtain ⟨hnext, hplus, hbody⟩ := outside_open hsource hs
  have hclose := close_eq hbody (by simp [close_tag])
  have hlast : proc_blk[last + s.length + 3 - 1]? = some 0x2b := hplus
  have hbefore : last + s.length + 3 - 1 < last + s.length + 3 := by omega
  rw [List.length_nil, Nat.add_zero] at hclose
  simp only [sections, hnext, hplus, if_true, hclose, hlast, ne_eq, not_true_eq_false, if_false,
    if_pos hbefore]

theorem sections_section {p : Piece} (hp : p.WellFormed) (hsection : p.isText = false)
    (hjoined : p ≠ .joined) (h : Rest proc_blk last (s ++ (p.source ++ t)))
    (hs : ¬ ascii "<%" <:+: s) :
    ∃ proc_blk' last', Rest proc_blk' last' t ∧ ∀ turns outbytes o,
      sections (turns + 1) proc_blk last outbytes o =
        sections turns proc_blk' last' (outbytes + s.length) ((o.front outbytes s).piece p) := by
  cases p with
  | text s' => cases hsection
  | inline code => exact sections_inline hp.1 hp.2 h hs
  | outside code => exact sections_outside hp h hs
  | joined => exact absurd rfl hjoined

theorem sections_end (h : Rest proc_blk last s) (hs : ¬ ascii "<%" <:+: s)
    (turns outbytes : Nat) (o : Output) :
    sections (turns + 1) proc_blk last outbytes o = some (true, o.front outbytes s) := by
  have hnone : nextSection proc_blk last = none := by
    rw [nextSection, h.find_none (by decide) (by decide) hs]
    exact ite_self none
  simp only [sections, hnone, restBlock, h.atEnd_iff, h.takeWhile, Output.front]

end Turn

/-! ### All turns -/

theorem front_dbg_length (o : Output) (outbytes : Nat) (s : Text) :
    (o.front outbytes s).dbg_outfp.length = o.dbg_outfp.length + s.length := by
  rw [Output.front]
  split
  · rename_i hs
    rw [hs, List.length_nil, Nat.add_zero]
  · exact List.length_append

theorem section_dbg (o : Output) {p : Piece} (hsection : p.isText = false) :
    (o.piece p).dbg_outfp = o.dbg_outfp := by
  cases p with
  | text s => cases hsection
  | inline code => rfl
  | outside code => rfl
  | joined => rfl

/-- The loop takes the pieces one after the other; `s` is text in front of them that has
not been written yet. -/
theorem sections_pieces {pieces : List Piece} (hwf : ∀ p ∈ pieces, p.WellFormed)
    (hapart : pieces.IsChain fun p q => p.isText = true → q.isText = false)
    {proc_blk : List UInt8} {last turns : Nat} {s : Text} {o : Output}
    (h : Rest proc_blk last (s ++ pieces.flatMap Piece.source)) (hs : ¬ ascii "<%" <:+: s)
    (hfront : s ≠ [] → ∀ p ∈ pieces.head?, p.isText = false) (hturns : pieces.length < turns) :
    sections turns proc_blk last o.dbg_outfp.length o =
      if .joined ∈ pieces then none
      else some (true, pieces.foldl Output.piece (o.front o.dbg_outfp.length s)) := by
  induction pieces generalizing proc_blk last turns s o with
  | nil =>
    obtain ⟨turns, rfl⟩ := Nat.exists_eq_succ_of_ne_zero (Nat.ne_zero_of_lt hturns)
    rw [List.flatMap_nil, List.append_nil] at h
    rw [if_neg List.not_mem_nil, sections_end h hs, List.foldl_nil]
  | cons p pieces ih =>
    have hp := hwf p List.mem_cons_self
    have hwf' := fun q hq => hwf q (List.mem_cons_of_mem p hq)
    have hapart' := (List.isChain_cons.mp hapart).2
    obtain ⟨turns, rfl⟩ := Nat.exists_eq_succ_of_ne_zero (Nat.ne_zero_of_lt hturns)
    rw [List.length_cons] at hturns
    rw [List.flatMap_cons] at h
    cases htext : p.isText with
    | true =>
      -- no turn is taken yet: the text waits for the next section
      obtain ⟨s', rfl⟩ : ∃ s', p = .text s' := by
        cases p with
        | text s' => exact ⟨s', rfl⟩
        | _ => cases htext
      have hempty : s = [] := by
        by_contra hne
        have hfalse := hfront hne _ rfl
        rw [htext] at hfalse
        cases hfalse
      subst hempty
      have hnext : s' ≠ [] → ∀ q ∈ pieces.head?, q.isText = false :=
        fun _ q hq => (List.isChain_cons.mp hapart).1 q hq htext
      rw [ih hwf' hapart' (s := s') (o := o) h hp.2 hnext (by omega)]
      simp [Output.front, Output.piece, hp.1]
    | false =>
      by_cases hjoined : p = .joined
      · subst hjoined
        rw [if_pos List.mem_cons_self, sections_joined h hs]
      · obtain ⟨proc_blk', last', hrest, hstep⟩ := sections_section hp htext hjoined h hs
        have hlen : o.dbg_outfp.length + s.length =
            ((o.front o.dbg_outfp.length s).piece p).dbg_outfp.length := by
          rw [section_dbg _ htext, front_dbg_length]
        have hmem : .joined ∈ p :: pieces ↔ .joined ∈ pieces := by
          simp [Ne.symm hjoined]
        rw [hstep, hlen, ih hwf' hapart' (s := []) hrest (by decide) (by simp) (by omega)]
        simp only [hmem, List.foldl_cons, Output.front, if_true]

/-! ### Every page that is accepted -/

theorem splits_text {s : Text} (hs : ¬ ascii "<%" <:+: s) : ∃ pieces, Splits s pieces := by
  by_cases hnil : s = []
  · exact ⟨[], hnil, List.forall_mem_nil _, List.isChain_nil⟩
  · exact ⟨[.text s], by simp [Piece.source], List.forall_mem_singleton.mpr ⟨hnil, hs⟩,
      List.isChain_singleton _⟩

theorem splits_section {s t : Text} {p : Piece} {pieces : List Piece} (hs : ¬ ascii "<%" <:+: s)
    (hp : p.WellFormed) (hsection : p.isText = false) (h : Splits t pieces) :
    ∃ pieces, Splits (s ++ (p.source ++ t)) pieces := by
  obtain ⟨rfl, hwf, hapart⟩ := h
  have hwf' : ∀ q ∈ p :: pieces, q.WellFormed := List.forall_mem_cons.mpr ⟨hp, hwf⟩
  have hapart' : (p :: pieces).IsChain fun p q => p.isText = true → q.isText = false := by
    refine List.isChain_cons.mpr ⟨fun q _ htext => ?_, hapart⟩
    rw [hsection] at htext
    cases htext
  by_cases hnil : s = []
  · exact ⟨p :: pieces, by simp [hnil], hwf', hapart'⟩
  · refine ⟨.text s :: p :: pieces, by simp [Piece.source],
      List.forall_mem_cons.mpr ⟨⟨hnil, hs⟩, hwf'⟩, List.isChain_cons.mpr ⟨?_, hapart'⟩⟩
    intro q hq _
    obtain rfl := Option.some.inj hq
    exact hsection

/-- A section stands at the front of `t`, and the loop gets through what is behind it. -/
def GetsThrough (turns : Nat) (t : Text) (o' : Output) : Prop :=
  ∃ (p : Piece) (rest : Text), t = p.source ++ rest ∧ p.WellFormed ∧ p.isText = false ∧
    ∃ proc_blk last outbytes o, Rest proc_blk last rest ∧
      sections turns proc_blk last outbytes o = some (true, o')

section Accepted

variable {proc_blk : List UInt8} {last turns outbytes : Nat} {s t : Text} {o o' : Output}

/-- What a turn comes to at a section: it gets through it, the section is `<%+%>`, or the loop
ends. -/
inductive SectionTurn (proc_blk : List UInt8) (last : Nat) (t : Text) : Prop
  | passed (p : Piece) (rest : Text) (proc_blk' : List UInt8) (last' : Nat)
    (source : t = p.source ++ rest) (wellFormed : p.WellFormed) (isSection : p.isText = false)
    (rest_eq : Rest proc_blk' last' rest)
    (step : ∀ turns outbytes o, ∃ outbytes' o', sections (turns + 1) proc_blk last outbytes o =
      sections turns proc_blk' last' outbytes' o')
  | joined (rest : Text) (source : t = Piece.joined.source ++ rest)
    (step : ∀ turns outbytes o, sections (turns + 1) proc_blk last outbytes o = none)
  | ends (step : ∀ turns outbytes o, ∃ o',
      sections (turns + 1) proc_blk last outbytes o = some (false, o'))

theorem inline_turn (h : Rest proc_blk last (s ++ (ascii "<%" ++ t)))
    (hs : ¬ ascii "<%" <:+: s) (hplus : t.head? ≠ some 0x2b) :
    SectionTurn proc_blk last (ascii "<%" ++ t) := by
  by_cases hclose : ascii "%>" <:+: t
  · obtain ⟨code, rest, rfl, hcode⟩ := exists_first_pair (close_tag ▸ hclose)
    rw [← close_tag] at h hcode hplus ⊢
    have hsection : ascii "<%" ++ (code ++ ascii "%>" ++ rest) =
        (Piece.inline code).source ++ rest := by
      simp [Piece.source]
    have hplus' : code.head? ≠ some 0x2b := by
      cases code with
      | nil => simp
      | cons c code => simpa using hplus
    rw [hsection] at h ⊢
    obtain ⟨_, _, hrest, hstep⟩ := sections_inline hplus' hcode h hs
    exact .passed (.inline code) rest _ _ rfl ⟨hplus', hcode⟩ rfl hrest
      fun turns outbytes o => ⟨_, _, hstep turns outbytes o⟩
  · obtain ⟨hnext, hfirst, hbody⟩ := inline_open h hs hplus
    have hnone := hbody.find_none (by decide) (by decide) hclose
    exact .ends fun turns outbytes o => by simp [sections, hnext, hfirst, hnone]

theorem outside_turn (h : Rest proc_blk last (s ++ (ascii "<%+" ++ t)))
    (hs : ¬ ascii "<%" <:+: s) : SectionTurn proc_blk last (ascii "<%+" ++ t) := by
  by_cases hclose : ascii "%>" <:+: t
  · obtain ⟨code, rest, rfl, hcode⟩ := exists_first_pair (close_tag ▸ hclose)
    rw [← close_tag] at h hcode ⊢
    rcases List.eq_nil_or_concat code with rfl | ⟨code, c, rfl⟩
    · have hjoined : ascii "<%+" ++ ([] ++ ascii "%>" ++ rest) = Piece.joined.source ++ rest := by
        simp [Piece.source, open_close_joined]
      rw [hjoined] at h ⊢
      exact .joined rest rfl (sections_joined h hs)
    rw [List.concat_eq_append] at h hcode ⊢
    by_cases hc : c = 0x2b
    · subst hc
      have hsection : ascii "<%+" ++ (code ++ [0x2b] ++ ascii "%>" ++ rest) =
          (Piece.outside code).source ++ rest := by
        simp [Piece.source, close_outside]
      have hcode' : ¬ ascii "%>" <:+: code := fun hin =>
        hcode (hin.trans (List.prefix_append code [0x2b]).isInfix)
      rw [hsection] at h ⊢
      obtain ⟨_, _, hrest, hstep⟩ := sections_outside hcode' h hs
      exact .passed (.outside code) rest _ _ rfl hcode' rfl hrest
        fun turns outbytes o => ⟨_, _, hstep turns outbytes o⟩
    · -- a `%>` without its `+` does not end the section, and no other one is looked for
      obtain ⟨hnext, hplus, hbody⟩ := outside_open h hs
      have hend := close_eq hbody hcode
      rw [List.length_append, List.length_singleton, ← Nat.add_assoc] at hend
      have hlast : proc_blk[last + s.length + 3 + code.length]? = some c := by
        rw [hbody.getElem? (by simp)]
        simp
      exact .ends fun turns outbytes o => by simp [sections, hnext, hplus, hend, hlast, hc]
  · obtain ⟨hnext, hplus, hbody⟩ := outside_open h hs
    have hnone := hbody.find_none (by decide) (by decide) hclose
    exact .ends fun turns outbytes o => by simp [sections, hnext, hplus, hnone]

theorem section_turn (h : Rest proc_blk last (s ++ (ascii "<%" ++ t)))
    (hs : ¬ ascii "<%" <:+: s) : SectionTurn proc_blk last (ascii "<%" ++ t) := by
  by_cases hplus : t.head? = some 0x2b
  · obtain ⟨t, rfl⟩ := List.head?_eq_some_iff.mp hplus
    have hsource : ascii "<%" ++ 0x2b :: t = ascii "<%+" ++ t := by simp [open_outside]
    rw [hsource] at h ⊢
    exact outside_turn h hs
  · exact inline_turn h hs hplus

theorem SectionTurn.getsThrough (h : SectionTurn proc_blk last t)
    (hrun : sections (turns + 1) proc_blk last outbytes o = some (true, o')) :
    GetsThrough turns t o' := by
  cases h with
  | passed p rest proc_blk' last' source wellFormed isSection rest_eq step =>
    obtain ⟨outbytes', o'', hstep⟩ := step turns outbytes o
    exact ⟨p, rest, source, wellFormed, isSection, proc_blk', last', outbytes', o'', rest_eq,
      hstep.symm.trans hrun⟩
  | joined rest source step =>
    rw [step] at hrun
    cases hrun
  | ends step =>
    obtain ⟨o'', hstep⟩ := step turns outbytes o
    rw [hstep] at hrun
    cases hrun

theorem splits_of_finished (h : Rest proc_blk last t)
    (hrun : sections turns proc_blk last outbytes o = some (true, o')) :
    ∃ pieces, Splits t pieces := by
  induction turns generalizing proc_blk last outbytes t o with
  | zero => cases hrun
  | succ turns ih =>
    by_cases hopen : ascii "<%" <:+: t
    · obtain ⟨s, rest, rfl, hs⟩ := exists_first_pair (open_tag ▸ hopen)
      rw [← open_tag, List.append_assoc] at h
      rw [← open_tag] at hs
      rw [← open_tag, List.append_assoc]
      obtain ⟨p, rest', hsplit, hp, hsection, _, _, _, _, hrest, hrun'⟩ :=
        (section_turn h hs).getsThrough hrun
      obtain ⟨pieces, hpieces⟩ := ih hrest hrun'
      rw [hsplit]
      exact splits_section hs hp hsection hpieces
    · exact splits_text hopen

end Accepted

/-! ### Whole pages -/

theorem pieces_length_le {pieces : List Piece} (hwf : ∀ p ∈ pieces, p.WellFormed) :
    pieces.length ≤ (pieces.flatMap Piece.source).length := by
  induction pieces with
  | nil => exact Nat.zero_le _
  | cons p pieces ih =>
    have hrest := ih fun q hq => hwf q (List.mem_cons_of_mem p hq)
    have hpos : 0 < p.source.length := by
      cases p with
      | text s => exact List.length_pos_iff.mpr (hwf _ List.mem_cons_self).1
      | inline code => simp [Piece.source, open_tag]
      | outside code => simp [Piece.source, open_outside, open_tag]
      | joined => decide
    rw [List.flatMap_cons, List.length_append, List.length_cons]
    omega

theorem rest_page (proc_blk : List UInt8) : Rest proc_blk 0 (proc_blk.takeWhile (· ≠ 0)) := by
  refine ⟨fun hmem => by simpa using List.mem_takeWhile_imp hmem,
    proc_blk.dropWhile (· ≠ 0), List.takeWhile_append_dropWhile.symm, ?_⟩
  cases hdrop : proc_blk.dropWhile (· ≠ 0) with
  | nil => exact Or.inl rfl
  | cons c more =>
    have hc : c = 0 := by simpa using not_of_dropWhile_cons hdrop
    exact Or.inr ⟨more, by rw [hc]⟩

section Pages

variable {optfile : Option (List UInt8)} {page proc_blk : List UInt8} {len : Nat}

theorem inline_c_pieces {pieces : List Piece}
    (hfake : proc_fake optfile page = some (some (proc_blk, len)))
    (h : Splits (proc_blk.takeWhile (· ≠ 0)) pieces) :
    inline_c optfile page =
      if .joined ∈ pieces then none
      else some (some (true, pieces.foldl Output.piece ⟨[], [], []⟩)) := by
  have hrest := rest_page proc_blk
  have hlen : pieces.length < proc_blk.length + 1 := by
    have hle := pieces_length_le h.well_formed
    have htake := (List.takeWhile_sublist (l := proc_blk) (fun c => decide (c ≠ 0))).length_le
    rw [← h.page_eq] at hle
    omega
  rw [h.page_eq] at hrest
  have hrun := sections_pieces h.well_formed h.texts_apart (s := []) (o := ⟨[], [], []⟩)
    hrest (by decide) (by simp) hlen
  rw [List.length_nil] at hrun
  rw [inline_c, hfake]
  dsimp only
  rw [hrun]
  split <;> rfl

/-- What the branch finishes is right. -/
theorem finished_renders {o : Output} (h : inline_c optfile page = some (some (true, o))) :
    ∃ proc_blk len pieces, proc_fake optfile page = some (some (proc_blk, len)) ∧
      Splits (proc_blk.takeWhile (· ≠ 0)) pieces ∧ Renders o pieces := by
  cases hfake : proc_fake optfile page with
  | none => rw [inline_c, hfake] at h; cases h
  | some result =>
    cases result with
    | none => rw [inline_c, hfake] at h; cases h
    | some processed =>
      obtain ⟨proc_blk, len⟩ := processed
      have hrun := h
      rw [inline_c, hfake] at hrun
      obtain ⟨⟨finished, o'⟩, hsections, heq⟩ := Option.map_eq_some_iff.mp hrun
      obtain ⟨rfl, rfl⟩ := Prod.mk.inj (Option.some.inj heq)
      obtain ⟨pieces, hsplits⟩ := splits_of_finished (rest_page proc_blk) hsections
      refine ⟨proc_blk, len, pieces, rfl, hsplits, ?_⟩
      rw [inline_c_pieces hfake hsplits] at h
      split at h
      · cases h
      · rename_i hjoined
        obtain ⟨-, rfl⟩ := Prod.mk.inj (Option.some.inj (Option.some.inj h))
        exact (renders_pieces hjoined).1

end Pages

def samplePage : Text := ascii "<p><%+ int n; +%><% f(n); %></p>"

end AksFirmware.InlineC
