import AksFirmware.CText
import Mathlib.Data.List.Basic

/-!
# Texts cut into tagged pieces

A text is seen as a run of pieces, some of which start with the text of a tag.  Where a tag
stands nowhere but at the pieces tagged with it, a search for its text finds the next of
these pieces, from wherever in the text it starts.

The end of a nested block can then be found without a stack, from the places of the opening
and of the closing tags alone: `pick` goes through both lists in step, and `pick_starts`
says that it comes to the tag that closes the block.
-/

namespace TaggedText

open ByteMemory CText

variable {τ : Type} {text : τ → Text}

/-- A piece of text.  If it has a tag it starts with the text of the tag. -/
structure Piece (text : τ → Text) where
  tag : Option τ
  bytes : Text
  nonempty : bytes ≠ []
  tagged : ∀ t, tag = some t → text t <+: bytes

def bytes (ps : List (Piece text)) : Text := ps.flatMap Piece.bytes

@[simp] theorem bytes_nil : bytes ([] : List (Piece text)) = [] := rfl

@[simp] theorem bytes_cons (pc : Piece text) (ps : List (Piece text)) :
    bytes (pc :: ps) = pc.bytes ++ bytes ps := rfl

@[simp] theorem bytes_append (ps qs : List (Piece text)) :
    bytes (ps ++ qs) = bytes ps ++ bytes qs := List.flatMap_append

theorem bytes_length_le_of_append {ps qs : List (Piece text)} {n : Nat}
    (h : (bytes (ps ++ qs)).length ≤ n) : (bytes ps).length ≤ n := by
  rw [bytes_append, List.length_append] at h
  exact Nat.le_of_add_right_le h

theorem Piece.length_pos (pc : Piece text) : 0 < pc.bytes.length :=
  List.length_pos_of_ne_nil pc.nonempty

variable [DecidableEq τ]

/-! ### The places of a tag -/

/-- Where the pieces tagged with `t` start, the first piece being at `o`. -/
def starts (t : τ) : Nat → List (Piece text) → List Nat
  | _, [] => []
  | o, pc :: ps =>
    if pc.tag = some t then o :: starts t (o + pc.bytes.length) ps
    else starts t (o + pc.bytes.length) ps

theorem starts_append (t : τ) (o : Nat) (ps qs : List (Piece text)) :
    starts t o (ps ++ qs) = starts t o ps ++ starts t (o + (bytes ps).length) qs := by
  induction ps generalizing o with
  | nil => rfl
  | cons pc ps ih =>
    simp only [List.cons_append, starts, ih, bytes_cons, List.length_append, Nat.add_assoc]
    split <;> rfl

theorem starts_bounds {t : τ} {o n : Nat} {ps : List (Piece text)} (h : n ∈ starts t o ps) :
    o ≤ n ∧ n < o + (bytes ps).length := by
  induction ps generalizing o with
  | nil => cases h
  | cons pc ps ih =>
    have hpos := pc.length_pos
    have hrest : n ∈ starts t (o + pc.bytes.length) ps →
        o ≤ n ∧ n < o + (bytes (pc :: ps)).length := by
      intro hn
      have := ih hn
      simp only [bytes_cons, List.length_append]
      omega
    rw [starts] at h
    split at h
    · rcases List.mem_cons.mp h with rfl | hn
      · simp only [bytes_cons, List.length_append]
        omega
      · exact hrest hn
    · exact hrest h

/-- The text of the tag does stand there. -/
theorem prefix_of_mem_starts {t : τ} {o n : Nat} {ps : List (Piece text)}
    (h : n ∈ starts t o ps) : text t <+: (bytes ps).drop (n - o) := by
  induction ps generalizing o with
  | nil => cases h
  | cons pc ps ih =>
    have hrest : n ∈ starts t (o + pc.bytes.length) ps →
        text t <+: (bytes (pc :: ps)).drop (n - o) := by
      intro hn
      have hle := (starts_bounds hn).1
      have hskip : n - o = pc.bytes.length + (n - (o + pc.bytes.length)) := by omega
      rw [bytes_cons, hskip, ← List.drop_drop, List.drop_left]
      exact ih hn
    rw [starts] at h
    split at h
    · rename_i htag
      rcases List.mem_cons.mp h with rfl | hn
      · rw [Nat.sub_self, List.drop_zero, bytes_cons]
        exact (pc.tagged t htag).trans (List.prefix_append _ _)
      · exact hrest hn
    · exact hrest h

/-- The places are in order, and a tag ends before the next one starts. -/
theorem starts_pairwise (t : τ) (o : Nat) (ps : List (Piece text)) :
    (starts t o ps).Pairwise fun a b => a + (text t).length ≤ b := by
  induction ps generalizing o with
  | nil => exact .nil
  | cons pc ps ih =>
    rw [starts]
    split
    · rename_i htag
      refine List.pairwise_cons.mpr ⟨fun b hb => ?_, ih _⟩
      have hlen := (pc.tagged t htag).length_le
      have hle := (starts_bounds hb).1
      omega
    · exact ih _

theorem starts_length_le (t : τ) (o : Nat) (ps : List (Piece text)) :
    (starts t o ps).length ≤ (bytes ps).length := by
  induction ps generalizing o with
  | nil => exact Nat.le_refl 0
  | cons pc ps ih =>
    have hrest := ih (o + pc.bytes.length)
    have hpos := pc.length_pos
    rw [starts, bytes_cons, List.length_append]
    split
    · rw [List.length_cons]
      omega
    · omega

theorem starts_eq_nil {t : τ} {ps : List (Piece text)} (h : ∀ pc ∈ ps, pc.tag ≠ some t)
    (o : Nat) : starts t o ps = [] := by
  induction ps generalizing o with
  | nil => rfl
  | cons pc ps ih =>
    obtain ⟨hpc, hps⟩ := List.forall_mem_cons.mp h
    rw [starts, if_neg hpc, ih hps]

/-! ### Searching -/

/-- The text of `t` stands nowhere but at the pieces tagged with it. -/
def OnlyTagged (t : τ) (ps : List (Piece text)) : Prop :=
  ∀ n, text t <+: (bytes ps).drop n → n ∈ starts t 0 ps

theorem onlyTagged_iff {t : τ} {ps : List (Piece text)} (hne : text t ≠ []) :
    OnlyTagged t ps ↔
      ∀ n < (bytes ps).length, text t <+: (bytes ps).drop n → n ∈ starts t 0 ps := by
  constructor
  · intro h n _
    exact h n
  · intro h n hpre
    refine h n (Nat.lt_of_not_le fun hle => hne ?_) hpre
    rwa [List.drop_eq_nil_of_le hle, List.prefix_nil] at hpre

/-- At the start of a piece only its own tag stands. -/
theorem OnlyTagged.prefix_iff {t : τ} {ps : List (Piece text)} {pc : Piece text}
    {qs : List (Piece text)} (h : OnlyTagged t (ps ++ pc :: qs)) :
    text t <+: bytes (pc :: qs) ↔ pc.tag = some t := by
  constructor
  · intro hpre
    have hdrop : (bytes (ps ++ pc :: qs)).drop (bytes ps).length = bytes (pc :: qs) := by
      rw [bytes_append, List.drop_left]
    have hmem := h (bytes ps).length (hdrop ▸ hpre)
    rw [starts_append, Nat.zero_add] at hmem
    rcases List.mem_append.mp hmem with hin | hin
    · have := starts_bounds hin
      omega
    · rw [starts] at hin
      split at hin
      · assumption
      · have := starts_bounds hin
        have := pc.length_pos
        omega
  · intro htag
    exact (pc.tagged t htag).trans (List.prefix_append _ _)

theorem head?_starts {t : τ} {ps : List (Piece text)} (h : ∀ pc ∈ ps, pc.tag ≠ some t) (o : Nat)
    {pc : Piece text} (hpc : pc.tag = some t) (qs : List (Piece text)) :
    (starts t o (ps ++ pc :: qs)).head? = some (o + (bytes ps).length) := by
  rw [starts_append, starts_eq_nil h, List.nil_append, starts, if_pos hpc, List.head?_cons]

theorem find?_eq_head? {m : Nat} {l : List Nat} (h : ∀ n ∈ l, m ≤ n) :
    l.find? (m ≤ ·) = l.head? := by
  cases l with
  | nil => rfl
  | cons n l => rw [List.find?_cons_of_pos (by simpa using h n List.mem_cons_self), List.head?_cons]

theorem find?_append_of_lt {m : Nat} {l l' : List Nat} (h : ∀ n ∈ l, n < m) :
    (l ++ l').find? (m ≤ ·) = l'.find? (m ≤ ·) := by
  have hnone : l.find? (m ≤ ·) = none :=
    List.find?_eq_none.mpr fun n hn => by simpa using h n hn
  rw [List.find?_append, hnone, Option.none_or]

/-- A search comes to the next piece with the tag. -/
theorem strstrFrom_eq {t : τ} {ps : List (Piece text)} (honly : OnlyTagged t ps)
    (hne : text t ≠ []) (hzero : (0 : UInt8) ∉ bytes ps) {src : List UInt8} {a : Nat}
    (hsrc : src.drop a = (bytes ps).drop a) :
    strstrFrom src a (text t) = (starts t 0 ps).find? (a ≤ ·) := by
  have hdrop : ∀ n, a ≤ n → src.drop n = (bytes ps).drop n := by
    intro n hn
    obtain ⟨k, rfl⟩ := Nat.exists_eq_add_of_le hn
    rw [← List.drop_drop, hsrc, List.drop_drop]
  cases hfind : (starts t 0 ps).find? (a ≤ ·) with
  | none =>
    apply strstrFrom_eq_none hne
    intro m hm hpre
    have hmem := honly m (hdrop m hm ▸ hpre)
    simpa [hm] using List.find?_eq_none.mp hfind m hmem
  | some n =>
    obtain ⟨han, before, after, hsplit, hbefore⟩ := List.find?_eq_some_iff_append.mp hfind
    have han : a ≤ n := of_decide_eq_true han
    have hmem : n ∈ starts t 0 ps := List.mem_of_find?_eq_some hfind
    have hordered := hsplit ▸ starts_pairwise t 0 ps
    refine strstrFrom_eq_some (fun h => hzero (List.mem_of_mem_drop (hsrc ▸ h))) han ?_ ?_
    · rw [hdrop n han]
      simpa using prefix_of_mem_starts hmem
    · intro m hm hlt hpre
      have hm' : m ∈ before ++ n :: after := hsplit ▸ honly m (hdrop m hm ▸ hpre)
      rcases List.mem_append.mp hm' with hin | hin
      · simpa [hm] using hbefore m hin
      · rcases List.mem_cons.mp hin with rfl | hin
        · exact Nat.lt_irrefl _ hlt
        · have := (List.pairwise_cons.mp (List.pairwise_append.mp hordered).2.1).1 m hin
          omega

theorem find?_starts_at (t : τ) (ps qs : List (Piece text)) :
    (starts t 0 (ps ++ qs)).find? ((bytes ps).length ≤ ·) =
      (starts t (bytes ps).length qs).head? := by
  rw [starts_append, Nat.zero_add, find?_append_of_lt, find?_eq_head?]
  · intro n hn
    exact (starts_bounds hn).1
  · intro n hn
    have := starts_bounds hn
    omega

theorem find?_starts_after (t : τ) (ps : List (Piece text)) (pc : Piece text)
    (qs : List (Piece text)) {m : Nat} (hm : (bytes ps).length < m) :
    (starts t 0 (ps ++ pc :: qs)).find? (m ≤ ·) =
      (starts t ((bytes ps).length + pc.bytes.length) qs).find? (m ≤ ·) := by
  have hsplit : ps ++ pc :: qs = (ps ++ [pc]) ++ qs := by rw [List.append_assoc]; rfl
  rw [hsplit, starts_append, find?_append_of_lt]
  · simp
  · intro n hn
    rw [starts_append, Nat.zero_add] at hn
    rcases List.mem_append.mp hn with hin | hin
    · have := starts_bounds hin
      omega
    · simp only [starts] at hin
      split at hin
      · rw [List.mem_singleton.mp hin]
        exact hm
      · cases hin

/-! ### The end of a nested block -/

/-- Go through the closing and the opening tags in step until the next opening tag, with its
`k` characters, does not end before the closing one starts. -/
def pick (k : Nat) : List Nat → List Nat → Option Nat
  | [], _ => none
  | e :: _, [] => some e
  | e :: es, b :: bs => if e > b + k then pick k es bs else some e

/-- Where the block ends that `depth` further open blocks are inside of. -/
def closing (opens closes : τ) : Nat → Nat → List (Piece text) → Option Nat
  | _, _, [] => none
  | depth, o, pc :: ps =>
    if pc.tag = some closes then
      if depth = 0 then some o else closing opens closes (depth - 1) (o + pc.bytes.length) ps
    else if pc.tag = some opens then closing opens closes (depth + 1) (o + pc.bytes.length) ps
    else closing opens closes depth (o + pc.bytes.length) ps

section Closing

variable {opens closes : τ} {pc : Piece text} (ps : List (Piece text))

theorem closing_other (hopen : pc.tag ≠ some opens) (hclose : pc.tag ≠ some closes)
    (depth o : Nat) :
    closing opens closes depth o (pc :: ps) =
      closing opens closes depth (o + pc.bytes.length) ps := by
  rw [closing, if_neg hclose, if_neg hopen]

theorem closing_open (hne : opens ≠ closes) (hopen : pc.tag = some opens) (depth o : Nat) :
    closing opens closes depth o (pc :: ps) =
      closing opens closes (depth + 1) (o + pc.bytes.length) ps := by
  have hclose : pc.tag ≠ some closes := fun h => hne (Option.some.inj (hopen.symm.trans h))
  rw [closing, if_neg hclose, if_pos hopen]

theorem closing_close (hclose : pc.tag = some closes) (depth o : Nat) :
    closing opens closes (depth + 1) o (pc :: ps) =
      closing opens closes depth (o + pc.bytes.length) ps := by
  rw [closing, if_pos hclose, if_neg (Nat.succ_ne_zero depth), Nat.add_sub_cancel]

theorem closing_end (hclose : pc.tag = some closes) (o : Nat) :
    closing opens closes 0 o (pc :: ps) = some o := by
  rw [closing, if_pos hclose, if_pos rfl]

end Closing

/-- The opening tags passed and not yet matched are the depth. -/
theorem pick_starts {opens closes : τ} (hne : opens ≠ closes) {ps : List (Piece text)}
    (hlong : ∀ pc ∈ ps, pc.tag = some opens → (text opens).length < pc.bytes.length) {o : Nat}
    {passed : List Nat} (hpassed : ∀ b ∈ passed, b + (text opens).length < o) :
    pick (text opens).length (starts closes o ps) (passed ++ starts opens o ps) =
      closing opens closes passed.length o ps := by
  induction ps generalizing o passed with
  | nil => rfl
  | cons pc ps ih =>
    obtain ⟨hpc, hps⟩ := List.forall_mem_cons.mp hlong
    have hpos := pc.length_pos
    have hlater : ∀ b ∈ passed, b + (text opens).length < o + pc.bytes.length :=
      fun b hb => Nat.lt_add_right _ (hpassed b hb)
    rw [closing, starts, starts]
    by_cases hclose : pc.tag = some closes
    · have hopen : pc.tag ≠ some opens := fun h => hne (Option.some.inj (h.symm.trans hclose))
      rw [if_pos hclose, if_pos hclose, if_neg hopen]
      -- The closing tag belongs to the oldest opening tag that was passed, or to the block.
      cases passed with
      | nil =>
        rw [List.nil_append, List.length_nil, if_pos rfl]
        cases hbs : starts opens (o + pc.bytes.length) ps with
        | nil => rfl
        | cons b bs =>
          have hb := (starts_bounds (hbs ▸ List.mem_cons_self :
            b ∈ starts opens (o + pc.bytes.length) ps)).1
          exact if_neg (by omega)
      | cons b passed =>
        rw [List.cons_append, pick, if_pos (hpassed b List.mem_cons_self)]
        rw [if_neg (List.length_pos_of_ne_nil (List.cons_ne_nil b passed)).ne']
        exact ih hps fun b' hb' => hlater b' (List.mem_cons_of_mem b hb')
    · rw [if_neg hclose, if_neg hclose]
      by_cases hopen : pc.tag = some opens
      · have hadd := hpc hopen
        have hrest := @ih hps (o + pc.bytes.length) (passed ++ [o]) (by
          intro b hb
          rcases List.mem_append.mp hb with hin | hin
          · exact hlater b hin
          · rw [List.mem_singleton.mp hin]
            omega)
        rw [if_pos hopen, if_pos hopen]
        rwa [List.append_assoc, List.length_append] at hrest
      · rw [if_neg hopen, if_neg hopen]
        exact ih hps hlater

end TaggedText
