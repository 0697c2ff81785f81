import AksFirmware.InlineC
import AksFirmware.PageOutput

/-!
# What becomes of a page in the build

`compile` of `webcomp_sin.c` from the input file to the entry in the index.  A file that
cannot be opened ends it with -1, and `webcomp.sh` then stops the build.  All other failures
end at the label `bad`, which removes what was written and returns 0, and a section without
its end ends at `done`, where the page that was written so far is put into the index.

`reports_iff` says for which pages the return value can be relied on.  The host is one of 32
bits: `proc_fake` hands its block over as an `int`.
-/

namespace AksFirmware.PageBuild

open ByteMemory CText WebComp InlineC

/-! ### Files -/

/-- What is printed to the C file of a page. -/
inductive Chunk where
  | title
  | common_head
  | outside (code : Text)
  | cgi (body : Text)
  | page_begin
  | item (i : Item)
  | page_end

/-- The entry of a page in the index. -/
structure Entry where
  size : Nat
  do_cgi : Bool

structure Files where
  web_c : Option (List Chunk)
  web_1_c : Option (List Chunk)
  web_dbg : Option Text
  index : List Entry

/-- What the calls of the library come to. -/
structure Host where
  /-- The input file, if it can be opened. -/
  infp : Option (List UInt8)
  c_outfp : Bool
  c1_outfp : Bool
  dbg_outfp : Bool
  stat : Bool
  malloc : Bool
  fread : Bool
  /-- The blocks that are used without a check. -/
  newblk : Bool
  cgifp : Bool
  c_again : Bool
  c1_again : Bool
  idxfp : Bool
  /-- The size of what the commands of the index make of the data file, if they do. -/
  bin : Option Nat

/-! ### The steps -/

/-- A file of 2^31 bytes has no size in 32 bits, and `stat` fails. -/
def readPage (host : Host) (page : List UInt8) : Option (List UInt8) :=
  if host.stat ∧ page.length < 2 ^ 31 ∧ page ≠ [] ∧ host.malloc ∧ host.fread then some page
  else none

/-- More is written to the new block than there is room for, or than can be ended. -/
def overruns (optfile : Option (List UInt8)) (page : List UInt8) : Bool :=
  match proc_tag optfile ⟨page, 0, [], 0⟩ page.length with
  | none => false
  | some (rc, s) => page.length + 1 < s.nlen || (0 ≤ rc && page.length < s.nlen)

/-- Both branches of `process_inline_c`; `some none` when the page is given up. -/
def translate (host : Host) (process_inline_c : Bool) (optfile : Option (List UInt8))
    (proc_blk : List UInt8) : Option (Option (Bool × Output)) :=
  if process_inline_c then
    if host.newblk ∧ ¬ overruns optfile proc_blk then inline_c optfile proc_blk else none
  else some (some (true, (⟨[], [], []⟩ : Output).block 0 proc_blk))

def Files.unlinked (files : Files) : Files :=
  { files with web_c := none, web_1_c := none, web_dbg := none }

/-- The files when they are closed; a section without its end leaves the function open. -/
def Files.written (files : Files) (finished : Bool) (o : Output) : Files :=
  { files with
    web_c := some ([.title, .common_head] ++ o.c_outfp.map .outside)
    web_1_c := some (.page_begin :: o.c1_outfp.map .item ++ if finished then [.page_end] else [])
    web_dbg := some o.dbg_outfp }

/-- `c1_outfp` is appended to `c_outfp`. -/
def Files.joined (files : Files) : Files :=
  { files with
    web_c := some (files.web_c.getD [] ++ files.web_1_c.getD [])
    web_1_c := none }

/-- Behind the label `bad` with `bad` cleared.  If `stat` fails in the end, the files that
are closed already are closed again. -/
def close (host : Host) (do_cgi : Bool) (files : Files) : Option (Int × Files) :=
  if host.c_again ∧ host.c1_again then
    if host.idxfp then
      host.bin.map fun size =>
        (0, { files.joined with index := files.index ++ [⟨size, do_cgi⟩] })
    else some (-1, files.joined)
  else some (-1, files)

def compile (host : Host) (process_inline_c : Bool) (optfile : Option (List UInt8))
    (old : Files) : Option (Int × Files) :=
  match host.infp with
  | none => some (-1, old)
  | some page =>
    if ¬ host.c_outfp then some (-1, old)
    else if ¬ host.c1_outfp then some (-1, { old with web_c := some [] })
    else if ¬ host.dbg_outfp then some (-1, { old with web_c := some [], web_1_c := some [] })
    else
      match readPage host page with
      | none => some (0, old.unlinked)
      | some proc_blk =>
        match proc_cgi host.newblk host.cgifp proc_blk with
        | none => none
        | some do_cgi =>
          match translate host process_inline_c optfile proc_blk with
          | none => none
          | some none => some (0, old.unlinked)
          | some (some (finished, o)) => close host do_cgi (old.written finished o)

/-! ### Pages that an AOPT tag leaves out -/

def atPageOption (s : Scan) : Bool :=
  match tests.find? fun test => test.1.isPrefixOf (s.src.drop s.opos) with
  | some (tag, .pageOption tail) => (optionTag s.src (s.opos + tag.length) tail).isSome
  | _ => false

/-- The scanner is stopped by a page option, and not by something that is missing. -/
def stopsAtPageOption (optfile : Option (List UInt8)) : Nat → Nat → Nat → Scan → Bool
  | 0, _, _, _ => false
  | fuel + 1, oend, clen, s =>
    if s.opos < oend then
      match PageOutput.turn optfile clen s with
      | .stop _ _ => atPageOption s
      | .on clen' s' => stopsAtPageOption optfile fuel oend clen' s'
      | .body blk_end after s' =>
        match scan optfile fuel blk_end 0 s' with
        | none => false
        | some (rc, s'') =>
          if rc < 0 then stopsAtPageOption optfile fuel blk_end 0 s'
          else stopsAtPageOption optfile fuel oend 0 { s'' with opos := after }
    else false

/-- `Do not include this page file!` -/
def leftOut (process_inline_c : Bool) (optfile : Option (List UInt8)) (page : List UInt8) : Bool :=
  process_inline_c &&
    stopsAtPageOption optfile (page.length + page.length + 1) page.length 0 ⟨page, 0, [], 0⟩

/-! ### What the return value must say -/

/-- The function in front of the page. -/
def cgiChunks : Cgi → List Chunk
  | .block body => [.cgi body]
  | _ => []

/-- The streams hold the whole page: its sections in place, or all its bytes. -/
def Translated (process_inline_c : Bool) (optfile : Option (List UInt8)) (page : List UInt8)
    (o : Output) : Prop :=
  if process_inline_c then
    ∃ proc_blk len pieces, proc_fake optfile page = some (some (proc_blk, len)) ∧
      Splits (proc_blk.takeWhile (· ≠ 0)) pieces ∧ Renders o pieces
  else Renders o [.text page]

/-- The file of the page is complete, and the page is in the index. -/
structure Done (host : Host) (process_inline_c : Bool) (optfile : Option (List UInt8))
    (page : List UInt8) (old files : Files) : Prop where
  complete : ∃ o, Translated process_inline_c optfile page o ∧
    files.web_c = some ([.title, .common_head] ++ o.c_outfp.map .outside ++
      (cgiChunks (findCgi page) ++ .page_begin :: o.c1_outfp.map .item ++ [.page_end])) ∧
    files.web_dbg = some o.dbg_outfp
  indexed : ∃ size, host.bin = some size ∧
    files.index = old.index ++ [⟨size, (findCgi page).isBlock⟩]

/-- What keeps a page from being translated. -/
inductive Faulty (host : Host) (process_inline_c : Bool) (optfile : Option (List UInt8)) : Prop
  | unopened (h : host.infp = none)
  | unreadable (page : List UInt8) (hpage : host.infp = some page) (h : readPage host page = none)
  | cgiUnended (page : List UInt8) (hpage : host.infp = some page) (h : findCgi page = .unended)
  /-- A tag without its end, or a malformed option tag. -/
  | badTag (page : List UInt8) (hpage : host.infp = some page) (hinline : process_inline_c = true)
      (hgiven : proc_fake optfile page = some none) (h : leftOut process_inline_c optfile page = false)
  | unterminated (page proc_blk : List UInt8) (len : Nat) (hpage : host.infp = some page)
      (hinline : process_inline_c = true)
      (hfake : proc_fake optfile page = some (some (proc_blk, len)))
      (h : ¬ ∃ pieces, Splits (proc_blk.takeWhile (· ≠ 0)) pieces)

/-- The return value is negative for a page that is not translated, and 0 only for one that
is complete and in the index. -/
def Reports (host : Host) (process_inline_c : Bool) (optfile : Option (List UInt8))
    (old : Files) : Prop :=
  ∃ rc files, compile host process_inline_c optfile old = some (rc, files) ∧
    (Faulty host process_inline_c optfile → rc < 0) ∧
    (rc = 0 → ∃ page, host.infp = some page ∧
      Done host process_inline_c optfile page old files)

/-! ### When it does -/

/-- The first section that does not come out is `<%+%>`. -/
def RunsIntoJoined (t : Text) : Prop :=
  ∃ (pieces : List Piece) (rest : Text),
    t = pieces.flatMap Piece.source ++ (Piece.joined.source ++ rest) ∧
      (∀ p ∈ pieces, p.WellFormed) ∧
      (pieces.IsChain fun p q => p.isText = true → q.isText = false) ∧ .joined ∉ pieces

/-- `proc_cgi` does not come to free its block. -/
def CgiSafe (host : Host) (page : List UInt8) : Prop :=
  ∀ body, findCgi page = .block body → host.newblk = true ∧ host.cgifp = false

/-- The page is not given up, and nothing undefined is met in it. -/
def Processed (host : Host) (process_inline_c : Bool) (optfile : Option (List UInt8))
    (page : List UInt8) : Prop :=
  process_inline_c = true → host.newblk = true ∧ overruns optfile page = false ∧
    ∃ proc_blk len, proc_fake optfile page = some (some (proc_blk, len)) ∧
      ¬ RunsIntoJoined (proc_blk.takeWhile (· ≠ 0))

/-- All sections of the page have their ends. -/
def Ended (process_inline_c : Bool) (optfile : Option (List UInt8)) (page : List UInt8) : Prop :=
  process_inline_c = true → ∃ proc_blk len pieces,
    proc_fake optfile page = some (some (proc_blk, len)) ∧
      Splits (proc_blk.takeWhile (· ≠ 0)) pieces

/-- A file cannot be opened, or the page is in order. -/
inductive Holds (host : Host) (process_inline_c : Bool) (optfile : Option (List UInt8)) : Prop
  | unopened (h : host.infp = none ∨ ¬ (host.c_outfp ∧ host.c1_outfp ∧ host.dbg_outfp))
  | unclosed (page : List UInt8) (hpage : host.infp = some page)
      (hread : readPage host page = some page) (hsafe : CgiSafe host page)
      (hprocessed : Processed host process_inline_c optfile page)
      (h : ¬ (host.c_again ∧ host.c1_again ∧ host.idxfp))
  | complete (page : List UInt8) (hpage : host.infp = some page)
      (hread : readPage host page = some page) (hcgi : findCgi page = .none)
      (hprocessed : Processed host process_inline_c optfile page)
      (hended : Ended process_inline_c optfile page) (hbin : host.bin ≠ none)

/-! ### Sections that do not come out -/

theorem sections_runs_into {pieces : List Piece} (hwf : ∀ p ∈ pieces, p.WellFormed)
    (hapart : pieces.IsChain fun p q => p.isText = true → q.isText = false)
    (hjoined : .joined ∉ pieces) {proc_blk : List UInt8} {last turns outbytes : Nat} {s t : Text}
    {o : Output}
    (h : Rest proc_blk last (s ++ (pieces.flatMap Piece.source ++ (Piece.joined.source ++ t))))
    (hs : ¬ ascii "<%" <:+: s) (hfront : s ≠ [] → ∀ p ∈ pieces.head?, p.isText = false)
    (hturns : pieces.length < turns) : sections turns proc_blk last outbytes o = none := by
  induction pieces generalizing proc_blk last turns outbytes s o with
  | nil =>
    obtain ⟨turns, rfl⟩ := Nat.exists_eq_succ_of_ne_zero (Nat.ne_zero_of_lt hturns)
    exact sections_joined h hs turns outbytes o
  | cons p pieces ih =>
    rw [List.forall_mem_cons] at hwf
    rw [List.mem_cons, not_or] at hjoined
    have hapart' := (List.isChain_cons.mp hapart).2
    obtain ⟨turns, rfl⟩ := Nat.exists_eq_succ_of_ne_zero (Nat.ne_zero_of_lt hturns)
    rw [List.length_cons] at hturns
    rw [List.flatMap_cons, List.append_assoc] at h
    cases htext : p.isText with
    | true =>
      -- the text waits for the section behind it
      obtain ⟨s', rfl⟩ : ∃ s', p = .text s' := by
        cases p with
        | text s' => exact ⟨s', rfl⟩
        | _ => cases htext
      have hempty : s = [] := by
        by_contra hne
        have hfalse := hfront hne _ rfl
        rw [htext] at hfalse
        cases hfalse
      subst hempty
      have hnext : s' ≠ [] → ∀ q ∈ pieces.head?, q.isText = false :=
        fun _ q hq => (List.isChain_cons.mp hapart).1 q hq htext
      exact ih hwf.2 hapart' hjoined.2 h hwf.1.2 hnext (by omega)
    | false =>
      obtain ⟨proc_blk', last', hrest, hstep⟩ :=
        sections_section hwf.1 htext (Ne.symm hjoined.1) h hs
      rw [hstep]
      exact ih hwf.2 hapart' hjoined.2 (s := []) hrest (by decide) (by simp) (by omega)

theorem RunsIntoJoined.here {s t : Text} (hs : ¬ ascii "<%" <:+: s) :
    RunsIntoJoined (s ++ (Piece.joined.source ++ t)) := by
  by_cases hnil : s = []
  · subst hnil
    exact ⟨[], t, rfl, List.forall_mem_nil _, List.isChain_nil, List.not_mem_nil⟩
  · exact ⟨[.text s], t, by simp [Piece.source], List.forall_mem_singleton.mpr ⟨hnil, hs⟩,
      List.isChain_singleton _, by simp⟩

theorem RunsIntoJoined.behind {s t : Text} {p : Piece} (hs : ¬ ascii "<%" <:+: s)
    (hp : p.WellFormed) (hsection : p.isText = false) (hne : p ≠ .joined) (h : RunsIntoJoined t) :
    RunsIntoJoined (s ++ (p.source ++ t)) := by
  obtain ⟨pieces, rest, rfl, hwf, hapart, hjoined⟩ := h
  have hwf' : ∀ q ∈ p :: pieces, q.WellFormed := List.forall_mem_cons.mpr ⟨hp, hwf⟩
  have hjoined' : .joined ∉ p :: pieces := by
    rw [List.mem_cons, not_or]
    exact ⟨Ne.symm hne, hjoined⟩
  have hapart' : (p :: pieces).IsChain fun p q => p.isText = true → q.isText = false := by
    refine List.isChain_cons.mpr ⟨fun q _ htext => ?_, hapart⟩
    rw [hsection] at htext
    cases htext
  by_cases hnil : s = []
  · exact ⟨p :: pieces, rest, by simp [hnil], hwf', hapart', hjoined'⟩
  · refine ⟨.text s :: p :: pieces, rest, by simp [Piece.source],
      List.forall_mem_cons.mpr ⟨⟨hnil, hs⟩, hwf'⟩, List.isChain_cons.mpr ⟨?_, hapart'⟩, ?_⟩
    · intro q hq _
      obtain rfl := Option.some.inj hq
      exact hsection
    · rw [List.mem_cons, not_or]
      exact ⟨by simp, hjoined'⟩

/-- A section stands at the front of `t` that is `<%+%>`, or the loop stops behind it. -/
def StopsBehind (turns : Nat) (t : Text) : Prop :=
  ∃ (p : Piece) (rest : Text), t = p.source ++ rest ∧ p.WellFormed ∧ p.isText = false ∧
    (p = .joined ∨ ∃ proc_blk last outbytes o, Rest proc_blk last rest ∧
      sections turns proc_blk last outbytes o = none)

section Stuck

variable {proc_blk : List UInt8} {last turns outbytes : Nat} {s t : Text} {o : Output}

theorem stops_behind (h : SectionTurn proc_blk last t)
    (hrun : sections (turns + 1) proc_blk last outbytes o = none) : StopsBehind turns t := by
  cases h with
  | passed p rest proc_blk' last' source wellFormed isSection rest_eq step =>
    obtain ⟨outbytes', o', hstep⟩ := step turns outbytes o
    exact ⟨p, rest, source, wellFormed, isSection,
      .inr ⟨proc_blk', last', outbytes', o', rest_eq, hstep.symm.trans hrun⟩⟩
  | joined rest source step => exact ⟨.joined, rest, source, trivial, rfl, .inl rfl⟩
  | ends step =>
    obtain ⟨o', hstep⟩ := step turns outbytes o
    rw [hstep] at hrun
    cases hrun

theorem runs_into_of_stuck (h : Rest proc_blk last t) (hturns : t.length < turns)
    (hrun : sections turns proc_blk last outbytes o = none) : RunsIntoJoined t := by
  induction turns generalizing proc_blk last outbytes t o with
  | zero => exact absurd hturns (Nat.not_lt_zero _)
  | succ turns ih =>
    by_cases hopen : ascii "<%" <:+: t
    · obtain ⟨s, rest, rfl, hs⟩ := exists_first_pair (open_tag ▸ hopen)
      rw [← open_tag] at hs
      rw [← open_tag, List.append_assoc] at h hturns ⊢
      obtain ⟨p, rest', hsplit, hp, hsection, hstop⟩ := stops_behind (section_turn h hs) hrun
      rw [hsplit] at hturns ⊢
      by_cases hjoined : p = .joined
      · subst hjoined
        exact .here hs
      · obtain ⟨_, _, _, _, hrest, hrun'⟩ := hstop.resolve_left hjoined
        have hpos : 0 < p.source.length := by
          cases p with
          | text s => cases hsection
          | inline code => simp [Piece.source, open_tag]
          | outside code => simp [Piece.source, open_outside, open_tag]
          | joined => decide
        rw [List.length_append, List.length_append] at hturns
        exact .behind hs hp hsection hjoined (ih hrest (by omega) hrun')
    · rw [sections_end h hopen] at hrun
      cases hrun

end Stuck

/-- The loop over the sections of a page is undefined exactly if it comes to `<%+%>`. -/
theorem sections_undefined_iff (proc_blk : List UInt8) :
    sections (proc_blk.length + 1) proc_blk 0 0 ⟨[], [], []⟩ = none ↔
      RunsIntoJoined (proc_blk.takeWhile (· ≠ 0)) := by
  have hrest := rest_page proc_blk
  have hlen := (List.takeWhile_sublist (l := proc_blk) (fun c => decide (c ≠ 0))).length_le
  constructor
  · exact runs_into_of_stuck hrest (Nat.lt_succ_of_le hlen)
  · rintro ⟨pieces, rest, ht, hwf, hapart, hjoined⟩
    have hpieces := pieces_length_le hwf
    rw [ht] at hrest hlen
    rw [List.length_append] at hlen
    exact sections_runs_into hwf hapart hjoined (s := []) hrest (by decide) (by simp) (by omega)

/-! ### The branches of `compile` -/

section Branches

variable {host : Host} {process_inline_c : Bool} {optfile : Option (List UInt8)} {page : List UInt8}
  {old : Files}

theorem compile_unopened (h : host.infp = none ∨ ¬ (host.c_outfp ∧ host.c1_outfp ∧ host.dbg_outfp)) :
    ∃ files, compile host process_inline_c optfile old = some (-1, files) := by
  cases hpage : host.infp with
  | none => exact ⟨old, by simp [compile, hpage]⟩
  | some page =>
    simp only [compile, hpage]
    split
    · exact ⟨_, rfl⟩
    · split
      · exact ⟨_, rfl⟩
      · split
        · exact ⟨_, rfl⟩
        · simp_all

/-- The outcome for a page that was read. -/
def afterRead (host : Host) (process_inline_c : Bool) (optfile : Option (List UInt8)) (old : Files)
    (do_cgi : Bool) (proc_blk : List UInt8) : Option (Int × Files) :=
  match translate host process_inline_c optfile proc_blk with
  | none => none
  | some none => some (0, old.unlinked)
  | some (some (finished, o)) => close host do_cgi (old.written finished o)

theorem compile_opened (hpage : host.infp = some page)
    (hopen : host.c_outfp ∧ host.c1_outfp ∧ host.dbg_outfp) :
    compile host process_inline_c optfile old =
      match readPage host page with
      | none => some (0, old.unlinked)
      | some proc_blk =>
        match proc_cgi host.newblk host.cgifp proc_blk with
        | none => none
        | some do_cgi => afterRead host process_inline_c optfile old do_cgi proc_blk := by
  obtain ⟨hc, hc1, hdbg⟩ := hopen
  simp only [compile, hpage, hc, hc1, hdbg, not_true_eq_false, if_false]
  rfl

theorem readPage_eq {proc_blk : List UInt8} (h : readPage host page = some proc_blk) :
    proc_blk = page := by
  obtain ⟨-, h⟩ := Option.ite_none_right_eq_some.mp h
  exact (Option.some.inj h).symm

theorem proc_cgi_safe (hsafe : CgiSafe host page) : proc_cgi host.newblk host.cgifp page = some false := by
  rw [proc_cgi]
  cases hcgi : findCgi page with
  | none => rfl
  | unended => rfl
  | block body =>
    obtain ⟨hnew, hcgifp⟩ := hsafe body hcgi
    simp [hnew, hcgifp]

theorem proc_cgi_some {do_cgi : Bool} (h : proc_cgi host.newblk host.cgifp page = some do_cgi) :
    CgiSafe host page := by
  intro body hcgi
  rw [proc_cgi, hcgi] at h
  simpa using (Option.ite_none_right_eq_some.mp h).1

theorem CgiSafe.of_none (h : findCgi page = .none) : CgiSafe host page := by
  intro body hcgi
  rw [h] at hcgi
  cases hcgi

/-- A page of a type with inline C gets to the loop over its sections. -/
theorem translate_inline (hroom : host.newblk = true ∧ overruns optfile page = false) :
    translate host true optfile page = inline_c optfile page := by
  simp [translate, hroom]

theorem compile_processed {proc_blk : List UInt8} {len : Nat}
    (hfake : proc_fake optfile page = some (some (proc_blk, len))) :
    inline_c optfile page = none ↔ RunsIntoJoined (proc_blk.takeWhile (· ≠ 0)) := by
  rw [inline_c, hfake, Option.map_eq_none_iff, sections_undefined_iff]

theorem translate_processed (h : Processed host process_inline_c optfile page) :
    ∃ finished o, translate host process_inline_c optfile page = some (some (finished, o)) := by
  cases process_inline_c with
  | false => exact ⟨true, _, rfl⟩
  | true =>
    obtain ⟨hnew, hroom, proc_blk, len, hfake, hjoined⟩ := h rfl
    rw [translate_inline ⟨hnew, hroom⟩]
    have hdefined := mt (compile_processed hfake).mp hjoined
    rw [inline_c, hfake] at hdefined ⊢
    obtain ⟨⟨finished, o⟩, hrun⟩ := Option.ne_none_iff_exists'.mp (mt Option.map_eq_none_iff.mpr hdefined)
    exact ⟨finished, o, by simp only [hrun, Option.map_some]⟩

theorem processed_of_translate {finished : Bool} {o : Output}
    (h : translate host process_inline_c optfile page = some (some (finished, o))) :
    Processed host process_inline_c optfile page := by
  rintro rfl
  obtain ⟨hroom, h⟩ := Option.ite_none_right_eq_some.mp h
  obtain ⟨hnew, hover⟩ : host.newblk = true ∧ overruns optfile page = false := by
    simpa using hroom
  refine ⟨hnew, hover, ?_⟩
  cases hfake : proc_fake optfile page with
  | none =>
    rw [inline_c, hfake] at h
    cases h
  | some result =>
    cases result with
    | none =>
      rw [inline_c, hfake] at h
      cases h
    | some processed =>
      obtain ⟨proc_blk, len⟩ := processed
      refine ⟨proc_blk, len, rfl, fun hjoined => ?_⟩
      rw [(compile_processed hfake).mpr hjoined] at h
      cases h

/-- The loop gets to the end of the page exactly if all its sections have ends. -/
theorem finished_iff {finished : Bool} {o : Output}
    (h : translate host process_inline_c optfile page = some (some (finished, o))) :
    finished = true ↔ Ended process_inline_c optfile page := by
  cases process_inline_c with
  | false =>
    cases h
    exact iff_of_true rfl nofun
  | true =>
    obtain ⟨-, hcompile⟩ := Option.ite_none_right_eq_some.mp h
    constructor
    · rintro rfl -
      obtain ⟨proc_blk, len, pieces, hfake, hsplits, -⟩ := finished_renders hcompile
      exact ⟨proc_blk, len, pieces, hfake, hsplits⟩
    · intro hended
      obtain ⟨proc_blk, len, pieces, hfake, hsplits⟩ := hended rfl
      rw [inline_c_pieces hfake hsplits] at hcompile
      split at hcompile
      · cases hcompile
      · cases hcompile
        rfl

theorem translated {o : Output}
    (h : translate host process_inline_c optfile page = some (some (true, o))) :
    Translated process_inline_c optfile page o := by
  cases process_inline_c with
  | false =>
    cases h
    have hplain : Piece.joined ∉ [.text page] := by simp
    exact (renders_pieces hplain).1
  | true =>
    obtain ⟨-, hcompile⟩ := Option.ite_none_right_eq_some.mp h
    obtain ⟨proc_blk, len, pieces, hfake, hsplits, hrenders⟩ := finished_renders hcompile
    exact ⟨proc_blk, len, pieces, hfake, hsplits, hrenders⟩

/-! ### Return values -/

theorem reports_of_negative {files : Files}
    (h : compile host process_inline_c optfile old = some (-1, files)) :
    Reports host process_inline_c optfile old :=
  ⟨-1, files, h, fun _ => by decide, fun hrc => absurd hrc (by decide)⟩

theorem not_reports_of_none (h : compile host process_inline_c optfile old = none) :
    ¬ Reports host process_inline_c optfile old := by
  rintro ⟨rc, files, hcompile, -⟩
  rw [h] at hcompile
  cases hcompile

theorem reports_zero {files : Files} (hpage : host.infp = some page)
    (h : compile host process_inline_c optfile old = some (0, files)) :
    Reports host process_inline_c optfile old ↔ ¬ Faulty host process_inline_c optfile ∧
      Done host process_inline_c optfile page old files := by
  constructor
  · rintro ⟨rc, files', hcompile, hfaulty, hzero⟩
    cases h.symm.trans hcompile
    obtain ⟨page', hpage', hright⟩ := hzero rfl
    cases hpage.symm.trans hpage'
    exact ⟨fun hbad => absurd (hfaulty hbad) (by decide), hright⟩
  · rintro ⟨hfaulty, hright⟩
    exact ⟨0, files, h, fun hbad => absurd hbad hfaulty, fun _ => ⟨page, hpage, hright⟩⟩

/-- Nothing is left of a page that is given up, and 0 is returned. -/
theorem not_reports_unlinked (hpage : host.infp = some page)
    (h : compile host process_inline_c optfile old = some (0, old.unlinked)) :
    ¬ Reports host process_inline_c optfile old := by
  rw [reports_zero hpage h]
  rintro ⟨-, hdone⟩
  obtain ⟨o, -, hweb, -⟩ := hdone.complete
  cases hweb

/-- A page that is put into the index. -/
theorem reports_indexed {finished : Bool} {o : Output} {size : Nat}
    (hpage : host.infp = some page) (hread : readPage host page = some page)
    (hbin : host.bin = some size)
    (htranslate : translate host process_inline_c optfile page = some (some (finished, o)))
    (h : compile host process_inline_c optfile old = some (0,
      { (old.written finished o).joined with index := old.index ++ [⟨size, false⟩] })) :
    Reports host process_inline_c optfile old ↔
      findCgi page = .none ∧ Ended process_inline_c optfile page := by
  have hprocessed := processed_of_translate htranslate
  rw [reports_zero hpage h]
  constructor
  · rintro ⟨hfaulty, hdone⟩
    constructor
    · cases hcgi : findCgi page with
      | none => rfl
      | unended => exact absurd (.cgiUnended page hpage hcgi) hfaulty
      | block body =>
        obtain ⟨size', -, hindex⟩ := hdone.indexed
        rw [hcgi] at hindex
        cases List.append_cancel_left hindex
    · intro hinline
      obtain ⟨-, -, proc_blk, len, hfake, -⟩ := hprocessed hinline
      by_contra hends
      refine hfaulty (.unterminated page proc_blk len hpage hinline hfake ?_)
      rintro ⟨pieces, hsplits⟩
      exact hends ⟨proc_blk, len, pieces, hfake, hsplits⟩
  · rintro ⟨hcgi, hended⟩
    obtain rfl := (finished_iff htranslate).mpr hended
    refine ⟨fun hfaulty => ?_, ⟨o, translated htranslate, ?_, rfl⟩, size, hbin, ?_⟩
    · cases hfaulty with
      | unopened hnone => cases hpage.symm.trans hnone
      | unreadable page' hpage' hnone =>
        cases hpage.symm.trans hpage'
        cases hread.symm.trans hnone
      | cgiUnended page' hpage' hunended =>
        cases hpage.symm.trans hpage'
        cases hcgi.symm.trans hunended
      | badTag page' hpage' hinline hgiven _ =>
        cases hpage.symm.trans hpage'
        obtain ⟨-, -, proc_blk, len, hfake, -⟩ := hprocessed hinline
        cases hfake.symm.trans hgiven
      | unterminated page' proc_blk len hpage' hinline hsome hends =>
        cases hpage.symm.trans hpage'
        obtain ⟨proc_blk', len', pieces, hfake, hsplits⟩ := hended hinline
        cases hfake.symm.trans hsome
        exact hends ⟨pieces, hsplits⟩
    · rw [hcgi]
      rfl
    · rw [hcgi]
      rfl

/-- What the condition comes to for a page that was read. -/
theorem holds_readable (hopened : ¬ (host.infp = none ∨
      ¬ (host.c_outfp ∧ host.c1_outfp ∧ host.dbg_outfp))) (hpage : host.infp = some page)
    (hread : readPage host page = some page) :
    Holds host process_inline_c optfile ↔
      CgiSafe host page ∧ Processed host process_inline_c optfile page ∧
        (¬ (host.c_again ∧ host.c1_again ∧ host.idxfp) ∨
          (findCgi page = .none ∧ Ended process_inline_c optfile page ∧ host.bin ≠ none)) := by
  constructor
  · intro h
    cases h with
    | unopened h => exact absurd h hopened
    | unclosed page' hpage' _ hsafe hprocessed hagain =>
      cases hpage.symm.trans hpage'
      exact ⟨hsafe, hprocessed, .inl hagain⟩
    | complete page' hpage' _ hcgi hprocessed hended hbin =>
      cases hpage.symm.trans hpage'
      exact ⟨.of_none hcgi, hprocessed, .inr ⟨hcgi, hended, hbin⟩⟩
  · rintro ⟨hsafe, hprocessed, hagain | ⟨hcgi, hended, hbin⟩⟩
    · exact .unclosed page hpage hread hsafe hprocessed hagain
    · exact .complete page hpage hread hcgi hprocessed hended hbin

/-- The end of a page that is written. -/
theorem reports_closed {finished : Bool} {o : Output} (hpage : host.infp = some page)
    (hread : readPage host page = some page)
    (htranslate : translate host process_inline_c optfile page = some (some (finished, o)))
    (h : compile host process_inline_c optfile old = close host false (old.written finished o)) :
    Reports host process_inline_c optfile old ↔
      ¬ (host.c_again ∧ host.c1_again ∧ host.idxfp) ∨
        (findCgi page = .none ∧ Ended process_inline_c optfile page ∧ host.bin ≠ none) := by
  by_cases hagain : host.c_again ∧ host.c1_again
  · by_cases hindex : host.idxfp
    · have hall : ¬ ¬ (host.c_again ∧ host.c1_again ∧ host.idxfp) :=
        not_not.mpr ⟨hagain.1, hagain.2, hindex⟩
      rw [or_iff_right hall]
      rw [close, if_pos hagain, if_pos hindex] at h
      cases hbin : host.bin with
      | none =>
        rw [hbin] at h
        exact iff_of_false (not_reports_of_none h) fun hright => hright.2.2 rfl
      | some size =>
        rw [hbin] at h
        rw [reports_indexed hpage hread hbin htranslate h]
        simp
    · rw [close, if_pos hagain, if_neg hindex] at h
      exact iff_of_true (reports_of_negative h) (.inl fun hall => hindex hall.2.2)
  · rw [close, if_neg hagain] at h
    exact iff_of_true (reports_of_negative h) (.inl fun hall => hagain ⟨hall.1, hall.2.1⟩)

/-- A page that was read. -/
theorem reports_readable (hpage : host.infp = some page) (hread : readPage host page = some page)
    (h : compile host process_inline_c optfile old =
      match proc_cgi host.newblk host.cgifp page with
      | none => none
      | some do_cgi => afterRead host process_inline_c optfile old do_cgi page) :
    Reports host process_inline_c optfile old ↔
      CgiSafe host page ∧ Processed host process_inline_c optfile page ∧
        (¬ (host.c_again ∧ host.c1_again ∧ host.idxfp) ∨
          (findCgi page = .none ∧ Ended process_inline_c optfile page ∧ host.bin ≠ none)) := by
  cases hproc : proc_cgi host.newblk host.cgifp page with
  | none =>
    rw [hproc] at h
    refine iff_of_false (not_reports_of_none h) ?_
    rintro ⟨hsafe, -⟩
    cases hproc.symm.trans (proc_cgi_safe hsafe)
  | some do_cgi =>
    have hsafe := proc_cgi_some hproc
    cases hproc.symm.trans (proc_cgi_safe hsafe)
    rw [hproc] at h
    rw [and_iff_right hsafe]
    have hgiven : ∀ result, translate host process_inline_c optfile page = result →
        (∀ p, result ≠ some (some p)) → ¬ Processed host process_inline_c optfile page := by
      intro result htranslate hne hprocessed
      obtain ⟨finished, o, hsome⟩ := translate_processed hprocessed
      exact hne _ (htranslate.symm.trans hsome)
    cases htranslate : translate host process_inline_c optfile page with
    | none =>
      simp only [afterRead, htranslate] at h
      exact iff_of_false (not_reports_of_none h) fun hright =>
        hgiven none htranslate (by simp) hright.1
    | some result =>
      cases result with
      | none =>
        simp only [afterRead, htranslate] at h
        exact iff_of_false (not_reports_unlinked hpage h) fun hright =>
          hgiven (some none) htranslate (by simp) hright.1
      | some processed =>
        obtain ⟨finished, o⟩ := processed
        simp only [afterRead, htranslate] at h
        rw [reports_closed hpage hread htranslate h,
          and_iff_right (processed_of_translate htranslate)]

end Branches

/-- **Return values of the page compiler.**  They can be relied on exactly if a file cannot be
opened, or if the page has no DO_CGI block, its tags are in order and all its sections have
ends. -/
theorem reports_iff (host : Host) (process_inline_c : Bool) (optfile : Option (List UInt8))
    (old : Files) :
    Reports host process_inline_c optfile old ↔ Holds host process_inline_c optfile := by
  by_cases hunopened : host.infp = none ∨ ¬ (host.c_outfp ∧ host.c1_outfp ∧ host.dbg_outfp)
  · obtain ⟨files, hcompile⟩ : ∃ files, compile host process_inline_c optfile old = some (-1, files) :=
      compile_unopened hunopened
    exact iff_of_true (reports_of_negative hcompile) (.unopened hunopened)
  obtain ⟨hsome, hopen⟩ := not_or.mp hunopened
  rw [not_not] at hopen
  obtain ⟨page, hpage⟩ := Option.ne_none_iff_exists'.mp hsome
  have hcompile : compile host process_inline_c optfile old = _ := compile_opened hpage hopen
  cases hread : readPage host page with
  | none =>
    rw [hread] at hcompile
    refine iff_of_false ?_ ?_
    · rw [reports_zero hpage hcompile]
      exact fun h => h.1 (.unreadable page hpage hread)
    · intro h
      cases h with
      | unopened h => exact hunopened h
      | unclosed page' hpage' hread' | complete page' hpage' hread' =>
        cases hpage.symm.trans hpage'
        cases hread.symm.trans hread'
  | some proc_blk =>
    obtain rfl := readPage_eq hread
    rw [hread] at hcompile
    rw [reports_readable hpage hread hcompile, holds_readable hunopened hpage hread]

/-- Everything can be opened. -/
def sampleHost (page : List UInt8) : Host :=
  ⟨some page, true, true, true, true, true, true, true, true, true, true, true, some 0⟩

def noFiles : Files := ⟨none, none, none, []⟩

theorem compile_sample (page : List UInt8) (hread : readPage (sampleHost page) page = some page)
    (hcgi : proc_cgi (sampleHost page).newblk (sampleHost page).cgifp page = some false)
    (optfile : Option (List UInt8)) :
    compile (sampleHost page) true optfile noFiles =
      afterRead (sampleHost page) true optfile noFiles false page := by
  rw [compile_opened rfl ⟨rfl, rfl, rfl⟩, hread]
  simp only [hcgi]

/-- A section without its end and a block without its end: both pages are passed over. -/
theorem faulty_pages_pass :
    ¬ Reports (sampleHost (ascii "<p><% f();")) true (some []) noFiles ∧
      ¬ Reports (sampleHost (ascii "<p>/*DEMO*/")) true (some []) noFiles := by
  constructor
  · have hcompile := compile_sample (ascii "<p><% f();") (by decide +kernel)
      (by decide +kernel) (some [])
    have hopen : ((translate (sampleHost (ascii "<p><% f();")) true (some [])
        (ascii "<p><% f();")).map fun r => r.map Prod.fst) = some (some false) := by decide +kernel
    obtain ⟨r, htranslate, hr⟩ := Option.map_eq_some_iff.mp hopen
    obtain ⟨⟨finished, o⟩, rfl, rfl⟩ := Option.map_eq_some_iff.mp hr
    simp only [afterRead, htranslate] at hcompile
    rw [reports_indexed rfl (by decide +kernel) rfl htranslate hcompile]
    rintro ⟨-, hended⟩
    cases (finished_iff htranslate).mpr hended
  · have hcompile := compile_sample (ascii "<p>/*DEMO*/") (by decide +kernel)
      (by decide +kernel) (some [])
    have hgiven : (translate (sampleHost (ascii "<p>/*DEMO*/")) true (some [])
        (ascii "<p>/*DEMO*/")).map Option.isNone = some true := by decide +kernel
    obtain ⟨r, htranslate, hr⟩ := Option.map_eq_some_iff.mp hgiven
    obtain rfl := Option.isNone_iff_eq_none.mp hr
    simp only [afterRead, htranslate] at hcompile
    exact not_reports_unlinked rfl hcompile

end AksFirmware.PageBuild
