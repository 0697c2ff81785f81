import AksFirmware.WebComp

/-!
# How much the page compiler writes

`proc_fake` gives `proc_tag` a block as long as the page.  The block is enough as long as
the scanner does not go back over text that it has copied.  It does when the block of an
option, found in the body of another, ends behind that one: the call for the body copies up
to the end of the inner block, and its caller goes on at the end of the outer one.
-/

namespace AksFirmware.PageOutput

open ByteMemory CText WebComp

/-! ### One turn of the loop -/

/-- What a turn of the loop comes to. -/
inductive Turn where
  | stop (rc : Int) (s : Scan)
  | on (clen : Nat) (s : Scan)
  /-- A call for the body of an option that holds, and where its caller goes on. -/
  | body (blk_end after : Nat) (s : Scan)

def optionTurn (optfile : Option (List UInt8)) (clen : Nat) (s : Scan) (tag tail end_tag : Text) :
    Turn :=
  match blockEnd s.src tag end_tag (s.src.length + 1) (s.opos + tag.length)
      (s.opos + tag.length) with
  | none => .stop (-1) s
  | some blk_end =>
    match optionTag s.src (s.opos + tag.length) tail with
    | none => .stop (-1) (s.copy clen)
    | some o =>
      if o.holds optfile then .body blk_end (blk_end + end_tag.length) ((s.copy clen).cut o)
      else .on 0 { (s.copy clen).cut o with opos := blk_end + end_tag.length }

def turn (optfile : Option (List UInt8)) (clen : Nat) (s : Scan) : Turn :=
  match tests.find? fun test => test.1.isPrefixOf (s.src.drop s.opos) with
  | none => .on (clen + 1) { s with opos := s.opos + 1 }
  | some (_, .block end_tag) =>
    match strstrFrom s.src s.opos end_tag with
    | none => .stop (-1) s
    | some blk_end => .on 0 { s.copy clen with opos := blk_end + end_tag.length }
  | some (tag, .marker) => .on 0 { s.copy clen with opos := s.opos + tag.length }
  | some (tag, .option tail end_tag) => optionTurn optfile clen s tag tail end_tag
  | some (tag, .pageOption tail) =>
    match optionTag s.src (s.opos + tag.length) tail with
    | none => .stop (-1) (s.copy clen)
    | some o =>
      if o.holds optfile then .on 0 ((s.copy clen).cut o) else .stop (-1) ((s.copy clen).cut o)

theorem scan_succ (optfile : Option (List UInt8)) (fuel oend clen : Nat) (s : Scan) :
    scan optfile (fuel + 1) oend clen s =
      if s.opos < oend then
        match turn optfile clen s with
        | .stop rc s' => some (rc, s')
        | .on clen' s' => scan optfile fuel oend clen' s'
        | .body blk_end after s' =>
          match scan optfile fuel blk_end 0 s' with
          | none => none
          | some (rc, s'') =>
            if rc < 0 then some (-1, s'') else scan optfile fuel oend 0 { s'' with opos := after }
      else some (0, s.copy clen) := by
  rw [scan, turn]
  split
  · cases tests.find? fun test => test.1.isPrefixOf (s.src.drop s.opos) with
    | none => rfl
    | some test =>
      obtain ⟨tag, end_tag | _ | ⟨tail, end_tag⟩ | tail⟩ := test
      · dsimp only
        cases strstrFrom s.src s.opos end_tag <;> rfl
      · rfl
      · dsimp only [optionTurn]
        cases blockEnd s.src tag end_tag (s.src.length + 1) (s.opos + tag.length)
          (s.opos + tag.length) with
        | none => rfl
        | some blk_end =>
          cases optionTag s.src (s.opos + tag.length) tail with
          | none => rfl
          | some o => dsimp only; cases o.holds optfile <;> rfl
      · dsimp only
        cases optionTag s.src (s.opos + tag.length) tail with
        | none => rfl
        | some o => dsimp only; cases o.holds optfile <;> rfl
  · rfl

/-! ### Where a turn leaves the scanner -/

/-- Nothing beyond the text that was passed is written, and the place stays in the page. -/
structure Moved (clen : Nat) (s s' : Scan) : Prop where
  page : s'.src.length = s.src.length
  written : s'.out.length ≤ s.out.length + clen
  forward : s.opos ≤ s'.opos
  place : s'.opos ≤ s.src.length

def Turn.Moves (clen : Nat) (s : Scan) : Turn → Prop
  | .stop rc s' => rc < 0 ∧ Moved clen s s'
  | .on clen' s' =>
    s.opos < s'.opos ∧ Moved clen s s' ∧
      (clen' = 0 ∨ clen' = clen + 1 ∧ s' = { s with opos := s.opos + 1 })
  | .body blk_end after s' =>
    s.opos < s'.opos ∧ s.opos < blk_end ∧ blk_end ≤ after ∧ after ≤ s.src.length ∧ Moved clen s s'

theorem Scan.copy_length_le (s : Scan) (clen : Nat) :
    (s.copy clen).out.length ≤ s.out.length + clen := by
  rw [Scan.copy, List.length_append]
  exact Nat.add_le_add_left (List.length_take_le clen _) _

theorem Moved.copy {s : Scan} (clen : Nat) (h : s.opos ≤ s.src.length) :
    Moved clen s (s.copy clen) where
  page := rfl
  written := Scan.copy_length_le s clen
  forward := le_rfl
  place := h

theorem Moved.copy_to {s : Scan} {n : Nat} (clen : Nat) (hn : s.opos ≤ n) (h : n ≤ s.src.length) :
    Moved clen s { s.copy clen with opos := n } where
  page := rfl
  written := Scan.copy_length_le s clen
  forward := hn
  place := h

theorem Moved.cut_to {s : Scan} {n : Nat} (clen : Nat) (o : OptionTag) (hn : s.opos ≤ n)
    (h : n ≤ s.src.length) : Moved clen s { (s.copy clen).cut o with opos := n } where
  page := List.length_set
  written := Scan.copy_length_le s clen
  forward := hn
  place := h

/-- The texts that are searched for are not empty. -/
def Worded : Action → Prop
  | .block end_tag => end_tag ≠ []
  | .marker => True
  | .option tail end_tag => tail ≠ [] ∧ end_tag ≠ []
  | .pageOption tail => tail ≠ []

theorem tests_worded : ∀ test ∈ tests, test.1 ≠ [] ∧ Worded test.2 := by
  simp only [tests, List.forall_mem_cons, List.not_mem_nil, false_imp_iff, implies_true, Worded]
  decide

theorem blockEnd_bounds {src : List UInt8} {begin_tag end_tag : Text} (hne : end_tag ≠ [])
    {turns next_end next_opt n : Nat}
    (h : blockEnd src begin_tag end_tag turns next_end next_opt = some n) :
    next_end ≤ n ∧ n + end_tag.length ≤ src.length := by
  induction turns generalizing next_end next_opt with
  | zero => cases h
  | succ turns ih =>
    rw [blockEnd] at h
    cases hend : strstrFrom src next_end end_tag with
    | none => simp [hend] at h
    | some blk_end =>
      have hfirst := strstrFrom_bounds hne hend
      rw [hend] at h
      dsimp only at h
      split at h
      · cases h
        exact hfirst
      · split at h
        · obtain ⟨hle, hlast⟩ := ih h
          exact ⟨hfirst.1.trans (Nat.le_of_add_right_le hle), hlast⟩
        · cases h
          exact hfirst

theorem optionTag_bounds {src : List UInt8} {optn : Nat} {tail : Text} (hne : tail ≠ [])
    {o : OptionTag} (h : optionTag src optn tail = some o) :
    optn < o.next ∧ o.next ≤ src.length := by
  obtain ⟨⟨inverse, start⟩, hstart, h⟩ := Option.bind_eq_some_iff.mp h
  obtain ⟨optb, htail, h⟩ := Option.bind_eq_some_iff.mp h
  cases h
  have hle : optn ≤ start := by
    rw [optionStart] at hstart
    split at hstart
    · cases hstart
      exact Nat.le_add_right _ _
    · split at hstart
      · cases hstart
        exact Nat.le_add_right _ _
      · cases hstart
  obtain ⟨hfrom, hlast⟩ := strstrFrom_bounds hne htail
  exact ⟨(hle.trans hfrom).trans_lt (Nat.lt_add_of_pos_right (List.length_pos_iff.mpr hne)), hlast⟩

theorem optionTurn_moves (optfile : Option (List UInt8)) (clen : Nat) {s : Scan}
    {tag tail end_tag : Text} (hs : s.opos ≤ s.src.length) (htag : tag ≠ []) (htail : tail ≠ [])
    (hend : end_tag ≠ []) : (optionTurn optfile clen s tag tail end_tag).Moves clen s := by
  have hpos := List.length_pos_iff.mpr htag
  rw [optionTurn]
  split
  · exact ⟨by decide, rfl, Nat.le_add_right _ _, le_rfl, hs⟩
  · rename_i blk_end hblk
    obtain ⟨hfrom, hlast⟩ := blockEnd_bounds hend hblk
    split
    · exact ⟨by decide, Moved.copy clen hs⟩
    · rename_i o ho
      obtain ⟨hname, hnext⟩ := optionTag_bounds htail ho
      split
      · have hfwd : s.opos < o.next := by omega
        refine ⟨hfwd, by omega, Nat.le_add_right _ _, hlast, ?_⟩
        exact Moved.cut_to clen o hfwd.le hnext
      · have hfwd : s.opos < blk_end + end_tag.length := by omega
        exact ⟨hfwd, Moved.cut_to clen o hfwd.le hlast, Or.inl rfl⟩

theorem turn_moves (optfile : Option (List UInt8)) (clen : Nat) {s : Scan}
    (hs : s.opos < s.src.length) : (turn optfile clen s).Moves clen s := by
  rw [turn]
  split
  · exact ⟨Nat.lt_succ_self _, ⟨rfl, Nat.le_add_right _ _, Nat.le_succ _, hs⟩, Or.inr ⟨rfl, rfl⟩⟩
  · rename_i end_tag htest
    have hend : end_tag ≠ [] := (tests_worded _ (List.mem_of_find?_eq_some htest)).2
    split
    · exact ⟨by decide, rfl, Nat.le_add_right _ _, le_rfl, hs.le⟩
    · rename_i blk_end hblk
      obtain ⟨hfrom, hlast⟩ := strstrFrom_bounds hend hblk
      have hpos := List.length_pos_iff.mpr hend
      have hfwd : s.opos < blk_end + end_tag.length := by omega
      exact ⟨hfwd, Moved.copy_to clen hfwd.le hlast, Or.inl rfl⟩
  · rename_i tag htest
    have htag : tag ≠ [] := (tests_worded _ (List.mem_of_find?_eq_some htest)).1
    have hhere := List.find?_some htest
    have hlen : tag.length ≤ (s.src.drop s.opos).length :=
      (List.isPrefixOf_iff_prefix.mp hhere).length_le
    rw [List.length_drop] at hlen
    have hpos := List.length_pos_iff.mpr htag
    have hfwd : s.opos < s.opos + tag.length := Nat.lt_add_of_pos_right hpos
    exact ⟨hfwd, Moved.copy_to clen hfwd.le (by omega), Or.inl rfl⟩
  · rename_i tag tail end_tag htest
    obtain ⟨htag, htail, hend⟩ := tests_worded _ (List.mem_of_find?_eq_some htest)
    exact optionTurn_moves optfile clen hs.le htag htail hend
  · rename_i tag tail htest
    obtain ⟨htag, htail⟩ := tests_worded _ (List.mem_of_find?_eq_some htest)
    split
    · exact ⟨by decide, Moved.copy clen hs.le⟩
    · rename_i o ho
      obtain ⟨hname, hnext⟩ := optionTag_bounds htail ho
      have hfwd : s.opos < o.next := by omega
      split
      · exact ⟨hfwd, Moved.cut_to clen o hfwd.le hnext, Or.inl rfl⟩
      · exact ⟨by decide, Moved.cut_to clen o hfwd.le hnext⟩

/-! ### Blocks inside blocks -/

/-- Every block of an option that is processed in the body of another ends inside it: with
its end tag it does not go past `limit`, which for a page is the end of the page. -/
def nested (optfile : Option (List UInt8)) : Nat → Nat → Nat → Nat → Scan → Bool
  | 0, _, _, _, _ => true
  | fuel + 1, oend, limit, clen, s =>
    if s.opos < oend then
      match turn optfile clen s with
      | .stop _ _ => true
      | .on clen' s' => nested optfile fuel oend limit clen' s'
      | .body blk_end after s' =>
        nested optfile fuel blk_end after 0 s' &&
          match scan optfile fuel blk_end 0 s' with
          | none => true
          | some (rc, s'') =>
            -- an error in the body ends the whole run
            rc < 0 || after ≤ limit && nested optfile fuel oend limit 0 { s'' with opos := after }
    else true

/-- The state of a call that has room for what it copies: what was written is covered by the
text that was passed, and by the text up to the end of the block. -/
structure Room (oend limit clen : Nat) (s : Scan) : Prop where
  end_le : oend ≤ limit
  limit_le : limit ≤ s.src.length
  place_le : s.opos ≤ s.src.length
  passed : s.out.length + clen ≤ s.opos
  inside : s.out.length + clen ≤ limit

theorem Room.on {oend limit clen clen' : Nat} {s s' : Scan} (h : Room oend limit clen s)
    (hplace : s.opos < oend) (hmoves : (Turn.on clen' s').Moves clen s) :
    Room oend limit clen' s' := by
  obtain ⟨hfwd, hmoved, hcopied⟩ := hmoves
  obtain ⟨hend, hlimit, -, hpassed, hinside⟩ := h
  have hpage := hmoved.page
  have hle := hmoved.place
  have hwritten := hmoved.written
  rcases hcopied with rfl | ⟨rfl, rfl⟩
  · exact ⟨hend, hpage ▸ hlimit, hpage ▸ hle, by omega, by omega⟩
  · exact ⟨hend, hlimit, hle, Nat.succ_le_succ hpassed, by dsimp only; omega⟩

theorem Room.body {oend limit clen blk_end after : Nat} {s s' : Scan}
    (h : Room oend limit clen s) (hmoves : (Turn.body blk_end after s').Moves clen s) :
    Room blk_end after 0 s' := by
  obtain ⟨hfwd, hblk, hend, hafter, hmoved⟩ := hmoves
  have hpage := hmoved.page
  have hwritten := hmoved.written
  have hpassed := h.passed
  exact ⟨hend, hpage ▸ hafter, hpage ▸ hmoved.place, by omega, by omega⟩

/-- Where a call leaves the scanner: in the page, with no more written than was passed and,
if it does not fail, no more than the text up to the end of its block. -/
structure Inside (limit : Nat) (s : Scan) (rc : Int) (s' : Scan) : Prop where
  page : s'.src.length = s.src.length
  passed : s'.out.length ≤ s'.opos
  place_le : s'.opos ≤ s.src.length
  inside : 0 ≤ rc → s'.out.length ≤ limit

theorem Inside.of_page {limit : Nat} {s₁ s s' : Scan} {rc : Int} (h : Inside limit s₁ rc s')
    (hpage : s₁.src.length = s.src.length) : Inside limit s rc s' where
  page := h.page.trans hpage
  passed := h.passed
  place_le := hpage ▸ h.place_le
  inside := h.inside

/-- The caller has room again behind the block of a body that stayed inside it. -/
theorem Room.after {oend limit clen after : Nat} {s s' : Scan} {rc : Int}
    (h : Room oend limit clen s) (hinside : Inside after s rc s') (hrc : 0 ≤ rc)
    (hlimit : after ≤ limit) : Room oend limit 0 { s' with opos := after } := by
  have hpage := hinside.page
  have hwritten := hinside.inside hrc
  obtain ⟨hend, hle, -, -, -⟩ := h
  exact ⟨hend, hpage ▸ hle, hpage ▸ hlimit.trans hle, hwritten, hwritten.trans hlimit⟩

theorem scan_stays_inside {optfile : Option (List UInt8)} {fuel oend limit clen : Nat} {s : Scan}
    (hfuel : s.src.length < s.opos + fuel) (hroom : Room oend limit clen s)
    (hnested : nested optfile fuel oend limit clen s = true) :
    ∃ rc s', scan optfile fuel oend clen s = some (rc, s') ∧ Inside limit s rc s' := by
  induction fuel generalizing oend limit clen s with
  | zero => exact absurd hroom.place_le (Nat.not_le_of_lt hfuel)
  | succ fuel ih =>
    rw [scan_succ]
    rw [nested] at hnested
    split
    · rename_i hplace
      have hin : s.opos < s.src.length := hplace.trans_le (hroom.end_le.trans hroom.limit_le)
      have hmoves := turn_moves optfile clen hin
      rw [if_pos hplace] at hnested
      cases hturn : turn optfile clen s with
      | stop rc s' =>
        rw [hturn] at hmoves
        obtain ⟨hrc, hmoved⟩ := hmoves
        refine ⟨rc, s', rfl, hmoved.page, ?_, hmoved.place, fun h => absurd h (Int.not_le.mpr hrc)⟩
        have hpassed := hroom.passed
        have hwritten := hmoved.written
        have hforward := hmoved.forward
        omega
      | on clen' s' =>
        rw [hturn] at hmoves hnested
        have hpage := hmoves.2.1.page
        have hfwd := hmoves.1
        obtain ⟨rc, s'', hscan, hinside⟩ := ih (by omega) (hroom.on hplace hmoves) hnested
        exact ⟨rc, s'', hscan, hinside.of_page hpage⟩
      | body blk_end after s' =>
        rw [hturn] at hmoves hnested
        have hbody := hroom.body hmoves
        obtain ⟨hfwd, hblk, hend, -, hmoved⟩ := hmoves
        have hpage := hmoved.page
        obtain ⟨hinner, hrest⟩ := Bool.and_eq_true_iff.mp hnested
        obtain ⟨rc, s'', hscan, hinside⟩ := ih (by omega) hbody hinner
        have hinside := hinside.of_page hpage
        rw [hscan] at hrest
        dsimp only at hrest ⊢
        rw [hscan]
        dsimp only
        split
        · exact ⟨-1, s'', rfl, hinside.page, hinside.passed, hinside.place_le, nofun⟩
        · rename_i hrc
          -- the body is done, and its caller goes on at the end of the block
          rw [decide_eq_false hrc, Bool.false_or, Bool.and_eq_true_iff] at hrest
          obtain ⟨hlimit, hrest⟩ := hrest
          have hgoing := hroom.after hinside (Int.not_lt.mp hrc) (of_decide_eq_true hlimit)
          have hkept := hinside.page
          obtain ⟨rc', s₃, hscan', hinside'⟩ := ih (by dsimp only; omega) hgoing hrest
          exact ⟨rc', s₃, hscan', hinside'.of_page hkept⟩
    · have hwritten := Scan.copy_length_le s clen
      exact ⟨0, s.copy clen, rfl, rfl, hwritten.trans hroom.passed, hroom.place_le,
        fun _ => hwritten.trans hroom.inside⟩

/-- The same of the call for a whole page. -/
def optionsNested (optfile : Option (List UInt8)) (page : List UInt8) : Bool :=
  nested optfile (page.length + page.length + 1) page.length page.length 0 ⟨page, 0, [], 0⟩

/-- A page whose option blocks end inside each other fits in a block of its own length. -/
theorem page_fits_in_its_block (optfile : Option (List UInt8)) (page : List UInt8)
    (hnested : optionsNested optfile page = true) :
    ∃ rc s, proc_tag optfile ⟨page, 0, [], 0⟩ page.length = some (rc, s) ∧
      s.out.length ≤ page.length := by
  have hroom : Room page.length page.length 0 ⟨page, 0, [], 0⟩ :=
    ⟨le_rfl, le_rfl, Nat.zero_le _, le_rfl, Nat.zero_le _⟩
  have hfuel : page.length < 0 + (page.length + page.length + 1) := by omega
  obtain ⟨rc, s, hscan, hinside⟩ := scan_stays_inside hfuel hroom hnested
  refine ⟨rc, s, ?_, hinside.passed.trans hinside.place_le⟩
  rw [proc_tag, Nat.zero_add]
  exact hscan

def sampleOptions : List UInt8 := ascii "#define A\n#define B\n"

def nestedPage : List UInt8 :=
  ascii "/*OPT#A*/ <!--OPT#B--> b <!--END_OPT--> /*END_OPT*/ <!--DEMO-->d<!--END_DEMO-->"

theorem page_fits_in_its_block_sample :
    ∃ rc s, proc_tag (some sampleOptions) ⟨nestedPage, 0, [], 0⟩ nestedPage.length = some (rc, s) ∧
      s.out.length ≤ nestedPage.length :=
  page_fits_in_its_block (some sampleOptions) nestedPage (by decide +kernel)

/-- The block of option B ends behind the block of option A in which it starts. -/
def crossedPage : List UInt8 :=
  ascii "/*OPT#A*/<!--OPT#B-->/*END_OPT*/" ++ List.replicate 40 0x78 ++ ascii "<!--END_OPT-->"

theorem crossed_page_overruns :
    ∃ s, proc_tag (some sampleOptions) ⟨crossedPage, 0, [], 0⟩ crossedPage.length = some (0, s) ∧
      crossedPage.length + 1 < s.out.length := by
  have hrun : ((proc_tag (some sampleOptions) ⟨crossedPage, 0, [], 0⟩ crossedPage.length).map
      fun result => (result.1, result.2.out.length)) = some (0, 105) := by decide +kernel
  have hpage : crossedPage.length + 1 < 105 := by decide +kernel
  obtain ⟨⟨rc, s⟩, hs, hlen⟩ := Option.map_eq_some_iff.mp hrun
  have hrc : rc = 0 := congrArg Prod.fst hlen
  have hout : s.out.length = 105 := congrArg Prod.snd hlen
  exact ⟨s, hrc ▸ hs, hout ▸ hpage⟩

end AksFirmware.PageOutput
