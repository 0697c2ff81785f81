import AksFirmware.SiteSurvey

/-!
# Reading a survey that is cut short

The loops of `getfield` and `trimup_info` stop at commas and at the ends of lines and not at
the zero that ends the text.  They stay within it if every field that is started ends before
the text does.  The buffers are long enough for what is copied to them, but for `tmp` of
`getsecurity`.

`survey_safe_iff` says which texts are read without a fault.  The loop over the rows ends for
every text (`loop_ends`).
-/

namespace AksFirmware.SurveyScan

open ByteMemory CText SiteSurvey

/-! ### Which texts are in order -/

/-- What must be ahead of a field; `SSID` is what was read for it. -/
def FieldFits (rest : List UInt8) (SSID : Text) : Field → Prop
  | .channel => FieldEnds 10 rest
  | .ssid => FieldEnds 33 rest
  | .bssid => is_mac_add SSID = true ∨ FieldEnds 30 rest
  | .security =>
    FieldEnds 80 rest ∧
      (fieldRest 80 rest = [] ∨ (encryption (fieldText 80 rest)).length ≤ 10)
  | .signal => FieldEnds 8 rest
  | .mode => FieldEnds 60 rest
  | .extch => FieldEnds 60 rest
  | .nettype =>
    FieldEnds 60 rest ∧ (fieldRest 60 rest = [] ∨ ∃ c ∈ fieldRest 60 rest, isEol c = true)

instance (rest : List UInt8) (SSID : Text) : (field : Field) → Decidable (FieldFits rest SSID field)
  | .channel => inferInstanceAs (Decidable (FieldEnds 10 rest))
  | .ssid => inferInstanceAs (Decidable (FieldEnds 33 rest))
  | .bssid => inferInstanceAs (Decidable (is_mac_add SSID = true ∨ FieldEnds 30 rest))
  | .security => inferInstanceAs (Decidable (FieldEnds 80 rest ∧
      (fieldRest 80 rest = [] ∨ (encryption (fieldText 80 rest)).length ≤ 10)))
  | .signal => inferInstanceAs (Decidable (FieldEnds 8 rest))
  | .mode => inferInstanceAs (Decidable (FieldEnds 60 rest))
  | .extch => inferInstanceAs (Decidable (FieldEnds 60 rest))
  | .nettype => inferInstanceAs (Decidable (FieldEnds 60 rest ∧
      (fieldRest 60 rest = [] ∨ ∃ c ∈ fieldRest 60 rest, isEol c = true)))

/-- What is left of the text behind a field. -/
def place (rest : List UInt8) (SSID : Text) : Field → List UInt8
  | .channel => fieldRest 10 rest
  | .ssid => fieldRest 33 rest
  | .bssid => if is_mac_add SSID then rest else fieldRest 30 rest
  | .security => fieldRest 80 rest
  | .signal => fieldRest 8 rest
  | .mode => fieldRest 60 rest
  | .extch => fieldRest 60 rest
  | .nettype => ((fieldRest 60 rest).dropWhile (! isEol ·)).tail

def ssidBehind (rest : List UInt8) (SSID : Text) : Field → Text
  | .ssid => fieldText 33 rest
  | .bssid => if is_mac_add SSID then [] else SSID
  | _ => SSID

/-- Each field fits that starts where something is left. -/
def FieldsFit : List Field → List UInt8 → Text → Prop
  | [], _, _ => True
  | field :: fields, rest, SSID =>
    FieldFits rest SSID field ∧ (place rest SSID field = [] ∨
      FieldsFit fields (place rest SSID field) (ssidBehind rest SSID field))

instance FieldsFit.decidable : (fields : List Field) → (rest : List UInt8) → (SSID : Text) →
    Decidable (FieldsFit fields rest SSID)
  | [], _, _ => inferInstanceAs (Decidable True)
  | field :: fields, rest, SSID =>
    have := decidable fields (place rest SSID field) (ssidBehind rest SSID field)
    inferInstanceAs (Decidable (FieldFits rest SSID field ∧ (place rest SSID field = [] ∨
      FieldsFit fields (place rest SSID field) (ssidBehind rest SSID field))))

def placeBehind : List Field → List UInt8 → Text → List UInt8
  | [], rest, _ => rest
  | field :: fields, rest, SSID =>
    if place rest SSID field = [] then []
    else placeBehind fields (place rest SSID field) (ssidBehind rest SSID field)

/-- A row does not depend on the SSID of the one in front of it. -/
def RowFits (rest : List UInt8) : Prop := FieldsFit rowFields rest []

instance (rest : List UInt8) : Decidable (RowFits rest) :=
  inferInstanceAs (Decidable (FieldsFit rowFields rest []))

def behindRow (rest : List UInt8) : List UInt8 := placeBehind rowFields rest []

/-- Where the rows of a text start, one behind the other as long as they fit. -/
inductive RowStart (text : List UInt8) : List UInt8 → Prop
  | first : RowStart text text
  | next {rest : List UInt8} (h : RowStart text rest) (hne : rest ≠ []) (hfits : RowFits rest) :
    RowStart text (behindRow rest)

/-- The text is taken apart without a fault, whatever the buffers hold at first. -/
def Safe (text : List UInt8) : Prop :=
  ∀ tmp info, ∃ turns s, surveyLoop tmp text.length turns ⟨text, info, []⟩ = some (.ok s)

/-! ### One field -/

section

variable {tmp : List UInt8} {len : Nat} {rest : List UInt8} {s : Info}

/-- A reading with an outcome for its place and SSID, or a fault. -/
def Reads (rest' : List UInt8) (SSID : Text) (fits : Prop)
    (r : Except Fault (Info × List UInt8)) : Prop :=
  (fits → ∃ s', r = .ok (s', rest') ∧ s'.SSID = SSID) ∧ (¬ fits → ∃ f, r = .error f)

theorem exists_ok_ite {α : Type} {p : Prop} [Decidable p] {a : α} {x : Except Fault α}
    (h : ∃ r, x = .ok r) : ∃ r, (if p then .ok a else x) = .ok r := by
  split
  · exact ⟨a, rfl⟩
  · exact h

theorem getsecurity_fits (tmp : List UInt8) {c : Text} (h : (encryption c).length ≤ 10) :
    ∃ r, getsecurity tmp c = .ok r := by
  have hother : ¬ 10 < (encryption c).length := Nat.not_lt.mpr h
  rw [getsecurity, if_neg hother]
  exact exists_ok_ite (exists_ok_ite (exists_ok_ite (exists_ok_ite (exists_ok_ite ⟨_, rfl⟩))))

theorem getsecurity_overruns (tmp : List UInt8) {c : Text} (h : ¬ (encryption c).length ≤ 10) :
    getsecurity tmp c = .error .past_buffer := by
  have hnot (t : Text) (ht : (encryption t).length ≤ 10) : c ≠ t := fun heq => h (heq ▸ ht)
  rw [getsecurity, if_neg (hnot _ (by decide)), if_neg (hnot _ (by decide)),
    if_neg (hnot _ (by decide)), if_neg (hnot _ (by decide)), if_neg (hnot _ (by decide)),
    if_pos (Nat.lt_of_not_le h)]

/-- A field is read, and what is behind it is done. -/
theorem Reads.field {para n size : Nat} (hlimit : limit para = some n) (hsize : n + 2 ≤ size)
    (hlen : rest.length ≤ len) {rest' : List UInt8} {SSID : Text} {fits : Prop}
    {next : Text × List UInt8 → Except Fault (Info × List UInt8)}
    (hnext : Reads rest' SSID fits (next (fieldText n rest, fieldRest n rest))) :
    Reads rest' SSID (FieldEnds n rest ∧ fits) (getfield len size para rest >>= next) := by
  rw [getfield_eq hlimit hsize hlen]
  by_cases hends : FieldEnds n rest
  · rw [if_pos hends]
    refine ⟨fun h => hnext.1 h.2, fun h => hnext.2 fun hfits => h ⟨hends, hfits⟩⟩
  · rw [if_neg hends]
    exact ⟨fun h => absurd h.1 hends, fun _ => ⟨_, rfl⟩⟩

theorem Reads.ok {rest' : List UInt8} {SSID : Text} {s' : Info} (h : s'.SSID = SSID) :
    Reads rest' SSID True (.ok (s', rest')) :=
  ⟨fun _ => ⟨s', rfl, h⟩, fun h => absurd trivial h⟩

/-- A field that is only stored. -/
theorem Reads.stored (s' : Info) {para n size : Nat} (hlimit : limit para = some n) (hsize : n + 2 ≤ size)
    (hlen : rest.length ≤ len) {SSID : Text}
    {next : Text × List UInt8 → Except Fault (Info × List UInt8)}
    (hnext : next (fieldText n rest, fieldRest n rest) = .ok (s', fieldRest n rest))
    (hssid : s'.SSID = SSID) :
    Reads (fieldRest n rest) SSID (FieldEnds n rest) (getfield len size para rest >>= next) := by
  have hreads := Reads.field hlimit hsize hlen (hnext ▸ Reads.ok hssid)
  rwa [and_true] at hreads

theorem readField_reads (tmp : List UInt8) (hlen : rest.length ≤ len) (field : Field) :
    Reads (place rest s.SSID field) (ssidBehind rest s.SSID field) (FieldFits rest s.SSID field)
      (readField tmp len rest s field) := by
  cases field with
  | channel =>
    by_cases hrest : fieldRest 10 rest = []
    · refine Reads.stored s rfl (by decide) hlen ?_ rfl
      exact if_pos hrest
    · refine Reads.stored { s with nChannel := atoi (fieldText 10 rest) } rfl (by decide)
        hlen ?_ rfl
      exact if_neg hrest
  | ssid => exact Reads.stored { s with SSID := fieldText 33 rest } rfl (by decide) hlen rfl rfl
  | bssid =>
    cases hmac : is_mac_add s.SSID with
    | true =>
      have hread : readField tmp len rest s .bssid =
          .ok ({ s with BSSID := s.SSID, SSID := [] }, rest) := if_pos hmac
      simp only [place, ssidBehind, FieldFits, hmac, if_true, true_or]
      exact hread ▸ Reads.ok rfl
    | false =>
      have hread : readField tmp len rest s .bssid = getfield len 35 2 rest >>= fun x =>
          .ok ({ s with BSSID := x.1 }, x.2) := if_neg (by simp [hmac])
      simp only [place, ssidBehind, FieldFits, hmac, Bool.false_eq_true, if_false, false_or]
      rw [hread]
      exact Reads.stored { s with BSSID := fieldText 30 rest } rfl (by decide) hlen rfl rfl
  | security =>
    refine Reads.field rfl (by decide) hlen ?_
    by_cases hrest : fieldRest 80 rest = []
    · simp only [place, hrest, if_true, true_or]
      exact Reads.ok rfl
    · simp only [place, hrest, if_false, false_or]
      by_cases hroom : (encryption (fieldText 80 rest)).length ≤ 10
      · obtain ⟨r, hr⟩ := getsecurity_fits tmp hroom
        rw [hr]
        exact ⟨fun _ => ⟨_, rfl, rfl⟩, fun h => absurd hroom h⟩
      · rw [getsecurity_overruns tmp hroom]
        exact ⟨fun h => absurd h hroom, fun _ => ⟨_, rfl⟩⟩
  | signal => exact Reads.stored { s with RSSI := fieldText 8 rest } rfl (by decide) hlen rfl rfl
  | mode => exact Reads.stored s rfl (by decide) hlen rfl rfl
  | extch => exact Reads.stored s rfl (by decide) hlen rfl rfl
  | nettype =>
    refine Reads.field rfl (by decide) hlen ?_
    by_cases hrest : fieldRest 60 rest = []
    · simp only [place, hrest, if_true, true_or, List.dropWhile_nil, List.tail_nil]
      exact Reads.ok rfl
    · simp only [place, hrest, if_false, false_or]
      by_cases hline : ∃ c ∈ fieldRest 60 rest, isEol c = true
      · obtain ⟨c, behind, hdrop⟩ : ∃ c behind,
            (fieldRest 60 rest).dropWhile (! isEol ·) = c :: behind := by
          refine List.exists_cons_of_ne_nil fun hnil => ?_
          obtain ⟨c, hc, heol⟩ := hline
          simpa [heol] using List.dropWhile_eq_nil_iff.mp hnil c hc
        rw [hdrop]
        exact ⟨fun _ => ⟨_, rfl, rfl⟩, fun h => absurd hline h⟩
      · have hnil : (fieldRest 60 rest).dropWhile (! isEol ·) = [] := by
          refine List.dropWhile_eq_nil_iff.mpr fun c hc => ?_
          have hnot : ¬ isEol c = true := fun heol => hline ⟨c, hc, heol⟩
          simpa using hnot
        rw [hnil]
        exact ⟨fun h => absurd h hline, fun _ => ⟨_, rfl⟩⟩

/-! ### One row -/

theorem length_passEol (t : List UInt8) : (passEol t).length ≤ t.length := by
  cases t with
  | nil => exact Nat.le_refl _
  | cons ch t =>
    rw [passEol]
    split
    · exact Nat.le_succ _
    · exact Nat.le_refl _

theorem length_fieldRest (n : Nat) (rest : List UInt8) : (fieldRest n rest).length ≤ rest.length := by
  have hcommas := (List.dropWhile_sublist (l := (rest.dropWhile isEol).drop (fieldSource n rest).length)
    (· = comma)).length_le
  have hdrop := (List.drop_sublist (fieldSource n rest).length (rest.dropWhile isEol)).length_le
  have heol := (List.dropWhile_sublist (l := rest) isEol).length_le
  exact (length_passEol _).trans (hcommas.trans (hdrop.trans heol))

theorem length_place (rest : List UInt8) (SSID : Text) (field : Field) :
    (place rest SSID field).length ≤ rest.length := by
  cases field with
  | bssid =>
    rw [place]
    split
    · exact Nat.le_refl _
    · exact length_fieldRest 30 rest
  | nettype =>
    have hdrop := (List.dropWhile_sublist (l := fieldRest 60 rest) (! isEol ·)).length_le
    rw [place, List.length_tail]
    exact (Nat.sub_le _ 1).trans (hdrop.trans (length_fieldRest 60 rest))
  | channel | ssid | security | signal | mode | extch => exact length_fieldRest _ rest

/-- A field that ends passes a character of its own, or a comma. -/
theorem fieldRest_lt {n : Nat} (h : FieldEnds n rest) : (fieldRest n rest).length < rest.length := by
  have heol := (List.dropWhile_sublist (l := rest) isEol).length_le
  rw [FieldEnds] at h
  rw [fieldRest, fieldSource]
  cases ht : rest.dropWhile isEol with
  | nil => simp [ht] at h
  | cons ch t =>
    rw [ht, List.length_cons] at heol
    refine lt_of_le_of_lt (length_passEol _) (lt_of_lt_of_le ?_ heol)
    cases hsep : isSeparator ch with
    | false =>
      have hdrop := (List.dropWhile_sublist (l := (ch :: t).drop
        (((ch :: t).takeWhile (! isSeparator ·)).take (n + 1)).length) (· = comma)).length_le
      refine lt_of_le_of_lt hdrop ?_
      rw [List.takeWhile_cons_of_pos (by simp [hsep]), List.take_succ_cons, List.length_cons,
        List.drop_succ_cons, List.length_drop]
      omega
    | true =>
      have hcomma : ch = comma := by
        have hnot : isEol ch = false := by simpa using not_of_dropWhile_cons ht
        simpa [isSeparator, hnot] using hsep
      have hdrop := (List.dropWhile_sublist (l := t) (· = comma)).length_le
      rw [List.takeWhile_cons_of_neg (by simp [hsep]), List.take_nil, List.length_nil,
        List.drop_zero, List.dropWhile_cons_of_pos (by simpa using hcomma)]
      omega

theorem readFields_reads (fields : List Field) (hlen : rest.length ≤ len) :
    (FieldsFit fields rest s.SSID → ∃ s',
      readFields tmp len fields rest s = .ok (s', placeBehind fields rest s.SSID)) ∧
    (¬ FieldsFit fields rest s.SSID → ∃ f, readFields tmp len fields rest s = .error f) := by
  induction fields generalizing rest s with
  | nil => exact ⟨fun _ => ⟨s, rfl⟩, fun h => absurd trivial h⟩
  | cons field fields ih =>
    obtain ⟨hok, herror⟩ := readField_reads tmp (s := s) hlen field
    rw [readFields, FieldsFit, placeBehind]
    by_cases hfits : FieldFits rest s.SSID field
    · obtain ⟨s', hread, hssid⟩ := hok hfits
      rw [hread]
      dsimp only
      by_cases hend : place rest s.SSID field = []
      · simp only [hend, if_true, true_or, and_true]
        exact ⟨fun _ => ⟨s', rfl⟩, fun h => absurd hfits h⟩
      · have hrest := ih (s := s') ((length_place rest s.SSID field).trans hlen)
        rw [hssid] at hrest
        simp only [hend, if_false, false_or, hfits, true_and]
        exact hrest
    · obtain ⟨f, hread⟩ := herror hfits
      rw [hread]
      exact ⟨fun h => absurd h.1 hfits, fun _ => ⟨f, rfl⟩⟩

theorem trimup_info_reads (tmp : List UInt8) (hlen : rest.length ≤ len) :
    (RowFits rest → ∃ s', trimup_info tmp len rest s = .ok (s', behindRow rest)) ∧
      (¬ RowFits rest → ∃ f, trimup_info tmp len rest s = .error f) :=
  readFields_reads rowFields hlen

theorem length_placeBehind (fields : List Field) (rest : List UInt8) (SSID : Text) :
    (placeBehind fields rest SSID).length ≤ rest.length := by
  induction fields generalizing rest SSID with
  | nil => exact Nat.le_refl _
  | cons field fields ih =>
    rw [placeBehind]
    split
    · exact Nat.zero_le _
    · exact (ih _ _).trans (length_place rest SSID field)

/-- Every row is shorter than what is left of the text. -/
theorem length_behindRow (h : RowFits rest) : (behindRow rest).length < rest.length := by
  have hfirst := fieldRest_lt h.1
  rw [behindRow, rowFields, placeBehind]
  split
  · exact lt_of_le_of_lt (Nat.zero_le _) hfirst
  · exact lt_of_le_of_lt (length_placeBehind _ _ _) hfirst

end

/-! ### All rows -/

section

variable {tmp : Nat → List UInt8} {len : Nat}

theorem surveyTurn_reads {s : Survey} (hlen : s.rest.length ≤ len) (garbage : List UInt8) :
    (RowFits s.rest → ∃ s', surveyTurn garbage len s = .ok s' ∧ s'.rest = behindRow s.rest) ∧
      (¬ RowFits s.rest → ∃ f, surveyTurn garbage len s = .error f) := by
  obtain ⟨hok, herror⟩ := trimup_info_reads garbage (s := s.info) hlen
  rw [surveyTurn]
  constructor
  · intro hfits
    obtain ⟨info, hread⟩ := hok hfits
    rw [hread]
    dsimp only
    split
    · exact ⟨_, rfl, rfl⟩
    · exact ⟨_, rfl, rfl⟩
  · intro hfits
    obtain ⟨f, hread⟩ := herror hfits
    rw [hread]
    exact ⟨f, rfl⟩

/-- The loop ends, be it with a fault. -/
theorem loop_ends {turns : Nat} {s : Survey} (hlen : s.rest.length ≤ len)
    (hturns : s.rest.length ≤ turns) : surveyLoop tmp len turns s ≠ none := by
  induction turns generalizing s with
  | zero =>
    rw [surveyLoop, if_pos (List.eq_nil_of_length_eq_zero (Nat.le_zero.mp hturns))]
    exact Option.some_ne_none _
  | succ turns ih =>
    rw [surveyLoop]
    split
    · exact Option.some_ne_none _
    · obtain ⟨hok, herror⟩ := surveyTurn_reads hlen (tmp s.rest.length)
      by_cases hfits : RowFits s.rest
      · obtain ⟨s', hturn, hrest⟩ := hok hfits
        have hlt := length_behindRow hfits
        rw [hturn]
        exact ih (by rw [hrest]; omega) (by rw [hrest]; omega)
      · obtain ⟨f, hturn⟩ := herror hfits
        rw [hturn]
        exact Option.some_ne_none _

/-- Every row from some place on fits. -/
def AllFit (rest : List UInt8) : Prop := ∀ rest', RowStart rest rest' → rest' ≠ [] → RowFits rest'

theorem RowStart.front {text rest : List UInt8} (hne : text ≠ []) (hfits : RowFits text)
    (h : RowStart (behindRow text) rest) : RowStart text rest := by
  induction h with
  | first => exact .next .first hne hfits
  | next _ hne' hfits' ih => exact .next ih hne' hfits'

theorem allFit_iff {rest : List UInt8} (hne : rest ≠ []) :
    AllFit rest ↔ RowFits rest ∧ AllFit (behindRow rest) := by
  constructor
  · intro h
    have hfits := h rest .first hne
    exact ⟨hfits, fun rest' hstart => h rest' (hstart.front hne hfits)⟩
  · rintro ⟨hfits, hbehind⟩ rest' hstart
    -- every row but the first is behind the first
    have hsplit : rest' = rest ∨ RowStart (behindRow rest) rest' := by
      induction hstart with
      | first => exact .inl rfl
      | next _ hne' hfits' ih =>
        rcases ih with rfl | ih
        · exact .inr .first
        · exact .inr (.next ih hne' hfits')
    rcases hsplit with rfl | hstart'
    · exact fun _ => hfits
    · exact hbehind rest' hstart'

theorem allFit_nil : AllFit [] := by
  intro rest hstart hne
  have hnil : rest = [] := by
    clear hne
    induction hstart with
    | first => rfl
    | next _ hne _ ih => exact absurd ih hne
  exact absurd hnil hne

theorem allFit_of_loop {turns : Nat} {s s' : Survey} (hlen : s.rest.length ≤ len)
    (h : surveyLoop tmp len turns s = some (.ok s')) : AllFit s.rest := by
  induction turns generalizing s with
  | zero =>
    rw [surveyLoop] at h
    rw [(Option.ite_none_right_eq_some.mp h).1]
    exact allFit_nil
  | succ turns ih =>
    rw [surveyLoop] at h
    split at h
    · rename_i hend
      rw [hend]
      exact allFit_nil
    · rename_i hne
      obtain ⟨hok, herror⟩ := surveyTurn_reads hlen (tmp s.rest.length)
      by_cases hfits : RowFits s.rest
      · obtain ⟨s₁, hturn, hrest⟩ := hok hfits
        have hlt := length_behindRow hfits
        rw [hturn] at h
        have hbehind := ih (s := s₁) (by rw [hrest]; omega) h
        rw [hrest] at hbehind
        exact (allFit_iff hne).mpr ⟨hfits, hbehind⟩
      · obtain ⟨f, hturn⟩ := herror hfits
        rw [hturn] at h
        cases h

theorem loop_of_allFit {turns : Nat} {s : Survey} (hlen : s.rest.length ≤ len)
    (hturns : s.rest.length ≤ turns) (h : AllFit s.rest) :
    ∃ s', surveyLoop tmp len turns s = some (.ok s') := by
  induction turns generalizing s with
  | zero =>
    exact ⟨s, by rw [surveyLoop, if_pos (List.eq_nil_of_length_eq_zero (Nat.le_zero.mp hturns))]⟩
  | succ turns ih =>
    rw [surveyLoop]
    split
    · exact ⟨s, rfl⟩
    · rename_i hne
      obtain ⟨hfits, hbehind⟩ := (allFit_iff hne).mp h
      obtain ⟨s', hturn, hrest⟩ := (surveyTurn_reads hlen (tmp s.rest.length)).1 hfits
      have hlt := length_behindRow hfits
      rw [hturn]
      exact ih (by rw [hrest]; omega) (by rw [hrest]; omega) (hrest ▸ hbehind)

end

/-- **Texts that are read without a fault.**  The loop over the rows of a text stays within
the text and its buffers if and only if every field of it that is started ends before the
text does, with an encryption of ten characters at most and a line end behind the last. -/
theorem survey_safe_iff (text : List UInt8) : Safe text ↔ AllFit text := by
  constructor
  · intro h
    obtain ⟨turns, s, hloop⟩ := h (fun _ => []) ⟨[], [], 0, [], [], [], []⟩
    exact allFit_of_loop (s := ⟨text, _, []⟩) (Nat.le_refl _) hloop
  · intro h tmp info
    exact ⟨text.length, loop_of_allFit (s := ⟨text, info, []⟩) (Nat.le_refl _) (Nat.le_refl _) h⟩

/-- A text that is cut in its SSID is read past its end, and what is copied of the security to
`tmp` is longer than `tmp`. -/
theorem faulty_texts : ¬ Safe (ascii "6,Net") ∧
    ¬ Safe (ascii "6,Net,00:11:22:33:44:55,WPA2/TKIPTKIPTKIP,70,n,NONE,In\n") := by
  have hnot {text : List UInt8} (hne : text ≠ []) (hfits : ¬ RowFits text) : ¬ Safe text := by
    intro h
    obtain ⟨turns, s, hloop⟩ := h (fun _ => []) ⟨[], [], 0, [], [], [], []⟩
    exact hfits (allFit_of_loop (s := ⟨text, _, []⟩) (Nat.le_refl _) hloop text .first hne)
  exact ⟨hnot (by decide) (by decide +kernel), hnot (by decide) (by decide +kernel)⟩

end AksFirmware.SurveyScan
