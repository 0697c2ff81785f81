import AksFirmware.WebConfig

/-!
# Setting and reading an option

Seen from outside, the record is a map from configuration ids to texts, and a setting
within the capacity of its member is an update of that map at one id (`shown_set`).  The
laws of a lens are then those of `Function.update`, for one setting and for a sequence of
them (`shown_sets`).

Another option keeps its value because its own text ends inside its own array.  A record
has this property when the factory settings are in place, and every such setting keeps it.
-/

namespace AksFirmware.ConfigLens

open ByteMemory CText WebConfig

/-! ### The capacity of an option -/

/-- The longest text that is stored whole: one character less than the limit of the
`snprintf`, or than the array. -/
def capacity : Field × Option Nat → Nat
  | (_, some k) => k - 1
  | (f, none) => f.size - 1

/-- A text for an option: without a zero, and no longer than the capacity. -/
structure Fits (id : Nat) (val : Text) : Prop where
  zero : (0 : UInt8) ∉ val
  short : ∀ p ∈ setCases.lookup id, val.length ≤ capacity p

/-- What `ratpac_get_str` prints for a text. -/
def printed (val : Text) : Text := if val = [] then ascii "0" else val

/-- The options as `ratpac_get_str` shows them. -/
def shown (n : Nat) (g : Mem) (id : Nat) : Int × Text := ratpac_get_str ⟨g, n⟩ id

/-- The switch that reads has a case for every id that the switch that writes has one for,
with the same member and no smaller limit. -/
theorem cases_agree : ∀ p ∈ setCases, capacity p.2 < p.2.1.size ∧
    ∃ q ∈ getCases.lookup p.1, q.1 = p.2.1 ∧ ∀ k ∈ q.2, capacity p.2 ≤ k - 1 := by
  decide

/-- No two ids name one member. -/
theorem cases_apart : ∀ p ∈ setCases, ∀ q ∈ getCases, q.1 ≠ p.1 → q.2.1 ≠ p.2.1 := by decide

theorem mem_of_lookup {cases : List (Nat × Field × Option Nat)} {id : Nat}
    {p : Field × Option Nat} (h : cases.lookup id = some p) : (id, p) ∈ cases := by
  obtain ⟨before, after, hsplit, -⟩ := List.lookup_eq_some_iff.mp h
  exact hsplit ▸ List.mem_append_right before List.mem_cons_self

/-! ### The texts of the record after a setting -/

theorem limited_eq_self {p : Field × Option Nat} {val : Text} (h : val.length ≤ capacity p) :
    limited p.2 val = val := by
  obtain ⟨f, limit⟩ := p
  cases limit with
  | none => rfl
  | some k => exact List.take_of_length_le h

/-- A text that fits is copied whole. -/
theorem ratpac_set_str_fits {id : Nat} {p : Field × Option Nat}
    (hcase : setCases.lookup id = some p) {val : Text} (hfit : Fits id val) (g : Mem) :
    (ratpac_set_str g id val).2 = setField g p.1 val ∧ val.length < p.1.size := by
  have hcap := (cases_agree _ (mem_of_lookup hcase)).1
  have hlen := hfit.short p hcase
  refine ⟨?_, Nat.lt_of_le_of_lt hlen hcap⟩
  rw [ratpac_set_str, hcase]
  exact congrArg (setField g p.1) (limited_eq_self hlen)

theorem fieldText_setField_self {f : Field} {val : Text} (hzero : (0 : UInt8) ∉ val)
    (hlen : val.length < f.size) (g : Mem) : fieldText (setField g f val) f = val := by
  have hend := f.end_le
  exact text_storeText g hzero (by omega)

theorem fieldText_setField_other {f f' : Field} {val : Text} (hlen : val.length < f.size)
    (hne : f' ≠ f) {g : Mem} (hterm : Terminated g f'.offset f'.size) :
    fieldText (setField g f val) f' = fieldText g f' := by
  have hsame : ∀ i < f'.size, setField g f val (f'.offset + i) = g (f'.offset + i) :=
    fun _ hi => setField_other hlen hne hi
  have hend := f'.end_le
  have hle : f'.size ≤ WEB_DATA_SIZE - f'.offset := by omega
  rw [fieldText, fieldText, ((terminated_congr hsame).mpr hterm).text_eq_of_le hle,
    hterm.text_eq_of_le hle, text_congr hsame]

/-- What a setting leaves behind the end of a text is not read, not even through a text
before it that runs on. -/
theorem fieldText_setField_setField {f : Field} {first val : Text} (hfirst : first.length < f.size)
    (hlen : val.length < f.size) (g : Mem) (f' : Field) :
    fieldText (setField (setField g f first) f val) f' = fieldText (setField g f val) f' := by
  have hend := f.end_le
  rcases Nat.lt_or_ge f.offset f'.offset with hbehind | hfront
  · -- the member lies behind the one that was set
    have hdisj := Field.disjoint fun heq : f = f' => by
      rw [heq] at hbehind
      exact Nat.lt_irrefl _ hbehind
    have hend' := f'.end_le
    apply text_congr
    intro i _
    apply storeText_congr
    exact storeText_of_outside g first (by omega)
  · -- the text ends with the new one at the latest
    obtain ⟨k, hk⟩ := Nat.exists_eq_add_of_le hfront
    have hzero : ∀ m : Mem,
        Terminated (setField m f val) f'.offset (k + val.length + 1) := by
      intro m
      refine ⟨k + val.length, Nat.lt_succ_self _, ?_⟩
      rw [← Nat.add_assoc, ← hk]
      exact storeText_end m f.offset val
    have hle : k + val.length + 1 ≤ WEB_DATA_SIZE - f'.offset := by omega
    rw [fieldText, fieldText, (hzero _).text_eq_of_le hle, (hzero g).text_eq_of_le hle]
    apply text_congr
    intro i hi
    rcases Nat.lt_or_ge (f'.offset + i) f.offset with hlow | hhigh
    · apply storeText_congr
      exact storeText_of_outside g first (.inl hlow)
    · have hin : f.offset ≤ f'.offset + i ∧
          f'.offset + i < f.offset + (val ++ [0]).length := by
        rw [List.length_append, List.length_singleton]
        omega
      simp only [setField, storeText, store_eq, dif_pos hin]

/-! ### The options after a setting -/

/-- What is shown depends on the text of one member. -/
theorem shown_eq (n : Nat) (g : Mem) {id : Nat} {p : Field × Option Nat}
    (hcase : getCases.lookup id = some p) :
    shown n g id = (0, printed (limited p.2 (fieldText g p.1))) := by
  simp only [shown, ratpac_get_str, hcase, printed]
  cases limited p.2 (fieldText g p.1) with
  | nil => rfl
  | cons c s => rfl

theorem shown_congr (n : Nat) {g g' : Mem} {id : Nat}
    (h : ∀ p, getCases.lookup id = some p → fieldText g' p.1 = fieldText g p.1) :
    shown n g' id = shown n g id := by
  cases hcase : getCases.lookup id with
  | some p => rw [shown_eq n g' hcase, shown_eq n g hcase, h p hcase]
  | none => simp only [shown, ratpac_get_str, hcase]

variable {id : Nat} {p : Field × Option Nat} {val : Text}

theorem shown_set_self (hcase : setCases.lookup id = some p) (hfit : Fits id val) (g : Mem)
    (n : Nat) : shown n (ratpac_set_str g id val).2 id = (0, printed val) := by
  obtain ⟨hset, hlen⟩ := ratpac_set_str_fits hcase hfit g
  obtain ⟨-, q, hread, hfield, hlimit⟩ := cases_agree _ (mem_of_lookup hcase)
  obtain ⟨f, limit⟩ := q
  dsimp only at hfield hlimit
  rw [shown_eq n _ hread, hset, hfield, fieldText_setField_self hfit.zero hlen]
  have hwhole : limited limit val = val := by
    cases limit with
    | none => rfl
    | some k => exact List.take_of_length_le (Nat.le_trans (hfit.short p hcase) (hlimit k rfl))
  rw [hwhole]

theorem shown_set_other (hcase : setCases.lookup id = some p) (hfit : Fits id val) {g : Mem}
    (hterm : TextsTerminated g) (n : Nat) {id' : Nat} (hne : id' ≠ id) :
    shown n (ratpac_set_str g id val).2 id' = shown n g id' := by
  obtain ⟨hset, hlen⟩ := ratpac_set_str_fits hcase hfit g
  rw [hset]
  apply shown_congr
  intro q hread
  have htext : ∀ q ∈ getCases, q.2.1.isText = true := by decide
  have hmem := mem_of_lookup hread
  exact fieldText_setField_other hlen (cases_apart _ (mem_of_lookup hcase) _ hmem hne)
    (hterm q.1 (htext _ hmem))

theorem shown_set_set (hcase : setCases.lookup id = some p) {first : Text} (hfirst : Fits id first)
    (hfit : Fits id val) (g : Mem) (n id' : Nat) :
    shown n (ratpac_set_str (ratpac_set_str g id first).2 id val).2 id' =
      shown n (ratpac_set_str g id val).2 id' := by
  obtain ⟨hset, hlen⟩ := ratpac_set_str_fits hcase hfirst g
  rw [hset, (ratpac_set_str_fits hcase hfit _).1, (ratpac_set_str_fits hcase hfit g).1]
  apply shown_congr
  intro q _
  exact fieldText_setField_setField hlen (ratpac_set_str_fits hcase hfit g).2 g q.1

/-- **A setting is an update of the map at one id.** -/
theorem shown_set (hcase : setCases.lookup id = some p) (hfit : Fits id val) {g : Mem}
    (hterm : TextsTerminated g) (n : Nat) :
    shown n (ratpac_set_str g id val).2 = Function.update (shown n g) id (0, printed val) := by
  funext id'
  by_cases hne : id' = id
  · rw [hne, Function.update_self, shown_set_self hcase hfit]
  · rw [Function.update_of_ne hne, shown_set_other hcase hfit hterm n hne]

theorem set_terminated {g : Mem} (hterm : TextsTerminated g) {id : Nat} {val : Text}
    (hfit : Fits id val) : TextsTerminated (ratpac_set_str g id val).2 := by
  cases hcase : setCases.lookup id with
  | none =>
    rw [ratpac_set_str, hcase]
    exact hterm
  | some p =>
    obtain ⟨hset, hlen⟩ := ratpac_set_str_fits hcase hfit g
    rw [hset]
    exact setField_terminated hlen hterm

/-! ### The laws -/

/-- **The laws of the options.**  For an id that `ratpac_set_str` handles and values within
its capacity: the value set is the value got; where every text ends inside its own array the
other ids keep their values, and it stays so; a second setting overrides the first. -/
theorem settings_lens (hcase : setCases.lookup id = some p) (hfit : Fits id val) (g : Mem)
    (n : Nat) :
    ratpac_get_str ⟨(ratpac_set_str g id val).2, n⟩ id =
        (0, if val = [] then ascii "0" else val) ∧
      (TextsTerminated g → TextsTerminated (ratpac_set_str g id val).2 ∧
        ∀ id', id' ≠ id →
          ratpac_get_str ⟨(ratpac_set_str g id val).2, n⟩ id' = ratpac_get_str ⟨g, n⟩ id') ∧
      ∀ first, Fits id first → ∀ id',
        ratpac_get_str ⟨(ratpac_set_str (ratpac_set_str g id first).2 id val).2, n⟩ id' =
          ratpac_get_str ⟨(ratpac_set_str g id val).2, n⟩ id' := by
  refine ⟨shown_set_self hcase hfit g n, fun hterm => ⟨set_terminated hterm hfit, ?_⟩, ?_⟩
  · intro id' hne
    exact shown_set_other hcase hfit hterm n hne
  · intro first hfirst id'
    exact shown_set_set hcase hfirst hfit g n id'

theorem settings_lens_sample :
    ratpac_get_str ⟨(ratpac_set_str zeroed CFG_SACN_UNIV (ascii "63999")).2, 0⟩ CFG_SACN_UNIV =
        (0, ascii "63999") ∧
      ratpac_get_str ⟨(ratpac_set_str zeroed CFG_SACN_UNIV (ascii "63999")).2, 0⟩ CFG_AKS_NAME =
        ratpac_get_str ⟨zeroed, 0⟩ CFG_AKS_NAME ∧
      ratpac_get_str ⟨(ratpac_set_str (ratpac_set_str zeroed CFG_SACN_UNIV (ascii "7")).2
        CFG_SACN_UNIV (ascii "63999")).2, 0⟩ CFG_SACN_UNIV = (0, ascii "63999") := by
  obtain ⟨hget, hother, htwice⟩ := settings_lens (p := (.sacn_universe, none))
    (rfl : setCases.lookup CFG_SACN_UNIV = _)
    (⟨by decide, by decide⟩ : Fits CFG_SACN_UNIV (ascii "63999")) zeroed 0
  exact ⟨hget, (hother (by decide)).2 CFG_AKS_NAME (by decide),
    (htwice (ascii "7") ⟨by decide, by decide⟩ CFG_SACN_UNIV).trans hget⟩

/-- **A sequence of settings.**  Whatever was set before, the options shown are those of the
map with the settings carried out one after the other. -/
theorem shown_sets {sets : List (Nat × Text)}
    (hsets : ∀ w ∈ sets, (setCases.lookup w.1).isSome ∧ Fits w.1 w.2) {g : Mem}
    (hterm : TextsTerminated g) (n : Nat) :
    shown n (sets.foldl (fun g w => (ratpac_set_str g w.1 w.2).2) g) =
      sets.foldl (fun (values : Nat → Int × Text) w => Function.update values w.1 (0, printed w.2))
        (shown n g) := by
  induction sets generalizing g with
  | nil => rfl
  | cons w sets ih =>
    obtain ⟨⟨hhandled, hfit⟩, hrest⟩ := List.forall_mem_cons.mp hsets
    obtain ⟨p, hcase⟩ := Option.isSome_iff_exists.mp hhandled
    rw [List.foldl_cons, List.foldl_cons, ih hrest (set_terminated hterm hfit),
      shown_set hcase hfit hterm]

end AksFirmware.ConfigLens
