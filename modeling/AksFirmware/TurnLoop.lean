import Mathlib.Data.List.Basic

/-!
# Loops that overwrite their return code

A loop takes its items one after the other.  A turn may end the loop, with an error or
without, pass the item over, leave it out, or call a setter, whose answer replaces the
return code of the turns before.

The loop claims success exactly if it `EndsWell`, a condition on its turns (`loop_ok_iff`).
So it tells the truth about its items exactly if all of them were set, or it does not claim
success and leaves nothing behind (`truthful_iff`).
-/

namespace AksFirmware.TurnLoop

variable {α σ : Type}

/-- What a turn does with its item. -/
inductive Turn (σ : Type)
  | malformed
  | ends
  | passes
  | leavesOut
  | sets (answer : Int) (s : σ)

/-- The item asked for nothing, or its setter took it. -/
def Turn.Succeeds : Turn σ → Prop
  | .passes => True
  | .sets answer _ => 0 ≤ answer
  | _ => False

instance (t : Turn σ) : Decidable t.Succeeds :=
  match t with
  | .malformed | .ends | .leavesOut => inferInstanceAs (Decidable False)
  | .passes => inferInstanceAs (Decidable True)
  | .sets answer _ => inferInstanceAs (Decidable (0 ≤ answer))

def Turn.answer : Turn σ → Option Int
  | .sets answer _ => some answer
  | _ => none

/-- `if (rc >= 0) rc = ok` -/
def judged (ok rc : Int) : Int := if 0 ≤ rc then ok else rc

/-- The loop, from a return code and a state. -/
def loop (ok err : Int) (turn : α → σ → Turn σ) : List α → Int → σ → Int × σ
  | [], rc, s => (rc, s)
  | item :: rest, rc, s =>
      match turn item s with
      | .malformed => (err, s)
      | .ends => (rc, s)
      | .passes => loop ok err turn rest rc s
      | .leavesOut => loop ok err turn rest (judged ok rc) s
      | .sets answer s' => loop ok err turn rest (judged ok answer) s'

/-- The turns that the loop makes. -/
def turns (turn : α → σ → Turn σ) : List α → σ → List (Turn σ)
  | [], _ => []
  | item :: rest, s =>
      match turn item s with
      | .malformed => [.malformed]
      | .ends => [.ends]
      | .passes => .passes :: turns turn rest s
      | .leavesOut => .leavesOut :: turns turn rest s
      | .sets answer s' => .sets answer s' :: turns turn rest s'

def answers (ts : List (Turn σ)) : List Int := ts.filterMap Turn.answer

/-- No turn met a malformed item, and the setter called last took its item.  Without a setter
it is the code at the start that counts, raised if an item was left out. -/
def EndsWell (ok rc : Int) (ts : List (Turn σ)) : Prop :=
  .malformed ∉ ts ∧
    match (answers ts).getLast? with
    | some answer => 0 ≤ answer
    | none => rc = ok ∨ (0 ≤ rc ∧ .leavesOut ∈ ts)

section Loop

variable {ok err : Int} {turn : α → σ → Turn σ}

theorem judged_eq_ok (hok : 0 < ok) {rc : Int} : judged ok rc = ok ↔ 0 ≤ rc := by
  unfold judged
  split <;> omega

theorem judged_neg_or_ok (ok rc : Int) : judged ok rc < 0 ∨ judged ok rc = ok := by
  unfold judged
  split <;> omega

/-! ### What a turn does to the verdict -/

theorem endsWell_malformed (rc : Int) (ts : List (Turn σ)) :
    ¬ EndsWell ok rc (.malformed :: ts) := fun h => h.1 List.mem_cons_self

theorem endsWell_passes (rc : Int) (ts : List (Turn σ)) :
    EndsWell ok rc (.passes :: ts) ↔ EndsWell ok rc ts := by
  simp [EndsWell, answers, Turn.answer]

/-- A code that is judged is success or an error, whatever is left out behind it. -/
theorem judged_counts (hok : 0 < ok) (code : Int) (P : Prop) :
    judged ok code = ok ∨ (0 ≤ judged ok code ∧ P) ↔ 0 ≤ code := by
  rw [judged_eq_ok hok]
  constructor
  · rintro (hle | ⟨hle, -⟩)
    · exact hle
    · unfold judged at hle
      split at hle <;> omega
  · exact Or.inl

theorem endsWell_leavesOut (hok : 0 < ok) (rc : Int) (ts : List (Turn σ)) :
    EndsWell ok rc (.leavesOut :: ts) ↔ EndsWell ok (judged ok rc) ts := by
  have hanswers : answers (.leavesOut :: ts) = answers ts := rfl
  have hmal : Turn.malformed ∉ Turn.leavesOut :: ts ↔ Turn.malformed ∉ ts := by simp
  have hstart : rc = ok ∨ (0 ≤ rc ∧ Turn.leavesOut ∈ Turn.leavesOut :: ts) ↔ 0 ≤ rc := by
    simp only [List.mem_cons_self, and_true]
    omega
  unfold EndsWell
  rw [hanswers, hmal]
  cases (answers ts).getLast? with
  | some answer => rfl
  | none => exact and_congr_right fun _ => hstart.trans (judged_counts hok rc _).symm

theorem endsWell_sets (hok : 0 < ok) (rc answer : Int) (s : σ) (ts : List (Turn σ)) :
    EndsWell ok rc (.sets answer s :: ts) ↔ EndsWell ok (judged ok answer) ts := by
  have hanswers : answers (.sets answer s :: ts) = answer :: answers ts := rfl
  have hmal : Turn.malformed ∉ Turn.sets answer s :: ts ↔ Turn.malformed ∉ ts := by simp
  unfold EndsWell
  rw [hanswers, hmal, List.getLast?_cons]
  cases (answers ts).getLast? with
  | some last => rfl
  | none => exact and_congr_right fun _ => (judged_counts hok answer _).symm

/-- The loop claims success exactly if it ends well. -/
theorem loop_ok_iff (hok : 0 < ok) (herr : err < 0) (items : List α) (rc : Int) (s : σ) :
    (loop ok err turn items rc s).1 = ok ↔ EndsWell ok rc (turns turn items s) := by
  induction items generalizing rc s with
  | nil => simp [loop, turns, EndsWell, answers]
  | cons item items ih =>
    unfold loop turns
    cases turn item s with
    | malformed => exact iff_of_false (by dsimp only; omega) (endsWell_malformed rc [])
    | ends => simp [EndsWell, answers, Turn.answer]
    | passes => exact (ih rc s).trans (endsWell_passes rc _).symm
    | leavesOut => exact (ih _ s).trans (endsWell_leavesOut hok rc _).symm
    | sets answer s' => exact (ih _ s').trans (endsWell_sets hok rc answer s' _).symm

/-! ### What the loop leaves behind -/

/-- A code that is neither success nor an error is the one at the start, and no setter was
called. -/
theorem loop_silent (herr : err < 0) {items : List α} {rc : Int} {s : σ}
    (hnot : (loop ok err turn items rc s).1 ≠ ok)
    (hnonneg : 0 ≤ (loop ok err turn items rc s).1) :
    (loop ok err turn items rc s).2 = s ∧ (loop ok err turn items rc s).1 = rc := by
  induction items generalizing rc s with
  | nil => exact ⟨rfl, rfl⟩
  | cons item items ih =>
    unfold loop at hnot hnonneg ⊢
    cases hturn : turn item s with
    | malformed =>
      simp only [hturn] at hnonneg
      omega
    | ends => exact ⟨rfl, rfl⟩
    | passes =>
      simp only [hturn] at hnot hnonneg
      exact ih hnot hnonneg
    | leavesOut =>
      simp only [hturn] at hnot hnonneg
      obtain ⟨-, hrc⟩ := ih hnot hnonneg
      rcases judged_neg_or_ok ok rc with hneg | hone
      · omega
      · exact absurd (hrc.trans hone) hnot
    | sets answer s' =>
      simp only [hturn] at hnot hnonneg
      obtain ⟨-, hrc⟩ := ih hnot hnonneg
      rcases judged_neg_or_ok ok answer with hneg | hone
      · omega
      · exact absurd (hrc.trans hone) hnot

/-- A loop whose turns all succeed passes its first item over or sets it, and goes on. -/
theorem succeeds_cons {item : α} {items : List α} {s : σ}
    (hall : ∀ t ∈ turns turn (item :: items) s, t.Succeeds) :
    (turn item s = .passes ∧ ∀ t ∈ turns turn items s, t.Succeeds) ∨
      ∃ answer s', turn item s = .sets answer s' ∧ 0 ≤ answer ∧
        ∀ t ∈ turns turn items s', t.Succeeds := by
  unfold turns at hall
  cases hturn : turn item s with
  | malformed => exact absurd (hall .malformed (by simp [hturn])) id
  | ends => exact absurd (hall .ends (by simp [hturn])) id
  | leavesOut => exact absurd (hall .leavesOut (by simp [hturn])) id
  | passes =>
    simp only [hturn, List.forall_mem_cons] at hall
    exact .inl ⟨rfl, hall.2⟩
  | sets answer s' =>
    simp only [hturn, List.forall_mem_cons] at hall
    exact .inr ⟨answer, s', rfl, hall.1, hall.2⟩

/-- If every turn succeeds, an error can only be the one at the start, and no setter was
called. -/
theorem loop_neg_of_succeeds (hok : 0 < ok) {items : List α} {rc : Int} {s : σ}
    (hall : ∀ t ∈ turns turn items s, t.Succeeds)
    (hneg : (loop ok err turn items rc s).1 < 0) :
    (loop ok err turn items rc s).2 = s ∧ rc < 0 := by
  induction items generalizing rc s with
  | nil => exact ⟨rfl, hneg⟩
  | cons item items ih =>
    unfold loop at hneg ⊢
    rcases succeeds_cons hall with ⟨hturn, hrest⟩ | ⟨answer, s', hturn, htaken, hrest⟩
    · simp only [hturn] at hneg ⊢
      exact ih hrest hneg
    · simp only [hturn] at hneg ⊢
      obtain ⟨-, hlow⟩ := ih hrest hneg
      have := (judged_eq_ok hok).mpr htaken
      omega

/-- What every setter keeps, the loop keeps. -/
theorem loop_keeps {P : σ → Prop}
    (hturn : ∀ item s answer s', turn item s = .sets answer s' → P s → P s')
    (items : List α) (rc : Int) {s : σ} (hs : P s) : P (loop ok err turn items rc s).2 := by
  induction items generalizing rc s with
  | nil => exact hs
  | cons item items ih =>
    unfold loop
    cases hcase : turn item s with
    | malformed | ends => exact hs
    | passes => exact ih rc hs
    | leavesOut => exact ih _ hs
    | sets answer s' => exact ih _ (hturn item s answer s' hcase hs)

theorem length_turns_le (items : List α) (s : σ) :
    (turns turn items s).length ≤ items.length := by
  induction items generalizing s with
  | nil => exact Nat.le_refl _
  | cons item items ih =>
    unfold turns
    cases turn item s with
    | malformed | ends => exact Nat.succ_le_succ (Nat.zero_le _)
    | passes | leavesOut => exact Nat.succ_le_succ (ih s)
    | sets answer s' => exact Nat.succ_le_succ (ih s')

/-- A loop whose turns all succeed makes one for each item. -/
theorem length_turns {items : List α} {s : σ} (hall : ∀ t ∈ turns turn items s, t.Succeeds) :
    (turns turn items s).length = items.length := by
  induction items generalizing s with
  | nil => rfl
  | cons item items ih =>
    unfold turns
    rcases succeeds_cons hall with ⟨hturn, hrest⟩ | ⟨answer, s', hturn, -, hrest⟩
    · simp only [hturn]
      exact congrArg Nat.succ (ih hrest)
    · simp only [hturn]
      exact congrArg Nat.succ (ih hrest)

/-- **When the loop tells the truth.**  `All` says that all items were set, of a list that may
be longer than what the loop was given, and `settle` is what happens to the state afterwards:
the loop claims success only after `All`, and leaves nothing behind an error, exactly if `All`
holds or it does not end well and its end settles as its start does. -/
theorem truthful_iff {τ : Type} (hok : 0 < ok) (herr : err < 0) {items : List α} {rc : Int}
    {s : σ} {All : Prop} (hall : All → ∀ t ∈ turns turn items s, t.Succeeds) (settle : σ → τ) :
    (((loop ok err turn items rc s).1 = ok → All) ∧
      ((loop ok err turn items rc s).1 < 0 →
        settle s = settle (loop ok err turn items rc s).2)) ↔
    All ∨ (¬ EndsWell ok rc (turns turn items s) ∧
      settle s = settle (loop ok err turn items rc s).2) := by
  have hclaim : (loop ok err turn items rc s).1 = ok ↔ EndsWell ok rc (turns turn items s) :=
    loop_ok_iff hok herr items rc s
  constructor
  · rintro ⟨hsuccess, herror⟩
    by_cases hset : All
    · exact .inl hset
    have hbad : (loop ok err turn items rc s).1 ≠ ok := fun heq => hset (hsuccess heq)
    refine .inr ⟨fun hwell => hbad (hclaim.mpr hwell), ?_⟩
    rcases Int.lt_or_le (loop ok err turn items rc s).1 0 with hneg | hnonneg
    · exact herror hneg
    · rw [(loop_silent herr hbad hnonneg).1]
  · rintro (hset | ⟨hbad, hsame⟩)
    · refine ⟨fun _ => hset, fun hneg => ?_⟩
      rw [(loop_neg_of_succeeds hok (hall hset) hneg).1]
    · exact ⟨fun heq => absurd (hclaim.mp heq) hbad, fun _ => hsame⟩

end Loop

end AksFirmware.TurnLoop
