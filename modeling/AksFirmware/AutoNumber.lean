import AksFirmware.Binary64
import AksFirmware.Runs

/-!
# Numbering the nodes of the constellation

The page of the constellation gives the nodes of its table one universe after the other,
from a start value on.  A timer looks at the answer of the node that was addressed last: the
next node follows once the answer reports `Operation`, or once looking at it throws, as it
does when a document of another origin has been loaded.  After five looks without either the
page gives up.

The start value is `1 * value`, a JavaScript number, and is not checked.  From 2^53 on
adding one has no effect, and a value that is no number stays so, and then several nodes
get the same universe.  `always_numbered_iff` says for which start values that never happens.
-/

namespace AksFirmware.AutoNumber

open Binary64

/-- `auto_universe_sel`. -/
inductive Sel where
  | AUTO_ARTNET_UNIV | AUTO_SACN_UNIV
deriving DecidableEq, Repr

/-- A command that is submitted to the node of a table entry. -/
structure Sent (α : Type) where
  entry : Nat
  address : α
  sel : Sel
  num : Number

/-- What happens in the course of a numbering: a command is sent, or the node of an entry is
taken to be done. -/
inductive Note (α : Type) where
  | sent (c : Sent α)
  | done (entry : Nat)

/-- The variables of the page.  `start` and `log` are what the button has read and what has
happened since. -/
structure Page (α : Type) where
  auto_num : Number
  entry_num : Nat
  try_count : Nat
  in_progress : Bool
  auto_universe_sel : Sel
  timer : Bool
  start : Number
  log : List (Note α)

/-- What the timer finds: no frame, an answer with or without `Operation`, or an exception. -/
inductive Outcome where
  | noFrame
  | answer (operation : Bool)
  | threw
deriving DecidableEq, Repr

/-- The value of the text field is a number already, as `1 * value` makes it. -/
inductive Event where
  | artnet_auto (value : Number)
  | sacn_auto (value : Number) (confirmed : Bool)
  | timer (outcome : Outcome)

variable {α : Type}

/-- `document.getElementById('IP_CONS' + k)`. -/
def entryOf (entries : List α) : Nat → Option α
  | 0 => none
  | k + 1 => entries[k]?

def one : Number := .finite (ofInt 1 (by norm_num))

def limit : Number := .finite (ofInt 255 (by norm_num))

def DoSetUniver (entries : List α) (s : Page α) : Page α :=
  match entryOf entries s.entry_num with
  | none => { s with in_progress := false }
  | some address =>
      if s.auto_universe_sel = .AUTO_ARTNET_UNIV ∧ gt s.auto_num limit then
        { s with in_progress := false }
      else
        { s with
          log := s.log ++ [.sent ⟨s.entry_num, address, s.auto_universe_sel, s.auto_num⟩]
          timer := true }

/-- The entry is done, and the next one follows. -/
def advance (entries : List α) (s : Page α) : Page α :=
  DoSetUniver entries { s with
    auto_num := add s.auto_num one
    entry_num := s.entry_num + 1
    try_count := 0
    log := s.log ++ [.done s.entry_num] }

def UniAutoSetTimer (entries : List α) (outcome : Outcome) (s : Page α) : Page α :=
  match outcome with
  | .noFrame => { s with in_progress := false }
  | .answer true => advance entries s
  | .threw => advance entries s
  | .answer false =>
      let s := { s with try_count := s.try_count + 1 }
      if s.try_count < 5 then DoSetUniver entries s else { s with in_progress := false }

/-- What both buttons do once the start value is read. -/
def begin_auto (entries : List α) (sel : Sel) (value : Number) (s : Page α) : Page α :=
  DoSetUniver entries { s with
    auto_num := value
    auto_universe_sel := sel
    entry_num := 1
    try_count := 0
    in_progress := true
    start := value
    log := [] }

def artnet_auto (entries : List α) (value : Number) (s : Page α) : Page α :=
  if s.in_progress then s else begin_auto entries .AUTO_ARTNET_UNIV value s

def sacn_auto (entries : List α) (value : Number) (confirmed : Bool) (s : Page α) : Page α :=
  if s.in_progress then s
  else if ¬ confirmed then { s with auto_num := value }
  else begin_auto entries .AUTO_SACN_UNIV value s

/-- The timer fires only when it was set. -/
def step (entries : List α) (s : Page α) : Event → Option (Page α)
  | .artnet_auto value => some (artnet_auto entries value s)
  | .sacn_auto value confirmed => some (sacn_auto entries value confirmed s)
  | .timer outcome =>
      if s.timer then some (UniAutoSetTimer entries outcome { s with timer := false }) else none

/-- The button for a protocol. -/
def button : Sel → Number → Event
  | .AUTO_ARTNET_UNIV, value => .artnet_auto value
  | .AUTO_SACN_UNIV, value => .sacn_auto value true

/-! ### What a numbering must be -/

/-- Every command carries the number of its entry, counted up from the start value; the
entries come in order, none before those in front of it are done; and when no timer is set
the page is free for another numbering. -/
structure Numbered (entries : List α) (s : Page α) : Prop where
  number : ∀ c, .sent c ∈ s.log → entryOf entries c.entry = some c.address ∧
    ∃ x y : Double, s.start = .finite x ∧ c.num = .finite y ∧
      y.val = x.val + (c.entry - 1 : Nat)
  order : ∀ before c after, s.log = before ++ .sent c :: after →
    (∀ j, 1 ≤ j → j < c.entry → .done j ∈ before) ∧ ∀ c', .sent c' ∈ before → c'.entry ≤ c.entry
  distinct : ∀ c c', .sent c ∈ s.log → .sent c' ∈ s.log → c.entry ≠ c'.entry → c.num ≠ c'.num
  range : ∀ c, .sent c ∈ s.log → c.sel = .AUTO_ARTNET_UNIV → ¬ gt c.num limit
  stopped : s.timer = false → s.in_progress = false

/-- Whatever the timer finds, from the button on. -/
def AlwaysNumbered (entries : List α) (sel : Sel) (start : Number) : Prop :=
  ∀ s₀ : Page α, s₀.in_progress = false → s₀.timer = false → ∀ (outcomes : List Outcome) s,
    Runs.exec (step entries) s₀ (button sel start :: outcomes.map .timer) = some s →
      Numbered entries s

/-- The start value is a number that can be counted up over the entries without rounding, as
far as the range of the protocol goes. -/
def Counts (n : Nat) (sel : Sel) (start : Number) : Prop :=
  n = 0 ∨ (sel = .AUTO_ARTNET_UNIV ∧ gt start limit) ∨
    ∃ x, start = .finite x ∧
      ∀ k < n, (sel = .AUTO_ARTNET_UNIV → x.val + k ≤ 255) → IsDouble (x.val + k)

/-! ### The numbers -/

/-- `auto_num` after `k` entries. -/
def counted (start : Number) : Nat → Number
  | 0 => start
  | k + 1 => add (counted start k) one

/-- A number in the range of Art-Net. -/
def InRange (sel : Sel) (num : Number) : Prop := sel = .AUTO_ARTNET_UNIV → ¬ gt num limit

theorem add_one_exact {x : Double} (h : IsDouble (x.val + 1)) :
    add (.finite x) one = .finite ⟨x.val + 1, h⟩ := by
  have hone : (ofInt 1 (by norm_num)).val = 1 := by simp [ofInt]
  have hsum : x.val + (ofInt 1 (by norm_num)).val = x.val + 1 := by rw [hone]
  have hexact := add_exact x (ofInt 1 (by norm_num)) (hsum ▸ h)
  simp only [hsum] at hexact
  exact hexact

theorem gt_limit {x : Double} : gt (.finite x) limit ↔ 255 < x.val := by
  simp [limit, gt, ofInt]

/-- As long as the numbers are in range, they are exact. -/
theorem counted_exact {n : Nat} {sel : Sel} {x : Double}
    (hexact : ∀ k < n, (sel = .AUTO_ARTNET_UNIV → x.val + k ≤ 255) → IsDouble (x.val + k))
    {k : Nat} (hk : k < n) (hrange : ∀ j < k, InRange sel (counted (.finite x) j)) :
    ∃ y : Double, counted (.finite x) k = .finite y ∧ y.val = x.val + k := by
  induction k with
  | zero => exact ⟨x, rfl, by simp⟩
  | succ k ih =>
    obtain ⟨y, hy, hval⟩ := ih (Nat.lt_of_succ_lt hk) fun j hj => hrange j (Nat.lt_succ_of_lt hj)
    have hnext : x.val + ((k + 1 : Nat) : ℚ) = y.val + 1 := by
      rw [hval]
      push_cast
      ring
    have hdouble : IsDouble (y.val + 1) := by
      rw [← hnext]
      by_cases hin : sel = .AUTO_ARTNET_UNIV → x.val + ((k + 1 : Nat) : ℚ) ≤ 255
      · exact hexact (k + 1) hk hin
      · -- one past the end of the range is exact as well
        obtain ⟨hsel, hover⟩ := Classical.not_imp.mp hin
        have hle : y.val ≤ 255 := by
          have hin' := hrange k (Nat.lt_succ_self k) hsel
          rw [hy, gt_limit] at hin'
          exact not_lt.mp hin'
        rw [hnext] at hover ⊢
        exact y.isDouble.add_one (k := 7) (by decide) (by norm_num; linarith) (by norm_num; linarith)
    refine ⟨⟨y.val + 1, hdouble⟩, ?_, hnext.symm⟩
    rw [counted, hy, add_one_exact hdouble]

/-- Counting up within the range stays within it. -/
theorem inRange_add_one {sel : Sel} {y : Double}
    (h : sel = .AUTO_ARTNET_UNIV → y.val + 1 ≤ 255) : InRange sel (add (.finite y) one) := by
  intro hsel
  have hone : (ofInt 1 (by norm_num)).val = 1 := by simp [ofInt]
  refine not_gt_ofRat (n := 255) (by norm_num) (by norm_num) (by norm_num) ?_
  rw [hone]
  push_cast
  exact h hsel

/-! ### The invariant -/

/-- What is true of a command when it is sent. -/
structure SentRight (entries : List α) (start : Number) (sel : Sel) (before : List (Note α))
    (c : Sent α) : Prop where
  pos : 1 ≤ c.entry
  address : entryOf entries c.entry = some c.address
  num : c.num = counted start (c.entry - 1)
  sel_eq : c.sel = sel
  range : ∀ j < c.entry, InRange sel (counted start j)
  done : ∀ j, 1 ≤ j → j < c.entry → .done j ∈ before
  le : ∀ c', .sent c' ∈ before → c'.entry ≤ c.entry

def Sound (entries : List α) (start : Number) (sel : Sel) (log : List (Note α)) : Prop :=
  ∀ before c after, log = before ++ .sent c :: after → SentRight entries start sel before c

/-- Where the numbering stands: the entries in front are done, and the numbers of the first
`r` entries are in range. -/
structure Current (s : Page α) (r : Nat) : Prop where
  pos : 1 ≤ s.entry_num
  num : s.auto_num = counted s.start (s.entry_num - 1)
  range : ∀ j < r, InRange s.auto_universe_sel (counted s.start j)
  done : ∀ j, 1 ≤ j → j < s.entry_num → .done j ∈ s.log
  le : ∀ c', .sent c' ∈ s.log → c'.entry ≤ s.entry_num

/-- The timer is set exactly while a numbering is in progress. -/
structure Inv (entries : List α) (s : Page α) : Prop where
  timer : s.timer = s.in_progress
  sound : Sound entries s.start s.auto_universe_sel s.log
  current : s.in_progress = true → Current s s.entry_num

theorem split_concat {β : Type} {l before after : List β} {x y : β}
    (h : l ++ [x] = before ++ y :: after) :
    (before = l ∧ y = x) ∨ ∃ after', l = before ++ y :: after' := by
  rcases List.eq_nil_or_concat after with rfl | ⟨after', z, rfl⟩
  · obtain ⟨hl, hx⟩ := List.append_inj' h rfl
    exact .inl ⟨hl.symm, (List.cons.inj hx).1.symm⟩
  · rw [List.concat_eq_append, ← List.cons_append, ← List.append_assoc] at h
    exact .inr ⟨after', (List.append_inj' h rfl).1⟩

section

variable {entries : List α} {start : Number} {sel : Sel} {log : List (Note α)}

theorem Sound.done (h : Sound entries start sel log) (k : Nat) :
    Sound entries start sel (log ++ [.done k]) := by
  intro before c after hsplit
  rcases split_concat hsplit with ⟨-, hc⟩ | ⟨after', hlog⟩
  · cases hc
  · exact h before c after' hlog

theorem Sound.sent (h : Sound entries start sel log) {c : Sent α}
    (hc : SentRight entries start sel log c) : Sound entries start sel (log ++ [.sent c]) := by
  intro before c' after hsplit
  rcases split_concat hsplit with ⟨rfl, hc'⟩ | ⟨after', hlog⟩
  · cases hc'
    exact hc
  · exact h before c' after' hlog

end

theorem Inv.stopped {entries : List α} {s : Page α} (htimer : s.timer = false)
    (hsound : Sound entries s.start s.auto_universe_sel s.log) :
    Inv entries { s with in_progress := false } :=
  ⟨htimer, hsound, fun h => by cases h⟩

theorem DoSetUniver_inv {entries : List α} {s : Page α} (htimer : s.timer = false)
    (hprogress : s.in_progress = true) (hsound : Sound entries s.start s.auto_universe_sel s.log)
    (hcurrent : Current s (s.entry_num - 1)) : Inv entries (DoSetUniver entries s) := by
  unfold DoSetUniver
  cases hentry : entryOf entries s.entry_num with
  | none => exact Inv.stopped htimer hsound
  | some address =>
    dsimp only
    split
    · exact Inv.stopped htimer hsound
    · rename_i hin
      have hrange : ∀ j < s.entry_num, InRange s.auto_universe_sel (counted s.start j) := by
        intro j hj
        rcases Nat.lt_or_ge j (s.entry_num - 1) with hlt | hge
        · exact hcurrent.range j hlt
        · have hlast : j = s.entry_num - 1 := by omega
          rw [hlast, ← hcurrent.num]
          exact fun hsel hgt => hin ⟨hsel, hgt⟩
      have hsent := hsound.sent (c := ⟨s.entry_num, address, s.auto_universe_sel, s.auto_num⟩)
        ⟨hcurrent.pos, hentry, hcurrent.num, rfl, hrange, hcurrent.done, hcurrent.le⟩
      refine ⟨hprogress.symm, hsent, fun _ => ⟨hcurrent.pos, hcurrent.num, hrange, ?_, ?_⟩⟩
      · intro j hj hlt
        exact List.mem_append_left _ (hcurrent.done j hj hlt)
      · intro c' hc'
        rcases List.mem_append.mp hc' with hc' | hc'
        · exact hcurrent.le c' hc'
        · cases List.mem_singleton.mp hc'
          exact Nat.le_refl _

theorem advance_inv {entries : List α} {s : Page α} (htimer : s.timer = false)
    (hprogress : s.in_progress = true) (hsound : Sound entries s.start s.auto_universe_sel s.log)
    (hcurrent : Current s s.entry_num) : Inv entries (advance entries s) := by
  refine DoSetUniver_inv htimer hprogress (hsound.done s.entry_num) ⟨?_, ?_, ?_, ?_, ?_⟩
  · exact Nat.le_add_left 1 _
  · obtain ⟨k, hk⟩ := Nat.exists_eq_add_of_le hcurrent.pos
    have hnum := hcurrent.num
    dsimp only
    rw [Nat.add_sub_cancel, hnum, hk, Nat.add_sub_cancel_left, Nat.add_comm, counted]
  · exact hcurrent.range
  · intro j hj hlt
    rcases Nat.lt_succ_iff_lt_or_eq.mp hlt with hlt | rfl
    · exact List.mem_append_left _ (hcurrent.done j hj hlt)
    · exact List.mem_append_right _ List.mem_cons_self
  · intro c' hc'
    rcases List.mem_append.mp hc' with hc' | hc'
    · exact Nat.le_succ_of_le (hcurrent.le c' hc')
    · cases List.mem_singleton.mp hc'

theorem begin_auto_inv (entries : List α) (sel : Sel) (value : Number) {s : Page α}
    (htimer : s.timer = false) : Inv entries (begin_auto entries sel value s) := by
  refine DoSetUniver_inv htimer rfl ?_ ⟨Nat.le_refl 1, rfl, ?_, ?_, ?_⟩
  · intro before c after hsplit
    exact absurd hsplit.symm (List.append_ne_nil_of_right_ne_nil _ (List.cons_ne_nil _ _))
  · exact fun j hj => absurd hj (Nat.not_lt_zero j)
  · exact fun j hj hlt => absurd hlt (Nat.not_lt.mpr hj)
  · exact fun c' hc' => absurd hc' List.not_mem_nil

/-- Every event keeps the invariant. -/
theorem step_inv {entries : List α} {s t : Page α} {e : Event} (h : Inv entries s)
    (hstep : step entries s e = some t) : Inv entries t := by
  have hfree : ¬ s.in_progress = true → s.timer = false := by
    intro hidle
    rw [h.timer]
    exact Bool.eq_false_iff.mpr hidle
  cases e with
  | artnet_auto value =>
    cases hstep
    unfold artnet_auto
    split
    · exact h
    · rename_i hidle
      exact begin_auto_inv entries _ value (hfree hidle)
  | sacn_auto value confirmed =>
    cases hstep
    unfold sacn_auto
    split
    · exact h
    rename_i hidle
    split
    · exact ⟨h.timer, h.sound, fun hprogress => absurd hprogress hidle⟩
    · exact begin_auto_inv entries _ value (hfree hidle)
  | timer outcome =>
    simp only [step] at hstep
    obtain ⟨hset, hstep⟩ := Option.ite_none_right_eq_some.mp hstep
    cases hstep
    have hprogress : s.in_progress = true := h.timer ▸ hset
    have hcurrent := h.current hprogress
    have hnow : Current { s with timer := false } s.entry_num :=
      ⟨hcurrent.pos, hcurrent.num, hcurrent.range, hcurrent.done, hcurrent.le⟩
    rcases outcome with _ | operation | _
    · exact ⟨rfl, h.sound, fun hstopped => by cases hstopped⟩
    · cases operation with
      | true => exact advance_inv rfl hprogress h.sound hnow
      | false =>
        simp only [UniAutoSetTimer]
        split
        · refine DoSetUniver_inv rfl hprogress h.sound
            ⟨hcurrent.pos, hcurrent.num, ?_, hcurrent.done, hcurrent.le⟩
          exact fun j hj => hcurrent.range j (Nat.lt_of_lt_of_le hj (Nat.sub_le _ _))
        · exact ⟨rfl, h.sound, fun hstopped => by cases hstopped⟩
    · exact advance_inv rfl hprogress h.sound hnow

/-- **Every run of the page.**  Whatever buttons are pressed and whatever the timer finds,
the entries are addressed in order, each with its own count from the start value on, the
range of Art-Net is kept, and the page is in progress exactly while the timer is set. -/
theorem run_inv {entries : List α} {s t : Page α} {events : List Event} (h : Inv entries s)
    (hrun : Runs.exec (step entries) s events = some t) : Inv entries t :=
  Runs.exec_invariant (fun _ _ _ hs hstep => step_inv hs hstep) h hrun

/-! ### One numbering -/

theorem DoSetUniver_keeps (entries : List α) (s : Page α) :
    (DoSetUniver entries s).start = s.start ∧
      (DoSetUniver entries s).auto_universe_sel = s.auto_universe_sel := by
  unfold DoSetUniver
  split
  · exact ⟨rfl, rfl⟩
  · split
    · exact ⟨rfl, rfl⟩
    · exact ⟨rfl, rfl⟩

theorem timer_keeps (entries : List α) (outcome : Outcome) (s : Page α) :
    (UniAutoSetTimer entries outcome s).start = s.start ∧
      (UniAutoSetTimer entries outcome s).auto_universe_sel = s.auto_universe_sel := by
  rcases outcome with _ | _ | _
  · exact ⟨rfl, rfl⟩
  · rename_i operation
    cases operation with
    | true => exact DoSetUniver_keeps entries _
    | false =>
      simp only [UniAutoSetTimer]
      split
      · exact DoSetUniver_keeps entries _
      · exact ⟨rfl, rfl⟩
  · exact DoSetUniver_keeps entries _

theorem timers_keep {entries : List α} {outcomes : List Outcome} {s t : Page α}
    (hrun : Runs.exec (step entries) s (outcomes.map .timer) = some t) :
    t.start = s.start ∧ t.auto_universe_sel = s.auto_universe_sel := by
  induction outcomes generalizing s with
  | nil =>
    cases hrun
    exact ⟨rfl, rfl⟩
  | cons outcome outcomes ih =>
    obtain ⟨u, hstep, hrest⟩ := Runs.exec_cons_eq_some.mp hrun
    simp only [step] at hstep
    obtain ⟨-, hstep⟩ := Option.ite_none_right_eq_some.mp hstep
    cases hstep
    obtain ⟨hstart, hsel⟩ := ih hrest
    obtain ⟨hstart', hsel'⟩ := timer_keeps entries outcome { s with timer := false }
    exact ⟨hstart.trans hstart', hsel.trans hsel'⟩

theorem step_button {entries : List α} (sel : Sel) (start : Number) {s : Page α}
    (hidle : s.in_progress = false) :
    step entries s (button sel start) = some (begin_auto entries sel start s) := by
  cases sel with
  | AUTO_ARTNET_UNIV => simp [step, button, artnet_auto, hidle]
  | AUTO_SACN_UNIV => simp [step, button, sacn_auto, hidle]

/-- A numbering keeps the invariant, its start value and its protocol. -/
theorem numbering_inv {entries : List α} {sel : Sel} {start : Number} {s₀ s : Page α}
    (hidle : s₀.in_progress = false) (htimer : s₀.timer = false) {outcomes : List Outcome}
    (hrun : Runs.exec (step entries) s₀ (button sel start :: outcomes.map .timer) = some s) :
    Inv entries s ∧ s.start = start ∧ s.auto_universe_sel = sel := by
  obtain ⟨u, hbegin, hrest⟩ := Runs.exec_cons_eq_some.mp hrun
  rw [step_button sel start hidle] at hbegin
  cases hbegin
  obtain ⟨hstart, hsel⟩ := timers_keep hrest
  obtain ⟨hstart', hsel'⟩ := DoSetUniver_keeps entries { s₀ with
    auto_num := start
    auto_universe_sel := sel
    entry_num := 1
    try_count := 0
    in_progress := true
    start := start
    log := [] }
  exact ⟨run_inv (begin_auto_inv entries sel start htimer) hrest, hstart.trans hstart',
    hsel.trans hsel'⟩

theorem entryOf_lt {entries : List α} {k : Nat} {address : α}
    (h : entryOf entries k = some address) : k - 1 < entries.length := by
  cases k with
  | zero => cases h
  | succ k => exact (List.getElem?_eq_some_iff.mp h).1

theorem Inv.sent {entries : List α} {s : Page α} (h : Inv entries s) {c : Sent α}
    (hc : .sent c ∈ s.log) : ∃ before, SentRight entries s.start s.auto_universe_sel before c := by
  obtain ⟨before, after, hsplit⟩ := List.append_of_mem hc
  exact ⟨before, h.sound before c after hsplit⟩

/-- The number of a command, where the start value counts. -/
theorem Inv.number {entries : List α} {s : Page α} (h : Inv entries s)
    (hcounts : Counts entries.length s.auto_universe_sel s.start) {c : Sent α}
    (hc : .sent c ∈ s.log) : ∃ x y : Double, s.start = .finite x ∧ c.num = .finite y ∧
      y.val = x.val + (c.entry - 1 : Nat) := by
  obtain ⟨before, hright⟩ := h.sent hc
  have hlt := entryOf_lt hright.address
  rcases hcounts with hnone | ⟨hsel, hover⟩ | ⟨x, hx, hexact⟩
  · omega
  · exact absurd hover (hright.range 0 hright.pos hsel)
  · obtain ⟨y, hy, hval⟩ := counted_exact hexact hlt fun j hj => by
      rw [← hx]
      exact hright.range j (by omega)
    exact ⟨x, y, hx, by rw [hright.num, hx, hy], hval⟩

theorem numbered_of_counts {entries : List α} {s : Page α} (h : Inv entries s)
    (hcounts : Counts entries.length s.auto_universe_sel s.start) : Numbered entries s := by
  constructor
  case number =>
    intro c hc
    obtain ⟨_, hright⟩ := h.sent hc
    exact ⟨hright.address, h.number hcounts hc⟩
  case order =>
    intro before c after hsplit
    have hright := h.sound before c after hsplit
    exact ⟨hright.done, hright.le⟩
  case distinct =>
    intro c c' hc hc' hne heq
    obtain ⟨_, hright⟩ := h.sent hc
    obtain ⟨_, hright'⟩ := h.sent hc'
    obtain ⟨x, y, hx, hy, hval⟩ := h.number hcounts hc
    obtain ⟨x', y', hx', hy', hval'⟩ := h.number hcounts hc'
    cases hx.symm.trans hx'
    cases (hy.symm.trans heq).trans hy'
    rw [hval] at hval'
    have hcast : c.entry - 1 = c'.entry - 1 := by exact_mod_cast add_left_cancel hval'
    have hpos := hright.pos
    have hpos' := hright'.pos
    omega
  case range =>
    intro c hc hsel
    obtain ⟨_, hright⟩ := h.sent hc
    rw [hright.num]
    refine hright.range (c.entry - 1) ?_ (hright.sel_eq ▸ hsel)
    have hpos := hright.pos
    omega
  case stopped => exact fun htimer => h.timer ▸ htimer

/-! ### Start values that do not count -/

/-- The page after it is loaded. -/
def idle : Page α := ⟨.nan, 0, 0, false, .AUTO_ARTNET_UNIV, false, .nan, []⟩

/-- The page waits for the node of an entry, to which a command was sent. -/
structure Waiting (s : Page α) (k : Nat) : Prop where
  timer : s.timer = true
  entry : s.entry_num = k
  sent : ∃ c, .sent c ∈ s.log ∧ c.entry = k ∧ c.num = s.auto_num

theorem DoSetUniver_sends (entries : List α) {s : Page α}
    (hlt : s.entry_num - 1 < entries.length) (hpos : 1 ≤ s.entry_num)
    (hrange : InRange s.auto_universe_sel s.auto_num) :
    Waiting (DoSetUniver entries s) s.entry_num := by
  have hentry : ∃ address, entryOf entries s.entry_num = some address := by
    obtain ⟨k, hk⟩ := Nat.exists_eq_add_of_le' hpos
    rw [hk] at hlt ⊢
    exact ⟨_, List.getElem?_eq_getElem hlt⟩
  obtain ⟨address, hentry⟩ := hentry
  have hin : ¬ (s.auto_universe_sel = .AUTO_ARTNET_UNIV ∧ gt s.auto_num limit) :=
    fun h => hrange h.1 h.2
  simp only [DoSetUniver, hentry, if_neg hin]
  exact ⟨rfl, rfl, _, List.mem_append_right _ List.mem_cons_self, rfl, rfl⟩

theorem Waiting.next {entries : List α} {s : Page α} {k : Nat} (h : Waiting s (k + 1))
    (hlt : k + 1 < entries.length)
    (hrange : InRange s.auto_universe_sel (add s.auto_num one)) :
    ∃ t, step entries s (.timer (.answer true)) = some t ∧ Waiting t (k + 2) := by
  refine ⟨advance entries { s with timer := false }, ?_, ?_⟩
  · simp only [step, if_pos h.timer]
    rfl
  · have hnext := DoSetUniver_sends entries (s := { s with
      timer := false
      auto_num := add s.auto_num one
      entry_num := s.entry_num + 1
      try_count := 0
      log := s.log ++ [.done s.entry_num] }) (by rw [h.entry]; exact hlt) (Nat.le_add_left 1 _) hrange
    rw [show k + 2 = s.entry_num + 1 by rw [h.entry]]
    exact hnext

/-- The number that waits is the one of its entry. -/
theorem Numbered.waiting {entries : List α} {s : Page α} {k : Nat} (h : Numbered entries s)
    (hwait : Waiting s (k + 1)) : ∃ x y : Double, s.start = .finite x ∧ s.auto_num = .finite y ∧
      y.val = x.val + k := by
  obtain ⟨c, hc, hentry, hnum⟩ := hwait.sent
  obtain ⟨-, x, y, hx, hy, hval⟩ := h.number c hc
  rw [hentry, Nat.add_sub_cancel] at hval
  exact ⟨x, y, hx, hnum ▸ hy, hval⟩

/-- When all goes well, every entry is reached whose number is in range. -/
theorem AlwaysNumbered.reaches {entries : List α} {sel : Sel} {start : Number}
    (h : AlwaysNumbered entries sel start) (hin : InRange sel start) {k : Nat}
    (hk : k < entries.length)
    (hrange : ∀ x, start = .finite x → sel = .AUTO_ARTNET_UNIV → x.val + k ≤ 255) :
    ∃ s, Runs.exec (step entries) idle
      (button sel start :: (List.replicate k (.answer true)).map .timer) = some s ∧
      Waiting s (k + 1) := by
  induction k with
  | zero =>
    refine ⟨begin_auto entries sel start idle, ?_, ?_⟩
    · exact Runs.exec_cons_eq_some.mpr ⟨_, step_button sel start rfl, rfl⟩
    · exact DoSetUniver_sends entries hk (Nat.le_refl 1) hin
  | succ k ih =>
    obtain ⟨s, hrun, hwait⟩ := ih (Nat.lt_of_succ_lt hk) fun x hx hsel => by
      have hle := hrange x hx hsel
      push_cast at hle
      linarith
    obtain ⟨-, hstart, hsel⟩ := numbering_inv rfl rfl hrun
    obtain ⟨x, y, hx, hy, hval⟩ := (h idle rfl rfl _ s hrun).waiting hwait
    have hnext : InRange s.auto_universe_sel (add s.auto_num one) := by
      rw [hy]
      refine inRange_add_one fun hart => ?_
      have hle := hrange x (hstart ▸ hx) (hsel ▸ hart)
      rw [hval]
      push_cast at hle
      linarith
    obtain ⟨t, hstep, hwait'⟩ := hwait.next hk hnext
    refine ⟨t, ?_, hwait'⟩
    rw [List.replicate_succ', List.map_append, ← List.cons_append, Runs.exec_append, hrun]
    exact Runs.exec_cons_eq_some.mpr ⟨t, hstep, rfl⟩

theorem AlwaysNumbered.counts {entries : List α} {sel : Sel} {start : Number}
    (h : AlwaysNumbered entries sel start) : Counts entries.length sel start := by
  rcases Nat.eq_zero_or_pos entries.length with hnone | hpos
  · exact .inl hnone
  by_cases hover : sel = .AUTO_ARTNET_UNIV ∧ gt start limit
  · exact .inr (.inl hover)
  have hin : InRange sel start := fun hsel hgt => hover ⟨hsel, hgt⟩
  have hnumber : ∀ k < entries.length,
      (∀ x, start = .finite x → sel = .AUTO_ARTNET_UNIV → x.val + k ≤ 255) →
      ∃ x y : Double, start = .finite x ∧ y.val = x.val + k := by
    intro k hk hrange
    obtain ⟨s, hrun, hwait⟩ := h.reaches hin hk hrange
    obtain ⟨-, hstart, -⟩ := numbering_inv rfl rfl hrun
    obtain ⟨x, y, hx, -, hval⟩ := (h idle rfl rfl _ s hrun).waiting hwait
    exact ⟨x, y, hstart ▸ hx, hval⟩
  -- the first command tells that the start value is a finite number
  obtain ⟨x, -, rfl, -⟩ := hnumber 0 hpos fun x hx hsel => by
    have hle : ¬ gt start limit := hin hsel
    rw [hx, gt_limit] at hle
    simpa using hle
  refine .inr (.inr ⟨x, rfl, fun k hk hrange => ?_⟩)
  obtain ⟨x', y, hx', hval⟩ := hnumber k hk fun x' hx' hsel => by
    cases hx'
    exact hrange hsel
  cases hx'
  exact hval ▸ y.isDouble

/-- **The numbering of the constellation.**  Every command carries the start value counted up
to its entry, whatever the timer finds, exactly if the start value is a number from which
adding one is exact over the entries that are in range. -/
theorem always_numbered_iff (entries : List α) (sel : Sel) (start : Number) :
    AlwaysNumbered entries sel start ↔ Counts entries.length sel start := by
  constructor
  · exact AlwaysNumbered.counts
  · intro hcounts s₀ hidle htimer outcomes s hrun
    obtain ⟨hinv, rfl, rfl⟩ := numbering_inv hidle htimer hrun
    exact numbered_of_counts hinv hcounts

/-- Whole numbers of up to 53 bits count. -/
theorem counts_of_int {n : Nat} {sel : Sel} {x : Double} {z : ℤ} (hx : x.val = z)
    (hlow : -2 ^ 53 ≤ z) (hhigh : z + n ≤ 2 ^ 53) : Counts n sel (.finite x) := by
  refine .inr (.inr ⟨x, rfl, fun k hk _ => ?_⟩)
  have hcast : x.val + (k : ℚ) = ((z + k : ℤ) : ℚ) := by
    rw [hx]
    push_cast
    rfl
  rw [hcast]
  refine isDouble_intCast (abs_le.mpr ⟨?_, ?_⟩) <;> omega

/-- With `abc` in the text field both nodes of a table get the same number, which is none. -/
theorem text_numbered : ¬ AlwaysNumbered [(), ()] .AUTO_SACN_UNIV .nan := by
  intro h
  have hnumbered := h idle rfl rfl [.answer true] _ rfl
  refine hnumbered.distinct ⟨1, (), .AUTO_SACN_UNIV, .nan⟩ ⟨2, (), .AUTO_SACN_UNIV, .nan⟩
    ?_ ?_ (by decide) rfl
  · exact List.mem_cons_self
  · exact List.mem_cons_of_mem _ (List.mem_cons_of_mem _ List.mem_cons_self)

end AksFirmware.AutoNumber
