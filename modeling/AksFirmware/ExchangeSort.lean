import Mathlib.Logic.Function.Basic
import Mathlib.Data.List.Range

/-!
# Exchange sort

The sort that compares each place with every later one and exchanges the two values at
once when the earlier one is greater.  It is no selection sort: the value at the place in
turn is replaced during the round, and the values that it displaces end up further back.

The invariant has two levels.  Within a round the place in turn holds a value that is not
greater than any compared so far, and the places from it on hold values that were there
before (`Turned`).  Over the rounds the places before the one in turn are settled: no later
value is smaller (`Settled`).
-/

namespace ExchangeSort

variable {β : Type} (gt : β → β → Prop)

/-- A comparison that sorts: it never holds both ways, and what is not greater chains. -/
structure Comparison : Prop where
  asymm : ∀ {x y}, gt x y → ¬ gt y x
  chain : ∀ {x y z}, ¬ gt x y → ¬ gt y z → ¬ gt x z

def swap (a : Nat → β) (i j : Nat) : Nat → β :=
  Function.update (Function.update a i (a j)) j (a i)

section Definitions

variable [DecidableRel gt]

/-- One comparison. -/
def turn (i : Nat) (a : Nat → β) (j : Nat) : Nat → β := if gt (a i) (a j) then swap a i j else a

/-- The inner loop. -/
def round (n : Nat) (a : Nat → β) (i : Nat) : Nat → β :=
  (List.range' (i + 1) (n - (i + 1))).foldl (turn gt i) a

def sort (n : Nat) (a : Nat → β) : Nat → β := (List.range n).foldl (round gt n) a

end Definitions

/-! ### One comparison -/

section Turn

variable {gt} [DecidableRel gt] (a : Nat → β) {i j : Nat}

theorem turn_other {k : Nat} (hi : k ≠ i) (hj : k ≠ j) : turn gt i a j k = a k := by
  unfold turn
  split
  · rw [swap, Function.update_of_ne hj, Function.update_of_ne hi]
  · rfl

theorem turn_cases (hij : i ≠ j) :
    (¬ gt (a i) (a j) ∧ turn gt i a j i = a i ∧ turn gt i a j j = a j) ∨
      (gt (a i) (a j) ∧ turn gt i a j i = a j ∧ turn gt i a j j = a i) := by
  by_cases h : gt (a i) (a j)
  · refine Or.inr ⟨h, ?_, ?_⟩
    · rw [turn, if_pos h, swap, Function.update_of_ne hij, Function.update_self]
    · rw [turn, if_pos h, swap, Function.update_self]
  · refine Or.inl ⟨h, ?_, ?_⟩ <;> rw [turn, if_neg h]

/-- After the comparison neither the place compared with nor the value replaced is smaller. -/
theorem turn_least (hgt : Comparison gt) (hij : i ≠ j) :
    ¬ gt (turn gt i a j i) (turn gt i a j j) ∧ ¬ gt (turn gt i a j i) (a i) := by
  rcases @turn_cases _ gt _ a i j hij with ⟨h, hi, hj⟩ | ⟨h, hi, hj⟩
  · rw [hi, hj]
    exact ⟨h, fun hself => hgt.asymm hself hself⟩
  · rw [hi, hj]
    exact ⟨hgt.asymm h, hgt.asymm h⟩

end Turn

/-! ### One round -/

/-- From `a`, round `i` has come to place `m` and made it `a'`. -/
structure Turned (n i : Nat) (a a' : Nat → β) (m : Nat) : Prop where
  before : ∀ k < i, a' k = a k
  least : ∀ k, i < k → k < m → ¬ gt (a' i) (a' k)
  values : ∀ k, i ≤ k → k < n → ∃ l, i ≤ l ∧ l < n ∧ a' k = a l

section Round

variable {gt} [DecidableRel gt] (hgt : Comparison gt) {n i : Nat} {a a' : Nat → β}

include hgt

theorem Turned.turn {m : Nat} (h : Turned gt n i a a' m) (him : i < m) (hmn : m < n) :
    Turned gt n i a (turn gt i a' m) (m + 1) := by
  obtain ⟨hleast, hkeep⟩ := turn_least a' hgt (Nat.ne_of_lt him)
  refine ⟨fun k hk => ?_, fun k hik hkm => ?_, fun k hik hkn => ?_⟩
  · rw [turn_other a' (Nat.ne_of_lt hk) (Nat.ne_of_lt (Nat.lt_trans hk him))]
    exact h.before k hk
  · rcases Nat.lt_succ_iff_lt_or_eq.mp hkm with hlt | rfl
    · rw [turn_other a' (Nat.ne_of_gt hik) (Nat.ne_of_lt hlt)]
      exact hgt.chain hkeep (h.least k hik hlt)
    · exact hleast
  · obtain ⟨l, hil, hln, hl⟩ := h.values i (Nat.le_refl i) (Nat.lt_trans him hmn)
    obtain ⟨l', hil', hln', hl'⟩ := h.values m (Nat.le_of_lt him) hmn
    rcases @turn_cases _ gt _ a' i m (Nat.ne_of_lt him) with ⟨-, hi, hm⟩ | ⟨-, hi, hm⟩ <;>
      by_cases hki : k = i
    · exact ⟨l, hil, hln, by rw [hki, hi, hl]⟩
    · by_cases hkm : k = m
      · exact ⟨l', hil', hln', by rw [hkm, hm, hl']⟩
      · rw [turn_other a' hki hkm]
        exact h.values k hik hkn
    · exact ⟨l', hil', hln', by rw [hki, hi, hl']⟩
    · by_cases hkm : k = m
      · exact ⟨l, hil, hln, by rw [hkm, hm, hl]⟩
      · rw [turn_other a' hki hkm]
        exact h.values k hik hkn

theorem Turned.loop {m : Nat} (h : Turned gt n i a a' m) (him : i < m) {len : Nat}
    (hlen : m + len ≤ n) :
    Turned gt n i a ((List.range' m len).foldl (ExchangeSort.turn gt i) a') (m + len) := by
  induction len generalizing m a' with
  | zero => exact h
  | succ len ih =>
    rw [List.range'_succ, List.foldl_cons, show m + (len + 1) = m + 1 + len by omega]
    exact ih (h.turn hgt him (by omega)) (Nat.lt_succ_of_lt him) (by omega)

theorem round_turned (hi : i < n) : Turned gt n i a (round gt n a i) n := by
  have hstart : Turned gt n i a a (i + 1) :=
    ⟨fun _ _ => rfl, fun k hik hki => absurd hik (by omega), fun k hik hkn => ⟨k, hik, hkn, rfl⟩⟩
  have hend : i + 1 + (n - (i + 1)) ≤ n := by omega
  have hloop := hstart.loop hgt (Nat.lt_succ_self i) hend
  rwa [Nat.add_sub_cancel' hi] at hloop

end Round

/-! ### All rounds -/

/-- No value behind one of the first `m` places is smaller than its own. -/
def Settled (n : Nat) (a : Nat → β) (m : Nat) : Prop :=
  ∀ i < m, ∀ j, i < j → j < n → ¬ gt (a i) (a j)

section Rounds

variable {gt} [DecidableRel gt] (hgt : Comparison gt) {n : Nat}

include hgt

theorem Settled.round {a : Nat → β} {m : Nat} (h : Settled gt n a m) (hm : m < n) :
    Settled gt n (round gt n a m) (m + 1) := by
  have hturned := round_turned hgt (a := a) hm
  intro i hi j hij hjn
  rcases Nat.lt_succ_iff_lt_or_eq.mp hi with him | rfl
  · rw [hturned.before i him]
    by_cases hjm : j < m
    · rw [hturned.before j hjm]
      exact h i him j hij hjn
    · -- a place from `m` on holds a value that was behind `i` before
      obtain ⟨l, hml, hln, hl⟩ := hturned.values j (Nat.le_of_not_lt hjm) hjn
      rw [hl]
      exact h i him l (Nat.lt_of_lt_of_le him hml) hln
  · exact hturned.least j hij hjn

/-- **The result is sorted.** -/
theorem sort_settled (a : Nat → β) : Settled gt n (sort gt n a) n := by
  have hrounds : ∀ m ≤ n, Settled gt n ((List.range m).foldl (ExchangeSort.round gt n) a) m := by
    intro m
    induction m with
    | zero => exact fun _ i hi => absurd hi (Nat.not_lt_zero i)
    | succ m ih =>
      intro hm
      rw [List.range_succ, List.foldl_append]
      exact (ih (Nat.le_of_succ_le hm)).round hgt hm
  exact hrounds n (Nat.le_refl n)

end Rounds

end ExchangeSort
