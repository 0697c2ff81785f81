import Mathlib.Logic.Function.Basic
import Mathlib.Data.List.Induction

/-!
# Leases

A key holds a lease for `ttl` ticks after each renewal.  `after` counts the remaining
ticks of every key down, and `lt_after_iff` reads them off the history: the most recent
renewal decides.
-/

namespace Leases

variable {K : Type}

/-- What can happen to the leases. -/
inductive Change (K : Type) where
  | renew (k : K)
  | tick
  | idle

def ticks (changes : List (Change K)) : Nat :=
  changes.countP fun c => match c with
    | .tick => true
    | _ => false

theorem ticks_concat (changes : List (Change K)) (c : Change K) :
    ticks (changes ++ [c]) = ticks changes + ticks [c] := by
  simp [ticks, List.countP_append]

/-- A renewal of `k` with fewer than `bound` ticks after it. -/
def RenewedWithin (changes : List (Change K)) (k : K) (bound : Nat) : Prop :=
  ∃ before later, changes = before ++ .renew k :: later ∧ ticks later < bound

theorem renewedWithin_concat (changes : List (Change K)) (c : Change K) (k : K) (bound : Nat) :
    RenewedWithin (changes ++ [c]) k bound ↔
      (c = .renew k ∧ 0 < bound) ∨ RenewedWithin changes k (bound - ticks [c]) := by
  constructor
  · rintro ⟨before, later, hsplit, hticks⟩
    rcases List.eq_nil_or_concat later with rfl | ⟨later, d, rfl⟩
    · obtain ⟨-, hc⟩ := List.append_inj' hsplit rfl
      exact Or.inl ⟨(List.cons.inj hc).1, hticks⟩
    · rw [List.concat_eq_append, ← List.cons_append, ← List.append_assoc] at hsplit
      obtain ⟨hchanges, hc⟩ := List.append_inj' hsplit rfl
      obtain rfl := (List.cons.inj hc).1
      rw [List.concat_eq_append, ticks_concat] at hticks
      exact Or.inr ⟨before, later, hchanges, by omega⟩
  · rintro (⟨rfl, hpos⟩ | ⟨before, later, rfl, hticks⟩)
    · exact ⟨changes, [], rfl, hpos⟩
    · refine ⟨before, later ++ [c], by simp, ?_⟩
      rw [ticks_concat]
      omega

theorem renewedWithin_cons (c : Change K) (changes : List (Change K)) (k : K) (bound : Nat) :
    RenewedWithin (c :: changes) k bound ↔
      (c = .renew k ∧ ticks changes < bound) ∨ RenewedWithin changes k bound := by
  constructor
  · rintro ⟨before, later, hsplit, hticks⟩
    cases before with
    | nil =>
      obtain ⟨rfl, rfl⟩ := List.cons.inj hsplit
      exact Or.inl ⟨rfl, hticks⟩
    | cons d before =>
      obtain ⟨rfl, rfl⟩ := List.cons.inj hsplit
      exact Or.inr ⟨before, later, rfl, hticks⟩
  · rintro (⟨rfl, hticks⟩ | ⟨before, later, rfl, hticks⟩)
    · exact ⟨[], changes, rfl, hticks⟩
    · exact ⟨c :: before, later, rfl, hticks⟩

variable [DecidableEq K]

/-- The remaining ticks of each key after one change. -/
def apply (ttl : Nat) (life : K → Nat) : Change K → K → Nat
  | .renew k => Function.update life k ttl
  | .tick => fun k => life k - 1
  | .idle => life

/-- The remaining ticks after a history that starts without leases. -/
def after (ttl : Nat) (changes : List (Change K)) : K → Nat :=
  changes.foldl (apply ttl) fun _ => 0

theorem after_concat (ttl : Nat) (changes : List (Change K)) (c : Change K) :
    after ttl (changes ++ [c]) = apply ttl (after ttl changes) c := by
  simp [after]

theorem after_le (ttl : Nat) (changes : List (Change K)) (k : K) : after ttl changes k ≤ ttl := by
  induction changes using List.reverseRecOn with
  | nil => exact Nat.zero_le _
  | append_singleton changes c ih =>
    rw [after_concat]
    cases c with
    | renew j =>
      by_cases hk : k = j
      · subst hk
        simp [apply]
      · simpa [apply, Function.update_of_ne hk] using ih
    | tick => exact Nat.le_trans (Nat.sub_le _ _) ih
    | idle => exact ih

/-- **The remaining ticks, from the history.**  More than `n` ticks remain exactly when
fewer than `ttl - n` have passed since some renewal. -/
theorem lt_after_iff (ttl : Nat) (changes : List (Change K)) (k : K) (n : Nat) :
    n < after ttl changes k ↔ RenewedWithin changes k (ttl - n) := by
  induction changes using List.reverseRecOn generalizing n with
  | nil => simp [RenewedWithin, after]
  | append_singleton changes c ih =>
    rw [after_concat, renewedWithin_concat]
    cases c with
    | renew j =>
      by_cases hk : k = j
      · subst hk
        have hold := ih n
        have hle := after_le ttl changes k
        simp only [apply, Function.update_self, true_and, show ticks [Change.renew k] = 0 from rfl,
          Nat.sub_zero, ← hold]
        omega
      · have hne : Change.renew j ≠ Change.renew k := fun h => hk (Change.renew.inj h).symm
        simp only [apply, Function.update_of_ne hk, hne, false_and, false_or,
          show ticks [Change.renew j] = 0 from rfl, Nat.sub_zero]
        exact ih n
    | tick =>
      have hold := ih (n + 1)
      simp only [apply, reduceCtorEq, false_and, false_or, show ticks [(Change.tick : Change K)] = 1
        from rfl, Nat.sub_sub, ← hold]
      omega
    | idle =>
      simp only [apply, reduceCtorEq, false_and, false_or, show ticks [(Change.idle : Change K)] = 0
        from rfl, Nat.sub_zero]
      exact ih n

end Leases
