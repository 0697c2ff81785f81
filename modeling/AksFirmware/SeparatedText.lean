import Mathlib.Data.List.Basic

/-!
# Words and separators

Words are written one behind the other with a separator between them, and read again by a
reader that passes over empty words.  What it finds is what was written only when no word is
empty (`tokens_joined`).
-/

namespace SeparatedText

variable {α : Type}

/-! ### Joined words -/

/-- Every word with the separator behind it, but for the last separator. -/
def joined (sep : α) (ws : List (List α)) : List α := (ws.flatMap (· ++ [sep])).dropLast

/-- Where the separator stands first, the word ends. -/
theorem field_inj {sep : α} {w w' : List α} (hw : sep ∉ w) (hw' : sep ∉ w') {s s' : List α}
    (h : w ++ sep :: s = w' ++ sep :: s') : w = w' ∧ s = s' := by
  induction w generalizing w' with
  | nil =>
    cases w' with
    | nil => exact ⟨rfl, (List.cons.inj h).2⟩
    | cons c w' => exact absurd (List.mem_cons.mpr (.inl (List.cons.inj h).1)) hw'
  | cons c w ih =>
    cases w' with
    | nil => exact absurd (List.mem_cons.mpr (.inl (List.cons.inj h).1.symm)) hw
    | cons d w' =>
      obtain ⟨rfl, hrest⟩ := List.cons.inj h
      obtain ⟨rfl, rfl⟩ := ih (List.not_mem_of_not_mem_cons hw) (List.not_mem_of_not_mem_cons hw')
        hrest
      exact ⟨rfl, rfl⟩

theorem joined_singleton (sep : α) (w : List α) : joined sep [w] = w := by
  simp [joined]

theorem joined_cons (sep : α) (w : List α) {ws : List (List α)} (hws : ws ≠ []) :
    joined sep (w :: ws) = w ++ sep :: joined sep ws := by
  have hne : ws.flatMap (· ++ [sep]) ≠ [] := by
    intro hnil
    obtain ⟨v, ws, rfl⟩ := List.exists_cons_of_ne_nil hws
    simp at hnil
  rw [joined, List.flatMap_cons, List.dropLast_append_of_ne_nil hne, List.append_assoc]
  rfl

/-- Only a single empty word is written as nothing. -/
theorem joined_eq_nil_iff {sep : α} {ws : List (List α)} (hne : ws ≠ []) :
    joined sep ws = [] ↔ ws = [[]] := by
  obtain ⟨w, ws, rfl⟩ := List.exists_cons_of_ne_nil hne
  by_cases hws : ws = []
  · rw [hws, joined_singleton]
    simp
  · rw [joined_cons sep w hws]
    simp [hws]

theorem joined_length_le (sep : α) {ws : List (List α)} {k : Nat} (h : ∀ w ∈ ws, w.length < k) :
    (joined sep ws).length ≤ ws.length * k := by
  have hall : (ws.flatMap (· ++ [sep])).length ≤ ws.length * k := by
    induction ws with
    | nil => exact Nat.zero_le _
    | cons w ws ih =>
      obtain ⟨hw, hws⟩ := List.forall_mem_cons.mp h
      have hrest := ih hws
      rw [List.flatMap_cons, List.length_append, List.length_append, List.length_singleton,
        List.length_cons, Nat.add_mul]
      omega
  rw [joined, List.length_dropLast]
  omega

theorem mem_joined {sep : α} {ws : List (List α)} {c : α} (h : c ∈ joined sep ws) :
    c = sep ∨ ∃ w ∈ ws, c ∈ w := by
  obtain ⟨w, hw, hc⟩ := List.mem_flatMap.mp ((List.dropLast_sublist _).subset h)
  rcases List.mem_append.mp hc with hc | hc
  · exact .inr ⟨w, hw, hc⟩
  · exact .inl (List.mem_singleton.mp hc)

/-- A separator stands between the words, and nowhere else. -/
theorem joined_eq_intercalate (sep : α) (ws : List (List α)) :
    joined sep ws = [sep].intercalate ws := by
  induction ws with
  | nil => rfl
  | cons w ws ih =>
    by_cases hws : ws = []
    · rw [hws, joined_singleton, List.intercalate_singleton]
    · rw [joined_cons sep w hws, ih, List.intercalate_cons_of_ne_nil hws, List.append_assoc]
      rfl

/-! ### The words of a text -/

variable [DecidableEq α]

/-- The words between the separators, without the empty ones. -/
def tokens (sep : α) (s : List α) : List (List α) := (s.splitOn sep).filter (· ≠ [])

/-- A text without a separator is one word. -/
theorem tokens_of_notMem {sep : α} {w : List α} (hw : sep ∉ w) (hne : w ≠ []) :
    tokens sep w = [w] := by
  rw [tokens, List.splitOn_eq_singleton hw, List.filter_cons_of_pos (by simpa using hne),
    List.filter_nil]

theorem tokens_joined {sep : α} {ws : List (List α)} (hws : ∀ w ∈ ws, sep ∉ w) :
    tokens sep (joined sep ws) = ws.filter (· ≠ []) := by
  by_cases hne : ws = []
  · rw [hne]
    rfl
  · rw [tokens, joined_eq_intercalate, List.splitOn_intercalate sep hws hne]

end SeparatedText
