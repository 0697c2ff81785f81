import Mathlib.Data.List.Induction

/-!
# Runs of step functions

Two kinds of systems occur.  A *reacting* system answers every input with a new
state and an output; its runs collect the outputs.  A *partial* system may have
no successor, because the step is not enabled or its outcome is undefined.

For both, a property of all runs is proved from what one step preserves: the
inductions are here and nowhere else.
-/

namespace Runs

variable {σ ι ο : Type}

/-! ### Reacting systems -/

/-- Feed the inputs one by one and collect the outputs. -/
def react (step : σ → ι → σ × ο) : σ → List ι → σ × List ο
  | s, [] => (s, [])
  | s, i :: is =>
      let rest := react step (step s i).1 is
      (rest.1, (step s i).2 :: rest.2)

theorem react_append (step : σ → ι → σ × ο) (s : σ) (is js : List ι) :
    react step s (is ++ js) =
      ((react step (react step s is).1 js).1,
        (react step s is).2 ++ (react step (react step s is).1 js).2) := by
  induction is generalizing s with
  | nil => rfl
  | cons i is ih => simp only [List.cons_append, react, ih]

theorem react_concat (step : σ → ι → σ × ο) (s : σ) (is : List ι) (i : ι) :
    react step s (is ++ [i]) =
      ((step (react step s is).1 i).1, (react step s is).2 ++ [(step (react step s is).1 i).2]) :=
  react_append step s is [i]

/-- Each output of a run was given by one step, in the state reached so far. -/
theorem react_output_eq {step : σ → ι → σ × ο} {s : σ} {is : List ι} {earlier after : List ο}
    {o : ο} (h : (react step s is).2 = earlier ++ o :: after) :
    ∃ is₀ i is₁, is = is₀ ++ i :: is₁ ∧ (react step s is₀).2 = earlier ∧
      (step (react step s is₀).1 i).2 = o := by
  induction is generalizing s earlier with
  | nil => simp [react] at h
  | cons i is ih =>
    cases earlier with
    | nil => exact ⟨[], i, is, rfl, rfl, (List.cons.inj h).1⟩
    | cons e earlier =>
      obtain ⟨he, hrest⟩ := List.cons.inj h
      obtain ⟨is₀, j, is₁, rfl, hearlier, ho⟩ := ih hrest
      exact ⟨i :: is₀, j, is₁, rfl, by rw [react, he, hearlier], ho⟩

/-- A relation between the inputs seen, the outputs given and the state reached
that each step extends holds of every run. -/
theorem react_induction (step : σ → ι → σ × ο) (s : σ) (P : List ι → List ο → σ → Prop)
    (start : P [] [] s)
    (next : ∀ is os t i, P is os t → P (is ++ [i]) (os ++ [(step t i).2]) (step t i).1)
    (is : List ι) : P is (react step s is).2 (react step s is).1 := by
  induction is using List.reverseRecOn with
  | nil => exact start
  | append_singleton is i ih =>
    rw [react_concat]
    exact next is _ _ i ih

/-! ### Partial systems -/

/-- Execute the actions one by one, as long as each has an outcome. -/
def exec (step : σ → ι → Option σ) : σ → List ι → Option σ
  | s, [] => some s
  | s, a :: as => (step s a).bind fun t => exec step t as

@[simp] theorem exec_nil (step : σ → ι → Option σ) (s : σ) : exec step s [] = some s := rfl

theorem exec_cons_eq_some {step : σ → ι → Option σ} {s t : σ} {a : ι} {as : List ι} :
    exec step s (a :: as) = some t ↔ ∃ u, step s a = some u ∧ exec step u as = some t := by
  simp [exec, Option.bind_eq_some_iff]

theorem exec_append (step : σ → ι → Option σ) (s : σ) (as bs : List ι) :
    exec step s (as ++ bs) = (exec step s as).bind fun t => exec step t bs := by
  induction as generalizing s with
  | nil => rfl
  | cons a as ih =>
    simp only [List.cons_append, exec]
    cases step s a with
    | none => rfl
    | some u => exact ih u

/-- What each step keeps holds after a run. -/
theorem exec_invariant {step : σ → ι → Option σ} {P : σ → Prop}
    (next : ∀ s a t, P s → step s a = some t → P t) {s t : σ} {as : List ι} (hs : P s)
    (h : exec step s as = some t) : P t := by
  induction as generalizing s with
  | nil => exact Option.some.inj h ▸ hs
  | cons a as ih =>
    obtain ⟨u, hu, hrest⟩ := exec_cons_eq_some.mp h
    exact ih (next s a u hs hu) hrest

/-- Every action of a run had an outcome. -/
theorem exec_step_of_mem {step : σ → ι → Option σ} {s t : σ} {as : List ι}
    (h : exec step s as = some t) {a : ι} (ha : a ∈ as) : ∃ u v, step u a = some v := by
  induction as generalizing s with
  | nil => exact absurd ha List.not_mem_nil
  | cons b as ih =>
    obtain ⟨u, hu, hrest⟩ := exec_cons_eq_some.mp h
    rcases List.mem_cons.mp ha with rfl | ha
    · exact ⟨s, u, hu⟩
    · exact ih hrest ha

/-- A partial system that takes the steps of a reacting one runs as that one does. -/
theorem exec_eq_react {step : σ → ι → σ × ο} {step' : σ → ι → Option σ}
    (h : ∀ s i, step' s i = some (step s i).1) (s : σ) (is : List ι) :
    exec step' s is = some (react step s is).1 := by
  induction is generalizing s with
  | nil => rfl
  | cons i is ih =>
    rw [exec, h, Option.bind_some, ih]
    rfl

/-- A system that follows every step of another one follows its runs. -/
theorem exec_simulates {τ : Type} {step : σ → ι → Option σ} {step' : τ → ι → Option τ}
    {ok : ι → Prop} (R : σ → τ → Prop)
    (next : ∀ s s' t a, ok a → R s t → step s a = some s' → ∃ t', step' t a = some t' ∧ R s' t')
    {s s' : σ} {t : τ} {as : List ι} (hok : ∀ a ∈ as, ok a) (hs : R s t)
    (h : exec step s as = some s') : ∃ t', exec step' t as = some t' ∧ R s' t' := by
  induction as generalizing s t with
  | nil =>
    cases Option.some.inj h
    exact ⟨t, rfl, hs⟩
  | cons a as ih =>
    obtain ⟨u, hu, hrest⟩ := exec_cons_eq_some.mp h
    obtain ⟨v, hv, huv⟩ := next s u t a (hok a List.mem_cons_self) hs hu
    obtain ⟨t', hrun, ht'⟩ := ih (fun b hb => hok b (List.mem_cons_of_mem a hb)) huv hrest
    exact ⟨t', exec_cons_eq_some.mpr ⟨v, hv, hrun⟩, ht'⟩

/-- Every step of the run meets a condition in the state where it is taken. -/
def Each (step : σ → ι → Option σ) (ok : σ → ι → Prop) : σ → List ι → Prop
  | _, [] => True
  | s, a :: as => ok s a ∧ ∀ t, step s a = some t → Each step ok t as

theorem each_cons {step : σ → ι → Option σ} {ok : σ → ι → Prop} {s t : σ} {a : ι} {as : List ι}
    (h : step s a = some t) : Each step ok s (a :: as) ↔ ok s a ∧ Each step ok t as := by
  constructor
  · rintro ⟨ha, hrest⟩
    exact ⟨ha, hrest t h⟩
  · rintro ⟨ha, hrest⟩
    refine ⟨ha, fun u hu => ?_⟩
    obtain rfl := Option.some.inj (h.symm.trans hu)
    exact hrest

theorem Each.take {step : σ → ι → Option σ} {ok : σ → ι → Prop} {s : σ} {as bs : List ι}
    (h : Each step ok s (as ++ bs)) : Each step ok s as := by
  induction as generalizing s with
  | nil => trivial
  | cons a as ih => exact ⟨h.1, fun t ht => ih (h.2 t ht)⟩

theorem Each.drop {step : σ → ι → Option σ} {ok : σ → ι → Prop} {s t : σ} {as bs : List ι}
    (h : Each step ok s (as ++ bs)) (hrun : exec step s as = some t) : Each step ok t bs := by
  induction as generalizing s with
  | nil => exact Option.some.inj hrun ▸ h
  | cons a as ih =>
    obtain ⟨u, hstep, hrest⟩ := exec_cons_eq_some.mp hrun
    exact ih (h.2 u hstep) hrest

theorem Each.of_forall {step : σ → ι → Option σ} {ok : ι → Prop} {as : List ι}
    (h : ∀ a ∈ as, ok a) (s : σ) : Each step (fun _ a => ok a) s as := by
  induction as generalizing s with
  | nil => trivial
  | cons a as ih =>
    exact ⟨h a List.mem_cons_self, fun t _ => ih (fun b hb => h b (List.mem_cons_of_mem a hb)) t⟩

/-- What each step keeps under a condition holds after a run whose steps meet it. -/
theorem Each.invariant {step : σ → ι → Option σ} {ok : σ → ι → Prop} {P : σ → Prop} {as : List ι}
    (next : ∀ s, ∀ a ∈ as, ∀ t, ok s a → P s → step s a = some t → P t) {s t : σ}
    (heach : Each step ok s as) (hs : P s) (h : exec step s as = some t) : P t := by
  induction as generalizing s with
  | nil => exact Option.some.inj h ▸ hs
  | cons a as ih =>
    obtain ⟨u, hu, hrest⟩ := exec_cons_eq_some.mp h
    exact ih (fun s b hb => next s b (List.mem_cons_of_mem a hb)) (heach.2 u hu)
      (next s a List.mem_cons_self u heach.1 hs hu) hrest

/-- A run stays within `P` exactly if all its steps meet the condition that keeps it
there. -/
theorem exec_within_iff {step : σ → ι → Option σ} {ok : σ → ι → Prop} {P : σ → Prop}
    {as : List ι} (next : ∀ s, ∀ a ∈ as, P s → ((∃ t, step s a = some t ∧ P t) ↔ ok s a)) {s : σ}
    (hs : P s) :
    (∀ before after, as = before ++ after → ∃ t, exec step s before = some t ∧ P t) ↔
      Each step ok s as := by
  induction as generalizing s with
  | nil =>
    refine iff_of_true (fun before after hcut => ?_) trivial
    obtain ⟨rfl, -⟩ := List.append_eq_nil_iff.mp hcut.symm
    exact ⟨s, rfl, hs⟩
  | cons a as ih =>
    have hnext := next s a List.mem_cons_self hs
    have hrest : ∀ s, ∀ b ∈ as, P s → ((∃ t, step s b = some t ∧ P t) ↔ ok s b) :=
      fun s b hb => next s b (List.mem_cons_of_mem a hb)
    constructor
    · intro h
      obtain ⟨t, hrun, ht⟩ := h [a] as rfl
      obtain ⟨u, hstep, hu⟩ := exec_cons_eq_some.mp hrun
      obtain rfl := Option.some.inj hu
      refine (each_cons hstep).mpr ⟨hnext.mp ⟨u, hstep, ht⟩, (ih hrest ht).mp ?_⟩
      rintro before after rfl
      obtain ⟨v, hv, hPv⟩ := h (a :: before) after rfl
      rw [exec, hstep, Option.bind_some] at hv
      exact ⟨v, hv, hPv⟩
    · intro heach before after hcut
      obtain ⟨t, hstep, ht⟩ := hnext.mpr heach.1
      rcases List.append_eq_cons_iff.mp hcut.symm with ⟨rfl, -⟩ | ⟨before, rfl, rfl⟩
      · exact ⟨s, rfl, hs⟩
      · obtain ⟨v, hv, hPv⟩ := (ih hrest ht).mpr (heach.2 t hstep) before after rfl
        exact ⟨v, by rw [exec, hstep, Option.bind_some, hv], hPv⟩

/-- A run shows at every point what an abstract system does exactly if all its steps meet the
condition under which one step does. -/
theorem exec_follows_iff {τ : Type} {step : σ → ι → Option σ} {ok : σ → ι → Prop} {view : σ → τ}
    {next : τ → ι → τ} (h : ∀ s a, (∃ t, step s a = some t ∧ view t = next (view s) a) ↔ ok s a)
    (s : σ) (as : List ι) :
    (∀ before after, as = before ++ after →
        ∃ t, exec step s before = some t ∧ view t = before.foldl next (view s)) ↔
      Each step ok s as := by
  induction as generalizing s with
  | nil =>
    refine iff_of_true (fun before after hcut => ?_) trivial
    obtain ⟨rfl, -⟩ := List.append_eq_nil_iff.mp hcut.symm
    exact ⟨s, rfl, rfl⟩
  | cons a as ih =>
    constructor
    · intro hall
      obtain ⟨t, hrun, ht⟩ := hall [a] as rfl
      obtain ⟨u, hstep, hu⟩ := exec_cons_eq_some.mp hrun
      obtain rfl := Option.some.inj hu
      refine (each_cons hstep).mpr ⟨(h s a).mp ⟨u, hstep, ht⟩, (ih u).mp ?_⟩
      rintro before after rfl
      obtain ⟨v, hv, hview⟩ := hall (a :: before) after rfl
      rw [exec, hstep, Option.bind_some] at hv
      rw [List.foldl_cons] at hview ht
      exact ⟨v, hv, hview.trans (congrArg (before.foldl next) ht.symm)⟩
    · intro heach before after hcut
      obtain ⟨t, hstep, ht⟩ := (h s a).mpr heach.1
      rcases List.append_eq_cons_iff.mp hcut.symm with ⟨rfl, -⟩ | ⟨before, rfl, rfl⟩
      · exact ⟨s, rfl, rfl⟩
      · obtain ⟨v, hv, hview⟩ := (ih t).mpr (heach.2 t hstep) before after rfl
        refine ⟨v, by rw [exec, hstep, Option.bind_some, hv], ?_⟩
        rw [hview, ht, List.foldl_cons]

/-- In a run with an outcome, `P` holds in every state reached exactly if each step meets
the condition under which it keeps `P`; `I` is what every step keeps. -/
theorem exec_always_iff {step : σ → ι → Option σ} {ok : σ → ι → Prop} {I P : σ → Prop} {as : List ι}
    (keep : ∀ s, ∀ a ∈ as, ∀ t, I s → step s a = some t → I t)
    (next : ∀ s, ∀ a ∈ as, ∀ t, I s → P s → step s a = some t → (P t ↔ ok s a)) {s t : σ}
    (hI : I s) (hP : P s) (h : exec step s as = some t) :
    (∀ before after u, as = before ++ after → exec step s before = some u → P u) ↔
      Each step ok s as := by
  induction as generalizing s with
  | nil =>
    refine iff_of_true (fun before after u hcut hu => ?_) trivial
    obtain ⟨rfl, -⟩ := List.append_eq_nil_iff.mp hcut.symm
    exact Option.some.inj hu ▸ hP
  | cons a as ih =>
    obtain ⟨v, hstep, hrest⟩ := exec_cons_eq_some.mp h
    have hv := keep s a List.mem_cons_self v hI hstep
    have hnext := next s a List.mem_cons_self v hI hP hstep
    have htail := fun hPv => ih (fun s b hb => keep s b (List.mem_cons_of_mem a hb))
      (fun s b hb => next s b (List.mem_cons_of_mem a hb)) hv hPv hrest
    rw [each_cons hstep]
    constructor
    · intro hall
      have hPv := hall [a] as v rfl (exec_cons_eq_some.mpr ⟨v, hstep, rfl⟩)
      refine ⟨hnext.mp hPv, (htail hPv).mp ?_⟩
      rintro before after u rfl hu
      exact hall (a :: before) after u rfl (exec_cons_eq_some.mpr ⟨v, hstep, hu⟩)
    · rintro ⟨hok, heach⟩ before after u hcut hu
      rcases List.append_eq_cons_iff.mp hcut.symm with ⟨rfl, -⟩ | ⟨before, rfl, rfl⟩
      · exact Option.some.inj hu ▸ hP
      · obtain ⟨w, hw, hu⟩ := exec_cons_eq_some.mp hu
        obtain rfl := Option.some.inj (hstep.symm.trans hw)
        exact (htail (hnext.mpr hok)).mpr heach before after u rfl hu

/-- Steps that extend a log: all its entries are good exactly if those at the start are and
each step meets the condition under which it adds good ones; `I` is what every step keeps. -/
theorem exec_log_iff {step : σ → ι → Option σ} {ok : σ → ι → Prop} {I : σ → Prop} {log : σ → List ο}
    {good : ο → Prop} (keep : ∀ s a t, I s → step s a = some t → I t)
    (next : ∀ s a t, I s → step s a = some t →
      ∃ new, log t = log s ++ new ∧ ((∀ o ∈ new, good o) ↔ ok s a)) {s t : σ} {as : List ι}
    (hI : I s) (h : exec step s as = some t) :
    (∀ o ∈ log t, good o) ↔ (∀ o ∈ log s, good o) ∧ Each step ok s as := by
  induction as generalizing s with
  | nil =>
    obtain rfl := Option.some.inj h
    exact (and_iff_left trivial).symm
  | cons a as ih =>
    obtain ⟨u, hstep, hrest⟩ := exec_cons_eq_some.mp h
    obtain ⟨new, hlog, hnew⟩ := next s a u hI hstep
    rw [ih (keep s a u hI hstep) hrest, hlog, List.forall_mem_append, hnew, each_cons hstep,
      and_assoc]

end Runs
