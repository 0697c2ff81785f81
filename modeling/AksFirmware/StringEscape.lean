import AksFirmware.AdvancePage

/-!
# Escaping in place

`sc_convert` puts a backslash before each quote, apostrophe and backslash of a text, in the
text's own array: it moves the rest of the text up by a byte, zero included, and goes on two
bytes further.  It asks for no room, so that the memory has no end here and the frame says
how far the text grows.
-/

namespace AksFirmware.StringEscape

open ByteMemory

/-! ### The loop -/

/-- `strlen(p)`, as long as the zero stands in the next `n` bytes. -/
def strlen (m : Mem) (p : Nat) : Nat → Option Nat
  | 0 => none
  | n + 1 => if m p = 0 then some 0 else (strlen m (p + 1) n).map (· + 1)

/-- `memmove(p+1, p, n)` and `*p = '\\'`. -/
def escapeAt (m : Mem) (p n : Nat) : Mem := store (store m (p + 1) (load m p n)) p [0x5c]

def isSpecial (c : UInt8) : Bool := c = 0x22 || c = 0x27 || c = 0x5c

/-- The rounds of the loop from the cursor on; `none` when they do not end within the fuel. -/
def convertLoop : Nat → Mem → Nat → Option Mem
  | 0, _, _ => none
  | fuel + 1, m, p =>
      if m p = 0 then some m
      else if isSpecial (m p) then
        match strlen m p (fuel + 1) with
        | none => none
        -- past the backslash, and past the character that it escapes
        | some n => convertLoop fuel (escapeAt m p (n + 1)) (p + 1 + 1)
      else convertLoop fuel m (p + 1)

def sc_convert (fuel : Nat) (m : Mem) (instr : Nat) : Option Mem := convertLoop fuel m instr

/-! ### What is left -/

def escaped (c : UInt8) : Text := if isSpecial c then [0x5c, c] else [c]

/-- Each backslash goes, and the character behind it stays. -/
def unescape : Text → Text
  | [] => []
  | [c] => [c]
  | c :: d :: s => if c = 0x5c then d :: unescape s else c :: unescape (d :: s)

theorem strlen_of_holds {m : Mem} {s : Text} (hs : (0 : UInt8) ∉ s) :
    ∀ {p n : Nat}, HoldsText m p s → s.length < n → strlen m p n = some s.length := by
  induction s with
  | nil =>
    intro p n h hn
    obtain ⟨n, rfl⟩ := Nat.exists_eq_succ_of_ne_zero (Nat.ne_of_gt hn)
    exact if_pos h.zero_at
  | cons c s ih =>
    intro p n h hn
    obtain ⟨n, rfl⟩ := Nat.exists_eq_succ_of_ne_zero (Nat.ne_of_gt (Nat.zero_lt_of_lt hn))
    have hc : m p ≠ 0 := by
      have hfirst : m p = c := h.byte (Nat.zero_lt_succ s.length)
      exact fun h0 => hs (List.mem_cons.mpr (.inl (h0 ▸ hfirst)))
    have hrest : HoldsText m (p + 1) s := h.drop (Nat.le_add_left 1 s.length)
    have hlen := ih (fun hmem => hs (List.mem_cons_of_mem c hmem)) hrest (Nat.lt_of_succ_lt_succ hn)
    rw [strlen, if_neg hc, hlen]
    rfl

theorem escapeAt_apply (m : Mem) (p n x : Nat) :
    escapeAt m p n x =
      if x = p then 0x5c else if p < x ∧ x ≤ p + n then m (x - 1) else m x := by
  rw [escapeAt]
  by_cases hx : x = p
  · rw [if_pos hx, hx]
    exact store_at _ p 0 [0x5c] Nat.zero_lt_one
  · rw [if_neg hx, store_byte_of_ne _ _ hx, store_load_eq]
    by_cases hin : p < x ∧ x ≤ p + n
    · rw [if_pos hin, if_pos (by omega)]
      congr 1
      omega
    · rw [if_neg hin, if_neg (by omega)]

/-- In front of what was behind the character and behind the text, the move has left the two
bytes of the escape and nothing else. -/
theorem escapeAt_front (m : Mem) {p n x : Nat} (hx : x < p + 2 ∨ p + (n + 2) < x) :
    escapeAt m p (n + 2) x = store m p [0x5c, m p] x := by
  rw [escapeAt_apply]
  by_cases hxp : x = p
  · rw [if_pos hxp, hxp]
    exact (store_at m p 0 [0x5c, m p] Nat.zero_lt_two).symm
  · rw [if_neg hxp]
    by_cases hnext : x = p + 1
    · rw [if_pos (by omega), hnext]
      exact (store_at m p 1 [0x5c, m p] Nat.one_lt_two).symm
    · have hout : x < p ∨ p + [0x5c, m p].length ≤ x := by
        simp only [List.length_cons, List.length_nil]
        omega
      rw [if_neg (by omega), store_of_outside m _ hout]

/-- Behind the added backslash and the character stands the rest of the text. -/
theorem escapeAt_holds {m : Mem} {p : Nat} {c : UInt8} {s : Text} (h : HoldsText m p (c :: s)) :
    HoldsText (escapeAt m p (s.length + 2)) (p + 2) s := by
  have hrest : HoldsText m (p + 1) s := h.drop (Nat.le_add_left 1 s.length)
  refine Eq.trans (load_congr fun i hi => ?_) hrest
  rw [escapeAt_apply, if_neg (by omega), if_pos (by omega)]
  congr 1
  omega

theorem store_self (m : Mem) (p : Nat) : store m p [m p] = m := by
  funext x
  by_cases hx : x = p
  · rw [hx]
    exact store_at m p 0 [m p] Nat.zero_lt_one
  · exact store_byte_of_ne m (m p) hx

theorem length_le_escaped (s : Text) : s.length ≤ (s.flatMap escaped).length := by
  induction s with
  | nil => exact Nat.le_refl 0
  | cons c s ih =>
    have hone : 1 ≤ (escaped c).length := by unfold escaped; split <;> simp
    rw [List.flatMap_cons, List.length_append, List.length_cons]
    omega

/-- The escaped text stands where the text stood, and no other byte changes. -/
theorem convertLoop_eq {s : Text} (hs : (0 : UInt8) ∉ s) :
    ∀ {fuel p : Nat} {m : Mem}, HoldsText m p s → s.length < fuel →
      convertLoop fuel m p = some (storeText m p (s.flatMap escaped)) := by
  induction s with
  | nil =>
    intro fuel p m h hfuel
    obtain ⟨fuel, rfl⟩ := Nat.exists_eq_succ_of_ne_zero (Nat.ne_of_gt hfuel)
    have hzero : m p = 0 := h.zero_at
    have hsame : storeText m p [] = m := by
      funext x
      by_cases hx : x = p
      · rw [hx, hzero]
        exact storeText_end m p []
      · exact storeText_of_outside m [] (by simp only [List.length_nil]; omega)
    rw [convertLoop, if_pos hzero, List.flatMap_nil, hsame]
  | cons c s ih =>
    intro fuel p m h hfuel
    obtain ⟨fuel, rfl⟩ := Nat.exists_eq_succ_of_ne_zero (Nat.ne_of_gt (Nat.zero_lt_of_lt hfuel))
    have hfirst : m p = c := h.byte (Nat.zero_lt_succ s.length)
    have hc : m p ≠ 0 := fun h0 => hs (List.mem_cons.mpr (.inl (h0 ▸ hfirst)))
    have hrest : HoldsText m (p + 1) s := h.drop (Nat.le_add_left 1 s.length)
    have hs' : (0 : UInt8) ∉ s := fun hmem => hs (List.mem_cons_of_mem c hmem)
    have hfuel' : s.length < fuel := Nat.lt_of_succ_lt_succ hfuel
    have hlen := length_le_escaped s
    rw [convertLoop, if_neg hc, hfirst, List.flatMap_cons, storeText_append]
    by_cases hspecial : isSpecial c = true
    · rw [if_pos hspecial, strlen_of_holds hs h hfuel]
      have hwide : escaped c = [0x5c, c] := if_pos hspecial
      change convertLoop fuel (escapeAt m p (s.length + 2)) (p + 2) = _
      rw [ih hs' (escapeAt_holds h) hfuel', hwide, ← hfirst]
      change some (storeText _ (p + 2) _) = some (storeText _ (p + 2) _)
      rw [storeText_agree fun x hx => escapeAt_front m (by omega)]
    · have hplain : escaped c = [c] := if_neg hspecial
      rw [if_neg hspecial, ih hs' hrest hfuel', hplain, ← hfirst]
      change some (storeText m (p + 1) _) = some (storeText _ (p + 1) _)
      rw [store_self]

/-! ### What a reader gets back -/

theorem unescape_escaped (s : Text) : unescape (s.flatMap escaped) = s := by
  induction s with
  | nil => rfl
  | cons c s ih =>
    rw [List.flatMap_cons, escaped]
    by_cases hspecial : isSpecial c = true
    · rw [if_pos hspecial]
      change unescape (0x5c :: c :: s.flatMap escaped) = _
      rw [unescape, if_pos rfl, ih]
    · rw [if_neg hspecial]
      have hc : c ≠ 0x5c := by
        rintro rfl
        exact hspecial rfl
      change unescape (c :: s.flatMap escaped) = _
      cases hrest : s.flatMap escaped with
      | nil =>
        rw [hrest] at ih
        rw [← ih]
        rfl
      | cons d t => rw [unescape, if_neg hc, ← hrest, ih]

theorem length_escaped (s : Text) : (s.flatMap escaped).length = s.length + s.countP isSpecial := by
  induction s with
  | nil => rfl
  | cons c s ih =>
    rw [List.flatMap_cons, List.length_append, ih, List.length_cons, List.countP_cons, escaped]
    by_cases hspecial : isSpecial c = true
    · rw [if_pos hspecial, if_pos hspecial, List.length_cons, List.length_singleton]
      omega
    · rw [if_neg hspecial, if_neg hspecial, List.length_singleton]
      omega

theorem zero_notMem_escaped {s : Text} (hs : (0 : UInt8) ∉ s) : (0 : UInt8) ∉ s.flatMap escaped := by
  intro hmem
  obtain ⟨c, hc, hin⟩ := List.mem_flatMap.mp hmem
  unfold escaped at hin
  split at hin
  · rcases List.mem_cons.mp hin with h | h
    · exact absurd h (by decide)
    · exact hs (List.mem_singleton.mp h ▸ hc)
  · exact hs (List.mem_singleton.mp hin ▸ hc)

/-- The rows of the firmware page are escaped by this loop. -/
theorem escaped_eq_page (s : Text) : s.flatMap escaped = AdvancePage.sc_convert s := by
  induction s with
  | nil => rfl
  | cons c s ih =>
    rw [List.flatMap_cons, ih, AdvancePage.sc_convert, escaped]
    by_cases hspecial : c = 0x22 ∨ c = 0x27 ∨ c = 0x5c
    · rw [if_pos hspecial, if_pos (by simpa [isSpecial, or_assoc] using hspecial)]
      rfl
    · rw [if_neg hspecial, if_neg (by simpa [isSpecial, or_assoc] using hspecial)]
      rfl

/-- Any number of rounds from the length of the text on is enough. -/
theorem sc_convert_escapes {m : Mem} {instr : Nat} {s : Text} (hs : (0 : UInt8) ∉ s)
    (h : HoldsText m instr s) :
    ∃ m' t, (∀ fuel, s.length < fuel → sc_convert fuel m instr = some m') ∧
      HoldsText m' instr t ∧ (0 : UInt8) ∉ t ∧ unescape t = s ∧
      t = s.flatMap (fun c => if c = 0x22 ∨ c = 0x27 ∨ c = 0x5c then [0x5c, c] else [c]) ∧
      t.length = s.length + s.countP (fun c => c = 0x22 ∨ c = 0x27 ∨ c = 0x5c) ∧
      ∀ x, x < instr ∨ instr + t.length < x → m' x = m x := by
  have hspecial : ∀ c, (isSpecial c = true) = (c = 0x22 ∨ c = 0x27 ∨ c = 0x5c) := fun c => by
    simp [isSpecial, or_assoc]
  refine ⟨storeText m instr (s.flatMap escaped), s.flatMap escaped,
    fun fuel hfuel => convertLoop_eq hs h hfuel, holdsText_storeText _ _ _, zero_notMem_escaped hs,
    unescape_escaped s, ?_, ?_, fun x hx => storeText_of_outside m _ hx⟩
  · apply List.flatMap_congr
    intro c _
    simp only [escaped, hspecial]
  · rw [length_escaped]
    congr 2
    funext c
    exact Bool.eq_iff_iff.mpr (by rw [hspecial, decide_eq_true_iff])

/-- The text `"\` becomes `\"\\`. -/
theorem sc_convert_escapes_pair :
    ∃ m' t, (∀ fuel, 2 < fuel → sc_convert fuel (storeText zeroed 0 [0x22, 0x5c]) 0 = some m') ∧
      HoldsText m' 0 t ∧ t = [0x5c, 0x22, 0x5c, 0x5c] := by
  obtain ⟨m', t, hrun, hheld, -, -, ht, -, -⟩ :=
    sc_convert_escapes (s := [0x22, 0x5c]) (by decide) (holdsText_storeText zeroed 0 _)
  exact ⟨m', t, hrun, hheld, ht.trans (by decide)⟩

end AksFirmware.StringEscape
