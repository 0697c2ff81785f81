import Mathlib.Data.List.Basic
import Mathlib.Data.List.TakeWhile
import Mathlib.Data.List.Range

/-!
# Byte-addressed objects and the texts stored in them

An object of C storage is seen here as a total map from byte offsets to bytes.
A copy writes a run of bytes at an offset, and a text copy writes the characters
and the terminating zero.  Nothing stops a copy from running past the array it
was meant for, so an overflow is an ordinary value of this model and the lemmas
below say exactly which bytes it reaches.

The two questions every client asks are answered once: what a copy leaves alone
(`store_of_outside`) and what is read back (`text_storeText`).
-/

namespace ByteMemory

/-- The bytes of an object, by their offset from its start. -/
abbrev Mem := Nat → UInt8

/-- A run of characters without its terminating zero. -/
abbrev Text := List UInt8

def zeroed : Mem := fun _ => 0

/-! ### Reading and writing runs of bytes -/

def load (m : Mem) (a n : Nat) : List UInt8 := (List.range n).map fun i => m (a + i)

/-- Write a run of bytes from offset `a` on. -/
def store (m : Mem) (a : Nat) (bytes : List UInt8) : Mem := fun x =>
  if a ≤ x then (bytes[x - a]?).getD (m x) else m x

@[simp] theorem load_length (m : Mem) (a n : Nat) : (load m a n).length = n := by
  simp [load]

@[simp] theorem load_getElem (m : Mem) (a n i : Nat) (h : i < (load m a n).length) :
    (load m a n)[i] = m (a + i) := by
  simp [load]

theorem load_getElem?_eq (m : Mem) (a : Nat) {n i : Nat} (h : i < n) :
    (load m a n)[i]? = some (m (a + i)) := by
  simp [load, h]

theorem load_add (m : Mem) (a n k : Nat) :
    load m a (n + k) = load m a n ++ load m (a + n) k := by
  simp [load, List.range_add, Function.comp_def, Nat.add_assoc]

theorem load_getLast (m : Mem) (a : Nat) {n : Nat} (h : 0 < n) :
    (load m a n).getLast? = some (m (a + (n - 1))) := by
  rw [List.getLast?_eq_getElem?, load_length, List.getElem?_eq_getElem (by simp; omega),
    load_getElem]

theorem load_congr {m m' : Mem} {a b n : Nat} (h : ∀ i < n, m (a + i) = m' (b + i)) :
    load m a n = load m' b n := by
  apply List.map_congr_left
  intro i hi
  exact h i (List.mem_range.mp hi)

theorem load_eq_iff {m m' : Mem} {a n : Nat} :
    load m a n = load m' a n ↔ ∀ i < n, m (a + i) = m' (a + i) := by
  refine ⟨fun h i hi => ?_, load_congr⟩
  have hget := congrArg (fun bytes => bytes[i]?) h
  simpa [load, hi] using hget

/-- A copy leaves every byte outside the run it writes alone. -/
theorem store_of_outside (m : Mem) {a x : Nat} (bytes : List UInt8)
    (h : x < a ∨ a + bytes.length ≤ x) : store m a bytes x = m x := by
  unfold store
  split
  · rw [List.getElem?_eq_none (by omega)]
    rfl
  · rfl

theorem store_byte_of_ne (m : Mem) {a x : Nat} (b : UInt8) (h : x ≠ a) : store m a [b] x = m x :=
  store_of_outside m [b] (by rw [List.length_singleton]; omega)

theorem store_at (m : Mem) (a i : Nat) (bytes : List UInt8) (h : i < bytes.length) :
    store m a bytes (a + i) = bytes[i] := by
  simp [store, h]

@[simp] theorem load_store_same (m : Mem) (a : Nat) (bytes : List UInt8) :
    load (store m a bytes) a bytes.length = bytes := by
  apply List.ext_getElem (by simp)
  intro i h _
  rw [load_getElem]
  exact store_at m a i bytes (by simpa using h)

theorem load_store_disjoint (m : Mem) {a b n : Nat} (bytes : List UInt8)
    (h : b + n ≤ a ∨ a + bytes.length ≤ b) :
    load (store m a bytes) b n = load m b n :=
  load_congr fun _ _ => store_of_outside m bytes (by omega)

theorem store_eq (m : Mem) (a x : Nat) (bytes : List UInt8) :
    store m a bytes x =
      if h : a ≤ x ∧ x < a + bytes.length then bytes[x - a] else m x := by
  split
  · rename_i h
    have hat := store_at m a (x - a) bytes (by omega)
    rwa [Nat.add_sub_cancel' h.1] at hat
  · exact store_of_outside m bytes (by omega)

theorem store_append (m : Mem) (a : Nat) (bytes bytes' : List UInt8) :
    store m a (bytes ++ bytes') = store (store m a bytes) (a + bytes.length) bytes' := by
  funext x
  rcases Nat.lt_or_ge x (a + bytes.length) with hx | hx
  · rw [store_of_outside _ bytes' (.inl hx)]
    by_cases hle : a ≤ x
    · simp only [store, if_pos hle]
      rw [List.getElem?_append_left (by omega)]
    · simp only [store, if_neg hle]
  · have hle : a ≤ x := Nat.le_of_add_right_le hx
    rw [store, if_pos hle, List.getElem?_append_right (by omega), store, if_pos hx,
      store_of_outside m bytes (.inr hx), Nat.sub_sub]

/-! ### Copies between two objects -/

/-- `memmove` of `n` bytes from offset `a` of an object of `srcSize` bytes to offset
`d` of one of `dstSize` bytes; undefined unless both runs lie inside. -/
def move (dst : Mem) (dstSize : Nat) (d : Int) (src : Mem) (srcSize : Nat) (a n : Int) :
    Option Mem :=
  if 0 ≤ n ∧ 0 ≤ d ∧ d + n ≤ dstSize ∧ 0 ≤ a ∧ a + n ≤ srcSize then
    some (store dst d.toNat (load src a.toNat n.toNat))
  else none

theorem move_eq_some (dst src : Mem) {dstSize srcSize d a n : Nat}
    (hd : d + n ≤ dstSize) (ha : a + n ≤ srcSize) :
    move dst dstSize d src srcSize a n = some (store dst d (load src a n)) := by
  have hbounds : 0 ≤ (n : Int) ∧ 0 ≤ (d : Int) ∧ (d : Int) + n ≤ dstSize ∧ 0 ≤ (a : Int) ∧
      (a : Int) + n ≤ srcSize := by omega
  simp only [move, if_pos hbounds, Int.toNat_natCast]

theorem store_load_eq (dst src : Mem) (d a n x : Nat) :
    store dst d (load src a n) x = if d ≤ x ∧ x < d + n then src (a + (x - d)) else dst x := by
  rw [store_eq]
  simp only [load_length, load_getElem]
  split <;> rfl

/-! ### Terminated texts -/

/-- Some byte of the `n`-byte array at `a` ends a text. -/
def Terminated (m : Mem) (a n : Nat) : Prop := ∃ i < n, m (a + i) = 0

instance (m : Mem) (a n : Nat) : Decidable (Terminated m a n) := by
  unfold Terminated; infer_instance

/-- The characters found at `a` before the first zero, looking at `n` bytes only. -/
def text (m : Mem) (a n : Nat) : Text := (load m a n).takeWhile (· ≠ 0)

def storeText (m : Mem) (a : Nat) (s : Text) : Mem := store m a (s ++ [0])

theorem zero_notMem_text (m : Mem) (a n : Nat) : (0 : UInt8) ∉ text m a n := by
  intro h
  simpa using List.mem_takeWhile_imp h

theorem takeWhile_eq_self {s : Text} (hs : (0 : UInt8) ∉ s) : s.takeWhile (· ≠ 0) = s := by
  rw [List.takeWhile_eq_self_iff]
  intro c hc
  simpa using fun h0 : c = 0 => hs (h0 ▸ hc)

theorem takeWhile_append_zero (s t : Text) :
    (s ++ 0 :: t).takeWhile (· ≠ 0) = s.takeWhile (· ≠ 0) := by
  induction s with
  | nil => simp
  | cons c s ih => rw [List.cons_append, List.takeWhile_cons, List.takeWhile_cons, ih]

/-- The character that ends a run is not one of it. -/
theorem not_of_dropWhile_cons {α : Type} {p : α → Bool} {s rest : List α} {c : α}
    (h : s.dropWhile p = c :: rest) : p c = false := by
  have hhead := List.head?_dropWhile_not p s
  rw [h] at hhead
  simpa using hhead

/-- A terminated array splits into its text, a zero, and bytes nobody reads. -/
theorem Terminated.split {m : Mem} {a n : Nat} (h : Terminated m a n) :
    ∃ rest, load m a n = text m a n ++ 0 :: rest := by
  obtain ⟨i, hi, hzero⟩ := h
  have hdrop : (load m a n).dropWhile (· ≠ 0) ≠ [] := by
    intro hnil
    have hall := List.dropWhile_eq_nil_iff.mp hnil 0
    have hmem : (0 : UInt8) ∈ load m a n :=
      List.mem_map.mpr ⟨i, List.mem_range.mpr hi, hzero⟩
    simpa using hall hmem
  obtain ⟨c, rest, hcons⟩ := List.exists_cons_of_ne_nil hdrop
  have hc : c = 0 := by simpa using not_of_dropWhile_cons hcons
  refine ⟨rest, ?_⟩
  rw [← hc, ← hcons]
  exact (List.takeWhile_append_dropWhile ..).symm

theorem Terminated.text_length_lt {m : Mem} {a n : Nat} (h : Terminated m a n) :
    (text m a n).length < n := by
  obtain ⟨rest, hsplit⟩ := h.split
  have hlen := congrArg List.length hsplit
  simp only [load_length, List.length_append, List.length_cons] at hlen
  omega

/-- Looking further than a terminated array does not change the text. -/
theorem Terminated.text_eq_of_le {m : Mem} {a n k : Nat} (h : Terminated m a n) (hk : n ≤ k) :
    text m a k = text m a n := by
  obtain ⟨rest, hsplit⟩ := h.split
  obtain ⟨d, rfl⟩ := Nat.exists_eq_add_of_le hk
  have hfirst : text m a (n + d) =
      (text m a n ++ 0 :: (rest ++ load m (a + n) d)).takeWhile (· ≠ 0) := by
    rw [text, load_add, hsplit, List.append_assoc, List.cons_append]
  rw [hfirst, takeWhile_append_zero]
  exact takeWhile_eq_self (zero_notMem_text m a n)

theorem text_congr {m m' : Mem} {a b n : Nat} (h : ∀ i < n, m (a + i) = m' (b + i)) :
    text m a n = text m' b n := by
  unfold text
  rw [load_congr h]

theorem terminated_congr {m m' : Mem} {a b n : Nat} (h : ∀ i < n, m (a + i) = m' (b + i)) :
    Terminated m a n ↔ Terminated m' b n := by
  unfold Terminated
  constructor
  · rintro ⟨i, hi, hzero⟩
    exact ⟨i, hi, (h i hi).symm.trans hzero⟩
  · rintro ⟨i, hi, hzero⟩
    exact ⟨i, hi, (h i hi).trans hzero⟩

/-! ### What a text copy does -/

@[simp] theorem storeText_of_outside (m : Mem) {a x : Nat} (s : Text)
    (h : x < a ∨ a + s.length < x) : storeText m a s x = m x :=
  store_of_outside m _ (by simp; omega)

theorem storeText_at (m : Mem) (a i : Nat) (s : Text) (h : i < s.length) :
    storeText m a s (a + i) = s[i] := by
  rw [storeText, store_at m a i (s ++ [0]) (by simp; omega), List.getElem_append_left h]

theorem storeText_end (m : Mem) (a : Nat) (s : Text) : storeText m a s (a + s.length) = 0 := by
  rw [storeText, store_at m a s.length (s ++ [0]) (by simp)]
  simp

theorem terminated_storeText (m : Mem) {a n : Nat} {s : Text} (h : s.length < n) :
    Terminated (storeText m a s) a n :=
  ⟨s.length, h, storeText_end m a s⟩

/-- The text and its end stand at `a`. -/
def HoldsText (m : Mem) (a : Nat) (s : Text) : Prop := load m a (s.length + 1) = s ++ [0]

theorem holdsText_storeText (m : Mem) (a : Nat) (s : Text) : HoldsText (storeText m a s) a s := by
  have hsame := load_store_same m a (s ++ [0])
  rwa [List.length_append] at hsame

theorem HoldsText.congr {m m' : Mem} {a : Nat} {s : Text} (h : HoldsText m a s)
    (hsame : ∀ x, a ≤ x → x ≤ a + s.length → m' x = m x) : HoldsText m' a s :=
  (load_congr fun _ _ => hsame _ (by omega) (by omega)).trans h

theorem HoldsText.zero_at {m : Mem} {a : Nat} {s : Text} (h : HoldsText m a s) :
    m (a + s.length) = 0 := by
  have hend := congrArg (fun bytes => bytes[s.length]?) h
  simpa [load_getElem?_eq] using hend

theorem HoldsText.byte {m : Mem} {a : Nat} {s : Text} (h : HoldsText m a s) {i : Nat}
    (hi : i < s.length) : m (a + i) = s[i] := by
  have hat := congrArg (fun bytes => bytes[i]?) h
  simp only [load_getElem?_eq m a (Nat.lt_succ_of_lt hi), List.getElem?_append_left hi,
    List.getElem?_eq_getElem hi] at hat
  exact Option.some.inj hat

theorem HoldsText.terminated {m : Mem} {a n : Nat} {s : Text} (h : HoldsText m a s)
    (hn : s.length < n) : Terminated m a n :=
  ⟨s.length, hn, h.zero_at⟩

theorem HoldsText.text_takeWhile {m : Mem} {a n : Nat} {s : Text} (h : HoldsText m a s)
    (hn : s.length < n) : text m a n = s.takeWhile (· ≠ 0) := by
  rw [(h.terminated (Nat.lt_succ_self _)).text_eq_of_le hn, text, h, takeWhile_append_zero]

theorem HoldsText.text_eq {m : Mem} {a n : Nat} {s : Text} (h : HoldsText m a s)
    (hs : (0 : UInt8) ∉ s) (hn : s.length < n) : text m a n = s := by
  rw [h.text_takeWhile hn, takeWhile_eq_self hs]

theorem HoldsText.eq_of_length {m : Mem} {a : Nat} {s t : Text} (hs : HoldsText m a s)
    (ht : HoldsText m a t) (hlen : s.length = t.length) : s = t := by
  have hbytes : s ++ [0] = t ++ [0] := hs.symm.trans ((congrArg _ (congrArg _ hlen)).trans ht)
  exact List.append_cancel_right hbytes

theorem HoldsText.drop {m : Mem} {a : Nat} {s : Text} (h : HoldsText m a s) {k : Nat}
    (hk : k ≤ s.length) : HoldsText m (a + k) (s.drop k) := by
  have hall : load m a (k + (s.length - k + 1)) = s ++ [0] := by
    rw [show k + (s.length - k + 1) = s.length + 1 by omega]
    exact h
  rw [load_add] at hall
  have hrest := congrArg (List.drop k) hall
  rw [List.drop_left' (load_length m a k), List.drop_append_of_le_length hk] at hrest
  rwa [HoldsText, List.length_drop]

/-- A zero written outside the characters of a text does not show. -/
theorem HoldsText.store_zero {m : Mem} {a t : Nat} {s : Text} (h : HoldsText m a s)
    (ht : t < a ∨ a + s.length ≤ t) : HoldsText (store m t [0]) a s := by
  apply h.congr
  intro x hx hx'
  by_cases hxt : x = t
  · have hend : x = a + s.length := by omega
    have hzero : store m t [0] t = 0 := store_at m t 0 [0] Nat.zero_lt_one
    rw [hxt, hzero, ← hxt, hend, h.zero_at]
  · exact store_of_outside m [0] (by simp only [List.length_singleton]; omega)

/-- A zero written over a text cuts it off there. -/
theorem HoldsText.cut {m : Mem} {a : Nat} {s : Text} (h : HoldsText m a s) (k : Nat) :
    HoldsText (store m (a + k) [0]) a (s.take k) := by
  rcases Nat.lt_or_ge s.length k with hk | hk
  · rw [List.take_of_length_le (by omega)]
    exact h.store_zero (.inr (by omega))
  · have hfirst : load m a k = s.take k := by
      obtain ⟨d, hd⟩ := Nat.exists_eq_add_of_le (Nat.le_succ_of_le hk)
      have hall : load m a (k + d) = s ++ [0] := hd ▸ h
      rw [load_add] at hall
      have hcut := congrArg (List.take k) hall
      rwa [List.take_left' (load_length m a k), List.take_append_of_le_length hk] at hcut
    rw [HoldsText, List.length_take_of_le hk, load_add, load_store_disjoint m [0] (.inl le_rfl),
      hfirst]
    exact congrArg (s.take k ++ ·) (load_store_same m (a + k) [0])

theorem HoldsText.store_zeros {a : Nat} {s : Text} {ts : List Nat}
    (hts : ∀ t ∈ ts, t < a ∨ a + s.length ≤ t) :
    ∀ {m : Mem}, HoldsText m a s → HoldsText (ts.foldl (fun m t => store m t [0]) m) a s := by
  induction ts with
  | nil => exact id
  | cons t ts ih =>
    obtain ⟨ht, hts⟩ := List.forall_mem_cons.mp hts
    exact fun h => ih hts (h.store_zero ht)

def storeTexts (m : Mem) (ws : List (Nat × Text)) : Mem :=
  ws.foldl (fun m w => storeText m w.1 w.2) m

theorem storeTexts_before (m : Mem) {ws : List (Nat × Text)} {x : Nat}
    (h : ∀ w ∈ ws, x < w.1) : storeTexts m ws x = m x := by
  induction ws generalizing m with
  | nil => rfl
  | cons w ws ih =>
    obtain ⟨hw, hws⟩ := List.forall_mem_cons.mp h
    exact (ih _ hws).trans (storeText_of_outside m w.2 (.inl hw))

/-- Copies made at rising offsets, none of which reaches the next, all stay in place. -/
theorem storeTexts_holds (m : Mem) {ws : List (Nat × Text)}
    (h : ws.IsChain fun w w' => w.1 + w.2.length < w'.1) :
    ∀ w ∈ ws, HoldsText (storeTexts m ws) w.1 w.2 := by
  have : IsTrans (Nat × Text) fun w w' => w.1 + w.2.length < w'.1 := ⟨fun _ _ _ _ _ => by omega⟩
  rw [List.isChain_iff_pairwise] at h
  induction ws generalizing m with
  | nil => exact fun _ hw => nomatch hw
  | cons w ws ih =>
    obtain ⟨hw, hws⟩ := List.pairwise_cons.mp h
    intro w' hw'
    rcases List.mem_cons.mp hw' with rfl | hin
    · apply (holdsText_storeText m w'.1 w'.2).congr
      intro x _ hx
      exact storeTexts_before _ fun v hv => Nat.lt_of_le_of_lt hx (hw v hv)
    · exact ih _ hws w' hin

theorem text_storeText (m : Mem) {a n : Nat} {s : Text} (hs : (0 : UInt8) ∉ s)
    (h : s.length < n) : text (storeText m a s) a n = s :=
  (holdsText_storeText m a s).text_eq hs h

theorem storeText_congr {m m' : Mem} (a : Nat) (s : Text) {x : Nat} (h : m x = m' x) :
    storeText m a s x = storeText m' a s x := by
  simp only [storeText, store, h]

/-- A copied text covers what stood in its place. -/
theorem storeText_agree {m m' : Mem} {a : Nat} {s : Text}
    (h : ∀ x, x < a ∨ a + s.length < x → m x = m' x) : storeText m a s = storeText m' a s := by
  funext x
  by_cases hx : x < a ∨ a + s.length < x
  · rw [storeText_of_outside m s hx, storeText_of_outside m' s hx, h x hx]
  · have hin : a ≤ x ∧ x < a + (s ++ [0]).length := by
      rw [List.length_append, List.length_singleton]
      omega
    rw [storeText, storeText, store_eq, store_eq, dif_pos hin, dif_pos hin]

theorem storeText_append (m : Mem) (a : Nat) (s t : Text) :
    storeText m a (s ++ t) = storeText (store m a s) (a + s.length) t := by
  rw [storeText, List.append_assoc, store_append]
  rfl

/-- One character of a text written over. -/
theorem storeText_set (m : Mem) {a i : Nat} {s : Text} (hi : i < s.length) (b : UInt8) :
    store (storeText m a s) (a + i) [b] = storeText m a (s.set i b) := by
  have hset : i < (s.set i b).length := by rwa [List.length_set]
  funext x
  by_cases hx : x = a + i
  · rw [hx, storeText_at m a i _ hset, List.getElem_set_self]
    exact store_at _ (a + i) 0 [b] Nat.zero_lt_one
  · rw [store_byte_of_ne _ b hx]
    by_cases hout : x < a ∨ a + s.length < x
    · rw [storeText_of_outside m s hout, storeText_of_outside m _ (by rwa [List.length_set])]
    · obtain ⟨k, rfl⟩ := Nat.exists_eq_add_of_le (Nat.not_lt.mp fun hlt => hout (.inl hlt))
      rcases Nat.lt_or_ge k s.length with hk | hk
      · rw [storeText_at m a k s hk, storeText_at m a k _ (by rwa [List.length_set]),
          List.getElem_set_ne (by omega)]
      · obtain rfl : k = s.length := by omega
        have hend := storeText_end m a (s.set i b)
        rw [List.length_set] at hend
        rw [storeText_end, hend]

/-- A text longer than its array fills it. -/
theorem text_storeText_take (m : Mem) (a n : Nat) {s : Text} (hs : (0 : UInt8) ∉ s) :
    text (storeText m a s) a n = s.take n := by
  rcases Nat.lt_or_ge s.length n with hlt | hge
  · rw [text_storeText m hs hlt, List.take_of_length_le (Nat.le_of_lt hlt)]
  · have hload : load (storeText m a s) a n = s.take n := by
      apply List.ext_getElem
      · rw [load_length, List.length_take_of_le hge]
      · intro i hi _
        rw [load_length] at hi
        rw [load_getElem, storeText_at m a i s (by omega), List.getElem_take]
    rw [text, hload]
    exact takeWhile_eq_self fun hmem => hs (List.mem_of_mem_take hmem)

end ByteMemory
