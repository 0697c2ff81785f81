import AksFirmware.ByteMemory
import Mathlib.Algebra.Group.Nat.Defs

/-!
# Words laid out in bytes

A 32-bit word takes four bytes, the lowest or the highest one first.  `swap` turns one
order into the other, so a machine of one order reads a word of the other by swapping what
it loads and writes it by swapping what it stores.

A sum over a run of words changes with a word of the run by the difference of the two
words.  A word that is zero while the sum is taken and then gets its negative makes the
sum zero (`wordSum_balanced`).
-/

namespace WordBytes

open ByteMemory

/-- The word with the given bytes, the lowest first. -/
def ofBytes (b₀ b₁ b₂ b₃ : UInt8) : UInt32 :=
  UInt32.ofNat (b₀.toNat + 256 * b₁.toNat + 65536 * b₂.toNat + 16777216 * b₃.toNat)

def byteOf (w : UInt32) (i : Nat) : UInt8 := UInt8.ofNat (w.toNat / 256 ^ i)

def leBytes (w : UInt32) : List UInt8 := [byteOf w 0, byteOf w 1, byteOf w 2, byteOf w 3]

def beBytes (w : UInt32) : List UInt8 := [byteOf w 3, byteOf w 2, byteOf w 1, byteOf w 0]

/-- The word at an offset, the lowest byte first. -/
def leWord (m : Mem) (a : Nat) : UInt32 := ofBytes (m a) (m (a + 1)) (m (a + 2)) (m (a + 3))

/-- The word at an offset, the highest byte first. -/
def beWord (m : Mem) (a : Nat) : UInt32 := ofBytes (m (a + 3)) (m (a + 2)) (m (a + 1)) (m a)

/-- The bytes of the word in the other order. -/
def swap (w : UInt32) : UInt32 := ofBytes (byteOf w 3) (byteOf w 2) (byteOf w 1) (byteOf w 0)

/-! ### Bytes and words -/

theorem ofBytes_toNat (b₀ b₁ b₂ b₃ : UInt8) : (ofBytes b₀ b₁ b₂ b₃).toNat =
    b₀.toNat + 256 * b₁.toNat + 65536 * b₂.toNat + 16777216 * b₃.toNat := by
  have h₀ := b₀.toNat_lt
  have h₁ := b₁.toNat_lt
  have h₂ := b₂.toNat_lt
  have h₃ := b₃.toNat_lt
  rw [ofBytes, UInt32.toNat_ofNat', Nat.mod_eq_of_lt (by omega)]

theorem byteOf_toNat (w : UInt32) (i : Nat) : (byteOf w i).toNat = w.toNat / 256 ^ i % 256 := by
  rw [byteOf, UInt8.toNat_ofNat']

/-- A word is made of its bytes. -/
theorem ofBytes_byteOf (w : UInt32) :
    ofBytes (byteOf w 0) (byteOf w 1) (byteOf w 2) (byteOf w 3) = w := by
  have hw := w.toNat_lt
  apply UInt32.toNat_inj.mp
  simp only [ofBytes_toNat, byteOf_toNat]
  omega

theorem byteOf_ofBytes (b₀ b₁ b₂ b₃ : UInt8) :
    byteOf (ofBytes b₀ b₁ b₂ b₃) 0 = b₀ ∧ byteOf (ofBytes b₀ b₁ b₂ b₃) 1 = b₁ ∧
      byteOf (ofBytes b₀ b₁ b₂ b₃) 2 = b₂ ∧ byteOf (ofBytes b₀ b₁ b₂ b₃) 3 = b₃ := by
  have h₀ := b₀.toNat_lt
  have h₁ := b₁.toNat_lt
  have h₂ := b₂.toNat_lt
  have h₃ := b₃.toNat_lt
  refine ⟨?_, ?_, ?_, ?_⟩ <;>
    · apply UInt8.toNat_inj.mp
      simp only [byteOf_toNat, ofBytes_toNat]
      omega

theorem swap_ofBytes (b₀ b₁ b₂ b₃ : UInt8) : swap (ofBytes b₀ b₁ b₂ b₃) = ofBytes b₃ b₂ b₁ b₀ := by
  obtain ⟨h₀, h₁, h₂, h₃⟩ := byteOf_ofBytes b₀ b₁ b₂ b₃
  rw [swap, h₀, h₁, h₂, h₃]

@[simp] theorem swap_swap (w : UInt32) : swap (swap w) = w := by
  rw [swap.eq_def w, swap_ofBytes]
  exact ofBytes_byteOf w

@[simp] theorem swap_zero : swap 0 = 0 := by decide

theorem swap_leWord (m : Mem) (a : Nat) : swap (leWord m a) = beWord m a := swap_ofBytes _ _ _ _

/-! ### Words in memory -/

@[simp] theorem leBytes_length (w : UInt32) : (leBytes w).length = 4 := rfl

@[simp] theorem beBytes_length (w : UInt32) : (beBytes w).length = 4 := rfl

theorem leWord_congr {m m' : Mem} {a b : Nat} (h : ∀ i < 4, m' (b + i) = m (a + i)) :
    leWord m' b = leWord m a := by
  have h₀ := h 0 (by decide)
  rw [Nat.add_zero, Nat.add_zero] at h₀
  rw [leWord, leWord, h₀, h 1 (by decide), h 2 (by decide), h 3 (by decide)]

theorem beWord_congr {m m' : Mem} {a b : Nat} (h : ∀ i < 4, m' (b + i) = m (a + i)) :
    beWord m' b = beWord m a := by
  rw [← swap_leWord, ← swap_leWord, leWord_congr h]

theorem leWord_store (m : Mem) (a : Nat) (w : UInt32) : leWord (store m a (leBytes w)) a = w := by
  have hat := fun i (hi : i < 4) => store_at m a i (leBytes w) hi
  have h₀ := hat 0 (by decide)
  rw [Nat.add_zero] at h₀
  rw [leWord, h₀, hat 1 (by decide), hat 2 (by decide), hat 3 (by decide)]
  exact ofBytes_byteOf w

theorem beWord_store (m : Mem) (a : Nat) (w : UInt32) : beWord (store m a (beBytes w)) a = w := by
  have hat := fun i (hi : i < 4) => store_at m a i (beBytes w) hi
  have h₀ := hat 0 (by decide)
  rw [Nat.add_zero] at h₀
  rw [beWord, h₀, hat 1 (by decide), hat 2 (by decide), hat 3 (by decide)]
  exact ofBytes_byteOf w

theorem leWord_store_other (m : Mem) {a b : Nat} (bytes : List UInt8)
    (h : b + 4 ≤ a ∨ a + bytes.length ≤ b) : leWord (store m a bytes) b = leWord m b :=
  leWord_congr fun _ _ => store_of_outside m bytes (by omega)

theorem beWord_store_other (m : Mem) {a b : Nat} (bytes : List UInt8)
    (h : b + 4 ≤ a ∨ a + bytes.length ≤ b) : beWord (store m a bytes) b = beWord m b :=
  beWord_congr fun _ _ => store_of_outside m bytes (by omega)

/-! ### Sums of words -/

/-- The sum of `n` words from an offset on, each as it is read. -/
def wordSum (read : UInt32 → UInt32) (m : Mem) (a : Nat) : Nat → UInt32
  | 0 => 0
  | n + 1 => wordSum read m a n + read (leWord m (a + 4 * n))

theorem wordSum_eq_foldl (read : UInt32 → UInt32) (m : Mem) (a n : Nat) :
    wordSum read m a n =
      ((List.range n).map fun k => read (leWord m (a + 4 * k))).foldl (· + ·) 0 := by
  induction n with
  | zero => rfl
  | succ n ih => rw [wordSum, ih, List.range_succ, List.map_append, List.foldl_append]; rfl

theorem wordSum_congr {read : UInt32 → UInt32} {m m' : Mem} {a b n : Nat}
    (h : ∀ i < 4 * n, m' (b + i) = m (a + i)) : wordSum read m' b n = wordSum read m a n := by
  induction n with
  | zero => rfl
  | succ n ih =>
    have hlast : leWord m' (b + 4 * n) = leWord m (a + 4 * n) := by
      apply leWord_congr
      intro i hi
      rw [Nat.add_assoc, Nat.add_assoc]
      exact h _ (by omega)
    rw [wordSum, wordSum, hlast, ih fun i hi => h i (by omega)]

/-- What another word in the run does to the sum. -/
theorem wordSum_store (read : UInt32 → UInt32) (m : Mem) (a : Nat) {k n : Nat} (hk : k < n)
    (w : UInt32) : wordSum read (store m (a + 4 * k) (leBytes w)) a n =
      wordSum read m a n - read (leWord m (a + 4 * k)) + read w := by
  induction n with
  | zero => exact absurd hk (Nat.not_lt_zero k)
  | succ n ih =>
    rw [wordSum, wordSum]
    rcases Nat.lt_succ_iff_lt_or_eq.mp hk with hlt | rfl
    · rw [ih hlt, leWord_store_other m _ (.inr (by rw [leBytes_length]; omega))]
      grind
    · have hfirst : wordSum read (store m (a + 4 * k) (leBytes w)) a k = wordSum read m a k :=
        wordSum_congr fun i hi => store_of_outside m _ (.inl (by omega))
      rw [hfirst, leWord_store]
      grind

/-- A word that was zero and gets the negative of the sum makes the sum zero. -/
theorem wordSum_balanced {read : UInt32 → UInt32} {m : Mem} {a k n : Nat} (hk : k < n) {w : UInt32}
    (hzero : read (leWord m (a + 4 * k)) = 0) (hw : read w = -wordSum read m a n) :
    wordSum read (store m (a + 4 * k) (leBytes w)) a n = 0 := by
  rw [wordSum_store read m a hk, hzero, hw]
  grind

/-- The two's complement, as the tools write it. -/
theorem xor_add_one (w : UInt32) : (w ^^^ 0xffffffff) + 1 = -w := by
  rw [UInt32.neg_eq_not_add, ← UInt32.xor_neg_one]
  rfl

end WordBytes
