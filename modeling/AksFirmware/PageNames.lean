import AksFirmware.CText

/-!
# The names of the generated pages

`proc_file_type` makes the name of a page's C file and function from its path.  It writes an
underscore for each slash, and one more for the character in front of a listed extension, or
for the last dot when the path ends with none of them.  The extensions are looked for at the
end of the name without asking whether the name is that long.

The array of the name stands behind `NAME` bytes of the stack, which a short name reads and
may write.
-/

namespace AksFirmware.PageNames

open ByteMemory CText

/-! ### The function -/

def inline_c_file : List Text :=
  [ascii "html", ascii "htm", ascii "asp", ascii "bin", ascii "js", ascii "json"]

/-- Where `name` starts. -/
def NAME : Nat := 8

def tolower (c : UInt8) : UInt8 := if 0x41 ≤ c ∧ c ≤ 0x5a then c + 0x20 else c

def strcasecmp (s t : Text) : Int := strcmp (s.map tolower) (t.map tolower)

/-- Where the last `c` of a text stands. -/
def strrchr (c : UInt8) : Text → Option Nat
  | [] => none
  | d :: s =>
      match strrchr c s with
      | some i => some (i + 1)
      | none => if d = c then some 0 else none

def underscore (c : UInt8) : UInt8 := if c = 0x2f then 0x5f else c

/-- The length of the first listed extension found at the end of a name of `fl` characters. -/
def matchExtension (m : Mem) (fl : Nat) : List Text → Option Nat
  | [] => none
  | e :: es =>
      if strcasecmp (text m (NAME + fl - e.length) (e.length + 1)) e = 0 then some e.length
      else matchExtension m fl es

/-- The memory with the name and the return code. -/
def proc_file_type (m : Mem) (inname : Text) : Mem × Int :=
  let name := inname.map underscore
  let m := storeText m NAME name
  match matchExtension m name.length inline_c_file with
  | some el => (store m (NAME + name.length - el - 1) [0x5f], 1)
  | none =>
      match strrchr 0x2e name with
      | some i => (store m (NAME + i) [0x5f], 0)
      | none => (m, 0)

def basic_name (m : Mem) (inname : Text) : Text :=
  text (proc_file_type m inname).1 NAME (inname.length + 1)

/-! ### What it stands for -/

/-- A name that ends with an extension and is longer. -/
def EndsWith (name e : Text) : Prop :=
  e.length < name.length ∧ (name.drop (name.length - e.length)).map tolower = e

instance (name e : Text) : Decidable (EndsWith name e) := by unfold EndsWith; infer_instance

def extension (name : Text) : Option Nat :=
  (inline_c_file.find? fun e => EndsWith name e).map List.length

/-- The place of a name that gets the underscore of the extension. -/
def extPos (name : Text) : Option Nat :=
  match extension name with
  | some el => some (name.length - el - 1)
  | none => strrchr 0x2e name

def put (name : Text) : Option Nat → Text
  | some i => name.set i 0x5f
  | none => name

/-- The name with an underscore for its last dot. -/
def withoutDot (name : Text) : Text := put name (strrchr 0x2e name)

/-- A name that is the end of a listed extension, or one itself. -/
def Short (name : Text) : Prop := ∃ e ∈ inline_c_file, name.map tolower <:+ e

instance (name : Text) : Decidable (Short name) := by unfold Short; infer_instance

/-! ### Texts -/

theorem tolower_ne_zero {c : UInt8} (hc : c ≠ 0) : tolower c ≠ 0 := by
  unfold tolower
  split
  · rename_i h
    intro hzero
    have hlow := UInt8.le_iff_toNat_le.mp h.1
    have hhigh := UInt8.le_iff_toNat_le.mp h.2
    have hsum := congrArg UInt8.toNat hzero
    rw [UInt8.toNat_add] at hsum
    simp at hlow hhigh hsum
    omega
  · exact hc

theorem zero_notMem_map_tolower {s : Text} (hs : (0 : UInt8) ∉ s) : (0 : UInt8) ∉ s.map tolower := by
  intro hmem
  obtain ⟨c, hc, hzero⟩ := List.mem_map.mp hmem
  exact tolower_ne_zero (fun h => hs (h ▸ hc)) hzero

theorem zero_notMem_map_underscore {s : Text} (hs : (0 : UInt8) ∉ s) :
    (0 : UInt8) ∉ s.map underscore := by
  intro hmem
  obtain ⟨c, hc, hzero⟩ := List.mem_map.mp hmem
  unfold underscore at hzero
  split at hzero
  · exact absurd hzero (by decide)
  · exact hs (hzero ▸ hc)

/-- The listed extensions are in small letters. -/
theorem extension_letters {e : Text} (he : e ∈ inline_c_file) :
    e.map tolower = e ∧ (0 : UInt8) ∉ e ∧ (0x2e : UInt8) ∉ e ∧ e.length ≤ 4 ∧ (0x5f : UInt8) ∉ e := by
  have hall : inline_c_file.all fun e => e.map tolower = e ∧ (0 : UInt8) ∉ e ∧
      (0x2e : UInt8) ∉ e ∧ e.length ≤ 4 ∧ (0x5f : UInt8) ∉ e := by decide
  exact of_decide_eq_true (List.all_eq_true.mp hall e he)

/-- No listed extension is the end of another. -/
theorem extension_suffix {e e' : Text} (he : e ∈ inline_c_file) (he' : e' ∈ inline_c_file)
    (h : e' <:+ e) : e' = e := by
  have hall : inline_c_file.all fun e => inline_c_file.all fun e' => e' <:+ e → e' = e := by decide
  have hrow := List.all_eq_true.mp hall e he
  exact of_decide_eq_true (List.all_eq_true.mp hrow e' he') h

theorem strcasecmp_eq_zero_iff {s e : Text} (hs : (0 : UInt8) ∉ s) (he : e ∈ inline_c_file) :
    strcasecmp s e = 0 ↔ s.map tolower = e := by
  obtain ⟨hlower, hzero, -⟩ := extension_letters he
  rw [strcasecmp, hlower, strcmp_eq_zero_iff (zero_notMem_map_tolower hs) hzero]

theorem strrchr_eq_none_iff {c : UInt8} {s : Text} : strrchr c s = none ↔ c ∉ s := by
  induction s with
  | nil => simp [strrchr]
  | cons d s ih =>
    rw [strrchr]
    cases hrest : strrchr c s with
    | some j =>
      have hmem : c ∈ s := by
        by_contra hnot
        rw [ih.mpr hnot] at hrest
        cases hrest
      simp [hmem]
    | none =>
      have hnot := ih.mp hrest
      by_cases hd : d = c
      · simp [hd]
      · simp [hd, hnot, Ne.symm hd]

theorem strrchr_spec {c : UInt8} {s : Text} {i : Nat} (h : strrchr c s = some i) :
    s[i]? = some c ∧ ∀ k, i < k → s[k]? ≠ some c := by
  induction s generalizing i with
  | nil => cases h
  | cons d s ih =>
    rw [strrchr] at h
    cases hrest : strrchr c s with
    | some j =>
      rw [hrest] at h
      obtain rfl := Option.some.inj h
      obtain ⟨hat, hlater⟩ := ih hrest
      refine ⟨by simpa using hat, fun k hk => ?_⟩
      obtain ⟨k, rfl⟩ := Nat.exists_eq_succ_of_ne_zero (Nat.ne_of_gt (Nat.zero_lt_of_lt hk))
      simpa using hlater k (Nat.lt_of_succ_lt_succ hk)
    | none =>
      rw [hrest] at h
      obtain ⟨rfl, hi⟩ := Option.ite_none_right_eq_some.mp h
      obtain rfl := Option.some.inj hi
      refine ⟨rfl, fun k hk hat => strrchr_eq_none_iff.mp hrest ?_⟩
      obtain ⟨k, rfl⟩ := Nat.exists_eq_succ_of_ne_zero (Nat.ne_of_gt hk)
      exact List.mem_of_getElem? (by simpa using hat)

theorem strrchr_eq_some {c : UInt8} {s : Text} {i : Nat} (hat : s[i]? = some c)
    (hlater : ∀ k, i < k → s[k]? ≠ some c) : strrchr c s = some i := by
  cases hlast : strrchr c s with
  | none => exact absurd (List.mem_of_getElem? hat) (strrchr_eq_none_iff.mp hlast)
  | some j =>
    obtain ⟨hj, hafter⟩ := strrchr_spec hlast
    rcases Nat.lt_trichotomy i j with hlt | rfl | hgt
    · exact absurd hj (hlater j hlt)
    · rfl
    · exact absurd hat (hafter i hgt)

/-! ### The name in memory -/

section Name

variable {m : Mem} {name : Text}

/-- The end of the name, when it is long enough for the extension. -/
theorem text_of_end (hzero : (0 : UInt8) ∉ name) (hname : HoldsText m NAME name) {el : Nat}
    (hel : el ≤ name.length) :
    text m (NAME + name.length - el) (el + 1) = name.drop (name.length - el) := by
  have hend := hname.drop (Nat.sub_le name.length el)
  rw [← Nat.add_sub_assoc hel] at hend
  refine hend.text_eq (fun h => hzero (List.mem_of_mem_drop h)) ?_
  rw [List.length_drop]
  omega

/-- What is found in front of a short name ends with the name. -/
theorem text_of_short (hname : HoldsText m NAME name) {el : Nat}
    (hel : name.length ≤ el) (hroom : el ≤ NAME)
    (hlen : (text m (NAME + name.length - el) (el + 1)).length = el) :
    name <:+ text m (NAME + name.length - el) (el + 1) := by
  have hsplit : el + 1 = (el - name.length) + (name.length + 1) := by omega
  have hstart : NAME + name.length - el + (el - name.length) = NAME := by omega
  have hbytes : load m (NAME + name.length - el) (el + 1) =
      load m (NAME + name.length - el) (el - name.length) ++ (name ++ [0]) := by
    rw [hsplit, load_add, hstart]
    exact congrArg _ hname
  have hpre : text m (NAME + name.length - el) (el + 1) <+:
      load m (NAME + name.length - el) (el - name.length) ++ name := by
    have htake := List.takeWhile_prefix (· ≠ (0 : UInt8)) (l := load m (NAME + name.length - el) (el + 1))
    rw [hbytes, ← List.append_assoc] at htake
    rw [text, hbytes, ← List.append_assoc]
    apply List.prefix_of_prefix_length_le htake (List.prefix_append _ _)
    rw [← List.append_assoc, ← hbytes] at *
    rw [← text, hlen, List.length_append, load_length]
    omega
  have hall := hpre.eq_of_length (by
    rw [hlen, List.length_append, load_length]
    omega)
  rw [hall]
  exact List.suffix_append _ _

/-- An extension shorter than the name is found where it stands. -/
theorem found_iff (hzero : (0 : UInt8) ∉ name) (hname : HoldsText m NAME name) {e : Text}
    (he : e ∈ inline_c_file) (hlen : e.length < name.length) :
    strcasecmp (text m (NAME + name.length - e.length) (e.length + 1)) e = 0 ↔ EndsWith name e := by
  rw [strcasecmp_eq_zero_iff (zero_notMem_text m _ _) he,
    text_of_end hzero hname (Nat.le_of_lt hlen)]
  exact (and_iff_right hlen).symm

/-- One that is not shorter ends with the name. -/
theorem short_of_found (hname : HoldsText m NAME name) {e : Text}
    (he : e ∈ inline_c_file) (hlen : name.length ≤ e.length)
    (h : strcasecmp (text m (NAME + name.length - e.length) (e.length + 1)) e = 0) :
    name.map tolower <:+ e := by
  have hlower := (strcasecmp_eq_zero_iff (zero_notMem_text m _ _) he).mp h
  have htext := congrArg List.length hlower
  rw [List.length_map] at htext
  have hroom : e.length ≤ NAME := Nat.le_trans (extension_letters he).2.2.2.1 (by decide)
  have hsuffix := (text_of_short hname hlen hroom htext).map tolower
  rwa [hlower] at hsuffix

/-- A short name ends with no extension that is shorter still. -/
theorem not_endsWith_of_short (h : Short name) {e : Text} (he : e ∈ inline_c_file) :
    ¬ EndsWith name e := by
  rintro ⟨hlen, hend⟩
  obtain ⟨e', he', hsuffix⟩ := h
  have hlast : e <:+ name.map tolower := by
    rw [← hend, List.map_drop]
    exact List.drop_suffix _ _
  obtain rfl := extension_suffix he' he (hlast.trans hsuffix)
  have hle := hsuffix.length_le
  rw [List.length_map] at hle
  omega

theorem matchExtension_eq (hzero : (0 : UInt8) ∉ name) (hname : HoldsText m NAME name)
    (hshort : ¬ Short name) (es : List Text) (hes : ∀ e ∈ es, e ∈ inline_c_file) :
    matchExtension m name.length es = (es.find? fun e => EndsWith name e).map List.length := by
  induction es with
  | nil => rfl
  | cons e es ih =>
    obtain ⟨he, hes⟩ := List.forall_mem_cons.mp hes
    have hfound : strcasecmp (text m (NAME + name.length - e.length) (e.length + 1)) e = 0 ↔
        EndsWith name e := by
      rcases Nat.lt_or_ge e.length name.length with hlen | hlen
      · exact found_iff hzero hname he hlen
      · refine iff_of_false (fun h => hshort ⟨e, he, short_of_found hname he hlen h⟩) ?_
        exact fun h => absurd h.1 (Nat.not_lt.mpr hlen)
    rw [matchExtension]
    by_cases hend : EndsWith name e
    · rw [if_pos (hfound.mpr hend), List.find?_cons_of_pos (by simpa using hend)]
      rfl
    · rw [if_neg (mt hfound.mp hend), List.find?_cons_of_neg (by simpa using hend), ih hes]

/-- A short name is found only in an extension that is as long at least. -/
theorem matchExtension_of_short (hzero : (0 : UInt8) ∉ name) (hname : HoldsText m NAME name)
    (hshort : Short name) {es : List Text} (hes : ∀ e ∈ es, e ∈ inline_c_file) {el : Nat}
    (h : matchExtension m name.length es = some el) : name.length ≤ el ∧ el ≤ 4 := by
  induction es with
  | nil => cases h
  | cons e es ih =>
    obtain ⟨he, hes⟩ := List.forall_mem_cons.mp hes
    rw [matchExtension] at h
    split at h
    · rename_i hfound
      obtain rfl := Option.some.inj h
      refine ⟨Nat.not_lt.mp fun hlen => ?_, (extension_letters he).2.2.2.1⟩
      exact not_endsWith_of_short hshort he ((found_iff hzero hname he hlen).mp hfound)
    · exact ih hes h

end Name

theorem dot_notMem_of_short {name : Text} (h : Short name) : (0x2e : UInt8) ∉ name := by
  intro hdot
  obtain ⟨e, he, hsuffix⟩ := h
  have hmem : (0x2e : UInt8) ∈ name.map tolower := List.mem_map.mpr ⟨0x2e, hdot, rfl⟩
  exact (extension_letters he).2.2.1 (hsuffix.subset hmem)

theorem extPos_of_short {name : Text} (h : Short name) : extPos name = none := by
  have hnone : extension name = none := by
    rw [extension, Option.map_eq_none_iff, List.find?_eq_none]
    intro e he hend
    exact not_endsWith_of_short h he (of_decide_eq_true hend)
  rw [extPos, hnone]
  exact strrchr_eq_none_iff.mpr (dot_notMem_of_short h)

theorem extension_eq_some {name : Text} {el : Nat} (h : extension name = some el) :
    ∃ e ∈ inline_c_file, EndsWith name e ∧ e.length = el := by
  obtain ⟨e, hfind, rfl⟩ := Option.map_eq_some_iff.mp h
  have hend := List.find?_some (p := fun e => EndsWith name e) hfind
  exact ⟨e, List.mem_of_find?_eq_some hfind, of_decide_eq_true hend, rfl⟩

theorem extPos_lt {name : Text} {i : Nat} (h : extPos name = some i) : i < name.length := by
  rw [extPos] at h
  cases hext : extension name with
  | some el =>
    rw [hext] at h
    obtain rfl := Option.some.inj h
    obtain ⟨e, -, hend, rfl⟩ := extension_eq_some hext
    have hlt := hend.1
    omega
  | none =>
    rw [hext] at h
    exact (List.getElem?_eq_some_iff.mp (strrchr_spec h).1).1

/-- A name that is not short is written as a whole, and nothing else is. -/
theorem proc_file_type_eq (m : Mem) {inname : Text} (hzero : (0 : UInt8) ∉ inname)
    (hshort : ¬ Short (inname.map underscore)) :
    (proc_file_type m inname).1 =
      storeText m NAME (put (inname.map underscore) (extPos (inname.map underscore))) := by
  have hzero' := zero_notMem_map_underscore hzero
  have hmatch := matchExtension_eq hzero' (holdsText_storeText m NAME (inname.map underscore)) hshort
    inline_c_file fun _ he => he
  rw [← extension] at hmatch
  simp only [proc_file_type, hmatch]
  cases hext : extension (inname.map underscore) with
  | some el =>
    have hpos : extPos (inname.map underscore) = some ((inname.map underscore).length - el - 1) := by
      rw [extPos, hext]
    have hlt := extPos_lt hpos
    obtain ⟨e, -, ⟨hlen, -⟩, rfl⟩ := extension_eq_some hext
    have hplace : NAME + (inname.map underscore).length - e.length - 1 =
        NAME + ((inname.map underscore).length - e.length - 1) := by omega
    rw [hpos, put, ← storeText_set m hlt, ← hplace]
  | none =>
    have hpos : extPos (inname.map underscore) = strrchr 0x2e (inname.map underscore) := by
      rw [extPos, hext]
    rw [← hpos]
    cases hlast : extPos (inname.map underscore) with
    | some i => exact storeText_set m (extPos_lt hlast) 0x5f
    | none => rfl

/-- A short name is left as it is, whatever stands in front of it. -/
theorem proc_file_type_of_short (m : Mem) {inname : Text} (hzero : (0 : UInt8) ∉ inname)
    (hshort : Short (inname.map underscore)) :
    HoldsText (proc_file_type m inname).1 NAME (inname.map underscore) := by
  have hheld := holdsText_storeText m NAME (inname.map underscore)
  simp only [proc_file_type]
  cases hmatch : matchExtension (storeText m NAME (inname.map underscore))
      (inname.map underscore).length inline_c_file with
  | some el =>
    obtain ⟨hle, hfour⟩ := matchExtension_of_short (zero_notMem_map_underscore hzero) hheld hshort
      (fun _ he => he) hmatch
    have height : NAME = 8 := rfl
    exact hheld.congr fun x hx _ => store_byte_of_ne _ _ (by omega)
  | none =>
    rw [strrchr_eq_none_iff.mpr (dot_notMem_of_short hshort)]
    exact hheld

theorem basic_name_eq (m : Mem) {inname : Text} (hzero : (0 : UInt8) ∉ inname) :
    basic_name m inname = put (inname.map underscore) (extPos (inname.map underscore)) := by
  have hheld : HoldsText (proc_file_type m inname).1 NAME
      (put (inname.map underscore) (extPos (inname.map underscore))) := by
    by_cases hshort : Short (inname.map underscore)
    · rw [extPos_of_short hshort]
      exact proc_file_type_of_short m hzero hshort
    · rw [proc_file_type_eq m hzero hshort]
      exact holdsText_storeText _ _ _
  have hzero' := zero_notMem_map_underscore hzero
  apply hheld.text_eq
  · cases extPos (inname.map underscore) with
    | some i =>
      intro hmem
      rcases List.mem_or_eq_of_mem_set hmem with h | h
      · exact hzero' h
      · exact absurd h (by decide)
    | none => exact hzero'
  · cases extPos (inname.map underscore) <;> simp [put]

/-! ### Names and paths -/

/-- A place of a path that the name shows as an underscore. -/
def Blank (path : Text) (i : Nat) : Prop :=
  path[i]? = some 0x2f ∨ path[i]? = some 0x5f ∨ extPos (path.map underscore) = some i

/-- Two paths with the same blank places and the same characters everywhere else. -/
def Alike (p q : Text) : Prop :=
  p.length = q.length ∧ ∀ i, Blank p i ∧ Blank q i ∨ ¬ Blank p i ∧ ¬ Blank q i ∧ p[i]? = q[i]?

/-- An extension that ends the name has a dot in front, or an underscore where the name has
no dot at all. -/
def Dotted (name : Text) : Prop :=
  ∀ e ∈ inline_c_file, EndsWith name e →
    name[name.length - e.length - 1]? = some 0x2e ∨
      name[name.length - e.length - 1]? = some 0x5f ∧ (0x2e : UInt8) ∉ name

instance (name : Text) : Decidable (Dotted name) := by unfold Dotted; infer_instance

/-- Only slashes and the last dot are replaced, and nothing is written in front of the name. -/
def Replaces (inname : Text) : Prop :=
  ∀ m : Mem, HoldsText (proc_file_type m inname).1 NAME (withoutDot (inname.map underscore)) ∧
    ∀ x < NAME, (proc_file_type m inname).1 x = m x

theorem put_getElem? (name : Text) {pos : Option Nat} {i : Nat} (hi : i < name.length) :
    (put name pos)[i]? = if pos = some i then some 0x5f else name[i]? := by
  cases pos with
  | none => simp [put]
  | some j =>
    by_cases hj : j = i
    · rw [put, hj, List.getElem?_set_self hi, if_pos rfl]
    · rw [put, List.getElem?_set_ne hj, if_neg fun h => hj (Option.some.inj h)]

theorem put_length (name : Text) (pos : Option Nat) : (put name pos).length = name.length := by
  cases pos <;> simp [put]

theorem put_eq_self_iff {name : Text} {i : Nat} (hi : i < name.length) :
    put name (some i) = name ↔ name[i]? = some 0x5f := by
  rw [put, List.getElem?_eq_getElem hi, Option.some.injEq]
  constructor
  · intro h
    have hat := List.getElem_set_self (l := name) (i := i) (a := 0x5f) (by rwa [List.length_set])
    simpa only [h] using hat
  · intro h
    rw [← h, List.set_getElem_self]

/-- The name shows a character of the path, or an underscore for a blank place. -/
theorem name_getElem? {path : Text} {i : Nat} (hi : i < path.length) :
    (put (path.map underscore) (extPos (path.map underscore)))[i]? = some 0x5f ∧ Blank path i ∨
      (put (path.map underscore) (extPos (path.map underscore)))[i]? = path[i]? ∧
        ¬ Blank path i := by
  rw [put_getElem? _ (by rwa [List.length_map]), List.getElem?_map, List.getElem?_eq_getElem hi]
  by_cases hpos : extPos (path.map underscore) = some i
  · rw [if_pos hpos]
    exact .inl ⟨rfl, .inr (.inr hpos)⟩
  · rw [if_neg hpos, Blank, List.getElem?_eq_getElem hi, Option.map_some, underscore]
    by_cases hslash : path[i] = 0x2f
    · rw [if_pos hslash]
      exact .inl ⟨rfl, .inl (by rw [hslash])⟩
    · rw [if_neg hslash]
      by_cases hline : path[i] = 0x5f
      · exact .inl ⟨by rw [hline], .inr (.inl (by rw [hline]))⟩
      · exact .inr ⟨rfl, by simp [hslash, hline, hpos]⟩

theorem name_length (path : Text) :
    (put (path.map underscore) (extPos (path.map underscore))).length = path.length := by
  rw [put_length, List.length_map]

theorem Blank.lt {path : Text} {i : Nat} (h : Blank path i) : i < path.length := by
  rcases h with h | h | h
  · exact (List.getElem?_eq_some_iff.mp h).1
  · exact (List.getElem?_eq_some_iff.mp h).1
  · have hlt := extPos_lt h
    rwa [List.length_map] at hlt

theorem same_name_iff (p q : Text) :
    put (p.map underscore) (extPos (p.map underscore)) =
        put (q.map underscore) (extPos (q.map underscore)) ↔ Alike p q := by
  constructor
  · intro heq
    have hlen : p.length = q.length := by rw [← name_length p, heq, name_length q]
    refine ⟨hlen, fun i => ?_⟩
    rcases Nat.lt_or_ge i p.length with hi | hi
    · have hat := congrArg (fun name : Text => name[i]?) heq
      rcases name_getElem? hi with ⟨hp, hpb⟩ | ⟨hp, hpb⟩
      · rcases name_getElem? (hlen ▸ hi) with ⟨-, hqb⟩ | ⟨hq, hqb⟩
        · exact .inl ⟨hpb, hqb⟩
        · -- an underscore of the path is a blank place itself
          exact absurd (.inr (.inl (hq.symm.trans (hat.symm.trans hp)))) hqb
      · rcases name_getElem? (hlen ▸ hi) with ⟨hq, -⟩ | ⟨hq, hqb⟩
        · exact absurd (.inr (.inl (hp.symm.trans (hat.trans hq)))) hpb
        · exact .inr ⟨hpb, hqb, hp.symm.trans (hat.trans hq)⟩
    · have hi' : q.length ≤ i := hlen ▸ hi
      refine .inr ⟨fun h => Nat.not_lt.mpr hi h.lt, fun h => Nat.not_lt.mpr hi' h.lt, ?_⟩
      rw [List.getElem?_eq_none hi, List.getElem?_eq_none hi']
  · rintro ⟨hlen, hall⟩
    apply List.ext_getElem?
    intro i
    rcases Nat.lt_or_ge i p.length with hi | hi
    · rcases hall i with ⟨hpb, hqb⟩ | ⟨hpb, hqb, hsame⟩
      · have hp := (name_getElem? hi).resolve_right fun h => h.2 hpb
        have hq := (name_getElem? (hlen ▸ hi)).resolve_right fun h => h.2 hqb
        exact hp.1.trans hq.1.symm
      · have hp := (name_getElem? hi).resolve_left fun h => hpb h.2
        have hq := (name_getElem? (hlen ▸ hi)).resolve_left fun h => hqb h.2
        exact hp.1.trans (hsame.trans hq.1.symm)
    · rw [List.getElem?_eq_none (by rwa [name_length]),
        List.getElem?_eq_none (by rwa [name_length, ← hlen])]

theorem endsWith_dot {name e : Text} (he : e ∈ inline_c_file) (hend : EndsWith name e) {k : Nat}
    (hk : name.length - e.length - 1 < k) : name[k]? ≠ some 0x2e := by
  intro hdot
  obtain ⟨hlen, hlower⟩ := hend
  have hmem : (0x2e : UInt8) ∈ name.drop (name.length - e.length) := by
    apply List.mem_of_getElem? (i := k - (name.length - e.length))
    rw [List.getElem?_drop, Nat.add_sub_cancel' (by omega)]
    exact hdot
  have hlow : (0x2e : UInt8) ∈ e := hlower ▸ List.mem_map.mpr ⟨0x2e, hmem, rfl⟩
  exact (extension_letters he).2.2.1 hlow

/-- A name ends with one listed extension at most. -/
theorem endsWith_unique {name e e' : Text} (he : e ∈ inline_c_file) (he' : e' ∈ inline_c_file)
    (hend : EndsWith name e) (hend' : EndsWith name e') : e' = e := by
  have hsuffix : ∀ {e : Text}, EndsWith name e → e <:+ name.map tolower := by
    rintro e ⟨-, hlower⟩
    rw [← hlower, List.map_drop]
    exact List.drop_suffix _ _
  rcases List.suffix_or_suffix_of_suffix (hsuffix hend) (hsuffix hend') with h | h
  · exact (extension_suffix he' he h).symm
  · exact extension_suffix he he' h

/-- Where the underscore took the last dot away, the dot stood in its place. -/
theorem dot_of_put_eq {name : Text} {i : Nat} (hdot : (0x2e : UInt8) ∈ name)
    (h : put name (some i) = withoutDot name) : name[i]? = some 0x2e := by
  rw [withoutDot] at h
  cases hlast : strrchr 0x2e name with
  | none => exact absurd hdot (strrchr_eq_none_iff.mp hlast)
  | some j =>
    have hj := (strrchr_spec hlast).1
    have hjlt := (List.getElem?_eq_some_iff.mp hj).1
    have hat := congrArg (fun name : Text => name[j]?) h
    rw [hlast, put_getElem? name hjlt, put_getElem? name hjlt, if_pos rfl, hj] at hat
    by_cases hsame : some i = some j
    · rwa [Option.some.inj hsame]
    · rw [if_neg hsame] at hat
      exact absurd hat (by decide)

/-- The underscore of the extension is that of the last dot exactly when a dot is there, or
already an underscore and no dot at all. -/
theorem put_extPos_iff (name : Text) : put name (extPos name) = withoutDot name ↔ Dotted name := by
  cases hext : extension name with
  | none =>
    refine iff_of_true (by rw [extPos, hext]; rfl) fun e he hend => ?_
    rw [extension, Option.map_eq_none_iff, List.find?_eq_none] at hext
    exact absurd (decide_eq_true hend) (hext e he)
  | some el =>
    obtain ⟨e, he, hend, rfl⟩ := extension_eq_some hext
    have hpos : extPos name = some (name.length - e.length - 1) := by rw [extPos, hext]
    have hlt := extPos_lt hpos
    have hdotted : Dotted name ↔ name[name.length - e.length - 1]? = some 0x2e ∨
        name[name.length - e.length - 1]? = some 0x5f ∧ (0x2e : UInt8) ∉ name := by
      refine ⟨fun h => h e he hend, fun h e' he' hend' => ?_⟩
      rwa [endsWith_unique he he' hend hend']
    rw [hdotted, hpos]
    constructor
    · intro heq
      by_cases hdot : (0x2e : UInt8) ∈ name
      · exact .inl (dot_of_put_eq hdot heq)
      · rw [withoutDot, strrchr_eq_none_iff.mpr hdot] at heq
        exact .inr ⟨(put_eq_self_iff hlt).mp heq, hdot⟩
    · rw [withoutDot]
      rintro (hdot | ⟨hline, hno⟩)
      · rw [strrchr_eq_some hdot fun k => endsWith_dot he hend]
      · rw [strrchr_eq_none_iff.mpr hno]
        exact (put_eq_self_iff hlt).mpr hline

theorem matchExtension_eq_none {m : Mem} {fl : Nat} {es : List Text}
    (h : matchExtension m fl es = none) :
    ∀ e ∈ es, strcasecmp (text m (NAME + fl - e.length) (e.length + 1)) e ≠ 0 := by
  induction es with
  | nil => exact fun _ he => nomatch he
  | cons e es ih =>
    rw [matchExtension] at h
    split at h
    · cases h
    · rename_i hnot
      exact List.forall_mem_cons.mpr ⟨hnot, ih h⟩

/-- With the missing letters of the extension in front of it, a short name is found. -/
theorem found_behind_front {front name e : Text} (hzero : (0 : UInt8) ∉ name)
    (he : e ∈ inline_c_file) (hfront : front ++ name.map tolower = e) :
    strcasecmp (text (storeText (store zeroed (NAME - front.length) front) NAME name)
      (NAME + name.length - e.length) (e.length + 1)) e = 0 := by
  have hlen := congrArg List.length hfront
  rw [List.length_append, List.length_map] at hlen
  obtain ⟨hlower, hno, -, hfour, -⟩ := extension_letters he
  have height : NAME = 8 := rfl
  have hplace : NAME - front.length + front.length = NAME := by omega
  have hstart : NAME + name.length - e.length = NAME - front.length := by omega
  have hheld : HoldsText (storeText (store zeroed (NAME - front.length) front) NAME name)
      (NAME - front.length) (front ++ name) := by
    have hall := holdsText_storeText zeroed (NAME - front.length) (front ++ name)
    rwa [storeText_append, hplace] at hall
  have hclean : (0 : UInt8) ∉ front ++ name := by
    rw [List.mem_append, not_or]
    exact ⟨fun h => hno (hfront ▸ List.mem_append_left _ h), hzero⟩
  rw [hstart, hheld.text_eq hclean (by rw [List.length_append]; omega),
    strcasecmp_eq_zero_iff hclean he, List.map_append]
  have hsplit : front.map tolower ++ (name.map tolower).map tolower =
      front ++ name.map tolower := by
    rw [← List.map_append, hfront, hlower]
  rw [(List.append_inj hsplit (List.length_map _)).1, hfront]

/-- The bytes in front of a short name can be such that one of them is written. -/
theorem exists_write_of_short {inname : Text} (hzero : (0 : UInt8) ∉ inname)
    (hshort : Short (inname.map underscore)) :
    ∃ m : Mem, ∃ x < NAME, (proc_file_type m inname).1 x ≠ m x := by
  have hzero' := zero_notMem_map_underscore hzero
  obtain ⟨e, he, front, hfront⟩ := hshort
  have hline := (extension_letters he).2.2.2.2
  have height : NAME = 8 := rfl
  have hfound := found_behind_front hzero' he hfront
  cases hmatch : matchExtension (storeText (store zeroed (NAME - front.length) front) NAME
      (inname.map underscore)) (inname.map underscore).length inline_c_file with
  | none => exact absurd hfound (matchExtension_eq_none hmatch e he)
  | some el =>
    obtain ⟨hle, hel⟩ := matchExtension_of_short hzero' (holdsText_storeText _ _ _)
      ⟨e, he, front, hfront⟩ (fun _ he => he) hmatch
    refine ⟨store zeroed (NAME - front.length) front,
      NAME + (inname.map underscore).length - el - 1, by omega, ?_⟩
    simp only [proc_file_type, hmatch]
    have hwritten := store_at (storeText (store zeroed (NAME - front.length) front) NAME
      (inname.map underscore)) (NAME + (inname.map underscore).length - el - 1) 0 [0x5f]
      Nat.zero_lt_one
    rw [Nat.add_zero] at hwritten
    rw [hwritten, store_eq]
    split
    · intro heq
      have hmem : (0x5f : UInt8) ∈ front := (show (0x5f : UInt8) = _ from heq) ▸ List.getElem_mem _
      exact hline (hfront ▸ List.mem_append_left _ hmem)
    · exact show (0x5f : UInt8) ≠ 0 by decide

/-- When the name of a path is what it stands for, whatever the stack holds. -/
theorem replaces_iff {inname : Text} (hzero : (0 : UInt8) ∉ inname) :
    Replaces inname ↔ ¬ Short (inname.map underscore) ∧ Dotted (inname.map underscore) := by
  constructor
  · intro h
    have hshort : ¬ Short (inname.map underscore) := by
      intro hshort
      obtain ⟨m, x, hx, hne⟩ := exists_write_of_short hzero hshort
      exact hne ((h m).2 x hx)
    refine ⟨hshort, (put_extPos_iff _).mp ?_⟩
    have hheld := (h zeroed).1
    rw [proc_file_type_eq zeroed hzero hshort] at hheld
    apply (holdsText_storeText _ _ _).eq_of_length hheld
    rw [withoutDot, put_length, put_length]
  · rintro ⟨hshort, hdotted⟩ m
    rw [proc_file_type_eq m hzero hshort, (put_extPos_iff _).mpr hdotted]
    exact ⟨holdsText_storeText _ _ _, fun x hx => storeText_of_outside m _ (.inl hx)⟩

/-! ### The pages of a list -/

/-- A slash and an underscore give one name to two pages, and an extension that is only the
end of another loses its letter instead of its dot. -/
theorem page_names_clash :
    basic_name zeroed (ascii "/a/b.html") = basic_name zeroed (ascii "/a_b.html") ∧
      basic_name zeroed (ascii "/a.xhtml") = ascii "_a._html" := by
  decide

/-- The names are distinct exactly when no two paths are alike, and each is the path with its
slashes and its dot replaced exactly when the path is no short one and its dot stands in front
of the extension. -/
theorem page_names_iff {paths : List Text} (hzero : ∀ p ∈ paths, (0 : UInt8) ∉ p) :
    ((∀ p ∈ paths, ∀ q ∈ paths, p ≠ q → ∀ m m', basic_name m p ≠ basic_name m' q) ∧
        ∀ p ∈ paths, Replaces p) ↔
      (∀ p ∈ paths, ∀ q ∈ paths, p ≠ q → ¬ Alike p q) ∧
        ∀ p ∈ paths, ¬ Short (p.map underscore) ∧ Dotted (p.map underscore) := by
  have hname : ∀ p ∈ paths, ∀ q ∈ paths,
      (∀ m m', basic_name m p ≠ basic_name m' q) ↔ ¬ Alike p q := by
    intro p hp q hq
    rw [← same_name_iff]
    constructor
    · intro h
      have hne := h zeroed zeroed
      rwa [basic_name_eq zeroed (hzero p hp), basic_name_eq zeroed (hzero q hq)] at hne
    · intro h m m'
      rwa [basic_name_eq m (hzero p hp), basic_name_eq m' (hzero q hq)]
  constructor
  · rintro ⟨hdistinct, hreplaces⟩
    exact ⟨fun p hp q hq hne => (hname p hp q hq).mp (hdistinct p hp q hq hne),
      fun p hp => (replaces_iff (hzero p hp)).mp (hreplaces p hp)⟩
  · rintro ⟨hdistinct, hdotted⟩
    exact ⟨fun p hp q hq hne => (hname p hp q hq).mpr (hdistinct p hp q hq hne),
      fun p hp => (replaces_iff (hzero p hp)).mpr (hdotted p hp)⟩

/-- Two pages of different lengths. -/
theorem page_names_distinct :
    Replaces (ascii "/EN/index.html") ∧ ∀ m m',
      basic_name m (ascii "/EN/index.html") ≠ basic_name m' (ascii "/id.js") := by
  have hzero : ∀ p ∈ [ascii "/EN/index.html", ascii "/id.js"], (0 : UInt8) ∉ p := by
    intro p hp
    rcases List.mem_pair.mp hp with rfl | rfl <;> decide
  have hboth := (page_names_iff hzero).mpr ⟨?_, ?_⟩
  · exact ⟨hboth.2 _ List.mem_cons_self, hboth.1 _ List.mem_cons_self _
      (List.mem_cons_of_mem _ List.mem_cons_self) (by decide)⟩
  · intro p hp q hq hne halike
    rcases List.mem_pair.mp hp with rfl | rfl
    · rcases List.mem_pair.mp hq with rfl | rfl
      · exact hne rfl
      · exact absurd halike.1 (by decide)
    · rcases List.mem_pair.mp hq with rfl | rfl
      · exact absurd halike.1 (by decide)
      · exact hne rfl
  · intro p hp
    rcases List.mem_pair.mp hp with rfl | rfl <;> decide

end AksFirmware.PageNames
