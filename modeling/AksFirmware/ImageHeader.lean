import AksFirmware.CText
import AksFirmware.WordBytes
import Mathlib.Algebra.Group.Int.Defs

/-!
# The header of an image

`imghdr` and `imghdr_bn` write the header of a firmware image: a copy of the image is filled
up to whole words, gets its version, size, time stamp and description, and then the checksum
that makes the words of the file sum up to zero.  The two tools differ in the order of the
bytes only.  The machine they run on loads and stores the lowest byte first.

The size of the image is an `int`.  `header_written` is about the images whose size fits;
from 4 GiB on the tools see the size modulo 2^32 (`large_image_cut`).
-/

namespace AksFirmware.ImageHeader

open ByteMemory CText WordBytes

/-! ### The layout of `fmw_hdr` -/

/-- The members of `fmw_hdr`. -/
inductive HdrField where
  | magic | magic2 | run_loc | flags | ver | hwinfo | size | timestamp | chksum | feature | desc
deriving DecidableEq, Repr

def HdrField.offset : HdrField → Nat
  | .magic => 0
  | .magic2 => 4
  | .run_loc => 8
  | .flags => 12
  | .ver => 16
  | .hwinfo => 20
  | .size => 24
  | .timestamp => 28
  | .chksum => 32
  | .feature => 36
  | .desc => 40

/-- `sizeof` of a member. -/
def HdrField.bytes : HdrField → Nat
  | .desc => 24
  | _ => 4

def COMP_GZIP : UInt8 := 1
def CHKSUM_SUM : UInt8 := 1

/-! ### The tools -/

/-- What `sscanf` stores for `%x` (base 16) or `%u` (base 10); nothing without a digit. -/
def scanUnsigned (base : Nat) (s : Text) : Option UInt32 :=
  let digit := fun c : UInt8 =>
    if isdigit c then c.toNat - 0x30
    else if 0x61 ≤ c ∧ c ≤ 0x66 then c.toNat - 0x57
    else if 0x41 ≤ c ∧ c ≤ 0x46 then c.toNat - 0x37
    else 16
  let signed : Bool × Text :=
    match s.dropWhile isspace with
    | 0x2d :: rest => (true, rest)
    | 0x2b :: rest => (false, rest)
    | rest => (false, rest)
  let rest :=
    match base, signed.2 with
    | 16, 0x30 :: 0x78 :: rest => rest
    | 16, 0x30 :: 0x58 :: rest => rest
    | _, rest => rest
  let digits := rest.takeWhile fun c => digit c < base
  let number := digits.foldl (fun n c => n * base + digit c) 0
  if digits = [] then none
  -- `strtoul` stays within 64 bits, and the low half is stored
  else if 2 ^ 64 ≤ number then some 0xffffffff
  else some (if signed.1 then -UInt32.ofNat number else UInt32.ofNat number)

/-- The calls of the C library that can fail. -/
structure Calls where
  fopen_infile : Bool
  fopen_outfile : Bool
  malloc : Nat → Bool
  fwrite : Bool

/-- What a run leaves in `outfile`: it was not opened, it holds what a failed `fwrite` left,
or it holds these bytes. -/
inductive Outfile where
  | unopened
  | partly
  | written (file : List UInt8)

/-- `phdr->flags.comp` and `phdr->flags.chksum`, three bits each. -/
def setFlags (fbuf : Mem) : Mem :=
  let a := HdrField.offset .flags
  let kept : UInt8 := fbuf a &&& 0xc0
  store fbuf a [kept ||| (COMP_GZIP ||| CHKSUM_SUM <<< 3)]

def setWord (fbuf : Mem) (f : HdrField) (w : UInt32) : Mem := store fbuf f.offset (leBytes w)

/-- The header but for the checksum. -/
def setFields (order : UInt32 → UInt32) (vstr btstr info : Text) (len : Nat) (fbuf : Mem) : Mem :=
  let ver := swap ((scanUnsigned 16 vstr).getD 0)
  let bt := (scanUnsigned 10 btstr).getD 0
  let fbuf := store fbuf (HdrField.offset .desc) (strncpyBytes 24 info)
  let fbuf := store fbuf (HdrField.offset .desc + 23) [0]
  let fbuf := setWord fbuf .ver (order ver)
  let fbuf := setWord fbuf .timestamp (order bt)
  let fbuf := setWord fbuf .size (order (UInt32.ofNat len))
  setFlags fbuf

/-- The checksum is taken with its own word at zero. -/
def setChksum (order : UInt32 → UInt32) (len : Nat) (fbuf : Mem) : Mem :=
  let fbuf := setWord fbuf .chksum 0
  let chksum := wordSum order fbuf 0 (len / 4)
  setWord fbuf .chksum (order ((chksum ^^^ 0xffffffff) + 1))

/-- The function of both tools, by what is done to a word that is stored or loaded.  It is
undefined when the size with its margin is no `int`, and when `fread` leaves the buffer.
The return code is -1 in every case. -/
def build_hdr_with (order : UInt32 → UInt32) (C : Calls) (infile : Option (List UInt8))
    (vstr btstr info : Text) : Option Outfile :=
  match infile with
  | none => some .unopened
  | some image =>
      if image.length = 0 ∨ ¬ C.fopen_infile ∨ ¬ C.fopen_outfile then some .unopened
      else
        let len := int32 image.length
        let room := ((len + 256) % 2 ^ 64).toNat
        if 0x7fffffff < len + 256 then none
        else if ¬ C.malloc room then some (.written [])
        else if len < 0 then if image.length ≤ room then some (.written []) else none
        else if len = 0 then some (.written [])
        else
          let fbuf := store zeroed 0 (image.take len.toNat)
          let len := (len.toNat + 3) / 4 * 4
          let fbuf := setChksum order len (setFields order vstr btstr info len fbuf)
          if C.fwrite then some (.written (load fbuf 0 len)) else some .partly

/-- `build_hdr` of `imghdr.c`. -/
def imghdr.build_hdr : Calls → Option (List UInt8) → Text → Text → Text → Option Outfile :=
  build_hdr_with id

/-- `build_hdr` of `imghdr_bn.c`: every word goes through `ntohl`. -/
def imghdr_bn.build_hdr : Calls → Option (List UInt8) → Text → Text → Text → Option Outfile :=
  build_hdr_with swap

inductive Tool where
  | imghdr | imghdr_bn
deriving DecidableEq, Repr

def Tool.build_hdr : Tool → Calls → Option (List UInt8) → Text → Text → Text → Option Outfile
  | .imghdr => imghdr.build_hdr
  | .imghdr_bn => imghdr_bn.build_hdr

/-! ### What the file must be -/

/-- The word at an offset of a file, in the order of the tool. -/
def Tool.word : Tool → List UInt8 → Nat → UInt32
  | .imghdr, file, a => leWord (store zeroed 0 file) a
  | .imghdr_bn, file, a => beWord (store zeroed 0 file) a

def Tool.sum (t : Tool) (file : List UInt8) : UInt32 :=
  ((List.range (file.length / 4)).map fun k => t.word file (4 * k)).foldl (· + ·) 0

/-- The members that the tools write. -/
def writtenFields : List HdrField := [.flags, .ver, .size, .timestamp, .chksum, .desc]

/-- The file is the image in whole words, with a header. -/
structure Headed (t : Tool) (image file : List UInt8) : Prop where
  length : file.length = (image.length + 3) / 4 * 4
  sum : t.sum file = 0
  size : t.word file (HdrField.offset .size) = UInt32.ofNat file.length
  same : ∀ i < file.length, (∀ f ∈ writtenFields, i < f.offset ∨ f.offset + f.bytes ≤ i) →
    file.getD i 0 = image.getD i 0

/-- No call fails. -/
structure Calls.Succeed (C : Calls) : Prop where
  infile : C.fopen_infile = true
  outfile : C.fopen_outfile = true
  malloc : ∀ n, C.malloc n = true
  fwrite : C.fwrite = true

/-! ### The header -/

theorem setWord_other (fbuf : Mem) (f : HdrField) (w : UInt32) {i : Nat}
    (h : i < f.offset ∨ f.offset + 4 ≤ i) : setWord fbuf f w i = fbuf i :=
  store_of_outside fbuf (leBytes w) h

theorem setFlags_other (fbuf : Mem) {i : Nat} (h : i ≠ 12) : setFlags fbuf i = fbuf i :=
  store_byte_of_ne fbuf _ h

theorem leWord_setWord (fbuf : Mem) (f : HdrField) (w : UInt32) :
    leWord (setWord fbuf f w) f.offset = w := leWord_store fbuf f.offset w

theorem setFields_other (order : UInt32 → UInt32) (vstr btstr info : Text) (len : Nat) (fbuf : Mem)
    {i : Nat} (h : ∀ f ∈ writtenFields, i < f.offset ∨ f.offset + f.bytes ≤ i) :
    setFields order vstr btstr info len fbuf i = fbuf i := by
  simp only [writtenFields, List.forall_mem_cons, HdrField.offset, HdrField.bytes] at h
  obtain ⟨hflags, hver, hsize, htime, -, hdesc, -⟩ := h
  have hname : i < HdrField.offset .desc ∨
      HdrField.offset .desc + (strncpyBytes 24 info).length ≤ i := by
    rw [strncpyBytes_length]
    exact hdesc
  rw [setFields, setFlags_other _ (by omega), setWord_other _ _ _ hsize, setWord_other _ _ _ htime,
    setWord_other _ _ _ hver, store_byte_of_ne _ _ (by simp only [HdrField.offset]; omega),
    store_of_outside _ _ hname]

theorem leWord_size (order : UInt32 → UInt32) (vstr btstr info : Text) (len : Nat) (fbuf : Mem) :
    leWord (setFields order vstr btstr info len fbuf) (HdrField.offset .size) =
      order (UInt32.ofNat len) := by
  rw [setFields]
  refine (leWord_congr fun i hi => setFlags_other _ ?_).trans (leWord_setWord _ .size _)
  simp only [HdrField.offset]
  omega

section

variable {order : UInt32 → UInt32}

/-- The words sum up to zero once the checksum is in place. -/
theorem sum_setChksum (horder : ∀ w, order (order w) = w) (hzero : order 0 = 0) {len : Nat}
    (hlen : 36 ≤ len) (fbuf : Mem) : wordSum order (setChksum order len fbuf) 0 (len / 4) = 0 := by
  have hat : HdrField.offset .chksum = 0 + 4 * 8 := rfl
  have hword : leWord (setWord fbuf .chksum 0) (0 + 4 * 8) = 0 := leWord_setWord fbuf .chksum 0
  rw [setChksum, setWord, hat]
  apply wordSum_balanced (by omega)
  · rw [hword, hzero]
  · rw [horder, xor_add_one]

theorem setChksum_other (len : Nat) (fbuf : Mem) {i : Nat} (h : i < 32 ∨ 36 ≤ i) :
    setChksum order len fbuf i = fbuf i := by
  rw [setChksum, setWord_other _ .chksum _ h, setWord_other _ .chksum _ h]

/-! ### The file -/

/-- What the tools write for an image whose size is an `int` with room for the margin. -/
theorem build_hdr_eq {C : Calls} (hC : C.Succeed) {image : List UInt8} (hpos : 0 < image.length)
    (hfit : image.length ≤ 0x7ffffeff) (vstr btstr info : Text) :
    build_hdr_with order C (some image) vstr btstr info =
      let len := (image.length + 3) / 4 * 4
      some (.written (load (setChksum order len
        (setFields order vstr btstr info len (store zeroed 0 image))) 0 len)) := by
  have hint : int32 image.length = image.length := int32_of_lt (by omega)
  have hsmall : ¬ (0x7fffffff : Int) < (image.length : Int) + 256 := by omega
  have hnonneg : ¬ (image.length : Int) < 0 := by omega
  have hnonzero : ¬ (image.length : Int) = 0 := by omega
  have hopen : ¬ (image.length = 0 ∨ ¬ C.fopen_infile ∨ ¬ C.fopen_outfile) := by
    rw [hC.infile, hC.outfile]
    simp only [not_true, or_false]
    omega
  simp only [build_hdr_with, if_neg hopen, hint, if_neg hsmall, hC.malloc, not_true, if_false,
    if_neg hnonneg, if_neg hnonzero, hC.fwrite, if_true, Int.toNat_natCast, List.take_length]

/-- No file is longer than an `int`. -/
theorem written_length {C : Calls} {image : List UInt8} {vstr btstr info : Text} {file : List UInt8}
    (hrun : build_hdr_with order C (some image) vstr btstr info = some (.written file)) :
    file.length < 0x80000000 := by
  simp only [build_hdr_with] at hrun
  split at hrun
  · cases hrun
  split at hrun
  · cases hrun
  rename_i hsmall
  split at hrun
  · cases hrun
    decide
  split at hrun
  · split at hrun
    · cases hrun
      decide
    · cases hrun
  split at hrun
  · cases hrun
    decide
  split at hrun
  · cases hrun
    rw [load_length]
    omega
  · cases hrun

end

theorem store_load_self (m : Mem) {n i : Nat} (hi : i < n) : store zeroed 0 (load m 0 n) i = m i := by
  rw [store_load_eq, if_pos (by omega)]
  congr 1
  omega

theorem getD_eq_store (file : List UInt8) (i : Nat) : file.getD i 0 = store zeroed 0 file i := by
  simp [store, zeroed]

/-- The two orders: a word is loaded or stored as it is, or swapped. -/
def Tool.order : Tool → UInt32 → UInt32
  | .imghdr => id
  | .imghdr_bn => swap

theorem Tool.build_hdr_eq (t : Tool) : t.build_hdr = build_hdr_with t.order := by
  cases t with
  | imghdr => rfl
  | imghdr_bn => rfl

theorem Tool.word_eq (t : Tool) (file : List UInt8) (a : Nat) :
    t.word file a = t.order (leWord (store zeroed 0 file) a) := by
  cases t with
  | imghdr => rfl
  | imghdr_bn => exact (swap_leWord _ a).symm

theorem Tool.order_order (t : Tool) (w : UInt32) : t.order (t.order w) = w := by
  cases t with
  | imghdr => rfl
  | imghdr_bn => exact swap_swap w

theorem Tool.order_zero (t : Tool) : t.order 0 = 0 := by
  cases t with
  | imghdr => rfl
  | imghdr_bn => exact swap_zero

theorem Tool.sum_eq (t : Tool) (file : List UInt8) :
    t.sum file = wordSum t.order (store zeroed 0 file) 0 (file.length / 4) := by
  rw [wordSum_eq_foldl, Tool.sum]
  simp only [Tool.word_eq, Nat.zero_add]

theorem headed_of_load (t : Tool) {image : List UInt8} (hsize : 64 ≤ image.length)
    (vstr btstr info : Text) :
    let len := (image.length + 3) / 4 * 4
    Headed t image (load (setChksum t.order len
      (setFields t.order vstr btstr info len (store zeroed 0 image))) 0 len) := by
  intro len
  have hlen : 64 ≤ len := by omega
  have hsame : ∀ i < len, store zeroed 0 (load (setChksum t.order len
      (setFields t.order vstr btstr info len (store zeroed 0 image))) 0 len) i =
        setChksum t.order len (setFields t.order vstr btstr info len (store zeroed 0 image)) i :=
    fun i hi => store_load_self _ hi
  refine ⟨load_length _ _ _, ?_, ?_, ?_⟩
  · rw [Tool.sum_eq, load_length]
    have hsum := sum_setChksum t.order_order t.order_zero (by omega : 36 ≤ len)
      (setFields t.order vstr btstr info len (store zeroed 0 image))
    refine (wordSum_congr fun i hi => ?_).trans hsum
    exact hsame _ (by omega)
  · rw [Tool.word_eq, load_length]
    have hbytes : ∀ i < 4, store zeroed 0 (load (setChksum t.order len
        (setFields t.order vstr btstr info len (store zeroed 0 image))) 0 len)
          (HdrField.offset .size + i) =
        setFields t.order vstr btstr info len (store zeroed 0 image) (HdrField.offset .size + i) := by
      intro i hi
      have hat : HdrField.offset .size = 24 := rfl
      rw [hsame _ (by omega), setChksum_other _ _ (.inl (by omega))]
    rw [leWord_congr hbytes, leWord_size, t.order_order]
  · intro i hi hother
    rw [load_length] at hi
    have hchksum := hother .chksum (by decide)
    rw [getD_eq_store, getD_eq_store, hsame i hi, setChksum_other len _ hchksum,
      setFields_other _ _ _ _ _ _ hother]

/-- **The header of an image.**  For every image of at least 64 bytes whose size, with the
margin of the buffer, is an `int`, both tools write the image in whole words, with a header
whose size field is that of the file and whose checksum makes the sum of the words zero. -/
theorem header_written (t : Tool) {C : Calls} (hC : C.Succeed) {image : List UInt8}
    (hsize : 64 ≤ image.length) (hfit : image.length ≤ 0x7ffffeff) (vstr btstr info : Text) :
    ∃ file, t.build_hdr C (some image) vstr btstr info = some (.written file) ∧
      Headed t image file := by
  refine ⟨_, ?_, headed_of_load t hsize vstr btstr info⟩
  rw [Tool.build_hdr_eq, build_hdr_eq hC (by omega) hfit]

def calls : Calls := ⟨true, true, fun _ => true, true⟩

theorem calls_succeed : calls.Succeed := ⟨rfl, rfl, fun _ => rfl, rfl⟩

theorem header_written_sample :
    ∃ file, imghdr.build_hdr calls (some (List.replicate 67 0x5a)) (ascii "1020304") (ascii "99")
        (ascii "AKS") = some (.written file) ∧ Headed .imghdr (List.replicate 67 0x5a) file :=
  header_written .imghdr calls_succeed (by decide) (by decide) _ _ _

/-- The file of a larger image is too short. -/
theorem large_image (t : Tool) {image : List UInt8} (hlarge : 0x7fffffff < image.length) (C : Calls)
    (vstr btstr info : Text) :
    ¬ ∃ file, t.build_hdr C (some image) vstr btstr info = some (.written file) ∧
      Headed t image file := by
  rintro ⟨file, hrun, hheaded⟩
  rw [Tool.build_hdr_eq] at hrun
  have hshort := written_length hrun
  have hlong := hheaded.length
  omega

/-- An image of 4 GiB and 64 bytes. -/
theorem large_image_cut :
    (¬ ∃ file, imghdr.build_hdr calls (some (List.replicate 0x100000040 0x5a)) [] [] [] =
      some (.written file) ∧ Headed .imghdr (List.replicate 0x100000040 0x5a) file) ∧
    ¬ ∃ file, imghdr_bn.build_hdr calls (some (List.replicate 0x100000040 0x5a)) [] [] [] =
      some (.written file) ∧ Headed .imghdr_bn (List.replicate 0x100000040 0x5a) file := by
  have hlarge : 0x7fffffff < (List.replicate 0x100000040 (0x5a : UInt8)).length := by
    rw [List.length_replicate]
    decide
  exact ⟨large_image .imghdr hlarge calls [] [] [], large_image .imghdr_bn hlarge calls [] [] []⟩

end AksFirmware.ImageHeader
