import AksFirmware.CText
import AksFirmware.WordBytes
import Mathlib.Data.List.GetD

/-!
# The profile behind an image

`HfMkImage` appends a profile to the image of a flash chip: filler up to the last 15 KiB of
the image, a header of 32 bytes with a checksum, and the profile.  The header is written
with the highest byte first; the words that are summed up have the lowest one first.

The sizes of both files are `int`s, so the statement is about files below 2 GiB.  An image
of 4 GiB is taken for an empty one (`large_image_accepted`).
-/

namespace AksFirmware.ProfileImage

open ByteMemory CText WordBytes

def MAX_PROFILE_SIZE : Nat := 15 * 1024
def HDR_SIZE : Nat := 32

/-- `cfg_len`. -/
def cfg_len : Nat := MAX_PROFILE_SIZE - HDR_SIZE - 16

/-- The sum of the words in `len` bytes. -/
def chk_sum (m : Mem) (p len : Nat) : UInt32 := wordSum id m p (len / 4)

/-! ### The tool -/

/-- The calls of the C library that can fail. -/
structure Calls where
  fopen_image : Bool
  fopen_profile : Bool
  malloc : Nat → Bool
  fwrite : Bool

/-- How a run ends: it stops with a return code and appends nothing, what `fwrite` appended
is not known, or the image file has these bytes now. -/
inductive Exit where
  | stopped (rc : Int)
  | partly
  | appended (file : List UInt8)

/-- An unknown size is reported, and the run goes on. -/
def dst_image_size (flash : Text) : Int :=
  if flash = ascii "1M" then (704 - 1) * 1024
  else if flash = ascii "2M" then (832 - 1) * 1024
  else if flash = ascii "4M" then (832 - 1) * 1024
  else 704 * 1024

/-- `hdr[HDR_SIZE]`. -/
def header (check_sum : UInt32) : List UInt8 :=
  beBytes check_sum ++ beBytes (UInt32.ofNat cfg_len) ++ ascii "dcfg" ++ List.replicate 20 0

/-- `data` with the profile in place, and no header yet. -/
def filled (max_profile_size : Nat) (profile : List UInt8) : Mem :=
  let base := max_profile_size - MAX_PROFILE_SIZE
  let data := store zeroed 0 (List.replicate max_profile_size 0xff)
  let data := store data base (List.replicate MAX_PROFILE_SIZE 0)
  store data (base + HDR_SIZE) (profile.take MAX_PROFILE_SIZE)

/-- `data` as it is written. -/
def prepared (max_profile_size : Nat) (profile : List UInt8) : Mem :=
  let base := max_profile_size - MAX_PROFILE_SIZE
  let data := filled max_profile_size profile
  store data base (header (chk_sum data (base + HDR_SIZE) cfg_len))

/-- `main`, on the contents of the two files; an image file that was missing is empty.  It is
undefined where a sum of two `int`s is none, and where the profile leaves the buffer. -/
def main (C : Calls) (argv : List Text) (image profile : List UInt8) : Option Exit :=
  match argv with
  | _ :: _ :: _ :: _ :: _ :: _ :: flash :: _ =>
      if ¬ C.fopen_image ∨ ¬ C.fopen_profile then some (.stopped 1)
      else
        let image_file_size := int32 image.length
        let profile_size := int32 profile.length
        if 0x7fffffff < profile_size + HDR_SIZE + 16 then none
        else if MAX_PROFILE_SIZE < profile_size + HDR_SIZE + 16 then some (.stopped 1)
        else
          let max_profile_size := dst_image_size flash - image_file_size
          if 0x7fffffff < max_profile_size then none
          else if max_profile_size ≤ MAX_PROFILE_SIZE then some (.stopped 0)
          else
            let max_profile_size := max_profile_size.toNat
            if ¬ C.malloc max_profile_size then some (.stopped 0)
            else if MAX_PROFILE_SIZE < HDR_SIZE + min MAX_PROFILE_SIZE profile.length then none
            else if ¬ C.fwrite then some .partly
            else some (.appended
              (image ++ load (prepared max_profile_size profile) 0 max_profile_size))
  | _ => some (.stopped 1)

/-! ### What the file must be -/

/-- The size of the image for a flash chip. -/
def targetSize (flash : Text) : Option Nat :=
  if flash = ascii "1M" then some (703 * 1024)
  else if flash = ascii "2M" ∨ flash = ascii "4M" then some (831 * 1024)
  else none

/-- The image, filler and a final block that holds the profile and its checksum. -/
structure Made (image profile : List UInt8) (target : Nat) (file filler block : List UInt8) :
    Prop where
  parts : file = image ++ filler ++ block
  fill : ∀ b ∈ filler, b = 0xff
  room : block.length = 15 * 1024
  size : file.length = target
  decoded_len : beWord (store zeroed 0 block) 4 = UInt32.ofNat (15 * 1024 - 32 - 16)
  decoded_sum : beWord (store zeroed 0 block) 0 =
    chk_sum (store zeroed 0 block) 32 (15 * 1024 - 32 - 16)
  whole : (block.drop 32).take (15 * 1024 - 32 - 16) =
    profile ++ List.replicate (15 * 1024 - 32 - 16 - profile.length) 0

/-! ### The block -/

theorem header_length (check_sum : UInt32) : (header check_sum).length = HDR_SIZE := rfl

/-- The filler lies in front of everything that is written later. -/
theorem prepared_filler {max i : Nat} (profile : List UInt8) (hi : i < max - MAX_PROFILE_SIZE) :
    prepared max profile i = 0xff := by
  have hmax : i < max := by omega
  rw [prepared, store_of_outside _ _ (.inl hi), filled,
    store_of_outside _ _ (.inl (Nat.lt_add_right _ hi)), store_of_outside _ _ (.inl hi), store_eq,
    dif_pos ⟨Nat.zero_le i, by rwa [List.length_replicate, Nat.zero_add]⟩, List.getElem_replicate]

/-- Behind the header the profile stands, and zeros. -/
theorem filled_profile (max : Nat) {profile : List UInt8} (hshort : profile.length ≤ cfg_len)
    {i : Nat} (hi : i < cfg_len) :
    filled max profile (max - MAX_PROFILE_SIZE + HDR_SIZE + i) = profile.getD i 0 := by
  have hwhole : profile.take MAX_PROFILE_SIZE = profile :=
    List.take_of_length_le (Nat.le_trans hshort (by decide))
  rw [filled, hwhole]
  rcases Nat.lt_or_ge i profile.length with hlt | hge
  · rw [store_at _ _ i profile hlt, List.getD_eq_getElem _ _ hlt]
  · have hin : i + HDR_SIZE < MAX_PROFILE_SIZE :=
      Nat.lt_of_lt_of_le (Nat.add_lt_add_right hi HDR_SIZE) (by decide)
    rw [store_of_outside _ _ (.inr (by omega)), Nat.add_assoc,
      store_at _ _ (HDR_SIZE + i) _ (by rw [List.length_replicate]; omega), List.getElem_replicate,
      List.getD_eq_default _ _ hge]

theorem prepared_behind (max : Nat) (profile : List UInt8) (i : Nat) :
    prepared max profile (max - MAX_PROFILE_SIZE + HDR_SIZE + i) =
      filled max profile (max - MAX_PROFILE_SIZE + HDR_SIZE + i) := by
  rw [prepared]
  apply store_of_outside
  rw [header_length]
  omega

/-- The first two words of the header. -/
theorem prepared_header (max : Nat) (profile : List UInt8) :
    beWord (prepared max profile) (max - MAX_PROFILE_SIZE) =
        chk_sum (filled max profile) (max - MAX_PROFILE_SIZE + HDR_SIZE) cfg_len ∧
      beWord (prepared max profile) (max - MAX_PROFILE_SIZE + 4) = UInt32.ofNat cfg_len := by
  rw [prepared, header, List.append_assoc, List.append_assoc, store_append, store_append]
  simp only [beBytes_length]
  refine ⟨?_, ?_⟩
  · rw [beWord_store_other _ _ (.inl (by omega)), beWord_store_other _ _ (.inl (by omega)),
      beWord_store]
  · rw [beWord_store_other _ _ (.inl (by omega)), beWord_store]

/-- What is appended for a profile that fits. -/
theorem made_of_prepared {image profile : List UInt8} {max target : Nat}
    (hmax : MAX_PROFILE_SIZE ≤ max) (htarget : image.length + max = target)
    (hshort : profile.length ≤ cfg_len) :
    Made image profile target (image ++ load (prepared max profile) 0 max)
      (load (prepared max profile) 0 (max - MAX_PROFILE_SIZE))
      (load (prepared max profile) (max - MAX_PROFILE_SIZE) MAX_PROFILE_SIZE) := by
  have hblock : ∀ i < MAX_PROFILE_SIZE,
      store zeroed 0 (load (prepared max profile) (max - MAX_PROFILE_SIZE) MAX_PROFILE_SIZE) (0 + i) =
        prepared max profile (max - MAX_PROFILE_SIZE + i) := by
    intro i hi
    rw [store_load_eq, if_pos (by omega), Nat.add_sub_cancel_left]
  have hcfg : HDR_SIZE + cfg_len ≤ MAX_PROFILE_SIZE := by decide
  obtain ⟨hsum, hlen⟩ := prepared_header max profile
  constructor
  case parts =>
    have hsplit := load_add (prepared max profile) 0 (max - MAX_PROFILE_SIZE) MAX_PROFILE_SIZE
    rw [Nat.sub_add_cancel hmax, Nat.zero_add] at hsplit
    rw [hsplit, List.append_assoc]
  case fill =>
    intro b hb
    obtain ⟨i, hi, rfl⟩ := List.mem_map.mp hb
    rw [Nat.zero_add]
    exact prepared_filler profile (List.mem_range.mp hi)
  case room => exact load_length _ _ _
  case size => rw [List.length_append, load_length, htarget]
  case decoded_len =>
    refine (beWord_congr (b := 4) fun i hi => ?_).trans hlen
    rw [Nat.add_assoc, ← hblock (4 + i) (by unfold MAX_PROFILE_SIZE; omega), Nat.zero_add]
  case decoded_sum =>
    have hfirst : beWord (store zeroed 0 (load (prepared max profile) (max - MAX_PROFILE_SIZE)
        MAX_PROFILE_SIZE)) 0 = _ :=
      (beWord_congr fun i hi => hblock i (by unfold MAX_PROFILE_SIZE; omega)).trans hsum
    rw [hfirst]
    refine (wordSum_congr (b := 32) fun i hi => ?_).symm
    have hi' : i < cfg_len := hi
    rw [← prepared_behind, Nat.add_assoc, ← hblock (HDR_SIZE + i) (by omega), Nat.zero_add]
    rfl
  case whole =>
    apply List.ext_getElem
    · rw [List.length_take, List.length_drop, load_length, List.length_append,
        List.length_replicate]
      have hnum : cfg_len = 15 * 1024 - 32 - 16 ∧ MAX_PROFILE_SIZE = 15 * 1024 := ⟨rfl, rfl⟩
      omega
    · intro i hi hi'
      have hlt : i < cfg_len := by
        rw [List.length_take] at hi
        exact Nat.lt_of_lt_of_le hi (Nat.min_le_left _ _)
      rw [List.getElem_take, List.getElem_drop, load_getElem, ← Nat.add_assoc]
      have hat : prepared max profile (max - MAX_PROFILE_SIZE + 32 + i) = profile.getD i 0 :=
        (prepared_behind max profile i).trans (filled_profile max hshort hlt)
      rw [hat]
      rcases Nat.lt_or_ge i profile.length with hin | hout
      · rw [List.getElem_append_left hin, List.getD_eq_getElem _ _ hin]
      · rw [List.getElem_append_right hout, List.getElem_replicate, List.getD_eq_default _ _ hout]

/-! ### Runs of the tool -/

/-- How a run comes to an appended file. -/
theorem main_appended {C : Calls} {argv : List Text} {image profile file : List UInt8}
    (hrun : main C argv image profile = some (.appended file)) :
    ∃ flash, argv[6]? = some flash ∧ int32 profile.length + HDR_SIZE + 16 ≤ MAX_PROFILE_SIZE ∧
      MAX_PROFILE_SIZE < dst_image_size flash - int32 image.length ∧
      HDR_SIZE + min MAX_PROFILE_SIZE profile.length ≤ MAX_PROFILE_SIZE ∧
      file = image ++ load (prepared (dst_image_size flash - int32 image.length).toNat profile) 0
        (dst_image_size flash - int32 image.length).toNat := by
  unfold main at hrun
  split at hrun
  · rename_i flash _
    dsimp only at hrun
    split at hrun
    · cases hrun
    split at hrun
    · cases hrun
    split at hrun
    · cases hrun
    rename_i hprofile
    split at hrun
    · cases hrun
    split at hrun
    · cases hrun
    rename_i hroom
    split at hrun
    · cases hrun
    split at hrun
    · cases hrun
    rename_i hread
    split at hrun
    · cases hrun
    refine ⟨flash, rfl, Int.not_lt.mp hprofile, Int.not_le.mp hroom, Nat.not_lt.mp hread, ?_⟩
    cases hrun
    rfl
  · cases hrun

/-- **The file that is made.**  Every run that accepts an image and a profile below 2 GiB,
for a flash chip of 1M, 2M or 4M, makes a file of the target size. -/
theorem file_made {C : Calls} {argv : List Text} {image profile file : List UInt8} {flash : Text}
    {target : Nat} (hflash : argv[6]? = some flash) (htarget : targetSize flash = some target)
    (himage : image.length < 0x80000000) (hprofile : profile.length < 0x80000000)
    (hrun : main C argv image profile = some (.appended file)) :
    ∃ filler block, Made image profile target file filler block := by
  obtain ⟨flash', hflash', hfits, hroom, -, rfl⟩ := main_appended hrun
  obtain rfl := Option.some.inj (hflash.symm.trans hflash')
  have hdst : dst_image_size flash = target := by
    unfold targetSize at htarget
    unfold dst_image_size
    split at htarget
    · rename_i hone
      cases htarget
      rw [if_pos hone]
      rfl
    · rename_i hone
      split at htarget
      · rename_i hlarge
        cases htarget
        rcases hlarge with rfl | rfl
        · rfl
        · rfl
      · cases htarget
  rw [int32_of_lt himage, hdst] at hroom
  rw [int32_of_lt hprofile] at hfits
  rw [int32_of_lt himage, hdst]
  have hnum : cfg_len = 15 * 1024 - 32 - 16 ∧ MAX_PROFILE_SIZE = 15 * 1024 ∧ HDR_SIZE = 32 :=
    ⟨rfl, rfl, rfl⟩
  exact ⟨_, _, made_of_prepared (by omega) (by omega) (by omega)⟩

def calls : Calls := ⟨true, true, fun _ => true, true⟩

def arguments (flash : Text) : List Text :=
  [ascii "HfMkImage", ascii "-i", ascii "eCos.img", ascii "-p", ascii "profile.txt", ascii "-s",
    flash]

/-- The sizes are accepted. -/
theorem main_accepts (image profile : List UInt8) (flash : Text) {size : Int}
    (himage : int32 image.length = size) (hprofile : profile.length ≤ cfg_len)
    (hroom : MAX_PROFILE_SIZE < dst_image_size flash - size)
    (hint : dst_image_size flash - size ≤ 0x7fffffff) :
    main calls (arguments flash) image profile = some (.appended
      (image ++ load (prepared (dst_image_size flash - size).toNat profile) 0
        (dst_image_size flash - size).toNat)) := by
  have hnum : cfg_len = 15 * 1024 - 32 - 16 ∧ MAX_PROFILE_SIZE = 15 * 1024 ∧ HDR_SIZE = 32 :=
    ⟨rfl, rfl, rfl⟩
  have hsize : int32 profile.length = profile.length := int32_of_lt (by omega)
  have hopen : ¬ (¬ calls.fopen_image = true ∨ ¬ calls.fopen_profile = true) := by decide
  have hmalloc : ¬ ¬ calls.malloc (dst_image_size flash - size).toNat = true := not_not.mpr rfl
  have hwrite : ¬ ¬ calls.fwrite = true := by decide
  simp only [main, arguments, himage, hsize]
  rw [if_neg hopen, if_neg (by omega), if_neg (by omega), if_neg (by omega), if_neg (by omega),
    if_neg hmalloc, if_neg (by omega), if_neg hwrite]

theorem file_made_sample :
    ∃ file, main calls (arguments (ascii "1M")) (List.replicate 1000 0x5a) (ascii "name=AKS") =
        some (.appended file) ∧
      ∃ filler block, Made (List.replicate 1000 0x5a) (ascii "name=AKS") (703 * 1024) file filler
        block := by
  have hsize : int32 (List.replicate 1000 (0x5a : UInt8)).length = 1000 := by
    rw [List.length_replicate]
    decide
  have hrun := main_accepts (List.replicate 1000 0x5a) (ascii "name=AKS") (ascii "1M") hsize
    (by decide) (by decide) (by decide)
  exact ⟨_, hrun, file_made rfl rfl (by rw [List.length_replicate]; decide) (by decide) hrun⟩

/-- An image of 4 GiB is taken for an empty one, and the file is larger by a whole target. -/
theorem large_image_accepted :
    ∃ file, main calls (arguments (ascii "1M")) (List.replicate 0x100000000 0x5a) [] =
        some (.appended file) ∧
      ¬ ∃ filler block, Made (List.replicate 0x100000000 0x5a) [] (703 * 1024) file filler
        block := by
  have hsize : int32 (List.replicate 0x100000000 (0x5a : UInt8)).length = 0 := by
    rw [List.length_replicate]
    decide
  have hrun := main_accepts (List.replicate 0x100000000 0x5a) [] (ascii "1M") hsize
    (by decide) (by decide) (by decide)
  refine ⟨_, hrun, ?_⟩
  rintro ⟨filler, block, hmade⟩
  have hlong := hmade.size
  rw [List.length_append, List.length_replicate] at hlong
  omega

end AksFirmware.ProfileImage
