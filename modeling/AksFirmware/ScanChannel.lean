import AksFirmware.CText
import Mathlib.Data.Nat.Find

/-!
# The channel of the access point

A node in station mode asks for a list of the networks around and looks for the name of
the constellation in the text of the answer.  The channel is the one character two places
before the name.  So a channel of two digits is cut to its last one, and a longer name that
contains the constellation's is taken for it.
-/

namespace AksFirmware.ScanChannel

open ByteMemory CText

def SSID_STR : Text := ascii "Ratpac AKS"

def HF_SUCCESS : Int := 0

/-- `sizeof(at_scan_rsp)`. -/
def AT_SCAN_RSP_SIZE : Nat := 1024

structure Wifi where
  at_scan_rsp : Mem
  ap_wln_channel : UInt8
  get_ap_wln_channel : Bool

/-- The branch of `UserMain` for `STA_WIFI_MODE`, with the first byte of the address and the
answer to `AT+WSCAN`.  No outcome when the answer does not fit or a byte in front of it is
read. -/
def find_ap_channel (ip0 : UInt8) (ret1 : Int) (rsp : Text) (s : Wifi) : Option Wifi :=
  if ip0 = 0 then some { s with ap_wln_channel := 0, get_ap_wln_channel := false }
  else if s.get_ap_wln_channel then some s
  else if AT_SCAN_RSP_SIZE ≤ rsp.length then none
  else
    let at_scan_rsp := storeText s.at_scan_rsp 0 rsp
    if ret1 ≠ HF_SUCCESS then some { s with at_scan_rsp := at_scan_rsp }
    else
      let at_scan_rsp := store at_scan_rsp 512 [0]
      match strstrFrom (load at_scan_rsp 0 AT_SCAN_RSP_SIZE) 0 SSID_STR with
      | none => some { s with at_scan_rsp := at_scan_rsp }
      | some ptr_ssid_str =>
          if ptr_ssid_str < 2 then none
          else some { at_scan_rsp := at_scan_rsp
                      ap_wln_channel := at_scan_rsp (ptr_ssid_str - 2) - 0x30
                      get_ap_wln_channel := true }

/-! ### The answer -/

/-- A line of the answer; `rest` is what follows the SSID, with the end of the line. -/
structure ScanLine where
  channel : Nat
  ssid : Text
  rest : Text
  channel_pos : 1 ≤ channel
  channel_le : channel ≤ 13
  no_zero : (0 : UInt8) ∉ ssid ++ rest

def ScanLine.text (L : ScanLine) : Text :=
  decimal L.channel ++ ascii "," ++ L.ssid ++ ascii "," ++ L.rest

def answer (lines : List ScanLine) : Text := lines.flatMap ScanLine.text

/-- Where the name stands in the answer for the first time. -/
def FirstAt (hay : Text) (i : Nat) : Prop :=
  SSID_STR <+: hay.drop i ∧ ∀ j < i, ¬ SSID_STR <+: hay.drop j

/-- The offset of the SSID of a line in the answer. -/
def ssidAt (before : List ScanLine) (L : ScanLine) : Nat :=
  (answer before).length + (decimal L.channel).length + 1

/-- `L` is the only line with the constellation's name. -/
def OnlyAp (before : List ScanLine) (L : ScanLine) (after : List ScanLine) : Prop :=
  L.ssid = SSID_STR ∧ ∀ M ∈ before ++ after, M.ssid ≠ SSID_STR

/-- The channel is that of the only line with the name, and without such a line nothing
changes. -/
def Right (lines : List ScanLine) (s s' : Wifi) : Prop :=
  (∀ before L after, lines = before ++ L :: after → OnlyAp before L after →
      s'.ap_wln_channel.toNat = L.channel) ∧
    ((∀ M ∈ lines, M.ssid ≠ SSID_STR) → s'.ap_wln_channel = s.ap_wln_channel ∧
      s'.get_ap_wln_channel = s.get_ap_wln_channel)

/-- The name does not occur before the SSID of its line, and the channel there has one
digit; or it does, and two places before stands the right digit by accident.  Without a
line of that name it does not occur at all. -/
def Findable (lines : List ScanLine) : Prop :=
  (∀ before L after, lines = before ++ L :: after → OnlyAp before L after →
      (FirstAt (answer lines) (ssidAt before L) ∧ L.channel ≤ 9) ∨
        ∃ i < ssidAt before L, FirstAt (answer lines) i ∧
          (answer lines)[i - 2]? = some (0x30 + L.channel.toUInt8)) ∧
    ((∀ M ∈ lines, M.ssid ≠ SSID_STR) → ∀ i, ¬ SSID_STR <+: (answer lines).drop i)

/-! ### Digits -/

theorem decimal_channel {c : Nat} (h1 : 1 ≤ c) (h13 : c ≤ 13) :
    (decimal c).getLast? = some (0x30 + (c % 10).toUInt8) ∧
      (∀ b ∈ decimal c ++ ascii ",", b ≠ 0x52) ∧ 2 ≤ (decimal c ++ ascii ",").length := by
  have hall : ∀ c < 14, 1 ≤ c → (decimal c).getLast? = some (0x30 + (c % 10).toUInt8) ∧
      (∀ b ∈ decimal c ++ ascii ",", b ≠ 0x52) ∧ 2 ≤ (decimal c ++ ascii ",").length := by
    decide +kernel
  exact hall c (by omega) h1

theorem digit_iff (b : UInt8) {c : Nat} (hc : c ≤ 13) :
    (b - 0x30).toNat = c ↔ b = 0x30 + c.toUInt8 := by
  have hlt := b.toNat_lt
  simp only [← UInt8.toNat_inj, UInt8.toNat_sub, UInt8.toNat_add, Nat.toUInt8_eq,
    UInt8.toNat_ofNat', UInt8.reduceToNat]
  omega

/-! ### The search -/

theorem search_rsp {m : Mem} {hay : Text} (h : HoldsText m 0 hay)
    (hlen : hay.length < AT_SCAN_RSP_SIZE) :
    strstrFrom (load m 0 AT_SCAN_RSP_SIZE) 0 SSID_STR = strstrOffset SSID_STR hay := by
  obtain ⟨d, hd⟩ := Nat.exists_eq_add_of_le (Nat.succ_le_of_lt hlen)
  have hsplit : load m 0 AT_SCAN_RSP_SIZE = hay ++ 0 :: load m (0 + (hay.length + 1)) d := by
    rw [hd, load_add, h, List.append_assoc, List.singleton_append]
  rw [strstrFrom, hsplit, List.drop_zero,
    strstrOffset_append_zero (by decide) (by decide)]
  exact (congrArg (Option.map · _) (funext Nat.zero_add)).trans Option.map_id'

theorem search_cases {hay : Text} (hzero : (0 : UInt8) ∉ hay) :
    (∃ n, FirstAt hay n ∧ strstrOffset SSID_STR hay = some n) ∨
      (∀ i, ¬ SSID_STR <+: hay.drop i) ∧ strstrOffset SSID_STR hay = none := by
  by_cases hocc : ∃ i, SSID_STR <+: hay.drop i
  · have hfirst : FirstAt hay (Nat.find hocc) :=
      ⟨Nat.find_spec hocc, fun _ hj => Nat.find_min hocc hj⟩
    exact .inl ⟨_, hfirst, strstrOffset_eq_some hzero hfirst.1 hfirst.2⟩
  · have hnone := not_exists.mp hocc
    exact .inr ⟨hnone, strstrOffset_eq_none (by decide) hnone⟩

theorem FirstAt.unique {hay : Text} {i j : Nat} (hi : FirstAt hay i) (hj : FirstAt hay j) :
    i = j := by
  rcases Nat.lt_trichotomy i j with h | h | h
  · exact absurd hi.1 (hj.2 i h)
  · exact h
  · exact absurd hj.1 (hi.2 j h)

theorem lt_of_occurs {hay : Text} {i : Nat} (h : SSID_STR <+: hay.drop i) : i < hay.length := by
  have hlen := h.length_le
  have hname : SSID_STR.length = 10 := rfl
  rw [List.length_drop] at hlen
  omega

section Search

variable {ip0 : UInt8} (hip : ip0 ≠ 0) {s : Wifi} (hget : s.get_ap_wln_channel = false)
  {rsp : Text} (hlen : rsp.length ≤ 512)
include hip hget hlen

/-- The outcome follows from the search alone. -/
theorem find_eq :
    ∃ m, HoldsText m 0 rsp ∧ find_ap_channel ip0 HF_SUCCESS rsp s =
      match strstrOffset SSID_STR rsp with
      | none => some { s with at_scan_rsp := m }
      | some n => if n < 2 then none else some ⟨m, m (n - 2) - 0x30, true⟩ := by
  have hholds : HoldsText (store (storeText s.at_scan_rsp 0 rsp) 512 [0]) 0 rsp := by
    have hcut := (holdsText_storeText s.at_scan_rsp 0 rsp).cut 512
    rwa [List.take_of_length_le hlen] at hcut
  have hfits : rsp.length < AT_SCAN_RSP_SIZE := by simp only [AT_SCAN_RSP_SIZE]; omega
  refine ⟨_, hholds, ?_⟩
  rw [← search_rsp hholds hfits]
  simp only [find_ap_channel, if_neg hip, hget, Bool.false_eq_true, if_false, ne_eq,
    not_true_eq_false, if_neg (Nat.not_le.mpr hfits)]

theorem find_first (hzero : (0 : UInt8) ∉ rsp) {n : Nat} (hn : FirstAt rsp n) (h2 : 2 ≤ n) :
    ∃ s' b, find_ap_channel ip0 HF_SUCCESS rsp s = some s' ∧ s'.get_ap_wln_channel = true ∧
      rsp[n - 2]? = some b ∧ s'.ap_wln_channel = b - 0x30 := by
  obtain ⟨m, hm, heq⟩ := find_eq hip hget hlen
  have hlt := lt_of_occurs hn.1
  have hbyte : rsp[n - 2]? = some (m (n - 2)) := by
    have hat := congrArg (fun bytes => bytes[n - 2]?) hm
    rwa [load_getElem?_eq m 0 (by omega), Nat.zero_add, List.getElem?_append_left (by omega),
      eq_comm] at hat
  rw [strstrOffset_eq_some hzero hn.1 hn.2] at heq
  simp only [if_neg (Nat.not_lt.mpr h2)] at heq
  exact ⟨_, _, heq, rfl, hbyte, rfl⟩

theorem find_nowhere (hnone : ∀ i, ¬ SSID_STR <+: rsp.drop i) :
    ∃ s', find_ap_channel ip0 HF_SUCCESS rsp s = some s' ∧
      s'.ap_wln_channel = s.ap_wln_channel ∧ s'.get_ap_wln_channel = s.get_ap_wln_channel := by
  obtain ⟨m, -, heq⟩ := find_eq hip hget hlen
  rw [strstrOffset_eq_none (by decide) hnone] at heq
  exact ⟨_, heq, rfl, rfl⟩

end Search

/-! ### Lines -/

theorem zero_notMem_answer (lines : List ScanLine) : (0 : UInt8) ∉ answer lines := by
  intro h
  obtain ⟨L, -, hL⟩ := List.mem_flatMap.mp h
  have hcomma : (0 : UInt8) ∉ ascii "," := by decide
  have hno := L.no_zero
  rw [List.mem_append, not_or] at hno
  simp [ScanLine.text, zero_notMem_decimal, hcomma, hno.1, hno.2] at hL

/-- The answer around a line. -/
theorem answer_split (before after : List ScanLine) (L : ScanLine) :
    answer (before ++ L :: after) =
      (answer before ++ decimal L.channel ++ ascii ",") ++
        (L.ssid ++ (ascii "," ++ L.rest ++ answer after)) := by
  simp [answer, ScanLine.text]

theorem occurs_at_ssid {before after : List ScanLine} {L : ScanLine} (h : L.ssid = SSID_STR) :
    SSID_STR <+: (answer (before ++ L :: after)).drop (ssidAt before L) := by
  rw [answer_split, List.drop_left' (by simp [ssidAt, ascii]; rfl), h]
  exact List.prefix_append _ _

/-- The answer begins with a channel, so the name is not in its first two places. -/
theorem two_le_of_occurs {lines : List ScanLine} {i : Nat}
    (h : SSID_STR <+: (answer lines).drop i) : 2 ≤ i := by
  by_contra hi
  cases lines with
  | nil => simp [answer, SSID_STR, ascii] at h
  | cons L lines =>
    obtain ⟨-, hbytes, hlong⟩ := decimal_channel L.channel_pos L.channel_le
    have hstart : answer (L :: lines) = (decimal L.channel ++ ascii ",") ++
        (L.ssid ++ (ascii "," ++ L.rest ++ answer lines)) := answer_split [] lines L
    have hin : i < (decimal L.channel ++ ascii ",").length := by omega
    have hfirst : (answer (L :: lines))[i]? = some 0x52 := by
      obtain ⟨t, ht⟩ := h
      have hget : ((answer (L :: lines)).drop i)[0]? = some 0x52 := by rw [← ht]; rfl
      rwa [List.getElem?_drop, Nat.add_zero] at hget
    rw [hstart, List.getElem?_append_left hin, List.getElem?_eq_getElem hin] at hfirst
    exact hbytes _ (List.getElem_mem hin) (Option.some.inj hfirst)

/-- The last digit of the channel stands two places before the SSID. -/
theorem digit_before_ssid (before after : List ScanLine) (L : ScanLine) :
    (answer (before ++ L :: after))[ssidAt before L - 2]? =
      some (0x30 + (L.channel % 10).toUInt8) := by
  obtain ⟨hlast, -, -⟩ := decimal_channel L.channel_pos L.channel_le
  have hne : decimal L.channel ≠ [] := by
    intro hnil
    rw [hnil] at hlast
    cases hlast
  have hpos := List.length_pos_of_ne_nil hne
  rw [answer_split, List.append_assoc, List.append_assoc, List.getElem?_append_right
    (by simp only [ssidAt]; omega), List.getElem?_append_left (by simp only [ssidAt]; omega),
    ← hlast, List.getLast?_eq_getElem?]
  congr 1
  simp only [ssidAt]
  omega

/-- Where the name stands first decides which digit is taken. -/
theorem digit_right_iff {before after : List ScanLine} {L : ScanLine} (hL : L.ssid = SSID_STR)
    {n : Nat} (hn : FirstAt (answer (before ++ L :: after)) n) {b : UInt8}
    (hb : (answer (before ++ L :: after))[n - 2]? = some b) :
    (b - 0x30).toNat = L.channel ↔
      (FirstAt (answer (before ++ L :: after)) (ssidAt before L) ∧ L.channel ≤ 9) ∨
        ∃ i < ssidAt before L, FirstAt (answer (before ++ L :: after)) i ∧
          (answer (before ++ L :: after))[i - 2]? = some (0x30 + L.channel.toUInt8) := by
  have hle : n ≤ ssidAt before L := Nat.not_lt.mp fun h => hn.2 _ h (occurs_at_ssid hL)
  have hmax := L.channel_le
  rw [digit_iff b hmax]
  rcases Nat.eq_or_lt_of_le hle with rfl | hlt
  · -- the digit is the last one of the line's own channel
    rw [digit_before_ssid, Option.some.injEq] at hb
    have hone : b = 0x30 + L.channel.toUInt8 ↔ L.channel ≤ 9 := by
      rw [← hb]
      simp only [← UInt8.toNat_inj, UInt8.toNat_add, Nat.toUInt8_eq, UInt8.toNat_ofNat']
      omega
    rw [hone]
    constructor
    · exact fun h => .inl ⟨hn, h⟩
    · rintro (⟨-, h⟩ | ⟨i, hi, hfirst, -⟩)
      · exact h
      · exact absurd (hfirst.unique hn) hi.ne
  · constructor
    · intro h
      exact .inr ⟨n, hlt, hn, by rw [hb, h]⟩
    · rintro (⟨hfirst, -⟩ | ⟨i, -, hfirst, hdigit⟩)
      · exact absurd (hn.unique hfirst) hlt.ne
      · obtain rfl := hfirst.unique hn
        exact Option.some.inj (hb.symm.trans hdigit)

/-- **When the right channel is found.**  Asked for in a successful scan, the channel and
its flag are left as they should be if and only if the name is found in its place. -/
theorem channel_right_iff {ip0 : UInt8} (hip : ip0 ≠ 0) {s : Wifi}
    (hget : s.get_ap_wln_channel = false) (lines : List ScanLine)
    (hlen : (answer lines).length ≤ 512) :
    ∃ s', find_ap_channel ip0 HF_SUCCESS (answer lines) s = some s' ∧
      (Right lines s s' ↔ Findable lines) := by
  have hzero := zero_notMem_answer lines
  rcases search_cases hzero with ⟨n, hn, -⟩ | ⟨hnone, -⟩
  · obtain ⟨s', b, hs', hset, hb, hap⟩ := find_first hip hget hlen hzero hn
      (two_le_of_occurs hn.1)
    refine ⟨s', hs', and_congr ?_ ?_⟩
    · rw [hap]
      constructor
      · rintro h before L after rfl honly
        exact (digit_right_iff honly.1 hn hb).mp (h before L after rfl honly)
      · rintro h before L after rfl honly
        exact (digit_right_iff honly.1 hn hb).mpr (h before L after rfl honly)
    · rw [hset, hget]
      constructor
      · intro h hno
        exact absurd (h hno).2 (by decide)
      · intro h hno
        exact absurd hn.1 (h hno n)
  · obtain ⟨s', hs', hsame⟩ := find_nowhere hip hget hlen hnone
    have habsent : ∀ before L after, lines = before ++ L :: after → ¬ OnlyAp before L after := by
      rintro before L after rfl honly
      exact hnone _ (occurs_at_ssid honly.1)
    refine ⟨s', hs', iff_of_true ⟨?_, fun _ => hsame⟩ ⟨?_, fun _ => hnone⟩⟩
    · exact fun before L after hcut honly => absurd honly (habsent before L after hcut)
    · exact fun before L after hcut honly => absurd honly (habsent before L after hcut)

/-! ### Networks that are mistaken -/

def lineOf (channel : Nat) (ssid : String) (h1 : 1 ≤ channel) (h13 : channel ≤ 13)
    (hzero : (0 : UInt8) ∉ ascii ssid) : ScanLine where
  channel := channel
  ssid := ascii ssid
  rest := ascii "ACCF23200001,WPA2PSK/AES,70\r\n"
  channel_pos := h1
  channel_le := h13
  no_zero := by
    have hrest : (0 : UInt8) ∉ ascii "ACCF23200001,WPA2PSK/AES,70\r\n" := by decide
    simp [hzero, hrest]

def unasked : Wifi := ⟨zeroed, 0, false⟩

def elevenLine : ScanLine := lineOf 11 "Ratpac AKS" (by decide) (by decide) (by decide)

def apLine : ScanLine := lineOf 1 "Ratpac AKS" (by decide) (by decide) (by decide)

def neighbourLine : ScanLine := lineOf 6 "Ratpac AKS 2" (by decide) (by decide) (by decide)

def RightAfter (lines : List ScanLine) : Prop :=
  (answer lines).length ≤ 512 → ∃ s', find_ap_channel 10 HF_SUCCESS (answer lines) unasked =
    some s' ∧ Right lines unasked s'

theorem rightAfter_found {lines : List ScanLine} (h : RightAfter lines)
    (hlen : (answer lines).length ≤ 512) {ap : UInt8} {asked : Bool}
    (hfound : (find_ap_channel 10 HF_SUCCESS (answer lines) unasked).map
      (fun s => (s.ap_wln_channel, s.get_ap_wln_channel)) = some (ap, asked)) :
    ∃ s', s'.ap_wln_channel = ap ∧ s'.get_ap_wln_channel = asked ∧ Right lines unasked s' := by
  obtain ⟨s', hs', hright⟩ := h hlen
  rw [hs', Option.map_some, Option.some.injEq, Prod.mk.injEq] at hfound
  exact ⟨s', hfound.1, hfound.2, hright⟩

/-- A channel of two digits, a longer name in an earlier line, and a longer name alone. -/
theorem wrong_channels :
    ¬ RightAfter [elevenLine] ∧ ¬ RightAfter [neighbourLine, apLine] ∧
      ¬ RightAfter [neighbourLine] := by
  refine ⟨fun h => ?_, fun h => ?_, fun h => ?_⟩
  · obtain ⟨s', hap, -, hright⟩ := @rightAfter_found _ h (by decide +kernel) 1 true
      (by decide +kernel)
    have hch := hright.1 [] elevenLine [] rfl ⟨rfl, List.forall_mem_nil _⟩
    rw [hap] at hch
    exact absurd hch (by decide)
  · obtain ⟨s', hap, -, hright⟩ := @rightAfter_found _ h (by decide +kernel) 6 true
      (by decide +kernel)
    have hch := hright.1 [neighbourLine] apLine [] rfl ⟨rfl, by decide +kernel⟩
    rw [hap] at hch
    exact absurd hch (by decide)
  · obtain ⟨s', -, hasked, hright⟩ := @rightAfter_found _ h (by decide +kernel) 6 true
      (by decide +kernel)
    have hkept := (hright.2 (by decide +kernel)).2
    rw [hasked] at hkept
    exact absurd hkept (by decide)

theorem channel_right_two :
    ∃ s', find_ap_channel 10 HF_SUCCESS (answer [apLine, neighbourLine]) unasked = some s' ∧
      (Right [apLine, neighbourLine] unasked s' ↔ Findable [apLine, neighbourLine]) :=
  channel_right_iff (by decide) rfl [apLine, neighbourLine] (by decide +kernel)

end AksFirmware.ScanChannel
