import AksFirmware.CText

/-!
# The site survey

`getsurveylist` of `cgi_api.c` turns the table of the driver into text with commas
(`wscan_trimup_info`) and takes the rows of that text apart (`trimup_info`).

A place in the text is the text from there on, up to the terminating zero: `*p >= len` says
that nothing is left.  The comma that is written back for 0xfa is in front of `*p`, where
nothing is read again, and is left out.
-/

namespace AksFirmware.SiteSurvey

open ByteMemory CText

def blank : UInt8 := 0x20
def comma : UInt8 := 0x2c

/-- The end of a line, for which both characters are taken. -/
def isEol (c : UInt8) : Bool := c = 0x0a || c = 0x0d

/-! ### Rows with commas -/

/-- A loop that goes wrong. -/
inductive Fault where
  /-- The text is read behind its terminating zero. -/
  | past_end
  /-- A buffer is written behind its end. -/
  | past_buffer
deriving DecidableEq, Repr

/-- The number of characters from which on a field is too long. -/
def limit : Nat → Option Nat
  | 0 => some 10
  | 1 => some 33
  | 2 => some 30
  | 3 => some 80
  | 4 => some 8
  | 5 => some 60
  | 6 => some 60
  | 7 => some 60
  | 8 => some 80
  | _ => none

def is_too_long (para i : Nat) : Bool :=
  match limit para with
  | none => false
  | some n => n < i

/-- The second loop of `getfield`, for a buffer of `size` bytes of which `i` are written: the
characters that are copied, and the place where it is left.  It does not stop at the
terminating zero. -/
def copyField (size para : Nat) : Nat → List UInt8 → Except Fault (Text × List UInt8)
  | i, [] => if i < size then .error .past_end else .error .past_buffer
  | i, ch :: rest =>
    if isEol ch ∨ ch = comma then
      if i < size then .ok ([], ch :: rest) else .error .past_buffer
    else if size ≤ i then .error .past_buffer
    else
      let ch := if ch = 0xfa then comma else ch
      if is_too_long para (i + 1) then
        if i + 1 < size then .ok ([ch], rest) else .error .past_buffer
      else
        match copyField size para (i + 1) rest with
        | .error f => .error f
        | .ok (c, rest) => .ok (ch :: c, rest)

/-- The third loop: a row of commas is passed. -/
def passCommas (len : Nat) : Nat → List UInt8 → List UInt8
  | _, [] => []
  | i, ch :: rest =>
    if ¬ isEol ch ∧ ch = comma then
      if len ≤ i + 1 then rest else passCommas len (i + 1) rest
    else ch :: rest

def passEol : List UInt8 → List UInt8
  | [] => []
  | ch :: rest => if isEol ch then rest else ch :: rest

def getfield (len size para : Nat) (rest : List UInt8) : Except Fault (Text × List UInt8) :=
  match copyField size para 0 (rest.dropWhile isEol) with
  | .error f => .error f
  | .ok (c, rest) => .ok (c, passEol (passCommas len c.length rest))

/-! ### Security -/

/-- What is copied to `tmp`: everything behind the first `/`, without that character. -/
def encryption (c : Text) : Text := (c.dropWhile (· ≠ 0x2f)).filter (· ≠ 0x2f)

/-- `strEncry` and `strAuth`.  `tmp` has ten bytes, with anything in them at first. -/
def getsecurity (tmp : List UInt8) (c : Text) : Except Fault (Text × Text) :=
  if c = ascii "NONE" then .ok (ascii "NONE", ascii "OPEN")
  else if c = ascii "WEP" then .ok (ascii "WEP", ascii "OPEN")
  else if c = ascii "WPAPSK/TKIP" then .ok (ascii "TKIP", ascii "WPAPSK")
  else if c = ascii "WPAPSK/AES" then .ok (ascii "AES", ascii "WPAPSK")
  else if c = ascii "WPAPSK/TKIPAES" then .ok (ascii "TKIPAES", ascii "WPAPSK")
  else if 10 < (encryption c).length then .error .past_buffer
  else
    let tmp := encryption c ++ tmp.drop (encryption c).length
    let strEncry :=
      if tmp.take 7 = ascii "TKIPAES" then ascii "AES"
      else if tmp.take 4 = ascii "TKIP" then ascii "TKIP"
      else if tmp.take 3 = ascii "AES" then ascii "AES"
      else ascii "AES"
    .ok (strEncry, ascii "WPA2PSK")

/-! ### Rows -/

def is_mac_add (ch : Text) : Bool :=
  ch.length = 17 && ch[2]? = some 0x3a && ch[5]? = some 0x3a && ch[8]? = some 0x3a &&
    ch[11]? = some 0x3a && ch[14]? = some 0x3a

/-- The variables of `getsurveylist` for a row. -/
structure Info where
  SSID : Text
  BSSID : Text
  nChannel : Int
  strEncry : Text
  strAuth : Text
  NetworkType : Text
  RSSI : Text
deriving DecidableEq

/-- The fields of a row, in their order. -/
inductive Field where
  | channel | ssid | bssid | security | signal | mode | extch | nettype
deriving DecidableEq, Repr

def rowFields : List Field :=
  [.channel, .ssid, .bssid, .security, .signal, .mode, .extch, .nettype]

/-- One field of `trimup_info` into its buffer: `c` has 100 bytes, `tmpSSIDII` and `tmpBSSID`
have 35, `RSSI` has ten.  What follows a field is done only if something is left. -/
def readField (tmp : List UInt8) (len : Nat) (rest : List UInt8) (s : Info) :
    Field → Except Fault (Info × List UInt8)
  | .channel => do
    let (c, rest) ← getfield len 100 0 rest
    if rest = [] then return (s, rest)
    return ({ s with nChannel := atoi c }, rest)
  | .ssid => do
    let (SSID, rest) ← getfield len 35 1 rest
    return ({ s with SSID := SSID }, rest)
  | .bssid => do
    -- a row without SSID has its BSSID in the place of it
    if is_mac_add s.SSID then return ({ s with BSSID := s.SSID, SSID := [] }, rest)
    let (BSSID, rest) ← getfield len 35 2 rest
    return ({ s with BSSID := BSSID }, rest)
  | .security => do
    let (c, rest) ← getfield len 100 3 rest
    if rest = [] then return (s, rest)
    let (strEncry, strAuth) ← getsecurity tmp c
    return ({ s with strEncry := strEncry, strAuth := strAuth }, rest)
  | .signal => do
    let (RSSI, rest) ← getfield len 10 4 rest
    return ({ s with RSSI := RSSI }, rest)
  | .mode => do
    let (_, rest) ← getfield len 100 5 rest
    return (s, rest)
  | .extch => do
    let (_, rest) ← getfield len 100 6 rest
    return (s, rest)
  | .nettype => do
    let (c, rest) ← getfield len 100 7 rest
    if rest = [] then return (s, rest)
    let NetworkType := if c = ascii "In" then ascii "Infrastructure" else ascii "Ad Hoc"
    match rest.dropWhile (! isEol ·) with
    | [] => throw .past_end
    | _ :: rest => return ({ s with NetworkType := NetworkType }, rest)

/-- One field after the other, up to the end of the text. -/
def readFields (tmp : List UInt8) (len : Nat) :
    List Field → List UInt8 → Info → Except Fault (Info × List UInt8)
  | [], rest, s => .ok (s, rest)
  | field :: fields, rest, s =>
    match readField tmp len rest s field with
    | .error f => .error f
    | .ok (s, rest) => if rest = [] then .ok (s, rest) else readFields tmp len fields rest s

def trimup_info (tmp : List UInt8) (len : Nat) (rest : List UInt8) (s : Info) :
    Except Fault (Info × List UInt8) :=
  readFields tmp len rowFields rest s

/-! ### The list -/

/-- The variables of the loop, and the rows that are shown. -/
structure Survey where
  rest : List UInt8
  info : Info
  shown : List Info

/-- A row with `SSID` is that of the titles.  A row at the end of the text is not shown. -/
def surveyTurn (tmp : List UInt8) (len : Nat) (s : Survey) : Except Fault Survey :=
  match trimup_info tmp len s.rest s.info with
  | .error f => .error f
  | .ok (info, rest) =>
    if info.SSID = ascii "SSID" ∨ rest = [] then .ok { s with rest := rest, info := info }
    else .ok ⟨rest, info, s.shown ++ [info]⟩

/-- The loop of `getsurveylist`, if it ends within so many turns.  `tmp k` is what the ten
bytes hold when the row is read that starts `k` characters before the end. -/
def surveyLoop (tmp : Nat → List UInt8) (len : Nat) : Nat → Survey → Option (Except Fault Survey)
  | 0, s => if s.rest = [] then some (.ok s) else none
  | turns + 1, s =>
    if s.rest = [] then some (.ok s)
    else
      match surveyTurn (tmp s.rest.length) len s with
      | .error f => some (.error f)
      | .ok s => surveyLoop tmp len turns s

/-! ### The table of the driver -/

def isSeparator (c : UInt8) : Bool := isEol c || c = comma

/-- The escape of a comma is undone. -/
def unescape (c : UInt8) : UInt8 := if c = 0xfa then comma else c

/-- The characters of a field of at most `n + 1` of them, line ends in front of it passed. -/
def fieldSource (n : Nat) (rest : List UInt8) : Text :=
  ((rest.dropWhile isEol).takeWhile (! isSeparator ·)).take (n + 1)

def fieldText (n : Nat) (rest : List UInt8) : Text := (fieldSource n rest).map unescape

/-- What is left behind the field, the commas behind it and a line end. -/
def fieldRest (n : Nat) (rest : List UInt8) : List UInt8 :=
  passEol (((rest.dropWhile isEol).drop (fieldSource n rest).length).dropWhile (· = comma))

/-- The field ends before the text does: there is a comma or a line end behind its start, or
it is cut. -/
def FieldEnds (n : Nat) (rest : List UInt8) : Prop :=
  n < (rest.dropWhile isEol).length ∨ ∃ c ∈ rest.dropWhile isEol, isSeparator c = true

instance (n : Nat) (rest : List UInt8) : Decidable (FieldEnds n rest) :=
  inferInstanceAs (Decidable (_ ∨ ∃ c ∈ rest.dropWhile isEol, isSeparator c = true))

theorem copyField_eq {para n size : Nat} (hlimit : limit para = some n) (hsize : n + 2 ≤ size)
    {i : Nat} (hi : i ≤ n) (t : List UInt8) :
    copyField size para i t =
      if n < i + t.length ∨ ∃ c ∈ t, isSeparator c = true then
        .ok (((t.takeWhile (! isSeparator ·)).take (n + 1 - i)).map unescape,
          t.drop ((t.takeWhile (! isSeparator ·)).take (n + 1 - i)).length)
      else .error .past_end := by
  induction t generalizing i with
  | nil =>
    have hend : ¬ (n < i + ([] : List UInt8).length ∨ ∃ c ∈ ([] : List UInt8), isSeparator c = true) := by
      simpa using hi
    rw [copyField, if_pos (by omega), if_neg hend]
  | cons ch t ih =>
    rw [copyField]
    cases hsep : isSeparator ch with
    | true =>
      have hstop : isEol ch = true ∨ ch = comma := by simpa [isSeparator] using hsep
      rw [if_pos hstop, if_pos (by omega), if_pos (.inr ⟨ch, List.mem_cons_self, hsep⟩)]
      simp [hsep]
    | false =>
      have hgo : ¬ (isEol ch = true ∨ ch = comma) := by simpa [isSeparator] using hsep
      have htake : (ch :: t).takeWhile (! isSeparator ·) = ch :: t.takeWhile (! isSeparator ·) := by
        simp [hsep]
      rw [if_neg hgo, if_neg (by omega), htake]
      by_cases hlong : i = n
      · -- the field is cut behind this character
        subst hlong
        have hcut : is_too_long para (i + 1) = true := by simp [is_too_long, hlimit]
        simp only [hcut, if_true]
        have hends : i < i + (ch :: t).length ∨ ∃ c ∈ ch :: t, isSeparator c = true := .inl (by simp)
        rw [if_pos (by omega : i + 1 < size), if_pos hends]
        simp [unescape]
      · have hmore : is_too_long para (i + 1) = false := by
          simp only [is_too_long, hlimit, decide_eq_false_iff_not]
          omega
        have hroom : n + 1 - i = (n + 1 - (i + 1)) + 1 := by omega
        simp only [hmore, Bool.false_eq_true, if_false]
        rw [ih (by omega), hroom, List.take_succ_cons]
        have hends : (n < i + 1 + t.length ∨ ∃ c ∈ t, isSeparator c = true) ↔
            (n < i + (ch :: t).length ∨ ∃ c ∈ ch :: t, isSeparator c = true) := by
          rw [List.length_cons, List.exists_mem_cons_iff, hsep]
          simp [Nat.add_assoc, Nat.add_comm 1]
        by_cases h : n < i + 1 + t.length ∨ ∃ c ∈ t, isSeparator c = true
        · rw [if_pos h, if_pos (hends.mp h)]
          rfl
        · rw [if_neg h, if_neg (mt hends.mpr h)]

theorem passCommas_eq {len i : Nat} {rest : List UInt8} (h : i + rest.length ≤ len) :
    passCommas len i rest = rest.dropWhile (· = comma) := by
  induction rest generalizing i with
  | nil => rfl
  | cons ch rest ih =>
    rw [List.length_cons] at h
    rw [passCommas]
    by_cases hch : ch = comma
    · subst hch
      rw [if_pos ⟨by decide, rfl⟩, List.dropWhile_cons_of_pos (by simp)]
      split
      · -- the last character of the text
        obtain rfl := List.eq_nil_of_length_eq_zero (by omega : rest.length = 0)
        rfl
      · exact ih (by omega)
    · rw [if_neg (fun hstop => hch hstop.2), List.dropWhile_cons_of_neg (by simpa using hch)]

/-- `getfield` reads a field that ends, and otherwise goes past the end of the text. -/
theorem getfield_eq {para n size len : Nat} (hlimit : limit para = some n) (hsize : n + 2 ≤ size)
    {rest : List UInt8} (hlen : rest.length ≤ len) :
    getfield len size para rest =
      if FieldEnds n rest then .ok (fieldText n rest, fieldRest n rest) else .error .past_end := by
  have hcopy := copyField_eq hlimit hsize (Nat.zero_le n) (rest.dropWhile isEol)
  rw [Nat.sub_zero, Nat.zero_add] at hcopy
  by_cases h : FieldEnds n rest
  · have hplace : (fieldText n rest).length +
        ((rest.dropWhile isEol).drop (fieldSource n rest).length).length ≤ len := by
      have htake : (fieldSource n rest).length ≤ (rest.dropWhile isEol).length :=
        (List.length_take_le' _ _).trans (List.takeWhile_sublist _).length_le
      have hdrop := (List.dropWhile_sublist (l := rest) isEol).length_le
      rw [fieldText, List.length_map, List.length_drop]
      omega
    have hpass := passCommas_eq hplace
    have hfield := hcopy.trans (if_pos h)
    rw [getfield, hfield, if_pos h]
    dsimp only
    rw [fieldRest, ← hpass]
    rfl
  · have hfield := hcopy.trans (if_neg h)
    rw [getfield, hfield, if_neg h]

end AksFirmware.SiteSurvey
