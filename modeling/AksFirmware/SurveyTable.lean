import AksFirmware.SurveyScan
import Mathlib.Data.List.DropRight

/-!
# The table of the survey

A row of the driver's table holds its values in columns padded with blanks.
`wscan_trimup_info_table` says what text with commas the table is converted to, and
`Readable` for which rows.

`left_is_blank` is not part of the program.  It is taken to compare characters with blanks;
`sense` says which result it gives when they all are.  The loop needs a zero then: with the
other sense an SSID is taken only if it fills its column without a blank, or is not there.
-/

namespace AksFirmware.SurveyTable

open ByteMemory CText SiteSurvey

/-! ### Tables -/

/-- `gap` is the number of blanks behind a column; that of the SSID has 32 characters. -/
structure Row where
  channel : Nat
  ssid : Text
  bssid : Text
  security : Text
  signal : Text
  mode : Text
  extch : Text
  nettype : Text
  gap : Field → Nat
  eol : Text

def blanks (n : Nat) : Text := List.replicate n blank

/-- The columns behind that of the SSID. -/
def Row.columns (r : Row) : List (Text × Nat) :=
  [(r.bssid, r.gap .bssid), (r.security, r.gap .security), (r.signal, r.gap .signal),
    (r.mode, r.gap .mode), (r.extch, r.gap .extch), (r.nettype, r.gap .nettype)]

def columnText (c : Text × Nat) : Text := c.1 ++ blanks c.2

def Row.text (r : Row) : Text :=
  decimal r.channel ++ blanks (r.gap .channel) ++
    (r.ssid ++ blanks (32 - r.ssid.length + r.gap .ssid)) ++
    r.columns.flatMap columnText ++ r.eol

def table (rows : List Row) : Text := rows.flatMap Row.text

/-- The SSID without the blanks at its end. -/
def Row.name (r : Row) : Text := r.ssid.rdropWhile (· = blank)

/-! ### Rows that come back -/

def isPlain (c : UInt8) : Bool := c ≠ 0 && c ≠ blank && c ≠ 0xfa && ! isEol c

/-- A value of a column, with room for it in its buffer. -/
structure Word (n : Nat) (w : Text) : Prop where
  ne_nil : w ≠ []
  plain : ∀ c ∈ w, isPlain c = true
  length_le : w.length ≤ n

/-- The names that are told from the others. -/
structure Named (sense : Bool) (r : Row) : Prop where
  length_le : r.ssid.length ≤ 32
  clean : ∀ c ∈ r.ssid, c ≠ 0 ∧ c ≠ 0xfa ∧ isEol c = false
  front : r.ssid.head? ≠ some blank
  not_mac : is_mac_add r.name = false
  /-- A name is taken up to the end of its column. -/
  named : r.name ≠ [] → sense = true ∨ (r.name.length = 32 ∧ blank ∉ r.name)
  /-- The column behind a BSSID in the place of the name is taken for the rest of a name of
  32 characters. -/
  unnamed : r.name = [] → (r.gap .bssid ≥ 15 ↔ sense = true)

structure Readable (sense : Bool) (r : Row) : Prop where
  channel : r.channel < 0x80000000
  ssid : Named sense r
  bssid : Word 31 r.bssid
  mac : is_mac_add r.bssid = true
  security : Word 81 r.security
  encryption_length_le : (encryption r.security).length ≤ 10
  signal : Word 9 r.signal
  mode : Word 61 r.mode
  extch : Word 61 r.extch
  nettype : Word 61 r.nettype
  apart : ∀ field, field ≠ .nettype → 0 < r.gap field
  line : r.eol ≠ [] ∧ ∀ c ∈ r.eol, isEol c = true

theorem isPlain_iff {c : UInt8} :
    isPlain c = true ↔ c ≠ 0 ∧ c ≠ blank ∧ c ≠ 0xfa ∧ isEol c = false := by
  simp [isPlain, and_assoc]

section Writing

variable {left_is_blank : List UInt8 → Int → Int} {par w_len : Int} {rest : List UInt8} {out : Text}

theorem Word.head {n : Nat} {w : Text} (hw : Word n w) (t : Text) : (w ++ t).head? ≠ some blank := by
  obtain ⟨c, w', rfl⟩ := List.exists_cons_of_ne_nil hw.ne_nil
  simpa using (isPlain_iff.mp (hw.plain c List.mem_cons_self)).2.1

end Writing

end AksFirmware.SurveyTable
