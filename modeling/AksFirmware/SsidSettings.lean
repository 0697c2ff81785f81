import Mathlib.Logic.Function.Basic
import AksFirmware.WebConfig
import AksFirmware.Runs
import AksFirmware.SeparatedText

/-!
# The settings of several SSIDs

`mBSSID` holds the settings of up to four BSSIDs.  `save_mbss_value_to_flash` writes most
members as one list for the enabled entries, with semicolons between the items, and the texts
that may be long into an entry each; `parse_config_file` reads them again.  Both go through
the members one block of code after the other, and the blocks differ only in the ids, the
member and the text that stands in for an empty one: they are listed here in the order of the
source.

The driver version that both functions ask for is overwritten by 2, and the branches for the
old drivers are never taken.  The peers of the wireless distribution system, a table of their
own, are left out.
-/

namespace AksFirmware.SsidSettings

open ByteMemory CText WebConfig Runs SeparatedText

/-! ### The table -/

/-- A text in an array of `n` bytes. -/
structure Str (n : Nat) where
  val : Text
  fits : val.length < n
  clean : (0 : UInt8) ∉ val

theorem Str.ext {n : Nat} {a b : Str n} (h : a.val = b.val) : a = b := by
  cases a
  cases b
  cases h
  rfl

/-- `sprintf(a, "%s", s)` into an array of `n` bytes. -/
def intoArray (n : Nat) (s : Text) : Option (Str n) :=
  if h : s.length < n ∧ (0 : UInt8) ∉ s then some ⟨s, h.1, h.2⟩ else none

inductive IntMember where
  | enable | SecurityMode | DefaultKeyID | Key1Type | Key2Type | Key3Type | Key4Type
  | IEEE8021X | WapiKeyType | TxRate | HideSSID | PreAuth | RekeyInterval | PMKCachePeriod
  | VlanId | VlanPriority | radius_port
deriving DecidableEq

inductive TextMember where
  | SSID | AuthMode | EncrypType | WPAPSK | Key1Str | Key2Str | Key3Str | Key4Str | WapiKey
  | RekeyMethod | VlanName | radius_server | radius_secret
deriving DecidableEq

def TextMember.size : TextMember → Nat
  | .SSID => 33
  | .AuthMode => 14
  | .EncrypType => 8
  | .WPAPSK => 65
  | .Key1Str => 27
  | .Key2Str => 27
  | .Key3Str => 27
  | .Key4Str => 27
  | .WapiKey => 65
  | .RekeyMethod => 8
  | .VlanName => 20
  | .radius_server => 16
  | .radius_secret => 65

/-- The members of `multi_ssid_s` that are saved or read. -/
inductive Member where
  | int (f : IntMember)
  | text (f : TextMember)
deriving DecidableEq

abbrev Member.Value : Member → Type
  | .int _ => Int32
  | .text f => Str f.size

abbrev MultiSsid := (m : Member) → m.Value

/-- `mBSSID`, of which the entries 0 to 3 exist. -/
abbrev Table := Nat → MultiSsid

def Table.set (t : Table) (i : Nat) (m : Member) (v : m.Value) : Option Table :=
  if i < 4 then some (Function.update t i (Function.update (t i) m v)) else none

/-! ### The configuration -/

/-- The stored texts.  The readers have 255 bytes for each, and a longer text has no outcome. -/
abbrev Cfg := Nat → Option (Str 255)

def CFG_set (cfg : Cfg) (w : Nat × Text) : Option Cfg :=
  (intoArray 255 w.2).map fun v => Function.update cfg w.1 (some v)

/-- What `val` holds behind the call; a missing entry leaves it alone. -/
def CFG_get_str (cfg : Cfg) (id : Nat) (val : Text) : Text :=
  match cfg id with
  | some s => s.val
  | none => val

def CFG_WLN_ (idx type : Nat) : Nat := CFG_ID_ 4 idx type 0

def CFG_WLN_RADIUS_Server : Nat := CFG_WLN_ 27 CFG_TYPE_STR
def CFG_WLN_RADIUS_Port : Nat := CFG_WLN_ 28 CFG_TYPE_STR
def CFG_WLN_TxRate : Nat := CFG_WLN_ 27 CFG_TYPE_INT
def CFG_WLN_HideSSID : Nat := CFG_WLN_ 53 CFG_TYPE_STR
def CFG_WLN_BssidNum : Nat := CFG_WLN_ 54 CFG_TYPE_INT
def CFG_WLN_DefaultKeyID : Nat := CFG_WLN_ 58 CFG_TYPE_STR
def CFG_WLN_EncrypType : Nat := CFG_WLN_ 73 CFG_TYPE_STR
def CFG_WLN_SecurityMode : Nat := CFG_WLN_ 129 CFG_TYPE_STR
def CFG_WLN_VLANName : Nat := CFG_WLN_ 131 CFG_TYPE_STR
def CFG_WLN_VLANID : Nat := CFG_WLN_ 132 CFG_TYPE_INT
def CFG_WLN_VLANPriority : Nat := CFG_WLN_ 133 CFG_TYPE_INT
def CFG_WLN_IEEE8021X : Nat := CFG_WLN_ 147 CFG_TYPE_STR
def CFG_WLN_PreAuth : Nat := CFG_WLN_ 149 CFG_TYPE_STR
def CFG_WLN_AuthMode : Nat := CFG_WLN_ 150 CFG_TYPE_STR
def CFG_WLN_RekeyInterval : Nat := CFG_WLN_ 151 CFG_TYPE_STR
def CFG_WLN_RekeyMethod : Nat := CFG_WLN_ 152 CFG_TYPE_STR
def CFG_WLN_PMKCachePeriod : Nat := CFG_WLN_ 153 CFG_TYPE_STR
def CFG_WLN_Key1Type : Nat := CFG_WLN_ 155 CFG_TYPE_STR
def CFG_WLN_Key2Type : Nat := CFG_WLN_ 157 CFG_TYPE_STR
def CFG_WLN_Key3Type : Nat := CFG_WLN_ 159 CFG_TYPE_STR
def CFG_WLN_Key4Type : Nat := CFG_WLN_ 161 CFG_TYPE_STR
def CFG_WLN_NewVersion : Nat := CFG_WLN_ 178 CFG_TYPE_INT
def CFG_WLN_WapiPskType : Nat := CFG_WLN_ 203 CFG_TYPE_INT

/-- The ids of the texts that have an entry for each BSSID, such as `CFG_WLN_SSID1` to
`CFG_WLN_SSID4`. -/
def numbered : List Nat → List Nat := List.map (CFG_WLN_ · CFG_TYPE_STR)

def CFG_WLN_SSID : List Nat := numbered [60, 179, 180, 181]
def CFG_WLN_WPAPSK : List Nat := numbered [154, 184, 185, 186]
def CFG_WLN_Key1Str : List Nat := numbered [156, 188, 189, 190]
def CFG_WLN_Key2Str : List Nat := numbered [158, 192, 193, 194]
def CFG_WLN_Key3Str : List Nat := numbered [160, 196, 197, 198]
def CFG_WLN_Key4Str : List Nat := numbered [162, 200, 201, 202]
def CFG_WLN_WapiPsk : List Nat := numbered [204, 205, 206, 207]
def CFG_WLN_RADIUS_Key : List Nat := numbered [208, 209, 210, 211]

/-! ### Saving -/

/-- What `%d` prints. -/
def printInt (n : Int32) : Text :=
  if n.toInt < 0 then 0x2d :: decimal n.toInt.natAbs else decimal n.toInt.natAbs

def printValue : (m : Member) → m.Value → Text
  | .int _, n => printInt n
  | .text _, s => s.val

/-- A text, or another one for the empty text. -/
def substitute (instead s : Text) : Text := if s = [] then instead else s

/-- A block of `save_mbss_value_to_flash`: a member and what is saved for an empty text. -/
inductive SaveBlock where
  | list (id : Nat) (m : Member) (instead : Text)
  | each (ids : List Nat) (f : TextMember) (instead : Text)
deriving DecidableEq

/-- The numbers of the entries with `enable == 1`. -/
def enabled (t : Table) : List Nat := (List.range 4).filter fun i => t i (.int .enable) = 1

/-- The calls of `CFG_set` in a block; a list loses the semicolon behind its last item. -/
def SaveBlock.writes (t : Table) : SaveBlock → List (Nat × Text)
  | .list id m instead =>
      [(id, joined 0x3b ((enabled t).map fun i => substitute instead (printValue m (t i m))))]
  | .each ids f instead =>
      (enabled t).map fun i => (ids.getD i 0, substitute instead (t i (.text f)).val)

/-- The blocks in front of the test for `save_level == 0`. -/
def basicBlocks : List SaveBlock :=
  [.each CFG_WLN_SSID .SSID [],
    .list CFG_WLN_HideSSID (.int .HideSSID) [],
    .list CFG_WLN_VLANName (.text .VlanName) [],
    .list CFG_WLN_VLANID (.int .VlanId) [],
    .list CFG_WLN_VLANPriority (.int .VlanPriority) []]

/-- The blocks behind it.  The one for `TxRate` is commented out. -/
def securityBlocks : List SaveBlock :=
  [.list CFG_WLN_SecurityMode (.int .SecurityMode) [],
    .list CFG_WLN_AuthMode (.text .AuthMode) [],
    .list CFG_WLN_EncrypType (.text .EncrypType) [],
    .each CFG_WLN_WPAPSK .WPAPSK (ascii "0"),
    .list CFG_WLN_DefaultKeyID (.int .DefaultKeyID) [],
    .list CFG_WLN_Key1Type (.int .Key1Type) [],
    .each CFG_WLN_Key1Str .Key1Str (ascii "0"),
    .list CFG_WLN_Key2Type (.int .Key2Type) [],
    .each CFG_WLN_Key2Str .Key2Str (ascii "0"),
    .list CFG_WLN_Key3Type (.int .Key3Type) [],
    .each CFG_WLN_Key3Str .Key3Str (ascii "0"),
    .list CFG_WLN_Key4Type (.int .Key4Type) [],
    .each CFG_WLN_Key4Str .Key4Str (ascii "0"),
    .list CFG_WLN_WapiPskType (.int .WapiKeyType) [],
    .each CFG_WLN_WapiPsk .WapiKey (ascii "0"),
    .list CFG_WLN_IEEE8021X (.int .IEEE8021X) [],
    .list CFG_WLN_PreAuth (.int .PreAuth) [],
    .list CFG_WLN_PMKCachePeriod (.int .PMKCachePeriod) [],
    .list CFG_WLN_RekeyMethod (.text .RekeyMethod) (ascii "DISABLE"),
    .list CFG_WLN_RekeyInterval (.int .RekeyInterval) [],
    .list CFG_WLN_RADIUS_Server (.text .radius_server) (ascii "0"),
    .list CFG_WLN_RADIUS_Port (.int .radius_port) [],
    .each CFG_WLN_RADIUS_Key .radius_secret []]

def savedBlocks (save_level : Int) : List SaveBlock :=
  if save_level = 0 then basicBlocks else basicBlocks ++ securityBlocks

/-- The configuration behind the calls of `CFG_set`.  Without an enabled entry the byte in
front of `tmp_buffer` is written, which has no outcome. -/
def save_mbss_value_to_flash (save_level : Int) (mBSSID : Table) (cfg : Cfg) : Option Cfg :=
  if enabled mBSSID = [] then none
  else
    exec CFG_set cfg
      ((CFG_WLN_NewVersion, ascii "2") :: (savedBlocks save_level).flatMap (·.writes mBSSID))

/-! ### Reading -/

/-- The table, the array `val`, and the flags that the return code is made of. -/
structure ParseState where
  mBSSID : Table
  val : Text
  wake_up_dot1x : Bool
  start_uam : Bool
  wake_up_wapid : Bool

/-- What an empty text stands for: a text that is read like a stored one, or a value that goes
straight to the first entry. -/
inductive EmptyText where
  | text (s : Text)
  | first (s : Text)
deriving DecidableEq

/-- A block of `parse_config_file`: a member, what an empty text stands for, and whether the
loop asks for `i < bssid_num`. -/
inductive ParseBlock where
  | ssid
  | list (id : Nat) (m : Member) (empty : EmptyText) (bounded : Bool)
  | each (ids : List Nat) (f : TextMember)
deriving DecidableEq

def readValue : (m : Member) → Text → Option m.Value
  | .int _, tok => some (Int32.ofInt (atoi tok))
  | .text f, tok => intoArray f.size tok

/-- The flags that a value of a member sets. -/
def ParseState.flag (s : ParseState) (m : Member) (tok : Text) : ParseState :=
  match m with
  | .int .SecurityMode => if atoi tok = 4 then { s with start_uam := true } else s
  | .int .IEEE8021X => if atoi tok = 1 then { s with wake_up_dot1x := true } else s
  | .text .AuthMode =>
      if tok = ascii "WPA" ∨ tok = ascii "WPA2" ∨ tok = ascii "WPA1WPA2" then
        { s with wake_up_dot1x := true }
      else if tok = ascii "WAIPSK" ∨ tok = ascii "WAICERT" then { s with wake_up_wapid := true }
      else s
  | _ => s

/-- A value of a member is written to an entry. -/
def ParseState.put (m : Member) (i : Nat) (tok : Text) (s : ParseState) : Option ParseState := do
  let v ← readValue m tok
  let t ← s.mBSSID.set i m v
  some ({ s with mBSSID := t }.flag m tok)

/-- A loop that counts along with a list. -/
def forEach {α : Type} (body : Nat → α → ParseState → Option ParseState) :
    Nat → List α → ParseState → Option ParseState
  | _, [], s => some s
  | i, a :: as, s => (body i a s).bind (forEach body (i + 1) as)

/-- The text of an entry goes through `val`, which is not cleared in between. -/
def getNumbered (cfg : Cfg) (ids : List Nat) (f : TextMember) (empty : Nat → Text) (i : Nat)
    (s : ParseState) : Option ParseState :=
  let val := if i < 4 then CFG_get_str cfg (ids.getD i 0) s.val else s.val
  { s with val := val }.put (.text f) i (substitute (empty i) val)

def ssidDefault (i : Nat) : Text := ascii "Ralink-eCosAP" ++ decimal (i + 1)

def ParseBlock.run (cfg : Cfg) (bssid_num : Nat) (s : ParseState) :
    ParseBlock → Option ParseState
  | .ssid =>
      forEach (fun i _ s => do
          let t ← s.mBSSID.set i (.int .enable) 1
          getNumbered cfg CFG_WLN_SSID .SSID ssidDefault i { s with mBSSID := t })
        0 (List.range bssid_num) s
  | .list id m empty bounded =>
      let val := CFG_get_str cfg id []
      let s := { s with val := val }
      let body := fun i tok s => if bounded = true ∧ bssid_num ≤ i then some s else s.put m i tok
      match empty with
      | .text default => forEach body 0 (tokens 0x3b (substitute default val)) s
      | .first default => if val = [] then s.put m 0 default else forEach body 0 (tokens 0x3b val) s
  | .each ids f =>
      forEach (fun i _ => getNumbered cfg ids f (fun _ => []) i) 0 (List.range bssid_num) s

def parseBlocks : List ParseBlock :=
  [.ssid,
    .list CFG_WLN_HideSSID (.int .HideSSID) (.text (ascii "0")) true,
    .list CFG_WLN_TxRate (.int .TxRate) (.text (ascii "0")) true,
    .list CFG_WLN_SecurityMode (.int .SecurityMode) (.text (ascii "0")) true,
    .list CFG_WLN_AuthMode (.text .AuthMode) (.text (ascii "OPEN")) true,
    .list CFG_WLN_EncrypType (.text .EncrypType) (.text (ascii "NONE")) true,
    .each CFG_WLN_WPAPSK .WPAPSK,
    .list CFG_WLN_DefaultKeyID (.int .DefaultKeyID) (.text (ascii "1")) true,
    .list CFG_WLN_Key1Type (.int .Key1Type) (.text (ascii "0")) true,
    .each CFG_WLN_Key1Str .Key1Str,
    .list CFG_WLN_Key2Type (.int .Key2Type) (.text (ascii "0")) true,
    .each CFG_WLN_Key2Str .Key2Str,
    .list CFG_WLN_Key3Type (.int .Key3Type) (.text (ascii "0")) true,
    .each CFG_WLN_Key3Str .Key3Str,
    .list CFG_WLN_Key4Type (.int .Key4Type) (.text (ascii "0")) true,
    .each CFG_WLN_Key4Str .Key4Str,
    .list CFG_WLN_WapiPskType (.int .WapiKeyType) (.text (ascii "0")) true,
    .each CFG_WLN_WapiPsk .WapiKey,
    .list CFG_WLN_IEEE8021X (.int .IEEE8021X) (.text (ascii "0")) true,
    .list CFG_WLN_PreAuth (.int .PreAuth) (.text (ascii "0")) true,
    .list CFG_WLN_PMKCachePeriod (.int .PMKCachePeriod) (.text (ascii "10")) true,
    .list CFG_WLN_RekeyMethod (.text .RekeyMethod) (.text (ascii "DISABLE")) true,
    .list CFG_WLN_RekeyInterval (.int .RekeyInterval) (.text (ascii "3600")) true,
    .list CFG_WLN_VLANName (.text .VlanName) (.text (ascii "ralink-vlan0")) false,
    .list CFG_WLN_VLANID (.int .VlanId) (.text (ascii "0")) false,
    .list CFG_WLN_VLANPriority (.int .VlanPriority) (.text (ascii "0")) false,
    .list CFG_WLN_RADIUS_Server (.text .radius_server) (.first []) true,
    .list CFG_WLN_RADIUS_Port (.int .radius_port) (.first (ascii "1812")) true,
    .each CFG_WLN_RADIUS_Key .radius_secret]

/-- `bssid_num`, as far as the loops can tell. -/
def bssidNum (val : Text) : Nat := if val = [] then 1 else (atoi val).toNat

def returnCode (s : ParseState) : Int :=
  match s.wake_up_dot1x, s.start_uam, s.wake_up_wapid with
  | true, false, false => 2
  | false, true, false => 3
  | false, false, true => 5
  | true, true, false => 4
  | true, false, true => 6
  | _, _, _ => 1

/-- The table and the return code. -/
def parse_config_file (mBSSID : Table) (cfg : Cfg) : Option (Table × Int) := do
  let cfg ← CFG_set cfg (CFG_WLN_NewVersion, ascii "2")
  let val := CFG_get_str cfg CFG_WLN_BssidNum []
  let s ← exec (ParseBlock.run cfg (bssidNum val)) ⟨mBSSID, val, false, false, false⟩ parseBlocks
  some (s.mBSSID, returnCode s)

end AksFirmware.SsidSettings
