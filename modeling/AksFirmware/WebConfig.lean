import AksFirmware.CText

/-!
# The configuration record

`g_web_config` is one packed record of byte arrays (`WEB_DATA_T`).  It is kept as
a byte-addressed object, because the setters copy texts of any length to the
start of an array and the checksum runs over the whole record.

`ratpac_get_str` and `ratpac_set_str` are switches over configuration ids.  Each
switch is a table from the id to the array it names and to the size limit of its
`snprintf`, if it has one; the tables list the cases in the order of the source.
-/

namespace AksFirmware.WebConfig

open ByteMemory CText

/-! ### The layout of `WEB_DATA_T` -/

/-- The members of `WEB_DATA_T`. -/
inductive Field where
  | initFlag | name | universe | subnet | timopower | channelWidth | secondChannel
  | bitSetting | gaffer_enb | gaffer_sub | gaffer_univ | gaffer_lower | gaffer_upper
  | sacn_enb | sacn_universe | protname | led_color | led_g | led_b | use_xlr
  | main_xlr | sort_by | magic
deriving DecidableEq, Repr

def Field.all : List Field :=
  [.initFlag, .name, .universe, .subnet, .timopower, .channelWidth, .secondChannel,
    .bitSetting, .gaffer_enb, .gaffer_sub, .gaffer_univ, .gaffer_lower, .gaffer_upper,
    .sacn_enb, .sacn_universe, .protname, .led_color, .led_g, .led_b, .use_xlr,
    .main_xlr, .sort_by, .magic]

def Field.size : Field → Nat
  | .initFlag => 1
  | .name => 20
  | .universe => 3
  | .subnet => 3
  | .timopower => 3
  | .channelWidth => 3
  | .secondChannel => 3
  | .bitSetting => 3
  | .gaffer_enb => 2
  | .gaffer_sub => 3
  | .gaffer_univ => 3
  | .gaffer_lower => 4
  | .gaffer_upper => 4
  | .sacn_enb => 2
  | .sacn_universe => 8
  | .protname => 2
  | .led_color => 8
  | .led_g => 8
  | .led_b => 8
  | .use_xlr => 2
  | .main_xlr => 2
  | .sort_by => 4
  | .magic => 2

def Field.offset : Field → Nat
  | .initFlag => 0
  | .name => 1
  | .universe => 21
  | .subnet => 24
  | .timopower => 27
  | .channelWidth => 30
  | .secondChannel => 33
  | .bitSetting => 36
  | .gaffer_enb => 39
  | .gaffer_sub => 41
  | .gaffer_univ => 44
  | .gaffer_lower => 47
  | .gaffer_upper => 51
  | .sacn_enb => 55
  | .sacn_universe => 57
  | .protname => 65
  | .led_color => 67
  | .led_g => 75
  | .led_b => 83
  | .use_xlr => 91
  | .main_xlr => 93
  | .sort_by => 95
  | .magic => 99

/-- `sizeof(WEB_DATA_T)`. -/
def WEB_DATA_SIZE : Nat := 101

/-- The record is packed: every member starts where the one before it ends. -/
theorem layout_packed :
    Field.all.foldl (fun next f => next.bind fun a =>
      if f.offset = a then some (a + f.size) else none) (some 0) = some WEB_DATA_SIZE := by
  decide

theorem Field.mem_all (f : Field) : f ∈ Field.all := by
  cases f <;> decide

theorem Field.end_le (f : Field) : f.offset + f.size ≤ WEB_DATA_SIZE := by
  cases f <;> decide

theorem Field.disjoint {f f' : Field} (h : f ≠ f') :
    f.offset + f.size ≤ f'.offset ∨ f'.offset + f'.size ≤ f.offset := by
  have hall : ∀ f ∈ Field.all, ∀ f' ∈ Field.all, f ≠ f' →
      f.offset + f.size ≤ f'.offset ∨ f'.offset + f'.size ≤ f.offset := by decide
  exact hall f f.mem_all f' f'.mem_all h

theorem exists_field_of_lt {x : Nat} (h : x < WEB_DATA_SIZE) :
    ∃ f : Field, f.offset ≤ x ∧ x < f.offset + f.size := by
  have hall : ∀ x < WEB_DATA_SIZE, ∃ f ∈ Field.all, f.offset ≤ x ∧ x < f.offset + f.size := by
    decide
  obtain ⟨f, _, hf⟩ := hall x h
  exact ⟨f, hf⟩

/-- The members that hold a text: all but the checksum and the magic number. -/
def Field.isText (f : Field) : Bool := f ≠ .initFlag && f ≠ .magic

/-- Every text ends inside its own array. -/
def TextsTerminated (g : Mem) : Prop :=
  ∀ f : Field, f.isText = true → Terminated g f.offset f.size

instance (g : Mem) : Decidable (TextsTerminated g) :=
  decidable_of_iff (∀ f ∈ Field.all, f.isText = true → Terminated g f.offset f.size)
    ⟨fun h f => h f f.mem_all, fun h f _ => h f⟩

/-! ### Configuration ids -/

def CFG_TYPE_INT : Nat := 1
def CFG_TYPE_STR : Nat := 2
def CFG_ID_WLN : Nat := 4
def CFG_ID_USER : Nat := 18

def CFG_ID_ (mod sub type i : Nat) : Nat :=
  (mod &&& 0xff) <<< 24 ||| (sub &&& 0xff) <<< 16 ||| (type &&& 0xff) <<< 8 ||| (i &&& 0xff)

def CFG_ID_TYPE (id : Nat) : Nat := (id >>> 8) &&& 0xff

def CFG_WLN_ (idx type : Nat) : Nat := CFG_ID_ CFG_ID_WLN idx type 0
def CFG_USER_ (idx type : Nat) : Nat := CFG_ID_ CFG_ID_USER idx type 0

def CFG_AKS_NAME : Nat := CFG_USER_ 1 CFG_TYPE_STR
def CFG_AKS_UNIVERSE : Nat := CFG_USER_ 2 CFG_TYPE_INT
def CFG_AKS_SUBNET : Nat := CFG_USER_ 3 CFG_TYPE_INT
def CFG_TIMO_POWER : Nat := CFG_USER_ 4 CFG_TYPE_INT
def CFG_AKS_SETTINGS : Nat := CFG_USER_ 5 CFG_TYPE_STR
def CFG_AKS_CHANNEL_WIDTH : Nat := CFG_USER_ 6 CFG_TYPE_INT
def CFG_AKS_SECOND_CHANNEL : Nat := CFG_USER_ 7 CFG_TYPE_INT
def CFG_GAFFER_UNIVERSE : Nat := CFG_USER_ 43 CFG_TYPE_INT
def CFG_GAFFER_SUBNET : Nat := CFG_USER_ 44 CFG_TYPE_INT
def CFG_GAFFER_ENABLE : Nat := CFG_USER_ 45 CFG_TYPE_INT
def CFG_GAFFER_LOWER : Nat := CFG_USER_ 46 CFG_TYPE_INT
def CFG_GAFFER_UPPER : Nat := CFG_USER_ 47 CFG_TYPE_INT
def CFG_SACN_OUTPUT : Nat := CFG_USER_ 65 CFG_TYPE_STR
def CFG_SACN_UNIV : Nat := CFG_USER_ 66 CFG_TYPE_STR
def CFG_LED_COLOR : Nat := CFG_USER_ 67 CFG_TYPE_STR
def CFG_PROTNAME : Nat := CFG_USER_ 69 CFG_TYPE_INT
def CFG_AKS_USE_XLR : Nat := CFG_USER_ 70 CFG_TYPE_STR
def CFG_AKS_MAIN_XLR : Nat := CFG_USER_ 71 CFG_TYPE_STR
def CFG_LED_G : Nat := CFG_USER_ 72 CFG_TYPE_STR
def CFG_LED_B : Nat := CFG_USER_ 73 CFG_TYPE_STR
def CFG_AKS_CONS_NUM : Nat := CFG_USER_ 74 CFG_TYPE_STR
def CFG_SORT_BY : Nat := CFG_USER_ 107 CFG_TYPE_STR

/-- The names that `UserCfgData.c` registers. -/
def cfg_userid_str_table : List (String × Nat) :=
  [("AKS_NAME", CFG_AKS_NAME), ("AKS_UNIVERSE", CFG_AKS_UNIVERSE),
    ("AKS_SUBNET", CFG_AKS_SUBNET), ("TIMO_POWER", CFG_TIMO_POWER),
    ("AKS_SETTINGS", CFG_AKS_SETTINGS), ("AKS_CHANNEL_WIDTH", CFG_AKS_CHANNEL_WIDTH),
    ("AKS_SECOND_CHANNEL", CFG_AKS_SECOND_CHANNEL), ("GAFFER_ENABLE", CFG_GAFFER_ENABLE),
    ("GAFFER_SUBNET", CFG_GAFFER_SUBNET), ("GAFFER_UNIVERSE", CFG_GAFFER_UNIVERSE),
    ("GAFFER_LOWER", CFG_GAFFER_LOWER), ("GAFFER_UPPER", CFG_GAFFER_UPPER)]

/-- The id of a registered name; an unknown name has none. -/
def CFG_str2id (name : String) : Nat := (cfg_userid_str_table.lookup name).getD 0

/-! ### Reading -/

structure Globals where
  g_web_config : Mem
  client_valid_num : Nat

/-- The text found in a member.  A member that is not terminated runs on into the
following ones, at most to the end of the record. -/
def fieldText (g : Mem) (f : Field) : Text := text g f.offset (WEB_DATA_SIZE - f.offset)

/-- The cases of `ratpac_get_str` that print a member of the record. -/
def getCases : List (Nat × Field × Option Nat) :=
  [(CFG_AKS_NAME, .name, none), (CFG_AKS_UNIVERSE, .universe, none),
    (CFG_AKS_SUBNET, .subnet, none), (CFG_GAFFER_ENABLE, .gaffer_enb, some 2),
    (CFG_GAFFER_UNIVERSE, .gaffer_univ, none), (CFG_GAFFER_SUBNET, .gaffer_sub, none),
    (CFG_GAFFER_LOWER, .gaffer_lower, none), (CFG_GAFFER_UPPER, .gaffer_upper, none),
    (CFG_TIMO_POWER, .timopower, none), (CFG_AKS_CHANNEL_WIDTH, .channelWidth, none),
    (CFG_AKS_SECOND_CHANNEL, .secondChannel, none), (CFG_SACN_OUTPUT, .sacn_enb, none),
    (CFG_SACN_UNIV, .sacn_universe, none), (CFG_PROTNAME, .protname, some 2),
    (CFG_LED_COLOR, .led_color, some 16), (CFG_LED_G, .led_g, some 16),
    (CFG_LED_B, .led_b, some 16), (CFG_AKS_USE_XLR, .use_xlr, some 2),
    (CFG_AKS_MAIN_XLR, .main_xlr, some 2), (CFG_SORT_BY, .sort_by, some 2)]

/-- A text under the size limit of its `snprintf`, or whole after a `sprintf`. -/
def limited : Option Nat → Text → Text
  | none, s => s
  | some k, s => clip k s

/-- The return code and the text left in `val`. -/
def ratpac_get_str (G : Globals) (id : Nat) : Int × Text :=
  let printed : Option Text :=
    match getCases.lookup id with
    | some (f, limit) => some (limited limit (fieldText G.g_web_config f))
    | none =>
        if id = CFG_AKS_CONS_NUM then some (clip 2 (decimal G.client_valid_num)) else none
  match printed with
  | none => (-1, [])
  | some [] => (0, ascii "0")
  | some s => (0, s)

/-! ### Writing -/

/-- The cases of `ratpac_set_str`. -/
def setCases : List (Nat × Field × Option Nat) :=
  [(CFG_AKS_NAME, .name, some 16), (CFG_AKS_UNIVERSE, .universe, none),
    (CFG_AKS_SUBNET, .subnet, none), (CFG_GAFFER_ENABLE, .gaffer_enb, none),
    (CFG_GAFFER_UNIVERSE, .gaffer_univ, none), (CFG_GAFFER_SUBNET, .gaffer_sub, none),
    (CFG_GAFFER_LOWER, .gaffer_lower, none), (CFG_GAFFER_UPPER, .gaffer_upper, none),
    (CFG_TIMO_POWER, .timopower, none), (CFG_AKS_CHANNEL_WIDTH, .channelWidth, none),
    (CFG_AKS_SECOND_CHANNEL, .secondChannel, none), (CFG_SACN_OUTPUT, .sacn_enb, none),
    (CFG_SACN_UNIV, .sacn_universe, none), (CFG_PROTNAME, .protname, none),
    (CFG_LED_COLOR, .led_color, none), (CFG_LED_G, .led_g, none),
    (CFG_LED_B, .led_b, none), (CFG_AKS_USE_XLR, .use_xlr, some 2),
    (CFG_AKS_MAIN_XLR, .main_xlr, some 2), (CFG_SORT_BY, .sort_by, some 2)]

/-- `sprintf(g_web_config.f, "%s", s)`: the copy starts at the member, wherever it ends. -/
def setField (g : Mem) (f : Field) (s : Text) : Mem := storeText g f.offset s

/-- The return code and the record after the call. -/
def ratpac_set_str (g : Mem) (id : Nat) (val : Text) : Int × Mem :=
  match setCases.lookup id with
  | some (f, limit) => (0, setField g f (limited limit val))
  | none => (-1, g)

/-! ### Texts that fit their member -/

theorem setField_other {g : Mem} {f f' : Field} {s : Text} (hlen : s.length < f.size)
    (hne : f' ≠ f) {i : Nat} (hi : i < f'.size) :
    setField g f s (f'.offset + i) = g (f'.offset + i) := by
  have hdisj := Field.disjoint hne
  exact storeText_of_outside g s (by omega)

theorem setField_terminated {g : Mem} {f : Field} {s : Text} (hlen : s.length < f.size)
    (h : TextsTerminated g) : TextsTerminated (setField g f s) := by
  intro f' hf'
  by_cases hne : f' = f
  · subst hne
    exact terminated_storeText g hlen
  · rw [terminated_congr fun i hi => setField_other hlen hne hi]
    exact h f' hf'

theorem fieldText_lt {g : Mem} {f : Field} (h : Terminated g f.offset f.size) :
    (fieldText g f).length < f.size := by
  have hend := f.end_le
  rw [fieldText, h.text_eq_of_le (by omega)]
  exact h.text_length_lt

theorem limited_length_le (limit : Option Nat) (s : Text) : (limited limit s).length ≤ s.length := by
  cases limit with
  | none => exact Nat.le_refl _
  | some k => exact List.length_take_le' (k - 1) s

/-- What `ratpac_get_str` prints fits an array as large as the member. -/
theorem ratpac_get_str_lt {G : Globals} {id : Nat} {f : Field} {limit : Option Nat}
    (hcase : getCases.lookup id = some (f, limit)) (hsize : 2 ≤ f.size)
    (h : Terminated G.g_web_config f.offset f.size) :
    (ratpac_get_str G id).2.length < f.size := by
  have hlen := Nat.lt_of_le_of_lt (limited_length_le limit _) (fieldText_lt h)
  simp only [ratpac_get_str, hcase]
  split
  · exact Nat.lt_of_lt_of_le (by decide) hsize
  · exact Nat.lt_of_lt_of_le (by decide : 1 < 2) hsize
  · rename_i heq
    rwa [Option.some.inj heq] at hlen

/-- The characters that `ratpac_get_str` prints are those of the member, or the zero it
prints for an empty one. -/
theorem mem_ratpac_get_str {G : Globals} {id : Nat} {f : Field} {limit : Option Nat}
    (hcase : getCases.lookup id = some (f, limit)) {c : UInt8}
    (h : c ∈ (ratpac_get_str G id).2) : c = 0x30 ∨ c ∈ fieldText G.g_web_config f := by
  have hlimited : ∀ s : Text, c ∈ limited limit s → c ∈ s := by
    cases limit with
    | none => exact fun _ hc => hc
    | some k => exact fun _ hc => List.mem_of_mem_take hc
  simp only [ratpac_get_str, hcase] at h
  split at h
  · exact nomatch h
  · exact .inl (List.mem_singleton.mp h)
  · rename_i heq
    exact .inr (hlimited _ (Option.some.inj heq ▸ h))

theorem zero_notMem_limited {limit : Option Nat} {s : Text} (h : (0 : UInt8) ∉ s) :
    (0 : UInt8) ∉ limited limit s := by
  cases limit with
  | none => exact h
  | some k => exact zero_notMem_clip h k

theorem zero_notMem_ratpac_get_str (G : Globals) (id : Nat) :
    (0 : UInt8) ∉ (ratpac_get_str G id).2 := by
  have hprinted : ∀ s, (match getCases.lookup id with
      | some (f, limit) => some (limited limit (fieldText G.g_web_config f))
      | none =>
          if id = CFG_AKS_CONS_NUM then some (clip 2 (decimal G.client_valid_num))
          else none) = some s → (0 : UInt8) ∉ s := by
    intro s hs
    split at hs
    · obtain rfl := Option.some.inj hs
      exact zero_notMem_limited (zero_notMem_text _ _ _)
    · obtain ⟨-, hs⟩ := Option.ite_none_right_eq_some.mp hs
      obtain rfl := Option.some.inj hs
      exact zero_notMem_clip (zero_notMem_decimal _) 2
  simp only [ratpac_get_str]
  split
  · exact List.not_mem_nil
  · decide
  · rename_i s _ hs
    exact hprinted s hs

end AksFirmware.WebConfig
