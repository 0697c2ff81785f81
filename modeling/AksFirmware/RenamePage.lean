import AksFirmware.ConfigRequests
import AksFirmware.ScriptText

/-!
# Renaming a node from the constellation page

`renameAksName` replaces the spaces of the typed name by question marks and puts the command
into a form as an attribute without quotes.  The browser sends the value of the attribute in
the encoding of the page, `CGI_do_cmd` looks for the command in it, and its `RENAME_AKS`
branch turns every question mark into a space.

A name survives this when it has no question mark of its own, nothing that ends the
attribute, no character reference, at most fifteen bytes, and not the name of a command that
`CGI_do_cmd` looks for first.
-/

namespace AksFirmware.RenamePage

open ByteMemory CText WebConfig ConfigFlash ConfigCommands ConfigRequests ScriptText

/-! ### The browser -/

/-- What the browser does to a text on its way to the server: `references` replaces the
character references in an attribute, each of which begins with an ampersand, and `encode`
is the encoding of a submitted form, which sends ASCII as it is. -/
structure Browser where
  references : List CodeUnit → List CodeUnit
  references_nil : references [] = []
  references_cons : ∀ c u, c ≠ 0x26 → references (c :: u) = c :: references u
  encode : List CodeUnit → Text
  encode_nil : encode [] = []
  encode_ascii : ∀ u c v, c.toNat < 0x80 → encode (u ++ c :: v) = encode u ++ c.toUInt8 :: encode v

/-- The units that end an attribute value without quotes. -/
def valueEnds : List CodeUnit := [0x09, 0x0a, 0x0c, 0x0d, 0x20, 0x3e]

/-- A zero in an attribute is shown as a replacement character. -/
def attributeUnit (c : CodeUnit) : CodeUnit := if c = 0 then 0xfffd else c

/-- The value of an attribute that is written without quotes and begins here. -/
def Browser.unquotedValue (B : Browser) (u : List CodeUnit) : List CodeUnit :=
  B.references ((u.takeWhile fun c => c ∉ valueEnds).map attributeUnit)

/-! ### The page -/

/-- `RENAME_AKS=` -/
def commandName : List CodeUnit :=
  [0x52, 0x45, 0x4e, 0x41, 0x4d, 0x45, 0x5f, 0x41, 0x4b, 0x53, 0x3d]

/-- `str.split(" ").join("?")` -/
def joined (str : List CodeUnit) : List CodeUnit := str.map fun c => if c = 0x20 then 0x3f else c

theorem joined_cons (c : CodeUnit) (u : List CodeUnit) :
    joined (c :: u) = (if c = 0x20 then 0x3f else c) :: joined u := rfl

/-- The command that `renameAksName` hands to `subForm`. -/
def renameAksName (str : List CodeUnit) : List CodeUnit := commandName ++ joined str

/-- The rest of the form in `frmHead` behind `<INPUT type=hidden name=CMD value=`, as far as
the end of the tag. -/
def frmHead (cmd : List CodeUnit) : List CodeUnit := cmd ++ [0x3e, 0x0a]

/-- What the browser submits: the constellation page has no settings of its own. -/
def Browser.submit (B : Browser) (cmd : List CodeUnit) : Request where
  CMD := some (B.encode (B.unquotedValue (frmHead cmd)))
  SET := fun _ => none

/-- The node stores the typed name, as the browser encodes it, whatever name it had. -/
def StoresName (P : Platform) (B : Browser) (name : List CodeUnit) : Prop :=
  ∀ s : ConfigStore, ∃ r, CGI_do_cmd P (B.submit (renameAksName name)) s = some r ∧
    fieldText r.store.g_web_config .name = B.encode name

/-! ### The encoding -/

section

variable (B : Browser)

theorem encode_cons {c : CodeUnit} (hc : c.toNat < 0x80) (u : List CodeUnit) :
    B.encode (c :: u) = c.toUInt8 :: B.encode u := by
  have hsplit := B.encode_ascii [] c u hc
  rwa [B.encode_nil] at hsplit

theorem encode_command (u : List CodeUnit) :
    B.encode (commandName ++ u) = ascii "RENAME_AKS=" ++ B.encode u := by
  simp only [commandName, List.cons_append, List.nil_append]
  repeat rw [encode_cons B (by decide)]
  rfl

theorem references_command (u : List CodeUnit) :
    B.references (commandName ++ u) = commandName ++ B.references u := by
  simp only [commandName, List.cons_append, List.nil_append]
  repeat rw [B.references_cons _ _ (by decide)]

theorem references_plain {u : List CodeUnit} (h : 0x26 ∉ u) : B.references u = u := by
  induction u with
  | nil => exact B.references_nil
  | cons c u ih =>
    obtain ⟨hc, hu⟩ := List.ne_and_not_mem_of_not_mem_cons h
    rw [B.references_cons c u (Ne.symm hc), ih hu]

/-- The question marks of the page and of the node are told apart by nothing. -/
def marksToSpaces (s : Text) : Text := s.map fun c => if c = 0x3f then 0x20 else c

theorem marksToSpaces_eq_self_iff {s : Text} : marksToSpaces s = s ↔ 0x3f ∉ s := by
  constructor
  · intro h hmem
    rw [← h] at hmem
    obtain ⟨c, -, heq⟩ := List.mem_map.mp hmem
    split at heq
    · cases heq
    · rename_i hne
      exact hne heq
  · intro h
    have hbyte : ∀ c ∈ s, (if c = 0x3f then 0x20 else c) = id c := by
      intro c hc
      refine if_neg ?_
      rintro rfl
      exact h hc
    rw [marksToSpaces, List.map_congr_left hbyte, List.map_id]

/-- Encoding a name and encoding it with question marks for its spaces gives the same bytes
once the question marks are spaces. -/
theorem marks_of_joined (u : List CodeUnit) :
    marksToSpaces (B.encode (joined u)) = marksToSpaces (B.encode u) := by
  have hgeneral : ∀ (u before : List CodeUnit), 0x20 ∉ before →
      marksToSpaces (B.encode (before ++ joined u)) = marksToSpaces (B.encode (before ++ u)) := by
    intro u
    induction u with
    | nil => exact fun _ _ => rfl
    | cons c u ih =>
      intro before hbefore
      by_cases hc : c = 0x20
      · subst hc
        have hrest := ih [] List.not_mem_nil
        rw [List.nil_append, List.nil_append] at hrest
        rw [joined_cons, if_pos rfl, B.encode_ascii before _ _ (by decide),
          B.encode_ascii before _ _ (by decide), marksToSpaces, marksToSpaces, List.map_append,
          List.map_append, List.map_cons, List.map_cons]
        exact congrArg (List.map _ (B.encode before) ++ 0x20 :: ·) hrest
      · have hrest := ih (before ++ [c]) (by simp [hbefore, Ne.symm hc])
        rw [joined_cons, if_neg hc]
        simpa only [List.append_assoc, List.singleton_append] using hrest
  exact hgeneral u [] List.not_mem_nil

end

/-! ### The command in the node -/

/-- `CGI_do_cmd` finds no other command before `RENAME_AKS`. -/
def NoCommand (s : Text) : Prop :=
  strstr s (ascii "SET_UNIVERSE") = false ∧ strstr s (ascii "SET_PROTO_UNIVERSE") = false

instance (s : Text) : Decidable (NoCommand s) := by unfold NoCommand; infer_instance

def command (s : Text) : Text := ascii "RENAME_AKS=" ++ s

theorem strstr_command {needle : Text} (hne : needle ≠ []) (hc : (0x3d : UInt8) ∉ needle)
    (hname : strstr (ascii "RENAME_AKS") needle = false) (s : Text) :
    strstr (command s) needle = strstr s needle := by
  have hsplit : command s = ascii "RENAME_AKS" ++ 0x3d :: s := rfl
  have hname : ¬ needle <:+: ascii "RENAME_AKS" := of_decide_eq_false hname
  rw [strstr, strstr, hsplit]
  simp only [infix_around hne hc, hname, false_or]

theorem handlerOf_command (s : Text) :
    handlerOf (command s) =
      if strstr s (ascii "SET_UNIVERSE") then some .SET_UNIVERSE
      else if strstr s (ascii "SET_PROTO_UNIVERSE") then some .SET_PROTO_UNIVERSE
      else some .RENAME_AKS := by
  have hrename : strstr (command s) (ascii "RENAME_AKS") = true :=
    decide_eq_true ((List.prefix_append (ascii "RENAME_AKS") (0x3d :: s)).isInfix)
  have hset : strstr (command s) (ascii "SET_UNIVERSE") = strstr s (ascii "SET_UNIVERSE") :=
    strstr_command (by decide) (by decide) (by decide) s
  have hproto : strstr (command s) (ascii "SET_PROTO_UNIVERSE") =
      strstr s (ascii "SET_PROTO_UNIVERSE") :=
    strstr_command (by decide) (by decide) (by decide) s
  simp only [handlerOf, Handler.all, List.find?_cons, Handler.name, hset, hproto, hrename]
  cases strstr s (ascii "SET_UNIVERSE") with
  | true => rfl
  | false =>
    cases strstr s (ascii "SET_PROTO_UNIVERSE") with
    | true => rfl
    | false => rfl

/-- The platform's own commands have no argument, so none of them is taken. -/
theorem CGI_do_cmd_command {P : Platform} (hP : ∀ cmd, 0x3d ∈ cmd → P.ps_cgi_cmds cmd = none)
    (name : Text) (s : ConfigStore) :
    CGI_do_cmd P ⟨some (command name), fun _ => none⟩ s =
      if strstr name (ascii "SET_UNIVERSE") then SET_UNIVERSE (command name) s
      else if strstr name (ascii "SET_PROTO_UNIVERSE") then SET_PROTO_UNIVERSE (command name) s
      else RENAME_AKS (command name) s := by
  have harg : (0x3d : UInt8) ∈ command name := List.mem_append_left _ (by decide)
  have hdirect : command name ∉ direct := by
    intro h
    have hall : ∀ cmd ∈ direct, (0x3d : UInt8) ∉ cmd := by decide
    exact hall _ h harg
  have hrefresh : command name ≠ ascii "CONSTELLATION_REFRESH" := by
    intro h
    rw [h] at harg
    exact absurd harg (by decide)
  have hsets : (⟨some (command name), fun _ => none⟩ : Request).sets = [] := rfl
  simp only [CGI_do_cmd, if_neg hdirect, hP _ harg, Option.getD_none, hsets, setLoop,
    if_neg hrefresh, handlerOf_command]
  cases strstr name (ascii "SET_UNIVERSE") with
  | true => rfl
  | false =>
    cases strstr name (ascii "SET_PROTO_UNIVERSE") with
    | true => rfl
    | false => rfl

theorem RENAME_AKS_command (name : Text) (s : ConfigStore) :
    RENAME_AKS (command name) s =
      if name.length < 24 then some (ok (saveAll s [(CFG_AKS_NAME, marksToSpaces name)])) else none := by
  have hcut : cut 0x3d (command name) = some (ascii "RENAME_AKS", name) := rfl
  rw [RENAME_AKS, withArgument, hcut]
  dsimp only
  rw [stackText]
  split <;> rfl

/-! ### The stored name -/

theorem fieldText_rename (s : ConfigStore) (name : Text) :
    fieldText (saveAll s [(CFG_AKS_NAME, name)]).g_web_config .name =
      (clip 16 name).takeWhile (· ≠ 0) := by
  have hshort : (clip 16 name).length < WEB_DATA_SIZE - Field.offset .name :=
    Nat.lt_trans (clip_length_lt (by decide) name) (by decide)
  have hset : setAll s.g_web_config [(CFG_AKS_NAME, name)] =
      setField s.g_web_config .name (clip 16 name) := rfl
  rw [← (holdsText_storeText s.g_web_config (Field.offset .name) (clip 16 name)).text_takeWhile
    hshort]
  apply text_congr
  intro i _
  rw [saveAll, write_keeps _ (by simp only [Field.offset]; omega), hset]
  rfl

/-- The other commands only write behind the name. -/
theorem copies_behind {h : Handler} (hne : h ≠ .RENAME_AKS) (cmd : Text) :
    ∀ w ∈ (h.textsOf cmd).2.flatMap setCopy, 20 < w.1.offset := by
  have hfields : ∀ f ∈ h.fields, 20 < f.offset := by
    cases h with
    | RENAME_AKS => exact absurd rfl hne
    | SET_UNIVERSE | SET_PROTO_UNIVERSE | SET_SORT | SET_TIMO_POWER | SET_LED_COLOR
    | AUTO_SACN_UNIV | AUTO_ARTNET_UNIV => decide
  intro w hw
  obtain ⟨set, hset, hw⟩ := List.mem_flatMap.mp hw
  unfold Handler.textsOf at hset
  split at hset
  · cases hset
  · rename_i tmp1 _
    exact hfields _ (h.texts_field tmp1 set hset (setCopy_field hw))

theorem keeps_name {h : Handler} (hne : h ≠ .RENAME_AKS) {cmd : Text} {s : ConfigStore} {r : Reply}
    (hrun : h.run cmd s = some r)
    (hname : Terminated s.g_web_config (Field.offset .name) (Field.size .name)) :
    fieldText r.store.g_web_config .name = fieldText s.g_web_config .name := by
  have hbytes : ∀ i < Field.size .name, r.store.g_web_config (Field.offset .name + i) =
      s.g_web_config (Field.offset .name + i) := by
    intro i hi
    have hcopies := copies_behind hne cmd
    rw [Handler.run_store hrun]
    cases hsets : (h.textsOf cmd).2 with
    | nil => rfl
    | cons w sets =>
      rw [hsets] at hcopies
      rw [saveSets, saveAll_written s (w :: sets) _ (by simp only [Field.offset]; omega)]
      refine applyCopies_outside (fun v hv => .inl ?_) _
      have hbehind := hcopies v hv
      simp only [Field.offset, Field.size] at hi hbehind ⊢
      omega
  have hnew := (terminated_congr hbytes).mpr hname
  have hle : Field.size .name ≤ WEB_DATA_SIZE - Field.offset .name := by decide
  rw [fieldText, fieldText, hnew.text_eq_of_le hle, hname.text_eq_of_le hle, text_congr hbytes]

/-- A node with a name. -/
def named (name : Text) : ConfigStore := ⟨setField zeroed .name name, zeroed⟩

/-- What the node must have got when it stores the name, whatever name it had. -/
theorem command_of_stores {P : Platform} (hP : ∀ cmd, 0x3d ∈ cmd → P.ps_cgi_cmds cmd = none)
    {sent name : Text}
    (h : ∀ s, ∃ r, CGI_do_cmd P ⟨some (command sent), fun _ => none⟩ s = some r ∧
      fieldText r.store.g_web_config .name = name) :
    NoCommand sent ∧ name = (clip 16 (marksToSpaces sent)).takeWhile (· ≠ 0) := by
  have hother : ∀ handler : Handler, handler ≠ .RENAME_AKS →
      (∀ s, CGI_do_cmd P ⟨some (command sent), fun _ => none⟩ s = handler.run (command sent) s) →
        False := by
    intro handler hne hrun
    have hkept : ∀ old : Text, (0 : UInt8) ∉ old → old.length < 20 → name = old := by
      intro old hzero hlen
      obtain ⟨r, hr, hname⟩ := h (named old)
      rw [hrun] at hr
      rw [← hname, keeps_name hne hr (terminated_storeText zeroed hlen)]
      exact text_storeText zeroed hzero (Nat.lt_trans hlen (by decide))
    have hempty := hkept [] List.not_mem_nil (by decide)
    have hletter := hkept (ascii "A") (by decide) (by decide)
    rw [hempty] at hletter
    cases hletter
  simp only [CGI_do_cmd_command hP] at h hother
  cases huni : strstr sent (ascii "SET_UNIVERSE") with
  | true => exact absurd (fun s => if_pos huni) (hother .SET_UNIVERSE Handler.noConfusion)
  | false =>
    simp only [huni, Bool.false_eq_true, if_false] at h hother
    cases hproto : strstr sent (ascii "SET_PROTO_UNIVERSE") with
    | true => exact absurd (fun s => if_pos hproto) (hother .SET_PROTO_UNIVERSE Handler.noConfusion)
    | false =>
      refine ⟨⟨huni, hproto⟩, ?_⟩
      obtain ⟨r, hr, hname⟩ := h (named [])
      simp only [hproto, Bool.false_eq_true, if_false, RENAME_AKS_command] at hr
      obtain ⟨-, hr⟩ := Option.ite_none_right_eq_some.mp hr
      obtain rfl := Option.some.inj hr
      rw [← hname, ← fieldText_rename]
      rfl

/-! ### The whole way -/

/-- What a name must be like to be stored as it was typed. -/
structure Survives (B : Browser) (name : List CodeUnit) : Prop where
  zero : (0 : UInt8) ∉ B.encode name
  mark : (0x3f : UInt8) ∉ B.encode name
  short : (B.encode name).length ≤ 15
  ends : ∀ c ∈ name, c = 0x20 ∨ c ∉ valueEnds
  references : B.encode (B.references (joined name)) = B.encode (joined name)
  command : NoCommand (B.encode (joined name))

section

variable {B : Browser}

theorem zero_mem_encode {name : List CodeUnit} (h : 0 ∈ name) : (0 : UInt8) ∈ B.encode name := by
  obtain ⟨a, b, rfl⟩ := List.append_of_mem h
  rw [B.encode_ascii a 0 b (by decide)]
  exact List.mem_append_right _ List.mem_cons_self

theorem takeWhile_frmHead (str : List CodeUnit) :
    (frmHead (renameAksName str)).takeWhile (fun c => c ∉ valueEnds) =
      commandName ++ (joined str).takeWhile fun c => c ∉ valueEnds := by
  have hname : ∀ c ∈ commandName, decide (c ∉ valueEnds) = true :=
    List.all_eq_true.mp (by decide)
  rw [frmHead, renameAksName, List.append_assoc, List.takeWhile_append_of_pos hname]
  congr 1
  induction joined str with
  | nil => rfl
  | cons c u ih =>
    rw [List.cons_append, List.takeWhile_cons, List.takeWhile_cons, ih]

theorem mem_joined {name : List CodeUnit} {d : CodeUnit} (hd : d ≠ 0x3f) (h : d ∈ joined name) :
    d ∈ name := by
  obtain ⟨c, hc, heq⟩ := List.mem_map.mp h
  split at heq
  · exact absurd heq.symm hd
  · exact heq ▸ hc

/-- The node gets the command with the name up to the first unit that ends the attribute. -/
theorem submit_eq {name : List CodeUnit} (hzero : 0 ∉ name) :
    B.submit (renameAksName name) =
      ⟨some (command (B.encode (B.references ((joined name).takeWhile fun c => c ∉ valueEnds)))),
        fun _ => none⟩ := by
  have hunit : ∀ c ∈ (joined name).takeWhile (fun c => c ∉ valueEnds), attributeUnit c = id c := by
    intro c hc
    refine if_neg ?_
    rintro rfl
    exact hzero (mem_joined (by decide) (List.takeWhile_subset _ hc))
  have hcommand : commandName.map attributeUnit = commandName := by decide
  rw [Browser.submit, Browser.unquotedValue, takeWhile_frmHead, List.map_append, hcommand,
    List.map_congr_left hunit, List.map_id, references_command, encode_command]
  rfl

theorem stores_of_survives {P : Platform} (hP : ∀ cmd, 0x3d ∈ cmd → P.ps_cgi_cmds cmd = none)
    {name : List CodeUnit} (h : Survives B name) : StoresName P B name := by
  intro s
  have hzero : 0 ∉ name := fun hmem => h.zero (zero_mem_encode hmem)
  have htake : (joined name).takeWhile (fun c => c ∉ valueEnds) = joined name := by
    rw [List.takeWhile_eq_self_iff]
    intro c hc
    obtain ⟨d, hd, rfl⟩ := List.mem_map.mp hc
    split
    · decide
    · rename_i hspace
      exact decide_eq_true ((h.ends d hd).resolve_left hspace)
  have hmarks : marksToSpaces (B.encode (joined name)) = B.encode name := by
    rw [marks_of_joined, marksToSpaces_eq_self_iff]
    exact h.mark
  have hlen : (B.encode (joined name)).length = (B.encode name).length := by
    rw [← hmarks, marksToSpaces, List.length_map]
  have hshort := h.short
  refine ⟨ok (saveAll s [(CFG_AKS_NAME, B.encode name)]), ?_, ?_⟩
  · rw [submit_eq hzero, htake, h.references, CGI_do_cmd_command hP, h.command.1, h.command.2,
      RENAME_AKS_command, hmarks]
    simp only [Bool.false_eq_true, if_false]
    exact if_pos (by omega)
  · have hclip : clip 16 (B.encode name) = B.encode name := List.take_of_length_le (by omega)
    exact (fieldText_rename s _).trans (by rw [hclip, takeWhile_eq_self h.zero])

/-- A name that is cut off gives a shorter text. -/
theorem takeWhile_of_encode_length (B : Browser) {u : List CodeUnit}
    (h : (B.encode u).length ≤ (B.encode (u.takeWhile fun c => c ∉ valueEnds)).length) :
    u.takeWhile (fun c => c ∉ valueEnds) = u := by
  have hsplit := List.takeWhile_append_dropWhile (p := fun c => decide (c ∉ valueEnds)) (l := u)
  cases hrest : u.dropWhile fun c => c ∉ valueEnds with
  | nil => rwa [hrest, List.append_nil] at hsplit
  | cons d rest =>
    have hend : d ∈ valueEnds := by simpa using not_of_dropWhile_cons hrest
    have hascii : d.toNat < 0x80 := by
      have hall : ∀ c ∈ valueEnds, c.toNat < 0x80 := List.all_iff_forall_prop.mp (by decide)
      exact hall d hend
    rw [hrest] at hsplit
    have hwhole := congrArg (fun u => (B.encode u).length) hsplit
    simp only [B.encode_ascii _ d rest hascii, List.length_append, List.length_cons] at hwhole
    omega

theorem survives_of_stores {P : Platform} (hP : ∀ cmd, 0x3d ∈ cmd → P.ps_cgi_cmds cmd = none)
    {name : List CodeUnit} (hamp : 0x26 ∉ name) (h : StoresName P B name) : Survives B name := by
  have hclean : (0 : UInt8) ∉ B.encode name := by
    obtain ⟨r, -, hname⟩ := h (named [])
    exact hname ▸ zero_notMem_text _ _ _
  have hzero : 0 ∉ name := fun hmem => hclean (zero_mem_encode hmem)
  have hplain : ∀ {u : List CodeUnit}, (∀ c ∈ u, c ∈ joined name) → B.references u = u := by
    intro u hu
    exact references_plain B fun hmem => hamp (mem_joined (by decide) (hu _ hmem))
  unfold StoresName at h
  rw [submit_eq hzero, hplain fun c hc => List.takeWhile_subset _ hc] at h
  obtain ⟨hcommand, hname⟩ := command_of_stores hP h
  have hsame := marks_of_joined B name
  have hlen : (B.encode (joined name)).length = (B.encode name).length := by
    have hmarks := congrArg List.length hsame
    simpa only [marksToSpaces, List.length_map] using hmarks
  have htake : (joined name).takeWhile (fun c => c ∉ valueEnds) = joined name := by
    apply takeWhile_of_encode_length B
    rw [hlen, hname]
    refine (List.takeWhile_prefix _).length_le.trans ((List.length_take_le' _ _).trans ?_)
    rw [marksToSpaces, List.length_map]
  rw [htake] at hcommand hname
  rw [hsame] at hname
  have hzeros : (0 : UInt8) ∉ clip 16 (marksToSpaces (B.encode name)) := by
    apply zero_notMem_clip
    intro hmem
    obtain ⟨c, hc, heq⟩ := List.mem_map.mp hmem
    split at heq
    · cases heq
    · exact hclean (heq ▸ hc)
  rw [takeWhile_eq_self hzeros, clip] at hname
  have hshort : (B.encode name).length ≤ 15 := by
    rw [hname]
    exact List.length_take_le 15 _
  rw [List.take_of_length_le (by simpa only [marksToSpaces, List.length_map] using hshort)] at hname
  refine ⟨hclean, marksToSpaces_eq_self_iff.mp hname.symm, hshort, fun c hc => ?_,
    by rw [hplain fun _ hc => hc], hcommand⟩
  by_cases hspace : c = 0x20
  · exact Or.inl hspace
  · have hmem : c ∈ joined name := List.mem_map.mpr ⟨c, hc, if_neg hspace⟩
    rw [← htake] at hmem
    have hkept := List.mem_takeWhile_imp hmem
    exact Or.inr (of_decide_eq_true hkept)

end

/-- **Renaming.**  A name that survives is stored exactly, and a name without ampersands is
stored exactly only when it survives. -/
theorem rename_stores_iff {P : Platform} (hP : ∀ cmd, 0x3d ∈ cmd → P.ps_cgi_cmds cmd = none)
    (B : Browser) (name : List CodeUnit) :
    (Survives B name → StoresName P B name) ∧
      (0x26 ∉ name → (StoresName P B name ↔ Survives B name)) := by
  refine ⟨stores_of_survives hP, fun hamp => ⟨survives_of_stores hP hamp, stores_of_survives hP⟩⟩

/-- A browser for names without references, which sends what Latin-1 does not have as a
number. -/
def latinBrowser : Browser where
  references := id
  references_nil := rfl
  references_cons := fun _ _ _ => rfl
  encode := List.flatMap fun c =>
    if c.toNat < 0x100 then [c.toUInt8] else ascii "&#" ++ decimal c.toNat ++ ascii ";"
  encode_nil := rfl
  encode_ascii := by
    intro u c v hc
    rw [List.flatMap_append, List.flatMap_cons, if_pos (Nat.lt_trans hc (by decide))]
    rfl

/-- `Stage 2` -/
def plainName : List CodeUnit := [0x53, 0x74, 0x61, 0x67, 0x65, 0x20, 0x32]

theorem plainName_survives : Survives latinBrowser plainName := by
  have hends : ∀ c ∈ plainName, c = 0x20 ∨ c ∉ valueEnds := List.all_iff_forall_prop.mp (by decide)
  exact ⟨by decide, by decide, by decide, hends, by decide, by decide⟩

theorem rename_stores_sample : StoresName quietPlatform latinBrowser plainName :=
  (rename_stores_iff (fun _ _ => rfl) latinBrowser plainName).1 plainName_survives

/-- The name `a?b` is stored as `a b`. -/
theorem question_mark_lost : ¬ StoresName quietPlatform latinBrowser [0x61, 0x3f, 0x62] := by
  intro h
  have hsurvives := survives_of_stores (fun _ _ => rfl) (by decide) h
  exact hsurvives.mark (by decide)

end AksFirmware.RenamePage
