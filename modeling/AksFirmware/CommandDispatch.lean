import AksFirmware.ConfigRequests

/-!
# Commands found by their names

`CGI_do_cmd` looks for the name of each of its commands anywhere in the text of `CMD`, its
argument included, and takes the first in the order of the source.  An argument that holds
the name of an earlier command goes to the handler of that command.

A command runs under its own name and stays with its own options exactly if its argument
holds no such name and is short enough for the arrays that it goes through
(`own_handler_iff`).
-/

namespace AksFirmware.CommandDispatch

open ByteMemory CText WebConfig ConfigFlash ConfigCommands ConfigRequests

/-! ### The dispatch -/

/-- The text of a command with its argument. -/
def command (h : Handler) (arg : Text) : Text := ascii h.name ++ 0x3d :: arg

/-- The commands that are looked for before this one. -/
def earlier (h : Handler) : List Handler := Handler.all.takeWhile (· ≠ h)

/-- The name of no earlier command stands in the argument. -/
def NoEarlierName (h : Handler) (arg : Text) : Prop :=
  ∀ h' ∈ earlier h, strstr arg (ascii h'.name) = false

instance (h : Handler) (arg : Text) : Decidable (NoEarlierName h arg) :=
  inferInstanceAs (Decidable (∀ h' ∈ earlier h, _))

theorem earlier_split (h : Handler) : ∃ later, Handler.all = earlier h ++ h :: later := by
  cases h with
  | SET_UNIVERSE => exact ⟨_, rfl⟩
  | SET_PROTO_UNIVERSE => exact ⟨_, rfl⟩
  | RENAME_AKS => exact ⟨_, rfl⟩
  | SET_SORT => exact ⟨_, rfl⟩
  | SET_TIMO_POWER => exact ⟨_, rfl⟩
  | SET_LED_COLOR => exact ⟨_, rfl⟩
  | AUTO_SACN_UNIV => exact ⟨_, rfl⟩
  | AUTO_ARTNET_UNIV => exact ⟨_, rfl⟩

theorem name_spec (h : Handler) : ascii h.name ≠ [] ∧ (0x3d : UInt8) ∉ ascii h.name := by
  cases h <;> decide

/-- No name is part of a later one. -/
theorem earlier_name (h : Handler) :
    ∀ h' ∈ earlier h, h' ≠ h ∧ ¬ ascii h'.name <:+: ascii h.name := by
  cases h <;> decide

theorem strstr_earlier {h h' : Handler} (hh' : h' ∈ earlier h) (arg : Text) :
    strstr (command h arg) (ascii h'.name) = strstr arg (ascii h'.name) := by
  obtain ⟨hne, hsep⟩ := name_spec h'
  rw [strstr, strstr, command]
  simp only [infix_around hne hsep, (earlier_name h h' hh').2, false_or]

theorem handlerOf_eq_iff (h : Handler) (arg : Text) :
    handlerOf (command h arg) = some h ↔ NoEarlierName h arg := by
  obtain ⟨later, hsplit⟩ := earlier_split h
  have hself : strstr (command h arg) (ascii h.name) = true :=
    decide_eq_true (List.prefix_append _ _).isInfix
  have hrest : (h :: later).find? (fun h' => strstr (command h arg) (ascii h'.name)) = some h := by
    rw [List.find?_cons, hself]
  rw [handlerOf, hsplit, List.find?_append, hrest]
  cases hfirst : (earlier h).find? fun h' => strstr (command h arg) (ascii h'.name) with
  | none =>
    refine iff_of_true rfl fun h' hh' => ?_
    rw [← strstr_earlier hh']
    exact Bool.eq_false_iff.mpr (List.find?_eq_none.mp hfirst h' hh')
  | some h' =>
    have hmem := List.mem_of_find?_eq_some hfirst
    refine iff_of_false (fun heq => ?_) fun hno => ?_
    · exact (earlier_name h h' hmem).1 (Option.some.inj heq)
    · have hfound := List.find?_some hfirst
      rw [strstr_earlier hmem, hno h' hmem] at hfound
      cases hfound

/-- The platform's own commands have no argument. -/
def NoArguments (P : Platform) : Prop := ∀ cmd, 0x3d ∈ cmd → P.ps_cgi_cmds cmd = none

/-- Once its settings are carried out, a request runs the handler that is found. -/
theorem CGI_do_cmd_eq_run {P : Platform} (hP : NoArguments P) {h : Handler} {arg : Text}
    (hfound : handlerOf (command h arg) = some h) {req : Request}
    (hcmd : req.CMD = some (command h arg)) (s : ConfigStore) :
    CGI_do_cmd P req s = h.run (command h arg) (withSettings P req s) := by
  have hsep : (0x3d : UInt8) ∈ command h arg := List.mem_append_right _ List.mem_cons_self
  have hdirect : command h arg ∉ direct := by
    intro hmem
    have hall : ∀ cmd ∈ direct, (0x3d : UInt8) ∉ cmd := by decide
    exact hall _ hmem hsep
  have hrefresh : command h arg ≠ ascii "CONSTELLATION_REFRESH" := by
    intro heq
    rw [heq] at hsep
    exact absurd hsep (by decide)
  have hacc : req.accepted P = some (command h arg) := by
    rw [accepted_of hcmd, hP _ hsep, if_pos ⟨hdirect, by decide⟩]
  have hloop : withSettings P req s = { s with
      g_web_config := (setLoop P req.sets ⟨0, s.g_web_config, false⟩).g_web_config } := by
    rw [withSettings, settings, hacc, setLoop_copies]
    simp
  simp only [CGI_do_cmd, hcmd, if_neg hdirect, hP _ hsep, Option.getD_none, if_neg hrefresh,
    hfound, hloop]
  rfl

/-! ### The bytes that a command reaches -/

/-- The argument is short enough for the buffers on the stack and for the options of the
command, which stand side by side in the record. -/
def Short : Handler → Text → Prop
  | .SET_UNIVERSE, arg =>
      ∀ p ∈ cut 0x2d arg, p.1.length ≤ 2 ∧ p.2.length ≤ 3
  | .SET_PROTO_UNIVERSE, arg =>
      ∀ p ∈ protoParts arg,
        p.1.length ≤ 2 ∧ p.2.1.length ≤ 3 ∧ p.2.2.1.length ≤ 7 ∧ p.2.2.2.length ≤ 1
  | .RENAME_AKS, arg => arg.length ≤ 23
  | .SET_SORT, arg => arg.length ≤ 7
  | .SET_TIMO_POWER, arg => arg.length ≤ 2
  | .SET_LED_COLOR, arg => arg.length ≤ 7
  | .AUTO_SACN_UNIV, arg => arg.length ≤ 7
  | .AUTO_ARTNET_UNIV, arg => arg.length ≤ 7

instance (h : Handler) (arg : Text) : Decidable (Short h arg) := by
  cases h <;> unfold Short <;> infer_instance

/-- The texts of the argument fit their buffers. -/
def Buffered (h : Handler) (arg : Text) : Prop := ∀ b ∈ (h.texts arg).1, b.2.length < b.1

theorem buffered_whole {h : Handler} {arg : Text} {size : Nat}
    (htexts : (h.texts arg).1 = [(size, arg)]) : Buffered h arg ↔ arg.length < size := by
  rw [Buffered, htexts, List.forall_mem_singleton]

theorem cut_command (h : Handler) (arg : Text) :
    cut 0x3d (command h arg) = some (ascii h.name, arg) := by
  have hall : ∀ c ∈ ascii h.name, decide (c ≠ 0x3d) = true := by
    intro c hc
    exact decide_eq_true fun heq => (name_spec h).2 (heq ▸ hc)
  rw [cut, command, List.dropWhile_append_of_pos hall, List.takeWhile_append_of_pos hall]
  simp

theorem textsOf_command (h : Handler) (arg : Text) : h.textsOf (command h arg) = h.texts arg := by
  rw [Handler.textsOf, cut_command]

/-- The copy, its end included, leaves the other options alone. -/
def Inside (named : List Field) (w : Copy) : Prop :=
  ∀ f, f ∉ named → ∀ i < f.size,
    f.offset + i < w.1.offset ∨ w.1.offset + w.2.length < f.offset + i

theorem inside_of_fits {named : List Field} {f : Field} {t : Text} (hmem : f ∈ named)
    (hlen : t.length < f.size) : Inside named (f, t) := by
  intro f' hf' i hi
  have hdisj := Field.disjoint fun heq : f = f' => hf' (heq ▸ hmem)
  dsimp only
  omega

/-- A universe of three characters ends in the subnet, which is written after it. -/
theorem inside_universe {named : List Field} (huni : .universe ∈ named) (hsub : .subnet ∈ named)
    {uni : Text} (hlen : uni.length ≤ 3) : Inside named (.universe, uni) := by
  intro f hf i hi
  have hdisj := Field.disjoint fun heq : .universe = f => hf (heq ▸ huni)
  have hdisj' := Field.disjoint fun heq : .subnet = f => hf (heq ▸ hsub)
  have huniAt : Field.offset .universe = 21 ∧ Field.size .universe = 3 := ⟨rfl, rfl⟩
  have hsubAt : Field.offset .subnet = 24 ∧ Field.size .subnet = 3 := ⟨rfl, rfl⟩
  dsimp only
  omega

theorem onlyNamed_of_inside {s s' : ConfigStore} {ws : List Copy} {named : List Field}
    (h : Written s ws s') (hws : ∀ w ∈ ws, Inside named w) :
    OnlyNamed named s.g_web_config s'.g_web_config := by
  intro f hf hne
  apply load_congr
  intro i hi
  have hpos := Field.offset_pos hne
  rw [h _ (by omega)]
  exact applyCopies_outside (fun w hw => hws w hw f hf i hi) _

/-- What `Short` is for. -/
theorem short_spec {h : Handler} {arg : Text} (hshort : Short h arg) :
    Buffered h arg ∧ ∀ w ∈ (h.texts arg).2.flatMap setCopy, Inside h.fields w := by
  unfold Buffered
  cases h with
  | SET_UNIVERSE =>
    simp only [Handler.texts]
    cases hcut : cut 0x2d arg with
    | none => simp
    | some p =>
      obtain ⟨hsub, huni⟩ := hshort p hcut
      refine ⟨?_, ?_⟩
      · simp only [List.forall_mem_cons]
        exact ⟨by omega, by omega, by simp⟩
      · have hcopies : [(CFG_AKS_UNIVERSE, p.2), (CFG_AKS_SUBNET, p.1)].flatMap setCopy =
          [(.universe, p.2), (.subnet, p.1)] := rfl
        simp only [hcopies, List.forall_mem_cons]
        refine ⟨inside_universe (by decide) (by decide) huni, ?_, by simp⟩
        exact inside_of_fits (by decide) (Nat.lt_succ_of_le hsub)
  | SET_PROTO_UNIVERSE =>
    simp only [Handler.texts]
    cases hparts : protoParts arg with
    | none => simp
    | some p =>
      obtain ⟨sub, uni, suni, prot⟩ := p
      obtain ⟨hsub, huni, hsuni, hprot⟩ := hshort _ hparts
      refine ⟨?_, ?_⟩
      · simp only [List.forall_mem_cons]
        dsimp only at hsub huni hsuni hprot
        exact ⟨by omega, by omega, by omega, by omega, by simp⟩
      · have hcopies : [(CFG_AKS_UNIVERSE, uni), (CFG_AKS_SUBNET, sub), (CFG_SACN_UNIV, suni),
            (CFG_PROTNAME, prot)].flatMap setCopy =
          [(.universe, uni), (.subnet, sub), (.sacn_universe, suni), (.protname, prot)] := rfl
        simp only [hcopies, List.forall_mem_cons]
        refine ⟨inside_universe (by decide) (by decide) huni, ?_, ?_, ?_, by simp⟩
        · exact inside_of_fits (by decide) (Nat.lt_succ_of_le hsub)
        · exact inside_of_fits (by decide) (Nat.lt_succ_of_le hsuni)
        · exact inside_of_fits (by decide) (Nat.lt_succ_of_le hprot)
  | RENAME_AKS =>
    refine ⟨by simpa [Handler.texts] using Nat.lt_succ_of_le hshort, ?_⟩
    have hclip := clip_length_lt (k := 16) (by decide) (arg.map fun c => if c = 0x3f then 0x20 else c)
    exact List.forall_mem_singleton.mpr
      (inside_of_fits (by decide) (Nat.lt_trans hclip (by decide)))
  | SET_SORT =>
    refine ⟨by simpa [Handler.texts] using Nat.lt_succ_of_le hshort, ?_⟩
    have hclip := clip_length_lt (k := 2) (by decide) arg
    exact List.forall_mem_singleton.mpr
      (inside_of_fits (by decide) (Nat.lt_trans hclip (by decide)))
  | SET_TIMO_POWER =>
    have hlen : arg.length < 3 := Nat.lt_succ_of_le hshort
    refine ⟨by simpa [Handler.texts] using Nat.lt_trans hlen (by decide), ?_⟩
    exact List.forall_mem_singleton.mpr (inside_of_fits (by decide) hlen)
  | SET_LED_COLOR =>
    have hlen : arg.length < 8 := Nat.lt_succ_of_le hshort
    refine ⟨by simpa [Handler.texts] using hlen, ?_⟩
    exact List.forall_mem_singleton.mpr (inside_of_fits (by decide) hlen)
  | AUTO_SACN_UNIV =>
    have hlen : arg.length < 8 := Nat.lt_succ_of_le hshort
    refine ⟨by simpa [Handler.texts] using Nat.lt_trans hlen (by decide), ?_⟩
    exact List.forall_mem_singleton.mpr (inside_of_fits (by decide) hlen)
  | AUTO_ARTNET_UNIV =>
    refine ⟨by simpa [Handler.texts] using Nat.lt_succ_of_le hshort, ?_⟩
    obtain ⟨huni, hsub⟩ := artnetParts_fit arg
    exact List.forall_mem_cons.mpr ⟨inside_of_fits (by decide) huni,
      List.forall_mem_singleton.mpr (inside_of_fits (by decide) hsub)⟩

/-! ### Arguments that are too long -/

theorem withArgument_command (h : Handler) (arg : Text) (s : ConfigStore)
    (body : Text → Option Reply) : withArgument (command h arg) s body = body arg := by
  rw [withArgument, cut_command]

theorem setOption_buffered {h : Handler} (size id : Nat) {arg : Text} {s : ConfigStore}
    {r : Reply} (hrun : setOption size id (command h arg) s = some r) : arg.length < size := by
  rw [setOption, withArgument_command] at hrun
  obtain ⟨_, hbuf, -⟩ := Option.bind_eq_some_iff.mp hrun
  exact (stackText_eq_some hbuf).1

/-- A command that has an outcome had room for its texts. -/
theorem buffered_of_run {h : Handler} {arg : Text} {s : ConfigStore} {r : Reply}
    (hrun : h.run (command h arg) s = some r) : Buffered h arg := by
  cases h with
  | SET_UNIVERSE =>
    simp only [Handler.run, SET_UNIVERSE, withArgument_command] at hrun
    simp only [Buffered, Handler.texts]
    cases hcut : cut 0x2d arg with
    | none => simp
    | some p =>
      simp only [hcut, Option.bind_eq_bind, Option.bind_eq_some_iff] at hrun
      obtain ⟨_, hsub, _, huni, -⟩ := hrun
      simp only [List.forall_mem_cons]
      exact ⟨(stackText_eq_some hsub).1, (stackText_eq_some huni).1, by simp⟩
  | SET_PROTO_UNIVERSE =>
    simp only [Handler.run, SET_PROTO_UNIVERSE, withArgument_command] at hrun
    simp only [Buffered, Handler.texts]
    cases hparts : protoParts arg with
    | none => simp
    | some p =>
      simp only [hparts, Option.bind_eq_bind, Option.bind_eq_some_iff] at hrun
      obtain ⟨_, -, _, -, _, hsub, _, huni, _, hsuni, _, hprot, -⟩ := hrun
      simp only [List.forall_mem_cons]
      exact ⟨(stackText_eq_some hsub).1, (stackText_eq_some huni).1, (stackText_eq_some hsuni).1,
        (stackText_eq_some hprot).1, by simp⟩
  | RENAME_AKS =>
    simp only [Handler.run, RENAME_AKS, withArgument_command] at hrun
    obtain ⟨_, hname, -⟩ := Option.bind_eq_some_iff.mp hrun
    exact (buffered_whole rfl).mpr (stackText_eq_some hname).1
  | SET_SORT =>
    exact (buffered_whole rfl).mpr (setOption_buffered (h := .SET_SORT) 8 CFG_SORT_BY hrun)
  | SET_TIMO_POWER =>
    exact (buffered_whole rfl).mpr (setOption_buffered (h := .SET_TIMO_POWER) 8 CFG_TIMO_POWER hrun)
  | SET_LED_COLOR =>
    exact (buffered_whole rfl).mpr (setOption_buffered (h := .SET_LED_COLOR) 8 CFG_LED_COLOR hrun)
  | AUTO_SACN_UNIV =>
    simp only [Handler.run, AUTO_SACN_UNIV, withArgument_command] at hrun
    obtain ⟨_, hnum, -⟩ := Option.bind_eq_some_iff.mp hrun
    exact (buffered_whole rfl).mpr (stackText_eq_some hnum).1
  | AUTO_ARTNET_UNIV =>
    simp only [Handler.run, AUTO_ARTNET_UNIV, withArgument_command] at hrun
    obtain ⟨_, hnum, -⟩ := Option.bind_eq_some_iff.mp hrun
    exact (buffered_whole rfl).mpr (stackText_eq_some hnum).1

/-- A record with one byte set. -/
def marked (x : Nat) : Mem := store zeroed x [0x31]

theorem marked_terminated (x : Nat) : TextsTerminated (marked x) := by
  intro f hf
  have hsize : 2 ≤ f.size := by
    have hall : ∀ f ∈ Field.all, f.isText = true → 2 ≤ f.size := by decide
    exact hall f f.mem_all hf
  have hkept : ∀ i < f.size, f.offset + i ≠ x → marked x (f.offset + i) = 0 := fun i _ hne =>
    store_byte_of_ne zeroed 0x31 hne
  by_cases hx : f.offset = x
  · exact ⟨1, hsize, hkept 1 hsize (by omega)⟩
  · exact ⟨0, by omega, hkept 0 (by omega) hx⟩

/-- The command has an outcome that changes its own options only, from every record. -/
def StaysInside (h : Handler) (arg : Text) : Prop :=
  ∀ s : ConfigStore, TextsTerminated s.g_web_config →
    ∃ r, h.run (command h arg) s = some r ∧
      OnlyNamed h.fields s.g_web_config r.store.g_web_config

theorem applyCopies_end {before after : List Copy} {w : Copy}
    (hafter : ∀ v ∈ after, w.1.offset + w.2.length < v.1.offset) (g : Mem) :
    applyCopies g (before ++ w :: after) (w.1.offset + w.2.length) = 0 := by
  rw [applyCopies_append, applyCopies, List.foldl_cons]
  exact (applyCopies_outside (fun v hv => .inl (hafter v hv)) _).trans (storeText_end _ _ _)

/-- The end of a copy that no later one covers lies in an option of the command. -/
theorem copy_end_inside {h : Handler} {arg : Text} (hstays : StaysInside h arg)
    (before : List Copy) (f : Field) (t : Text) (after : List Copy)
    (hcopies : (h.texts arg).2.flatMap setCopy = before ++ (f, t) :: after)
    (hafter : ∀ v ∈ after, f.offset + t.length < v.1.offset)
    (hpos : 1 ≤ f.offset) (hlt : f.offset + t.length < WEB_DATA_SIZE) :
    ∃ f' ∈ h.fields, f'.offset ≤ f.offset + t.length ∧
      f.offset + t.length < f'.offset + f'.size := by
  obtain ⟨f', hle, hbelow⟩ := exists_field_of_lt hlt
  refine ⟨f', ?_, hle, hbelow⟩
  by_contra hf
  obtain ⟨r, hrun, honly⟩ := hstays ⟨marked (f.offset + t.length), zeroed⟩ (marked_terminated _)
  have hne : f' ≠ .initFlag := by
    rintro rfl
    have hflag : Field.offset .initFlag + Field.size .initFlag = 1 := rfl
    omega
  have hstore := Handler.run_store hrun
  rw [textsOf_command] at hstore
  have hsame := load_eq_iff.mp (honly f' hf hne) (f.offset + t.length - f'.offset) (by omega)
  rw [Nat.add_sub_cancel' hle, hstore] at hsame
  have hsets : (h.texts arg).2 ≠ [] := by
    intro hnil
    rw [hnil, List.flatMap_nil] at hcopies
    exact absurd hcopies.symm (List.append_ne_nil_of_right_ne_nil _ (List.cons_ne_nil _ _))
  obtain ⟨set, sets, hcons⟩ := List.exists_cons_of_ne_nil hsets
  rw [hcons, saveSets, saveAll_written _ _ _ (by omega), ← hcons, hcopies,
    applyCopies_end hafter] at hsame
  have hone : marked (f.offset + t.length) (f.offset + t.length) = 0x31 :=
    store_at zeroed _ 0 [0x31] Nat.zero_lt_one
  exact absurd (hsame.trans hone) (by decide)

/-- An argument that is too long overruns a buffer or another option. -/
theorem short_of_staysInside {h : Handler} {arg : Text} (hstays : StaysInside h arg) :
    Short h arg := by
  obtain ⟨_, hrun, -⟩ := hstays ⟨marked 0, zeroed⟩ (marked_terminated 0)
  have hbuf := buffered_of_run hrun
  cases h with
  | SET_UNIVERSE =>
    intro p hcut
    have htexts : Handler.SET_UNIVERSE.texts arg =
        ([(4, p.1), (4, p.2)], [(CFG_AKS_UNIVERSE, p.2), (CFG_AKS_SUBNET, p.1)]) := by
      simp only [Handler.texts, Option.mem_def.mp hcut]
    simp only [Buffered, htexts, List.forall_mem_cons] at hbuf
    have hend := copy_end_inside hstays [(.universe, p.2)] .subnet p.1 []
      (by rw [htexts]; rfl) (by simp) (by decide)
    simp only [Handler.fields, Field.offset, Field.size, WEB_DATA_SIZE, List.mem_cons,
      List.not_mem_nil, or_false, exists_eq_or_imp, exists_eq_left] at hend
    omega
  | SET_PROTO_UNIVERSE =>
    intro p hparts
    obtain ⟨sub, uni, suni, prot⟩ := p
    have htexts : Handler.SET_PROTO_UNIVERSE.texts arg =
        ([(4, sub), (4, uni), (8, suni), (4, prot)],
          [(CFG_AKS_UNIVERSE, uni), (CFG_AKS_SUBNET, sub), (CFG_SACN_UNIV, suni),
            (CFG_PROTNAME, prot)]) := by
      simp only [Handler.texts, Option.mem_def.mp hparts]
    simp only [Buffered, htexts, List.forall_mem_cons] at hbuf
    have hlater : ∀ v ∈ [(Field.sacn_universe, suni), (Field.protname, prot)],
        Field.offset .subnet + sub.length < v.1.offset := by
      simp only [List.forall_mem_cons, Field.offset]
      exact ⟨by omega, by omega, by simp⟩
    have hsub := copy_end_inside hstays [(.universe, uni)] .subnet sub _ (by rw [htexts]; rfl) hlater
      (by decide)
    have hprot := copy_end_inside hstays
      [(.universe, uni), (.subnet, sub), (.sacn_universe, suni)] .protname prot []
      (by rw [htexts]; rfl) (by simp) (by decide)
    simp only [Handler.fields, Field.offset, Field.size, WEB_DATA_SIZE, List.mem_cons,
      List.not_mem_nil, or_false, exists_eq_or_imp, exists_eq_left] at hsub hprot
    dsimp only
    omega
  | SET_TIMO_POWER =>
    have hlen := (buffered_whole rfl).mp hbuf
    have hend := copy_end_inside hstays [] .timopower arg [] rfl
      (by simp) (by decide)
    simp only [Handler.fields, Field.offset, Field.size, WEB_DATA_SIZE, List.mem_singleton,
      exists_eq_left] at hend
    simp only [Short]
    omega
  | AUTO_SACN_UNIV =>
    have hlen := (buffered_whole rfl).mp hbuf
    have hend := copy_end_inside hstays [] .sacn_universe arg [] rfl
      (by simp) (by decide)
    simp only [Handler.fields, Field.offset, Field.size, WEB_DATA_SIZE, List.mem_singleton,
      exists_eq_left] at hend
    simp only [Short]
    omega
  | RENAME_AKS => exact Nat.le_of_lt_succ ((buffered_whole rfl).mp hbuf)
  | SET_SORT => exact Nat.le_of_lt_succ ((buffered_whole rfl).mp hbuf)
  | SET_LED_COLOR => exact Nat.le_of_lt_succ ((buffered_whole rfl).mp hbuf)
  | AUTO_ARTNET_UNIV => exact Nat.le_of_lt_succ ((buffered_whole rfl).mp hbuf)

/-! ### One command, one handler -/

/-- The command runs its own handler, for every request that carries it, and changes its own
options only. -/
structure OwnHandler (P : Platform) (h : Handler) (arg : Text) : Prop where
  found : handlerOf (command h arg) = some h
  runs : ∀ req : Request, req.CMD = some (command h arg) → ∀ s,
    CGI_do_cmd P req s = h.run (command h arg) (withSettings P req s)
  frame : ∀ req : Request, req.CMD = some (command h arg) →
    ∀ s, TextsTerminated (withSettings P req s).g_web_config →
      ∃ r, CGI_do_cmd P req s = some r ∧
        OnlyNamed h.fields (withSettings P req s).g_web_config r.store.g_web_config

/-- **The commands that stay with their own options.**  They are those whose argument holds
the name of no earlier command and is not too long. -/
theorem own_handler_iff {P : Platform} (hP : NoArguments P) (h : Handler) (arg : Text) :
    OwnHandler P h arg ↔ NoEarlierName h arg ∧ Short h arg := by
  constructor
  · intro hown
    refine ⟨(handlerOf_eq_iff h arg).mp hown.found, short_of_staysInside fun s hs => ?_⟩
    have hplain : withSettings P ⟨some (command h arg), fun _ => none⟩ s = s := by
      have hsettings : settings P ⟨some (command h arg), fun _ => none⟩ = [] := by
        have hsets : (⟨some (command h arg), fun _ => none⟩ : Request).sets = [] := rfl
        rw [settings, hsets]
        simp [loopSets]
      rw [withSettings, hsettings]
      rfl
    have hframe := hown.frame ⟨some (command h arg), fun _ => none⟩ rfl s
    rw [hown.runs _ rfl, hplain] at hframe
    exact hframe hs
  · rintro ⟨hno, hshort⟩
    have hfound := (handlerOf_eq_iff h arg).mpr hno
    refine ⟨hfound, fun req hcmd s => CGI_do_cmd_eq_run hP hfound hcmd s, fun req hcmd s hs => ?_⟩
    obtain ⟨hbuf, hinside⟩ := short_spec hshort
    rw [Buffered, ← textsOf_command] at hbuf
    obtain ⟨r, hrun, hwritten⟩ := h.run_spec hs hbuf
    rw [textsOf_command] at hwritten
    exact ⟨r, (CGI_do_cmd_eq_run hP hfound hcmd s).trans hrun,
      onlyNamed_of_inside hwritten hinside⟩

theorem own_handler_sample : OwnHandler quietPlatform .SET_SORT (ascii "2") :=
  (own_handler_iff (fun _ _ => rfl) .SET_SORT (ascii "2")).mpr (by decide)

/-- `SET_SORT=RENAME_AKS` renames the node. -/
theorem sort_renames :
    ¬ OwnHandler quietPlatform .SET_SORT (ascii "RENAME_AKS") ∧
      (CGI_do_cmd quietPlatform ⟨some (command .SET_SORT (ascii "RENAME_AKS")), fun _ => none⟩
        factoryStore).map (fun r => fieldText r.store.g_web_config .name) =
          some (ascii "RENAME_AKS") := by
  refine ⟨fun hown => ?_, by decide +kernel⟩
  exact absurd hown.found (by decide)

end AksFirmware.CommandDispatch
