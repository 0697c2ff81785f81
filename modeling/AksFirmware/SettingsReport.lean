import Mathlib.Data.List.ReduceOption
import AksFirmware.SettingsRequest

/-!
# What a request reports about its settings

The return code of a `SETi` replaces that of the one before.  So a request whose last setting
is taken gets to the write of the flash whatever became of the others, and a malformed one
reports an error for settings that stay in place.

`honest_iff` says exactly which requests tell the truth, with the stores of both setters and
for the commands with loops of their own.
-/

namespace AksFirmware.SettingsReport

open ByteMemory CText WebConfig ConfigFlash TurnLoop SettingsRequest
open ConfigCommands (Request CGI_RC_CFG_OK CGI_RC_REBOOT setArg handlerOf Handler withArgument
  factoryStore)

variable {κ : Type}

/-! ### The list of a request -/

/-- The request lists `SET0` to `SETi`. -/
def Listed (req : Request) (i : Nat) : Prop := ∀ j ≤ i, (req.SET j).isSome

/-- The request without its list. -/
def bare (req : Request) : Request := { req with SET := fun _ => none }

theorem takeWhile_some_length {α : Type} (f : Nat → Option α) (n i : Nat) :
    i < (((List.range n).map f).takeWhile Option.isSome).reduceOption.length ↔
      i < n ∧ ∀ j ≤ i, (f j).isSome := by
  induction n generalizing f i with
  | zero => simp [List.reduceOption_nil]
  | succ n ih =>
    rw [List.range_succ_eq_map, List.map_cons, List.map_map]
    cases hf : f 0 with
    | none =>
      rw [List.takeWhile_cons_of_neg (by simp)]
      refine iff_of_false (by simp [List.reduceOption_nil]) fun h => ?_
      have := h.2 0 (Nat.zero_le i)
      rw [hf] at this
      cases this
    | some a =>
      rw [List.takeWhile_cons_of_pos (by simp), List.reduceOption_cons_of_some,
        List.length_cons]
      cases i with
      | zero =>
        refine iff_of_true (Nat.succ_pos _) ⟨Nat.succ_pos n, fun j hj => ?_⟩
        rw [Nat.le_zero.mp hj, hf]
        rfl
      | succ i =>
        rw [Nat.succ_lt_succ_iff, ih, Nat.succ_lt_succ_iff]
        refine and_congr_right fun _ => ⟨fun h j hj => ?_, fun h j hj => ?_⟩
        · cases j with
          | zero =>
            rw [hf]
            rfl
          | succ j => exact h j (Nat.succ_le_succ_iff.mp hj)
        · exact h (j + 1) (Nat.succ_le_succ hj)

theorem lt_length_sets {req : Request} {i : Nat} :
    i < req.sets.length ↔ i < 50 ∧ Listed req i :=
  takeWhile_some_length req.SET 50 i

theorem sets_bare (req : Request) : (bare req).sets = [] := by
  rw [List.eq_nil_iff_length_eq_zero]
  by_contra hne
  have hlisted := (lt_length_sets.mp (Nat.pos_of_ne_zero hne)).2 0 (Nat.le_refl 0)
  cases hlisted

/-! ### What an honest request reports -/

/-- The loop over the `SETi` of a request that gets to `ReadyToOut` by a code of its loop. -/
def loopOf (S : Services κ) (req : Request) (s : Store κ) : Option (SetLoop κ) :=
  req.CMD.bind fun cmd =>
    if cmd = ascii "WIRELESS_SECURITY" ∨ cmd = ascii "ACL" then securityLoop S req s
    else if cmd = ascii "WIRELESS_SIMPLE_CONFIG_DEVICE" ∨ (mainLoop S cmd s).rc < 0 ∨
        cmd = ascii "CONSTELLATION_REFRESH" ∨ (handlerOf cmd).isSome then
      none
    else some (mainLoop S cmd s)

/-- `SETi` is among the ten that `WIRELESS_SIMPLE_CONFIG_DEVICE` reads, is well formed, and was
taken by `CFG_set`, if it sets anything. -/
def WscTook (S : Services κ) (req : Request) (s : Store κ) (i : Nat) : Prop :=
  i < 10 ∧ ∃ cmdv ∈ req.SET i, ∃ a, setArg cmdv = some a ∧
    (a.1 = 0 ∨ (a.1 = CFG_WLN_WscPinCode ∧ 0 ≤ (setPinCode S req s).1) ∨
      (a.1 = CFG_WLN_WscModeOption ∧ 0 ≤ (setModeOption S req s).1))

/-- `SETi` had a turn of the loop, was well formed, and its setter took it, if it sets
anything. -/
def Took (S : Services κ) (req : Request) (s : Store κ) (i : Nat) : Prop :=
  if req.CMD = some (ascii "WIRELESS_SIMPLE_CONFIG_DEVICE") then WscTook S req s i
  else ∃ l ∈ loopOf S req s, ∃ t, (l.turns req)[i]? = some t ∧ t.Succeeds

/-- The request takes the path behind `rc == CGI_RC_CFG_OK`. -/
def ReportsSuccess (S : Services κ) (req : Request) (s : Store κ) : Prop :=
  ∃ b s', arrive S req s = some (.readyToOut CGI_RC_CFG_OK b s')

/-- The request returns a negative code, or goes to `bad` with one. -/
def ReportsError (S : Services κ) (req : Request) (s : Store κ) (r : Reply κ) : Prop :=
  r.rc < 0 ∨ ∃ rc b s', arrive S req s = some (.readyToOut rc b s') ∧ rc < 0

/-- Success is reported only if every setting of the list was taken, and after an error the
stores are as the request without its list leaves them. -/
structure Honest (S : Services κ) (req : Request) (s : Store κ) (r : Reply κ) : Prop where
  success : ReportsSuccess S req s → ∀ i, Listed req i → Took S req s i
  error : ReportsError S req s r → ∃ a, arrive S (bare req) s = some a ∧ a.store = r.store

/-! ### When a request is honest -/

/-- There are no more settings than turns, and every turn succeeds. -/
def AllTaken (l : SetLoop κ) (req : Request) : Prop :=
  (∀ i, Listed req i → i < 50) ∧ ∀ t ∈ l.turns req, t.Succeeds

def EndsWell (l : SetLoop κ) (req : Request) : Prop :=
  TurnLoop.EndsWell CGI_RC_CFG_OK l.rc (l.turns req)

/-- The settings that are carried out leave both stores as they were. -/
def Untouched (l : SetLoop κ) (req : Request) : Prop :=
  l.settle l.start = l.settle (l.run req).2

theorem allTaken_iff (l : SetLoop κ) (req : Request) :
    (∀ i, Listed req i → ∃ t, (l.turns req)[i]? = some t ∧ t.Succeeds) ↔ AllTaken l req := by
  have hle : (l.turns req).length ≤ req.sets.length := length_turns_le _ _
  constructor
  · intro h
    constructor
    · intro i hi
      obtain ⟨t, ht, -⟩ := h i hi
      obtain ⟨hlt, -⟩ := List.getElem?_eq_some_iff.mp ht
      exact (lt_length_sets.mp (Nat.lt_of_lt_of_le hlt hle)).1
    · intro t ht
      obtain ⟨i, hlt, heq⟩ := List.mem_iff_getElem.mp ht
      obtain ⟨t', ht', hsucceeds⟩ := h i (lt_length_sets.mp (Nat.lt_of_lt_of_le hlt hle)).2
      rw [List.getElem?_eq_getElem hlt, heq] at ht'
      rwa [Option.some.inj ht']
  · rintro ⟨hshort, hall⟩ i hi
    have hlt : i < (l.turns req).length := by
      rw [SetLoop.turns, length_turns hall]
      exact lt_length_sets.mpr ⟨hshort i hi, hi⟩
    exact ⟨_, List.getElem?_eq_getElem hlt, hall _ (List.getElem_mem hlt)⟩

/-- What the loop claims, for a request with a list. -/
theorem loop_truthful_iff (l : SetLoop κ) (req : Request) :
    (((l.run req).1 = CGI_RC_CFG_OK →
        ∀ i, Listed req i → ∃ t, (l.turns req)[i]? = some t ∧ t.Succeeds) ∧
      ((l.run req).1 < 0 → Untouched l req)) ↔
    AllTaken l req ∨ (¬ EndsWell l req ∧ Untouched l req) := by
  rw [allTaken_iff]
  exact truthful_iff (by decide) (by decide) And.right l.settle

/-! ### Where a request gets to -/

theorem handler_rc {h : Handler} {cmd : Text} {s : ConfigStore} {r : ConfigCommands.Reply}
    (hrun : h.run cmd s = some r) : 0 ≤ r.rc := by
  have hargument : ∀ body : Text → Option ConfigCommands.Reply,
      (∀ tmp1 r, body tmp1 = some r → 0 ≤ r.rc) → withArgument cmd s body = some r → 0 ≤ r.rc := by
    intro body hbody hwith
    unfold withArgument at hwith
    cases hcut : cut 0x3d cmd with
    | none =>
      simp only [hcut] at hwith
      obtain rfl := Option.some.inj hwith
      exact Int.le_refl 0
    | some p =>
      simp only [hcut] at hwith
      exact hbody _ _ hwith
  have hok : ∀ s', 0 ≤ (ConfigCommands.ok s').rc := fun _ => Int.le_refl 0
  have hreboot : (0 : Int) ≤ CGI_RC_REBOOT := by decide
  cases h with
  | SET_UNIVERSE =>
    refine hargument _ (fun tmp1 r hbody => ?_) hrun
    split at hbody
    · obtain rfl := Option.some.inj hbody
      exact hok _
    · simp only [Option.bind_eq_bind, Option.bind_eq_some_iff] at hbody
      obtain ⟨_, -, _, -, hbody⟩ := hbody
      obtain rfl := Option.some.inj hbody
      exact hok _
  | SET_PROTO_UNIVERSE =>
    refine hargument _ (fun tmp1 r hbody => ?_) hrun
    split at hbody
    · obtain rfl := Option.some.inj hbody
      exact hok _
    · simp only [Option.bind_eq_bind, Option.bind_eq_some_iff] at hbody
      obtain ⟨_, -, _, -, _, -, _, -, _, -, _, -, hbody⟩ := hbody
      obtain rfl := Option.some.inj hbody
      exact hreboot
  | RENAME_AKS | SET_SORT | SET_TIMO_POWER | SET_LED_COLOR =>
    refine hargument _ (fun tmp1 r hbody => ?_) hrun
    obtain ⟨_, -, hbody⟩ := Option.bind_eq_some_iff.mp hbody
    obtain rfl := Option.some.inj hbody
    exact hok _
  | AUTO_SACN_UNIV =>
    refine hargument _ (fun tmp1 r hbody => ?_) hrun
    simp only [Option.bind_eq_bind, Option.bind_eq_some_iff] at hbody
    obtain ⟨_, -, _, -, hbody⟩ := hbody
    obtain rfl := Option.some.inj hbody
    exact hreboot
  | AUTO_ARTNET_UNIV =>
    refine hargument _ (fun tmp1 r hbody => ?_) hrun
    simp only [Option.bind_eq_bind, Option.bind_eq_some_iff] at hbody
    obtain ⟨_, -, _, -, _, -, hbody⟩ := hbody
    obtain rfl := Option.some.inj hbody
    exact hok _

/-- The commands at the end return no error of their own. -/
theorem finish_rc {S : Services κ} {cmd : Text} {rc : Int} {b : Bool} {s : Store κ}
    (hrc : 0 ≤ rc) : 0 ≤ ((Arrival.readyToOut rc b s).finish S cmd).rc := by
  have hcode : 0 ≤ ((S.as_cgi_cmds cmd).map Int.ofNat).getD rc := by
    cases S.as_cgi_cmds cmd with
    | none => exact hrc
    | some code => exact Int.natCast_nonneg code
  have hgood : ¬ (rc ≠ CGI_RC_CFG_OK ∧ rc < 0) := fun hbad => absurd hbad.2 (Int.not_lt.mpr hrc)
  have hreboot : (0 : Int) ≤ CGI_RC_REBOOT := by decide
  simp only [Arrival.finish, ConfigCommands.readyToOut, Services.exits, if_neg hgood]
  cases b with
  | true => exact hreboot
  | false =>
    by_cases hupg : cmd = ascii "SYS_UPG"
    · simpa [hupg] using hreboot
    · simpa [hupg] using hcode

theorem finish_store {S : Services κ} {cmd : Text} {rc : Int} {b : Bool} {s : Store κ}
    (h : rc < 0) : ((Arrival.readyToOut rc b s).finish S cmd).store = s := by
  have hrc : rc ≠ CGI_RC_CFG_OK := by
    rintro rfl
    exact absurd h (by decide)
  simp only [Arrival.finish, ConfigCommands.readyToOut_store, if_neg hrc]

/-- A request whose loop gives its code gets to `ReadyToOut` with it. -/
theorem arrive_of_loop {S : Services κ} {req : Request} {s : Store κ} {l : SetLoop κ}
    (h : loopOf S req s = some l) :
    ∃ b, arrive S req s =
      (l.settle (l.run req).2).map fun s' => .readyToOut (l.run req).1 b s' := by
  obtain ⟨cmd, hcmd, hl⟩ := Option.bind_eq_some_iff.mp h
  unfold arrive
  simp only [hcmd]
  by_cases hsec : cmd = ascii "WIRELESS_SECURITY" ∨ cmd = ascii "ACL"
  · rw [if_pos hsec] at hl ⊢
    refine ⟨false, ?_⟩
    have hsettle : l.settle = some := by
      obtain ⟨_, -, hl⟩ := Option.bind_eq_some_iff.mp hl
      obtain rfl := Option.some.inj hl
      rfl
    rw [CGI_do_wireless_security, hl, hsettle]
    rfl
  · rw [if_neg hsec] at hl ⊢
    split at hl
    · cases hl
    · rename_i hnone
      obtain rfl := Option.some.inj hl
      simp only [not_or, Option.not_isSome_iff_eq_none] at hnone
      obtain ⟨hsimple, hneg, hrefresh, hhandler⟩ := hnone
      refine ⟨sACNforceToReboot req, ?_⟩
      simp only [if_neg hsimple, if_neg hneg, if_neg hrefresh, hhandler]
      cases (mainLoop S cmd s).settle ((mainLoop S cmd s).run req).2 <;> rfl

/-- Without its list, the request has a loop that starts from the same stores. -/
theorem loopOf_bare {S : Services κ} {req : Request} {s : Store κ} {l : SetLoop κ}
    (h : loopOf S req s = some l) :
    ∃ l₀, loopOf S (bare req) s = some l₀ ∧ l₀.start = l.start ∧ l₀.settle = l.settle := by
  obtain ⟨cmd, hcmd, hl⟩ := Option.bind_eq_some_iff.mp h
  have hcmd₀ : (bare req).CMD = some cmd := hcmd
  unfold loopOf
  rw [hcmd₀, Option.bind_some]
  by_cases hsec : cmd = ascii "WIRELESS_SECURITY" ∨ cmd = ascii "ACL"
  · rw [if_pos hsec] at hl ⊢
    obtain ⟨temp, htemp, hl⟩ := Option.bind_eq_some_iff.mp hl
    obtain rfl := Option.some.inj hl
    exact ⟨_, Option.bind_eq_some_iff.mpr ⟨temp, htemp, rfl⟩, rfl, rfl⟩
  · rw [if_neg hsec] at hl ⊢
    exact ⟨l, hl, rfl, rfl⟩

theorem arrive_bare {S : Services κ} {req : Request} {s : Store κ} {l : SetLoop κ}
    (h : loopOf S req s = some l) (s' : Store κ) :
    (∃ a, arrive S (bare req) s = some a ∧ a.store = s') ↔ l.settle l.start = some s' := by
  obtain ⟨l₀, hl₀, hstart, hsettle⟩ := loopOf_bare h
  obtain ⟨b, hb⟩ := arrive_of_loop hl₀
  have hrun : (l₀.run (bare req)).2 = l.start := by
    rw [SetLoop.run, sets_bare]
    exact hstart
  rw [hb, hrun, hsettle]
  cases l.settle l.start with
  | none => simp
  | some t => simp [Arrival.store]

/-- A request that does not get to a loop whose code counts returns early, and an error it
returns does not come from its list. -/
theorem arrive_of_no_loop {S : Services κ} {req : Request} {s : Store κ} {a : Arrival κ}
    (hloop : loopOf S req s = none)
    (hsimple : req.CMD ≠ some (ascii "WIRELESS_SIMPLE_CONFIG_DEVICE"))
    (h : arrive S req s = some a) :
    ∃ r, a = .returns r ∧ (r.rc < 0 → arrive S (bare req) s = some a) := by
  unfold arrive at h ⊢
  have hcmd₀ : (bare req).CMD = req.CMD := rfl
  rw [hcmd₀]
  cases hcmd : req.CMD with
  | none =>
    simp only [hcmd] at h ⊢
    obtain rfl := Option.some.inj h
    exact ⟨_, rfl, fun _ => rfl⟩
  | some cmd =>
    simp only [hcmd] at h ⊢
    simp only [loopOf, hcmd, Option.bind_some] at hloop
    by_cases hsec : cmd = ascii "WIRELESS_SECURITY" ∨ cmd = ascii "ACL"
    · rw [if_pos hsec] at h hloop
      rw [CGI_do_wireless_security, hloop] at h
      cases h
    rw [if_neg hsec] at h hloop ⊢
    have hne : cmd ≠ ascii "WIRELESS_SIMPLE_CONFIG_DEVICE" := fun heq =>
      hsimple (hcmd.trans (congrArg some heq))
    rw [if_neg hne] at h ⊢
    by_cases hneg : (mainLoop S cmd s).rc < 0
    · rw [if_pos hneg] at h ⊢
      obtain rfl := Option.some.inj h
      exact ⟨_, rfl, fun _ => rfl⟩
    rw [if_neg hneg] at h
    obtain ⟨s', -, h⟩ := Option.bind_eq_some_iff.mp h
    by_cases hrefresh : cmd = ascii "CONSTELLATION_REFRESH"
    · rw [if_pos hrefresh] at h
      obtain rfl := Option.some.inj h
      exact ⟨_, rfl, fun hrc => absurd hrc (Int.lt_irrefl 0)⟩
    rw [if_neg hrefresh] at h
    cases hhandler : handlerOf cmd with
    | none =>
      rw [if_neg (by simp [hne, hneg, hrefresh, hhandler])] at hloop
      cases hloop
    | some handler =>
      simp only [hhandler] at h
      obtain ⟨r, hr, rfl⟩ := Option.map_eq_some_iff.mp h
      exact ⟨_, rfl, fun hrc => absurd hrc (Int.not_lt.mpr (handler_rc hr))⟩

/-! ### Honesty, one kind of request at a time -/

theorem honest_simple_iff {S : Services κ} {req : Request} {s : Store κ} {a : Arrival κ}
    (hsimple : req.CMD = some (ascii "WIRELESS_SIMPLE_CONFIG_DEVICE"))
    (h : arrive S req s = some a) :
    Honest S req s (a.finish S (req.CMD.getD [])) ↔ ∀ i, Listed req i → WscTook S req s i := by
  have htook : ∀ i, Took S req s i ↔ WscTook S req s i := fun i => by
    rw [Took, if_pos hsimple]
  obtain ⟨s', ha⟩ : ∃ s', a = .readyToOut CGI_RC_CFG_OK false s' := by
    unfold arrive at h
    simp only [hsimple] at h
    rw [if_neg (by decide +kernel), if_true] at h
    obtain ⟨p, hp, rfl⟩ := Option.map_eq_some_iff.mp h
    unfold CGI_do_wireless_simple_config_device at hp
    simp only [Option.bind_eq_bind, Option.bind_eq_some_iff] at hp
    obtain ⟨_, -, _, -, _, -, _, -, hp⟩ := hp
    obtain rfl := Option.some.inj hp
    exact ⟨_, rfl⟩
  subst ha
  constructor
  · exact fun hhonest i hi => (htook i).mp (hhonest.success ⟨_, _, h⟩ i hi)
  · refine fun hall => ⟨fun _ i hi => (htook i).mpr (hall i hi), fun herror => ?_⟩
    -- the code is always `CGI_RC_CFG_OK`, so there is no error to report
    rcases herror with hneg | ⟨rc, b, t, ht, hneg⟩
    · exact absurd hneg (Int.not_lt.mpr (finish_rc (by decide)))
    · rw [h] at ht
      obtain ⟨rfl, -, -⟩ := Arrival.readyToOut.inj (Option.some.inj ht)
      exact absurd hneg (by decide)

theorem honest_of_no_loop {S : Services κ} {req : Request} {s : Store κ} {a : Arrival κ}
    (hloop : loopOf S req s = none)
    (hsimple : req.CMD ≠ some (ascii "WIRELESS_SIMPLE_CONFIG_DEVICE"))
    (h : arrive S req s = some a) : Honest S req s (a.finish S (req.CMD.getD [])) := by
  obtain ⟨r, rfl, hbare⟩ := arrive_of_no_loop hloop hsimple h
  constructor
  · rintro ⟨b, s', hs'⟩
    rw [h] at hs'
    cases hs'
  · rintro (hneg | ⟨rc, b, s', hs', -⟩)
    · exact ⟨_, hbare hneg, rfl⟩
    · rw [h] at hs'
      cases hs'

theorem honest_loop_iff {S : Services κ} {req : Request} {s : Store κ} {a : Arrival κ}
    {l : SetLoop κ} (hloop : loopOf S req s = some l)
    (hsimple : req.CMD ≠ some (ascii "WIRELESS_SIMPLE_CONFIG_DEVICE"))
    (h : arrive S req s = some a) :
    Honest S req s (a.finish S (req.CMD.getD [])) ↔
      AllTaken l req ∨ (¬ EndsWell l req ∧ Untouched l req) := by
  have htook : ∀ i, Took S req s i ↔ ∃ t, (l.turns req)[i]? = some t ∧ t.Succeeds := fun i => by
    rw [Took, if_neg hsimple, hloop]
    exact ⟨fun ⟨_, hl, ht⟩ => Option.some.inj hl ▸ ht, fun ht => ⟨l, rfl, ht⟩⟩
  obtain ⟨b, hb⟩ := arrive_of_loop hloop
  rw [h] at hb
  obtain ⟨s', hsettle, rfl⟩ := Option.map_eq_some_iff.mp hb.symm
  have hsuccess : ReportsSuccess S req s ↔ (l.run req).1 = CGI_RC_CFG_OK := by
    constructor
    · rintro ⟨b', t, ht⟩
      rw [h] at ht
      exact (Arrival.readyToOut.inj (Option.some.inj ht)).1
    · intro hcode
      exact ⟨b, s', hcode ▸ h⟩
  have herror : ReportsError S req s
      ((Arrival.readyToOut (l.run req).1 b s').finish S (req.CMD.getD [])) ↔
        (l.run req).1 < 0 := by
    constructor
    · rintro (hneg | ⟨rc, b', t, ht, hneg⟩)
      · by_contra hnonneg
        exact absurd hneg (Int.not_lt.mpr (finish_rc (Int.not_lt.mp hnonneg)))
      · rw [h] at ht
        rwa [(Arrival.readyToOut.inj (Option.some.inj ht)).1]
    · exact fun hneg => .inr ⟨_, b, s', h, hneg⟩
  have hkept : (l.run req).1 < 0 →
      ((∃ a, arrive S (bare req) s = some a ∧
          a.store = ((Arrival.readyToOut (l.run req).1 b s').finish S (req.CMD.getD [])).store) ↔
        Untouched l req) := by
    intro hneg
    rw [finish_store hneg, arrive_bare hloop, Untouched, hsettle]
  rw [← loop_truthful_iff]
  constructor
  · rintro ⟨hclaim, hleft⟩
    exact ⟨fun hcode i hi => (htook i).mp (hclaim (hsuccess.mpr hcode) i hi),
      fun hneg => (hkept hneg).mp (hleft (herror.mpr hneg))⟩
  · rintro ⟨hclaim, hleft⟩
    exact ⟨fun hreport i hi => (htook i).mpr (hclaim (hsuccess.mp hreport) i hi),
      fun hreport => (hkept (herror.mp hreport)).mpr (hleft (herror.mp hreport))⟩

/-- **When a request tells the truth about its settings.**  `WIRELESS_SIMPLE_CONFIG_DEVICE`
does exactly if it took every setting.  A request whose loop gives its code does exactly if
all its settings were taken, or the loop does not end well and its settings leave the stores
untouched; the others do. -/
theorem honest_iff {S : Services κ} {req : Request} {s : Store κ} {r : Reply κ}
    (h : CGI_do_cmd S req s = some r) :
    Honest S req s r ↔
      (req.CMD = some (ascii "WIRELESS_SIMPLE_CONFIG_DEVICE") →
        ∀ i, Listed req i → WscTook S req s i) ∧
      ∀ l ∈ loopOf S req s, AllTaken l req ∨ (¬ EndsWell l req ∧ Untouched l req) := by
  obtain ⟨a, ha, rfl⟩ := Option.map_eq_some_iff.mp h
  by_cases hsimple : req.CMD = some (ascii "WIRELESS_SIMPLE_CONFIG_DEVICE")
  · have hnone : loopOf S req s = none := by
      rw [loopOf, hsimple, Option.bind_some, if_neg (by decide +kernel), if_pos (.inl rfl)]
    rw [honest_simple_iff hsimple ha, hnone]
    simp [hsimple]
  cases hloop : loopOf S req s with
  | none => simp [honest_of_no_loop hloop hsimple ha, hsimple]
  | some l =>
    rw [honest_loop_iff hloop hsimple ha]
    simp [hsimple]

/-! ### Requests that misreport their settings -/

def CFG_LAN_IP : Nat := CFG_ID_ 2 8 3 0

/-- Services that know one text option and keep the settings they take in a list. -/
def sampleServices : Services (List (Nat × Text)) where
  CFG_set_str := fun id val c => if id = CFG_LAN_IP then (0, (id, val) :: c) else (-1, c)
  CFG_set := fun id val c => (0, (id, decimal val.toNat) :: c)
  CFG_get_str := fun id c => (c.lookup id).getD (ascii "0")
  CFG_id2str := fun id => if id = CFG_LAN_IP then ascii "LAN_IP" else []
  CFG_str2id := fun _ => 0
  CFG_save := id
  m2m_cfg_set := fun _ _ c => c
  f_setting_get := fun _ _ => []
  ps_cgi_cmds := fun _ _ => none
  as_cgi_cmds := fun _ => none
  lastByte := []

def sampleStore : Store (List (Nat × Text)) := ⟨factoryStore, []⟩

def twoSettings (CMD first second : String) : Request where
  CMD := some (ascii CMD)
  SET := fun i =>
    if i = 0 then some (ascii first) else if i = 1 then some (ascii second) else none

theorem twoSettings_listed (CMD first second : String) : Listed (twoSettings CMD first second) 0 :=
  fun j hj => by
    obtain rfl := Nat.le_zero.mp hj
    rfl

def Misreported (req : Request) : Prop :=
  ∃ r, CGI_do_cmd sampleServices req sampleStore = some r ∧
    ¬ Honest sampleServices req sampleStore r

/-- An unknown id before a name: success is reported.  An address that `CFG_set_str` takes, or
a name that `ratpac_set_str` takes, before a variable without `=`: an error is reported, and
they stay.  `WIRELESS_SIMPLE_CONFIG_DEVICE` reports success for the variable without `=`. -/
theorem settings_misreported :
    Misreported (twoSettings "LAN" "1=x" "302055936=Stage left") ∧
      Misreported (twoSettings "LAN" "34079488=10.0.0.9" "oops") ∧
      Misreported (twoSettings "LAN" "302055936=Stage left" "oops") ∧
      Misreported (twoSettings "WIRELESS_SIMPLE_CONFIG_DEVICE" "oops" "74580224=1") := by
  refine ⟨⟨_, rfl, fun h => ?_⟩, ⟨_, rfl, fun h => ?_⟩, ⟨_, rfl, fun h => ?_⟩, ⟨_, rfl, fun h => ?_⟩⟩
  · have htook := h.success ⟨_, _, rfl⟩ 0 (twoSettings_listed _ _ _)
    rw [Took, if_neg (by decide +kernel)] at htook
    obtain ⟨l, hl, t, ht, hsucceeds⟩ := htook
    obtain rfl := Option.some.inj hl
    obtain rfl := Option.some.inj ht
    exact absurd hsucceeds (by decide)
  · obtain ⟨a, ha, hstore⟩ := h.error (.inr ⟨_, _, _, rfl, by decide⟩)
    obtain rfl := Option.some.inj ha
    exact absurd (congrArg Store.cfg hstore) (by decide +kernel)
  · obtain ⟨a, ha, hstore⟩ := h.error (.inr ⟨_, _, _, rfl, by decide⟩)
    obtain rfl := Option.some.inj ha
    exact absurd (congrArg (fun t => t.web.g_web_config 1) hstore) (by decide +kernel)
  · have htook := h.success ⟨_, _, rfl⟩ 0 (twoSettings_listed _ _ _)
    rw [Took, if_pos (by rfl)] at htook
    obtain ⟨-, cmdv, hcmdv, a, harg, -⟩ := htook
    obtain rfl := Option.some.inj hcmdv
    have hnone : setArg (ascii "oops") = none := by decide +kernel
    rw [hnone] at harg
    cases harg

/-- Both settings are taken, one by each setter. -/
def takenRequest : Request := twoSettings "LAN" "34079488=10.0.0.9" "302055936=Stage left"

theorem honest_iff_sample :
    ∃ r, CGI_do_cmd sampleServices takenRequest sampleStore = some r ∧
      (Honest sampleServices takenRequest sampleStore r ↔
        (takenRequest.CMD = some (ascii "WIRELESS_SIMPLE_CONFIG_DEVICE") →
          ∀ i, Listed takenRequest i → WscTook sampleServices takenRequest sampleStore i) ∧
        ∀ l ∈ loopOf sampleServices takenRequest sampleStore,
          AllTaken l takenRequest ∨ (¬ EndsWell l takenRequest ∧ Untouched l takenRequest)) :=
  ⟨_, rfl, honest_iff rfl⟩

end AksFirmware.SettingsReport
