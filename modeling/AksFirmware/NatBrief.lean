import Mathlib.Data.List.Nodup
import AksFirmware.CText
import AksFirmware.SeparatedText

/-!
# The summary of the NAT sessions

`CGI_get_nat_session_brief` counts the TCP and UDP sessions of each source address.  It looks
an address up in the summary that it has so far and appends an entry when it is not there.
The summary stands behind the sessions in one allocation, with room for 512 entries, and the
counters have 16 bits.

An entry beyond the allocation has no outcome here.
-/

namespace AksFirmware.NatBrief

open ByteMemory CText

/-! ### The sessions and their summary -/

/-- The members of `nat_sessinfo_t` that are read. -/
structure NatSession where
  sip : InAddr
  prot : UInt16
deriving DecidableEq

/-- What `ipnat_session_list` leaves in a buffer for `nat_table_max` sessions; none when it
fails. -/
structure SessionBuffer (nat_table_max : Nat) where
  sessions : List NatSession
  fits : sessions.length ≤ nat_table_max

structure NatBrif where
  sip : InAddr
  tcpnum : UInt16
  udpnum : UInt16
deriving DecidableEq

def MAX_NATBRIF_NUM : Nat := 512

/-- A session of an address that has an entry. -/
def NatBrif.count (b : NatBrif) (prot : UInt16) : NatBrif :=
  if prot = 6 then { b with tcpnum := b.tcpnum + 1 }
  else if prot = 17 then { b with udpnum := b.udpnum + 1 }
  else b

/-- The entry of an address with its first session. -/
def NatBrif.first (s : NatSession) : NatBrif :=
  { sip := s.sip, tcpnum := if s.prot = 6 then 1 else 0,
    udpnum := if s.prot = 6 then 0 else if s.prot = 17 then 1 else 0 }

/-- The inner loop; `none` when it runs to the end of the summary. -/
def countIn (s : NatSession) : List NatBrif → Option (List NatBrif)
  | [] => none
  | b :: brif =>
      if s.sip = b.sip then some (b.count s.prot :: brif) else (countIn s brif).map (b :: ·)

def addSession (brif : List NatBrif) (s : NatSession) : Option (List NatBrif) :=
  match countIn s brif with
  | some counted => some counted
  | none => if brif.length < MAX_NATBRIF_NUM then some (brif ++ [.first s]) else none

def summarise : List NatBrif → List NatSession → Option (List NatBrif)
  | brif, [] => some brif
  | brif, s :: sessions => do
      let brif ← addSession brif s
      summarise brif sessions

/-! ### What is printed -/

/-- An address and its numbers of TCP and UDP sessions. -/
abbrev Entry := InAddr × Nat × Nat

def entryText (e : Entry) : Text :=
  ascii "\n'" ++ inet_ntoa e.1 ++ ascii ";" ++ decimal e.2.1 ++ ascii ";" ++ decimal e.2.2 ++
    ascii "'"

def briefText : List Entry → Text
  | [] => []
  | e :: es => entryText e ++ es.flatMap fun e => ascii "," ++ entryText e

def NatBrif.entry (b : NatBrif) : Entry := (b.sip, b.tcpnum.toNat, b.udpnum.toNat)

/-- The return code and what is printed; `none` for the buffer when `malloc` fails. -/
def CGI_get_nat_session_brief {nat_table_max : Nat} (buf : Option (SessionBuffer nat_table_max)) :
    Option (Int × Text) :=
  match buf with
  | none => some (-1, [])
  | some buf => (summarise [] buf.sessions).map fun brif => (0, briefText (brif.map NatBrif.entry))

/-! ### The counts that it stands for -/

/-- The source addresses in the order in which they first appear. -/
def sources (sessions : List NatSession) : List InAddr := (sessions.map NatSession.sip).eraseDups

def numOf (prot : UInt16) (ip : InAddr) (sessions : List NatSession) : Nat :=
  sessions.countP fun s => s.sip = ip ∧ s.prot = prot

def entries (sessions : List NatSession) : List Entry :=
  (sources sessions).map fun ip => (ip, numOf 6 ip sessions, numOf 17 ip sessions)

/-- The entry of an address when the counters are as wide as they are. -/
def counted (sessions : List NatSession) (ip : InAddr) : NatBrif :=
  ⟨ip, (numOf 6 ip sessions).toUInt16, (numOf 17 ip sessions).toUInt16⟩

def summary (sessions : List NatSession) : List NatBrif := (sources sessions).map (counted sessions)

theorem numOf_append (prot : UInt16) (ip : InAddr) (sessions : List NatSession) (s : NatSession) :
    numOf prot ip (sessions ++ [s]) =
      numOf prot ip sessions + if s.sip = ip ∧ s.prot = prot then 1 else 0 := by
  rw [numOf, List.countP_append, List.countP_singleton]
  simp only [decide_eq_true_eq, numOf]

theorem counted_append_of_ne {sessions : List NatSession} {s : NatSession} {ip : InAddr}
    (h : s.sip ≠ ip) : counted (sessions ++ [s]) ip = counted sessions ip := by
  simp only [counted, numOf_append, h, false_and, if_false, Nat.add_zero]

theorem counted_append (sessions : List NatSession) (s : NatSession) :
    counted (sessions ++ [s]) s.sip = (counted sessions s.sip).count s.prot := by
  have hstep : ∀ n : Nat, (n + 1).toUInt16 = n.toUInt16 + 1 := fun n => UInt16.ofNat_add n 1
  simp only [counted, numOf_append, true_and, NatBrif.count]
  by_cases htcp : s.prot = 6
  · rw [if_pos htcp, if_pos htcp, if_neg (by rw [htcp]; decide), hstep]
    rfl
  · rw [if_neg htcp, if_neg htcp]
    by_cases hudp : s.prot = 17
    · rw [if_pos hudp, if_pos hudp, hstep]
      rfl
    · rw [if_neg hudp, if_neg hudp]
      rfl

theorem sources_append (sessions : List NatSession) (s : NatSession) :
    sources (sessions ++ [s]) =
      if s.sip ∈ sources sessions then sources sessions else sources sessions ++ [s.sip] := by
  have hsame : s.sip ∈ sources sessions ↔ s.sip ∈ sessions.map NatSession.sip := List.mem_eraseDups
  have hsplit : sources (sessions ++ [s]) =
      sources sessions ++ ([s.sip].removeAll (sessions.map NatSession.sip)).eraseDups := by
    rw [sources, List.map_append, List.eraseDups_append]
    rfl
  rw [hsplit]
  by_cases hmem : s.sip ∈ sources sessions
  · rw [if_pos hmem]
    simp [List.cons_removeAll, hsame.mp hmem]
  · rw [if_neg hmem]
    simp [List.cons_removeAll, mt hsame.mpr hmem, List.eraseDups_cons]

theorem sources_nodup (sessions : List NatSession) : (sources sessions).Nodup := by
  induction sessions using List.reverseRecOn with
  | nil => exact List.nodup_nil
  | append_singleton sessions s ih =>
    rw [sources_append]
    split
    · exact ih
    · rename_i hnew
      exact List.nodup_append.mpr ⟨ih, List.nodup_cons.mpr ⟨by simp, List.nodup_nil⟩, fun a ha b hb heq =>
        hnew (List.mem_singleton.mp hb ▸ heq ▸ ha)⟩

/-! ### The loops -/

/-- The inner loop finds the entry of the address, wherever it stands. -/
theorem countIn_counted (sessions : List NatSession) (s : NatSession) {ips : List InAddr}
    (hips : ips.Nodup) :
    countIn s (ips.map (counted sessions)) =
      if s.sip ∈ ips then some (ips.map (counted (sessions ++ [s]))) else none := by
  induction ips with
  | nil => rfl
  | cons ip ips ih =>
    obtain ⟨hfresh, hips⟩ := List.nodup_cons.mp hips
    rw [List.map_cons, List.map_cons, countIn]
    by_cases hip : s.sip = ip
    · have hrest : ips.map (counted (sessions ++ [s])) = ips.map (counted sessions) := by
        apply List.map_congr_left
        intro ip' hmem
        exact counted_append_of_ne fun heq => hfresh (hip ▸ heq ▸ hmem)
      rw [if_pos (show s.sip = (counted sessions ip).sip from hip),
        if_pos (List.mem_cons.mpr (.inl hip)), hrest, ← hip, counted_append]
    · rw [if_neg (show ¬ s.sip = (counted sessions ip).sip from hip), ih hips,
        counted_append_of_ne hip]
      by_cases hmem : s.sip ∈ ips
      · rw [if_pos hmem, if_pos (List.mem_cons_of_mem ip hmem)]
        rfl
      · rw [if_neg hmem, if_neg (by simp [hip, hmem])]
        rfl

theorem counted_first {sessions : List NatSession} {s : NatSession}
    (h : s.sip ∉ sources sessions) : counted (sessions ++ [s]) s.sip = .first s := by
  have hnone : ∀ prot, numOf prot s.sip sessions = 0 := by
    intro prot
    apply List.countP_eq_zero.mpr
    intro s' hmem hcount
    have hsip : s'.sip = s.sip := (of_decide_eq_true hcount).1
    exact h (List.mem_eraseDups.mpr (hsip ▸ List.mem_map_of_mem hmem))
  rw [counted_append, counted, hnone, hnone, NatBrif.count, NatBrif.first]
  by_cases htcp : s.prot = 6
  · rw [if_pos htcp, if_pos htcp, if_pos htcp]
    rfl
  · rw [if_neg htcp, if_neg htcp, if_neg htcp]
    split <;> rfl

/-- One session more is one entry more or one count more. -/
theorem addSession_summary (sessions : List NatSession) (s : NatSession)
    (hroom : (sources sessions).length ≤ MAX_NATBRIF_NUM) :
    addSession (summary sessions) s =
      if (sources (sessions ++ [s])).length ≤ MAX_NATBRIF_NUM then some (summary (sessions ++ [s]))
      else none := by
  rw [addSession, summary, countIn_counted sessions s (sources_nodup sessions), summary,
    sources_append]
  by_cases hmem : s.sip ∈ sources sessions
  · rw [if_pos hmem, if_pos hmem, if_pos hroom]
  · have hrest : (sources sessions).map (counted (sessions ++ [s])) =
        (sources sessions).map (counted sessions) := by
      apply List.map_congr_left
      intro ip hip
      exact counted_append_of_ne fun heq => hmem (heq ▸ hip)
    rw [if_neg hmem, if_neg hmem, List.map_append, hrest, List.map_singleton, counted_first hmem]
    simp only [List.length_map, List.length_append, List.length_singleton, Nat.lt_iff_add_one_le]

theorem sources_length_le (sessions more : List NatSession) :
    (sources sessions).length ≤ (sources (sessions ++ more)).length := by
  unfold sources
  rw [List.map_append, List.eraseDups_append, List.length_append]
  exact Nat.le_add_right _ _

/-- The summary fits, or the loop writes behind it. -/
theorem summarise_from (more : List NatSession) : ∀ sessions : List NatSession,
    (sources sessions).length ≤ MAX_NATBRIF_NUM →
    summarise (summary sessions) more =
      if (sources (sessions ++ more)).length ≤ MAX_NATBRIF_NUM then some (summary (sessions ++ more))
      else none := by
  induction more with
  | nil =>
    intro sessions hroom
    rw [summarise, List.append_nil, if_pos hroom]
  | cons s more ih =>
    intro sessions hroom
    rw [summarise, addSession_summary sessions s hroom, List.append_cons sessions s more]
    by_cases hnext : (sources (sessions ++ [s])).length ≤ MAX_NATBRIF_NUM
    · rw [if_pos hnext]
      exact ih _ hnext
    · have hlonger := sources_length_le (sessions ++ [s]) more
      rw [if_neg hnext, if_neg fun hle => hnext (Nat.le_trans hlonger hle)]
      rfl

theorem summarise_eq (sessions : List NatSession) :
    summarise [] sessions =
      if (sources sessions).length ≤ MAX_NATBRIF_NUM then some (summary sessions) else none :=
  summarise_from sessions [] (Nat.zero_le _)

/-! ### Reading the numbers -/

/-- A printed number ends at the first byte that is no digit. -/
theorem decimal_cons_inj {n k : Nat} {c : UInt8} (hc : isdigit c = false) {s t : Text}
    (h : decimal n ++ c :: s = decimal k ++ c :: t) : n = k ∧ s = t := by
  have hdigits : ∀ n, c ∉ decimal n := fun n hmem => by
    have hdigit := isdigit_decimal c hmem
    rw [hc] at hdigit
    cases hdigit
  obtain ⟨hnum, hrest⟩ := SeparatedText.field_inj (hdigits n) (hdigits k) h
  exact ⟨decimal_inj hnum, hrest⟩

theorem entryText_append_inj {ip : InAddr} {n n' : Nat × Nat} {s t : Text}
    (h : entryText (ip, n) ++ s = entryText (ip, n') ++ t) : n = n' ∧ s = t := by
  simp only [entryText, List.append_assoc, List.append_cancel_left_eq] at h
  obtain ⟨htcp, h⟩ := decimal_cons_inj (by decide) h
  obtain ⟨hudp, h⟩ := decimal_cons_inj (by decide) h
  exact ⟨Prod.ext htcp hudp, h⟩

theorem briefText_inj {ips : List InAddr} {f g : InAddr → Nat × Nat}
    (h : briefText (ips.map fun ip => (ip, f ip)) = briefText (ips.map fun ip => (ip, g ip))) :
    ∀ ip ∈ ips, f ip = g ip := by
  have htail : ∀ ips : List InAddr,
      (ips.map fun ip => (ip, f ip)).flatMap (fun e => ascii "," ++ entryText e) =
        (ips.map fun ip => (ip, g ip)).flatMap (fun e => ascii "," ++ entryText e) →
      ∀ ip ∈ ips, f ip = g ip := by
    intro ips
    induction ips with
    | nil => exact fun _ _ hip => nomatch hip
    | cons ip ips ih =>
      intro h
      simp only [List.map_cons, List.flatMap_cons, List.append_assoc,
        List.append_cancel_left_eq] at h
      obtain ⟨hip, hrest⟩ := entryText_append_inj h
      exact List.forall_mem_cons.mpr ⟨hip, ih hrest⟩
  cases ips with
  | nil => exact fun _ hip => nomatch hip
  | cons ip ips =>
    obtain ⟨hip, hrest⟩ := entryText_append_inj h
    exact List.forall_mem_cons.mpr ⟨hip, htail ips hrest⟩

/-! ### What is printed for a list of sessions -/

theorem brief_eq {nat_table_max : Nat} (buf : SessionBuffer nat_table_max) :
    CGI_get_nat_session_brief (some buf) =
      if (sources buf.sessions).length ≤ MAX_NATBRIF_NUM then
        some (0, briefText ((sources buf.sessions).map fun ip =>
          (ip, numOf 6 ip buf.sessions % 65536, numOf 17 ip buf.sessions % 65536)))
      else none := by
  rw [CGI_get_nat_session_brief, summarise_eq]
  split
  · rw [Option.map_some, summary, List.map_map]
    rfl
  · rfl

/-- As many sessions as addresses, `10.0.0.0` and on. -/
def manySources (n : Nat) : List NatSession :=
  (List.range n).map fun i => ⟨⟨10, (i / 65536).toUInt8, (i / 256).toUInt8, i.toUInt8⟩, 6⟩

theorem sources_of_nodup {sessions : List NatSession} (h : (sessions.map NatSession.sip).Nodup) :
    sources sessions = sessions.map NatSession.sip := by
  induction sessions using List.reverseRecOn with
  | nil => rfl
  | append_singleton sessions s ih =>
    rw [List.map_append, List.nodup_append] at h
    obtain ⟨hfirst, -, hfresh⟩ := h
    have hnew : s.sip ∉ sessions.map NatSession.sip := fun hmem =>
      hfresh _ hmem _ (List.mem_singleton.mpr rfl) rfl
    rw [sources_append, ih hfirst, if_neg hnew, List.map_append]
    rfl

theorem manySources_nodup {n : Nat} (hn : n ≤ 65536) :
    ((manySources n).map NatSession.sip).Nodup := by
  rw [manySources, List.map_map]
  refine List.Nodup.map_on (fun i hi k hk heq => ?_) List.nodup_range
  rw [List.mem_range] at hi hk
  have hc := congrArg UInt8.toNat (congrArg InAddr.c heq)
  have hd := congrArg UInt8.toNat (congrArg InAddr.d heq)
  simp only [Function.comp_apply, Nat.toUInt8_eq, UInt8.toNat_ofNat'] at hc hd
  omega

/-- 513 addresses reach behind the summary. -/
theorem brief_leaves_summary :
    CGI_get_nat_session_brief (some ⟨manySources 513, Nat.le_of_eq rfl⟩ :
      Option (SessionBuffer (manySources 513).length)) = none := by
  have hlen : (sources (manySources 513)).length = 513 := by
    rw [sources_of_nodup (manySources_nodup (by decide)), manySources, List.length_map,
      List.length_map, List.length_range]
  rw [brief_eq]
  exact if_neg (by rw [hlen]; decide)

/-- The page lists the addresses with their numbers of sessions exactly when the summary has
room for them and no number needs a seventeenth bit. -/
theorem brief_counts_iff {nat_table_max : Nat} (buf : SessionBuffer nat_table_max) :
    CGI_get_nat_session_brief (some buf) = some (0, briefText (entries buf.sessions)) ↔
      (sources buf.sessions).length ≤ MAX_NATBRIF_NUM ∧
        ∀ ip ∈ sources buf.sessions,
          numOf 6 ip buf.sessions < 65536 ∧ numOf 17 ip buf.sessions < 65536 := by
  rw [brief_eq]
  constructor
  · intro h
    obtain ⟨hroom, htext⟩ := Option.ite_none_right_eq_some.mp h
    refine ⟨hroom, fun ip hip => ?_⟩
    have hsame := briefText_inj (congrArg Prod.snd (Option.some.inj htext)) ip hip
    have htcp := congrArg Prod.fst hsame
    have hudp := congrArg Prod.snd hsame
    dsimp only at htcp hudp
    omega
  · rintro ⟨hroom, hnum⟩
    have hentries : (sources buf.sessions).map (fun ip =>
        (ip, numOf 6 ip buf.sessions % 65536, numOf 17 ip buf.sessions % 65536)) =
        entries buf.sessions := by
      apply List.map_congr_left
      intro ip hip
      rw [Nat.mod_eq_of_lt (hnum ip hip).1, Nat.mod_eq_of_lt (hnum ip hip).2]
    rw [if_pos hroom, hentries]

example : briefText (entries [⟨⟨10, 0, 0, 2⟩, 6⟩, ⟨⟨10, 0, 0, 3⟩, 17⟩, ⟨⟨10, 0, 0, 2⟩, 6⟩]) =
    ascii "\n'10.0.0.2;2;0',\n'10.0.0.3;0;1'" := by
  decide

end AksFirmware.NatBrief
