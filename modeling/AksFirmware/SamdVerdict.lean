import AksFirmware.SamdSender
import Mathlib.Data.List.Forall2

/-!
# What a successful download was told

`SAMD_firmware_download` returns 0 for success.  The answers that take it there are
described by a grammar: one command takes at most one timeout, the prompt and each block
may be answered wrongly once, and the rest has to be right at once.  The grammar ends
before the last message, whose answer the routine does not look at.  An answer that
`ret_buff` does not hold ends the run wherever it is read.

The line of `SamdSender` is kept here with a record of every transmission and of what came
back, so that being answered is said about the record and not about the routine.
-/

namespace AksFirmware.SamdVerdict

open ByteMemory CText SamdDownload SamdSender
open SamdLink (RET_BUFF_SIZE)

/-! ### Matches in order -/

section InOrder

variable {α β : Type} {R : α → β → Prop}

theorem sublistForall₂_append_left {as : List α} {bs : List β} (h : List.SublistForall₂ R as bs)
    (front : List β) : List.SublistForall₂ R as (front ++ bs) := by
  induction front with
  | nil => exact h
  | cons b front ih => exact .cons_right ih

theorem sublistForall₂_append {as as' : List α} {bs bs' : List β}
    (h : List.SublistForall₂ R as bs) (h' : List.SublistForall₂ R as' bs') :
    List.SublistForall₂ R (as ++ as') (bs ++ bs') := by
  induction h with
  | nil => exact sublistForall₂_append_left h' _
  | cons hab _ ih => exact .cons hab ih
  | cons_right _ ih => exact .cons_right ih

theorem sublistForall₂_singleton {a : α} {b : β} {bs : List β} (hb : b ∈ bs) (hab : R a b) :
    List.SublistForall₂ R [a] bs :=
  List.sublistForall₂_iff.mpr ⟨[b], .cons hab .nil, List.singleton_sublist.mpr hb⟩

theorem exists_match_of_mem {as : List α} {bs : List β} (h : List.SublistForall₂ R as bs) {a : α}
    (ha : a ∈ as) : ∃ b ∈ bs, R a b := by
  induction h with
  | nil => cases ha
  | cons hab _ ih =>
    rcases List.mem_cons.mp ha with rfl | ha
    · exact ⟨_, List.mem_cons_self, hab⟩
    · obtain ⟨b, hb, hR⟩ := ih ha
      exact ⟨b, List.mem_cons_of_mem _ hb, hR⟩
  | cons_right _ ih =>
    obtain ⟨b, hb, hR⟩ := ih ha
    exact ⟨b, List.mem_cons_of_mem _ hb, hR⟩

end InOrder

/-! ### The answers that lead to the last message -/

/-- How a routine takes its answers: it accepts them and `rest` is still to come, it refuses
them, or `ret_buff` does not hold one of them. -/
inductive Judged where
  | accepted (rest : Answers)
  | refused
  | overrun
deriving DecidableEq

def Judged.andThen : Judged → (Answers → Judged) → Judged
  | .accepted rest, f => f rest
  | .refused, _ => .refused
  | .overrun, _ => .overrun

/-- One command: a first timeout is followed by a second transmission. -/
def reply (answers : Answers) : Option (List UInt8) × Answers :=
  match script [] answers with
  | (some a, rest) => (some a, rest)
  | (none, rest) => script [] rest

/-- `ret_buff` holds what a command is answered. -/
def ReplyFits (answers : Answers) : Prop :=
  ∀ a, (reply answers).1 = some a → a.length < RET_BUFF_SIZE

/-- The command is accepted when its answer is as wanted; what follows another answer or two
timeouts is up to `other` and `lost`. -/
def judge (want : Text) (other lost : Answers → Judged) (answers : Answers) : Judged :=
  match reply answers with
  | (some a, rest) =>
      match copyAnswer a with
      | some buff => if strstr (answerText buff) want then .accepted rest else other rest
      | none => .overrun
  | (none, rest) => lost rest

def positive (want : Text) : Answers → Judged := judge want (fun _ => .refused) fun _ => .refused

/-- A first prompt may time out, or be garbage when it asks for the SAMD itself. -/
def promptAnswers (which : Int) : Answers → Judged :=
  judge (ascii "update") (fun rest => if which = 1 then .refused else positive (ascii "update") rest)
    (positive (ascii "update"))

/-- A block may be answered wrongly once. -/
def blockAnswers : Answers → Judged :=
  judge (ascii "ok") (positive (ascii "ok")) fun _ => .refused

def blocksAnswers : Nat → Answers → Judged
  | 0, answers => .accepted answers
  | n + 1, answers => (blockAnswers answers).andThen (blocksAnswers n)

/-- Everything before the last message is answered as it must be. -/
def acceptedAnswers (which : Int) (n : Nat) (answers : Answers) : Judged :=
  (promptAnswers which answers).andThen fun rest =>
    (positive (ascii "ok") rest).andThen (blocksAnswers n)

/-- The last message may be answered in any way that `ret_buff` holds. -/
def downloadAnswers (which : Int) (n : Nat) (answers : Answers) : Judged :=
  (acceptedAnswers which n answers).andThen (judge [] .accepted .accepted)

/-! ### The record -/

/-- The answers still to come, and every transmission with what came back in time. -/
structure Recorded where
  answers : Answers
  log : List (List UInt8 × Option (List UInt8))

def recorder : Line Recorded := fun cmd r =>
  ((script cmd r.answers).1,
    { answers := (script cmd r.answers).2, log := r.log ++ [(cmd, (script cmd r.answers).1)] })

/-- What one command adds to the record. -/
def entries (cmd : List UInt8) (answers : Answers) : List (List UInt8 × Option (List UInt8)) :=
  match script [] answers with
  | (some a, _) => [(cmd, some a)]
  | (none, rest) => [(cmd, none), (cmd, (script [] rest).1)]

theorem entries_cmd {cmd : List UInt8} {answers : Answers}
    {e : List UInt8 × Option (List UInt8)} (h : e ∈ entries cmd answers) : e.1 = cmd := by
  unfold entries at h
  split at h
  · rw [List.mem_singleton.mp h]
  · rcases List.mem_cons.mp h with rfl | h
    · rfl
    · rw [List.mem_singleton.mp h]

/-- The answer of a command is the only one on its record. -/
theorem answer_mem_entries_iff (cmd : List UInt8) (answers : Answers) (a : List UInt8) :
    (cmd, some a) ∈ entries cmd answers ↔ (reply answers).1 = some a := by
  unfold entries reply
  cases hfirst : script [] answers with
  | mk first rest =>
    cases first with
    | some b => simp only [List.mem_singleton, Prod.mk.injEq, true_and, @eq_comm _ (some b)]
    | none => simp [eq_comm]

/-- The sender behind a command that left `buff` in `ret_buff`. -/
def sentCommand (cmd : List UInt8) (s : Sender Recorded) (buff : List UInt8) : Sender Recorded :=
  { s with
    line := ⟨(reply s.line.answers).2, s.line.log ++ entries cmd s.line.answers⟩
    sent := s.sent ++ (entries cmd s.line.answers).map Prod.fst
    ret_buff := buff
    uart_rvc_done := true }

/-- One command, in terms of the answers. -/
theorem send_recorded {cmd : List UInt8} (hcmd : cmd ≠ []) (s : Sender Recorded) :
    Send_SAMD_CMD recorder cmd s =
      match (reply s.line.answers).1 with
      | some a => (copyAnswer a).map fun buff => (0, sentCommand cmd s buff)
      | none => some (-101, sentCommand cmd s []) := by
  have hlen : cmd.length ≠ 0 := fun h0 => hcmd (List.eq_nil_of_length_eq_zero h0)
  rw [SamdSender.Send_SAMD_CMD, if_neg hlen]
  obtain ⟨⟨answers, log⟩, sent, ret_buff, uart_rvc_done, samd_mutex, artnet_enable⟩ := s
  -- the first two transmissions decide: answered, timed out, or nothing left to come
  rcases answers with _ | ⟨_ | a, _ | ⟨_ | b, rest⟩⟩ <;>
    simp [SamdSender.sendLoop, recorder, reply, entries, script, sentCommand]

/-- What is made of an outcome does not decide whether there is one. -/
theorem map_returns_iff {α β : Type} {o : Option α} (f : α → β) :
    (∃ r, o.map f = some r) ↔ ∃ r, o = some r := by
  cases o with
  | none => exact ⟨fun ⟨_, h⟩ => (by cases h), fun ⟨_, h⟩ => (by cases h)⟩
  | some a => exact ⟨fun _ => ⟨a, rfl⟩, fun _ => ⟨f a, rfl⟩⟩

theorem send_line {cmd : List UInt8} (hcmd : cmd ≠ []) {s : Sender Recorded}
    {r : Int × Sender Recorded} (h : Send_SAMD_CMD recorder cmd s = some r) :
    r.2.line.answers = (reply s.line.answers).2 ∧
      r.2.line.log = s.line.log ++ entries cmd s.line.answers := by
  rw [send_recorded hcmd s] at h
  rcases hreply : (reply s.line.answers).1 with _ | a
  · rw [hreply] at h
    rw [← Option.some.inj h]
    exact ⟨rfl, rfl⟩
  · rw [hreply] at h
    obtain ⟨buff, -, rfl⟩ := Option.map_eq_some_iff.mp h
    exact ⟨rfl, rfl⟩

theorem send_returns_iff {cmd : List UInt8} (hcmd : cmd ≠ []) (s : Sender Recorded) :
    (∃ r, Send_SAMD_CMD recorder cmd s = some r) ↔ ReplyFits s.line.answers := by
  rw [send_recorded hcmd s, ReplyFits]
  rcases (reply s.line.answers).1 with _ | a
  · exact ⟨fun _ a ha => (by cases ha), fun _ => ⟨_, rfl⟩⟩
  · by_cases hshort : a.length < RET_BUFF_SIZE
    · simp [copyAnswer, hshort]
    · simp [copyAnswer, hshort]

/-! ### The loops, in terms of the answers -/

/-- The transmission is of that message, and what came back is what is wanted. -/
def Answered (w : List UInt8 × Text) (e : List UInt8 × Option (List UInt8)) : Prop :=
  e.1 = w.1 ∧ ∃ a, e.2 = some a ∧ strstr (answerText a) w.2 = true

/-- Every message was answered as wanted, one after the other. -/
def AllAnswered (wanted : List (List UInt8 × Text))
    (log : List (List UInt8 × Option (List UInt8))) : Prop :=
  List.SublistForall₂ Answered wanted log

/-- From `s` to `s'` only these messages were sent, they were answered as wanted, and `rest`
is left of the answers. -/
def Took (wanted : List (List UInt8 × Text)) (rest : Answers) (s s' : Sender Recorded) : Prop :=
  s'.line.answers = rest ∧ ∃ es, s'.line.log = s.line.log ++ es ∧
    (∀ e ∈ es, e.1 ∈ wanted.map Prod.fst) ∧ AllAnswered wanted es

theorem took_send {cmd : List UInt8} {want : Text} {a : List UInt8} {rest : Answers}
    {s s' : Sender Recorded} (h : reply s.line.answers = (some a, rest))
    (ha : strstr (answerText a) want = true)
    (hline : s'.line = ⟨rest, s.line.log ++ entries cmd s.line.answers⟩) :
    Took [(cmd, want)] rest s s' := by
  have hmem : (cmd, some a) ∈ entries cmd s.line.answers := by rw [answer_mem_entries_iff, h]
  refine ⟨by rw [hline], entries cmd s.line.answers, by rw [hline], fun e he => ?_, ?_⟩
  · rw [entries_cmd he]
    exact List.mem_singleton_self cmd
  · exact sublistForall₂_singleton hmem ⟨rfl, a, rfl, ha⟩

/-- A refused or lost transmission of the same message comes before. -/
theorem Took.after {cmd : List UInt8} {want : Text} {rest rest' answers : Answers}
    {s s₁ s' : Sender Recorded} (h : Took [(cmd, want)] rest s₁ s')
    (hline : s₁.line = ⟨rest', s.line.log ++ entries cmd answers⟩) :
    Took [(cmd, want)] rest s s' := by
  obtain ⟨hrest, es, hlog, hcmd, hall⟩ := h
  refine ⟨hrest, entries cmd answers ++ es, ?_, ?_, sublistForall₂_append_left hall _⟩
  · rw [hlog, hline, List.append_assoc]
  · intro e he
    rcases List.mem_append.mp he with he | he
    · rw [entries_cmd he]
      exact List.mem_singleton_self cmd
    · exact hcmd e he

theorem Took.trans {wanted wanted' : List (List UInt8 × Text)} {rest rest' : Answers}
    {s s₁ s' : Sender Recorded} (h : Took wanted rest s s₁) (h' : Took wanted' rest' s₁ s') :
    Took (wanted ++ wanted') rest' s s' := by
  obtain ⟨-, es, hlog, hcmd, hall⟩ := h
  obtain ⟨hrest', es', hlog', hcmd', hall'⟩ := h'
  refine ⟨hrest', es ++ es', ?_, ?_, sublistForall₂_append hall hall'⟩
  · rw [hlog', hlog, List.append_assoc]
  · intro e he
    rw [List.map_append, List.mem_append]
    rcases List.mem_append.mp he with he | he
    · exact Or.inl (hcmd e he)
    · exact Or.inr (hcmd' e he)

theorem settings_ne_nil (which : Int) : Settings which ≠ [] :=
  List.append_ne_nil_of_right_ne_nil _ (by simp)

/-- A routine decides with the grammar: it ends well where the answers are accepted, with
the rest of them to come, badly where they are refused, and not at all where one of them
does not fit. -/
def Decides (j : Judged) (good : Answers → Prop) (bad lost : Prop) : Prop :=
  match j with
  | .accepted rest => good rest
  | .refused => bad
  | .overrun => lost

section Decides

variable {j : Judged} {good good' : Answers → Prop} {bad bad' lost lost' : Prop}

theorem Decides.imp (h : Decides j good bad lost) (hgood : ∀ rest, good rest → good' rest)
    (hbad : bad → bad') (hlost : lost → lost') : Decides j good' bad' lost' := by
  cases j with
  | accepted rest => exact hgood rest h
  | refused => exact hbad h
  | overrun => exact hlost h

theorem Decides.andThen {f : Answers → Judged} (h : Decides j good bad lost)
    (hgood : ∀ rest, good rest → Decides (f rest) good' bad' lost') (hbad : bad → bad')
    (hlost : lost → lost') : Decides (j.andThen f) good' bad' lost' := by
  cases j with
  | accepted rest => exact hgood rest h
  | refused => exact hbad h
  | overrun => exact hlost h

end Decides

/-- A command in front of the rest of a routine: it is answered as wanted, or in another
way, or not in time, or the answer does not fit. -/
theorem judge_decides {cmd : List UInt8} (hcmd : cmd ≠ []) (want : Text)
    {other lost : Answers → Judged} (s : Sender Recorded) {good : Answers → Prop}
    {bad broken : Prop}
    (hgood : ∀ rest s', Send_SAMD_CMD recorder cmd s = some (0, s') →
      strstr (answerText s'.ret_buff) want = true → Took [(cmd, want)] rest s s' → good rest)
    (hother : ∀ rest s', Send_SAMD_CMD recorder cmd s = some (0, s') →
      ¬ strstr (answerText s'.ret_buff) want = true →
      s'.line = ⟨rest, s.line.log ++ entries cmd s.line.answers⟩ →
        Decides (other rest) good bad broken)
    (hlost : ∀ rest s', Send_SAMD_CMD recorder cmd s = some (-101, s') →
      s'.line = ⟨rest, s.line.log ++ entries cmd s.line.answers⟩ →
        Decides (lost rest) good bad broken)
    (hover : Send_SAMD_CMD recorder cmd s = none → broken) :
    Decides (judge want other lost s.line.answers) good bad broken := by
  have hsend := send_recorded hcmd s
  rw [judge]
  rcases hreply : reply s.line.answers with ⟨_ | a, rest⟩
  · have hrest : (reply s.line.answers).2 = rest := by rw [hreply]
    rw [hreply] at hsend
    exact hlost rest _ hsend (by rw [sentCommand, hrest])
  · have hrest : (reply s.line.answers).2 = rest := by rw [hreply]
    rw [hreply] at hsend
    rcases hcopy : copyAnswer a with _ | t
    · simp only [hcopy, Option.map_none] at hsend
      simp only [hcopy]
      exact hover hsend
    · simp only [hcopy, Option.map_some] at hsend
      simp only [hcopy]
      obtain rfl : a = t := Option.some.inj (Option.ite_none_right_eq_some.mp hcopy).2
      by_cases hwant : strstr (answerText a) want = true
      · rw [if_pos hwant]
        refine hgood rest _ hsend hwant (took_send hreply hwant ?_)
        rw [sentCommand, hrest]
      · rw [if_neg hwant]
        exact hother rest _ hsend hwant (by rw [sentCommand, hrest])

/-- A single command that must be answered as wanted. -/
theorem send_decides {cmd : List UInt8} (hcmd : cmd ≠ []) (want : Text) (s : Sender Recorded) :
    Decides (positive want s.line.answers)
      (fun rest => ∃ s', Send_SAMD_CMD recorder cmd s = some (0, s') ∧
        strstr (answerText s'.ret_buff) want = true ∧ Took [(cmd, want)] rest s s')
      (∃ ret s', Send_SAMD_CMD recorder cmd s = some (ret, s') ∧
        (ret ≠ 0 ∨ ¬ strstr (answerText s'.ret_buff) want = true))
      (Send_SAMD_CMD recorder cmd s = none) := by
  refine judge_decides hcmd want s ?_ ?_ ?_ id
  · intro rest s' hsend hwant htook
    exact ⟨s', hsend, hwant, htook⟩
  · intro rest s' hsend hwant _
    exact ⟨0, s', hsend, Or.inr hwant⟩
  · intro rest s' hsend _
    exact ⟨-101, s', hsend, Or.inl (by decide)⟩

/-- The last round of the prompt. -/
theorem promptLoop_last (which ret : Int) (s : Sender Recorded) :
    Decides (positive (ascii "update") s.line.answers)
      (fun rest => ∃ s', promptLoop recorder which 1 1 ret s = some (.ok 0, s') ∧
        Took [(Settings which, ascii "update")] rest s s')
      (∃ r s', promptLoop recorder which 1 1 ret s = some (r, s') ∧ r ≠ .ok 0)
      (promptLoop recorder which 1 1 ret s = none) := by
  refine (send_decides (settings_ne_nil which) (ascii "update") s).imp ?_ ?_ ?_
  · rintro rest ⟨s', hsend, hupdate, htook⟩
    exact ⟨s', by simp [SamdSender.promptLoop, hsend, hupdate], htook⟩
  · rintro ⟨ret', s', hsend, hbad⟩
    by_cases hret : ret' = 0
    · have hnot := hbad.resolve_left (not_not.mpr hret)
      exact ⟨.error (-102), s', by simp [SamdSender.promptLoop, hsend, hret, hnot], by simp⟩
    · exact ⟨.ok ret', s', by simp [SamdSender.promptLoop, hsend, hret], by simp [hret]⟩
  · intro hsend
    simp [SamdSender.promptLoop, hsend]

theorem promptLoop_recorded (which : Int) (s : Sender Recorded) :
    Decides (promptAnswers which s.line.answers)
      (fun rest => ∃ s', promptLoop recorder which 2 0 0 s = some (.ok 0, s') ∧
        Took [(Settings which, ascii "update")] rest s s')
      (∃ r s', promptLoop recorder which 2 0 0 s = some (r, s') ∧ r ≠ .ok 0)
      (promptLoop recorder which 2 0 0 s = none) := by
  -- the second round, whatever the first one recorded
  have hsecond : ∀ (ret : Int) {s₁ : Sender Recorded} {rest : Answers},
      s₁.line = ⟨rest, s.line.log ++ entries (Settings which) s.line.answers⟩ →
      promptLoop recorder which 2 0 0 s = promptLoop recorder which 1 1 ret s₁ →
      Decides (positive (ascii "update") rest)
        (fun rest => ∃ s', promptLoop recorder which 2 0 0 s = some (.ok 0, s') ∧
          Took [(Settings which, ascii "update")] rest s s')
        (∃ r s', promptLoop recorder which 2 0 0 s = some (r, s') ∧ r ≠ .ok 0)
        (promptLoop recorder which 2 0 0 s = none) := by
    intro ret s₁ rest hline hloop
    have hlast := promptLoop_last which ret s₁
    rw [hloop, ← show s₁.line.answers = rest by rw [hline]]
    refine hlast.imp ?_ id id
    rintro _ ⟨s', hrun, htook⟩
    exact ⟨s', hrun, htook.after hline⟩
  refine judge_decides (settings_ne_nil which) (ascii "update") s ?_ ?_ ?_ ?_
  · intro rest s' hsend hupdate htook
    exact ⟨s', by simp [SamdSender.promptLoop, hsend, hupdate], htook⟩
  · intro rest s₁ hsend hnot hline
    by_cases hwhich : which = 1
    · subst hwhich
      exact ⟨.error (-102), s₁, by simp [SamdSender.promptLoop, hsend, hnot], by simp⟩
    · rw [if_neg hwhich]
      exact hsecond 0 hline (by rw [SamdSender.promptLoop, hsend]; simp [hnot, hwhich])
  · intro rest s₁ hsend hline
    exact hsecond (-101) hline (by rw [SamdSender.promptLoop, hsend]; rfl)
  · intro hsend
    simp [SamdSender.promptLoop, hsend]

/-- The second round of a block. -/
theorem blockLoop_last {pkt : List UInt8} (hpkt : pkt ≠ []) (s : Sender Recorded) :
    Decides (positive (ascii "ok") s.line.answers)
      (fun rest => ∃ s', blockLoop recorder pkt 1 1 s = some (0, s') ∧
        Took [(pkt, ascii "ok")] rest s s')
      (∃ ret s', blockLoop recorder pkt 1 1 s = some (ret, s') ∧ ret ≠ 0)
      (blockLoop recorder pkt 1 1 s = none) := by
  refine (send_decides hpkt (ascii "ok") s).imp ?_ ?_ ?_
  · rintro rest ⟨s', hsend, hok, htook⟩
    exact ⟨s', by simp [SamdSender.blockLoop, hsend, hok], htook⟩
  · rintro ⟨ret, s', hsend, hbad⟩
    by_cases hret : ret = 0
    · have hnot := hbad.resolve_left (not_not.mpr hret)
      exact ⟨-104, s', by simp [SamdSender.blockLoop, hsend, hret, hnot], by decide⟩
    · exact ⟨ret, s', by simp [SamdSender.blockLoop, hsend, hret], hret⟩
  · intro hsend
    simp [SamdSender.blockLoop, hsend]

theorem blockLoop_recorded {pkt : List UInt8} (hpkt : pkt ≠ []) (s : Sender Recorded) :
    Decides (blockAnswers s.line.answers)
      (fun rest => ∃ s', blockLoop recorder pkt 2 0 s = some (0, s') ∧
        Took [(pkt, ascii "ok")] rest s s')
      (∃ ret s', blockLoop recorder pkt 2 0 s = some (ret, s') ∧ ret ≠ 0)
      (blockLoop recorder pkt 2 0 s = none) := by
  refine judge_decides hpkt (ascii "ok") s ?_ ?_ ?_ ?_
  · intro rest s' hsend hok htook
    exact ⟨s', by simp [SamdSender.blockLoop, hsend, hok], htook⟩
  · intro rest s₁ hsend hnot hline
    have hloop : blockLoop recorder pkt 2 0 s = blockLoop recorder pkt 1 1 s₁ := by
      rw [SamdSender.blockLoop, hsend]
      simp [hnot]
    have hlast := blockLoop_last hpkt s₁
    rw [show s₁.line.answers = rest by rw [hline]] at hlast
    rw [hloop]
    refine hlast.imp ?_ id id
    rintro _ ⟨s', hrun, htook⟩
    exact ⟨s', hrun, htook.after hline⟩
  · intro rest s₁ hsend _
    exact ⟨-101, s₁, by simp [SamdSender.blockLoop, hsend], by decide⟩
  · intro hsend
    simp [SamdSender.blockLoop, hsend]

/-- The packets of the blocks, each to be answered with `ok`. -/
def wantedBlocks (bs : List (List UInt8)) : List (List UInt8 × Text) :=
  bs.map fun b => (samd_pkt b, ascii "ok")

theorem blocksLoop_recorded (bs : List (List UInt8)) (s : Sender Recorded) :
    Decides (blocksAnswers bs.length s.line.answers)
      (fun rest => ∃ s', blocksLoop recorder bs s = some (0, s') ∧ Took (wantedBlocks bs) rest s s')
      (∃ ret s', blocksLoop recorder bs s = some (ret, s') ∧ ret ≠ 0)
      (blocksLoop recorder bs s = none) := by
  induction bs generalizing s with
  | nil => exact ⟨s, rfl, rfl, [], by simp, by simp, .nil⟩
  | cons b bs ih =>
    have hpkt : samd_pkt b ≠ [] := List.append_ne_nil_of_right_ne_nil _ (by simp)
    refine (blockLoop_recorded hpkt s).andThen ?_ ?_ ?_
    · rintro rest ⟨s₁, hblock, htook⟩
      have hrun : blocksLoop recorder (b :: bs) s = blocksLoop recorder bs s₁ := by
        simp only [SamdSender.blocksLoop, hblock]
        rfl
      have hbs := ih s₁
      rw [htook.1] at hbs
      rw [hrun]
      refine hbs.imp ?_ id id
      rintro _ ⟨s', hloop, htook'⟩
      exact ⟨s', hloop, htook.trans htook'⟩
    · rintro ⟨ret, s', hblock, hret⟩
      exact ⟨ret, s', by simp [SamdSender.blocksLoop, hblock, hret], hret⟩
    · intro hblock
      simp [SamdSender.blocksLoop, hblock]

/-! ### The download -/

/-- What must be answered before the last message, and how. -/
def wantedBefore (firmware : List UInt8) (which : Int) : List (List UInt8 × Text) :=
  [(Settings which, ascii "update")] ++ ([(ascii "yes", ascii "ok")] ++
    wantedBlocks (blocks firmware))

/-- The prompt, the confirmation, every block and the last message. -/
def wantedMessages (firmware : List UInt8) (which : Int) : List (List UInt8 × Text) :=
  wantedBefore firmware which ++ [(done_msg firmware, ascii "ok")]

/-- The only error that the prompt returns from inside its loop. -/
theorem promptLoop_error {which ret ret' : Int} {tries i : Nat} {s s' : Sender Recorded}
    (h : promptLoop recorder which tries i ret s = some (.error ret', s')) : ret' = -102 := by
  induction tries generalizing i ret s with
  | zero => cases h
  | succ tries ih =>
    obtain ⟨r, -, h⟩ := Option.bind_eq_some_iff.mp h
    split at h
    · exact ih h
    · split at h
      · split at h
        · cases h
          rfl
        · exact ih h
      · cases h

/-- The rest of the download, once the prompt is answered. -/
theorem afterPrompt_recorded (firmware : List UInt8) (s₁ : Sender Recorded) :
    Decides ((positive (ascii "ok") s₁.line.answers).andThen (blocksAnswers (blocks firmware).length))
      (fun rest => ∃ s₂, Took ([(ascii "yes", ascii "ok")] ++ wantedBlocks (blocks firmware))
          rest s₁ s₂ ∧
        afterPrompt recorder firmware s₁ =
          (Send_SAMD_CMD recorder (done_msg firmware) s₂).map fun r => release 0 r.2)
      (∃ ret s', afterPrompt recorder firmware s₁ = some (ret, s') ∧ ret ≠ 0)
      (afterPrompt recorder firmware s₁ = none) := by
  have hyesne : ascii "yes" ≠ [] := by decide
  refine (send_decides hyesne (ascii "ok") s₁).andThen ?_ ?_ ?_
  · rintro rest₂ ⟨s₂, hyes, hok, htook₂⟩
    have hrun : afterPrompt recorder firmware s₁ =
        (blocksLoop recorder (blocks firmware) s₂).bind fun r =>
          if r.1 ≠ 0 then some (release r.1 r.2)
          else (Send_SAMD_CMD recorder (done_msg firmware) r.2).map fun r => release 0 r.2 := by
      simp only [afterPrompt, hyes, Option.bind_some, hok, ne_eq, not_true_eq_false, if_false]
    rw [← htook₂.1, hrun]
    refine (blocksLoop_recorded (blocks firmware) s₂).imp ?_ ?_ ?_
    · rintro rest₃ ⟨s₃, hblocks, htook₃⟩
      refine ⟨s₃, htook₂.trans htook₃, ?_⟩
      rw [hblocks, Option.bind_some, if_neg (not_not.mpr rfl)]
    · rintro ⟨ret, s', hblocks, hret⟩
      exact ⟨ret, _, by rw [hblocks, Option.bind_some, if_pos hret]; rfl, hret⟩
    · intro hblocks
      rw [hblocks]
      rfl
  · rintro ⟨ret, s', hyes, hbad⟩
    rw [afterPrompt, hyes, Option.bind_some]
    by_cases hret : ret = 0
    · have hnot := hbad.resolve_left (not_not.mpr hret)
      exact ⟨-103, _, by rw [if_neg (not_not.mpr hret), if_pos hnot]; rfl, by decide⟩
    · exact ⟨ret, _, if_pos hret, hret⟩
  · intro hyes
    rw [afterPrompt, hyes]
    rfl

section Download

variable {firmware : List UInt8} (h : firmware.length ≤ FIRMWARE_PAD_SIZE) (which : Int)
  (s : Sender Recorded)

include h

theorem download_refused_at_prompt {r : Except Int Int} {s₁ : Sender Recorded}
    (hprompt : promptLoop recorder which 2 0 0 (beforePrompt s) = some (r, s₁)) (hr : r ≠ .ok 0) :
    ∃ ret s', SAMD_firmware_download recorder firmware which s = some (ret, s') ∧ ret ≠ 0 := by
  rw [SamdSender.SAMD_firmware_download, if_neg (Nat.not_lt.mpr h), hprompt]
  cases r with
  | error ret => exact ⟨ret, _, rfl, by rw [promptLoop_error hprompt]; decide⟩
  | ok ret =>
    have hret : ret ≠ 0 := fun h0 => hr (by rw [h0])
    exact ⟨ret, _, if_pos hret, hret⟩

/-- **A download, in terms of the answers.** -/
theorem download_recorded :
    Decides (acceptedAnswers which (blocks firmware).length s.line.answers)
      (fun rest => ∃ s₁, Took (wantedBefore firmware which) rest s s₁ ∧
        SAMD_firmware_download recorder firmware which s =
          (Send_SAMD_CMD recorder (done_msg firmware) s₁).map fun r => release 0 r.2)
      (∃ ret s', SAMD_firmware_download recorder firmware which s = some (ret, s') ∧ ret ≠ 0)
      (SAMD_firmware_download recorder firmware which s = none) := by
  refine (promptLoop_recorded which (beforePrompt s)).andThen ?_ ?_ ?_
  · rintro rest₁ ⟨s₁, hprompt, htook₁⟩
    rw [← htook₁.1, download_prompted h hprompt]
    refine (afterPrompt_recorded firmware s₁).imp ?_ id id
    rintro _ ⟨s₂, htook, hrun⟩
    exact ⟨s₂, htook₁.trans htook, hrun⟩
  · rintro ⟨r, s₁, hprompt, hr⟩
    exact download_refused_at_prompt h which s hprompt hr
  · intro hprompt
    rw [SamdSender.SAMD_firmware_download, if_neg (Nat.not_lt.mpr h), hprompt]
    rfl

/-- The last message is none of those before it. -/
theorem done_not_before : done_msg firmware ∉ (wantedBefore firmware which).map Prod.fst := by
  have hlen : (done_msg firmware).length = 7 := rfl
  have hsettings : (Settings which).length = 13 := by simp [Settings, ascii]
  intro hmem
  rcases List.mem_cons.mp hmem with heq | hmem
  · rw [heq, hsettings] at hlen
    exact absurd hlen (by decide)
  rcases List.mem_cons.mp hmem with heq | hmem
  · rw [heq] at hlen
    exact absurd hlen (by decide)
  · obtain ⟨w, hw, heq⟩ := List.mem_map.mp hmem
    obtain ⟨b, hb, rfl⟩ := List.mem_map.mp hw
    rw [← heq, samd_pkt, List.length_append, mem_blocks_length h hb, List.length_singleton] at hlen
    exact absurd hlen (by decide)

end Download

/-- The record of one call. -/
def callLog (s s' : Sender Recorded) : List (List UInt8 × Option (List UInt8)) :=
  s'.line.log.drop s.line.log.length

/-- A success is told in full: no answer that is read overruns `ret_buff`, and the last
message is answered with `ok` whenever everything before it is accepted. -/
def ToldInFull (which : Int) (n : Nat) (answers : Answers) : Prop :=
  match acceptedAnswers which n answers with
  | .accepted rest => ∃ rest', positive (ascii "ok") rest = .accepted rest'
  | .refused => True
  | .overrun => False

theorem positive_iff {want : Text} {answers : Answers} :
    (∃ rest, positive want answers = .accepted rest) ↔
      ∃ a, (reply answers).1 = some a ∧ a.length < RET_BUFF_SIZE ∧
        strstr (answerText a) want = true := by
  rw [positive, judge]
  rcases reply answers with ⟨_ | a, rest⟩
  · exact ⟨fun ⟨_, h⟩ => (by cases h), fun ⟨_, h, _⟩ => (by cases h)⟩
  · simp only [copyAnswer, Option.some.injEq, exists_eq_left']
    by_cases hshort : a.length < RET_BUFF_SIZE
    · by_cases hwant : strstr (answerText a) want = true
      · simp [hshort, hwant]
      · simp [hshort, hwant]
    · simp [hshort]

section Verdict

variable {firmware : List UInt8} {which : Int} {s s₁ : Sender Recorded} {rest : Answers}

/-- Everything was answered exactly when the last message was. -/
theorem allAnswered_iff_done (h : firmware.length ≤ FIRMWARE_PAD_SIZE)
    (htook : Took (wantedBefore firmware which) rest s s₁) {r : Int × Sender Recorded}
    (hsend : Send_SAMD_CMD recorder (done_msg firmware) s₁ = some r) :
    AllAnswered (wantedMessages firmware which) (callLog s (release 0 r.2).2) ↔
      ∃ rest', positive (ascii "ok") rest = .accepted rest' := by
  obtain ⟨hrest, es, hlog, hcmd, hall⟩ := htook
  have hlast := (send_line (done_msg_ne_nil firmware) hsend).2
  have hshort := (send_returns_iff (done_msg_ne_nil firmware) s₁).mp ⟨r, hsend⟩
  rw [hrest] at hlast hshort
  have hcall : callLog s (release 0 r.2).2 = es ++ entries (done_msg firmware) rest := by
    rw [callLog, release, hlast, hlog, List.append_assoc, List.drop_left]
  rw [hcall, positive_iff]
  constructor
  · intro hall'
    obtain ⟨e, he, heq, a, ha, hok⟩ :=
      exists_match_of_mem hall' (List.mem_append_right _ (List.mem_singleton_self _))
    obtain rfl : e = (done_msg firmware, some a) := Prod.ext heq ha
    rcases List.mem_append.mp he with he | he
    · exact absurd (hcmd _ he) (done_not_before h which)
    · have hreply := (answer_mem_entries_iff _ rest a).mp he
      exact ⟨a, hreply, hshort a hreply, hok⟩
  · rintro ⟨a, hreply, -, hok⟩
    have hmem := (answer_mem_entries_iff (done_msg firmware) rest a).mpr hreply
    exact sublistForall₂_append hall (sublistForall₂_singleton hmem ⟨rfl, a, rfl, hok⟩)

end Verdict

theorem download_large {firmware : List UInt8} (h : ¬ firmware.length ≤ FIRMWARE_PAD_SIZE)
    {σ : Type} (exchange : Line σ) (which : Int) (s : Sender σ) :
    SAMD_firmware_download exchange firmware which s = none :=
  if_pos (Nat.lt_of_not_le h)

/-- **When success means that everything was answered.**  The call returns, and with 0 only
if every message was answered positively, exactly for these images and answers. -/
theorem success_answered_iff (firmware : List UInt8) (which : Int) (s : Sender Recorded) :
    (∃ ret s', SAMD_firmware_download recorder firmware which s = some (ret, s') ∧
        (ret = 0 → AllAnswered (wantedMessages firmware which) (callLog s s'))) ↔
      firmware.length ≤ FIRMWARE_PAD_SIZE ∧
        ToldInFull which (blocks firmware).length s.line.answers := by
  by_cases h : firmware.length ≤ FIRMWARE_PAD_SIZE
  · rw [and_iff_right h]
    have hdecides := download_recorded h which s
    rw [ToldInFull]
    rcases haccepted : acceptedAnswers which (blocks firmware).length s.line.answers with
      rest | _ | _
    · rw [haccepted] at hdecides
      obtain ⟨s₁, htook, hrun⟩ := hdecides
      rw [hrun]
      constructor
      · rintro ⟨ret, s', hrun, hall⟩
        obtain ⟨r, hsend, heq⟩ := Option.map_eq_some_iff.mp hrun
        obtain ⟨rfl, rfl⟩ := Prod.mk.inj heq
        exact (allAnswered_iff_done h htook hsend).mp (hall rfl)
      · intro hdone
        obtain ⟨a, hreply, hshort, -⟩ := positive_iff.mp hdone
        have hfits : ReplyFits s₁.line.answers := fun a' ha' => by
          rw [htook.1, hreply] at ha'
          exact Option.some.inj ha' ▸ hshort
        obtain ⟨r, hsend⟩ := (send_returns_iff (done_msg_ne_nil firmware) s₁).mpr hfits
        refine ⟨0, (release 0 r.2).2, ?_, fun _ => (allAnswered_iff_done h htook hsend).mpr hdone⟩
        rw [hsend]
        rfl
    · rw [haccepted] at hdecides
      obtain ⟨ret, s', hrun, hret⟩ := hdecides
      exact ⟨fun _ => trivial, fun _ => ⟨ret, s', hrun, fun h0 => absurd h0 hret⟩⟩
    · rw [haccepted] at hdecides
      have hnone : SAMD_firmware_download recorder firmware which s = none := hdecides
      exact ⟨fun ⟨_, _, hrun, _⟩ => (by rw [hnone] at hrun; cases hrun), fun hfalse => hfalse.elim⟩
  · refine ⟨fun ⟨_, _, hrun, _⟩ => ?_, fun hboth => absurd hboth.1 h⟩
    rw [download_large h recorder which s] at hrun
    cases hrun

/-- A download returns unless the image or an answer that it reads is too long. -/
theorem download_returns_iff (firmware : List UInt8) (which : Int) (s : Sender Recorded) :
    (∃ r, SAMD_firmware_download recorder firmware which s = some r) ↔
      firmware.length ≤ FIRMWARE_PAD_SIZE ∧
        downloadAnswers which (blocks firmware).length s.line.answers ≠ .overrun := by
  by_cases h : firmware.length ≤ FIRMWARE_PAD_SIZE
  · rw [and_iff_right h, downloadAnswers]
    have hdecides := download_recorded h which s
    rcases haccepted : acceptedAnswers which (blocks firmware).length s.line.answers with
      rest | _ | _
    · rw [haccepted] at hdecides
      obtain ⟨s₁, htook, hrun⟩ := hdecides
      rw [hrun, map_returns_iff, send_returns_iff (done_msg_ne_nil firmware), htook.1, ReplyFits,
        Judged.andThen, judge]
      rcases reply rest with ⟨_ | a, rest'⟩
      · exact ⟨fun _ => (by simp), fun _ a ha => (by cases ha)⟩
      · by_cases hshort : a.length < RET_BUFF_SIZE
        · have hempty : strstr (answerText a) [] = true :=
            decide_eq_true (List.nil_infix)
          simp [copyAnswer, hshort, hempty]
        · simp [copyAnswer, hshort]
    · rw [haccepted] at hdecides
      obtain ⟨ret, s', hrun, -⟩ := hdecides
      exact ⟨fun _ => (by simp [Judged.andThen]), fun _ => ⟨_, hrun⟩⟩
    · rw [haccepted] at hdecides
      have hnone : SAMD_firmware_download recorder firmware which s = none := hdecides
      constructor
      · rintro ⟨_, hrun⟩
        rw [hnone] at hrun
        cases hrun
      · exact fun hne => absurd rfl hne
  · constructor
    · rintro ⟨_, hrun⟩
      rw [download_large h recorder which s] at hrun
      cases hrun
    · exact fun hboth => absurd hboth.1 h

def startSender (answers : Answers) : Sender Recorded where
  line := ⟨answers, []⟩
  sent := []
  ret_buff := []
  uart_rvc_done := true
  samd_mutex := []
  artnet_enable := 1

/-- The SAMD refuses the firmware after the last message, and the call returns 0. -/
theorem refusal_reported_as_success :
    ∃ s', SAMD_firmware_download recorder [7, 1, 2] 0
        (startSender ([ascii "update", ascii "ok", ascii "ok", ascii "bad"].map some)) =
          some (0, s') ∧
      ¬ AllAnswered (wantedMessages [7, 1, 2] 0) (callLog
        (startSender ([ascii "update", ascii "ok", ascii "ok", ascii "bad"].map some)) s') := by
  have hsize : ([7, 1, 2] : List UInt8).length ≤ FIRMWARE_PAD_SIZE := by decide
  have hdecides := download_recorded hsize 0
    (startSender ([ascii "update", ascii "ok", ascii "ok", ascii "bad"].map some))
  have haccepted : acceptedAnswers 0 (blocks [7, 1, 2]).length
      ([ascii "update", ascii "ok", ascii "ok", ascii "bad"].map some) =
        .accepted [some (ascii "bad")] := by decide
  rw [startSender, haccepted, ← startSender] at hdecides
  obtain ⟨s₁, htook, hrun⟩ := hdecides
  have hfits : ReplyFits s₁.line.answers := fun a ha => by
    rw [htook.1] at ha
    rw [← Option.some.inj ha]
    decide
  obtain ⟨r, hsend⟩ := (send_returns_iff (done_msg_ne_nil _) s₁).mpr hfits
  refine ⟨(release 0 r.2).2, ?_, fun hall => ?_⟩
  · rw [hrun, hsend]
    rfl
  · obtain ⟨rest', hpositive⟩ := (allAnswered_iff_done hsize htook hsend).mp hall
    exact absurd hpositive (by
      rw [show positive (ascii "ok") [some (ascii "bad")] = .refused by decide]
      simp)

end AksFirmware.SamdVerdict
