import AksFirmware.Runs
import Mathlib.Data.List.Count

/-!
# The body of an upload

A request that carries a firmware file owns its body until the server has answered it.  The
handlers of the upgrade page may take the body over into `upgrade_mem`; `CGI_upgrade_save`
flashes the file found in it, and a timeout frees it when no such request comes.

`CGI_upgrade_upload` sets `upgrade_file` before it looks whether an upload is waiting.  In
every run each body is freed once, but `upgrade_file` belongs to `upgrade_mem` only as long
as no upload arrives while another one waits.
-/

namespace AksFirmware.UpgradeUploads

def CGI_RC_UPGRADE : Int := 5
def CGI_RC_FILE_INVALID : Int := -6
def FLASH_FWM_MAX_SIZE : Int := 832 * 1024

/-! ### Bodies and pointers into them -/

/-- A body as it is received, and where the form field `files` lies in it. -/
structure Body where
  size : Nat
  files : Option (Nat × Nat)
  files_le : ∀ p ∈ files, p.1 + p.2 ≤ size

/-- A body in memory.  No two have the same number. -/
structure Content extends Body where
  id : Nat

/-- A `char *` into a body. -/
structure Pointer where
  content : Nat
  offset : Nat
deriving DecidableEq, Repr

/-- What `http_put_file` is given by `CGI_upgrade_save`, and the bodies freed before. -/
structure Flash where
  mem : Content
  file : Option Pointer
  len : Int
  freed : List Nat

/-- The part of the request the handlers use; `len` is what an `int len` of theirs holds
when no file is found. -/
structure http_req where
  content : Option Content
  len : Int

structure Globals where
  upgrade_file : Option Pointer
  upgrade_mem : Option Content
  upgrade_file_len : Int
  upgrade_time_stamp : Nat
  /-- The arguments of the pending timeouts of `CGI_upgrade_free`. -/
  timeouts : List Nat
  /-- The number of bodies received so far. -/
  received : Nat
  freed : List Nat
  flashed : List Flash

structure Reply where
  rc : Int
  reboot : Bool
  req : http_req
  state : Globals

/-! ### The handlers -/

def CGI_free_content (c : Content) (s : Globals) : Globals := { s with freed := s.freed ++ [c.id] }

def CGI_upgrade_free (s : Globals) : Globals :=
  match s.upgrade_mem with
  | none => s
  | some c => { CGI_free_content c s with upgrade_mem := none }

def WEB_upload_file (req : http_req) : Option Pointer × Int :=
  match req.content with
  | none => (none, req.len)
  | some c =>
    match c.files with
    | none => (none, req.len)
    | some (offset, len) => (some ⟨c.id, offset⟩, len)

/-- `upgrade_mem = req->content; req->content = 0; CGI_upgrade_free();` and the answer. -/
def takeAndFree (rc : Int) (reboot : Bool) (req : http_req) (s : Globals) : Reply :=
  ⟨rc, reboot, { req with content := none }, CGI_upgrade_free { s with upgrade_mem := req.content }⟩

/-- `rc` is the result of `http_put_file`. -/
def CGI_do_uboot_upgrade (rc : Int) (req : http_req) (s : Globals) : Reply :=
  if s.upgrade_mem.isSome then ⟨CGI_RC_FILE_INVALID, false, req, s⟩
  else if rc ≠ 0 then takeAndFree CGI_RC_FILE_INVALID false req s
  else takeAndFree CGI_RC_UPGRADE true req s

def CGI_do_load_cert (req : http_req) (s : Globals) : Reply :=
  if s.upgrade_mem.isSome then ⟨CGI_RC_FILE_INVALID, false, req, s⟩
  else takeAndFree CGI_RC_UPGRADE false req s

def CGI_upgrade (rc : Int) (req : http_req) (s : Globals) : Reply :=
  if s.upgrade_mem.isSome then ⟨CGI_RC_FILE_INVALID, false, req, s⟩
  else
    let len := (WEB_upload_file req).2
    if len ≤ 760 * 1024 ∨ len ≥ FLASH_FWM_MAX_SIZE then
      ⟨CGI_RC_FILE_INVALID, false, req, CGI_upgrade_free s⟩
    else if rc ≠ 0 then takeAndFree CGI_RC_FILE_INVALID false req s
    else takeAndFree CGI_RC_UPGRADE true req s

/-- `rc` is the result of `SAMD_firmware_download`. -/
def CGI_SAMD_upgrade (rc : Int) (req : http_req) (s : Globals) : Reply :=
  if s.upgrade_mem.isSome then ⟨CGI_RC_FILE_INVALID, false, req, s⟩
  else if rc ≠ 0 then takeAndFree rc false req s
  else takeAndFree CGI_RC_UPGRADE false req s

def CGI_TIMO_upgrade (rc : Int) (req : http_req) (s : Globals) : Reply :=
  if s.upgrade_mem.isSome then ⟨CGI_RC_FILE_INVALID, false, req, s⟩
  else if rc ≠ 0 then takeAndFree CGI_RC_FILE_INVALID false req s
  else takeAndFree CGI_RC_UPGRADE false req s

def CGI_upgrade_upload (now : Nat) (req : http_req) (s : Globals) : Reply :=
  let (file, len) := WEB_upload_file req
  let s := { s with upgrade_file := file }
  if file = none then ⟨-1, false, req, s⟩
  else if s.upgrade_mem.isSome then ⟨-1, false, req, s⟩
  else
    ⟨0, false, { req with content := none },
      { s with
        upgrade_time_stamp := now
        upgrade_file_len := len
        upgrade_mem := req.content
        timeouts := now :: s.timeouts }⟩

def CGI_upgrade_save (rc : Int) (req : http_req) (s : Globals) : Reply :=
  match s.upgrade_mem with
  | none => ⟨CGI_RC_FILE_INVALID, false, req, s⟩
  | some c =>
    let s := { s with
      timeouts := s.timeouts.erase s.upgrade_time_stamp
      flashed := s.flashed ++ [⟨c, s.upgrade_file, s.upgrade_file_len, s.freed⟩] }
    ⟨if rc ≠ 0 then CGI_RC_FILE_INVALID else CGI_RC_UPGRADE, false, req, CGI_upgrade_free s⟩

/-! ### Runs -/

inductive Handler where
  | CGI_do_uboot_upgrade | CGI_do_load_cert | CGI_upgrade | CGI_SAMD_upgrade | CGI_TIMO_upgrade
  | CGI_upgrade_upload | CGI_upgrade_save
deriving DecidableEq, Repr

/-- A request as it arrives, with the results of the calls its handler makes: `rc` of the
routine that writes the file, `now` of `time`. -/
structure Request where
  body : Option Body
  len : Int
  rc : Int
  now : Nat

def Handler.run (r : Request) : Handler → http_req → Globals → Reply
  | .CGI_do_uboot_upgrade => UpgradeUploads.CGI_do_uboot_upgrade r.rc
  | .CGI_do_load_cert => UpgradeUploads.CGI_do_load_cert
  | .CGI_upgrade => UpgradeUploads.CGI_upgrade r.rc
  | .CGI_SAMD_upgrade => UpgradeUploads.CGI_SAMD_upgrade r.rc
  | .CGI_TIMO_upgrade => UpgradeUploads.CGI_TIMO_upgrade r.rc
  | .CGI_upgrade_upload => UpgradeUploads.CGI_upgrade_upload r.now
  | .CGI_upgrade_save => UpgradeUploads.CGI_upgrade_save r.rc

/-- The body of a request in memory. -/
def Request.content (r : Request) (s : Globals) : Option Content :=
  r.body.map fun b => ⟨b, s.received⟩

/-- The end of a request: a body that it still has is freed. -/
def Reply.close (reply : Reply) : Globals :=
  match reply.req.content with
  | none => reply.state
  | some c => CGI_free_content c reply.state

/-- The body of a request is received. -/
def Request.arrive (r : Request) (s : Globals) : Globals :=
  { s with received := s.received + (r.content s).toList.length }

def serve (h : Handler) (r : Request) (s : Globals) : Globals :=
  (h.run r ⟨r.content s, r.len⟩ (r.arrive s)).close

/-- A pending timeout of `CGI_upgrade_free` fires. -/
def expire (arg : Nat) (s : Globals) : Globals :=
  if arg ∈ s.timeouts then CGI_upgrade_free { s with timeouts := s.timeouts.erase arg } else s

inductive Event where
  | request (h : Handler) (r : Request)
  | timer (arg : Nat)

def step (s : Globals) : Event → Option Globals
  | .request h r => some (serve h r s)
  | .timer arg => some (expire arg s)

def start : Globals where
  upgrade_file := none
  upgrade_mem := none
  upgrade_file_len := 0
  upgrade_time_stamp := 0
  timeouts := []
  received := 0
  freed := []
  flashed := []

/-! ### What a request does -/

def ids (content : Option Content) : List Nat := content.toList.map Content.id

/-- The three ways of a request. -/
inductive Served (h : Handler) (r : Request) (s : Globals) : Globals → Prop
  /-- The body is freed, by the handler or by the server. -/
  | done (file : Option Pointer) (hold : h ≠ .CGI_upgrade_upload → file = s.upgrade_file)
      (hnew : h = .CGI_upgrade_upload → ∀ p, file = some p → p.content = s.received) :
      Served h r s
        { r.arrive s with upgrade_file := file, freed := s.freed ++ ids (r.content s) }
  | kept (c : Content) (offset len : Nat) (hh : h = .CGI_upgrade_upload)
      (hmem : s.upgrade_mem = none) (hc : r.content s = some c)
      (hfiles : c.files = some (offset, len)) :
      Served h r s
        { r.arrive s with
          upgrade_file := some ⟨c.id, offset⟩
          upgrade_mem := some c
          upgrade_file_len := len
          upgrade_time_stamp := r.now
          timeouts := r.now :: s.timeouts }
  | saved (c : Content) (hh : h = .CGI_upgrade_save) (hmem : s.upgrade_mem = some c) :
      Served h r s
        { r.arrive s with
          upgrade_mem := none
          timeouts := s.timeouts.erase s.upgrade_time_stamp
          freed := s.freed ++ [c.id] ++ ids (r.content s)
          flashed := s.flashed ++ [⟨c, s.upgrade_file, s.upgrade_file_len, s.freed⟩] }

/-- After the request only its own body is gone. -/
def Leaves (reply : Reply) (req : http_req) (s : Globals) : Prop :=
  reply.close = { s with freed := s.freed ++ ids req.content }

theorem leaves_pass (rc : Int) (reboot : Bool) (req : http_req) (s : Globals) :
    Leaves ⟨rc, reboot, req, s⟩ req s := by
  obtain ⟨_ | c, len⟩ := req
  · simp [Leaves, Reply.close, ids]
  · rfl

theorem leaves_takeAndFree (rc : Int) (reboot : Bool) (req : http_req) {s : Globals}
    (hmem : s.upgrade_mem = none) : Leaves (takeAndFree rc reboot req s) req s := by
  obtain ⟨_ | c, len⟩ := req <;>
    simp [Leaves, takeAndFree, Reply.close, CGI_upgrade_free, CGI_free_content, ids, hmem]

theorem leaves_guarded {reply : Reply} {req : http_req} {s : Globals}
    (h : s.upgrade_mem = none → Leaves reply req s) :
    Leaves (if s.upgrade_mem.isSome then ⟨CGI_RC_FILE_INVALID, false, req, s⟩ else reply) req s := by
  split
  · exact leaves_pass _ _ req s
  · exact h (Option.not_isSome_iff_eq_none.mp ‹_›)

/-- Every handler but the two of the delayed upgrade leaves the globals as they are. -/
theorem run_leaves {h : Handler} (hupload : h ≠ .CGI_upgrade_upload) (hsave : h ≠ .CGI_upgrade_save)
    (r : Request) (req : http_req) (s : Globals) : Leaves (h.run r req s) req s := by
  cases h with
  | CGI_do_uboot_upgrade | CGI_SAMD_upgrade | CGI_TIMO_upgrade =>
    apply leaves_guarded
    intro hmem
    split <;> exact leaves_takeAndFree _ _ req hmem
  | CGI_do_load_cert => exact leaves_guarded fun hmem => leaves_takeAndFree _ _ req hmem
  | CGI_upgrade =>
    apply leaves_guarded
    intro hmem
    have hfree : CGI_upgrade_free s = s := by rw [CGI_upgrade_free, hmem]
    simp only [hfree]
    split
    · exact leaves_pass _ _ req s
    · split <;> exact leaves_takeAndFree _ _ req hmem
  | CGI_upgrade_upload => exact absurd rfl hupload
  | CGI_upgrade_save => exact absurd rfl hsave

theorem upload_cases (now : Nat) (req : http_req) (s : Globals) :
    Leaves (CGI_upgrade_upload now req s) req { s with upgrade_file := (WEB_upload_file req).1 } ∨
      ∃ c offset len, req.content = some c ∧ c.files = some (offset, len) ∧ s.upgrade_mem = none ∧
        (CGI_upgrade_upload now req s).close =
          { s with
            upgrade_file := some ⟨c.id, offset⟩
            upgrade_mem := some c
            upgrade_file_len := len
            upgrade_time_stamp := now
            timeouts := now :: s.timeouts } := by
  obtain ⟨content, unset⟩ := req
  rcases hcontent : content with _ | c
  · exact .inl (leaves_pass _ _ _ _)
  rcases hfiles : c.files with _ | ⟨offset, len⟩
  · refine .inl ?_
    simp only [CGI_upgrade_upload, WEB_upload_file, hfiles]
    exact leaves_pass _ _ _ _
  rcases hmem : s.upgrade_mem with _ | old
  · refine .inr ⟨c, offset, len, rfl, hfiles, rfl, ?_⟩
    simp only [CGI_upgrade_upload, WEB_upload_file, hfiles, hmem]
    rfl
  · refine .inl ?_
    simp only [CGI_upgrade_upload, WEB_upload_file, hfiles, hmem]
    exact leaves_pass _ _ _ _

theorem save_cases (rc : Int) (req : http_req) (s : Globals) :
    s.upgrade_mem = none ∧ Leaves (CGI_upgrade_save rc req s) req s ∨
      ∃ c, s.upgrade_mem = some c ∧
        (CGI_upgrade_save rc req s).close =
          { s with
            upgrade_mem := none
            timeouts := s.timeouts.erase s.upgrade_time_stamp
            freed := s.freed ++ [c.id] ++ ids req.content
            flashed := s.flashed ++ [⟨c, s.upgrade_file, s.upgrade_file_len, s.freed⟩] } := by
  rcases hmem : s.upgrade_mem with _ | c
  · refine .inl ⟨rfl, ?_⟩
    simp only [CGI_upgrade_save, hmem]
    exact leaves_pass _ _ req s
  · refine .inr ⟨c, rfl, ?_⟩
    simp only [CGI_upgrade_save, hmem]
    exact leaves_pass _ _ req _

/-- The file that is found lies in the body of the request. -/
theorem upload_file_content {r : Request} {s : Globals} {p : Pointer}
    (h : (WEB_upload_file ⟨r.content s, r.len⟩).1 = some p) : p.content = s.received := by
  obtain ⟨_ | b, len, rc, now⟩ := r
  · cases h
  · simp only [WEB_upload_file, Request.content, Option.map_some] at h
    split at h
    · cases h
    · exact Option.some.inj h ▸ rfl

theorem serve_cases (h : Handler) (r : Request) (s : Globals) : Served h r s (serve h r s) := by
  by_cases hupload : h = .CGI_upgrade_upload
  · subst hupload
    rcases upload_cases r.now ⟨r.content s, r.len⟩ (r.arrive s) with
      hleaves | ⟨c, offset, len, hc, hfiles, hmem, heq⟩
    · have heq : serve .CGI_upgrade_upload r s = _ := hleaves
      exact heq ▸ .done _ (absurd rfl) fun _ p hp => upload_file_content hp
    · have heq : serve .CGI_upgrade_upload r s = _ := heq
      exact heq ▸ .kept c offset len rfl hmem hc hfiles
  by_cases hsave : h = .CGI_upgrade_save
  · subst hsave
    rcases save_cases r.rc ⟨r.content s, r.len⟩ (r.arrive s) with ⟨-, hleaves⟩ | ⟨c, hmem, heq⟩
    · have heq : serve .CGI_upgrade_save r s = _ := hleaves
      exact heq ▸ .done _ (fun _ => rfl) nofun
    · have heq : serve .CGI_upgrade_save r s = _ := heq
      exact heq ▸ .saved c rfl hmem
  · have heq : serve h r s = _ := run_leaves hupload hsave r ⟨r.content s, r.len⟩ (r.arrive s)
    exact heq ▸ .done _ (fun _ => rfl) (absurd · hupload)

/-! ### Every body is freed once -/

/-- Every body received is freed once, but for the one in `upgrade_mem`: that one is not
freed yet and has its timeout pending. -/
structure Ledger (s : Globals) : Prop where
  counted : ∀ id < s.received,
    s.freed.count id = if s.upgrade_mem.map Content.id = some id then 0 else 1
  freed_lt : ∀ id ∈ s.freed, id < s.received
  mem_lt : ∀ c, s.upgrade_mem = some c → c.id < s.received
  timeouts : s.timeouts = if s.upgrade_mem.isSome then [s.upgrade_time_stamp] else []

theorem Ledger.count_received {s : Globals} (h : Ledger s) : s.freed.count s.received = 0 :=
  List.count_eq_zero.mpr fun hmem => Nat.lt_irrefl _ (h.freed_lt _ hmem)

theorem Ledger.mem_ne {s : Globals} (h : Ledger s) :
    s.upgrade_mem.map Content.id ≠ some s.received := by
  intro heq
  obtain ⟨c, hc, hid⟩ := Option.map_eq_some_iff.mp heq
  exact absurd (h.mem_lt c hc) (hid ▸ Nat.lt_irrefl _)

theorem Ledger.pass {s : Globals} (h : Ledger s) (r : Request) (file : Option Pointer) :
    Ledger { r.arrive s with upgrade_file := file, freed := s.freed ++ ids (r.content s) } := by
  rcases hbody : r.body with _ | b
  · have hcontent : r.content s = none := by rw [Request.content, hbody, Option.map_none]
    simp only [Request.arrive, hcontent, ids, Option.toList_none, List.map_nil, List.length_nil,
      Nat.add_zero, List.append_nil]
    exact ⟨h.counted, h.freed_lt, h.mem_lt, h.timeouts⟩
  have hcontent : r.content s = some ⟨b, s.received⟩ := by
    rw [Request.content, hbody, Option.map_some]
  simp only [Request.arrive, hcontent, ids, Option.toList_some, List.map_cons, List.map_nil,
    List.length_singleton]
  refine ⟨fun id hid => ?_, fun id hid => ?_, fun c hc => ?_, h.timeouts⟩
  · simp only [List.count_append, List.count_singleton]
    rcases Nat.lt_succ_iff_lt_or_eq.mp hid with hlt | rfl
    · rw [if_neg (by simpa using Nat.ne_of_gt hlt), Nat.add_zero]
      exact h.counted id hlt
    · rw [h.count_received, if_neg h.mem_ne]
      simp
  · rcases List.mem_append.mp hid with hold | hnew
    · exact Nat.lt_succ_of_lt (h.freed_lt id hold)
    · exact List.mem_singleton.mp hnew ▸ Nat.lt_succ_self _
  · exact Nat.lt_succ_of_lt (h.mem_lt c hc)

theorem Ledger.release {s : Globals} (h : Ledger s) {c : Content} (hmem : s.upgrade_mem = some c)
    (flashed : List Flash) :
    Ledger
      { s with
        upgrade_mem := none
        timeouts := s.timeouts.erase s.upgrade_time_stamp
        freed := s.freed ++ [c.id]
        flashed := flashed } := by
  have htimeouts := h.timeouts
  rw [hmem, Option.isSome_some, if_pos rfl] at htimeouts
  refine ⟨fun id hid => ?_, fun id hid => ?_, fun c hc => ?_, ?_⟩
  · have hcount := h.counted id hid
    simp only [hmem, Option.map_some, Option.some.injEq] at hcount
    simp only [List.count_append, List.count_singleton, hcount, Option.map_none, reduceCtorEq,
      if_false, beq_iff_eq]
    split <;> rfl
  · rcases List.mem_append.mp hid with hold | hnew
    · exact h.freed_lt id hold
    · exact List.mem_singleton.mp hnew ▸ h.mem_lt c hmem
  · cases hc
  · simp [htimeouts]

theorem Ledger.keep {s : Globals} (h : Ledger s) (hmem : s.upgrade_mem = none) (b : Body)
    (file : Option Pointer) (len : Int) (now : Nat) :
    Ledger
      { s with
        upgrade_file := file
        upgrade_mem := some ⟨b, s.received⟩
        upgrade_file_len := len
        upgrade_time_stamp := now
        timeouts := now :: s.timeouts
        received := s.received + 1 } := by
  have htimeouts := h.timeouts
  rw [hmem, Option.isSome_none, if_neg Bool.false_ne_true] at htimeouts
  refine ⟨fun id hid => ?_, fun id hid => ?_, fun c hc => ?_, ?_⟩
  · simp only [Option.map_some, Option.some.injEq]
    rcases Nat.lt_succ_iff_lt_or_eq.mp hid with hlt | rfl
    · rw [if_neg (Nat.ne_of_gt hlt), h.counted id hlt, hmem]
      rfl
    · rw [if_pos rfl, h.count_received]
  · exact Nat.lt_succ_of_lt (h.freed_lt id hid)
  · exact Option.some.inj hc ▸ Nat.lt_succ_self _
  · simp [htimeouts]

theorem expire_cases (arg : Nat) {s : Globals} (h : Ledger s) :
    expire arg s = s ∨ ∃ c, s.upgrade_mem = some c ∧ expire arg s =
      { s with
        upgrade_mem := none
        timeouts := s.timeouts.erase s.upgrade_time_stamp
        freed := s.freed ++ [c.id] } := by
  unfold expire
  split
  · rename_i harg
    have htimeouts := h.timeouts
    rcases hmem : s.upgrade_mem with _ | c
    · rw [htimeouts, hmem] at harg
      cases harg
    · rw [hmem, Option.isSome_some, if_pos rfl] at htimeouts
      rw [htimeouts, List.mem_singleton] at harg
      refine .inr ⟨c, rfl, ?_⟩
      simp only [CGI_upgrade_free, CGI_free_content, harg]
  · exact .inl rfl

theorem Ledger.step {s t : Globals} {e : Event} (h : Ledger s) (hstep : step s e = some t) :
    Ledger t := by
  cases e with
  | request hd r =>
    have hserved := serve_cases hd r s
    rw [Option.some.inj hstep] at hserved
    cases hserved with
    | done file _ _ => exact h.pass r file
    | kept c offset len _ hmem hc _ =>
      obtain ⟨b, hbody, rfl⟩ := Option.map_eq_some_iff.mp hc
      have hlen : (r.content s).toList.length = 1 := by rw [hc]; rfl
      simp only [Request.arrive, hlen]
      exact h.keep hmem b _ _ _
    | saved c _ hmem => exact (h.release hmem _).pass r _
  | timer arg =>
    obtain rfl := Option.some.inj hstep
    rcases expire_cases arg h with heq | ⟨c, hmem, heq⟩
    · rw [heq]
      exact h
    · rw [heq]
      exact h.release hmem _

/-! ### The file of the upload that waits -/

/-- `upgrade_file` is the file in `upgrade_mem`, and `upgrade_file_len` is its length. -/
def Consistent (s : Globals) : Prop :=
  ∀ c, s.upgrade_mem = some c → ∃ offset len : Nat, c.files = some (offset, len) ∧
    s.upgrade_file = some ⟨c.id, offset⟩ ∧ s.upgrade_file_len = len

/-- The bytes that are flashed lie in a body that was not freed before. -/
def Flash.Owned (f : Flash) : Prop :=
  ∃ offset len : Nat, f.file = some ⟨f.mem.id, offset⟩ ∧ f.len = len ∧
    offset + len ≤ f.mem.size ∧ f.mem.id ∉ f.freed

structure Sound (s : Globals) : Prop where
  ledger : Ledger s
  consistent : Consistent s
  owned : ∀ f ∈ s.flashed, f.Owned

theorem consistent_of_none {s : Globals} (h : s.upgrade_mem = none) : Consistent s := by
  intro c hc
  rw [h] at hc
  cases hc

theorem Sound.flash_owned {s : Globals} (h : Sound s) {c : Content} (hmem : s.upgrade_mem = some c) :
    (Flash.mk c s.upgrade_file s.upgrade_file_len s.freed).Owned := by
  obtain ⟨offset, len, hfiles, hfile, hlen⟩ := h.consistent c hmem
  refine ⟨offset, len, hfile, hlen, c.files_le _ hfiles, fun hfreed => ?_⟩
  have hcount := h.ledger.counted c.id (h.ledger.mem_lt c hmem)
  rw [hmem, Option.map_some, if_pos rfl] at hcount
  exact List.count_eq_zero.mp hcount hfreed

/-- An upload is not sent while another one waits. -/
def Accepted (s : Globals) : Event → Prop
  | .request .CGI_upgrade_upload _ => s.upgrade_mem = none
  | _ => True

/-- An upload that is turned away takes `upgrade_file` with it. -/
theorem upload_dangles {s : Globals} (h : Sound s) {r : Request} {c : Content}
    (hmem : s.upgrade_mem = some c) : ¬ Consistent (serve .CGI_upgrade_upload r s) := by
  have hserved := serve_cases .CGI_upgrade_upload r s
  generalize serve .CGI_upgrade_upload r s = t at hserved ⊢
  cases hserved with
  | done file _ hnew =>
    intro hcons
    obtain ⟨offset, -, -, hfile, -⟩ := hcons c hmem
    have hid := hnew rfl _ hfile
    exact absurd (h.ledger.mem_lt c hmem) (Nat.not_lt.mpr (Nat.le_of_eq hid.symm))
  | kept _ _ _ _ hnone => exact absurd (hmem.symm.trans hnone) (by simp)
  | saved _ hh => cases hh

theorem request_sound {s : Globals} (h : Sound s) {hd : Handler} {r : Request}
    (hok : Accepted s (.request hd r)) : Sound (serve hd r s) := by
  have hledger := h.ledger.step (rfl : step s (.request hd r) = some (serve hd r s))
  have hserved := serve_cases hd r s
  generalize serve hd r s = t at hledger hserved ⊢
  cases hserved with
  | done file hold _ =>
    refine ⟨hledger, ?_, h.owned⟩
    by_cases hupload : hd = .CGI_upgrade_upload
    · subst hupload
      exact consistent_of_none hok
    · intro c hc
      exact hold hupload ▸ h.consistent c hc
  | kept c offset len _ _ _ hfiles =>
    refine ⟨hledger, fun c' hc' => ?_, h.owned⟩
    cases hc'
    exact ⟨offset, len, hfiles, rfl, rfl⟩
  | saved c _ hmem =>
    refine ⟨hledger, consistent_of_none rfl, fun f hf => ?_⟩
    rcases List.mem_append.mp hf with hold | hnew
    · exact h.owned f hold
    · exact List.mem_singleton.mp hnew ▸ h.flash_owned hmem

theorem step_sound {s : Globals} (h : Sound s) (e : Event) :
    (∃ t, step s e = some t ∧ Sound t) ↔ Accepted s e := by
  cases e with
  | request hd r =>
    constructor
    · rintro ⟨t, hstep, ht⟩
      obtain rfl := Option.some.inj hstep
      cases hd with
      | CGI_upgrade_upload =>
        by_contra hbusy
        obtain ⟨c, hmem⟩ := Option.ne_none_iff_exists'.mp hbusy
        exact upload_dangles h hmem ht.consistent
      | _ => trivial
    · intro hok
      exact ⟨_, rfl, request_sound h hok⟩
  | timer arg =>
    refine iff_of_true ⟨_, rfl, ?_⟩ trivial
    have hledger := h.ledger.step (rfl : step s (.timer arg) = some (expire arg s))
    rcases expire_cases arg h.ledger with heq | ⟨c, hmem, heq⟩
    · rw [heq]
      exact h
    · rw [heq] at hledger ⊢
      exact ⟨hledger, consistent_of_none rfl, h.owned⟩

theorem start_sound : Sound start where
  ledger := ⟨fun _ hid => absurd hid (Nat.not_lt_zero _), nofun, nofun, rfl⟩
  consistent := nofun
  owned := nofun

/-- **Who owns an upload.**  Requests and timeouts in any order: up to any point of the
sequence every body is freed once, or waits in `upgrade_mem` with `upgrade_file` pointing to
its file, and only bytes of a waiting body have been flashed, if and only if no upload
arrived while another one waited. -/
theorem sound_iff (events : List Event) :
    (∀ before after, events = before ++ after →
        ∃ s, Runs.exec step start before = some s ∧ Sound s) ↔
      Runs.Each step Accepted start events :=
  Runs.exec_within_iff (fun _ e _ h => step_sound h e) start_sound

/-- In every run, whatever arrives, each body is freed once. -/
theorem freed_once {events : List Event} {s : Globals}
    (h : Runs.exec step start events = some s) : Ledger s :=
  Runs.exec_invariant (fun _ _ _ hs hstep => hs.step hstep) start_sound.ledger h

def fileRequest (len : Nat) : Request where
  body := some ⟨len + 100, some (100, len), by simp [Nat.add_comm]⟩
  len := 0
  rc := 0
  now := 0

/-- The second of two uploads is turned away; what is saved then is taken from its body,
which is freed by now. -/
theorem second_upload_dangles :
    ∃ s, Runs.exec step start [.request .CGI_upgrade_upload (fileRequest 800000),
        .request .CGI_upgrade_upload (fileRequest 1000),
        .request .CGI_upgrade_save ⟨none, 0, 0, 0⟩] = some s ∧
      s.flashed.map (fun f => (f.file, f.len, f.mem.id, f.freed)) =
        [(some ⟨1, 100⟩, 800000, 0, [1])] ∧ ¬ Sound s := by
  refine ⟨_, rfl, rfl, fun h => ?_⟩
  obtain ⟨offset, len, hfile, -⟩ := h.owned _ (List.mem_singleton.mpr rfl)
  cases hfile

end AksFirmware.UpgradeUploads
