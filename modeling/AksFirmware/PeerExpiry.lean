import AksFirmware.PeerPresence
import Mathlib.Data.List.Chain

/-!
# How long a silent peer stays

The loop of `server_thread_main` on a clock that counts ticks of 10 ms.  `select` waits
two seconds: it comes back in fewer than 200 ticks when a datagram arrives, and after
exactly 200 otherwise.  `cur_tick` is set in two places, after the slots are aged and on a
timeout, and traffic makes the turns short; still the slots are aged every two to four
seconds (`aged_every_two_to_four_seconds`), so that a peer is dropped between four and
twelve seconds after its last announcement (`peers_expire`).
-/

namespace AksFirmware.PeerExpiry

open ByteMemory CText PeerTable PeerMemory

/-! ### The loop -/

def TIMEOUT : Nat := 200

/-- One turn of the loop: how `select` and `recvfrom` come back. -/
inductive Turn where
  | timeout (N : NodeInfo)
  | failed (wait : Fin TIMEOUT) (N : NodeInfo)
  | datagram (wait : Fin TIMEOUT) (N : NodeInfo) (sin_addr : InAddr) (bytes : List UInt8)

def Turn.wait : Turn → Nat
  | .timeout _ => TIMEOUT
  | .failed wait _ => wait
  | .datagram wait _ _ _ => wait

def Turn.node : Turn → NodeInfo
  | .timeout N => N
  | .failed _ N => N
  | .datagram _ N _ _ => N

/-- The clock, `cur_tick`, and the times of `age_client_list(0)` so far. -/
structure Clock where
  now : Nat
  cur_tick : Nat
  aged_at : List Nat

def Clock.due (c : Clock) (t : Turn) : Bool := decide (TIMEOUT ≤ c.now + t.wait - c.cur_tick)

def Clock.turn (c : Clock) (t : Turn) : Clock :=
  let now := c.now + t.wait
  let c' : Clock := if c.due t then ⟨now, now, c.aged_at ++ [now]⟩ else { c with now := now }
  match t with
  | .timeout _ => { c' with cur_tick := now }
  | _ => c'

structure Server where
  memory : Memory
  clock : Clock

/-- The table after the test of the clock. -/
def Server.aged (s : Server) (t : Turn) : Option Memory :=
  if s.clock.due t then age_client_list t.node false s.memory else some s.memory

/-- The table after the rest of the turn. -/
def Turn.receive (t : Turn) (M : Memory) : Option Memory :=
  match t with
  | .datagram _ N sin_addr bytes =>
      populate_new_client N (inet_ntoa sin_addr) (received bytes) M
  | _ => some M

def step (s : Server) (t : Turn) : Option Server := do
  let M ← s.aged t
  let M ← t.receive M
  some ⟨M, s.clock.turn t⟩

/-- The server when it enters the loop at time `start`. -/
def enter (N : NodeInfo) (start : Nat) : Option Server :=
  (PeerMemory.server_start N).map fun M => ⟨M, ⟨start, start, []⟩⟩

/-! ### The clock -/

def Spaced (earlier later : Nat) : Prop := earlier + 200 ≤ later ∧ later < earlier + 400

/-- What holds of the clock after every turn. -/
structure Timely (start : Nat) (c : Clock) : Prop where
  le_now : c.cur_tick ≤ c.now
  recent : c.now < c.cur_tick + 200
  last : (start :: c.aged_at).getLast? = some c.cur_tick
  spaced : (start :: c.aged_at).IsChain Spaced

/-- What a turn does to a clock: the slots are aged and `cur_tick` restarts, or they are
not, and `cur_tick` stays. -/
inductive Turned (c c' : Clock) (due : Bool) : Prop where
  | aged : due = true → c'.cur_tick = c'.now → c'.aged_at = c.aged_at ++ [c'.now] →
      Spaced c.cur_tick c'.now → Turned c c' due
  | waited : due = false → c'.cur_tick = c.cur_tick → c'.aged_at = c.aged_at →
      c.now ≤ c'.now → c'.now < c.cur_tick + 200 → Turned c c' due

theorem Turn.wait_le (t : Turn) : t.wait ≤ 200 := by
  cases t with
  | timeout N => exact le_rfl
  | failed wait N => exact wait.isLt.le
  | datagram wait N sin_addr bytes => exact wait.isLt.le

theorem Clock.turn_now (c : Clock) (t : Turn) : (c.turn t).now = c.now + t.wait := by
  simp only [Clock.turn]
  cases t <;> dsimp only <;> split <;> rfl

theorem turned {start : Nat} {c : Clock} (h : Timely start c) (t : Turn) :
    Turned c (c.turn t) (c.due t) := by
  have hwait := t.wait_le
  have hle := h.le_now
  have hrecent := h.recent
  have hnow := c.turn_now t
  cases hdue : c.due t with
  | true =>
    have hlate : 200 ≤ c.now + t.wait - c.cur_tick := of_decide_eq_true hdue
    refine .aged rfl ?_ ?_ ⟨by omega, by omega⟩
    · cases t <;> simp [Clock.turn, hdue]
    · cases t <;> simp [Clock.turn, hdue]
  | false =>
    have hearly : ¬ 200 ≤ c.now + t.wait - c.cur_tick := of_decide_eq_false hdue
    -- a timeout always brings the age of `cur_tick` to 200
    cases t with
    | timeout N => exact absurd (by simp only [Turn.wait, TIMEOUT]; omega) hearly
    | failed wait N =>
      exact .waited rfl (by simp [Clock.turn, hdue]) (by simp [Clock.turn, hdue]) (by omega)
        (by omega)
    | datagram wait N sin_addr bytes =>
      exact .waited rfl (by simp [Clock.turn, hdue]) (by simp [Clock.turn, hdue]) (by omega)
        (by omega)

theorem Timely.turn {start : Nat} {c : Clock} (h : Timely start c) (t : Turn) :
    Timely start (c.turn t) := by
  cases turned h t with
  | aged _ hcur haged hspaced =>
    have hlist : start :: (c.turn t).aged_at = (start :: c.aged_at) ++ [(c.turn t).now] := by
      rw [haged, List.cons_append]
    refine ⟨hcur.le, by omega, ?_, ?_⟩
    · rw [hlist, hcur, List.getLast?_concat]
    · rw [hlist]
      refine h.spaced.append (List.isChain_singleton _) fun x hx y hy => ?_
      rw [h.last] at hx
      obtain rfl := Option.some.inj hx
      obtain rfl := Option.some.inj hy
      exact hspaced
  | waited _ hcur haged hle hlt =>
    have hold := h.le_now
    refine ⟨by omega, by omega, ?_, ?_⟩
    · rw [haged, hcur, h.last]
    · rw [haged]
      exact h.spaced

theorem entered_timely (start : Nat) : Timely start ⟨start, start, []⟩ :=
  ⟨le_rfl, by simp, rfl, List.isChain_singleton start⟩

/-- Whatever arrives and when, the slots are aged at intervals of 200 to 399 ticks. -/
theorem aged_every_two_to_four_seconds (start : Nat) (turns : List Turn) :
    Timely start (turns.foldl Clock.turn ⟨start, start, []⟩) := by
  induction turns using List.reverseRecOn with
  | nil => exact entered_timely start
  | append_singleton turns t ih =>
    rw [List.foldl_append]
    exact ih.turn t

/-! ### What a turn does to the slots -/

def Lives (s : Server) (ip : Text) : Prop := ip ∈ liveAddresses s.memory.client_list

/-- The turn brings an announcement of `ip` that is entered into a slot. -/
def Accepts (s : Server) (t : Turn) (ip : Text) : Prop :=
  match t with
  | .datagram _ N sin_addr bytes => inet_ntoa sin_addr = ip ∧
      ∃ M, s.aged t = some M ∧ (chosenSlot N (inet_ntoa sin_addr) (received bytes) M).isSome
  | _ => False

/-- A slot holds `ip` with at least `n` left. -/
def AtLeast (M : Memory) (ip : Text) (n : Nat) : Prop :=
  n = 0 ∨ ∃ i ∈ slots, ipOf M.client_list i = ip ∧ (n : Int) ≤ ageOf M.client_list i

/-- No slot holds `ip` with more than `n` left. -/
def AtMost (M : Memory) (ip : Text) (n : Nat) : Prop :=
  ∀ i ∈ slots, ipOf M.client_list i = ip → ageOf M.client_list i ≤ n

theorem AtLeast.lives {M : Memory} {ip : Text} {n : Nat} (h : AtLeast M ip n) (hn : 0 < n) :
    ip ∈ liveAddresses M.client_list := by
  rcases h with rfl | ⟨i, hi, hip, hage⟩
  · exact absurd hn (Nat.lt_irrefl 0)
  · exact mem_liveAddresses.mpr ⟨i, hi, by omega, hip⟩

theorem AtMost.not_lives {M : Memory} {ip : Text} (h : AtMost M ip 0) :
    ip ∉ liveAddresses M.client_list := by
  intro hmem
  obtain ⟨i, hi, hlive, hip⟩ := mem_liveAddresses.mp hmem
  have hage := h i hi hip
  omega

section Ticks

variable {N : NodeInfo} {M M' : Memory} {ip : Text} {n : Nat}

theorem AtLeast.tick (hN : VersionsFit N) (hM : Presence M)
    (hage : age_client_list N false M = some M') (h : AtLeast M ip n) :
    AtLeast M' ip (n - 1) := by
  obtain ⟨hip, hages, -⟩ := age_client_list_peers hN hM.ends hage
  rcases h with rfl | ⟨i, hi, hi_ip, hn⟩
  · exact Or.inl rfl
  · have hlow := (hM.ages i hi).1
    refine Or.inr ⟨i, hi, (hip i).ipOf_eq.trans hi_ip, ?_⟩
    rw [hages i hi, agedCount_tick]
    split <;> omega

theorem AtMost.tick (hN : VersionsFit N) (hM : Presence M)
    (hage : age_client_list N false M = some M') (h : AtMost M ip n) : AtMost M' ip (n - 1) := by
  obtain ⟨hip, hages, -⟩ := age_client_list_peers hN hM.ends hage
  intro i hi hi_ip
  have hold := h i hi ((hip i).ipOf_eq.symm.trans hi_ip)
  rw [hages i hi, agedCount_tick]
  split <;> omega

end Ticks

section Announcements

variable {N : NodeInfo} {sin_addr : InAddr} {bytes : List UInt8} {M M' : Memory} {ip : Text}
  {n : Nat}

/-- No announcement takes a slot from a peer that counts. -/
theorem AtLeast.announced (hN : VersionsFit N) (hM : Presence M)
    (hstep : populate_new_client N (inet_ntoa sin_addr) (received bytes) M = some M')
    (h : AtLeast M ip n) (hn : n ≤ 3) : AtLeast M' ip n := by
  cases hslot : chosenSlot N (inet_ntoa sin_addr) (received bytes) M with
  | none =>
    rw [populate_eq_own hslot] at hstep
    exact Option.some.inj hstep ▸ h
  | some chosen =>
    obtain ⟨j, ws⟩ := chosen
    obtain ⟨hent, hage, -⟩ := populate_entered hN hM.ends hslot hstep
    obtain ⟨-, -, hcases⟩ := chosenSlot_some hM.ends hslot
    rcases h with rfl | ⟨i, hi, hi_ip, hleft⟩
    · exact Or.inl rfl
    by_cases hij : i = j
    · subst hij
      rcases hcases with ⟨-, -, hsame⟩ | ⟨-, hfree, -⟩
      · refine Or.inr ⟨i, hi, hent.ip_eq.trans (hsame.symm.trans hi_ip), ?_⟩
        rw [hage, AGE_COUNT]
        omega
      · exact Or.inl (by omega)
    · refine Or.inr ⟨i, hi, (hent.same_ip i hij).ipOf_eq.trans hi_ip, ?_⟩
      rwa [hent.same_age i hi hij]

theorem AtMost.announced (hN : VersionsFit N) (hM : Presence M)
    (hstep : populate_new_client N (inet_ntoa sin_addr) (received bytes) M = some M')
    (hother : inet_ntoa sin_addr = ip →
      chosenSlot N (inet_ntoa sin_addr) (received bytes) M = none)
    (h : AtMost M ip n) : AtMost M' ip n := by
  cases hslot : chosenSlot N (inet_ntoa sin_addr) (received bytes) M with
  | none =>
    rw [populate_eq_own hslot] at hstep
    exact Option.some.inj hstep ▸ h
  | some chosen =>
    obtain ⟨j, ws⟩ := chosen
    obtain ⟨hent, -, -⟩ := populate_entered hN hM.ends hslot hstep
    intro i hi hi_ip
    have hij : i ≠ j := by
      rintro rfl
      rw [hother (hent.ip_eq.symm.trans hi_ip)] at hslot
      cases hslot
    rw [hent.same_age i hi hij]
    exact h i hi ((hent.same_ip i hij).ipOf_eq.symm.trans hi_ip)

end Announcements

/-! ### Turns -/

theorem step_eq_some {s s' : Server} {t : Turn} :
    step s t = some s' ↔ ∃ M M', s.aged t = some M ∧ t.receive M = some M' ∧
      s' = ⟨M', s.clock.turn t⟩ := by
  simp [step, Option.bind_eq_some_iff, eq_comm (a := s')]

theorem step_clock {s s' : Server} {t : Turn} (h : step s t = some s') :
    s'.clock = s.clock.turn t := by
  obtain ⟨M, M', -, -, rfl⟩ := step_eq_some.mp h
  rfl

structure Sound (start : Nat) (s : Server) : Prop where
  presence : Presence s.memory
  timely : Timely start s.clock

theorem aged_eq {s : Server} {t : Turn} {M : Memory} (h : s.aged t = some M) :
    s.clock.due t = true ∧ age_client_list t.node false s.memory = some M ∨
      s.clock.due t = false ∧ M = s.memory := by
  simp only [Server.aged] at h
  split at h
  · rename_i hdue
    exact Or.inl ⟨hdue, h⟩
  · rename_i hdue
    exact Or.inr ⟨Bool.eq_false_iff.mpr hdue, (Option.some.inj h).symm⟩

section Turns

variable {start : Nat} {s s' : Server} {t : Turn} {M : Memory} {ip : Text}

theorem Sound.aged (hN : VersionsFit t.node) (h : Sound start s) (haged : s.aged t = some M) :
    Presence M := by
  rcases aged_eq haged with ⟨-, hage⟩ | ⟨-, rfl⟩
  · exact h.presence.tick hN hage
  · exact h.presence

/-- A turn that ages the slots comes 200 to 399 ticks after the last one that did. -/
theorem Sound.aged_or_waited (h : Sound start s) (haged : s.aged t = some M) :
    age_client_list t.node false s.memory = some M ∧
        (s.clock.turn t).cur_tick = (s.clock.turn t).now ∧
          Spaced s.clock.cur_tick (s.clock.turn t).now ∨
      M = s.memory ∧ (s.clock.turn t).cur_tick = s.clock.cur_tick := by
  rcases aged_eq haged with ⟨hdue, hage⟩ | ⟨hdue, rfl⟩
  · cases turned h.timely t with
    | aged _ hcur _ hspaced => exact Or.inl ⟨hage, hcur, hspaced⟩
    | waited hnot => rw [hdue] at hnot; cases hnot
  · cases turned h.timely t with
    | aged hnot => rw [hdue] at hnot; cases hnot
    | waited _ hcur => exact Or.inr ⟨rfl, hcur⟩

theorem Turn.receive_eq {M' : Memory} (h : t.receive M = some M') :
    M' = M ∨ ∃ wait N sin_addr bytes, t = .datagram wait N sin_addr bytes ∧
      populate_new_client N (inet_ntoa sin_addr) (received bytes) M = some M' := by
  cases t with
  | timeout N => exact Or.inl (Option.some.inj h).symm
  | failed wait N => exact Or.inl (Option.some.inj h).symm
  | datagram wait N sin_addr bytes => exact Or.inr ⟨wait, N, sin_addr, bytes, rfl, h⟩

theorem Sound.step (hN : VersionsFit t.node) (h : Sound start s) (hstep : step s t = some s') :
    Sound start s' := by
  obtain ⟨M, M', haged, hreceive, rfl⟩ := step_eq_some.mp hstep
  refine ⟨?_, h.timely.turn t⟩
  have hM := h.aged hN haged
  rcases Turn.receive_eq hreceive with rfl | ⟨_, N, sin_addr, bytes, rfl, hpop⟩
  · exact hM
  · exact hM.announced hN hpop

/-- A peer entered at time `T` has at least `n` left, and each one spent has taken 200 ticks. -/
def Kept (T : Nat) (ip : Text) (s : Server) : Prop :=
  ∃ n ≤ 3, AtLeast s.memory ip n ∧ T + 401 ≤ s.clock.cur_tick + 200 * n

/-- A peer last entered at time `T` has at most `n` left, and each one spent has taken fewer
than 400 ticks. -/
def Fading (T : Nat) (ip : Text) (s : Server) : Prop :=
  ∃ n, AtMost s.memory ip n ∧ (0 < n → s.clock.cur_tick + 400 * n ≤ T + 1200)

theorem Kept.step {T : Nat} (hN : VersionsFit t.node) (hs : Sound start s)
    (hstep : step s t = some s') (h : Kept T ip s) : Kept T ip s' := by
  obtain ⟨M, M', haged, hreceive, rfl⟩ := step_eq_some.mp hstep
  have hM := hs.aged hN haged
  obtain ⟨n, hn, hleast, htime⟩ := h
  have hafter : ∀ k ≤ 3, AtLeast M ip k → AtLeast M' ip k := by
    intro k hk hle
    rcases Turn.receive_eq hreceive with rfl | ⟨_, N, sin_addr, bytes, rfl, hpop⟩
    · exact hle
    · exact hle.announced hN hM hpop hk
  rcases hs.aged_or_waited haged with ⟨hage, hcur, hlate, -⟩ | ⟨rfl, hcur⟩
  · refine ⟨n - 1, by omega, hafter _ (by omega) (hleast.tick hN hs.presence hage), ?_⟩
    simp only
    omega
  · refine ⟨n, hn, hafter n hn hleast, ?_⟩
    simp only [hcur]
    exact htime

theorem Fading.step {T : Nat} (hN : VersionsFit t.node) (hs : Sound start s)
    (hsilent : ¬ Accepts s t ip) (hstep : step s t = some s') (h : Fading T ip s) :
    Fading T ip s' := by
  obtain ⟨M, M', haged, hreceive, rfl⟩ := step_eq_some.mp hstep
  have hM := hs.aged hN haged
  obtain ⟨n, hmost, htime⟩ := h
  have hafter : ∀ k, AtMost M ip k → AtMost M' ip k := by
    intro k hk
    rcases Turn.receive_eq hreceive with rfl | ⟨_, N, sin_addr, bytes, rfl, hpop⟩
    · exact hk
    · refine hk.announced hN hM hpop fun hip => ?_
      by_contra hsome
      exact hsilent ⟨hip, M, haged, Option.isSome_iff_ne_none.mpr hsome⟩
  rcases hs.aged_or_waited haged with ⟨hage, hcur, -, hlate⟩ | ⟨rfl, hcur⟩
  · refine ⟨n - 1, hafter _ (hmost.tick hN hs.presence hage), fun hpos => ?_⟩
    have hold := htime (by omega)
    simp only
    omega
  · refine ⟨n, hafter n hmost, fun hpos => ?_⟩
    simp only [hcur]
    exact htime hpos

theorem accepted (hN : VersionsFit t.node) (hs : Sound start s) (hacc : Accepts s t ip)
    (hstep : step s t = some s') :
    Kept s'.clock.now ip s' ∧ Fading s'.clock.now ip s' := by
  have hs' := hs.step hN hstep
  obtain ⟨hle, hrecent, -, -⟩ := hs'.timely
  obtain ⟨M, M', haged, hreceive, rfl⟩ := step_eq_some.mp hstep
  cases t with
  | timeout N => exact hacc.elim
  | failed wait N => exact hacc.elim
  | datagram wait N sin_addr bytes =>
    obtain ⟨rfl, M₁, haged₁, hsome⟩ := hacc
    obtain rfl := Option.some.inj (haged.symm.trans haged₁)
    have hM := hs.aged hN haged
    obtain ⟨⟨i, ws⟩, hslot⟩ := Option.isSome_iff_exists.mp hsome
    simp only [Turn.receive] at hreceive
    obtain ⟨hent, hage, -⟩ := populate_entered hN hM.ends hslot hreceive
    have hi := (chosenSlot_some hM.ends hslot).1
    constructor
    · exact ⟨3, le_rfl, Or.inr ⟨i, hi, hent.ip_eq, by rw [hage]; decide⟩, by omega⟩
    · exact ⟨3, fun j hj _ => (hs'.presence.ages j hj).2, fun _ => by omega⟩

theorem Kept.lives {T : Nat} (hs : Sound start s) (h : Kept T ip s) (hnow : s.clock.now < T + 400) :
    Lives s ip := by
  obtain ⟨n, -, hleast, htime⟩ := h
  have hle := hs.timely.le_now
  exact hleast.lives (by omega)

theorem Fading.bound {T : Nat} (h : Fading T ip s) (hlives : Lives s ip) :
    s.clock.cur_tick + 400 ≤ T + 1200 := by
  obtain ⟨n, hmost, htime⟩ := h
  have hpos : 0 < n := by
    rcases Nat.eq_zero_or_pos n with rfl | hpos
    · exact absurd hlives hmost.not_lives
    · exact hpos
  have hold := htime hpos
  omega

end Turns

/-! ### Runs -/

/-- No announcement of `ip` is entered any more. -/
def Silent (s : Server) (turns : List Turn) (ip : Text) : Prop :=
  Runs.Each step (fun s t => ¬ Accepts s t ip) s turns

/-- Counted from the announcement that led to `s`: the peer holds its slot for 400 ticks,
and if no further announcement is entered it holds none from 1200 ticks on, and the turn
that drops it ends earlier than that. -/
structure Expires (s : Server) (later : List Turn) (ip : Text) : Prop where
  kept : ∀ before after u, later = before ++ after → Runs.exec step s before = some u →
    u.clock.now < s.clock.now + 400 → Lives u ip
  dropped : ∀ before after u, later = before ++ after → Runs.exec step s before = some u →
    Silent s before ip → s.clock.now + 1200 ≤ u.clock.now → ¬ Lives u ip
  in_time : ∀ before t after u v, later = before ++ t :: after →
    Runs.exec step s before = some u → Silent s before ip → Lives u ip → step u t = some v →
      v.clock.now < s.clock.now + 1200

section Runs

variable {start : Nat} {s s' : Server} {turns : List Turn} {ip : Text}

theorem run_sound (hturns : ∀ t ∈ turns, VersionsFit t.node) (hs : Sound start s)
    (hrun : Runs.exec step s turns = some s') : Sound start s' :=
  Runs.Each.invariant (fun _ _ _ _ hN h hstep => h.step hN hstep)
    (Runs.Each.of_forall hturns s) hs hrun

theorem run_kept {T : Nat} (hturns : ∀ t ∈ turns, VersionsFit t.node) (hs : Sound start s)
    (h : Kept T ip s) (hrun : Runs.exec step s turns = some s') : Kept T ip s' := by
  have hboth := Runs.Each.invariant (P := fun s => Sound start s ∧ Kept T ip s)
    (fun _ _ _ _ hN h hstep => ⟨h.1.step hN hstep, h.2.step hN h.1 hstep⟩)
    (Runs.Each.of_forall hturns s) ⟨hs, h⟩ hrun
  exact hboth.2

theorem run_fading {T : Nat} (hturns : ∀ t ∈ turns, VersionsFit t.node) (hs : Sound start s)
    (hsilent : Silent s turns ip) (h : Fading T ip s) (hrun : Runs.exec step s turns = some s') :
    Fading T ip s' := by
  have hboth := Runs.Each.invariant (P := fun s => Sound start s ∧ Fading T ip s)
    (fun _ t ht _ hquiet h hstep =>
      ⟨h.1.step (hturns t ht) hstep, h.2.step (hturns t ht) h.1 hquiet hstep⟩)
    hsilent ⟨hs, h⟩ hrun
  exact hboth.2

theorem run_clock (hrun : Runs.exec step s turns = some s') :
    s'.clock = turns.foldl Clock.turn s.clock := by
  induction turns generalizing s with
  | nil => exact Option.some.inj hrun ▸ rfl
  | cons t turns ih =>
    obtain ⟨u, hstep, hrest⟩ := Runs.exec_cons_eq_some.mp hrun
    rw [ih hrest, step_clock hstep, List.foldl_cons]

theorem expires_of_accepts {t : Turn} {later : List Turn} (hN : VersionsFit t.node)
    (hlater : ∀ t ∈ later, VersionsFit t.node) (hs : Sound start s) (hacc : Accepts s t ip)
    (hstep : step s t = some s') : Expires s' later ip := by
  obtain ⟨hkept, hfading⟩ := accepted hN hs hacc hstep
  have hs' := hs.step hN hstep
  constructor
  · rintro before after u rfl hrun hnow
    have hbefore := fun t ht => hlater t (List.mem_append_left after ht)
    exact (run_kept hbefore hs' hkept hrun).lives (run_sound hbefore hs' hrun) hnow
  · rintro before after u rfl hrun hsilent hnow hlives
    have hbefore := fun t ht => hlater t (List.mem_append_left after ht)
    have hbound := (run_fading hbefore hs' hsilent hfading hrun).bound hlives
    have hrecent := (run_sound hbefore hs' hrun).timely.recent
    omega
  · rintro before t' after u v rfl hrun hsilent hlives hnext
    have hbefore := fun t ht => hlater t (List.mem_append_left (t' :: after) ht)
    have hbound := (run_fading hbefore hs' hsilent hfading hrun).bound hlives
    have hrecent := (run_sound hbefore hs' hrun).timely.recent
    have hwait := t'.wait_le
    rw [step_clock hnext, Clock.turn_now]
    omega

theorem enter_sound {N : NodeInfo} (hN : VersionsFit N) (h : enter N start = some s) :
    Sound start s ∧ s.clock = ⟨start, start, []⟩ := by
  simp only [enter, Option.map_eq_some_iff] at h
  obtain ⟨M, hstart, rfl⟩ := h
  exact ⟨⟨(server_start_presence hN hstart).1, entered_timely start⟩, rfl⟩

end Runs

/-- **The age of the slots follows the clock.**  For every sequence of arrivals the slots are
aged at intervals of at least 200 and fewer than 400 ticks; a peer that is entered stays
for 400 ticks, and one that falls silent is dropped in fewer than 1200. -/
theorem peers_expire {N : NodeInfo} (hN : VersionsFit N) (start : Nat) {turns : List Turn}
    (hturns : ∀ t ∈ turns, VersionsFit t.node) :
    (start :: (turns.foldl Clock.turn ⟨start, start, []⟩).aged_at).IsChain Spaced ∧
      ∀ s₀ s, enter N start = some s₀ → Runs.exec step s₀ turns = some s →
        s.clock = turns.foldl Clock.turn ⟨start, start, []⟩ ∧
        ∀ before t later s₁ s₂ ip, turns = before ++ t :: later →
          Runs.exec step s₀ before = some s₁ → Accepts s₁ t ip → step s₁ t = some s₂ →
            Expires s₂ later ip := by
  refine ⟨(aged_every_two_to_four_seconds start turns).spaced, fun s₀ s hstart hrun => ?_⟩
  obtain ⟨hsound, hclock⟩ := enter_sound hN hstart
  refine ⟨hclock ▸ run_clock hrun, ?_⟩
  rintro before t later s₁ s₂ ip rfl hbefore hacc hstep
  have hs₁ := run_sound (fun t ht => hturns t (List.mem_append_left _ ht)) hsound hbefore
  refine expires_of_accepts (hturns t (List.mem_append_right _ List.mem_cons_self))
    (fun t' ht' => hturns t' ?_) hs₁ hacc hstep
  exact List.mem_append_right _ (List.mem_cons_of_mem t ht')

def samplePeer : InAddr := ⟨10, 10, 100, 1⟩

def sampleTurn : Turn := .datagram ⟨5, by decide⟩ factoryNode samplePeer sampleDatagram

/-- One announcement, and nothing after it. -/
def sampleTurns : List Turn := sampleTurn :: List.replicate 4 (.timeout factoryNode)

theorem sample_defined :
    ((enter factoryNode 1000).bind fun s => Runs.exec step s sampleTurns).isSome := by
  decide +kernel

theorem sample_accepted :
    ((enter factoryNode 1000).bind fun s => (s.aged sampleTurn).bind fun M =>
      chosenSlot factoryNode (inet_ntoa samplePeer) (received sampleDatagram) M).isSome := by
  decide +kernel

theorem factoryNode_versionsFit : VersionsFit factoryNode := by
  constructor <;> decide

theorem peers_expire_sample : ∃ s₀ s₁, enter factoryNode 1000 = some s₀ ∧
    step s₀ sampleTurn = some s₁ ∧
      Expires s₁ (List.replicate 4 (.timeout factoryNode)) (inet_ntoa samplePeer) := by
  obtain ⟨s, hs⟩ := Option.isSome_iff_exists.mp sample_defined
  obtain ⟨s₀, hstart, hrun⟩ := Option.bind_eq_some_iff.mp hs
  obtain ⟨s₁, hstep, -⟩ := Runs.exec_cons_eq_some.mp hrun
  obtain ⟨chosen, hchosen⟩ := Option.isSome_iff_exists.mp sample_accepted
  rw [hstart, Option.bind_some] at hchosen
  obtain ⟨M, haged, hslot⟩ := Option.bind_eq_some_iff.mp hchosen
  have hacc : Accepts s₀ sampleTurn (inet_ntoa samplePeer) :=
    ⟨rfl, M, haged, Option.isSome_iff_exists.mpr ⟨chosen, hslot⟩⟩
  have hturns : ∀ t ∈ sampleTurns, VersionsFit t.node := by
    simp [sampleTurns, sampleTurn, Turn.node, factoryNode_versionsFit]
  obtain ⟨-, hall⟩ := peers_expire factoryNode_versionsFit 1000 hturns
  exact ⟨s₀, s₁, hstart, hstep, (hall s₀ s hstart hrun).2 [] sampleTurn _ s₀ s₁ _ rfl rfl hacc hstep⟩

end AksFirmware.PeerExpiry
