import AksFirmware.PeerPresence

/-!
# The node among its peers

The main loop asks for the node's address again and again.  The peer table keeps the node
itself out by comparing the sender of an announcement with the address of the moment, and
a peer that was entered keeps its slot when the address of the node changes.  So an
address can stand on the list twice, as the node's own and as a peer's.

`listed_once_iff` says in which runs that never happens.
-/

namespace AksFirmware.OwnAddress

open ByteMemory CText WebConfig PeerTable PeerMemory

/-! ### The address refresh of the main loop -/

/-- The tokens that repeated calls of `strtok` give. -/
def tokens (delims s : Text) : List Text :=
  (s.splitOnP fun c => decide (c ∈ delims)).filter fun token => token ≠ []

/-- The four numbers of an address; undefined when one is missing. -/
def parsedAddress (s : Text) : Option InAddr :=
  let octet := fun token : Text => (atoi token % 256).toNat.toUInt8
  match tokens (ascii ".,") s with
  | a :: b :: c :: d :: _ => some ⟨octet a, octet b, octet c, octet d⟩
  | _ => none

/-- `ipAddress` after `AT+LANN` or `AT+WANN`: `none` for a command that failed. -/
def refreshedAddress (answer : Option Mem) : Option InAddr :=
  match answer with
  | none => some ⟨0, 0, 0, 0⟩
  | some at_rsp =>
      let at_rsp := store at_rsp 24 [0]
      if strstr (text at_rsp 0 96) (ascii "+ERR") then some ⟨0, 0, 0, 0⟩
      else
        let start := if isdigit (at_rsp 4) then 4 else 9
        parsedAddress (text at_rsp start (96 - start))

/-! ### The node and its table -/

structure Device where
  memory : Memory
  ipAddress : InAddr

inductive DeviceEvent where
  | refresh (answer : Option Mem)
  | announce (N : NodeInfo) (sin_addr : InAddr) (datagram : List UInt8)
  | tick (N : NodeInfo)

/-- What the table routines read, with the address of the moment. -/
def Device.node (s : Device) (N : NodeInfo) : NodeInfo := { N with ipAddress := s.ipAddress }

def step (s : Device) : DeviceEvent → Option Device
  | .refresh answer => (refreshedAddress answer).map fun a => { s with ipAddress := a }
  | .announce N sin_addr datagram =>
      (populate_new_client (s.node N) (inet_ntoa sin_addr) (received datagram) s.memory).map
        fun M => { s with memory := M }
  | .tick N => (age_client_list (s.node N) false s.memory).map fun M => { s with memory := M }

def device_start (N : NodeInfo) : Option Device :=
  (PeerMemory.server_start N).map fun M => ⟨M, N.ipAddress⟩

/-- The addresses of `client_valid_list[0..client_valid_num)`. -/
def listedAddresses (M : Memory) : List Text :=
  (List.range M.client_valid_num).map fun k => textOf M.client_valid_list k .ip_addr

/-- The node's address is none that a slot still holds when the step is over. -/
def OwnAddressFree (s : Device) : DeviceEvent → Prop
  | .refresh _ => True
  | .announce .. => inet_ntoa s.ipAddress ∉ liveAddresses s.memory.client_list
  | .tick _ => ∀ i ∈ slots, 1 < ageOf s.memory.client_list i →
      ipOf s.memory.client_list i ≠ inet_ntoa s.ipAddress

def DeviceEvent.VersionsFit : DeviceEvent → Prop
  | .refresh _ => True
  | .announce N _ _ => PeerMemory.VersionsFit N
  | .tick N => PeerMemory.VersionsFit N

/-! ### One step -/

theorem node_versionsFit (s : Device) {N : NodeInfo} (h : VersionsFit N) : VersionsFit (s.node N) :=
  ⟨h.eCos_ver, h.samd_ver, h.timo_ver, h.host_mode⟩

theorem node_ownIp (s : Device) (N : NodeInfo) : (s.node N).ownIp = inet_ntoa s.ipAddress :=
  (s.node N).ownIp_eq

theorem listedAddresses_eq {M : Memory} {addrs : List Text} (h : Shows M addrs)
    (hlen : addrs.length ≤ MAX_NUM_ENTRY) : listedAddresses M = addrs := by
  obtain ⟨hnum, hentries⟩ := h
  apply List.ext_getElem
  · simp [listedAddresses, hnum]
  · intro k hk hk'
    obtain ⟨hend, hip⟩ := hentries k addrs[k] (List.getElem?_eq_getElem hk')
    simp only [listedAddresses, List.getElem_map, List.getElem_range]
    rw [hend.textOf_eq (Nat.lt_of_lt_of_le hk' hlen), hip]

theorem listed_nodup_iff {M : Memory} {own : Text} (h : Presence M)
    (hshow : Shows M (own :: liveAddresses M.client_list)) :
    (listedAddresses M).Nodup ↔ own ∉ liveAddresses M.client_list := by
  rw [listedAddresses_eq hshow (liveAddresses_length_lt M.client_list), List.nodup_cons]
  exact and_iff_left h.liveAddresses_nodup

/-- Filling a slot adds its address to those that are held. -/
theorem entered_mem_iff {N : NodeInfo} {sin_addr : InAddr} {datagram : List UInt8} {M M' : Memory}
    {i : Nat} {ws : List Write} (h : Presence M)
    (hslot : chosenSlot N (inet_ntoa sin_addr) (received datagram) M = some (i, ws))
    (hent : Entered M.client_list M'.client_list i (inet_ntoa sin_addr))
    (hage : ageOf M'.client_list i = AGE_COUNT) {ip : Text} (hip : ip ≠ inet_ntoa sin_addr) :
    ip ∈ liveAddresses M'.client_list ↔ ip ∈ liveAddresses M.client_list := by
  obtain ⟨hi, -, hcases⟩ := chosenSlot_some h.ends hslot
  rw [mem_liveAddresses, mem_liveAddresses]
  constructor
  · rintro ⟨j, hj, hlive, rfl⟩
    have hji : j ≠ i := by
      rintro rfl
      exact hip hent.ip_eq
    rw [hent.same_age j hj hji] at hlive
    exact ⟨j, hj, hlive, ((hent.same_ip j hji).ipOf_eq).symm⟩
  · rintro ⟨j, hj, hlive, rfl⟩
    have hji : j ≠ i := by
      rintro rfl
      rcases hcases with ⟨-, -, heq⟩ | ⟨-, hfree, -⟩
      · exact hip heq
      · omega
    rw [← hent.same_age j hj hji] at hlive
    exact ⟨j, hj, hlive, (hent.same_ip j hji).ipOf_eq⟩

theorem announced_nodup_iff {N : NodeInfo} (hN : VersionsFit N) {sin_addr : InAddr}
    {datagram : List UInt8} {M M' : Memory} (h : Presence M)
    (hstep : populate_new_client N (inet_ntoa sin_addr) (received datagram) M = some M') :
    (listedAddresses M').Nodup ↔ N.ownIp ∉ liveAddresses M.client_list := by
  have h' := h.announced hN hstep
  cases hslot : chosenSlot N (inet_ntoa sin_addr) (received datagram) M with
  | none =>
    rw [populate_eq_own hslot] at hstep
    obtain rfl := Option.some.inj hstep
    obtain ⟨own, hshow⟩ := h.shows
    exact listed_nodup_iff h' (my_ip_address_shows hshow)
  | some chosen =>
    obtain ⟨i, ws⟩ := chosen
    obtain ⟨hent, hage, hshow⟩ := populate_entered hN h.ends hslot hstep
    have hother := (chosenSlot_some h.ends hslot).2.1
    rw [listed_nodup_iff h' hshow, entered_mem_iff h hslot hent hage hother.symm]

theorem ticked_nodup_iff {N : NodeInfo} (hN : VersionsFit N) {M M' : Memory} (h : Presence M)
    (hage : age_client_list N false M = some M') :
    (listedAddresses M').Nodup ↔
      ∀ i ∈ slots, 1 < ageOf M.client_list i → ipOf M.client_list i ≠ N.ownIp := by
  obtain ⟨hip, hages, hshow⟩ := age_client_list_peers hN h.ends hage
  have hstays : ∀ i ∈ slots, 0 < ageOf M'.client_list i ↔ 1 < ageOf M.client_list i := by
    intro i hi
    rw [hages i hi, agedCount_tick]
    split <;> omega
  rw [listed_nodup_iff (h.tick hN hage) hshow, mem_liveAddresses]
  constructor
  · intro hnone i hi hlive heq
    exact hnone ⟨i, hi, (hstays i hi).mpr hlive, (hip i).ipOf_eq.trans heq⟩
  · rintro hall ⟨i, hi, hlive, heq⟩
    exact hall i hi ((hstays i hi).mp hlive) ((hip i).ipOf_eq.symm.trans heq)

theorem step_presence {s t : Device} {e : DeviceEvent} (he : e.VersionsFit)
    (h : Presence s.memory) (hstep : step s e = some t) : Presence t.memory := by
  cases e with
  | refresh answer =>
    simp only [step] at hstep
    obtain ⟨a, -, rfl⟩ := Option.map_eq_some_iff.mp hstep
    exact h
  | announce N sin_addr datagram =>
    simp only [step] at hstep
    obtain ⟨M, hpop, rfl⟩ := Option.map_eq_some_iff.mp hstep
    exact h.announced (node_versionsFit s he) hpop
  | tick N =>
    simp only [step] at hstep
    obtain ⟨M, hage, rfl⟩ := Option.map_eq_some_iff.mp hstep
    exact h.tick (node_versionsFit s he) hage

theorem step_nodup_iff {s t : Device} {e : DeviceEvent} (he : e.VersionsFit)
    (h : Presence s.memory) (hlisted : (listedAddresses s.memory).Nodup)
    (hstep : step s e = some t) : (listedAddresses t.memory).Nodup ↔ OwnAddressFree s e := by
  cases e with
  | refresh answer =>
    simp only [step] at hstep
    obtain ⟨a, -, rfl⟩ := Option.map_eq_some_iff.mp hstep
    exact iff_of_true hlisted trivial
  | announce N sin_addr datagram =>
    simp only [step] at hstep
    obtain ⟨M, hpop, rfl⟩ := Option.map_eq_some_iff.mp hstep
    rw [announced_nodup_iff (node_versionsFit s he) h hpop, node_ownIp, OwnAddressFree]
  | tick N =>
    simp only [step] at hstep
    obtain ⟨M, hage, rfl⟩ := Option.map_eq_some_iff.mp hstep
    rw [ticked_nodup_iff (node_versionsFit s he) h hage, node_ownIp, OwnAddressFree]

/-! ### Runs -/

theorem device_start_presence {N : NodeInfo} (hN : VersionsFit N) {s : Device}
    (h : device_start N = some s) :
    Presence s.memory ∧ (listedAddresses s.memory).Nodup := by
  simp only [device_start, Option.map_eq_some_iff] at h
  obtain ⟨M, hstart, rfl⟩ := h
  obtain ⟨hpresence, -, hshow⟩ := server_start_presence hN hstart
  refine ⟨hpresence, ?_⟩
  rw [listedAddresses_eq hshow (by rw [List.length_singleton]; decide)]
  exact List.nodup_singleton _

/-- **When no node is listed twice.**  Over a whole run of address refreshes, announcements
and ticks the addresses on the list stay distinct if and only if, in every announcement
and tick, the address the node has then is held by no slot that outlives the step. -/
theorem listed_once_iff {N : NodeInfo} (hN : VersionsFit N) {events : List DeviceEvent}
    (hevents : ∀ e ∈ events, e.VersionsFit) {s₀ s : Device} (hstart : device_start N = some s₀)
    (hrun : Runs.exec step s₀ events = some s) :
    (∀ before after t, events = before ++ after → Runs.exec step s₀ before = some t →
        (listedAddresses t.memory).Nodup) ↔ Runs.Each step OwnAddressFree s₀ events := by
  obtain ⟨hpresence, hlisted⟩ := device_start_presence hN hstart
  exact Runs.exec_always_iff (I := fun s => Presence s.memory)
    (fun _ e he _ h => step_presence (hevents e he) h)
    (fun _ e he _ h => step_nodup_iff (hevents e he) h) hpresence hlisted hrun

/-- A node that has no address yet. -/
def newNode : NodeInfo := { factoryNode with ipAddress := ⟨0, 0, 0, 0⟩ }

def wanAnswer : Mem := storeText zeroed 0 (ascii "+ok=10.0.0.5,255.255.255.0,10.0.0.1")

/-- The node hears its own broadcast before it has learnt its address. -/
def earlyEvents : List DeviceEvent :=
  [.announce newNode ⟨10, 0, 0, 5⟩ sampleDatagram, .refresh (some wanAnswer), .tick newNode]

theorem early_addresses :
    ((device_start newNode).bind fun s => Runs.exec step s earlyEvents).map
        (fun s => listedAddresses s.memory) =
      some [ascii "10.0.0.5", ascii "10.0.0.5"] := by
  decide +kernel

theorem early_run : ∃ s₀ s, device_start newNode = some s₀ ∧
    Runs.exec step s₀ earlyEvents = some s ∧
      listedAddresses s.memory = [ascii "10.0.0.5", ascii "10.0.0.5"] := by
  obtain ⟨s, hs, hlisted⟩ := Option.map_eq_some_iff.mp early_addresses
  obtain ⟨s₀, hstart, hrun⟩ := Option.bind_eq_some_iff.mp hs
  exact ⟨s₀, s, hstart, hrun, hlisted⟩

theorem newNode_versionsFit : VersionsFit newNode := by
  constructor <;> decide

theorem listed_once_early : ∃ s₀ s, device_start newNode = some s₀ ∧
    Runs.exec step s₀ earlyEvents = some s ∧
      ((∀ before after t, earlyEvents = before ++ after → Runs.exec step s₀ before = some t →
          (listedAddresses t.memory).Nodup) ↔ Runs.Each step OwnAddressFree s₀ earlyEvents) := by
  obtain ⟨s₀, s, hstart, hrun, -⟩ := early_run
  have hevents : ∀ e ∈ earlyEvents, e.VersionsFit := by
    simp [earlyEvents, DeviceEvent.VersionsFit, newNode_versionsFit]
  exact ⟨s₀, s, hstart, hrun, listed_once_iff newNode_versionsFit hevents hstart hrun⟩

/-- The node ends up on its own list as a peer. -/
theorem listed_twice : ∃ s₀ s, device_start newNode = some s₀ ∧
    Runs.exec step s₀ earlyEvents = some s ∧ ¬ (listedAddresses s.memory).Nodup := by
  obtain ⟨s₀, s, hstart, hrun, hlisted⟩ := early_run
  refine ⟨s₀, s, hstart, hrun, ?_⟩
  rw [hlisted]
  decide

end AksFirmware.OwnAddress
