import AksFirmware.OwnAddress
import Mathlib.Data.Bool.AllAny

/-!
# The answer that holds the address

The main loop reads its address off the answer to `AT+LANN` or `AT+WANN`.  It starts at
column 4 where a digit stands there and at column 9 otherwise, and cuts the answer off at
column 24.  Column 9 is behind `DHCP,` but not behind `STATIC,`, so with a fixed address the
first number is read off the last letter of the mode (`learns_iff`).
-/

namespace AksFirmware.AddressAnswer

open ByteMemory CText OwnAddress

/-! ### The answers -/

inductive Mode where
  | DHCP | STATIC
deriving DecidableEq, Repr

def Mode.text : Mode → Text
  | .DHCP => ascii "DHCP"
  | .STATIC => ascii "STATIC"

/-- What the module answers to the two commands. -/
inductive Answer where
  | WANN (mode : Mode) (ip mask gw : InAddr)
  | LANN (ip mask : InAddr)
deriving DecidableEq

def Answer.ip : Answer → InAddr
  | .WANN _ ip _ _ => ip
  | .LANN ip _ => ip

/-- What stands in front of the address. -/
def Answer.head : Answer → Text
  | .WANN mode _ _ _ => ascii "+ok=" ++ mode.text ++ ascii ","
  | .LANN _ _ => ascii "+ok="

/-- What stands behind it. -/
def Answer.tail : Answer → Text
  | .WANN _ _ mask gw => ascii "," ++ inet_ntoa mask ++ ascii "," ++ inet_ntoa gw
  | .LANN _ mask => ascii "," ++ inet_ntoa mask

def Answer.text (answer : Answer) : Text := answer.head ++ inet_ntoa answer.ip ++ answer.tail

/-- The answer stands in the buffer, closed by a line end of any length. -/
def Holds (at_rsp : Mem) (answer : Answer) : Prop :=
  ∃ ending : Text, (∀ c ∈ ending, c = 0x0d ∨ c = 0x0a) ∧ HoldsText at_rsp 0 (answer.text ++ ending)

/-- The address is learnt from the answer, and is gone after a command that failed or was
refused. -/
structure Learns (answer : Answer) : Prop where
  answered : ∀ at_rsp, Holds at_rsp answer → refreshedAddress (some at_rsp) = some answer.ip
  failed : refreshedAddress none = some ⟨0, 0, 0, 0⟩
  refused : ∀ at_rsp rest, HoldsText at_rsp 0 (ascii "+ERR" ++ rest) →
    refreshedAddress (some at_rsp) = some ⟨0, 0, 0, 0⟩

/-! ### The numbers of an address -/

theorem octet_decimal (b : UInt8) : (atoi (decimal b.toNat) % 256).toNat.toUInt8 = b := by
  have hsmall := b.toNat_lt
  rw [atoi_decimal (by omega)]
  have hmod : ((b.toNat : Int) % 256).toNat = b.toNat := by
    omega
  rw [hmod]
  exact UInt8.ofNat_toNat

theorem decimal_no_delim {n : Nat} : ∀ c ∈ decimal n, decide (c ∈ ascii ".,") = false := by
  intro c hc
  have hrange := mem_decimal hc
  refine decide_eq_false fun hmem => ?_
  have hlow : ∀ d ∈ ascii ".,", d.toNat < 48 := List.all_iff_forall_prop.mp (by decide)
  have hlt := hlow c hmem
  omega

theorem tokens_cons {token rest : Text} {c : UInt8}
    (htoken : ∀ c ∈ token, decide (c ∈ ascii ".,") = false) (hne : token ≠ [])
    (hc : c ∈ ascii ".,") : tokens (ascii ".,") (token ++ c :: rest) =
      token :: tokens (ascii ".,") rest := by
  rw [tokens, List.splitOnP_append_cons_of_forall_mem htoken c (decide_eq_true hc), List.filter_cons,
    if_pos (decide_eq_true hne), tokens]

theorem tokens_last {token : Text} (htoken : ∀ c ∈ token, decide (c ∈ ascii ".,") = false)
    (hne : token ≠ []) : tokens (ascii ".,") token = [token] := by
  rw [tokens, List.splitOnP_eq_singleton htoken, List.filter_cons, if_pos (decide_eq_true hne),
    List.filter_nil]

/-- Three numbers and their dots, and whatever follows. -/
theorem tokens_three (a b c : Nat) (rest : Text) :
    tokens (ascii ".,") (decimal a ++ ascii "." ++ decimal b ++ ascii "." ++ decimal c ++
        ascii "." ++ rest) =
      decimal a :: decimal b :: decimal c :: tokens (ascii ".,") rest := by
  have hdot : (0x2e : UInt8) ∈ ascii ".," := by decide
  have hsplit : decimal a ++ ascii "." ++ decimal b ++ ascii "." ++ decimal c ++ ascii "." ++ rest =
      decimal a ++ 0x2e :: (decimal b ++ 0x2e :: (decimal c ++ 0x2e :: rest)) := by
    simp [ascii]
  rw [hsplit, tokens_cons decimal_no_delim (decimal_ne_nil a) hdot,
    tokens_cons decimal_no_delim (decimal_ne_nil b) hdot,
    tokens_cons decimal_no_delim (decimal_ne_nil c) hdot]

/-- An address is read whole when it ends there or a comma follows. -/
theorem parsedAddress_whole (ip : InAddr) {rest : Text} (hrest : ∀ c ∈ rest.head?, c = 0x2c) :
    parsedAddress (inet_ntoa ip ++ rest) = some ip := by
  have htokens : ∃ more, tokens (ascii ".,") (inet_ntoa ip ++ rest) =
      decimal ip.a.toNat :: decimal ip.b.toNat :: decimal ip.c.toNat :: decimal ip.d.toNat ::
        more := by
    rw [inet_ntoa, List.append_assoc, tokens_three]
    cases rest with
    | nil =>
      rw [List.append_nil, tokens_last decimal_no_delim (decimal_ne_nil _)]
      exact ⟨[], rfl⟩
    | cons c rest =>
      obtain rfl := hrest c rfl
      rw [tokens_cons decimal_no_delim (decimal_ne_nil _) (by decide)]
      exact ⟨_, rfl⟩
  obtain ⟨more, htokens⟩ := htokens
  simp only [parsedAddress, htokens, octet_decimal]

/-- With one more letter in front, every number moves on by one place. -/
theorem parsedAddress_late (ip : InAddr) (rest : Text) :
    parsedAddress (ascii "C," ++ (decimal ip.a.toNat ++ ascii "." ++ decimal ip.b.toNat ++ ascii "." ++
        decimal ip.c.toNat ++ ascii "." ++ rest)) = some ⟨0, ip.a, ip.b, ip.c⟩ := by
  have hfirst : ∀ s, ascii "C," ++ s = ascii "C" ++ 0x2c :: s := fun _ => rfl
  have htokens := tokens_three ip.a.toNat ip.b.toNat ip.c.toNat rest
  have hletter : ∀ c ∈ ascii "C", decide (c ∈ ascii ".,") = false :=
    List.forall_mem_singleton.mpr rfl
  rw [parsedAddress, hfirst, tokens_cons hletter (by decide) (by decide), htokens]
  have hzero : (atoi (ascii "C") % 256).toNat.toUInt8 = 0 := by decide
  simp only [octet_decimal, hzero]

/-! ### The buffer -/

theorem mem_inet_ntoa {ip : InAddr} {c : UInt8} (hc : c ∈ inet_ntoa ip) : c ≠ 0 ∧ c ≠ 0x45 := by
  have hdecimal : ∀ n, c ∈ decimal n → c ≠ 0 ∧ c ≠ 0x45 := by
    intro n hmem
    have hrange := mem_decimal hmem
    refine ⟨?_, ?_⟩
    · rintro rfl
      exact absurd hrange.1 (by decide)
    · rintro rfl
      exact absurd hrange.2 (by decide)
  have hdot : c ∈ ascii "." → c ≠ 0 ∧ c ≠ 0x45 := by
    intro hmem
    obtain rfl := List.mem_singleton.mp hmem
    decide
  simp only [inet_ntoa, List.mem_append] at hc
  rcases hc with (((((hc | hc) | hc) | hc) | hc) | hc) | hc
  · exact hdecimal _ hc
  · exact hdot hc
  · exact hdecimal _ hc
  · exact hdot hc
  · exact hdecimal _ hc
  · exact hdot hc
  · exact hdecimal _ hc

/-- No letter of an answer is the `E` of an error. -/
theorem mem_answer {answer : Answer} {ending : Text} (hending : ∀ c ∈ ending, c = 0x0d ∨ c = 0x0a)
    {c : UInt8} (hc : c ∈ answer.text ++ ending) : c ≠ 0 ∧ c ≠ 0x45 := by
  have hcomma : c ∈ ascii "," → c ≠ 0 ∧ c ≠ 0x45 := by
    intro hmem
    obtain rfl := List.mem_singleton.mp hmem
    decide
  have hhead : c ∈ answer.head → c ≠ 0 ∧ c ≠ 0x45 := by
    intro hmem
    have hall : ∀ h ∈ [ascii "+ok=DHCP,", ascii "+ok=STATIC,", ascii "+ok="],
        (0 : UInt8) ∉ h ∧ (0x45 : UInt8) ∉ h := by decide
    have hin : answer.head ∈ [ascii "+ok=DHCP,", ascii "+ok=STATIC,", ascii "+ok="] := by
      rcases answer with ⟨_ | _, _, _, _⟩ | ⟨_, _⟩
      · exact List.mem_cons_self
      · exact List.mem_cons_of_mem _ List.mem_cons_self
      · exact List.mem_cons_of_mem _ (List.mem_cons_of_mem _ List.mem_cons_self)
    obtain ⟨hzero, hletter⟩ := hall _ hin
    exact ⟨fun h => hzero (h ▸ hmem), fun h => hletter (h ▸ hmem)⟩
  have htail : c ∈ answer.tail → c ≠ 0 ∧ c ≠ 0x45 := by
    intro hmem
    cases answer with
    | WANN mode ip mask gw =>
      simp only [Answer.tail, List.mem_append] at hmem
      rcases hmem with ((hmem | hmem) | hmem) | hmem
      · exact hcomma hmem
      · exact mem_inet_ntoa hmem
      · exact hcomma hmem
      · exact mem_inet_ntoa hmem
    | LANN ip mask =>
      rcases List.mem_append.mp hmem with hmem | hmem
      · exact hcomma hmem
      · exact mem_inet_ntoa hmem
  simp only [Answer.text, List.mem_append] at hc
  rcases hc with ((hc | hc) | hc) | hc
  · exact hhead hc
  · exact mem_inet_ntoa hc
  · exact htail hc
  · rcases hending c hc with rfl | rfl
    · decide
    · decide

/-- What the parser sees from a column on, once the answer is cut off. -/
theorem text_cut {at_rsp : Mem} {s : Text} (h : HoldsText at_rsp 0 s) (hzero : (0 : UInt8) ∉ s)
    {start : Nat} (hstart : start ≤ 24) (hlong : start ≤ s.length) :
    text (store at_rsp 24 [0]) start (96 - start) = (s.drop start).take (24 - start) := by
  have hcut : HoldsText (store at_rsp (0 + 24) [0]) 0 (s.take 24) := h.cut 24
  have hdrop := hcut.drop (k := start) (by rw [List.length_take]; omega)
  rw [Nat.zero_add, Nat.zero_add, List.drop_take] at hdrop
  have hlen := List.length_take_le (24 - start) (s.drop start)
  apply hdrop.text_eq
  · exact fun hmem => hzero (List.mem_of_mem_drop (List.mem_of_mem_take hmem))
  · omega

/-- The parser starts at one of two columns. -/
theorem refreshedAddress_eq {at_rsp : Mem} {answer : Answer} {ending : Text}
    (hending : ∀ c ∈ ending, c = 0x0d ∨ c = 0x0a) (h : HoldsText at_rsp 0 (answer.text ++ ending))
    {start : Nat} (hstart : start = if isdigit (at_rsp 4) then 4 else 9)
    (hlong : start ≤ (answer.text ++ ending).length) :
    refreshedAddress (some at_rsp) =
      parsedAddress (((answer.text ++ ending).drop start).take (24 - start)) := by
  have hzero : (0 : UInt8) ∉ answer.text ++ ending := fun hmem => (mem_answer hending hmem).1 rfl
  have hle : start ≤ 24 := by
    rw [hstart]
    split <;> decide
  have hplain : strstr (text (store at_rsp 24 [0]) 0 96) (ascii "+ERR") = false := by
    have hwhole := text_cut h hzero (Nat.zero_le 24) (Nat.zero_le _)
    rw [Nat.sub_zero, Nat.sub_zero, List.drop_zero] at hwhole
    refine decide_eq_false fun hinfix => ?_
    have hletter : (0x45 : UInt8) ∈ text (store at_rsp 24 [0]) 0 96 := hinfix.subset (by decide)
    rw [hwhole] at hletter
    exact (mem_answer hending (List.mem_of_mem_take hletter)).2 rfl
  have hfour : store at_rsp 24 [0] 4 = at_rsp 4 := store_byte_of_ne at_rsp 0 (by decide)
  simp only [refreshedAddress, hplain, hfour, ← hstart, text_cut h hzero hle hlong]
  rfl

/-! ### Which answers are understood -/

/-- Where the parser starts at the address, the address lies in front of the cut. -/
theorem parsedAddress_column {answer : Answer} {start : Nat} (hhead : answer.head.length = start)
    (hstart : start + 15 ≤ 24) (ending : Text) :
    parsedAddress (((answer.text ++ ending).drop start).take (24 - start)) = some answer.ip := by
  have hlen := inet_ntoa_length answer.ip
  have hdrop : (answer.text ++ ending).drop start =
      inet_ntoa answer.ip ++ (answer.tail ++ ending) := by
    rw [Answer.text, List.append_assoc, List.append_assoc, List.drop_left' hhead]
  rw [hdrop, List.take_append, List.take_of_length_le (by omega)]
  apply parsedAddress_whole
  intro c hc
  have htail : ∃ rest, answer.tail = 0x2c :: rest := by
    cases answer with
    | WANN mode ip mask gw => exact ⟨_, rfl⟩
    | LANN ip mask => exact ⟨_, rfl⟩
  obtain ⟨rest, htail⟩ := htail
  rw [htail, List.cons_append, List.head?_take] at hc
  split at hc
  · cases hc
  · exact (Option.some.inj hc).symm

/-- A digit at column 4: the address starts there. -/
theorem learns_LANN {ip mask : InAddr} {at_rsp : Mem} (h : Holds at_rsp (.LANN ip mask)) :
    refreshedAddress (some at_rsp) = some ip := by
  obtain ⟨ending, hending, hholds⟩ := h
  obtain ⟨c, rest, hfirst⟩ := List.exists_cons_of_ne_nil (decimal_ne_nil ip.a.toNat)
  have htext : ∃ more, (Answer.LANN ip mask).text ++ ending = ascii "+ok=" ++ c :: more := by
    simp only [Answer.text, Answer.head, Answer.ip, inet_ntoa, hfirst, List.append_assoc]
    exact ⟨_, rfl⟩
  obtain ⟨more, htext⟩ := htext
  have hdigit : isdigit (at_rsp 4) = true := by
    have hbyte : at_rsp (0 + 4) = c := by
      have hlt : 4 < ((Answer.LANN ip mask).text ++ ending).length := by
        rw [htext, List.length_append, List.length_cons]
        have hok : (ascii "+ok=").length = 4 := rfl
        omega
      rw [hholds.byte hlt]
      simp only [htext]
      rfl
    rw [Nat.zero_add] at hbyte
    have hrange := mem_decimal (hfirst ▸ List.mem_cons_self : c ∈ decimal ip.a.toNat)
    simp only [hbyte, isdigit, Bool.and_eq_true, decide_eq_true_eq, UInt8.le_iff_toNat_le]
    exact hrange
  have hlong : 4 ≤ ((Answer.LANN ip mask).text ++ ending).length := by
    rw [htext, List.length_append]
    exact Nat.le_add_right 4 _
  rw [refreshedAddress_eq hending hholds (by rw [if_pos hdigit]) hlong]
  have hhead : (Answer.LANN ip mask).head.length = 4 := rfl
  exact parsedAddress_column hhead (by decide) ending

/-- No digit at column 4: the parser starts at column 9. -/
theorem refreshed_WANN {mode : Mode} {ip mask gw : InAddr} {at_rsp : Mem}
    (h : Holds at_rsp (.WANN mode ip mask gw)) :
    ∃ ending, refreshedAddress (some at_rsp) =
      parsedAddress ((((Answer.WANN mode ip mask gw).text ++ ending).drop 9).take 15) := by
  obtain ⟨ending, hending, hholds⟩ := h
  have hhead : 9 ≤ (Answer.WANN mode ip mask gw).head.length ∧
      ∀ c ∈ (Answer.WANN mode ip mask gw).head[4]?, isdigit c = false := by
    cases mode with
    | DHCP => exact ⟨Nat.le_refl 9, fun c hc => Option.some.inj hc ▸ rfl⟩
    | STATIC => exact ⟨Nat.le_add_right 9 2, fun c hc => Option.some.inj hc ▸ rfl⟩
  obtain ⟨hnine, hletter⟩ := hhead
  have hlong : 9 ≤ ((Answer.WANN mode ip mask gw).text ++ ending).length := by
    simp only [Answer.text, List.length_append]
    omega
  have hdigit : isdigit (at_rsp 4) = false := by
    apply hletter
    have hbyte := hholds.byte (i := 4) (by omega)
    rw [Nat.zero_add] at hbyte
    rw [Option.mem_def, List.getElem?_eq_getElem (by omega), hbyte]
    simp only [Answer.text, List.append_assoc]
    rw [List.getElem_append_left]
  exact ⟨ending, refreshedAddress_eq hending hholds (by rw [hdigit]; rfl) hlong⟩

theorem learns_DHCP {ip mask gw : InAddr} {at_rsp : Mem}
    (h : Holds at_rsp (.WANN .DHCP ip mask gw)) : refreshedAddress (some at_rsp) = some ip := by
  obtain ⟨ending, heq⟩ := refreshed_WANN h
  have hhead : (Answer.WANN .DHCP ip mask gw).head.length = 9 := rfl
  rw [heq]
  exact parsedAddress_column hhead (by decide) ending

/-- Behind `STATIC` the first number is read off the last letter of the mode. -/
theorem reads_STATIC {ip mask gw : InAddr} {at_rsp : Mem}
    (h : Holds at_rsp (.WANN .STATIC ip mask gw)) :
    refreshedAddress (some at_rsp) = some ⟨0, ip.a, ip.b, ip.c⟩ := by
  obtain ⟨ending, heq⟩ := refreshed_WANN h
  have hdrop : ((Answer.WANN .STATIC ip mask gw).text ++ ending).drop 9 =
      (ascii "C," ++ (decimal ip.a.toNat ++ ascii "." ++ decimal ip.b.toNat ++ ascii "." ++
        decimal ip.c.toNat ++ ascii ".")) ++
          (decimal ip.d.toNat ++ (Answer.WANN .STATIC ip mask gw).tail ++ ending) := by
    have hhead : (Answer.WANN .STATIC ip mask gw).head = ascii "+ok=STATI" ++ ascii "C," := rfl
    have hnine : (ascii "+ok=STATI").length = 9 := rfl
    rw [Answer.text, hhead, Answer.ip, inet_ntoa]
    simp only [List.append_assoc]
    rw [List.drop_left' hnine]
  have hlen : (ascii "C," ++ (decimal ip.a.toNat ++ ascii "." ++ decimal ip.b.toNat ++ ascii "." ++
      decimal ip.c.toNat ++ ascii ".")).length ≤ 15 := by
    have ha := decimal_byte_length ip.a
    have hb := decimal_byte_length ip.b
    have hc := decimal_byte_length ip.c
    have hdot : (ascii ".").length = 1 := rfl
    have hletter : (ascii "C,").length = 2 := rfl
    simp only [List.length_append, hdot, hletter]
    omega
  rw [heq, hdrop, List.take_append, List.take_of_length_le hlen, List.append_assoc]
  exact parsedAddress_late ip _

/-- The buffer with an answer of the module, and nothing behind it. -/
def received (answer : Answer) : Mem := storeText zeroed 0 answer.text

theorem received_holds (answer : Answer) : Holds (received answer) answer := by
  refine ⟨[], by simp, ?_⟩
  rw [List.append_nil]
  exact holdsText_storeText zeroed 0 answer.text

theorem refused_answer {at_rsp : Mem} {rest : Text}
    (h : HoldsText at_rsp 0 (ascii "+ERR" ++ rest)) :
    refreshedAddress (some at_rsp) = some ⟨0, 0, 0, 0⟩ := by
  have hcut : HoldsText (store at_rsp (0 + 24) [0]) 0 ((ascii "+ERR" ++ rest).take 24) := h.cut 24
  have htake : (ascii "+ERR" ++ rest).take 24 = ascii "+ERR" ++ rest.take 20 := by
    rw [List.take_append]
    rfl
  rw [htake, Nat.zero_add] at hcut
  have hlen : (ascii "+ERR" ++ rest.take 20).length < 96 := by
    have hrest := List.length_take_le 20 rest
    have herr : (ascii "+ERR").length = 4 := rfl
    rw [List.length_append]
    omega
  have hfound : strstr (text (store at_rsp 24 [0]) 0 96) (ascii "+ERR") = true := by
    have hplain : ∀ c ∈ ascii "+ERR", decide (c ≠ 0) = true := List.all_eq_true.mp (by decide)
    rw [hcut.text_takeWhile hlen, List.takeWhile_append_of_pos hplain]
    exact decide_eq_true (List.prefix_append _ _).isInfix
  simp only [refreshedAddress, hfound, if_true]

/-- **Which answers are understood.**  All but those of a fixed address, unless that is
0.0.0.0. -/
theorem learns_iff (answer : Answer) :
    Learns answer ↔ ∀ ip mask gw, answer = .WANN .STATIC ip mask gw → ip = ⟨0, 0, 0, 0⟩ := by
  constructor
  · rintro ⟨hanswered, -, -⟩ ip mask gw rfl
    have hlearnt := hanswered _ (received_holds _)
    rw [reads_STATIC (received_holds _)] at hlearnt
    have heq := Option.some.inj hlearnt
    obtain ⟨a, b, c, d⟩ := ip
    simp only [Answer.ip, InAddr.mk.injEq] at heq ⊢
    obtain ⟨rfl, rfl, rfl, rfl⟩ := heq
    exact ⟨rfl, rfl, rfl, rfl⟩
  · intro hstatic
    refine ⟨fun at_rsp h => ?_, rfl, fun _ _ h => refused_answer h⟩
    rcases answer with ⟨mode, ip, mask, gw⟩ | ⟨ip, mask⟩
    · cases mode with
      | DHCP => exact learns_DHCP h
      | STATIC =>
        obtain rfl := hstatic ip mask gw rfl
        exact reads_STATIC h
    · exact learns_LANN h

/-- With the fixed address 192.168.1.20 the node takes itself for 0.192.168.1. -/
theorem fixed_address_misread :
    ¬ Learns (.WANN .STATIC ⟨192, 168, 1, 20⟩ ⟨255, 255, 255, 0⟩ ⟨192, 168, 1, 1⟩) := by
  rintro ⟨hanswered, -, -⟩
  have hlearnt := hanswered _ (received_holds _)
  rw [reads_STATIC (received_holds _)] at hlearnt
  exact absurd hlearnt (by decide)

end AksFirmware.AddressAnswer
