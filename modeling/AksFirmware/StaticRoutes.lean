import AksFirmware.ConfigCommands
import AksFirmware.Runs

/-!
# The static routes

`CGI_do_rt_add` keeps the static routes in numbered configuration entries, and takes them to
end at the first number without an entry.  A route is added there; a deletion removes every
copy of a route in front of it.  A deletion leaves its number without an entry, so that the
routes behind it are out of reach until an addition fills the hole.

The routing table itself is not part of the sources: a request carries what it answers.
-/

namespace AksFirmware.StaticRoutes

open ByteMemory CText Runs ConfigCommands

/-! ### Requests and entries -/

/-- The entries `CFG_RT_ENTRY+1` and on; all numbers behind the list have none. -/
abbrev Store := List (Option Text)

/-- The variables of a request, and the answers of the routing table: to the addition, and to
the deletion of the route with the number `CFG_RT_ENTRY+i+1`. -/
structure Request where
  cmd : Text
  str : Text
  RT_add_staticrt : Int
  RT_del_staticrt : Nat → Int

def Request.deletes (q : Request) : Prop := atoi q.cmd = 1

instance (q : Request) : Decidable q.deletes := by unfold Request.deletes; infer_instance

/-- The entries and the return code behind the loop of a deletion.  `rtent` has 100 bytes, and
a longer entry has no outcome. -/
def deleteWalk (entstr : Text) (del : Nat → Int) : Nat → Int → Store → Option (Store × Int)
  | i, rc, some rtent :: s =>
      if rtent.length < 100 then
        if entstr = rtent then (deleteWalk entstr del (i + 1) (del i) s).map (Prod.map (none :: ·) id)
        else (deleteWalk entstr del (i + 1) rc s).map (Prod.map (some rtent :: ·) id)
      else none
  | _, rc, s => some (s, rc)

/-- The entries with a route at the first number that has none. -/
def addWalk (entstr : Text) : Store → Option Store
  | some rtent :: s => if rtent.length < 100 then (addWalk entstr s).map (some rtent :: ·) else none
  | none :: s => some (some entstr :: s)
  | [] => some [some entstr]

/-- The entries and the return code of a request. -/
def CGI_do_rt_add (s : Store) (q : Request) : Option (Store × Int) := do
  let (s, rc) ←
    if q.deletes then deleteWalk q.str q.RT_del_staticrt 0 0 s
    else do
      let stored ← addWalk q.str s
      if q.RT_add_staticrt ≠ -1 then some (stored, q.RT_add_staticrt)
      else some (s, q.RT_add_staticrt)
  some (s, if rc = 0 then CGI_RC_CFG_OK else rc)

def step (s : Store) (q : Request) : Option Store := (CGI_do_rt_add s q).map Prod.fst

/-! ### The routes that are stored -/

def copies (s : Store) (r : Text) : Nat := s.count (some r)

/-- The routes in front of the first number without an entry. -/
def walked (s : Store) : Store := s.takeWhile Option.isSome

/-- The entries from the first number without one on. -/
def behind (s : Store) : Store := s.dropWhile Option.isSome

/-- `rtent` has room for every entry that the loops read. -/
def Readable (s : Store) : Prop := ∀ r, some r ∈ walked s → r.length < 100

/-- What a request makes of the number of copies of each route, when nothing gets lost. -/
def recount (n : Text → Nat) (q : Request) : Text → Nat := fun r =>
  if q.deletes then if r = q.str then 0 else n r
  else if q.RT_add_staticrt ≠ -1 ∧ r = q.str then n r + 1
  else n r

/-- The entries are short enough, and a route to be deleted is within reach. -/
def Reaches (s : Store) (q : Request) : Prop :=
  Readable s ∧ (q.deletes → some q.str ∉ behind s)

theorem walked_append_behind (s : Store) : walked s ++ behind s = s :=
  List.takeWhile_append_dropWhile

theorem copies_split (s : Store) (r : Text) :
    copies s r = (walked s).count (some r) + (behind s).count (some r) := by
  rw [← List.count_append, walked_append_behind]
  rfl

theorem walked_cons_some (r : Text) (s : Store) : walked (some r :: s) = some r :: walked s := rfl

theorem behind_cons_some (r : Text) (s : Store) : behind (some r :: s) = behind s := rfl

theorem readable_cons {r : Text} {s : Store} :
    Readable (some r :: s) ↔ r.length < 100 ∧ Readable s := by
  simp [Readable, walked_cons_some]

theorem readable_of_head {s : Store} (h : ∀ r t, s ≠ some r :: t) : Readable s := by
  intro r hr
  cases s with
  | nil => exact nomatch hr
  | cons e s =>
    cases e with
    | none => exact nomatch hr
    | some r' => exact absurd rfl (h r' s)

/-! ### The loops -/

theorem deleteWalk_cons (entstr : Text) (del : Nat → Int) (i : Nat) (rc : Int) {r : Text}
    (hfits : r.length < 100) (s : Store) :
    deleteWalk entstr del i rc (some r :: s) =
      (deleteWalk entstr del (i + 1) (if entstr = r then del i else rc) s).map
        (Prod.map ((if some r = some entstr then none else some r) :: ·) id) := by
  rw [deleteWalk, if_pos hfits]
  by_cases hmatch : entstr = r
  · rw [if_pos hmatch, if_pos hmatch, if_pos (by rw [hmatch])]
  · rw [if_neg hmatch, if_neg hmatch, if_neg fun heq => hmatch (Option.some.inj heq).symm]

/-- A deletion takes the route out of the entries that it walks over. -/
theorem deleteWalk_eq (entstr : Text) (del : Nat → Int) (s : Store) : ∀ i rc,
    (Readable s → ∃ rc', deleteWalk entstr del i rc s =
      some ((walked s).map (fun e => if e = some entstr then none else e) ++ behind s, rc')) ∧
    (¬ Readable s → deleteWalk entstr del i rc s = none) := by
  induction s with
  | nil => exact fun i rc => ⟨fun _ => ⟨rc, rfl⟩, fun h => absurd (readable_of_head (by simp)) h⟩
  | cons e s ih =>
    intro i rc
    cases e with
    | none => exact ⟨fun _ => ⟨rc, rfl⟩, fun h => absurd (readable_of_head (by simp)) h⟩
    | some r =>
      rw [readable_cons, walked_cons_some, behind_cons_some, List.map_cons]
      by_cases hfits : r.length < 100
      · rw [deleteWalk_cons entstr del i rc hfits]
        obtain ⟨hread, hover⟩ := ih (i + 1) (if entstr = r then del i else rc)
        refine ⟨fun h => ?_, fun h => ?_⟩
        · obtain ⟨rc', hrest⟩ := hread h.2
          exact ⟨rc', by rw [hrest]; rfl⟩
        · rw [hover fun hs => h ⟨hfits, hs⟩]
          rfl
      · rw [deleteWalk, if_neg hfits]
        exact ⟨fun h => absurd h.1 hfits, fun _ => rfl⟩

/-- An addition changes the first number without an entry and no other. -/
theorem addWalk_eq (entstr : Text) (s : Store) :
    (Readable s → addWalk entstr s = some (walked s ++ some entstr :: (behind s).tail)) ∧
      (¬ Readable s → addWalk entstr s = none) := by
  induction s with
  | nil => exact ⟨fun _ => rfl, fun h => absurd (readable_of_head (by simp)) h⟩
  | cons e s ih =>
    cases e with
    | none => exact ⟨fun _ => rfl, fun h => absurd (readable_of_head (by simp)) h⟩
    | some r =>
      rw [readable_cons, addWalk, walked_cons_some, behind_cons_some]
      by_cases hfits : r.length < 100
      · rw [if_pos hfits]
        refine ⟨fun h => ?_, fun h => ?_⟩
        · rw [ih.1 h.2]
          rfl
        · rw [ih.2 fun hs => h ⟨hfits, hs⟩]
          rfl
      · rw [if_neg hfits]
        exact ⟨fun h => absurd h.1 hfits, fun _ => rfl⟩

/-! ### What a request makes of the copies -/

theorem count_deleted (entstr r : Text) (s : Store) :
    (s.map fun e => if e = some entstr then none else e).count (some r) =
      if r = entstr then 0 else s.count (some r) := by
  by_cases hr : r = entstr
  · rw [if_pos hr, List.count_eq_zero]
    intro hmem
    obtain ⟨e, -, he⟩ := List.mem_map.mp hmem
    split at he
    · cases he
    · rename_i hother
      exact hother (hr ▸ he)
  · rw [if_neg hr]
    induction s with
    | nil => rfl
    | cons e s ih =>
      rw [List.map_cons, List.count_cons, List.count_cons, ih]
      congr 1
      by_cases he : e = some entstr
      · rw [if_pos he, he]
        have hne : entstr ≠ r := fun heq => hr heq.symm
        simp [hne]
      · rw [if_neg he]

/-- The entry that an addition overwrites holds no route. -/
theorem count_behind_tail (s : Store) (r : Text) :
    (behind s).tail.count (some r) = (behind s).count (some r) := by
  cases hcons : behind s with
  | nil => rfl
  | cons e rest =>
    have he : Option.isSome e = false := not_of_dropWhile_cons hcons
    obtain rfl : e = none := by simpa using he
    rw [List.tail_cons, List.count_cons]
    rfl

theorem step_eq_none {s : Store} (h : ¬ Readable s) (q : Request) : step s q = none := by
  rw [step, CGI_do_rt_add]
  by_cases hdel : q.deletes
  · rw [if_pos hdel, (deleteWalk_eq q.str q.RT_del_staticrt s 0 0).2 h]
    rfl
  · rw [if_neg hdel, (addWalk_eq q.str s).2 h]
    rfl

theorem step_delete {s : Store} (h : Readable s) {q : Request} (hdel : q.deletes) :
    ∃ t, step s q = some t ∧
      ∀ r, copies t r = if r = q.str then (behind s).count (some r) else copies s r := by
  obtain ⟨rc, hwalk⟩ := (deleteWalk_eq q.str q.RT_del_staticrt s 0 0).1 h
  refine ⟨_, by rw [step, CGI_do_rt_add, if_pos hdel, hwalk]; rfl, fun r => ?_⟩
  rw [copies, List.count_append, count_deleted, copies_split]
  split
  · rw [Nat.zero_add]
  · rfl

theorem step_add {s : Store} (h : Readable s) {q : Request} (hadd : ¬ q.deletes) :
    ∃ t, step s q = some t ∧
      ∀ r, copies t r = if q.RT_add_staticrt ≠ -1 ∧ r = q.str then copies s r + 1 else copies s r := by
  rw [step, CGI_do_rt_add, if_neg hadd, (addWalk_eq q.str s).1 h]
  by_cases hrc : q.RT_add_staticrt ≠ -1
  · refine ⟨walked s ++ some q.str :: (behind s).tail, by simp [hrc], fun r => ?_⟩
    rw [copies, List.count_append, List.count_cons, count_behind_tail, copies_split]
    by_cases hr : r = q.str
    · have hsame : (some q.str == some r) = true := by simp [hr]
      rw [hsame, if_pos rfl, if_pos ⟨hrc, hr⟩, Nat.add_assoc]
    · have hother : (some q.str == some r) = false := by simpa using fun heq => hr heq.symm
      rw [hother, if_neg Bool.false_ne_true, if_neg fun h => hr h.2]
      rfl
  · refine ⟨s, by simp [not_not.mp hrc], fun r => ?_⟩
    rw [if_neg fun h => hrc h.1]

/-- A request counts as it should exactly when it reaches what it is about. -/
theorem step_recounts_iff (s : Store) (q : Request) :
    (∃ t, step s q = some t ∧ copies t = recount (copies s) q) ↔ Reaches s q := by
  by_cases hread : Readable s
  · by_cases hdel : q.deletes
    · obtain ⟨t, hstep, hcopies⟩ := step_delete hread hdel
      have hgone : copies t = recount (copies s) q ↔ some q.str ∉ behind s := by
        rw [← List.count_eq_zero]
        constructor
        · intro heq
          have hat := congrFun heq q.str
          rwa [hcopies, if_pos rfl, recount, if_pos hdel, if_pos rfl] at hat
        · intro hzero
          funext r
          rw [hcopies, recount, if_pos hdel]
          split
          · rename_i hr
            rw [hr, hzero]
          · rfl
      constructor
      · rintro ⟨u, hu, heq⟩
        obtain rfl := Option.some.inj (hstep.symm.trans hu)
        exact ⟨hread, fun _ => hgone.mp heq⟩
      · rintro ⟨-, hreach⟩
        exact ⟨t, hstep, hgone.mpr (hreach hdel)⟩
    · obtain ⟨t, hstep, hcopies⟩ := step_add hread hdel
      refine iff_of_true ⟨t, hstep, funext fun r => ?_⟩ ⟨hread, fun h => absurd h hdel⟩
      rw [hcopies, recount, if_neg hdel]
  · rw [step_eq_none hread]
    exact iff_of_false (fun ⟨_, h, _⟩ => nomatch h) fun h => hread h.1

/-! ### Runs of requests -/

def added (str : Text) : Request := ⟨ascii "0", str, 0, fun _ => 0⟩

def deleted (str : Text) : Request := ⟨ascii "1", str, 0, fun _ => 0⟩

/-- The second of two routes cannot be deleted behind the first. -/
theorem rt_route_stays :
    (exec step [] [added (ascii "A"), added (ascii "B"), deleted (ascii "A"), deleted (ascii "B")]).map
        (copies · (ascii "B")) = some 1 ∧
      [added (ascii "A"), added (ascii "B"), deleted (ascii "A"), deleted (ascii "B")].foldl recount
        (copies []) (ascii "B") = 0 := by
  decide

/-- The routes that are stored are those added and not deleted since, each as often as it was
added, at every point of a run exactly when every request reaches what it is about. -/
theorem rt_requests_iff (s : Store) (qs : List Request) :
    (∀ before after, qs = before ++ after →
        ∃ t, exec step s before = some t ∧ copies t = before.foldl recount (copies s)) ↔
      Each step Reaches s qs :=
  exec_follows_iff step_recounts_iff s qs

end AksFirmware.StaticRoutes
