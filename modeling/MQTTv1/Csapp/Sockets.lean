import Mathlib.Data.Finset.Lattice.Basic
import Mathlib.Data.Fintype.EquivFin
import MQTTv1.Csapp.Rio

/-!
# Opening sockets

The helpers with which the programs connect and listen walk a list of addresses
until one works.  They exist twice: in `csapp.c`, where the wrappers end the
process, and in `common.c`, which no program is linked with and which leaves the
results of the same calls untested.
-/

namespace MQTTv1
namespace Csapp

open CLib

/-!
# The kernel
-/

/-- A new descriptor has the lowest number that the process does not use. -/
def lowestFree (used : Finset Nat) : Nat :=
  Nat.find (Infinite.exists_notMem_finset used)

theorem lowestFree_notMem (used : Finset Nat) : lowestFree used ∉ used :=
  Nat.find_spec (Infinite.exists_notMem_finset used)

/-- What the kernel answers while one entry of the address list is tried. -/
structure Attempt where
  socket : Bool
  setsockopt : Bool
  /-- `connect`, or `bind`, succeeds. -/
  attaches : Bool
  /-- The descriptor is gone even when `close` reports an error. -/
  close : Bool
deriving DecidableEq, Repr

/-- A call inside the walk; only a wrapper looks at its result. -/
def check (wrapped succeeds : Bool) : Except Stop Unit :=
  if wrapped && !succeeds then .error .exited else .ok ()

/-- What a helper returns, and the descriptors in use behind the call. -/
abbrev Opened := Int × Finset Nat

def opened (used : Finset Nat) : Opened :=
  (lowestFree used, insert (lowestFree used) used)

/-- The loop over `listp`; a listener sets `SO_REUSEADDR` in front of `bind`. -/
def walk (wrapped reuse : Bool) : List Attempt -> Finset Nat ->
    Except Stop Opened
  | [], used => .ok (-1, used)
  | p :: rest, used =>
      if p.socket then do
        let fd := lowestFree used
        check wrapped (!reuse || p.setsockopt)
        if p.attaches then
          .ok (opened used)
        else
          check wrapped p.close
          walk wrapped reuse rest ((insert fd used).erase fd)
      else
        walk wrapped reuse rest used

/-- `listen`, behind the walk; a failure leaves the socket open. -/
def listening (listens : Bool) (found : Opened) : Opened :=
  if found.1 < 0 then (-1, found.2)
  else if listens then found
  else (-1, found.2)

/-!
# csapp.c

`listp` is the list that `getaddrinfo` found, if it found one.
-/

def openClientfd (listp : Option (List Attempt)) (used : Finset Nat) :
    Except Stop Opened :=
  match listp with
  | none => .error .exited
  | some addresses => walk true false addresses used

def openListenfd (listp : Option (List Attempt)) (listens : Bool)
    (used : Finset Nat) : Except Stop Opened :=
  match listp with
  | none => .error .exited
  | some addresses => (walk true true addresses used).map (listening listens)

/-- The wrappers `Open_clientfd` and `Open_listenfd`. -/
def orExit (call : Except Stop Opened) : Except Stop Opened :=
  call.bind fun found => if found.1 < 0 then .error .exited else .ok found

def OpenClientfd (listp : Option (List Attempt)) (used : Finset Nat) :
    Except Stop Opened :=
  orExit (openClientfd listp used)

def OpenListenfd (listp : Option (List Attempt)) (listens : Bool)
    (used : Finset Nat) : Except Stop Opened :=
  orExit (openListenfd listp listens used)

end Csapp

/-!
# common.c
-/

namespace Common

open Csapp

/-- When `getaddrinfo` fails, the walk begins at an uninitialised pointer. -/
def openListenfd (listp : Option (List Attempt)) (listens : Bool)
    (used : Finset Nat) : Except Stop Opened :=
  match listp with
  | none => .error .undefined
  | some addresses => (walk false true addresses used).map (listening listens)

def openClientfd (listp : Option (List Attempt)) (used : Finset Nat) :
    Except Stop Opened :=
  match listp with
  | none => .error .undefined
  | some addresses => walk false false addresses used

end Common

namespace Csapp

/-!
# The walk
-/

def Attempt.works (p : Attempt) : Bool := p.socket && p.attaches

def Attempt.fails (reuse : Bool) (p : Attempt) : Bool :=
  p.socket && (reuse && !p.setsockopt || !p.attaches && !p.close)

def Attempt.passed (wrapped reuse : Bool) (p : Attempt) : Bool :=
  !p.works && !(wrapped && p.fails reuse)

def Reaches (wrapped reuse : Bool) (addresses : List Attempt) : Prop :=
  exists front p rest, addresses = front ++ p :: rest ∧
    (forall q, q ∈ front -> q.passed wrapped reuse = true) ∧
    p.works = true ∧ (wrapped = true -> p.fails reuse = false)

section

variable {wrapped reuse listens : Bool} {used : Finset Nat}
variable {p : Attempt} {addresses : List Attempt} {found : Opened}

/-- A socket that is closed again leaves no trace in the table. -/
theorem walk_passed (hp : p.passed wrapped reuse = true)
    (rest : List Attempt) :
    walk wrapped reuse (p :: rest) used = walk wrapped reuse rest used := by
  have herase := Finset.erase_insert (lowestFree_notMem used)
  rcases p with ⟨hasSocket, setsockopt, attaches, close⟩
  cases hasSocket with
  | false => rfl
  | true =>
      cases attaches with
      | true => cases hp
      | false =>
          have hfine : check wrapped (!reuse || setsockopt) = .ok () ∧
              check wrapped close = .ok () := by
            revert hp
            cases wrapped <;> cases reuse <;> cases setsockopt <;>
              cases close <;> decide
          change (do
            check wrapped (!reuse || setsockopt)
            check wrapped close
            walk wrapped reuse rest ((insert (lowestFree used) used).erase
              (lowestFree used))) = _
          rw [hfine.left, hfine.right, herase]
          rfl

theorem walk_exited (hfails : p.fails reuse = true) (rest : List Attempt) :
    walk true reuse (p :: rest) used = .error .exited := by
  rcases p with ⟨hasSocket, setsockopt, attaches, close⟩
  cases hasSocket with
  | false => cases hfails
  | true =>
      cases hoption : !reuse || setsockopt with
      | false =>
          change (check true (!reuse || setsockopt)).bind _ = _
          rw [hoption]
          rfl
      | true =>
          -- the option is set, so `close` fails behind the other call
          have hclose : attaches = false ∧ close = false := by
            revert hfails hoption
            cases reuse <;> cases setsockopt <;> cases attaches <;>
              cases close <;> decide
          change (check true (!reuse || setsockopt)).bind _ = _
          rw [hoption, hclose.left, hclose.right]
          rfl

theorem walk_found (hworks : p.works = true)
    (hfine : wrapped = true -> p.fails reuse = false) (rest : List Attempt) :
    walk wrapped reuse (p :: rest) used = .ok (opened used) := by
  rcases p with ⟨hasSocket, setsockopt, attaches, close⟩
  cases hasSocket with
  | false => cases hworks
  | true =>
      cases attaches with
      | false => cases hworks
      | true =>
          have hoption : check wrapped (!reuse || setsockopt) = .ok () := by
            revert hfine
            cases wrapped <;> cases reuse <;> cases setsockopt <;>
              cases close <;> decide
          change (check wrapped (!reuse || setsockopt)).bind _ = _
          rw [hoption]
          rfl

theorem walk_front {front : List Attempt}
    (hpassed : forall q, q ∈ front -> q.passed wrapped reuse = true)
    (rest : List Attempt) :
    walk wrapped reuse (front ++ rest) used = walk wrapped reuse rest used := by
  induction front with
  | nil => rfl
  | cons q front ih =>
      rw [List.cons_append, walk_passed (hpassed q List.mem_cons_self)]
      exact ih fun r hr => hpassed r (List.mem_cons_of_mem _ hr)

theorem walk_not_passed (hp : p.passed wrapped reuse = false)
    (hok : walk wrapped reuse (p :: addresses) used = .ok found) :
    found = opened used ∧
      p.works = true ∧ (wrapped = true -> p.fails reuse = false) := by
  have hfine : wrapped = true -> p.fails reuse = false := by
    rintro rfl
    by_contra hfails
    rw [walk_exited (Bool.of_not_eq_false hfails)] at hok
    cases hok
  have hworks : p.works = true := by
    by_contra hworks
    unfold Attempt.passed at hp
    rw [Bool.eq_false_iff.mpr hworks] at hp
    cases wrapped with
    | false => cases hp
    | true =>
        rw [hfine rfl] at hp
        cases hp
  rw [walk_found hworks hfine] at hok
  cases hok
  exact ⟨rfl, hworks, hfine⟩

/-- The walk returns behind the list or with the lowest free descriptor. -/
theorem walk_eq_ok :
    walk wrapped reuse addresses used = .ok found <->
      (found = (-1, used) ∧
          forall q, q ∈ addresses -> q.passed wrapped reuse = true) ∨
        (found = opened used ∧
          Reaches wrapped reuse addresses) := by
  constructor
  · intro hok
    induction addresses with
    | nil =>
        cases hok
        left
        refine ⟨rfl, ?_⟩
        intro q hq
        cases hq
    | cons p rest ih =>
        cases hp : p.passed wrapped reuse with
        | true =>
            rw [walk_passed hp] at hok
            rcases ih hok with
              ⟨hfound, hall⟩ | ⟨hfound, front, q, tail, rfl, hfront, hq⟩
            · left
              refine ⟨hfound, ?_⟩
              intro q hq
              rcases List.mem_cons.mp hq with rfl | hq
              · exact hp
              · exact hall q hq
            · right
              refine ⟨hfound, p :: front, q, tail, rfl, ?_, hq⟩
              intro r hr
              rcases List.mem_cons.mp hr with rfl | hr
              · exact hp
              · exact hfront r hr
        | false =>
            rcases walk_not_passed hp hok with ⟨hfound, hends⟩
            right
            refine ⟨hfound, [], p, rest, rfl, ?_, hends⟩
            intro q hq
            cases hq
  · intro hends
    rcases hends with
      ⟨rfl, hall⟩ | ⟨rfl, front, p, rest, rfl, hfront, hworks, hfine⟩
    · rw [← List.append_nil addresses, walk_front hall]
      rfl
    · rw [walk_front hfront, walk_found hworks hfine]

theorem walk_unchecked (hok : walk true reuse addresses used = .ok found) :
    walk false reuse addresses used = .ok found := by
  have hpassed : forall q : Attempt, q.passed true reuse = true ->
      q.passed false reuse = true := by
    intro q hq
    unfold Attempt.passed at hq ⊢
    rw [Bool.and_eq_true] at hq
    rw [hq.left]
    rfl
  rw [walk_eq_ok] at hok ⊢
  rcases hok with
    ⟨hfound, hall⟩ | ⟨hfound, front, p, rest, hsplit, hfront, hworks, _⟩
  · exact Or.inl ⟨hfound, fun q hq => hpassed q (hall q hq)⟩
  · refine Or.inr ⟨hfound, front, p, rest, hsplit,
      fun q hq => hpassed q (hfront q hq), hworks, ?_⟩
    intro hfalse
    cases hfalse

/-!
# The helpers
-/

theorem orExit_eq_ok {call : Except Stop Opened} :
    orExit call = .ok found <-> call = .ok found ∧ 0 ≤ found.1 := by
  unfold orExit
  cases call with
  | error stop => simp [Except.bind]
  | ok result =>
      simp only [Except.bind]
      split
      · constructor
        · intro h
          cases h
        · rintro ⟨⟨rfl⟩, hcode⟩
          lia
      · constructor
        · rintro ⟨rfl⟩
          exact ⟨rfl, by lia⟩
        · exact And.left

theorem OpenClientfd_eq_ok {listp : Option (List Attempt)} :
    OpenClientfd listp used = .ok found <->
      found = opened used ∧
        exists addresses, listp = some addresses ∧
          Reaches true false addresses := by
  unfold OpenClientfd
  rw [orExit_eq_ok]
  cases listp with
  | none => simp [openClientfd]
  | some addresses =>
      simp only [openClientfd, walk_eq_ok, Option.some.injEq,
        exists_eq_left']
      constructor
      · rintro ⟨⟨rfl, _⟩ | hfound, hcode⟩
        · cases hcode
        · exact hfound
      · rintro ⟨rfl, hreaches⟩
        exact ⟨Or.inr ⟨rfl, hreaches⟩, Int.natCast_nonneg _⟩

theorem map_listening_eq_ok {call : Except Stop Opened} :
    call.map (listening listens) = .ok found <->
      exists mid, call = .ok mid ∧ listening listens mid = found := by
  cases call <;> simp [Except.map]

theorem listening_opened (listens : Bool) (used : Finset Nat) :
    listening listens (opened used) =
      (if listens then (opened used).1 else -1, (opened used).2) := by
  have hcode : ¬ (opened used).1 < 0 := not_lt.mpr (Int.natCast_nonneg _)
  unfold listening
  rw [if_neg hcode]
  cases listens <;> rfl

theorem openListenfd_eq_ok {listp : Option (List Attempt)} :
    openListenfd listp listens used = .ok found <->
      exists addresses, listp = some addresses ∧
        ((found = (-1, used) ∧
            forall q, q ∈ addresses -> q.passed true true = true) ∨
          (found =
              (if listens then (opened used).1 else -1, (opened used).2) ∧
            Reaches true true addresses)) := by
  cases listp with
  | none => simp [openListenfd]
  | some addresses =>
      simp only [openListenfd, map_listening_eq_ok, walk_eq_ok,
        Option.some.injEq, exists_eq_left', ← listening_opened]
      constructor
      · rintro ⟨mid, ⟨rfl, hall⟩ | ⟨rfl, hreaches⟩, rfl⟩
        · exact Or.inl ⟨rfl, hall⟩
        · exact Or.inr ⟨rfl, hreaches⟩
      · rintro (⟨rfl, hall⟩ | ⟨rfl, hreaches⟩)
        · exact ⟨_, Or.inl ⟨rfl, hall⟩, rfl⟩
        · exact ⟨_, Or.inr ⟨rfl, hreaches⟩, rfl⟩

theorem OpenListenfd_eq_ok {listp : Option (List Attempt)} :
    OpenListenfd listp listens used = .ok found <->
      found = opened used ∧ listens = true ∧
        exists addresses, listp = some addresses ∧
          Reaches true true addresses := by
  unfold OpenListenfd
  rw [orExit_eq_ok, openListenfd_eq_ok]
  constructor
  · rintro ⟨⟨addresses, hlist, ⟨rfl, _⟩ | ⟨rfl, hreaches⟩⟩, hcode⟩
    · cases hcode
    · cases listens with
      | false => cases hcode
      | true => exact ⟨rfl, rfl, addresses, hlist, hreaches⟩
  · rintro ⟨rfl, rfl, addresses, hlist, hreaches⟩
    exact ⟨⟨addresses, hlist, Or.inr ⟨rfl, hreaches⟩⟩, Int.natCast_nonneg _⟩

theorem openClientfd_unchecked {listp : Option (List Attempt)}
    (hok : openClientfd listp used = .ok found) :
    Common.openClientfd listp used = .ok found := by
  cases listp with
  | none => cases hok
  | some addresses => exact walk_unchecked hok

theorem openListenfd_unchecked {listp : Option (List Attempt)}
    (hok : openListenfd listp listens used = .ok found) :
    Common.openListenfd listp listens used = .ok found := by
  cases listp with
  | none => cases hok
  | some addresses =>
      rcases map_listening_eq_ok.mp hok with ⟨mid, hwalk, hmid⟩
      exact map_listening_eq_ok.mpr ⟨mid, walk_unchecked hwalk, hmid⟩

end

/--
A program gets past `Open_clientfd` or `Open_listenfd` exactly when the walk
reaches an address that works, and then it has one more descriptor than before,
the lowest free one, however many addresses failed in front.  `open_listenfd`
leaves a socket behind only where `listen` fails.  The copies in `common.c` agree
with every call that returns.
-/
theorem sockets_accounted (listp : Option (List Attempt)) (listens : Bool)
    (used : Finset Nat) (found : Opened) :
    (OpenClientfd listp used = .ok found <->
        found = opened used ∧
          exists addresses, listp = some addresses ∧
            Reaches true false addresses) ∧
      (OpenListenfd listp listens used = .ok found <->
        found = opened used ∧ listens = true ∧
          exists addresses, listp = some addresses ∧
            Reaches true true addresses) ∧
      (openListenfd listp listens used = .ok found -> found.1 = -1 ->
        found.2 = used ∨ listens = false ∧ found.2 = (opened used).2) ∧
      (openClientfd listp used = .ok found ->
        Common.openClientfd listp used = .ok found) ∧
      (openListenfd listp listens used = .ok found ->
        Common.openListenfd listp listens used = .ok found) := by
  refine ⟨OpenClientfd_eq_ok, OpenListenfd_eq_ok, ?_, openClientfd_unchecked,
    openListenfd_unchecked⟩
  intro hok hcode
  rcases openListenfd_eq_ok.mp hok with ⟨_, _, ⟨rfl, _⟩ | ⟨rfl, _⟩⟩
  · exact Or.inl rfl
  · cases listens with
    | false => exact Or.inr ⟨rfl, rfl⟩
    | true =>
        have hfd : (opened used).1 = -1 := hcode
        have hpos : 0 ≤ (opened used).1 := Int.natCast_nonneg _
        lia

end Csapp
end MQTTv1
