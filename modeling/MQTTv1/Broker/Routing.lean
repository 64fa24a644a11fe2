import Mathlib.Data.Nat.Find
import MQTTv1.Broker.Rows
import MQTTv1.Broker.Forwarding
import MQTTv1.CLib.Runs

/-!
# Routing identity

A row knows its own descriptor, but `forward_messages` looks both ends up by
name, and the table only grows.  Over a history of registrations and
disconnections the search returns the oldest connection of a name.
-/

namespace MQTTv1
namespace Broker

open CLib
open Csapp

/-!
# Histories

The broker never closes a descriptor while it runs, so `accept` does not return
the same one twice, whether or not its peer is still there.
-/

structure Session where
  tables : Tables
  accepted : List Fd
  closed : Fd -> Bool

def Session.initial : Session where
  tables := Tables.initial
  accepted := []
  closed := fun _ => false

inductive ClientEvent where
  | registers (connfd : Fd) (nodeName susInfo : CStr) (left : Leftover)
  | disconnects (connfd : Fd)

def Session.step (s : Session) : ClientEvent -> Option Session
  | .registers connfd nodeName susInfo left =>
      if connfd ∈ s.accepted then none
      else
        (register s.tables connfd nodeName susInfo left).map fun t =>
          { s with tables := t, accepted := connfd :: s.accepted }
  | .disconnects connfd =>
      some { s with closed := Function.update s.closed connfd true }

/-- The registration of a thread stores nothing but what `register` stores. -/
theorem threadRegistration_registers {connfd : Fd} {left : Leftover}
    {t t' : Tables} {w w' : World}
    (h : threadRegistration connfd left t w = .ok (t', w')) :
    exists nodeName susInfo,
      register t connfd nodeName susInfo left = some t' := by
  rcases bind_eq_ok.mp h with ⟨⟨nameLine, susLine, w1⟩, _, h⟩
  refine ⟨chop (bufferString left.bufNodeName nameLine),
    chop (bufferString left.bufSusInfo susLine), ?_⟩
  simp only at h
  split at h
  · cases h
  · rename_i hregister
    cases h
    exact hregister

/-- The descriptors that `forward_messages` passes on for row `i`. -/
def routedDescriptors (t : Tables) (i : Nat) : Option (Fd × Fd) := do
  let publisher <- t.clientSusList i
  let suscriber <- t.clientNameList i
  let fdPub <- fdByClientName t publisher
  let fdSus <- fdByClientName t suscriber
  return (fdPub, fdSus)

theorem forwardRow_routed {t : Tables} {left : World -> MessageLeftover}
    {i : Nat} {publisher suscriber : CStr} {w : World}
    (hsus : t.clientSusList i = some publisher)
    (hname : t.clientNameList i = some suscriber) :
    forwardRow t left i publisher w =
      (orUndefined (routedDescriptors t i)).bind fun fds =>
        let w := writeLog (forwardingMessage publisher suscriber) w
        forwardMessage fds.1 fds.2 (t.topicList i) publisher (left w) w := by
  unfold forwardRow routedDescriptors
  rw [hsus, hname]
  cases hpub : fdByClientName t publisher with
  | none => simp [bind, Except.bind, orUndefined, hpub]
  | some fdPub =>
      cases hown : fdByClientName t suscriber with
      | none => simp [bind, Except.bind, orUndefined, hown]
      | some fdSus => simp [bind, Except.bind, orUndefined, hpub, hown]

/-!
# The oldest connection of a name
-/

def RegisteredAs (t : Tables) (name : CStr) (fd : Fd) : Prop :=
  exists k, k < t.fdIdx ∧ t.clientNameList k = some name ∧
    t.clientFdList k = fd

def Session.OpenAs (s : Session) (name : CStr) (fd : Fd) : Prop :=
  RegisteredAs s.tables name fd ∧ s.closed fd = false

/--
The subscriber's end is the descriptor the row stored, and the publisher's end
is an open connection of the publisher if there is one.
-/
def RoutesRight (s : Session) (i : Nat) (publisher : CStr) : Prop :=
  exists fdPub,
    routedDescriptors s.tables i = some (fdPub, s.tables.clientFdList i) ∧
      ((exists fd, s.OpenAs publisher fd) -> s.OpenAs publisher fdPub)

def OldestOpen (s : Session) (publisher : CStr) : Prop :=
  (exists fd, s.OpenAs publisher fd) ->
    forall k, s.tables.clientNameList k = some publisher ->
      (forall k', k' < k -> s.tables.clientNameList k' ≠ some publisher) ->
        s.closed (s.tables.clientFdList k) = false

def NoOlderNamesake (t : Tables) (i : Nat) : Prop :=
  forall k, k < i -> t.clientNameList k ≠ t.clientNameList i

/-- What every history keeps: one row for each accepted connection. -/
structure SessionInvariant (s : Session) (rows : List Row) : Prop where
  represents : Represents s.tables rows
  fds : (rows.map Row.fd).Nodup
  accepted : forall row, row ∈ rows -> row.fd ∈ s.accepted
  fits : rows.length ≤ LIMIT_CONN_CLIENTS

theorem sessionInvariant_initial : SessionInvariant Session.initial [] where
  represents := represents_initial
  fds := List.nodup_nil
  accepted := by simp
  fits := Nat.zero_le _

theorem register_fits {t t' : Tables} {connfd : Fd} {nodeName susInfo : CStr}
    {left : Leftover} (h : register t connfd nodeName susInfo left = some t') :
    t.fdIdx < LIMIT_CONN_CLIENTS := by
  unfold register at h
  split at h
  · assumption
  · cases h

theorem SessionInvariant.step {s s' : Session} {rows : List Row}
    {e : ClientEvent} (hs : SessionInvariant s rows)
    (hstep : s.step e = some s') :
    exists rows', SessionInvariant s' rows' := by
  cases e with
  | registers connfd nodeName susInfo left =>
      change (if connfd ∈ s.accepted then none else _) = some s' at hstep
      split at hstep
      · cases hstep
      · rename_i hfresh
        rcases Option.map_eq_some_iff.mp hstep with ⟨t, hreg, rfl⟩
        refine ⟨rows ++ [registeredRow connfd nodeName susInfo left],
          register_represents hs.represents hreg, ?_, ?_, ?_⟩
        · rw [List.map_append, List.nodup_append]
          refine ⟨hs.fds, List.nodup_singleton _, ?_⟩
          intro fd hfd other hother heq
          rcases List.mem_map.mp hfd with ⟨row, hrow, rfl⟩
          cases List.mem_singleton.mp hother
          have hmem := hs.accepted row hrow
          rw [heq] at hmem
          exact hfresh hmem
        · intro row hrow
          rcases List.mem_append.mp hrow with hrow | hrow
          · exact List.mem_cons_of_mem _ (hs.accepted row hrow)
          · cases List.mem_singleton.mp hrow
            exact List.mem_cons_self
        · have hlt := register_fits hreg
          rw [hs.represents.length] at hlt
          rw [List.length_append]
          exact hlt
  | disconnects connfd =>
      cases hstep
      exact ⟨rows, hs.represents, hs.fds, hs.accepted, hs.fits⟩

theorem session_rows {s : Session}
    (hreach : Reachable Session.step Session.initial s) :
    exists rows, SessionInvariant s rows := by
  apply hreach.invariant ⟨[], sessionInvariant_initial⟩
  intro s e s' hs hstep
  rcases hs with ⟨rows, hrows⟩
  exact hrows.step hstep

section

variable {s : Session} {rows : List Row}

theorem nameList_firstNamed {name : CStr} {k : Nat}
    (ht : Represents s.tables rows)
    (hname : s.tables.clientNameList k = some name)
    (hbefore : forall k', k' < k ->
      s.tables.clientNameList k' ≠ some name) :
    exists row, FirstNamed rows name k row := by
  rw [ht.name k] at hname
  rcases Option.map_eq_some_iff.mp hname with ⟨row, hrow, hrowName⟩
  refine ⟨row, hrow, hrowName, ?_⟩
  intro k' other hk' hother heq
  apply hbefore k' hk'
  rw [ht.name k', hother, ← heq]
  rfl

theorem SessionInvariant.registeredAs {name : CStr} {k : Nat}
    (hs : SessionInvariant s rows)
    (hname : s.tables.clientNameList k = some name) :
    RegisteredAs s.tables name (s.tables.clientFdList k) := by
  refine ⟨k, ?_, hname, rfl⟩
  rw [hs.represents.name k] at hname
  rcases Option.map_eq_some_iff.mp hname with ⟨row, hrow, _⟩
  rw [hs.represents.length]
  exact (List.getElem?_eq_some_iff.mp hrow).choose

/-- The search hands out the descriptor of the oldest row with the name. -/
theorem fdByClientName_oldest {name : CStr} {k : Nat}
    (hs : SessionInvariant s rows)
    (hname : s.tables.clientNameList k = some name)
    (hbefore : forall k', k' < k ->
      s.tables.clientNameList k' ≠ some name) :
    fdByClientName s.tables name = some (s.tables.clientFdList k) := by
  rcases nameList_firstNamed hs.represents hname hbefore with ⟨row, hfirst⟩
  have hlt := (List.getElem?_eq_some_iff.mp hfirst.left).choose
  rw [hs.represents.fd k row hfirst.left]
  exact fdByClientName_of_first hs.represents
    (Nat.lt_of_lt_of_le hlt hs.fits) hfirst

theorem exists_oldest {name : CStr} {fd : Fd}
    (hreg : RegisteredAs s.tables name fd) :
    exists k, s.tables.clientNameList k = some name ∧
      forall k', k' < k -> s.tables.clientNameList k' ≠ some name := by
  classical
  rcases hreg with ⟨k, _, hname, _⟩
  have hex : exists k, s.tables.clientNameList k = some name := ⟨k, hname⟩
  exact ⟨Nat.find hex, Nat.find_spec hex, fun k' hk' => Nat.find_min hex hk'⟩

theorem routedDescriptors_oldest {publisher suscriber : CStr} {i k k' : Nat}
    (hs : SessionInvariant s rows)
    (hsus : s.tables.clientSusList i = some publisher)
    (hown : s.tables.clientNameList i = some suscriber)
    (hpub : s.tables.clientNameList k = some publisher)
    (hpubBefore : forall j, j < k -> s.tables.clientNameList j ≠ some publisher)
    (hname : s.tables.clientNameList k' = some suscriber)
    (hnameBefore : forall j, j < k' ->
      s.tables.clientNameList j ≠ some suscriber) :
    routedDescriptors s.tables i =
      some (s.tables.clientFdList k, s.tables.clientFdList k') := by
  unfold routedDescriptors
  rw [hsus, hown]
  simp [fdByClientName_oldest hs hpub hpubBefore,
    fdByClientName_oldest hs hname hnameBefore]

theorem clientFdList_injective {j k : Nat} {name name' : CStr}
    (hs : SessionInvariant s rows) (hj : s.tables.clientNameList j = some name)
    (hk : s.tables.clientNameList k = some name')
    (hfd : s.tables.clientFdList j = s.tables.clientFdList k) : j = k := by
  rw [hs.represents.name] at hj hk
  rcases Option.map_eq_some_iff.mp hj with ⟨row, hrow, _⟩
  rcases Option.map_eq_some_iff.mp hk with ⟨other, hother, _⟩
  rw [hs.represents.fd j row hrow, hs.represents.fd k other hother] at hfd
  have hlt := (List.getElem?_eq_some_iff.mp hrow).choose
  apply (List.getElem?_inj (by simpa using hlt) hs.fds).mp
  rw [List.getElem?_map, List.getElem?_map, hrow, hother]
  exact congrArg some hfd

end

/--
After every history, a subscribed row is routed right exactly when the oldest
connection of its publisher is open and no older row has its name.
-/
theorem routesRight_iff {s : Session} {i : Nat} {publisher : CStr}
    (hreach : Reachable Session.step Session.initial s)
    (hsus : s.tables.clientSusList i = some publisher)
    (hreg : exists fd, RegisteredAs s.tables publisher fd) :
    RoutesRight s i publisher <->
      OldestOpen s publisher ∧ NoOlderNamesake s.tables i := by
  rcases session_rows hreach with ⟨rows, hs⟩
  rcases hreg with ⟨fd, hfd⟩
  rcases exists_oldest hfd with ⟨k, hpub, hpubBefore⟩
  have hrow : exists suscriber, s.tables.clientNameList i = some suscriber := by
    rw [hs.represents.sus i] at hsus
    rcases Option.map_eq_some_iff.mp hsus with ⟨row, hrow, _⟩
    exact ⟨row.name, by rw [hs.represents.name i, hrow]; rfl⟩
  rcases hrow with ⟨suscriber, hown⟩
  constructor
  · intro hright
    rcases hright with ⟨fdPub, hrouted, hopen⟩
    rcases exists_oldest (hs.registeredAs hown) with ⟨k', hname, hnameBefore⟩
    constructor
    · intro hany n hn hnBefore
      rw [routedDescriptors_oldest hs hsus hown hn hnBefore hname hnameBefore]
        at hrouted
      rcases Prod.mk.inj (Option.some.inj hrouted) with ⟨hpubFd, _⟩
      rw [hpubFd]
      exact (hopen hany).right
    · rw [routedDescriptors_oldest hs hsus hown hpub hpubBefore hname
        hnameBefore] at hrouted
      rcases Prod.mk.inj (Option.some.inj hrouted) with ⟨_, hsame⟩
      have hki := clientFdList_injective hs hname hown hsame
      intro j hj
      rw [hown]
      exact hnameBefore j (hki ▸ hj)
  · intro hcond
    rcases hcond with ⟨holdest, hnamesake⟩
    refine ⟨s.tables.clientFdList k, ?_, ?_⟩
    · apply routedDescriptors_oldest hs hsus hown hpub hpubBefore hown
      intro j hj
      rw [← hown]
      exact hnamesake j hj
    · intro hany
      exact ⟨hs.registeredAs hpub, holdest hany k hpub hpubBefore⟩

/-!
# A publisher that reconnects and a second client of one name
-/

def firstClients : List ClientEvent :=
  [.registers 4 (lit "node1") (lit "NONE") cleanLeftover,
    .registers 5 (lit "sub1") (lit "node1/#") cleanLeftover]

def reconnectingClients : List ClientEvent :=
  firstClients ++
    [.disconnects 4,
      .registers 6 (lit "node1") (lit "NONE") cleanLeftover,
      .registers 7 (lit "sub1") (lit "node1/#") cleanLeftover]

/-- The last client reads from a dead connection and writes to another socket. -/
theorem routes_to_first_namesakes :
    exists s, Reachable Session.step Session.initial s ∧
      s.tables.clientSusList 3 = some (lit "node1") ∧
      s.OpenAs (lit "node1") 6 ∧ s.closed 4 = true ∧
      s.tables.clientFdList 3 = 7 ∧
      routedDescriptors s.tables 3 = some (4, 5) ∧
      ¬ RoutesRight s 3 (lit "node1") := by
  refine ⟨_, ⟨reconnectingClients, rfl⟩, rfl, ⟨⟨2, ?_, rfl, rfl⟩, rfl⟩, rfl,
    rfl, rfl, ?_⟩
  · decide
  · intro hright
    rcases hright with ⟨fdPub, hrouted, _⟩
    cases hrouted

theorem routes_first_clients :
    exists s, Reachable Session.step Session.initial s ∧
      s.tables.clientSusList 1 = some (lit "node1") ∧
      RoutesRight s 1 (lit "node1") := by
  refine ⟨_, ⟨firstClients, rfl⟩, rfl, ?_⟩
  apply (routesRight_iff ⟨firstClients, rfl⟩ rfl ⟨4, 0, by decide, rfl, rfl⟩).mpr
  constructor
  · intro _ _ _ _
    rfl
  · intro k hk
    cases Nat.lt_one_iff.mp hk
    decide

end Broker
end MQTTv1
