import MQTTv1.Broker.Routing

/-!
# Descriptor lookups

`forward_messages` indexes `client_fd_list` with whatever the search by name
returns: -1 when nobody has registered the name, and nothing that can be relied
on when the search left the array.
-/

namespace MQTTv1
namespace Broker

open CLib
open Csapp

def Lookup.index : Lookup -> Option Int
  | .found i => some i
  | .notFound => some (-1)
  | .overrun => none

def descriptorIndex (t : Tables) (name : Option CStr) : Option Int :=
  name.bind fun name => (findIndexByClientName t name).index

/--
All indices with which a pass reads `client_fd_list`, in order.  The pass that
finds no NULL leaves `client_sus_list`, and any index may follow.
-/
def passIndicesFrom (t : Tables) : Nat -> Nat -> List (Option Int)
  | 0, _ => [none]
  | slots + 1, i =>
      match t.clientSusList i with
      | none => []
      | some sus =>
          if isNone sus then
            passIndicesFrom t slots (i + 1)
          else
            descriptorIndex t (some sus) ::
              descriptorIndex t (t.clientNameList i) ::
                passIndicesFrom t slots (i + 1)

def passIndices (t : Tables) : List (Option Int) :=
  passIndicesFrom t LIMIT_CONN_CLIENTS 0

def InTable (t : Tables) (index : Option Int) : Prop :=
  exists i, i < t.fdIdx ∧ index = some (Int.ofNat i)

def OwnedFd (t : Tables) (fd : Fd) : Prop :=
  exists name, RegisteredAs t name fd

/--
A pass reads descriptors of registered clients only, and those are the ones it
calls `forward_message` with.
-/
structure LookupsDefined (t : Tables) : Prop where
  indices : forall index, index ∈ passIndices t -> InTable t index
  owned : forall i sus, t.clientSusList i = some sus -> isNone sus = false ->
    exists fds, routedDescriptors t i = some fds ∧
      OwnedFd t fds.1 ∧ OwnedFd t fds.2

def NodesRegistered (t : Tables) : Prop :=
  forall i sus, t.clientSusList i = some sus -> isNone sus = false ->
    exists fd, RegisteredAs t sus fd

/-!
# The indices of a pass
-/

section

variable {t : Tables} {rows : List Row}

theorem mem_passIndicesFrom (index : Option Int) (ht : Represents t rows) :
    forall {slots i : Nat}, i ≤ rows.length -> rows.length < i + slots ->
      (index ∈ passIndicesFrom t slots i <->
        exists k row, i ≤ k ∧ rows[k]? = some row ∧ row.Subscribed ∧
          (index = descriptorIndex t (some row.sus) ∨
            index = descriptorIndex t (some row.name))) := by
  intro slots
  induction slots with
  | zero =>
      intro i hle hlt
      lia
  | succ slots ih =>
      intro i hle hlen
      unfold passIndicesFrom
      rw [ht.sus i, ht.name i]
      cases hrow : rows[i]? with
      | none =>
          have hend := List.getElem?_eq_none_iff.mp hrow
          constructor
          · intro hmem
            cases hmem
          · intro hlater
            rcases hlater with ⟨k, row, hik, hk, _⟩
            have hlt := (List.getElem?_eq_some_iff.mp hk).choose
            lia
      | some row =>
          have hlt := (List.getElem?_eq_some_iff.mp hrow).choose
          have htail := ih (i := i + 1) hlt (by lia)
          -- the later rows, and row `i` itself when it is subscribed
          have hhead : forall k other, i ≤ k -> rows[k]? = some other ->
              other = row ∨ i + 1 ≤ k := by
            intro k other hik hk
            rcases Nat.eq_or_lt_of_le hik with rfl | hlt
            · left
              rw [hrow] at hk
              exact (Option.some.inj hk).symm
            · exact Or.inr hlt
          cases hnone : isNone row.sus with
          | true =>
              simp only [Option.map_some, hnone, if_true, htail]
              constructor
              · intro hlater
                rcases hlater with ⟨k, other, hik, hk⟩
                exact ⟨k, other, by lia, hk⟩
              · intro hlater
                rcases hlater with ⟨k, other, hik, hk, hsub, hindex⟩
                rcases hhead k other hik hk with rfl | hlt
                · exact absurd (hnone.symm.trans hsub) Bool.true_eq_false.mp
                · exact ⟨k, other, hlt, hk, hsub, hindex⟩
          | false =>
              simp only [Option.map_some, hnone, Bool.false_eq_true, if_false,
                List.mem_cons, htail]
              constructor
              · intro hmem
                rcases hmem with hpub | hown | ⟨k, other, hik, hk⟩
                · exact ⟨i, row, Nat.le_refl i, hrow, hnone, Or.inl hpub⟩
                · exact ⟨i, row, Nat.le_refl i, hrow, hnone, Or.inr hown⟩
                · exact ⟨k, other, by lia, hk⟩
              · intro hlater
                rcases hlater with ⟨k, other, hik, hk, hsub, hindex⟩
                rcases hhead k other hik hk with rfl | hlt
                · exact hindex.imp_right Or.inl
                · exact Or.inr (Or.inr ⟨k, other, hlt, hk, hsub, hindex⟩)

/-- A full table has no NULL at which the pass could end. -/
theorem none_mem_passIndicesFrom (ht : Represents t rows) :
    forall {slots i : Nat}, rows.length = i + slots ->
      none ∈ passIndicesFrom t slots i := by
  intro slots
  induction slots with
  | zero =>
      intro i _
      exact List.mem_cons_self
  | succ slots ih =>
      intro i hlen
      have htail := ih (i := i + 1) (by lia)
      have hlt : i < rows.length := by lia
      unfold passIndicesFrom
      rw [ht.sus i, List.getElem?_eq_getElem hlt, Option.map_some]
      simp only
      split
      · exact htail
      · exact List.mem_cons_of_mem _ (List.mem_cons_of_mem _ htail)

end

section

variable {s : Session} {rows : List Row}

theorem descriptorIndex_inTable {name : CStr}
    (hs : SessionInvariant s rows) :
    InTable s.tables (descriptorIndex s.tables (some name)) <->
      exists fd, RegisteredAs s.tables name fd := by
  constructor
  · intro hin
    rcases hin with ⟨i, hi, hindex⟩
    change (findIndexByClientName s.tables name).index = some (i : Int)
      at hindex
    cases hfind : findIndexByClientName s.tables name with
    | overrun =>
        rw [hfind] at hindex
        cases hindex
    | notFound =>
        rw [hfind] at hindex
        cases hindex
    | found k =>
        exact ⟨_, hs.registeredAs (findFrom_found hfind).right.left⟩
  · intro hreg
    rcases hreg with ⟨fd, hreg⟩
    rcases exists_oldest hreg with ⟨k, hname, hbefore⟩
    rcases nameList_firstNamed hs.represents hname hbefore with ⟨row, hfirst⟩
    have hlt := (List.getElem?_eq_some_iff.mp hfirst.left).choose
    refine ⟨k, by rw [hs.represents.length]; exact hlt, ?_⟩
    show (findIndexByClientName s.tables name).index = some (k : Int)
    rw [findIndexByClientName_of_first hs.represents
      (Nat.lt_of_lt_of_le hlt hs.fits) hfirst]
    rfl

end

/-!
# Passes over every table that registrations leave
-/

theorem routedDescriptors_owned {s : Session} {rows : List Row} {i : Nat}
    {publisher : CStr} {row : Row} (hs : SessionInvariant s rows)
    (hrow : rows[i]? = some row)
    (hpub : exists fd, RegisteredAs s.tables publisher fd)
    (hsus : s.tables.clientSusList i = some publisher) :
    exists fds, routedDescriptors s.tables i = some fds ∧
      OwnedFd s.tables fds.1 ∧ OwnedFd s.tables fds.2 := by
  have hown : s.tables.clientNameList i = some row.name := by
    rw [hs.represents.name i, hrow]
    rfl
  rcases hpub with ⟨fd, hpub⟩
  rcases exists_oldest hpub with ⟨k, hk, hkBefore⟩
  rcases exists_oldest (hs.registeredAs hown) with ⟨k', hk', hk'Before⟩
  refine ⟨_, routedDescriptors_oldest hs hsus hown hk hkBefore hk' hk'Before,
    ⟨publisher, hs.registeredAs hk⟩, ⟨row.name, hs.registeredAs hk'⟩⟩

theorem LookupsDefined.room {s : Session} {rows : List Row}
    (hs : SessionInvariant s rows) (hdefined : LookupsDefined s.tables) :
    s.tables.fdIdx < LIMIT_CONN_CLIENTS := by
  rw [hs.represents.length]
  apply Nat.lt_of_le_of_ne hs.fits
  intro hfull
  have hnone : none ∈ passIndices s.tables :=
    none_mem_passIndicesFrom hs.represents (hfull.trans (Nat.zero_add _).symm)
  rcases hdefined.indices none hnone with ⟨i, _, hindex⟩
  cases hindex

/--
The lookups of a pass are defined exactly if the table has a free slot and every
subscribed node is registered.
-/
theorem lookupsDefined_iff {s : Session}
    (hreach : Reachable Session.step Session.initial s) :
    LookupsDefined s.tables <->
      s.tables.fdIdx < LIMIT_CONN_CLIENTS ∧ NodesRegistered s.tables := by
  rcases session_rows hreach with ⟨rows, hs⟩
  have hrows : forall index, s.tables.fdIdx < LIMIT_CONN_CLIENTS ->
      (index ∈ passIndices s.tables <->
        exists k row, 0 ≤ k ∧ rows[k]? = some row ∧ row.Subscribed ∧
          (index = descriptorIndex s.tables (some row.sus) ∨
            index = descriptorIndex s.tables (some row.name))) := by
    intro index hroom
    rw [hs.represents.length] at hroom
    exact mem_passIndicesFrom index hs.represents (Nat.zero_le _)
      (by rw [Nat.zero_add]; exact hroom)
  constructor
  · intro hdefined
    have hroom := hdefined.room hs
    refine ⟨hroom, ?_⟩
    intro i sus hsus hnone
    rw [hs.represents.sus i] at hsus
    rcases Option.map_eq_some_iff.mp hsus with ⟨row, hrow, rfl⟩
    apply (descriptorIndex_inTable hs).mp
    apply hdefined.indices
    exact (hrows _ hroom).mpr ⟨i, row, Nat.zero_le i, hrow, hnone, Or.inl rfl⟩
  · intro hcondition
    rcases hcondition with ⟨hroom, hnodes⟩
    constructor
    · intro index hindex
      rcases (hrows index hroom).mp hindex with ⟨k, row, _, hrow, hsub, rfl | rfl⟩
      · apply (descriptorIndex_inTable hs).mpr
        apply hnodes k row.sus _ hsub
        rw [hs.represents.sus k, hrow]
        rfl
      · apply (descriptorIndex_inTable hs).mpr
        refine ⟨_, hs.registeredAs (k := k) ?_⟩
        rw [hs.represents.name k, hrow]
        rfl
    · intro i sus hsus hnone
      have hpub := hnodes i sus hsus hnone
      have hentry := hsus
      rw [hs.represents.sus i] at hentry
      rcases Option.map_eq_some_iff.mp hentry with ⟨row, hrow, _⟩
      exact routedDescriptors_owned hs hrow hpub hsus

/-!
# Subscribers that come before their publisher
-/

def earlyClients : List ClientEvent :=
  [.registers 4 (lit "sub1") (lit "node1/#") cleanLeftover,
    .registers 5 (lit "sub2") (lit "node1/#") cleanLeftover]

/-- Two clients are enough for a forwarder to start. -/
theorem lookups_before_publisher :
    exists s, Reachable Session.step Session.initial s ∧
      s.tables.fdIdx = 2 ∧
      passIndices s.tables = [some (-1), some 0, some (-1), some 1] ∧
      ¬ LookupsDefined s.tables := by
  refine ⟨_, ⟨earlyClients, rfl⟩, rfl, rfl, ?_⟩
  intro hdefined
  rcases hdefined.indices (some (-1)) List.mem_cons_self with ⟨i, _, hindex⟩
  cases hindex

theorem lookups_behind_publisher :
    exists s, Reachable Session.step Session.initial s ∧
      passIndices s.tables = [some 0, some 1] ∧ LookupsDefined s.tables := by
  refine ⟨_, ⟨firstClients, rfl⟩, rfl, ?_⟩
  apply (lookupsDefined_iff ⟨firstClients, rfl⟩).mpr
  refine ⟨by decide, ?_⟩
  intro i sus hsus hnone
  match i with
  | 0 =>
      cases hsus
      cases hnone
  | 1 =>
      cases hsus
      exact ⟨4, 0, Nat.zero_lt_two, rfl, rfl⟩
  | i + 2 => cases hsus

end Broker
end MQTTv1
