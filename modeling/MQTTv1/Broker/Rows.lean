import Mathlib.Data.List.Nodup
import Mathlib.Data.Nat.Find
import MQTTv1.Broker.Tables

/-!
# Tables as lists of rows

The four arrays and the counter stand for a list of rows, one for each client in
the order of registration.  A registration appends a row, and the search by name
is the search for the first row with that name.
-/

namespace MQTTv1
namespace Broker

open CLib
open Csapp

structure Row where
  name : CStr
  fd : Fd
  /-- The first part of the subscription line, or "NONE". -/
  sus : CStr
  topics : Nat -> Int

def Row.Subscribed (row : Row) : Prop := isNone row.sus = false

/-- The arrays hold the rows and NULL behind them. -/
structure Represents (t : Tables) (rows : List Row) : Prop where
  length : t.fdIdx = rows.length
  name : forall i, t.clientNameList i = (rows[i]?).map Row.name
  sus : forall i, t.clientSusList i = (rows[i]?).map Row.sus
  fd : forall i row, rows[i]? = some row -> t.clientFdList i = row.fd
  topics : forall i row, rows[i]? = some row -> row.Subscribed ->
    forall k, k < TOPICS_NUMBER -> t.topicList i k = row.topics k

theorem represents_initial : Represents Tables.initial [] where
  length := rfl
  name := by simp [Tables.initial]
  sus := by simp [Tables.initial]
  fd := by simp
  topics := by simp

/-- The arrays after the rows have been registered in order. -/
def Tables.ofRows (rows : List Row) : Tables where
  clientNameList := fun i => (rows[i]?).map Row.name
  clientFdList := fun i => ((rows[i]?).map Row.fd).getD 0
  clientSusList := fun i => (rows[i]?).map Row.sus
  topicList := fun i => ((rows[i]?).map Row.topics).getD fun _ => 0
  fdIdx := rows.length

theorem represents_ofRows (rows : List Row) :
    Represents (Tables.ofRows rows) rows := by
  constructor
  · rfl
  · intro i
    rfl
  · intro i
    rfl
  · intro i row hrow
    simp [Tables.ofRows, hrow]
  · intro i row hrow hsub k hk
    simp [Tables.ofRows, hrow]

/-!
# Registration appends
-/

def registeredRow (connfd : Fd) (nodeName susInfo : CStr) (left : Leftover) :
    Row where
  name := nodeName
  fd := connfd
  sus := subscribedNode susInfo left
  topics := subscribedMask susInfo left

theorem isNone_of_subscribed {connfd : Fd} {nodeName susInfo : CStr}
    {left : Leftover}
    (hsub : (registeredRow connfd nodeName susInfo left).Subscribed) :
    isNone susInfo = false := by
  cases hcase : isNone susInfo with
  | false => rfl
  | true =>
      have hsus : subscribedNode susInfo left = susInfo := by
        simp [subscribedNode, hcase]
      have hnone : isNone (subscribedNode susInfo left) = false := hsub
      rw [hsus, hcase] at hnone
      cases hnone

theorem getElem?_append_singleton (rows : List Row) (row : Row) (i : Nat) :
    (rows ++ [row])[i]? =
      if i = rows.length then some row else rows[i]? := by
  by_cases hi : i = rows.length
  · simp [hi]
  · rw [if_neg hi]
    rcases Nat.lt_or_ge i rows.length with hlt | hge
    · rw [List.getElem?_append_left hlt]
    · rw [List.getElem?_append_right hge,
        List.getElem?_eq_none (by simp; lia),
        List.getElem?_eq_none (by lia)]

theorem update_column {column : Nat -> Option CStr} {rows : List Row}
    {entry : Row -> CStr} (row : Row)
    (hcolumn : forall i, column i = (rows[i]?).map entry) (i : Nat) :
    Function.update column rows.length (some (entry row)) i =
      ((rows ++ [row])[i]?).map entry := by
  rw [getElem?_append_singleton]
  by_cases hi : i = rows.length
  · simp [hi]
  · rw [if_neg hi, Function.update_of_ne hi]
    exact hcolumn i

theorem register_represents {t t' : Tables} {rows : List Row} {connfd : Fd}
    {nodeName susInfo : CStr} {left : Leftover} (ht : Represents t rows)
    (hreg : register t connfd nodeName susInfo left = some t') :
    Represents t' (rows ++ [registeredRow connfd nodeName susInfo left]) := by
  unfold register at hreg
  split at hreg
  · cases hreg
    rw [ht.length]
    constructor
    · simp
    · intro i
      exact update_column (registeredRow connfd nodeName susInfo left)
        ht.name i
    · intro i
      exact update_column (registeredRow connfd nodeName susInfo left)
        ht.sus i
    · intro i row hrow
      rw [getElem?_append_singleton] at hrow
      by_cases hi : i = rows.length
      · rw [if_pos hi] at hrow
        cases hrow
        simp [hi, registeredRow]
      · rw [if_neg hi] at hrow
        simp [Function.update_of_ne hi, ht.fd i row hrow]
    · intro i row hrow hsub k hk
      rw [getElem?_append_singleton] at hrow
      by_cases hi : i = rows.length
      · rw [if_pos hi] at hrow
        cases hrow
        have hnone : isNone susInfo = false := isNone_of_subscribed hsub
        simp [hi, hnone, copyRow, hk, registeredRow]
      · rw [if_neg hi] at hrow
        have hold := ht.topics i row hrow hsub k hk
        by_cases hnone : isNone susInfo
        · simpa [hnone] using hold
        · simpa [hnone, Function.update_of_ne hi] using hold
  · cases hreg

/-!
# The search finds the first row
-/

def FirstNamed (rows : List Row) (name : CStr) (i : Nat) (row : Row) : Prop :=
  rows[i]? = some row ∧ row.name = name ∧
    forall k other, k < i -> rows[k]? = some other -> other.name ≠ name

theorem findFrom_found {names : Nat -> Option CStr} {clientName : CStr} :
    forall {slots i j : Nat}, findFrom names clientName slots i = .found j ->
      i ≤ j ∧ names j = some clientName ∧
        forall k, i ≤ k -> k < j ->
          exists other, names k = some other ∧ other ≠ clientName := by
  intro slots
  induction slots with
  | zero =>
      intro i j h
      cases h
  | succ slots ih =>
      intro i j h
      unfold findFrom at h
      cases hname : names i with
      | none =>
          rw [hname] at h
          cases h
      | some name =>
          rw [hname] at h
          simp only at h
          by_cases heq : clientName = name
          · rw [if_pos heq] at h
            cases h
            refine ⟨Nat.le_refl i, by rw [hname, heq], ?_⟩
            intro k hik hki
            lia
          · rw [if_neg heq] at h
            rcases ih h with ⟨hle, hfound, hbefore⟩
            refine ⟨by lia, hfound, ?_⟩
            intro k hik hkj
            by_cases hk : k = i
            · exact ⟨name, by rw [hk, hname], fun h => heq h.symm⟩
            · exact hbefore k (by lia) hkj

theorem findFrom_of_first {names : Nat -> Option CStr} {clientName : CStr} :
    forall {slots i j : Nat}, i ≤ j -> j < i + slots ->
      names j = some clientName ->
      (forall k, i ≤ k -> k < j ->
        exists other, names k = some other ∧ other ≠ clientName) ->
      findFrom names clientName slots i = .found j := by
  intro slots
  induction slots with
  | zero =>
      intro i j hij hj
      lia
  | succ slots ih =>
      intro i j hij hj hname hbefore
      unfold findFrom
      by_cases heq : i = j
      · rw [heq, hname]
        simp
      · rcases hbefore i (Nat.le_refl i) (by lia) with ⟨other, hother, hne⟩
        rw [hother]
        simp only
        rw [if_neg fun h => hne h.symm]
        exact ih (by lia) (by lia) hname fun k hik hkj =>
          hbefore k (by lia) hkj

/-- A name with entries in front of it is found, there or earlier. -/
theorem fdByClientName_of_entry {t : Tables} {i : Nat} {name : CStr}
    (hi : i < LIMIT_CONN_CLIENTS) (hname : t.clientNameList i = some name)
    (hbefore : forall k, k < i -> t.clientNameList k ≠ none) :
    exists fd, fdByClientName t name = some fd := by
  classical
  have hex : exists k, t.clientNameList k = some name := ⟨i, hname⟩
  have hle : Nat.find hex ≤ i := Nat.find_min' hex hname
  have hfound : findIndexByClientName t name = .found (Nat.find hex) := by
    apply findFrom_of_first (Nat.zero_le _) (by lia) (Nat.find_spec hex)
    intro k _ hk
    rcases Option.ne_none_iff_exists'.mp (hbefore k (by lia)) with
      ⟨other, hother⟩
    refine ⟨other, hother, ?_⟩
    intro heq
    apply Nat.find_min hex hk
    rw [hother, heq]
  unfold fdByClientName
  rw [hfound]
  exact ⟨_, rfl⟩

theorem fdByClientName_of_row {t : Tables} {rows : List Row} {i : Nat}
    {row : Row} (ht : Represents t rows)
    (hfits : rows.length ≤ LIMIT_CONN_CLIENTS) (hrow : rows[i]? = some row) :
    fdByClientName t row.name ≠ none := by
  have hlt := (List.getElem?_eq_some_iff.mp hrow).choose
  have hname : t.clientNameList i = some row.name := by
    rw [ht.name, hrow]
    rfl
  rcases fdByClientName_of_entry (Nat.lt_of_lt_of_le hlt hfits) hname (by
    intro k hk
    rw [ht.name, List.getElem?_eq_getElem (Nat.lt_trans hk hlt)]
    exact Option.some_ne_none _) with ⟨fd, hfd⟩
  rw [hfd]
  exact Option.some_ne_none _

section

variable {t : Tables} {rows : List Row}

theorem fdByClientName_some {name : CStr} {fd : Fd} (ht : Represents t rows)
    (h : fdByClientName t name = some fd) :
    exists i row, FirstNamed rows name i row ∧ row.fd = fd := by
  unfold fdByClientName at h
  cases hfind : findIndexByClientName t name with
  | notFound =>
      rw [hfind] at h
      cases h
  | overrun =>
      rw [hfind] at h
      cases h
  | found i =>
      rw [hfind] at h
      cases h
      rcases findFrom_found hfind with ⟨_, hname, hbefore⟩
      rw [ht.name i] at hname
      rcases Option.map_eq_some_iff.mp hname with ⟨row, hrow, hrowName⟩
      refine ⟨i, row, ⟨hrow, hrowName, ?_⟩, (ht.fd i row hrow).symm⟩
      intro k other hk hother
      rcases hbefore k (Nat.zero_le k) hk with ⟨n, hn, hne⟩
      rw [ht.name k, hother] at hn
      cases hn
      exact hne

theorem findIndexByClientName_of_first {name : CStr} {i : Nat} {row : Row}
    (ht : Represents t rows) (hi : i < LIMIT_CONN_CLIENTS)
    (hfirst : FirstNamed rows name i row) :
    findIndexByClientName t name = .found i := by
  rcases hfirst with ⟨hrow, hname, hbefore⟩
  apply findFrom_of_first (Nat.zero_le i) (by lia)
  · rw [ht.name i, hrow, ← hname]
    rfl
  · intro k _ hk
    have hlt : k < rows.length := by
      have := (List.getElem?_eq_some_iff.mp hrow).choose
      lia
    refine ⟨rows[k].name, ?_, ?_⟩
    · rw [ht.name k, List.getElem?_eq_getElem hlt]
      rfl
    · exact hbefore k rows[k] hk (List.getElem?_eq_getElem hlt)

theorem fdByClientName_of_first {name : CStr} {i : Nat} {row : Row}
    (ht : Represents t rows) (hi : i < LIMIT_CONN_CLIENTS)
    (hfirst : FirstNamed rows name i row) :
    fdByClientName t name = some row.fd := by
  unfold fdByClientName
  rw [findIndexByClientName_of_first ht hi hfirst]
  exact congrArg some (ht.fd i row hfirst.left)

theorem firstNamed_unique {name : CStr} {i : Nat} {row other : Row}
    (hnames : (rows.map Row.name).Nodup) (hfirst : FirstNamed rows name i row)
    (hother : other ∈ rows) (hname : other.name = name) : other = row := by
  have hmem : row ∈ rows := List.mem_of_getElem? hfirst.left
  exact List.inj_on_of_nodup_map hnames hother hmem
    (hname.trans hfirst.right.left.symm)

end

end Broker
end MQTTv1
