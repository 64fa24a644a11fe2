import MQTTv1.Broker.Admission
import MQTTv1.Broker.Subscription

/-!
# The calls of one pass

A row is a subscriber for `thread` when its whole line is not "NONE", and for
`forward_messages` when the stored name of the node is not "NONE".  The pass
goes up to the first NULL and does not look at the counter.
-/

namespace MQTTv1
namespace Broker

open CLib
open Csapp

/-- The rows whose body calls `forward_message`; none if the array is left. -/
def callsFrom (t : Tables) : Nat -> Nat -> Option (List Nat)
  | 0, _ => none
  | slots + 1, i =>
      match t.clientSusList i with
      | none => some []
      | some sus =>
          if isNone sus then callsFrom t slots (i + 1)
          else (callsFrom t slots (i + 1)).map fun rows => i :: rows

def Tables.passCalls (t : Tables) : Option (List Nat) :=
  callsFrom t LIMIT_CONN_CLIENTS 0

def System.susLine (s : System) (i : Nat) : Option CStr :=
  (s.threads.find? fun th => th.row = i ∧ 14 ≤ th.stage).map Thread.bufSusInfo

/-- The rows whose line is not "NONE", in the order of their registration. -/
def System.subscribers (s : System) : List Nat :=
  (List.range s.shared.tables.fdIdx).filter fun i =>
    s.susLine i ≠ some (lit "NONE")

/-- A line other than "NONE" that names a node "NONE". -/
def NamesNone (line : CStr) : Prop :=
  line ≠ lit "NONE" ∧ firstPart line = some (lit "NONE")

/-!
# The loop
-/

def callRow (t : Tables) (left : World -> MessageLeftover) (w : World)
    (i : Nat) : Except Stop World := do
  let publisher <- orUndefined (t.clientSusList i)
  forwardRow t left i publisher w

theorem passFrom_calls {t : Tables} {left : World -> MessageLeftover} :
    forall {slots i : Nat} {rows : List Nat} {w : World},
      callsFrom t slots i = some rows ->
        passFrom t left slots i w = rows.foldlM (callRow t left) w := by
  intro slots
  induction slots with
  | zero =>
      intro i rows w h
      cases h
  | succ slots ih =>
      intro i rows w h
      unfold callsFrom at h
      unfold passFrom rowLoop
      cases hsus : t.clientSusList i with
      | none =>
          rw [hsus] at h
          cases h
          rfl
      | some sus =>
          rw [hsus] at h
          by_cases hnone : isNone sus = true
          · simp only [if_pos hnone] at h ⊢
            exact ih h
          · simp only [if_neg hnone] at h ⊢
            rcases Option.map_eq_some_iff.mp h with ⟨rest, hrest, rfl⟩
            rw [List.foldlM_cons]
            unfold callRow
            rw [hsus]
            apply bind_congr
            intro w'
            exact ih hrest

def Tables.calls (t : Tables) (i : Nat) : Bool :=
  match t.clientSusList i with
  | none => false
  | some sus => !isNone sus

theorem callsFrom_eq {t : Tables} {n : Nat}
    (hbelow : forall i, i < n -> t.clientSusList i ≠ none)
    (hend : t.clientSusList n = none) :
    forall {rest slots i : Nat}, i + rest = n -> rest < slots ->
      callsFrom t slots i = some ((List.range' i rest).filter t.calls) := by
  intro rest
  induction rest with
  | zero =>
      intro slots i hi hslots
      cases slots with
      | zero => cases hslots
      | succ slots =>
          rw [Nat.add_zero] at hi
          unfold callsFrom
          rw [hi, hend]
          rfl
  | succ rest ih =>
      intro slots i hi hslots
      cases slots with
      | zero => cases hslots
      | succ slots =>
          have htail := @ih slots (i + 1) (by lia) (by lia)
          unfold callsFrom
          rw [List.range'_succ]
          cases hsus : t.clientSusList i with
          | none => exact absurd hsus (hbelow i (by lia))
          | some sus =>
              cases hnone : isNone sus with
              | true =>
                  have hcall : ¬ t.calls i = true := by
                    simp [Tables.calls, hsus, hnone]
                  rw [List.filter_cons_of_neg hcall]
                  show (if isNone sus then _ else _) = _
                  rw [if_pos hnone]
                  exact htail
              | false =>
                  have hcall : t.calls i = true := by
                    simp [Tables.calls, hsus, hnone]
                  rw [List.filter_cons_of_pos hcall]
                  show (if isNone sus then _ else _) = _
                  rw [if_neg (by simp [hnone]), htail]
                  rfl

/-!
# Tables with a free row
-/

theorem System.susLine_thread {s : System} {i : Nat} {line : CStr}
    (h : s.susLine i = some line) :
    exists (v : Nat) (th : Thread), s.threads[v]? = some th ∧ th.row = i ∧
      14 ≤ th.stage ∧ th.bufSusInfo = line := by
  rcases Option.map_eq_some_iff.mp h with ⟨th, hfind, hline⟩
  have hprop : th.row = i ∧ 14 ≤ th.stage := by
    simpa using List.find?_some hfind
  rcases List.getElem?_of_mem (List.mem_of_find?_eq_some hfind) with ⟨v, hv⟩
  exact ⟨v, th, hv, hprop.left, hprop.right, hline⟩

theorem System.susLine_mem {s : System} {i : Nat} {line : CStr}
    (h : s.susLine i = some line) :
    line ∈ s.threads.map Thread.bufSusInfo := by
  rcases System.susLine_thread h with ⟨v, th, hv, _, _, rfl⟩
  exact List.mem_map_of_mem (List.mem_of_getElem? hv)

theorem Registering.susLine {s : System} (hs : Registering s) {u : Nat}
    {owner : Thread} (hu : s.threads[u]? = some owner)
    (hstage : 14 ≤ owner.stage) :
    s.susLine owner.row = some owner.bufSusInfo := by
  cases hline : s.susLine owner.row with
  | none =>
      have hnone := List.find?_eq_none.mp (Option.map_eq_none_iff.mp hline)
        owner (List.mem_of_getElem? hu)
      exact absurd (decide_eq_true ⟨rfl, hstage⟩) hnone
  | some line =>
      rcases System.susLine_thread hline with ⟨v, th, hv, hrow, hlate, rfl⟩
      have hvu := hs.distinct v u th owner hv hu (by lia) (by lia) hrow
      rw [hvu, hu] at hv
      cases hv
      rfl

theorem Registering.susLine_lt {s : System} (hs : Registering s) {i : Nat}
    {line : CStr} (h : s.susLine i = some line) :
    i < s.shared.tables.fdIdx := by
  rcases System.susLine_thread h with ⟨v, th, hv, rfl, hlate, _⟩
  exact (hs.placed v th hv).below hlate

theorem Registering.row {s : System} (hs : Registering s) {i : Nat}
    (hi : i < s.shared.tables.fdIdx) :
    exists line left, s.susLine i = some line ∧
      s.shared.tables.clientSusList i = some (subscribedNode line left) := by
  rcases hs.passed i hi with ⟨_, u, owner, hu, rfl, hstage, _⟩
  refine ⟨owner.bufSusInfo, owner.left, hs.susLine hu hstage, ?_⟩
  exact (hs.stored u owner hu).sus (by lia)

/-!
# One pass
-/

theorem filter_eq_filter_iff {l : List α} {p q : α -> Bool} :
    l.filter p = l.filter q <-> forall a, a ∈ l -> p a = q a := by
  constructor
  · intro h a ha
    have hmem : a ∈ l.filter p <-> a ∈ l.filter q := by rw [h]
    rw [List.mem_filter, List.mem_filter, and_congr_right_iff] at hmem
    exact Bool.eq_iff_iff.mpr (hmem ha)
  · exact List.filter_congr

/-- A pass over a table with a free row ends at the counter. -/
theorem Registering.passCalls {s : System} (hs : Registering s)
    (hidle : s.Idle) (hroom : s.shared.tables.fdIdx < LIMIT_CONN_CLIENTS) :
    s.shared.tables.passCalls =
      some ((List.range s.shared.tables.fdIdx).filter s.shared.tables.calls) := by
  have hout : forall (t : Nat) th, s.threads[t]? = some th ->
      ¬ th.InSection := by
    intro t th hth
    exact hidle th (List.mem_of_getElem? hth)
  rw [List.range_eq_range']
  refine callsFrom_eq ?_ ?_ (Nat.zero_add _) hroom
  · intro i hi hnone
    rcases hs.row hi with ⟨line, left, _, hsus⟩
    cases hnone.symm.trans hsus
  · cases hsus : s.shared.tables.clientSusList s.shared.tables.fdIdx with
    | none => rfl
    | some sus =>
        rcases hs.owned _ sus hsus with ⟨row, howner⟩
        exact absurd (howner.passed hs hout (by lia)) (Nat.lt_irrefl _)

theorem isNone_subscribedNode {line : CStr} (left : Leftover)
    (hpart : firstPart line ≠ none) :
    ((!isNone (subscribedNode line left)) =
      decide (some line ≠ some (lit "NONE"))) <-> ¬ NamesNone line := by
  rw [subscribedNode_eq]
  unfold isNone NamesNone
  by_cases hnone : line = lit "NONE"
  · simp [hnone]
  · cases hfirst : firstPart line with
    | none => exact absurd hfirst hpart
    | some part => simp [hnone]

/--
A pass calls `forward_message` once for every subscriber, in the order of their
registration, and for no other row, exactly when no line other than "NONE" names
a node "NONE".
-/
theorem passCalls_iff {s : System}
    (hreach : Reachable System.stepStray System.initial s) (hidle : s.Idle)
    (hroom : s.shared.tables.fdIdx < LIMIT_CONN_CLIENTS)
    (hparts : forall i line, s.susLine i = some line ->
      firstPart line ≠ none) :
    s.shared.tables.passCalls = some s.subscribers <->
      forall i line, s.susLine i = some line -> ¬ NamesNone line := by
  have hs := registering_stray hreach
  have hrow : forall i, i < s.shared.tables.fdIdx ->
      exists line, s.susLine i = some line ∧
        (s.shared.tables.calls i =
          decide (s.susLine i ≠ some (lit "NONE")) <-> ¬ NamesNone line) := by
    intro i hi
    rcases hs.row hi with ⟨line, left, hline, hsus⟩
    refine ⟨line, hline, ?_⟩
    unfold Tables.calls
    rw [hsus, hline]
    exact isNone_subscribedNode left (hparts i line hline)
  rw [hs.passCalls hidle hroom, Option.some.injEq, System.subscribers,
    filter_eq_filter_iff]
  constructor
  · intro h i line hline
    have hi := hs.susLine_lt hline
    rcases hrow i hi with ⟨other, hother, hiff⟩
    cases hline.symm.trans hother
    exact hiff.mp (h i (List.mem_range.mpr hi))
  · intro h i hi
    rcases hrow i (List.mem_range.mp hi) with ⟨line, hline, hiff⟩
    exact hiff.mpr (h i line hline)

def subscribedToNONE : List Event :=
  connects 4 (lit "sub1") (lit "NONE/#") ++ runs 0 16

theorem passCalls_leaves_out_subscriber :
    exists s, Reachable System.stepStray System.initial s ∧ s.Idle ∧
      s.shared.tables.fdIdx < LIMIT_CONN_CLIENTS ∧
      (forall i line, s.susLine i = some line -> firstPart line ≠ none) ∧
      s.subscribers = [0] ∧ s.shared.tables.passCalls = some [] := by
  have hrun :
      exists s, runFrom System.step System.initial subscribedToNONE = some s ∧
        s.threads.all (fun th => decide (¬ th.InSection)) = true ∧
        s.shared.tables.fdIdx = 1 ∧
        s.threads.map Thread.bufSusInfo = [lit "NONE/#"] ∧
        s.subscribers = [0] ∧ s.shared.tables.passCalls = some [] :=
    ⟨_, rfl, rfl, rfl, rfl, rfl, rfl⟩
  rcases hrun with ⟨s, hs, hout, hcount, hlines, hsubscribers, hcalls⟩
  refine ⟨s, reachable_stray ⟨_, hs⟩, System.idle_of_all hout, ?_, ?_,
    hsubscribers, hcalls⟩
  · rw [hcount]
    decide
  · intro i line hline
    have hmem := System.susLine_mem hline
    rw [hlines, List.mem_singleton] at hmem
    rw [hmem]
    decide

def subscribedToNode1 : List Event :=
  connects 4 (lit "node1") (lit "NONE") ++ runs 0 9 ++
    connects 5 (lit "sub1") (lit "node1/#") ++ runs 1 16

theorem passCalls_of_two :
    exists s, Reachable System.stepStray System.initial s ∧
      s.subscribers = [1] ∧ s.shared.tables.passCalls = some [1] := by
  have hrun :
      exists s, runFrom System.step System.initial subscribedToNode1 = some s ∧
        s.threads.all (fun th => decide (¬ th.InSection)) = true ∧
        s.shared.tables.fdIdx = 2 ∧
        s.threads.map Thread.bufSusInfo = [lit "NONE", lit "node1/#"] ∧
        s.subscribers = [1] :=
    ⟨_, rfl, rfl, rfl, rfl, rfl⟩
  rcases hrun with ⟨s, hs, hout, hcount, hlines, hsubscribers⟩
  have hreach := reachable_stray ⟨_, hs⟩
  have hall : forall line, line ∈ [lit "NONE", lit "node1/#"] ->
      firstPart line ≠ none ∧ ¬ (line ≠ lit "NONE" ∧
        firstPart line = some (lit "NONE")) := by
    decide
  have hline : forall i line, s.susLine i = some line ->
      firstPart line ≠ none ∧ ¬ NamesNone line := by
    intro i line h
    have hmem := System.susLine_mem h
    rw [hlines] at hmem
    exact hall line hmem
  have hroom : s.shared.tables.fdIdx < LIMIT_CONN_CLIENTS := by
    rw [hcount]
    decide
  refine ⟨s, hreach, hsubscribers, ?_⟩
  rw [← hsubscribers]
  exact (passCalls_iff hreach (System.idle_of_all hout) hroom
    fun i line h => (hline i line h).left).mpr fun i line h =>
      (hline i line h).right

end Broker
end MQTTv1
