import Mathlib.Data.List.Perm.Subperm
import MQTTv1.Broker.Completeness

/-!
# The end of the broker

An interrupt may come between any two steps.  Its handler closes the descriptors
that the counter covers, and a registration passes the counter late; the exit
closes the others.
-/

namespace MQTTv1
namespace Broker

open CLib
open Csapp

/-- Whether the descriptor was open, and what is open afterwards. -/
def close (fd : Fd) (opened : List Fd) : Bool × List Fd :=
  (decide (fd ∈ opened), opened.erase fd)

structure Ending where
  tables : Tables
  /-- The descriptors that were closed, and whether each was open. -/
  closes : List (Fd × Bool)
  opened : List Fd

def closeClients (t : Tables) (opened : List Fd) : Nat -> Ending
  | 0 => { tables := t, closes := [], opened := opened }
  | i + 1 =>
      let ending := closeClients t opened i
      let fd := ending.tables.clientFdList i
      let (wasOpen, opened) := close fd ending.opened
      { tables := { ending.tables with
          clientFdList := Function.update ending.tables.clientFdList i 0 }
        closes := ending.closes ++ [(fd, wasOpen)]
        opened := opened }

/--
`sig_handler`.  The process is gone behind its `exit(0)`, which closes what is
still open then.
-/
def sigHandler (t : Tables) (opened : List Fd) : Ending × List Fd :=
  let ending := closeClients t opened t.fdIdx
  let ending := { ending with tables := { ending.tables with fdIdx := 0 } }
  ({ ending with opened := [] }, ending.opened)

def Thread.Counted (th : Thread) : Prop := 14 ≤ th.stage

theorem closeClients_tables (t : Tables) (opened : List Fd) (n : Nat) :
    (closeClients t opened n).tables =
      { t with
        clientFdList := fun i => if i < n then 0 else t.clientFdList i } := by
  induction n with
  | zero => rfl
  | succ n ih =>
      unfold closeClients
      simp only [ih]
      congr 1
      funext i
      rw [Function.update_apply]
      by_cases hi : i = n
      · rw [if_pos hi, if_pos (by lia)]
      · rw [if_neg hi]
        by_cases hlt : i < n
        · rw [if_pos hlt, if_pos (by lia)]
        · rw [if_neg hlt, if_neg (by lia)]

/-- Open descriptors that differ are closed one after the other. -/
theorem closeClients_open {t : Tables} {opened : List Fd} {n : Nat}
    (hnodup : ((List.range n).map t.clientFdList).Nodup)
    (hopen : (List.range n).map t.clientFdList ⊆ opened) :
    (closeClients t opened n).closes =
        ((List.range n).map t.clientFdList).map (fun fd => (fd, true)) ∧
      (closeClients t opened n).opened =
        opened.diff ((List.range n).map t.clientFdList) := by
  induction n with
  | zero => exact ⟨rfl, rfl⟩
  | succ n ih =>
      rw [List.range_succ, List.map_append, List.map_singleton] at hnodup hopen
      have hfresh : t.clientFdList n ∉ (List.range n).map t.clientFdList := by
        intro hmem
        exact (List.nodup_append.mp hnodup).right.right _ hmem _
          List.mem_cons_self rfl
      rcases ih (List.nodup_append.mp hnodup).left
        (fun fd hfd => hopen (List.mem_append_left _ hfd)) with
        ⟨hcloses, hleft⟩
      have hentry : (closeClients t opened n).tables.clientFdList n =
          t.clientFdList n := by
        rw [closeClients_tables]
        exact if_neg (Nat.lt_irrefl n)
      have hmem : t.clientFdList n ∈
          opened.diff ((List.range n).map t.clientFdList) := by
        apply List.mem_diff_of_mem _ hfresh
        exact hopen (List.mem_append_right _ List.mem_cons_self)
      rw [List.range_succ]
      unfold closeClients close
      simp only [hentry, hcloses, hleft, hmem, decide_true, List.map_append,
        List.map_singleton, List.diff_append, List.diff_cons, List.diff_nil,
        and_self]

section

variable {s : System}

theorem counted_row (hs : Registering s) {i : Nat}
    (hi : i < s.shared.tables.fdIdx) :
    exists (u : Nat) (th : Thread), s.threads[u]? = some th ∧ th.Counted ∧
      th.row = i ∧ s.shared.tables.clientFdList i = th.connfd := by
  rcases hs.passed i hi with ⟨row, u, owner, hu, rfl, hstage, _⟩
  exact ⟨u, owner, hu, hstage, rfl, (hs.stored u owner hu).fd (by lia)⟩

theorem Thread.Counted.entry (hs : Registering s) {u : Nat} {th : Thread}
    (hu : s.threads[u]? = some th) (h : th.Counted) :
    th.row < s.shared.tables.fdIdx ∧
      s.shared.tables.clientFdList th.row = th.connfd := by
  unfold Thread.Counted at h
  exact ⟨(hs.placed u th hu).below h, (hs.stored u th hu).fd (by lia)⟩

def System.countedFds (s : System) : List Fd :=
  (List.range s.shared.tables.fdIdx).map s.shared.tables.clientFdList

theorem countedFds_nodup
    (hreach : Reachable System.stepStray System.initial s) :
    s.countedFds.Nodup := by
  have hs := registering_stray hreach
  apply List.nodup_range.map_on
  intro i hi j hj heq
  rcases counted_row hs (List.mem_range.mp hi) with ⟨u, th, hu, _, rfl, hfd⟩
  rcases counted_row hs (List.mem_range.mp hj) with ⟨v, other, hv, _, rfl, hfd'⟩
  have huv : u = v :=
    connfd_inj (connfds_nodup hreach) hu hv (hfd.symm.trans (heq.trans hfd'))
  rw [huv, hv] at hu
  cases hu
  rfl

theorem mem_countedFds_iff
    (hreach : Reachable System.stepStray System.initial s) {th : Thread}
    (hth : th ∈ s.threads) : th.connfd ∈ s.countedFds <-> th.Counted := by
  have hs := registering_stray hreach
  rcases List.getElem?_of_mem hth with ⟨u, hu⟩
  constructor
  · intro hmem
    rcases List.mem_map.mp hmem with ⟨i, hi, heq⟩
    rcases counted_row hs (List.mem_range.mp hi) with
      ⟨v, other, hv, hcounted, _, hfd⟩
    -- the descriptor belongs to one thread
    have huv : u = v :=
      connfd_inj (connfds_nodup hreach) hu hv (heq.symm.trans hfd)
    rw [huv, hv] at hu
    cases hu
    exact hcounted
  · intro hcounted
    rcases hcounted.entry hs hu with ⟨hlt, hfd⟩
    exact List.mem_map.mpr ⟨th.row, List.mem_range.mpr hlt, hfd⟩

/--
Whenever the interrupt comes, the handler closes the descriptor of every client
that is counted, in the order of the rows, and each of these calls finds it open,
whatever forwarders have read outside the tables.  What the exit closes are the
other open descriptors, among them those of the clients that still register; no
descriptor is closed twice and none is left.
-/
theorem sigHandler_closes
    (hreach : Reachable System.stepStray System.initial s) {opened : List Fd}
    (hopen : forall th, th ∈ s.threads -> th.connfd ∈ opened) :
    (sigHandler s.shared.tables opened).1.closes =
        s.countedFds.map (fun fd => (fd, true)) ∧
      (forall th, th ∈ s.threads ->
        (th.connfd ∈ s.countedFds <-> th.Counted) ∧
          (th.Counted -> s.countedFds[th.row]? = some th.connfd) ∧
          (¬ th.Counted ->
            th.connfd ∈ (sigHandler s.shared.tables opened).2)) ∧
      (s.countedFds ++ (sigHandler s.shared.tables opened).2).Perm opened ∧
      (sigHandler s.shared.tables opened).1.opened = [] ∧
      (sigHandler s.shared.tables opened).1.tables =
        { s.shared.tables with
          fdIdx := 0
          clientFdList := fun i =>
            if i < s.shared.tables.fdIdx then 0
            else s.shared.tables.clientFdList i } := by
  have hs := registering_stray hreach
  have hnodup := countedFds_nodup hreach
  have hsubset : s.countedFds ⊆ opened := by
    intro fd hfd
    rcases List.mem_map.mp hfd with ⟨i, hi, rfl⟩
    rcases counted_row hs (List.mem_range.mp hi) with ⟨u, th, hu, _, _, hown⟩
    rw [hown]
    exact hopen th (List.mem_of_getElem? hu)
  rcases closeClients_open hnodup hsubset with ⟨hcloses, hleft⟩
  have hatExit : (sigHandler s.shared.tables opened).2 =
      opened.diff s.countedFds := hleft
  refine ⟨hcloses, ?_, ?_, rfl, ?_⟩
  · intro th hth
    have hcounted := mem_countedFds_iff hreach hth
    refine ⟨hcounted, ?_, ?_⟩
    · intro h
      rcases List.getElem?_of_mem hth with ⟨u, hu⟩
      rcases h.entry hs hu with ⟨hlt, hfd⟩
      unfold System.countedFds
      rw [List.getElem?_map, List.getElem?_range hlt]
      exact congrArg some hfd
    · intro h
      rw [hatExit]
      apply List.mem_diff_of_mem (hopen th hth)
      rw [hcounted]
      exact h
  · rw [hatExit]
    apply List.subperm_append_diff_self_of_count_le
    exact List.subperm_ext_iff.mp (List.subperm_of_subset hnodup hsubset)
  · unfold sigHandler
    simp only [closeClients_tables]

end

/-- `sub1` has stored its descriptor and waits for its lines to be read. -/
theorem sigHandler_closes_two :
    exists s, Reachable System.step System.initial s ∧
      s.shared.tables.clientFdList 2 = 6 ∧
      (sigHandler s.shared.tables [0, 1, 2, 3, 4, 5, 6]).1.closes =
        [(4, true), (5, true)] ∧
      ([4, 5] ++ (sigHandler s.shared.tables [0, 1, 2, 3, 4, 5, 6]).2).Perm
        [0, 1, 2, 3, 4, 5, 6] := by
  have hrun : exists s,
      runFrom System.step System.initial (twoRegistered ++ runs 2 2) = some s ∧
        s.shared.tables.clientFdList 2 = 6 ∧
        s.threads.map Thread.connfd = [4, 5, 6] ∧ s.countedFds = [4, 5] :=
    ⟨_, rfl, rfl, rfl, rfl⟩
  rcases hrun with ⟨s, hs, hfd, hconnfds, hcounted⟩
  have hopen : forall th, th ∈ s.threads ->
      th.connfd ∈ [0, 1, 2, 3, 4, 5, (6 : Fd)] := by
    intro th hth
    have hmem := List.mem_map_of_mem hth (f := Thread.connfd)
    rw [hconnfds] at hmem
    simp only [List.mem_cons, List.not_mem_nil, or_false] at hmem ⊢
    lia
  rcases sigHandler_closes (reachable_stray ⟨_, hs⟩) hopen with
    ⟨hcloses, _, hperm, _, _⟩
  rw [hcounted] at hcloses hperm
  exact ⟨s, ⟨_, hs⟩, hfd, hcloses, hperm⟩

end Broker
end MQTTv1
