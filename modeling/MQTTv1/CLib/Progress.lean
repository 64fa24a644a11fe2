import Mathlib.Algebra.GroupWithZero.Nat
import MQTTv1.CLib.Runs

/-!
# Work that runs out

Some steps of a system are work, and a measure says how much of it is left.  If
no step adds to it, the work of any run is limited, whatever else goes on; if
some work can be done as long as there is any, all of it can be done.
-/

namespace MQTTv1
namespace CLib

def workIn (step : state -> event -> Option state)
    (works : state -> event -> Bool) : state -> List event -> Nat
  | _, [] => 0
  | s, e :: rest =>
      (if works s e then 1 else 0) +
        match step s e with
        | none => 0
        | some s' => workIn step works s' rest

/-- No step adds work, and every step that is work uses some of it up. -/
structure RunsOut (step : state -> event -> Option state)
    (works : state -> event -> Bool) (Inv : state -> Prop)
    (left : state -> Nat) : Prop where
  keeps : forall s e s', Inv s -> step s e = some s' -> Inv s'
  uses : forall s e s', Inv s -> step s e = some s' ->
    (if works s e then 1 else 0) + left s' ≤ left s

section

variable {step : state -> event -> Option state}
variable {works : state -> event -> Bool} {Inv : state -> Prop}
variable {left : state -> Nat}

theorem workIn_cons {s s' : state} {e : event} (hstep : step s e = some s')
    (rest : List event) :
    workIn step works s (e :: rest) =
      (if works s e then 1 else 0) + workIn step works s' rest := by
  rw [workIn, hstep]

theorem RunsOut.workIn_le (h : RunsOut step works Inv left) :
    forall {events : List event} {s s' : state}, Inv s ->
      runFrom step s events = some s' ->
        workIn step works s events + left s' ≤ left s := by
  intro events
  induction events with
  | nil =>
      intro s s' _ hrun
      cases hrun
      exact Nat.le_of_eq (Nat.zero_add _)
  | cons e rest ih =>
      intro s s' hs hrun
      rcases Option.bind_eq_some_iff.mp hrun with ⟨mid, hmid, htail⟩
      have hrest := ih (h.keeps s e mid hs hmid) htail
      have hone := h.uses s e mid hs hmid
      rw [workIn_cons hmid]
      lia

/-- Where the work never gets stuck, a run of nothing but work does it all. -/
theorem RunsOut.exists_run (h : RunsOut step works Inv left)
    (hgoes : forall s, Inv s -> 0 < left s ->
      exists e s', works s e = true ∧ step s e = some s') :
    forall (n : Nat) {s : state}, Inv s -> left s ≤ n ->
      exists (events : List event) (s' : state),
        runFrom step s events = some s' ∧ left s' = 0 ∧
          workIn step works s events = events.length := by
  intro n
  induction n with
  | zero =>
      intro s _ hle
      exact ⟨[], s, rfl, Nat.le_zero.mp hle, rfl⟩
  | succ n ih =>
      intro s hs hle
      rcases Nat.eq_zero_or_pos (left s) with hdone | hpos
      · exact ⟨[], s, rfl, hdone, rfl⟩
      · rcases hgoes s hs hpos with ⟨e, mid, hwork, hmid⟩
        have hone := h.uses s e mid hs hmid
        rw [if_pos hwork] at hone
        rcases ih (h.keeps s e mid hs hmid) (by lia) with
          ⟨events, s', hrun, hdone, hcount⟩
        refine ⟨e :: events, s', ?_, hdone, ?_⟩
        · rw [runFrom, hmid]
          exact hrun
        · rw [workIn_cons hmid, if_pos hwork, hcount, List.length_cons,
            Nat.add_comm]

end

theorem sum_map_set {threads : List thread} {t : Nat} {th : thread}
    (hth : threads[t]? = some th) (th' : thread) (f : thread -> Nat) :
    ((threads.set t th').map f).sum + f th = (threads.map f).sum + f th' := by
  induction threads generalizing t with
  | nil => cases hth
  | cons first rest ih =>
      cases t with
      | zero =>
          cases hth
          simp only [List.set_cons_zero, List.map_cons, List.sum_cons]
          lia
      | succ t =>
          have hrest := ih hth
          simp only [List.set_cons_succ, List.map_cons, List.sum_cons]
          lia

end CLib
end MQTTv1
