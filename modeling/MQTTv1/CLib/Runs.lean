import Mathlib.Logic.Function.Basic

/-!
# Runs of a step function

A system is a partial step function on states.  A step that returns nothing is
one that cannot be taken: a call that blocks, an event that cannot occur, or an
access the program has no defined behaviour for.
-/

namespace MQTTv1
namespace CLib

def runFrom (step : state -> event -> Option state) :
    state -> List event -> Option state
  | s, [] => some s
  | s, e :: rest => (step s e).bind fun s' => runFrom step s' rest

def Reachable (step : state -> event -> Option state) (init s : state) : Prop :=
  exists events : List event, runFrom step init events = some s

/-- The steps of a system that a condition on state and event admits. -/
def guarded (admits : state -> event -> Bool)
    (step : state -> event -> Option state) (s : state) (e : event) :
    Option state :=
  if admits s e then step s e else none

theorem guarded_eq_some {admits : state -> event -> Bool}
    {step : state -> event -> Option state} {s s' : state} {e : event} :
    guarded admits step s e = some s' <->
      admits s e = true ∧ step s e = some s' := by
  unfold guarded
  cases hadmits : admits s e <;> simp

theorem runFrom_append (step : state -> event -> Option state) (s : state)
    (es es' : List event) :
    runFrom step s (es ++ es') =
      (runFrom step s es).bind fun s' => runFrom step s' es' := by
  induction es generalizing s with
  | nil => rfl
  | cons e rest ih =>
      simp only [List.cons_append, runFrom, Option.bind_assoc]
      cases hstep : step s e with
      | none => rfl
      | some s' => exact ih s'

/-- What holds at the start and survives every step holds along every run. -/
theorem runFrom_invariant {step : state -> event -> Option state}
    {Inv : state -> Prop}
    (hstep : forall s e s', Inv s -> step s e = some s' -> Inv s') :
    forall {events : List event} {s s' : state},
      Inv s -> runFrom step s events = some s' -> Inv s' := by
  intro events
  induction events with
  | nil =>
      intro s s' hs hrun
      cases hrun
      exact hs
  | cons e rest ih =>
      intro s s' hs hrun
      rcases Option.bind_eq_some_iff.mp hrun with ⟨mid, hmid, htail⟩
      exact ih (hstep s e mid hs hmid) htail

/-- An invariant that may speak of the steps that were taken. -/
theorem runFrom_history {step : state -> event -> Option state}
    {Inv : List event -> state -> Prop}
    (hstep : forall past s e s', Inv past s -> step s e = some s' ->
      Inv (past ++ [e]) s') :
    forall {events past : List event} {s s' : state},
      Inv past s -> runFrom step s events = some s' ->
        Inv (past ++ events) s' := by
  intro events
  induction events with
  | nil =>
      intro past s s' hs hrun
      cases hrun
      rw [List.append_nil]
      exact hs
  | cons e rest ih =>
      intro past s s' hs hrun
      rcases Option.bind_eq_some_iff.mp hrun with ⟨mid, hmid, htail⟩
      rw [List.append_cons]
      exact ih (hstep past s e mid hs hmid) htail

theorem Reachable.invariant {step : state -> event -> Option state}
    {Inv : state -> Prop} {init s : state}
    (hreach : Reachable step init s) (hinit : Inv init)
    (hstep : forall s e s', Inv s -> step s e = some s' -> Inv s') :
    Inv s := by
  rcases hreach with ⟨events, hrun⟩
  exact runFrom_invariant hstep hinit hrun

theorem Reachable.refl (step : state -> event -> Option state) (s : state) :
    Reachable step s s :=
  ⟨[], rfl⟩

theorem Reachable.tail {step : state -> event -> Option state}
    {init s s' : state} {e : event} (hreach : Reachable step init s)
    (hstep : step s e = some s') : Reachable step init s' := by
  rcases hreach with ⟨events, hrun⟩
  refine ⟨events ++ [e], ?_⟩
  rw [runFrom_append, hrun]
  simp [runFrom, hstep]

theorem Reachable.head {step : state -> event -> Option state}
    {s mid s' : state} {e : event} (hstep : step s e = some mid)
    (hreach : Reachable step mid s') : Reachable step s s' := by
  rcases hreach with ⟨events, hrun⟩
  refine ⟨e :: events, ?_⟩
  simp [runFrom, hstep, hrun]

theorem runFrom_of_guarded {admits : state -> event -> Bool}
    {step : state -> event -> Option state} :
    forall {events : List event} {s s' : state},
      runFrom (guarded admits step) s events = some s' ->
        runFrom step s events = some s' := by
  intro events
  induction events with
  | nil =>
      intro s s' h
      exact h
  | cons e rest ih =>
      intro s s' h
      rcases Option.bind_eq_some_iff.mp h with ⟨mid, hmid, htail⟩
      exact Option.bind_eq_some_iff.mpr
        ⟨mid, (guarded_eq_some.mp hmid).right, ih htail⟩

/-!
# Lists of threads

A step of one thread replaces its entry in the list.
-/

theorem getElem?_set_of_some {threads : List thread} {t : Nat}
    {th : thread} (hth : threads[t]? = some th) (th' : thread) (u : Nat) :
    (threads.set t th')[u]? = if u = t then some th' else threads[u]? := by
  have hlt := (List.getElem?_eq_some_iff.mp hth).choose
  rw [List.getElem?_set]
  by_cases hut : u = t
  · rw [if_pos hut.symm, if_pos hlt, if_pos hut]
  · rw [if_neg (Ne.symm hut), if_neg hut]

theorem getElem?_set_self {threads : List thread} {t : Nat} {th : thread}
    (hth : threads[t]? = some th) (th' : thread) :
    (threads.set t th')[t]? = some th' := by
  rw [getElem?_set_of_some hth, if_pos rfl]

theorem map_set_same {threads : List thread} {t : Nat} {th th' : thread}
    {f : thread -> value} (hth : threads[t]? = some th) (hf : f th' = f th) :
    (threads.set t th').map f = threads.map f := by
  rcases List.getElem?_eq_some_iff.mp hth with ⟨hlt, rfl⟩
  apply List.ext_getElem?
  intro u
  rw [List.getElem?_map, List.getElem?_map, getElem?_set_of_some hth]
  split
  · rw [‹u = t›, hth]
    exact congrArg some hf
  · rfl

theorem getElem?_set_cases {threads : List thread} {t u : Nat}
    {th th' other : thread} (hth : threads[t]? = some th)
    (h : (threads.set t th')[u]? = some other) :
    (u = t ∧ other = th') ∨ (u ≠ t ∧ threads[u]? = some other) := by
  rw [getElem?_set_of_some hth] at h
  split at h
  · cases h
    exact Or.inl ⟨‹_›, rfl⟩
  · exact Or.inr ⟨‹_›, h⟩

theorem getElem?_append_cases {threads : List thread} {u : Nat}
    {new other : thread} (h : (threads ++ [new])[u]? = some other) :
    (u = threads.length ∧ other = new) ∨ threads[u]? = some other := by
  rcases Nat.lt_or_ge u threads.length with hlt | hge
  · right
    rw [List.getElem?_append_left hlt] at h
    exact h
  · left
    rw [List.getElem?_append_right hge] at h
    have hu : u - threads.length = 0 := by
      have hbound := (List.getElem?_eq_some_iff.mp h).choose
      simp only [List.length_singleton] at hbound
      lia
    rw [hu] at h
    cases h
    exact ⟨by lia, rfl⟩

end CLib
end MQTTv1
