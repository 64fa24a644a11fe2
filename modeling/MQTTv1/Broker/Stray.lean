import MQTTv1.Broker.Registering
import MQTTv1.Broker.RowView
import MQTTv1.CLib.Gate

/-!
# Runs that go on past the arrays

A read past the arrays and a failed lookup, which `Thread.step` leaves out
because C does not define them, still happen on a machine.  Here such a step
finds some value.  What is proved about these runs holds whatever it is.  A
store past the arrays has no step here either: it may hit any variable.
-/

namespace MQTTv1
namespace Broker

open CLib
open Csapp

structure Stray where
  entry : Option CStr
  topic : Int
  fd : Fd

def Thread.stepStray (th : Thread) (found : Stray) (s : Shared) :
    Option (Thread × Shared) :=
  match th.point with
  | .testRow i =>
      if i < LIMIT_CONN_CLIENTS then none
      else
        match found.entry with
        | none => some ({ th with point := .testRow 0 }, s)
        | some _ => some ({ th with point := .testNone i }, s)
  | .testNone i =>
      if i < LIMIT_CONN_CLIENTS then none
      else
        found.entry.map fun sus =>
          if isNone sus then ({ th with point := .testRow (i + 1) }, s)
          else ({ th with point := .loadPublisher i }, s)
  | .loadPublisher i =>
      if i < LIMIT_CONN_CLIENTS then none
      else
        found.entry.map fun sus =>
          ({ th with point := .loadSuscriber i, publisher := sus }, s)
  | .loadSuscriber i =>
      if i < LIMIT_CONN_CLIENTS then none
      else some ({ th with point := .loadTopic i 0, suscriber := found.entry }, s)
  | .loadTopic i j =>
      if i < LIMIT_CONN_CLIENTS ∨ ¬ j < TOPICS_NUMBER then none
      else
        some ({ th with
          point := .loadTopic i (j + 1)
          topicsNumber := Function.update th.topicsNumber j found.topic }, s)
  | .findPublisher i =>
      match fdByClientName s.tables th.publisher with
      | some _ => none
      | none =>
          some ({ th with point := .findSuscriber i, fdPub := found.fd }, s)
  | .findSuscriber i =>
      th.suscriber.bind fun name =>
        match fdByClientName s.tables name with
        | some _ => none
        | none => some ({ th with point := .readLine i, fdSus := found.fd }, s)
  | _ => none

inductive StrayEvent where
  | event (e : Event)
  | stray (t : Nat) (found : Stray)

def System.stepStray (s : System) : StrayEvent -> Option System
  | .event e => s.step e
  | .stray t found =>
      match s.threads[t]? with
      | none => none
      | some th =>
          (th.stepStray found s.shared).map fun (th', shared) =>
            { shared := shared, threads := s.threads.set t th' }

theorem reachable_stray {s : System}
    (hreach : Reachable System.step System.initial s) :
    Reachable System.stepStray System.initial s := by
  apply hreach.invariant (Reachable.refl _ _)
  intro s e s' hs hstep
  exact hs.tail (e := .event e) hstep

/-!
# One stray step
-/

/-- Points behind `sem_wait(sem_control)`. -/
def Point.forwarding : Point -> Bool
  | .testRow _ | .testNone _ | .loadPublisher _ | .loadSuscriber _
  | .loadTopic _ _ | .findPublisher _ | .findSuscriber _ | .readLine _
  | .write _ => true
  | _ => false

structure Thread.Wanders (th th' : Thread) : Prop where
  keeps : th.Keeps th'
  before : th.point.forwarding = true
  behind : th'.point.forwarding = true

theorem Thread.stepStray_cases {th th' : Thread} {found : Stray}
    {s s' : Shared} (h : th.stepStray found s = some (th', s')) :
    s' = s ∧ th.Wanders th' := by
  -- only the point and the variables of the forwarding change
  have hwander : forall {q : Point} (p : Point) (publisher : CStr)
      (suscriber : Option CStr) (topicsNumber : Nat -> Int) (fdPub fdSus : Fd),
      th.point = q -> q.stage = 16 -> q.forwarding = true -> p.stage = 16 ->
        p.forwarding = true ->
        th.Wanders { th with
          point := p, publisher := publisher, suscriber := suscriber,
          topicsNumber := topicsNumber, fdPub := fdPub, fdSus := fdSus } := by
    intro q p publisher suscriber topicsNumber fdPub fdSus hpoint hstage hq
      hstage' hp
    refine ⟨⟨⟨?_, hstage'⟩, rfl, rfl, rfl, rfl, rfl, rfl⟩, ?_, hp⟩
    · rw [← hpoint] at hstage
      exact hstage
    · rw [hpoint]
      exact hq
  unfold Thread.stepStray at h
  cases hpoint : th.point with
  | testRow i =>
      simp only [hpoint] at h
      split at h
      · cases h
      · split at h
        · cases h
          exact ⟨rfl, hwander _ _ _ _ _ _ hpoint rfl rfl rfl rfl⟩
        · cases h
          exact ⟨rfl, hwander _ _ _ _ _ _ hpoint rfl rfl rfl rfl⟩
  | testNone i =>
      simp only [hpoint] at h
      split at h
      · cases h
      · rcases Option.map_eq_some_iff.mp h with ⟨sus, _, heq⟩
        split at heq
        · cases heq
          exact ⟨rfl, hwander _ _ _ _ _ _ hpoint rfl rfl rfl rfl⟩
        · cases heq
          exact ⟨rfl, hwander _ _ _ _ _ _ hpoint rfl rfl rfl rfl⟩
  | loadPublisher i =>
      simp only [hpoint] at h
      split at h
      · cases h
      · rcases Option.map_eq_some_iff.mp h with ⟨sus, _, heq⟩
        cases heq
        exact ⟨rfl, hwander _ _ _ _ _ _ hpoint rfl rfl rfl rfl⟩
  | loadSuscriber i | loadTopic i j =>
      simp only [hpoint] at h
      split at h
      · cases h
      · cases h
        exact ⟨rfl, hwander _ _ _ _ _ _ hpoint rfl rfl rfl rfl⟩
  | findPublisher i =>
      simp only [hpoint] at h
      split at h
      · cases h
      · cases h
        exact ⟨rfl, hwander _ _ _ _ _ _ hpoint rfl rfl rfl rfl⟩
  | findSuscriber i =>
      simp only [hpoint] at h
      rcases Option.bind_eq_some_iff.mp h with ⟨name, _, hfind⟩
      split at hfind
      · cases hfind
      · cases hfind
        exact ⟨rfl, hwander _ _ _ _ _ _ hpoint rfl rfl rfl rfl⟩
  | waitMutex | storeFd | readName | readSus | storeName | storeSus
  | storeTopic k | advance | postControl | postMutex | waitControl
  | readLine i | write i =>
      simp only [hpoint] at h
      cases h

theorem System.stepStray_thread {s s' : System} {t : Nat} {found : Stray}
    (h : s.stepStray (.stray t found) = some s') :
    exists th th', s.threads[t]? = some th ∧
      th.stepStray found s.shared = some (th', s'.shared) ∧
      s'.threads = s.threads.set t th' := by
  change (match s.threads[t]? with
    | none => none
    | some th => (th.stepStray found s.shared).map _) = some s' at h
  cases hth : s.threads[t]? with
  | none =>
      rw [hth] at h
      cases h
  | some th =>
      rw [hth] at h
      rcases Option.map_eq_some_iff.mp h with ⟨⟨th', shared⟩, hstep, rfl⟩
      exact ⟨th, th', rfl, hstep, rfl⟩

theorem System.stepStray_run {s s' : System} {t : Nat} {found : Stray}
    (h : s.stepStray (.stray t found) = some s') :
    exists th th', s.threads[t]? = some th ∧ s'.shared = s.shared ∧
      s'.threads = s.threads.set t th' ∧ th.Wanders th' := by
  rcases System.stepStray_thread h with ⟨th, th', hth, hstep, hthreads⟩
  rcases Thread.stepStray_cases hstep with ⟨hshared, hwanders⟩
  exact ⟨th, th', hth, hshared, hthreads, hwanders⟩

/-!
# Lookups that fail
-/

def Point.looksUp : Point -> Bool
  | .findPublisher _ | .findSuscriber _ => true
  | _ => false

/--
Only the search for a publisher can fail, and the forwarder stays with its row
whatever it finds.
-/
theorem Thread.stepStray_serves {th th' : Thread} {found : Stray}
    {s s' : Shared} {v : View} (hstray : th.stepStray found s = some (th', s'))
    (hlooks : th.point.looksUp = true)
    (hnamed : forall i row, v.row i row -> fdByClientName s.tables row.name ≠ none)
    (hsource : forall name, fdByClientName s.tables name = none ->
      v.source found.fd name)
    (hserves : th.Serves v) : th'.Serves v := by
  unfold Thread.Serves at hserves
  unfold Thread.stepStray at hstray
  cases hpoint : th.point with
  | findPublisher i =>
      simp only [hpoint] at hserves hstray
      rcases hserves with ⟨row, hrow, hcopied⟩
      cases hfd : fdByClientName s.tables th.publisher with
      | some fd =>
          rw [hfd] at hstray
          cases hstray
      | none =>
          rw [hfd] at hstray
          rcases Prod.mk.inj (Option.some.inj hstray) with ⟨rfl, _⟩
          rw [hcopied.publisher] at hfd
          exact ⟨row, hrow, ⟨hcopied.subscribed, hcopied.publisher,
            hcopied.suscriber, hcopied.topics⟩, hsource _ hfd⟩
  | findSuscriber i =>
      simp only [hpoint] at hserves hstray
      rcases hserves with ⟨row, hrow, hcopied, _⟩
      rcases Option.ne_none_iff_exists'.mp (hnamed i row hrow) with ⟨fd, hfd⟩
      rw [hcopied.suscriber, Option.bind_some, hfd] at hstray
      cases hstray
  | _ =>
      rw [hpoint] at hlooks
      cases hlooks

/-!
# What these runs keep
-/

theorem Registering.stepStray {s s' : System} {e : StrayEvent}
    (hs : Registering s) (hstep : s.stepStray e = some s') :
    Registering s' := by
  cases e with
  | event e => exact hs.step hstep
  | stray t found =>
      rcases System.stepStray_run hstep with
        ⟨th, th', hth, hshared, hthreads, hwanders⟩
      exact hs.of_keeps hth hwanders.keeps (by rw [hshared]) (by rw [hshared])
        hthreads

theorem registering_stray {s : System}
    (hreach : Reachable System.stepStray System.initial s) : Registering s :=
  hreach.invariant registering_initial fun _ _ _ hs hstep =>
    hs.stepStray hstep

theorem Thread.Registers.row_room {th th' : Thread} {s s' : Shared}
    (h : th.Registers s th' s') (hearly : th.stage < 2)
    (hlate : 2 ≤ th'.stage) : s.tables.fdIdx < LIMIT_CONN_CLIENTS := by
  cases h with
  | storeFd hpoint hroom => exact hroom
  | waitMutex hpoint => simp [Thread.stage] at hlate
  | storeTopic k hpoint | topicsDone k hpoint =>
      simp only [Thread.stage, hpoint, Point.stage] at hearly
      lia
  | readName hpoint | readSus hpoint | storeName hpoint | storeNone hpoint
  | storeSus hpoint | advance hpoint | postControl hpoint
  | postMutex hpoint => simp [Thread.stage, hpoint] at hearly

/-- No registration has a row outside the arrays. -/
theorem rows_inside {s : System}
    (hreach : Reachable System.stepStray System.initial s) :
    forall (t : Nat) th, s.threads[t]? = some th -> 2 ≤ th.stage ->
      th.row < LIMIT_CONN_CLIENTS := by
  apply hreach.invariant
  · intro t th hth
    simp [System.initial] at hth
  · intro s e s' hs hstep u other hother hstage
    have hkept : forall {t : Nat} {th th' : Thread},
        s.threads[t]? = some th -> s'.threads = s.threads.set t th' ->
          th.Keeps th' -> other.row < LIMIT_CONN_CLIENTS := by
      intro t th th' hth hthreads hkeeps
      rw [hthreads] at hother
      rcases getElem?_set_cases hth hother with ⟨_, rfl⟩ | ⟨_, hold⟩
      · rw [hkeeps.row]
        exact hs t th hth (by rw [hkeeps.stage.left]; lia)
      · exact hs u other hold hstage
    cases e with
    | stray t found =>
        rcases System.stepStray_run hstep with
          ⟨th, th', hth, _, hthreads, hwanders⟩
        exact hkept hth hthreads hwanders.keeps
    | event e =>
        change s.step e = some s' at hstep
        cases e with
        | accept connfd left =>
            change (if _ then none else some _) = some s' at hstep
            split at hstep
            · cases hstep
            · cases hstep
              exact hs u other (getElem?_of_started hother (by lia)) hstage
        | arrive fd line | hangUp fd =>
            cases hstep
            exact hs u other hother hstage
        | run t left =>
            rcases System.step_run hstep with ⟨th, th', hth, hrun, hthreads⟩
            rcases Thread.step_moves hrun with hmove | hmove
            · rw [hthreads] at hother
              rcases getElem?_set_cases hth hother with ⟨_, rfl⟩ | ⟨_, hold⟩
              · rcases Nat.lt_or_ge th.stage 2 with hearly | hlate
                · rw [hmove.row_new hearly hstage]
                  exact hmove.row_room hearly hstage
                · rw [hmove.row_eq hlate]
                  exact hs t th hth hlate
              · exact hs u other hold hstage
            · exact hkept hth hthreads hmove.keeps.left

theorem represents_inside {s : System}
    (hreach : Reachable System.stepStray System.initial s)
    (hidle : forall (t : Nat) th, s.threads[t]? = some th -> ¬ th.InSection) :
    exists rows : List Row, Represents s.shared.tables rows ∧
      rows.length ≤ LIMIT_CONN_CLIENTS ∧
      forall i row, rows[i]? = some row -> OwnerOf s.threads 14 i row := by
  rcases (registering_stray hreach).represents hidle with
    ⟨rows, hrows, howners⟩
  refine ⟨rows, hrows, Nat.le_of_not_lt ?_, howners⟩
  intro hlong
  rcases howners _ _ (List.getElem?_eq_getElem hlong) with
    ⟨u, owner, hu, hrow, hstage, _⟩
  have hinside := rows_inside hreach u owner hu (by lia)
  lia

end Broker
end MQTTv1
