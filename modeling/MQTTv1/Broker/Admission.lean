import MQTTv1.Broker.Stray

/-!
# Admission of forwarders

A registration posts `sem_control` from the second client on, and every thread
waits for it before its row loop.  The broker is a counted gate with threshold
two, whatever the forwarders and the arrays do.
-/

namespace MQTTv1
namespace Broker

open CLib
open Csapp

def Point.phase : Point -> Phase
  | .waitMutex => .outside
  | .storeFd | .readName | .readSus | .storeName | .storeSus | .storeTopic _
  | .advance => .inside
  | .postControl => .counted
  | .postMutex => .leaving
  | .waitControl => .waiting
  | .testRow _ | .testNone _ | .loadPublisher _ | .loadSuscriber _
  | .loadTopic _ _ | .findPublisher _ | .findSuscriber _ | .readLine _
  | .write _ => .admitted

def Shared.counters (s : Shared) : Counters where
  mutex := s.semMutex
  permits := s.semControl
  count := s.tables.fdIdx

def System.phases (s : System) : List Phase :=
  s.threads.map fun th => th.point.phase

instance (th : Thread) : Decidable th.InSection :=
  inferInstanceAs (Decidable (1 ≤ th.stage ∧ th.stage ≤ 15))

/-- No thread is between `sem_wait(sem_mutex)` and `sem_post(sem_mutex)`. -/
def System.Idle (s : System) : Prop :=
  forall th, th ∈ s.threads -> ¬ th.InSection

theorem System.idle_of_all {s : System}
    (h : s.threads.all (fun th => decide (¬ th.InSection)) = true) : s.Idle := by
  intro th hth
  exact of_decide_eq_true (List.all_eq_true.mp h th hth)

def System.passedControl (s : System) : Nat :=
  s.threads.countP fun th => th.point.forwarding

def System.registered (s : System) : Nat :=
  s.threads.countP fun th => decide (14 ≤ th.stage)

/-!
# The broker as a gate
-/

theorem takeLine_counters {s s' : Shared} {fd : Fd}
    {line : Option (List Byte)} (h : s.takeLine fd = some (line, s')) :
    s'.counters = s.counters := by
  rcases Shared.takeLine_some h with ⟨_, _, _, _, rfl⟩ | ⟨_, rfl⟩
  · rfl
  · rfl

theorem Thread.Registers.moves {th th' : Thread} {s s' : Shared}
    (h : th.Registers s th' s') :
    Moves 2 s.counters th.point.phase th'.point.phase s'.counters := by
  cases h with
  | waitMutex hpoint hfree =>
      rw [hpoint]
      exact .enter hfree
  | readName hpoint line _ hline | readSus hpoint line _ hline =>
      rw [hpoint, takeLine_counters hline]
      exact .inside
  | advance hpoint =>
      rw [hpoint]
      exact .count
  | postControl hpoint =>
      rw [hpoint]
      split
      · exact .post ‹_›
      · exact .skip ‹_›
  | postMutex hpoint =>
      rw [hpoint]
      exact .leave
  | storeFd hpoint | storeName hpoint | storeNone hpoint | storeSus hpoint
  | storeTopic k hpoint | topicsDone k hpoint =>
      rw [hpoint]
      exact .inside

theorem Thread.Forwards.moves {th th' : Thread} {left : MessageLeftover}
    {s s' : Shared} (h : th.Forwards left s th' s') :
    Moves 2 s.counters th.point.phase th'.point.phase s'.counters := by
  cases h with
  | waitControl hpoint hposted =>
      rw [hpoint]
      exact .pass hposted
  | readLine i line _ hpoint hline =>
      rw [hpoint, takeLine_counters hline]
      cases line with
      | none => exact .admitted
      | some bytes => exact .admitted
  | passOver i hpoint | rowFound i sus hpoint | rowNone i sus hpoint
  | rowSubscribed i sus hpoint | loadPublisher i sus hpoint
  | loadSuscriber i hpoint | loadTopic i j hpoint | topicsLoaded i j hpoint
  | findPublisher i fd hpoint | findSuscriber i name fd hpoint
  | written i hpoint | write i buf rest hpoint =>
      rw [hpoint]
      exact .admitted

theorem Point.phase_of_forwarding {p : Point} (h : p.forwarding = true) :
    p.phase = .admitted := by
  cases p <;> first | rfl | cases h

theorem Thread.Wanders.moves {th th' : Thread} (h : th.Wanders th')
    (c : Counters) : Moves 2 c th.point.phase th'.point.phase c := by
  rw [Point.phase_of_forwarding h.before, Point.phase_of_forwarding h.behind]
  exact .admitted

theorem System.phases_set {s s' : System} {t : Nat} {th' : Thread}
    (hthreads : s'.threads = s.threads.set t th') :
    s'.phases = s.phases.set t th'.point.phase := by
  unfold System.phases
  rw [hthreads, List.map_set]

theorem System.phases_getElem? {s : System} {t : Nat} {th : Thread}
    (hth : s.threads[t]? = some th) : s.phases[t]? = some th.point.phase := by
  unfold System.phases
  rw [List.getElem?_map, hth]
  rfl

theorem gateLaw_step {s s' : System} {e : StrayEvent}
    (hs : GateLaw 2 s.phases s.shared.counters)
    (hstep : s.stepStray e = some s') :
    GateLaw 2 s'.phases s'.shared.counters := by
  cases e with
  | stray t found =>
      rcases System.stepStray_run hstep with
        ⟨th, th', hth, hshared, hthreads, hwanders⟩
      rw [System.phases_set hthreads, hshared]
      exact hs.move (System.phases_getElem? hth) (hwanders.moves _)
  | event e =>
      change s.step e = some s' at hstep
      cases e with
      | accept connfd left =>
          change (if _ then none else some _) = some s' at hstep
          split at hstep
          · cases hstep
          · cases hstep
            simpa [System.phases, Thread.start, Point.phase] using hs.append
      | arrive fd line =>
          cases hstep
          exact hs
      | hangUp fd =>
          cases hstep
          exact hs
      | run t left =>
          rcases System.step_run hstep with ⟨th, th', hth, hrun, hthreads⟩
          rw [System.phases_set hthreads]
          have hphase := System.phases_getElem? hth
          rcases Thread.step_moves hrun with hregisters | hforwards
          · exact hs.move hphase hregisters.moves
          · exact hs.move hphase hforwards.moves

theorem gateLaw_stray {s : System}
    (hreach : Reachable System.stepStray System.initial s) :
    GateLaw 2 s.phases s.shared.counters :=
  hreach.invariant (gateLaw_initial (by lia)) fun _ _ _ hs hstep =>
    gateLaw_step hs hstep

/-!
# Stores past the arrays
-/

/--
In a full table a registration stores its descriptor behind `client_fd_list`.  C
leaves open what such a store hits; in the repository's own broker the pointer
`sem_control` lies there.
-/
def System.overrun (s : System) (t : Nat) (hit : Shared -> Shared) :
    Option System :=
  match s.threads[t]? with
  | none => none
  | some th =>
      if th.point = .storeFd ∧ ¬ s.shared.tables.fdIdx < LIMIT_CONN_CLIENTS then
        some
          { shared := hit s.shared
            threads := s.threads.set t
              { th with point := .readName, row := s.shared.tables.fdIdx } }
      else none

inductive PastEvent where
  | inside (e : StrayEvent)
  | overrun (t : Nat) (hit : Shared -> Shared)

def System.stepPast (s : System) : PastEvent -> Option System
  | .inside e => s.stepStray e
  | .overrun t hit => s.overrun t hit

def System.storesInside (s : System) (t : Nat) : Bool :=
  (s.threads[t]?).all fun th =>
    th.point ≠ .storeFd || decide (s.shared.tables.fdIdx < LIMIT_CONN_CLIENTS)

def System.hasSlot (s : System) : PastEvent -> Bool
  | .inside (.event (.run t _)) => s.storesInside t
  | .overrun t _ => s.storesInside t
  | _ => true

theorem System.overrun_past {s s' : System} {t : Nat} {hit : Shared -> Shared}
    (h : s.overrun t hit = some s') : s.storesInside t = false := by
  unfold System.overrun at h
  unfold System.storesInside
  cases hth : s.threads[t]? with
  | none =>
      rw [hth] at h
      cases h
  | some th =>
      rw [hth] at h
      simp only at h
      split at h
      · rename_i hpast
        simp [hpast.left, hpast.right]
      · cases h

/-- With a free slot for every registration no store leaves the arrays. -/
theorem System.stepPast_inside {s s' : System} {e : PastEvent}
    (hslot : s.hasSlot e = true) (hstep : s.stepPast e = some s') :
    exists e', s.stepStray e' = some s' := by
  cases e with
  | inside e => exact ⟨e, hstep⟩
  | overrun t hit =>
      have hpast := System.overrun_past hstep
      change s.storesInside t = true at hslot
      rw [hslot] at hpast
      cases hpast

theorem gateLaw_reachable {s : System}
    (hreach : Reachable (guarded System.hasSlot System.stepPast)
      System.initial s) :
    GateLaw 2 s.phases s.shared.counters := by
  apply hreach.invariant (gateLaw_initial (by lia))
  intro s e s' hs hstep
  rcases guarded_eq_some.mp hstep with ⟨hslot, hpast⟩
  rcases System.stepPast_inside hslot hpast with ⟨e', hinside⟩
  exact gateLaw_step hs hinside

/-!
# The counting law
-/

theorem System.countP_phases (s : System) (p : Phase -> Bool) :
    s.phases.countP p = s.threads.countP fun th => p th.point.phase := by
  unfold System.phases
  rw [List.countP_map]
  rfl

theorem System.countP_isAdmitted (s : System) :
    s.phases.countP Phase.isAdmitted = s.passedControl := by
  rw [System.countP_phases]
  apply List.countP_congr
  intro th _
  cases th.point <;> simp [Point.phase, Point.forwarding]

theorem System.countP_registered (s : System) :
    s.phases.countP Phase.registered = s.registered := by
  rw [System.countP_phases]
  apply List.countP_congr
  intro th _
  unfold Thread.stage
  cases th.point with
  | storeTopic k =>
      simp only [Point.phase, Phase.registered, Point.stage,
        Bool.false_eq_true, false_iff]
      lia
  | _ => simp [Point.phase]

theorem System.Idle.countP_inSection {s : System} (hidle : s.Idle) :
    s.phases.countP Phase.inSection = 0 := by
  rw [System.countP_phases]
  apply List.countP_eq_zero.mpr
  intro th hth
  have hout := hidle th hth
  unfold Thread.InSection Thread.stage at hout
  cases hpoint : th.point with
  | storeTopic k =>
      rw [hpoint] at hout
      simp only [Point.stage] at hout
      lia
  | _ =>
      rw [hpoint] at hout
      simp_all [Point.phase]

theorem counting_law {s : System}
    (hlaw : GateLaw 2 s.phases s.shared.counters) :
    s.shared.tables.fdIdx = s.registered ∧
      (s.Idle -> s.shared.semControl + s.passedControl =
        s.shared.tables.fdIdx - 1) ∧
      (0 < s.passedControl -> 2 ≤ s.registered) ∧
      (s.Idle -> 2 ≤ s.registered ->
        s.shared.semControl + s.passedControl = s.registered - 1) := by
  have hcount : s.shared.tables.fdIdx = s.registered := by
    rw [← System.countP_registered, hlaw.count]
    rfl
  have hbalance : s.Idle -> s.shared.semControl + s.passedControl =
      s.shared.tables.fdIdx - 1 := by
    intro hidle
    have hsum := hlaw.balance hidle.countP_inSection
    rw [System.countP_isAdmitted] at hsum
    exact hsum
  refine ⟨hcount, hbalance, ?_, ?_⟩
  · intro hpassed
    rw [← System.countP_isAdmitted] at hpassed
    rw [← hcount]
    exact hlaw.threshold_le hpassed
  · intro hidle _
    rw [← hcount]
    exact hbalance hidle

/--
With a slot for every registration: at rest the permits that are left and those
that were taken are one less than the rows, and nobody is in the row loop before
two rows are complete.
-/
theorem admission_law {s : System}
    (hreach : Reachable (guarded System.hasSlot System.stepPast)
      System.initial s) :
    s.shared.tables.fdIdx = s.registered ∧
      (s.Idle -> s.shared.semControl + s.passedControl =
        s.shared.tables.fdIdx - 1) ∧
      (0 < s.passedControl -> 2 ≤ s.registered) ∧
      (s.Idle -> 2 ≤ s.registered ->
        s.shared.semControl + s.passedControl = s.registered - 1) :=
  counting_law (gateLaw_reachable hreach)

def admittedFirst : List Event :=
  connects 4 (lit "node1") (lit "NONE") ++ runs 0 9 ++
    connects 5 (lit "node2") (lit "NONE") ++ runs 1 9 ++ runs 0 1

def admittedInside : List PastEvent :=
  admittedFirst.map fun e => .inside (.event e)

theorem admission_of_two :
    exists s, Reachable (guarded System.hasSlot System.stepPast)
        System.initial s ∧
      s.passedControl = 1 ∧ 2 ≤ s.registered ∧
      s.shared.semControl + 1 = s.registered - 1 := by
  have hrun :
      exists s, runFrom (guarded System.hasSlot System.stepPast) System.initial
          admittedInside = some s ∧
        s.passedControl = 1 ∧
        s.threads.all (fun th => decide (¬ th.InSection)) = true :=
    ⟨_, rfl, rfl, rfl⟩
  rcases hrun with ⟨s, hs, hpassed, hout⟩
  have hidle := System.idle_of_all hout
  have hreach : Reachable (guarded System.hasSlot System.stepPast)
      System.initial s := ⟨_, hs⟩
  rcases admission_law hreach with ⟨_, _, htwo, hgranted⟩
  have hregistered := htwo (by lia)
  have hsum := hgranted hidle hregistered
  rw [hpassed] at hsum
  exact ⟨s, hreach, hpassed, hregistered, hsum⟩

def registrations (n : Nat) : List Event :=
  (List.range n).flatMap fun k =>
    connects (Int.ofNat k) (lit "node") (lit "NONE") ++ runs k 9

/--
The descriptor of the eleventh client hits `sem_control`, behind which there is
no permit.  In the repository's own broker its name goes to `thread_id`, its
node behind the last variable.
-/
def elevenClients : List PastEvent :=
  (registrations 10 ++ connects 10 (lit "node") (lit "NONE") ++
      runs 10 1).map (fun e => .inside (.event e)) ++
    [.overrun 10 fun s => { s with semControl := 0 }] ++
    (runs 10 7).map fun e => .inside (.event e)

/-- At rest, with eleven rows, no permit is taken and only one is left. -/
theorem eleven_clients_lose_permits :
    exists s, Reachable System.stepPast System.initial s ∧ s.Idle ∧
      s.shared.tables.fdIdx = 11 ∧
      s.shared.semControl + s.passedControl ≠ s.shared.tables.fdIdx - 1 := by
  have hrun :
      (runFrom System.stepPast System.initial elevenClients).map
        (fun s => (s.threads.all (fun th => decide (¬ th.InSection)),
          s.shared.tables.fdIdx, s.shared.semControl, s.passedControl)) =
      some (true, 11, 1, 0) := by
    decide +kernel
  rcases Option.map_eq_some_iff.mp hrun with ⟨s, hs, hview⟩
  simp only [Prod.mk.injEq] at hview
  rcases hview with ⟨hout, hrows, hpermits, hpassed⟩
  refine ⟨s, ⟨_, hs⟩, System.idle_of_all hout, hrows, ?_⟩
  rw [hpermits, hpassed, hrows]
  decide

end Broker
end MQTTv1
