import MQTTv1.Broker.Alignment
import MQTTv1.Broker.Provenance
import MQTTv1.CLib.Progress

/-!
# Registrations come to an end

A registration waits for two things only, the mutex and the lines of its own
client.  When the clients have sent their lines, the registrations cannot block
each other, and the forwarders that already run can neither take these lines nor
hold the mutex.  They can end the process, which is left out here: nobody hangs
up, and no line leaves a buffer.
-/

namespace MQTTv1
namespace Broker

open CLib
open Csapp

/-!
# What is left to register
-/

def Thread.stepsLeft (th : Thread) : Nat := 16 - th.stage

def System.stepsLeft (s : System) : Nat :=
  (s.threads.map Thread.stepsLeft).sum

def System.registers (s : System) : Event -> Bool
  | .run t _ =>
      match s.threads[t]? with
      | some th => decide (th.stage < 16)
      | none => false
  | _ => false

/-- Nobody connects or hangs up, and no forwarder leaves its buffers. -/
def System.closed (s : System) : Event -> Bool
  | .accept _ _ | .hangUp _ => false
  | .arrive _ _ => true
  | .run t _ => s.fits t

def System.stepClosed : System -> Event -> Option System :=
  guarded System.closed System.step

/--
The run has brought both lines of every accepted client, none has hung up, and
there is a row for each.
-/
structure Greeted (events : List Event) (s : System) : Prop where
  run : runFrom System.step System.initial events = some s
  connected : forall th, th ∈ s.threads ->
    s.shared.hungUp th.connfd = false
  lines : forall th, th ∈ s.threads ->
    2 ≤ (arrivedLines events th.connfd).length
  room : s.threads.length ≤ LIMIT_CONN_CLIENTS

/-- Every thread is through with its registration, and the counter shows it. -/
structure System.AllRegistered (s : System) : Prop where
  through : forall th, th ∈ s.threads -> th.stage = 16
  count : s.shared.tables.fdIdx = s.threads.length

/-!
# One step
-/

section

variable {th th' : Thread} {s s' : Shared}

theorem Thread.stage_le (th : Thread) : th.stage ≤ 16 := by
  unfold Thread.stage
  cases th.point with
  | storeTopic k =>
      simp only [Point.stage]
      lia
  | _ => simp

theorem Thread.Registers.stage_lt (h : th.Registers s th' s') :
    th.stage < th'.stage := by
  cases h with
  | storeTopic k hpoint hk | topicsDone k hpoint hk =>
      unfold TOPICS_NUMBER at hk
      simp only [Thread.stage, Point.stage, hpoint]
      lia
  | waitMutex hpoint | storeFd hpoint | readName hpoint | readSus hpoint
  | storeName hpoint | storeNone hpoint | storeSus hpoint | advance hpoint
  | postControl hpoint | postMutex hpoint =>
      simp [Thread.stage, Point.stage, hpoint]

theorem takeLine_of_hasLines {fd : Fd} (h : s.hasLines fd 1 = true) :
    exists line s', s.takeLine fd = some (line, s') := by
  cases hline : s.takeLine fd with
  | none =>
      rw [takeLine_none_iff.mp hline] at h
      cases h
  | some result => exact ⟨result.1, result.2, rfl⟩

/-- Inside the section only a full table or a missing line stops a thread. -/
theorem Thread.goes_on (hsection : th.InSection)
    (hroom : th.stage = 1 -> s.tables.fdIdx < LIMIT_CONN_CLIENTS)
    (hlines : 2 ≤ th.stage -> th.stage ≤ 3 ->
      s.hasLines th.connfd 1 = true) (left : MessageLeftover) :
    exists th' s', th.step left s = some (th', s') := by
  unfold Thread.InSection at hsection
  unfold Thread.stage at hsection hroom hlines
  unfold Thread.step
  cases hpoint : th.point with
  | storeFd =>
      rw [hpoint] at hroom
      simp [hroom rfl]
  | readName | readSus =>
      rw [hpoint] at hlines
      rcases takeLine_of_hasLines (hlines (by decide) (by decide)) with
        ⟨line, s', hline⟩
      simp [hline]
  | storeName | advance | postControl | postMutex =>
      exact ⟨_, _, rfl⟩
  | storeSus =>
      simp only
      split
      · exact ⟨_, _, rfl⟩
      · exact ⟨_, _, rfl⟩
  | storeTopic k =>
      simp only
      split
      · exact ⟨_, _, rfl⟩
      · exact ⟨_, _, rfl⟩
  | _ =>
      rw [hpoint] at hsection
      simp at hsection

end

section

variable {s s' : System} {t : Nat} {e : Event} {events : List Event}

/-- Whatever happens, only accepted connections add to what is left. -/
theorem stepsLeft_step (hstep : s.stepClosed e = some s') :
    (if s.registers e then 1 else 0) + s'.stepsLeft ≤ s.stepsLeft := by
  rcases guarded_eq_some.mp hstep with ⟨hclosed, hrun⟩
  cases e with
  | accept connfd left | hangUp fd => cases hclosed
  | arrive fd line =>
      cases hrun
      exact Nat.le_of_eq (Nat.zero_add _)
  | run t left =>
      rcases System.step_run hrun with ⟨th, th', hth, hthread, hthreads⟩
      have hsum := sum_map_set hth th' Thread.stepsLeft
      rw [← hthreads] at hsum
      change s'.stepsLeft + _ = s.stepsLeft + _ at hsum
      unfold Thread.stepsLeft at hsum
      have hle := th'.stage_le
      rcases Thread.step_moves hthread with hmove | hmove
      · have hlt := hmove.stage_lt
        split
        · lia
        · lia
      · have hstage := hmove.keeps.left.stage
        have hidle : s.registers (.run t left) = false := by
          simp [System.registers, hth, hstage.left]
        rw [hidle]
        simp only [Bool.false_eq_true, if_false]
        lia

theorem stepClosed_frame (hstep : s.stepClosed e = some s') :
    s'.threads.map Thread.connfd = s.threads.map Thread.connfd ∧
      s'.shared.hungUp = s.shared.hungUp := by
  rcases guarded_eq_some.mp hstep with ⟨hclosed, hrun⟩
  cases e with
  | accept connfd left | hangUp fd => cases hclosed
  | arrive fd line =>
      cases hrun
      exact ⟨rfl, rfl⟩
  | run t left =>
      rcases System.step_run hrun with ⟨th, th', hth, hthread, hthreads⟩
      rw [hthreads]
      rcases Thread.step_moves hthread with hmove | hmove
      · rw [hmove.inbox_frame.left]
        exact ⟨map_set_same hth hmove.connfd_eq, rfl⟩
      · rw [hmove.inbox_frame.left]
        exact ⟨map_set_same hth hmove.keeps.left.connfd, rfl⟩

theorem Greeted.step (hs : Greeted events s)
    (hstep : s.stepClosed e = some s') : Greeted (events ++ [e]) s' := by
  rcases stepClosed_frame hstep with ⟨hconnfds, hhungUp⟩
  have hbefore : forall th, th ∈ s'.threads ->
      exists before, before ∈ s.threads ∧ before.connfd = th.connfd := by
    intro th hth
    have hmem : th.connfd ∈ s'.threads.map Thread.connfd :=
      List.mem_map_of_mem hth
    rw [hconnfds] at hmem
    exact List.mem_map.mp hmem
  constructor
  · rw [runFrom_append, hs.run]
    simp [runFrom, (guarded_eq_some.mp hstep).right]
  · intro th hth
    rcases hbefore th hth with ⟨before, hmem, hsame⟩
    rw [← hsame, hhungUp]
    exact hs.connected before hmem
  · intro th hth
    rcases hbefore th hth with ⟨before, hmem, hsame⟩
    rw [← hsame, arrivedLines_append, List.length_append]
    exact Nat.le_add_right_of_le (hs.lines before hmem)
  · have hlen := congrArg List.length hconnfds
    rw [List.length_map, List.length_map] at hlen
    rw [hlen]
    exact hs.room

/-!
# No registration is stuck
-/

theorem Greeted.next_line (hs : Greeted events s) {th : Thread}
    (hth : s.threads[t]? = some th) (hlow : 2 ≤ th.stage)
    (hhigh : th.stage ≤ 3) : s.shared.hasLines th.connfd 1 = true := by
  rcases exists_provenance hs.run with ⟨w, hp⟩
  have hlines := hs.lines th (List.mem_of_getElem? hth)
  rcases hp.opening t th hth hhigh with ⟨hfirst, hskipped⟩
  unfold Shared.hasLines
  rw [Bool.or_eq_true, decide_eq_true_eq]
  right
  rw [(hp.queued th.connfd).right, List.length_drop]
  lia

theorem Greeted.next_row (hs : Greeted events s) {th : Thread}
    (hth : s.threads[t]? = some th) (hstage : th.stage = 1) :
    s.shared.tables.fdIdx < LIMIT_CONN_CLIENTS := by
  have hcount := (gateLaw_stray (reachable_stray ⟨_, hs.run⟩)).count
  rw [System.countP_registered] at hcount
  have hle : s.registered ≤ s.threads.length := List.countP_le_length
  have hne : s.registered ≠ s.threads.length := by
    intro hall
    have hlate := List.countP_eq_length.mp hall th (List.mem_of_getElem? hth)
    rw [decide_eq_true_eq] at hlate
    lia
  change _ = s.shared.tables.fdIdx at hcount
  have hroom := hs.room
  lia

theorem System.fits_of_registering {th : Thread}
    (hth : s.threads[t]? = some th) (hstage : th.stage < 16) :
    s.fits t = true := by
  unfold System.fits
  rw [hth, Option.all_some]
  unfold Thread.stage at hstage
  cases hpoint : th.point with
  | findSuscriber i | readLine i =>
      rw [hpoint] at hstage
      simp at hstage
  | _ => rfl

theorem System.exists_unfinished (hleft : 0 < s.stepsLeft) :
    exists (t : Nat) (th : Thread),
      s.threads[t]? = some th ∧ th.stage < 16 := by
  rcases List.sum_pos_iff_exists_pos_nat.mp hleft with ⟨left, hmem, hpos⟩
  rcases List.mem_map.mp hmem with ⟨th, hth, rfl⟩
  rcases List.getElem?_of_mem hth with ⟨t, ht⟩
  unfold Thread.stepsLeft at hpos
  exact ⟨t, th, ht, by lia⟩

/-- As long as a registration is left, one of them can go on. -/
theorem Greeted.goes_on (hs : Greeted events s) (hleft : 0 < s.stepsLeft) :
    exists t, forall left, s.registers (.run t left) = true ∧
      exists s', s.stepClosed (.run t left) = some s' := by
  have hgoes : exists (t : Nat) (th : Thread), s.threads[t]? = some th ∧
      th.stage < 16 ∧ forall left, exists th' shared,
        th.step left s.shared = some (th', shared) := by
    by_cases hsection : exists (t : Nat) (th : Thread),
      s.threads[t]? = some th ∧ th.InSection
    · rcases hsection with ⟨t, th, hth, hin⟩
      refine ⟨t, th, hth, Nat.lt_succ_of_le hin.right, ?_⟩
      exact Thread.goes_on hin (hs.next_row hth) (hs.next_line hth)
    · -- nobody is inside, so the mutex is free
      rcases System.exists_unfinished hleft with ⟨t, th, hth, hstage⟩
      have hidle : s.Idle := by
        intro other hother hin
        rcases List.getElem?_of_mem hother with ⟨u, hu⟩
        exact hsection ⟨u, other, hu, hin⟩
      have hmutex := (gateLaw_stray (reachable_stray ⟨_, hs.run⟩)).mutex
      rw [hidle.countP_inSection] at hmutex
      change s.shared.semMutex + 0 = 1 at hmutex
      have hzero : th.stage = 0 := by
        have hout := hidle th (List.mem_of_getElem? hth)
        unfold Thread.InSection at hout
        lia
      refine ⟨t, th, hth, hstage, ?_⟩
      intro left
      have hpoint := waitMutex_iff.mpr hzero
      have hfree : 0 < s.shared.semMutex := by lia
      unfold Thread.step
      simp [hpoint, hfree]
  rcases hgoes with ⟨t, th, hth, hstage, hstep⟩
  refine ⟨t, ?_⟩
  intro left
  rcases hstep left with ⟨th', shared, hrun⟩
  refine ⟨by simp [System.registers, hth, hstage],
    { shared := shared, threads := s.threads.set t th' }, ?_⟩
  apply guarded_eq_some.mpr
  refine ⟨System.fits_of_registering hth hstage, ?_⟩
  simp [System.step, hth, hrun]

theorem Greeted.allRegistered (hs : Greeted events s)
    (hleft : s.stepsLeft = 0) : s.AllRegistered := by
  have hthrough : forall th, th ∈ s.threads -> th.stage = 16 := by
    intro th hth
    have hzero : th.stepsLeft = 0 :=
      List.sum_eq_zero_iff_forall_eq_nat.mp hleft _ (List.mem_map_of_mem hth)
    have hle := th.stage_le
    unfold Thread.stepsLeft at hzero
    lia
  refine ⟨hthrough, ?_⟩
  have hcount := (gateLaw_stray (reachable_stray ⟨_, hs.run⟩)).count
  rw [System.countP_registered] at hcount
  change _ = s.shared.tables.fdIdx at hcount
  rw [← hcount]
  apply List.countP_eq_length.mpr
  intro th hth
  rw [hthrough th hth]
  rfl

end

/-!
# Every run
-/

theorem runsOut_stepsLeft :
    RunsOut System.stepClosed System.registers
      (fun s => exists events, Greeted events s) System.stepsLeft where
  keeps := by
    intro s e s' hs hstep
    rcases hs with ⟨events, hs⟩
    exact ⟨events ++ [e], hs.step hstep⟩
  uses := by
    intro s e s' _ hstep
    exact stepsLeft_step hstep

/--
When every client has sent its handshake, the steps that its registration still
needs are limited in every run, and as long as some are missing one of them can
be taken, whatever the forwarders do and whatever arrives.  In particular all
registrations can be completed without any other step.
-/
theorem registrations_finish {events : List Event} {s : System}
    (hs : Greeted events s) :
    (forall more s', runFrom System.stepClosed s more = some s' ->
      workIn System.stepClosed System.registers s more + s'.stepsLeft ≤
          s.stepsLeft ∧
        (s'.AllRegistered ∨
          exists t, forall left, s'.registers (.run t left) = true ∧
            exists next, s'.stepClosed (.run t left) = some next)) ∧
      exists more s', runFrom System.stepClosed s more = some s' ∧
        s'.AllRegistered ∧
        workIn System.stepClosed System.registers s more = more.length := by
  have hwork := runsOut_stepsLeft
  constructor
  · intro more s' hrun
    refine ⟨hwork.workIn_le ⟨events, hs⟩ hrun, ?_⟩
    rcases runFrom_invariant hwork.keeps ⟨events, hs⟩ hrun with ⟨past, hs'⟩
    rcases Nat.eq_zero_or_pos s'.stepsLeft with hdone | hpos
    · exact Or.inl (hs'.allRegistered hdone)
    · exact Or.inr (hs'.goes_on hpos)
  · have hgoes : forall s : System, (exists events, Greeted events s) ->
        0 < s.stepsLeft -> exists e s', s.registers e = true ∧
          s.stepClosed e = some s' := by
      intro s hs hpos
      rcases hs with ⟨past, hs⟩
      rcases hs.goes_on hpos with ⟨t, hgoes⟩
      rcases hgoes cleanMessageLeftover with ⟨hregisters, s', hstep⟩
      exact ⟨.run t cleanMessageLeftover, s', hregisters, hstep⟩
    rcases hwork.exists_run hgoes s.stepsLeft ⟨events, hs⟩ le_rfl with
      ⟨more, s', hrun, hdone, hcount⟩
    rcases runFrom_invariant hwork.keeps ⟨events, hs⟩ hrun with ⟨past, hs'⟩
    exact ⟨more, s', hrun, hs'.allRegistered hdone, hcount⟩

def twoWaiting : List Event :=
  connects 4 (lit "node1") (lit "NONE") ++
    connects 6 (lit "sub1") (lit "node1/cpu/gen")

theorem registrations_finish_two :
    exists (s : System) (more : List Event) (s' : System),
      runFrom System.step System.initial twoWaiting = some s ∧
        s.stepsLeft = 32 ∧
        runFrom System.stepClosed s more = some s' ∧ s'.AllRegistered := by
  have hrun : exists s,
      runFrom System.step System.initial twoWaiting = some s ∧
        s.stepsLeft = 32 ∧ s.threads.length ≤ LIMIT_CONN_CLIENTS ∧
        s.threads.all (fun th => !s.shared.hungUp th.connfd &&
          decide (2 ≤ (arrivedLines twoWaiting th.connfd).length)) = true :=
    ⟨_, rfl, rfl, by decide, rfl⟩
  rcases hrun with ⟨s, hs, hleft, hroom, hall⟩
  have hwaiting : forall th, th ∈ s.threads ->
      s.shared.hungUp th.connfd = false ∧
        2 ≤ (arrivedLines twoWaiting th.connfd).length := by
    intro th hth
    simpa using List.all_eq_true.mp hall th hth
  have hgreeted : Greeted twoWaiting s :=
    ⟨hs, fun th hth => (hwaiting th hth).left,
      fun th hth => (hwaiting th hth).right, hroom⟩
  rcases (registrations_finish hgreeted).right with ⟨more, s', hmore, hall, _⟩
  exact ⟨s, more, s', hs, hleft, hmore, hall⟩

end Broker
end MQTTv1
