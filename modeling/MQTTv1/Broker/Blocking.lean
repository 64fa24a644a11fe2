import Mathlib.Data.Fintype.EquivFin
import MQTTv1.Broker.Completeness

/-!
# Registrations that wait for a client

The section that `sem_mutex` guards contains the two reads of a handshake.  A
registration that enters it before its lines have arrived holds the mutex until
its client sends them, and everybody else waits.
-/

namespace MQTTv1
namespace Broker

open CLib
open Csapp

/-- So many lines can be read from the descriptor without waiting. -/
def Shared.hasLines (s : Shared) (fd : Fd) (count : Nat) : Bool :=
  s.hungUp fd || decide (count ≤ (s.inbox fd).length)

/-- The lines of its client that a registration in the section has still to read. -/
def Point.linesAhead : Point -> Nat
  | .storeFd | .readName => 2
  | .readSus => 1
  | _ => 0

/-- The thread is in one of the two reads of a handshake and has to wait. -/
def Thread.AwaitsClient (th : Thread) (s : Shared) : Prop :=
  (th.point = .readName ∨ th.point = .readSus) ∧
    s.takeLine th.connfd = none

/--
A client that has sent its handshake is held at `sem_wait(sem_mutex)` by one
that has not.
-/
def System.Blocked (s : System) : Prop :=
  exists (t u : Nat) (th holder : Thread),
    s.threads[t]? = some th ∧ s.threads[u]? = some holder ∧
      th.point = .waitMutex ∧ s.shared.semMutex = 0 ∧
      2 ≤ (s.shared.inbox th.connfd).length ∧ holder.AwaitsClient s.shared

/-- A thread takes the mutex with its lines already there. -/
def System.prompt (s : System) : Event -> Bool
  | .run t _ =>
      match s.threads[t]? with
      | some th =>
          if th.point = .waitMutex then s.shared.hasLines th.connfd 2 else true
      | none => true
  | _ => true

def System.stepPrompt : System -> Event -> Option System :=
  guarded System.prompt System.step

theorem takeLine_none_iff {s : Shared} {fd : Fd} :
    s.takeLine fd = none <-> s.hasLines fd 1 = false := by
  unfold Shared.takeLine Shared.hasLines
  cases hinbox : s.inbox fd with
  | nil => simp
  | cons line rest => simp

theorem Shared.hasLines_mono {s s' : Shared} {fd : Fd} {count : Nat}
    (h : s.hasLines fd count = true)
    (hhungUp : s.hungUp fd = true -> s'.hungUp fd = true)
    (hinbox : (s.inbox fd).length ≤ (s'.inbox fd).length) :
    s'.hasLines fd count = true := by
  unfold Shared.hasLines at h ⊢
  rw [Bool.or_eq_true, decide_eq_true_eq] at h ⊢
  rcases h with hgone | hlines
  · exact Or.inl (hhungUp hgone)
  · exact Or.inr (Nat.le_trans hlines hinbox)

theorem takeLine_hasLines {s s' : Shared} {fd : Fd}
    {line : Option (List Byte)} {count : Nat}
    (hline : s.takeLine fd = some (line, s'))
    (h : s.hasLines fd (count + 1) = true) : s'.hasLines fd count = true := by
  unfold Shared.hasLines at h ⊢
  rw [Bool.or_eq_true, decide_eq_true_eq] at h ⊢
  rcases Shared.takeLine_some hline with
    ⟨bytes, rest, _, hfirst, rfl⟩ | ⟨_, rfl⟩
  · rcases h with hgone | hlines
    · exact Or.inl hgone
    · right
      rw [hfirst] at hlines
      simp only [Function.update_self, List.length_cons] at hlines ⊢
      lia
  · exact h.imp_right fun hlines => by lia

def Thread.readsFrom (th : Thread) : Option Fd :=
  match th.point with
  | .readName | .readSus => some th.connfd
  | .readLine _ => some th.fdPub
  | _ => none

def Point.hasSource : Point -> Bool
  | .findSuscriber _ | .readLine _ => true
  | _ => false

theorem takeLine_frame {s s' : Shared} {fd : Fd}
    {line : Option (List Byte)} (hline : s.takeLine fd = some (line, s')) :
    s'.hungUp = s.hungUp ∧
      forall fd', fd' ≠ fd -> s'.inbox fd' = s.inbox fd' := by
  rcases Shared.takeLine_some hline with ⟨_, rest, _, _, rfl⟩ | ⟨_, rfl⟩
  · exact ⟨rfl, fun fd' hne => Function.update_of_ne hne _ _⟩
  · exact ⟨rfl, fun _ _ => rfl⟩

/-!
# One step
-/

section

variable {th th' : Thread} {s s' : Shared}

theorem Thread.Registers.inbox_frame (h : th.Registers s th' s') :
    s'.hungUp = s.hungUp ∧
      forall fd, th.readsFrom ≠ some fd -> s'.inbox fd = s.inbox fd := by
  cases h with
  | readName hpoint line _ hline | readSus hpoint line _ hline =>
      rcases takeLine_frame hline with ⟨hhungUp, hinbox⟩
      refine ⟨hhungUp, ?_⟩
      intro fd hfd
      apply hinbox
      intro heq
      simp [Thread.readsFrom, hpoint, heq] at hfd
  | postControl hpoint =>
      split
      · exact ⟨rfl, fun _ _ => rfl⟩
      · exact ⟨rfl, fun _ _ => rfl⟩
  | _ => exact ⟨rfl, fun _ _ => rfl⟩

theorem Thread.Forwards.inbox_frame {left : MessageLeftover}
    (h : th.Forwards left s th' s') :
    s'.hungUp = s.hungUp ∧
      forall fd, th.readsFrom ≠ some fd -> s'.inbox fd = s.inbox fd := by
  cases h with
  | readLine i line _ hpoint hline =>
      rcases takeLine_frame hline with ⟨hhungUp, hinbox⟩
      refine ⟨hhungUp, ?_⟩
      intro fd hfd
      apply hinbox
      intro heq
      simp [Thread.readsFrom, hpoint, heq] at hfd
  | _ => exact ⟨rfl, fun _ _ => rfl⟩

theorem Thread.Registers.hasLines (h : th.Registers s th' s')
    (hprompt : th.point = .waitMutex -> s.hasLines th.connfd 2 = true)
    (hlines : s.hasLines th.connfd th.point.linesAhead = true) :
    s'.hasLines th'.connfd th'.point.linesAhead = true := by
  cases h with
  | waitMutex hpoint => exact hprompt hpoint
  | storeFd hpoint =>
      rw [hpoint] at hlines
      exact hlines
  | readName hpoint line _ hline | readSus hpoint line _ hline =>
      rw [hpoint] at hlines
      exact takeLine_hasLines hline hlines
  | storeName hpoint | storeNone hpoint | storeSus hpoint
  | storeTopic k hpoint | topicsDone k hpoint | advance hpoint
  | postControl hpoint | postMutex hpoint =>
      simp [Shared.hasLines, Point.linesAhead]

theorem Thread.Registers.hasSource (h : th.Registers s th' s') :
    th'.point.hasSource = false := by
  cases h <;> rfl

theorem Thread.Forwards.hasSource {left : MessageLeftover}
    (h : th.Forwards left s th' s') (hsource : th'.point.hasSource = true) :
    (th.point.hasSource = true ∧ th'.fdPub = th.fdPub) ∨
      exists name, fdByClientName s.tables name = some th'.fdPub := by
  cases h with
  | findPublisher i fd hpoint hfd => exact Or.inr ⟨th.publisher, hfd⟩
  | findSuscriber i name fd hpoint =>
      left
      rw [hpoint]
      exact ⟨rfl, rfl⟩
  | readLine i line _ hpoint hline =>
      cases line <;> cases hsource
  | _ => cases hsource

theorem Point.linesAhead_of_stage {p : Point} (h : 4 ≤ p.stage) :
    p.linesAhead = 0 := by
  cases p <;> simp_all [Point.linesAhead]

end

/-!
# Every run
-/

structure Prompt (s : System) : Prop where
  registering : Registering s
  connfds : (s.threads.map Thread.connfd).Nodup
  source : forall (t : Nat) th, s.threads[t]? = some th ->
    th.point.hasSource = true ->
      exists name, NamedAt s.threads th.fdPub name
  lines : forall (t : Nat) th, s.threads[t]? = some th ->
    s.shared.hasLines th.connfd th.point.linesAhead = true

theorem prompt_initial : Prompt System.initial where
  registering := registering_initial
  connfds := List.nodup_nil
  source := by
    intro t th hth
    simp [System.initial] at hth
  lines := by
    intro t th hth
    simp [System.initial] at hth

section

variable {s s' : System} {t u : Nat} {th th' other : Thread}

/-- No thread takes the lines that the registration of another one waits for. -/
theorem Prompt.hasLines_other (hs : Prompt s) {shared : Shared}
    (hth : s.threads[t]? = some th) (hother : s.threads[u]? = some other)
    (hut : u ≠ t)
    (hframe : shared.hungUp = s.shared.hungUp ∧
      forall fd, th.readsFrom ≠ some fd -> shared.inbox fd = s.shared.inbox fd) :
    shared.hasLines other.connfd other.point.linesAhead = true := by
  rcases hframe with ⟨hhungUp, hinbox⟩
  by_cases hreads : th.readsFrom = some other.connfd
  · have hahead : other.point.linesAhead = 0 := by
      unfold Thread.readsFrom at hreads
      cases hpoint : th.point with
      | readName | readSus =>
          simp only [hpoint, Option.some.injEq] at hreads
          exact absurd (connfd_inj hs.connfds hother hth hreads.symm) hut
      | readLine i =>
          simp only [hpoint, Option.some.injEq] at hreads
          rcases hs.source t th hth (by rw [hpoint]; rfl) with
            ⟨name, i, row, ⟨v, owner, hv, _, hstage, rfl⟩, _, hfd⟩
          have huv := connfd_inj hs.connfds hother hv
            (hreads.symm.trans hfd.symm)
          rw [huv, hv] at hother
          cases hother
          apply Point.linesAhead_of_stage
          unfold Thread.stage at hstage
          lia
      | _ => simp [hpoint] at hreads
    simp [hahead, Shared.hasLines]
  · apply Shared.hasLines_mono (hs.lines u other hother)
    · intro hgone
      rw [hhungUp]
      exact hgone
    · rw [hinbox _ hreads]

theorem Prompt.of_run (hs : Prompt s) {left : MessageLeftover}
    (hprompt : s.prompt (.run t left) = true)
    (hstep : s.step (.run t left) = some s') : Prompt s' := by
  have hle := ownersView_step hstep
  rcases System.step_run hstep with ⟨th, th', hth, hrun, hthreads⟩
  have hmoves := Thread.step_moves hrun
  have hframe : s'.shared.hungUp = s.shared.hungUp ∧ forall fd,
      th.readsFrom ≠ some fd -> s'.shared.inbox fd = s.shared.inbox fd :=
    hmoves.elim Thread.Registers.inbox_frame Thread.Forwards.inbox_frame
  refine ⟨hs.registering.step hstep, connfds_step hs.connfds hstep, ?_, ?_⟩
  · intro u other hother hsource
    rw [hthreads] at hother
    rcases getElem?_set_cases hth hother with ⟨_, rfl⟩ | ⟨_, hold⟩
    · rcases hmoves with hmove | hmove
      · rw [hmove.hasSource] at hsource
        cases hsource
      · rcases hmove.hasSource hsource with ⟨hbefore, hfd⟩ | ⟨name, hfd⟩
        · rw [hfd]
          exact (hs.source t th hth hbefore).imp fun name => hle.named _ name
        · exact ⟨name, hle.named _ name (OwnerOf.found hs.registering hfd)⟩
    · exact (hs.source u other hold hsource).imp fun name => hle.named _ name
  · intro u other hother
    rw [hthreads] at hother
    rcases getElem?_set_cases hth hother with ⟨_, rfl⟩ | ⟨hut, hold⟩
    · rcases hmoves with hmove | hmove
      · apply hmove.hasLines _ (hs.lines t th hth)
        intro hpoint
        simpa [System.prompt, hth, hpoint] using hprompt
      · have hstage := hmove.keeps.left.stage.right
        unfold Thread.stage at hstage
        simp [Point.linesAhead_of_stage (by lia : 4 ≤ other.point.stage),
          Shared.hasLines]
    · exact hs.hasLines_other hth hold hut hframe

theorem Prompt.step (hs : Prompt s) {e : Event} (hprompt : s.prompt e = true)
    (hstep : s.step e = some s') : Prompt s' := by
  have hregistering := hs.registering.step hstep
  have hconnfds := connfds_step hs.connfds hstep
  have hle := ownersView_step hstep
  cases e with
  | run t left => exact hs.of_run hprompt hstep
  | accept connfd left =>
      change (if _ then none else some _) = some s' at hstep
      split at hstep
      · cases hstep
      · cases hstep
        refine ⟨hregistering, hconnfds, ?_, ?_⟩
        · intro u other hother hsource
          rcases getElem?_append_cases hother with ⟨_, rfl⟩ | hold
          · cases hsource
          · exact (hs.source u other hold hsource).imp fun name =>
              hle.named _ name
        · intro u other hother
          rcases getElem?_append_cases hother with ⟨_, rfl⟩ | hold
          · simp [Thread.start, Point.linesAhead, Shared.hasLines]
          · exact hs.lines u other hold
  | arrive fd line =>
      cases hstep
      refine ⟨hregistering, hconnfds, hs.source, ?_⟩
      intro u other hother
      apply Shared.hasLines_mono (hs.lines u other hother)
      · exact id
      · by_cases hfd : other.connfd = fd
        · simp [hfd]
        · simp [Function.update_of_ne hfd]
  | hangUp fd =>
      cases hstep
      refine ⟨hregistering, hconnfds, hs.source, ?_⟩
      intro u other hother
      apply Shared.hasLines_mono (hs.lines u other hother)
      · intro hgone
        by_cases hfd : other.connfd = fd
        · simp [hfd]
        · simpa [Function.update_of_ne hfd] using hgone
      · exact Nat.le_refl _

theorem Prompt.not_blocked (hs : Prompt s) : ¬ s.Blocked := by
  intro hblocked
  rcases hblocked with
    ⟨t, u, th, holder, _, hholder, _, _, _, hpoint, hwaits⟩
  have hlines := hs.lines u holder hholder
  have hnone := takeLine_none_iff.mp hwaits
  unfold Shared.hasLines at hlines hnone
  rw [Bool.or_eq_true, decide_eq_true_eq] at hlines
  rw [Bool.or_eq_false_iff, decide_eq_false_iff_not] at hnone
  rcases hlines with hgone | hlines
  · rw [hnone.left] at hgone
    cases hgone
  · rcases hpoint with hpoint | hpoint <;>
      simp only [hpoint, Point.linesAhead] at hlines <;> lia

end

/-!
# Every early entry

Whoever takes the mutex too early can be left waiting there, with another client
behind it: nothing but one more connection is needed.
-/

theorem exists_connfd (threads : List Thread) :
    exists connfd, connfd ∉ threads.map Thread.connfd := by
  rcases Infinite.exists_notMem_finset (threads.map Thread.connfd).toFinset with
    ⟨connfd, hfresh⟩
  exact ⟨connfd, fun hmem => hfresh (List.mem_toFinset.mpr hmem)⟩

section

variable {s : System} {u : Nat} {holder : Thread}

theorem stepPrompt_of_run {s' : System} {left : MessageLeftover}
    (hholder : s.threads[u]? = some holder) (hpoint : holder.point ≠ .waitMutex)
    (hstep : s.step (.run u left) = some s') :
    s.stepPrompt (.run u left) = some s' := by
  apply guarded_eq_some.mpr
  refine ⟨?_, hstep⟩
  simp [System.prompt, hholder, hpoint]

/-- While one thread waits for its client another client sends its handshake. -/
theorem blocked_behind (hs : Registering s)
    (hholder : s.threads[u]? = some holder)
    (hwaits : holder.AwaitsClient s.shared) :
    exists s', Reachable System.stepPrompt s s' ∧ s'.Blocked := by
  rcases exists_connfd s.threads with ⟨connfd, hfresh⟩
  have hne : holder.connfd ≠ connfd := by
    intro heq
    apply hfresh
    rw [← heq]
    exact List.mem_map_of_mem (List.mem_of_getElem? hholder)
  have hmutex : s.shared.semMutex = 0 := by
    apply Nat.eq_zero_of_not_pos
    intro hfree
    apply hs.free hfree u holder hholder
    unfold Thread.InSection Thread.stage
    rcases hwaits.left with hpoint | hpoint <;> simp [hpoint]
  let once := Function.update s.shared.inbox connfd
    (s.shared.inbox connfd ++ [[newline]])
  let crowded : System :=
    { shared := { s.shared with
        inbox := Function.update once connfd (once connfd ++ [[newline]]) }
      threads := s.threads ++ [Thread.start connfd cleanLeftover] }
  refine ⟨crowded, ⟨[.accept connfd cleanLeftover, .arrive connfd [newline],
    .arrive connfd [newline]], ?_⟩, ?_⟩
  · simp [runFrom, System.stepPrompt, guarded, System.prompt, System.step,
      hfresh, crowded, once]
  · refine ⟨s.threads.length, u, Thread.start connfd cleanLeftover, holder, ?_,
      ?_, rfl, hmutex, ?_, hwaits.left, ?_⟩
    · simp [crowded]
    · rw [List.getElem?_append_left
        (List.getElem?_eq_some_iff.mp hholder).choose]
      exact hholder
    · simp [Thread.start, crowded, once]
    · have htake := takeLine_none_iff.mp hwaits.right
      apply takeLine_none_iff.mpr
      simpa [Shared.hasLines, crowded, once, Function.update_of_ne hne] using
        htake

theorem blocked_of_missing (hs : Registering s)
    (hholder : s.threads[u]? = some holder)
    (hroom : s.shared.tables.fdIdx < LIMIT_CONN_CLIENTS)
    (hpoint : holder.point = .storeFd)
    (hmissing : s.shared.hasLines holder.connfd 2 = false) :
    exists s', Reachable System.stepPrompt s s' ∧ s'.Blocked := by
  unfold Shared.hasLines at hmissing
  rw [Bool.or_eq_false_iff, decide_eq_false_iff_not] at hmissing
  rcases hmissing with ⟨hopen, hfew⟩
  let reading : Thread :=
    { holder with point := .readName, row := s.shared.tables.fdIdx }
  let stored : System :=
    { shared := { s.shared with
        tables := s.shared.tables.storeFd holder.connfd }
      threads := s.threads.set u reading }
  have hstored : s.step (.run u cleanMessageLeftover) = some stored := by
    simp [System.step, hholder, Thread.step, hpoint, hroom, stored, reading]
  have hreading : stored.threads[u]? = some reading :=
    getElem?_set_self hholder reading
  have hregistering : Registering stored := hs.step hstored
  have hfirst := stepPrompt_of_run hholder (by rw [hpoint]; exact nofun) hstored
  cases hinbox : s.shared.inbox holder.connfd with
  | nil =>
      have hwaits : reading.AwaitsClient stored.shared := by
        refine ⟨Or.inl rfl, ?_⟩
        simp [Shared.takeLine, stored, reading, hinbox, hopen]
      rcases blocked_behind hregistering hreading hwaits with
        ⟨s', hreach, hblocked⟩
      exact ⟨s', Reachable.head hfirst hreach, hblocked⟩
  | cons line rest =>
      have hrest : rest = [] := by
        rw [hinbox, List.length_cons] at hfew
        exact List.length_eq_zero_iff.mp (by lia)
      let waiting : Thread :=
        { reading with
          point := .readSus, bufNodeName := reading.nodeName (some line) }
      let named : System :=
        { shared := { stored.shared with
            inbox := Function.update stored.shared.inbox holder.connfd []
            taken := Function.update stored.shared.taken holder.connfd
              (stored.shared.taken holder.connfd + 1) }
          threads := stored.threads.set u waiting }
      have hnamed : stored.step (.run u cleanMessageLeftover) = some named := by
        simp [System.step, hreading, Thread.step, Shared.takeLine, stored,
          reading, hinbox, hrest, named, waiting]
      have hwaiting : named.threads[u]? = some waiting :=
        getElem?_set_self hreading waiting
      have hwaits : waiting.AwaitsClient named.shared := by
        refine ⟨Or.inr rfl, ?_⟩
        simp [Shared.takeLine, named, stored, waiting, reading, hopen]
      rcases blocked_behind (hregistering.step hnamed) hwaiting hwaits with
        ⟨s', hreach, hblocked⟩
      have hsecond := stepPrompt_of_run hreading nofun hnamed
      exact ⟨s', Reachable.head hfirst (Reachable.head hsecond hreach), hblocked⟩

end

/--
If threads take the mutex only when their lines are there, no client that has
sent its handshake is held by one that has not; and behind every step that
breaks this rule there is a run on which one is.
-/
theorem handshakes_unblocked {s : System}
    (hreach : Reachable System.stepPrompt System.initial s) :
    ¬ s.Blocked ∧
      forall e early, s.step e = some early -> s.prompt e = false ->
        s.shared.tables.fdIdx < LIMIT_CONN_CLIENTS ->
          exists s', Reachable System.stepPrompt early s' ∧ s'.Blocked := by
  have hs : Prompt s := by
    apply hreach.invariant prompt_initial
    intro s e s' hs hstep
    rcases guarded_eq_some.mp hstep with ⟨hprompt, hrun⟩
    exact hs.step hprompt hrun
  refine ⟨hs.not_blocked, ?_⟩
  intro e early hstep hearly hroom
  cases e with
  | accept connfd left | arrive fd line | hangUp fd => cases hearly
  | run t left =>
      rcases System.step_run hstep with ⟨th, th', hth, hrun, hthreads⟩
      simp only [System.prompt, hth] at hearly
      split at hearly
      · have hpoint : th.point = .waitMutex := ‹_›
        have hentered := getElem?_set_self hth th'
        rw [← hthreads] at hentered
        simp only [Thread.step, hpoint] at hrun
        split at hrun
        · rcases Prod.mk.inj (Option.some.inj hrun) with ⟨hth', hshared⟩
          apply blocked_of_missing (hs.registering.step hstep) hentered
          · rw [← hshared]
            exact hroom
          · rw [← hth']
          · rw [← hth', ← hshared]
            exact hearly
        · cases hrun
      · cases hearly

def silentClient : List Event :=
  [.accept 4 cleanLeftover] ++ connects 5 (lit "node1") (lit "NONE")

/-- The silent client's thread is the first in the section. -/
theorem blocked_by_silent_client :
    exists s, Reachable System.step System.initial s ∧ s.Blocked := by
  refine ⟨_, ⟨silentClient ++ runs 0 2, rfl⟩, 1, 0, _, _, rfl, rfl, rfl, rfl,
    ?_, Or.inl rfl, rfl⟩
  decide

/-- The client that is ready registers, the silent one is not let in yet. -/
theorem unblocked_behind_silent_client :
    exists s early, Reachable System.stepPrompt System.initial s ∧
      ¬ s.Blocked ∧ s.shared.tables.fdIdx = 1 ∧
      s.step (.run 0 cleanMessageLeftover) = some early ∧
      exists s', Reachable System.stepPrompt early s' ∧ s'.Blocked := by
  have hrun :
      exists s early,
        runFrom System.stepPrompt System.initial (silentClient ++ runs 1 9) =
          some s ∧
        s.shared.tables.fdIdx = 1 ∧
        s.step (.run 0 cleanMessageLeftover) = some early ∧
        s.prompt (.run 0 cleanMessageLeftover) = false :=
    ⟨_, _, rfl, rfl, rfl, rfl⟩
  rcases hrun with ⟨s, early, hs, hrows, hstep, hearly⟩
  rcases handshakes_unblocked ⟨_, hs⟩ with ⟨hfree, hblocks⟩
  have hroom : s.shared.tables.fdIdx < LIMIT_CONN_CLIENTS := by
    rw [hrows]
    decide
  exact ⟨s, early, ⟨_, hs⟩, hfree, hrows, hstep, hblocks _ early hstep hearly
    hroom⟩

end Broker
end MQTTv1
