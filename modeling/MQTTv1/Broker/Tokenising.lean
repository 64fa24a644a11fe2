import MQTTv1.CLib.Runs
import MQTTv1.CLib.Strtok

/-!
# Threads that tokenise

`split` calls `strtok` until it returns NULL, and all threads of the broker share
the one continuation pointer of `strtok`.  A step of the system below is one such
call of one thread.
-/

namespace MQTTv1
namespace Broker

open CLib

inductive SplitPhase where
  | notCalled
  | scanning
  | returned
deriving DecidableEq, Repr

/-- A thread in `split`: its arguments and the tokens it has stored in `argv`. -/
structure Splitting where
  linea : CStr
  delim : CStr
  argv : List CStr
  phase : SplitPhase
deriving DecidableEq, Repr

def Splitting.enter (linea delim : CStr) : Splitting where
  linea := linea
  delim := delim
  argv := []
  phase := .notCalled

/-- The body of the loop: what `split` does with the result of a call. -/
def Splitting.store (th : Splitting) :
    Option CStr × CStr -> Splitting × CStr
  | (some token, saved) =>
      ({ th with argv := th.argv ++ [token], phase := .scanning }, saved)
  | (none, saved) => ({ th with phase := .returned }, saved)

/-- The first call passes the line, the others pass NULL. -/
def Splitting.call (th : Splitting) (saved : CStr) :
    Option (Splitting × CStr) :=
  match th.phase with
  | .notCalled => some (th.store (strtok th.delim th.linea))
  | .scanning => some (th.store (strtok th.delim saved))
  | .returned => none

structure Tokeniser where
  /-- What the continuation pointer points to. -/
  saved : CStr
  threads : List Splitting
deriving DecidableEq, Repr

def Tokeniser.initial (jobs : List (CStr × CStr)) : Tokeniser where
  saved := []
  threads := jobs.map fun job => Splitting.enter job.1 job.2

/-- Thread `t` has made a call with the given result. -/
def Tokeniser.after (s : Tokeniser) (t : Nat) (result : Splitting × CStr) :
    Tokeniser where
  saved := result.2
  threads := s.threads.set t result.1

def Tokeniser.step (s : Tokeniser) (t : Nat) : Option Tokeniser :=
  match s.threads[t]? with
  | none => none
  | some th =>
      match th.call s.saved with
      | none => none
      | some result => some (s.after t result)

/-- No thread but `t` is between two calls of its `split`. -/
def Tokeniser.undisturbed (s : Tokeniser) (t : Nat) : Bool :=
  (List.range s.threads.length).all fun u =>
    u = t || (s.threads[u]?).map Splitting.phase ≠ some .scanning

theorem Tokeniser.undisturbed_iff {s : Tokeniser} {t : Nat} :
    s.undisturbed t = true <->
      forall u th, s.threads[u]? = some th -> u ≠ t ->
        th.phase ≠ .scanning := by
  unfold Tokeniser.undisturbed
  rw [List.all_eq_true]
  constructor
  · intro h u th hth hut
    have hu := (List.getElem?_eq_some_iff.mp hth).choose
    have hall := h u (List.mem_range.mpr hu)
    rw [hth] at hall
    simpa [hut] using hall
  · intro h u hu
    have hth := List.getElem?_eq_getElem (List.mem_range.mp hu)
    rw [hth]
    by_cases hut : u = t
    · simp [hut]
    · simpa [hut] using h u _ hth hut

/-- What a step does: one thread takes the result of its call. -/
theorem Tokeniser.step_cases {s s' : Tokeniser} {t : Nat}
    (h : s.step t = some s') :
    exists th th',
      s.threads[t]? = some th ∧ th.call s.saved = some (th', s'.saved) ∧
        s'.threads = s.threads.set t th' := by
  unfold Tokeniser.step at h
  cases hth : s.threads[t]? with
  | none =>
      rw [hth] at h
      cases h
  | some th =>
      rw [hth] at h
      simp only at h
      cases hcall : th.call s.saved with
      | none =>
          rw [hcall] at h
          cases h
      | some result =>
          rcases result with ⟨th', saved⟩
          rw [hcall] at h
          cases h
          exact ⟨th, th', rfl, hcall, rfl⟩

/-!
# Undisturbed splits
-/

def Splitting.OnTrack (th : Splitting) (saved : CStr) : Prop :=
  match th.phase with
  | .notCalled => th.argv = []
  | .scanning =>
      th.argv ++ tokensOf th.delim saved = tokensOf th.delim th.linea
  | .returned => th.argv = tokensOf th.delim th.linea

theorem Splitting.onTrack_of_not_scanning {th : Splitting} {saved : CStr}
    (h : th.OnTrack saved) (hphase : th.phase ≠ .scanning) (saved' : CStr) :
    th.OnTrack saved' := by
  unfold Splitting.OnTrack at h ⊢
  cases hcase : th.phase with
  | notCalled =>
      rw [hcase] at h
      exact h
  | scanning => exact absurd hcase hphase
  | returned =>
      rw [hcase] at h
      exact h

theorem Splitting.store_onTrack {th th' : Splitting} {src saved : CStr}
    (hsrc : th.argv ++ tokensOf th.delim src = tokensOf th.delim th.linea)
    (h : th.store (strtok th.delim src) = (th', saved)) :
    th'.OnTrack saved ∧ th'.linea = th.linea ∧ th'.delim = th.delim := by
  rcases hcall : strtok th.delim src with ⟨_ | token, rest⟩
  · rw [hcall] at h
    cases h
    rw [tokensOf_of_strtok_none hcall, List.append_nil] at hsrc
    exact ⟨hsrc, rfl, rfl⟩
  · rw [hcall] at h
    cases h
    rw [tokensOf_of_strtok_some hcall] at hsrc
    refine ⟨?_, rfl, rfl⟩
    show (th.argv ++ [token]) ++ tokensOf th.delim _ = _
    rw [List.append_assoc]
    exact hsrc

theorem Splitting.call_onTrack {th th' : Splitting} {saved saved' : CStr}
    (hth : th.OnTrack saved) (h : th.call saved = some (th', saved')) :
    th'.OnTrack saved' ∧ th'.linea = th.linea ∧ th'.delim = th.delim := by
  unfold Splitting.call at h
  unfold Splitting.OnTrack at hth
  cases hphase : th.phase with
  | notCalled =>
      rw [hphase] at h hth
      apply Splitting.store_onTrack _ (Option.some.inj h)
      rw [show th.argv = [] from hth, List.nil_append]
  | scanning =>
      rw [hphase] at h hth
      exact Splitting.store_onTrack hth (Option.some.inj h)
  | returned =>
      rw [hphase] at h
      cases h

/-- The threads work on the given jobs and none has met a foreign token. -/
structure Isolated (jobs : List (CStr × CStr)) (s : Tokeniser) : Prop where
  jobs : forall t : Nat,
    (s.threads[t]?).map (fun th => (th.linea, th.delim)) = jobs[t]?
  onTrack : forall (t : Nat) th, s.threads[t]? = some th ->
    th.OnTrack s.saved

theorem isolated_initial (jobs : List (CStr × CStr)) :
    Isolated jobs (Tokeniser.initial jobs) := by
  constructor
  · intro t
    simp [Tokeniser.initial, Splitting.enter, Function.comp_def]
  · intro t th hth
    rw [Tokeniser.initial, List.getElem?_map] at hth
    rcases Option.map_eq_some_iff.mp hth with ⟨job, _, rfl⟩
    rfl

theorem Isolated.step {jobs : List (CStr × CStr)} {s s' : Tokeniser} {t : Nat}
    (hs : Isolated jobs s) (hquiet : s.undisturbed t = true)
    (hstep : s.step t = some s') : Isolated jobs s' := by
  rcases Tokeniser.step_cases hstep with ⟨th, th', hth, hcall, hthreads⟩
  rcases Splitting.call_onTrack (hs.onTrack t th hth) hcall with
    ⟨htrack, hlinea, hdelim⟩
  constructor
  · intro u
    rw [hthreads, getElem?_set_of_some hth, <- hs.jobs u]
    split
    · rename_i hut
      rw [hut, hth, Option.map_some, Option.map_some, hlinea, hdelim]
    · rfl
  · intro u other hother
    rw [hthreads, getElem?_set_of_some hth] at hother
    split at hother
    · cases hother
      exact htrack
    · rename_i hut
      have hphase := Tokeniser.undisturbed_iff.mp hquiet u other hother hut
      exact Splitting.onTrack_of_not_scanning (hs.onTrack u other hother)
        hphase s'.saved

theorem Splitting.OnTrack.tokens {th : Splitting} {saved : CStr}
    (h : th.OnTrack saved) :
    (exists later, th.argv ++ later = tokensOf th.delim th.linea) ∧
      (th.phase = .returned -> th.argv = tokensOf th.delim th.linea) := by
  unfold Splitting.OnTrack at h
  cases hphase : th.phase with
  | notCalled =>
      rw [hphase] at h
      constructor
      · refine ⟨tokensOf th.delim th.linea, ?_⟩
        rw [show th.argv = [] from h, List.nil_append]
      · intro hreturned
        cases hreturned
  | scanning =>
      rw [hphase] at h
      constructor
      · exact ⟨_, h⟩
      · intro hreturned
        cases hreturned
  | returned =>
      rw [hphase] at h
      constructor
      · exact ⟨[], by rw [List.append_nil]; exact h⟩
      · intro _
        exact h

/-!
A `split` that nobody interrupts makes one call for each token and one more.
-/

theorem Tokeniser.step_call {s : Tokeniser} {t : Nat} {th : Splitting}
    {result : Splitting × CStr} (hth : s.threads[t]? = some th)
    (hcall : th.call s.saved = some result) :
    s.step t = some (s.after t result) := by
  unfold Tokeniser.step
  rw [hth]
  simp only
  rw [hcall]

theorem Tokeniser.after_thread {s : Tokeniser} {t : Nat} {th : Splitting}
    (hth : s.threads[t]? = some th) (result : Splitting × CStr) :
    (s.after t result).threads[t]? = some result.1 := by
  rw [Tokeniser.after, getElem?_set_self hth]

theorem split_returns :
    forall {n : Nat} {src : CStr} {s : Tokeniser} {t : Nat} {th : Splitting},
      s.threads[t]? = some th -> (tokensOf th.delim src).length = n ->
      th.call s.saved = some (th.store (strtok th.delim src)) ->
      exists s' th',
        runFrom Tokeniser.step s (List.replicate (n + 1) t) = some s' ∧
          s'.threads[t]? = some th' ∧ th'.phase = .returned ∧
          th'.argv = th.argv ++ tokensOf th.delim src := by
  intro n
  induction n with
  | zero =>
      intro src s t th hth hn hcall
      rcases hstrtok : strtok th.delim src with ⟨_ | token, rest⟩
      · rw [hstrtok] at hcall
        have hrun :
            runFrom Tokeniser.step s [t] =
              some (s.after t (th.store (none, rest))) := by
          rw [runFrom, Tokeniser.step_call hth hcall]
          rfl
        refine ⟨_, _, hrun, Tokeniser.after_thread hth _, rfl, ?_⟩
        rw [tokensOf_of_strtok_none hstrtok, List.append_nil]
        rfl
      · rw [tokensOf_of_strtok_some hstrtok] at hn
        cases hn
  | succ n ih =>
      intro src s t th hth hn hcall
      rcases hstrtok : strtok th.delim src with ⟨_ | token, rest⟩
      · rw [tokensOf_of_strtok_none hstrtok] at hn
        cases hn
      · rw [hstrtok] at hcall
        rw [tokensOf_of_strtok_some hstrtok] at hn ⊢
        have hthread := Tokeniser.after_thread hth (th.store (some token, rest))
        rcases ih hthread (Nat.succ.inj hn) rfl with
          ⟨s', th', hrun, hth', hphase, hargv⟩
        refine ⟨s', th', ?_, hth', hphase, ?_⟩
        · rw [List.replicate_succ, runFrom, Tokeniser.step_call hth hcall]
          exact hrun
        · rw [hargv]
          exact List.append_assoc th.argv [token] _

theorem split_alone {s : Tokeniser} {t : Nat} {th : Splitting}
    (hth : s.threads[t]? = some th) (hphase : th.phase = .notCalled)
    (hargv : th.argv = []) :
    exists s' th',
      runFrom Tokeniser.step s
          (List.replicate ((tokensOf th.delim th.linea).length + 1) t) =
        some s' ∧
        s'.threads[t]? = some th' ∧ th'.phase = .returned ∧
        th'.argv = tokensOf th.delim th.linea := by
  have hcall :
      th.call s.saved = some (th.store (strtok th.delim th.linea)) := by
    unfold Splitting.call
    rw [hphase]
  have hreturns := split_returns hth rfl hcall
  rw [hargv] at hreturns
  exact hreturns

/--
If no thread calls `strtok` between two calls of another thread's `split`, every
`split` stores the tokens of its own line for its own delimiter, in order, and
returns with all of them.
-/
theorem split_isolated {jobs : List (CStr × CStr)} {s : Tokeniser}
    (hrun : Reachable (guarded Tokeniser.undisturbed Tokeniser.step)
      (Tokeniser.initial jobs) s)
    {t : Nat} {linea delim : CStr} {th : Splitting}
    (hjob : jobs[t]? = some (linea, delim)) (hth : s.threads[t]? = some th) :
    (exists later, th.argv ++ later = tokensOf delim linea) ∧
      (th.phase = .returned -> th.argv = tokensOf delim linea) := by
  have hinv : Isolated jobs s := by
    apply hrun.invariant (isolated_initial jobs)
    intro s t s' hs hstep
    rcases guarded_eq_some.mp hstep with ⟨hquiet, hcall⟩
    exact hs.step hquiet hcall
  have hown := hinv.jobs t
  rw [hth, hjob] at hown
  cases hown
  exact (hinv.onTrack t th hth).tokens

def twoJobs : List (CStr × CStr) :=
  [(lit "node1/cpu/gen", lit "/"), (lit "293,290,0" ++ [newline], lit ",")]

/-- The registration continues behind the forwarder's first token. -/
theorem split_takes_foreign_token :
    exists s th,
      Reachable Tokeniser.step (Tokeniser.initial twoJobs) s ∧
        s.threads[0]? = some th ∧ th.phase = .returned ∧
        th.argv = [lit "node1", lit "290,0" ++ [newline]] ∧
        th.argv ≠ tokensOf (lit "/") (lit "node1/cpu/gen") := by
  refine ⟨_, _, ⟨[0, 1, 0, 0], rfl⟩, rfl, rfl, rfl, ?_⟩
  decide

theorem split_isolated_in_turn :
    exists s th,
      Reachable (guarded Tokeniser.undisturbed Tokeniser.step)
          (Tokeniser.initial twoJobs) s ∧
        s.threads[1]? = some th ∧
        th.argv = tokensOf (lit ",") (lit "293,290,0" ++ [newline]) := by
  have hrun :
      exists s,
        runFrom (guarded Tokeniser.undisturbed Tokeniser.step)
            (Tokeniser.initial twoJobs) [0, 0, 0, 0, 1, 1, 1, 1] = some s ∧
          (s.threads[1]?).map Splitting.phase = some .returned :=
    ⟨_, rfl, rfl⟩
  rcases hrun with ⟨s, hs, hphase⟩
  rcases Option.map_eq_some_iff.mp hphase with ⟨th, hth, hreturned⟩
  exact ⟨s, th, ⟨_, hs⟩, hth,
    (split_isolated ⟨_, hs⟩ rfl hth).right hreturned⟩

end Broker
end MQTTv1
