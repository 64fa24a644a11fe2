import MQTTv1.Broker.Admission
import MQTTv1.Broker.Completeness

/-!
# Alignment of the tables

Runs of fewer clients than the arrays have slots, with two variables of history:
the order in which the threads took the mutex and the lines that have arrived on
every descriptor.  What the four arrays hold at one index stems from the client
whose turn it was, and nobody ever touches it again.
-/

namespace MQTTv1
namespace Broker

open CLib
open Csapp

structure Recorded where
  system : System
  /-- The threads in the order in which they took `sem_mutex`. -/
  acquired : List Nat
  arrived : Fd -> List (List Byte)

def Recorded.initial : Recorded where
  system := System.initial
  acquired := []
  arrived := fun _ => []

def System.acquires (s : System) : StrayEvent -> List Nat
  | .event (.run t _) =>
      match s.threads[t]? with
      | some th => if th.point = .waitMutex then [t] else []
      | none => []
  | _ => []

def recordArrival (arrived : Fd -> List (List Byte)) :
    StrayEvent -> Fd -> List (List Byte)
  | .event (.arrive fd line) =>
      Function.update arrived fd (arrived fd ++ [line])
  | _ => arrived

def Recorded.step (r : Recorded) (e : StrayEvent) : Option Recorded :=
  (r.system.stepStray e).map fun s =>
    { system := s
      acquired := r.acquired ++ r.system.acquires e
      arrived := recordArrival r.arrived e }

/-- A subscription line is NONE or has at least a node name. -/
def hasNode (susInfo : CStr) : Bool :=
  isNone susInfo || decide (tokensOf (lit "/") susInfo ≠ [])

def Thread.wellSent (th : Thread) (s : Shared) : Bool :=
  match th.point, s.inbox th.connfd with
  | .readName, line :: _ => decide (stringOf line ≠ [])
  | .readSus, line :: _ => hasNode (chop (stringOf line))
  | .readName, [] => false
  | .readSus, [] => false
  | _, _ => true

def Recorded.wellSent (r : Recorded) : StrayEvent -> Bool
  | .event (.accept _ _) =>
      decide (r.system.threads.length + 1 < LIMIT_CONN_CLIENTS)
  | .event (.run t _) =>
      match r.system.threads[t]? with
      | some th => th.wellSent r.system.shared
      | none => true
  | _ => true

/-- The runs of fewer clients than slots, each with a proper handshake. -/
def Recorded.stepWell : Recorded -> StrayEvent -> Option Recorded :=
  guarded Recorded.wellSent Recorded.step

/-!
# What is to hold
-/

def subscribedTo (susInfo : CStr) : CStr :=
  if isNone susInfo then susInfo
  else (tokensOf (lit "/") susInfo).headD []

/-- Row `i` holds what one connection has sent, and its descriptor. -/
structure RowOf (t : Tables) (i : Nat) (th : Thread)
    (arrived : List (List Byte)) : Prop where
  fd : t.clientFdList i = th.connfd
  lines : exists name sus, [name, sus].Sublist arrived ∧
    t.clientNameList i = some (chop (stringOf name)) ∧
    t.clientSusList i = some (subscribedTo (chop (stringOf sus))) ∧
    (isNone (chop (stringOf sus)) = false -> forall k, k < TOPICS_NUMBER ->
      t.topicList i k = subscribedMask (chop (stringOf sus)) th.left k)

structure Aligned (r : Recorded) : Prop where
  /-- As many rows as turns, row by row. -/
  turns : r.acquired.length = r.system.shared.tables.fdIdx
  rows : forall (i u : Nat), r.acquired[i]? = some u ->
    exists th, r.system.threads[u]? = some th ∧
      RowOf r.system.shared.tables i th (r.arrived th.connfd)
  connections : forall i k, i < r.system.shared.tables.fdIdx ->
    k < r.system.shared.tables.fdIdx ->
    r.system.shared.tables.clientFdList i =
      r.system.shared.tables.clientFdList k -> i = k
  empty : forall i, r.system.shared.tables.fdIdx ≤ i ->
    r.system.shared.tables.clientNameList i = none ∧
      r.system.shared.tables.clientSusList i = none

/-!
# Handshakes
-/

structure Thread.Handshake (th : Thread) (arrived inbox : List (List Byte)) :
    Prop where
  name : th.stage = 3 -> exists name,
    th.bufNodeName = chop (stringOf name) ∧ (name :: inbox).Sublist arrived
  both : 4 ≤ th.stage -> exists name sus, [name, sus].Sublist arrived ∧
    th.bufNodeName = chop (stringOf name) ∧
    th.bufSusInfo = chop (stringOf sus) ∧ hasNode (chop (stringOf sus)) = true

section

variable {th th' : Thread} {arrived inbox inbox' : List (List Byte)}

theorem Thread.Handshake.shrinks (h : th.Handshake arrived inbox)
    (hinbox : inbox'.Sublist inbox) : th.Handshake arrived inbox' where
  name := by
    intro hstage
    rcases h.name hstage with ⟨name, hname, hsub⟩
    exact ⟨name, hname, (List.Sublist.cons_cons name hinbox).trans hsub⟩
  both := h.both

theorem Thread.Handshake.arrives (h : th.Handshake arrived inbox)
    (line : List Byte) :
    th.Handshake (arrived ++ [line]) (inbox ++ [line]) where
  name := by
    intro hstage
    rcases h.name hstage with ⟨name, hname, hsub⟩
    exact ⟨name, hname, hsub.append (List.Sublist.refl [line])⟩
  both := by
    intro hstage
    rcases h.both hstage with ⟨name, sus, hsub, hlines⟩
    exact ⟨name, sus, hsub.trans (List.sublist_append_left _ _), hlines⟩

theorem Thread.Handshake.early (hstage : th.stage ≤ 2) :
    th.Handshake arrived inbox where
  name := by
    intro heq
    lia
  both := by
    intro hle
    lia

end

theorem takeLine_inbox {s s' : Shared} {fd : Fd} {line : Option (List Byte)}
    (h : s.takeLine fd = some (line, s')) :
    (s.inbox fd = [] ∧ line = none ∧ s' = s) ∨
      exists bytes rest, s.inbox fd = bytes :: rest ∧ line = some bytes ∧
        s'.inbox = Function.update s.inbox fd rest := by
  unfold Shared.takeLine at h
  cases hinbox : s.inbox fd with
  | nil =>
      rw [hinbox] at h
      simp only at h
      split at h
      · cases h
        exact Or.inl ⟨rfl, rfl, rfl⟩
      · cases h
  | cons bytes rest =>
      rw [hinbox] at h
      cases h
      exact Or.inr ⟨bytes, rest, rfl, rfl, rfl⟩

theorem takeLine_sublist {s s' : Shared} {fd : Fd} {line : Option (List Byte)}
    (h : s.takeLine fd = some (line, s')) (fd' : Fd) :
    (s'.inbox fd').Sublist (s.inbox fd') := by
  rcases takeLine_inbox h with ⟨_, _, rfl⟩ | ⟨bytes, rest, hfirst, _, hinbox⟩
  · exact List.Sublist.refl _
  · rw [hinbox]
    by_cases hfd : fd' = fd
    · rw [hfd, Function.update_self, hfirst]
      exact List.sublist_cons_self bytes rest
    · rw [Function.update_of_ne hfd]

theorem Thread.Registers.inbox_sublist {th th' : Thread} {s s' : Shared}
    (h : th.Registers s th' s') (fd : Fd) :
    (s'.inbox fd).Sublist (s.inbox fd) := by
  cases h with
  | readName hpoint line _ hline | readSus hpoint line _ hline =>
      exact takeLine_sublist hline fd
  | postControl hpoint =>
      split
      · exact List.Sublist.refl _
      · exact List.Sublist.refl _
  | waitMutex hpoint | storeFd hpoint | storeName hpoint | storeNone hpoint
  | storeSus hpoint | storeTopic k hpoint | topicsDone k hpoint
  | advance hpoint | postMutex hpoint => exact List.Sublist.refl _

theorem Thread.Forwards.inbox_sublist {th th' : Thread}
    {left : MessageLeftover} {s s' : Shared} (h : th.Forwards left s th' s')
    (fd : Fd) : (s'.inbox fd).Sublist (s.inbox fd) := by
  cases h with
  | readLine i line _ hpoint hline => exact takeLine_sublist hline fd
  | _ => exact List.Sublist.refl _

theorem Thread.Handshake.later {th th' : Thread}
    {arrived inbox inbox' : List (List Byte)} (h : th.Handshake arrived inbox)
    (hstage : 4 ≤ th.stage) (hle : th.stage ≤ th'.stage)
    (hname : th'.bufNodeName = th.bufNodeName)
    (hsus : th'.bufSusInfo = th.bufSusInfo) :
    th'.Handshake arrived inbox' where
  name := by
    intro heq
    lia
  both := by
    intro _
    rw [hname, hsus]
    exact h.both hstage

theorem Thread.Registers.handshake {th th' : Thread} {s s' : Shared}
    {arrived : List (List Byte)} (h : th.Registers s th' s')
    (hsent : th.wellSent s = true)
    (hinbox : (s.inbox th.connfd).Sublist arrived)
    (hs : th.Handshake arrived (s.inbox th.connfd)) :
    th'.Handshake arrived (s'.inbox th'.connfd) := by
  have hle := h.stage_le.right
  have hkept := h.inbox_sublist th.connfd
  unfold Thread.wellSent at hsent
  cases h with
  | waitMutex hpoint | storeFd hpoint =>
      apply Thread.Handshake.early
      simp [Thread.stage]
  | readName hpoint line _ hline =>
      rw [hpoint] at hsent
      rcases takeLine_inbox hline with
        ⟨hempty, _⟩ | ⟨bytes, rest, hfirst, rfl, hrest⟩
      · rw [hempty] at hsent
        cases hsent
      · constructor
        · intro _
          refine ⟨bytes, rfl, ?_⟩
          rw [hrest, Function.update_self, ← hfirst]
          exact hinbox
        · intro hstage
          simp [Thread.stage] at hstage
  | readSus hpoint line _ hline =>
      rw [hpoint] at hsent
      rcases takeLine_inbox hline with
        ⟨hempty, _⟩ | ⟨bytes, rest, hfirst, rfl, _⟩
      · rw [hempty] at hsent
        cases hsent
      · rw [hfirst] at hsent
        rcases hs.name (by simp [Thread.stage, hpoint]) with
          ⟨name, hname, hsub⟩
        constructor
        · intro hstage
          simp [Thread.stage] at hstage
        · intro _
          rw [hfirst] at hsub
          refine ⟨name, bytes, ?_, hname, rfl, hsent⟩
          have hpair : [name, bytes].Sublist (name :: bytes :: rest) :=
            List.sublist_append_left [name, bytes] rest
          exact hpair.trans hsub
  | storeName hpoint | storeNone hpoint | storeSus hpoint | storeTopic k hpoint
  | topicsDone k hpoint | advance hpoint | postControl hpoint
  | postMutex hpoint =>
      apply hs.later
      · simp only [Thread.stage, hpoint, Point.stage]
        lia
      · exact hle
      · rfl
      · rfl

/-!
# Turns
-/

/-- The thread had the `k`-th turn at the mutex. -/
structure Thread.Turn (th : Thread) (fdIdx k : Nat) : Prop where
  started : 1 ≤ th.stage
  next : th.stage = 1 -> k = fdIdx
  row : 2 ≤ th.stage -> th.row = k

theorem Thread.Registers.turn {th th' : Thread} {s s' : Shared} {k : Nat}
    (h : th.Registers s th' s') (hturn : th.Turn s.tables.fdIdx k) :
    th'.Turn s'.tables.fdIdx k := by
  rcases hturn with ⟨hstarted, hnext, hrow⟩
  have hle := h.stage_le.right
  constructor
  · lia
  · intro hstage
    have hone : th.stage = 1 := by lia
    have hadvanced : 2 ≤ th'.stage := by
      cases h with
      | waitMutex hpoint => simp [Thread.stage, hpoint] at hone
      | storeTopic k hpoint | topicsDone k hpoint =>
          simp only [Thread.stage, Point.stage]
          lia
      | _ => simp [Thread.stage]
    lia
  · intro hstage
    rcases Nat.lt_or_ge th.stage 2 with hearly | hlate
    · rw [h.row_new hearly hstage]
      exact (hnext (by lia)).symm
    · rw [h.row_eq hlate]
      exact hrow hlate

theorem waitMutex_iff {th : Thread} :
    th.point = .waitMutex <-> th.stage = 0 := by
  unfold Thread.stage
  cases th.point with
  | storeTopic k =>
      simp only [Point.stage, reduceCtorEq, false_iff]
      lia
  | _ => simp

theorem Thread.Registers.takesMutex {th th' : Thread} {s s' : Shared}
    (h : th.Registers s th' s') (hpoint : th.point = .waitMutex) :
    0 < s.semMutex ∧ th'.stage = 1 ∧ s'.tables.fdIdx = s.tables.fdIdx := by
  rcases h.mutex with ⟨_, hone, hfree, _⟩ | ⟨hstage, _⟩ | ⟨hin, _⟩
  · refine ⟨hfree, hone, ?_⟩
    cases h with
    | waitMutex _ _ => rfl
    | _ => simp_all
  · rw [waitMutex_iff.mp hpoint] at hstage
    cases hstage
  · have hstarted := hin.left
    rw [waitMutex_iff.mp hpoint] at hstarted
    cases hstarted

theorem Thread.Keeps.turn {th th' : Thread} {fdIdx k : Nat}
    (h : th.Keeps th') (hturn : th.Turn fdIdx k) : th'.Turn fdIdx k where
  started := by
    rw [h.stage.right]
    lia
  next := by
    intro hone
    rw [h.stage.right] at hone
    lia
  row := by
    intro _
    rw [h.row]
    exact hturn.row (by rw [h.stage.left]; lia)

/-- Outside the section a turn does not depend on the counter. -/
theorem Thread.Turn.outside {th : Thread} {fdIdx fdIdx' k : Nat}
    (h : th.Turn fdIdx k) (hout : ¬ th.InSection) : th.Turn fdIdx' k where
  started := h.started
  next := by
    intro hone
    unfold Thread.InSection at hout
    lia
  row := h.row

/-!
# Every run
-/

structure Recording (r : Recorded) : Prop where
  registering : Registering r.system
  gate : GateLaw 2 r.system.phases r.system.shared.counters
  few : r.system.threads.length < LIMIT_CONN_CLIENTS
  connfds : (r.system.threads.map Thread.connfd).Nodup
  inbox : forall fd, (r.system.shared.inbox fd).Sublist (r.arrived fd)
  handshake : forall (t : Nat) th, r.system.threads[t]? = some th ->
    th.Handshake (r.arrived th.connfd) (r.system.shared.inbox th.connfd)
  turn : forall (k u : Nat), r.acquired[k]? = some u ->
    exists th : Thread, r.system.threads[u]? = some th ∧
      th.Turn r.system.shared.tables.fdIdx k
  started : forall (u : Nat) th, r.system.threads[u]? = some th ->
    1 ≤ th.stage -> exists k : Nat, r.acquired[k]? = some u

theorem recording_initial : Recording Recorded.initial where
  registering := registering_initial
  gate := gateLaw_initial (by lia)
  few := by decide
  connfds := List.nodup_nil
  inbox := by
    intro fd
    exact List.Sublist.refl []
  handshake := by
    intro t th hth
    simp [Recorded.initial, System.initial] at hth
  turn := by
    intro k u hu
    simp [Recorded.initial] at hu
  started := by
    intro u th hth
    simp [Recorded.initial, System.initial] at hth

section

variable {r r' : Recorded} {t : Nat} {th th' : Thread}

/-- Between two turns every turn has left a row. -/
theorem Recording.acquired_length (hr : Recording r)
    (hidle : forall (u : Nat) other, r.system.threads[u]? = some other ->
      ¬ other.InSection) :
    r.acquired.length = r.system.shared.tables.fdIdx := by
  apply Nat.le_antisymm
  · apply Nat.le_of_not_lt
    intro hlong
    rcases hr.turn _ _ (List.getElem?_eq_getElem hlong) with
      ⟨other, hother, hturn⟩
    have hout := hidle _ other hother
    have hstarted := hturn.started
    unfold Thread.InSection at hout
    have hrow := hturn.row (by lia)
    have hbelow := (hr.registering.placed _ other hother).below (by lia)
    lia
  · apply Nat.le_of_not_lt
    intro hshort
    rcases hr.registering.passed _ hshort with ⟨_, u, owner, hu, hrow, hstage, _⟩
    rcases hr.started u owner hu (by lia) with ⟨k, hk⟩
    rcases hr.turn k u hk with ⟨other, hother, hturn⟩
    rw [hu] at hother
    cases hother
    have hlt := (List.getElem?_eq_some_iff.mp hk).choose
    have heq := hturn.row (by lia)
    lia

theorem Recording.of_keeps (hr : Recording r)
    (hth : r.system.threads[t]? = some th) (hkeeps : th.Keeps th')
    (htables : r'.system.shared.tables = r.system.shared.tables)
    (hmutex : r'.system.shared.semMutex = r.system.shared.semMutex)
    (hinbox : forall fd,
      (r'.system.shared.inbox fd).Sublist (r.system.shared.inbox fd))
    (hmoves : Moves 2 r.system.shared.counters th.point.phase th'.point.phase
      r'.system.shared.counters)
    (hthreads : r'.system.threads = r.system.threads.set t th')
    (hacquired : r'.acquired = r.acquired) (harrived : r'.arrived = r.arrived) :
    Recording r' where
  registering := hr.registering.of_keeps hth hkeeps htables hmutex hthreads
  gate := by
    rw [System.phases_set hthreads]
    exact hr.gate.move (System.phases_getElem? hth) hmoves
  few := by
    rw [hthreads, List.length_set]
    exact hr.few
  connfds := by
    rw [hthreads, map_set_same hth hkeeps.connfd]
    exact hr.connfds
  inbox := by
    intro fd
    rw [harrived]
    exact (hinbox fd).trans (hr.inbox fd)
  handshake := by
    intro u other hother
    rw [harrived]
    rw [hthreads] at hother
    rcases getElem?_set_cases hth hother with ⟨_, rfl⟩ | ⟨_, hold⟩
    · rw [hkeeps.connfd]
      exact (hr.handshake t th hth).later (by rw [hkeeps.stage.left]; lia)
        (by rw [hkeeps.stage.left, hkeeps.stage.right]) hkeeps.name hkeeps.sus
    · exact (hr.handshake u other hold).shrinks (hinbox _)
  turn := by
    intro k u hu
    rw [hacquired] at hu
    rw [htables, hthreads]
    rcases hr.turn k u hu with ⟨other, hother, hturn⟩
    rw [getElem?_set_of_some hth]
    split
    · rw [‹u = t›, hth] at hother
      cases hother
      exact ⟨th', rfl, hkeeps.turn hturn⟩
    · exact ⟨other, hother, hturn⟩
  started := by
    intro u other hother hstage
    rw [hacquired]
    rw [hthreads] at hother
    rcases getElem?_set_cases hth hother with ⟨rfl, rfl⟩ | ⟨_, hold⟩
    · exact hr.started u th hth (by rw [hkeeps.stage.left]; lia)
    · exact hr.started u other hold hstage

theorem Recording.of_registers (hr : Recording r)
    (hth : r.system.threads[t]? = some th)
    (h : th.Registers r.system.shared th' r'.system.shared)
    (hsent : th.wellSent r.system.shared = true)
    (hthreads : r'.system.threads = r.system.threads.set t th')
    (hacquired : r'.acquired =
      r.acquired ++ if th.point = .waitMutex then [t] else [])
    (harrived : r'.arrived = r.arrived) : Recording r' where
  registering := hr.registering.of_registers hth h hthreads
  gate := by
    rw [System.phases_set hthreads]
    exact hr.gate.move (System.phases_getElem? hth) h.moves
  few := by
    rw [hthreads, List.length_set]
    exact hr.few
  connfds := by
    rw [hthreads, map_set_same hth h.connfd_eq]
    exact hr.connfds
  inbox := by
    intro fd
    rw [harrived]
    exact (h.inbox_sublist fd).trans (hr.inbox fd)
  handshake := by
    intro u other hother
    rw [harrived]
    rw [hthreads] at hother
    rcases getElem?_set_cases hth hother with ⟨_, rfl⟩ | ⟨_, hold⟩
    · rw [h.connfd_eq]
      have hkept := h.handshake hsent (hr.inbox th.connfd)
        (hr.handshake t th hth)
      rw [h.connfd_eq] at hkept
      exact hkept
    · exact (hr.handshake u other hold).shrinks (h.inbox_sublist _)
  turn := by
    intro k u hu
    rw [hthreads, getElem?_set_of_some hth]
    have hold : r.acquired[k]? = some u ->
        exists other : Thread, (if u = t then some th' else
            r.system.threads[u]?) = some other ∧
          other.Turn r'.system.shared.tables.fdIdx k := by
      intro hu
      rcases hr.turn k u hu with ⟨other, hother, hturn⟩
      split
      · rw [‹u = t›, hth] at hother
        cases hother
        exact ⟨th', rfl, h.turn hturn⟩
      · exact ⟨other, hother,
          hturn.outside (hr.registering.outside hth h hother ‹_›)⟩
    rw [hacquired] at hu
    split at hu
    · rcases getElem?_append_cases hu with ⟨rfl, rfl⟩ | hu
      · -- the turn that begins with this step
        rw [if_pos rfl]
        refine ⟨th', rfl, ?_⟩
        rcases h.takesMutex ‹_› with ⟨hfree, hstage, hfdIdx⟩
        rw [hr.acquired_length (hr.registering.free hfree)]
        constructor
        · lia
        · intro _
          exact hfdIdx.symm
        · intro _
          lia
      · exact hold hu
    · rw [List.append_nil] at hu
      exact hold hu
  started := by
    intro u other hother hstage
    rw [hacquired]
    have hold : (exists k : Nat, r.acquired[k]? = some u) -> exists k : Nat,
        (r.acquired ++ if th.point = .waitMutex then [t] else [])[k]? =
          some u := by
      intro hu
      rcases hu with ⟨k, hk⟩
      refine ⟨k, ?_⟩
      rw [List.getElem?_append_left (List.getElem?_eq_some_iff.mp hk).choose]
      exact hk
    rw [hthreads] at hother
    rcases getElem?_set_cases hth hother with ⟨rfl, rfl⟩ | ⟨_, hother⟩
    · by_cases hwait : th.point = .waitMutex
      · refine ⟨r.acquired.length, ?_⟩
        rw [if_pos hwait]
        simp
      · apply hold
        apply hr.started u th hth
        rw [waitMutex_iff] at hwait
        lia
    · exact hold (hr.started u other hother hstage)

theorem Recording.of_accept (hr : Recording r) {connfd : Fd} {left : Leftover}
    (hfew : r.system.threads.length + 1 < LIMIT_CONN_CLIENTS)
    (hstep : r.system.step (.accept connfd left) = some r'.system)
    (hacquired : r'.acquired = r.acquired) (harrived : r'.arrived = r.arrived) :
    Recording r' := by
  have hconnfds := connfds_step hr.connfds hstep
  change (if _ then none else some _) = some r'.system at hstep
  split at hstep
  · cases hstep
  · rcases r' with ⟨system, acquired, arrived⟩
    cases hstep
    cases hacquired
    cases harrived
    constructor
    · exact hr.registering.of_accept rfl rfl
    · simpa [System.phases, Thread.start, Point.phase] using hr.gate.append
    · simpa using hfew
    · exact hconnfds
    · exact hr.inbox
    · intro u other hother
      rcases getElem?_append_cases hother with ⟨_, rfl⟩ | hold
      · apply Thread.Handshake.early
        simp [Thread.stage_start]
      · exact hr.handshake u other hold
    · intro k u hu
      rcases hr.turn k u hu with ⟨other, hother, hturn⟩
      refine ⟨other, ?_, hturn⟩
      rw [List.getElem?_append_left
        (List.getElem?_eq_some_iff.mp hother).choose]
      exact hother
    · intro u other hother hstage
      exact hr.started u other (getElem?_of_started hother hstage) hstage

theorem Recording.of_arrive (hr : Recording r) {fd : Fd} {line : List Byte}
    (hstep : r.system.step (.arrive fd line) = some r'.system)
    (hacquired : r'.acquired = r.acquired)
    (harrived : r'.arrived =
      Function.update r.arrived fd (r.arrived fd ++ [line])) :
    Recording r' := by
  have hregistering := hr.registering.step hstep
  rcases r' with ⟨system, acquired, arrived⟩
  cases hstep
  cases hacquired
  change arrived = _ at harrived
  subst harrived
  constructor
  · exact hregistering
  · exact hr.gate
  · exact hr.few
  · exact hr.connfds
  · intro fd'
    by_cases hfd : fd' = fd
    · simp only [hfd, Function.update_self]
      exact (hr.inbox fd).append (List.Sublist.refl [line])
    · simp only [Function.update_of_ne hfd]
      exact hr.inbox fd'
  · intro u other hother
    have hkept := hr.handshake u other hother
    by_cases hfd : other.connfd = fd
    · simp only [hfd, Function.update_self]
      rw [hfd] at hkept
      exact hkept.arrives line
    · simp only [Function.update_of_ne hfd]
      exact hkept
  · exact hr.turn
  · exact hr.started

theorem Recording.of_hangUp (hr : Recording r) {fd : Fd}
    (hstep : r.system.step (.hangUp fd) = some r'.system)
    (hacquired : r'.acquired = r.acquired) (harrived : r'.arrived = r.arrived) :
    Recording r' := by
  have hregistering := hr.registering.step hstep
  rcases r' with ⟨system, acquired, arrived⟩
  cases hstep
  cases hacquired
  cases harrived
  exact ⟨hregistering, hr.gate, hr.few, hr.connfds, hr.inbox, hr.handshake,
    hr.turn, hr.started⟩

theorem Recording.step (hr : Recording r) {e : StrayEvent}
    (hstep : r.stepWell e = some r') : Recording r' := by
  rcases guarded_eq_some.mp hstep with ⟨hsent, hrun⟩
  rcases Option.map_eq_some_iff.mp hrun with ⟨s, hs, rfl⟩
  cases e with
  | stray t found =>
      rcases System.stepStray_run hs with
        ⟨th, th', hth, hshared, hthreads, hwanders⟩
      have hmoves : Moves 2 r.system.shared.counters th.point.phase
          th'.point.phase s.shared.counters := by
        rw [hshared]
        exact hwanders.moves _
      apply hr.of_keeps hth hwanders.keeps _ _ _ hmoves hthreads
      · exact List.append_nil _
      · rfl
      · exact congrArg Shared.tables hshared
      · exact congrArg Shared.semMutex hshared
      · intro fd
        show (s.shared.inbox fd).Sublist _
        rw [hshared]
  | event e =>
      change r.system.step e = some s at hs
      cases e with
      | accept connfd left =>
          exact hr.of_accept (of_decide_eq_true hsent) hs (List.append_nil _)
            rfl
      | arrive fd line => exact hr.of_arrive hs (List.append_nil _) rfl
      | hangUp fd => exact hr.of_hangUp hs (List.append_nil _) rfl
      | run t left =>
          rcases System.step_run hs with ⟨th, th', hth, hthread, hthreads⟩
          have hwell : th.wellSent r.system.shared = true := by
            simpa [Recorded.wellSent, hth] using hsent
          have hacquires : r.system.acquires (.event (.run t left)) =
              if th.point = .waitMutex then [t] else [] := by
            simp [System.acquires, hth]
          rcases Thread.step_moves hthread with hmove | hmove
          · exact hr.of_registers hth hmove hwell hthreads
              (congrArg (r.acquired ++ ·) hacquires) rfl
          · rcases hmove.keeps with ⟨hkeeps, htables, hmutex⟩
            -- a forwarder does not take the mutex
            have hlate := hkeeps.stage.left
            have hwait : th.point ≠ .waitMutex := by
              rw [Ne, waitMutex_iff]
              lia
            rw [if_neg hwait] at hacquires
            exact hr.of_keeps hth hkeeps htables hmutex hmove.inbox_sublist
              hmove.moves hthreads
              ((congrArg (r.acquired ++ ·) hacquires).trans
                (List.append_nil _)) rfl

end

theorem recording_reachable {r : Recorded}
    (hreach : Reachable Recorded.stepWell Recorded.initial r) : Recording r :=
  hreach.invariant recording_initial fun _ _ _ hr hstep => hr.step hstep

/-!
# Rows below the counter
-/

theorem SameRow.trans {t t' t'' : Tables} {i : Nat} (h : SameRow t t' i)
    (h' : SameRow t' t'' i) : SameRow t t'' i :=
  ⟨h'.fd.trans h.fd, h'.name.trans h.name, h'.sus.trans h.sus,
    h'.topics.trans h.topics⟩

structure Extends (t t' : Tables) : Prop where
  fdIdx : t.fdIdx ≤ t'.fdIdx
  row : forall i, i < t.fdIdx -> SameRow t t' i

theorem Extends.refl (t : Tables) : Extends t t where
  fdIdx := Nat.le_refl _
  row := fun i _ => SameRow.refl t i

theorem Extends.trans {t t' t'' : Tables} (h : Extends t t')
    (h' : Extends t' t'') : Extends t t'' where
  fdIdx := Nat.le_trans h.fdIdx h'.fdIdx
  row := fun i hi =>
    (h.row i hi).trans (h'.row i (Nat.lt_of_lt_of_le hi h.fdIdx))

theorem System.stepStray_extends {s s' : System} {e : StrayEvent}
    (hstep : s.stepStray e = some s') :
    Extends s.shared.tables s'.shared.tables := by
  cases e with
  | stray t found =>
      rcases System.stepStray_run hstep with ⟨_, _, _, hshared, _⟩
      rw [hshared]
      exact Extends.refl _
  | event e =>
      change s.step e = some s' at hstep
      cases e with
      | accept connfd left =>
          change (if _ then none else some _) = some s' at hstep
          split at hstep
          · cases hstep
          · cases hstep
            exact Extends.refl _
      | arrive fd line | hangUp fd =>
          cases hstep
          exact Extends.refl _
      | run t left =>
          rcases System.step_run hstep with ⟨th, th', _, hrun, _⟩
          rcases Thread.step_moves hrun with hmove | hmove
          · exact ⟨hmove.fdIdx_le, fun i hi => hmove.sameRow (Nat.ne_of_lt hi)⟩
          · rw [hmove.keeps.right.left]
            exact Extends.refl _

theorem extends_reachable {r r' : Recorded}
    (hreach : Reachable Recorded.stepWell r r') :
    Extends r.system.shared.tables r'.system.shared.tables := by
  apply hreach.invariant (Extends.refl _)
  intro mid e next hmid hstep
  rcases guarded_eq_some.mp hstep with ⟨_, hrun⟩
  rcases Option.map_eq_some_iff.mp hrun with ⟨s, hs, rfl⟩
  exact hmid.trans (System.stepStray_extends hs)

/-!
# Alignment
-/

theorem subscribedNode_of_hasNode {susInfo : CStr} (h : hasNode susInfo = true)
    (left : Leftover) : subscribedNode susInfo left = subscribedTo susInfo := by
  unfold subscribedNode subscribedTo
  split
  · rfl
  · cases htokens : tokensOf (lit "/") susInfo with
    | nil => simp_all [hasNode]
    | cons node levels => simp [split, htokens]

theorem Recording.rowOf {r : Recorded} (hr : Recording r) {u : Nat}
    {th : Thread} (hth : r.system.threads[u]? = some th) (hstage : 16 ≤ th.stage) :
    RowOf r.system.shared.tables th.row th (r.arrived th.connfd) := by
  have hstored := hr.registering.stored u th hth
  rcases (hr.handshake u th hth).both (by lia) with
    ⟨name, sus, hsub, hname, hsus, hnode⟩
  refine ⟨hstored.fd (by lia), name, sus, hsub, ?_, ?_, ?_⟩
  · rw [hstored.name (by lia), hname]
  · rw [hstored.sus (by lia), hsus, subscribedNode_of_hasNode hnode]
  · intro hsome k hk
    rw [← hsus] at hsome ⊢
    have hlate : 6 + k < th.stage := by
      unfold TOPICS_NUMBER at hk
      lia
    rw [hstored.topics k hlate hk hsome, hstored.mask (by lia) hsome]

theorem Recording.aligned {r : Recorded} (hr : Recording r)
    (hidle : r.system.Idle) : Aligned r := by
  have hout : forall (u : Nat) other, r.system.threads[u]? = some other ->
      ¬ other.InSection := by
    intro u other hother
    exact hidle other (List.mem_of_getElem? hother)
  have hs := hr.registering
  constructor
  · exact hr.acquired_length hout
  · intro i u hu
    rcases hr.turn i u hu with ⟨th, hth, hturn⟩
    have hstarted := hturn.started
    have hlate : 16 ≤ th.stage := by
      have hin := hout u th hth
      unfold Thread.InSection at hin
      lia
    rw [← hturn.row (by lia)]
    exact ⟨th, hth, hr.rowOf hth hlate⟩
  · intro i k hi hk hfd
    rcases hs.passed i hi with ⟨row, howner⟩
    rcases hs.passed k hk with ⟨other, hother⟩
    rw [(howner.tables hs (by lia)).right.left,
      (hother.tables hs (by lia)).right.left] at hfd
    exact (howner.fd_inj hr.connfds hother hfd).left
  · intro i hi
    constructor
    · cases hname : r.system.shared.tables.clientNameList i with
      | none => rfl
      | some name =>
          rcases hs.named i name hname with ⟨row, howner⟩
          have hbelow := howner.passed hs hout (by lia)
          lia
    · cases hsus : r.system.shared.tables.clientSusList i with
      | none => rfl
      | some sus =>
          rcases hs.owned i sus hsus with ⟨row, howner⟩
          have hbelow := howner.passed hs hout (by lia)
          lia

/--
Whenever no registration is under way, the arrays hold one row for each turn at
the mutex, in that order, each from one connection, and NULL behind them.  What
is below the counter stays as it is, whatever runs afterwards.
-/
theorem tables_aligned {r : Recorded}
    (hreach : Reachable Recorded.stepWell Recorded.initial r) :
    (r.system.Idle -> Aligned r) ∧
      forall r', Reachable Recorded.stepWell r r' ->
        forall i, i < r.system.shared.tables.fdIdx ->
          SameRow r.system.shared.tables r'.system.shared.tables i := by
  constructor
  · exact (recording_reachable hreach).aligned
  · intro r' hreach'
    exact (extends_reachable hreach').row

def registersSecond : List StrayEvent :=
  (connects 4 (lit "node1") (lit "NONE") ++
    connects 5 (lit "sub1") (lit "node1/cpu/gen") ++ runs 1 16).map .event

theorem aligned_of_two :
    exists r r', Reachable Recorded.stepWell Recorded.initial r ∧
      Reachable Recorded.stepWell r r' ∧ Aligned r ∧ Aligned r' ∧
      r.acquired = [1] ∧ r'.acquired = [1, 0] ∧
      SameRow r.system.shared.tables r'.system.shared.tables 0 := by
  have hrun :
      exists r r',
        runFrom Recorded.stepWell Recorded.initial registersSecond = some r ∧
        runFrom Recorded.stepWell r ((runs 0 9).map .event) = some r' ∧
        r.acquired = [1] ∧ r'.acquired = [1, 0] ∧
        r.system.shared.tables.fdIdx = 1 ∧
        r.system.threads.all (fun th => decide (¬ th.InSection)) = true ∧
        r'.system.threads.all (fun th => decide (¬ th.InSection)) = true :=
    ⟨_, _, rfl, rfl, rfl, rfl, rfl, rfl, rfl⟩
  rcases hrun with ⟨r, r', hr, hr', hfirst, hsecond, hrows, hout, hout'⟩
  have hreach : Reachable Recorded.stepWell Recorded.initial r := ⟨_, hr⟩
  have hreach' : Reachable Recorded.stepWell Recorded.initial r' := by
    refine ⟨registersSecond ++ (runs 0 9).map .event, ?_⟩
    rw [runFrom_append, hr]
    exact hr'
  rcases tables_aligned hreach with ⟨haligned, hkept⟩
  exact ⟨r, r', hreach, ⟨_, hr'⟩, haligned (System.idle_of_all hout),
    (tables_aligned hreach').left (System.idle_of_all hout'), hfirst, hsecond,
    hkept r' ⟨_, hr'⟩ 0 (by lia)⟩

end Broker
end MQTTv1
