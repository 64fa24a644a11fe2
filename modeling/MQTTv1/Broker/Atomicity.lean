import MQTTv1.Broker.FanOut
import MQTTv1.Broker.Routing
import MQTTv1.Broker.Stray
import MQTTv1.CLib.Relay

/-!
# Blocks of concurrent forwarders

Every forwarder goes through all rows, so two of them may serve one row at a
time.  A line is read at once but written in up to six parts, and nothing keeps
another forwarder from writing between them, or from overtaking.
-/

namespace MQTTv1
namespace Broker

open CLib
open Csapp

/-!
# Forwarders as a relay
-/

def Thread.held (th : Thread) : Option (Held Fd Fd Byte) :=
  match th.point with
  | .write _ =>
      some
        { source := th.fdPub, sink := th.fdSus, number := th.lineNo,
          block := th.block, pending := th.pending }
  | _ => none

def System.relay (s : System) : Relay Fd Fd Byte where
  held := fun t => (s.threads[t]?).bind Thread.held
  taken := s.shared.taken
  sent := s.shared.sent

theorem Thread.held_some {th : Thread} {h : Held Fd Fd Byte}
    (hheld : th.held = some h) :
    exists i, th.point = .write i ∧ h.source = th.fdPub ∧
      h.sink = th.fdSus ∧ h.number = th.lineNo ∧ h.block = th.block ∧
      h.pending = th.pending := by
  unfold Thread.held at hheld
  cases hpoint : th.point with
  | write i =>
      rw [hpoint] at hheld
      cases hheld
      exact ⟨i, rfl, rfl, rfl, rfl, rfl, rfl⟩
  | _ =>
      rw [hpoint] at hheld
      cases hheld

theorem Thread.stepStray_held {th th' : Thread} {found : Stray}
    {s s' : Shared} (h : th.stepStray found s = some (th', s'))
    (hlooks : th.point.looksUp = true) : th.held = none ∧ th'.held = none := by
  unfold Thread.stepStray at h
  unfold Thread.held
  cases hpoint : th.point with
  | findPublisher i =>
      simp only [hpoint] at h
      split at h
      · cases h
      · cases h
        exact ⟨rfl, rfl⟩
  | findSuscriber i =>
      simp only [hpoint] at h
      rcases Option.bind_eq_some_iff.mp h with ⟨name, _, hfind⟩
      split at hfind
      · cases hfind
      · cases hfind
        exact ⟨rfl, rfl⟩
  | _ => simp [Point.looksUp, hpoint] at hlooks

section

variable {s s' : System} {t : Nat} {th th' : Thread}

theorem System.relay_held (hth : s.threads[t]? = some th) :
    s.relay.held t = th.held := by
  show (s.threads[t]?).bind Thread.held = th.held
  rw [hth]
  rfl

theorem System.relay_set (hth : s.threads[t]? = some th)
    (hthreads : s'.threads = s.threads.set t th') :
    s'.relay.held = Function.update s.relay.held t th'.held := by
  funext u
  show (s'.threads[u]?).bind Thread.held = _
  rw [hthreads, getElem?_set_of_some hth, Function.update_apply]
  by_cases hut : u = t
  · rw [if_pos hut, if_pos hut]
    rfl
  · rw [if_neg hut, if_neg hut]
    rfl

theorem System.relay_eq {r : Relay Fd Fd Byte}
    (hheld : s.relay.held = r.held) (htaken : s.shared.taken = r.taken)
    (hsent : s.shared.sent = r.sent) : s.relay = r := by
  show Relay.mk s.relay.held s.shared.taken s.shared.sent = r
  rw [hheld, htaken, hsent]

theorem System.relay_silent (hth : s.threads[t]? = some th)
    (hthreads : s'.threads = s.threads.set t th') (hheld : th.held = none)
    (hheld' : th'.held = none) (htaken : s'.shared.taken = s.shared.taken)
    (hsent : s'.shared.sent = s.shared.sent) : s'.relay = s.relay := by
  apply System.relay_eq _ htaken hsent
  rw [System.relay_set hth hthreads, hheld', ← hheld, ← System.relay_held hth,
    Function.update_eq_self]

/-- Refinement: a forwarder's step is one of the relay's, or none. -/
theorem Thread.Forwards.relay {left : MessageLeftover}
    (h : th.Forwards left s.shared th' s'.shared)
    (hth : s.threads[t]? = some th)
    (hthreads : s'.threads = s.threads.set t th') :
    s'.relay = s.relay ∨
      (th.held = none ∧ s'.relay =
        s.relay.take t th'.fdPub th'.fdSus th'.block ∧
        exists i, th'.point = .write i ∧
          th'.lineNo = s.shared.taken th'.fdPub) ∨
      (exists i buf rest item, th.point = .write i ∧ th.held = some item ∧
        item.pending = buf :: rest ∧
        s'.relay = s.relay.put t item buf rest) ∨
      (exists item, th.held = some item ∧ item.pending = [] ∧
        s'.relay = s.relay.drop t) := by
  have hset := System.relay_set hth hthreads
  have hown := System.relay_held hth
  have hsilent := System.relay_silent hth hthreads
  unfold Thread.held at hsilent hown hset ⊢
  generalize hshared : s'.shared = shared at h
  cases h with
  | readLine i line _ hpoint hline =>
      rcases Shared.takeLine_some hline with
        ⟨bytes, rest, rfl, _, rfl⟩ | ⟨rfl, rfl⟩
      · right; left
        rw [hpoint] at hown ⊢
        refine ⟨rfl, System.relay_eq hset ?_ ?_, i, rfl, rfl⟩
        · rw [hshared]
          rfl
        · rw [hshared]
          rfl
      · left
        apply hsilent
        · rw [hpoint]
        · rfl
        · rw [hshared]
        · rw [hshared]
  | write i buf rest hpoint hpending =>
      right; right; left
      rw [hpoint] at hown ⊢
      refine ⟨i, buf, rest, _, rfl, rfl, hpending,
        System.relay_eq hset ?_ ?_⟩
      · rw [hshared]
        rfl
      · rw [hshared]
        rfl
  | written i hpoint hpending =>
      right; right; right
      rw [hpoint] at hown ⊢
      refine ⟨_, rfl, hpending, System.relay_eq hset ?_ ?_⟩
      · rw [hshared]
        rfl
      · rw [hshared]
        rfl
  | waitControl hpoint | passOver i hpoint | rowFound i sus hpoint
  | rowNone i sus hpoint | rowSubscribed i sus hpoint
  | loadPublisher i sus hpoint | loadSuscriber i hpoint | loadTopic i j hpoint
  | topicsLoaded i j hpoint | findPublisher i fd hpoint
  | findSuscriber i name fd hpoint =>
      left
      apply hsilent
      · rw [hpoint]
      · rfl
      · rw [hshared]
      · rw [hshared]

end

/-!
# Registered clients
-/

/--
All clients are registered, no thread has started to forward, and every read
returns one of the lines.
-/
structure Serving (rows : List Row) (lines : Fd -> Nat -> Option MessageLine)
    (s : System) : Prop where
  tables : Represents s.shared.tables rows
  room : rows.length ≤ LIMIT_CONN_CLIENTS
  idle : forall th, th ∈ s.threads -> th.point = .waitControl
  inbox : forall fd j, (s.shared.inbox fd)[j]? =
    (lines fd (s.shared.taken fd + j)).map MessageLine.bytes
  sent : forall fd, s.shared.sent fd = []

/-- It is the state in which the registrations leave the broker. -/
theorem serving_of_reachable {s : System}
    {lines : Fd -> Nat -> Option MessageLine}
    (hreach : Reachable System.stepStray System.initial s)
    (hidle : forall th, th ∈ s.threads -> th.point = .waitControl)
    (hinbox : forall fd j, (s.shared.inbox fd)[j]? =
      (lines fd (s.shared.taken fd + j)).map MessageLine.bytes)
    (hsent : forall fd, s.shared.sent fd = []) :
    exists rows, Serving rows lines s := by
  have hout : forall (t : Nat) th, s.threads[t]? = some th ->
      ¬ th.InSection := by
    intro t th hth hin
    have hstage := hin.right
    unfold Thread.stage at hstage
    rw [hidle th (List.mem_of_getElem? hth)] at hstage
    simp only [Point.stage] at hstage
    lia
  rcases represents_inside hreach hout with ⟨rows, hrows, hroom, _⟩
  exact ⟨rows, hrows, hroom, hidle, hinbox, hsent⟩

/--
The pieces are the topics that a row selects from line `k` of its publisher.
Where nobody has the publisher's name, any descriptor may be the one that is
read.
-/
def Published (t : Tables) (rows : List Row)
    (lines : Fd -> Nat -> Option MessageLine) (fdPub fdSus : Fd) (k : Nat)
    (pieces : List CStr) : Prop :=
  exists (row : Row) (l : MessageLine),
    row ∈ rows ∧ row.Subscribed ∧ fdByClientName t row.name = some fdSus ∧
      (forall fd, fdByClientName t row.sus = some fd -> fd = fdPub) ∧
      lines fdPub k = some l ∧ pieces.flatten = selectedTopics row.topics l

/-- A lookup that fails goes on with whatever descriptor it finds. -/
def System.forwards (s : System) : StrayEvent -> Bool
  | .event (.run _ _) => true
  | .stray t _ => (s.threads[t]?).any fun th => th.point.looksUp
  | _ => false

def System.forward : System -> StrayEvent -> Option System :=
  guarded System.forwards System.stepStray

/-- The writer of `h` must let the writer of `other` go on. -/
def waitsFor (h other : Held Fd Fd Byte) : Bool :=
  !other.pending.isEmpty && decide (other.sink = h.sink) &&
    (decide (other.pending.length < other.block.length) ||
      (!decide (h.pending.length < h.block.length) &&
        decide (other.source = h.source) && decide (other.number ≤ h.number)))

/--
A forwarder writes to a subscriber only if no other one is within a block for it
and, to begin a block, if no other one holds an earlier line of the publisher.
-/
def System.orderly (s : System) (t : Nat) : Bool :=
  match (s.threads[t]?).bind Thread.held with
  | none => true
  | some h =>
      h.pending.isEmpty ||
        (List.range s.threads.length).all fun u =>
          u = t ||
            (((s.threads[u]?).bind Thread.held).all fun other =>
              !waitsFor h other)

def System.inTurn (s : System) : StrayEvent -> Bool
  | .event (.run t _) => s.orderly t && s.fits t
  | _ => true

theorem System.orderly_turn {s : System} {t : Nat} {h : Held Fd Fd Byte}
    {buf : CStr} {rest : List CStr} (horderly : s.orderly t = true)
    (hheld : s.relay.held t = some h) (hpending : h.pending = buf :: rest) :
    s.relay.Turn t h := by
  intro u other hut hother hopen hsink
  change (s.threads[t]?).bind Thread.held = some h at hheld
  change (s.threads[u]?).bind Thread.held = some other at hother
  have hlt : u < s.threads.length := by
    rcases Option.bind_eq_some_iff.mp hother with ⟨th, hth, _⟩
    exact (List.getElem?_eq_some_iff.mp hth).choose
  unfold System.orderly at horderly
  simp only [hheld, hpending, List.isEmpty_cons, Bool.false_or,
    List.all_eq_true, List.mem_range] at horderly
  have hwait := horderly u hlt
  rw [hother] at hwait
  simp only [hut, decide_false, Bool.false_or, Option.all_some, waitsFor,
    hsink, decide_true, Bool.and_true, Bool.not_eq_true',
    Bool.and_eq_false_iff, Bool.or_eq_false_iff, Bool.not_eq_false',
    decide_eq_false_iff_not, decide_eq_true_eq,
    List.isEmpty_iff] at hwait
  rcases hwait with hdone | ⟨hfresh, hfirst⟩
  · exact absurd hdone hopen
  · refine ⟨hfresh, ?_⟩
    unfold Held.Begun
    rcases hfirst with (hbegun | hsource) | hnumber
    · exact Or.inl hbegun
    · exact Or.inr fun heq => absurd heq hsource
    · exact Or.inr fun _ => Nat.lt_of_not_le hnumber

section

variable {t : Tables} {rows : List Row}
variable {lines : Fd -> Nat -> Option MessageLine}

def rowsView (t : Tables) (rows : List Row)
    (lines : Fd -> Nat -> Option MessageLine) : View where
  row := fun i row => rows[i]? = some row
  named := fun fd name => fdByClientName t name = some fd
  source := fun fdPub name =>
    forall fd, fdByClientName t name = some fd -> fd = fdPub
  line := fun fd k bytes => (lines fd k).map MessageLine.bytes = some bytes

theorem rowsView_sound {s : Shared} (th : Thread)
    (ht : Represents s.tables rows)
    (hinbox : forall fd j, (s.inbox fd)[j]? =
      (lines fd (s.taken fd + j)).map MessageLine.bytes) :
    (rowsView s.tables rows lines).Sound th s := by
  constructor
  · intro i sus hsus
    rw [ht.sus i] at hsus
    exact Option.map_eq_some_iff.mp hsus
  · intro i row hrow
    rw [ht.name i]
    exact congrArg (Option.map Row.name) hrow
  · intro i row hrow
    rw [ht.sus i]
    exact congrArg (Option.map Row.sus) hrow
  · intro i j row _ hj hrow hsub
    exact ht.topics i row hrow hsub j hj
  · intro name fd hfd
    exact hfd
  · intro name fdPub hfdPub fd hfd
    rw [hfdPub] at hfd
    exact (Option.some.inj hfd).symm
  · intro fd bytes rest hline
    have hfirst := hinbox fd 0
    rw [hline] at hfirst
    exact hfirst.symm

theorem Thread.Serves.published {th : Thread} {i : Nat}
    (h : th.Serves (rowsView t rows lines)) (hpoint : th.point = .write i) :
    Published t rows lines th.fdPub th.fdSus th.lineNo th.block := by
  unfold Thread.Serves at h
  rw [hpoint] at h
  rcases h with ⟨row, hrow, hrouted, bytes, left, hrelays⟩
  rcases Option.map_eq_some_iff.mp hrelays.line with ⟨l, hl, rfl⟩
  refine ⟨row, l, List.mem_of_getElem? hrow, hrouted.copied.subscribed,
    hrouted.suscriber, hrouted.publisher, hl, ?_⟩
  rw [hrelays.block]
  exact topicWrites_flatten l _ _ fun _ _ => rfl

/-!
# Every run
-/

/-- What every orderly run of registered clients keeps. -/
structure Relaying (t : Tables) (rows : List Row)
    (lines : Fd -> Nat -> Option MessageLine) (s : System) : Prop where
  tables : s.shared.tables = t
  past : forall (u : Nat) th, s.threads[u]? = some th -> th.stage = 16
  inbox : forall fd j, (s.shared.inbox fd)[j]? =
    (lines fd (s.shared.taken fd + j)).map MessageLine.bytes
  serves : forall (u : Nat) th, s.threads[u]? = some th ->
    th.Serves (rowsView t rows lines)
  ordered : s.relay.Ordered (Published t rows lines)

theorem Serving.relaying {s : System} (h : Serving rows lines s) :
    Relaying s.shared.tables rows lines s := by
  have hidle : forall (u : Nat) th, s.threads[u]? = some th ->
      th.point = .waitControl := fun u th hth =>
    h.idle th (List.mem_of_getElem? hth)
  constructor
  · rfl
  · intro u th hth
    unfold Thread.stage
    rw [hidle u th hth]
    rfl
  · exact h.inbox
  · intro u th hth
    unfold Thread.Serves
    rw [hidle u th hth]
    trivial
  · apply Relay.ordered_empty _ h.sent
    intro u
    show (s.threads[u]?).bind Thread.held = none
    cases hth : s.threads[u]? with
    | none => rfl
    | some th =>
        show th.held = none
        unfold Thread.held
        rw [hidle u th hth]

theorem Thread.Forwards.inbox {th th' : Thread} {left : MessageLeftover}
    {s s' : Shared} (h : th.Forwards left s th' s')
    (hinbox : forall fd j, (s.inbox fd)[j]? =
      (lines fd (s.taken fd + j)).map MessageLine.bytes) (fd : Fd) (j : Nat) :
    (s'.inbox fd)[j]? =
      (lines fd (s'.taken fd + j)).map MessageLine.bytes := by
  cases h with
  | readLine i line _ hpoint hline =>
      rcases Shared.takeLine_some hline with
        ⟨bytes, rest, _, hfirst, rfl⟩ | ⟨_, rfl⟩
      · show (Function.update s.inbox th.fdPub rest fd)[j]? =
          (lines fd (Function.update s.taken th.fdPub _ fd + j)).map _
        by_cases hfd : fd = th.fdPub
        · have hnext := hinbox th.fdPub (j + 1)
          rw [hfirst, List.getElem?_cons_succ] at hnext
          rw [hfd, Function.update_self, Function.update_self, hnext]
          congr 2
          lia
        · rw [Function.update_of_ne hfd, Function.update_of_ne hfd]
          exact hinbox fd j
      · exact hinbox fd j
  | _ => exact hinbox fd j

theorem Relaying.run {s s' : System} {t' : Nat} {left : MessageLeftover}
    (ht : Represents t rows) (hs : Relaying t rows lines s)
    (horderly : s.orderly t' = true) (hstep : s.step (.run t' left) = some s') :
    Relaying t rows lines s' := by
  rcases System.step_run hstep with ⟨th, th', hth, hrun, hthreads⟩
  have hforwards : th.Forwards left s.shared th' s'.shared := by
    rcases Thread.step_moves hrun with hmove | hmove
    · have hearly := hmove.stage_le.left
      have hpast := hs.past _ th hth
      lia
    · exact hmove
  have hsound : (rowsView t rows lines).Sound th s.shared := by
    have hview := rowsView_sound th (hs.tables ▸ ht) hs.inbox
    rw [hs.tables] at hview
    exact hview
  have hserves' := hforwards.serves hsound (hs.serves _ th hth)
  constructor
  · rw [hforwards.keeps.right.left, hs.tables]
  · intro u other hother
    rw [hthreads] at hother
    rcases getElem?_set_cases hth hother with ⟨_, rfl⟩ | ⟨_, hold⟩
    · exact hforwards.keeps.left.stage.right
    · exact hs.past u other hold
  · exact hforwards.inbox hs.inbox
  · intro u other hother
    rw [hthreads] at hother
    rcases getElem?_set_cases hth hother with ⟨_, rfl⟩ | ⟨_, hold⟩
    · exact hserves'
    · exact hs.serves u other hold
  · have hown := System.relay_held hth
    rcases hforwards.relay hth hthreads with
      hsame | ⟨hfree, htake, i, hpoint, hnumber⟩ |
      ⟨i, buf, rest, item, _, hheld, hpending, hput⟩ |
      ⟨item, hheld, hdone, hdrop⟩
    · rw [hsame]
      exact hs.ordered
    · rw [htake]
      apply hs.ordered.take _ _ _ (hown.trans hfree)
      have hpublished := hserves'.published hpoint
      rw [hnumber] at hpublished
      exact hpublished
    · rw [hput]
      have hitem := hown.trans hheld
      exact hs.ordered.put hitem hpending
        (System.orderly_turn horderly hitem hpending)
    · rw [hdrop]
      exact hs.ordered.drop (hown.trans hheld) hdone

theorem Relaying.stray {s s' : System} {u : Nat} {found : Stray}
    (ht : Represents t rows) (hroom : rows.length ≤ LIMIT_CONN_CLIENTS)
    (hs : Relaying t rows lines s)
    (hlooks : s.forwards (.stray u found) = true)
    (hstep : s.stepStray (.stray u found) = some s') :
    Relaying t rows lines s' := by
  rcases System.stepStray_thread hstep with ⟨th, th', hth, hstray, hthreads⟩
  rcases Thread.stepStray_cases hstray with ⟨hshared, hwanders⟩
  simp only [System.forwards, hth, Option.any_some] at hlooks
  have hserves' : th'.Serves (rowsView t rows lines) := by
    apply Thread.stepStray_serves hstray hlooks _ _ (hs.serves u th hth)
    · intro i row hrow
      rw [hs.tables]
      exact fdByClientName_of_row ht hroom hrow
    · intro name hnone fd hfd
      rw [hs.tables, hfd] at hnone
      cases hnone
  constructor
  · rw [hshared, hs.tables]
  · intro v other hother
    rw [hthreads] at hother
    rcases getElem?_set_cases hth hother with ⟨_, rfl⟩ | ⟨_, hold⟩
    · exact hwanders.keeps.stage.right
    · exact hs.past v other hold
  · rw [hshared]
    exact hs.inbox
  · intro v other hother
    rw [hthreads] at hother
    rcases getElem?_set_cases hth hother with ⟨_, rfl⟩ | ⟨_, hold⟩
    · exact hserves'
    · exact hs.serves v other hold
  · rcases Thread.stepStray_held hstray hlooks with ⟨hheld, hheld'⟩
    rw [System.relay_silent hth hthreads hheld hheld' (by rw [hshared])
      (by rw [hshared])]
    exact hs.ordered

theorem Relaying.step {s s' : System} {e : StrayEvent}
    (ht : Represents t rows) (hroom : rows.length ≤ LIMIT_CONN_CLIENTS)
    (hs : Relaying t rows lines s) (hturn : s.inTurn e = true)
    (hstep : s.forward e = some s') : Relaying t rows lines s' := by
  rcases guarded_eq_some.mp hstep with ⟨hforwards, hrun⟩
  cases e with
  | stray u found => exact hs.stray ht hroom hforwards hrun
  | event e =>
      cases e with
      | run u left => exact hs.run ht (Bool.and_eq_true_iff.mp hturn).left hrun
      | accept connfd left | arrive fd line | hangUp fd => cases hforwards

structure Thread.Writing (th : Thread) (fd : Fd) : Prop where
  point : exists i, th.point = .write i
  sink : th.fdSus = fd
  unfinished : th.pending ≠ []
  begun : th.pending.length < th.block.length

def Thread.ownBlock (th : Thread) : Block Fd Byte where
  source := th.fdPub
  number := th.lineNo
  pieces := th.block

theorem Thread.Writing.held {th : Thread} {fd : Fd} (h : th.Writing fd) :
    exists item, th.held = some item ∧ item.sink = fd ∧ item.Open ∧
      item.Begun ∧ item.pending = th.pending ∧
      item.toBlock = th.ownBlock := by
  rcases h.point with ⟨i, hpoint⟩
  unfold Thread.held
  rw [hpoint]
  exact ⟨_, rfl, h.sink, h.unfinished, h.begun, rfl, rfl⟩

theorem Thread.writing_of_held {th : Thread} {item : Held Fd Fd Byte}
    (hheld : th.held = some item) (hopen : item.Open) (hbegun : item.Begun) :
    th.Writing item.sink := by
  rcases Thread.held_some hheld with
    ⟨i, hpoint, _, hsink, _, hblock, hpending⟩
  refine ⟨⟨i, hpoint⟩, hsink.symm, ?_, ?_⟩
  · rw [← hpending]
    exact hopen
  · rw [← hpending, ← hblock]
    exact hbegun

/--
In a run whose forwarders write in turn and stay within the buffers, every
descriptor receives complete blocks of published lines, those of one publisher
in the order of publication; at most the last block is still underway, and its
writer holds the rest of it.
-/
theorem blocks_atomic_and_ordered {start s : System}
    (hstart : Serving rows lines start)
    (hreach : Reachable (guarded System.inTurn System.forward) start s)
    (fd : Fd) :
    exists blocks : List (Block Fd Byte),
      (forall b, b ∈ blocks -> Published start.shared.tables rows lines
        b.source fd b.number b.pieces) ∧
      (blocks.Pairwise fun b b' =>
        b.source = b'.source -> b.number < b'.number) ∧
      ((forall th, th ∈ s.threads -> ¬ th.Writing fd) ->
        s.shared.sent fd = contents blocks) ∧
      (forall th, th ∈ s.threads -> th.Writing fd ->
        s.shared.sent fd ++ th.pending.flatten = contents blocks ∧
          exists earlier, blocks = earlier ++ [th.ownBlock]) := by
  have hs : Relaying start.shared.tables rows lines s := by
    apply hreach.invariant hstart.relaying
    intro s e s' hs hstep
    rcases guarded_eq_some.mp hstep with ⟨hturn, hrun⟩
    exact hs.step hstart.tables hstart.room hturn hrun
  rcases hs.ordered.logs fd with ⟨blocks, hlog⟩
  refine ⟨blocks, hlog.legit, hlog.ordered, ?_, ?_⟩
  · intro hquiet
    apply hlog.quiet
    intro u item hheld hsink hopen hbegun
    rcases Option.bind_eq_some_iff.mp hheld with ⟨th, hth, hitem⟩
    apply hquiet th (List.mem_of_getElem? hth)
    rw [← hsink]
    exact Thread.writing_of_held hitem hopen hbegun
  · intro th hmem hwriting
    rcases List.getElem?_of_mem hmem with ⟨u, hth⟩
    rcases hwriting.held with
      ⟨item, hheld, hsink, hopen, hbegun, hpending, hblock⟩
    rw [← hpending, ← hblock]
    exact hlog.within u item ((System.relay_held hth).trans hheld) hsink hopen
      hbegun

end

/-!
# Two forwarders and one subscriber
-/

def servedRows : List Row :=
  [node1Row,
    { name := lit "sub1", fd := 5, sus := lit "node1", topics := fun _ => 0 },
    { name := lit "sub2", fd := 6, sus := lit "NONE", topics := fun _ => 0 }]

def reports (fd : Fd) (k : Nat) : Option MessageLine :=
  (node1Lines fd)[k]?

def threeClients : System where
  shared :=
    { Shared.initial with
      tables := Tables.ofRows servedRows
      semControl := 2
      inbox := fun fd => (node1Lines fd).map MessageLine.bytes }
  threads := servedRows.map fun row =>
    { Thread.start row.fd cleanLeftover with point := .waitControl }

theorem serving_threeClients : Serving servedRows reports threeClients where
  tables := represents_ofRows servedRows
  room := by decide
  idle := by
    intro th hth
    rcases List.mem_map.mp hth with ⟨row, _, rfl⟩
    rfl
  inbox := by
    intro fd j
    show ((node1Lines fd).map MessageLine.bytes)[j]? =
      ((node1Lines fd)[0 + j]?).map MessageLine.bytes
    rw [List.getElem?_map, Nat.zero_add]
  sent := fun _ => rfl

def turns (t count : Nat) : List StrayEvent :=
  List.replicate count (.event (.run t cleanMessageLeftover))

def crossedTurns : List StrayEvent :=
  turns 0 17 ++ turns 1 17 ++ turns 0 1 ++ turns 1 1 ++ turns 0 5 ++ turns 1 5

theorem published_selected {fdPub fdSus : Fd} {k : Nat} {pieces : List CStr}
    {t : Tables} (h : Published t servedRows reports fdPub fdSus k pieces) :
    pieces.flatten = selectedTopics (fun _ => 0) firstReport ∨
      pieces.flatten = selectedTopics (fun _ => 0) secondReport := by
  rcases h with ⟨row, l, hrow, _, _, _, hline, hflat⟩
  rw [hflat]
  have htopics : row.topics = fun _ => 0 := by
    simp only [servedRows, List.mem_cons, List.not_mem_nil, or_false] at hrow
    rcases hrow with rfl | rfl | rfl
    · rfl
    · rfl
    · rfl
  have hreport : l = firstReport ∨ l = secondReport := by
    have hmem := List.mem_of_getElem? hline
    unfold node1Lines at hmem
    split at hmem
    · simpa using hmem
    · cases hmem
  rw [htopics]
  rcases hreport with rfl | rfl
  · exact Or.inl rfl
  · exact Or.inr rfl

/-- Both lines are written in full, and neither of them arrives as a block. -/
theorem blocks_interleaved :
    Serving servedRows reports threeClients ∧
      exists s, Reachable System.forward threeClients s ∧
        (forall th, th ∈ s.threads -> th.pending = []) ∧
        ¬ exists blocks : List (Block Fd Byte),
          (forall b, b ∈ blocks -> Published threeClients.shared.tables
            servedRows reports b.source 5 b.number b.pieces) ∧
          s.shared.sent 5 = contents blocks := by
  refine ⟨serving_threeClients, ?_⟩
  have hrun :
      exists s, runFrom System.forward threeClients crossedTurns = some s ∧
        s.threads.all (fun th => th.pending.isEmpty) = true ∧
        s.shared.sent 5 ≠ [] ∧
        ¬ selectedTopics (fun _ => 0) firstReport <+: s.shared.sent 5 ∧
        ¬ selectedTopics (fun _ => 0) secondReport <+: s.shared.sent 5 := by
    refine ⟨_, rfl, rfl, ?_, ?_, ?_⟩
    · decide +kernel
    · decide +kernel
    · decide +kernel
  rcases hrun with ⟨s, hs, hdone, hsent, hfirst, hsecond⟩
  refine ⟨s, ⟨crossedTurns, hs⟩, ?_, ?_⟩
  · intro th hth
    exact List.isEmpty_iff.mp (List.all_eq_true.mp hdone th hth)
  · rintro ⟨blocks, hpublished, hcontents⟩
    cases blocks with
    | nil => exact hsent hcontents
    | cons b rest =>
        have hstart : b.pieces.flatten <+: s.shared.sent 5 := by
          rw [hcontents]
          exact List.prefix_append _ _
        rcases published_selected (hpublished b List.mem_cons_self) with
          heq | heq
        · exact hfirst (heq ▸ hstart)
        · exact hsecond (heq ▸ hstart)

/-- The second forwarder has a line, but waits until the first one is through. -/
theorem blocks_in_turn :
    exists s, Reachable (guarded System.inTurn System.forward) threeClients s ∧
      s.shared.sent 5 = selectedTopics (fun _ => 0) firstReport ++
        selectedTopics (fun _ => 0) secondReport ∧
      exists blocks : List (Block Fd Byte),
        blocks.Pairwise (fun b b' =>
          b.source = b'.source -> b.number < b'.number) ∧
        s.shared.sent 5 = contents blocks := by
  have hrun :
      exists s, runFrom (guarded System.inTurn System.forward) threeClients
            (turns 0 17 ++ turns 1 17 ++ turns 0 6 ++ turns 1 6) = some s ∧
          s.shared.sent 5 = selectedTopics (fun _ => 0) firstReport ++
            selectedTopics (fun _ => 0) secondReport ∧
          s.threads.all (fun th => th.pending.isEmpty) = true :=
    ⟨_, rfl, rfl, rfl⟩
  rcases hrun with ⟨s, hs, hsent, hdone⟩
  rcases blocks_atomic_and_ordered serving_threeClients ⟨_, hs⟩ 5 with
    ⟨blocks, _, hordered, hquiet, _⟩
  refine ⟨s, ⟨_, hs⟩, hsent, blocks, hordered, hquiet ?_⟩
  intro th hth hwriting
  exact hwriting.unfinished
    (List.isEmpty_iff.mp (List.all_eq_true.mp hdone th hth))

end Broker
end MQTTv1
