import MQTTv1.Broker.Atomicity
import MQTTv1.Broker.Blocking
import MQTTv1.Broker.Completeness
import MQTTv1.CLib.Weaving

/-!
# Where the sent texts come from

Forwarders may overtake each other and registrations may go on while they run.
Even so no line is lost or sent twice: behind its handshake, every line that has
been read of a client is the share of one subscriber.
-/

namespace MQTTv1
namespace Broker

open CLib
open Csapp

/-!
# Arrivals
-/

def Event.lineOn (fd : Fd) : Event -> Option (List Byte)
  | .arrive d line => if d = fd then some line else none
  | _ => none

def arrivedLines (events : List Event) (fd : Fd) : List (List Byte) :=
  events.filterMap (Event.lineOn fd)

theorem arrivedLines_append (events : List Event) (e : Event) (fd : Fd) :
    arrivedLines (events ++ [e]) fd =
      arrivedLines events fd ++ (e.lineOn fd).toList := by
  unfold arrivedLines
  rw [List.filterMap_append]
  cases hline : e.lineOn fd <;> simp [hline]

theorem getElem?_arrivedLines {events : List Event} {e : Event} {fd : Fd}
    {k : Nat} {bytes : List Byte}
    (h : (arrivedLines events fd)[k]? = some bytes) :
    (arrivedLines (events ++ [e]) fd)[k]? = some bytes := by
  rw [arrivedLines_append,
    List.getElem?_append_left (List.getElem?_eq_some_iff.mp h).choose]
  exact h

/-- What was read are the first lines, and the others wait. -/
def Queued (events : List Event) (s : Shared) : Prop :=
  forall fd, s.taken fd ≤ (arrivedLines events fd).length ∧
    s.inbox fd = (arrivedLines events fd).drop (s.taken fd)

structure Shared.Takes (s s' : Shared) (fd : Fd) (bytes : List Byte) :
    Prop where
  first : (s.inbox fd).head? = some bytes
  inbox : s'.inbox = Function.update s.inbox fd (s.inbox fd).tail
  taken : s'.taken = Function.update s.taken fd (s.taken fd + 1)

section

variable {s s' : Shared} {fd : Fd} {bytes : List Byte} {events : List Event}

theorem takeLine_takes {line : Option (List Byte)}
    (h : s.takeLine fd = some (line, s')) :
    (line = none ∧ s' = s ∧ s.hungUp fd = true) ∨
      exists bytes, line = some bytes ∧ s.Takes s' fd bytes := by
  rcases Shared.takeLine_some h with
    ⟨bytes, rest, rfl, hinbox, rfl⟩ | ⟨rfl, rfl⟩
  · right
    refine ⟨bytes, rfl, ?_, ?_, rfl⟩
    · rw [hinbox]
      rfl
    · rw [hinbox]
      rfl
  · left
    refine ⟨rfl, rfl, ?_⟩
    by_contra hopen
    unfold Shared.takeLine at h
    cases hinbox : s'.inbox fd with
    | nil =>
        rw [hinbox] at h
        simp only [if_neg hopen] at h
        cases h
    | cons bytes rest =>
        rw [hinbox] at h
        cases h

theorem Shared.Takes.taken_ne (h : s.Takes s' fd bytes) :
    s'.taken ≠ s.taken := by
  intro heq
  have hfd := congrFun (h.taken.symm.trans heq) fd
  rw [Function.update_self] at hfd
  lia

theorem Queued.takes (hc : Queued events s) (h : s.Takes s' fd bytes) :
    Queued events s' ∧
      (arrivedLines events fd)[s.taken fd]? = some bytes := by
  have hnext : (arrivedLines events fd)[s.taken fd]? = some bytes := by
    rw [← h.first, (hc fd).right, List.head?_drop]
  refine ⟨?_, hnext⟩
  intro d
  rw [h.taken, h.inbox, Function.update_apply, Function.update_apply]
  by_cases hd : d = fd
  · rw [if_pos hd, if_pos hd, hd, (hc fd).right, List.tail_drop]
    exact ⟨(List.getElem?_eq_some_iff.mp hnext).choose, rfl⟩
  · rw [if_neg hd, if_neg hd]
    exact hc d

theorem Queued.same (hc : Queued events s) (hinbox : s'.inbox = s.inbox)
    (htaken : s'.taken = s.taken) : Queued events s' := by
  intro d
  rw [hinbox, htaken]
  exact hc d

end

theorem Thread.Registers.reads {th th' : Thread} {s s' : Shared}
    (h : th.Registers s th' s') :
    (s'.inbox = s.inbox ∧ s'.taken = s.taken ∧
      (s.hungUp th.connfd = false ->
        min (th'.stage - 2) 2 = min (th.stage - 2) 2)) ∨
      exists bytes, s.Takes s' th.connfd bytes ∧ 2 ≤ th.stage ∧
        th.stage ≤ 3 ∧ th'.stage = th.stage + 1 := by
  cases h with
  | readName hpoint line _ hline | readSus hpoint line _ hline =>
      rcases takeLine_takes hline with ⟨_, rfl, hend⟩ | ⟨bytes, _, htakes⟩
      · left
        refine ⟨rfl, rfl, ?_⟩
        intro hopen
        rw [hend] at hopen
        cases hopen
      · right
        refine ⟨bytes, htakes, ?_⟩
        simp [Thread.stage, hpoint]
  | postControl hpoint =>
      left
      split
      · exact ⟨rfl, rfl, fun _ => by simp [Thread.stage, hpoint]⟩
      · exact ⟨rfl, rfl, fun _ => by simp [Thread.stage, hpoint]⟩
  | storeTopic k hpoint | topicsDone k hpoint =>
      left
      refine ⟨rfl, rfl, fun _ => ?_⟩
      simp only [Thread.stage, Point.stage, hpoint]
      lia
  | waitMutex hpoint | storeFd hpoint | storeName hpoint | storeNone hpoint
  | storeSus hpoint | advance hpoint | postMutex hpoint =>
      exact Or.inl ⟨rfl, rfl, fun _ => by simp [Thread.stage, hpoint]⟩

theorem Thread.Forwards.reads {th th' : Thread} {left : MessageLeftover}
    {s s' : Shared} (h : th.Forwards left s th' s') :
    (s'.inbox = s.inbox ∧ s'.taken = s.taken) ∨
      exists i bytes, th.point = .readLine i ∧ s.Takes s' th.fdPub bytes ∧
        th' = th.receives i (s.taken th.fdPub) left (some bytes) := by
  cases h with
  | readLine i line _ hpoint hline =>
      rcases takeLine_takes hline with ⟨_, rfl, _⟩ | ⟨bytes, rfl, htakes⟩
      · exact Or.inl ⟨rfl, rfl⟩
      · exact Or.inr ⟨i, bytes, hpoint, htakes, rfl⟩
  | _ => exact Or.inl ⟨rfl, rfl⟩

/-!
# Both ends of a service
-/

def Point.lookups : Point -> Nat
  | .loadSuscriber _ => 1
  | .loadTopic _ _ => 2
  | .findPublisher _ => 2
  | .findSuscriber _ => 3
  | .readLine _ => 4
  | .write _ => 4
  | _ => 0

/-- The forwarder is at the row of a client, and its ends are of that row. -/
structure Thread.Aims (th : Thread) (threads : List Thread) (i : Nat)
    (row : Row) : Prop where
  owner : OwnerOf threads 6 i row
  subscribed : row.Subscribed
  publisher : 1 ≤ th.point.lookups -> th.publisher = row.sus
  suscriber : 2 ≤ th.point.lookups -> th.suscriber = some row.name
  fdPub : 3 ≤ th.point.lookups -> NamedAt threads th.fdPub row.sus
  fdSus : 4 ≤ th.point.lookups -> NamedAt threads th.fdSus row.name

section

variable {th th' : Thread} {s s' : System} {row : Row} {i : Nat}

theorem Thread.Aims.mono {e : Event} (h : th.Aims s.threads i row)
    (hstep : s.step e = some s') : th.Aims s'.threads i row where
  owner := (ownersView_step hstep).row i row h.owner
  subscribed := h.subscribed
  publisher := h.publisher
  suscriber := h.suscriber
  fdPub := fun hn => (ownersView_step hstep).named _ _ (h.fdPub hn)
  fdSus := fun hn => (ownersView_step hstep).named _ _ (h.fdSus hn)

theorem Thread.Aims.later (h : th.Aims s.threads i row)
    (hlookups : th'.point.lookups = th.point.lookups)
    (hpublisher : th'.publisher = th.publisher)
    (hsuscriber : th'.suscriber = th.suscriber)
    (hfdPub : th'.fdPub = th.fdPub) (hfdSus : th'.fdSus = th.fdSus) :
    th'.Aims s.threads i row := by
  constructor
  · exact h.owner
  · exact h.subscribed
  · rw [hlookups, hpublisher]
    exact h.publisher
  · rw [hlookups, hsuscriber]
    exact h.suscriber
  · rw [hlookups, hfdPub]
    exact h.fdPub
  · rw [hlookups, hfdSus]
    exact h.fdSus

theorem Thread.Registers.found {shared shared' : Shared}
    (h : th.Registers shared th' shared') : th'.point.found = none := by
  cases h <;> rfl

/-- Step lemma: what a forwarder looks up belongs to the row it found. -/
theorem Thread.Forwards.aims {left : MessageLeftover} {shared : Shared}
    (hs : Registering s) (h : th.Forwards left s.shared th' shared)
    (haims : forall k, th.point.found = some k ->
      exists row, th.Aims s.threads k row)
    (hfound : th'.point.found = some i) :
    exists row, th'.Aims s.threads i row := by
  cases h with
  | waitControl hpoint | passOver k hpoint | rowFound k sus hpoint
  | rowNone k sus hpoint | written k hpoint => cases hfound
  | rowSubscribed k sus hpoint hsus hnone =>
      cases hfound
      rcases hs.owned i sus hsus with ⟨row, howner⟩
      have hentry := (howner.tables hs (by lia)).right.right
      rw [hsus] at hentry
      refine ⟨row, howner, ?_, ?_, ?_, ?_, ?_⟩
      · rw [Row.Subscribed, ← Option.some.inj hentry]
        exact hnone
      all_goals
        intro hn
        cases hn
  | loadPublisher k sus hpoint hsus =>
      cases hfound
      rcases haims i (by rw [hpoint]; rfl) with ⟨row, hrow⟩
      have hentry := (hrow.owner.tables hs (by lia)).right.right
      rw [hsus] at hentry
      refine ⟨row, hrow.owner, hrow.subscribed, ?_, ?_, ?_, ?_⟩
      · intro _
        exact Option.some.inj hentry
      all_goals
        intro hn
        simp [Point.lookups] at hn
  | loadSuscriber k hpoint =>
      cases hfound
      rcases haims i (by rw [hpoint]; rfl) with ⟨row, hrow⟩
      refine ⟨row, hrow.owner, hrow.subscribed, ?_, ?_, ?_, ?_⟩
      · intro _
        exact hrow.publisher (by simp [hpoint, Point.lookups])
      · intro _
        exact (hrow.owner.tables hs (by lia)).left
      all_goals
        intro hn
        simp [Point.lookups] at hn
  | loadTopic k j hpoint | topicsLoaded k j hpoint =>
      cases hfound
      rcases haims i (by rw [hpoint]; rfl) with ⟨row, hrow⟩
      exact ⟨row, hrow.later (by rw [hpoint]; rfl) rfl rfl rfl rfl⟩
  | findPublisher k fd hpoint hfd =>
      cases hfound
      rcases haims i (by rw [hpoint]; rfl) with ⟨row, hrow⟩
      have hlookups : th.point.lookups = 2 := by
        rw [hpoint]
        rfl
      have hpublisher := hrow.publisher (by lia)
      refine ⟨row, hrow.owner, hrow.subscribed, fun _ => hpublisher,
        fun _ => hrow.suscriber (by lia), ?_, ?_⟩
      · intro _
        rw [← hpublisher]
        exact OwnerOf.found hs hfd
      · intro hn
        simp [Point.lookups] at hn
  | findSuscriber k name fd hpoint hname hfd =>
      cases hfound
      rcases haims i (by rw [hpoint]; rfl) with ⟨row, hrow⟩
      have hlookups : th.point.lookups = 3 := by
        rw [hpoint]
        rfl
      have hsuscriber := hrow.suscriber (by lia)
      refine ⟨row, hrow.owner, hrow.subscribed,
        fun _ => hrow.publisher (by lia), fun _ => hsuscriber,
        fun _ => hrow.fdPub (by lia), ?_⟩
      intro _
      rw [hname] at hsuscriber
      rw [← Option.some.inj hsuscriber]
      exact OwnerOf.found hs hfd
  | readLine k line _ hpoint hline =>
      cases line with
      | none => cases hfound
      | some bytes =>
          cases hfound
          rcases haims i (by rw [hpoint]; rfl) with ⟨row, hrow⟩
          exact ⟨row, hrow.later (by rw [hpoint]; rfl) rfl rfl rfl rfl⟩
  | write k buf rest hpoint hpending =>
      cases hfound
      rcases haims i (by rw [hpoint]; rfl) with ⟨row, hrow⟩
      exact ⟨row, hrow.later (by rw [hpoint]) rfl rfl rfl rfl⟩

end

/-!
# The invariant
-/

/--
A client that subscribed to the first end by name has the name of the second
one, and the texts are topics of line `k` of the first end.
-/
structure Forwarded (events : List Event) (threads : List Thread)
    (fdPub fdSus : Fd) (k : Nat) (block : List CStr) : Prop where
  row : exists i row, OwnerOf threads 6 i row ∧ row.Subscribed ∧
    NamedAt threads fdPub row.sus ∧ NamedAt threads fdSus row.name
  texts : exists (bytes : List Byte) (topics : Nat -> Int)
      (left : MessageLeftover),
    (arrivedLines events fdPub)[k]? = some bytes ∧
      block = topicWrites topics
        (split (stringOf bytes) (lit ",") left.pubAvailableInfo) left.string

theorem Forwarded.mono {events : List Event} {s s' : System} {e : Event}
    {fdPub fdSus : Fd} {k : Nat} {block : List CStr}
    (h : Forwarded events s.threads fdPub fdSus k block)
    (hstep : s.step e = some s') :
    Forwarded (events ++ [e]) s'.threads fdPub fdSus k block := by
  have hle := ownersView_step hstep
  rcases h.row with ⟨i, row, howner, hsub, hpub, hsus⟩
  rcases h.texts with ⟨bytes, topics, left, hline, hblock⟩
  exact ⟨⟨i, row, hle.row i row howner, hsub, hle.named _ _ hpub,
    hle.named _ _ hsus⟩, bytes, topics, left, getElem?_arrivedLines hline,
    hblock⟩

/-- What every run keeps, with the weave of all that was sent. -/
structure Provenance (events : List Event) (s : System)
    (w : Weave Fd Fd Byte) : Prop where
  registering : Registering s
  connfds : (s.threads.map Thread.connfd).Nodup
  queued : Queued events s.shared
  aims : forall (t i : Nat) th, s.threads[t]? = some th ->
    th.point.found = some i -> exists row, th.Aims s.threads i row
  woven : Woven (Forwarded events s.threads) s.relay w
  /-- A client whose lines are still to be read has served nobody. -/
  opening : forall (t : Nat) th, s.threads[t]? = some th -> th.stage ≤ 3 ->
    s.shared.taken th.connfd = w.skipped th.connfd ∧
      w.skipped th.connfd ≤ th.stage - 2
  handshake : forall fd, w.skipped fd ≤ 2
  hungUp : forall fd, s.shared.hungUp fd = true -> Event.hangUp fd ∈ events
  /-- A client that has not hung up has sent both lines of its handshake. -/
  greeted : forall (t : Nat) th, s.threads[t]? = some th ->
    Event.hangUp th.connfd ∉ events ->
      w.skipped th.connfd = min (th.stage - 2) 2
  unopened : forall fd, fd ∉ s.threads.map Thread.connfd ->
    s.shared.taken fd = 0

theorem provenance_initial : Provenance [] System.initial Weave.empty where
  registering := registering_initial
  connfds := List.nodup_nil
  queued := fun _ => ⟨Nat.le_refl 0, rfl⟩
  aims := by
    intro t i th hth
    simp [System.initial] at hth
  woven := woven_empty (fun _ => rfl) (fun _ => rfl) (fun _ => rfl)
  opening := by
    intro t th hth
    simp [System.initial] at hth
  handshake := fun _ => Nat.zero_le 2
  hungUp := by
    intro fd h
    cases h
  greeted := by
    intro t th hth
    simp [System.initial] at hth
  unopened := fun _ _ => rfl

/-!
# One step
-/

theorem NamedAt.thread {threads : List Thread} {fd : Fd} {name : CStr}
    (h : NamedAt threads fd name) :
    exists (u : Nat) (owner : Thread), threads[u]? = some owner ∧
      5 ≤ owner.stage ∧ owner.connfd = fd := by
  rcases h with ⟨i, row, ⟨u, owner, hu, _, hstage, rfl⟩, _, hfd⟩
  exact ⟨u, owner, hu, hstage, hfd⟩

section

variable {s s' : System} {t : Nat} {th th' : Thread}
variable {events : List Event} {e : Event} {w w' : Weave Fd Fd Byte}

theorem Thread.Registers.relay (h : th.Registers s.shared th' s'.shared)
    (hth : s.threads[t]? = some th)
    (hthreads : s'.threads = s.threads.set t th') :
    s'.relay = { s.relay with taken := s'.shared.taken } := by
  have hset := System.relay_set hth hthreads
  have hown := System.relay_held hth
  have hnone : th.held = none ∧ th'.held = none := by
    generalize s'.shared = shared at h
    unfold Thread.held
    cases h with
    | waitMutex hpoint | storeFd hpoint | readName hpoint | readSus hpoint
    | storeName hpoint | storeNone hpoint | storeSus hpoint
    | storeTopic k hpoint | topicsDone k hpoint | advance hpoint
    | postControl hpoint | postMutex hpoint =>
        rw [hpoint]
        exact ⟨rfl, rfl⟩
  apply System.relay_eq _ rfl h.sent
  rw [hset, hnone.right, ← hnone.left, ← hown, Function.update_eq_self]

theorem Provenance.others (hp : Provenance events s w) {u v : Nat}
    {owner other : Thread} {fd : Fd} (hu : s.threads[u]? = some owner)
    (hfd : owner.connfd = fd) (hv : s.threads[v]? = some other)
    (hne : v ≠ u) : other.connfd ≠ fd := by
  intro hsame
  exact hne (connfd_inj hp.connfds hv hu (hsame.trans hfd.symm))

theorem Queued.quiet {shared : Shared} (hc : Queued events shared)
    (hline : forall fd, e.lineOn fd = none) :
    Queued (events ++ [e]) shared := by
  intro fd
  rw [arrivedLines_append, hline fd, Option.toList_none, List.append_nil]
  exact hc fd

/-- All shares stay legitimate. -/
theorem Provenance.woven_step (hp : Provenance events s w)
    (hstep : s.step e = some s') :
    Woven (Forwarded (events ++ [e]) s'.threads) s.relay w :=
  hp.woven.mono fun p d k block (hlegit :
    Forwarded events s.threads p d k block) => hlegit.mono hstep

theorem Provenance.hungUp_step (hp : Provenance events s w)
    (h : s'.shared.hungUp = s.shared.hungUp) (fd : Fd)
    (hfd : s'.shared.hungUp fd = true) : Event.hangUp fd ∈ events ++ [e] := by
  rw [h] at hfd
  exact List.mem_append_left _ (hp.hungUp fd hfd)

theorem Provenance.aims_step (hp : Provenance events s w)
    (hstep : s.step e = some s') (hth : s.threads[t]? = some th)
    (hthreads : s'.threads = s.threads.set t th')
    (hnew : forall i, th'.point.found = some i ->
      exists row, th'.Aims s.threads i row)
    (u i : Nat) (other : Thread) (hother : s'.threads[u]? = some other)
    (hfound : other.point.found = some i) :
    exists row, other.Aims s'.threads i row := by
  rw [hthreads] at hother
  rcases getElem?_set_cases hth hother with ⟨_, rfl⟩ | ⟨_, hold⟩
  · rcases hnew i hfound with ⟨row, hrow⟩
    exact ⟨row, hrow.mono hstep⟩
  · rcases hp.aims u i other hold hfound with ⟨row, hrow⟩
    exact ⟨row, hrow.mono hstep⟩

/-!
## A thread that registers
-/

theorem Provenance.registers_quiet (hp : Provenance events s w)
    (hstep : s.step e = some s') (hth : s.threads[t]? = some th)
    (h : th.Registers s.shared th' s'.shared)
    (hthreads : s'.threads = s.threads.set t th')
    (hline : forall fd, e.lineOn fd = none)
    (hinbox : s'.shared.inbox = s.shared.inbox)
    (htaken : s'.shared.taken = s.shared.taken)
    (hopen : s.shared.hungUp th.connfd = false ->
      min (th'.stage - 2) 2 = min (th.stage - 2) 2) :
    Provenance (events ++ [e]) s' w := by
  have hmap : s'.threads.map Thread.connfd = s.threads.map Thread.connfd := by
    rw [hthreads]
    exact map_set_same hth h.connfd_eq
  constructor
  case registering => exact hp.registering.step hstep
  case connfds => exact connfds_step hp.connfds hstep
  case queued => exact (hp.queued.same hinbox htaken).quiet hline
  case aims =>
    apply hp.aims_step hstep hth hthreads
    intro i hfound
    rw [h.found] at hfound
    cases hfound
  case woven =>
    rw [h.relay hth hthreads, htaken]
    exact hp.woven_step hstep
  case opening =>
    intro u other hother hearly
    rw [hthreads] at hother
    rw [htaken]
    rcases getElem?_set_cases hth hother with ⟨_, rfl⟩ | ⟨_, hold⟩
    · have hle := h.stage_le.right
      rcases hp.opening t th hth (by lia) with ⟨hfirst, hskipped⟩
      rw [h.connfd_eq]
      exact ⟨hfirst, by lia⟩
    · exact hp.opening u other hold hearly
  case handshake => exact hp.handshake
  case hungUp => exact hp.hungUp_step h.inbox_frame.left
  case greeted =>
    intro u other hother hno
    have hbefore := mt (List.mem_append_left [e]) hno
    rw [hthreads] at hother
    rcases getElem?_set_cases hth hother with ⟨_, rfl⟩ | ⟨_, hold⟩
    · rw [h.connfd_eq] at hbefore ⊢
      have hfalse : s.shared.hungUp th.connfd = false :=
        Bool.eq_false_iff.mpr (mt (hp.hungUp th.connfd) hbefore)
      rw [hopen hfalse]
      exact hp.greeted t th hth hbefore
    · exact hp.greeted u other hold hbefore
  case unopened =>
    intro fd hfd
    rw [hmap] at hfd
    rw [htaken]
    exact hp.unopened fd hfd

/-- A line of a handshake is skipped. -/
theorem Provenance.registers_read (hp : Provenance events s w)
    (hstep : s.step e = some s') (hth : s.threads[t]? = some th)
    (h : th.Registers s.shared th' s'.shared)
    (hthreads : s'.threads = s.threads.set t th')
    (hline : forall fd, e.lineOn fd = none) {bytes : List Byte}
    (htakes : s.shared.Takes s'.shared th.connfd bytes)
    (hlow : 2 ≤ th.stage) (hhigh : th.stage ≤ 3)
    (hstage : th'.stage = th.stage + 1) :
    Provenance (events ++ [e]) s' (w.skip th.connfd) := by
  have hmap : s'.threads.map Thread.connfd = s.threads.map Thread.connfd := by
    rw [hthreads]
    exact map_set_same hth h.connfd_eq
  rcases hp.opening t th hth hhigh with ⟨hfirst, hskipped⟩
  constructor
  case registering => exact hp.registering.step hstep
  case connfds => exact connfds_step hp.connfds hstep
  case queued => exact (hp.queued.takes htakes).left.quiet hline
  case aims =>
    apply hp.aims_step hstep hth hthreads
    intro i hfound
    rw [h.found] at hfound
    cases hfound
  case woven =>
    rw [h.relay hth hthreads, htakes.taken]
    exact (hp.woven_step hstep).skip hfirst
  case opening =>
    intro u other hother hearly
    show s'.shared.taken _ = Function.update w.skipped th.connfd _ _ ∧
      Function.update w.skipped th.connfd _ _ ≤ _
    rw [hthreads] at hother
    rw [htakes.taken]
    rcases getElem?_set_cases hth hother with ⟨_, rfl⟩ | ⟨hut, hold⟩
    · rw [h.connfd_eq, Function.update_self, Function.update_self, hfirst]
      exact ⟨rfl, by lia⟩
    · have hne := hp.others hth rfl hold hut
      rw [Function.update_of_ne hne, Function.update_of_ne hne]
      exact hp.opening u other hold hearly
  case handshake =>
    intro fd
    show Function.update w.skipped th.connfd _ fd ≤ 2
    rw [Function.update_apply]
    split
    · lia
    · exact hp.handshake fd
  case hungUp => exact hp.hungUp_step h.inbox_frame.left
  case greeted =>
    intro u other hother hno
    have hbefore := mt (List.mem_append_left [e]) hno
    rw [hthreads] at hother
    show Function.update w.skipped th.connfd _ _ = _
    rcases getElem?_set_cases hth hother with ⟨_, rfl⟩ | ⟨hut, hold⟩
    · rw [h.connfd_eq] at hbefore ⊢
      rw [Function.update_self, hp.greeted t th hth hbefore, hstage]
      lia
    · rw [Function.update_of_ne (hp.others hth rfl hold hut)]
      exact hp.greeted u other hold hbefore
  case unopened =>
    intro fd hfd
    rw [hmap] at hfd
    rw [htakes.taken, Function.update_of_ne]
    · exact hp.unopened fd hfd
    · rintro rfl
      exact hfd (List.mem_map_of_mem (List.mem_of_getElem? hth))

theorem Provenance.registers (hp : Provenance events s w)
    (hstep : s.step e = some s') (hth : s.threads[t]? = some th)
    (h : th.Registers s.shared th' s'.shared)
    (hthreads : s'.threads = s.threads.set t th')
    (hline : forall fd, e.lineOn fd = none) :
    exists w', Provenance (events ++ [e]) s' w' := by
  rcases h.reads with
    ⟨hinbox, htaken, hopen⟩ | ⟨bytes, htakes, hlow, hhigh, hstage⟩
  · exact ⟨w, hp.registers_quiet hstep hth h hthreads hline hinbox htaken
      hopen⟩
  · exact ⟨_, hp.registers_read hstep hth h hthreads hline htakes hlow hhigh
      hstage⟩

/-!
## A thread that forwards
-/

theorem Thread.Keeps.earlier (h : th.Keeps th')
    (hth : s.threads[t]? = some th)
    (hthreads : s'.threads = s.threads.set t th') {u : Nat} {other : Thread}
    (hother : s'.threads[u]? = some other) (hearly : other.stage ≤ 3) :
    s.threads[u]? = some other := by
  rw [hthreads] at hother
  rcases getElem?_set_cases hth hother with ⟨_, rfl⟩ | ⟨_, hold⟩
  · rw [h.stage.right] at hearly
    lia
  · exact hold

theorem Provenance.greeted_keeps (hp : Provenance events s w)
    (h : th.Keeps th') (hth : s.threads[t]? = some th)
    (hthreads : s'.threads = s.threads.set t th') (u : Nat) (other : Thread)
    (hother : s'.threads[u]? = some other)
    (hno : Event.hangUp other.connfd ∉ events ++ [e]) :
    w.skipped other.connfd = min (other.stage - 2) 2 := by
  have hbefore := mt (List.mem_append_left [e]) hno
  rw [hthreads] at hother
  rcases getElem?_set_cases hth hother with ⟨_, rfl⟩ | ⟨_, hold⟩
  · rw [h.connfd] at hbefore ⊢
    rw [h.stage.right, ← h.stage.left]
    exact hp.greeted t th hth hbefore
  · exact hp.greeted u other hold hbefore

/-- A step without a read writes or drops what is held, or does neither. -/
theorem Provenance.forwards_woven {left : MessageLeftover}
    (hp : Provenance events s w) (hstep : s.step e = some s')
    (hth : s.threads[t]? = some th)
    (h : th.Forwards left s.shared th' s'.shared)
    (hthreads : s'.threads = s.threads.set t th')
    (htaken : s'.shared.taken = s.shared.taken) :
    exists w', Woven (Forwarded (events ++ [e]) s'.threads) s'.relay w' ∧
      w'.skipped = w.skipped := by
  have hwoven := hp.woven_step hstep
  have hown := System.relay_held hth
  rcases h.relay hth hthreads with
    hsame | ⟨_, htake, _⟩ | ⟨i, buf, rest, item, _, hheld, hpending, hput⟩ |
    ⟨item, hheld, hdone, hdrop⟩
  · exact ⟨w, by rw [hsame]; exact hwoven, rfl⟩
  · -- a line that is taken is counted
    have hcount := congrFun (congrArg Relay.taken htake) th'.fdPub
    change s'.shared.taken th'.fdPub =
      Function.update s.shared.taken th'.fdPub _ th'.fdPub at hcount
    rw [Function.update_self, htaken] at hcount
    exact absurd hcount.symm (Nat.succ_ne_self _)
  · rw [hput]
    exact ⟨_, hwoven.put (hown.trans hheld) hpending, rfl⟩
  · rw [hdrop]
    exact ⟨w, hwoven.drop (hown.trans hheld) hdone, rfl⟩

theorem Provenance.forwards_quiet {left : MessageLeftover}
    (hp : Provenance events s w) (hstep : s.step e = some s')
    (hth : s.threads[t]? = some th)
    (h : th.Forwards left s.shared th' s'.shared)
    (hthreads : s'.threads = s.threads.set t th')
    (hline : forall fd, e.lineOn fd = none)
    (hinbox : s'.shared.inbox = s.shared.inbox)
    (htaken : s'.shared.taken = s.shared.taken) :
    exists w', Provenance (events ++ [e]) s' w' := by
  have hkeeps := h.keeps.left
  have hmap : s'.threads.map Thread.connfd = s.threads.map Thread.connfd := by
    rw [hthreads]
    exact map_set_same hth hkeeps.connfd
  rcases hp.forwards_woven hstep hth h hthreads htaken with
    ⟨w', hwoven, hskipped⟩
  refine ⟨w', ?_⟩
  constructor
  case registering => exact hp.registering.step hstep
  case connfds => exact connfds_step hp.connfds hstep
  case queued => exact (hp.queued.same hinbox htaken).quiet hline
  case aims =>
    apply hp.aims_step hstep hth hthreads
    intro i hfound
    exact h.aims hp.registering (fun k => hp.aims t k th hth) hfound
  case woven => exact hwoven
  case opening =>
    intro u other hother hearly
    rw [htaken, hskipped]
    exact hp.opening u other (hkeeps.earlier hth hthreads hother hearly) hearly
  case handshake =>
    rw [hskipped]
    exact hp.handshake
  case hungUp => exact hp.hungUp_step h.inbox_frame.left
  case greeted =>
    rw [hskipped]
    exact hp.greeted_keeps hkeeps hth hthreads
  case unopened =>
    intro fd hfd
    rw [hmap] at hfd
    rw [htaken]
    exact hp.unopened fd hfd

/-- The line that is read is the next one of a client that is named. -/
theorem Provenance.forwards_read {left : MessageLeftover}
    (hp : Provenance events s w) (hstep : s.step e = some s')
    (hth : s.threads[t]? = some th)
    (h : th.Forwards left s.shared th' s'.shared)
    (hthreads : s'.threads = s.threads.set t th')
    (hline : forall fd, e.lineOn fd = none) {i : Nat} {bytes : List Byte}
    (hpoint : th.point = .readLine i)
    (htakes : s.shared.Takes s'.shared th.fdPub bytes)
    (hreceives : th' =
      th.receives i (s.shared.taken th.fdPub) left (some bytes)) :
    exists w', Provenance (events ++ [e]) s' w' := by
  have hkeeps := h.keeps.left
  have hmap : s'.threads.map Thread.connfd = s.threads.map Thread.connfd := by
    rw [hthreads]
    exact map_set_same hth hkeeps.connfd
  rcases hp.aims t i th hth (by rw [hpoint]; rfl) with ⟨row, hrow⟩
  have hlookups : th.point.lookups = 4 := by
    rw [hpoint]
    rfl
  have hpub := hrow.fdPub (by lia)
  rcases hpub.thread with ⟨v, owner, hv, hstage, hfd⟩
  rcases hp.queued.takes htakes with ⟨hqueued, hnext⟩
  have hlegit : Forwarded events s.threads th.fdPub th.fdSus
      (s.shared.taken th.fdPub) th'.block := by
    refine ⟨⟨i, row, hrow.owner, hrow.subscribed, hpub,
      hrow.fdSus (by lia)⟩, bytes, th.topicsNumber, left, hnext, ?_⟩
    rw [hreceives]
    rfl
  have hfds : th'.fdPub = th.fdPub ∧ th'.fdSus = th.fdSus := by
    rw [hreceives]
    exact ⟨rfl, rfl⟩
  refine ⟨w.assign th.fdPub (s.relay.taken th.fdPub) th.fdSus th'.block, ?_⟩
  constructor
  case registering => exact hp.registering.step hstep
  case connfds => exact connfds_step hp.connfds hstep
  case queued => exact hqueued.quiet hline
  case aims =>
    apply hp.aims_step hstep hth hthreads
    intro i hfound
    exact h.aims hp.registering (fun k => hp.aims t k th hth) hfound
  case woven =>
    rcases h.relay hth hthreads with
      hsame | ⟨hfree, htake, _⟩ | ⟨i, buf, rest, item, _, _, _, hput⟩ |
      ⟨item, _, _, hdrop⟩
    · exact absurd (congrArg Relay.taken hsame) htakes.taken_ne
    · rw [htake, hfds.left, hfds.right]
      exact (hp.woven_step hstep).take ((System.relay_held hth).trans hfree)
        (hlegit.mono hstep)
    · exact absurd (congrArg Relay.taken hput) htakes.taken_ne
    · exact absurd (congrArg Relay.taken hdrop) htakes.taken_ne
  case opening =>
    intro u other hother hearly
    have hold := hkeeps.earlier hth hthreads hother hearly
    have hut : u ≠ v := by
      rintro rfl
      rw [hv] at hold
      cases hold
      lia
    rw [htakes.taken, Function.update_of_ne (hp.others hv hfd hold hut)]
    exact hp.opening u other hold hearly
  case handshake => exact hp.handshake
  case hungUp => exact hp.hungUp_step h.inbox_frame.left
  case greeted => exact hp.greeted_keeps hkeeps hth hthreads
  case unopened =>
    intro fd hother
    rw [hmap] at hother
    rw [htakes.taken, Function.update_of_ne]
    · exact hp.unopened fd hother
    · rintro rfl
      rw [← hfd] at hother
      exact hother (List.mem_map_of_mem (List.mem_of_getElem? hv))

theorem Provenance.forwards {left : MessageLeftover}
    (hp : Provenance events s w) (hstep : s.step e = some s')
    (hth : s.threads[t]? = some th)
    (h : th.Forwards left s.shared th' s'.shared)
    (hthreads : s'.threads = s.threads.set t th')
    (hline : forall fd, e.lineOn fd = none) :
    exists w', Provenance (events ++ [e]) s' w' := by
  rcases h.reads with ⟨hinbox, htaken⟩ | ⟨i, bytes, hpoint, htakes, hreceives⟩
  · exact hp.forwards_quiet hstep hth h hthreads hline hinbox htaken
  · exact hp.forwards_read hstep hth h hthreads hline hpoint htakes hreceives

/-!
## The other events
-/

theorem System.relay_accept (s : System) (connfd : Fd) (left : Leftover) :
    System.relay
        { s with threads := s.threads ++ [Thread.start connfd left] } =
      s.relay := by
  apply System.relay_eq _ rfl rfl
  funext u
  show ((s.threads ++ [Thread.start connfd left])[u]?).bind _ =
    (s.threads[u]?).bind _
  rw [List.getElem?_append]
  split
  · rfl
  · rename_i hge
    rw [List.getElem?_eq_none (Nat.le_of_not_lt hge)]
    cases hu : [Thread.start connfd left][u - s.threads.length]? with
    | none => rfl
    | some other =>
        have hmem := List.mem_of_getElem? hu
        rw [List.mem_singleton.mp hmem]
        rfl

theorem Provenance.accept {connfd : Fd} {left : Leftover}
    (hp : Provenance events s w)
    (hstep : s.step (.accept connfd left) = some s') :
    Provenance (events ++ [.accept connfd left]) s' w := by
  have hrun := hstep
  change (if _ then none else some _) = some s' at hrun
  split at hrun
  · cases hrun
  · rename_i hnew
    cases hrun
    have hzero : s.shared.taken connfd = 0 ∧ w.skipped connfd = 0 := by
      have htaken : s.shared.taken connfd = 0 := hp.unopened connfd hnew
      have hle := hp.woven.skipped connfd
      change w.skipped connfd ≤ s.shared.taken connfd at hle
      exact ⟨htaken, by lia⟩
    constructor
    case registering => exact hp.registering.step hstep
    case connfds => exact connfds_step hp.connfds hstep
    case queued => exact hp.queued.quiet fun _ => rfl
    case aims =>
      intro u i other hother hfound
      rcases getElem?_append_cases hother with ⟨_, rfl⟩ | hold
      · cases hfound
      · rcases hp.aims u i other hold hfound with ⟨row, hrow⟩
        exact ⟨row, hrow.mono hstep⟩
    case woven =>
      rw [System.relay_accept]
      exact hp.woven_step hstep
    case opening =>
      intro u other hother hearly
      rcases getElem?_append_cases hother with ⟨_, rfl⟩ | hold
      · show s.shared.taken connfd = w.skipped connfd ∧ w.skipped connfd ≤ _
        rw [hzero.left, hzero.right]
        exact ⟨rfl, Nat.zero_le _⟩
      · exact hp.opening u other hold hearly
    case handshake => exact hp.handshake
    case hungUp => exact hp.hungUp_step rfl
    case greeted =>
      intro u other hother hno
      rcases getElem?_append_cases hother with ⟨_, rfl⟩ | hold
      · exact hzero.right
      · exact hp.greeted u other hold (mt (List.mem_append_left _) hno)
    case unopened =>
      intro fd hfd
      apply hp.unopened fd
      intro hmem
      rw [List.map_append] at hfd
      exact hfd (List.mem_append_left _ hmem)

theorem Provenance.arrive {fd : Fd} {line : List Byte}
    (hp : Provenance events s w) (hstep : s.step (.arrive fd line) = some s') :
    Provenance (events ++ [.arrive fd line]) s' w := by
  have hrun := hstep
  cases hrun
  refine ⟨hp.registering.step hstep, hp.connfds, ?_, hp.aims,
    hp.woven_step hstep, hp.opening, hp.handshake, hp.hungUp_step rfl, ?_,
    hp.unopened⟩
  · intro d
    rw [arrivedLines_append]
    rcases hp.queued d with ⟨hle, hinbox⟩
    show _ ∧ Function.update s.shared.inbox fd _ d = _
    rw [Function.update_apply]
    by_cases hd : d = fd
    · subst hd
      have hone : Event.lineOn d (.arrive d line) = some line := if_pos rfl
      rw [hone, if_pos rfl, hinbox, Option.toList_some,
        List.drop_append_of_le_length hle, List.length_append]
      exact ⟨Nat.le_add_right_of_le hle, rfl⟩
    · have hnone : Event.lineOn d (.arrive fd line) = none :=
        if_neg (Ne.symm hd)
      rw [hnone, if_neg hd, Option.toList_none, List.append_nil]
      exact ⟨hle, hinbox⟩
  · intro u other hother hno
    exact hp.greeted u other hother (mt (List.mem_append_left _) hno)

theorem Provenance.hangUp {fd : Fd} (hp : Provenance events s w)
    (hstep : s.step (.hangUp fd) = some s') :
    Provenance (events ++ [.hangUp fd]) s' w := by
  have hrun := hstep
  cases hrun
  refine ⟨hp.registering.step hstep, hp.connfds, hp.queued.quiet fun _ => rfl,
    hp.aims, hp.woven_step hstep, hp.opening, hp.handshake, ?_, ?_,
    hp.unopened⟩
  · intro d hd
    change Function.update s.shared.hungUp fd true d = true at hd
    rw [Function.update_apply] at hd
    split at hd
    · rename_i heq
      rw [heq]
      exact List.mem_append_right _ List.mem_cons_self
    · exact List.mem_append_left _ (hp.hungUp d hd)
  · intro u other hother hno
    exact hp.greeted u other hother (mt (List.mem_append_left _) hno)

theorem Provenance.step (hp : Provenance events s w)
    (hstep : s.step e = some s') :
    exists w', Provenance (events ++ [e]) s' w' := by
  cases e with
  | accept connfd left => exact ⟨w, hp.accept hstep⟩
  | arrive fd line => exact ⟨w, hp.arrive hstep⟩
  | hangUp fd => exact ⟨w, hp.hangUp hstep⟩
  | run t left =>
      rcases System.step_run hstep with ⟨th, th', hth, hrun, hthreads⟩
      rcases Thread.step_moves hrun with hmove | hmove
      · exact hp.registers hstep hth hmove hthreads fun _ => rfl
      · exact hp.forwards hstep hth hmove hthreads fun _ => rfl

theorem exists_provenance
    (hrun : runFrom System.step System.initial events = some s) :
    exists w, Provenance events s w :=
  @runFrom_history _ _ System.step
    (fun past s => exists w, Provenance past s w)
    (fun _ _ _ _ hs hstep => hs.elim fun _ hp => hp.step hstep)
    events [] System.initial s ⟨_, provenance_initial⟩ hrun

structure Handshakes (events : List Event) (s : System)
    (w : Weave Fd Fd Byte) : Prop where
  bound : forall fd, w.skipped fd ≤ 2
  /-- A client that does not hang up has a handshake of two lines. -/
  two : forall th, th ∈ s.threads -> 4 ≤ th.stage ->
    Event.hangUp th.connfd ∉ events -> w.skipped th.connfd = 2

theorem Provenance.handshakes (hp : Provenance events s w) :
    Handshakes events s w where
  bound := hp.handshake
  two := by
    intro th hth hstage hno
    rcases List.getElem?_of_mem hth with ⟨t, ht⟩
    rw [hp.greeted t th ht hno]
    lia

/--
In every run within the buffers, whatever the order of the steps, the lines read
of a client are its first ones in the order of their arrival.  Up to two of them
are its handshake; every other one is the share of one subscriber.  The texts of
a share go to this subscriber only, once each and in order, and all of them
unless a forwarder still holds the line.
-/
theorem lines_woven
    (hrun : runFrom System.stepFits System.initial events = some s) :
    exists w : Weave Fd Fd Byte,
      Woven (Forwarded events s.threads) s.relay w ∧
        Queued events s.shared ∧ Handshakes events s w := by
  rcases exists_provenance (runFrom_of_guarded hrun) with ⟨w, hp⟩
  exact ⟨w, hp.woven, hp.queued, hp.handshakes⟩

end

/-- The one line of `node1` behind its handshake is the share of `sub1`. -/
theorem lines_woven_node1 :
    exists (s : System) (w : Weave Fd Fd Byte) (share : Share Fd Byte),
      runFrom System.stepFits System.initial
          (twoRegistered ++ runs 2 13 ++ runs 0 20) = some s ∧
        s.shared.sent 6 = lit "cpu/gen: 4" ++ [newline] ∧
        w.shares 4 2 = some share ∧
        w.piecesIn 6 4 2 =
          if share.sink = 6 then share.block.take share.written else [] := by
  have hrun : exists s,
      runFrom System.stepFits System.initial
            (twoRegistered ++ runs 2 13 ++ runs 0 20) = some s ∧
          s.shared.sent 6 = lit "cpu/gen: 4" ++ [newline] ∧
          s.shared.taken 4 = 3 :=
    ⟨_, rfl, rfl, rfl⟩
  rcases hrun with ⟨s, hs, hsent, htaken⟩
  rcases lines_woven hs with ⟨w, hw, _, hhandshakes⟩
  have hlt : 2 < s.relay.taken 4 := by
    show 2 < s.shared.taken 4
    rw [htaken]
    decide
  have hshare := (hw.shared 4 2).mpr ⟨hhandshakes.bound 4, hlt⟩
  rcases Option.isSome_iff_exists.mp hshare with ⟨share, hshare⟩
  refine ⟨s, w, share, hs, hsent, hshare, ?_⟩
  rw [hw.pieces 6 4 2, Weave.gone, hshare]
  rfl

end Broker
end MQTTv1
