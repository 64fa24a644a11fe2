import MQTTv1.Broker.InBounds
import MQTTv1.CLib.Runs

/-!
# Threads

The broker as a system of threads.  A step is one access of one thread to what
the threads share: a store to one of the tables, a read of one of them, a
semaphore call, the read of a line or the write of one topic.  What a thread
does with its own locals belongs to the step before.

A search by name is one step: the names only change from NULL to a name, so a
search that is interrupted finds what it would find at its last read.
-/

namespace MQTTv1
namespace Broker

open CLib
open Csapp

/-!
# The stores of a registration
-/

namespace Tables

def storeFd (t : Tables) (connfd : Fd) : Tables :=
  { t with clientFdList := Function.update t.clientFdList t.fdIdx connfd }

def storeName (t : Tables) (nodeName : CStr) : Tables :=
  { t with
    clientNameList := Function.update t.clientNameList t.fdIdx (some nodeName) }

def storeSus (t : Tables) (sus : CStr) : Tables :=
  { t with clientSusList := Function.update t.clientSusList t.fdIdx (some sus) }

def storeTopic (t : Tables) (k : Nat) (value : Int) : Tables :=
  { t with
    topicList :=
      Function.update t.topicList t.fdIdx
        (Function.update (t.topicList t.fdIdx) k value) }

def advance (t : Tables) : Tables :=
  { t with fdIdx := t.fdIdx + 1 }

end Tables

/-!
# Program points
-/

inductive Point where
  /-- `sem_wait(sem_mutex)` -/
  | waitMutex
  | storeFd
  | readName
  | readSus
  | storeName
  | storeSus
  | storeTopic (k : Nat)
  | advance
  | postControl
  /-- `sem_post(sem_mutex)` -/
  | postMutex
  /-- `sem_wait(sem_control)` -/
  | waitControl
  /-- The test of the row loop. -/
  | testRow (i : Nat)
  | testNone (i : Nat)
  | loadPublisher (i : Nat)
  | loadSuscriber (i : Nat)
  | loadTopic (i j : Nat)
  | findPublisher (i : Nat)
  | findSuscriber (i : Nat)
  | readLine (i : Nat)
  | write (i : Nat)
deriving DecidableEq, Repr

/--
A thread with its locals.  `row`, `lineNo` and `block` are history: the index
at which the thread registers, how many lines of the publisher were read before
the current one, and all the texts of the current one.
-/
structure Thread where
  point : Point
  connfd : Fd
  left : Leftover
  bufNodeName : CStr
  bufSusInfo : CStr
  subscribedInfo : Nat -> Int
  row : Nat
  publisher : CStr
  suscriber : Option CStr
  topicsNumber : Nat -> Int
  fdPub : Fd
  fdSus : Fd
  lineNo : Nat
  block : List CStr
  /-- The texts of the current line that are still to be written. -/
  pending : List CStr

def Thread.start (connfd : Fd) (left : Leftover) : Thread where
  point := .waitMutex
  connfd := connfd
  left := left
  bufNodeName := left.bufNodeName
  bufSusInfo := left.bufSusInfo
  subscribedInfo := left.subscribedInfo
  row := 0
  publisher := []
  suscriber := none
  topicsNumber := fun _ => 0
  fdPub := 0
  fdSus := 0
  lineNo := 0
  block := []
  pending := []

/-- What the threads share, with the lines that wait on every descriptor. -/
structure Shared where
  tables : Tables
  semControl : Nat
  semMutex : Nat
  inbox : Fd -> List (List Byte)
  hungUp : Fd -> Bool
  /-- History: the number of lines read from a descriptor. -/
  taken : Fd -> Nat
  sent : Fd -> List Byte

def Shared.initial : Shared where
  tables := Tables.initial
  semControl := 0
  semMutex := 1
  inbox := fun _ => []
  hungUp := fun _ => false
  taken := fun _ => 0
  sent := fun _ => []

/-- A read that returns one whole line, or nothing at the end of the file. -/
def Shared.takeLine (s : Shared) (fd : Fd) :
    Option (Option (List Byte) × Shared) :=
  match s.inbox fd with
  | line :: rest =>
      some (some line,
        { s with
          inbox := Function.update s.inbox fd rest
          taken := Function.update s.taken fd (s.taken fd + 1) })
  | [] => if s.hungUp fd then some (none, s) else none

def Shared.writeTo (s : Shared) (fd : Fd) (buf : CStr) : Shared :=
  { s with sent := Function.update s.sent fd (s.sent fd ++ buf) }

/-!
# Steps

A thread that has no step is blocked, or its next access is one that C leaves
undefined.
-/

def Thread.nodeName (th : Thread) (line : Option (List Byte)) : CStr :=
  chop (bufferString th.left.bufNodeName line)

def Thread.susInfo (th : Thread) (line : Option (List Byte)) : CStr :=
  chop (bufferString th.left.bufSusInfo line)

def Thread.receives (th : Thread) (i lineNo : Nat) (left : MessageLeftover) :
    Option (List Byte) -> Thread
  | none => { th with point := .testRow (i + 1) }
  | some bytes =>
      let texts :=
        topicWrites th.topicsNumber
          (split (stringOf bytes) (lit ",") left.pubAvailableInfo) left.string
      { th with
        point := .write i, lineNo := lineNo, block := texts, pending := texts }

def Thread.step (th : Thread) (left : MessageLeftover) (s : Shared) :
    Option (Thread × Shared) :=
  match th.point with
  | .waitMutex =>
      if 0 < s.semMutex then
        some ({ th with point := .storeFd },
          { s with semMutex := s.semMutex - 1 })
      else none
  | .storeFd =>
      if s.tables.fdIdx < LIMIT_CONN_CLIENTS then
        some ({ th with point := .readName, row := s.tables.fdIdx },
          { s with tables := s.tables.storeFd th.connfd })
      else none
  | .readName =>
      (s.takeLine th.connfd).map fun (line, s) =>
        ({ th with point := .readSus, bufNodeName := th.nodeName line }, s)
  | .readSus =>
      (s.takeLine th.connfd).map fun (line, s) =>
        ({ th with point := .storeName, bufSusInfo := th.susInfo line }, s)
  | .storeName =>
      some ({ th with point := .storeSus },
        { s with tables := s.tables.storeName th.bufNodeName })
  | .storeSus =>
      let tables := s.tables.storeSus (subscribedNode th.bufSusInfo th.left)
      if isNone th.bufSusInfo then
        some ({ th with point := .advance }, { s with tables := tables })
      else
        some ({ th with
          point := .storeTopic 0
          subscribedInfo := subscribedMask th.bufSusInfo th.left },
          { s with tables := tables })
  | .storeTopic k =>
      if k < TOPICS_NUMBER then
        some ({ th with point := .storeTopic (k + 1) },
          { s with tables := s.tables.storeTopic k (th.subscribedInfo k) })
      else
        some ({ th with point := .advance }, s)
  | .advance =>
      some ({ th with point := .postControl },
        { s with tables := s.tables.advance })
  | .postControl =>
      some ({ th with point := .postMutex },
        if 2 ≤ s.tables.fdIdx then { s with semControl := s.semControl + 1 }
        else s)
  | .postMutex =>
      some ({ th with point := .waitControl },
        { s with semMutex := s.semMutex + 1 })
  | .waitControl =>
      if 0 < s.semControl then
        some ({ th with point := .testRow 0 },
          { s with semControl := s.semControl - 1 })
      else none
  | .testRow i =>
      if i < LIMIT_CONN_CLIENTS then
        match s.tables.clientSusList i with
        | none => some ({ th with point := .testRow 0 }, s)
        | some _ => some ({ th with point := .testNone i }, s)
      else none
  | .testNone i =>
      (s.tables.clientSusList i).map fun sus =>
        if isNone sus then ({ th with point := .testRow (i + 1) }, s)
        else ({ th with point := .loadPublisher i }, s)
  | .loadPublisher i =>
      (s.tables.clientSusList i).map fun sus =>
        ({ th with point := .loadSuscriber i, publisher := sus }, s)
  | .loadSuscriber i =>
      some ({ th with
        point := .loadTopic i 0, suscriber := s.tables.clientNameList i }, s)
  | .loadTopic i j =>
      if j < TOPICS_NUMBER then
        some ({ th with
          point := .loadTopic i (j + 1)
          topicsNumber :=
            Function.update th.topicsNumber j (s.tables.topicList i j) }, s)
      else
        some ({ th with point := .findPublisher i }, s)
  | .findPublisher i =>
      (fdByClientName s.tables th.publisher).map fun fd =>
        ({ th with point := .findSuscriber i, fdPub := fd }, s)
  | .findSuscriber i =>
      (th.suscriber.bind (fdByClientName s.tables)).map fun fd =>
        ({ th with point := .readLine i, fdSus := fd }, s)
  | .readLine i =>
      (s.takeLine th.fdPub).map fun (line, s') =>
        (th.receives i (s.taken th.fdPub) left line, s')
  | .write i =>
      match th.pending with
      | [] => some ({ th with point := .testRow (i + 1) }, s)
      | buf :: rest =>
          some ({ th with pending := rest }, s.writeTo th.fdSus buf)

/-!
## The steps one by one
-/

/-- The steps of a thread that registers. -/
inductive Thread.Registers (th : Thread) (s : Shared) :
    Thread -> Shared -> Prop
  | waitMutex (hpoint : th.point = .waitMutex) (hfree : 0 < s.semMutex) :
      Registers th s { th with point := .storeFd }
        { s with semMutex := s.semMutex - 1 }
  | storeFd (hpoint : th.point = .storeFd)
      (hroom : s.tables.fdIdx < LIMIT_CONN_CLIENTS) :
      Registers th s { th with point := .readName, row := s.tables.fdIdx }
        { s with tables := s.tables.storeFd th.connfd }
  | readName (hpoint : th.point = .readName) (line : Option (List Byte))
      (s' : Shared) (hline : s.takeLine th.connfd = some (line, s')) :
      Registers th s
        { th with point := .readSus, bufNodeName := th.nodeName line } s'
  | readSus (hpoint : th.point = .readSus) (line : Option (List Byte))
      (s' : Shared) (hline : s.takeLine th.connfd = some (line, s')) :
      Registers th s
        { th with point := .storeName, bufSusInfo := th.susInfo line } s'
  | storeName (hpoint : th.point = .storeName) :
      Registers th s { th with point := .storeSus }
        { s with tables := s.tables.storeName th.bufNodeName }
  | storeNone (hpoint : th.point = .storeSus)
      (hnone : isNone th.bufSusInfo = true) :
      Registers th s { th with point := .advance }
        { s with
          tables := s.tables.storeSus (subscribedNode th.bufSusInfo th.left) }
  | storeSus (hpoint : th.point = .storeSus)
      (hsus : isNone th.bufSusInfo = false) :
      Registers th s
        { th with
          point := .storeTopic 0
          subscribedInfo := subscribedMask th.bufSusInfo th.left }
        { s with
          tables := s.tables.storeSus (subscribedNode th.bufSusInfo th.left) }
  | storeTopic (k : Nat) (hpoint : th.point = .storeTopic k)
      (hk : k < TOPICS_NUMBER) :
      Registers th s { th with point := .storeTopic (k + 1) }
        { s with tables := s.tables.storeTopic k (th.subscribedInfo k) }
  | topicsDone (k : Nat) (hpoint : th.point = .storeTopic k)
      (hk : ¬ k < TOPICS_NUMBER) :
      Registers th s { th with point := .advance } s
  | advance (hpoint : th.point = .advance) :
      Registers th s { th with point := .postControl }
        { s with tables := s.tables.advance }
  | postControl (hpoint : th.point = .postControl) :
      Registers th s { th with point := .postMutex }
        (if 2 ≤ s.tables.fdIdx then { s with semControl := s.semControl + 1 }
        else s)
  | postMutex (hpoint : th.point = .postMutex) :
      Registers th s { th with point := .waitControl }
        { s with semMutex := s.semMutex + 1 }

/-- The steps of a thread in `forward_messages`. -/
inductive Thread.Forwards (th : Thread) (left : MessageLeftover) (s : Shared) :
    Thread -> Shared -> Prop
  | waitControl (hpoint : th.point = .waitControl) (hposted : 0 < s.semControl) :
      Forwards th left s { th with point := .testRow 0 }
        { s with semControl := s.semControl - 1 }
  | passOver (i : Nat) (hpoint : th.point = .testRow i)
      (hsus : s.tables.clientSusList i = none) :
      Forwards th left s { th with point := .testRow 0 } s
  | rowFound (i : Nat) (sus : CStr) (hpoint : th.point = .testRow i)
      (hsus : s.tables.clientSusList i = some sus) :
      Forwards th left s { th with point := .testNone i } s
  | rowNone (i : Nat) (sus : CStr) (hpoint : th.point = .testNone i)
      (hsus : s.tables.clientSusList i = some sus) (hnone : isNone sus = true) :
      Forwards th left s { th with point := .testRow (i + 1) } s
  | rowSubscribed (i : Nat) (sus : CStr) (hpoint : th.point = .testNone i)
      (hsus : s.tables.clientSusList i = some sus)
      (hnone : isNone sus = false) :
      Forwards th left s { th with point := .loadPublisher i } s
  | loadPublisher (i : Nat) (sus : CStr) (hpoint : th.point = .loadPublisher i)
      (hsus : s.tables.clientSusList i = some sus) :
      Forwards th left s
        { th with point := .loadSuscriber i, publisher := sus } s
  | loadSuscriber (i : Nat) (hpoint : th.point = .loadSuscriber i) :
      Forwards th left s
        { th with
          point := .loadTopic i 0, suscriber := s.tables.clientNameList i } s
  | loadTopic (i j : Nat) (hpoint : th.point = .loadTopic i j)
      (hj : j < TOPICS_NUMBER) :
      Forwards th left s
        { th with
          point := .loadTopic i (j + 1)
          topicsNumber :=
            Function.update th.topicsNumber j (s.tables.topicList i j) } s
  | topicsLoaded (i j : Nat) (hpoint : th.point = .loadTopic i j)
      (hj : ¬ j < TOPICS_NUMBER) :
      Forwards th left s { th with point := .findPublisher i } s
  | findPublisher (i : Nat) (fd : Fd) (hpoint : th.point = .findPublisher i)
      (hfd : fdByClientName s.tables th.publisher = some fd) :
      Forwards th left s { th with point := .findSuscriber i, fdPub := fd } s
  | findSuscriber (i : Nat) (name : CStr) (fd : Fd)
      (hpoint : th.point = .findSuscriber i) (hname : th.suscriber = some name)
      (hfd : fdByClientName s.tables name = some fd) :
      Forwards th left s { th with point := .readLine i, fdSus := fd } s
  | readLine (i : Nat) (line : Option (List Byte)) (s' : Shared)
      (hpoint : th.point = .readLine i)
      (hline : s.takeLine th.fdPub = some (line, s')) :
      Forwards th left s (th.receives i (s.taken th.fdPub) left line) s'
  | written (i : Nat) (hpoint : th.point = .write i)
      (hpending : th.pending = []) :
      Forwards th left s { th with point := .testRow (i + 1), pending := [] } s
  | write (i : Nat) (buf : CStr) (rest : List CStr)
      (hpoint : th.point = .write i) (hpending : th.pending = buf :: rest) :
      Forwards th left s { th with point := .write i, pending := rest }
        (s.writeTo th.fdSus buf)

theorem Thread.step_moves {th th' : Thread} {left : MessageLeftover}
    {s s' : Shared} (h : th.step left s = some (th', s')) :
    th.Registers s th' s' ∨ th.Forwards left s th' s' := by
  unfold Thread.step at h
  cases hpoint : th.point with
  | waitMutex =>
      rw [hpoint] at h
      simp only at h
      split at h
      · cases h
        exact Or.inl (.waitMutex hpoint ‹_›)
      · cases h
  | storeFd =>
      rw [hpoint] at h
      simp only at h
      split at h
      · cases h
        exact Or.inl (.storeFd hpoint ‹_›)
      · cases h
  | readName =>
      rw [hpoint] at h
      rcases Option.map_eq_some_iff.mp h with ⟨⟨line, s1⟩, hline, heq⟩
      cases heq
      exact Or.inl (.readName hpoint line s' hline)
  | readSus =>
      rw [hpoint] at h
      rcases Option.map_eq_some_iff.mp h with ⟨⟨line, s1⟩, hline, heq⟩
      cases heq
      exact Or.inl (.readSus hpoint line s' hline)
  | storeName =>
      rw [hpoint] at h
      cases h
      exact Or.inl (.storeName hpoint)
  | storeSus =>
      rw [hpoint] at h
      simp only at h
      split at h
      · cases h
        exact Or.inl (.storeNone hpoint ‹_›)
      · cases h
        exact Or.inl (.storeSus hpoint (Bool.eq_false_iff.mpr ‹_›))
  | storeTopic k =>
      rw [hpoint] at h
      simp only at h
      split at h
      · cases h
        exact Or.inl (.storeTopic k hpoint ‹_›)
      · cases h
        exact Or.inl (.topicsDone k hpoint ‹_›)
  | advance =>
      rw [hpoint] at h
      cases h
      exact Or.inl (.advance hpoint)
  | postControl =>
      rw [hpoint] at h
      cases h
      exact Or.inl (.postControl hpoint)
  | postMutex =>
      rw [hpoint] at h
      cases h
      exact Or.inl (.postMutex hpoint)
  | waitControl =>
      rw [hpoint] at h
      simp only at h
      split at h
      · cases h
        exact Or.inr (.waitControl hpoint ‹_›)
      · cases h
  | testRow i =>
      rw [hpoint] at h
      simp only at h
      split at h
      · cases hsus : s.tables.clientSusList i with
        | none =>
            rw [hsus] at h
            cases h
            exact Or.inr (.passOver i hpoint hsus)
        | some sus =>
            rw [hsus] at h
            cases h
            exact Or.inr (.rowFound i sus hpoint hsus)
      · cases h
  | testNone i =>
      rw [hpoint] at h
      rcases Option.map_eq_some_iff.mp h with ⟨sus, hsus, heq⟩
      cases hnone : isNone sus with
      | true =>
          rw [hnone] at heq
          cases heq
          exact Or.inr (.rowNone i sus hpoint hsus hnone)
      | false =>
          rw [hnone] at heq
          cases heq
          exact Or.inr (.rowSubscribed i sus hpoint hsus hnone)
  | loadPublisher i =>
      rw [hpoint] at h
      rcases Option.map_eq_some_iff.mp h with ⟨sus, hsus, heq⟩
      cases heq
      exact Or.inr (.loadPublisher i sus hpoint hsus)
  | loadSuscriber i =>
      rw [hpoint] at h
      cases h
      exact Or.inr (.loadSuscriber i hpoint)
  | loadTopic i j =>
      rw [hpoint] at h
      simp only at h
      split at h
      · cases h
        exact Or.inr (.loadTopic i j hpoint ‹_›)
      · cases h
        exact Or.inr (.topicsLoaded i j hpoint ‹_›)
  | findPublisher i =>
      rw [hpoint] at h
      rcases Option.map_eq_some_iff.mp h with ⟨fd, hfd, heq⟩
      cases heq
      exact Or.inr (.findPublisher i fd hpoint hfd)
  | findSuscriber i =>
      rw [hpoint] at h
      rcases Option.map_eq_some_iff.mp h with ⟨fd, hfd, heq⟩
      rcases Option.bind_eq_some_iff.mp hfd with ⟨name, hname, hfind⟩
      cases heq
      exact Or.inr (.findSuscriber i name fd hpoint hname hfind)
  | readLine i =>
      rw [hpoint] at h
      rcases Option.map_eq_some_iff.mp h with ⟨⟨line, s1⟩, hline, heq⟩
      cases heq
      exact Or.inr (.readLine i line s' hpoint hline)
  | write i =>
      rw [hpoint] at h
      simp only at h
      cases hpending : th.pending with
      | nil =>
          rw [hpending] at h
          cases h
          exact Or.inr (.written i hpoint hpending)
      | cons buf rest =>
          rw [hpending] at h
          cases h
          exact Or.inr (.write i buf rest hpoint hpending)

structure System where
  shared : Shared
  threads : List Thread

def System.initial : System where
  shared := Shared.initial
  threads := []

inductive Event where
  | accept (connfd : Fd) (left : Leftover)
  | arrive (fd : Fd) (line : List Byte)
  | hangUp (fd : Fd)
  /-- Thread `t` goes on; `left` is what a new frame finds on its stack. -/
  | run (t : Nat) (left : MessageLeftover)

/-- `accept` returns no descriptor that is still open, and none is ever closed. -/
def System.step (s : System) : Event -> Option System
  | .accept connfd left =>
      if connfd ∈ s.threads.map Thread.connfd then none
      else some { s with threads := s.threads ++ [Thread.start connfd left] }
  | .arrive fd line =>
      some { s with shared :=
        { s.shared with
          inbox :=
            Function.update s.shared.inbox fd (s.shared.inbox fd ++ [line]) } }
  | .hangUp fd =>
      some { s with shared :=
        { s.shared with hungUp := Function.update s.shared.hungUp fd true } }
  | .run t left =>
      match s.threads[t]? with
      | none => none
      | some th =>
          (th.step left s.shared).map fun (th', shared) =>
            { shared := shared, threads := s.threads.set t th' }

theorem System.step_run {s s' : System} {t : Nat} {left : MessageLeftover}
    (h : s.step (.run t left) = some s') :
    exists th th',
      s.threads[t]? = some th ∧
        th.step left s.shared = some (th', s'.shared) ∧
        s'.threads = s.threads.set t th' := by
  change (match s.threads[t]? with
    | none => none
    | some th => (th.step left s.shared).map _) = some s' at h
  cases hth : s.threads[t]? with
  | none =>
      rw [hth] at h
      cases h
  | some th =>
      rw [hth] at h
      rcases Option.map_eq_some_iff.mp h with ⟨⟨th', shared⟩, hstep, rfl⟩
      exact ⟨th, th', rfl, hstep, rfl⟩

theorem Shared.takeLine_some {s s' : Shared} {fd : Fd}
    {line : Option (List Byte)} (h : s.takeLine fd = some (line, s')) :
    (exists bytes rest, line = some bytes ∧ s.inbox fd = bytes :: rest ∧
      s' = { s with
        inbox := Function.update s.inbox fd rest
        taken := Function.update s.taken fd (s.taken fd + 1) }) ∨
    (line = none ∧ s' = s) := by
  unfold Shared.takeLine at h
  cases hinbox : s.inbox fd with
  | nil =>
      rw [hinbox] at h
      simp only at h
      split at h
      · cases h
        exact Or.inr ⟨rfl, rfl⟩
      · cases h
  | cons bytes rest =>
      rw [hinbox] at h
      cases h
      exact Or.inl ⟨bytes, rest, rfl, rfl, rfl⟩

/-!
# Steps within the buffers
-/

/--
The next step of a thread leaves no buffer of the forwarding: the text that it
logs fits, and so does the line that it reads.
-/
def System.fits (s : System) (t : Nat) : Bool :=
  (s.threads[t]?).all fun th =>
    match th.point with
    | .findSuscriber _ =>
        th.suscriber.all fun name =>
          logFits (forwardingMessage th.publisher name)
    | .readLine _ =>
        ((s.shared.inbox th.fdPub).head?).all fun line =>
          decide (LineFits th.publisher th.topicsNumber (stringOf line))
    | _ => true

def System.eventFits (s : System) : Event -> Bool
  | .run t _ => s.fits t
  | _ => true

def System.stepFits : System -> Event -> Option System :=
  guarded System.eventFits System.step

/-!
# Sample runs
-/

def cleanMessageLeftover : MessageLeftover where
  pubAvailableInfo := fun _ => []
  string := []

def runs (t count : Nat) : List Event :=
  List.replicate count (.run t cleanMessageLeftover)

def connects (connfd : Fd) (nodeName susInfo : CStr) : List Event :=
  [.accept connfd cleanLeftover, .arrive connfd (nodeName ++ [newline]),
    .arrive connfd (susInfo ++ [newline])]

end Broker
end MQTTv1
