import Mathlib.Logic.Relation
import MQTTv1.Broker.Admission
import MQTTv1.Broker.Blocking
import MQTTv1.Broker.Capacity

/-!
# Publishers that send nothing

Every pass visits the rows in the order of the table and waits in each for a line
of its publisher.  When the clients are registered and messages begin to arrive,
one publisher can hold up the others exactly if two subscribed rows have
different publishers.
-/

namespace MQTTv1
namespace Broker

open CLib
open Csapp

namespace Tables

def Subscribed (t : Tables) (i : Nat) (node : CStr) : Prop :=
  t.clientSusList i = some node ∧ isNone node = false

def FirstSubscribed (t : Tables) (i : Nat) (node : CStr) : Prop :=
  t.Subscribed i node ∧
    forall k, k < i -> exists sus, t.clientSusList k = some sus ∧ isNone sus = true

def NodesFound (t : Tables) : Prop :=
  forall i node, t.Subscribed i node -> fdByClientName t node ≠ none

def OneSource (t : Tables) : Prop :=
  forall i k node node' fd fd', t.Subscribed i node ->
    fdByClientName t node = some fd -> t.Subscribed k node' ->
      fdByClientName t node' = some fd' -> fd' = fd

end Tables

structure System.Settled (s : System) : Prop where
  waiting : forall th, th ∈ s.threads -> th.point = .waitControl
  quiet : forall th, th ∈ s.threads -> s.shared.inbox th.connfd = []
  connected : forall th, th ∈ s.threads -> s.shared.hungUp th.connfd = false

/-- Messages arrive and threads go on; nobody connects or hangs up. -/
def System.relays (_ : System) : StrayEvent -> Bool
  | .event (.arrive _ _) | .event (.run _ _) | .stray _ _ => true
  | .event (.accept _ _) | .event (.hangUp _) => false

def System.stepOpen : System -> StrayEvent -> Option System :=
  guarded System.relays System.stepStray

/-- The thread is in the read of `forward_message` and has to wait. -/
def Thread.AwaitsPublisher (th : Thread) (s : Shared) : Prop :=
  (exists i, th.point = .readLine i) ∧ s.takeLine th.fdPub = none

/-- All forwarders wait while a publisher that somebody reads has a line. -/
structure System.Stalled (s : System) : Prop where
  admitted : exists th, th ∈ s.threads ∧ th.point.forwarding = true
  waiting : forall th, th ∈ s.threads -> th.point.forwarding = true ->
    th.AwaitsPublisher s.shared
  unread : exists k node fd, s.shared.tables.Subscribed k node ∧
    fdByClientName s.shared.tables node = some fd ∧ s.shared.inbox fd ≠ []

/-!
# What forwarders know
-/

section

variable {t : Tables} {i k : Nat} {node node' : CStr} {fd : Fd}

theorem Tables.Subscribed.unique (h : t.Subscribed i node)
    (h' : t.Subscribed i node') : node' = node :=
  Option.some.inj (h'.left.symm.trans h.left)

/-- What a thread that forwards has found in a table that no longer changes. -/
def Thread.OnTable (th : Thread) (t : Tables) : Prop :=
  match th.point with
  | .waitControl | .testRow _ | .testNone _ | .write _ => True
  | .loadPublisher i => exists node, t.Subscribed i node
  | .loadSuscriber i => t.Subscribed i th.publisher
  | .loadTopic i _ | .findPublisher i =>
      t.Subscribed i th.publisher ∧ th.suscriber = t.clientNameList i
  | .findSuscriber i =>
      (t.Subscribed i th.publisher ∧ th.suscriber = t.clientNameList i) ∧
        fdByClientName t th.publisher = some th.fdPub
  | .readLine i =>
      t.Subscribed i th.publisher ∧
        fdByClientName t th.publisher = some th.fdPub
  | _ => False

theorem Thread.Registers.not_onTable {th th' : Thread} {s s' : Shared}
    (h : th.Registers s th' s') : ¬ th.OnTable t := by
  unfold Thread.OnTable
  cases h with
  | waitMutex hpoint | storeFd hpoint | readName hpoint | readSus hpoint
  | storeName hpoint | storeNone hpoint | storeSus hpoint
  | storeTopic k hpoint | topicsDone k hpoint | advance hpoint
  | postControl hpoint | postMutex hpoint =>
      rw [hpoint]
      exact id

theorem Thread.Forwards.onTable {th th' : Thread} {left : MessageLeftover}
    {s s' : Shared} (h : th.Forwards left s th' s')
    (hth : th.OnTable s.tables) : th'.OnTable s.tables := by
  unfold Thread.OnTable at hth
  cases h with
  | waitControl hpoint | passOver i hpoint | rowFound i sus hpoint
  | rowNone i sus hpoint | written i hpoint | write i buf rest hpoint =>
      unfold Thread.OnTable
      simp_all
  | rowSubscribed i sus hpoint hsus hnone => exact ⟨sus, hsus, hnone⟩
  | loadPublisher i sus hpoint hsus =>
      rw [hpoint] at hth
      rcases hth with ⟨node, hnode, hsome⟩
      rw [hnode] at hsus
      cases hsus
      exact ⟨hnode, hsome⟩
  | loadSuscriber i hpoint =>
      rw [hpoint] at hth
      exact ⟨hth, rfl⟩
  | loadTopic i j hpoint | topicsLoaded i j hpoint =>
      rw [hpoint] at hth
      exact hth
  | findPublisher i fd hpoint hfd =>
      rw [hpoint] at hth
      exact ⟨hth, hfd⟩
  | findSuscriber i name fd hpoint =>
      rw [hpoint] at hth
      exact ⟨hth.left.left, hth.right⟩
  | readLine i line _ hpoint hline =>
      cases line with
      | none => trivial
      | some bytes => trivial

end

/-- A table in which no forwarder leaves the arrays and no lookup fails. -/
structure Tables.Searchable (t : Tables) : Prop where
  null : t.clientSusList t.fdIdx = none
  room : t.fdIdx < LIMIT_CONN_CLIENTS
  nodes : t.NodesFound
  names : forall i node, t.Subscribed i node ->
    exists name, t.clientNameList i = some name ∧ fdByClientName t name ≠ none

theorem Tables.Searchable.no_stray {th : Thread} {found : Stray} {s : Shared}
    (ht : s.tables.Searchable) (hth : th.OnTable s.tables)
    (hat : th.point.AtRow s.tables.fdIdx) : th.stepStray found s = none := by
  have hroom := ht.room
  unfold Thread.OnTable at hth
  unfold Point.AtRow at hat
  unfold Thread.stepStray
  cases hpoint : th.point with
  | testRow i | testNone i | loadPublisher i | loadSuscriber i
  | loadTopic i j =>
      rw [hpoint] at hat
      have hi : i < LIMIT_CONN_CLIENTS := by
        simp only at hat
        lia
      simp [hi]
  | findPublisher i =>
      rw [hpoint] at hth
      rcases Option.ne_none_iff_exists'.mp (ht.nodes i _ hth.left) with
        ⟨fd, hfd⟩
      simp [hfd]
  | findSuscriber i =>
      rw [hpoint] at hth
      rcases ht.names i _ hth.left.left with ⟨name, hname, hfound⟩
      rcases Option.ne_none_iff_exists'.mp hfound with ⟨fd, hfd⟩
      simp [hth.left.right, hname, hfd]
  | _ => rfl

/-- All threads forward, in the table they were given. -/
structure OnTable (t : Tables) (s : System) : Prop where
  tables : s.shared.tables = t
  threads : forall th, th ∈ s.threads -> th.OnTable t
  rows : forall th, th ∈ s.threads -> th.point.AtRow t.fdIdx

theorem onTable_step {t : Tables} {s s' : System} {e : StrayEvent}
    (ht : t.Searchable) (hs : OnTable t s) (hstep : s.stepOpen e = some s') :
    OnTable t s' := by
  rcases guarded_eq_some.mp hstep with ⟨hrelays, hrun⟩
  cases e with
  | stray u found =>
      rcases System.stepStray_thread hrun with ⟨th, th', hth, hstray, _⟩
      have hmem := List.mem_of_getElem? hth
      have hnone : th.stepStray found s.shared = none :=
        (hs.tables ▸ ht).no_stray (hs.tables ▸ hs.threads th hmem)
          (hs.tables ▸ hs.rows th hmem)
      rw [hnone] at hstray
      cases hstray
  | event e =>
      change s.step e = some s' at hrun
      cases e with
      | accept connfd left | hangUp fd => cases hrelays
      | arrive fd line =>
          cases hrun
          exact ⟨hs.tables, hs.threads, hs.rows⟩
      | run u left =>
          rcases System.step_run hrun with ⟨th, th', hth, hthread, hthreads⟩
          have hknown := hs.threads th (List.mem_of_getElem? hth)
          have hrow := hs.rows th (List.mem_of_getElem? hth)
          rcases Thread.step_moves hthread with hmove | hmove
          · exact absurd hknown hmove.not_onTable
          · constructor
            · exact hmove.keeps.right.left.trans hs.tables
            · intro other hother
              rw [hthreads] at hother
              rcases List.mem_or_eq_of_mem_set hother with hold | rfl
              · exact hs.threads other hold
              · rw [← hs.tables] at hknown ⊢
                exact hmove.onTable hknown
            · intro other hother
              rw [hthreads] at hother
              rcases List.mem_or_eq_of_mem_set hother with hold | rfl
              · exact hs.rows other hold
              · exact hmove.atRow (hs.tables ▸ ht.null) hrow

theorem exists_firstSubscribed {t : Tables} {i : Nat} {node : CStr}
    (hsub : t.Subscribed i node)
    (hrows : forall k, k < i -> t.clientSusList k ≠ none) :
    exists first other, first ≤ i ∧ t.FirstSubscribed first other := by
  classical
  have hex : exists k other, t.Subscribed k other := ⟨i, node, hsub⟩
  have hle : Nat.find hex ≤ i := Nat.find_min' hex ⟨node, hsub⟩
  rcases Nat.find_spec hex with ⟨other, hother⟩
  refine ⟨Nat.find hex, other, hle, hother, ?_⟩
  intro k hk
  rcases Option.ne_none_iff_exists'.mp (hrows k (by lia)) with ⟨sus, hsus⟩
  refine ⟨sus, hsus, ?_⟩
  cases hnone : isNone sus with
  | true => rfl
  | false => exact absurd ⟨sus, hsus, hnone⟩ (Nat.find_min hex hk)

/-- Where there is one publisher no line is left behind. -/
theorem OnTable.not_stalled {t : Tables} {s : System} (hs : OnTable t s)
    (hone : t.OneSource) : ¬ s.Stalled := by
  intro hstalled
  rcases hstalled.admitted with ⟨th, hth, hforwarding⟩
  rcases hstalled.waiting th hth hforwarding with ⟨⟨i, hpoint⟩, hnone⟩
  rcases hstalled.unread with ⟨k, node, fd, hsub, hfd, hunread⟩
  have hknown := hs.threads th hth
  unfold Thread.OnTable at hknown
  rw [hpoint] at hknown
  rcases hknown with ⟨hserved, hsource⟩
  rw [hs.tables] at hsub hfd
  have hsame : fd = th.fdPub := hone i k _ node _ fd hserved hsource hsub hfd
  have hlines := takeLine_none_iff.mp hnone
  unfold Shared.hasLines at hlines
  rw [Bool.or_eq_false_iff, decide_eq_false_iff_not] at hlines
  apply hunread
  rw [hsame]
  exact List.length_eq_zero_iff.mp (by lia)

/-!
# The way of a forwarder to its first read
-/

def Thread.Goes (s : Shared) : Thread -> Thread -> Prop :=
  Relation.ReflTransGen fun th th' =>
    exists left, th.step left s = some (th', s)

section

variable {s : Shared} {i : Nat} {node name : CStr} {fd : Fd}

theorem Thread.Goes.step {th mid th' : Thread} (h : Thread.Goes s th mid)
    (hstep : mid.step cleanMessageLeftover s = some (th', s)) :
    Thread.Goes s th th' :=
  h.tail ⟨cleanMessageLeftover, hstep⟩

theorem Thread.goes_testRow (th : Thread)
    (hnone : forall k, k < i ->
      exists sus, s.tables.clientSusList k = some sus ∧ isNone sus = true)
    (hi : i ≤ LIMIT_CONN_CLIENTS) :
    Thread.Goes s { th with point := .testRow 0 }
      { th with point := .testRow i } := by
  induction i with
  | zero => exact Relation.ReflTransGen.refl
  | succ i ih =>
      rcases hnone i (Nat.lt_succ_self i) with ⟨sus, hsus, hsusNone⟩
      have hbefore := ih (fun k hk => hnone k (by lia)) (by lia)
      have hrow : i < LIMIT_CONN_CLIENTS := hi
      have htested : Thread.Goes s { th with point := .testRow 0 }
          { th with point := .testNone i } :=
        hbefore.step (by simp [Thread.step, hrow, hsus])
      exact htested.step (by simp [Thread.step, hsus, hsusNone])

theorem Thread.goes_loadTopic {count j : Nat} {th : Thread}
    (hcount : j + count = TOPICS_NUMBER) (hpoint : th.point = .loadTopic i j) :
    exists th', Thread.Goes s th th' ∧ th'.point = .findPublisher i ∧
      th'.publisher = th.publisher ∧ th'.suscriber = th.suscriber := by
  induction count generalizing j th with
  | zero =>
      have hj : ¬ j < TOPICS_NUMBER := by lia
      refine ⟨{ th with point := .findPublisher i },
        .single ⟨cleanMessageLeftover, ?_⟩, rfl, rfl, rfl⟩
      simp [Thread.step, hpoint, hj]
  | succ count ih =>
      have hj : j < TOPICS_NUMBER := by lia
      let copied : Thread :=
        { th with
          point := .loadTopic i (j + 1)
          topicsNumber :=
            Function.update th.topicsNumber j (s.tables.topicList i j) }
      rcases ih (by lia : j + 1 + count = TOPICS_NUMBER)
        (rfl : copied.point = _) with ⟨th', hgoes, hth'⟩
      refine ⟨th', .head ⟨cleanMessageLeftover, ?_⟩ hgoes, hth'⟩
      simp [Thread.step, hpoint, hj, copied]

theorem Thread.goes_readLine (th : Thread) (hrow : i < LIMIT_CONN_CLIENTS)
    (hsub : s.tables.Subscribed i node)
    (hnode : fdByClientName s.tables node = some fd)
    (hname : s.tables.clientNameList i = some name)
    (hown : fdByClientName s.tables name ≠ none) :
    exists th', Thread.Goes s { th with point := .testRow i } th' ∧
      th'.point = .readLine i ∧ th'.fdPub = fd := by
  rcases hsub with ⟨hsus, hsome⟩
  rcases Option.ne_none_iff_exists'.mp hown with ⟨fdSus, hfdSus⟩
  let loading : Thread :=
    { th with point := .loadTopic i 0, publisher := node, suscriber := some name }
  have htested : Thread.Goes s { th with point := .testRow i }
      { th with point := .testNone i } :=
    .single ⟨cleanMessageLeftover, by simp [Thread.step, hrow, hsus]⟩
  have hserved : Thread.Goes s { th with point := .testRow i }
      { th with point := .loadPublisher i } :=
    htested.step (by simp [Thread.step, hsus, hsome])
  have hpublished : Thread.Goes s { th with point := .testRow i }
      { th with point := .loadSuscriber i, publisher := node } :=
    hserved.step (by simp [Thread.step, hsus])
  have hload : Thread.Goes s { th with point := .testRow i } loading :=
    hpublished.step (by simp [Thread.step, loading, hname])
  rcases Thread.goes_loadTopic (s := s) (Nat.zero_add TOPICS_NUMBER)
    (rfl : loading.point = _) with
    ⟨found, hgoes, hpoint, hpublisher, hsuscriber⟩
  have hloaded : Thread.Goes s { th with point := .testRow i } found :=
    hload.trans hgoes
  have hfound : Thread.Goes s { th with point := .testRow i }
      { found with point := .findSuscriber i, fdPub := fd } :=
    hloaded.step (by simp [Thread.step, hpoint, hpublisher, loading, hnode])
  refine ⟨{ found with point := .readLine i, fdPub := fd, fdSus := fdSus },
    hfound.step ?_, rfl, rfl⟩
  simp [Thread.step, hsuscriber, loading, hfdSus]

end

theorem Thread.Goes.reachable {s : System} {t : Nat} {th th' : Thread}
    (h : Thread.Goes s.shared th th') (hth : s.threads[t]? = some th) :
    exists s', Reachable System.stepOpen s s' ∧ s'.shared = s.shared ∧
      s'.threads = s.threads.set t th' := by
  induction h with
  | refl =>
      refine ⟨s, Reachable.refl _ s, rfl, ?_⟩
      rcases List.getElem?_eq_some_iff.mp hth with ⟨hlt, rfl⟩
      exact (List.set_getElem_self hlt).symm
  | @tail _ last _ hlast ih =>
      rcases ih with ⟨mid, hreach, hshared, hthreads⟩
      rcases hlast with ⟨left, hlast⟩
      have hnext : mid.stepOpen (.event (.run t left)) =
          some { shared := s.shared, threads := s.threads.set t last } := by
        apply guarded_eq_some.mpr
        refine ⟨rfl, ?_⟩
        simp [System.stepStray, System.step, hthreads, getElem?_set_self hth,
          hshared, hlast]
      exact ⟨_, hreach.tail hnext, rfl, rfl⟩

/-!
# Registered tables
-/

theorem System.Settled.idle {s : System} (h : s.Settled) : s.Idle := by
  intro th hth hin
  unfold Thread.InSection Thread.stage at hin
  rw [h.waiting th hth] at hin
  simp at hin

theorem settled_represents {s : System}
    (hreach : Reachable System.step System.initial s) (hsettled : s.Settled) :
    exists rows : List Row, Represents s.shared.tables rows ∧
      rows.length ≤ LIMIT_CONN_CLIENTS ∧
      forall (i : Nat) (row : Row), rows[i]? = some row ->
        exists th, th ∈ s.threads ∧ th.connfd = row.fd := by
  have hout : forall (t : Nat) th, s.threads[t]? = some th ->
      ¬ th.InSection := by
    intro t th hth
    exact hsettled.idle th (List.mem_of_getElem? hth)
  rcases represents_inside (reachable_stray hreach) hout with
    ⟨rows, hrows, hlength, howners⟩
  refine ⟨rows, hrows, hlength, ?_⟩
  intro i row hrow
  rcases howners i row hrow with ⟨u, owner, hu, _, _, rfl⟩
  exact ⟨owner, List.mem_of_getElem? hu, rfl⟩

theorem fdByClientName_row {t : Tables} {rows : List Row} {name : CStr} {fd : Fd}
    (ht : Represents t rows) (h : fdByClientName t name = some fd) :
    exists (i : Nat) (row : Row), rows[i]? = some row ∧ row.fd = fd := by
  rcases fdByClientName_some ht h with ⟨i, row, hfirst, hfd⟩
  exact ⟨i, row, hfirst.left, hfd⟩

theorem settled_searchable {s : System}
    (hreach : Reachable System.step System.initial s) (hsettled : s.Settled)
    (hroom : s.shared.tables.fdIdx < LIMIT_CONN_CLIENTS)
    (hnodes : s.shared.tables.NodesFound) : s.shared.tables.Searchable := by
  rcases settled_represents hreach hsettled with ⟨rows, hrows, hfits, _⟩
  refine ⟨?_, hroom, hnodes, ?_⟩
  · rw [hrows.sus, hrows.length, List.getElem?_eq_none (Nat.le_refl _)]
    rfl
  · intro i node hsub
    have hsus := hrows.sus i
    rw [hsub.left] at hsus
    rcases Option.map_eq_some_iff.mp hsus.symm with ⟨row, hrow, _⟩
    refine ⟨row.name, ?_, fdByClientName_of_row hrows hfits hrow⟩
    rw [hrows.name, hrow]
    rfl

theorem settled_admits {s : System}
    (hreach : Reachable System.step System.initial s) (hsettled : s.Settled)
    (htwo : 2 ≤ s.shared.tables.fdIdx) :
    0 < s.shared.semControl ∧ exists th, s.threads[0]? = some th := by
  rcases counting_law (gateLaw_stray (reachable_stray hreach)) with
    ⟨hcount, hbalance, _, _⟩
  have hpassed : s.passedControl = 0 := by
    apply List.countP_eq_zero.mpr
    intro th hth
    rw [hsettled.waiting th hth]
    exact Bool.false_ne_true
  have hsum := hbalance hsettled.idle
  have hlength : s.registered ≤ s.threads.length := List.countP_le_length
  constructor
  · lia
  · exact ⟨_, List.getElem?_eq_getElem (by lia)⟩

/-!
# Stalls
-/

/-- One forwarder waits at the first row while another publisher sends a line. -/
theorem stalled_of_two_sources {s : System}
    (hreach : Reachable System.step System.initial s) (hsettled : s.Settled)
    {i k : Nat} {node node' : CStr} {fd fd' : Fd}
    (hfirst : s.shared.tables.FirstSubscribed i node)
    (hfd : fdByClientName s.shared.tables node = some fd)
    (hsub : s.shared.tables.Subscribed k node')
    (hfd' : fdByClientName s.shared.tables node' = some fd') (hne : fd' ≠ fd) :
    exists s', Reachable System.stepOpen s s' ∧ s'.Stalled := by
  rcases settled_represents hreach hsettled with
    ⟨rows, hrows, hfits, hclients⟩
  have htwo : 2 ≤ s.shared.tables.fdIdx := by
    rcases fdByClientName_row hrows hfd with ⟨a, row, ha, rfl⟩
    rcases fdByClientName_row hrows hfd' with ⟨b, row', hb, rfl⟩
    have hlt := (List.getElem?_eq_some_iff.mp ha).choose
    have hlt' := (List.getElem?_eq_some_iff.mp hb).choose
    have hab : a ≠ b := by
      rintro rfl
      rw [ha] at hb
      cases hb
      exact hne rfl
    rw [hrows.length]
    lia
  have hquiet : s.shared.hasLines fd 1 = false := by
    rcases fdByClientName_row hrows hfd with ⟨a, row, ha, rfl⟩
    rcases hclients a row ha with ⟨client, hclient, heq⟩
    rw [← heq]
    simp [Shared.hasLines, hsettled.quiet client hclient,
      hsettled.connected client hclient]
  rcases settled_admits hreach hsettled htwo with ⟨hpermit, th, hth⟩
  -- the thread is admitted, and comes to the first row
  let admitted : System :=
    { shared := { s.shared with semControl := s.shared.semControl - 1 }
      threads := s.threads.set 0 { th with point := .testRow 0 } }
  have hadmitted :
      s.stepOpen (.event (.run 0 cleanMessageLeftover)) = some admitted := by
    apply guarded_eq_some.mpr
    have hpoint := hsettled.waiting th (List.mem_of_getElem? hth)
    refine ⟨rfl, ?_⟩
    simp [System.stepStray, System.step, hth, Thread.step, hpoint, hpermit,
      admitted]
  have hsus := hrows.sus i
  rw [hfirst.left.left] at hsus
  rcases Option.map_eq_some_iff.mp hsus.symm with ⟨row, hrow, _⟩
  have hlt := (List.getElem?_eq_some_iff.mp hrow).choose
  have hname : s.shared.tables.clientNameList i = some row.name := by
    rw [hrows.name i, hrow]
    rfl
  have hstart : Thread.Goes admitted.shared { th with point := .testRow 0 }
      { th with point := .testRow i } :=
    th.goes_testRow hfirst.right (by lia)
  rcases th.goes_readLine (s := admitted.shared) (by lia) hfirst.left hfd hname
    (fdByClientName_of_row hrows hfits hrow) with
    ⟨reader, hread, hpoint, hfdPub⟩
  rcases Thread.Goes.reachable (hstart.trans hread)
    (getElem?_set_self hth { th with point := .testRow 0 }) with
    ⟨waiting, hgoes, hshared, hthreads⟩
  -- a line of the other publisher arrives
  let late : System :=
    { waiting with shared := { waiting.shared with
        inbox := Function.update waiting.shared.inbox fd'
          (waiting.shared.inbox fd' ++ [[newline]]) } }
  have hlate : waiting.stepOpen (.event (.arrive fd' [newline])) = some late :=
    guarded_eq_some.mpr ⟨rfl, rfl⟩
  refine ⟨late, Reachable.head hadmitted (hgoes.tail hlate), ?_⟩
  have hreader : late.threads[0]? = some reader := by
    show waiting.threads[0]? = some reader
    rw [hthreads, List.set_set]
    exact getElem?_set_self hth reader
  constructor
  · refine ⟨reader, List.mem_of_getElem? hreader, ?_⟩
    rw [hpoint]
    rfl
  · intro other hother hforwarding
    rcases List.getElem?_of_mem hother with ⟨u, hu⟩
    change waiting.threads[u]? = some other at hu
    rw [hthreads, List.set_set] at hu
    rcases getElem?_set_cases hth hu with ⟨_, rfl⟩ | ⟨_, hold⟩
    · refine ⟨⟨i, hpoint⟩, takeLine_none_iff.mpr ?_⟩
      simpa [Shared.hasLines, late, hshared, admitted, hfdPub,
        Function.update_of_ne hne.symm] using hquiet
    · rw [hsettled.waiting other (List.mem_of_getElem? hold)] at hforwarding
      cases hforwarding
  · refine ⟨k, node', fd', ?_, ?_, ?_⟩
    · show waiting.shared.tables.Subscribed k node'
      rw [hshared]
      exact hsub
    · show fdByClientName waiting.shared.tables node' = some fd'
      rw [hshared]
      exact hfd'
    · simp [late]

theorem stalled_unless_oneSource {s : System}
    (hreach : Reachable System.step System.initial s) (hsettled : s.Settled)
    (hnodes : s.shared.tables.NodesFound)
    (hmany : ¬ s.shared.tables.OneSource) :
    exists s', Reachable System.stepOpen s s' ∧ s'.Stalled := by
  unfold Tables.OneSource at hmany
  push Not at hmany
  rcases hmany with
    ⟨i, k, node, node', fd, fd', hsub, hfd, hsub', hfd', hne⟩
  rcases settled_represents hreach hsettled with ⟨rows, hrows, _, _⟩
  have hbefore : forall j, j < i -> s.shared.tables.clientSusList j ≠ none := by
    intro j hj
    have hsus := hrows.sus i
    rw [hsub.left] at hsus
    rcases Option.map_eq_some_iff.mp hsus.symm with ⟨row, hrow, _⟩
    have hlt := (List.getElem?_eq_some_iff.mp hrow).choose
    rw [hrows.sus j, List.getElem?_eq_getElem (Nat.lt_trans hj hlt)]
    exact Option.some_ne_none _
  rcases exists_firstSubscribed hsub hbefore with ⟨first, other, _, hfirst⟩
  rcases Option.ne_none_iff_exists'.mp (hnodes first other hfirst.left) with
    ⟨source, hsource⟩
  by_cases hsame : fd = source
  · exact stalled_of_two_sources hreach hsettled hfirst hsource hsub' hfd'
      (by rw [← hsame]; exact hne)
  · exact stalled_of_two_sources hreach hsettled hfirst hsource hsub hfd hsame

/--
From a table that registrations have left, with a free slot and all subscribed
nodes registered, no order of messages leads to a stall exactly if the
forwarders have one publisher to wait for.
-/
theorem never_stalled_iff {s : System}
    (hreach : Reachable System.step System.initial s) (hsettled : s.Settled)
    (hroom : s.shared.tables.fdIdx < LIMIT_CONN_CLIENTS)
    (hnodes : s.shared.tables.NodesFound) :
    (forall s', Reachable System.stepOpen s s' -> ¬ s'.Stalled) <->
      s.shared.tables.OneSource := by
  constructor
  · intro hnever
    by_contra hmany
    rcases stalled_unless_oneSource hreach hsettled hnodes hmany with
      ⟨s', hreach', hstalled⟩
    exact hnever s' hreach' hstalled
  · intro hone s' hreach'
    have htables := settled_searchable hreach hsettled hroom hnodes
    have hs : OnTable s.shared.tables s' := by
      apply hreach'.invariant
      · refine ⟨rfl, ?_, ?_⟩
        · intro th hth
          unfold Thread.OnTable
          rw [hsettled.waiting th hth]
          trivial
        · intro th hth
          rw [hsettled.waiting th hth]
          trivial
      · intro mid e next hmid hstep
        exact onTable_step htables hmid hstep
    exact hs.not_stalled hone

def System.settledCheck (s : System) : Bool :=
  s.threads.all fun th => decide (th.point = .waitControl) &&
    (s.shared.inbox th.connfd).isEmpty && !s.shared.hungUp th.connfd

theorem System.settled_of_check {s : System} (h : s.settledCheck = true) :
    s.Settled := by
  simp only [System.settledCheck, List.all_eq_true, Bool.and_eq_true,
    decide_eq_true_eq, List.isEmpty_iff, Bool.not_eq_true'] at h
  constructor
  · intro th hth
    exact (h th hth).left.left
  · intro th hth
    exact (h th hth).left.right
  · intro th hth
    exact (h th hth).right

def twoPublishers : List Event :=
  connects 4 (lit "node1") (lit "NONE") ++ runs 0 9 ++
    connects 5 (lit "node2") (lit "NONE") ++ runs 1 9 ++
    connects 6 (lit "sub1") (lit "node1/#") ++ runs 2 16

/-- The line of node2 waits as long as node1 sends nothing. -/
theorem stalled_behind_node1 :
    exists s s', Reachable System.step System.initial s ∧ s.Settled ∧
      Reachable System.stepOpen s s' ∧ s'.Stalled := by
  have hrun :
      (runFrom System.step System.initial
          (twoPublishers ++ connects 7 (lit "sub2") (lit "node2/#") ++
            runs 3 16)).map
        (fun s => (s.settledCheck,
          [s.shared.tables.clientSusList 0, s.shared.tables.clientSusList 1,
            s.shared.tables.clientSusList 2, s.shared.tables.clientSusList 3],
          fdByClientName s.shared.tables (lit "node1"),
          fdByClientName s.shared.tables (lit "node2"))) =
      some (true, [some (lit "NONE"), some (lit "NONE"), some (lit "node1"),
        some (lit "node2")], some 4, some 5) := by
    decide +kernel
  rcases Option.map_eq_some_iff.mp hrun with ⟨s, hs, hview⟩
  simp only [Prod.mk.injEq, List.cons.injEq, and_true] at hview
  rcases hview with
    ⟨hcheck, ⟨hzero, hone, htwo, hthree⟩, hnode1, hnode2⟩
  have hfirst : s.shared.tables.FirstSubscribed 2 (lit "node1") := by
    refine ⟨⟨htwo, rfl⟩, ?_⟩
    intro k hk
    have hcases : k = 0 ∨ k = 1 := by lia
    rcases hcases with rfl | rfl
    · exact ⟨_, hzero, rfl⟩
    · exact ⟨_, hone, rfl⟩
  have hsettled := System.settled_of_check hcheck
  rcases stalled_of_two_sources ⟨_, hs⟩ hsettled hfirst hnode1 ⟨hthree, rfl⟩
    hnode2 (by decide) with ⟨s', hreach, hstalled⟩
  exact ⟨s, s', ⟨_, hs⟩, hsettled, hreach, hstalled⟩

/-- Nobody reads node2, so every forwarder waits for node1 alone. -/
theorem never_stalled_with_one_source :
    exists s, Reachable System.step System.initial s ∧ s.Settled ∧
      s.shared.tables.fdIdx = 3 ∧
      forall s', Reachable System.stepOpen s s' -> ¬ s'.Stalled := by
  have hrun :
      (runFrom System.step System.initial twoPublishers).map
        (fun s => (s.settledCheck,
          [s.shared.tables.clientSusList 0, s.shared.tables.clientSusList 1,
            s.shared.tables.clientSusList 2],
          s.shared.tables.fdIdx,
          fdByClientName s.shared.tables (lit "node1"))) =
      some (true, [some (lit "NONE"), some (lit "NONE"), some (lit "node1")],
        3, some 4) := by
    decide +kernel
  rcases Option.map_eq_some_iff.mp hrun with ⟨s, hs, hview⟩
  simp only [Prod.mk.injEq, List.cons.injEq, and_true] at hview
  rcases hview with ⟨hcheck, ⟨hzero, hone, htwo⟩, hrows, hfound⟩
  have hsettled := System.settled_of_check hcheck
  have hnode1 : forall k node, s.shared.tables.Subscribed k node ->
      node = lit "node1" := by
    intro k node hsub
    rcases hsub with ⟨hsus, hsome⟩
    have hk : k < 3 := by
      rcases settled_represents ⟨_, hs⟩ hsettled with ⟨rows, hrepresents, _, _⟩
      rw [← hrows, hrepresents.length]
      apply Nat.lt_of_not_le
      intro hge
      rw [hrepresents.sus, List.getElem?_eq_none hge] at hsus
      cases hsus
    have hcases : k = 0 ∨ k = 1 ∨ k = 2 := by lia
    rcases hcases with rfl | rfl | rfl
    · rw [hzero] at hsus
      rw [← Option.some.inj hsus] at hsome
      exact absurd hsome (by decide)
    · rw [hone] at hsus
      rw [← Option.some.inj hsus] at hsome
      exact absurd hsome (by decide)
    · rw [htwo] at hsus
      exact (Option.some.inj hsus).symm
  refine ⟨s, ⟨_, hs⟩, hsettled, hrows,
    (never_stalled_iff ⟨_, hs⟩ hsettled (by rw [hrows]; decide) ?_).mpr ?_⟩
  · intro k node hsub
    rw [hnode1 k node hsub, hfound]
    exact Option.some_ne_none _
  · intro i k node node' fd fd' hsub hfd hsub' hfd'
    rw [hnode1 i node hsub] at hfd
    rw [hnode1 k node' hsub'] at hfd'
    exact Option.some.inj (hfd'.symm.trans hfd)

end Broker
end MQTTv1
