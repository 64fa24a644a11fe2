import MQTTv1.Composition
import MQTTv1.Interleaved

/-!
# The three programs at the same time

The clients of the composition, with a broker whose threads take turns as they
like.  A registration that is under way can let a forwarder copy topics that
nobody asked for, and blocks can be mixed; but what a subscriber displays are
values of the publisher that it named.
-/

namespace MQTTv1
namespace Broker

open CLib
open Csapp

/-!
# Introductions
-/

/-- What a thread knows of its client are the first two lines that arrived. -/
structure Thread.Introduced (th : Thread) (arrived : List (List Byte)) :
    Prop where
  name : 3 ≤ th.stage -> exists bytes, arrived[0]? = some bytes ∧
    th.bufNodeName = chop (stringOf bytes)
  sus : 4 ≤ th.stage -> exists bytes, arrived[1]? = some bytes ∧
    th.bufSusInfo = chop (stringOf bytes)

theorem Thread.Introduced.mono {th th' : Thread} {arrived : List (List Byte)}
    (h : th.Introduced arrived) (hname : th'.bufNodeName = th.bufNodeName)
    (hsus : th'.bufSusInfo = th.bufSusInfo)
    (hearly : 3 ≤ th'.stage -> 3 ≤ th.stage)
    (hlate : 4 ≤ th'.stage -> 4 ≤ th.stage) : th'.Introduced arrived where
  name := by
    intro hstage
    rw [hname]
    exact h.name (hearly hstage)
  sus := by
    intro hstage
    rw [hsus]
    exact h.sus (hlate hstage)

theorem Thread.Introduced.later {th : Thread}
    {arrived arrived' : List (List Byte)} (h : th.Introduced arrived)
    (hlater : arrived <+: arrived') : th.Introduced arrived' where
  name := by
    intro hstage
    rcases h.name hstage with ⟨bytes, hline, hname⟩
    rcases List.getElem?_eq_some_iff.mp hline with ⟨hlt, rfl⟩
    exact ⟨_, List.prefix_iff_getElem?.mp hlater 0 hlt, hname⟩
  sus := by
    intro hstage
    rcases h.sus hstage with ⟨bytes, hline, hsus⟩
    rcases List.getElem?_eq_some_iff.mp hline with ⟨hlt, rfl⟩
    exact ⟨_, List.prefix_iff_getElem?.mp hlater 1 hlt, hsus⟩

/-- Step lemma: the reads of a registration take the two lines in order. -/
theorem Thread.Registers.introduced {th th' : Thread} {s s' : Shared}
    {events : List Event} (h : th.Registers s th' s')
    (hqueued : Queued events s) (hopen : s.hungUp th.connfd = false)
    (htaken : th.stage ≤ 3 -> s.taken th.connfd = th.stage - 2)
    (hi : th.Introduced (arrivedLines events th.connfd)) :
    th'.Introduced (arrivedLines events th.connfd) := by
  cases h with
  | readName hpoint line _ hline =>
      have hstage : th.stage = 2 := by
        simp [Thread.stage, hpoint]
      rcases takeLine_takes hline with ⟨_, _, hend⟩ | ⟨bytes, rfl, htakes⟩
      · rw [hend] at hopen
        cases hopen
      · have hfirst := (hqueued.takes htakes).right
        rw [htaken (by lia), hstage] at hfirst
        constructor
        · intro _
          exact ⟨bytes, hfirst, rfl⟩
        · intro hlate
          simp [Thread.stage] at hlate
  | readSus hpoint line _ hline =>
      have hstage : th.stage = 3 := by
        simp [Thread.stage, hpoint]
      rcases takeLine_takes hline with ⟨_, _, hend⟩ | ⟨bytes, rfl, htakes⟩
      · rw [hend] at hopen
        cases hopen
      · have hsecond := (hqueued.takes htakes).right
        rw [htaken (by lia), hstage] at hsecond
        constructor
        · intro _
          exact hi.name (by lia)
        · intro _
          exact ⟨bytes, hsecond, rfl⟩
  | waitMutex hpoint | storeFd hpoint =>
      constructor
      · intro hlate
        simp [Thread.stage] at hlate
      · intro hlate
        simp [Thread.stage] at hlate
  | storeName hpoint | storeNone hpoint | storeSus hpoint | storeTopic k hpoint
  | topicsDone k hpoint | advance hpoint | postControl hpoint
  | postMutex hpoint =>
      have hstage : 4 ≤ th.stage := by
        simp only [Thread.stage, Point.stage, hpoint]
        lia
      exact hi.mono rfl rfl (fun _ => Nat.le_of_succ_le hstage)
        (fun _ => hstage)

def Introductions (events : List Event) (s : System) : Prop :=
  forall th, th ∈ s.threads -> Event.hangUp th.connfd ∉ events ->
    th.Introduced (arrivedLines events th.connfd)

theorem Introductions.step {events : List Event} {s s' : System} {e : Event}
    {w : Weave Fd Fd Byte} (hi : Introductions events s)
    (hp : Provenance events s w) (hstep : s.step e = some s') :
    Introductions (events ++ [e]) s' := by
  intro other hother hno
  have hbefore := mt (List.mem_append_left [e]) hno
  have hlater := List.prefix_append (arrivedLines events other.connfd)
    (e.lineOn other.connfd).toList
  rw [← arrivedLines_append] at hlater
  apply Thread.Introduced.later _ hlater
  cases e with
  | accept connfd left =>
      change (if _ then none else some _) = some s' at hstep
      split at hstep
      · cases hstep
      · cases hstep
        rcases List.mem_append.mp hother with hold | hnew
        · exact hi other hold hbefore
        · rw [List.mem_singleton.mp hnew]
          constructor
          · intro hlate
            simp [Thread.start, Thread.stage] at hlate
          · intro hlate
            simp [Thread.start, Thread.stage] at hlate
  | arrive fd line =>
      cases hstep
      exact hi other hother hbefore
  | hangUp fd =>
      cases hstep
      exact hi other hother hbefore
  | run t left =>
      rcases System.step_run hstep with ⟨th, th', hth, hrun, hthreads⟩
      rcases List.getElem?_of_mem hother with ⟨u, hu⟩
      rw [hthreads] at hu
      rcases getElem?_set_cases hth hu with ⟨_, rfl⟩ | ⟨_, hold⟩
      · rcases Thread.step_moves hrun with hmove | hmove
        · rw [hmove.connfd_eq] at hbefore ⊢
          apply hmove.introduced hp.queued
          · exact Bool.eq_false_iff.mpr (mt (hp.hungUp th.connfd) hbefore)
          · intro hearly
            rw [(hp.opening t th hth hearly).left,
              hp.greeted t th hth hbefore]
            lia
          · exact hi th (List.mem_of_getElem? hth) hbefore
        · have hkeeps := hmove.keeps.left
          rw [hkeeps.connfd] at hbefore ⊢
          have hstage : 4 ≤ th.stage := by
            rw [hkeeps.stage.left]
            decide
          exact (hi th (List.mem_of_getElem? hth) hbefore).mono hkeeps.name
            hkeeps.sus (fun _ => Nat.le_of_succ_le hstage) (fun _ => hstage)
      · exact hi other (List.mem_of_getElem? hold) hbefore

theorem introductions_initial : Introductions [] System.initial := by
  intro th hth
  simp [System.initial] at hth

/-- Run lemma, together with the weave of what was sent. -/
theorem exists_introductions {events : List Event} {s : System}
    (hrun : runFrom System.step System.initial events = some s) :
    exists w, Provenance events s w ∧ Introductions events s := by
  have hstep : forall (past : List Event) (s : System) (e : Event) (s' : System),
      (exists w, Provenance past s w ∧ Introductions past s) ->
        s.step e = some s' ->
          exists w, Provenance (past ++ [e]) s' w ∧
            Introductions (past ++ [e]) s' := by
    intro past s e s' hs hstep
    rcases hs with ⟨w, hp, hi⟩
    rcases hp.step hstep with ⟨w', hp'⟩
    exact ⟨w', hp', hi.step hp hstep⟩
  exact runFrom_history hstep ⟨_, provenance_initial, introductions_initial⟩
    hrun

/-!
# The clients of a run
-/

/-- The lines of a client, in the order in which the broker gets them. -/
def Connection.lines (k : Connection) : List (List Byte) :=
  [k.nodeName ++ [newline], k.susInfo ++ [newline]] ++ k.rest

/-- They are what the client sends, cut behind every newline. -/
theorem Connection.lines_chunks (k : Connection) :
    k.lines.flatten = k.chunks.flatten ∧
      forall line, line ∈ k.lines -> IsLine line := by
  constructor
  · unfold lines chunks
    rw [List.flatten_append, List.flatten_append, k.opening_flatten]
    simp
  · intro line hline
    rcases List.mem_append.mp hline with hline | hline
    · rcases List.mem_pair.mp hline with rfl | rfl
      · exact k.nodeName_line
      · exact k.susInfo_line
    · exact k.rest_lines line hline

/--
A run of the broker with clients that have names and descriptors of their own.
It accepts only them, their lines have come in order as far as they have come,
none of them hangs up, and no line leaves a buffer.
-/
structure Attended (clients : List Client) (events : List Event) (s : System) :
    Prop where
  run : runFrom System.stepFits System.initial events = some s
  names : (clients.map fun c => c.connection.nodeName).Nodup
  fds : (clients.map fun c => c.connection.connfd).Nodup
  accepted : forall th, th ∈ s.threads ->
    exists c, c ∈ clients ∧ c.connection.connfd = th.connfd
  lines : forall c, c ∈ clients ->
    arrivedLines events c.connection.connfd <+: c.connection.lines
  connected : forall fd, Event.hangUp fd ∉ events

structure RowFor (c : Client) (row : Row) : Prop where
  fd : row.fd = c.connection.connfd
  name : row.name = c.connection.nodeName
  sus : exists left, row.sus = subscribedNode c.connection.susInfo left

section

variable {clients : List Client} {events : List Event} {s : System}
variable {n i : Nat} {row : Row} {fd : Fd} {name : CStr}

theorem Attended.line (h : Attended clients events s) {c : Client}
    (hc : c ∈ clients) {k : Nat} {bytes : List Byte}
    (hline : (arrivedLines events c.connection.connfd)[k]? = some bytes) :
    c.connection.lines[k]? = some bytes := by
  rcases List.getElem?_eq_some_iff.mp hline with ⟨hlt, rfl⟩
  exact List.prefix_iff_getElem?.mp (h.lines c hc) k hlt

/-- The rows are those of the clients. -/
theorem Attended.owner (h : Attended clients events s)
    (hi : Introductions events s) (hn : 4 ≤ n)
    (howner : OwnerOf s.threads n i row) :
    exists c, c ∈ clients ∧ RowFor c row := by
  rcases howner with ⟨u, th, hu, _, hstage, rfl⟩
  have hmem := List.mem_of_getElem? hu
  rcases h.accepted th hmem with ⟨c, hc, hfd⟩
  have hintroduced := hi th hmem (h.connected th.connfd)
  rw [← hfd] at hintroduced
  rcases hintroduced.name (by lia) with ⟨first, hfirst, hname⟩
  rcases hintroduced.sus (by lia) with ⟨second, hsecond, hsus⟩
  have hone := h.line hc hfirst
  have htwo := h.line hc hsecond
  cases hone
  cases htwo
  rw [chop_stringOf_line c.connection.nodeName_nulFree] at hname
  rw [chop_stringOf_line c.connection.susInfo_nulFree] at hsus
  refine ⟨c, hc, hfd.symm, hname, th.left, ?_⟩
  rw [← hsus]
  rfl

theorem Attended.named (h : Attended clients events s)
    (hi : Introductions events s) (hnamed : NamedAt s.threads fd name) :
    exists c, c ∈ clients ∧ c.connection.connfd = fd ∧
      c.connection.nodeName = name := by
  rcases hnamed with ⟨i, row, howner, rfl, rfl⟩
  rcases h.owner hi (by lia) howner with ⟨c, hc, hrow⟩
  exact ⟨c, hc, hrow.fd.symm, hrow.name.symm⟩

theorem Attended.publisher (h : Attended clients events s) {c : Client}
    (hc : c ∈ clients) {k : Nat} (hk : 2 ≤ k) {bytes : List Byte}
    (hline : (arrivedLines events c.connection.connfd)[k]? = some bytes) :
    exists (p : Publisher.Session) (r : Publisher.Round),
      c = .publisher p ∧ p.rounds[k - 2]? = some r ∧
        bytes = r.report.summary.metrics.line ∧
        r.report.summary.metrics.line.length < 100 := by
  have hrest : c.connection.rest[k - 2]? = some bytes := by
    have hall := h.line hc hline
    unfold Connection.lines at hall
    rw [List.getElem?_append_right hk] at hall
    exact hall
  cases c with
  | subscriber q => cases hrest
  | publisher p =>
      rcases p.exists_publishing with ⟨publishing, hrounds, hchunks⟩
      have hmessages := publishing.chunks_eq
      rw [hchunks, hrounds] at hmessages
      change p.rest[k - 2]? = some bytes at hrest
      rw [hmessages, List.getElem?_map] at hrest
      rcases Option.map_eq_some_iff.mp hrest with ⟨r, hr, rfl⟩
      have hshort := p.short r (List.mem_of_getElem? hr)
      unfold Publisher.publishedMessage at hshort ⊢
      rw [← Publisher.TopInfo.metrics_line] at hshort ⊢
      exact ⟨p, r, rfl, hr, rfl, hshort⟩

end

end Broker

namespace Subscriber

open CLib
open Csapp
open Broker
open Publisher

/-!
# Screens
-/

/--
The value is one of a round of the publisher that the subscriber named, and the
text is sent for the message of this round.
-/
structure Reports (clients : List Client) (q : Session)
    (strand : Strand Fd Byte) (v : Nat × CStr) : Prop where
  topic : v.1 < TOPICS_NUMBER
  piece : strand.piece = ended (topicLine v)
  /-- The two lines of the handshake come first. -/
  behind : 2 ≤ strand.number
  round : exists (p : Publisher.Session) (r : Round),
    .publisher p ∈ clients ∧
      p.nodeName.text = nodePart q.suscriptionTopic.text ∧
      p.connfd = strand.source ∧ p.rounds[strand.number - 2]? = some r ∧
      v.2 = r.report.summary.metrics.field v.1

theorem Reports.plain {clients : List Client} {q : Session}
    {strand : Strand Fd Byte} {v : Nat × CStr}
    (h : Reports clients q strand v) : newline ∉ v.2 := by
  rcases h.round with ⟨_, r, _, _, _, _, hvalue⟩
  rw [hvalue]
  exact newline_notMem_field _ h.topic

section

variable {clients : List Client} {events : List Event} {s : System}
variable {w : Weave Fd Fd Byte} {q : Session}

theorem sus_of_named (h : Attended clients events s)
    (hi : Introductions events s) (hq : .subscriber q ∈ clients) {i : Nat}
    {row : Row} (howner : OwnerOf s.threads 6 i row)
    (hnamed : NamedAt s.threads q.connfd row.name) :
    row.sus = nodePart q.suscriptionTopic.text := by
  rcases h.named hi hnamed with ⟨c, hc, hfd, hname⟩
  have hsame : c = .subscriber q := List.inj_on_of_nodup_map h.fds hc hq hfd
  rcases h.owner hi (by lia) howner with ⟨other, hother, hrow⟩
  have hown : other = c :=
    List.inj_on_of_nodup_map h.names hother hc (hrow.name.symm.trans hname.symm)
  rw [hown, hsame] at hrow
  rcases hrow.sus with ⟨left, hsus⟩
  exact hsus.trans (subscribedNode_topic left q.topic_ne q.node_ne)

theorem exists_reports (h : Attended clients events s)
    (hp : Provenance events s w) (hi : Introductions events s)
    (hq : .subscriber q ∈ clients) {strand : Strand Fd Byte}
    (hstrand : strand ∈ w.strands q.connfd) :
    exists v, Reports clients q strand v := by
  rcases strand_forwarded hp.woven hstrand with
    ⟨hfirst, _, block, hforwarded, hpiece⟩
  rcases hforwarded.row with ⟨i, row, howner, _, hpub, hsus⟩
  rw [sus_of_named h hi hq howner hsus] at hpub
  rcases hforwarded.texts with ⟨bytes, _, _, hline, _⟩
  have hbehind : 2 ≤ strand.number := by
    rcases hpub.thread with ⟨u, th, hu, hstage, hfd⟩
    have hskipped := hp.greeted u th hu (h.connected th.connfd)
    rw [hfd] at hskipped
    lia
  rcases h.named hi hpub with ⟨c, hc, hfd, hname⟩
  rw [← hfd] at hline hforwarded
  rcases h.publisher hc hbehind hline with ⟨p, r, rfl, hr, rfl, hshort⟩
  rcases topicLine_of_forwarded hforwarded hshort hline hpiece with
    ⟨j, hj, htext⟩
  exact ⟨(j, r.report.summary.metrics.field j), hj, htext, hbehind,
    p, r, hc, hname, hfd, hr, rfl⟩

end

/--
Whatever the order in which the threads take their steps, a subscriber whose
connection is closed has displayed one value for each text that it was sent, and
each of them is a value of the publisher that it named.  The texts of a round go
to one subscriber only, once each and in order.
-/
theorem session_woven {clients : List Client} {events : List Event} {s : System}
    (h : Attended clients events s) :
    exists w : Weave Fd Fd Byte,
      Woven (Forwarded events s.threads) s.relay w ∧
        forall (q : Session) (results : List ReadResult)
            (later : List Arrival),
          .subscriber q ∈ clients ->
            arrivals results = (s.shared.sent q.connfd).map Arrival.byte ++
              .eof :: .eof :: later ->
            exists (printed : List Byte) (values : List (Nat × CStr)),
              receiveLoop (rioReadinitb q.clientfd) results =
                  (printed, .closed) ∧
                readScreen printed = values.map some ∧
                List.Forall₂ (Reports clients q) (w.strands q.connfd)
                  values := by
  rcases exists_introductions (runFrom_of_guarded h.run) with ⟨w, hp, hi⟩
  refine ⟨w, hp.woven, ?_⟩
  intro q results later hq hresults
  apply screen_of_strands hp.woven _ _ hresults
  · intro strand v hreports
    exact ⟨hreports.topic, hreports.plain, hreports.piece⟩
  · intro strand hstrand
    exact exists_reports h hp hi hq hstrand

/-!
## Two programs
-/

def idleForwarded : List Event :=
  connects 4 (lit "node1") (lit "NONE") ++ runs 0 9 ++
    connects 5 (lit "sub1") (lit "node1/tasks/gen") ++ runs 1 16 ++
    [.arrive 4 idleMessage] ++ runs 0 18

theorem session_woven_node1 :
    exists s, runFrom System.stepFits System.initial idleForwarded = some s ∧
      s.shared.sent 5 = lit "tasks/gen: 293" ++ [newline] ∧
      exists (printed : List Byte) (values : List (Nat × CStr)),
        receiveLoop (rioReadinitb 3)
            [.bytes (s.shared.sent 5), .bytes [], .bytes []] =
          (printed, .closed) ∧
        readScreen printed = values.map some := by
  have hrun : exists s,
      runFrom System.stepFits System.initial idleForwarded = some s ∧
        s.shared.sent 5 = lit "tasks/gen: 293" ++ [newline] ∧
        s.threads.map Thread.connfd = [4, 5] :=
    ⟨_, rfl, by decide +kernel, by decide +kernel⟩
  rcases hrun with ⟨s, hs, hsent, hthreads⟩
  rcases exists_publisherSession with
    ⟨p, hrounds, hpname, hpfd, _, _, hprest⟩
  rcases exists_subscriberSession with ⟨q, hqname, htopic, hclient, hqfd, _, _⟩
  let clients := [Client.publisher p, .subscriber q]
  have hattended : Attended clients idleForwarded s := by
    constructor
    · exact hs
    · show [p.nodeName.text, q.nodeName.text].Nodup
      rw [hpname, hqname]
      decide
    · show [p.connfd, q.connfd].Nodup
      rw [hpfd, hqfd]
      decide
    · intro th hth
      have hfd := List.mem_map_of_mem (f := Thread.connfd) hth
      rw [hthreads] at hfd
      rcases List.mem_pair.mp hfd with hfd | hfd
      · exact ⟨_, List.mem_cons_self, hpfd.trans hfd.symm⟩
      · exact ⟨_, List.mem_cons_of_mem _ List.mem_cons_self,
          hqfd.trans hfd.symm⟩
    · intro c hc
      rcases List.mem_pair.mp hc with rfl | rfl
      · show arrivedLines idleForwarded p.connfd <+:
          [p.nodeName.text ++ [newline], lit "NONE" ++ [newline]] ++ p.rest
        rw [hpfd, hpname, hprest]
        exact List.prefix_rfl
      · show arrivedLines idleForwarded q.connfd <+:
          [q.nodeName.text ++ [newline],
            q.suscriptionTopic.text ++ [newline]] ++ []
        rw [hqfd, hqname, htopic]
        exact List.prefix_rfl
    · intro fd
      simp [idleForwarded, connects, runs]
  have hresults : arrivals [.bytes (s.shared.sent 5), .bytes [], .bytes []] =
      (s.shared.sent q.connfd).map Arrival.byte ++ .eof :: .eof :: [] := by
    rw [hqfd, hsent]
    rfl
  rcases session_woven hattended with ⟨w, _, hscreen⟩
  rcases hscreen q _ _ (List.mem_cons_of_mem _ List.mem_cons_self) hresults with
    ⟨printed, values, hloop, hread, _⟩
  rw [hclient] at hloop
  exact ⟨s, hs, hsent, printed, values, hloop, hread⟩

end Subscriber
end MQTTv1
