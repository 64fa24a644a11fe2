import MQTTv1.Broker.Sessions
import MQTTv1.EndToEnd
import MQTTv1.Subscriber.Handshake

/-!
# The three programs from their start

Publishers and subscribers are started with their arguments, connect, open with
two lines and go on as their loops say.  The broker registers them in some order
and forwards.  All that is assumed of the connections is where some of the
broker's `read` calls end.
-/

namespace MQTTv1
namespace Publisher

open CLib
open Csapp
open Broker
open Subscriber

/-!
# The publisher
-/

def bufSuscription : CStr := lit "NONE" ++ [newline]

def BROKER_HOST : CStr := lit "127.0.0.1"

/-- `main` of `pub_client` up to its loop. -/
def openSession (clientfd : Fd) (nodeNameBuf : List Byte) (nodeName : CStr)
    (s : PublisherState) (w : World) :
    Except Stop (PublisherState × World) := do
  let nodeNameBuf := formatArgument nodeNameBuf nodeName
  let w <- RioWriten clientfd (stringOf nodeNameBuf) w
  let w <- RioWriten clientfd bufSuscription w
  let stdout := s.stdout ++
    (lit "Name: " ++ stringOf nodeNameBuf ++ lit "Suscription: " ++
      bufSuscription ++ lit "Connected to: " ++ BROKER_HOST ++
      [newline, newline, newline])
  return ({ s with stdout := stdout }, w)

/-- `main` with the first rounds of its loop. -/
def publisherMain (clientfd : Fd) (nodeNameBuf : List Byte) (nodeName : CStr)
    (rounds : List Round) (s : PublisherState) (w : World) :
    Except Stop (PublisherState × World) := do
  let (s, w) <- openSession clientfd nodeNameBuf nodeName s w
  publishRounds clientfd rounds s w

structure Argument where
  text : CStr
  nulFree : NulFree text
  oneLine : newline ∉ text
  fits : text.length ≤ 18

theorem Argument.line (arg : Argument) : IsLine (arg.text ++ [newline]) :=
  isLine_argument arg.oneLine arg.fits

/-- A run of `pub_client`, and how its bytes come to a thread of the broker. -/
structure Session where
  clientfd : Fd
  nodeNameBuf : List Byte
  nodeName : Argument
  rounds : List Round
  start : PublisherState
  before : World
  final : PublisherState
  after : World
  ran : publisherMain clientfd nodeNameBuf nodeName.text rounds start before =
    .ok (final, after)
  growing : Growing start.files.topTxt.length rounds
  plain : forall r, r ∈ rounds -> r.Plain
  short : forall r, r ∈ rounds -> (publishedMessage r).length < 100
  connfd : Fd
  left : Leftover
  opening : List Chunk
  rest : List Chunk
  /-- Nothing is lost between the two programs. -/
  carried : after.sent clientfd =
    before.sent clientfd ++ (opening ++ rest).flatten
  /-- Some `read` ends with the handshake, and each later one with a line. -/
  opening_nonEmpty : NonEmptyChunks opening
  opening_length : opening.flatten.length =
    (nodeName.text ++ [newline] ++ bufSuscription).length
  rest_lines : forall c, c ∈ rest -> IsLine c

theorem nulFree_none : NulFree (lit "NONE") := by
  decide

theorem isLine_bufSuscription : IsLine bufSuscription :=
  isLine_argument (by decide) (by decide)

theorem openSession_ok {clientfd : Fd} {nodeNameBuf : List Byte}
    {nodeName : Argument} {s s' : PublisherState} {w w' : World}
    (h : openSession clientfd nodeNameBuf nodeName.text s w = .ok (s', w')) :
    s'.files = s.files ∧
      w'.sent clientfd = w.sent clientfd ++
        ((nodeName.text ++ [newline]) ++ bufSuscription) := by
  unfold openSession at h
  simp only [stringOf_formatArgument nodeName.nulFree] at h
  rcases bind_eq_ok.mp h with ⟨mid, hfirst, h⟩
  rcases bind_eq_ok.mp h with ⟨last, hsecond, h⟩
  cases h
  refine ⟨rfl, ?_⟩
  rw [(RioWriten_ok hsecond).right, (RioWriten_ok hfirst).right]
  simp

namespace Session

/-- The handshake and the messages come apart in the stream. -/
theorem parts (c : Session) :
    exists mid w, openSession c.clientfd c.nodeNameBuf c.nodeName.text c.start
        c.before = .ok (mid, w) ∧
      publishRounds c.clientfd c.rounds mid w = .ok (c.final, c.after) ∧
      mid.files = c.start.files ∧
      c.opening.flatten = (c.nodeName.text ++ [newline]) ++ bufSuscription ∧
      c.after.sent c.clientfd = w.sent c.clientfd ++ c.rest.flatten := by
  rcases bind_eq_ok.mp c.ran with ⟨⟨mid, w⟩, hopen, hrounds⟩
  rcases openSession_ok hopen with ⟨hfiles, hsent⟩
  refine ⟨mid, w, hopen, hrounds, hfiles, ?_⟩
  have hgrowing : Growing mid.files.topTxt.length c.rounds := by
    rw [hfiles]
    exact c.growing
  have hrest := (publishRounds_sent (hgrowing.undisturbed c.plain) hrounds).left
  have hall := c.carried
  rw [hrest, hsent, List.append_assoc, List.flatten_append] at hall
  have hsplit := List.append_cancel_left hall
  rcases List.append_inj hsplit c.opening_length.symm with ⟨hopening, hmessages⟩
  refine ⟨hopening.symm, ?_⟩
  rw [hrest, hmessages]

theorem opening_flatten (c : Session) :
    c.opening.flatten = (c.nodeName.text ++ [newline]) ++ bufSuscription := by
  rcases c.parts with ⟨mid, w, _, _, _, hopening, _⟩
  exact hopening

def connection (c : Session) : Connection where
  connfd := c.connfd
  left := c.left
  nodeName := c.nodeName.text
  susInfo := lit "NONE"
  opening := c.opening
  rest := c.rest
  nodeName_nulFree := c.nodeName.nulFree
  susInfo_nulFree := nulFree_none
  nodeName_line := c.nodeName.line
  susInfo_line := isLine_bufSuscription
  opening_nonEmpty := c.opening_nonEmpty
  opening_flatten := c.opening_flatten
  rest_lines := c.rest_lines

theorem exists_publishing (c : Session) :
    exists p : Publishing, p.rounds = c.rounds ∧ p.chunks = c.rest := by
  rcases c.parts with ⟨mid, w, _, hrounds, hfiles, _, hsent⟩
  have hgrowing : Growing mid.files.topTxt.length c.rounds := by
    rw [hfiles]
    exact c.growing
  exact ⟨⟨c.clientfd, c.rounds, mid, w, c.final, c.after, c.rest, hrounds,
    hgrowing, c.plain, c.short, hsent, c.rest_lines⟩, rfl, rfl⟩

end Session

end Publisher

namespace Subscriber

open CLib
open Csapp
open Broker
open Publisher

/-!
# The subscriber
-/

/-- A run of `sub_client` up to its loop, and how its bytes come to a thread. -/
structure Session where
  clientfd : Fd
  bufs : ArgumentBuffers
  nodeName : Argument
  suscriptionTopic : Argument
  node_ne : nodePart suscriptionTopic.text ≠ []
  named : nodePart suscriptionTopic.text ≠ lit "NONE"
  before : World
  after : World
  ran : sendHandshake clientfd bufs nodeName.text suscriptionTopic.text before =
    .ok after
  connfd : Fd
  left : Leftover
  opening : List Chunk
  carried : after.sent clientfd = before.sent clientfd ++ opening.flatten
  opening_nonEmpty : NonEmptyChunks opening

namespace Session

theorem opening_flatten (q : Session) :
    q.opening.flatten = (q.nodeName.text ++ [newline]) ++
      (q.suscriptionTopic.text ++ [newline]) := by
  have hsent := sendHandshake_sent q.nodeName.nulFree
    q.suscriptionTopic.nulFree q.ran
  rw [q.carried] at hsent
  exact List.append_cancel_left hsent

theorem rest_lines : forall c, c ∈ ([] : List Chunk) -> IsLine c := by
  intro c hc
  cases hc

def connection (q : Session) : Connection where
  connfd := q.connfd
  left := q.left
  nodeName := q.nodeName.text
  susInfo := q.suscriptionTopic.text
  opening := q.opening
  rest := []
  nodeName_nulFree := q.nodeName.nulFree
  susInfo_nulFree := q.suscriptionTopic.nulFree
  nodeName_line := q.nodeName.line
  susInfo_line := q.suscriptionTopic.line
  opening_nonEmpty := q.opening_nonEmpty
  opening_flatten := q.opening_flatten
  rest_lines := rest_lines

theorem topic_ne (q : Session) : q.suscriptionTopic.text ≠ lit "NONE" := by
  intro hnone
  have hnode := q.named
  rw [hnone] at hnode
  exact hnode (by decide)

theorem row_sus (q : Session) :
    q.connection.row.sus = nodePart q.suscriptionTopic.text :=
  subscribedNode_topic q.left q.topic_ne q.node_ne

theorem row_subscribed (q : Session) : q.connection.row.Subscribed := by
  unfold Row.Subscribed
  rw [q.row_sus]
  simpa [isNone] using q.named

end Session

end Subscriber

/-!
# All clients
-/

namespace Broker

open CLib
open Csapp

inductive Client where
  | publisher (c : Publisher.Session)
  | subscriber (q : Subscriber.Session)

def Client.connection : Client -> Connection
  | .publisher c => c.connection
  | .subscriber q => q.connection

/--
Clients with names and descriptors of their own, each of whose subscribers names
a publisher, and what the broker reads of them.
-/
structure Connected (clients : List Client) (w : World) : Prop where
  names : (clients.map fun c => c.connection.nodeName).Nodup
  fds : (clients.map fun c => c.connection.connfd).Nodup
  nodes : forall q, .subscriber q ∈ clients -> exists p,
    .publisher p ∈ clients ∧
      p.nodeName.text = Subscriber.nodePart q.suscriptionTopic.text
  input : forall c, c ∈ clients ->
    w.input c.connection.connfd = delivered c.connection.chunks
  sent : forall fd, w.sent fd = []

def connections (clients : List Client) : List Connection :=
  clients.map Client.connection

def rowsOf (clients : List Client) : List Row :=
  (connections clients).map Connection.row

section

variable {clients : List Client} {w w' : World} {t : Tables}

theorem mem_rowsOf {row : Row} :
    row ∈ rowsOf clients <->
      exists c, c ∈ clients ∧ c.connection.row = row := by
  simp [rowsOf, connections]

theorem subscribed_rowsOf {row : Row} (hrow : row ∈ rowsOf clients)
    (hsub : row.Subscribed) :
    exists q, .subscriber q ∈ clients ∧ q.connection.row = row := by
  rcases mem_rowsOf.mp hrow with ⟨c, hc, rfl⟩
  cases c with
  | publisher c => cases hsub
  | subscriber q => exact ⟨q, hc, rfl⟩

theorem Connected.registered (h : Connected clients w)
    (hreg : registerAll (accepted (connections clients)) Tables.initial w =
      .ok (t, w')) :
    Registered t (rowsOf clients) ∧ w'.sent = w.sent ∧
      forall c, c ∈ clients ->
        w'.input c.connection.connfd = delivered c.connection.rest := by
  have hfds : ((connections clients).map Connection.connfd).Nodup := by
    have hsame := h.fds
    unfold connections
    rw [List.map_map]
    exact hsame
  have hinput : forall k, k ∈ connections clients ->
      w.input k.connfd = delivered k.chunks := by
    intro k hk
    rcases List.mem_map.mp hk with ⟨c, hc, rfl⟩
    exact h.input c hc
  rcases registerAll_connections hfds represents_initial hinput hreg with
    ⟨hrows, hrest, _, hsent⟩
  rw [List.nil_append] at hrows
  refine ⟨⟨hrows, ?_, ?_, ?_⟩, hsent, ?_⟩
  · have hsame := h.names
    unfold rowsOf connections
    rw [List.map_map, List.map_map]
    exact hsame
  · have hsame := h.fds
    unfold rowsOf connections
    rw [List.map_map, List.map_map]
    exact hsame
  · intro row hrow hsub
    rcases subscribed_rowsOf hrow hsub with ⟨q, hq, rfl⟩
    rcases h.nodes q hq with ⟨p, hp, hname⟩
    exact ⟨p.connection.row, mem_rowsOf.mpr ⟨_, hp, rfl⟩,
      hname.trans q.row_sus.symm⟩
  · intro c hc
    exact hrest _ (List.mem_map_of_mem hc)

theorem Connected.publisherOf (h : Connected clients w)
    (ht : Registered t (rowsOf clients)) {reader p : Row}
    (hpub : PublisherOf (rowsOf clients) reader p) :
    exists c, .publisher c ∈ clients ∧ c.connection.row = p := by
  rcases subscribed_rowsOf hpub.row_mem hpub.subscribed with ⟨q, hq, rfl⟩
  rcases h.nodes q hq with ⟨c, hc, hname⟩
  refine ⟨c, hc, ?_⟩
  apply ht.eq_of_name hpub.mem (mem_rowsOf.mpr ⟨_, hc, rfl⟩)
  rw [hpub.name, q.row_sus]
  exact hname

theorem Connected.publishings (h : Connected clients w)
    (p : Publisher.Session) :
    exists publishings : Fd -> Publisher.Publishing,
      forall c, .publisher c ∈ clients ->
        (publishings c.connfd).rounds = c.rounds ∧
          (publishings c.connfd).chunks = c.rest := by
  have hone : forall fd, exists published : Publisher.Publishing,
      forall c, .publisher c ∈ clients -> c.connfd = fd ->
        published.rounds = c.rounds ∧ published.chunks = c.rest := by
    intro fd
    by_cases hfd : exists c, .publisher c ∈ clients ∧ c.connfd = fd
    · rcases hfd with ⟨c, hc, rfl⟩
      rcases c.exists_publishing with ⟨published, hrounds, hchunks⟩
      refine ⟨published, ?_⟩
      intro other hother hsame
      have heq : Client.publisher other = .publisher c :=
        List.inj_on_of_nodup_map h.fds hother hc hsame
      cases heq
      exact ⟨hrounds, hchunks⟩
    · rcases p.exists_publishing with ⟨published, _⟩
      refine ⟨published, ?_⟩
      intro c hc hsame
      exact absurd ⟨c, hc, hsame⟩ hfd
  rcases Classical.skolem.mp hone with ⟨publishings, hall⟩
  exact ⟨publishings, fun c hc => hall c.connfd c hc rfl⟩

end

end Broker

namespace Subscriber

open CLib
open Csapp
open Broker
open Publisher

/--
From the arguments of all programs to a screen: when the clients have registered
in the order of the list and a single forwarder has made its passes without
leaving a buffer, a subscriber whose connection is closed has displayed the
values that its filter selects, of one report of the publisher that it named a
pass, in the order of the reports; and of the first reports when nobody else
names that publisher.
-/
theorem session_displayed {clients : List Client}
    {stack : World -> MessageLeftover} {passes : Nat} {t : Tables}
    {w registered w' : World} (h : Connected clients w)
    (hreg : registerAll (accepted (connections clients)) Tables.initial w =
      .ok (t, registered))
    (hrun : forwardMessagesInBounds t stack passes registered = .ok w')
    {q : Subscriber.Session} {p : Publisher.Session}
    (hq : .subscriber q ∈ clients) (hp : .publisher p ∈ clients)
    (hnode : p.nodeName.text = nodePart q.suscriptionTopic.text)
    {results : List ReadResult} {later : List Arrival}
    (hresults : arrivals results =
      (w'.sent q.connfd).map Arrival.byte ++ .eof :: .eof :: later) :
    exists (served : List Round) (printed : List Byte),
      served.Sublist p.rounds ∧ served.length = passes ∧
        ((forall other, .subscriber other ∈ clients ->
            nodePart other.suscriptionTopic.text = p.nodeName.text ->
              other = q) ->
          served = p.rounds.take passes) ∧
        receiveLoop (rioReadinitb q.clientfd) results = (printed, .closed) ∧
        readScreen printed =
          (served.flatMap fun r =>
            selectedValues (subscribedMask q.suscriptionTopic.text q.left)
              r.report.summary.metrics).map some := by
  rcases h.registered hreg with ⟨ht, hsent, hrest⟩
  rcases h.publishings p with ⟨publishings, hpublishings⟩
  have hpub : PublisherOf (rowsOf clients) q.connection.row
      p.connection.row :=
    ⟨mem_rowsOf.mpr ⟨_, hq, rfl⟩, q.row_subscribed,
      mem_rowsOf.mpr ⟨_, hp, rfl⟩, hnode.trans q.row_sus.symm⟩
  have hinput : forall reader source,
      PublisherOf (rowsOf clients) reader source ->
        registered.input source.fd =
          delivered (publishings source.fd).chunks := by
    intro reader source hsource
    rcases h.publisherOf ht hsource with ⟨c, hc, rfl⟩
    have hwaiting := hrest _ hc
    show registered.input c.connfd = delivered (publishings c.connfd).chunks
    rw [(hpublishings c hc).right]
    exact hwaiting
  have hnew : registered.sent q.connection.row.fd = [] := by
    rw [hsent]
    exact h.sent _
  rcases reports_displayed ht publishings hinput
    (forwardMessagesInBounds_ok hrun) hpub hnew hresults with
    ⟨served, printed, hserved, hlength, hsole, hloop, hscreen⟩
  have hrounds : (publishings p.connection.row.fd).rounds = p.rounds :=
    (hpublishings p hp).left
  rw [hrounds] at hserved hsole
  refine ⟨served, printed, hserved, hlength, ?_, hloop, hscreen⟩
  intro honly
  have hfirst : served <+: p.rounds := by
    apply hsole
    intro other hother
    rcases subscribed_rowsOf hother.row_mem hother.subscribed with
      ⟨o, ho, rfl⟩
    have hsame : nodePart o.suscriptionTopic.text = p.nodeName.text := by
      rw [← o.row_sus]
      exact hother.name.symm
    rw [honly o ho hsame]
  rw [← hlength]
  exact List.prefix_iff_eq_take.mp hfirst

/-!
## Two programs
-/

def openingOf (nodeName susInfo : CStr) : List Chunk :=
  [(nodeName ++ [newline]) ++ (susInfo ++ [newline])]

theorem openingOf_nonEmpty (nodeName susInfo : CStr) :
    NonEmptyChunks (openingOf nodeName susInfo) := by
  intro c hc
  rw [List.mem_singleton.mp hc]
  simp

def shortArgument (text : CStr) (hfree : NulFree text)
    (hline : newline ∉ text) (hfits : text.length ≤ 18) : Argument where
  text := text
  nulFree := hfree
  oneLine := hline
  fits := hfits

theorem exists_publisherSession :
    exists c : Publisher.Session, c.rounds = [idleRound] ∧
      c.nodeName.text = lit "node1" ∧ c.connfd = 4 ∧
      c.left = cleanLeftover ∧ c.opening = openingOf (lit "node1") (lit "NONE") ∧
      c.rest = [idleMessage] := by
  let name := shortArgument (lit "node1") (by decide) (by decide) (by decide)
  have hwriting := RioWriten_accepting quietWorld_accepting
    (stringOf (formatArgument zeroBuffers.nodeNameBuf name.text))
  rcases hwriting with ⟨w1, hfirst, hmid⟩
  rcases RioWriten_accepting hmid bufSuscription with ⟨w2, hsecond, hready⟩
  have hopen : exists s, openSession 3 zeroBuffers.nodeNameBuf name.text
      newPublisher (quietWorld []) = .ok (s, w2) ∧
        s.files = newPublisher.files := by
    unfold openSession
    simp only [hfirst, hsecond, bind, Except.bind]
    exact ⟨_, rfl, rfl⟩
  rcases hopen with ⟨s, hopen, hfiles⟩
  have hgrowing : Growing s.files.topTxt.length [idleRound] := by
    rw [hfiles]
    exact growing_idleRound
  have hall := hgrowing.undisturbed plain_idleRound
  rcases publishRounds_returns hall hready with ⟨final, after, hrounds⟩
  have hran : publisherMain 3 zeroBuffers.nodeNameBuf name.text [idleRound]
      newPublisher (quietWorld []) = .ok (final, after) := by
    unfold publisherMain
    simp only [hopen, bind, Except.bind]
    exact hrounds
  have hshort : forall r, r ∈ [idleRound] ->
      (publishedMessage r).length < 100 := by
    intro r hr
    rw [List.mem_singleton.mp hr, publishedMessage_idleRound]
    decide
  have hsent := (publishRounds_sent hall hrounds).left
  rw [(openSession_ok hopen).right, List.flatMap_singleton,
    publishedMessage_idleRound] at hsent
  have hlines : forall c, c ∈ [idleMessage] -> IsLine c := by
    intro c hc
    rw [List.mem_singleton.mp hc, ← publishedMessage_idleRound]
    exact isLine_publishedMessage (hshort idleRound List.mem_cons_self)
  have hcarried : after.sent 3 = (quietWorld []).sent 3 ++
      (openingOf (lit "node1") (lit "NONE") ++ [idleMessage]).flatten := by
    rw [hsent]
    simp [openingOf, bufSuscription, name, shortArgument]
  let c : Publisher.Session :=
    { clientfd := 3, nodeNameBuf := zeroBuffers.nodeNameBuf, nodeName := name
      rounds := [idleRound], start := newPublisher, before := quietWorld []
      final := final, after := after, ran := hran
      growing := growing_idleRound, plain := plain_idleRound, short := hshort
      connfd := 4, left := cleanLeftover
      opening := openingOf (lit "node1") (lit "NONE"), rest := [idleMessage]
      carried := hcarried, opening_nonEmpty := openingOf_nonEmpty _ _
      opening_length := by simp [openingOf, bufSuscription, name, shortArgument]
      rest_lines := hlines }
  exact ⟨c, rfl, rfl, rfl, rfl, rfl, rfl⟩

theorem exists_subscriberSession :
    exists q : Subscriber.Session,
      q.nodeName.text = lit "sub1" ∧
      q.suscriptionTopic.text = lit "node1/tasks/gen" ∧ q.clientfd = 3 ∧
      q.connfd = 5 ∧ q.left = cleanLeftover ∧
      q.opening = openingOf (lit "sub1") (lit "node1/tasks/gen") := by
  let name := shortArgument (lit "sub1") (by decide) (by decide) (by decide)
  let topic := shortArgument (lit "node1/tasks/gen") (by decide) (by decide)
    (by decide)
  rcases sendHandshake_accepting zeroBuffers name.text topic.text
    quietWorld_accepting with ⟨after, hran⟩
  have hsent := sendHandshake_sent name.nulFree topic.nulFree hran
  refine ⟨⟨3, zeroBuffers, name, topic, by decide, by decide, quietWorld [],
    after, hran, 5, cleanLeftover,
    openingOf (lit "sub1") (lit "node1/tasks/gen"), ?_,
    openingOf_nonEmpty _ _⟩, rfl, rfl, rfl, rfl, rfl, rfl⟩
  rw [hsent]
  rfl

def startedWorld : World where
  input := fun fd =>
    if fd = 4 then
      delivered (openingOf (lit "node1") (lit "NONE") ++ [idleMessage])
    else if fd = 5 then
      delivered (openingOf (lit "sub1") (lit "node1/tasks/gen"))
    else []
  writes := fun _ => []
  sent := fun _ => []
  log := []

theorem session_displayed_node1 :
    exists t registered w',
      registerAll [(4, cleanLeftover), (5, cleanLeftover)] Tables.initial
          startedWorld = .ok (t, registered) ∧
        forwardMessagesInBounds t cleanStack 1 registered = .ok w' ∧
        readScreen (receiveLoop (rioReadinitb 3)
          [.bytes (w'.sent 5), .bytes [], .bytes []]).1 =
            [some (0, lit "293")] := by
  have hruns : (registerAll [(4, cleanLeftover), (5, cleanLeftover)]
      Tables.initial startedWorld >>= fun result =>
        (forwardMessagesInBounds result.1 cleanStack 1 result.2).map fun w' =>
          w'.sent 5) = .ok (lit "tasks/gen: 293" ++ [newline]) := rfl
  rcases bind_eq_ok.mp hruns with ⟨⟨t, registered⟩, hreg, hpass⟩
  rcases exists_of_map_ok hpass with ⟨w', hw', hsent⟩
  rcases exists_publisherSession with
    ⟨p, hrounds, hpname, hpfd, hpleft, hpopening, hprest⟩
  rcases exists_subscriberSession with
    ⟨q, hqname, htopic, hclient, hqfd, hqleft, hqopening⟩
  let clients := [Client.publisher p, .subscriber q]
  have haccepted : accepted (connections clients) =
      [(4, cleanLeftover), (5, cleanLeftover)] := by
    show [(p.connfd, p.left), (q.connfd, q.left)] = _
    rw [hpfd, hpleft, hqfd, hqleft]
  have hnode : p.nodeName.text = nodePart q.suscriptionTopic.text := by
    rw [hpname, htopic]
    decide
  have hconnected : Connected clients startedWorld := by
    constructor
    · show [p.nodeName.text, q.nodeName.text].Nodup
      rw [hpname, hqname]
      decide
    · show [p.connfd, q.connfd].Nodup
      rw [hpfd, hqfd]
      decide
    · intro other hother
      have heq : other = q := by simpa [clients] using hother
      rw [heq]
      exact ⟨p, List.mem_cons_self, hnode⟩
    · intro c hc
      rcases List.mem_pair.mp hc with rfl | rfl
      · show startedWorld.input p.connfd = delivered (p.opening ++ p.rest)
        rw [hpfd, hpopening, hprest]
        rfl
      · show startedWorld.input q.connfd = delivered (q.opening ++ [])
        rw [hqfd, hqopening]
        rfl
    · intro fd
      rfl
  have hresults : arrivals [.bytes (w'.sent 5), .bytes [], .bytes []] =
      (w'.sent q.connfd).map Arrival.byte ++ .eof :: .eof :: [] := by
    rw [hqfd, hsent]
    rfl
  rw [← haccepted] at hreg ⊢
  rcases session_displayed hconnected hreg hw'
      (List.mem_cons_of_mem _ List.mem_cons_self) List.mem_cons_self hnode
      hresults with ⟨served, printed, hserved, hlength, _, hloop, hscreen⟩
  refine ⟨t, registered, w', hreg, hw', ?_⟩
  rw [hrounds] at hserved
  rw [hclient] at hloop
  rw [hserved.eq_of_length hlength, htopic, hqleft] at hscreen
  rw [hloop, hscreen]
  decide +kernel

end Subscriber
end MQTTv1
