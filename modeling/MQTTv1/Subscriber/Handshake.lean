import MQTTv1.Broker.Parsing
import MQTTv1.Broker.StreamIntegrity

/-!
# The subscriber's handshake

`sub_client` copies its two arguments into buffers of 20 bytes, appends a newline
to each and sends them as two lines.  The broker cuts the newlines off, compares
the second line with the word NONE and splits it with `strtok`, which passes over
empty levels.  `update_sus_info` reads a second level whether there is one or
not, unless the first is "#".
-/

namespace MQTTv1
namespace Subscriber

open CLib
open Csapp
open Broker

/-!
# The two programs
-/

/-- `char node_name_buf[20]; char suscription_topic_buf[20];` -/
def argumentSize : Nat := 20

/-- What the uninitialised buffers of `main` hold. -/
structure ArgumentBuffers where
  nodeNameBuf : List Byte
  suscriptionTopicBuf : List Byte
  nodeNameBuf_length : nodeNameBuf.length = argumentSize
  suscriptionTopicBuf_length : suscriptionTopicBuf.length = argumentSize

/-- `strcpy(buf, arg); strcat(buf, "\n");` -/
def formatArgument (buf : List Byte) (arg : CStr) : List Byte :=
  strcat (strcpy buf arg) [newline]

/-- `main` of `sub_client` up to its second `Rio_writen`. -/
def sendHandshake (clientfd : Fd) (bufs : ArgumentBuffers)
    (nodeName suscriptionTopic : CStr) (w : World) : Except Stop World := do
  let nodeNameBuf := formatArgument bufs.nodeNameBuf nodeName
  let suscriptionTopicBuf :=
    formatArgument bufs.suscriptionTopicBuf suscriptionTopic
  let w <- RioWriten clientfd (stringOf nodeNameBuf) w
  RioWriten clientfd (stringOf suscriptionTopicBuf) w

/-- What `thread` hands to `update_sus_info` behind the name of the node. -/
def handedLevels (susInfo : CStr) : Option (List CStr) :=
  if isNone susInfo then none
  else some ((tokensOf (lit "/") susInfo).drop 1)

/-- What `thread` and `update_sus_info` read of the filter, `split` has stored. -/
def LevelsStored (susInfo : CStr) (left : Leftover) : Prop :=
  forall i, i ∈ subscriptionLoads susInfo left ->
    i < (tokensOf (lit "/") susInfo).length

structure Registers (connfd : Fd) (left : Leftover) (t : Tables) (w : World)
    (name node : CStr) (levels : List CStr) : Prop where
  row : exists t' w', threadRegistration connfd left t w = .ok (t', w') ∧
    t'.fdIdx = t.fdIdx + 1 ∧ t'.clientNameList t.fdIdx = some name ∧
      t'.clientSusList t.fdIdx = some node
  handed : exists nameLine susLine w',
    readHandshake connfd (writeLog (openedMessage connfd) w) =
        .ok (nameLine, susLine, w') ∧
      handedLevels (chop (bufferString left.bufSusInfo susLine)) = some levels ∧
      LevelsStored (chop (bufferString left.bufSusInfo susLine)) left

/-!
# The law
-/

def slash : Byte := 47

def nodePart (suscriptionTopic : CStr) : CStr :=
  suscriptionTopic.takeWhile fun b => b != slash

/-- The levels behind the first '/', empty ones included. -/
def filterLevels (suscriptionTopic : CStr) : List CStr :=
  (suscriptionTopic.splitOn slash).drop 1

/-- What `update_sus_info` asks for: a first level "#", or a second level. -/
def Sufficient (levels : List CStr) : Prop :=
  levels.head? = some (lit "#") ∨ 2 ≤ levels.length

/--
The arguments fit their buffers, and however the bytes arrive at the broker, the
row has the client's name and node, and the levels are handed on: all of them,
and nothing else is read.
-/
structure RoundTrips (bufs : ArgumentBuffers)
    (nodeName suscriptionTopic : CStr) : Prop where
  nodeNameCopy :
    (formatArgument bufs.nodeNameBuf nodeName).length ≤ argumentSize
  topicCopy :
    (formatArgument bufs.suscriptionTopicBuf suscriptionTopic).length ≤
      argumentSize
  registered : forall clientfd w w' chunks,
    sendHandshake clientfd bufs nodeName suscriptionTopic w = .ok w' ->
    NonEmptyChunks chunks ->
    w'.sent clientfd = w.sent clientfd ++ chunks.flatten ->
      forall connfd left t wBroker, t.fdIdx < LIMIT_CONN_CLIENTS ->
        wBroker.input connfd = delivered chunks ->
          Registers connfd left t wBroker nodeName (nodePart suscriptionTopic)
            (filterLevels suscriptionTopic)

/-!
## The client
-/

theorem length_formatArgument {buf : List Byte} {arg : CStr}
    (hbuf : buf.length = argumentSize) (harg : NulFree arg) :
    (formatArgument buf arg).length ≤ argumentSize <->
      arg.length + 2 ≤ argumentSize := by
  have hlen : strlen (strcpy buf arg) = arg.length := by
    rw [strlen, stringOf_strcpy harg]
  have hcopy : (strcpy buf arg).length =
      arg.length + 1 + (argumentSize - (arg.length + 1)) := by
    simp only [strcpy, List.length_append, List.length_cons, List.length_drop,
      hbuf]
    lia
  unfold formatArgument strcat
  rw [hlen, List.length_append, List.length_take, hcopy]
  simp only [strcpy, List.length_append, List.length_cons, List.length_drop,
    List.length_nil]
  lia

theorem stringOf_formatArgument {buf : List Byte} {arg : CStr}
    (harg : NulFree arg) :
    stringOf (formatArgument buf arg) = arg ++ [newline] := by
  unfold formatArgument
  rw [stringOf_strcat (by decide), stringOf_strcpy harg]

section

variable {bufs : ArgumentBuffers} {nodeName suscriptionTopic : CStr}

theorem sendHandshake_sent {clientfd : Fd} {w w' : World}
    (hname : NulFree nodeName) (htopic : NulFree suscriptionTopic)
    (h : sendHandshake clientfd bufs nodeName suscriptionTopic w = .ok w') :
    w'.sent clientfd = w.sent clientfd ++
      ((nodeName ++ [newline]) ++ (suscriptionTopic ++ [newline])) := by
  unfold sendHandshake at h
  simp only [stringOf_formatArgument hname, stringOf_formatArgument htopic] at h
  rcases bind_eq_ok.mp h with ⟨mid, hfirst, h⟩
  rw [(RioWriten_ok h).right, (RioWriten_ok hfirst).right]
  simp

theorem sendHandshake_accepting (bufs : ArgumentBuffers)
    (nodeName suscriptionTopic : CStr) {clientfd : Fd} {w : World}
    (hw : Accepting (w.writes clientfd)) :
    exists w', sendHandshake clientfd bufs nodeName suscriptionTopic w =
      .ok w' := by
  unfold sendHandshake
  rcases RioWriten_accepting hw
    (stringOf (formatArgument bufs.nodeNameBuf nodeName)) with
    ⟨mid, hmid, haccepting⟩
  rcases RioWriten_accepting haccepting
    (stringOf (formatArgument bufs.suscriptionTopicBuf suscriptionTopic)) with
    ⟨w', hw', _⟩
  refine ⟨w', ?_⟩
  simp only [hmid, bind, Except.bind]
  exact hw'

end

/-!
## The broker
-/

theorem bne_slash {part : CStr} (hfree : slash ∉ part) {b : Byte}
    (hb : b ∈ part) : (b != slash) = true := by
  apply bne_iff_ne.mpr
  intro heq
  rw [heq] at hb
  exact hfree hb

theorem splitOn_slash (suscriptionTopic : CStr) :
    suscriptionTopic.splitOn slash =
      nodePart suscriptionTopic :: filterLevels suscriptionTopic := by
  unfold nodePart filterLevels
  by_cases hslash : slash ∈ suscriptionTopic
  · rcases List.eq_append_cons_of_mem hslash with ⟨node, rest, rfl, hfree⟩
    rw [List.splitOn_append_cons_self_of_not_mem hfree,
      List.takeWhile_append_of_pos fun b hb => bne_slash hfree hb]
    simp
  · rw [List.splitOn_eq_singleton hslash,
      List.takeWhile_eq_self_iff.mpr fun b hb => bne_slash hslash hb]
    rfl

section

variable {suscriptionTopic : CStr}

theorem tokensOf_topic (hnode : nodePart suscriptionTopic ≠ []) :
    tokensOf (lit "/") suscriptionTopic =
      nodePart suscriptionTopic ::
        (filterLevels suscriptionTopic).filter fun level => level ≠ [] := by
  have htokens := tokensOf_eq_splitOn slash suscriptionTopic
  rw [splitOn_slash, List.filter_cons_of_pos (by simpa using hnode)] at htokens
  exact htokens

theorem handedLevels_eq_iff (hnode : nodePart suscriptionTopic ≠ []) :
    handedLevels suscriptionTopic = some (filterLevels suscriptionTopic) <->
      suscriptionTopic ≠ lit "NONE" ∧
        forall level, level ∈ filterLevels suscriptionTopic -> level ≠ [] := by
  unfold handedLevels
  rw [tokensOf_topic hnode]
  by_cases hnone : suscriptionTopic = lit "NONE"
  · simp [isNone, hnone]
  · have hkept : isNone suscriptionTopic = false := by
      simpa [isNone] using hnone
    rw [hkept]
    simp [hnone, List.filter_eq_self]

theorem levelsStored_iff (left : Leftover)
    (hnode : nodePart suscriptionTopic ≠ [])
    (hlevels : forall level, level ∈ filterLevels suscriptionTopic ->
      level ≠ []) :
    LevelsStored suscriptionTopic left <->
      Sufficient (filterLevels suscriptionTopic) := by
  have htokens : tokensOf (lit "/") suscriptionTopic =
      nodePart suscriptionTopic :: filterLevels suscriptionTopic := by
    rw [tokensOf_topic hnode, List.filter_eq_self.mpr (by simpa using hlevels)]
  unfold LevelsStored Sufficient subscriptionLoads updateSusInfoLoads split
  rw [htokens]
  cases filterLevels suscriptionTopic with
  | nil =>
      constructor
      · intro h
        have hone := h 1 (by split <;> simp)
        simp at hone
      · simp
  | cons level rest =>
      by_cases hall : level = lit "#"
      · simp [hall]
      · simp [hall, Nat.succ_le_iff]

theorem subscribedNode_topic (left : Leftover)
    (hnone : suscriptionTopic ≠ lit "NONE")
    (hnode : nodePart suscriptionTopic ≠ []) :
    subscribedNode suscriptionTopic left = nodePart suscriptionTopic := by
  have hkept : isNone suscriptionTopic = false := by
    simpa [isNone] using hnone
  unfold subscribedNode split
  rw [hkept, tokensOf_topic hnode]
  rfl

end

def handshakeStream {nodeName suscriptionTopic : CStr}
    (hname : IsLine (nodeName ++ [newline]))
    (htopic : IsLine (suscriptionTopic ++ [newline])) : ClientStream where
  name := nodeName ++ [newline]
  sus := suscriptionTopic ++ [newline]
  messages := []
  name_line := hname
  sus_line := htopic
  messages_line := by simp

section

variable {nodeName suscriptionTopic : CStr} {connfd : Fd} {left : Leftover}
  {t : Tables} {w : World} {chunks : List Chunk}

/-- What the broker reads back does not depend on the chunks. -/
theorem readHandshake_sent (hname : IsLine (nodeName ++ [newline]))
    (htopic : IsLine (suscriptionTopic ++ [newline]))
    (hw : w.input connfd = delivered chunks) (hchunks : NonEmptyChunks chunks)
    (hstream : chunks.flatten =
      (nodeName ++ [newline]) ++ (suscriptionTopic ++ [newline])) :
    exists w', readHandshake connfd (writeLog (openedMessage connfd) w) =
      .ok (some (nodeName ++ [newline]), some (suscriptionTopic ++ [newline]),
        w') := by
  have hinput : (writeLog (openedMessage connfd) w).input connfd =
      delivered chunks := hw
  have hbytes : chunks.flatten = (handshakeStream hname htopic).bytes := by
    rw [hstream]
    simp [ClientStream.bytes, handshakeStream]
  rcases readHandshake_lines hinput hchunks hbytes with
    ⟨_, _, rest, hread, _⟩
  exact ⟨_, hread⟩

theorem chop_bufferString {s before : CStr} (hs : NulFree s) :
    chop (bufferString before (some (s ++ [newline]))) = s :=
  chop_stringOf_line hs

theorem registers_of_read {w' : World} (hnul : NulFree nodeName)
    (htopicNul : NulFree suscriptionTopic)
    (hnode : nodePart suscriptionTopic ≠ [])
    (hnone : suscriptionTopic ≠ lit "NONE")
    (hlevels : forall level, level ∈ filterLevels suscriptionTopic ->
      level ≠ [])
    (hsufficient : Sufficient (filterLevels suscriptionTopic))
    (hroom : t.fdIdx < LIMIT_CONN_CLIENTS)
    (hread : readHandshake connfd (writeLog (openedMessage connfd) w) =
      .ok (some (nodeName ++ [newline]), some (suscriptionTopic ++ [newline]),
        w')) :
    Registers connfd left t w nodeName (nodePart suscriptionTopic)
      (filterLevels suscriptionTopic) := by
  constructor
  · unfold threadRegistration
    simp only [hread, bind, Except.bind, chop_bufferString hnul,
      chop_bufferString htopicNul]
    unfold register
    rw [if_pos hroom]
    refine ⟨_, _, rfl, rfl, ?_, ?_⟩
    · exact Function.update_self ..
    · show Function.update _ _ _ _ = _
      rw [Function.update_self, subscribedNode_topic left hnone hnode]
  · refine ⟨_, _, _, hread, ?_⟩
    rw [chop_bufferString htopicNul]
    exact ⟨(handedLevels_eq_iff hnode).mpr ⟨hnone, hlevels⟩,
      (levelsStored_iff left hnode hlevels).mpr hsufficient⟩

end

/-!
# When the handshake round-trips
-/

def openWorld (input : List ReadResult) : World where
  input := fun _ => input
  writes := fun _ => []
  sent := fun _ => []
  log := []

theorem isLine_argument {arg : CStr} (hfree : newline ∉ arg)
    (hlen : arg.length ≤ 18) : IsLine (arg ++ [newline]) := by
  apply isLine_of_body hfree
  unfold MAXLINE
  lia

theorem roundTrips_iff (bufs : ArgumentBuffers)
    {nodeName suscriptionTopic : CStr}
    (hname : NulFree nodeName) (hnameLine : newline ∉ nodeName)
    (htopic : NulFree suscriptionTopic)
    (htopicLine : newline ∉ suscriptionTopic)
    (hnode : nodePart suscriptionTopic ≠ []) :
    RoundTrips bufs nodeName suscriptionTopic <->
      nodeName.length ≤ 18 ∧ suscriptionTopic.length ≤ 18 ∧
        suscriptionTopic ≠ lit "NONE" ∧
          (forall level, level ∈ filterLevels suscriptionTopic -> level ≠ []) ∧
            Sufficient (filterLevels suscriptionTopic) := by
  have hnameFits := length_formatArgument bufs.nodeNameBuf_length hname
  have htopicFits := length_formatArgument bufs.suscriptionTopicBuf_length htopic
  unfold argumentSize at hnameFits htopicFits
  constructor
  · intro h
    have hnameLen : nodeName.length ≤ 18 := by
      have := hnameFits.mp h.nodeNameCopy
      lia
    have htopicLen : suscriptionTopic.length ≤ 18 := by
      have := htopicFits.mp h.topicCopy
      lia
    -- the bytes of one run arrive in a single chunk
    have haccepting : Accepting ((openWorld []).writes 3) := by
      simp [Accepting, openWorld]
    rcases sendHandshake_accepting bufs nodeName suscriptionTopic haccepting
      with ⟨w', hsend⟩
    have hsent := sendHandshake_sent hname htopic hsend
    let bytes :=
      (nodeName ++ [newline]) ++ (suscriptionTopic ++ [newline])
    have hchunks : NonEmptyChunks [bytes] := by
      intro c hc
      rw [List.mem_singleton.mp hc]
      simp [bytes]
    have hreg := h.registered 3 (openWorld []) w' [bytes] hsend hchunks
      (by simpa [bytes] using hsent) 4 cleanLeftover Tables.initial
      (openWorld (delivered [bytes])) (by decide) rfl
    rcases hreg.handed with
      ⟨nameLine, susLine, wEnd, hread, hhanded, hstored⟩
    have hinput : (openWorld (delivered [bytes])).input 4 =
        delivered [bytes] := rfl
    rcases readHandshake_sent (isLine_argument hnameLine hnameLen)
        (isLine_argument htopicLine htopicLen) hinput hchunks
        (by simp [bytes]) with ⟨wEnd', hread'⟩
    cases hread'.symm.trans hread
    rw [chop_bufferString htopic] at hhanded hstored
    rcases (handedLevels_eq_iff hnode).mp hhanded with ⟨hnone, hlevels⟩
    exact ⟨hnameLen, htopicLen, hnone, hlevels,
      (levelsStored_iff cleanLeftover hnode hlevels).mp hstored⟩
  · intro h
    rcases h with ⟨hnameLen, htopicLen, hnone, hlevels, hsufficient⟩
    constructor
    · exact hnameFits.mpr (by lia)
    · exact htopicFits.mpr (by lia)
    · intro clientfd w w' chunks hsend hchunks hsent connfd left t wBroker
        hroom hinput
      have hbytes := sendHandshake_sent hname htopic hsend
      rw [hsent] at hbytes
      rcases readHandshake_sent (isLine_argument hnameLine hnameLen)
          (isLine_argument htopicLine htopicLen) hinput hchunks
          (List.append_cancel_left hbytes) with ⟨w1, hread⟩
      exact registers_of_read hname htopic hnode hnone hlevels hsufficient hroom
        hread

def zeroBuffers : ArgumentBuffers where
  nodeNameBuf := List.replicate 20 0
  suscriptionTopicBuf := List.replicate 20 0
  nodeNameBuf_length := rfl
  suscriptionTopicBuf_length := rfl

theorem roundTrips_node1 :
    RoundTrips zeroBuffers (lit "sub1") (lit "node1/#") := by
  apply (roundTrips_iff zeroBuffers (by decide) (by decide) (by decide)
    (by decide) (by decide)).mpr
  have hlevels : filterLevels (lit "node1/#") = [lit "#"] := rfl
  rw [hlevels]
  refine ⟨by decide, by decide, by decide, ?_, Or.inl rfl⟩
  simp [lit]

/-- A node name of seven letters and the longest subtopic overrun a buffer. -/
theorem longTopic_overruns :
    nodePart (lit "server1/tasks/sleep") = lit "server1" ∧
      (formatArgument zeroBuffers.suscriptionTopicBuf
        (lit "server1/tasks/sleep")).length = 21 ∧
      ¬ RoundTrips zeroBuffers (lit "sub1") (lit "server1/tasks/sleep") := by
  refine ⟨rfl, rfl, ?_⟩
  intro h
  exact absurd h.topicCopy (by decide)

end Subscriber
end MQTTv1
