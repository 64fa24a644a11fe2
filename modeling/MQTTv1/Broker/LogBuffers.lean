import MQTTv1.Broker.Forwarding
import MQTTv1.Broker.Subscription
import MQTTv1.CLib.Accesses

/-!
# The buffers of the log

Every message is composed by `sprintf` in a `main_log_message` and appended to
the date in the buffer of `write_log`.  The four buffers have three sizes; the
strings come from lines of up to `MAXLINE - 1` bytes.
-/

namespace MQTTv1
namespace Broker

open CLib
open Csapp

/-- The `main_log_message` of three functions and `message` in `write_log`. -/
inductive LogBuffer where
  | thread
  | forwardMessages
  | forwardMessage
  | writeLog
deriving DecidableEq, Repr

def LogBuffer.size : LogBuffer -> Nat
  | .thread => MAXLINE * 3
  | .forwardMessages => MAXLINE
  | .forwardMessage => MAXLINE * 2
  | .writeLog => MAXLINE

structure Tm where
  tmMday : Nat
  tmMon : Nat
  tmYear : Nat
  tmHour : Nat
  tmMin : Nat
  tmSec : Nat
  date : tmMday ≤ 31 ∧ tmMon ≤ 11 ∧ tmYear ≤ 8099
  time : tmHour ≤ 23 ∧ tmMin ≤ 59 ∧ tmSec ≤ 60

def twoDigits (n : Nat) : CStr := [digitChar (n / 10), digitChar n]

/-- The format `%d/%m/%Y [%H:%M:%S]: `. -/
def strftime (tm : Tm) : CStr :=
  twoDigits tm.tmMday ++ lit "/" ++ twoDigits (tm.tmMon + 1) ++ lit "/" ++
    twoDigits ((tm.tmYear + 1900) / 100) ++ twoDigits (tm.tmYear + 1900) ++
    lit " [" ++ twoDigits tm.tmHour ++ lit ":" ++ twoDigits tm.tmMin ++
    lit ":" ++ twoDigits tm.tmSec ++ lit "]: "

/-- The stores of `sprintf` and of the call of `write_log` behind it. -/
def logStores (tm : Tm) (buffer : LogBuffer) (msg : CStr) :
    List (Touch LogBuffer) :=
  strcpyStores buffer msg ++
    (strcpyStores .writeLog (strftime tm) ++
      strcatStores .writeLog (strftime tm) msg)

def INT_MIN : Int := -2147483648

def INT_MAX : Int := 2147483647

structure LoggedClient where
  connfd : Fd
  nameLine : Option (List Byte)
  susLine : Option (List Byte)
  left : Leftover
  line : Option (List Byte)
  descriptor : INT_MIN ≤ connfd ∧ connfd ≤ INT_MAX

def LoggedClient.nodeName (c : LoggedClient) : CStr :=
  chop (bufferString c.left.bufNodeName c.nameLine)

def LoggedClient.susInfo (c : LoggedClient) : CStr :=
  chop (bufferString c.left.bufSusInfo c.susLine)

def threadMessages (connfd : Fd) (nodeName susInfo : CStr) : List CStr :=
  [openedMessage connfd, connectedMessage nodeName,
    subscriptionMessage nodeName susInfo]

def lineMessage (publisher : CStr) : Option (List Byte) -> CStr
  | none => noMessage
  | some bytes => receivedMessage (chop (stringOf bytes)) publisher

def LoggedClient.messages (c : LoggedClient) : List (LogBuffer × CStr) :=
  let publisher := subscribedNode c.susInfo c.left
  (threadMessages c.connfd c.nodeName c.susInfo).map (fun msg =>
    (LogBuffer.thread, msg)) ++
    if isNone publisher then []
    else
      [(.forwardMessages, forwardingMessage publisher c.nodeName),
        (.forwardMessage, lineMessage publisher c.line)]

def LoggedClient.stores (c : LoggedClient) (clock : Nat -> Tm) :
    List (Touch LogBuffer) :=
  c.messages.zipIdx.flatMap fun entry =>
    logStores (clock entry.2) entry.1.1 entry.1.2

/-!
# Short lines
-/

def leadingSlashes (susInfo : CStr) : Nat :=
  (susInfo.takeWhile fun b => b = 47).length

/-- Without a part the pointer is what it was before. -/
def LoggedClient.publisher (c : LoggedClient) : CStr :=
  if c.susInfo = lit "NONE" then c.susInfo
  else (firstPart c.susInfo).getD (c.left.bufSuscriptionInfo 0)

/-- The room that the fixed texts and the date leave. -/
structure LoggedClient.Short (c : LoggedClient) : Prop where
  unsubscribed : c.susInfo = lit "NONE" ->
    c.nodeName.length + 53 ≤ MAXLINE
  subscribed : c.susInfo ≠ lit "NONE" ->
    c.nodeName.length + leadingSlashes c.susInfo +
      ((firstPart c.susInfo).getD []).length + 50 ≤ MAXLINE
  forwarded : c.publisher ≠ lit "NONE" ->
    c.publisher.length + c.nodeName.length + 59 ≤ MAXLINE
  received : c.publisher ≠ lit "NONE" -> forall bytes, c.line = some bytes ->
    (stringOf bytes).length - 1 + c.publisher.length + 47 ≤ MAXLINE

/-!
# Stores of one message
-/

theorem strftime_length (tm : Tm) : (strftime tm).length = 23 := by
  rfl

/-- The buffer of `write_log` is the tightest. -/
theorem inBounds_logStores {tm : Tm} {buffer : LogBuffer} {msg : CStr} :
    InBounds LogBuffer.size (logStores tm buffer msg) <->
      msg.length + 24 ≤ MAXLINE := by
  unfold logStores strcpyStores strcatStores
  rw [inBounds_append, inBounds_append, inBounds_storeRange,
    inBounds_storeRange, inBounds_storeRange, strftime_length]
  have hsize : MAXLINE ≤ buffer.size := by
    cases buffer <;> decide
  constructor
  · rintro ⟨_, _, hcat⟩
    change 23 + msg.length < MAXLINE at hcat
    lia
  · intro h
    refine ⟨?_, ?_, ?_⟩
    · lia
    · decide
    · show 23 + msg.length < MAXLINE
      lia

theorem inBounds_stores {c : LoggedClient} {clock : Nat -> Tm} :
    InBounds LogBuffer.size (c.stores clock) <->
      forall buffer msg, (buffer, msg) ∈ c.messages ->
        msg.length + 24 ≤ MAXLINE := by
  unfold LoggedClient.stores
  rw [inBounds_flatMap]
  constructor
  · intro h buffer msg hmem
    rcases List.getElem?_of_mem hmem with ⟨k, hk⟩
    exact inBounds_logStores.mp
      (h ((buffer, msg), k) (List.mem_zipIdx_iff_getElem?.mpr hk))
  · rintro h ⟨⟨buffer, msg⟩, k⟩ hmem
    exact inBounds_logStores.mpr
      (h buffer msg
        (List.mem_of_getElem? (List.mem_zipIdx_iff_getElem?.mp hmem)))

/-!
# Lengths of the messages
-/

theorem lit_length (s : String) : (lit s).length = s.length := by
  unfold lit
  rw [List.length_map, String.length_toList]

theorem toString_int_length {n : Int} (h : INT_MIN ≤ n ∧ n ≤ INT_MAX) :
    (toString n).length ≤ 11 := by
  unfold INT_MIN INT_MAX at h
  cases n with
  | ofNat m =>
      show m.repr.length ≤ 11
      rw [Nat.length_repr_le_iff (by decide)]
      have hm := h.right
      lia
  | negSucc m =>
      show ("-" ++ (m + 1).repr).length ≤ 11
      rw [String.length_append]
      have hm : (m + 1).repr.length ≤ 10 := by
        rw [Nat.length_repr_le_iff (by decide)]
        have := h.left
        lia
      have hsign : "-".length = 1 := by decide
      lia

theorem openedMessage_length {connfd : Fd}
    (h : INT_MIN ≤ connfd ∧ connfd ≤ INT_MAX) :
    (openedMessage connfd).length ≤ 36 := by
  have hdigits := toString_int_length h
  have htext : (lit "Se ha abierto un socket: ").length = 25 := by decide
  unfold openedMessage
  rw [List.length_append, htext, lit_length]
  lia

theorem connectedMessage_length (nodeName : CStr) :
    (connectedMessage nodeName).length = nodeName.length + 16 := by
  have htext : (lit "Se ha conectado ").length = 16 := by decide
  unfold connectedMessage
  rw [List.length_append, htext, Nat.add_comm]

theorem forwardingMessage_length (publisher suscriber : CStr) :
    (forwardingMessage publisher suscriber).length =
      publisher.length + suscriber.length + 35 := by
  have h1 : (lit "Se envia informacion desde [").length = 28 := by decide
  have h2 : (lit "] -> [").length = 6 := by decide
  have h3 : (lit "]").length = 1 := by decide
  unfold forwardingMessage
  simp only [List.length_append, h1, h2, h3]
  lia

theorem receivedMessage_length (line publisher : CStr) :
    (receivedMessage line publisher).length =
      line.length + publisher.length + 23 := by
  have h1 : (lit "Se ha recibido [").length = 16 := by decide
  have h2 : (lit "] de [").length = 6 := by decide
  have h3 : (lit "]").length = 1 := by decide
  unfold receivedMessage
  simp only [List.length_append, h1, h2, h3]
  lia

/-!
# The first part of a subscription
-/

theorem getD_head_tokensOf (delim src : CStr) :
    ((tokensOf delim src).head?).getD [] =
      (src.dropWhile fun b => delim.contains b).takeWhile
        fun b => !delim.contains b := by
  cases hrest : src.dropWhile (fun b => delim.contains b) with
  | nil =>
      have hcall : strtok delim src = (none, []) := by
        unfold strtok
        rw [hrest]
      rw [tokensOf_of_strtok_none hcall]
      rfl
  | cons b rest =>
      have hcall : strtok delim src =
          (some ((b :: rest).takeWhile fun c => !delim.contains c),
            ((b :: rest).dropWhile fun c => !delim.contains c).drop 1) := by
        unfold strtok
        rw [hrest]
      rw [tokensOf_of_strtok_some hcall]
      rfl

theorem cutLine_length (susInfo : CStr) :
    (cutLine susInfo (lit "/")).length =
      leadingSlashes susInfo + ((firstPart susInfo).getD []).length := by
  have hslash : (fun b : Byte => (lit "/").contains b) =
      fun b => decide (b = 47) := by
    funext b
    rw [lit_slash]
    simp
  unfold cutLine leadingSlashes
  rw [List.length_append, firstPart_eq_head, getD_head_tokensOf, hslash]

theorem publisher_eq (c : LoggedClient) :
    c.publisher = subscribedNode c.susInfo c.left := by
  rw [subscribedNode_eq]
  rfl

theorem subscriptionMessage_length (nodeName susInfo : CStr) :
    (subscriptionMessage nodeName susInfo).length =
      if susInfo = lit "NONE" then nodeName.length + 29
      else
        nodeName.length + leadingSlashes susInfo +
          ((firstPart susInfo).getD []).length + 26 := by
  have h1 : (lit " no tiene ninguna suscripcion").length = 29 := by decide
  have h2 : (lit " Se encuentra suscrito a: ").length = 26 := by decide
  unfold subscriptionMessage isNone
  simp only [decide_eq_true_eq]
  split
  · rw [List.length_append, h1]
  · rw [List.length_append, List.length_append, h2, cutLine_length]
    lia

/-!
# All messages of a client
-/

theorem mem_messages {c : LoggedClient} {buffer : LogBuffer} {msg : CStr} :
    (buffer, msg) ∈ c.messages <->
      (buffer = .thread ∧ msg ∈ threadMessages c.connfd c.nodeName c.susInfo) ∨
      (c.publisher ≠ lit "NONE" ∧
        ((buffer = .forwardMessages ∧
            msg = forwardingMessage c.publisher c.nodeName) ∨
          (buffer = .forwardMessage ∧ msg = lineMessage c.publisher c.line))) := by
  unfold LoggedClient.messages isNone
  rw [← publisher_eq, List.mem_append]
  refine or_congr ?_ ?_
  · simp only [List.mem_map, Prod.mk.injEq]
    constructor
    · rintro ⟨other, hmem, rfl, rfl⟩
      exact ⟨rfl, hmem⟩
    · rintro ⟨rfl, hmem⟩
      exact ⟨msg, hmem, rfl, rfl⟩
  · by_cases hnone : c.publisher = lit "NONE"
    · simp [hnone]
    · simp [hnone]

theorem LoggedClient.Short.threadMessages {c : LoggedClient} (h : c.Short)
    {msg : CStr} (hmem : msg ∈ threadMessages c.connfd c.nodeName c.susInfo) :
    msg.length + 24 ≤ MAXLINE := by
  have hname : c.nodeName.length + 50 ≤ MAXLINE := by
    by_cases hnone : c.susInfo = lit "NONE"
    · have := h.unsubscribed hnone
      lia
    · have := h.subscribed hnone
      lia
  simp only [Broker.threadMessages, List.mem_cons, List.not_mem_nil, or_false]
    at hmem
  rcases hmem with rfl | rfl | rfl
  · have hopened := openedMessage_length c.descriptor
    unfold MAXLINE
    lia
  · rw [connectedMessage_length]
    lia
  · rw [subscriptionMessage_length]
    split
    · rename_i hnone
      have := h.unsubscribed hnone
      lia
    · rename_i hsome
      have := h.subscribed hsome
      lia

theorem LoggedClient.Short.lineMessage {c : LoggedClient} (h : c.Short)
    (hsome : c.publisher ≠ lit "NONE") :
    (lineMessage c.publisher c.line).length + 24 ≤ MAXLINE := by
  cases hline : c.line with
  | none =>
      show noMessage.length + 24 ≤ MAXLINE
      decide
  | some bytes =>
      have hreceived := h.received hsome bytes hline
      show (receivedMessage (chop (stringOf bytes)) c.publisher).length + 24 ≤
        MAXLINE
      rw [receivedMessage_length, chop, List.length_dropLast]
      lia

/--
All `sprintf` and `write_log` calls on behalf of a client stay in their buffers
exactly when its lines leave room for the texts and the date.
-/
theorem inBounds_stores_iff (c : LoggedClient) (clock : Nat -> Tm) :
    InBounds LogBuffer.size (c.stores clock) <-> c.Short := by
  rw [inBounds_stores]
  constructor
  · intro h
    have hsub := h .thread (subscriptionMessage c.nodeName c.susInfo)
      (mem_messages.mpr (Or.inl ⟨rfl, by simp [threadMessages]⟩))
    rw [subscriptionMessage_length] at hsub
    constructor
    · intro hnone
      rw [if_pos hnone] at hsub
      lia
    · intro hsome
      rw [if_neg hsome] at hsub
      lia
    · intro hsome
      have hforward := h .forwardMessages _
        (mem_messages.mpr (Or.inr ⟨hsome, Or.inl ⟨rfl, rfl⟩⟩))
      rw [forwardingMessage_length] at hforward
      lia
    · intro hsome bytes hline
      have hreceived := h .forwardMessage _
        (mem_messages.mpr (Or.inr ⟨hsome, Or.inr ⟨rfl, rfl⟩⟩))
      rw [hline, lineMessage, receivedMessage_length, chop,
        List.length_dropLast] at hreceived
      lia
  · intro hshort buffer msg hmem
    rcases mem_messages.mp hmem with ⟨_, hthread⟩ | ⟨hsome, ⟨_, rfl⟩ | ⟨_, rfl⟩⟩
    · exact hshort.threadMessages hthread
    · rw [forwardingMessage_length]
      have := hshort.forwarded hsome
      lia
    · exact hshort.lineMessage hsome

def longNames : LoggedClient where
  connfd := 4
  nameLine := some (List.replicate 8190 97 ++ [newline])
  susLine := some (List.replicate 8188 97 ++ lit "/#" ++ [newline])
  left := cleanLeftover
  line := some (lit "1,0,20,1.5,0.5,1000" ++ [newline])
  descriptor := by decide

theorem nulFree_replicate (n : Nat) : NulFree (List.replicate n 97) := by
  intro b hb
  rw [List.eq_of_mem_replicate hb]
  decide

theorem longNames_publisher :
    subscribedNode longNames.susInfo longNames.left =
      List.replicate 8188 97 := by
  have hsus : longNames.susInfo = List.replicate 8188 97 ++ lit "/#" :=
    chop_stringOf_line (nulFree_append.mpr ⟨nulFree_replicate 8188, by decide⟩)
  have hword : Word (lit "/") (List.replicate 8188 97) := by
    constructor
    · exact List.cons_ne_nil _ _
    · intro b hb
      rw [List.eq_of_mem_replicate hb]
      decide
  have htokens : tokensOf (lit "/") longNames.susInfo =
      List.replicate 8188 97 :: tokensOf (lit "/") (lit "#") := by
    rw [hsus]
    exact tokensOf_word_append hword (by decide) _
  have hsome : ¬ isNone longNames.susInfo = true := by
    rw [hsus]
    intro h
    have hlen := congrArg List.length (of_decide_eq_true h)
    rw [List.length_append, List.length_replicate] at hlen
    exact absurd hlen (by decide)
  unfold subscribedNode split
  rw [if_neg hsome, htokens]
  rfl

/-- `sprintf` in `forward_messages` and `write_log` both leave their buffers. -/
theorem longNames_overrun :
    (forall l, longNames.nameLine = some l ∨ longNames.susLine = some l ∨
        longNames.line = some l -> l.length ≤ MAXLINE - 1) ∧
      forall clock,
        .store .forwardMessages (Int.ofNat MAXLINE) ∈ longNames.stores clock ∧
          ¬ InBounds LogBuffer.size (longNames.stores clock) := by
  have hname : longNames.nodeName = List.replicate 8190 97 :=
    chop_stringOf_line (nulFree_replicate 8190)
  have hsome : longNames.publisher ≠ lit "NONE" := by
    rw [publisher_eq, longNames_publisher]
    intro h
    exact absurd (congrArg List.length h) (by rw [List.length_replicate]; decide)
  have hmem : (LogBuffer.forwardMessages,
      forwardingMessage longNames.publisher longNames.nodeName) ∈
        longNames.messages :=
    mem_messages.mpr (Or.inr ⟨hsome, Or.inl ⟨rfl, rfl⟩⟩)
  have hlen : (forwardingMessage longNames.publisher longNames.nodeName).length =
      16413 := by
    rw [forwardingMessage_length, publisher_eq, longNames_publisher, hname,
      List.length_replicate, List.length_replicate]
  constructor
  · rintro l (heq | heq | heq)
    · cases heq
      rw [List.length_append, List.length_replicate]
      decide
    · cases heq
      rw [List.length_append, List.length_append, List.length_replicate]
      decide
    · cases heq
      decide
  · intro clock
    have hstore : .store .forwardMessages (Int.ofNat MAXLINE) ∈
        longNames.stores clock := by
      rcases List.getElem?_of_mem hmem with ⟨k, hk⟩
      refine List.mem_flatMap.mpr
        ⟨((_, _), k), List.mem_zipIdx_iff_getElem?.mpr hk, ?_⟩
      apply List.mem_append_left
      apply mem_storeRange.mpr
      refine ⟨MAXLINE, ?_, by rw [Nat.zero_add]⟩
      rw [hlen]
      decide
    refine ⟨hstore, ?_⟩
    intro hsafe
    exact absurd (hsafe _ _ hstore).right (by decide)

/-!
# The messages of the model
-/

theorem RioReadlineb_log {rp rp' : Rio} {maxlen : Nat} {w w' : World}
    {line : Option (List Byte)}
    (h : RioReadlineb rp maxlen w = .ok (line, rp', w')) :
    w'.log = w.log := by
  unfold RioReadlineb at h
  split at h <;> cases h <;> rfl

theorem readHandshake_log {connfd : Fd} {w w' : World}
    {nameLine susLine : Option (List Byte)}
    (h : readHandshake connfd w = .ok (nameLine, susLine, w')) :
    w'.log = w.log := by
  rcases bind_eq_ok.mp h with ⟨⟨line, rio, w1⟩, hname, h⟩
  rcases bind_eq_ok.mp h with ⟨⟨line', rio', w2⟩, hsus, h⟩
  cases h
  rw [RioReadlineb_log hsus, RioReadlineb_log hname]

/-- A registration logs the messages of its thread. -/
theorem threadRegistration_log {connfd : Fd} {left : Leftover}
    {t t' : Tables} {w w' : World}
    (h : threadRegistration connfd left t w = .ok (t', w')) :
    exists nameLine susLine,
      w'.log = w.log ++
        threadMessages connfd (chop (bufferString left.bufNodeName nameLine))
          (chop (bufferString left.bufSusInfo susLine)) := by
  rcases bind_eq_ok.mp h with ⟨⟨nameLine, susLine, w1⟩, hread, h⟩
  exists nameLine
  exists susLine
  simp only at h
  split at h
  · cases h
  · cases h
    show (w1.log ++ [_]) ++ [_] = _
    rw [readHandshake_log hread]
    show ((w.log ++ [_]) ++ [_]) ++ [_] = w.log ++ threadMessages _ _ _
    rw [List.append_assoc, List.append_assoc]
    rfl

theorem writeAll_log {fd : Fd} :
    forall {bufs : List CStr} {w w' : World}, writeAll fd bufs w = .ok w' ->
      w'.log = w.log := by
  intro bufs
  induction bufs with
  | nil =>
      intro w w' h
      cases h
      rfl
  | cons buf rest ih =>
      intro w w' h
      rcases bind_eq_ok.mp h with ⟨mid, hwrite, h⟩
      rw [ih h]
      unfold RioWriten at hwrite
      split at hwrite
      · cases hwrite
      · cases hwrite
        rfl

theorem forwardMessage_log {connfdPub connfdSus : Fd} {topic : Nat -> Int}
    {publisher : CStr} {left : MessageLeftover} {w w' : World}
    (h : forwardMessage connfdPub connfdSus topic publisher left w = .ok w') :
    exists line, w'.log = w.log ++ [lineMessage publisher line] := by
  rw [forwardMessage_eq_receive] at h
  rcases bind_eq_ok.mp h with ⟨⟨line, w1⟩, hreceive, h⟩
  rcases bind_eq_ok.mp hreceive with ⟨⟨line', rio, w2⟩, hread, heq⟩
  cases heq
  exists line
  rw [← RioReadlineb_log hread]
  cases line with
  | none =>
      cases h
      rfl
  | some bytes => exact writeAll_log h

/-- A row logs its own message and that of the line it has relayed. -/
theorem forwardRow_log {t : Tables} {left : World -> MessageLeftover}
    {i : Nat} {publisher suscriber : CStr} {w w' : World}
    (hname : t.clientNameList i = some suscriber)
    (h : forwardRow t left i publisher w = .ok w') :
    exists line,
      w'.log = w.log ++
        [forwardingMessage publisher suscriber, lineMessage publisher line] := by
  rcases bind_eq_ok.mp h with ⟨name, hname', h⟩
  rcases bind_eq_ok.mp h with ⟨fdPub, _, h⟩
  rcases bind_eq_ok.mp h with ⟨fdSus, _, h⟩
  cases hname.symm.trans (orUndefined_eq_ok.mp hname')
  rcases forwardMessage_log h with ⟨line, hlog⟩
  exists line
  rw [hlog]
  exact List.append_assoc _ _ _

end Broker
end MQTTv1
