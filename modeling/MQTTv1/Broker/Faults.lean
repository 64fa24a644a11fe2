import MQTTv1.Broker.Alignment
import MQTTv1.Broker.InBounds
import MQTTv1.Broker.LogBuffers
import MQTTv1.Broker.MessageBuffers
import MQTTv1.Csapp.Stream

/-!
# Faults of a client

The broker serves a row as before, but now every access to the fixed buffers on
the way is checked.  A row is harmless for the others exactly if both its ends
are found, the read does not fail, the line fits the buffers and the writes get
through: every failing call ends the whole process.
-/

namespace MQTTv1
namespace Broker

open CLib
open Csapp

/-!
# When the process goes on
-/

/-- The process is there, at its next row or in a call that waits. -/
def goesOn : Except Stop value -> Bool
  | .ok _ => true
  | .error .blocked => true
  | .error .exited => false
  | .error .undefined => false

def selectedTexts (topic : Nat -> Int) (tokens : List CStr) (js : List Nat) :
    List CStr :=
  js.filterMap fun j =>
    if topic j = -1 then none else some (topicText j ((tokens[j]?).getD []))

theorem sendTopics_goesOn (fdSuscriber : Fd) (topic : Nat -> Int)
    {tokens : List CStr} (string : List Byte)
    (hfree : forall field, field ∈ tokens -> NulFree field) :
    forall (js : List Nat) (w : World),
      goesOn (sendTopics fdSuscriber topic tokens string js w) = true <->
        TopicsFit topic tokens js ∧
          acceptsAll ((selectedTexts topic tokens js).map List.length)
            (w.writes fdSuscriber) = true := by
  intro js
  induction js with
  | nil =>
      intro w
      simp [sendTopics, goesOn, TopicsFit, selectedTexts, acceptsAll]
  | cons j js ih =>
      intro w
      unfold sendTopics
      by_cases hskip : topic j = -1
      · rw [if_pos hskip, ih w]
        simp [TopicsFit, selectedTexts, hskip]
      · rw [if_neg hskip]
        cases htoken : tokens[j]? with
        | none =>
            simp [goesOn, TopicsFit, hskip, htoken]
        | some field =>
            have htext : stringOf (topicBuffer string j field) =
                topicText j field :=
              stringOf_topicBuffer string j
                (hfree field (List.mem_of_getElem? htoken))
            have hselected : selectedTexts topic tokens (j :: js) =
                topicText j field :: selectedTexts topic tokens js := by
              simp [selectedTexts, hskip, htoken]
            have hfits : TopicsFit topic tokens (j :: js) <->
                stringFits j field = true ∧ TopicsFit topic tokens js := by
              simp [TopicsFit, hskip, htoken]
            rw [hselected, hfits, List.map_cons, acceptsAll]
            simp only [htext]
            cases hstring : stringFits j field with
            | false => simp [goesOn]
            | true =>
                simp only [if_true]
                rcases RioWriten_accepts fdSuscriber (topicText j field) w with
                  ⟨haccepted, hfailed⟩
                cases haccepts : accepts (topicText j field).length
                    (w.writes fdSuscriber) with
                | none =>
                    rw [hfailed haccepts]
                    simp [bind, Except.bind, goesOn]
                | some rest =>
                    rw [haccepted rest haccepts]
                    simp only [bind, Except.bind]
                    rw [ih]
                    simp

theorem logFits_noMessage : logFits noMessage = true := by
  decide +kernel

theorem logFits_iff (tm : Tm) (buffer : LogBuffer) (msg : CStr) :
    logFits msg = true <->
      InBounds LogBuffer.size (logStores tm buffer msg) := by
  rw [inBounds_logStores]
  unfold logFits LOG_STAMP
  rw [decide_eq_true_eq]
  lia

/-- The checks of a line are the bounds of the accesses that it causes. -/
theorem lineFits_iff {publisher : CStr} {topic : Nat -> Int} {buf : CStr}
    (tm : Tm) :
    LineFits publisher topic buf <->
      FitsBuffers topic buf ∧
        InBounds LogBuffer.size
          (logStores tm .forwardMessage
            (receivedMessage (chop buf) publisher)) := by
  have hstring : forall (j : Nat) (field : CStr), stringFits j field = true <->
      (stringTopics j).length + field.length + 1 < 50 := by
    intro j field
    unfold stringFits
    rw [decide_eq_true_eq]
    lia
  have htmp : tmpBufFits buf = true <-> buf ≠ [] ∧ buf.length < 100 := by
    unfold tmpBufFits
    rw [Bool.and_eq_true, decide_eq_true_eq, decide_eq_true_eq,
      ← List.length_pos_iff]
    lia
  rw [← logFits_iff]
  constructor
  · rintro ⟨hbuf, hlog, hinfo, htopics⟩
    rcases htmp.mp hbuf with ⟨hne, hshort⟩
    refine ⟨⟨hne, hshort, ?_, ?_⟩, hlog⟩
    · rw [← tokensOf_comma]
      exact of_decide_eq_true hinfo
    · intro j hj hwanted
      rcases htopics j (List.mem_range.mpr hj) hwanted with
        ⟨field, hfield, hfits⟩
      rw [tokensOf_comma] at hfield
      exact ⟨field, hfield, (hstring j field).mp hfits⟩
  · rintro ⟨⟨hne, hshort, hfields, htopics⟩, hlog⟩
    refine ⟨htmp.mpr ⟨hne, hshort⟩, hlog, ?_, ?_⟩
    · rw [← tokensOf_comma] at hfields
      exact decide_eq_true hfields
    · intro j hj hwanted
      rcases htopics j (List.mem_range.mp hj) hwanted with
        ⟨field, hfield, hfits⟩
      refine ⟨field, ?_, (hstring j field).mpr hfits⟩
      rw [tokensOf_comma]
      exact hfield

def LineDelivered (topic : Nat -> Int) (buf : CStr)
    (results : List WriteResult) : Prop :=
  acceptsAll ((selectedTexts topic (tokensOf (lit ",") buf)
    (List.range 6)).map List.length) results = true

theorem relayInBounds_goesOn (fdSuscriber : Fd) (topic : Nat -> Int)
    (publisher : CStr) (string bytes : List Byte) (w : World) :
    goesOn (relayInBounds fdSuscriber topic publisher string (some bytes) w) =
        true <->
      LineFits publisher topic (stringOf bytes) ∧
        LineDelivered topic (stringOf bytes) (w.writes fdSuscriber) := by
  unfold relayInBounds logLine
  simp only
  cases htmp : tmpBufFits (stringOf bytes) with
  | false =>
      simp only [Bool.false_eq_true, if_false, goesOn, false_iff, not_and]
      intro hfits
      rw [hfits.tmpBuf] at htmp
      cases htmp
  | true =>
      cases hlog : logFits (receivedMessage (chop (stringOf bytes)) publisher)
        with
      | false =>
          simp only [if_true, Bool.false_eq_true, if_false, bind, Except.bind,
            goesOn, false_iff, not_and]
          intro hfits
          rw [hfits.log] at hlog
          cases hlog
      | true =>
          simp only [if_true, bind, Except.bind]
          cases hinfo : infoFits (tokensOf (lit ",") (stringOf bytes)) with
          | false =>
              simp only [Bool.false_eq_true, if_false, goesOn, false_iff,
                not_and]
              intro hfits
              rw [hfits.info] at hinfo
              cases hinfo
          | true =>
              simp only [if_true]
              rw [sendTopics_goesOn]
              · constructor
                · intro h
                  exact ⟨⟨htmp, hlog, hinfo, h.left⟩, h.right⟩
                · intro h
                  exact ⟨h.left.topics, h.right⟩
              · intro field hfield
                exact nulFree_token (nulFree_stringOf bytes) hfield

theorem receive_lineOf (fd : Fd) (w : World) :
    match (lineOf (MAXLINE - 1) [] (arrivals (w.input fd))).1 with
    | .blocked => receive fd w = .error .blocked
    | .error => receive fd w = .error .exited
    | .eof => exists rest, receive fd w = .ok (none, w.setInput fd rest)
    | .line bytes =>
        exists rest, receive fd w = .ok (some bytes, w.setInput fd rest) := by
  rcases rioReadlineb_stream (rioReadinitb fd) MAXLINE (w.input fd) with
    ⟨result, rp', rest, hread, _, hline⟩
  change lineOf (MAXLINE - 1) [] (arrivals (w.input fd)) = _ at hline
  rw [hline]
  have hfd : (rioReadinitb fd).rioFd = fd := rfl
  unfold receive RioReadlineb
  rw [hfd, hread]
  cases result with
  | blocked => rfl
  | error => rfl
  | eof => exact ⟨rest, rfl⟩
  | line bytes => exact ⟨rest, rfl⟩

/--
The read of the publisher does not fail, and a line that it returns fits the
buffers and gets through to the subscriber.
-/
def MessageHarmless (connfdPub connfdSus : Fd) (topic : Nat -> Int)
    (publisher : CStr) (w : World) : Prop :=
  match (lineOf (MAXLINE - 1) [] (arrivals (w.input connfdPub))).1 with
  | .blocked => True
  | .eof => True
  | .error => False
  | .line bytes =>
      LineFits publisher topic (stringOf bytes) ∧
        LineDelivered topic (stringOf bytes) (w.writes connfdSus)

theorem forwardInBounds_goesOn (connfdPub connfdSus : Fd) (topic : Nat -> Int)
    (publisher : CStr) (left : MessageLeftover) (w : World) :
    goesOn (forwardInBounds connfdPub connfdSus topic publisher left w) =
        true <->
      MessageHarmless connfdPub connfdSus topic publisher w := by
  have hreceive := receive_lineOf connfdPub w
  unfold forwardInBounds MessageHarmless
  simp only [bind, Except.bind]
  cases hline : (lineOf (MAXLINE - 1) [] (arrivals (w.input connfdPub))).1 with
  | blocked =>
      rw [hline] at hreceive
      rw [hreceive]
      simp [goesOn]
  | error =>
      rw [hline] at hreceive
      rw [hreceive]
      simp [goesOn]
  | eof =>
      rw [hline] at hreceive
      rcases hreceive with ⟨rest, hreceive⟩
      rw [hreceive]
      simp [relayInBounds, logLine, logFits_noMessage, goesOn]
  | line bytes =>
      rw [hline] at hreceive
      rcases hreceive with ⟨rest, hreceive⟩
      rw [hreceive]
      exact relayInBounds_goesOn connfdSus topic publisher left.string bytes _

/-!
# One row
-/

theorem relayLine_input {fdSuscriber : Fd} {topic : Nat -> Int}
    {publisher : CStr} {left : MessageLeftover} {line : Option (List Byte)}
    {w w' : World}
    (h : relayLine fdSuscriber topic publisher left line w = .ok w') :
    w'.input = w.input := by
  cases line with
  | none =>
      cases h
      rfl
  | some bytes => exact (writeAll_ok h).left

theorem forwardInBounds_input {connfdPub connfdSus : Fd} {topic : Nat -> Int}
    {publisher : CStr} {left : MessageLeftover} {w w' : World}
    (h : forwardInBounds connfdPub connfdSus topic publisher left w = .ok w')
    {fd : Fd} (hfd : fd ≠ connfdPub) : w'.input fd = w.input fd := by
  have hreceive := receive_lineOf connfdPub w
  unfold forwardInBounds at h
  simp only [bind, Except.bind] at h
  cases hline : (lineOf (MAXLINE - 1) [] (arrivals (w.input connfdPub))).1 with
  | blocked | error =>
      rw [hline] at hreceive
      rw [hreceive] at h
      cases h
  | eof | line bytes =>
      rw [hline] at hreceive
      rcases hreceive with ⟨rest, hreceive⟩
      rw [hreceive] at h
      rw [relayLine_input (relayInBounds_ok h)]
      exact Function.update_of_ne hfd _ _

structure Process where
  tables : Tables
  world : World

def Process.forward (p : Process) (left : World -> MessageLeftover) (i : Nat) :
    Except Stop Process :=
  match p.tables.clientSusList i with
  | none => .ok p
  | some publisher =>
      if isNone publisher then .ok p
      else
        (forwardRowInBounds p.tables left i publisher p.world).map fun w =>
          { p with world := w }

/--
The process is there, the other rows are what they were, and of the clients only
the publisher of the row has been read.  A thread that waits has changed nothing
else either.
-/
structure FaultIsolated (p : Process) (i : Nat) (result : Except Stop Process) :
    Prop where
  running : goesOn result = true
  rows : forall p', result = .ok p' ->
    forall k, k ≠ i -> SameRow p.tables p'.tables k
  unread : forall p', result = .ok p' -> forall publisher,
    p.tables.clientSusList i = some publisher ->
      forall fd, fdByClientName p.tables publisher ≠ some fd ->
        p'.world.input fd = p.world.input fd

def Process.Harmless (p : Process) (i : Nat) : Prop :=
  forall publisher, p.tables.clientSusList i = some publisher ->
    isNone publisher = false ->
      exists suscriber fdPub fdSus,
        p.tables.clientNameList i = some suscriber ∧
          fdByClientName p.tables publisher = some fdPub ∧
          fdByClientName p.tables suscriber = some fdSus ∧
          logFits (forwardingMessage publisher suscriber) = true ∧
          MessageHarmless fdPub fdSus (p.tables.topicList i) publisher p.world

theorem forwardRowInBounds_goesOn (t : Tables) (left : World -> MessageLeftover)
    (i : Nat) (publisher : CStr) (w : World) :
    goesOn (forwardRowInBounds t left i publisher w) = true <->
      exists suscriber fdPub fdSus, t.clientNameList i = some suscriber ∧
        fdByClientName t publisher = some fdPub ∧
        fdByClientName t suscriber = some fdSus ∧
        logFits (forwardingMessage publisher suscriber) = true ∧
        MessageHarmless fdPub fdSus (t.topicList i) publisher w := by
  unfold forwardRowInBounds
  simp only [bind, Except.bind]
  cases hname : t.clientNameList i with
  | none => simp [orUndefined, goesOn]
  | some suscriber =>
      cases hpub : fdByClientName t publisher with
      | none => simp [orUndefined, goesOn]
      | some fdPub =>
          cases hsus : fdByClientName t suscriber with
          | none => simp [orUndefined, goesOn, hsus]
          | some fdSus =>
              simp only [orUndefined, hsus, logLine]
              cases hlog : logFits (forwardingMessage publisher suscriber) with
              | false => simp [goesOn, hlog]
              | true =>
                  simp only [if_true, forwardInBounds_goesOn]
                  constructor
                  · intro hmessage
                    exact ⟨suscriber, fdPub, fdSus, rfl, rfl, hsus, hlog,
                      hmessage⟩
                  · intro hexists
                    rcases hexists with
                      ⟨_, _, _, hown, hsource, hfd, _, hmessage⟩
                    cases hown
                    cases hsource
                    rw [hsus] at hfd
                    cases hfd
                    exact hmessage

theorem forwardRowInBounds_input {t : Tables} {left : World -> MessageLeftover}
    {i : Nat} {publisher : CStr} {w w' : World}
    (h : forwardRowInBounds t left i publisher w = .ok w') {fd : Fd}
    (hfd : fdByClientName t publisher ≠ some fd) :
    w'.input fd = w.input fd := by
  rcases forwardRowInBounds_eq_ok h with
    ⟨suscriber, fdPub, fdSus, _, hpub, _, h⟩
  have hne : fd ≠ fdPub := by
    intro heq
    rw [hpub, heq] at hfd
    exact hfd rfl
  exact forwardInBounds_input h hne

theorem goesOn_map {result : Except Stop value} {f : value -> value'} :
    goesOn (result.map f) = goesOn result := by
  cases result with
  | ok _ => rfl
  | error stop => cases stop <;> rfl

/--
For all tables and all that the sockets may answer: the row leaves the broker
running and the others alone exactly if it is harmless.
-/
theorem forwarding_isolated_iff (p : Process) (left : World -> MessageLeftover)
    (i : Nat) : FaultIsolated p i (p.forward left i) <-> p.Harmless i := by
  have hrunning : goesOn (p.forward left i) = true <-> p.Harmless i := by
    unfold Process.forward Process.Harmless
    cases hsus : p.tables.clientSusList i with
    | none => simp [goesOn]
    | some publisher =>
        simp only [Option.some.injEq, forall_eq']
        cases hnone : isNone publisher with
        | true => simp [goesOn]
        | false =>
            simp only [Bool.false_eq_true, if_false, goesOn_map, forall_const]
            exact forwardRowInBounds_goesOn p.tables left i publisher p.world
  constructor
  · intro h
    exact hrunning.mp h.running
  · intro h
    refine ⟨hrunning.mpr h, ?_, ?_⟩
    · intro p' hresult k _
      unfold Process.forward at hresult
      split at hresult
      · cases hresult
        exact SameRow.refl _ k
      · split at hresult
        · cases hresult
          exact SameRow.refl _ k
        · rcases exists_of_map_ok hresult with ⟨w, _, rfl⟩
          exact SameRow.refl _ k
    · intro p' hresult publisher hsus fd hfd
      unfold Process.forward at hresult
      rw [hsus] at hresult
      simp only at hresult
      split at hresult
      · cases hresult
        rfl
      · rcases exists_of_map_ok hresult with ⟨w, hw, rfl⟩
        exact forwardRowInBounds_input hw hfd

/-- The publisher has sent a report; a write to the subscriber fails with EPIPE. -/
def brokenPipe : World where
  input := fun fd =>
    if fd = 4 then [.bytes (lit "1,2,3,4,5,6" ++ [newline])] else []
  writes := fun fd => if fd = 6 then [.error] else []
  sent := fun _ => []
  log := []

def stopOf : Except Stop value -> Option Stop
  | .ok _ => none
  | .error stop => some stop

/-- One subscriber is gone, and its write error ends the broker for all. -/
theorem broken_pipe_ends_broker :
    exists s, Reachable System.step System.initial s ∧
      stopOf (Process.forward
        { tables := s.shared.tables, world := brokenPipe }
        (fun _ => cleanMessageLeftover) 1) = some .exited ∧
      ¬ FaultIsolated { tables := s.shared.tables, world := brokenPipe } 1
        (Process.forward { tables := s.shared.tables, world := brokenPipe }
          (fun _ => cleanMessageLeftover) 1) := by
  have hrun :
      (runFrom System.step System.initial
          (connects 4 (lit "node1") (lit "NONE") ++ runs 0 9 ++
            connects 6 (lit "sub1") (lit "node1/#") ++ runs 1 16)).map
        (fun s => stopOf (Process.forward
          { tables := s.shared.tables, world := brokenPipe }
          (fun _ => cleanMessageLeftover) 1)) = some (some .exited) := by
    decide +kernel
  rcases Option.map_eq_some_iff.mp hrun with ⟨s, hs, hstop⟩
  refine ⟨s, ⟨_, hs⟩, hstop, ?_⟩
  intro hisolated
  have hrunning := hisolated.running
  cases hresult : Process.forward
      { tables := s.shared.tables, world := brokenPipe }
      (fun _ => cleanMessageLeftover) 1 with
  | ok p' =>
      rw [hresult] at hstop
      cases hstop
  | error stop =>
      rw [hresult] at hstop hrunning
      cases hstop
      cases hrunning

end Broker
end MQTTv1
