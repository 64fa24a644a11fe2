import MQTTv1.Broker.Forwarding

/-!
# Forwarding within the buffers

`forward_message` copies a line through arrays of fixed length.  Here every
access to them is checked: a line that does not fit has no result, and where
there is one it is the one of `forwardMessage`.
-/

namespace MQTTv1
namespace Broker

open CLib
open Csapp

def LOG_STAMP : Nat := 23

/-- `message` holds the stamp and the text; the callers' buffers are larger. -/
def logFits (msg : CStr) : Bool := LOG_STAMP + msg.length < MAXLINE

def logLine (msg : CStr) (w : World) : Except Stop World :=
  if logFits msg then .ok (writeLog msg w) else .error .undefined

/-- `char string[50]` takes the label, the field, a newline and the terminator. -/
def stringFits (j : Nat) (field : CStr) : Bool :=
  (stringTopics j).length + field.length + 2 ≤ 50

/--
The loop over the topics.  An entry of `pub_available_info` that this line has
not set is a pointer to nowhere.
-/
def sendTopics (fdSuscriber : Fd) (topic : Nat -> Int) (tokens : List CStr)
    (string : List Byte) : List Nat -> World -> Except Stop World
  | [], w => .ok w
  | j :: rest, w =>
      if topic j = -1 then sendTopics fdSuscriber topic tokens string rest w
      else
        match tokens[j]? with
        | none => .error .undefined
        | some field =>
            if stringFits j field then do
              let w <- RioWriten fdSuscriber
                (stringOf (topicBuffer string j field)) w
              sendTopics fdSuscriber topic tokens string rest w
            else .error .undefined

/-- `char tmp_buf[100]`, of which the last character of the string is cut off. -/
def tmpBufFits (buf : CStr) : Bool := 1 ≤ buf.length && buf.length + 1 ≤ 100

def infoFits (tokens : List CStr) : Bool := tokens.length ≤ 10

def relayInBounds (fdSuscriber : Fd) (topic : Nat -> Int) (publisher : CStr)
    (string : List Byte) (line : Option (List Byte)) (w : World) :
    Except Stop World :=
  match line with
  | none => logLine noMessage w
  | some bytes =>
      let buf := stringOf bytes
      let tokens := tokensOf (lit ",") buf
      if tmpBufFits buf then do
        let w <- logLine (receivedMessage (chop buf) publisher) w
        if infoFits tokens then
          sendTopics fdSuscriber topic tokens string (List.range 6) w
        else .error .undefined
      else .error .undefined

def forwardInBounds (connfdPub connfdSus : Fd) (topic : Nat -> Int)
    (publisher : CStr) (left : MessageLeftover) (w : World) :
    Except Stop World := do
  let (line, w) <- receive connfdPub w
  relayInBounds connfdSus topic publisher left.string line w

def forwardRowInBounds (t : Tables) (left : World -> MessageLeftover) (i : Nat)
    (publisher : CStr) (w : World) : Except Stop World := do
  let suscriber <- orUndefined (t.clientNameList i)
  let topicsNumber := t.topicList i
  let fdPub <- orUndefined (fdByClientName t publisher)
  let fdSus <- orUndefined (fdByClientName t suscriber)
  let w <- logLine (forwardingMessage publisher suscriber) w
  forwardInBounds fdPub fdSus topicsNumber publisher (left w) w

/-- The first rounds of `forward_messages`, none of which leaves a buffer. -/
def forwardMessagesInBounds (t : Tables) (left : World -> MessageLeftover)
    (passes : Nat) (w : World) : Except Stop World :=
  repeatPass (rowLoop (forwardRowInBounds t left) t LIMIT_CONN_CLIENTS 0) passes w

/-!
# The same as without the bounds
-/

theorem logLine_ok {msg : CStr} {w w' : World} (h : logLine msg w = .ok w') :
    w' = writeLog msg w := by
  unfold logLine at h
  split at h
  · cases h
    rfl
  · cases h

/-- A text whose entry is set is the one that `forward_message` writes. -/
theorem sendTopics_writeAll (fdSuscriber : Fd) (topic : Nat -> Int)
    (tokens : List CStr) (info : Nat -> CStr) (string : List Byte)
    (hinfo : forall (j : Nat) field, tokens[j]? = some field -> info j = field) :
    forall (js : List Nat) (w w' : World),
      sendTopics fdSuscriber topic tokens string js w = .ok w' ->
        writeAll fdSuscriber (js.filterMap fun j =>
          if topic j ≠ -1 then some (stringOf (topicBuffer string j (info j)))
          else none) w = .ok w' := by
  intro js
  induction js with
  | nil =>
      intro w w' h
      exact h
  | cons j js ih =>
      intro w w' h
      unfold sendTopics at h
      split at h
      · rw [List.filterMap_cons_none (by simp [*])]
        exact ih w w' h
      · cases htoken : tokens[j]? with
        | none =>
            rw [htoken] at h
            cases h
        | some field =>
            rw [htoken] at h
            simp only at h
            split at h
            · rw [List.filterMap_cons_some
                (by simp only [ne_eq, *, not_false_eq_true, if_true]; rfl),
                hinfo j field htoken]
              unfold writeAll
              rcases bind_eq_ok.mp h with ⟨mid, hwrite, h⟩
              exact bind_eq_ok.mpr ⟨mid, hwrite, ih mid w' h⟩
            · cases h

theorem relayInBounds_ok {fdSuscriber : Fd} {topic : Nat -> Int}
    {publisher : CStr} {left : MessageLeftover} {line : Option (List Byte)}
    {w w' : World}
    (h : relayInBounds fdSuscriber topic publisher left.string line w = .ok w') :
    relayLine fdSuscriber topic publisher left line w = .ok w' := by
  cases line with
  | none =>
      rw [logLine_ok h]
      rfl
  | some bytes =>
      unfold relayInBounds at h
      simp only at h
      split at h
      · rcases bind_eq_ok.mp h with ⟨mid, hlog, h⟩
        split at h
        · rw [logLine_ok hlog] at h
          apply sendTopics_writeAll _ _ _ _ _ _ _ _ _ h
          intro j field hfield
          unfold split
          rw [hfield]
          rfl
        · cases h
      · cases h

theorem forwardRowInBounds_eq_ok {t : Tables} {left : World -> MessageLeftover}
    {i : Nat} {publisher : CStr} {w w' : World}
    (h : forwardRowInBounds t left i publisher w = .ok w') :
    exists suscriber fdPub fdSus, t.clientNameList i = some suscriber ∧
      fdByClientName t publisher = some fdPub ∧
      fdByClientName t suscriber = some fdSus ∧
      let mid := writeLog (forwardingMessage publisher suscriber) w
      forwardInBounds fdPub fdSus (t.topicList i) publisher (left mid) mid =
        .ok w' := by
  rcases bind_eq_ok.mp h with ⟨suscriber, hname, h⟩
  rcases bind_eq_ok.mp h with ⟨fdPub, hpub, h⟩
  rcases bind_eq_ok.mp h with ⟨fdSus, hsus, h⟩
  rcases bind_eq_ok.mp h with ⟨mid, hlog, h⟩
  cases logLine_ok hlog
  exact ⟨suscriber, fdPub, fdSus, orUndefined_eq_ok.mp hname,
    orUndefined_eq_ok.mp hpub, orUndefined_eq_ok.mp hsus, h⟩

theorem forwardRowInBounds_ok {t : Tables} {left : World -> MessageLeftover}
    {i : Nat} {publisher : CStr} {w w' : World}
    (h : forwardRowInBounds t left i publisher w = .ok w') :
    forwardRow t left i publisher w = .ok w' := by
  rcases forwardRowInBounds_eq_ok h with
    ⟨suscriber, fdPub, fdSus, hname, hpub, hsus, h⟩
  rcases bind_eq_ok.mp h with ⟨⟨line, received⟩, hreceive, h⟩
  refine bind_eq_ok.mpr ⟨suscriber, orUndefined_eq_ok.mpr hname, ?_⟩
  refine bind_eq_ok.mpr ⟨fdPub, orUndefined_eq_ok.mpr hpub, ?_⟩
  refine bind_eq_ok.mpr ⟨fdSus, orUndefined_eq_ok.mpr hsus, ?_⟩
  show forwardMessage _ _ _ _ _ _ = _
  rw [forwardMessage_eq_receive]
  exact bind_eq_ok.mpr ⟨(line, received), hreceive, relayInBounds_ok h⟩

theorem rowLoop_mono {body body' : Nat -> CStr -> World -> Except Stop World}
    {t : Tables}
    (hbody : forall {i sus w w'}, body i sus w = .ok w' ->
      body' i sus w = .ok w') :
    forall {slots i : Nat} {w w' : World},
      rowLoop body t slots i w = .ok w' ->
        rowLoop body' t slots i w = .ok w' := by
  intro slots
  induction slots with
  | zero =>
      intro i w w' h
      cases h
  | succ slots ih =>
      intro i w w' h
      unfold rowLoop at h ⊢
      cases hsus : t.clientSusList i with
      | none =>
          rw [hsus] at h
          exact h
      | some sus =>
          rw [hsus] at h
          simp only at h ⊢
          split at h
          · rw [if_pos ‹_›]
            exact ih h
          · rw [if_neg ‹_›]
            rcases bind_eq_ok.mp h with ⟨mid, hrow, hrest⟩
            exact bind_eq_ok.mpr ⟨mid, hbody hrow, ih hrest⟩

theorem repeatPass_mono {pass pass' : World -> Except Stop World}
    (hpass : forall {w w'}, pass w = .ok w' -> pass' w = .ok w') :
    forall {passes : Nat} {w w' : World}, repeatPass pass passes w = .ok w' ->
      repeatPass pass' passes w = .ok w' := by
  intro passes
  induction passes with
  | zero =>
      intro w w' h
      exact h
  | succ passes ih =>
      intro w w' h
      rcases bind_eq_ok.mp h with ⟨mid, hearlier, hlast⟩
      exact bind_eq_ok.mpr ⟨mid, ih hearlier, hpass hlast⟩

/-- Passes that end without leaving a buffer are passes of `forward_messages`. -/
theorem forwardMessagesInBounds_ok {t : Tables}
    {left : World -> MessageLeftover} {passes : Nat} {w w' : World}
    (h : forwardMessagesInBounds t left passes w = .ok w') :
    forwardMessages t left passes w = .ok w' :=
  repeatPass_mono (fun hpass => rowLoop_mono forwardRowInBounds_ok hpass) h

/-!
# Lines that fit
-/

def TopicsFit (topic : Nat -> Int) (tokens : List CStr) (js : List Nat) : Prop :=
  forall j, j ∈ js -> topic j ≠ -1 ->
    exists field, tokens[j]? = some field ∧ stringFits j field = true

instance (topic : Nat -> Int) (tokens : List CStr) (js : List Nat) :
    Decidable (TopicsFit topic tokens js) :=
  decidable_of_iff
    (forall j, j ∈ js -> topic j ≠ -1 ->
      (tokens[j]?).any (stringFits j) = true)
    (by simp only [TopicsFit, Option.any_eq_true])

structure LineFits (publisher : CStr) (topic : Nat -> Int) (buf : CStr) :
    Prop where
  tmpBuf : tmpBufFits buf = true
  log : logFits (receivedMessage (chop buf) publisher) = true
  info : infoFits (tokensOf (lit ",") buf) = true
  topics : TopicsFit topic (tokensOf (lit ",") buf) (List.range 6)

theorem lineFits_iff_checks {publisher : CStr} {topic : Nat -> Int}
    {buf : CStr} :
    LineFits publisher topic buf <->
      (tmpBufFits buf = true ∧
        logFits (receivedMessage (chop buf) publisher) = true) ∧
      infoFits (tokensOf (lit ",") buf) = true ∧
        TopicsFit topic (tokensOf (lit ",") buf) (List.range 6) := by
  constructor
  · intro h
    exact ⟨⟨h.tmpBuf, h.log⟩, h.info, h.topics⟩
  · intro h
    exact ⟨h.left.left, h.left.right, h.right.left, h.right.right⟩

instance (publisher : CStr) (topic : Nat -> Int) (buf : CStr) :
    Decidable (LineFits publisher topic buf) :=
  decidable_of_iff _ lineFits_iff_checks.symm

end Broker
end MQTTv1
