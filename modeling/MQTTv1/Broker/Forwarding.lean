import MQTTv1.Broker.Tables
import MQTTv1.Csapp.Lines
import Mathlib.Data.List.Basic

/-!
# Forwarding

`forward_message` reads one line of a publisher through a `rio_t` of its own and
writes the topics a row asks for to a subscriber.  `forward_messages` calls it
for the rows of the table, one pass after the other.
-/

namespace MQTTv1
namespace Broker

open CLib
open Csapp

def SHARINGTIME : Nat := 1

/-!
# One message
-/

/-- What the uninitialised locals of `forward_message` hold. -/
structure MessageLeftover where
  pubAvailableInfo : Nat -> CStr
  string : List Byte

/--
The buffer `string` for one topic.  The newline stored behind the terminator is
not part of the string; only `strcat` makes one visible.
-/
def topicBuffer (string : List Byte) (j : Nat) (field : CStr) : List Byte :=
  let string := strcpy string (stringTopics j)
  let string := strcat string field
  let string := storeAt string (strlen string + 1) newline
  if j < 5 then strcat string [newline] else string

/-- The buffers that `forward_message` writes for one line, in order. -/
def topicWrites (topic : Nat -> Int) (info : Nat -> CStr)
    (string : List Byte) : List CStr :=
  (List.range 6).filterMap fun j =>
    if topic j ≠ -1 then some (stringOf (topicBuffer string j (info j)))
    else none

theorem topicWrites_congr {topic topic' : Nat -> Int}
    (h : forall j, j < TOPICS_NUMBER -> topic j = topic' j)
    (info : Nat -> CStr) (string : List Byte) :
    topicWrites topic info string = topicWrites topic' info string := by
  unfold topicWrites
  apply List.filterMap_congr
  intro j hj
  rw [h j (List.mem_range.mp hj)]

def topicText (j : Nat) (field : CStr) : CStr :=
  stringTopics j ++ field ++ if j < 5 then [newline] else []

theorem nulFree_stringTopics (j : Nat) : NulFree (stringTopics j) := by
  unfold stringTopics
  split <;> decide

/-- The newline behind the terminator never reaches the subscriber. -/
theorem stringOf_topicBuffer (string : List Byte) (j : Nat) {field : CStr}
    (hfield : NulFree field) :
    stringOf (topicBuffer string j field) = topicText j field := by
  have hlabel := nulFree_stringTopics j
  rcases strcat_split (strcpy string (stringTopics j)) field with ⟨rest, hcat⟩
  rw [stringOf_strcpy hlabel] at hcat
  have hfull : NulFree (stringTopics j ++ field) :=
    nulFree_append.mpr ⟨hlabel, hfield⟩
  have hlen :
      strlen ((stringTopics j ++ field) ++ 0 :: rest) =
        (stringTopics j ++ field).length := by
    rw [strlen, stringOf_append_nul hfull]
  have hstore :
      stringOf
          (storeAt ((stringTopics j ++ field) ++ 0 :: rest)
            ((stringTopics j ++ field).length + 1) newline) =
        stringTopics j ++ field :=
    stringOf_storeAt_past hfull rest newline
  unfold topicBuffer topicText
  simp only
  rw [hcat, hlen]
  by_cases hj : j < 5
  · rw [if_pos hj, if_pos hj, stringOf_strcat (by decide), hstore]
  · rw [if_neg hj, if_neg hj, hstore, List.append_nil]

def writeAll (fd : Fd) : List CStr -> World -> Except Stop World
  | [], w => .ok w
  | buf :: rest, w => do
      let w <- RioWriten fd buf w
      writeAll fd rest w

theorem writeAll_ok {fd : Fd} :
    forall {bufs : List CStr} {w w' : World}, writeAll fd bufs w = .ok w' ->
      w'.input = w.input ∧
        w'.sent = Function.update w.sent fd (w.sent fd ++ bufs.flatten) := by
  intro bufs
  induction bufs with
  | nil =>
      intro w w' h
      cases h
      simp
  | cons buf rest ih =>
      intro w w' h
      rcases bind_eq_ok.mp h with ⟨mid, hwrite, h⟩
      rcases RioWriten_ok hwrite with ⟨hinput, hsent⟩
      rcases ih h with ⟨hinput', hsent'⟩
      refine ⟨hinput'.trans hinput, ?_⟩
      rw [hsent', hsent]
      simp

theorem writeAll_accepting {fd : Fd} :
    forall {bufs : List CStr} {w : World}, Accepting (w.writes fd) ->
      exists w', writeAll fd bufs w = .ok w' := by
  intro bufs
  induction bufs with
  | nil =>
      intro w _
      exact ⟨w, rfl⟩
  | cons buf rest ih =>
      intro w hw
      rcases RioWriten_accepting hw buf with ⟨mid, hmid, haccepting⟩
      rcases ih haccepting with ⟨w', hw'⟩
      refine ⟨w', ?_⟩
      show (RioWriten fd buf w).bind (writeAll fd rest) = .ok w'
      rw [hmid]
      exact hw'

def receivedMessage (line publisher : CStr) : CStr :=
  lit "Se ha recibido [" ++ line ++ lit "] de [" ++ publisher ++ lit "]"

def noMessage : CStr :=
  lit "No hay mensaje disponible para enviar..." ++ [newline]

def relayLine (fdSuscriber : Fd) (topic : Nat -> Int) (publisher : CStr)
    (left : MessageLeftover) (line : Option (List Byte)) (w : World) :
    Except Stop World :=
  match line with
  | none => .ok (writeLog noMessage w)
  | some bytes =>
      let buf := stringOf bytes
      let w := writeLog (receivedMessage (chop buf) publisher) w
      let info := split buf (lit ",") left.pubAvailableInfo
      writeAll fdSuscriber (topicWrites topic info left.string) w

def shareLoop (fdSuscriber : Fd) (topic : Nat -> Int) (publisher : CStr)
    (left : MessageLeftover) : Nat -> Rio -> World -> Except Stop World
  | 0, _, w => .ok w
  | rounds + 1, rioSrc, w => do
      let (line, rioSrc, w) <- RioReadlineb rioSrc MAXLINE w
      let w <- relayLine fdSuscriber topic publisher left line w
      shareLoop fdSuscriber topic publisher left rounds rioSrc w

def forwardMessage (connfdPub connfdSus : Fd) (topic : Nat -> Int)
    (publisher : CStr) (left : MessageLeftover) (w : World) :
    Except Stop World :=
  shareLoop connfdSus topic publisher left SHARINGTIME
    (rioReadinitb connfdPub) w

def receive (connfdPub : Fd) (w : World) :
    Except Stop (Option (List Byte) × World) := do
  let (line, _, w) <- RioReadlineb (rioReadinitb connfdPub) MAXLINE w
  return (line, w)

theorem forwardMessage_eq_receive (connfdPub connfdSus : Fd)
    (topic : Nat -> Int) (publisher : CStr) (left : MessageLeftover)
    (w : World) :
    forwardMessage connfdPub connfdSus topic publisher left w =
      (receive connfdPub w).bind fun (line, w) =>
        relayLine connfdSus topic publisher left line w := by
  unfold forwardMessage receive SHARINGTIME shareLoop
  cases hread : RioReadlineb (rioReadinitb connfdPub) MAXLINE w with
  | error stop => rfl
  | ok result =>
      rcases result with ⟨line, rioSrc, w'⟩
      show (relayLine connfdSus topic publisher left line w').bind _ =
        relayLine connfdSus topic publisher left line w'
      cases relayLine connfdSus topic publisher left line w' <;> rfl

/-!
# One pass over the rows
-/

def forwardingMessage (publisher suscriber : CStr) : CStr :=
  lit "Se envia informacion desde [" ++ publisher ++ lit "] -> [" ++
    suscriber ++ lit "]"

/--
The body of the loop for a row that is neither NULL nor "NONE".  Every call of
`forward_message` finds its own leftovers; the log tells the calls apart.
-/
def forwardRow (t : Tables) (left : World -> MessageLeftover) (i : Nat)
    (publisher : CStr) (w : World) : Except Stop World := do
  let suscriber <- orUndefined (t.clientNameList i)
  let topicsNumber := t.topicList i
  let fdPub <- orUndefined (fdByClientName t publisher)
  let fdSus <- orUndefined (fdByClientName t suscriber)
  let w := writeLog (forwardingMessage publisher suscriber) w
  forwardMessage fdPub fdSus topicsNumber publisher (left w) w

/--
The row loop, with the slots that `client_sus_list` still has.  The test of the
loop leaves the array when there is no slot left.
-/
def rowLoop (body : Nat -> CStr -> World -> Except Stop World) (t : Tables) :
    Nat -> Nat -> World -> Except Stop World
  | 0, _, _ => .error .undefined
  | slots + 1, i, w =>
      match t.clientSusList i with
      | none => .ok w
      | some sus =>
          if isNone sus then
            rowLoop body t slots (i + 1) w
          else do
            let w <- body i sus w
            rowLoop body t slots (i + 1) w

def passFrom (t : Tables) (left : World -> MessageLeftover) (slots i : Nat)
    (w : World) : Except Stop World :=
  rowLoop (forwardRow t left) t slots i w

def forwardMessagesPass (t : Tables) (left : World -> MessageLeftover)
    (w : World) : Except Stop World :=
  passFrom t left LIMIT_CONN_CLIENTS 0 w

/-- The first rounds of an endless loop. -/
def repeatPass (pass : World -> Except Stop World) : Nat -> World ->
    Except Stop World
  | 0, w => .ok w
  | passes + 1, w => do
      let w <- repeatPass pass passes w
      pass w

def forwardMessages (t : Tables) (left : World -> MessageLeftover)
    (passes : Nat) (w : World) : Except Stop World :=
  repeatPass (forwardMessagesPass t left) passes w

end Broker
end MQTTv1
