import MQTTv1.Broker.ServedLines
import MQTTv1.CLib.Grep
import MQTTv1.Publisher.RoundTrip
import MQTTv1.Subscriber.Receiving

/-!
# From the broker's services to the screen

A subscriber sees the texts of the services for its descriptor and nothing else.
When every `read` of the broker returns one line of a publisher, these are the
topics of the lines that its rows were served with, and they can be read back.
-/

namespace MQTTv1
namespace Subscriber

open CLib
open Csapp
open Broker

theorem receiveLoop_nulFree {clientfd : Fd} {input : List ReadResult}
    {text : List Byte} {later : List Arrival} (hfree : NulFree text)
    (hinput : arrivals input =
      text.map Arrival.byte ++ .eof :: .eof :: later) :
    receiveLoop (rioReadinitb clientfd) input = (text, .closed) := by
  rcases receiveLoop_prints (rioReadinitb clientfd) input text _ hinput with
    ⟨pieces, unfinished, hprints⟩
  exact hprints.nulFree hfree rfl

/-!
# Reading the screen
-/

/-- The topic of a printed line, by its label, and the value behind it. -/
def readTopic (line : CStr) : Option (Nat × CStr) :=
  (List.range TOPICS_NUMBER).findSome? fun j =>
    if stringTopics j <+: line then
      some (j, line.drop (stringTopics j).length)
    else none

def readScreen (printed : List Byte) : List (Option (Nat × CStr)) :=
  (linesOf printed).map readTopic

theorem stringTopics_distinct :
    forall j, j < TOPICS_NUMBER -> forall k, k < TOPICS_NUMBER ->
      stringTopics j <+: stringTopics k -> j = k := by
  decide

theorem findSome?_unique {f : α -> Option β} {l : List α} {a : α} {b : β}
    (ha : a ∈ l) (hf : f a = some b)
    (hothers : forall c, c ∈ l -> c ≠ a -> f c = none) :
    l.findSome? f = some b := by
  induction l with
  | nil => cases ha
  | cons c l ih =>
      rw [List.findSome?_cons]
      by_cases hc : c = a
      · rw [hc, hf]
      · rw [hothers c List.mem_cons_self hc]
        rcases List.mem_cons.mp ha with heq | ha
        · exact absurd heq.symm hc
        · exact ih ha fun d hd => hothers d (List.mem_cons_of_mem c hd)

theorem readTopic_stringTopics {k : Nat} (hk : k < TOPICS_NUMBER)
    (value : CStr) :
    readTopic (stringTopics k ++ value) = some (k, value) := by
  have hlabel : forall j, j < TOPICS_NUMBER ->
      (stringTopics j <+: stringTopics k ++ value <-> j = k) := by
    intro j hj
    constructor
    · intro hstart
      rcases List.prefix_or_prefix_of_prefix hstart
        (List.prefix_append (stringTopics k) value) with hjk | hkj
      · exact stringTopics_distinct j hj k hk hjk
      · exact (stringTopics_distinct k hk j hj hkj).symm
    · rintro rfl
      exact List.prefix_append _ _
  apply findSome?_unique (List.mem_range.mpr hk)
  · rw [if_pos ((hlabel k hk).mpr rfl), List.drop_left]
  · intro j hj hne
    rw [if_neg]
    intro hstart
    exact hne ((hlabel j (List.mem_range.mp hj)).mp hstart)

def selectedValues (topic : Nat -> Int) (m : Publisher.Metrics) :
    List (Nat × CStr) :=
  (List.range TOPICS_NUMBER).filterMap fun j =>
    if topic j ≠ -1 then some (j, m.field j) else none

def topicLine (v : Nat × CStr) : CStr := stringTopics v.1 ++ v.2

theorem selected_eq (topic : Nat -> Int) (m : Publisher.Metrics) :
    m.selected topic = ((selectedValues topic m).map topicLine).flatMap ended := by
  unfold Publisher.Metrics.selected selectedValues
  rw [List.map_filterMap, List.flatMap_def, List.map_filterMap]
  congr 1
  apply List.filterMap_congr
  intro j _
  by_cases hsel : topic j ≠ -1
  · rw [if_pos hsel, if_pos hsel]
    rfl
  · rw [if_neg hsel, if_neg hsel]
    rfl

theorem newline_notMem_stringTopics {j : Nat} (hj : j < TOPICS_NUMBER) :
    newline ∉ stringTopics j := by
  revert j
  decide

theorem mem_selectedValues {topic : Nat -> Int} {m : Publisher.Metrics}
    {v : Nat × CStr} (hv : v ∈ selectedValues topic m) :
    v.1 < TOPICS_NUMBER ∧ v.2 = m.field v.1 := by
  rcases List.mem_filterMap.mp hv with ⟨j, hj, heq⟩
  split at heq
  · cases heq
    exact ⟨List.mem_range.mp hj, rfl⟩
  · cases heq

theorem readScreen_topicLines {values : List (Nat × CStr)}
    (hvalues : forall v, v ∈ values ->
      v.1 < TOPICS_NUMBER ∧ newline ∉ v.2) :
    readScreen ((values.map topicLine).flatMap ended) = values.map some := by
  have hplain : forall line, line ∈ values.map topicLine ->
      newline ∉ line := by
    intro line hline hmem
    rcases List.mem_map.mp hline with ⟨v, hv, rfl⟩
    rcases List.mem_append.mp hmem with hlabel | hvalue
    · exact newline_notMem_stringTopics (hvalues v hv).left hlabel
    · exact (hvalues v hv).right hvalue
  unfold readScreen
  rw [← List.append_nil (List.flatMap _ _), linesOf_flatMap_ended [] hplain]
  show ((_ : List CStr) ++ []).map readTopic = _
  rw [List.append_nil, List.map_map]
  apply List.map_congr_left
  intro v hv
  exact readTopic_stringTopics (hvalues v hv).left v.2

/-- What is printed of published reports says which topics had which values. -/
theorem readScreen_selected (topic : Nat -> Int) (ms : List Publisher.Metrics) :
    readScreen (ms.flatMap fun m => m.selected topic) =
      (ms.flatMap (selectedValues topic)).map some := by
  have htext : (ms.flatMap fun m => m.selected topic) =
      ((ms.flatMap (selectedValues topic)).map topicLine).flatMap ended := by
    rw [List.map_flatMap, List.flatMap_assoc]
    congr 1
    funext m
    exact selected_eq topic m
  rw [htext]
  apply readScreen_topicLines
  intro v hv
  rcases List.mem_flatMap.mp hv with ⟨m, _, hv⟩
  rcases mem_selectedValues hv with ⟨hj, hfield⟩
  rw [hfield]
  exact ⟨hj, Publisher.newline_notMem_field m hj⟩

end Subscriber
end MQTTv1
