import MQTTv1.Broker.Provenance
import MQTTv1.Subscriber.Screen

/-!
# Screens under every interleaving

Blocks of different reports may be mixed on the way to a subscriber, but each
topic is one write.  So what a subscriber displays are still whole topics, each
with the value of a published report.
-/

namespace MQTTv1
namespace Subscriber

open CLib
open Csapp
open Broker

structure Shows (events : List Event) (strand : Strand Fd Byte)
    (v : Nat × CStr) : Prop where
  topic : v.1 < TOPICS_NUMBER
  piece : strand.piece = ended (topicLine v)
  value : exists m : Publisher.Metrics,
    (arrivedLines events strand.source)[strand.number]? = some m.line ∧
      v.2 = m.field v.1

theorem topicWrites_message {m : Publisher.Metrics}
    (hfits : m.line.length < 100) {topics : Nat -> Int}
    {left : MessageLeftover} {text : CStr}
    (htext : text ∈ topicWrites topics
      (split (stringOf m.line) (lit ",") left.pubAvailableInfo) left.string) :
    exists j, j < TOPICS_NUMBER ∧ text = ended (topicLine (j, m.field j)) := by
  have htexts := topicWrites_texts (m.message hfits) left.pubAvailableInfo
    left.string fun j _ => (rfl : topics j = topics j)
  change topicWrites topics (split (stringOf m.line) (lit ",") _) _ = _
    at htexts
  rw [htexts] at htext
  rcases List.mem_filterMap.mp htext with ⟨j, hj, heq⟩
  have hj' : j < TOPICS_NUMBER := List.mem_range.mp hj
  split at heq
  · refine ⟨j, hj', ?_⟩
    rw [← Option.some.inj heq]
    exact Publisher.topicText_message m hfits hj'
  · cases heq

/-- What a subscriber is sent belongs to a line that a forwarder has read. -/
theorem strand_forwarded {events : List Event} {s : System}
    {w : Weave Fd Fd Byte} (hw : Woven (Forwarded events s.threads) s.relay w)
    {d : Fd} {strand : Strand Fd Byte} (hstrand : strand ∈ w.strands d) :
    w.skipped strand.source ≤ strand.number ∧
      strand.number < s.shared.taken strand.source ∧
      exists block, Forwarded events s.threads strand.source d strand.number
        block ∧ strand.piece ∈ block := by
  rcases hw.strand_share hstrand with ⟨share, hshare, rfl, hpiece⟩
  rcases (hw.shared strand.source strand.number).mp
    (Option.isSome_iff_exists.mpr ⟨share, hshare⟩) with ⟨hfirst, htaken⟩
  exact ⟨hfirst, htaken, share.block, hw.legit _ _ _ hshare, hpiece⟩

/-- When the line was made of a report, the text is a topic of this report. -/
theorem topicLine_of_forwarded {events : List Event} {threads : List Thread}
    {p d : Fd} {k : Nat} {block : List CStr}
    (h : Forwarded events threads p d k block) {m : Publisher.Metrics}
    (hfits : m.line.length < 100)
    (hline : (arrivedLines events p)[k]? = some m.line) {text : CStr}
    (htext : text ∈ block) :
    exists j, j < TOPICS_NUMBER ∧ text = ended (topicLine (j, m.field j)) := by
  rcases h.texts with ⟨bytes, topics, left, hbytes, hblock⟩
  rw [hline] at hbytes
  cases hbytes
  rw [hblock] at htext
  exact topicWrites_message hfits htext

theorem exists_forall₂ {R : α -> β -> Prop} {l : List α}
    (h : forall a, a ∈ l -> exists b, R a b) : exists l', List.Forall₂ R l l' := by
  induction l with
  | nil => exact ⟨[], List.Forall₂.nil⟩
  | cons a l ih =>
      rcases h a List.mem_cons_self with ⟨b, hb⟩
      rcases ih fun c hc => h c (List.mem_cons_of_mem a hc) with ⟨l', hl'⟩
      exact ⟨b :: l', List.Forall₂.cons hb hl'⟩

theorem Shows.plain {events : List Event} {strand : Strand Fd Byte}
    {v : Nat × CStr} (h : Shows events strand v) : newline ∉ v.2 := by
  rcases h.value with ⟨m, _, hvalue⟩
  rw [hvalue]
  exact Publisher.newline_notMem_field m h.topic

theorem nulFree_sent {events : List Event} {s : System} {w : Weave Fd Fd Byte}
    (hw : Woven (Forwarded events s.threads) s.relay w) (d : Fd) :
    NulFree (s.shared.sent d) := by
  have hsent : s.shared.sent d = (w.strands d).flatMap Strand.piece :=
    hw.sent d
  rw [hsent]
  intro b hb
  rcases List.mem_flatMap.mp hb with ⟨strand, hstrand, hb⟩
  rcases strand_forwarded hw hstrand with ⟨_, _, block, hforwarded, hpiece⟩
  rcases hforwarded.texts with ⟨bytes, topics, left, _, hblock⟩
  rw [hblock] at hpiece
  exact nulFree_topicWrites hpiece b hb

theorem screen_of_strands {events : List Event} {s : System}
    {w : Weave Fd Fd Byte} (hw : Woven (Forwarded events s.threads) s.relay w)
    {R : Strand Fd Byte -> Nat × CStr -> Prop}
    (htopic : forall strand v, R strand v ->
      v.1 < TOPICS_NUMBER ∧ newline ∉ v.2 ∧ strand.piece = ended (topicLine v))
    {d : Fd}
    (hpieces : forall strand, strand ∈ w.strands d -> exists v, R strand v)
    {clientfd : Fd} {results : List ReadResult} {later : List Arrival}
    (hresults : arrivals results =
      (s.shared.sent d).map Arrival.byte ++ .eof :: .eof :: later) :
    exists (printed : List Byte) (values : List (Nat × CStr)),
      receiveLoop (rioReadinitb clientfd) results = (printed, .closed) ∧
        readScreen printed = values.map some ∧
        List.Forall₂ R (w.strands d) values := by
  rcases exists_forall₂ hpieces with ⟨values, hvalues⟩
  have hall : (w.strands d).flatMap Strand.piece =
      (values.map topicLine).flatMap ended ∧
        forall v, v ∈ values -> v.1 < TOPICS_NUMBER ∧ newline ∉ v.2 := by
    generalize w.strands d = strands at hvalues
    induction hvalues with
    | nil => simp
    | cons hvalue _ ih =>
        rcases htopic _ _ hvalue with ⟨hlt, hplain, hpiece⟩
        rw [List.flatMap_cons, ih.left, hpiece]
        exact ⟨rfl, List.forall_mem_cons.mpr ⟨⟨hlt, hplain⟩, ih.right⟩⟩
  have hsent : s.shared.sent d = (values.map topicLine).flatMap ended :=
    (hw.sent d).trans hall.left
  refine ⟨s.shared.sent d, values,
    receiveLoop_nulFree (nulFree_sent hw d) hresults, ?_, hvalues⟩
  rw [hsent]
  exact readScreen_topicLines hall.right

end Subscriber
end MQTTv1
