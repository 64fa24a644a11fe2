import MQTTv1.Publisher.Rounds
import MQTTv1.Subscriber.Screen

/-!
# From reports to screens

The three programs together: the rounds of a publisher, the passes of a forwarder
and the loop of a subscriber, with two connections between them.  The connection
to the broker must hand over one line at a time; the other one may cut the text
anywhere.
-/

namespace MQTTv1
namespace Publisher

open CLib
open Csapp

/-!
# A report as six values
-/

def Value.token (v : Value) : Token where
  text := v.text
  nonEmpty := v.nonEmpty
  nulFree := TopInfo.nulFree_value v
  oneWord := ⟨notMem_of_all v.numeric rfl, notMem_of_all v.numeric rfl⟩

def Count.token (c : Count) : Token where
  text := c.text
  nonEmpty := c.nonEmpty
  nulFree := TopInfo.nulFree_count c
  oneWord := ⟨notMem_of_all c.digits rfl, notMem_of_all c.digits rfl⟩

theorem AboveComma.notMem {s : CStr} (hs : AboveComma s) {b : Byte}
    (hb : ¬ 45 ≤ b) : b ∉ s := by
  intro hmem
  exact hb (hs b hmem)

def memoryToken (used available : CStr) : Token where
  text := memoryPercentage used available
  nonEmpty := memoryPercentage_ne_nil used available
  nulFree := (memoryPercentage_aboveComma used available).nulFree
  oneWord :=
    ⟨AboveComma.notMem (memoryPercentage_aboveComma used available) (by decide),
      AboveComma.notMem (memoryPercentage_aboveComma used available)
        (by decide)⟩

/-- The values at the positions that `update_send_info` picks. -/
def TopInfo.metrics (f : TopInfo) : Metrics where
  tasksGen := f.total.token
  tasksRun := f.sleeping.token
  tasksSleep := f.stopped.token
  cpuGen := f.us.token
  cpuSys := f.ni.token
  memory := memoryToken f.buffCache.text f.memTotal.text
  run_plain := notMem_of_all f.sleeping.digits rfl
  sleep_plain := notMem_of_all f.stopped.digits rfl
  memory_plain :=
    AboveComma.notMem (memoryPercentage_aboveComma _ _) (by decide)
  memory_long := Nat.le_of_succ_le (memoryPercentage_length _ _)

theorem TopInfo.metrics_line (f : TopInfo) : f.metrics.line = f.pickedLine := by
  have hsleeping : changeCommaForPeriod f.sleeping.text = f.sleeping.text :=
    changeComma_plain (notMem_of_all f.sleeping.digits rfl)
  have hstopped : changeCommaForPeriod f.stopped.text = f.stopped.text :=
    changeComma_plain (notMem_of_all f.stopped.digits rfl)
  unfold Metrics.line TopInfo.pickedLine
  congr 2
  show [_, changeCommaForPeriod f.sleeping.text,
    changeCommaForPeriod f.stopped.text, _, _, _] = _
  rw [hsleeping, hstopped]
  rfl

/-!
# What the broker gets of a publisher
-/

/-- Some rounds, and the pieces in which their bytes reach the broker. -/
structure Publishing where
  clientfd : Fd
  rounds : List Round
  start : PublisherState
  before : World
  final : PublisherState
  after : World
  chunks : List Chunk
  ran : publishRounds clientfd rounds start before = .ok (final, after)
  growing : Growing start.files.topTxt.length rounds
  plain : forall r, r ∈ rounds -> r.Plain
  /-- A message fits into the block of 100 characters. -/
  short : forall r, r ∈ rounds -> (publishedMessage r).length < 100
  /-- Nothing is lost between the two programs. -/
  carried : after.sent clientfd = before.sent clientfd ++ chunks.flatten
  /-- The broker reads one line at a time. -/
  lines : forall c, c ∈ chunks -> IsLine c

theorem linesOf_flatten {chunks : List Chunk}
    (hlines : forall c, c ∈ chunks -> IsLine c) :
    (linesOf chunks.flatten).map ended = chunks := by
  induction chunks with
  | nil => rfl
  | cons c chunks ih =>
      rcases (hlines c List.mem_cons_self).terminated with ⟨body, rfl, hbody⟩
      rw [List.flatten_cons]
      show (linesOf (ended body ++ chunks.flatten)).map ended = _
      rw [linesOf_ended chunks.flatten hbody, List.map_cons,
        ih fun other hother => hlines other (List.mem_cons_of_mem _ hother)]
      rfl

theorem isLine_publishedMessage {r : Round}
    (hshort : (publishedMessage r).length < 100) :
    IsLine (publishedMessage r) := by
  unfold publishedMessage at hshort ⊢
  rw [← TopInfo.metrics_line] at hshort ⊢
  exact isLine_line _ hshort

theorem Publishing.chunks_eq (c : Publishing) :
    c.chunks = c.rounds.map publishedMessage := by
  have hsent :=
    (publishRounds_sent (c.growing.undisturbed c.plain) c.ran).left
  have hsame : (c.rounds.map publishedMessage).flatten = c.chunks.flatten :=
    List.append_cancel_left (hsent.symm.trans c.carried)
  rw [← linesOf_flatten c.lines, ← hsame, linesOf_flatten]
  intro message hmessage
  rcases List.mem_map.mp hmessage with ⟨r, hr, rfl⟩
  exact isLine_publishedMessage (c.short r hr)

def Round.message (r : Round) (hshort : (publishedMessage r).length < 100) :
    Broker.MessageLine :=
  r.report.summary.metrics.message
    (by rw [TopInfo.metrics_line]; exact hshort)

theorem Round.message_bytes (r : Round)
    (hshort : (publishedMessage r).length < 100) :
    (r.message hshort).bytes = publishedMessage r :=
  TopInfo.metrics_line _

def Publishing.messages (c : Publishing) : List Broker.MessageLine :=
  c.rounds.attach.map fun r => r.val.message (c.short r.val r.property)

theorem Publishing.lineByLine_messages (c : Publishing) :
    Broker.lineByLine c.messages = delivered c.chunks := by
  have hchunks : c.chunks =
      c.rounds.attach.map fun r => publishedMessage r.val := by
    rw [c.chunks_eq]
    exact List.attach_map_val.symm
  unfold Broker.lineByLine Publishing.messages
  rw [List.map_map, hchunks]
  congr 1
  apply List.map_congr_left
  intro r _
  exact r.val.message_bytes (c.short r.val r.property)

theorem Publishing.sublist_messages (c : Publishing)
    {ls : List Broker.MessageLine} (hls : ls.Sublist c.messages) :
    exists served : List Round, served.Sublist c.rounds ∧
      served.length = ls.length ∧
      (ls <+: c.messages -> served <+: c.rounds) ∧
      forall topics, (ls.map (Broker.selectedTopics topics)).flatten =
        (served.map fun r => r.report.summary.metrics).flatMap
          fun m => m.selected topics := by
  have hrounds : exists rs, rs.Sublist c.rounds.attach ∧
      ls = rs.map (fun r => r.val.message (c.short r.val r.property)) ∧
      (ls <+: c.messages -> rs <+: c.rounds.attach) := by
    by_cases hfirst : ls <+: c.messages
    · rcases List.prefix_map_iff.mp hfirst with ⟨rs, hrs, hsame⟩
      exact ⟨rs, hrs.sublist, hsame, fun _ => hrs⟩
    · rcases List.sublist_map_iff.mp hls with ⟨rs, hrs, hsame⟩
      exact ⟨rs, hrs, hsame, fun h => absurd h hfirst⟩
  rcases hrounds with ⟨rs, hrs, hsame, hfirst⟩
  have hval := c.rounds.attach_map_subtype_val
  refine ⟨rs.map Subtype.val, ?_, ?_, ?_, ?_⟩
  · have hsub := hrs.map Subtype.val
    rw [hval] at hsub
    exact hsub
  · rw [hsame, List.length_map, List.length_map]
  · intro h
    have hsub := (hfirst h).map Subtype.val
    rw [hval] at hsub
    exact hsub
  · intro topics
    rw [hsame, List.map_map, List.map_map, List.flatMap_def, List.map_map]
    congr 1
    apply List.map_congr_left
    intro r _
    exact selectedTopics_message _ _ topics

end Publisher

namespace Subscriber

open CLib
open Csapp
open Broker
open Publisher

section

variable {t : Tables} {rows : List Row} {left : World -> MessageLeftover}
variable {passes : Nat} {w w' : World} {row p : Row}

/--
A subscriber whose connection is closed has displayed the metrics that its row
selects, with the values of one report of its publisher a pass, in the order of
the reports.  The only reader of a publisher has displayed its first reports.
-/
theorem reports_displayed (ht : Registered t rows)
    (publishings : Fd -> Publishing)
    (hinput : forall reader q, PublisherOf rows reader q ->
      w.input q.fd = delivered (publishings q.fd).chunks)
    (hrun : forwardMessages t left passes w = .ok w')
    (hpub : PublisherOf rows row p) (hnew : w.sent row.fd = [])
    {clientfd : Fd} {results : List ReadResult} {later : List Arrival}
    (hresults : arrivals results =
      (w'.sent row.fd).map Arrival.byte ++ .eof :: .eof :: later) :
    exists (served : List Round) (printed : List Byte),
      served.Sublist (publishings p.fd).rounds ∧ served.length = passes ∧
        ((forall other, PublisherOf rows other p -> other = row) ->
          served <+: (publishings p.fd).rounds) ∧
        receiveLoop (rioReadinitb clientfd) results = (printed, .closed) ∧
        readScreen printed =
          (served.flatMap fun r =>
            selectedValues row.topics r.report.summary.metrics).map some := by
  have hlines : forall reader q, PublisherOf rows reader q ->
      w.input q.fd = lineByLine (publishings q.fd).messages := by
    intro reader q hq
    rw [hinput reader q hq, Publishing.lineByLine_messages]
  rcases forwardMessages_services hrun with
    ⟨calls, services, hpass, hrows, hservices⟩
  have hcount := hservices.served_once ht hpass hrows hpub
  have hdelivered : Delivered rows (fun fd => (publishings fd).messages)
      services w w' := hservices.delivered ht hlines
  rcases hdelivered.own row p hpub with ⟨ls, hls, htaken, hsent, hfirst⟩
  rcases (publishings p.fd).sublist_messages hls with
    ⟨served, hserved, hlength, hfront, htexts⟩
  rw [hnew, List.nil_append, htexts] at hsent
  have hpasses : ls.length = passes := by
    rw [← hcount, ← List.length_map Service.line, htaken, List.length_map]
  have hfree : NulFree (w'.sent row.fd) := by
    have hgiven := nulFree_givenTo hservices row.fd
    rw [← List.nil_append (givenTo _ _), ← hnew,
      ← hservices.balanced.given row.fd] at hgiven
    exact hgiven
  refine ⟨served, w'.sent row.fd, hserved, hlength.trans hpasses, ?_,
    receiveLoop_nulFree hfree hresults, ?_⟩
  · intro hsole
    exact hfront (hfirst hsole)
  · rw [hsent, readScreen_selected, List.flatMap_map]

end

end Subscriber
end MQTTv1
