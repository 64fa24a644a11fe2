import MQTTv1.Broker.FanOut
import MQTTv1.Broker.LogBuffers
import MQTTv1.Broker.OnePass
import MQTTv1.CLib.Ledger
import MQTTv1.Csapp.Stream

/-!
# The services of a forwarder

What the passes of one forwarder do is a list of services: a row is served when
one line of its publisher is taken and the texts made of it are written.  The
list accounts for every descriptor and for the whole log.
-/

namespace MQTTv1
namespace Broker

open CLib
open Csapp

/-- One call of `forward_message` for a row. -/
structure Service where
  row : Nat
  publisher : CStr
  suscriber : CStr
  fdPub : Fd
  fdSus : Fd
  /-- The line read, or nothing at the end of the file. -/
  line : Option (List Byte)
  texts : List CStr

def Service.entry (sv : Service) : Entry Fd Fd (Option (List Byte)) Byte where
  source := sv.fdPub
  item := sv.line
  sink := sv.fdSus
  pieces := sv.texts.flatten

def Service.messages (sv : Service) : List CStr :=
  [forwardingMessage sv.publisher sv.suscriber,
    lineMessage sv.publisher sv.line]

def lineTexts (topic : Nat -> Int) (left : MessageLeftover) :
    Option (List Byte) -> List CStr
  | none => []
  | some bytes =>
      topicWrites topic (split (stringOf bytes) (lit ",") left.pubAvailableInfo)
        left.string

structure Service.Describes (sv : Service) (t : Tables) : Prop where
  publisher : t.clientSusList sv.row = some sv.publisher
  suscriber : t.clientNameList sv.row = some sv.suscriber
  fdPub : fdByClientName t sv.publisher = some sv.fdPub
  fdSus : fdByClientName t sv.suscriber = some sv.fdSus
  texts : exists left, sv.texts = lineTexts (t.topicList sv.row) left sv.line

/-- `Rio_readlineb` with a new buffer, which is lost behind the call. -/
def nextMessage (fd : Fd) (input : List ReadResult) :
    Option (Option (List Byte) × List ReadResult) :=
  match rioReadlineb (rioReadinitb fd) MAXLINE input with
  | (result, _, rest) => result.returned.map fun line => (line, rest)

/-- The services lead from one state of the descriptors and the log to another. -/
structure Scheduled (t : Tables) (services : List Service) (w w' : World) :
    Prop where
  describes : forall sv, sv ∈ services -> sv.Describes t
  balanced : Balanced nextMessage (services.map Service.entry) w.input w'.input
    w.sent w'.sent
  log : w'.log = w.log ++ services.flatMap Service.messages

section

variable {t : Tables} {left : World -> MessageLeftover} {w w' : World}

theorem scheduled_nil (t : Tables) (w : World) : Scheduled t [] w w where
  describes := by
    intro sv hsv
    cases hsv
  balanced := balanced_nil
  log := (List.append_nil _).symm

theorem Scheduled.append {services later : List Service} {mid : World}
    (h : Scheduled t services w mid) (h' : Scheduled t later mid w') :
    Scheduled t (services ++ later) w w' where
  describes := by
    intro sv hsv
    rcases List.mem_append.mp hsv with hsv | hsv
    · exact h.describes sv hsv
    · exact h'.describes sv hsv
  balanced := by
    rw [List.map_append]
    exact h.balanced.append h'.balanced
  log := by
    rw [h'.log, h.log, List.flatMap_append, List.append_assoc]

/-!
## One row
-/

theorem RioReadlineb_next {fd : Fd} {rp : Rio} {line : Option (List Byte)}
    (h : RioReadlineb (rioReadinitb fd) MAXLINE w = .ok (line, rp, w')) :
    exists rest, nextMessage fd (w.input fd) = some (line, rest) ∧
      w' = w.setInput fd rest := by
  unfold nextMessage
  rcases hread : rioReadlineb (rioReadinitb fd) MAXLINE (w.input fd) with
    ⟨result, rp', rest⟩
  have hown : rioReadlineb (rioReadinitb fd) MAXLINE
      (w.input (rioReadinitb fd).rioFd) = (result, rp', rest) := hread
  unfold RioReadlineb at h
  rw [hown] at h
  cases result with
  | blocked | error => cases h
  | eof | line bs =>
      cases h
      exact ⟨rest, rfl, rfl⟩

theorem relayLine_ok {fdSus : Fd} {topic : Nat -> Int} {publisher : CStr}
    {stack : MessageLeftover} {line : Option (List Byte)}
    (h : relayLine fdSus topic publisher stack line w = .ok w') :
    w'.input = w.input ∧
      w'.sent = Function.update w.sent fdSus
        (w.sent fdSus ++ (lineTexts topic stack line).flatten) ∧
      w'.log = w.log ++ [lineMessage publisher line] := by
  cases line with
  | none =>
      cases h
      refine ⟨rfl, ?_, rfl⟩
      simp [lineTexts, writeLog]
  | some bytes =>
      have hlog := writeAll_log h
      rcases writeAll_ok h with ⟨hinput, hsent⟩
      exact ⟨hinput, hsent, hlog⟩

/-- Step lemma: a row that returns is a service of it. -/
theorem forwardRow_service {i : Nat} {publisher : CStr}
    (hsus : t.clientSusList i = some publisher)
    (h : forwardRow t left i publisher w = .ok w') :
    exists sv : Service, sv.row = i ∧ Scheduled t [sv] w w' := by
  rcases bind_eq_ok.mp h with ⟨suscriber, hname, h⟩
  rcases bind_eq_ok.mp h with ⟨fdPub, hpub, h⟩
  rcases bind_eq_ok.mp h with ⟨fdSus, hown, h⟩
  rw [orUndefined_eq_ok] at hname hpub hown
  rw [forwardMessage_eq_receive] at h
  rcases bind_eq_ok.mp h with ⟨⟨line, w1⟩, hreceive, h⟩
  rcases bind_eq_ok.mp hreceive with ⟨⟨line', rp, w2⟩, hread, heq⟩
  cases heq
  rcases RioReadlineb_next hread with ⟨rest, hnext, rfl⟩
  rcases relayLine_ok h with ⟨hinput, hsent, hlog⟩
  let stack := left (writeLog (forwardingMessage publisher suscriber) w)
  let sv : Service :=
    { row := i, publisher := publisher, suscriber := suscriber, fdPub := fdPub,
      fdSus := fdSus, line := line,
      texts := lineTexts (t.topicList i) stack line }
  refine ⟨sv, rfl, ?_, ?_, ?_⟩
  · intro other hother
    rw [List.mem_singleton.mp hother]
    exact ⟨hsus, hname, hpub, hown, _, rfl⟩
  · rw [hinput, hsent]
    exact @balanced_single _ _ _ _ _ _ _ nextMessage w.input w.sent sv.entry
      rest hnext
  · rw [hlog]
    exact List.append_assoc _ _ _

/-!
## Passes
-/

theorem calls_services :
    forall {calls : List Nat} {w w' : World},
      calls.foldlM (callRow t left) w = .ok w' ->
        exists services : List Service,
          services.map Service.row = calls ∧ Scheduled t services w w' := by
  intro calls
  induction calls with
  | nil =>
      intro w w' h
      cases h
      exact ⟨[], rfl, scheduled_nil t w⟩
  | cons i calls ih =>
      intro w w' h
      rw [List.foldlM_cons] at h
      rcases bind_eq_ok.mp h with ⟨mid, hrow, h⟩
      rcases bind_eq_ok.mp hrow with ⟨publisher, hsus, hrow⟩
      rcases forwardRow_service (orUndefined_eq_ok.mp hsus) hrow with
        ⟨sv, hi, hservice⟩
      rcases ih h with ⟨services, hrows, hservices⟩
      refine ⟨sv :: services, ?_, hservice.append hservices⟩
      rw [List.map_cons, hi, hrows]

theorem callsFrom_of_ok :
    forall {slots i : Nat} {w w' : World},
      passFrom t left slots i w = .ok w' ->
        exists calls, callsFrom t slots i = some calls := by
  intro slots
  induction slots with
  | zero =>
      intro i w w' h
      cases h
  | succ slots ih =>
      intro i w w' h
      unfold passFrom rowLoop at h
      unfold callsFrom
      cases hsus : t.clientSusList i with
      | none => exact ⟨[], rfl⟩
      | some sus =>
          rw [hsus] at h
          by_cases hnone : isNone sus = true
          · simp only [if_pos hnone] at h ⊢
            exact ih h
          · simp only [if_neg hnone] at h ⊢
            rcases bind_eq_ok.mp h with ⟨mid, _, h⟩
            rcases ih h with ⟨calls, hcalls⟩
            rw [hcalls]
            exact ⟨_, rfl⟩

theorem forwardMessagesPass_services
    (h : forwardMessagesPass t left w = .ok w') :
    exists (calls : List Nat) (services : List Service), t.passCalls = some calls ∧
      services.map Service.row = calls ∧ Scheduled t services w w' := by
  rcases callsFrom_of_ok h with ⟨calls, hcalls⟩
  unfold forwardMessagesPass at h
  rw [passFrom_calls hcalls] at h
  rcases calls_services h with ⟨services, hrows, hservices⟩
  exact ⟨calls, services, hcalls, hrows, hservices⟩

theorem forwardMessages_services {passes : Nat}
    (h : forwardMessages t left passes w = .ok w') :
    exists (calls : List Nat) (services : List Service),
      (0 < passes -> t.passCalls = some calls) ∧
        services.map Service.row = (List.replicate passes calls).flatten ∧
        Scheduled t services w w' := by
  induction passes generalizing w' with
  | zero =>
      cases h
      refine ⟨[], [], ?_, rfl, scheduled_nil t w⟩
      intro hpos
      cases hpos
  | succ passes ih =>
      rcases bind_eq_ok.mp h with ⟨mid, hearlier, h⟩
      rcases ih hearlier with ⟨calls, earlier, hcalls, hrows, hearlier⟩
      rcases forwardMessagesPass_services h with
        ⟨calls', services, hpass, hrows', hservices⟩
      refine ⟨calls', earlier ++ services, fun _ => hpass, ?_,
        hearlier.append hservices⟩
      have hsame : (List.replicate passes calls).flatten =
          (List.replicate passes calls').flatten := by
        cases passes with
        | zero => rfl
        | succ passes =>
            rw [Option.some.inj ((hcalls (Nat.succ_pos passes)).symm.trans hpass)]
      rw [List.map_append, hrows, hrows', hsame, List.replicate_succ',
        List.flatten_append, List.flatten_singleton]

theorem callsFrom_sorted :
    forall {slots i : Nat} {calls : List Nat},
      callsFrom t slots i = some calls ->
        calls.Pairwise (fun a b => a < b) ∧ forall a, a ∈ calls -> i ≤ a := by
  intro slots
  induction slots with
  | zero =>
      intro i calls h
      cases h
  | succ slots ih =>
      intro i calls h
      unfold callsFrom at h
      cases hsus : t.clientSusList i with
      | none =>
          rw [hsus] at h
          cases h
          refine ⟨List.Pairwise.nil, ?_⟩
          intro a ha
          cases ha
      | some sus =>
          rw [hsus] at h
          by_cases hnone : isNone sus = true
          · simp only [if_pos hnone] at h
            rcases ih h with ⟨hsorted, hle⟩
            exact ⟨hsorted, fun a ha => Nat.le_of_succ_le (hle a ha)⟩
          · simp only [if_neg hnone] at h
            rcases Option.map_eq_some_iff.mp h with ⟨rest, hrest, rfl⟩
            rcases ih hrest with ⟨hsorted, hle⟩
            refine ⟨List.pairwise_cons.mpr ⟨hle, hsorted⟩, ?_⟩
            intro a ha
            rcases List.mem_cons.mp ha with rfl | ha
            · exact Nat.le_refl _
            · exact Nat.le_of_succ_le (hle a ha)

theorem count_replicate_flatten {calls : List Nat} (hnodup : calls.Nodup)
    (passes i : Nat) :
    (List.replicate passes calls).flatten.count i =
      if i ∈ calls then passes else 0 := by
  induction passes with
  | zero => simp
  | succ passes ih =>
      rw [List.replicate_succ, List.flatten_cons, List.count_append, ih,
        hnodup.count]
      split <;> lia

/--
A run of a forwarder that leaves no buffer is a schedule.  Every pass serves the
called rows in order, so that each of them is served once a pass; a service takes
the next line of its publisher and gives its subscriber the texts of that line;
and the log has the two messages of every service.
-/
theorem forwardMessages_scheduled {passes : Nat}
    (h : forwardMessagesInBounds t left passes w = .ok w') :
    exists (calls : List Nat) (services : List Service),
      (0 < passes -> t.passCalls = some calls ∧ forall i,
        (services.map Service.row).count i =
          if i ∈ calls then passes else 0) ∧
        services.map Service.row = (List.replicate passes calls).flatten ∧
        Scheduled t services w w' := by
  rcases forwardMessages_services (forwardMessagesInBounds_ok h) with
    ⟨calls, services, hcalls, hrows, hservices⟩
  refine ⟨calls, services, ?_, hrows, hservices⟩
  intro hpos
  have hpass := hcalls hpos
  refine ⟨hpass, ?_⟩
  intro i
  rw [hrows]
  apply count_replicate_flatten
  exact (callsFrom_sorted hpass).left.imp Nat.ne_of_lt

end

theorem forwardMessages_scheduled_two :
    exists (w : World) (services : List Service),
      forwardMessagesInBounds (Tables.ofRows twoReaders) cleanStack 1
          publishedWorld = .ok w ∧
        services.map Service.row = [1, 2] ∧
        Scheduled (Tables.ofRows twoReaders) services publishedWorld w := by
  have hrun : (forwardMessagesInBounds (Tables.ofRows twoReaders) cleanStack 1
      publishedWorld).map (fun w => w.input 4) = .ok [] := rfl
  rcases exists_of_map_ok hrun with ⟨w, hw, _⟩
  rcases forwardMessages_scheduled hw with
    ⟨calls, services, hcalls, hrows, hservices⟩
  refine ⟨w, services, hw, ?_, hservices⟩
  have hpass : (Tables.ofRows twoReaders).passCalls = some [1, 2] := rfl
  have heq := (hcalls (Nat.one_pos)).left.symm.trans hpass
  rw [hrows, Option.some.inj heq]
  rfl

end Broker
end MQTTv1
