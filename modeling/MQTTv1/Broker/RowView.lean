import MQTTv1.Broker.Rows
import MQTTv1.Broker.Threads

/-!
# What a forwarder takes from the tables

From the row it found to the last write, a forwarder works with copies.  If what
it reads at each point belongs to one row, all its copies are of that row.
-/

namespace MQTTv1
namespace Broker

open CLib
open Csapp

/-- Rows, clients and lines, as a forwarder is meant to find them. -/
structure View where
  row : Nat -> Row -> Prop
  /-- The descriptor is one of a client with the name. -/
  named : Fd -> CStr -> Prop
  /-- The descriptor is the one to read for a subscription to the name. -/
  source : Fd -> CStr -> Prop
  /-- The line with this number was read from the descriptor. -/
  line : Fd -> Nat -> List Byte -> Prop

structure View.Le (v v' : View) : Prop where
  row : forall i row, v.row i row -> v'.row i row
  named : forall fd name, v.named fd name -> v'.named fd name
  source : forall fd name, v.source fd name -> v'.source fd name
  line : forall fd k bytes, v.line fd k bytes -> v'.line fd k bytes

def View.anySource (v : View) : View := { v with source := fun _ _ => True }

theorem View.Le.anySource {v v' : View} (h : v.Le v') :
    v.anySource.Le v'.anySource :=
  ⟨h.row, h.named, fun _ _ => id, h.line⟩

/-- What thread `th` reads in its next step is what the view has. -/
structure View.Sound (v : View) (th : Thread) (s : Shared) : Prop where
  visible : forall i sus, s.tables.clientSusList i = some sus ->
    exists row, v.row i row ∧ row.sus = sus
  name : forall i row, v.row i row ->
    s.tables.clientNameList i = some row.name
  sus : forall i row, v.row i row -> s.tables.clientSusList i = some row.sus
  topic : forall i j row, th.point = .loadTopic i j -> j < TOPICS_NUMBER ->
    v.row i row -> row.Subscribed -> s.tables.topicList i j = row.topics j
  found : forall name fd, fdByClientName s.tables name = some fd ->
    v.named fd name
  source : forall name fd, fdByClientName s.tables name = some fd ->
    v.source fd name
  line : forall fd bytes rest, s.inbox fd = bytes :: rest ->
    v.line fd (s.taken fd) bytes

theorem View.Sound.anySource {v : View} {th : Thread} {s : Shared}
    (h : v.Sound th s) : v.anySource.Sound th s :=
  ⟨h.visible, h.name, h.sus, h.topic, h.found, fun _ _ _ => trivial, h.line⟩

structure Thread.Copied (th : Thread) (row : Row) (j : Nat) : Prop where
  subscribed : row.Subscribed
  publisher : th.publisher = row.sus
  suscriber : th.suscriber = some row.name
  topics : forall k, k < j -> k < TOPICS_NUMBER ->
    th.topicsNumber k = row.topics k

structure Thread.Routed (th : Thread) (v : View) (row : Row) : Prop where
  copied : th.Copied row TOPICS_NUMBER
  publisher : v.source th.fdPub row.sus
  suscriber : v.named th.fdSus row.name

structure Thread.Relays (th : Thread) (v : View) (row : Row)
    (bytes : List Byte) (left : MessageLeftover) : Prop where
  line : v.line th.fdPub th.lineNo bytes
  block : th.block = topicWrites row.topics
    (split (stringOf bytes) (lit ",") left.pubAvailableInfo) left.string
  pending : th.pending <:+ th.block

def Thread.Serves (th : Thread) (v : View) : Prop :=
  match th.point with
  | .loadPublisher i => exists row, v.row i row ∧ row.Subscribed
  | .loadSuscriber i => exists row, v.row i row ∧ row.Subscribed ∧
      th.publisher = row.sus
  | .loadTopic i j => exists row, v.row i row ∧ th.Copied row j
  | .findPublisher i => exists row, v.row i row ∧ th.Copied row TOPICS_NUMBER
  | .findSuscriber i => exists row, v.row i row ∧
      th.Copied row TOPICS_NUMBER ∧ v.source th.fdPub row.sus
  | .readLine i => exists row, v.row i row ∧ th.Routed v row
  | .write i => exists row, v.row i row ∧ th.Routed v row ∧
      exists bytes left, th.Relays v row bytes left
  | _ => True

theorem Thread.Routed.mono {th : Thread} {v v' : View} {row : Row}
    (h : th.Routed v row) (hle : v.Le v') : th.Routed v' row :=
  ⟨h.copied, hle.source _ _ h.publisher, hle.named _ _ h.suscriber⟩

theorem Thread.Serves.mono {th : Thread} {v v' : View} (h : th.Serves v)
    (hle : v.Le v') : th.Serves v' := by
  unfold Thread.Serves at h ⊢
  cases hpoint : th.point with
  | loadPublisher i | loadSuscriber i | loadTopic i j | findPublisher i =>
      rw [hpoint] at h
      rcases h with ⟨row, hrow, hcopied⟩
      exact ⟨row, hle.row _ _ hrow, hcopied⟩
  | findSuscriber i =>
      rw [hpoint] at h
      rcases h with ⟨row, hrow, hcopied, hsource⟩
      exact ⟨row, hle.row _ _ hrow, hcopied, hle.source _ _ hsource⟩
  | readLine i =>
      rw [hpoint] at h
      rcases h with ⟨row, hrow, hrouted⟩
      exact ⟨row, hle.row _ _ hrow, hrouted.mono hle⟩
  | write i =>
      rw [hpoint] at h
      rcases h with ⟨row, hrow, hrouted, bytes, left, hrelays⟩
      exact ⟨row, hle.row _ _ hrow, hrouted.mono hle, bytes, left,
        hle.line _ _ _ hrelays.line, hrelays.block, hrelays.pending⟩
  | _ => trivial

theorem Thread.Registers.serves {th th' : Thread} {s s' : Shared}
    (h : th.Registers s th' s') (v : View) : th'.Serves v := by
  cases h <;> trivial

/-- Step lemma: a forwarder stays with the row it found. -/
theorem Thread.Forwards.serves {th th' : Thread} {left : MessageLeftover}
    {s s' : Shared} {v : View} (h : th.Forwards left s th' s')
    (hv : v.Sound th s) (hserves : th.Serves v) : th'.Serves v := by
  unfold Thread.Serves at hserves
  cases h with
  | waitControl hpoint | passOver i hpoint | rowFound i sus hpoint
  | rowNone i sus hpoint | written i hpoint => trivial
  | rowSubscribed i sus hpoint hsus hnone =>
      rcases hv.visible i sus hsus with ⟨row, hrow, rfl⟩
      exact ⟨row, hrow, hnone⟩
  | loadPublisher i sus hpoint hsus =>
      rw [hpoint] at hserves
      rcases hserves with ⟨row, hrow, hsub⟩
      have hentry := hv.sus i row hrow
      rw [hsus] at hentry
      exact ⟨row, hrow, hsub, Option.some.inj hentry⟩
  | loadSuscriber i hpoint =>
      rw [hpoint] at hserves
      rcases hserves with ⟨row, hrow, hsub, hpublisher⟩
      refine ⟨row, hrow, hsub, hpublisher, hv.name i row hrow, ?_⟩
      intro k hk
      lia
  | loadTopic i j hpoint hj =>
      rw [hpoint] at hserves
      rcases hserves with ⟨row, hrow, hcopied⟩
      refine ⟨row, hrow, hcopied.subscribed, hcopied.publisher,
        hcopied.suscriber, ?_⟩
      intro k hk hk6
      show Function.update th.topicsNumber j _ k = _
      rcases Nat.lt_succ_iff_lt_or_eq.mp hk with hlt | heq
      · rw [Function.update_of_ne (Nat.ne_of_lt hlt)]
        exact hcopied.topics k hlt hk6
      · rw [heq, Function.update_self]
        exact hv.topic i j row hpoint hj hrow hcopied.subscribed
  | topicsLoaded i j hpoint hj =>
      rw [hpoint] at hserves
      rcases hserves with ⟨row, hrow, hcopied⟩
      refine ⟨row, hrow, hcopied.subscribed, hcopied.publisher,
        hcopied.suscriber, ?_⟩
      intro k hk hk6
      exact hcopied.topics k (by lia) hk6
  | findPublisher i fd hpoint hfd =>
      rw [hpoint] at hserves
      rcases hserves with ⟨row, hrow, hcopied⟩
      rw [hcopied.publisher] at hfd
      exact ⟨row, hrow, ⟨hcopied.subscribed, hcopied.publisher,
        hcopied.suscriber, hcopied.topics⟩, hv.source _ _ hfd⟩
  | findSuscriber i name fd hpoint hname hfd =>
      rw [hpoint] at hserves
      rcases hserves with ⟨row, hrow, hcopied, hpublisher⟩
      have hrowName := hcopied.suscriber
      rw [hname] at hrowName
      cases hrowName
      exact ⟨row, hrow, ⟨hcopied.subscribed, hcopied.publisher,
        hcopied.suscriber, hcopied.topics⟩, hpublisher, hv.found _ _ hfd⟩
  | readLine i line _ hpoint hline =>
      rw [hpoint] at hserves
      rcases hserves with ⟨row, hrow, hcopied, hpublisher, hsuscriber⟩
      rcases Shared.takeLine_some hline with
        ⟨bytes, rest, rfl, hinbox, _⟩ | ⟨rfl, _⟩
      · refine ⟨row, hrow, ⟨⟨hcopied.subscribed, hcopied.publisher,
          hcopied.suscriber, hcopied.topics⟩, hpublisher, hsuscriber⟩, bytes,
          left, hv.line _ _ _ hinbox, ?_, List.suffix_refl _⟩
        exact topicWrites_congr (fun k hk => hcopied.topics k hk hk) _ _
      · trivial
  | write i buf rest hpoint hpending =>
      rw [hpoint] at hserves
      rcases hserves with
        ⟨row, hrow, ⟨hcopied, hpublisher, hsuscriber⟩, bytes, left, hrelays⟩
      refine ⟨row, hrow, ⟨⟨hcopied.subscribed, hcopied.publisher,
        hcopied.suscriber, hcopied.topics⟩, hpublisher, hsuscriber⟩, bytes,
        left, hrelays.line, hrelays.block, ?_⟩
      have hsuffix := hrelays.pending
      rw [hpending] at hsuffix
      exact (List.suffix_cons buf rest).trans hsuffix

/-- The row that a forwarder found with a subscription. -/
def Point.found : Point -> Option Nat
  | .loadPublisher i => some i
  | .loadSuscriber i => some i
  | .loadTopic i _ => some i
  | .findPublisher i => some i
  | .findSuscriber i => some i
  | .readLine i => some i
  | .write i => some i
  | _ => none

/-- The row that a forwarder has copied and serves. -/
def Point.serves : Point -> Option Nat
  | .findPublisher i => some i
  | .findSuscriber i => some i
  | .readLine i => some i
  | .write i => some i
  | _ => none

theorem Thread.Serves.row {th : Thread} {v : View} {i : Nat}
    (h : th.Serves v) (hfound : th.point.found = some i) :
    exists row, v.row i row ∧ row.Subscribed ∧
      (th.point.serves = some i -> th.Copied row TOPICS_NUMBER) := by
  unfold Thread.Serves at h
  cases hpoint : th.point with
  | loadPublisher k =>
      rw [hpoint] at h hfound
      cases hfound
      rcases h with ⟨row, hrow, hsub⟩
      exact ⟨row, hrow, hsub, nofun⟩
  | loadSuscriber k =>
      rw [hpoint] at h hfound
      cases hfound
      rcases h with ⟨row, hrow, hsub, _⟩
      exact ⟨row, hrow, hsub, nofun⟩
  | loadTopic k j =>
      rw [hpoint] at h hfound
      cases hfound
      rcases h with ⟨row, hrow, hcopied⟩
      exact ⟨row, hrow, hcopied.subscribed, nofun⟩
  | findPublisher k =>
      rw [hpoint] at h hfound
      cases hfound
      rcases h with ⟨row, hrow, hcopied⟩
      exact ⟨row, hrow, hcopied.subscribed, fun _ => hcopied⟩
  | findSuscriber k =>
      rw [hpoint] at h hfound
      cases hfound
      rcases h with ⟨row, hrow, hcopied, _⟩
      exact ⟨row, hrow, hcopied.subscribed, fun _ => hcopied⟩
  | readLine k =>
      rw [hpoint] at h hfound
      cases hfound
      rcases h with ⟨row, hrow, hrouted⟩
      exact ⟨row, hrow, hrouted.copied.subscribed, fun _ => hrouted.copied⟩
  | write k =>
      rw [hpoint] at h hfound
      cases hfound
      rcases h with ⟨row, hrow, hrouted, _⟩
      exact ⟨row, hrow, hrouted.copied.subscribed, fun _ => hrouted.copied⟩
  | _ =>
      rw [hpoint] at hfound
      cases hfound

end Broker
end MQTTv1
