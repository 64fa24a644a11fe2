import MQTTv1.Broker.FanOut
import MQTTv1.Broker.Schedule

/-!
# Lines and the services they go to

When every `read` of the broker returns one line of a publisher, each line that
was read belongs to one service, and a row gets the topics of the lines of its own
services.
-/

namespace MQTTv1
namespace Broker

open CLib
open Csapp

/-!
# Texts
-/

theorem nulFree_topicWrites {topic : Nat -> Int} {info : Nat -> CStr}
    {string : List Byte} {text : CStr}
    (h : text ∈ topicWrites topic info string) : NulFree text := by
  rcases List.mem_filterMap.mp h with ⟨j, _, htext⟩
  split at htext
  · cases htext
    exact nulFree_stringOf _
  · cases htext

theorem Service.nulFree {sv : Service} {t : Tables} (h : sv.Describes t) :
    NulFree sv.texts.flatten := by
  intro b hb
  rcases List.mem_flatten.mp hb with ⟨text, htext, hb⟩
  rcases h.texts with ⟨left, htexts⟩
  rw [htexts] at htext
  cases hline : sv.line with
  | none =>
      rw [hline] at htext
      cases htext
  | some bytes =>
      rw [hline] at htext
      exact nulFree_topicWrites htext b hb

theorem nulFree_givenTo {t : Tables} {services : List Service} {w w' : World}
    (h : Scheduled t services w w') (d : Fd) :
    NulFree (givenTo (services.map Service.entry) d) := by
  intro b hb
  rcases List.mem_flatMap.mp hb with ⟨e, he, hb⟩
  rcases List.mem_map.mp (List.mem_of_mem_filter he) with ⟨sv, hsv, rfl⟩
  exact Service.nulFree (h.describes sv hsv) b hb

/-!
# Lines that arrive one by one
-/

theorem nextMessage_message (fd : Fd) (l : MessageLine)
    (rest : List MessageLine) :
    nextMessage fd (lineByLine (l :: rest)) =
      some (some l.bytes, lineByLine rest) := by
  let w : World :=
    { input := fun _ => lineByLine (l :: rest), writes := fun _ => [],
      sent := fun _ => [], log := [] }
  have hreceive : receive fd w =
      .ok (some l.bytes, w.setInput fd (lineByLine rest)) :=
    receive_message rfl
  rcases bind_eq_ok.mp hreceive with ⟨⟨line, rp, w'⟩, hread, heq⟩
  cases heq
  rcases RioReadlineb_next hread with ⟨left, hnext, hworld⟩
  have hinput := congrFun (congrArg World.input hworld) fd
  simp only [World.setInput, Function.update_self] at hinput
  rw [hinput]
  exact hnext

theorem nextMessage_nil (fd : Fd) : nextMessage fd [] = none := by
  have hblocked : rioReadlineb (rioReadinitb fd) MAXLINE [] =
      (.blocked, rioReadinitb fd, []) := by
    rw [rioReadlineb, show MAXLINE - 1 = 8190 + 1 from rfl]
    rfl
  unfold nextMessage
  rw [hblocked]
  rfl

theorem takeAll_messages (fd : Fd) :
    forall {n : Nat} {ls : List MessageLine}
      {items : List (Option (List Byte))} {rest : List ReadResult},
      takeAll (nextMessage fd) n (lineByLine ls) = some (items, rest) ->
        n ≤ ls.length ∧
          items = (ls.take n).map (fun l => some l.bytes) := by
  intro n
  induction n with
  | zero =>
      intro ls items rest h
      cases h
      exact ⟨Nat.zero_le _, rfl⟩
  | succ n ih =>
      intro ls items rest h
      rcases Option.bind_eq_some_iff.mp h with ⟨⟨i, mid⟩, hfirst, h⟩
      rcases Option.bind_eq_some_iff.mp h with ⟨⟨others, mid'⟩, hothers, h⟩
      cases h
      cases ls with
      | nil =>
          rw [show lineByLine [] = [] from rfl, nextMessage_nil] at hfirst
          cases hfirst
      | cons l ls =>
          rw [nextMessage_message] at hfirst
          cases hfirst
          rcases ih hothers with ⟨hle, rfl⟩
          exact ⟨Nat.succ_le_succ hle, rfl⟩

/-!
# Registered clients
-/

section

variable {t : Tables} {rows : List Row}

theorem Service.row_of_fd {sv : Service} {row p : Row}
    (ht : Registered t rows) (hsv : sv.Describes t)
    (hpub : PublisherOf rows row p) (hfd : sv.fdSus = row.fd) :
    rows[sv.row]? = some row ∧ sv.fdPub = p.fd := by
  have hname := hsv.suscriber
  rw [ht.represents.name sv.row] at hname
  rcases Option.map_eq_some_iff.mp hname with ⟨other, hother, hsame⟩
  have hmem : other ∈ rows := List.mem_of_getElem? hother
  have hown := hsv.fdSus
  rw [← hsame] at hown
  have hrow : other = row := by
    apply ht.eq_of_fd hpub.row_mem hmem
    rw [← fdByClientName_registered ht hmem hown, hfd]
  subst hrow
  have hsus := hsv.publisher
  rw [ht.represents.sus sv.row, hother] at hsus
  have hpubName : p.name = sv.publisher :=
    hpub.name.trans (Option.some.inj hsus)
  have hfound := hsv.fdPub
  rw [← hpubName] at hfound
  exact ⟨hother, fdByClientName_registered ht hpub.mem hfound⟩

theorem Service.fd_of_row {sv : Service} {row : Row} (ht : Registered t rows)
    (hsv : sv.Describes t) (hrow : rows[sv.row]? = some row) :
    sv.fdSus = row.fd := by
  have hname := hsv.suscriber
  rw [ht.represents.name sv.row, hrow] at hname
  have hown := hsv.fdSus
  rw [← Option.some.inj hname] at hown
  exact fdByClientName_registered ht (List.mem_of_getElem? hrow) hown

theorem Service.fd_of_publisher {sv : Service} {row p : Row}
    (ht : Registered t rows) (hsv : sv.Describes t)
    (hpub : PublisherOf rows row p)
    (hsole : forall other, PublisherOf rows other p -> other = row)
    (hfd : sv.fdPub = p.fd) : sv.fdSus = row.fd := by
  rcases fdByClientName_some ht.represents hsv.fdPub with
    ⟨i, q, hfirst, hqfd⟩
  have hq : q = p :=
    ht.eq_of_fd hpub.mem (List.mem_of_getElem? hfirst.left) (hqfd.trans hfd)
  have hname : p.name = sv.publisher := hq ▸ hfirst.right.left
  have hsus := hsv.publisher
  rw [ht.represents.sus sv.row] at hsus
  rcases Option.map_eq_some_iff.mp hsus with ⟨other, hother, hsame⟩
  have hreader : PublisherOf rows other p := by
    refine ⟨List.mem_of_getElem? hother, ?_, hpub.mem, hname.trans hsame.symm⟩
    rw [Row.Subscribed, hsame, ← hname, hpub.name]
    exact hpub.subscribed
  rw [hsole other hreader] at hother
  exact Service.fd_of_row ht hsv hother

theorem Service.texts_message {sv : Service} {row p : Row} {l : MessageLine}
    (ht : Registered t rows) (hsv : sv.Describes t)
    (hpub : PublisherOf rows row p) (hfd : sv.fdSus = row.fd)
    (hline : sv.line = some l.bytes) :
    sv.texts.flatten = selectedTopics row.topics l := by
  rcases hsv.texts with ⟨left, htexts⟩
  rw [htexts, hline]
  exact topicWrites_flatten l _ _ fun j hj =>
    ht.represents.topics _ row (Service.row_of_fd ht hsv hpub hfd).left
      hpub.subscribed j hj

theorem flatMap_texts {topics : Nat -> Int} :
    forall {services : List Service} {ls : List MessageLine},
      (forall sv, sv ∈ services -> forall l : MessageLine,
        sv.line = some l.bytes ->
          sv.texts.flatten = selectedTopics topics l) ->
      services.map Service.line = ls.map (fun l => some l.bytes) ->
        services.flatMap (fun sv => sv.texts.flatten) =
          (ls.map (selectedTopics topics)).flatten := by
  intro services
  induction services with
  | nil =>
      intro ls _ hlines
      rw [List.map_nil, eq_comm, List.map_eq_nil_iff] at hlines
      rw [hlines]
      rfl
  | cons sv services ih =>
      intro ls htexts hlines
      cases ls with
      | nil => cases hlines
      | cons l ls =>
          rcases List.cons.inj hlines with ⟨hline, hlines⟩
          rw [List.flatMap_cons, htexts sv List.mem_cons_self l hline,
            ih (fun other hother => htexts other
              (List.mem_cons_of_mem sv hother)) hlines]
          rfl

theorem bytes_injective :
    Function.Injective fun l : MessageLine => some l.bytes := by
  rintro ⟨bytes, line, fields⟩ ⟨bytes', line', fields'⟩ h
  cases h
  rfl

structure Delivered (rows : List Row) (lines : Fd -> List MessageLine)
    (services : List Service) (w w' : World) : Prop where
  /-- The lines read are the first ones, each for one service. -/
  once : forall row p, PublisherOf rows row p ->
    exists n, n ≤ (lines p.fd).length ∧
      takenFrom (services.map Service.entry) p.fd =
        ((lines p.fd).take n).map fun l => some l.bytes
  /--
  A row has got the topics of the lines that its own services took.  The only
  reader of a publisher has taken the first ones.
  -/
  own : forall row p, PublisherOf rows row p ->
    exists ls : List MessageLine, ls.Sublist (lines p.fd) ∧
      (services.filter fun sv => sv.fdSus = row.fd).map Service.line =
        ls.map (fun l => some l.bytes) ∧
      w'.sent row.fd =
        w.sent row.fd ++ (ls.map (selectedTopics row.topics)).flatten ∧
      ((forall other, PublisherOf rows other p -> other = row) ->
        ls <+: lines p.fd)

variable {services : List Service} {lines : Fd -> List MessageLine}
variable {w w' : World}

theorem takenFrom_entries (services : List Service) (p : Fd) :
    takenFrom (services.map Service.entry) p =
      (services.filter fun sv => sv.fdPub = p).map Service.line := by
  unfold takenFrom
  rw [List.filter_map, List.map_map]
  rfl

theorem givenTo_entries (services : List Service) (d : Fd) :
    givenTo (services.map Service.entry) d =
      (services.filter fun sv => sv.fdSus = d).flatMap
        fun sv => sv.texts.flatten := by
  unfold givenTo
  rw [List.filter_map, List.flatMap_map]
  rfl

theorem Scheduled.delivered (ht : Registered t rows)
    (hlines : forall row p, PublisherOf rows row p ->
      w.input p.fd = lineByLine (lines p.fd))
    (h : Scheduled t services w w') :
    Delivered rows lines services w w' := by
  have honce : forall row p, PublisherOf rows row p ->
      exists n, n ≤ (lines p.fd).length ∧
        takenFrom (services.map Service.entry) p.fd =
          ((lines p.fd).take n).map fun l => some l.bytes := by
    intro row p hpub
    have htaken := h.balanced.taken p.fd
    rw [hlines row p hpub] at htaken
    exact ⟨_, takeAll_messages p.fd htaken⟩
  have hall : forall row p, PublisherOf rows row p ->
      (forall other, PublisherOf rows other p -> other = row) ->
        (services.filter fun sv => sv.fdSus = row.fd).map Service.line =
          takenFrom (services.map Service.entry) p.fd := by
    intro row p hpub hsole
    rw [takenFrom_entries]
    congr 1
    apply List.filter_congr
    intro sv hsv
    have hdescribes := h.describes sv hsv
    apply decide_eq_decide.mpr
    constructor
    · intro hfd
      exact (Service.row_of_fd ht hdescribes hpub hfd).right
    · intro hfd
      exact Service.fd_of_publisher ht hdescribes hpub hsole hfd
  refine ⟨honce, ?_⟩
  intro row p hpub
  rcases honce row p hpub with ⟨n, _, htaken⟩
  -- a service for the row reads from its publisher
  have hsub : (services.filter fun sv => sv.fdSus = row.fd).Sublist
      (services.filter fun sv => sv.fdPub = p.fd) := by
    have hboth : (services.filter fun sv => sv.fdSus = row.fd) =
        (services.filter fun sv => sv.fdPub = p.fd).filter
          fun sv => sv.fdSus = row.fd := by
      rw [List.filter_filter]
      apply List.filter_congr
      intro sv hsv
      by_cases hfd : sv.fdSus = row.fd
      · simp [hfd, (Service.row_of_fd ht (h.describes sv hsv) hpub hfd).right]
      · simp [hfd]
    rw [hboth]
    exact List.filter_sublist
  have hmap := hsub.map Service.line
  rw [← takenFrom_entries services p.fd, htaken] at hmap
  rcases List.sublist_map_iff.mp hmap with ⟨ls, hls, hlinesOf⟩
  refine ⟨ls, hls.trans (List.take_sublist _ _), hlinesOf, ?_, ?_⟩
  · rw [h.balanced.given row.fd, givenTo_entries]
    congr 1
    apply flatMap_texts _ hlinesOf
    intro sv hsv l hline
    rcases List.mem_filter.mp hsv with ⟨hmem, hfd⟩
    exact Service.texts_message ht (h.describes sv hmem) hpub
      (of_decide_eq_true hfd) hline
  · intro hsole
    have hboth := (hlinesOf.symm.trans (hall row p hpub hsole)).trans htaken
    rw [List.map_injective_iff.mpr bytes_injective hboth]
    exact List.take_prefix n _

theorem mem_callsFrom {n : Nat} {row : Row} (ht : Represents t rows)
    (hrow : rows[n]? = some row) (hsub : row.Subscribed) :
    forall {slots i : Nat} {calls : List Nat},
      callsFrom t slots i = some calls -> i ≤ n -> n ∈ calls := by
  intro slots
  induction slots with
  | zero =>
      intro i calls h _
      cases h
  | succ slots ih =>
      intro i calls h hin
      have hlt : i < rows.length := by
        have hn := (List.getElem?_eq_some_iff.mp hrow).choose
        lia
      have hserved := List.getElem?_eq_getElem hlt
      unfold callsFrom at h
      rw [ht.sus i, hserved] at h
      simp only [Option.map_some] at h
      by_cases hnone : isNone rows[i].sus = true
      · have hne : i ≠ n := by
          rintro rfl
          rw [hserved] at hrow
          cases hrow
          rw [Row.Subscribed, hnone] at hsub
          cases hsub
        rw [if_pos hnone] at h
        exact ih h (by lia)
      · rw [if_neg hnone] at h
        rcases Option.map_eq_some_iff.mp h with ⟨rest, hrest, rfl⟩
        by_cases heq : i = n
        · exact heq ▸ List.mem_cons_self
        · exact List.mem_cons_of_mem i (ih hrest (by lia))

/-- A subscribed row is served once a pass. -/
theorem Scheduled.served_once {row p : Row} {passes : Nat} {calls : List Nat}
    (ht : Registered t rows) (h : Scheduled t services w w')
    (hpass : 0 < passes -> t.passCalls = some calls)
    (hrows : services.map Service.row = (List.replicate passes calls).flatten)
    (hpub : PublisherOf rows row p) :
    (services.filter fun sv => sv.fdSus = row.fd).length = passes := by
  rcases List.getElem?_of_mem hpub.row_mem with ⟨i, hi⟩
  have hindex : forall sv, sv ∈ services ->
      (sv.fdSus = row.fd <-> sv.row = i) := by
    intro sv hsv
    constructor
    · intro hfd
      have hother := (Service.row_of_fd ht (h.describes sv hsv) hpub hfd).left
      have hlt := (List.getElem?_eq_some_iff.mp hother).choose
      exact (List.getElem?_inj hlt ht.names.of_map).mp (hother.trans hi.symm)
    · rintro rfl
      exact Service.fd_of_row ht (h.describes sv hsv) hi
  have hcount : (services.filter fun sv => sv.fdSus = row.fd).length =
      (services.map Service.row).count i := by
    rw [← List.countP_eq_length_filter, List.count, List.countP_map]
    apply List.countP_congr
    intro sv hsv
    simpa using hindex sv hsv
  rw [hcount, hrows]
  cases passes with
  | zero => rfl
  | succ passes =>
      have hcalls := hpass (Nat.succ_pos passes)
      have hmem : i ∈ calls :=
        mem_callsFrom ht.represents hi hpub.subscribed hcalls (Nat.zero_le i)
      rw [count_replicate_flatten
        ((callsFrom_sorted hcalls).left.imp Nat.ne_of_lt), if_pos hmem]

/--
A single forwarder that leaves no buffer loses, duplicates and reorders no line:
every line read from a publisher goes to one service, a subscriber is served once
a pass, and the texts it gets are those of a part of the lines, in the order of
publication.
-/
theorem forwardMessages_delivered {left : World -> MessageLeftover}
    {passes : Nat} (ht : Registered t rows)
    (hlines : forall row p, PublisherOf rows row p ->
      w.input p.fd = lineByLine (lines p.fd))
    (h : forwardMessagesInBounds t left passes w = .ok w') :
    exists services : List Service,
      Scheduled t services w w' ∧ Delivered rows lines services w w' ∧
        forall row p, PublisherOf rows row p ->
          (services.filter fun sv => sv.fdSus = row.fd).length = passes := by
  rcases forwardMessages_services (forwardMessagesInBounds_ok h) with
    ⟨calls, services, hpass, hrows, hservices⟩
  refine ⟨services, hservices, hservices.delivered ht hlines, ?_⟩
  intro row p hpub
  exact hservices.served_once ht hpass hrows hpub

end

theorem forwardMessages_delivered_two :
    exists (w : World) (services : List Service),
      forwardMessagesInBounds (Tables.ofRows twoReaders) cleanStack 1
          publishedWorld = .ok w ∧
        Delivered twoReaders node1Lines services publishedWorld w := by
  have hrun : (forwardMessagesInBounds (Tables.ofRows twoReaders) cleanStack 1
      publishedWorld).map (fun w => w.input 4) = .ok [] := rfl
  rcases exists_of_map_ok hrun with ⟨w, hw, _⟩
  have hregistered : Registered (Tables.ofRows twoReaders) twoReaders :=
    registered_readersOfNode1 (by decide) (by decide)
  rcases forwardMessages_delivered hregistered (fun _ _ _ => rfl) hw with
    ⟨services, _, hdelivered, _⟩
  exact ⟨w, services, hw, hdelivered⟩

end Broker
end MQTTv1
