import MQTTv1.Broker.RowView
import MQTTv1.Broker.Stray

/-!
# Forwarders and unfinished rows

A forwarder takes a row as present as soon as `client_sus_list` has an entry for
it, but a registration stores that entry before the six topics.  The names and
descriptors are in time; the topics are, unless a forwarder copies one that the
registration of the row has still to store.
-/

namespace MQTTv1
namespace Broker

open CLib
open Csapp

/-!
# The client of a row
-/

theorem OwnerOf.step {s s' : System} {e : Event} {n i : Nat} {row : Row}
    (hn : 4 ≤ n) (howner : OwnerOf s.threads n i row)
    (hstep : s.step e = some s') : OwnerOf s'.threads n i row := by
  cases e with
  | accept connfd left =>
      change (if _ then none else some _) = some s' at hstep
      split at hstep
      · cases hstep
      · cases hstep
        exact howner.append _
  | arrive fd line =>
      cases hstep
      exact howner
  | hangUp fd =>
      cases hstep
      exact howner
  | run t left =>
      rcases System.step_run hstep with ⟨th, th', hth, hrun, hthreads⟩
      rw [hthreads]
      rcases Thread.step_moves hrun with hmove | hmove
      · exact howner.registers hth hmove hn
      · exact howner.keeps hth hmove.keeps.left hn

theorem OwnerOf.stepStray {s s' : System} {e : StrayEvent} {n i : Nat}
    {row : Row} (hn : 4 ≤ n) (howner : OwnerOf s.threads n i row)
    (hstep : s.stepStray e = some s') : OwnerOf s'.threads n i row := by
  cases e with
  | event e => exact howner.step hn hstep
  | stray t found =>
      rcases System.stepStray_run hstep with
        ⟨th, th', hth, _, hthreads, hwanders⟩
      rw [hthreads]
      exact howner.keeps hth hwanders.keeps hn

/-- A search that finds a descriptor finds the one of a client of that name. -/
theorem OwnerOf.found {s : System} {name : CStr} {fd : Fd}
    (hs : Registering s)
    (hfd : fdByClientName s.shared.tables name = some fd) :
    exists i row, OwnerOf s.threads 5 i row ∧ row.name = name ∧
      row.fd = fd := by
  unfold fdByClientName at hfd
  cases hfind : findIndexByClientName s.shared.tables name with
  | notFound | overrun =>
      rw [hfind] at hfd
      cases hfd
  | found i =>
      rw [hfind] at hfd
      cases hfd
      rcases findFrom_found hfind with ⟨_, hname, _⟩
      rcases hs.named i name hname with ⟨row, u, owner, hu, rfl, hstage, rfl⟩
      have hstored := hs.stored u owner hu
      refine ⟨owner.row, owner.registration,
        ⟨u, owner, hu, rfl, hstage, rfl⟩, ?_, (hstored.fd (by lia)).symm⟩
      have hentry := hstored.name hstage
      rw [hname] at hentry
      exact (Option.some.inj hentry).symm

theorem OwnerOf.searched {s : System} {i : Nat} {row : Row}
    (hreach : Reachable System.stepStray System.initial s)
    (howner : OwnerOf s.threads 6 i row) :
    exists fd, fdByClientName s.shared.tables row.name = some fd := by
  have hs := registering_stray hreach
  have hname := (howner.tables hs (by lia)).left
  rcases howner with ⟨u, owner, hu, rfl, hstage, rfl⟩
  have hplaced := hs.placed u owner hu
  have hle : owner.row ≤ s.shared.tables.fdIdx := by
    rcases Nat.lt_or_ge owner.stage 14 with hearly | hlate
    · exact Nat.le_of_eq (hplaced.next (by lia) (by lia))
    · exact Nat.le_of_lt (hplaced.below hlate)
  apply fdByClientName_of_entry (rows_inside hreach u owner hu (by lia)) hname
  intro k hk
  rcases hs.passed k (by lia) with ⟨_, v, other, hv, rfl, hlate, _⟩
  rw [(hs.stored v other hv).name (by lia)]
  exact Option.some_ne_none _

theorem connfds_step {s s' : System} {e : Event}
    (hs : (s.threads.map Thread.connfd).Nodup) (hstep : s.step e = some s') :
    (s'.threads.map Thread.connfd).Nodup := by
  cases e with
  | accept connfd left =>
      change (if _ then none else some _) = some s' at hstep
      split at hstep
      · cases hstep
      · cases hstep
        rw [List.map_append]
        apply hs.append (List.nodup_singleton _)
        intro fd hfd hnew
        cases List.mem_singleton.mp hnew
        contradiction
  | arrive fd line =>
      cases hstep
      exact hs
  | hangUp fd =>
      cases hstep
      exact hs
  | run t left =>
      rcases System.step_run hstep with ⟨th, th', hth, hrun, hthreads⟩
      have hconnfd : th'.connfd = th.connfd := by
        rcases Thread.step_moves hrun with hmove | hmove
        · exact hmove.connfd_eq
        · exact hmove.keeps.left.connfd
      rw [hthreads, map_set_same hth hconnfd]
      exact hs

theorem connfds_nodup {s : System}
    (hreach : Reachable System.stepStray System.initial s) :
    (s.threads.map Thread.connfd).Nodup := by
  apply hreach.invariant List.nodup_nil
  intro s e s' hs hstep
  cases e with
  | event e => exact connfds_step hs hstep
  | stray t found =>
      rcases System.stepStray_run hstep with
        ⟨th, th', hth, _, hthreads, hwanders⟩
      rw [hthreads, map_set_same hth hwanders.keeps.connfd]
      exact hs

theorem connfd_inj {threads : List Thread} {u v : Nat} {owner other : Thread}
    (hfds : (threads.map Thread.connfd).Nodup) (hu : threads[u]? = some owner)
    (hv : threads[v]? = some other) (hfd : owner.connfd = other.connfd) :
    u = v := by
  have hmap : (threads.map Thread.connfd)[u]? =
      (threads.map Thread.connfd)[v]? := by
    rw [List.getElem?_map, List.getElem?_map, hu, hv]
    exact congrArg some hfd
  have hlt : u < (threads.map Thread.connfd).length := by
    rw [List.length_map]
    exact (List.getElem?_eq_some_iff.mp hu).choose
  exact (List.getElem?_inj hlt hfds).mp hmap

theorem OwnerOf.fd_inj {s : System} {n m i k : Nat} {row other : Row}
    (hfds : (s.threads.map Thread.connfd).Nodup)
    (hrow : OwnerOf s.threads n i row) (hother : OwnerOf s.threads m k other)
    (hfd : row.fd = other.fd) : i = k ∧ row = other := by
  rcases hrow with ⟨u, owner, hu, rfl, _, rfl⟩
  rcases hother with ⟨v, owner', hv, rfl, _, rfl⟩
  have huv : u = v := connfd_inj hfds hu hv hfd
  rw [huv, hv] at hu
  cases hu
  exact ⟨rfl, rfl⟩

/-!
# Unfinished rows
-/

/-- The thread has still to store entry `j` of row `i`. -/
def Thread.storing (th : Thread) (i j : Nat) : Bool :=
  match th.point with
  | .storeTopic k => th.row = i && k ≤ j
  | _ => false

/--
A forwarder copies no topic of a row whose registration has still to store it,
unless the entry holds the value already.
-/
def System.copiesFinal (s : System) : Event -> Bool
  | .run t _ =>
      match (s.threads[t]?).map Thread.point with
      | some (.loadTopic i j) =>
          TOPICS_NUMBER ≤ j ||
            s.threads.all fun owner =>
              !owner.storing i j ||
                s.shared.tables.topicList i j = owner.subscribedInfo j
      | _ => true
  | _ => true

/-- A lookup that fails goes on with whatever descriptor it finds. -/
def System.servesFinal (s : System) : StrayEvent -> Bool
  | .event e => s.copiesFinal e
  | .stray t _ => (s.threads[t]?).any fun th => th.point.looksUp

theorem System.copiesFinal_loadTopic {s : System} {t i j : Nat}
    {th owner : Thread} {left : MessageLeftover} (hth : s.threads[t]? = some th)
    (hpoint : th.point = .loadTopic i j) (hj : j < TOPICS_NUMBER)
    (hfinal : s.copiesFinal (.run t left) = true) (hmem : owner ∈ s.threads)
    (hstoring : owner.storing i j = true) :
    s.shared.tables.topicList i j = owner.subscribedInfo j := by
  simp only [System.copiesFinal, hth, Option.map_some, hpoint,
    Bool.or_eq_true, decide_eq_true_eq, List.all_eq_true] at hfinal
  rcases hfinal with hge | hall
  · lia
  · have hentry := hall owner hmem
    rw [hstoring] at hentry
    simpa using hentry

theorem Thread.storing_of_stage {th : Thread} {j : Nat} (hlow : 6 ≤ th.stage)
    (hhigh : th.stage ≤ 6 + j) (hj : j < TOPICS_NUMBER) :
    th.storing th.row j = true := by
  unfold TOPICS_NUMBER at hj
  unfold Thread.stage at hlow hhigh
  unfold Thread.storing
  cases hpoint : th.point with
  | storeTopic k =>
      rw [hpoint] at hhigh
      simp only [Point.stage] at hhigh
      simp only [decide_true, Bool.true_and, decide_eq_true_eq]
      lia
  | _ =>
      rw [hpoint] at hlow hhigh
      simp only [Point.stage] at hlow hhigh
      lia

theorem OwnerOf.topic {s : System} {i j : Nat} {row : Row}
    (hs : Registering s) (howner : OwnerOf s.threads 6 i row)
    (hsub : row.Subscribed) (hj : j < TOPICS_NUMBER)
    (hfinal : forall owner, owner ∈ s.threads -> owner.storing i j = true ->
      s.shared.tables.topicList i j = owner.subscribedInfo j) :
    s.shared.tables.topicList i j = row.topics j := by
  rcases howner with ⟨u, owner, hu, rfl, hstage, rfl⟩
  have hstored := hs.stored u owner hu
  have hnone := isNone_of_subscribed hsub
  have hmask := hstored.mask hstage hnone
  have htopics : (owner.registration).topics j = owner.subscribedInfo j := by
    rw [hmask]
    rfl
  rw [htopics]
  rcases Nat.lt_or_ge (6 + j) owner.stage with hlate | hearly
  · exact hstored.topics j hlate hj hnone
  · exact hfinal owner (List.mem_of_getElem? hu)
      (Thread.storing_of_stage hstage hearly hj)

/-!
# Forwarders copy complete rows
-/

def NamedAt (threads : List Thread) (fd : Fd) (name : CStr) : Prop :=
  exists i row, OwnerOf threads 5 i row ∧ row.name = name ∧ row.fd = fd

def ownersView (threads : List Thread) : View where
  row := OwnerOf threads 6
  named := NamedAt threads
  source := NamedAt threads
  line := fun _ _ _ => True

theorem ownersView_stray {s s' : System} {e : StrayEvent}
    (hstep : s.stepStray e = some s') :
    (ownersView s.threads).Le (ownersView s'.threads) := by
  have hnamed : forall fd name, NamedAt s.threads fd name ->
      NamedAt s'.threads fd name := by
    intro fd name hnamed
    rcases hnamed with ⟨i, row, howner, hname⟩
    exact ⟨i, row, howner.stepStray (by lia) hstep, hname⟩
  constructor
  · intro i row howner
    exact howner.stepStray (by lia) hstep
  · exact hnamed
  · exact hnamed
  · intro fd k bytes hline
    exact hline

theorem ownersView_step {s s' : System} {e : Event}
    (hstep : s.step e = some s') :
    (ownersView s.threads).Le (ownersView s'.threads) :=
  ownersView_stray (e := .event e) hstep

theorem ownersView_sound {s : System} {t : Nat} {th : Thread}
    {left : MessageLeftover} (hs : Registering s)
    (hth : s.threads[t]? = some th)
    (hfinal : s.copiesFinal (.run t left) = true) :
    (ownersView s.threads).Sound th s.shared := by
  constructor
  · intro i sus hsus
    rcases hs.owned i sus hsus with ⟨row, howner⟩
    refine ⟨row, howner, ?_⟩
    have hentry := (howner.tables hs (by lia)).right.right
    rw [hsus] at hentry
    exact (Option.some.inj hentry).symm
  · intro i row howner
    exact (howner.tables hs (by lia)).left
  · intro i row howner
    exact (howner.tables hs (by lia)).right.right
  · intro i j row hpoint hj howner hsub
    apply howner.topic hs hsub hj
    intro owner hmem hstoring
    exact System.copiesFinal_loadTopic hth hpoint hj hfinal hmem hstoring
  · intro name fd hfd
    exact OwnerOf.found hs hfd
  · intro name fd hfd
    exact OwnerOf.found hs hfd
  · intro fd bytes rest _
    trivial

/-!
# What is sent
-/

def Row.Asks (row : Row) (text : CStr) : Prop :=
  row.Subscribed ∧ exists info string, text ∈ topicWrites row.topics info string

/-- All that was sent are texts that a client with the receiver's name asks for. -/
def SentAsked (s : System) : Prop :=
  forall fd, exists texts : List CStr, s.shared.sent fd = texts.flatten ∧
    forall text, text ∈ texts -> exists i row, OwnerOf s.threads 6 i row ∧
      NamedAt s.threads fd row.name ∧ row.Asks text

theorem SentAsked.mono {s s' : System} (h : SentAsked s)
    (hsent : s'.shared.sent = s.shared.sent)
    (hle : (ownersView s.threads).Le (ownersView s'.threads)) :
    SentAsked s' := by
  intro fd
  rcases h fd with ⟨texts, htexts, hall⟩
  refine ⟨texts, by rw [hsent, htexts], ?_⟩
  intro text htext
  rcases hall text htext with ⟨i, row, howner, hnamed, hasks⟩
  exact ⟨i, row, hle.row i row howner, hle.named fd row.name hnamed, hasks⟩

theorem takeLine_sent {s s' : Shared} {fd : Fd} {line : Option (List Byte)}
    (h : s.takeLine fd = some (line, s')) : s'.sent = s.sent := by
  rcases Shared.takeLine_some h with ⟨_, _, _, _, rfl⟩ | ⟨_, rfl⟩
  · rfl
  · rfl

theorem Thread.Registers.sent {th th' : Thread} {s s' : Shared}
    (h : th.Registers s th' s') : s'.sent = s.sent := by
  cases h with
  | readName hpoint line _ hline | readSus hpoint line _ hline =>
      exact takeLine_sent hline
  | postControl hpoint =>
      split
      · rfl
      · rfl
  | _ => rfl

theorem Thread.Forwards.sent {th th' : Thread} {left : MessageLeftover}
    {s s' : Shared} (h : th.Forwards left s th' s') :
    s'.sent = s.sent ∨
      exists i buf rest, th.point = .write i ∧ th.pending = buf :: rest ∧
        s'.sent = (s.writeTo th.fdSus buf).sent := by
  cases h with
  | readLine i line _ hpoint hline => exact Or.inl (takeLine_sent hline)
  | write i buf rest hpoint hpending =>
      exact Or.inr ⟨i, buf, rest, hpoint, hpending, rfl⟩
  | _ => exact Or.inl rfl

theorem SentAsked.write {s : System} {th : Thread} {i : Nat} {buf : CStr}
    {rest : List CStr} (h : SentAsked s)
    (hserves : th.Serves (ownersView s.threads).anySource)
    (hpoint : th.point = .write i) (hpending : th.pending = buf :: rest) :
    SentAsked { s with shared := s.shared.writeTo th.fdSus buf } := by
  unfold Thread.Serves at hserves
  rw [hpoint] at hserves
  rcases hserves with ⟨row, howner, hrouted, bytes, left, hrelays⟩
  have hasks : row.Asks buf := by
    have hmem : buf ∈ th.block := by
      apply hrelays.pending.subset
      rw [hpending]
      exact List.mem_cons_self
    rw [hrelays.block] at hmem
    exact ⟨hrouted.copied.subscribed, _, _, hmem⟩
  intro fd
  rcases h fd with ⟨texts, htexts, hall⟩
  by_cases hfd : fd = th.fdSus
  · refine ⟨texts ++ [buf], ?_, ?_⟩
    · show Function.update s.shared.sent th.fdSus _ fd = _
      rw [hfd, Function.update_self, ← hfd, htexts]
      simp
    · intro text htext
      rcases List.mem_append.mp htext with hold | hnew
      · exact hall text hold
      · cases List.mem_singleton.mp hnew
        rw [hfd]
        exact ⟨i, row, howner, hrouted.suscriber, hasks⟩
  · refine ⟨texts, ?_, hall⟩
    show Function.update s.shared.sent th.fdSus _ fd = _
    rw [Function.update_of_ne hfd, htexts]

/-- What every run keeps in which forwarders copy final entries only. -/
structure Completing (s : System) : Prop where
  reached : Reachable System.stepStray System.initial s
  serves : forall (t : Nat) th, s.threads[t]? = some th ->
    th.Serves (ownersView s.threads).anySource
  sent : SentAsked s

theorem Completing.stray {s s' : System} {t : Nat} {found : Stray}
    (hs : Completing s) (hlooks : s.servesFinal (.stray t found) = true)
    (hstep : s.stepStray (.stray t found) = some s') : Completing s' := by
  have hle := (ownersView_stray hstep).anySource
  rcases System.stepStray_run hstep with ⟨_, _, _, hshared, _, _⟩
  rcases System.stepStray_thread hstep with ⟨th, th', hth, hstray, hthreads⟩
  have hserves := hs.serves t th hth
  simp only [System.servesFinal, hth, Option.any_some] at hlooks
  refine ⟨hs.reached.tail hstep, ?_, hs.sent.mono (by rw [hshared])
    (ownersView_stray hstep)⟩
  intro u other hother
  rw [hthreads] at hother
  rcases getElem?_set_cases hth hother with ⟨_, rfl⟩ | ⟨_, hold⟩
  · apply Thread.Serves.mono _ hle
    apply Thread.stepStray_serves hstray hlooks _ (fun _ _ => trivial) hserves
    intro i row hrow
    rcases OwnerOf.searched hs.reached hrow with ⟨fd, hfd⟩
    rw [hfd]
    exact Option.some_ne_none _
  · exact (hs.serves u other hold).mono hle

theorem Completing.step {s s' : System} {e : Event} (hs : Completing s)
    (hfinal : s.copiesFinal e = true) (hstep : s.step e = some s') :
    Completing s' := by
  have hstray : s.stepStray (.event e) = some s' := hstep
  have hle := ownersView_step hstep
  have hregistering := registering_stray hs.reached
  refine ⟨hs.reached.tail hstray, ?_, ?_⟩
  · intro u other hother
    cases e with
    | accept connfd left =>
        change (if _ then none else some _) = some s' at hstep
        split at hstep
        · cases hstep
        · cases hstep
          rcases getElem?_append_cases hother with ⟨_, rfl⟩ | hold
          · trivial
          · exact (hs.serves u other hold).mono hle.anySource
    | arrive fd line | hangUp fd =>
        cases hstep
        exact (hs.serves u other hother).mono hle.anySource
    | run t left =>
        rcases System.step_run hstep with ⟨th, th', hth, hrun, hthreads⟩
        rw [hthreads] at hother
        rcases getElem?_set_cases hth hother with ⟨_, rfl⟩ | ⟨_, hold⟩
        · rcases Thread.step_moves hrun with hmove | hmove
          · exact hmove.serves _
          · have hsound := (ownersView_sound hregistering hth hfinal).anySource
            exact (hmove.serves hsound (hs.serves t th hth)).mono hle.anySource
        · exact (hs.serves u other hold).mono hle.anySource
  · cases e with
    | accept connfd left =>
        change (if _ then none else some _) = some s' at hstep
        split at hstep
        · cases hstep
        · cases hstep
          exact hs.sent.mono rfl hle
    | arrive fd line | hangUp fd =>
        cases hstep
        exact hs.sent.mono rfl hle
    | run t left =>
        rcases System.step_run hstep with ⟨th, th', hth, hrun, _⟩
        rcases Thread.step_moves hrun with hmove | hmove
        · exact hs.sent.mono hmove.sent hle
        · rcases hmove.sent with hsame | ⟨i, buf, rest, hpoint, hpending, hsent⟩
          · exact hs.sent.mono hsame hle
          · have hwritten := hs.sent.write (hs.serves t th hth) hpoint hpending
            exact hwritten.mono hsent hle

/--
If no forwarder copies a topic that the registration of the row has still to
store, then a row found with a subscription is the row of one client, the copy
that is served is complete, and a client that shares its name with no other is
sent nothing but the topics of its own row.
-/
theorem served_row_complete {s : System}
    (hreach : Reachable (guarded System.servesFinal System.stepStray)
      System.initial s) :
    (forall (t i : Nat) th, s.threads[t]? = some th ->
      th.point.found = some i ->
        exists row, OwnerOf s.threads 6 i row ∧
          s.shared.tables.clientNameList i = some row.name ∧
          s.shared.tables.clientFdList i = row.fd ∧
          (th.point.serves = some i -> th.Copied row TOPICS_NUMBER)) ∧
    (forall i row, OwnerOf s.threads 6 i row ->
      (forall k other, OwnerOf s.threads 6 k other ->
        other.name = row.name -> other = row) ->
      exists texts : List CStr, s.shared.sent row.fd = texts.flatten ∧
        forall text, text ∈ texts -> row.Asks text) := by
  have hs : Completing s := by
    apply hreach.invariant
    · refine ⟨Reachable.refl _ _, by simp [System.initial], ?_⟩
      intro fd
      exact ⟨[], rfl, by simp⟩
    · intro s e s' hs hstep
      rcases guarded_eq_some.mp hstep with ⟨hfinal, hrun⟩
      cases e with
      | event e => exact hs.step hfinal hrun
      | stray t found => exact hs.stray hfinal hrun
  have hregistering := registering_stray hs.reached
  constructor
  · intro t i th hth hfound
    rcases (hs.serves t th hth).row hfound with ⟨row, howner, _, hcopied⟩
    rcases howner.tables hregistering (by lia) with ⟨hname, hfd, _⟩
    exact ⟨row, howner, hname, hfd, hcopied⟩
  · intro i row howner hsole
    rcases hs.sent row.fd with ⟨texts, htexts, hall⟩
    refine ⟨texts, htexts, ?_⟩
    intro text htext
    rcases hall text htext with ⟨k, other, hother, hnamed, hasks⟩
    rcases hnamed with ⟨l, first, hfirst, hname, hfd⟩
    have hfds := connfds_nodup hs.reached
    rcases howner.fd_inj hfds hfirst hfd.symm with ⟨_, rfl⟩
    rw [← hsole k other hother hname.symm]
    exact hasks

def twoRegistered : List Event :=
  connects 4 (lit "node1") (lit "NONE") ++ runs 0 9 ++
    connects 5 (lit "node2") (lit "NONE") ++ runs 1 9 ++
    connects 6 (lit "sub1") (lit "node1/cpu/gen") ++
    [.arrive 4 (lit "1,2,3,4,5,6" ++ [newline])]

/--
The forwarder runs between the store to `client_sus_list` and the six stores to
`topic_list`.  It copies a row of zeros and sends a topic nobody asked for.
-/
theorem served_before_complete :
    exists s, Reachable System.step System.initial s ∧
      exists (th : Thread) (row : Row), s.threads[0]? = some th ∧
        th.point.serves = some 2 ∧ OwnerOf s.threads 6 2 row ∧
        row.fd = 6 ∧ row.topics 0 = -1 ∧ th.topicsNumber 0 = 0 ∧
        s.shared.sent 6 = lit "tasks/gen: 1" ++ [newline] := by
  refine ⟨_, ⟨twoRegistered ++ runs 2 6 ++ runs 0 20, rfl⟩, _, _, rfl, rfl,
    ⟨2, _, rfl, rfl, ?_, rfl⟩, rfl, rfl, rfl, ?_⟩
  · decide
  · decide

theorem served_when_complete :
    exists s, Reachable (guarded System.servesFinal System.stepStray)
        System.initial s ∧
      s.shared.sent 6 = lit "cpu/gen: 4" ++ [newline] ∧
      exists (th : Thread) (row : Row), s.threads[0]? = some th ∧
        OwnerOf s.threads 6 2 row ∧ th.Copied row TOPICS_NUMBER := by
  have hrun :
      exists s,
        runFrom (guarded System.servesFinal System.stepStray) System.initial
            ((twoRegistered ++ runs 2 13 ++ runs 0 20).map .event) = some s ∧
          s.shared.sent 6 = lit "cpu/gen: 4" ++ [newline] ∧
          (s.threads[0]?).map Thread.point = some (.write 2) :=
    ⟨_, rfl, rfl, rfl⟩
  rcases hrun with ⟨s, hs, hsent, hpoint⟩
  rcases Option.map_eq_some_iff.mp hpoint with ⟨th, hth, hwrite⟩
  have hfound : th.point.found = some 2 := by
    rw [hwrite]
    rfl
  have hserves : th.point.serves = some 2 := by
    rw [hwrite]
    rfl
  rcases (served_row_complete ⟨_, hs⟩).left 0 2 th hth hfound with
    ⟨row, howner, _, _, hcopied⟩
  exact ⟨s, ⟨_, hs⟩, hsent, th, row, hth, howner, hcopied hserves⟩

end Broker
end MQTTv1
