import MQTTv1.Broker.InBounds
import MQTTv1.Broker.Rows
import MQTTv1.Broker.StreamIntegrity

/-!
# Fan-out

A pass reads one line of the publisher for every row and hands it to the
subscriber of that row only.  Rows that share a publisher therefore share its
lines, and the theorems below show that this is the only way for a subscriber to
miss one.
-/

namespace MQTTv1
namespace Broker

open CLib
open Csapp

/-- A line as the publishers build it: it carries a field for every topic. -/
structure MessageLine where
  bytes : List Byte
  line : IsLine bytes
  fields : TOPICS_NUMBER ≤ (tokensOf (lit ",") (stringOf bytes)).length

def MessageLine.field (l : MessageLine) (j : Nat) : CStr :=
  ((tokensOf (lit ",") (stringOf l.bytes))[j]?).getD []

/-- The text of the topics that a mask selects from a line. -/
def selectedTopics (topics : Nat -> Int) (l : MessageLine) : CStr :=
  ((List.range TOPICS_NUMBER).filterMap fun j =>
    if topics j ≠ -1 then some (topicText j (l.field j)) else none).flatten

def SelectsNothing (topics : Nat -> Int) : Prop :=
  forall j, j < TOPICS_NUMBER -> topics j = -1

def lineByLine (ls : List MessageLine) : List ReadResult :=
  delivered (ls.map MessageLine.bytes)

/-!
# Blocks
-/

theorem topicWrites_texts {topic topics : Nat -> Int} (l : MessageLine)
    (before : Nat -> CStr) (string : List Byte)
    (htopics : forall j, j < TOPICS_NUMBER -> topic j = topics j) :
    topicWrites topic (split (stringOf l.bytes) (lit ",") before) string =
      (List.range TOPICS_NUMBER).filterMap fun j =>
        if topics j ≠ -1 then some (topicText j (l.field j)) else none := by
  unfold topicWrites
  apply List.filterMap_congr
  intro j hj
  have hj' : j < TOPICS_NUMBER := List.mem_range.mp hj
  rw [htopics j hj']
  by_cases hsel : topics j ≠ -1
  · have hlt : j < (tokensOf (lit ",") (stringOf l.bytes)).length :=
      Nat.lt_of_lt_of_le hj' l.fields
    have hfield :
        split (stringOf l.bytes) (lit ",") before j = l.field j := by
      simp [split, MessageLine.field, List.getElem?_eq_getElem hlt]
    have hnul : NulFree (l.field j) := by
      unfold MessageLine.field
      rw [List.getElem?_eq_getElem hlt]
      exact nulFree_token (nulFree_stringOf _) (List.getElem_mem hlt)
    rw [if_pos hsel, if_pos hsel, hfield, stringOf_topicBuffer _ _ hnul]
  · rw [if_neg hsel, if_neg hsel]

theorem topicWrites_flatten {topic topics : Nat -> Int} (l : MessageLine)
    (before : Nat -> CStr) (string : List Byte)
    (htopics : forall j, j < TOPICS_NUMBER -> topic j = topics j) :
    (topicWrites topic (split (stringOf l.bytes) (lit ",") before)
      string).flatten = selectedTopics topics l :=
  congrArg List.flatten (topicWrites_texts l before string htopics)

theorem selectedTopics_eq_nil {topics : Nat -> Int}
    (hnone : SelectsNothing topics) (l : MessageLine) :
    selectedTopics topics l = [] := by
  unfold selectedTopics
  rw [List.filterMap_eq_nil_iff.mpr]
  · rfl
  · intro j hj
    simp [hnone j (List.mem_range.mp hj)]

theorem selectedTopics_pos {topics : Nat -> Int}
    (hsome : ¬ SelectsNothing topics) (l : MessageLine) :
    0 < (selectedTopics topics l).length := by
  unfold SelectsNothing at hsome
  push Not at hsome
  rcases hsome with ⟨j, hj, hsel⟩
  have hmem : topicText j (l.field j) ∈
      (List.range TOPICS_NUMBER).filterMap fun j =>
        if topics j ≠ -1 then some (topicText j (l.field j)) else none := by
    apply List.mem_filterMap.mpr
    exact ⟨j, List.mem_range.mpr hj, by rw [if_pos hsel]⟩
  have hpos : 0 < (stringTopics j).length := by
    unfold TOPICS_NUMBER at hj
    match j, hj with
    | 0, _ => decide
    | 1, _ => decide
    | 2, _ => decide
    | 3, _ => decide
    | 4, _ => decide
    | 5, _ => decide
  have hle : (topicText j (l.field j)).length ≤ (selectedTopics topics l).length :=
    (List.sublist_flatten_of_mem hmem).length_le
  have htext : (stringTopics j).length ≤ (topicText j (l.field j)).length := by
    simp [topicText]
  lia

/-!
# One row
-/

theorem receive_message {fd : Fd} {w : World} {l : MessageLine}
    {rest : List MessageLine} (hw : w.input fd = lineByLine (l :: rest)) :
    receive fd w = .ok (some l.bytes, w.setInput fd (lineByLine rest)) := by
  have hchunks :
      NonEmptyChunks (((l :: rest)).map MessageLine.bytes) := by
    intro c hc
    rcases List.mem_map.mp hc with ⟨m, _, rfl⟩
    exact m.line.ne_nil
  rcases receive_line (rest.map MessageLine.bytes).flatten hw l.line
      hchunks (by simp) with ⟨ahead, fetched, left, hcall, htail, hahead⟩
  have hstream :
      fetched.flatten ++ left.flatten =
        l.bytes ++ (rest.map MessageLine.bytes).flatten := by
    rw [← List.flatten_append, ← hahead.split]
    simp
  have hfetched : fetched.flatten = l.bytes ++ ahead := by
    rw [← htail, ← List.append_assoc] at hstream
    exact List.append_cancel_right hstream
  have hnil := ahead_nil_of_cutAt hahead hfetched ⟨1, by simp⟩
  have hleft : left = rest.map MessageLine.bytes := by
    rw [hnil, List.append_nil] at hfetched
    have hsplit := hahead.split
    cases fetched with
    | nil => exact absurd hfetched.symm l.line.ne_nil
    | cons c more =>
        rw [List.map_cons, List.cons_append] at hsplit
        rcases List.cons.inj hsplit with ⟨rfl, hrest⟩
        have hmore : more.flatten = [] := by
          simpa using hfetched
        cases more with
        | nil => exact hrest.symm
        | cons d more =>
            have hd : d = [] := (List.append_eq_nil_iff.mp hmore).left
            exact absurd hd (hchunks d (by
              rw [List.map_cons, hrest]
              simp))
  rw [hcall, hleft]
  rfl

/-- The tables of distinct clients whose publishers are all registered. -/
structure Registered (t : Tables) (rows : List Row) : Prop where
  represents : Represents t rows
  names : (rows.map Row.name).Nodup
  fds : (rows.map Row.fd).Nodup
  publishers : forall row, row ∈ rows -> row.Subscribed ->
    exists p, p ∈ rows ∧ p.name = row.sus

theorem fdByClientName_registered {t : Tables} {rows : List Row} {p : Row}
    {fd : Fd} (ht : Registered t rows) (hp : p ∈ rows)
    (h : fdByClientName t p.name = some fd) : fd = p.fd := by
  rcases fdByClientName_some ht.represents h with ⟨i, row, hfirst, rfl⟩
  rw [firstNamed_unique ht.names hfirst hp rfl]

/-- Step lemma: a row that was served has taken one line of its publisher. -/
theorem forwardRow_ok {t : Tables} {rows : List Row}
    {left : World -> MessageLeftover} {i : Nat} {row p : Row}
    {ls : List MessageLine} {w w' : World}
    (ht : Registered t rows) (hrow : rows[i]? = some row)
    (hsub : row.Subscribed) (hp : p ∈ rows) (hpname : p.name = row.sus)
    (hinput : w.input p.fd = lineByLine ls)
    (h : forwardRow t left i row.sus w = .ok w') :
    exists l rest, ls = l :: rest ∧
      w'.input = Function.update w.input p.fd (lineByLine rest) ∧
      w'.sent = Function.update w.sent row.fd
        (w.sent row.fd ++ selectedTopics row.topics l) := by
  have hname : t.clientNameList i = some row.name := by
    rw [ht.represents.name i, hrow]
    rfl
  unfold forwardRow at h
  rw [hname] at h
  change ((orUndefined (fdByClientName t row.sus)).bind fun fdPub =>
    (orUndefined (fdByClientName t row.name)).bind fun fdSus =>
      forwardMessage fdPub fdSus (t.topicList i) row.sus
        (left (writeLog (forwardingMessage row.sus row.name) w))
        (writeLog (forwardingMessage row.sus row.name) w)) = .ok w' at h
  cases hpub : fdByClientName t row.sus with
  | none =>
      rw [hpub] at h
      cases h
  | some fdPub =>
      rw [hpub] at h
      cases hsus : fdByClientName t row.name with
      | none =>
          rw [hsus] at h
          cases h
      | some fdSus =>
          rw [hsus] at h
          have hfdPub : fdPub = p.fd := by
            rw [← hpname] at hpub
            exact fdByClientName_registered ht hp hpub
          have hfdSus : fdSus = row.fd :=
            fdByClientName_registered ht (List.mem_of_getElem? hrow) hsus
          change forwardMessage fdPub fdSus (t.topicList i) row.sus
            (left (writeLog (forwardingMessage row.sus row.name) w))
            (writeLog (forwardingMessage row.sus row.name) w) = .ok w' at h
          rw [hfdPub, hfdSus, forwardMessage_eq_receive] at h
          cases ls with
          | nil =>
              rw [receive_blocked (by exact hinput)] at h
              cases h
          | cons l rest =>
              refine ⟨l, rest, rfl, ?_⟩
              rw [receive_message (by exact hinput)] at h
              rcases writeAll_ok h with ⟨hin, hout⟩
              rw [topicWrites_flatten l _ _
                (ht.represents.topics i row hrow hsub)] at hout
              exact ⟨hin, hout⟩

/-!
# Passes

What every served row preserves is preserved by a pass, and every subscribed row
is served in a pass.
-/

section

variable {t : Tables} {rows : List Row}
variable {left : World -> MessageLeftover}

theorem passFrom_invariant {Inv : World -> Prop}
    (ht : Represents t rows)
    (hstep : forall i row w w', rows[i]? = some row -> row.Subscribed ->
      Inv w -> forwardRow t left i row.sus w = .ok w' -> Inv w') :
    forall (slots i : Nat) {w w' : World},
      Inv w -> passFrom t left slots i w = .ok w' -> Inv w' := by
  intro slots
  induction slots with
  | zero =>
      intro i w w' _ h
      cases h
  | succ slots ih =>
      intro i w w' hw h
      unfold passFrom rowLoop at h
      rw [ht.sus i] at h
      cases hrow : rows[i]? with
      | none =>
          rw [hrow] at h
          cases h
          exact hw
      | some row =>
          rw [hrow] at h
          simp only [Option.map_some] at h
          cases hnone : isNone row.sus with
          | true =>
              rw [hnone] at h
              exact ih (i + 1) hw h
          | false =>
              rw [hnone] at h
              rcases bind_eq_ok.mp h with ⟨mid, hserve, h⟩
              exact ih (i + 1) (hstep i row w mid hrow hnone hw hserve) h

theorem passFrom_serves {Inv Done : World -> Prop} {n : Nat} {served : Row}
    (ht : Represents t rows) (hserved : rows[n]? = some served)
    (hsub : served.Subscribed)
    (hstep : forall i row w w', rows[i]? = some row -> row.Subscribed ->
      Inv w -> forwardRow t left i row.sus w = .ok w' -> Inv w')
    (hdone : forall w w',
      Inv w -> forwardRow t left n served.sus w = .ok w' -> Done w')
    (hkeep : forall i row w w', rows[i]? = some row -> row.Subscribed ->
      Done w -> forwardRow t left i row.sus w = .ok w' -> Done w') :
    forall (slots i : Nat) {w w' : World}, i ≤ n ->
      Inv w -> passFrom t left slots i w = .ok w' -> Done w' := by
  intro slots
  induction slots with
  | zero =>
      intro i w w' _ _ h
      cases h
  | succ slots ih =>
      intro i w w' hin hw h
      unfold passFrom rowLoop at h
      rw [ht.sus i] at h
      have hlt : i < rows.length := by
        have hn := (List.getElem?_eq_some_iff.mp hserved).choose
        lia
      rw [List.getElem?_eq_getElem hlt] at h
      simp only [Option.map_some] at h
      have hrow := List.getElem?_eq_getElem hlt
      cases hnone : isNone rows[i].sus with
      | true =>
          rw [hnone] at h
          have hne : i ≠ n := by
            intro heq
            rw [← heq, hrow] at hserved
            cases hserved
            rw [Row.Subscribed, hnone] at hsub
            cases hsub
          exact ih (i + 1) (by lia) hw h
      | false =>
          rw [hnone] at h
          rcases bind_eq_ok.mp h with ⟨mid, hserve, h⟩
          by_cases heq : i = n
          · cases heq
            rw [hrow] at hserved
            cases hserved
            exact passFrom_invariant ht hkeep slots _
              (hdone w mid hw hserve) h
          · exact ih (i + 1) (by lia)
              (hstep i rows[i] w mid hrow hnone hw hserve) h

theorem forwardMessages_invariant {Inv : World -> Prop}
    (ht : Represents t rows)
    (hstep : forall i row w w', rows[i]? = some row -> row.Subscribed ->
      Inv w -> forwardRow t left i row.sus w = .ok w' -> Inv w') :
    forall (passes : Nat) {w w' : World},
      Inv w -> forwardMessages t left passes w = .ok w' -> Inv w' := by
  intro passes
  induction passes with
  | zero =>
      intro w w' hw h
      cases h
      exact hw
  | succ passes ih =>
      intro w w' hw h
      rcases bind_eq_ok.mp h with ⟨mid, hearlier, h⟩
      exact passFrom_invariant ht hstep LIMIT_CONN_CLIENTS 0
        (ih hw hearlier) h

end

/-!
# Lost and delivered lines
-/

def Consumed (lines : Fd -> List MessageLine) (w : World) (fd : Fd)
    (k : Nat) : Prop :=
  k ≤ (lines fd).length ∧ w.input fd = lineByLine ((lines fd).drop k)

def blocks (topics : Nat -> Int) (ls : List MessageLine) (k : Nat) : CStr :=
  ((ls.take k).map (selectedTopics topics)).flatten

structure PublisherOf (rows : List Row) (row p : Row) : Prop where
  row_mem : row ∈ rows
  subscribed : row.Subscribed
  mem : p ∈ rows
  name : p.name = row.sus

/--
Every subscriber has been sent the selected topics of exactly the lines of its
publisher that were consumed, in order.
-/
def FanOut (rows : List Row) (lines : Fd -> List MessageLine)
    (start w : World) : Prop :=
  forall row p, PublisherOf rows row p ->
    forall k, Consumed lines w p.fd k ->
      w.sent row.fd = start.sent row.fd ++ blocks row.topics (lines p.fd) k

/-- Only rows that select nothing share their publisher with another row. -/
def SoleReaders (rows : List Row) : Prop :=
  forall row other, row ∈ rows -> other ∈ rows -> row.Subscribed ->
    other.sus = row.sus -> other.name ≠ row.name ->
      SelectsNothing row.topics

theorem Consumed.unique {lines : Fd -> List MessageLine} {w : World} {fd : Fd}
    {k k' : Nat} (h : Consumed lines w fd k) (h' : Consumed lines w fd k') :
    k = k' := by
  have hlen := congrArg List.length (h.right.symm.trans h'.right)
  simp only [lineByLine, delivered, List.length_map, List.length_drop] at hlen
  have hk := h.left
  have hk' := h'.left
  lia

theorem blocks_succ {topics : Nat -> Int} {ls rest : List MessageLine}
    {l : MessageLine} {k : Nat} (h : ls.drop k = l :: rest) :
    blocks topics ls (k + 1) = blocks topics ls k ++ selectedTopics topics l := by
  have hget : ls[k]? = some l := by
    rw [← List.head?_drop, h]
    rfl
  unfold blocks
  rw [List.take_add_one, hget]
  simp

/-- What serving a row does to the consumed lines and to the sent bytes. -/
structure Served (lines : Fd -> List MessageLine) (row p : Row) (k : Nat)
    (w w' : World) : Prop where
  consumed : Consumed lines w' p.fd (k + 1)
  input : forall fd, fd ≠ p.fd -> w'.input fd = w.input fd
  sent : forall fd, fd ≠ row.fd -> w'.sent fd = w.sent fd
  block : exists l, (forall topics, blocks topics (lines p.fd) (k + 1) =
      blocks topics (lines p.fd) k ++ selectedTopics topics l) ∧
    w'.sent row.fd = w.sent row.fd ++ selectedTopics row.topics l

theorem forwardRow_served {t : Tables} {rows : List Row}
    {left : World -> MessageLeftover} {lines : Fd -> List MessageLine}
    {i k : Nat}
    {row p : Row} {w w' : World} (ht : Registered t rows)
    (hrow : rows[i]? = some row) (hpub : PublisherOf rows row p)
    (hk : Consumed lines w p.fd k)
    (h : forwardRow t left i row.sus w = .ok w') :
    Served lines row p k w w' := by
  rcases forwardRow_ok ht hrow hpub.subscribed hpub.mem hpub.name hk.right h with
    ⟨l, rest, hdrop, hinput, hsent⟩
  have hlt : k < (lines p.fd).length := by
    by_contra hge
    rw [List.drop_of_length_le (Nat.le_of_not_lt hge)] at hdrop
    cases hdrop
  have hrest : (lines p.fd).drop (k + 1) = rest := by
    rw [← List.tail_drop, hdrop]
    rfl
  refine ⟨⟨hlt, ?_⟩, ?_, ?_, l, fun topics => blocks_succ hdrop, ?_⟩
  · rw [hinput, hrest, Function.update_self]
  · intro fd hfd
    rw [hinput, Function.update_of_ne hfd]
  · intro fd hfd
    rw [hsent, Function.update_of_ne hfd]
  · rw [hsent, Function.update_self]

/-- Every publisher that is read has consumed some number of its lines. -/
def Progress (rows : List Row) (lines : Fd -> List MessageLine)
    (w : World) : Prop :=
  forall row p, PublisherOf rows row p -> exists k, Consumed lines w p.fd k

section

variable {t : Tables} {rows : List Row}
variable {left : World -> MessageLeftover}
variable {lines : Fd -> List MessageLine}

theorem Registered.eq_of_fd (ht : Registered t rows) {row other : Row}
    (hrow : row ∈ rows) (hother : other ∈ rows) (hfd : other.fd = row.fd) :
    other = row :=
  List.inj_on_of_nodup_map ht.fds hother hrow hfd

theorem Registered.eq_of_name (ht : Registered t rows) {row other : Row}
    (hrow : row ∈ rows) (hother : other ∈ rows)
    (hname : other.name = row.name) : other = row :=
  List.inj_on_of_nodup_map ht.names hother hrow hname

theorem Registered.publisherOf (ht : Registered t rows) {row : Row}
    (hrow : row ∈ rows) (hsub : row.Subscribed) :
    exists p, PublisherOf rows row p := by
  rcases ht.publishers row hrow hsub with ⟨p, hp, hname⟩
  exact ⟨p, hrow, hsub, hp, hname⟩

theorem Served.progress {row p : Row} {k : Nat} {w w' : World}
    (hserved : Served lines row p k w w') (hw : Progress rows lines w) :
    Progress rows lines w' := by
  intro other q hq
  by_cases hfd : q.fd = p.fd
  · exact ⟨k + 1, hfd ▸ hserved.consumed⟩
  · rcases hw other q hq with ⟨n, hn⟩
    exact ⟨n, hn.left, (hserved.input q.fd hfd).trans hn.right⟩

/-- Step lemma: without shared lines the fan-out survives every served row. -/
theorem Served.fanOut (ht : Registered t rows) (hsole : SoleReaders rows)
    {row p : Row} {k : Nat} {start w w' : World}
    (hpub : PublisherOf rows row p) (hk : Consumed lines w p.fd k)
    (hserved : Served lines row p k w w')
    (hw : FanOut rows lines start w) : FanOut rows lines start w' := by
  intro other q hq n hn
  by_cases hfd : q.fd = p.fd
  · have hqp : q = p := ht.eq_of_fd hpub.mem hq.mem hfd
    subst hqp
    rcases hserved.block with ⟨l, hblocks, hsent⟩
    have hnk : n = k + 1 := hn.unique hserved.consumed
    rw [hnk, hblocks other.topics, ← List.append_assoc,
      ← hw other q hq k hk]
    by_cases hother : other = row
    · rw [hother]
      exact hsent
    · have hne : other.fd ≠ row.fd := fun h =>
        hother (ht.eq_of_fd hpub.row_mem hq.row_mem h)
      have hnames : row.name ≠ other.name := fun h =>
        hother (ht.eq_of_name hpub.row_mem hq.row_mem h.symm)
      have hnothing : SelectsNothing other.topics :=
        hsole other row hq.row_mem hpub.row_mem hq.subscribed
          (hpub.name.symm.trans hq.name) hnames
      rw [hserved.sent other.fd hne, selectedTopics_eq_nil hnothing,
        List.append_nil]
  · have hother : other ≠ row := by
      intro h
      apply hfd
      rw [ht.eq_of_name hpub.mem hq.mem (by rw [hq.name, h, hpub.name])]
    have hne : other.fd ≠ row.fd := fun h =>
      hother (ht.eq_of_fd hpub.row_mem hq.row_mem h)
    rw [hserved.sent other.fd hne]
    exact hw other q hq n
      ⟨hn.left, (hserved.input q.fd hfd).symm.trans hn.right⟩

/-!
The other direction counts bytes: a line that another row takes leaves a row with
a non-empty mask behind for good.
-/

def Behind (lines : Fd -> List MessageLine) (start : World) (row p : Row)
    (missing : Nat) (w : World) : Prop :=
  exists k, Consumed lines w p.fd k ∧
    (w.sent row.fd).length + missing ≤
      (start.sent row.fd).length + (blocks row.topics (lines p.fd) k).length

theorem Served.behind (ht : Registered t rows) {row p other q : Row}
    {k missing : Nat} {start w w' : World} (hpub : PublisherOf rows row p)
    (hother : PublisherOf rows other q) (hk : Consumed lines w q.fd k)
    (hserved : Served lines other q k w w')
    (hw : Behind lines start row p missing w) :
    Behind lines start row p missing w' := by
  rcases hw with ⟨n, hn, hbound⟩
  rcases hserved.block with ⟨l, hblocks, hsent⟩
  by_cases hfd : p.fd = q.fd
  · have hnk : n = k := hn.unique (hfd ▸ hk)
    refine ⟨k + 1, hfd ▸ hserved.consumed, ?_⟩
    rw [hfd, hblocks row.topics, List.length_append]
    rw [hfd, hnk] at hbound
    by_cases hrow : row = other
    · rw [hrow, hsent, List.length_append]
      rw [hrow] at hbound
      lia
    · have hne : row.fd ≠ other.fd := fun h =>
        hrow (ht.eq_of_fd hother.row_mem hpub.row_mem h)
      rw [hserved.sent row.fd hne]
      lia
  · have hrow : row ≠ other := by
      intro h
      apply hfd
      rw [ht.eq_of_name hother.mem hpub.mem (by rw [hpub.name, h, hother.name])]
    have hne : row.fd ≠ other.fd := fun h =>
      hrow (ht.eq_of_fd hother.row_mem hpub.row_mem h)
    refine ⟨n, ⟨hn.left, (hserved.input p.fd hfd).trans hn.right⟩, ?_⟩
    rw [hserved.sent row.fd hne]
    exact hbound

theorem Served.falls_behind (ht : Registered t rows) {row p other : Row}
    {k : Nat} {start w w' : World} (hpub : PublisherOf rows row p)
    (hother : PublisherOf rows other p) (hne : row ≠ other)
    (hsome : ¬ SelectsNothing row.topics) (hk : Consumed lines w p.fd k)
    (hserved : Served lines other p k w w')
    (hw : Behind lines start row p 0 w) : Behind lines start row p 1 w' := by
  rcases hw with ⟨n, hn, hbound⟩
  rcases hserved.block with ⟨l, hblocks, _⟩
  have hnk : n = k := hn.unique hk
  have hfd : row.fd ≠ other.fd := fun h =>
    hne (ht.eq_of_fd hother.row_mem hpub.row_mem h)
  have hpos := selectedTopics_pos hsome l
  refine ⟨k + 1, hserved.consumed, ?_⟩
  rw [hblocks row.topics, List.length_append, hserved.sent row.fd hfd]
  rw [hnk] at hbound
  lia

/--
At the end of every pass, none of which has left a buffer, the fan-out is
complete exactly when no two rows share a publisher, except rows that select
nothing.
-/
theorem fanOut_iff_soleReaders (ht : Registered t rows) {start w : World}
    (hstart : forall row p, PublisherOf rows row p ->
      start.input p.fd = lineByLine (lines p.fd))
    (passes : Nat)
    (hrun : forwardMessagesInBounds t left (passes + 1) start = .ok w) :
    FanOut rows lines start w <-> SoleReaders rows := by
  have hrun := forwardMessagesInBounds_ok hrun
  have hzero : forall row p, PublisherOf rows row p ->
      Consumed lines start p.fd 0 := by
    intro row p hpub
    exact ⟨Nat.zero_le _, hstart row p hpub⟩
  have hstep : forall i row u u', rows[i]? = some row -> row.Subscribed ->
      forwardRow t left i row.sus u = .ok u' -> Progress rows lines u ->
        exists p k, PublisherOf rows row p ∧ Consumed lines u p.fd k ∧
          Served lines row p k u u' := by
    intro i row u u' hrow hsub hserve hprogress
    rcases ht.publisherOf (List.mem_of_getElem? hrow) hsub with ⟨p, hpub⟩
    rcases hprogress row p hpub with ⟨k, hk⟩
    exact ⟨p, k, hpub, hk, forwardRow_served ht hrow hpub hk hserve⟩
  constructor
  · intro hfan row other hrow hother hsub hsus hname
    by_contra hsome
    rcases ht.publisherOf hrow hsub with ⟨p, hpub⟩
    have hsubOther : other.Subscribed := by
      rw [Row.Subscribed, hsus]
      exact hsub
    have hpubOther : PublisherOf rows other p :=
      ⟨hother, hsubOther, hpub.mem, hpub.name.trans hsus.symm⟩
    have hne : row ≠ other := fun h => hname (by rw [h])
    rcases List.getElem?_of_mem hother with ⟨n, hn⟩
    have hkept : forall missing i served u u', rows[i]? = some served ->
        served.Subscribed ->
        (Progress rows lines u ∧ Behind lines start row p missing u) ->
        forwardRow t left i served.sus u = .ok u' ->
        (Progress rows lines u' ∧ Behind lines start row p missing u') := by
      intro missing i served u u' hserved hsubServed hu hserve
      rcases hstep i served u u' hserved hsubServed hserve hu.left with
        ⟨q, k, hq, hk, hdone⟩
      exact ⟨hdone.progress hu.left, hdone.behind ht hpub hq hk hu.right⟩
    rcases bind_eq_ok.mp hrun with ⟨mid, hearlier, hpass⟩
    have hmid : Progress rows lines mid ∧ Behind lines start row p 0 mid := by
      apply forwardMessages_invariant ht.represents (hkept 0) passes _
        hearlier
      refine ⟨fun r q hq => ⟨0, hzero r q hq⟩, 0, hzero row p hpub, ?_⟩
      exact Nat.le_add_right _ _
    have hend : Progress rows lines w ∧ Behind lines start row p 1 w := by
      refine passFrom_serves ht.represents hn hsubOther (hkept 0) ?_
        (hkept 1) LIMIT_CONN_CLIENTS 0 (Nat.zero_le n) hmid hpass
      intro u u' hu hserve
      rcases hu.left other p hpubOther with ⟨k, hk⟩
      have hdone := forwardRow_served ht hn hpubOther hk hserve
      exact ⟨hdone.progress hu.left,
        hdone.falls_behind ht hpub hpubOther hne hsome hk hu.right⟩
    rcases hend.right with ⟨k, hk, hbound⟩
    rw [hfan row p hpub k hk, List.length_append] at hbound
    lia
  · intro hsole
    have hend : Progress rows lines w ∧ FanOut rows lines start w := by
      apply forwardMessages_invariant ht.represents _ (passes + 1) _ hrun
      · intro i row u u' hrow hsub hu hserve
        rcases hstep i row u u' hrow hsub hserve hu.left with
          ⟨p, k, hpub, hk, hdone⟩
        exact ⟨hdone.progress hu.left,
          hdone.fanOut ht hsole hpub hk hu.right⟩
      · refine ⟨fun r q hq => ⟨0, hzero r q hq⟩, ?_⟩
        intro row p hpub k hk
        rw [hk.unique (hzero row p hpub)]
        simp [blocks]
    exact hend.right

end

/-!
# Two readers of one publisher
-/

def node1Row : Row where
  name := lit "node1"
  fd := 4
  sus := lit "NONE"
  topics := fun _ => 0

def readerRow (name : CStr) (fd : Fd) : Row where
  name := name
  fd := fd
  sus := lit "node1"
  topics := disableOthers 0 fun _ => 0

def firstReport : MessageLine where
  bytes := lit "293,290,0,35.2,0.0,55.223" ++ [newline]
  line := isLine_of_body (by decide) (by decide)
  fields := by decide

def secondReport : MessageLine where
  bytes := lit "294,291,0,35.1,0.0,55.224" ++ [newline]
  line := isLine_of_body (by decide) (by decide)
  fields := by decide

def node1Lines (fd : Fd) : List MessageLine :=
  if fd = 4 then [firstReport, secondReport] else []

def publishedWorld : World where
  input := fun fd => lineByLine (node1Lines fd)
  writes := fun _ => []
  sent := fun _ => []
  log := []

def cleanStack : World -> MessageLeftover :=
  fun _ => { pubAvailableInfo := fun _ => [], string := [] }

def readersOfNode1 (clients : List (CStr × Fd)) : List Row :=
  node1Row :: clients.map fun c => readerRow c.1 c.2

theorem reads_node1 {clients : List (CStr × Fd)} {row : Row}
    (hrow : row ∈ readersOfNode1 clients) (hsub : row.Subscribed) :
    row.sus = lit "node1" := by
  rcases List.mem_cons.mp hrow with rfl | hrow
  · cases hsub
  · rcases List.mem_map.mp hrow with ⟨c, _, rfl⟩
    rfl

theorem registered_readersOfNode1 {clients : List (CStr × Fd)}
    (hnames : ((readersOfNode1 clients).map Row.name).Nodup)
    (hfds : ((readersOfNode1 clients).map Row.fd).Nodup) :
    Registered (Tables.ofRows (readersOfNode1 clients))
      (readersOfNode1 clients) where
  represents := represents_ofRows _
  names := hnames
  fds := hfds
  publishers := by
    intro row hrow hsub
    refine ⟨node1Row, List.mem_cons_self, ?_⟩
    rw [reads_node1 hrow hsub]
    rfl

def twoReaders : List Row :=
  readersOfNode1 [(lit "sub1", 5), (lit "sub2", 6)]

def oneReader : List Row :=
  readersOfNode1 [(lit "sub1", 5)]

theorem fanOut_splits_lines :
    Registered (Tables.ofRows twoReaders) twoReaders ∧
      exists w,
        forwardMessagesInBounds (Tables.ofRows twoReaders) cleanStack 1
            publishedWorld = .ok w ∧
          ¬ FanOut twoReaders node1Lines publishedWorld w := by
  constructor
  · exact registered_readersOfNode1 (by decide) (by decide)
  · have hrun :
        (forwardMessagesInBounds (Tables.ofRows twoReaders) cleanStack 1
            publishedWorld).map (fun w => (w.input 4, w.sent 5)) =
          .ok ([], lit "tasks/gen: 293" ++ [newline]) := rfl
    rcases exists_of_map_ok hrun with ⟨w, hw, hend⟩
    rcases Prod.mk.inj hend with ⟨hinput, hsent⟩
    refine ⟨w, hw, ?_⟩
    intro hfan
    have hpub : PublisherOf twoReaders (readerRow (lit "sub1") 5) node1Row :=
      ⟨by simp [twoReaders, readersOfNode1], rfl, List.mem_cons_self, rfl⟩
    have hboth := hfan _ _ hpub 2 ⟨Nat.le_refl 2, hinput⟩
    have hlen := congrArg List.length (hsent.symm.trans hboth)
    revert hlen
    decide

theorem fanOut_with_one_reader :
    exists w,
      forwardMessagesInBounds (Tables.ofRows oneReader) cleanStack 1
          publishedWorld = .ok w ∧
        (FanOut oneReader node1Lines publishedWorld w <->
          SoleReaders oneReader) := by
  have hrun :
      (forwardMessagesInBounds (Tables.ofRows oneReader) cleanStack 1
          publishedWorld).map (fun w => w.sent 5) =
        .ok (lit "tasks/gen: 293" ++ [newline]) := rfl
  rcases exists_of_map_ok hrun with ⟨w, hw, _⟩
  refine ⟨w, hw, ?_⟩
  exact fanOut_iff_soleReaders
    (registered_readersOfNode1 (by decide) (by decide)) (fun _ _ _ => rfl) 0 hw

end Broker
end MQTTv1
