import MQTTv1.Broker.Forwarding

/-!
# Stream integrity

The registration reads the handshake through one `rio_t` and every
`forward_message` call reads through a fresh one.  A buffer that is dropped takes
the bytes it has read ahead with it, so the lines survive exactly when a `read`
result ends with the handshake and with every message.
-/

namespace MQTTv1
namespace Broker

open CLib
open Csapp

/-- The lines that successive `forward_message` calls read. -/
def receiveLines (connfd : Fd) : Nat -> World -> List (List Byte)
  | 0, _ => []
  | calls + 1, w =>
      match receive connfd w with
      | .error _ => []
      | .ok (line, w) => line.toList ++ receiveLines connfd calls w

/-- The lines read by the registration and by the calls that follow it. -/
def obtainedLines (connfd : Fd) (calls : Nat) (w : World) :
    List (List Byte) :=
  match readHandshake connfd w with
  | .error _ => []
  | .ok (nameLine, susLine, w) =>
      nameLine.toList ++ susLine.toList ++ receiveLines connfd calls w

structure ClientStream where
  name : List Byte
  sus : List Byte
  messages : List (List Byte)
  name_line : IsLine name
  sus_line : IsLine sus
  messages_line : forall l, l ∈ messages -> IsLine l

def ClientStream.bytes (s : ClientStream) : List Byte :=
  s.name ++ s.sus ++ s.messages.flatten

/-- One way for the socket to split a byte stream into `read` results. -/
structure Chunking (bytes : List Byte) where
  chunks : List Chunk
  nonEmpty : NonEmptyChunks chunks
  bounded : forall c, c ∈ chunks -> c.length ≤ RIO_BUFSIZE
  spells : chunks.flatten = bytes

/-- Some number of `read` results spells exactly the given bytes. -/
def CutAt (chunks : List Chunk) (bytes : List Byte) : Prop :=
  exists j, (chunks.take j).flatten = bytes

def Chunking.EndsWithLines {s : ClientStream} (cut : Chunking s.bytes) : Prop :=
  forall k, k ≤ s.messages.length ->
    CutAt cut.chunks (s.name ++ s.sus ++ (s.messages.take k).flatten)

/-!
# Cuts
-/

theorem cutAt_nil (chunks : List Chunk) : CutAt chunks [] := ⟨0, rfl⟩

theorem flatten_take_length_le (chunks : List Chunk) {i j : Nat} (h : i ≤ j) :
    (chunks.take i).flatten.length ≤ (chunks.take j).flatten.length := by
  have hsplit : chunks.take j = chunks.take i ++ (chunks.drop i).take (j - i) := by
    rw [← List.take_add, Nat.add_sub_cancel' h]
  rw [hsplit, List.flatten_append, List.length_append]
  exact Nat.le_add_right _ _

theorem ahead_nil_of_cutAt {chunks fetched left : List Chunk}
    {l ahead : List Byte} (h : ReadAhead [] chunks fetched left ahead)
    (hfetched : fetched.flatten = l ++ ahead) (hcut : CutAt chunks l) :
    ahead = [] := by
  rcases hcut with ⟨j, hj⟩
  rcases h.shorter with ⟨_, hlt⟩ | ⟨before, last, hlast, hlt⟩
  · exact absurd hlt (Nat.not_lt_zero _)
  · have hbefore : chunks.take before.length = before := by
      rw [h.split, hlast, List.append_assoc]
      simp
    have hall : chunks.take fetched.length = fetched := by
      rw [h.split]
      simp
    rw [hlast, List.flatten_append] at hfetched
    have hlen := congrArg List.length hfetched
    simp only [List.flatten_singleton, List.length_append] at hlen
    rcases Nat.lt_or_ge j fetched.length with hshort | hlong
    · -- The cut lies in front of the last chunk, which holds more than `ahead`.
      have hle : j ≤ before.length := by
        rw [hlast] at hshort
        simpa [Nat.lt_succ_iff] using hshort
      have hmono := flatten_take_length_le chunks hle
      rw [hj, hbefore] at hmono
      lia
    · have hmono := flatten_take_length_le chunks hlong
      rw [hj, hall, hlast, List.flatten_append] at hmono
      simp only [List.flatten_singleton, List.length_append] at hmono
      have hzero : ahead.length = 0 := by lia
      exact List.length_eq_zero_iff.mp hzero

theorem cutAt_append_iff {chunks fetched left : List Chunk} {l s : List Byte}
    (hsplit : chunks = fetched ++ left) (hfetched : fetched.flatten = l) :
    CutAt chunks (l ++ s) <-> CutAt left s := by
  constructor
  · intro h
    rcases h with ⟨j, hj⟩
    rcases Nat.lt_or_ge j fetched.length with hshort | hlong
    · have hmono := flatten_take_length_le chunks (Nat.le_of_lt hshort)
      have hall : chunks.take fetched.length = fetched := by
        rw [hsplit]
        simp
      rw [hj, hall, hfetched, List.length_append] at hmono
      have hs : s = [] := List.length_eq_zero_iff.mp (by lia)
      rw [hs]
      exact cutAt_nil left
    · refine ⟨j - fetched.length, ?_⟩
      rw [hsplit, List.take_append, List.take_of_length_le hlong,
        List.flatten_append, hfetched] at hj
      exact List.append_cancel_left hj
  · intro h
    rcases h with ⟨j, hj⟩
    refine ⟨fetched.length + j, ?_⟩
    rw [hsplit, List.take_append, List.take_of_length_le (Nat.le_add_right ..),
      List.flatten_append, hfetched, Nat.add_sub_cancel_left, hj]

/--
One dropped buffer: what follows it can only be complete if the buffer was empty,
and then the rest of the stream decides.
-/
theorem drop_buffer_iff {chunks fetched left : List Chunk}
    {l ahead : List Byte} {rest lines : List (List Byte)}
    (h : ReadAhead [] chunks fetched left ahead)
    (hfetched : fetched.flatten = l ++ ahead)
    (hrest : ahead ++ left.flatten = rest.flatten)
    (hbound : lines.flatten.length ≤ left.flatten.length)
    (htail : ahead = [] ->
      (lines = rest <->
        forall k, k ≤ rest.length -> CutAt left (rest.take k).flatten)) :
    lines = rest <->
      forall k, k ≤ rest.length -> CutAt chunks (l ++ (rest.take k).flatten) := by
  by_cases hnil : ahead = []
  · rw [htail hnil]
    rw [hnil, List.append_nil] at hfetched
    apply forall_congr'
    intro k
    rw [cutAt_append_iff h.split hfetched]
  · apply iff_of_false
    · intro hlines
      rw [hlines, ← hrest, List.length_append] at hbound
      have hzero : ahead.length = 0 := by lia
      exact hnil (List.length_eq_zero_iff.mp hzero)
    · intro hcut
      have hzero := hcut 0 (Nat.zero_le _)
      simp only [List.take_zero, List.flatten_nil, List.append_nil] at hzero
      exact hnil (ahead_nil_of_cutAt h hfetched hzero)

theorem fetched_flatten {l ahead tail : List Byte}
    {chunks fetched left : List Chunk} (unread : List Byte)
    (hstream : unread ++ chunks.flatten = l ++ tail)
    (hsplit : chunks = fetched ++ left) (htail : ahead ++ left.flatten = tail) :
    unread ++ fetched.flatten = l ++ ahead := by
  rw [hsplit, List.flatten_append, ← List.append_assoc, ← htail,
    ← List.append_assoc] at hstream
  exact List.append_cancel_right hstream

/-!
# Calls
-/

theorem receive_line {connfd : Fd} {w : World} {l : List Byte}
    {chunks : List Chunk} (tail : List Byte) (hw : w.input connfd = delivered chunks)
    (hl : IsLine l) (hchunks : NonEmptyChunks chunks)
    (hstream : chunks.flatten = l ++ tail) :
    exists ahead fetched left,
      receive connfd w = .ok (some l, w.setInput connfd (delivered left)) ∧
      ahead ++ left.flatten = tail ∧
      ReadAhead [] chunks fetched left ahead := by
  rcases RioReadlineb_line [] hw hl hchunks hstream with
    ⟨ahead, fetched, left, hread, htail, hahead⟩
  refine ⟨ahead, fetched, left, ?_, htail, hahead⟩
  show (RioReadlineb (rioReadinitb connfd) MAXLINE w).bind _ = _
  rw [show rioReadinitb connfd = { rioFd := connfd, unread := [] } from rfl,
    hread]
  rfl

theorem receive_blocked {connfd : Fd} {w : World} (hw : w.input connfd = []) :
    receive connfd w = .error .blocked := by
  have hread :
      rioReadlineb (rioReadinitb connfd) MAXLINE [] =
        (.blocked, rioReadinitb connfd, []) := by
    rw [rioReadlineb, show MAXLINE - 1 = 8190 + 1 from rfl]
    rfl
  show (RioReadlineb (rioReadinitb connfd) MAXLINE w).bind _ = _
  unfold RioReadlineb
  rw [show (rioReadinitb connfd).rioFd = connfd from rfl, hw, hread]
  rfl

theorem receiveLines_blocked {connfd : Fd} {w : World}
    (hw : w.input connfd = []) (calls : Nat) :
    receiveLines connfd calls w = [] := by
  cases calls with
  | zero => rfl
  | succ calls =>
      rw [receiveLines, receive_blocked hw]

/-- A call either stops or takes the line it returns from the stream. -/
theorem receive_accounts {connfd : Fd} {w : World} {chunks : List Chunk}
    (hw : w.input connfd = delivered chunks)
    (hchunks : NonEmptyChunks chunks) :
    receive connfd w = .error .blocked ∨
      exists bs left,
        receive connfd w = .ok (some bs, w.setInput connfd (delivered left)) ∧
        NonEmptyChunks left ∧
        bs.length + left.flatten.length ≤ chunks.flatten.length := by
  have hread :
      receive connfd w =
        (RioReadlineb (rioReadinitb connfd) MAXLINE w).bind
          fun result => .ok (result.1, result.2.2) := rfl
  rw [hread]
  unfold RioReadlineb rioReadlineb
  rw [show (rioReadinitb connfd).rioFd = connfd from rfl, hw]
  rcases readLoop_accounts connfd (MAXLINE - 1) [] [] hchunks with
      ⟨rp, hloop⟩ | ⟨bs, ahead, fetched, left, hloop, hsplit, hbytes⟩
  · apply Or.inl
    rw [show rioReadinitb connfd = { rioFd := connfd, unread := [] } from rfl,
      hloop]
    rfl
  · refine Or.inr ⟨bs, left, ?_, hchunks.left hsplit, ?_⟩
    · rw [show rioReadinitb connfd = { rioFd := connfd, unread := [] } from rfl,
        hloop]
      rfl
    · have hlen := congrArg List.length hbytes
      rw [hsplit, List.flatten_append, List.length_append]
      simp only [List.nil_append, List.length_append] at hlen
      lia

theorem receiveLines_length_le (connfd : Fd) :
    forall (calls : Nat) {w : World} {chunks : List Chunk},
      w.input connfd = delivered chunks -> NonEmptyChunks chunks ->
      (receiveLines connfd calls w).flatten.length ≤ chunks.flatten.length := by
  intro calls
  induction calls with
  | zero =>
      intro w chunks _ _
      exact Nat.zero_le _
  | succ calls ih =>
      intro w chunks hw hchunks
      unfold receiveLines
      rcases receive_accounts hw hchunks with
        hblocked | ⟨bs, left, hcall, hleft, hlen⟩
      · rw [hblocked]
        exact Nat.zero_le _
      · rw [hcall]
        have hinput :
            (w.setInput connfd (delivered left)).input connfd =
              delivered left := by
          simp [World.setInput]
        have htail := ih hinput hleft
        simp only [Option.toList_some, List.singleton_append,
          List.flatten_cons, List.length_append]
        lia

theorem receiveLines_eq_iff (connfd : Fd) :
    forall (messages : List (List Byte)) {calls : Nat} {w : World}
      {chunks : List Chunk},
      (forall l, l ∈ messages -> IsLine l) -> NonEmptyChunks chunks ->
      chunks.flatten = messages.flatten -> w.input connfd = delivered chunks ->
      messages.length ≤ calls ->
      (receiveLines connfd calls w = messages <->
        forall k, k ≤ messages.length ->
          CutAt chunks (messages.take k).flatten) := by
  intro messages
  induction messages with
  | nil =>
      intro calls w chunks _ hchunks hflat hw _
      apply iff_of_true
      · have hnone : chunks = [] := by
          cases chunks with
          | nil => rfl
          | cons chunk rest =>
              have hchunk := (List.append_eq_nil_iff.mp hflat).left
              exact absurd hchunk (hchunks chunk (List.mem_cons_self ..))
        rw [hnone] at hw
        exact receiveLines_blocked hw calls
      · intro k _
        rw [List.take_nil]
        exact cutAt_nil chunks
  | cons l rest ih =>
      intro calls w chunks hlines hchunks hflat hw hcalls
      cases calls with
      | zero => exact absurd hcalls (Nat.not_succ_le_zero _)
      | succ calls =>
          rcases receive_line _ hw (hlines l (List.mem_cons_self ..)) hchunks
              hflat with ⟨ahead, fetched, left, hcall, htail, hahead⟩
          have hinput :
              (w.setInput connfd (delivered left)).input connfd =
                delivered left := by
            simp [World.setInput]
          have hleft := hchunks.left hahead.split
          have hfetched : fetched.flatten = l ++ ahead := by
            exact fetched_flatten [] hflat hahead.split htail
          have hrest :
              receiveLines connfd calls (w.setInput connfd (delivered left)) =
                  rest <->
                forall k, k ≤ rest.length ->
                  CutAt chunks (l ++ (rest.take k).flatten) := by
            apply drop_buffer_iff hahead hfetched htail
              (receiveLines_length_le connfd calls hinput hleft)
            intro hnil
            rw [hnil, List.nil_append] at htail
            exact ih (fun m hm => hlines m (List.mem_cons_of_mem l hm)) hleft
              htail hinput (Nat.le_of_succ_le_succ hcalls)
          rw [show
            receiveLines connfd (calls + 1) w =
              l :: receiveLines connfd calls
                (w.setInput connfd (delivered left)) by
            rw [receiveLines, hcall]
            rfl]
          constructor
          · intro h k hk
            cases k with
            | zero => exact cutAt_nil chunks
            | succ k =>
                exact hrest.mp (List.cons.inj h).right k
                  (Nat.le_of_succ_le_succ hk)
          · intro h
            rw [hrest.mpr fun k hk => h (k + 1) (Nat.succ_le_succ hk)]

/-!
# Handshake and messages
-/

theorem readHandshake_lines {s : ClientStream} {connfd : Fd} {w : World}
    {chunks : List Chunk} (hw : w.input connfd = delivered chunks)
    (hchunks : NonEmptyChunks chunks) (hstream : chunks.flatten = s.bytes) :
    exists ahead fetched left,
      readHandshake connfd w =
          .ok (some s.name, some s.sus, w.setInput connfd (delivered left)) ∧
        ahead ++ left.flatten = s.messages.flatten ∧
        ReadAhead [] chunks fetched left ahead := by
  unfold ClientStream.bytes at hstream
  rw [List.append_assoc] at hstream
  rcases RioReadlineb_line [] hw s.name_line hchunks hstream with
    ⟨mid, fetched, left, hname, htail, hmid⟩
  have hinput :
      (w.setInput connfd (delivered left)).input connfd = delivered left := by
    simp [World.setInput]
  rcases RioReadlineb_line mid hinput s.sus_line (hchunks.left hmid.split) htail with
    ⟨ahead, fetched', left', hsus, htail', hahead⟩
  refine ⟨ahead, fetched ++ fetched', left', ?_, htail', hmid.trans hahead⟩
  have hset :
      (w.setInput connfd (delivered left)).setInput connfd (delivered left') =
        w.setInput connfd (delivered left') := by
    simp [World.setInput]
  rw [hset] at hsus
  show (RioReadlineb (rioReadinitb connfd) MAXLINE w).bind _ = _
  rw [show rioReadinitb connfd = { rioFd := connfd, unread := [] } from rfl,
    hname]
  show (RioReadlineb _ MAXLINE (w.setInput connfd (delivered left))).bind _ = _
  rw [hsus]
  rfl

/--
The broker obtains the client's lines complete and in order exactly when a
`read` result ends with the handshake and with every message line.
-/
theorem obtainedLines_eq_iff_endsWithLines (s : ClientStream)
    (cut : Chunking s.bytes) (connfd : Fd) (calls : Nat) (w : World)
    (hw : w.input connfd = delivered cut.chunks)
    (hcalls : s.messages.length ≤ calls) :
    obtainedLines connfd calls w = s.name :: s.sus :: s.messages <->
      cut.EndsWithLines := by
  rcases readHandshake_lines hw cut.nonEmpty cut.spells with
    ⟨ahead, fetched, left, hread, htail, hahead⟩
  have hinput :
      (w.setInput connfd (delivered left)).input connfd = delivered left := by
    simp [World.setInput]
  have hleft := cut.nonEmpty.left hahead.split
  have hfetched : fetched.flatten = (s.name ++ s.sus) ++ ahead :=
    fetched_flatten [] cut.spells hahead.split htail
  have hmessages :
      receiveLines connfd calls (w.setInput connfd (delivered left)) =
          s.messages <->
        cut.EndsWithLines := by
    apply drop_buffer_iff hahead hfetched htail
      (receiveLines_length_le connfd calls hinput hleft)
    intro hnil
    rw [hnil, List.nil_append] at htail
    exact receiveLines_eq_iff connfd s.messages s.messages_line hleft htail
      hinput hcalls
  rw [← hmessages]
  unfold obtainedLines
  rw [hread]
  simp

theorem isLine_of_body {body : List Byte} (hfree : newline ∉ body)
    (hshort : body.length + 1 < MAXLINE) : IsLine (body ++ [newline]) where
  terminated := ⟨body, rfl, hfree⟩
  short := by simpa using hshort

def publisherStream : ClientStream where
  name := lit "node1" ++ [newline]
  sus := lit "NONE" ++ [newline]
  messages := [lit "293,290,0,35.2,0.0,55.223" ++ [newline]]
  name_line := isLine_of_body (by decide) (by decide)
  sus_line := isLine_of_body (by decide) (by decide)
  messages_line := by
    intro l hl
    cases List.mem_singleton.mp hl
    exact isLine_of_body (by decide) (by decide)

def oneRead : Chunking publisherStream.bytes where
  chunks := [publisherStream.bytes]
  nonEmpty := by
    intro c hc
    cases List.mem_singleton.mp hc
    decide
  bounded := by
    intro c hc
    cases List.mem_singleton.mp hc
    decide
  spells := by simp

def twoReads : Chunking publisherStream.bytes where
  chunks := [publisherStream.name ++ publisherStream.sus,
    publisherStream.messages.flatten]
  nonEmpty := by
    intro c hc
    rcases List.mem_cons.mp hc with rfl | hc
    · decide
    · cases List.mem_singleton.mp hc
      decide
  bounded := by
    intro c hc
    rcases List.mem_cons.mp hc with rfl | hc
    · decide
    · cases List.mem_singleton.mp hc
      decide
  spells := by simp [ClientStream.bytes]

def quietWorld (chunks : List Chunk) : World where
  input := fun _ => delivered chunks
  writes := fun _ => []
  sent := fun _ => []
  log := []

theorem obtainedLines_loses_readAhead :
    obtainedLines 4 1 (quietWorld oneRead.chunks) ≠
      publisherStream.name :: publisherStream.sus ::
        publisherStream.messages := by
  decide

theorem obtainedLines_separate_reads :
    obtainedLines 4 1 (quietWorld twoReads.chunks) =
      publisherStream.name :: publisherStream.sus ::
        publisherStream.messages := by
  apply (obtainedLines_eq_iff_endsWithLines publisherStream twoReads 4 1
    (quietWorld twoReads.chunks) rfl (Nat.le_refl 1)).mpr
  intro k hk
  match k, hk with
  | 0, _ => exact ⟨1, by decide⟩
  | 1, _ => exact ⟨2, by decide⟩

end Broker
end MQTTv1
