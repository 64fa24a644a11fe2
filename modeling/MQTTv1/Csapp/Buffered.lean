import MQTTv1.Csapp.Stream

/-!
# Reading a number of bytes

`rio_readn` calls `read` itself, `rio_readnb` goes through the buffer of a
`rio_t`.  Both return the next bytes of the stream, and calls of `rio_readnb` and
`rio_readlineb` on one `rio_t` may be mixed without losing a byte.
-/

namespace MQTTv1
namespace Csapp

open CLib

inductive BytesResult where
  | blocked
  /-- Returns -1. -/
  | error
  /-- Returns the number of bytes stored. -/
  | bytes (bs : List Byte)
deriving DecidableEq, Repr

/--
The loop of `rio_readn`.  A `read` takes no more than the bytes it asks for and
leaves the others to the next one.
-/
def readnLoop : Nat -> List Byte -> List ReadResult ->
    BytesResult × List ReadResult
  | 0, stored, input => (.bytes stored, input)
  | _ + 1, _, [] => (.blocked, [])
  | nleft + 1, stored, .eintr :: rest => readnLoop (nleft + 1) stored rest
  | _ + 1, _, .error :: rest => (.error, rest)
  | _ + 1, stored, .bytes [] :: rest => (.bytes stored, rest)
  | nleft + 1, stored, .bytes (b :: bs) :: rest =>
      if bs.length ≤ nleft then
        readnLoop (nleft - bs.length) (stored ++ b :: bs) rest
      else
        (.bytes (stored ++ b :: bs.take nleft), .bytes (bs.drop nleft) :: rest)

def rioReadn (n : Nat) (input : List ReadResult) :
    BytesResult × List ReadResult :=
  readnLoop n [] input

/-- The loop of `rio_readnb`; `rio_read` returns at least one byte of those left. -/
def readnbLoop (nleft : Nat) (stored : List Byte) (rp : Rio)
    (input : List ReadResult) : BytesResult × Rio × List ReadResult :=
  if _hleft : nleft = 0 then
    (.bytes stored, rp, input)
  else
    match rioRead rp nleft input with
    | none => (.blocked, rp, [])
    | some ((nread, bs), rp', rest) =>
        if _herror : nread < 0 then (.error, rp', rest)
        else if _heof : nread = 0 then (.bytes stored, rp', rest)
        else readnbLoop (nleft - nread.toNat) (stored ++ bs) rp' rest
termination_by nleft

def rioReadnb (rp : Rio) (n : Nat) (input : List ReadResult) :
    BytesResult × Rio × List ReadResult :=
  readnbLoop n [] rp input

/-- The next `n` bytes of a stream, or those in front of its end. -/
def bytesOf : Nat -> List Byte -> List Arrival -> BytesResult × List Arrival
  | 0, stored, stream => (.bytes stored, stream)
  | _ + 1, _, [] => (.blocked, [])
  | n + 1, stored, .byte b :: rest => bytesOf n (stored ++ [b]) rest
  | _ + 1, stored, .eof :: rest => (.bytes stored, rest)
  | _ + 1, _, .error :: rest => (.error, rest)

/-!
## Both loops read the stream
-/

theorem bytesOf_map_append :
    forall (bs stored : List Byte) {n : Nat} (stream : List Arrival),
      bs.length ≤ n ->
        bytesOf n stored (bs.map Arrival.byte ++ stream) =
          bytesOf (n - bs.length) (stored ++ bs) stream := by
  intro bs
  induction bs with
  | nil =>
      intro stored n stream _
      simp
  | cons b bs ih =>
      intro stored n stream hlen
      cases n with
      | zero => cases hlen
      | succ n =>
          have hrest := ih (stored ++ [b]) stream (Nat.le_of_succ_le_succ hlen)
          rw [List.map_cons, List.cons_append, bytesOf, hrest]
          simp

theorem bytesOf_take {bs : List Byte} {n : Nat} (hn : n ≤ bs.length)
    (stored : List Byte) (stream : List Arrival) :
    bytesOf n stored (bs.map Arrival.byte ++ stream) =
      (.bytes (stored ++ bs.take n),
        (bs.drop n).map Arrival.byte ++ stream) := by
  have htake : (bs.take n).length = n := by
    rw [List.length_take]
    lia
  have hsplit : bs.map Arrival.byte =
      (bs.take n).map Arrival.byte ++ (bs.drop n).map Arrival.byte := by
    rw [← List.map_append, List.take_append_drop]
  rw [hsplit, List.append_assoc,
    bytesOf_map_append _ _ _ (Nat.le_of_eq htake), htake, Nat.sub_self, bytesOf]

/-- The cut into `read` results makes no difference to `rio_readn`. -/
theorem readnLoop_stream (input : List ReadResult) :
    forall (nleft : Nat) (stored : List Byte),
      bytesOf nleft stored (arrivals input) =
        ((readnLoop nleft stored input).1,
          arrivals (readnLoop nleft stored input).2) := by
  induction input with
  | nil =>
      intro nleft stored
      cases nleft <;> rfl
  | cons r rest ih =>
      intro nleft stored
      cases nleft with
      | zero => simp [readnLoop, bytesOf]
      | succ nleft =>
          match r with
          | .eintr => exact ih (nleft + 1) stored
          | .error => rfl
          | .bytes [] => rfl
          | .bytes (b :: bs) =>
              rw [arrivals_bytes_cons, bytesOf, readnLoop]
              by_cases hfits : bs.length ≤ nleft
              · rw [if_pos hfits, bytesOf_map_append bs _ _ hfits,
                  List.append_assoc]
                exact ih (nleft - bs.length) (stored ++ b :: bs)
              · rw [if_neg hfits]
                -- the chunk goes beyond the request
                rw [bytesOf_take (by lia), List.append_assoc]
                cases hdrop : bs.drop nleft with
                | nil =>
                    have hlen := congrArg List.length hdrop
                    rw [List.length_drop, List.length_nil] at hlen
                    lia
                | cons c more => simp

/-- What one `rio_read` takes from the stream. -/
theorem rioRead_stream (rp : Rio) {n : Nat} (hn : 0 < n)
    (input : List ReadResult) :
    (rioRead rp n input = none ∧ rp.stream input = []) ∨
      exists nread bs rp' rest,
        rioRead rp n input = some ((nread, bs), rp', rest) ∧
          rp'.rioFd = rp.rioFd ∧
          ((nread < 0 ∧ rp.stream input = .error :: rp'.stream rest) ∨
            (nread = 0 ∧ rp.stream input = .eof :: rp'.stream rest) ∨
            (nread = bs.length ∧ 0 < bs.length ∧ bs.length ≤ n ∧
              rp.stream input =
                bs.map Arrival.byte ++ rp'.stream rest)) := by
  rcases rp with ⟨fd, unread⟩
  -- bytes in the buffer are handed out up to the number requested
  have hbuffer : forall (b : Byte) (bs : List Byte) (rest : List ReadResult),
      (min (n : Int) (b :: bs).length = ((b :: bs).take n).length ∧
        0 < ((b :: bs).take n).length ∧ ((b :: bs).take n).length ≤ n) ∧
      (b :: bs).map Arrival.byte ++ arrivals rest =
        ((b :: bs).take n).map Arrival.byte ++
          Rio.stream { rioFd := fd, unread := (b :: bs).drop n } rest := by
    intro b bs rest
    constructor
    · simp only [List.length_take, List.length_cons]
      lia
    · unfold Rio.stream
      rw [← List.append_assoc, ← List.map_append, List.take_append_drop]
  cases unread with
  | cons b bs =>
      right
      rcases hbuffer b bs input with ⟨⟨hmin, hpos, hle⟩, hstream⟩
      refine ⟨_, _, _, _, rfl, rfl, Or.inr (Or.inr ⟨hmin, hpos, hle, ?_⟩)⟩
      exact hstream
  | nil =>
      induction input with
      | nil => exact Or.inl ⟨rfl, rfl⟩
      | cons r rest ih =>
          match r with
          | .eintr => exact ih
          | .error =>
              right
              exact ⟨-1, [], _, rest, rfl, rfl, Or.inl ⟨by decide, rfl⟩⟩
          | .bytes [] =>
              right
              exact ⟨0, [], _, rest, rfl, rfl, Or.inr (Or.inl ⟨rfl, rfl⟩)⟩
          | .bytes (b :: bs) =>
              right
              rcases hbuffer b bs rest with ⟨⟨hmin, hpos, hle⟩, hstream⟩
              have hcount : ¬ ((b :: bs).length : Int) ≤ 0 := by
                simp only [List.length_cons]
                lia
              refine ⟨_, _, { rioFd := fd, unread := (b :: bs).drop n }, rest,
                ?_, rfl, Or.inr (Or.inr ⟨hmin, hpos, hle, ?_⟩)⟩
              · simp only [rioRead, refill, if_neg hcount]
              · rw [← hstream]
                simp [Rio.stream]

theorem readnbLoop_stream (nleft : Nat) :
    forall (stored : List Byte) (rp : Rio) (input : List ReadResult),
      exists result rp' rest,
        readnbLoop nleft stored rp input = (result, rp', rest) ∧
          rp'.rioFd = rp.rioFd ∧
          bytesOf nleft stored (rp.stream input) =
            (result, rp'.stream rest) := by
  induction nleft using Nat.strongRecOn with
  | ind nleft ih =>
      intro stored rp input
      unfold readnbLoop
      cases nleft with
      | zero => exact ⟨_, _, _, rfl, rfl, rfl⟩
      | succ n =>
          rw [dif_neg (Nat.succ_ne_zero n)]
          rcases rioRead_stream rp (Nat.succ_pos n) input with
            ⟨hread, hstream⟩ |
            ⟨nread, bs, rp', rest, hread, hfd,
              ⟨hneg, hstream⟩ | ⟨rfl, hstream⟩ | ⟨rfl, hpos, hle, hstream⟩⟩
          · rw [hread, hstream]
            refine ⟨_, _, _, rfl, rfl, ?_⟩
            have hempty : rp.stream [] = [] := by
              unfold Rio.stream at hstream ⊢
              rw [(List.append_eq_nil_iff.mp hstream).left]
              rfl
            rw [hempty]
            rfl
          · rw [hread, hstream]
            simp only [dif_pos hneg]
            exact ⟨_, _, _, rfl, hfd, rfl⟩
          · rw [hread, hstream]
            exact ⟨_, _, _, rfl, hfd, rfl⟩
          · rw [hread, hstream]
            simp only [dif_neg (show ¬ (bs.length : Int) < 0 by lia),
              dif_neg (show ¬ (bs.length : Int) = 0 by lia)]
            rw [Int.toNat_natCast, bytesOf_map_append bs _ _ hle]
            rcases ih (n + 1 - bs.length) (by lia) (stored ++ bs) rp' rest with
              ⟨result, rp'', rest', hloop, hfd', hbytes⟩
            exact ⟨result, rp'', rest', hloop, hfd'.trans hfd, hbytes⟩

/-- The bytes of a stream, without its ends and errors. -/
def payload (stream : List Arrival) : List Byte :=
  stream.flatMap fun arrival =>
    match arrival with
    | .byte b => [b]
    | .eof => []
    | .error => []

@[simp] theorem payload_byte (b : Byte) (rest : List Arrival) :
    payload (.byte b :: rest) = b :: payload rest :=
  rfl

/-!
## With a buffer and without

Both functions return the first `n` bytes of the stream, or fewer where it ends,
and both leave the rest of it.
-/

theorem rioReadn_agrees (fd : Fd) (n : Nat) (input : List ReadResult) :
    exists result rp rest,
      rioReadnb (rioReadinitb fd) n input = (result, rp, rest) ∧
        (rioReadn n input).1 = result ∧
        arrivals (rioReadn n input).2 = rp.stream rest ∧
        forall (bs : List Byte) (more : List Arrival),
          arrivals input = bs.map Arrival.byte ++ more ->
            (n ≤ bs.length -> result = .bytes (bs.take n) ∧
              rp.stream rest = (bs.drop n).map Arrival.byte ++ more) ∧
            (bs.length < n -> forall later, more = .eof :: later ->
              result = .bytes bs ∧ rp.stream rest = later) := by
  rcases readnbLoop_stream n [] (rioReadinitb fd) input with
    ⟨result, rp, rest, hloop, _, hbytes⟩
  have hstream : (rioReadinitb fd).stream input = arrivals input := rfl
  rw [hstream] at hbytes
  have hplain := readnLoop_stream input n []
  rw [hbytes] at hplain
  rcases Prod.mk.inj hplain with ⟨hresult, hleft⟩
  refine ⟨result, rp, rest, hloop, hresult.symm, hleft.symm, ?_⟩
  intro bs more hinput
  rw [hinput] at hbytes
  constructor
  · intro hle
    rw [bytesOf_take hle, List.nil_append] at hbytes
    rcases Prod.mk.inj hbytes with ⟨htaken, hrest⟩
    exact ⟨htaken.symm, hrest.symm⟩
  · rintro hlt later rfl
    rw [bytesOf_map_append bs [] _ (Nat.le_of_lt hlt), List.nil_append] at hbytes
    cases hn : n - bs.length with
    | zero => lia
    | succ k =>
        rw [hn, bytesOf] at hbytes
        rcases Prod.mk.inj hbytes with ⟨htaken, hrest⟩
        exact ⟨htaken.symm, hrest.symm⟩

/-!
# Mixed calls on one buffer
-/

inductive Request where
  | readlineb (maxlen : Nat)
  | readnb (n : Nat)
deriving DecidableEq, Repr

/-- At the end of the file `rio_readlineb` returns 0, as `rio_readnb` does. -/
def LineResult.answer : LineResult -> BytesResult
  | .blocked => .blocked
  | .eof => .bytes []
  | .error => .error
  | .line bs => .bytes bs

def Rio.answer (rp : Rio) (input : List ReadResult) :
    Request -> BytesResult × Rio × List ReadResult
  | .readlineb maxlen =>
      let (result, rp', rest) := rioReadlineb rp maxlen input
      (result.answer, rp', rest)
  | .readnb n => rioReadnb rp n input

def Rio.answers : List Request -> Rio -> List ReadResult ->
    List BytesResult × Rio × List ReadResult
  | [], rp, input => ([], rp, input)
  | request :: more, rp, input =>
      match rp.answer input request with
      | (.bytes bs, rp', rest) =>
          let later := answers more rp' rest
          (.bytes bs :: later.1, later.2)
      | (failure, rp', rest) => ([failure], rp', rest)

def answerOf (stream : List Arrival) : Request -> BytesResult × List Arrival
  | .readlineb maxlen =>
      let (result, rest) := lineOf (maxlen - 1) [] stream
      (result.answer, rest)
  | .readnb n => bytesOf n [] stream

def answersOf : List Request -> List Arrival ->
    List BytesResult × List Arrival
  | [], stream => ([], stream)
  | request :: more, stream =>
      match answerOf stream request with
      | (.bytes bs, rest) =>
          let later := answersOf more rest
          (.bytes bs :: later.1, later.2)
      | (failure, rest) => ([failure], rest)

def BytesResult.given : BytesResult -> List Byte
  | .bytes bs => bs
  | _ => []

def BytesResult.Failed (result : BytesResult) : Prop :=
  result = .blocked ∨ result = .error

def handedOut (results : List BytesResult) : List Byte :=
  results.flatMap BytesResult.given

theorem Rio.answer_stream (rp : Rio) (input : List ReadResult)
    (request : Request) :
    exists result rp' rest, rp.answer input request = (result, rp', rest) ∧
      answerOf (rp.stream input) request = (result, rp'.stream rest) := by
  cases request with
  | readlineb maxlen =>
      rcases rioReadlineb_stream rp maxlen input with
        ⟨result, rp', rest, hread, _, hline⟩
      refine ⟨result.answer, rp', rest, ?_, ?_⟩
      · simp [Rio.answer, hread]
      · simp [answerOf, hline]
  | readnb n =>
      rcases readnbLoop_stream n [] rp input with
        ⟨result, rp', rest, hread, _, hbytes⟩
      exact ⟨result, rp', rest, hread, hbytes⟩

/-- What a call takes without returning it is lost. -/
structure Accounts (result : BytesResult) (before after lost : List Byte) :
    Prop where
  bytes : before = result.given ++ lost ++ after
  failed : lost ≠ [] -> result.Failed

theorem accounts_returned (bs after : List Byte) :
    Accounts (.bytes bs) (bs ++ after) after [] where
  bytes := by simp [BytesResult.given]
  failed := fun h => absurd rfl h

theorem accounts_blocked (before : List Byte) :
    Accounts .blocked before [] before where
  bytes := by simp [BytesResult.given]
  failed := fun _ => Or.inl rfl

theorem accounts_error (stored after : List Byte) :
    Accounts .error (stored ++ after) after stored where
  bytes := by simp [BytesResult.given]
  failed := fun _ => Or.inr rfl

theorem lineOf_accounts :
    forall (budget : Nat) (stored : List Byte) (stream : List Arrival),
      exists lost, Accounts (lineOf budget stored stream).1.answer
        (stored ++ payload stream) (payload (lineOf budget stored stream).2)
          lost := by
  intro budget
  induction budget with
  | zero =>
      intro stored stream
      exact ⟨[], accounts_returned stored _⟩
  | succ budget ih =>
      intro stored stream
      match stream with
      | [] => exact ⟨_, accounts_blocked _⟩
      | .error :: tail => exact ⟨stored, accounts_error stored _⟩
      | .eof :: tail =>
          unfold lineOf
          split
          · rename_i hnil
            rw [hnil]
            exact ⟨[], accounts_returned [] _⟩
          · exact ⟨[], accounts_returned stored _⟩
      | .byte b :: tail =>
          have hmoved : stored ++ payload (.byte b :: tail) =
              (stored ++ [b]) ++ payload tail := by
            simp
          unfold lineOf
          rw [hmoved]
          split
          · exact ⟨[], accounts_returned (stored ++ [b]) _⟩
          · exact ih (stored ++ [b]) tail

theorem bytesOf_accounts :
    forall (n : Nat) (stored : List Byte) (stream : List Arrival),
      exists lost, Accounts (bytesOf n stored stream).1
        (stored ++ payload stream) (payload (bytesOf n stored stream).2)
          lost := by
  intro n
  induction n with
  | zero =>
      intro stored stream
      exact ⟨[], accounts_returned stored _⟩
  | succ n ih =>
      intro stored stream
      match stream with
      | [] => exact ⟨_, accounts_blocked _⟩
      | .error :: tail => exact ⟨stored, accounts_error stored _⟩
      | .eof :: tail => exact ⟨[], accounts_returned stored _⟩
      | .byte b :: tail =>
          have hmoved : stored ++ payload (.byte b :: tail) =
              (stored ++ [b]) ++ payload tail := by
            simp
          rw [hmoved]
          exact ih (stored ++ [b]) tail

theorem answerOf_accounts (stream : List Arrival) (request : Request) :
    exists lost, Accounts (answerOf stream request).1 (payload stream)
      (payload (answerOf stream request).2) lost := by
  cases request with
  | readlineb maxlen => exact lineOf_accounts (maxlen - 1) [] stream
  | readnb n => exact bytesOf_accounts n [] stream

theorem answersOf_accounts :
    forall (requests : List Request) (stream : List Arrival),
      exists lost,
        payload stream = handedOut (answersOf requests stream).1 ++ lost ++
          payload (answersOf requests stream).2 ∧
        (lost ≠ [] -> exists result,
          result ∈ (answersOf requests stream).1 ∧ result.Failed) := by
  intro requests
  induction requests with
  | nil =>
      intro stream
      exact ⟨[], by simp [answersOf, handedOut], fun h => absurd rfl h⟩
  | cons request more ih =>
      intro stream
      rcases answerOf_accounts stream request with ⟨lost, hbytes, hfailed⟩
      unfold answersOf
      rcases hanswer : answerOf stream request with ⟨result, rest⟩
      rw [hanswer] at hbytes hfailed
      cases result with
      | bytes bs =>
          have hnone : lost = [] := by
            by_contra hlost
            rcases hfailed hlost with h | h <;> cases h
          rcases ih rest with ⟨later, hlater, hreason⟩
          refine ⟨later, ?_, ?_⟩
          · rw [hbytes, hnone, hlater]
            simp [handedOut, BytesResult.given]
          · intro hne
            rcases hreason hne with ⟨failure, hmem, hfailure⟩
            exact ⟨failure, List.mem_cons_of_mem _ hmem, hfailure⟩
      | blocked | error =>
          refine ⟨lost, ?_, fun hlost => ⟨_, List.mem_singleton_self _,
            hfailed hlost⟩⟩
          rw [hbytes]
          simp [handedOut]

theorem Rio.answers_stream :
    forall (requests : List Request) (rp : Rio) (input : List ReadResult),
      exists results rp' rest,
        Rio.answers requests rp input = (results, rp', rest) ∧
          answersOf requests (rp.stream input) =
            (results, rp'.stream rest) := by
  intro requests
  induction requests with
  | nil =>
      intro rp input
      exact ⟨_, _, _, rfl, rfl⟩
  | cons request more ih =>
      intro rp input
      rcases rp.answer_stream input request with
        ⟨result, rp', rest, hcall, hanswer⟩
      unfold Rio.answers answersOf
      rw [hcall, hanswer]
      cases result with
      | bytes bs =>
          rcases ih rp' rest with ⟨results, rp'', rest', hcalls, hanswers⟩
          simp only [hcalls, hanswers]
          exact ⟨_, _, _, rfl, rfl⟩
      | blocked | error => exact ⟨_, _, _, rfl, rfl⟩

/--
However the bytes arrive and whichever calls take them, the results are those of
the stream.  They return it without a gap: only a call that fails drops bytes.
-/
theorem answers_lossless (requests : List Request) (rp : Rio)
    (input : List ReadResult) :
    exists results rp' rest lost,
      Rio.answers requests rp input = (results, rp', rest) ∧
        answersOf requests (rp.stream input) = (results, rp'.stream rest) ∧
        payload (rp.stream input) =
          handedOut results ++ lost ++ payload (rp'.stream rest) ∧
        (lost ≠ [] -> exists result, result ∈ results ∧ result.Failed) := by
  rcases rp.answers_stream requests input with
    ⟨results, rp', rest, hcalls, hanswers⟩
  rcases answersOf_accounts requests (rp.stream input) with
    ⟨lost, hbytes, hreason⟩
  rw [hanswers] at hbytes hreason
  exact ⟨results, rp', rest, lost, hcalls, hanswers, hbytes, hreason⟩

/-- The line starts where the number of bytes has ended. -/
example :
    answersOf [.readnb 3, .readlineb MAXLINE]
        (arrivals [.bytes (lit "ab"), .eintr,
          .bytes (lit "cd" ++ [newline]), .bytes (lit "e")]) =
      ([.bytes (lit "abc"), .bytes (lit "d" ++ [newline])],
        [.byte 101]) := by
  decide

end Csapp
end MQTTv1
