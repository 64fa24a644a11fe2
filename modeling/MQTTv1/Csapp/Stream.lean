import MQTTv1.Csapp.Lines

/-!
# Streams

What a reader sees of a descriptor is a sequence of bytes, with ends of the file
and errors in between.  `rio_readlineb` depends on that sequence only: neither
the cut into `read` results nor interrupted calls make a difference to it.
-/

namespace MQTTv1
namespace Csapp

open CLib

inductive Arrival where
  | byte (b : Byte)
  | eof
  | error
deriving DecidableEq, Repr

def arrivals : List ReadResult -> List Arrival
  | [] => []
  | .eintr :: rest => arrivals rest
  | .error :: rest => .error :: arrivals rest
  | .bytes [] :: rest => .eof :: arrivals rest
  | .bytes bs :: rest => bs.map Arrival.byte ++ arrivals rest

/-- What a reader has in front of it. -/
def Rio.stream (rp : Rio) (input : List ReadResult) : List Arrival :=
  rp.unread.map Arrival.byte ++ arrivals input

/-- The next line of a stream, of at most `budget` more bytes. -/
def lineOf : Nat -> List Byte -> List Arrival -> LineResult × List Arrival
  | 0, stored, stream => (.line stored, stream)
  | _ + 1, _, [] => (.blocked, [])
  | budget + 1, stored, .byte b :: rest =>
      if b = newline then (.line (stored ++ [b]), rest)
      else lineOf budget (stored ++ [b]) rest
  | _ + 1, stored, .eof :: rest =>
      if stored = [] then (.eof, rest) else (.line stored, rest)
  | _ + 1, _, .error :: rest => (.error, rest)

@[simp] theorem arrivals_bytes_cons (b : Byte) (bs : List Byte)
    (rest : List ReadResult) :
    arrivals (.bytes (b :: bs) :: rest) =
      .byte b :: (bs.map Arrival.byte ++ arrivals rest) := by
  simp [arrivals]

theorem readLoop_stream (fd : Fd) :
    forall (budget : Nat) (stored unread : List Byte)
      (input : List ReadResult),
      exists result rp rest,
        readLoop budget stored { rioFd := fd, unread := unread } input =
          (result, rp, rest) ∧
        rp.rioFd = fd ∧
        lineOf budget stored
            (Rio.stream { rioFd := fd, unread := unread } input) =
          (result, rp.stream rest) := by
  intro budget
  induction budget with
  | zero =>
      intro stored unread input
      exact ⟨_, _, _, rfl, rfl, rfl⟩
  | succ budget ih =>
      intro stored
      -- one byte, wherever it comes from, and then the rest of the line
      have hbyte : forall (unread : List Byte) (input : List ReadResult)
          (b : Byte) (tail : List Byte) (later : List ReadResult),
          rioRead { rioFd := fd, unread := unread } 1 input =
            some ((1, [b]), { rioFd := fd, unread := tail }, later) ->
          Rio.stream { rioFd := fd, unread := unread } input =
            .byte b :: Rio.stream { rioFd := fd, unread := tail } later ->
          exists result rp rest,
            readLoop (budget + 1) stored { rioFd := fd, unread := unread }
                input = (result, rp, rest) ∧
              rp.rioFd = fd ∧
              lineOf (budget + 1) stored
                  (Rio.stream { rioFd := fd, unread := unread } input) =
                (result, rp.stream rest) := by
        intro unread input b tail later hread hstream
        rw [hstream, lineOf]
        by_cases hb : b = newline
        · refine ⟨.line (stored ++ [b]), _, later, ?_, rfl, by rw [if_pos hb]⟩
          simp [readLoop, hread, hb]
        · rcases ih (stored ++ [b]) tail later with
            ⟨result, rp, rest, hloop, hfd, hline⟩
          refine ⟨result, rp, rest, ?_, hfd, by rw [if_neg hb, hline]⟩
          simpa [readLoop, hread, hb] using hloop
      intro unread input
      cases unread with
      | cons b tail =>
          exact hbyte _ input b tail input (rioRead_one_unread fd b tail input)
            rfl
      | nil =>
          induction input with
          | nil => exact ⟨.blocked, _, [], rfl, rfl, rfl⟩
          | cons r later ihInput =>
              cases r with
              | eintr => exact ihInput
              | error => exact ⟨.error, _, later, rfl, rfl, rfl⟩
              | bytes bs =>
                  cases bs with
                  | cons b tail =>
                      apply hbyte [] _ b tail later
                      · exact rioRead_one_chunk fd b tail later
                      · exact arrivals_bytes_cons b tail later
                  | nil =>
                      cases stored with
                      | nil => exact ⟨.eof, _, later, rfl, rfl, rfl⟩
                      | cons c stored =>
                          exact ⟨.line (c :: stored), _, later, rfl, rfl, rfl⟩

/-- A call returns the next line of its stream and leaves the rest of it. -/
theorem rioReadlineb_stream (rp : Rio) (maxlen : Nat)
    (input : List ReadResult) :
    exists result rp' rest,
      rioReadlineb rp maxlen input = (result, rp', rest) ∧
      rp'.rioFd = rp.rioFd ∧
      lineOf (maxlen - 1) [] (rp.stream input) = (result, rp'.stream rest) :=
  readLoop_stream rp.rioFd (maxlen - 1) [] rp.unread input

def LineResult.returned : LineResult -> Option (Option (List Byte))
  | .blocked => none
  | .error => none
  | .eof => some none
  | .line bs => some (some bs)

theorem RioReadlineb_stream (rp : Rio) (maxlen : Nat) (w : World) :
    (exists stop, RioReadlineb rp maxlen w = .error stop ∧
        (lineOf (maxlen - 1) [] (rp.stream (w.input rp.rioFd))).1.returned =
          none) ∨
      exists line rp' rest,
        RioReadlineb rp maxlen w =
            .ok (line, rp', w.setInput rp.rioFd rest) ∧
          rp'.rioFd = rp.rioFd ∧
          (lineOf (maxlen - 1) [] (rp.stream (w.input rp.rioFd))).1.returned =
            some line ∧
          (lineOf (maxlen - 1) [] (rp.stream (w.input rp.rioFd))).2 =
            rp'.stream rest := by
  rcases rioReadlineb_stream rp maxlen (w.input rp.rioFd) with
    ⟨result, rp', rest, hread, hfd, hline⟩
  unfold RioReadlineb
  rw [hread, hline]
  cases result with
  | blocked => exact Or.inl ⟨.blocked, rfl, rfl⟩
  | error => exact Or.inl ⟨.exited, rfl, rfl⟩
  | eof => exact Or.inr ⟨none, rp', rest, rfl, hfd, rfl, rfl⟩
  | line bs => exact Or.inr ⟨some bs, rp', rest, rfl, hfd, rfl, rfl⟩

end Csapp
end MQTTv1
