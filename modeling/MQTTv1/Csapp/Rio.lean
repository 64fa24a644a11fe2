import Mathlib.Data.Int.Basic
import MQTTv1.CLib.CString

/-!
# Robust I/O

The part of the Rio package that the programs use.  A descriptor is seen through
the results its `read` and `write` calls will return: the calls a peer and the
kernel have not answered yet are missing from the lists, so a `read` on an empty
list blocks.
-/

namespace MQTTv1
namespace Csapp

open CLib

abbrev Fd := Int

/-- What one `read` call returns.  No bytes at all is the end of the file. -/
inductive ReadResult where
  | bytes (bs : List Byte)
  | eintr
  | error
deriving DecidableEq, Repr

/-- What one `write` call of at least one byte returns. -/
inductive WriteResult where
  | accepted (count : Nat) (pos : 0 < count)
  | eintr
  | error
deriving DecidableEq, Repr

def RIO_BUFSIZE : Nat := 8192

def MAXLINE : Nat := 8192

/-- The internal buffer of `rio_t`, given by its unread bytes. -/
structure Rio where
  rioFd : Fd
  unread : List Byte
deriving DecidableEq, Repr

def rioReadinitb (fd : Fd) : Rio where
  rioFd := fd
  unread := []

/-!
# Reading

`rio_read` refills an empty buffer with one `read` call, retried as long as it
is interrupted, and hands out at most the requested number of bytes.
-/

/-- The refill loop: the count `read` returned last and the bytes it stored. -/
def refill : List ReadResult -> Option (Int × List Byte × List ReadResult)
  | [] => none
  | .eintr :: rest => refill rest
  | .error :: rest => some (-1, [], rest)
  | .bytes bs :: rest => some (bs.length, bs, rest)

/-- Bytes handed out, as a return code and the bytes themselves. -/
def rioRead (rp : Rio) (n : Nat) (input : List ReadResult) :
    Option ((Int × List Byte) × Rio × List ReadResult) :=
  match rp.unread with
  | [] =>
      match refill input with
      | none => none
      | some (count, bs, rest) =>
          if count ≤ 0 then
            some ((count, []), rp, rest)
          else
            some ((min n bs.length, bs.take n),
              { rp with unread := bs.drop n }, rest)
  | bs =>
      some ((min n bs.length, bs.take n), { rp with unread := bs.drop n },
        input)

inductive LineResult where
  | blocked
  /-- Returns 0 and leaves the user buffer as it was. -/
  | eof
  /-- Returns -1. -/
  | error
  /-- Returns the number of bytes stored in front of the terminator. -/
  | line (bs : List Byte)
deriving DecidableEq, Repr

/--
The loop of `rio_readlineb`.  `budget` counts the bytes that still fit in
front of the terminator and `stored` holds the bytes behind `usrbuf`.
-/
def readLoop : Nat -> List Byte -> Rio -> List ReadResult ->
    LineResult × Rio × List ReadResult
  | 0, stored, rp, input => (.line stored, rp, input)
  | budget + 1, stored, rp, input =>
      match rioRead rp 1 input with
      | none => (.blocked, rp, [])
      | some ((rc, bs), rp', rest) =>
          if rc = 1 then
            if bs.headD 0 = newline then
              (.line (stored ++ [bs.headD 0]), rp', rest)
            else
              readLoop budget (stored ++ [bs.headD 0]) rp' rest
          else if rc = 0 then
            if stored = [] then (.eof, rp', rest)
            else (.line stored, rp', rest)
          else
            (.error, rp', rest)

def rioReadlineb (rp : Rio) (maxlen : Nat) (input : List ReadResult) :
    LineResult × Rio × List ReadResult :=
  readLoop (maxlen - 1) [] rp input

/-!
# Writing
-/

/--
`rio_writen` calls `write` until every byte is accepted.  The result is the
bytes the peer received and whether the call returned without an error.  Calls
without a listed result accept everything.
-/
def rioWriten : List Byte -> List WriteResult ->
    List Byte × Bool × List WriteResult
  | [], results => ([], true, results)
  | buf, [] => (buf, true, [])
  | buf, .eintr :: results => rioWriten buf results
  | _, .error :: results => ([], false, results)
  | buf, .accepted count _ :: results =>
      let tail := rioWriten (buf.drop count) results
      (buf.take count ++ tail.1, tail.2)

/-!
# Descriptors of a process

The wrappers with a capital letter end the process when the call they wrap
fails.
-/

/-- Why a program does not go on. -/
inductive Stop where
  /-- A call waits for input that never comes. -/
  | blocked
  /-- `unix_error` called `exit`. -/
  | exited
  /-- An access outside an array or through NULL. -/
  | undefined
deriving DecidableEq, Repr

/-- A pointer that is used without a test for NULL. -/
def orUndefined : Option value -> Except Stop value
  | some v => .ok v
  | none => .error .undefined

@[simp] theorem orUndefined_eq_ok {v : value} {pointer : Option value} :
    orUndefined pointer = .ok v <-> pointer = some v := by
  cases pointer <;> simp [orUndefined]

theorem bind_eq_ok {call : Except Stop value}
    {next : value -> Except Stop result} {r : result} :
    (call >>= next) = .ok r <-> exists v, call = .ok v ∧ next v = .ok r := by
  cases call <;> simp [bind, Except.bind]

theorem exists_of_map_ok {call : Except Stop value} {f : value -> result}
    {r : result} (h : call.map f = .ok r) :
    exists v, call = .ok v ∧ f v = r := by
  cases call with
  | error stop => cases h
  | ok v => exact ⟨v, rfl, Except.ok.inj h⟩

/-- The outside of a process: its sockets and its log. -/
structure World where
  input : Fd -> List ReadResult
  writes : Fd -> List WriteResult
  sent : Fd -> List Byte
  log : List CStr

def World.setInput (w : World) (fd : Fd) (rest : List ReadResult) : World :=
  { w with input := Function.update w.input fd rest }

def writeLog (msg : CStr) (w : World) : World :=
  { w with log := w.log ++ [msg] }

/-- The line read, or nothing at the end of the file. -/
def RioReadlineb (rp : Rio) (maxlen : Nat) (w : World) :
    Except Stop (Option (List Byte) × Rio × World) :=
  match rioReadlineb rp maxlen (w.input rp.rioFd) with
  | (.blocked, _, _) => .error .blocked
  | (.error, _, _) => .error .exited
  | (.eof, rp', rest) => .ok (none, rp', w.setInput rp.rioFd rest)
  | (.line bs, rp', rest) => .ok (some bs, rp', w.setInput rp.rioFd rest)

def RioWriten (fd : Fd) (buf : List Byte) (w : World) : Except Stop World :=
  match rioWriten buf (w.writes fd) with
  | (_, false, _) => .error .exited
  | (bs, true, results) =>
      .ok { w with
        writes := Function.update w.writes fd results
        sent := Function.update w.sent fd (w.sent fd ++ bs) }

theorem rioWriten_complete :
    forall (results : List WriteResult) {buf bs : List Byte}
      {rest : List WriteResult},
      rioWriten buf results = (bs, true, rest) -> bs = buf := by
  intro results
  induction results with
  | nil =>
      intro buf bs rest h
      cases buf <;> (cases h; rfl)
  | cons r results ih =>
      intro buf bs rest h
      cases buf with
      | nil =>
          cases h
          rfl
      | cons b buf =>
          cases r with
          | eintr => exact ih h
          | error => cases h
          | accepted count _ =>
              have htail :
                  rioWriten ((b :: buf).drop count) results =
                    ((rioWriten ((b :: buf).drop count) results).1,
                      true, rest) := by
                exact Prod.ext rfl (Prod.mk.inj h).right
              have hdrop := ih htail
              rw [← (Prod.mk.inj h).left]
              simp only [hdrop]
              exact List.take_append_drop count (b :: buf)

/-- A peer that takes at least a byte whenever `write` is not interrupted. -/
def Accepting (results : List WriteResult) : Prop :=
  forall r, r ∈ results -> r ≠ .error

theorem rioWriten_accepting :
    forall {results : List WriteResult} (buf : List Byte), Accepting results ->
      exists rest, rioWriten buf results = (buf, true, rest) ∧
        Accepting rest := by
  intro results
  induction results with
  | nil =>
      intro buf _
      refine ⟨[], ?_, by simp [Accepting]⟩
      cases buf <;> rfl
  | cons r results ih =>
      intro buf hall
      have htail : Accepting results :=
        fun q hq => hall q (List.mem_cons_of_mem r hq)
      have hr := hall r List.mem_cons_self
      cases buf with
      | nil => exact ⟨r :: results, rfl, hall⟩
      | cons b buf =>
          cases r with
          | eintr => exact ih (b :: buf) htail
          | error => exact absurd rfl hr
          | accepted count _ =>
              rcases ih ((b :: buf).drop count) htail with
                ⟨rest, hrest, haccepting⟩
              refine ⟨rest, ?_, haccepting⟩
              simp only [rioWriten, hrest]
              rw [List.take_append_drop]

theorem RioWriten_accepting {fd : Fd} {w : World}
    (hw : Accepting (w.writes fd)) (buf : List Byte) :
    exists w', RioWriten fd buf w = .ok w' ∧ Accepting (w'.writes fd) := by
  rcases rioWriten_accepting buf hw with ⟨rest, hrest, haccepting⟩
  unfold RioWriten
  rw [hrest]
  refine ⟨_, rfl, ?_⟩
  simpa using haccepting

theorem RioWriten_ok {fd : Fd} {buf : List Byte} {w w' : World}
    (h : RioWriten fd buf w = .ok w') :
    w'.input = w.input ∧
      w'.sent = Function.update w.sent fd (w.sent fd ++ buf) := by
  unfold RioWriten at h
  rcases hwrite : rioWriten buf (w.writes fd) with ⟨bs, _ | _, results⟩
  · rw [hwrite] at h
    cases h
  · rw [hwrite] at h
    cases h
    rw [rioWriten_complete _ hwrite]
    exact ⟨rfl, rfl⟩

/-!
# Failing writes

Whether a text gets through depends on its length and on what the calls accept
before one of them fails.
-/

/-- The calls that are left when `count` bytes are accepted, unless one fails. -/
def accepts : Nat -> List WriteResult -> Option (List WriteResult)
  | 0, results => some results
  | _ + 1, [] => some []
  | n + 1, .eintr :: results => accepts (n + 1) results
  | _ + 1, .error :: _ => none
  | n + 1, .accepted count _ :: results => accepts (n + 1 - count) results

/-- Texts of these lengths get through, one after the other. -/
def acceptsAll : List Nat -> List WriteResult -> Bool
  | [], _ => true
  | n :: lengths, results =>
      match accepts n results with
      | none => false
      | some rest => acceptsAll lengths rest

theorem rioWriten_accepts :
    forall (results : List WriteResult) (buf : List Byte),
      (forall rest, accepts buf.length results = some rest ->
        rioWriten buf results = (buf, true, rest)) ∧
      (accepts buf.length results = none ->
        (rioWriten buf results).2.1 = false) := by
  intro results
  induction results with
  | nil =>
      intro buf
      cases buf <;> simp [accepts, rioWriten]
  | cons r results ih =>
      intro buf
      cases buf with
      | nil => simp [accepts, rioWriten]
      | cons b buf =>
          match r with
          | .eintr => exact ih (b :: buf)
          | .error => simp [accepts, rioWriten]
          | .accepted count _ =>
              have htail := ih ((b :: buf).drop count)
              have hlength : ((b :: buf).drop count).length =
                  buf.length + 1 - count := by
                simp
              rw [hlength] at htail
              simp only [List.length_cons, accepts, rioWriten]
              constructor
              · intro rest hrest
                rw [htail.left rest hrest, List.take_append_drop]
              · exact htail.right

theorem RioWriten_accepts (fd : Fd) (buf : List Byte) (w : World) :
    (forall rest, accepts buf.length (w.writes fd) = some rest ->
      RioWriten fd buf w = .ok { w with
        writes := Function.update w.writes fd rest
        sent := Function.update w.sent fd (w.sent fd ++ buf) }) ∧
    (accepts buf.length (w.writes fd) = none ->
      RioWriten fd buf w = .error .exited) := by
  rcases rioWriten_accepts (w.writes fd) buf with ⟨haccepted, hfailed⟩
  unfold RioWriten
  constructor
  · intro rest hrest
    rw [haccepted rest hrest]
  · intro hnone
    have hfalse := hfailed hnone
    rcases hwrite : rioWriten buf (w.writes fd) with ⟨bs, ok, results⟩
    rw [hwrite] at hfalse
    cases hfalse
    rfl

end Csapp
end MQTTv1
