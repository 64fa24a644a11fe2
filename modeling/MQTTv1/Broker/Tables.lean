import MQTTv1.CLib.Strtok
import MQTTv1.Csapp.Rio

/-!
# Client tables of the broker

The broker keeps four parallel arrays and a counter.  A registration fills the
slot at the counter; nothing ever removes a row.  The search by name runs up to
the first NULL and uses neither the counter nor the length of the arrays, so it
is modelled with the slots the array still has.
-/

namespace MQTTv1
namespace Broker

open CLib
open Csapp

def LIMIT_CONN_CLIENTS : Nat := 10

def TOPICS_NUMBER : Nat := 6

def stringTopics : Nat -> CStr
  | 0 => lit "tasks/gen: "
  | 1 => lit "tasks/run: "
  | 2 => lit "tasks/sleep: "
  | 3 => lit "cpu/gen: "
  | 4 => lit "cpu/sys: "
  | 5 => lit "mem/gen: "
  | _ => []

structure Tables where
  clientNameList : Nat -> Option CStr
  clientFdList : Nat -> Fd
  clientSusList : Nat -> Option CStr
  topicList : Nat -> Nat -> Int
  fdIdx : Nat

def Tables.initial : Tables where
  clientNameList := fun _ => none
  clientFdList := fun _ => 0
  clientSusList := fun _ => none
  topicList := fun _ _ => 0
  fdIdx := 0

/-!
# Lookup by name
-/

inductive Lookup where
  | found (i : Nat)
  /-- The C function returns -1. -/
  | notFound
  /-- The scan left the array. -/
  | overrun
deriving DecidableEq, Repr

def findFrom (names : Nat -> Option CStr) (clientName : CStr) :
    Nat -> Nat -> Lookup
  | 0, _ => .overrun
  | slots + 1, i =>
      match names i with
      | none => .notFound
      | some name =>
          if clientName = name then .found i
          else findFrom names clientName slots (i + 1)

def findIndexByClientName (t : Tables) (clientName : CStr) : Lookup :=
  findFrom t.clientNameList clientName LIMIT_CONN_CLIENTS 0

/-- `client_fd_list[find_index_by_client_name(name)]` -/
def fdByClientName (t : Tables) (name : CStr) : Option Fd :=
  match findIndexByClientName t name with
  | .found i => some (t.clientFdList i)
  | _ => none

/-!
# Subscriptions

`split` stores the tokens of the line in the entries of `argv` and leaves the
entries behind them as they were.  `update_sus_info` reads the levels of the
filter from there and writes -1 over the entries of the topics it rules out;
all its branches leave the `while(1)` in the first round.
-/

def split (linea delim : CStr) (argv : Nat -> CStr) (i : Nat) : CStr :=
  ((tokensOf delim linea)[i]?).getD (argv i)

/-- `for(i = 0; i < 6; i++) if(i != kept) information[i] = -1;` -/
def disableOthers (kept : Nat) (information : Nat -> Int) : Nat -> Int :=
  (List.range 6).foldl
    (fun info i => if i ≠ kept then Function.update info i (-1) else info)
    information

def disable (entries : List Nat) (information : Nat -> Int) : Nat -> Int :=
  entries.foldl (fun info i => Function.update info i (-1)) information

def updateSusInfo (suscription : Nat -> CStr) (information : Nat -> Int) :
    Nat -> Int :=
  if suscription 1 = lit "#" then
    information
  else if suscription 1 = lit "+" then
    if suscription 2 = lit "gen" then
      disable [1, 2, 4] information
    else
      information
  else if suscription 1 = lit "tasks" then
    if suscription 2 = lit "#" then
      disable [3, 4, 5] information
    else if suscription 2 = lit "gen" then
      disableOthers 0 information
    else if suscription 2 = lit "run" then
      disableOthers 1 information
    else
      disableOthers 2 information
  else if suscription 1 = lit "cpu" then
    if suscription 2 = lit "#" then
      disable [0, 1, 2, 5] information
    else if suscription 2 = lit "gen" then
      disableOthers 3 information
    else
      disableOthers 4 information
  else
    if suscription 2 = lit "#" then
      disable [0, 1, 2, 3, 4] information
    else
      disableOthers 5 information

/-!
# Registration

The first half of `thread`.  The locals of the thread start with whatever the
stack holds.
-/

/-- What the uninitialised locals of `thread` hold. -/
structure Leftover where
  bufNodeName : CStr
  bufSusInfo : CStr
  bufSuscriptionInfo : Nat -> CStr
  subscribedInfo : Nat -> Int

def cleanLeftover : Leftover where
  bufNodeName := []
  bufSusInfo := []
  bufSuscriptionInfo := fun _ => []
  subscribedInfo := fun _ => 0

/-- Both lines are read through one `rio_t`, which is then dropped. -/
def readHandshake (connfd : Fd) (w : World) :
    Except Stop (Option (List Byte) × Option (List Byte) × World) := do
  let (nameLine, rio, w) <- RioReadlineb (rioReadinitb connfd) MAXLINE w
  let (susLine, _, w) <- RioReadlineb rio MAXLINE w
  return (nameLine, susLine, w)

/-- The string in a buffer after `Rio_readlineb`. -/
def bufferString (before : CStr) : Option (List Byte) -> CStr
  | none => before
  | some line => stringOf line

def isNone (s : CStr) : Bool := s = lit "NONE"

def subscribedMask (susInfo : CStr) (left : Leftover) : Nat -> Int :=
  updateSusInfo (split susInfo (lit "/") left.bufSuscriptionInfo)
    left.subscribedInfo

def subscribedNode (susInfo : CStr) (left : Leftover) : CStr :=
  if isNone susInfo then susInfo
  else split susInfo (lit "/") left.bufSuscriptionInfo 0

def copyRow (row mask : Nat -> Int) : Nat -> Int :=
  fun k => if k < TOPICS_NUMBER then mask k else row k

/--
The stores of one registration, from the strings the two buffers hold after the
line ends are cut off.  A registration in a full table stores outside the arrays.
-/
def register (t : Tables) (connfd : Fd) (nodeName susInfo : CStr)
    (left : Leftover) : Option Tables :=
  if t.fdIdx < LIMIT_CONN_CLIENTS then
    some
      { clientFdList := Function.update t.clientFdList t.fdIdx connfd
        clientNameList :=
          Function.update t.clientNameList t.fdIdx (some nodeName)
        clientSusList :=
          Function.update t.clientSusList t.fdIdx
            (some (subscribedNode susInfo left))
        topicList :=
          if isNone susInfo then t.topicList
          else
            Function.update t.topicList t.fdIdx
              (copyRow (t.topicList t.fdIdx) (subscribedMask susInfo left))
        fdIdx := t.fdIdx + 1 }
  else none

def openedMessage (connfd : Fd) : CStr :=
  lit "Se ha abierto un socket: " ++ lit (toString connfd)

def connectedMessage (nodeName : CStr) : CStr :=
  lit "Se ha conectado " ++ nodeName

/-- What `split` leaves of the line it cut: everything up to the first token. -/
def cutLine (linea delim : CStr) : CStr :=
  linea.takeWhile (fun b => delim.contains b) ++
    (linea.dropWhile (fun b => delim.contains b)).takeWhile
      (fun b => !delim.contains b)

def subscriptionMessage (nodeName susInfo : CStr) : CStr :=
  if isNone susInfo then nodeName ++ lit " no tiene ninguna suscripcion"
  else
    nodeName ++ lit " Se encuentra suscrito a: " ++ cutLine susInfo (lit "/")

/-- `thread` up to the end of its critical section. -/
def threadRegistration (connfd : Fd) (left : Leftover) (t : Tables)
    (w : World) : Except Stop (Tables × World) := do
  let w := writeLog (openedMessage connfd) w
  let (nameLine, susLine, w) <- readHandshake connfd w
  let nodeName := chop (bufferString left.bufNodeName nameLine)
  let susInfo := chop (bufferString left.bufSusInfo susLine)
  let w := writeLog (connectedMessage nodeName) w
  let w := writeLog (subscriptionMessage nodeName susInfo) w
  match register t connfd nodeName susInfo left with
  | none => throw .undefined
  | some t => return (t, w)

end Broker
end MQTTv1
