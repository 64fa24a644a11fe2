import MQTTv1.CLib.Accesses
import MQTTv1.Publisher.InfoFile

/-!
# The block behind `full_info`

`join_full_info` asks `malloc` for the six texts and one byte more, and then
concatenates the texts and five commas to whatever string the block holds.
-/

namespace MQTTv1
namespace Publisher

open CLib
open Csapp

structure Text where
  text : CStr
  nonEmpty : text ≠ []
  nulFree : NulFree text

structure JoinArgs where
  tasksGen : Text
  tasksRun : Text
  tasksSleep : Text
  cpuGen : Text
  cpuSys : Text
  memory : Text

/-- The block is the only array that `join_full_info` stores to. -/
inductive HeapBlock where
  | fullInfo
deriving DecidableEq, Repr

/-- Where the calls of `strcat` store. -/
def catStores : List Byte -> List CStr -> List (Touch HeapBlock)
  | _, [] => []
  | buf, part :: rest =>
      strcatStores .fullInfo (stringOf buf) part ++ catStores (strcat buf part) rest

namespace JoinArgs

def size (a : JoinArgs) : Nat :=
  a.tasksGen.text.length + a.tasksRun.text.length + a.tasksSleep.text.length +
    a.cpuGen.text.length + a.cpuSys.text.length + a.memory.text.length + 1

def parts (a : JoinArgs) : List CStr :=
  [a.tasksGen.text, lit ",", a.tasksRun.text, lit ",", a.tasksSleep.text,
    lit ",", a.cpuGen.text, lit ",", changeCommaForPeriod a.cpuSys.text,
    lit ",", a.memory.text]

/-- The stores of the calls, and the one that ends the line. -/
def stores (a : JoinArgs) (block : List Byte) : List (Touch HeapBlock) :=
  catStores block a.parts ++
    [.store .fullInfo (Int.ofNat (strlen (a.parts.foldl strcat block)) - 1)]

def joined (a : JoinArgs) (block : List Byte) : CStr :=
  sentLine (joinFullInfo block a.tasksGen.text a.tasksRun.text
    a.tasksSleep.text a.cpuGen.text a.cpuSys.text a.memory.text)

/-- The fields with commas between them, the last character a line end. -/
def line (a : JoinArgs) : CStr :=
  (commaJoined [a.tasksGen.text, a.tasksRun.text, a.tasksSleep.text,
    a.cpuGen.text, changeCommaForPeriod a.cpuSys.text,
    a.memory.text]).dropLast ++ [newline]

/-- The join stays in its block and depends on nothing but its arguments. -/
structure Within (a : JoinArgs) (block : List Byte) : Prop where
  stores : InBounds (fun _ => a.size) (a.stores block)
  line : a.joined block = a.line

end JoinArgs

/-!
# The stores
-/

theorem catStores_last :
    forall {parts : List CStr} {buf : List Byte}, parts ≠ [] ->
      (forall part, part ∈ parts -> NulFree part) ->
        .store .fullInfo
            (Int.ofNat ((stringOf buf).length + parts.flatten.length)) ∈
          catStores buf parts
  | [part], buf, _, _ => by
      apply List.mem_append_left
      apply mem_storeRange.mpr
      exact ⟨part.length, Nat.lt_succ_self _, by simp⟩
  | part :: next :: rest, buf, _, hparts => by
      have hnext := @catStores_last (next :: rest) (strcat buf part)
        (List.cons_ne_nil next rest)
        (fun p hp => hparts p (List.mem_cons_of_mem part hp))
      rw [stringOf_strcat (hparts part List.mem_cons_self), List.length_append,
        Nat.add_assoc, ← List.length_append] at hnext
      exact List.mem_append_right _ hnext

namespace JoinArgs

theorem nulFree_parts (a : JoinArgs) :
    forall part, part ∈ a.parts -> NulFree part := by
  intro part hpart
  simp only [parts, List.mem_cons, List.not_mem_nil, or_false] at hpart
  rcases hpart with rfl | rfl | rfl | rfl | rfl | rfl | rfl | rfl | rfl | rfl |
    rfl
  all_goals
    first
    | exact Text.nulFree _
    | exact nulFree_changeComma (Text.nulFree _)
    | decide

theorem length_parts (a : JoinArgs) :
    a.parts.flatten.length = a.size + 4 := by
  have hcomma : (lit ",").length = 1 := by decide
  simp only [parts, size, List.flatten_cons, List.flatten_nil,
    List.length_append, List.length_nil, hcomma, changeCommaForPeriod,
    List.length_map]
  lia

/-- The block is five bytes too short for the string alone. -/
theorem stores_overrun (a : JoinArgs) (block : List Byte) :
    ¬ InBounds (fun _ => a.size) (a.stores block) := by
  intro h
  have hlast := @catStores_last a.parts block (List.cons_ne_nil _ _)
    a.nulFree_parts
  have hbound := h _ _ (List.mem_append_left _ hlast)
  rw [a.length_parts] at hbound
  have hlt := Int.ofNat_lt.mp hbound.right
  lia

theorem joined_eq (a : JoinArgs) (block : List Byte) :
    a.joined block = stringOf block ++ a.line := by
  have hline :
      a.line =
        commaJoined [a.tasksGen.text, a.tasksRun.text, a.tasksSleep.text,
          a.cpuGen.text, changeCommaForPeriod a.cpuSys.text,
          a.memory.text.dropLast] ++ [newline] := by
    have hjoin : forall memory : CStr,
        commaJoined [a.tasksGen.text, a.tasksRun.text, a.tasksSleep.text,
            a.cpuGen.text, changeCommaForPeriod a.cpuSys.text, memory] =
          (a.parts.take 10).flatten ++ memory := by
      intro memory
      simp [commaJoined, List.intercalate, parts, lit_comma]
    unfold line
    rw [hjoin, hjoin, List.dropLast_append_of_ne_nil a.memory.nonEmpty]
  have hfields : forall s, s ∈ [a.tasksGen.text, a.tasksRun.text,
      a.tasksSleep.text, a.cpuGen.text, a.cpuSys.text, a.memory.text] ->
      NulFree s := by
    intro s hs
    simp only [List.mem_cons, List.not_mem_nil, or_false] at hs
    rcases hs with rfl | rfl | rfl | rfl | rfl | rfl
    all_goals exact Text.nulFree _
  unfold joined
  rw [sentLine_joinFullInfo block hfields a.memory.nonEmpty, hline,
    List.append_assoc]

/--
No six texts fit what was asked for, and the line is the one of the arguments
exactly when the block happens to start with a terminator.
-/
theorem never_within (a : JoinArgs) (block : List Byte) :
    ¬ a.Within block ∧ (a.joined block = a.line <-> stringOf block = []) := by
  constructor
  · intro h
    exact a.stores_overrun block h.stores
  · rw [joined_eq, List.append_left_eq_self]

end JoinArgs

def textOf (text : CStr) (hne : 0 < text.length)
    (hnul : text.all (fun b => b != 0) = true) : Text where
  text := text
  nonEmpty := List.ne_nil_of_length_pos hne
  nulFree := nulFree_of_all hnul rfl

def infoArgs : JoinArgs where
  tasksGen := textOf (lit "293") (by decide) rfl
  tasksRun := textOf (lit "290") (by decide) rfl
  tasksSleep := textOf (lit "0") (by decide) rfl
  cpuGen := textOf (lit "35.2") (by decide) rfl
  cpuSys := textOf (lit "0,0") (by decide) rfl
  memory := textOf (lit "55.2257") (by decide) rfl

/-- The terminator of the last `strcat` is stored at index 26 of 22 bytes. -/
theorem infoArgs_overruns :
    infoArgs.size = 22 ∧
      .store .fullInfo 26 ∈ infoArgs.stores (List.replicate 64 0) ∧
      ¬ infoArgs.Within (List.replicate 64 0) := by
  have hstore : .store .fullInfo 26 ∈
      infoArgs.stores (List.replicate 64 0) := by
    decide +kernel
  refine ⟨rfl, hstore, ?_⟩
  intro h
  have hbound := h.stores .fullInfo 26 hstore
  revert hbound
  decide

end Publisher
end MQTTv1
