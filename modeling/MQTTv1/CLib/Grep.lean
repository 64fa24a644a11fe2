import Mathlib.Data.List.Infix
import MQTTv1.CLib.CString

/-!
# The lines of a file

`grep` prints the lines of a text file that contain a pattern and ends each of
them, also a last line without an end of its own.
-/

namespace MQTTv1
namespace CLib

def ended (line : CStr) : List Byte := line ++ [newline]

def linesOf : List Byte -> List CStr
  | [] => []
  | b :: rest =>
      if b = newline then [] :: linesOf rest
      else
        match linesOf rest with
        | [] => [[b]]
        | line :: lines => (b :: line) :: lines

def contains (pattern line : CStr) : Bool := decide (pattern <:+: line)

def grep (pattern : CStr) (file : List Byte) : List Byte :=
  ((linesOf file).filter (contains pattern)).flatMap ended

def matched (pattern line : CStr) : List Byte :=
  if contains pattern line then ended line else []

/-!
## Lines
-/

theorem linesOf_ended :
    forall {line : CStr} (rest : List Byte), newline ∉ line ->
      linesOf (ended line ++ rest) = line :: linesOf rest
  | [], rest, _ => by
      show linesOf (newline :: rest) = _
      simp [linesOf]
  | b :: line, rest, hline => by
      rcases not_or.mp (mt List.mem_cons.mpr hline) with ⟨hb, hline⟩
      have htail : linesOf (ended line ++ rest) = line :: linesOf rest :=
        linesOf_ended rest hline
      show linesOf (b :: (ended line ++ rest)) = _
      rw [linesOf, if_neg (Ne.symm hb), htail]

theorem linesOf_flatMap_ended {lines : List CStr} (rest : List Byte)
    (hlines : forall line, line ∈ lines -> newline ∉ line) :
    linesOf (lines.flatMap ended ++ rest) = lines ++ linesOf rest := by
  induction lines with
  | nil =>
      rfl
  | cons line lines ih =>
      rw [List.flatMap_cons, List.append_assoc,
        linesOf_ended _ (hlines line List.mem_cons_self),
        ih fun l hl => hlines l (List.mem_cons_of_mem line hl)]
      rfl

/-!
## Patterns
-/

theorem contains_of_occurs {pattern line : CStr} (h : pattern <:+: line) :
    contains pattern line = true :=
  decide_eq_true h

theorem contains_of_notMem {pattern line : CStr} {b : Byte} (hb : b ∈ pattern)
    (hline : b ∉ line) : contains pattern line = false := by
  apply decide_eq_false
  intro hpattern
  exact hline (hpattern.subset hb)

theorem matched_of_contains {pattern line : CStr}
    (h : contains pattern line = true) : matched pattern line = ended line :=
  if_pos h

theorem matched_eq_nil_iff {pattern line : CStr} :
    matched pattern line = [] <-> contains pattern line = false := by
  unfold matched
  cases contains pattern line with
  | true => simp [ended]
  | false => simp

theorem grep_ended {pattern line : CStr} (rest : List Byte)
    (hline : newline ∉ line) :
    grep pattern (ended line ++ rest) =
      matched pattern line ++ grep pattern rest := by
  unfold grep matched
  rw [linesOf_ended rest hline, List.filter_cons]
  split
  · rfl
  · rfl

theorem grep_eq_nil_iff {pattern : CStr} {file : List Byte} :
    grep pattern file = [] <->
      forall line, line ∈ linesOf file -> contains pattern line = false := by
  unfold grep
  rw [List.flatMap_eq_nil_iff]
  constructor
  · intro h line hline
    cases hmatch : contains pattern line with
    | false =>
        rfl
    | true =>
        have hnil := h line (List.mem_filter.mpr ⟨hline, hmatch⟩)
        simp [ended] at hnil
  · intro h line hline
    rcases List.mem_filter.mp hline with ⟨hmem, hmatch⟩
    rw [h line hmem] at hmatch
    cases hmatch

end CLib
end MQTTv1
