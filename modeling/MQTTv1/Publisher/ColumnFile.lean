import MQTTv1.Publisher.Columns
import MQTTv1.Publisher.TopFile

/-!
# Columns in `top.txt`

A column that is full has no space in front of it, and the positions behind it
pick other words.  Which lines of `top.txt` can change the message does not
depend on that.
-/

namespace MQTTv1
namespace Publisher

open CLib
open Csapp

theorem layOut_avoids {bs : List Byte} (hspace : 32 ∉ bs) {pieces : List Piece}
    (hpieces : forall p, p ∈ pieces -> forall b, b ∈ p.text -> b ∉ bs) :
    forall b, b ∈ layOut pieces -> b ∉ bs := by
  intro b hb
  rcases List.mem_flatMap.mp hb with ⟨piece, hpiece, hb⟩
  rcases List.mem_map.mp hpiece with ⟨p, hp, rfl⟩
  rcases List.mem_append.mp hb with hb | hb
  · rw [(List.mem_replicate.mp hb).right]
    exact hspace
  · exact hpieces p hp b hb

theorem infix_layOut {pieces : List Piece} {p : Piece} (hp : p ∈ pieces) :
    p.text <:+: layOut pieces := by
  rcases List.getElem?_of_mem hp with ⟨k, hk⟩
  rw [layOut_split hk]
  exact ⟨layOut (pieces.take k) ++ List.replicate p.pad 32,
    layOut (pieces.drop (k + 1)), by simp only [List.append_assoc]⟩

theorem percent_avoids {bs : List Byte}
    (hbs : forall b, b ∈ bs -> isNumeric b = false) (p : Percent) :
    forall b, b ∈ p.text -> b ∉ bs := by
  intro b hb hmem
  exact notMem_of_all p.text_numeric (hbs b hmem) hb

namespace ColumnReport

def body (pieces : List Piece) : CStr := layOut pieces.dropLast

theorem cpu_avoids (r : ColumnReport) :
    forall b, b ∈ body r.cpuPieces -> b ∉ [0, newline, 77, 84] := by
  apply layOut_avoids (by decide)
  simp only [cpuPieces, label, amount, column, List.dropLast,
    List.forall_mem_cons, List.not_mem_nil, false_implies, implies_true,
    and_true]
  and_intros
  all_goals first | exact percent_avoids (by decide) _ | decide

theorem tasks_avoids (r : ColumnReport) :
    forall b, b ∈ body r.tasksPieces -> b ∉ [0, newline, 67, 77] := by
  apply layOut_avoids (by decide)
  simp only [tasksPieces, label, amount, List.dropLast, List.forall_mem_cons,
    List.not_mem_nil, false_implies, implies_true, and_true]
  and_intros
  all_goals first | exact TopInfo.count_avoids (by decide) _ | decide

theorem mem_avoids (r : ColumnReport) :
    forall b, b ∈ body r.memPieces -> b ∉ [0, newline, 67, 84] := by
  apply layOut_avoids (by decide)
  simp only [memPieces, label, amount, List.dropLast, List.forall_mem_cons,
    List.not_mem_nil, false_implies, implies_true, and_true]
  and_intros
  all_goals first | exact TopInfo.value_avoids (by decide) _ | decide

theorem swap_avoids (r : ColumnReport) :
    forall b, b ∈ body r.swapPieces -> b ∉ [0, newline, 67, 84] := by
  apply layOut_avoids (by decide)
  simp only [swapPieces, label, amount, List.dropLast, List.forall_mem_cons,
    List.not_mem_nil, false_implies, implies_true, and_true]
  and_intros
  all_goals first | exact TopInfo.value_avoids (by decide) _ | decide

def lines (r : ColumnReport) : SummaryLines where
  cpu := body r.cpuPieces
  tasks := body r.tasksPieces
  mem := body r.memPieces
  swap := body r.swapPieces
  cpu_avoids := r.cpu_avoids
  tasks_avoids := r.tasks_avoids
  mem_avoids := r.mem_avoids
  swap_avoids := r.swap_avoids
  cpu_picked := by
    have hmem : label 0 (lit "%Cpu(s):") ∈ r.cpuPieces.dropLast :=
      List.mem_cons_self
    exact (show lit "Cpu" <:+: lit "%Cpu(s):" by decide).trans
      (infix_layOut hmem)
  tasks_picked := by
    have hmem : label 0 (lit "Tasks:") ∈ r.tasksPieces.dropLast :=
      List.mem_cons_self
    exact (show lit "Tasks" <:+: lit "Tasks:" by decide).trans
      (infix_layOut hmem)
  mem_picked := by
    have hmem : label (r.memGaps 0 + 1) (lit "Mem") ∈ r.memPieces.dropLast :=
      List.mem_cons_of_mem _ List.mem_cons_self
    exact infix_layOut hmem
  swap_picked := by
    have hmem : label (r.swapGaps 9 + 1) (lit "Mem") ∈
        r.swapPieces.dropLast := by
      simp [swapPieces]
    exact infix_layOut hmem

theorem layOut_lineEnd (pieces : List Piece) :
    layOut (pieces ++ [lineEnd]) = ended (layOut pieces) :=
  layOut_append pieces [lineEnd]

theorem front_lines (r : ColumnReport) :
    r.lines.front = layOut r.pieces.dropLast := by
  have hpieces : r.pieces.dropLast =
      (r.cpuPieces.dropLast ++ [lineEnd]) ++
        (r.tasksPieces.dropLast ++ [lineEnd]) ++
        (r.memPieces.dropLast ++ [lineEnd]) ++ r.swapPieces.dropLast :=
    rfl
  rw [hpieces, layOut_append, layOut_append, layOut_append, layOut_lineEnd,
    layOut_lineEnd, layOut_lineEnd]
  rfl

/-- The four lines are the whole `info.txt`, up to its last space. -/
theorem text_eq_front (r : ColumnReport) :
    r.text = r.lines.front ++ lit " " ++ [newline] := by
  have hpieces : r.pieces = r.pieces.dropLast ++ [label 1 [newline]] := rfl
  unfold text
  rw [front_lines, hpieces, layOut_append, ← hpieces, List.append_assoc]
  rfl

theorem words (r : ColumnReport) :
    MEM_USED_POS < (tokensOf (lit " ") r.lines.front).length := by
  have hsolid : forall p, p ∈ r.pieces.dropLast -> p.Solid := fun p hp =>
    r.solid_pieces p (List.dropLast_subset _ hp)
  rw [← located_tokens, List.length_map, lit_space, located_eq_wordsAt,
    length_wordsAt, front_lines, startsIn_layOut hsolid]
  simp [pieces, cpuPieces, tasksPieces, memPieces, swapPieces, lineEnd, label,
    amount, column, gapsIn, MEM_USED_POS]
  lia

instance : SummaryLayout ColumnReport where
  lines := lines
  words := words

/-- The cached memory at the end of the read buffer. -/
def padded (cached : Value) : ColumnReport :=
  { columnTxt with
    buffCache := cached
    memGaps := (paddedTxt cached).memGaps }

/-- The message of an idle machine, too, depends on these lines only. -/
theorem messageLine_columns_iff (s : Surroundings) (infoList : InfoList)
    (block : List Byte) :
    (forall (r : TopReport ColumnReport) files r' files',
      surroundings r files = s ->
        (surroundings r' files').Unmatched -> r.summary = r'.summary ->
          messageLine r files infoList block =
            messageLine r' files' infoList block) <->
      s.Unmatched := by
  apply summary_iff_of_spelled padded
  · apply SummaryLines.ext
    all_goals decide +kernel
  · apply SummaryLines.ext
    all_goals decide +kernel

end ColumnReport

end Publisher
end MQTTv1
