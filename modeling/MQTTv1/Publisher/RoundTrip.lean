import MQTTv1.Broker.FanOut
import MQTTv1.Publisher.Report

/-!
# From a publisher's tokens to a subscriber's lines

The publisher joins six texts with commas and ends the line by overwriting the
last character; the broker splits the line at its commas and labels the fields.
-/

namespace MQTTv1
namespace Publisher

open CLib
open Csapp

def space : Byte := 32

structure Token where
  text : CStr
  nonEmpty : text ≠ []
  nulFree : NulFree text
  oneWord : space ∉ text ∧ newline ∉ text

/-- What a report is made of; only the first and the CPU values have commas. -/
structure Metrics where
  tasksGen : Token
  tasksRun : Token
  tasksSleep : Token
  cpuGen : Token
  cpuSys : Token
  memory : Token
  run_plain : comma ∉ tasksRun.text
  sleep_plain : comma ∉ tasksSleep.text
  memory_plain : comma ∉ memory.text
  memory_long : 2 ≤ memory.text.length

structure Metrics.StoredIn (m : Metrics) (infoList : InfoList) : Prop where
  tasksGen : infoList TASKS_GEN_POS = some m.tasksGen.text
  tasksRun : infoList TASKS_RUN_POS = some m.tasksRun.text
  tasksSleep : infoList TASKS_SLEEP_POS = some m.tasksSleep.text
  cpuGen : infoList CPU_GEN_POS = some m.cpuGen.text
  cpuSys : infoList CPU_SYS_POS = some m.cpuSys.text

/-- The line published for the entries of `info_list` and a memory text. -/
def publishedLine (block : List Byte) (infoList : InfoList) (memory : CStr) :
    Except Stop CStr := do
  let infoList <- rewriteCommas infoList
  let (_, fullInfo) <- joinEntries block infoList memory
  return sentLine fullInfo

/-- The text of a metric that a subscriber is to see. -/
def Metrics.field (m : Metrics) : Nat -> CStr
  | 0 => changeCommaForPeriod m.tasksGen.text
  | 1 => changeCommaForPeriod m.tasksRun.text
  | 2 => changeCommaForPeriod m.tasksSleep.text
  | 3 => changeCommaForPeriod m.cpuGen.text
  | 4 => changeCommaForPeriod m.cpuSys.text
  | 5 => m.memory.text.dropLast
  | _ => []

def Metrics.line (m : Metrics) : CStr :=
  commaJoined ((List.range 6).map m.field) ++ [newline]

/-- The lines for the topics of a row, in increasing order. -/
def Metrics.selected (m : Metrics) (topic : Nat -> Int) : CStr :=
  ((List.range 6).filterMap fun j =>
    if topic j ≠ -1 then
      some (Broker.stringTopics j ++ m.field j ++ [newline])
    else none).flatten

theorem changeComma_plain {str : CStr} (hplain : comma ∉ str) :
    changeCommaForPeriod str = str := by
  unfold changeCommaForPeriod
  rw [List.map_congr_left (g := id), List.map_id]
  intro b hb
  have hne : b ≠ comma := fun h => hplain (h ▸ hb)
  simp [hne]

theorem publishedLine_eq (m : Metrics) {block : List Byte}
    {infoList : InfoList} (hinfo : m.StoredIn infoList)
    (hblock : stringOf block = []) :
    publishedLine block infoList m.memory.text = .ok m.line := by
  have hfields : forall s, s ∈ [changeCommaForPeriod m.tasksGen.text,
      m.tasksRun.text, m.tasksSleep.text, changeCommaForPeriod m.cpuGen.text,
      m.cpuSys.text, m.memory.text] -> NulFree s := by
    intro s hs
    simp only [List.mem_cons, List.not_mem_nil, or_false] at hs
    rcases hs with rfl | rfl | rfl | rfl | rfl | rfl
    · exact nulFree_changeComma m.tasksGen.nulFree
    · exact m.tasksRun.nulFree
    · exact m.tasksSleep.nulFree
    · exact nulFree_changeComma m.cpuGen.nulFree
    · exact m.cpuSys.nulFree
    · exact m.memory.nulFree
  have hjoin := sentLine_joinFullInfo block hfields m.memory.nonEmpty
  unfold publishedLine
  rw [rewriteCommas_ok hinfo.tasksGen hinfo.cpuGen]
  show Except.bind (joinEntries block _ m.memory.text) _ = _
  rw [joinEntries_rewritten _ _ _ _ hinfo.tasksRun hinfo.tasksSleep hinfo.cpuSys]
  show Except.ok (sentLine _) = _
  rw [hjoin, hblock, List.nil_append]
  unfold Metrics.line
  simp [List.range_succ, Metrics.field, changeComma_plain m.run_plain,
    changeComma_plain m.sleep_plain]

/-!
# The broker splits the line again
-/

def Metrics.fields (m : Metrics) : List CStr :=
  [m.field 0, m.field 1, m.field 2, m.field 3, m.field 4,
    m.field 5 ++ [newline]]

theorem Metrics.line_eq (m : Metrics) : m.line = commaJoined m.fields := by
  simp [Metrics.line, Metrics.fields, commaJoined, List.intercalate,
    List.range_succ]

theorem word_changeComma (t : Token) :
    Word (lit ",") (changeCommaForPeriod t.text) :=
  word_comma_changeComma t.nonEmpty

theorem word_memory (m : Metrics) :
    Word (lit ",") (m.field 5 ++ [newline]) := by
  apply word_comma
  · simp
  · intro hb
    rcases List.mem_append.mp hb with hfield | hline
    · exact m.memory_plain (List.dropLast_subset _ hfield)
    · revert hline
      decide

theorem tokensOf_line (m : Metrics) : tokensOf (lit ",") m.line = m.fields := by
  rw [m.line_eq]
  apply tokensOf_intercalate (d := comma) (by decide)
  intro w hw
  simp only [Metrics.fields, List.mem_cons, List.not_mem_nil, or_false] at hw
  rcases hw with rfl | rfl | rfl | rfl | rfl | rfl
  · exact word_changeComma m.tasksGen
  · exact word_changeComma m.tasksRun
  · exact word_changeComma m.tasksSleep
  · exact word_changeComma m.cpuGen
  · exact word_changeComma m.cpuSys
  · exact word_memory m

theorem nulFree_fields (m : Metrics) {field : CStr} (hfield : field ∈ m.fields) :
    NulFree field := by
  have hmemory : NulFree (m.field 5 ++ [newline]) := by
    apply nulFree_append.mpr
    constructor
    · intro b hb
      exact m.memory.nulFree b (List.dropLast_subset _ hb)
    · decide
  simp only [Metrics.fields, List.mem_cons, List.not_mem_nil, or_false] at hfield
  rcases hfield with rfl | rfl | rfl | rfl | rfl | rfl
  · exact nulFree_changeComma m.tasksGen.nulFree
  · exact nulFree_changeComma m.tasksRun.nulFree
  · exact nulFree_changeComma m.tasksSleep.nulFree
  · exact nulFree_changeComma m.cpuGen.nulFree
  · exact nulFree_changeComma m.cpuSys.nulFree
  · exact hmemory

theorem newline_notMem_changeComma (t : Token) :
    newline ∉ changeCommaForPeriod t.text := by
  intro hmem
  rcases List.mem_map.mp hmem with ⟨c, hc, heq⟩
  split at heq
  · revert heq
    decide
  · exact t.oneWord.right (heq ▸ hc)

theorem newline_notMem_field (m : Metrics) {j : Nat} (hj : j < 6) :
    newline ∉ m.field j := by
  match j, hj with
  | 0, _ => exact newline_notMem_changeComma m.tasksGen
  | 1, _ => exact newline_notMem_changeComma m.tasksRun
  | 2, _ => exact newline_notMem_changeComma m.tasksSleep
  | 3, _ => exact newline_notMem_changeComma m.cpuGen
  | 4, _ => exact newline_notMem_changeComma m.cpuSys
  | 5, _ =>
      intro hmem
      exact m.memory.oneWord.right (List.dropLast_subset _ hmem)

theorem mem_commaJoined {fields : List CStr} {b : Byte}
    (hb : b ∈ commaJoined fields) :
    b = comma ∨ exists field, field ∈ fields ∧ b ∈ field := by
  induction fields with
  | nil => cases hb
  | cons field rest ih =>
      cases rest with
      | nil =>
          right
          exact ⟨field, List.mem_cons_self, by
            simpa [commaJoined, List.intercalate] using hb⟩
      | cons next rest =>
          rw [commaJoined_cons] at hb
          rcases List.mem_append.mp hb with hfield | hb
          · exact Or.inr ⟨field, List.mem_cons_self, hfield⟩
          · rcases List.mem_cons.mp hb with hcomma | hb
            · exact Or.inl hcomma
            · rcases ih hb with hcomma | ⟨other, hother, hb⟩
              · exact Or.inl hcomma
              · exact Or.inr ⟨other, List.mem_cons_of_mem _ hother, hb⟩

theorem isLine_line (m : Metrics) (hfits : m.line.length < 100) :
    IsLine m.line := by
  constructor
  · refine ⟨commaJoined ((List.range 6).map m.field), rfl, ?_⟩
    intro hmem
    rcases mem_commaJoined hmem with hcomma | ⟨field, hfield, hb⟩
    · revert hcomma
      decide
    · rcases List.mem_map.mp hfield with ⟨j, hj, rfl⟩
      exact newline_notMem_field m (List.mem_range.mp hj) hb
  · exact Nat.lt_trans hfits (by decide)

theorem stringOf_line (m : Metrics) : stringOf m.line = m.line := by
  apply stringOf_of_nulFree
  intro b hb
  rw [m.line_eq] at hb
  rcases mem_commaJoined hb with rfl | ⟨field, hfield, hb⟩
  · decide
  · exact nulFree_fields m hfield b hb

def Metrics.message (m : Metrics) (hfits : m.line.length < 100) :
    Broker.MessageLine where
  bytes := m.line
  line := isLine_line m hfits
  fields := by
    rw [stringOf_line, tokensOf_line]
    exact Nat.le_refl 6

theorem topicText_message (m : Metrics) (hfits : m.line.length < 100) {j : Nat}
    (hj : j < 6) :
    Broker.topicText j ((m.message hfits).field j) =
      Broker.stringTopics j ++ m.field j ++ [newline] := by
  have hfield : (m.message hfits).field j = (m.fields[j]?).getD [] := by
    unfold Broker.MessageLine.field
    show ((tokensOf (lit ",") (stringOf m.line))[j]?).getD [] = _
    rw [stringOf_line, tokensOf_line]
  rw [hfield]
  match j, hj with
  | 0, _ => rfl
  | 1, _ => rfl
  | 2, _ => rfl
  | 3, _ => rfl
  | 4, _ => rfl
  | 5, _ =>
      show Broker.stringTopics 5 ++ (m.field 5 ++ [newline]) ++ [] = _
      simp

/-- The topic lines of a published report. -/
theorem selectedTopics_message (m : Metrics) (hfits : m.line.length < 100)
    (topic : Nat -> Int) :
    Broker.selectedTopics topic (m.message hfits) = m.selected topic := by
  unfold Broker.selectedTopics Metrics.selected
  apply congrArg List.flatten
  apply List.filterMap_congr
  intro j hj
  rw [topicText_message m hfits (List.mem_range.mp hj)]

open Broker in
/-- Every line that is published reaches the subscriber under its topics. -/
theorem forwardMessage_published (m : Metrics) (block : List Byte)
    {infoList : InfoList} (hinfo : m.StoredIn infoList)
    (hblock : stringOf block = []) :
    exists line, publishedLine block infoList m.memory.text = .ok line ∧
      (m.line.length < 100 ->
        forall (connfdPub connfdSus : Fd) (topic : Nat -> Int)
          (publisher : CStr) (left : MessageLeftover) (w : World)
          (chunks : List Chunk) (tail : List Byte),
          w.input connfdPub = delivered chunks -> NonEmptyChunks chunks ->
          chunks.flatten = line ++ tail ->
          (Accepting (w.writes connfdSus) ->
            exists w',
              forwardMessage connfdPub connfdSus topic publisher left w =
                .ok w') ∧
          forall w',
            forwardMessage connfdPub connfdSus topic publisher left w =
                .ok w' ->
              w'.sent = Function.update w.sent connfdSus
                (w.sent connfdSus ++ m.selected topic)) := by
  refine ⟨m.line, publishedLine_eq m hinfo hblock, ?_⟩
  intro hfits connfdPub connfdSus topic publisher left w chunks tail hw hchunks
    hstream
  rcases receive_line tail hw (isLine_line m hfits) hchunks hstream with
    ⟨ahead, fetched, rest, hread, _, _⟩
  rw [forwardMessage_eq_receive, hread]
  constructor
  · intro haccepting
    exact writeAll_accepting haccepting
  · intro w' h
    have hsent := (writeAll_ok h).right
    have hblock := topicWrites_flatten (m.message hfits) left.pubAvailableInfo
      left.string (fun j _ => rfl : forall j, j < TOPICS_NUMBER ->
        topic j = topic j)
    rw [selectedTopics_message] at hblock
    exact hsent.trans (congrArg _ (congrArg _ hblock))

def tokenOf (text : CStr) (hne : text.isEmpty = false) (hfree : NulFree text)
    (hword : space ∉ text ∧ newline ∉ text) : Token where
  text := text
  nonEmpty := List.isEmpty_eq_false_iff.mp hne
  nulFree := hfree
  oneWord := hword

def sampleMetrics : Metrics where
  tasksGen := tokenOf (lit "293") rfl (by decide) (by decide)
  tasksRun := tokenOf (lit "3") rfl (by decide) (by decide)
  tasksSleep := tokenOf (lit "290") rfl (by decide) (by decide)
  cpuGen := tokenOf (lit "35,2") rfl (by decide) (by decide)
  cpuSys := tokenOf (lit "5,6") rfl (by decide) (by decide)
  memory := tokenOf (lit "38.6977") rfl (by decide) (by decide)
  run_plain := by decide
  sleep_plain := by decide
  memory_plain := by decide
  memory_long := by decide

def sampleInfo : InfoList
  | 1 => some (lit "35,2")
  | 5 => some (lit "5,6")
  | 17 => some (lit "293")
  | 21 => some (lit "3")
  | 23 => some (lit "290")
  | _ => none

theorem sampleInfo_stored : sampleMetrics.StoredIn sampleInfo where
  tasksGen := rfl
  tasksRun := rfl
  tasksSleep := rfl
  cpuGen := rfl
  cpuSys := rfl

open Broker in
theorem forwardMessage_sample :
    exists w',
      forwardMessage 4 5 (fun j => if j < 4 then -1 else 0) (lit "node1")
          (cleanStack (quietWorld [])) (quietWorld [sampleMetrics.line]) =
        .ok w' ∧
      w'.sent 5 =
        lit "cpu/sys: 5.6" ++ [newline] ++ lit "mem/gen: 38.697" ++ [newline] := by
  rcases forwardMessage_published sampleMetrics (List.replicate 40 0)
    sampleInfo_stored rfl with ⟨line, hline, hround⟩
  have hsame : line = sampleMetrics.line := by
    rw [publishedLine_eq sampleMetrics sampleInfo_stored rfl] at hline
    cases hline
    rfl
  subst hsame
  have hchunks : NonEmptyChunks [sampleMetrics.line] := by
    intro c hc
    cases List.mem_singleton.mp hc
    decide
  rcases hround (by decide) 4 5 (fun j => if j < 4 then -1 else 0) (lit "node1")
      (cleanStack (quietWorld [])) (quietWorld [sampleMetrics.line])
      [sampleMetrics.line] [] rfl hchunks (by simp) with ⟨hok, hsent⟩
  rcases hok (by simp [Accepting, quietWorld]) with ⟨w', hw'⟩
  refine ⟨w', hw', ?_⟩
  rw [hsent w' hw', Function.update_self]
  decide

end Publisher
end MQTTv1
