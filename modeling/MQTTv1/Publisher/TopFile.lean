import MQTTv1.CLib.Grep
import MQTTv1.CLib.Overlay
import MQTTv1.Publisher.InfoFile

/-!
# From `top.txt` to the published line

`exec_top` writes a report over `top.txt` and `exec_grep` writes the lines it
picks from that file over `info.txt`.  Neither file is truncated: what an older
and longer report left behind the newest one is searched again.
-/

namespace MQTTv1
namespace Publisher

open CLib
open Csapp

/--
The four lines about the tasks, the processor and the memory, without their ends.
-/
@[ext] structure SummaryLines where
  cpu : CStr
  tasks : CStr
  mem : CStr
  /-- `top` puts a space behind this one. -/
  swap : CStr
  /-- No terminator, no line end, no `M` and no `T`. -/
  cpu_avoids : forall b, b ∈ cpu -> b ∉ [0, newline, 77, 84]
  /-- No terminator, no line end, no `C` and no `M`. -/
  tasks_avoids : forall b, b ∈ tasks -> b ∉ [0, newline, 67, 77]
  /-- No terminator, no line end, no `C` and no `T`. -/
  mem_avoids : forall b, b ∈ mem -> b ∉ [0, newline, 67, 84]
  swap_avoids : forall b, b ∈ swap -> b ∉ [0, newline, 67, 84]
  cpu_picked : lit "Cpu" <:+: cpu
  tasks_picked : lit "Tasks" <:+: tasks
  mem_picked : lit "Mem" <:+: mem
  swap_picked : lit "Mem" <:+: swap

namespace SummaryLines

def bodies (l : SummaryLines) : List CStr :=
  [l.tasks, l.cpu, l.mem, l.swap ++ [32]]

/-- The lines in the order of `info.txt`, up to the space. -/
def front (l : SummaryLines) : CStr :=
  ended l.cpu ++ ended l.tasks ++ ended l.mem ++ l.swap

end SummaryLines

/-- A way to align the values of the four lines. -/
class SummaryLayout (layout : Type) where
  lines : layout -> SummaryLines
  /-- The lines have a word for each of the positions. -/
  words : forall f, MEM_USED_POS < (tokensOf (lit " ") (lines f).front).length

structure Line where
  text : CStr
  single : newline ∉ text

/-- The rows start with the blank line and the header of the process table. -/
structure TopReport (layout : Type) where
  uptime : Line
  summary : layout
  rows : List Line

structure Files where
  topTxt : List Byte
  infoTxt : List Byte

section

variable {layout : Type} [SummaryLayout layout]

def TopReport.summaryLines (r : TopReport layout) : SummaryLines :=
  SummaryLayout.lines r.summary

def TopReport.lines (r : TopReport layout) : List CStr :=
  r.uptime.text :: (r.summaryLines.bodies ++ r.rows.map Line.text)

def TopReport.bytes (r : TopReport layout) : List Byte :=
  r.lines.flatMap ended

/-- `exec_top`: the report goes to the start of `top.txt`. -/
def updateTopFile (r : TopReport layout) (files : Files) : Files :=
  { files with topTxt := overwrite files.topTxt r.bytes }

/-- `exec_grep`: the three commands inherit one descriptor and one offset. -/
def filterTopFile (files : Files) : Files :=
  { files with
    infoTxt := overwrite files.infoTxt
      (grep (lit "Cpu") files.topTxt ++ grep (lit "Tasks") files.topTxt ++
        grep (lit "Mem") files.topTxt) }

/-- The message of one round of `main`. -/
def messageLine (r : TopReport layout) (files : Files) (infoList : InfoList)
    (block : List Byte) : Except Stop CStr := do
  let files := filterTopFile (updateTopFile r files)
  let (_, fullInfo) <- updateSendInfo files.infoTxt infoList block
  return sentLine fullInfo

end

/-!
# The lines that `grep` picks
-/

structure Surroundings where
  uptime : Line
  rows : List Line
  overhang : List Byte

namespace Surroundings

def behind (s : Surroundings) : List Byte :=
  (s.rows.map Line.text).flatMap ended ++ s.overhang

def cpuLines (s : Surroundings) (l : SummaryLines) : List Byte :=
  matched (lit "Cpu") s.uptime.text ++ (ended l.cpu ++ grep (lit "Cpu") s.behind)

def tasksLines (s : Surroundings) (l : SummaryLines) : List Byte :=
  matched (lit "Tasks") s.uptime.text ++
    (ended l.tasks ++ grep (lit "Tasks") s.behind)

def memLines (s : Surroundings) (l : SummaryLines) : List Byte :=
  matched (lit "Mem") s.uptime.text ++
    (ended l.mem ++ (ended (l.swap ++ [32]) ++ grep (lit "Mem") s.behind))

theorem linesOf_behind (s : Surroundings) :
    linesOf s.behind = s.rows.map Line.text ++ linesOf s.overhang := by
  apply linesOf_flatMap_ended
  intro line hline
  rcases List.mem_map.mp hline with ⟨row, _, rfl⟩
  exact row.single

end Surroundings

theorem matched_of_avoids {pattern body bs : List Byte} {b : Byte}
    (hpattern : b ∈ pattern) (hbs : b ∈ bs)
    (havoids : forall c, c ∈ body -> c ∉ bs) : matched pattern body = [] :=
  matched_eq_nil_iff.mpr
    (contains_of_notMem hpattern fun hmem => havoids b hmem hbs)

theorem matched_of_infix {pattern body : CStr} (h : pattern <:+: body) :
    matched pattern body = ended body :=
  matched_of_contains (contains_of_occurs h)

theorem SummaryLines.swapBody_avoids (l : SummaryLines) :
    forall b, b ∈ l.swap ++ [32] -> b ∉ [0, newline, 67, 84] := by
  intro b hb
  rcases List.mem_append.mp hb with hb | hb
  · exact l.swap_avoids b hb
  · rw [List.mem_singleton.mp hb]
    decide

section

variable {layout : Type} [SummaryLayout layout]

def surroundings (r : TopReport layout) (files : Files) : Surroundings where
  uptime := r.uptime
  rows := r.rows
  overhang := files.topTxt.drop r.bytes.length

theorem grep_report (pattern : CStr) (r : TopReport layout) (files : Files) :
    grep pattern (updateTopFile r files).topTxt =
      matched pattern r.uptime.text ++
        (matched pattern r.summaryLines.tasks ++
          (matched pattern r.summaryLines.cpu ++
            (matched pattern r.summaryLines.mem ++
              (matched pattern (r.summaryLines.swap ++ [32]) ++
                grep pattern (surroundings r files).behind)))) := by
  have hplain : forall {body bs : List Byte}, newline ∈ bs ->
      (forall b, b ∈ body -> b ∉ bs) -> newline ∉ body :=
    fun hbs havoids hmem => havoids newline hmem hbs
  have htasks := hplain (by decide) r.summaryLines.tasks_avoids
  have hcpu := hplain (by decide) r.summaryLines.cpu_avoids
  have hmem := hplain (by decide) r.summaryLines.mem_avoids
  have hswap := hplain (by decide) r.summaryLines.swapBody_avoids
  have htop :
      (updateTopFile r files).topTxt =
        ended r.uptime.text ++ (ended r.summaryLines.tasks ++
          (ended r.summaryLines.cpu ++ (ended r.summaryLines.mem ++
            (ended (r.summaryLines.swap ++ [32]) ++
              (surroundings r files).behind)))) := by
    simp [updateTopFile, overwrite, TopReport.bytes, TopReport.lines,
      SummaryLines.bodies, surroundings, Surroundings.behind]
  rw [htop, grep_ended _ r.uptime.single, grep_ended _ htasks, grep_ended _ hcpu,
    grep_ended _ hmem, grep_ended _ hswap]

theorem grep_cpu (r : TopReport layout) (files : Files) :
    grep (lit "Cpu") (updateTopFile r files).topTxt =
      (surroundings r files).cpuLines r.summaryLines := by
  rw [grep_report, matched_of_infix r.summaryLines.cpu_picked,
    matched_of_avoids (b := 67) (by decide) (by decide)
      r.summaryLines.tasks_avoids,
    matched_of_avoids (b := 67) (by decide) (by decide)
      r.summaryLines.mem_avoids,
    matched_of_avoids (b := 67) (by decide) (by decide)
      r.summaryLines.swapBody_avoids]
  rfl

theorem grep_tasks (r : TopReport layout) (files : Files) :
    grep (lit "Tasks") (updateTopFile r files).topTxt =
      (surroundings r files).tasksLines r.summaryLines := by
  rw [grep_report, matched_of_infix r.summaryLines.tasks_picked,
    matched_of_avoids (b := 84) (by decide) (by decide)
      r.summaryLines.cpu_avoids,
    matched_of_avoids (b := 84) (by decide) (by decide)
      r.summaryLines.mem_avoids,
    matched_of_avoids (b := 84) (by decide) (by decide)
      r.summaryLines.swapBody_avoids]
  rfl

theorem grep_mem (r : TopReport layout) (files : Files) :
    grep (lit "Mem") (updateTopFile r files).topTxt =
      (surroundings r files).memLines r.summaryLines := by
  have hswap : lit "Mem" <:+: r.summaryLines.swap ++ [32] :=
    r.summaryLines.swap_picked.trans (List.prefix_append _ _).isInfix
  rw [grep_report, matched_of_infix r.summaryLines.mem_picked,
    matched_of_infix hswap,
    matched_of_avoids (b := 77) (by decide) (by decide)
      r.summaryLines.tasks_avoids,
    matched_of_avoids (b := 77) (by decide) (by decide)
      r.summaryLines.cpu_avoids]
  rfl

def roundInfoTxt (r : TopReport layout) (files : Files) : List Byte :=
  (filterTopFile (updateTopFile r files)).infoTxt

theorem roundInfoTxt_eq (r : TopReport layout) (files : Files) :
    roundInfoTxt r files =
      overwrite files.infoTxt
        ((surroundings r files).cpuLines r.summaryLines ++
          (surroundings r files).tasksLines r.summaryLines ++
          (surroundings r files).memLines r.summaryLines) := by
  rw [← grep_cpu, ← grep_tasks, ← grep_mem]
  rfl

end

/-!
# What the message depends on
-/

namespace Surroundings

/-- No line around the summary is picked in front of the memory line. -/
structure Unmatched (s : Surroundings) : Prop where
  uptime : forall pattern, pattern ∈ [lit "Cpu", lit "Tasks", lit "Mem"] ->
    contains pattern s.uptime.text = false
  behind : forall pattern, pattern ∈ [lit "Cpu", lit "Tasks"] ->
    forall line, line ∈ s.rows.map Line.text ++ linesOf s.overhang ->
      contains pattern line = false

/-- What is picked in front of the memory line besides the summary. -/
def strayBytes (s : Surroundings) : List Byte :=
  matched (lit "Cpu") s.uptime.text ++ grep (lit "Cpu") s.behind ++
    matched (lit "Tasks") s.uptime.text ++ grep (lit "Tasks") s.behind ++
    matched (lit "Mem") s.uptime.text

theorem strayBytes_eq_nil_iff (s : Surroundings) :
    s.strayBytes = [] <-> s.Unmatched := by
  unfold strayBytes
  simp only [List.append_eq_nil_iff, matched_eq_nil_iff, grep_eq_nil_iff,
    linesOf_behind]
  constructor
  · rintro ⟨⟨⟨⟨hcpu, hcpus⟩, htasks⟩, htaskss⟩, hmem⟩
    constructor
    · simp only [List.forall_mem_cons, List.not_mem_nil, false_implies,
        implies_true, and_true]
      exact ⟨hcpu, htasks, hmem⟩
    · simp only [List.forall_mem_cons, List.not_mem_nil, false_implies,
        implies_true, and_true]
      exact ⟨hcpus, htaskss⟩
  · intro h
    exact ⟨⟨⟨⟨h.uptime _ (by simp), h.behind _ (by simp)⟩,
      h.uptime _ (by simp)⟩, h.behind _ (by simp)⟩, h.uptime _ (by simp)⟩

end Surroundings

section

variable {layout layout' : Type} [SummaryLayout layout] [SummaryLayout layout']
variable {r : TopReport layout} {files files' : Files}

/-- An undisturbed round starts `info.txt` with the four lines. -/
theorem roundInfoTxt_of_unmatched (h : (surroundings r files).Unmatched) :
    exists rest,
      roundInfoTxt r files =
        r.summaryLines.front ++ (32 :: newline :: rest) := by
  have hstray := (surroundings r files).strayBytes_eq_nil_iff.mpr h
  unfold Surroundings.strayBytes at hstray
  simp only [List.append_eq_nil_iff] at hstray
  rcases hstray with ⟨⟨⟨⟨hcpu, hcpus⟩, htasks⟩, htaskss⟩, hmem⟩
  rw [roundInfoTxt_eq, overwrite]
  simp only [Surroundings.cpuLines, Surroundings.tasksLines,
    Surroundings.memLines, hcpu, hcpus, htasks, htaskss, hmem, List.nil_append,
    List.append_nil, List.append_assoc, SummaryLines.front, ended]
  exact ⟨_, rfl⟩

theorem messageLine_congr {r' : TopReport layout'} (infoList : InfoList)
    (block : List Byte)
    (h : (roundInfoTxt r files).take LIMIT_READ =
      (roundInfoTxt r' files').take LIMIT_READ) :
    messageLine r files infoList block =
      messageLine r' files' infoList block := by
  unfold roundInfoTxt at h
  unfold messageLine updateSendInfo
  simp only
  rw [h]

theorem messageLine_of_send {infoList infoList' : InfoList}
    {block fullInfo : List Byte}
    (h : updateSendInfo (roundInfoTxt r files) infoList block =
      .ok (infoList', fullInfo)) :
    messageLine r files infoList block = .ok (sentLine fullInfo) := by
  unfold roundInfoTxt at h
  unfold messageLine
  simp only
  rw [h]
  rfl

theorem SummaryLines.nulFree_front (l : SummaryLines) : NulFree l.front := by
  have hline : forall {body : CStr} {bs : List Byte}, 0 ∈ bs ->
      (forall b, b ∈ body -> b ∉ bs) -> NulFree body := by
    intro body bs hzero havoids b hb hb0
    rw [hb0] at hb
    exact havoids 0 hb hzero
  have hcpu := hline List.mem_cons_self l.cpu_avoids
  have htasks := hline List.mem_cons_self l.tasks_avoids
  have hmem := hline List.mem_cons_self l.mem_avoids
  have hend : NulFree [newline] := by decide
  simp only [front, ended, nulFree_append]
  exact ⟨⟨⟨⟨hcpu, hend⟩, htasks, hend⟩, hmem, hend⟩,
    hline List.mem_cons_self l.swap_avoids⟩

/-- The words of the four lines are read first, when the lines fit. -/
theorem separarTokens_front (l : SummaryLines)
    (hfits : l.front.length ≤ LIMIT_READ) (rest : List Byte)
    (infoList : InfoList) {pos : Nat}
    (hpos : pos < (tokensOf (lit " ") l.front).length) :
    separarTokens (stringOf ((l.front ++ 32 :: rest).take LIMIT_READ ++ [0]))
        (lit " ") infoList pos =
      some ((tokensOf (lit " ") l.front)[pos]) := by
  rcases stringOf_read l.nulFree_front hfits rest with ⟨back, hread, hback⟩
  have htokens : exists more,
      tokensOf (lit " ") (l.front ++ back) =
        tokensOf (lit " ") l.front ++ more := by
    rcases hback with rfl | ⟨s, rfl⟩
    · exact ⟨[], by simp⟩
    · exact ⟨_, tokensOf_append_cons 32 l.front s⟩
  rcases htokens with ⟨more, htokens⟩
  rw [hread]
  unfold separarTokens
  rw [htokens, if_pos (by rw [List.length_append]; lia),
    List.getElem?_append_left hpos, List.getElem?_eq_getElem hpos]

theorem messageLine_of_entries {r' : TopReport layout'} {entry : Nat -> CStr}
    (infoList : InfoList) (block : List Byte)
    (h : forall pos, pos ≤ MEM_USED_POS ->
      separarTokens (stringOf ((roundInfoTxt r files).take LIMIT_READ ++ [0]))
          (lit " ") infoList pos = some (entry pos))
    (h' : forall pos, pos ≤ MEM_USED_POS ->
      separarTokens (stringOf ((roundInfoTxt r' files').take LIMIT_READ ++ [0]))
          (lit " ") infoList pos = some (entry pos)) :
    messageLine r files infoList block =
      messageLine r' files' infoList block := by
  have hpicked : forall {list : InfoList},
      (forall pos, pos ≤ MEM_USED_POS -> list pos = some (entry pos)) ->
        PickedEntries list (entry TASKS_GEN_POS) (entry TASKS_RUN_POS)
          (entry TASKS_SLEEP_POS) (entry CPU_GEN_POS) (entry CPU_SYS_POS)
          (entry MEM_USED_POS) (entry MEM_AVAIL_POS) := by
    intro list hlist
    constructor
    all_goals exact hlist _ (by decide)
  rw [messageLine_of_send (updateSendInfo_ok block (hpicked h)),
    messageLine_of_send (updateSendInfo_ok block (hpicked h'))]

theorem messageLine_of_unmatched {r r' : TopReport layout}
    (h : (surroundings r files).Unmatched)
    (h' : (surroundings r' files').Unmatched) (hsame : r.summary = r'.summary)
    (infoList : InfoList) (block : List Byte) :
    messageLine r files infoList block =
      messageLine r' files' infoList block := by
  rcases roundInfoTxt_of_unmatched h with ⟨rest, hinfo⟩
  rcases roundInfoTxt_of_unmatched h' with ⟨rest', hinfo'⟩
  have hlines : r'.summaryLines = r.summaryLines :=
    congrArg SummaryLayout.lines hsame.symm
  rw [hlines] at hinfo'
  rcases Nat.le_total r.summaryLines.front.length LIMIT_READ with hfits | hlong
  · have hwords := SummaryLayout.words r.summary
    have hentry : forall (tail : List Byte) pos, pos ≤ MEM_USED_POS ->
        separarTokens (stringOf ((r.summaryLines.front ++
            32 :: tail).take LIMIT_READ ++ [0])) (lit " ") infoList pos =
          some ((tokensOf (lit " ") r.summaryLines.front).getD pos []) := by
      intro tail pos hpos
      have hlt : pos < (tokensOf (lit " ") r.summaryLines.front).length :=
        Nat.lt_of_le_of_lt hpos hwords
      rw [separarTokens_front _ hfits tail infoList hlt,
        List.getD_eq_getElem?_getD, List.getElem?_eq_getElem hlt]
      rfl
    apply messageLine_of_entries infoList block
    · rw [hinfo]
      exact hentry _
    · rw [hinfo']
      exact hentry _
  · apply messageLine_congr
    rw [hinfo, hinfo', List.take_append_of_le_length hlong,
      List.take_append_of_le_length hlong]

end

/-!
# Summaries with at least one space between their words
-/

/-- The lines of a report that describe the tasks, the processor and the memory. -/
structure Summary extends TopInfo where
  swapTotal : Value
  swapFree : Value
  swapUsed : Value
  memAvail : Value
  swapGaps : Nat -> Nat

namespace Summary

def swapWords (f : Summary) : List CStr :=
  [lit "MiB", lit "Swap:", f.swapTotal.text, lit "total,", f.swapFree.text,
    lit "free,", f.swapUsed.text, lit "used.", f.memAvail.text, lit "avail",
    lit "Mem"]

def swapBody (f : Summary) : CStr := spaced 32 f.swapGaps f.swapWords

theorem swapBody_avoids (f : Summary) :
    forall b, b ∈ f.swapBody -> b ∉ [0, newline, 67, 84] := by
  apply spaced_avoids (by decide)
  intro w hw
  simp only [swapWords, List.mem_cons, List.not_mem_nil, or_false] at hw
  rcases hw with rfl | rfl | rfl | rfl | rfl | rfl | rfl | rfl | rfl | rfl |
    rfl
  all_goals first | exact TopInfo.value_avoids (by decide) _ | decide

def lines (f : Summary) : SummaryLines where
  cpu := f.cpuBody
  tasks := f.tasksBody
  mem := f.memBody
  swap := f.swapBody
  cpu_avoids := f.cpuBody_avoids
  tasks_avoids := f.tasksBody_avoids
  mem_avoids := f.memBody_avoids
  swap_avoids := f.swapBody_avoids
  cpu_picked := (show lit "Cpu" <:+: lit "%Cpu(s):" by decide).trans
    (infix_spaced _ (by simp [TopInfo.cpuWords]))
  tasks_picked := (show lit "Tasks" <:+: lit "Tasks:" by decide).trans
    (infix_spaced _ List.mem_cons_self)
  mem_picked := infix_spaced _ (by simp [TopInfo.memWords])
  swap_picked := infix_spaced _ (by simp [swapWords])

theorem front_lines (f : Summary) : f.lines.front = f.text ++ f.swapBody :=
  rfl

instance : SummaryLayout Summary where
  lines := lines
  words := by
    intro f
    rw [front_lines, TopInfo.tokensOf_text, List.length_append]
    exact Nat.lt_add_right _ (Nat.lt_succ_self MEM_USED_POS)

end Summary

theorem roundInfoTxt_summary {r : TopReport Summary} {files : Files}
    (h : (surroundings r files).Unmatched) :
    exists rest, roundInfoTxt r files = r.summary.text ++ rest := by
  rcases roundInfoTxt_of_unmatched h with ⟨rest, hinfo⟩
  refine ⟨r.summary.swapBody ++ 32 :: newline :: rest, ?_⟩
  rw [hinfo, ← List.append_assoc]
  rfl

theorem messageLine_picked {r : TopReport Summary} {files : Files}
    {f : TopInfo} {more : List CStr}
    (htokens :
      tokensOf (lit " ")
          (stringOf ((roundInfoTxt r files).take LIMIT_READ ++ [0])) =
        f.tokens ++ more)
    (infoList : InfoList) (block : List Byte) :
    messageLine r files infoList block =
      .ok (stringOf block ++ f.pickedLine) := by
  rcases f.updateSendInfo_picked htokens infoList block with
    ⟨infoList', fullInfo, hsend, hline⟩
  rw [messageLine_of_send hsend, hline]

def summaryTxt : Summary :=
  { infoTxt with
    swapTotal := swapTxt.total
    swapFree := swapTxt.free
    swapUsed := swapTxt.used
    memAvail := swapTxt.avail
    swapGaps := swapTxt.gaps }

/-- The same summary with the cached memory at the end of the read buffer. -/
def paddedTxt (cached : Value) : Summary :=
  { summaryTxt with
    buffCache := cached
    memGaps := fun i => [0, 0, 2, 0, 3, 0, 2, 0, 157, 0].getD i 0 }

def one : Value := valueOf (lit "1") (by decide) rfl

def two : Value := valueOf (lit "2") (by decide) rfl

def memFrontWords : List CStr :=
  [lit "MiB", lit "Mem", lit ":", lit "7817,7", lit "total,", lit "474,8",
    lit "free,", lit "3025,5", lit "used,"]

def memFront : CStr :=
  spaced 32 (paddedTxt one).memGaps (memFrontWords ++ [[]])

theorem paddedTxt_memLine (cached : Value) :
    (paddedTxt cached).memLine =
      memFront ++ (cached.text ++ (lit " buff/cache" ++ [newline])) := by
  have hsplit := spaced_append 32 cached.text [lit "buff/cache"] memFrontWords
    (paddedTxt one).memGaps
  have hlast :
      spaced 32 (fun i => (paddedTxt one).memGaps (i + memFrontWords.length))
          [cached.text, lit "buff/cache"] =
        cached.text ++ lit " buff/cache" := rfl
  rw [hlast] at hsplit
  unfold memFront
  rw [← List.append_assoc cached.text, ← List.append_assoc, ← hsplit]
  rfl

/-- A stray byte pushes the cached memory out of the read buffer. -/
theorem padded_take {s : Surroundings} (hstray : s.strayBytes ≠ [])
    (cached : Value) (rest : List Byte) :
    (s.cpuLines (paddedTxt cached).lines ++
        s.tasksLines (paddedTxt cached).lines ++
        s.memLines (paddedTxt cached).lines ++ rest).take LIMIT_READ =
      (s.cpuLines (paddedTxt one).lines ++
        s.tasksLines (paddedTxt one).lines ++
        matched (lit "Mem") s.uptime.text ++ memFront).take LIMIT_READ := by
  have hlong : LIMIT_READ ≤
      (s.cpuLines (paddedTxt one).lines ++
        s.tasksLines (paddedTxt one).lines ++
        matched (lit "Mem") s.uptime.text ++ memFront).length := by
    have hpos : 0 < s.strayBytes.length := List.length_pos_iff.mpr hstray
    have hlines : (ended (paddedTxt one).lines.cpu).length +
        (ended (paddedTxt one).lines.tasks).length + memFront.length = 362 := by
      decide +kernel
    unfold Surroundings.strayBytes at hpos
    unfold Surroundings.cpuLines Surroundings.tasksLines LIMIT_READ
    simp only [List.length_append] at hpos ⊢
    lia
  have hmem : ended (paddedTxt cached).lines.mem =
      memFront ++ (cached.text ++ (lit " buff/cache" ++ [newline])) :=
    paddedTxt_memLine cached
  rw [← @List.take_append_of_le_length _ _ (cached.text ++
    (lit " buff/cache" ++ [newline]) ++
      (ended ((paddedTxt cached).lines.swap ++ [32]) ++
        grep (lit "Mem") s.behind) ++ rest) _ hlong]
  unfold Surroundings.memLines
  rw [hmem]
  simp only [List.append_assoc]
  rfl

def emptyLine : Line where
  text := []
  single := List.not_mem_nil

section

variable {layout layout' : Type} [SummaryLayout layout] [SummaryLayout layout']

def reportIn (s : Surroundings) (f : layout) : TopReport layout where
  uptime := s.uptime
  summary := f
  rows := s.rows

def filesUnder (s : Surroundings) (r : TopReport layout) : Files where
  topTxt := List.replicate r.bytes.length 0 ++ s.overhang
  infoTxt := []

theorem surroundings_reportIn (s : Surroundings) (f : layout) :
    surroundings (reportIn s f) (filesUnder s (reportIn s f)) = s := by
  unfold surroundings filesUnder
  simp only [List.length_replicate, List.drop_left']
  rfl

theorem messageLine_lines {f : layout} {g : layout'}
    (hlines : SummaryLayout.lines f = SummaryLayout.lines g)
    (s : Surroundings) (infoList : InfoList) (block : List Byte) :
    messageLine (reportIn s f) (filesUnder s (reportIn s f)) infoList block =
      messageLine (reportIn s g) (filesUnder s (reportIn s g)) infoList
        block := by
  have hbytes : (reportIn s f).bytes = (reportIn s g).bytes := by
    unfold TopReport.bytes TopReport.lines TopReport.summaryLines reportIn
    simp only [hlines]
  unfold messageLine updateTopFile filesUnder
  simp only [hbytes]

end

def bare : Surroundings where
  uptime := emptyLine
  rows := []
  overhang := []

theorem bare_unmatched : bare.Unmatched := by
  constructor
  · decide
  · decide

theorem reportIn_bare {layout : Type} [SummaryLayout layout] (f : layout) :
    (surroundings (reportIn bare f)
      (filesUnder bare (reportIn bare f))).Unmatched := by
  rw [surroundings_reportIn]
  exact bare_unmatched

theorem messageLine_bare {cached : Value}
    (htokens :
      tokensOf (lit " ")
          (stringOf ((paddedTxt cached).text.take LIMIT_READ ++ [0])) =
        (paddedTxt cached).tokens)
    (hlong : LIMIT_READ ≤ (paddedTxt cached).text.length)
    (infoList : InfoList) (block : List Byte) :
    messageLine (reportIn bare (paddedTxt cached))
        (filesUnder bare (reportIn bare (paddedTxt cached))) infoList block =
      .ok (stringOf block ++ (paddedTxt cached).pickedLine) := by
  rcases roundInfoTxt_summary (reportIn_bare (paddedTxt cached)) with
    ⟨rest, hinfo⟩
  refine @messageLine_picked _ _ _ [] ?_ infoList block
  rw [hinfo, List.append_nil]
  show tokensOf (lit " ") (stringOf (((paddedTxt cached).text ++ rest).take
    LIMIT_READ ++ [0])) = _
  rw [List.take_append_of_le_length hlong]
  exact htokens

theorem messageLine_padded {s : Surroundings} (hstray : s.strayBytes ≠ [])
    (cached : Value) (infoList : InfoList) (block : List Byte) :
    messageLine (reportIn s (paddedTxt cached))
        (filesUnder s (reportIn s (paddedTxt cached))) infoList block =
      messageLine (reportIn s (paddedTxt one))
        (filesUnder s (reportIn s (paddedTxt one))) infoList block := by
  apply messageLine_congr
  rw [roundInfoTxt_eq, roundInfoTxt_eq, surroundings_reportIn,
    surroundings_reportIn, overwrite, overwrite]
  show (s.cpuLines (paddedTxt cached).lines ++
      s.tasksLines (paddedTxt cached).lines ++
      s.memLines (paddedTxt cached).lines ++ _).take LIMIT_READ =
    (s.cpuLines (paddedTxt one).lines ++ s.tasksLines (paddedTxt one).lines ++
      s.memLines (paddedTxt one).lines ++ _).take LIMIT_READ
  rw [padded_take hstray, padded_take hstray]

theorem messageLine_bare_ne (infoList : InfoList) (block : List Byte) :
    messageLine (reportIn bare (paddedTxt one))
        (filesUnder bare (reportIn bare (paddedTxt one))) infoList block ≠
      messageLine (reportIn bare (paddedTxt two))
        (filesUnder bare (reportIn bare (paddedTxt two))) infoList block := by
  rw [messageLine_bare (by decide +kernel) (by decide +kernel),
    messageLine_bare (by decide +kernel) (by decide +kernel)]
  intro hsame
  have hpicked := List.append_cancel_left (Except.ok.inj hsame)
  revert hpicked
  decide +kernel

/-- For every layout that can spell the two summaries. -/
theorem summary_iff_of_spelled {layout : Type} [SummaryLayout layout]
    (spelled : Value -> layout)
    (hone : SummaryLayout.lines (spelled one) =
      SummaryLayout.lines (paddedTxt one))
    (htwo : SummaryLayout.lines (spelled two) =
      SummaryLayout.lines (paddedTxt two))
    (s : Surroundings) (infoList : InfoList) (block : List Byte) :
    (forall (r : TopReport layout) files r' files', surroundings r files = s ->
      (surroundings r' files').Unmatched -> r.summary = r'.summary ->
        messageLine r files infoList block =
          messageLine r' files' infoList block) <->
      s.Unmatched := by
  constructor
  · intro h
    by_contra hmatched
    have hstray : s.strayBytes ≠ [] :=
      mt s.strayBytes_eq_nil_iff.mp hmatched
    have hbare : forall {cached : Value},
        SummaryLayout.lines (spelled cached) =
          SummaryLayout.lines (paddedTxt cached) ->
        messageLine (reportIn bare (paddedTxt cached))
            (filesUnder bare (reportIn bare (paddedTxt cached))) infoList
            block =
          messageLine (reportIn s (paddedTxt one))
            (filesUnder s (reportIn s (paddedTxt one))) infoList block := by
      intro cached hlines
      rw [← messageLine_padded hstray cached, ← messageLine_lines hlines s,
        ← messageLine_lines hlines bare]
      apply Eq.symm
      apply h
      · exact surroundings_reportIn s (spelled cached)
      · exact reportIn_bare (spelled cached)
      · rfl
    exact messageLine_bare_ne infoList block
      ((hbare hone).trans (hbare htwo).symm)
  · intro h r files r' files' hs h' hsame
    rw [← hs] at h
    exact messageLine_of_unmatched h h' hsame infoList block

/--
The published line is a matter of the summary alone exactly when nothing around
the summary is picked in front of its memory line.
-/
theorem messageLine_summary_iff (s : Surroundings) (infoList : InfoList)
    (block : List Byte) :
    (forall (r : TopReport Summary) files r' files', surroundings r files = s ->
      (surroundings r' files').Unmatched -> r.summary = r'.summary ->
        messageLine r files infoList block =
          messageLine r' files' infoList block) <->
      s.Unmatched :=
  summary_iff_of_spelled paddedTxt rfl rfl s infoList block

/-!
# A process named after a pattern
-/

def uptimeTxt : Line where
  text := lit
    "top - 01:17:43 up 1 day,  4:42,  1 user,  load average: 0,24, 1,16, 1,43"
  single := by decide

def cpuHog : Line where
  text := lit
    "   4711 eduardo   20   0   20,9g 166540 114704 S   6,2   2,1  10:27.09 CpuHog"
  single := by decide

def noFiles : Files where
  topTxt := []
  infoTxt := []

def reportWith (rows : List Line) : TopReport Summary where
  uptime := uptimeTxt
  summary := summaryTxt
  rows := rows

/-- One more process, with an unlucky name, changes the published numbers. -/
theorem messageLine_cpuHog :
    (reportWith [cpuHog]).summary = (reportWith []).summary ∧
      (messageLine (reportWith []) noFiles (fun _ => none)
        (List.replicate 64 0)).toOption =
          some (lit "293,290,0,35.2,0.0,55.225" ++ [newline]) ∧
      (messageLine (reportWith [cpuHog]) noFiles (fun _ => none)
        (List.replicate 64 0)).toOption =
          some (lit "4711,20,9g,114704,35.2,0.0,0.000" ++ [newline]) := by
  refine ⟨rfl, ?_, ?_⟩
  · decide +kernel
  · decide +kernel

end Publisher
end MQTTv1
