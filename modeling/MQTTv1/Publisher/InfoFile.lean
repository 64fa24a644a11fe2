import MQTTv1.Publisher.Report

/-!
# Reports from `info.txt`

The positions of `pub_client.c` count the tokens of the first three lines of the
file.  A line end is no delimiter, so the last word of a line and the first word
of the next one are a single token.
-/

namespace MQTTv1
namespace Publisher

open CLib
open Csapp

def isNumeric (b : Byte) : Bool := isDigit b || b == comma || b == period

/-- A number as `top` prints it, with a decimal comma or period. -/
structure Value where
  text : CStr
  nonEmpty : text ≠ []
  numeric : text.all isNumeric = true

structure Count where
  text : CStr
  nonEmpty : text ≠ []
  digits : text.all isDigit = true

/-- The first three lines of `info.txt`; the gaps count the extra spaces. -/
structure TopInfo where
  us : Value
  sy : Value
  ni : Value
  idle : Value
  wa : Value
  hi : Value
  si : Value
  st : Value
  total : Count
  running : Count
  sleeping : Count
  stopped : Count
  zombie : Count
  memTotal : Value
  memFree : Value
  memUsed : Value
  buffCache : Value
  cpuGaps : Nat -> Nat
  tasksGaps : Nat -> Nat
  memGaps : Nat -> Nat

namespace TopInfo

def cpuWords (f : TopInfo) : List CStr :=
  [lit "%Cpu(s):", f.us.text, lit "us,", f.sy.text, lit "sy,", f.ni.text,
    lit "ni,", f.idle.text, lit "id,", f.wa.text, lit "wa,", f.hi.text,
    lit "hi,", f.si.text, lit "si,", f.st.text]

def tasksWords (f : TopInfo) : List CStr :=
  [f.total.text, lit "total,", f.running.text, lit "running,",
    f.sleeping.text, lit "sleeping,", f.stopped.text, lit "stopped,",
    f.zombie.text]

def memWords (f : TopInfo) : List CStr :=
  [lit "Mem", lit ":", f.memTotal.text, lit "total,", f.memFree.text,
    lit "free,", f.memUsed.text, lit "used,", f.buffCache.text]

def cpuLine (f : TopInfo) : CStr :=
  spaced 32 f.cpuGaps (f.cpuWords ++ [lit "st"]) ++ [newline]

def tasksLine (f : TopInfo) : CStr :=
  spaced 32 f.tasksGaps (lit "Tasks:" :: (f.tasksWords ++ [lit "zombie"])) ++
    [newline]

def memLine (f : TopInfo) : CStr :=
  spaced 32 f.memGaps (lit "MiB" :: (f.memWords ++ [lit "buff/cache"])) ++
    [newline]

def text (f : TopInfo) : CStr := f.cpuLine ++ f.tasksLine ++ f.memLine

/-- The tokens in front of the last word of the memory line. -/
def tokens (f : TopInfo) : List CStr :=
  f.cpuWords ++ (lit "st" ++ [newline] ++ lit "Tasks:") ::
    (f.tasksWords ++ (lit "zombie" ++ [newline] ++ lit "MiB") :: f.memWords)

theorem mem_lit_space : (32 : Byte) ∈ lit " " := by
  rw [lit_space]
  exact List.mem_singleton.mpr rfl

theorem word_value (v : Value) : Word (lit " ") v.text := by
  rw [lit_space]
  exact word_singleton v.nonEmpty (notMem_of_all v.numeric rfl)

theorem word_count (c : Count) : Word (lit " ") c.text := by
  rw [lit_space]
  exact word_singleton c.nonEmpty (notMem_of_all c.digits rfl)

theorem words_cpu (f : TopInfo) :
    forall w, w ∈ f.cpuWords -> Word (lit " ") w := by
  intro w hw
  simp only [cpuWords, List.mem_cons, List.not_mem_nil, or_false] at hw
  rcases hw with rfl | rfl | rfl | rfl | rfl | rfl | rfl | rfl | rfl | rfl |
    rfl | rfl | rfl | rfl | rfl | rfl
  all_goals first | exact word_value _ | decide

theorem words_tasks (f : TopInfo) :
    forall w, w ∈ (lit "st" ++ [newline] ++ lit "Tasks:") :: f.tasksWords ->
      Word (lit " ") w := by
  intro w hw
  simp only [tasksWords, List.mem_cons, List.not_mem_nil, or_false] at hw
  rcases hw with rfl | rfl | rfl | rfl | rfl | rfl | rfl | rfl | rfl | rfl
  all_goals first | exact word_count _ | decide

theorem words_mem (f : TopInfo) :
    forall w, w ∈ (lit "zombie" ++ [newline] ++ lit "MiB") :: f.memWords ->
      Word (lit " ") w := by
  intro w hw
  simp only [memWords, List.mem_cons, List.not_mem_nil, or_false] at hw
  rcases hw with rfl | rfl | rfl | rfl | rfl | rfl | rfl | rfl | rfl | rfl
  all_goals first | exact word_value _ | decide

/-- The last word of a line joins the first word of the next line. -/
theorem tokensOf_lineEnd {ws : List CStr}
    (hws : forall w, w ∈ ws -> Word (lit " ") w) (gaps gaps' : Nat -> Nat)
    (last next : CStr) (more : List CStr) (tail : CStr) :
    tokensOf (lit " ")
        (spaced 32 gaps (ws ++ [last]) ++ [newline] ++
          (spaced 32 gaps' (next :: more) ++ tail)) =
      ws ++ tokensOf (lit " ")
        (spaced 32 gaps' ((last ++ [newline] ++ next) :: more) ++ tail) := by
  rw [List.append_assoc, tokensOf_spaced mem_lit_space gaps last _ hws,
    ← append_spaced 32 gaps' (last ++ [newline]) next more]
  simp only [List.append_assoc]

theorem tokensOf_text (f : TopInfo) (rest : CStr) :
    tokensOf (lit " ") (f.text ++ rest) =
      f.tokens ++
        tokensOf (lit " ") (lit "buff/cache" ++ ([newline] ++ rest)) := by
  have htext :
      f.text ++ rest =
        spaced 32 f.cpuGaps (f.cpuWords ++ [lit "st"]) ++ [newline] ++
          (spaced 32 f.tasksGaps
              (lit "Tasks:" :: (f.tasksWords ++ [lit "zombie"])) ++
            ([newline] ++
              (spaced 32 f.memGaps
                  (lit "MiB" :: (f.memWords ++ [lit "buff/cache"])) ++
                ([newline] ++ rest)))) := by
    simp only [text, cpuLine, tasksLine, memLine, List.append_assoc]
  have htasks :=
    tokensOf_lineEnd f.words_tasks f.tasksGaps f.memGaps (lit "zombie")
      (lit "MiB") (f.memWords ++ [lit "buff/cache"]) ([newline] ++ rest)
  have hmem :=
    tokensOf_spaced mem_lit_space f.memGaps (lit "buff/cache") ([newline] ++ rest)
      f.words_mem
  rw [htext, tokensOf_lineEnd f.words_cpu]
  rw [List.append_assoc] at htasks
  simp only [List.cons_append] at htasks hmem ⊢
  rw [htasks, hmem]
  simp [tokens]

/-!
# The picked line
-/

theorem nulFree_value (v : Value) : NulFree v.text :=
  nulFree_of_all v.numeric rfl

theorem nulFree_count (c : Count) : NulFree c.text :=
  nulFree_of_all c.digits rfl

def cpuBody (f : TopInfo) : CStr :=
  spaced 32 f.cpuGaps (f.cpuWords ++ [lit "st"])

def tasksBody (f : TopInfo) : CStr :=
  spaced 32 f.tasksGaps (lit "Tasks:" :: (f.tasksWords ++ [lit "zombie"]))

def memBody (f : TopInfo) : CStr :=
  spaced 32 f.memGaps (lit "MiB" :: (f.memWords ++ [lit "buff/cache"]))

theorem value_avoids {bs : List Byte}
    (hbs : forall b, b ∈ bs -> isNumeric b = false) (v : Value) :
    forall b, b ∈ v.text -> b ∉ bs := by
  intro b hb hmem
  exact notMem_of_all v.numeric (hbs b hmem) hb

theorem count_avoids {bs : List Byte}
    (hbs : forall b, b ∈ bs -> isDigit b = false) (c : Count) :
    forall b, b ∈ c.text -> b ∉ bs := by
  intro b hb hmem
  exact notMem_of_all c.digits (hbs b hmem) hb

theorem cpuBody_avoids (f : TopInfo) :
    forall b, b ∈ f.cpuBody -> b ∉ [0, newline, 77, 84] := by
  apply spaced_avoids (by decide)
  intro w hw
  simp only [cpuWords, List.mem_append, List.mem_cons, List.not_mem_nil,
    or_false] at hw
  rcases hw with (rfl | rfl | rfl | rfl | rfl | rfl | rfl | rfl | rfl | rfl |
    rfl | rfl | rfl | rfl | rfl | rfl) | rfl
  all_goals first | exact value_avoids (by decide) _ | decide

theorem tasksBody_avoids (f : TopInfo) :
    forall b, b ∈ f.tasksBody -> b ∉ [0, newline, 67, 77] := by
  apply spaced_avoids (by decide)
  intro w hw
  simp only [tasksWords, List.mem_append, List.mem_cons, List.not_mem_nil,
    or_false] at hw
  rcases hw with rfl | (rfl | rfl | rfl | rfl | rfl | rfl | rfl | rfl | rfl) |
    rfl
  all_goals first | exact count_avoids (by decide) _ | decide

theorem memBody_avoids (f : TopInfo) :
    forall b, b ∈ f.memBody -> b ∉ [0, newline, 67, 84] := by
  apply spaced_avoids (by decide)
  intro w hw
  simp only [memWords, List.mem_append, List.mem_cons, List.not_mem_nil,
    or_false] at hw
  rcases hw with rfl | (rfl | rfl | rfl | rfl | rfl | rfl | rfl | rfl | rfl) |
    rfl
  all_goals first | exact value_avoids (by decide) _ | decide

theorem nulFree_text (f : TopInfo) : NulFree f.text := by
  have hline : forall {body : CStr} {bs : List Byte}, 0 ∈ bs ->
      (forall b, b ∈ body -> b ∉ bs) -> NulFree (body ++ [newline]) := by
    intro body bs hzero havoids
    apply nulFree_append.mpr ⟨?_, by decide⟩
    intro b hb hb0
    rw [hb0] at hb
    exact havoids 0 hb hzero
  exact nulFree_append.mpr ⟨nulFree_append.mpr
    ⟨hline List.mem_cons_self f.cpuBody_avoids,
      hline List.mem_cons_self f.tasksBody_avoids⟩,
    hline List.mem_cons_self f.memBody_avoids⟩

theorem stringOf_readBuffer (f : TopInfo) (rest : List Byte)
    (hfits : f.text.length ≤ LIMIT_READ) :
    exists more,
      stringOf ((f.text ++ rest).take LIMIT_READ ++ [0]) = f.text ++ more := by
  refine ⟨stringOf (rest.take (LIMIT_READ - f.text.length) ++ [0]), ?_⟩
  rw [List.take_append, List.take_of_length_le hfits, List.append_assoc,
    stringOf_append f.nulFree_text]

theorem separarTokens_entry (f : TopInfo) {line : CStr} {more : List CStr}
    (htokens : tokensOf (lit " ") line = f.tokens ++ more)
    (infoList : InfoList) {i : Nat} {token : CStr}
    (htoken : f.tokens[i]? = some token) :
    separarTokens line (lit " ") infoList i = some token := by
  have hi : i < f.tokens.length :=
    (List.getElem?_eq_some_iff.mp htoken).choose
  unfold separarTokens
  rw [htokens, if_pos (by rw [List.length_append]; lia),
    List.getElem?_append_left hi, htoken]

/-- The line with the texts that stand at the seven positions. -/
def pickedLine (f : TopInfo) : CStr :=
  commaJoined [changeCommaForPeriod f.total.text, f.sleeping.text,
    f.stopped.text, changeCommaForPeriod f.us.text,
    changeCommaForPeriod f.ni.text,
    (memoryPercentage f.buffCache.text f.memTotal.text).dropLast] ++ [newline]

/-- The line with the metrics that the topics are documented to carry. -/
def documentedLine (f : TopInfo) : CStr :=
  commaJoined [changeCommaForPeriod f.total.text, f.running.text,
    f.sleeping.text, changeCommaForPeriod f.us.text,
    changeCommaForPeriod f.sy.text,
    (memoryPercentage f.memUsed.text f.memTotal.text).dropLast] ++ [newline]

theorem updateSendInfo_picked (f : TopInfo) {file : List Byte}
    {more : List CStr}
    (htokens :
      tokensOf (lit " ") (stringOf (file.take LIMIT_READ ++ [0])) =
        f.tokens ++ more)
    (infoList : InfoList) (block : List Byte) :
    exists infoList' fullInfo,
      updateSendInfo file infoList block = .ok (infoList', fullInfo) ∧
        sentLine fullInfo = stringOf block ++ f.pickedLine := by
  have hentry : forall (i : Nat) s, f.tokens[i]? = some s ->
      separarTokens (stringOf (file.take LIMIT_READ ++ [0])) (lit " ")
        infoList i = some s :=
    fun i s => f.separarTokens_entry htokens infoList
  have hentries : PickedEntries
      (separarTokens (stringOf (file.take LIMIT_READ ++ [0])) (lit " ")
        infoList)
      f.total.text f.sleeping.text f.stopped.text f.us.text f.ni.text
      f.buffCache.text f.memTotal.text :=
    ⟨hentry TASKS_GEN_POS _ rfl, hentry TASKS_RUN_POS _ rfl,
      hentry TASKS_SLEEP_POS _ rfl, hentry CPU_GEN_POS _ rfl,
      hentry CPU_SYS_POS _ rfl, hentry MEM_USED_POS _ rfl,
      hentry MEM_AVAIL_POS _ rfl⟩
  have hsend := updateSendInfo_ok block hentries
  refine ⟨_, _, hsend, ?_⟩
  rw [sentLine_joinFullInfo]
  · simp [pickedLine]
  · intro s hs
    simp only [List.mem_cons, List.not_mem_nil, or_false] at hs
    rcases hs with rfl | rfl | rfl | rfl | rfl | rfl
    · exact nulFree_changeComma (nulFree_count _)
    · exact nulFree_count _
    · exact nulFree_count _
    · exact nulFree_changeComma (nulFree_value _)
    · exact nulFree_value _
    · exact (memoryPercentage_aboveComma _ _).nulFree
  · exact memoryPercentage_ne_nil _ _

theorem updateSendInfo_line (f : TopInfo) (rest : List Byte)
    (infoList : InfoList) (block : List Byte)
    (hfits : f.text.length ≤ LIMIT_READ) :
    exists infoList' fullInfo,
      updateSendInfo (f.text ++ rest) infoList block =
          .ok (infoList', fullInfo) ∧
        sentLine fullInfo = stringOf block ++ f.pickedLine := by
  rcases f.stringOf_readBuffer rest hfits with ⟨more, hbuffer⟩
  apply f.updateSendInfo_picked
  rw [hbuffer]
  exact f.tokensOf_text more

/-- The picked texts happen to be the documented ones. -/
structure PicksDocumented (f : TopInfo) (block : List Byte) : Prop where
  cleared : stringOf block = []
  running : f.sleeping.text = f.running.text
  sleeping : f.stopped.text = f.sleeping.text
  sy : changeCommaForPeriod f.ni.text = changeCommaForPeriod f.sy.text
  memory :
    (memoryPercentage f.buffCache.text f.memTotal.text).dropLast =
      (memoryPercentage f.memUsed.text f.memTotal.text).dropLast

theorem word_comma_count (c : Count) : Word (lit ",") c.text :=
  word_comma c.nonEmpty (notMem_of_all c.digits rfl)

theorem word_comma_percentage (used available : CStr) :
    Word (lit ",") (memoryPercentage used available).dropLast := by
  have hlen := memoryPercentage_length used available
  apply word_comma
  · intro hnil
    have hzero := congrArg List.length hnil
    rw [List.length_dropLast] at hzero
    simp only [List.length_nil] at hzero
    lia
  · intro hmem
    have habove := memoryPercentage_aboveComma used available comma
      (List.dropLast_subset _ hmem)
    revert habove
    decide

/--
The published line carries the documented metrics exactly when the texts at the
wrong positions coincide with the right ones and the block starts empty.
-/
theorem updateSendInfo_documented_iff (f : TopInfo) (rest : List Byte)
    (infoList : InfoList) (block : List Byte)
    (hfits : f.text.length ≤ LIMIT_READ) :
    exists infoList' fullInfo,
      updateSendInfo (f.text ++ rest) infoList block =
          .ok (infoList', fullInfo) ∧
        (sentLine fullInfo = f.documentedLine <-> f.PicksDocumented block) := by
  rcases f.updateSendInfo_line rest infoList block hfits with
    ⟨infoList', fullInfo, hsend, hline⟩
  refine ⟨infoList', fullInfo, hsend, ?_⟩
  rw [hline]
  constructor
  · intro h
    unfold pickedLine documentedLine at h
    rw [← List.append_assoc] at h
    have hjoin := List.append_cancel_right h
    have hwords : forall run sleep sys used,
        Word (lit ",") run -> Word (lit ",") sleep -> Word (lit ",") sys ->
        forall w, w ∈ [changeCommaForPeriod f.total.text, run, sleep,
          changeCommaForPeriod f.us.text, sys,
          (memoryPercentage used f.memTotal.text).dropLast] ->
          Word (lit ",") w := by
      intro run sleep sys used hrun hsleep hsys w hw
      simp only [List.mem_cons, List.not_mem_nil, or_false] at hw
      rcases hw with rfl | rfl | rfl | rfl | rfl | rfl
      · exact word_comma_changeComma f.total.nonEmpty
      · exact hrun
      · exact hsleep
      · exact word_comma_changeComma f.us.nonEmpty
      · exact hsys
      · exact word_comma_percentage _ _
    rcases append_commaJoined_inj
        (hwords _ _ _ f.buffCache.text (word_comma_count _) (word_comma_count _)
          (word_comma_changeComma f.ni.nonEmpty))
        (hwords _ _ _ f.memUsed.text (word_comma_count _) (word_comma_count _)
          (word_comma_changeComma f.sy.nonEmpty)) rfl hjoin with
      ⟨hcleared, hfields⟩
    simp only [List.cons.injEq, and_true, true_and] at hfields
    rcases hfields with ⟨hrun, hsleep, hsys, hmem⟩
    exact ⟨hcleared, hrun, hsleep, hsys, hmem⟩
  · intro h
    unfold pickedLine documentedLine
    rw [h.cleared, h.sleeping, h.running, h.sy, h.memory, List.nil_append]

end TopInfo

def valueOf (text : CStr) (hne : text ≠ [])
    (hnumeric : text.all isNumeric = true) : Value where
  text := text
  nonEmpty := hne
  numeric := hnumeric

def countOf (text : CStr) (hne : text ≠ [])
    (hdigits : text.all isDigit = true) : Count where
  text := text
  nonEmpty := hne
  digits := hdigits

def infoTxt : TopInfo where
  us := valueOf (lit "35,2") (by decide) rfl
  sy := valueOf (lit "5,6") (by decide) rfl
  ni := valueOf (lit "0,0") (by decide) rfl
  idle := valueOf (lit "59,2") (by decide) rfl
  wa := valueOf (lit "0,0") (by decide) rfl
  hi := valueOf (lit "0,0") (by decide) rfl
  si := valueOf (lit "0,0") (by decide) rfl
  st := valueOf (lit "0,0") (by decide) rfl
  total := countOf (lit "293") (by decide) rfl
  running := countOf (lit "3") (by decide) rfl
  sleeping := countOf (lit "290") (by decide) rfl
  stopped := countOf (lit "0") (by decide) rfl
  zombie := countOf (lit "0") (by decide) rfl
  memTotal := valueOf (lit "7817,7") (by decide) rfl
  memFree := valueOf (lit "474,8") (by decide) rfl
  memUsed := valueOf (lit "3025,5") (by decide) rfl
  buffCache := valueOf (lit "4317,3") (by decide) rfl
  cpuGaps := fun i => [0, 0, 1, 0, 1, 0, 0, 0, 1, 0, 1, 0, 1, 0, 1, 0].getD i 0
  tasksGaps := fun i => [0, 0, 2, 0, 0, 0, 2, 0, 2, 0].getD i 0
  memGaps := fun i => [0, 0, 2, 0, 3, 0, 2, 0, 2, 0].getD i 0

structure SwapLine where
  total : Value
  free : Value
  used : Value
  avail : Value
  gaps : Nat -> Nat

def swapTxt : SwapLine where
  total := valueOf (lit "2048,0") (by decide) rfl
  free := valueOf (lit "2041,9") (by decide) rfl
  used := valueOf (lit "6,1") (by decide) rfl
  avail := valueOf (lit "3668,6") (by decide) rfl
  gaps := fun i => [0, 2, 0, 2, 0, 5, 0, 2, 0, 0].getD i 0

example :
    infoTxt.text =
      lit "%Cpu(s): 35,2 us,  5,6 sy,  0,0 ni, 59,2 id,  0,0 wa,  0,0 hi," ++
        lit "  0,0 si,  0,0 st" ++ [newline] ++
      lit "Tasks: 293 total,   3 running, 290 sleeping,   0 stopped," ++
        lit "   0 zombie" ++ [newline] ++
      lit "MiB Mem :   7817,7 total,    474,8 free,   3025,5 used," ++
        lit "   4317,3 buff/cache" ++ [newline] := by
  decide +kernel

/-- The sleeping tasks are reported as running and the caches as used memory. -/
theorem updateSendInfo_wrong_positions :
    exists infoList' fullInfo,
      updateSendInfo infoTxt.text (fun _ => none) (List.replicate 64 0) =
          .ok (infoList', fullInfo) ∧
        sentLine fullInfo = lit "293,290,0,35.2,0.0,55.225" ++ [newline] ∧
        infoTxt.documentedLine =
          lit "293,3,290,35.2,5.6,38.697" ++ [newline] := by
  rcases infoTxt.updateSendInfo_line [] (fun _ => none) (List.replicate 64 0)
    (by decide +kernel) with ⟨infoList', fullInfo, hsend, hline⟩
  rw [List.append_nil] at hsend
  refine ⟨infoList', fullInfo, hsend, ?_, ?_⟩
  · rw [hline]
    decide
  · decide

def evenTxt : TopInfo :=
  { infoTxt with
    running := infoTxt.total
    sleeping := infoTxt.total
    stopped := infoTxt.total
    sy := infoTxt.ni
    memUsed := infoTxt.buffCache }

theorem updateSendInfo_even :
    exists infoList' fullInfo,
      updateSendInfo (evenTxt.text ++ []) (fun _ => none)
          (List.replicate 64 0) = .ok (infoList', fullInfo) ∧
        sentLine fullInfo = evenTxt.documentedLine := by
  rcases evenTxt.updateSendInfo_documented_iff [] (fun _ => none)
    (List.replicate 64 0) (by decide +kernel) with
    ⟨infoList', fullInfo, hsend, hiff⟩
  exact ⟨infoList', fullInfo, hsend, hiff.mpr ⟨rfl, rfl, rfl, rfl, rfl⟩⟩

end Publisher
end MQTTv1
