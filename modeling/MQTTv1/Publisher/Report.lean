import Mathlib.Logic.Function.Basic
import MQTTv1.CLib.Binary32
import MQTTv1.CLib.Strtok
import MQTTv1.Csapp.Rio

/-!
# Reports of a publisher

`pub_client.c` cuts `info.txt` into tokens at spaces, picks seven of them by
position and joins six texts to the line it sends.  The entries of `info_list`
point to disjoint tokens of the read buffer, so rewriting one of them leaves the
others alone.
-/

namespace MQTTv1
namespace Publisher

open CLib
open Csapp

def LIMIT_READ : Nat := 363

def TASKS_GEN_POS : Nat := 17
def TASKS_RUN_POS : Nat := 21
def TASKS_SLEEP_POS : Nat := 23

def CPU_GEN_POS : Nat := 1
def CPU_SYS_POS : Nat := 5

def MEM_AVAIL_POS : Nat := 29
def MEM_USED_POS : Nat := 35

/-- `info_list`, with its NULL entries. -/
abbrev InfoList := Nat -> Option CStr

/-- The tokens of the line, NULL behind them, and old entries further on. -/
def separarTokens (linea delim : CStr) (argv : InfoList) : InfoList :=
  let tokens := tokensOf delim linea
  fun i =>
    if i < tokens.length then tokens[i]?
    else if i = tokens.length then none
    else argv i

def period : Byte := 46

def changeCommaForPeriod (str : CStr) : CStr :=
  str.map fun b => if b = comma then period else b

def rewriteEntry (pos : Nat) (infoList : InfoList) : Except Stop InfoList := do
  let str <- orUndefined (infoList pos)
  return Function.update infoList pos (some (changeCommaForPeriod str))

def rewriteCommas (infoList : InfoList) : Except Stop InfoList := do
  let infoList <- rewriteEntry TASKS_GEN_POS infoList
  rewriteEntry CPU_GEN_POS infoList

/-- The text that `snprintf` leaves in the 10 bytes of the caller. -/
def memoryPercentage (used available : CStr) : CStr :=
  let usedMemory := Binary32.ofInt (strtol used)
  let totalMemory := Binary32.ofInt (strtol available)
  let fmemoryPercentage :=
    Binary32.mul (Binary32.div usedMemory totalMemory) (Binary32.ofInt 100)
  fmemoryPercentage.fixed4.take 9

def parseInfo (infoList : InfoList) : Except Stop (InfoList × CStr) := do
  let infoList <- rewriteCommas infoList
  let used <- orUndefined (infoList MEM_USED_POS)
  let available <- orUndefined (infoList MEM_AVAIL_POS)
  return (infoList, memoryPercentage used available)

/-- `block` is what `malloc` returned; nothing clears it. -/
def joinFullInfo (block : List Byte) (tasksGen tasksRun tasksSleep cpuGen
    cpuSys memory : CStr) : List Byte :=
  let cpuSys := changeCommaForPeriod cpuSys
  let fullInfo :=
    [tasksGen, lit ",", tasksRun, lit ",", tasksSleep, lit ",", cpuGen,
      lit ",", cpuSys, lit ",", memory].foldl strcat block
  storeAt fullInfo (strlen fullInfo - 1) newline

/-- The call of `join_full_info` with the entries of `info_list`. -/
def joinEntries (block : List Byte) (infoList : InfoList) (memory : CStr) :
    Except Stop (InfoList × List Byte) := do
  let tasksGen <- orUndefined (infoList TASKS_GEN_POS)
  let tasksRun <- orUndefined (infoList TASKS_RUN_POS)
  let tasksSleep <- orUndefined (infoList TASKS_SLEEP_POS)
  let cpuGen <- orUndefined (infoList CPU_GEN_POS)
  let cpuSys <- orUndefined (infoList CPU_SYS_POS)
  let fullInfo :=
    joinFullInfo block tasksGen tasksRun tasksSleep cpuGen cpuSys memory
  -- The commas of `cpu_sys` are rewritten where the entry points.
  let infoList <- rewriteEntry CPU_SYS_POS infoList
  return (infoList, fullInfo)

/-- `file` is the content of `info.txt`. -/
def updateSendInfo (file : List Byte) (infoList : InfoList)
    (block : List Byte) : Except Stop (InfoList × List Byte) := do
  let readBuffer := file.take LIMIT_READ ++ [0]
  let infoList := separarTokens (stringOf readBuffer) (lit " ") infoList
  let (infoList, cmemoryPercentage) <- parseInfo infoList
  joinEntries block infoList cmemoryPercentage

/-- The string that `main` sends. -/
def sentLine (fullInfo : List Byte) : CStr := stringOf fullInfo

/-!
# The picked entries
-/

/-- Whatever is read starts with the texts that fit, and a space behind them. -/
theorem stringOf_read {front : CStr} (hfront : NulFree front)
    (hfits : front.length ≤ LIMIT_READ) (more : List Byte) :
    exists back,
      stringOf ((front ++ 32 :: more).take LIMIT_READ ++ [0]) = front ++ back ∧
        (back = [] ∨ exists s, back = 32 :: s) := by
  refine ⟨stringOf ((32 :: more).take (LIMIT_READ - front.length) ++ [0]),
    ?_, ?_⟩
  · rw [List.take_append, List.take_of_length_le hfits, List.append_assoc,
      stringOf_append hfront]
  · cases LIMIT_READ - front.length with
    | zero =>
        left
        rfl
    | succ n =>
        right
        exact ⟨_, rfl⟩

/-- What `rewriteCommas` leaves in the list; the positions are all different. -/
def rewritten (tasksGen cpuGen : CStr) (infoList : InfoList) : InfoList :=
  Function.update
    (Function.update infoList TASKS_GEN_POS (some (changeCommaForPeriod tasksGen)))
    CPU_GEN_POS (some (changeCommaForPeriod cpuGen))

theorem rewriteCommas_ok {infoList : InfoList} {tasksGen cpuGen : CStr}
    (htasks : infoList TASKS_GEN_POS = some tasksGen)
    (hcpu : infoList CPU_GEN_POS = some cpuGen) :
    rewriteCommas infoList = .ok (rewritten tasksGen cpuGen infoList) := by
  have hstill :
      Function.update infoList TASKS_GEN_POS
          (some (changeCommaForPeriod tasksGen)) CPU_GEN_POS = some cpuGen :=
    hcpu
  unfold rewriteCommas rewriteEntry
  rw [htasks]
  show Except.bind (orUndefined (Function.update infoList TASKS_GEN_POS _
    CPU_GEN_POS)) _ = _
  rw [hstill]
  rfl

theorem parseInfo_ok {infoList : InfoList}
    {tasksGen cpuGen used available : CStr}
    (htasks : infoList TASKS_GEN_POS = some tasksGen)
    (hcpu : infoList CPU_GEN_POS = some cpuGen)
    (hused : infoList MEM_USED_POS = some used)
    (havailable : infoList MEM_AVAIL_POS = some available) :
    parseInfo infoList =
      .ok (rewritten tasksGen cpuGen infoList,
        memoryPercentage used available) := by
  have hused' : rewritten tasksGen cpuGen infoList MEM_USED_POS =
      some used := hused
  have havailable' : rewritten tasksGen cpuGen infoList MEM_AVAIL_POS =
      some available := havailable
  unfold parseInfo
  rw [rewriteCommas_ok htasks hcpu]
  show Except.bind (orUndefined (rewritten tasksGen cpuGen infoList
    MEM_USED_POS)) _ = _
  rw [hused']
  show Except.bind (orUndefined (rewritten tasksGen cpuGen infoList
    MEM_AVAIL_POS)) _ = _
  rw [havailable']
  rfl

theorem joinEntries_rewritten (block : List Byte) {infoList : InfoList}
    (tasksGen cpuGen memory : CStr) {tasksRun tasksSleep cpuSys : CStr}
    (hrun : infoList TASKS_RUN_POS = some tasksRun)
    (hsleep : infoList TASKS_SLEEP_POS = some tasksSleep)
    (hsys : infoList CPU_SYS_POS = some cpuSys) :
    joinEntries block (rewritten tasksGen cpuGen infoList) memory =
      .ok (Function.update (rewritten tasksGen cpuGen infoList) CPU_SYS_POS
          (some (changeCommaForPeriod cpuSys)),
        joinFullInfo block (changeCommaForPeriod tasksGen) tasksRun
          tasksSleep (changeCommaForPeriod cpuGen) cpuSys memory) := by
  have htasks : rewritten tasksGen cpuGen infoList TASKS_GEN_POS =
      some (changeCommaForPeriod tasksGen) := rfl
  have hcpu : rewritten tasksGen cpuGen infoList CPU_GEN_POS =
      some (changeCommaForPeriod cpuGen) := rfl
  have hrun' : rewritten tasksGen cpuGen infoList TASKS_RUN_POS =
      some tasksRun := hrun
  have hsleep' : rewritten tasksGen cpuGen infoList TASKS_SLEEP_POS =
      some tasksSleep := hsleep
  have hsys' : rewritten tasksGen cpuGen infoList CPU_SYS_POS =
      some cpuSys := hsys
  unfold joinEntries rewriteEntry
  rw [htasks, hcpu, hrun', hsleep', hsys']
  rfl

structure PickedEntries (infoList : InfoList) (tasksGen tasksRun tasksSleep
    cpuGen cpuSys used available : CStr) : Prop where
  tasksGen : infoList TASKS_GEN_POS = some tasksGen
  tasksRun : infoList TASKS_RUN_POS = some tasksRun
  tasksSleep : infoList TASKS_SLEEP_POS = some tasksSleep
  cpuGen : infoList CPU_GEN_POS = some cpuGen
  cpuSys : infoList CPU_SYS_POS = some cpuSys
  used : infoList MEM_USED_POS = some used
  available : infoList MEM_AVAIL_POS = some available

/-- With tokens at the positions there is a line to send. -/
theorem updateSendInfo_ok {file : List Byte} {infoList : InfoList}
    (block : List Byte)
    {tasksGen tasksRun tasksSleep cpuGen cpuSys used available : CStr}
    (hentries : PickedEntries
      (separarTokens (stringOf (file.take LIMIT_READ ++ [0])) (lit " ")
        infoList)
      tasksGen tasksRun tasksSleep cpuGen cpuSys used available) :
    updateSendInfo file infoList block =
      .ok (Function.update
          (rewritten tasksGen cpuGen
            (separarTokens (stringOf (file.take LIMIT_READ ++ [0])) (lit " ")
              infoList))
          CPU_SYS_POS (some (changeCommaForPeriod cpuSys)),
        joinFullInfo block (changeCommaForPeriod tasksGen) tasksRun tasksSleep
          (changeCommaForPeriod cpuGen) cpuSys
          (memoryPercentage used available)) := by
  have hparse := parseInfo_ok hentries.tasksGen hentries.cpuGen hentries.used
    hentries.available
  have hjoin := joinEntries_rewritten block tasksGen cpuGen
    (memoryPercentage used available) hentries.tasksRun hentries.tasksSleep
    hentries.cpuSys
  unfold updateSendInfo
  simp only
  show Except.bind (parseInfo _) _ = _
  rw [hparse]
  exact hjoin

/-!
# The joined line
-/

theorem memoryPercentage_aboveComma (used available : CStr) :
    AboveComma (memoryPercentage used available) := by
  intro b hb
  exact Binary32.fixed4_aboveComma _ b (List.mem_of_mem_take hb)

theorem memoryPercentage_length (used available : CStr) :
    3 ≤ (memoryPercentage used available).length := by
  unfold memoryPercentage
  rw [List.length_take]
  exact Nat.le_min.mpr ⟨by decide, Binary32.fixed4_length _⟩

theorem memoryPercentage_ne_nil (used available : CStr) :
    memoryPercentage used available ≠ [] := by
  intro hnil
  have hlen := memoryPercentage_length used available
  rw [hnil] at hlen
  cases hlen

def commaJoined (fields : List CStr) : CStr :=
  List.intercalate [comma] fields

theorem commaJoined_cons (field next : CStr) (rest : List CStr) :
    commaJoined (field :: next :: rest) =
      field ++ comma :: commaJoined (next :: rest) := by
  simp [commaJoined, List.intercalate]

theorem word_comma {field : CStr} (hne : field ≠ []) (hplain : comma ∉ field) :
    Word (lit ",") field := by
  rw [lit_comma]
  exact word_singleton hne hplain

theorem count_comma_commaJoined :
    forall {field : CStr} {rest : List CStr},
      (forall w, w ∈ field :: rest -> comma ∉ w) ->
        (commaJoined (field :: rest)).count comma = rest.length
  | field, [], hplain => by
      have hfield : comma ∉ field := hplain field List.mem_cons_self
      have hjoin : commaJoined [field] = field := by
        simp [commaJoined, List.intercalate]
      rw [hjoin, List.count_eq_zero_of_not_mem hfield]
      rfl
  | field, next :: rest, hplain => by
      have hfield : comma ∉ field := hplain field List.mem_cons_self
      have htail : (commaJoined (next :: rest)).count comma = rest.length :=
        count_comma_commaJoined fun w hw => hplain w (List.mem_cons_of_mem _ hw)
      rw [commaJoined_cons, List.count_append, List.count_cons_self, htail,
        List.count_eq_zero_of_not_mem hfield, Nat.zero_add]
      rfl

theorem append_commaJoined_inj {front field : CStr} {rest rest' : List CStr}
    (hrest : forall w, w ∈ field :: rest -> Word (lit ",") w)
    (hrest' : forall w, w ∈ field :: rest' -> Word (lit ",") w)
    (hlen : rest.length = rest'.length)
    (h : front ++ commaJoined (field :: rest) = commaJoined (field :: rest')) :
    front = [] ∧ rest = rest' := by
  have hplain : forall {ws : List CStr}, (forall w, w ∈ ws -> Word (lit ",") w) ->
      forall w, w ∈ ws -> comma ∉ w := by
    intro ws hws w hw hmem
    exact (hws w hw).right comma hmem (by decide)
  have hcount := congrArg (List.count comma) h
  rw [List.count_append, count_comma_commaJoined (hplain hrest),
    count_comma_commaJoined (hplain hrest'), hlen] at hcount
  have hfront : comma ∉ front :=
    List.count_eq_zero.mp (Nat.add_eq_right.mp hcount)
  have hfirst : Word (lit ",") (front ++ field) := by
    have hfield := hrest field List.mem_cons_self
    apply word_comma
    · exact List.append_ne_nil_of_right_ne_nil front hfield.left
    · intro hmem
      rcases List.mem_append.mp hmem with hmem | hmem
      · exact hfront hmem
      · exact hplain hrest field List.mem_cons_self hmem
  have hjoin :
      front ++ commaJoined (field :: rest) =
        commaJoined ((front ++ field) :: rest) := by
    cases rest with
    | nil => simp [commaJoined, List.intercalate]
    | cons next rest => simp [commaJoined_cons]
  have hwords : forall w, w ∈ (front ++ field) :: rest -> Word (lit ",") w := by
    intro w hw
    rcases List.mem_cons.mp hw with rfl | hw
    · exact hfirst
    · exact hrest w (List.mem_cons_of_mem _ hw)
  have hcomma : comma ∈ lit "," := by decide
  have htokens := congrArg (tokensOf (lit ",")) (hjoin.symm.trans h)
  unfold commaJoined at htokens
  rw [tokensOf_intercalate hcomma hwords, tokensOf_intercalate hcomma hrest']
    at htokens
  rcases List.cons.inj htokens with ⟨hsame, htail⟩
  exact ⟨List.append_left_eq_self.mp hsame, htail⟩

theorem nulFree_changeComma {str : CStr} (hstr : NulFree str) :
    NulFree (changeCommaForPeriod str) := by
  intro b hb
  rcases List.mem_map.mp hb with ⟨c, hc, rfl⟩
  split
  · decide
  · exact hstr c hc

theorem comma_notMem_changeComma (str : CStr) :
    comma ∉ changeCommaForPeriod str := by
  intro hmem
  rcases List.mem_map.mp hmem with ⟨c, _, hc⟩
  split at hc
  · revert hc
    decide
  · contradiction

theorem word_comma_changeComma {str : CStr} (hne : str ≠ []) :
    Word (lit ",") (changeCommaForPeriod str) := by
  apply word_comma
  · intro hnil
    exact hne (List.map_eq_nil_iff.mp hnil)
  · exact comma_notMem_changeComma str

theorem stringOf_strcat_newline (buf : List Byte) {last : CStr}
    (hlast : NulFree last) (hne : last ≠ []) :
    stringOf (storeAt (strcat buf last) (strlen (strcat buf last) - 1)
        newline) =
      stringOf buf ++ last.dropLast ++ [newline] := by
  rcases strcat_split buf last with ⟨rest, hsplit⟩
  have hfull : NulFree (stringOf buf ++ last) :=
    nulFree_append.mpr ⟨nulFree_stringOf buf, hlast⟩
  have hlen : strlen (strcat buf last) = (stringOf buf ++ last).length := by
    rw [strlen, stringOf_strcat hlast]
  rw [hlen, hsplit, stringOf_storeAt_last hfull (by simp [hne]) rest (by decide),
    List.dropLast_append_of_ne_nil hne]

theorem sentLine_joinFullInfo (block : List Byte) {tasksGen tasksRun
    tasksSleep cpuGen cpuSys memory : CStr}
    (hfields : forall s, s ∈ [tasksGen, tasksRun, tasksSleep, cpuGen,
      cpuSys, memory] -> NulFree s)
    (hmemory : memory ≠ []) :
    sentLine (joinFullInfo block tasksGen tasksRun tasksSleep cpuGen cpuSys
        memory) =
      stringOf block ++
        commaJoined [tasksGen, tasksRun, tasksSleep, cpuGen,
          changeCommaForPeriod cpuSys, memory.dropLast] ++ [newline] := by
  have hsys := nulFree_changeComma (hfields cpuSys (by simp))
  have hparts : forall part, part ∈ [tasksGen, lit ",", tasksRun, lit ",",
      tasksSleep, lit ",", cpuGen, lit ",", changeCommaForPeriod cpuSys,
      lit ","] -> NulFree part := by
    intro part hpart
    have hcomma : NulFree (lit ",") := by decide
    simp only [List.mem_cons, List.not_mem_nil, or_false] at hpart hfields
    grind
  have hjoin := stringOf_strcat_newline
    ([tasksGen, lit ",", tasksRun, lit ",", tasksSleep, lit ",", cpuGen,
      lit ",", changeCommaForPeriod cpuSys, lit ","].foldl strcat block)
    (hfields memory (by simp)) hmemory
  rw [stringOf_foldl_strcat hparts] at hjoin
  refine hjoin.trans ?_
  simp [commaJoined, List.intercalate, lit_comma]

end Publisher
end MQTTv1
