import MQTTv1.Publisher.InfoFile

/-!
# Reading `info.txt`

`update_send_info` uses the result of `read` without a look at it, and its buffer
is as long as the longest read.
-/

namespace MQTTv1
namespace Publisher

open CLib
open Csapp

inductive InfoRead where
  /-- One of the calls returned -1. -/
  | failed
  | content (file : List Byte)
deriving DecidableEq, Repr

def InfoRead.readNumber : InfoRead -> Int
  | .failed => -1
  | .content file => (file.take LIMIT_READ).length

/--
The string in `read_buffer` once the terminator is stored.  After a failed read
it is whatever the stack holds there.
-/
def InfoRead.line (stack : List Byte) : InfoRead -> CStr
  | .failed => stringOf stack
  | .content file => stringOf (file.take LIMIT_READ ++ [0])

/-- The stores of `separar_tokens`, with NULL behind the tokens. -/
def separarStores (linea delim : CStr) : List (Nat × Option CStr) :=
  let tokens := tokensOf delim linea
  (List.range (tokens.length + 1)).map fun i => (i, tokens[i]?)

/-- The entries that `parse_info` and `join_full_info` dereference. -/
def dereferenced : List Nat :=
  [TASKS_GEN_POS, CPU_GEN_POS, MEM_USED_POS, MEM_AVAIL_POS] ++
    [TASKS_GEN_POS, TASKS_RUN_POS, TASKS_SLEEP_POS, CPU_GEN_POS, CPU_SYS_POS]

structure SafeReading (stack : List Byte) (r : InfoRead) : Prop where
  terminator : 0 ≤ r.readNumber ∧ r.readNumber < LIMIT_READ
  entries : forall i entry,
    (i, entry) ∈ separarStores (r.line stack) (lit " ") -> i < MAXLINE
  current : forall pos, pos ∈ dereferenced -> exists token,
    (pos, some token) ∈ separarStores (r.line stack) (lit " ")

def wordCount (s : CStr) : Nat :=
  ((s.splitOn 32).filter fun part => part ≠ []).length

def InfoRead.Readable : InfoRead -> Prop
  | .failed => False
  | .content file =>
      file.length < LIMIT_READ ∧ MEM_USED_POS < wordCount (stringOf file)

/-!
# The stores of `separar_tokens`
-/

theorem mem_separarStores {linea delim : CStr} {i : Nat}
    {entry : Option CStr} :
    (i, entry) ∈ separarStores linea delim <->
      i ≤ (tokensOf delim linea).length ∧
        entry = (tokensOf delim linea)[i]? := by
  unfold separarStores
  simp only [List.mem_map, List.mem_range, Prod.mk.injEq]
  constructor
  · rintro ⟨k, hk, rfl, rfl⟩
    exact ⟨Nat.le_of_lt_succ hk, rfl⟩
  · rintro ⟨hi, rfl⟩
    exact ⟨i, Nat.lt_succ_of_le hi, rfl, rfl⟩

theorem separarTokens_of_store {linea delim : CStr} {i : Nat}
    {entry : Option CStr} (h : (i, entry) ∈ separarStores linea delim)
    (argv : InfoList) : separarTokens linea delim argv i = entry := by
  rcases mem_separarStores.mp h with ⟨hi, rfl⟩
  unfold separarTokens
  rcases Nat.lt_or_eq_of_le hi with hlt | heq
  · exact if_pos hlt
  · rw [if_neg (by lia), if_pos heq, heq, List.getElem?_eq_none (Nat.le_refl _)]

theorem exists_token_iff {linea delim : CStr} {pos : Nat} :
    (exists token, (pos, some token) ∈ separarStores linea delim) <->
      pos < (tokensOf delim linea).length := by
  constructor
  · rintro ⟨token, h⟩
    rcases mem_separarStores.mp h with ⟨_, hentry⟩
    exact (List.getElem?_eq_some_iff.mp hentry.symm).choose
  · intro hpos
    refine ⟨(tokensOf delim linea)[pos], mem_separarStores.mpr ?_⟩
    exact ⟨Nat.le_of_lt hpos, (List.getElem?_eq_getElem hpos).symm⟩

theorem length_tokensOf_le (delim src : CStr) :
    (tokensOf delim src).length ≤ src.length + 1 := by
  have hcalls : forall (calls : Nat) (s : CStr),
      (splitFrom delim calls s).length ≤ calls := by
    intro calls
    induction calls with
    | zero =>
        intro s
        exact Nat.le_refl 0
    | succ calls ih =>
        intro s
        unfold splitFrom
        split
        · exact Nat.zero_le _
        · exact Nat.succ_le_succ (ih _)
  exact hcalls _ src

theorem length_tokensOf_space (s : CStr) :
    (tokensOf (lit " ") s).length = wordCount s := by
  rw [lit_space, tokensOf_eq_splitOn]
  rfl

theorem line_content_of_short {file : List Byte} (stack : List Byte)
    (hshort : file.length < LIMIT_READ) :
    (InfoRead.content file).line stack = stringOf file := by
  have htake : file.take LIMIT_READ = file :=
    List.take_of_length_le (Nat.le_of_lt hshort)
  show stringOf (file.take LIMIT_READ ++ [0]) = _
  rw [htake, stringOf_terminated]

/-!
# Safe readings
-/

theorem dereferenced_le {pos : Nat} (h : pos ∈ dereferenced) :
    pos ≤ MEM_USED_POS := by
  revert pos
  decide

/--
`update_send_info` stays in its arrays and uses tokens of the current report
exactly when the file could be read, leaves room for the terminator and has a
word at the last of the positions.
-/
theorem safeReading_iff (stack : List Byte) (r : InfoRead) :
    SafeReading stack r <-> r.Readable := by
  cases r with
  | failed =>
      constructor
      · intro h
        exact absurd h.terminator.left (by decide)
      · intro h
        cases h
  | content file =>
      have hnumber : (InfoRead.content file).readNumber < LIMIT_READ <->
          file.length < LIMIT_READ := by
        show ((file.take LIMIT_READ).length : Int) < LIMIT_READ <-> _
        rw [List.length_take]
        lia
      constructor
      · intro h
        have hshort := hnumber.mp h.terminator.right
        have hused := exists_token_iff.mp (h.current MEM_USED_POS (by decide))
        rw [line_content_of_short stack hshort, length_tokensOf_space] at hused
        exact ⟨hshort, hused⟩
      · rintro ⟨hshort, hwords⟩
        have hline := line_content_of_short stack hshort
        rw [← length_tokensOf_space, ← hline] at hwords
        constructor
        · exact ⟨Int.natCast_nonneg _, hnumber.mpr hshort⟩
        · intro i entry hentry
          have hle := (mem_separarStores.mp hentry).left
          have hcount := length_tokensOf_le (lit " ")
            ((InfoRead.content file).line stack)
          have hlen : (stringOf file).length ≤ file.length :=
            (List.takeWhile_prefix _).length_le
          rw [hline] at hle hcount
          unfold LIMIT_READ at hshort
          unfold MAXLINE
          lia
        · intro pos hpos
          apply exists_token_iff.mpr
          exact Nat.lt_of_le_of_lt (dereferenced_le hpos) hwords

/-- A missing file, a long one and an empty one. -/
theorem unsafe_readings :
    ¬ SafeReading [] .failed ∧
      ¬ SafeReading [] (.content (List.replicate 363 32)) ∧
      ¬ SafeReading [] (.content []) := by
  refine ⟨?_, ?_, ?_⟩
  · intro h
    exact absurd h.terminator.left (by decide)
  · intro h
    exact absurd h.terminator.right (by decide +kernel)
  · intro h
    exact absurd (exists_token_iff.mp (h.current CPU_GEN_POS (by decide)))
      (by decide)

/-- A safe reading ends with a line to send. -/
theorem updateSendInfo_of_safe {stack file : List Byte}
    (h : SafeReading stack (.content file)) (infoList : InfoList)
    (block : List Byte) :
    exists out, updateSendInfo file infoList block = .ok out := by
  have hentry : forall pos, pos ∈ dereferenced -> exists token,
      separarTokens (stringOf (file.take LIMIT_READ ++ [0])) (lit " ")
        infoList pos = some token := by
    intro pos hpos
    rcases h.current pos hpos with ⟨token, hstore⟩
    exact ⟨token, separarTokens_of_store hstore infoList⟩
  rcases hentry TASKS_GEN_POS (by decide) with ⟨tasksGen, h1⟩
  rcases hentry TASKS_RUN_POS (by decide) with ⟨tasksRun, h2⟩
  rcases hentry TASKS_SLEEP_POS (by decide) with ⟨tasksSleep, h3⟩
  rcases hentry CPU_GEN_POS (by decide) with ⟨cpuGen, h4⟩
  rcases hentry CPU_SYS_POS (by decide) with ⟨cpuSys, h5⟩
  rcases hentry MEM_USED_POS (by decide) with ⟨used, h6⟩
  rcases hentry MEM_AVAIL_POS (by decide) with ⟨available, h7⟩
  exact ⟨_, updateSendInfo_ok block ⟨h1, h2, h3, h4, h5, h6, h7⟩⟩

end Publisher
end MQTTv1
