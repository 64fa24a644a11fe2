import MQTTv1.Broker.Tables
import MQTTv1.TopicFilter

/-!
# Subscription filters

`update_sus_info` decides by a tree of string comparisons which entries of the
mask it overwrites.  The comparisons only depend on the two levels of the filter,
so the whole function is summarised by the list of entries a pair of levels
leaves alone.
-/

namespace MQTTv1
namespace Broker

open CLib
open Csapp

/-!
# The node of a subscription
-/

def firstPart (susInfo : CStr) : Option CStr :=
  ((susInfo.splitOn 47).filter fun part => part ≠ []).head?

theorem firstPart_eq_head (susInfo : CStr) :
    firstPart susInfo = (tokensOf (lit "/") susInfo).head? := by
  unfold firstPart
  rw [lit_slash, tokensOf_eq_splitOn]

theorem subscribedNode_eq (susInfo : CStr) (left : Leftover) :
    subscribedNode susInfo left =
      if susInfo = lit "NONE" then susInfo
      else (firstPart susInfo).getD (left.bufSuscriptionInfo 0) := by
  unfold subscribedNode split isNone
  rw [firstPart_eq_head, ← List.head?_eq_getElem?]
  simp only [decide_eq_true_eq]

/-!
# The topics of a filter
-/

/-- The topics that the branch for a pair of levels does not disable. -/
def branchKeeps (first second : CStr) : List Nat :=
  if first = lit "#" then [0, 1, 2, 3, 4, 5]
  else if first = lit "+" then
    if second = lit "gen" then [0, 3, 5] else [0, 1, 2, 3, 4, 5]
  else if first = lit "tasks" then
    if second = lit "#" then [0, 1, 2]
    else if second = lit "gen" then [0]
    else if second = lit "run" then [1]
    else [2]
  else if first = lit "cpu" then
    if second = lit "#" then [3, 4]
    else if second = lit "gen" then [3]
    else [4]
  else [5]

theorem forall_topic {P : Nat -> Prop} :
    (forall j, j < TOPICS_NUMBER -> P j) <->
      P 0 ∧ P 1 ∧ P 2 ∧ P 3 ∧ P 4 ∧ P 5 := by
  constructor
  · intro h
    exact ⟨h 0 (by decide), h 1 (by decide), h 2 (by decide), h 3 (by decide),
      h 4 (by decide), h 5 (by decide)⟩
  · intro h j hj
    unfold TOPICS_NUMBER at hj
    rcases h with ⟨h0, h1, h2, h3, h4, h5⟩
    match j, hj with
    | 0, _ => exact h0
    | 1, _ => exact h1
    | 2, _ => exact h2
    | 3, _ => exact h3
    | 4, _ => exact h4
    | 5, _ => exact h5

/-- A mask in which exactly the entries outside `kept` are overwritten. -/
def Keeps (kept : List Nat) (information result : Nat -> Int) : Prop :=
  forall j, j < TOPICS_NUMBER ->
    result j = if j ∈ kept then information j else -1

theorem disable_apply (entries : List Nat) (information : Nat -> Int)
    (j : Nat) :
    disable entries information j =
      if j ∈ entries then -1 else information j := by
  unfold disable
  induction entries generalizing information with
  | nil => simp
  | cons i rest ih =>
      rw [List.foldl_cons, ih]
      by_cases hrest : j ∈ rest
      · simp [hrest]
      · by_cases hi : j = i
        · simp [hi]
        · simp [hrest, hi]

theorem keeps_all (information : Nat -> Int) :
    Keeps [0, 1, 2, 3, 4, 5] information information := by
  intro j hj
  have hall : j ∈ [0, 1, 2, 3, 4, 5] := by
    unfold TOPICS_NUMBER at hj
    simp
    lia
  rw [if_pos hall]

theorem keeps_disable {entries kept : List Nat} (information : Nat -> Int)
    (hdivide : forall i, i < TOPICS_NUMBER -> (i ∈ entries <-> i ∉ kept)) :
    Keeps kept information (disable entries information) := by
  intro j hj
  rw [disable_apply]
  by_cases hkept : j ∈ kept
  · have hentries : j ∉ entries := fun h => (hdivide j hj).mp h hkept
    rw [if_pos hkept, if_neg hentries]
  · have hentries : j ∈ entries := (hdivide j hj).mpr hkept
    rw [if_neg hkept, if_pos hentries]

theorem keeps_disableOthers (kept : Nat) (information : Nat -> Int) :
    Keeps [kept] information (disableOthers kept information) := by
  have hloop :
      disableOthers kept information =
        disable ((List.range TOPICS_NUMBER).filter (fun i => i ≠ kept))
          information := by
    unfold disable disableOthers
    rw [List.foldl_filter]
    simp [TOPICS_NUMBER]
  rw [hloop]
  apply keeps_disable
  intro i hi
  simp [hi]

/-- Every branch of `update_sus_info` keeps the listed entries and no others. -/
theorem updateSusInfo_keeps (suscription : Nat -> CStr)
    (information : Nat -> Int) :
    Keeps (branchKeeps (suscription 1) (suscription 2)) information
      (updateSusInfo suscription information) := by
  unfold updateSusInfo branchKeeps
  split_ifs
  · exact keeps_all information
  · exact keeps_disable information (by decide)
  · exact keeps_all information
  · exact keeps_disable information (by decide)
  · exact keeps_disableOthers 0 information
  · exact keeps_disableOthers 1 information
  · exact keeps_disableOthers 2 information
  · exact keeps_disable information (by decide)
  · exact keeps_disableOthers 3 information
  · exact keeps_disableOthers 4 information
  · exact keeps_disable information (by decide)
  · exact keeps_disableOthers 5 information

/-!
# Documented filters

The topics of the broker are the names in front of the colons of
`string_topics`, split at the slash.  A filter follows the node name of a
subscription: either `#` alone or two levels, with `#` at most in the last one.
-/

def topicName (j : Nat) : CStr :=
  (stringTopics j).takeWhile (fun b => b != 58)

def topicLevels (j : Nat) : List CStr := tokensOf (lit "/") (topicName j)

structure Level where
  name : CStr
  word : Word (lit "/") name

inductive Filter where
  | all
  | levels (first second : Level)

def Filter.path : Filter -> List CStr
  | .all => [lit "#"]
  | .levels first second => [first.name, second.name]

def Filter.HashIsLast : Filter -> Prop
  | .all => True
  | .levels first _ => first.name ≠ lit "#"

/-- The filter as `split` leaves it behind the node name. -/
def Filter.StoredIn : Filter -> (Nat -> CStr) -> Prop
  | .all, suscription => suscription 1 = lit "#"
  | .levels first second, suscription =>
      suscription 1 = first.name ∧ suscription 2 = second.name

def Filter.Selects (filter : Filter) (j : Nat) : Prop :=
  TopicFilter.Matches (lit "+") (lit "#") filter.path (topicLevels j)

/-- The pairs of levels for which the comparisons are complete. -/
def HandledPair (first second : CStr) : Prop :=
  (first = lit "+" ∧ second ∈ [lit "gen", lit "+", lit "#"]) ∨
  (first = lit "tasks" ∧
    second ∈ [lit "#", lit "gen", lit "run", lit "sleep"]) ∨
  (first = lit "cpu" ∧ second ∈ [lit "#", lit "gen", lit "sys"]) ∨
  (first = lit "mem" ∧ second ∈ [lit "#", lit "gen", lit "+"])

def Filter.Handled : Filter -> Prop
  | .all => True
  | .levels first second => HandledPair first.name second.name

theorem topicLevels_values :
    topicLevels 0 = [lit "tasks", lit "gen"] ∧
      topicLevels 1 = [lit "tasks", lit "run"] ∧
      topicLevels 2 = [lit "tasks", lit "sleep"] ∧
      topicLevels 3 = [lit "cpu", lit "gen"] ∧
      topicLevels 4 = [lit "cpu", lit "sys"] ∧
      topicLevels 5 = [lit "mem", lit "gen"] := by
  decide

theorem levelNames_nodup :
    [lit "#", lit "+", lit "tasks", lit "cpu", lit "mem", lit "gen", lit "run",
      lit "sleep", lit "sys"].Nodup := by
  decide

/-!
The comparison of the two matchers only depends on which of the nine names the
two levels are, so the names can be replaced by pairwise different constants.
-/

theorem branchKeeps_matches_iff {first second : CStr}
    (hfirst : first ≠ lit "#") :
    (forall j, j < TOPICS_NUMBER ->
      (j ∈ branchKeeps first second <->
        TopicFilter.Matches (lit "+") (lit "#") [first, second]
          (topicLevels j))) <->
      HandledPair first second := by
  rcases topicLevels_values with ⟨h0, h1, h2, h3, h4, h5⟩
  rw [forall_topic, h0, h1, h2, h3, h4, h5]
  have hnames := levelNames_nodup
  simp only [TopicFilter.matches_pair, branchKeeps, HandledPair, if_neg hfirst]
  generalize lit "#" = hash at *
  generalize lit "+" = plus at *
  generalize lit "tasks" = tasks at *
  generalize lit "cpu" = cpu at *
  generalize lit "mem" = mem at *
  generalize lit "gen" = gen at *
  generalize lit "run" = run at *
  generalize lit "sleep" = sleep at *
  generalize lit "sys" = sys at *
  simp only [List.nodup_cons, List.mem_cons, List.not_mem_nil, or_false,
    not_or, List.nodup_nil, and_true] at hnames
  by_cases hplus : first = plus
  · subst hplus
    grind
  by_cases htasks : first = tasks
  · subst htasks
    grind
  by_cases hcpu : first = cpu
  · subst hcpu
    grind
  by_cases hmem : first = mem
  · subst hmem
    grind
  -- An unknown first level selects nothing, but the last branch keeps mem/gen.
  grind

theorem updateSusInfo_ne_iff {suscription : Nat -> CStr}
    {information : Nat -> Int} {j : Nat} (hj : j < TOPICS_NUMBER)
    (hinfo : information j ≠ -1) :
    updateSusInfo suscription information j ≠ -1 <->
      j ∈ branchKeeps (suscription 1) (suscription 2) := by
  rw [updateSusInfo_keeps suscription information j hj]
  by_cases hkept : j ∈ branchKeeps (suscription 1) (suscription 2)
  · simp [hkept, hinfo]
  · simp [hkept]

/--
`update_sus_info` selects the topics the filter matches exactly for the filters
whose comparisons are complete.
-/
theorem updateSusInfo_selects_iff_handled (filter : Filter)
    (suscription : Nat -> CStr) (information : Nat -> Int)
    (hlast : filter.HashIsLast) (hstored : filter.StoredIn suscription)
    (hinfo : forall j, j < TOPICS_NUMBER -> information j ≠ -1) :
    (forall j, j < TOPICS_NUMBER ->
      (updateSusInfo suscription information j ≠ -1 <-> filter.Selects j)) <->
      filter.Handled := by
  have hselect :
      (forall j, j < TOPICS_NUMBER ->
        (updateSusInfo suscription information j ≠ -1 <->
          filter.Selects j)) <->
      (forall j, j < TOPICS_NUMBER ->
        (j ∈ branchKeeps (suscription 1) (suscription 2) <->
          filter.Selects j)) := by
    apply forall_congr'
    intro j
    apply imp_congr_right
    intro hj
    rw [updateSusInfo_ne_iff hj (hinfo j hj)]
  rw [hselect]
  cases filter with
  | all =>
      have hhash : suscription 1 = lit "#" := hstored
      apply iff_of_true
      · intro j hj
        have hall : j ∈ branchKeeps (suscription 1) (suscription 2) := by
          unfold TOPICS_NUMBER at hj
          simp [branchKeeps, hhash]
          lia
        exact iff_of_true hall (TopicFilter.matches_hash _ _ _)
      · exact trivial
  | levels first second =>
      rcases hstored with ⟨hfirst, hsecond⟩
      rw [hfirst, hsecond]
      exact branchKeeps_matches_iff hlast

def tasksLevel : Level where
  name := lit "tasks"
  word := by decide

def runLevel : Level where
  name := lit "run"
  word := by decide

def susLevel : Level where
  name := lit "sus"
  word := by decide

theorem updateSusInfo_selects_tasks_run :
    (Filter.levels tasksLevel runLevel).StoredIn
        (split (lit "node1/tasks/run") (lit "/") (fun _ => [])) ∧
      forall j, j < TOPICS_NUMBER ->
        (updateSusInfo (split (lit "node1/tasks/run") (lit "/") (fun _ => []))
            (fun _ => 0) j ≠ -1 <->
          (Filter.levels tasksLevel runLevel).Selects j) := by
  have hlast : (Filter.levels tasksLevel runLevel).HashIsLast := by
    show tasksLevel.name ≠ lit "#"
    decide
  have hstored :
      (Filter.levels tasksLevel runLevel).StoredIn
        (split (lit "node1/tasks/run") (lit "/") (fun _ => [])) := by
    show split (lit "node1/tasks/run") (lit "/") (fun _ => []) 1 = _ ∧
      split (lit "node1/tasks/run") (lit "/") (fun _ => []) 2 = _
    decide
  have hhandled : (Filter.levels tasksLevel runLevel).Handled :=
    Or.inr (Or.inl (by decide))
  constructor
  · exact hstored
  · exact (updateSusInfo_selects_iff_handled _ _ (fun _ => 0) hlast hstored
      (by decide)).mpr hhandled

/-- A subtopic that does not exist is served as `tasks/sleep`. -/
theorem updateSusInfo_unknown_subtopic :
    updateSusInfo (split (lit "node1/tasks/sus") (lit "/") (fun _ => []))
        (fun _ => 0) 2 ≠ -1 ∧
      ¬ (Filter.levels tasksLevel susLevel).Selects 2 := by
  constructor
  · decide
  · show ¬ TopicFilter.Matches (lit "+") (lit "#") [lit "tasks", lit "sus"]
      (topicLevels 2)
    decide

/-!
# Registered masks

`subscribed_info` is never initialised.  The row of a client starts from what
the stack holds, and only the entries that the branch of its filter disables get
a value of their own.
-/

def subscriptionLine (node : Level) (filter : Filter) : CStr :=
  List.intercalate (lit "/") (node.name :: filter.path) ++ [newline]

theorem tokensOf_subscription (node : Level) (filter : Filter) :
    tokensOf (lit "/") (chop (subscriptionLine node filter)) =
      node.name :: filter.path := by
  have hwords : forall w, w ∈ node.name :: filter.path -> Word (lit "/") w := by
    intro w hw
    cases filter with
    | all =>
        rcases List.mem_cons.mp hw with rfl | hw
        · exact node.word
        · cases List.mem_singleton.mp hw
          decide
    | levels first second =>
        rcases List.mem_cons.mp hw with rfl | hw
        · exact node.word
        · rcases List.mem_cons.mp hw with rfl | hw
          · exact first.word
          · cases List.mem_singleton.mp hw
            exact second.word
  have hchop :
      chop (subscriptionLine node filter) =
        List.intercalate (lit "/") (node.name :: filter.path) := by
    simp [chop, subscriptionLine]
  rw [hchop]
  exact tokensOf_intercalate (d := 47) (by decide) hwords

theorem isNone_subscription (node : Level) (filter : Filter) :
    isNone (chop (subscriptionLine node filter)) = false := by
  have htokens := tokensOf_subscription node filter
  have hlen : 2 ≤ (node.name :: filter.path).length := by
    cases filter <;> simp [Filter.path]
  by_contra hnone
  have hline : chop (subscriptionLine node filter) = lit "NONE" := by
    simpa [isNone] using hnone
  rw [hline] at htokens
  have hone : (tokensOf (lit "/") (lit "NONE")).length = 1 := by decide
  rw [htokens] at hone
  lia

theorem storedIn_split (node : Level) (filter : Filter)
    (before : Nat -> CStr) :
    filter.StoredIn
      (split (chop (subscriptionLine node filter)) (lit "/") before) := by
  cases filter with
  | all =>
      show split _ _ _ 1 = _
      simp [split, tokensOf_subscription, Filter.path]
  | levels first second =>
      show split _ _ _ 1 = _ ∧ split _ _ _ 2 = _
      simp [split, tokensOf_subscription, Filter.path]

/-- The entries of the row that the registration leaves uninitialised. -/
def Filter.kept : Filter -> List Nat
  | .all => branchKeeps (lit "#") []
  | .levels first second => branchKeeps first.name second.name

theorem Filter.kept_of_storedIn {filter : Filter} {suscription : Nat -> CStr}
    (hstored : filter.StoredIn suscription) :
    branchKeeps (suscription 1) (suscription 2) = filter.kept := by
  cases filter with
  | all =>
      have hhash : suscription 1 = lit "#" := hstored
      simp [Filter.kept, branchKeeps, hhash]
  | levels first second =>
      rcases hstored with ⟨hfirst, hsecond⟩
      rw [hfirst, hsecond]
      rfl

theorem register_topicRow {t t' : Tables} {connfd : Fd} {nodeName : CStr}
    {node : Level} {filter : Filter} {left : Leftover}
    (hreg : register t connfd nodeName (chop (subscriptionLine node filter))
      left = some t') :
    Keeps filter.kept left.subscribedInfo (t'.topicList t.fdIdx) := by
  have hkeeps :=
    updateSusInfo_keeps
      (split (chop (subscriptionLine node filter)) (lit "/")
        left.bufSuscriptionInfo) left.subscribedInfo
  rw [Filter.kept_of_storedIn (storedIn_split node filter _)] at hkeeps
  unfold register at hreg
  split at hreg
  · cases hreg
    intro j hj
    simpa [isNone_subscription, copyRow, hj, subscribedMask] using hkeeps j hj
  · cases hreg

/--
Two registrations of one subscription line select the same topics exactly when
the leftover memory agrees on the entries that the filter leaves alone.
-/
theorem registered_mask_same_iff (node : Level) (filter : Filter)
    (t t' : Tables) (connfd connfd' : Fd) (nodeName nodeName' : CStr)
    (left left' : Leftover) (s s' : Tables)
    (hreg : register t connfd nodeName (chop (subscriptionLine node filter))
      left = some s)
    (hreg' : register t' connfd' nodeName'
      (chop (subscriptionLine node filter)) left' = some s') :
    (forall j, j < TOPICS_NUMBER ->
      (s.topicList t.fdIdx j ≠ -1 <-> s'.topicList t'.fdIdx j ≠ -1)) <->
    (forall j, j < TOPICS_NUMBER -> j ∈ filter.kept ->
      (left.subscribedInfo j = -1 <-> left'.subscribedInfo j = -1)) := by
  have hrow := register_topicRow hreg
  have hrow' := register_topicRow hreg'
  apply forall_congr'
  intro j
  apply imp_congr_right
  intro hj
  rw [hrow j hj, hrow' j hj]
  by_cases hkept : j ∈ filter.kept
  · simp [hkept, not_iff_not]
  · simp [hkept]

def node1 : Level where
  name := lit "node1"
  word := by decide

def leftoverMask (mask : Nat -> Int) : Leftover where
  bufNodeName := []
  bufSusInfo := []
  bufSuscriptionInfo := fun _ => []
  subscribedInfo := mask

/-- Subscriptions to everything that differ in the memory below them. -/
theorem registered_mask_depends_on_leftover :
    exists s s',
      register Tables.initial 4 (lit "sub1")
          (chop (subscriptionLine node1 Filter.all))
          (leftoverMask (fun _ => 0)) = some s ∧
        register Tables.initial 4 (lit "sub1")
          (chop (subscriptionLine node1 Filter.all))
          (leftoverMask (fun _ => -1)) = some s' ∧
        s.topicList 0 0 ≠ -1 ∧ s'.topicList 0 0 = -1 :=
  ⟨_, _, rfl, rfl, by decide, by decide⟩

theorem registered_mask_same_for_clean_stack :
    exists s s',
      register Tables.initial 4 (lit "sub1")
          (chop (subscriptionLine node1 Filter.all))
          (leftoverMask (fun _ => 0)) = some s ∧
        register Tables.initial 4 (lit "sub1")
          (chop (subscriptionLine node1 Filter.all))
          (leftoverMask (fun _ => 7)) = some s' ∧
        forall j, j < TOPICS_NUMBER ->
          (s.topicList 0 j ≠ -1 <-> s'.topicList 0 j ≠ -1) :=
  ⟨_, _, rfl, rfl,
    (registered_mask_same_iff node1 Filter.all Tables.initial Tables.initial 4
      4 (lit "sub1") (lit "sub1") (leftoverMask (fun _ => 0))
      (leftoverMask (fun _ => 7)) _ _ rfl rfl).mpr (by decide)⟩

end Broker
end MQTTv1
