import MQTTv1.Broker.Forwarding
import MQTTv1.CLib.Accesses

/-!
# The buffers of a message

The accesses of `forward_message` to the three arrays that it fills from a line,
in the order in which they happen.  A line of `Rio_readlineb` may have 8191 bytes
and any number of commas.
-/

namespace MQTTv1
namespace Broker

open CLib
open Csapp

inductive MessageBuffer where
  | tmpBuf
  | pubAvailableInfo
  | string
deriving DecidableEq, Repr

def MessageBuffer.size : MessageBuffer -> Nat
  | .tmpBuf => 100
  | .pubAvailableInfo => 10
  | .string => 50

/-- The copy of the line and the store over its last byte. -/
def tmpStores (buf : CStr) : List (Touch MessageBuffer) :=
  strcpyStores .tmpBuf buf ++ [.store .tmpBuf (Int.ofNat buf.length - 1)]

def infoStores (buf : CStr) : List (Touch MessageBuffer) :=
  storeRange .pubAvailableInfo 0 (tokensOf (lit ",") buf).length

def topicTouches (info : Nat -> CStr) (j : Nat) : List (Touch MessageBuffer) :=
  let topic := stringTopics j
  let string := topic ++ info j
  strcpyStores .string topic ++
    .load .pubAvailableInfo (Int.ofNat j) ::
      (strcatStores .string topic (info j) ++
        .store .string (Int.ofNat (string.length + 1)) ::
          if j < 5 then strcatStores .string string [newline] else [])

def loopTouches (topic : Nat -> Int) (info : Nat -> CStr) :
    List (Touch MessageBuffer) :=
  (List.range 6).flatMap fun j =>
    if topic j ≠ -1 then topicTouches info j else []

/-- `tmp_buf` is only used in front of the split, `string` behind it. -/
def messageTouches (topic : Nat -> Int) (left : MessageLeftover) :
    Option (List Byte) -> List (Touch MessageBuffer)
  | none => []
  | some bytes =>
      let buf := stringOf bytes
      (tmpStores buf ++ infoStores buf) ++
        loopTouches topic (split buf (lit ",") left.pubAvailableInfo)

def fieldsOf (buf : CStr) : List CStr :=
  (buf.splitOn 44).filter fun part => part ≠ []

/-- A line that the buffers take, for the topics that a row asks for. -/
structure FitsBuffers (topic : Nat -> Int) (buf : CStr) : Prop where
  nonEmpty : buf ≠ []
  short : buf.length < 100
  fields : (fieldsOf buf).length ≤ 10
  topics : forall j, j < TOPICS_NUMBER -> topic j ≠ -1 ->
    exists field, (fieldsOf buf)[j]? = some field ∧
      (stringTopics j).length + field.length + 1 < 50

/-!
# Stores
-/

theorem tokensOf_comma (buf : CStr) : tokensOf (lit ",") buf = fieldsOf buf := by
  rw [lit_comma, tokensOf_eq_splitOn]
  rfl

theorem inBounds_topicTouches {info : Nat -> CStr} {j : Nat} :
    InBounds MessageBuffer.size (topicTouches info j) <->
      (stringTopics j).length + (info j).length + 1 < 50 := by
  unfold topicTouches
  simp only [inBounds_append, inBounds_load, inBounds_store, strcpyStores,
    strcatStores, inBounds_storeRange, List.length_append]
  constructor
  · rintro ⟨_, _, ⟨_, hstore⟩, _⟩
    exact Int.ofNat_lt.mp hstore
  · intro h
    refine ⟨?_, ?_, ⟨Int.natCast_nonneg _, Int.ofNat_lt.mpr h⟩, ?_⟩
    · show 0 + (stringTopics j).length < 50
      lia
    · show (stringTopics j).length + (info j).length < 50
      lia
    · split
      · exact inBounds_storeRange.mpr h
      · exact inBounds_nil _

theorem inBounds_infoStores {buf : CStr} :
    InBounds MessageBuffer.size (infoStores buf) <->
      (fieldsOf buf).length ≤ 10 := by
  unfold infoStores
  rw [tokensOf_comma]
  cases (fieldsOf buf).length with
  | zero => simp [storeRange, inBounds_nil]
  | succ n =>
      rw [inBounds_storeRange, Nat.zero_add]
      exact Nat.lt_iff_add_one_le

/-!
# Loads
-/

theorem mem_topicTouches {info : Nat -> CStr} {j : Nat}
    {t : Touch MessageBuffer} (h : t ∈ topicTouches info j) :
    t = .load .pubAvailableInfo (Int.ofNat j) ∨
      exists i, t = .store .string i := by
  have hrange : forall start count,
      t ∈ storeRange MessageBuffer.string start count ->
        exists i, t = .store .string i := by
    intro start count hmem
    rcases mem_storeRange.mp hmem with ⟨i, _, rfl⟩
    exact ⟨_, rfl⟩
  unfold topicTouches at h
  rcases List.mem_append.mp h with h | h
  · exact Or.inr (hrange _ _ h)
  · rcases List.mem_cons.mp h with rfl | h
    · exact Or.inl rfl
    · apply Or.inr
      rcases List.mem_append.mp h with h | h
      · exact hrange _ _ h
      · rcases List.mem_cons.mp h with rfl | h
        · exact ⟨_, rfl⟩
        · split at h
          · exact hrange _ _ h
          · cases h

theorem load_mem_topicTouches (info : Nat -> CStr) (j : Nat) :
    .load .pubAvailableInfo (Int.ofNat j) ∈ topicTouches info j := by
  unfold topicTouches
  exact List.mem_append_right _ List.mem_cons_self

theorem mem_loopTouches {topic : Nat -> Int} {info : Nat -> CStr}
    {t : Touch MessageBuffer} :
    t ∈ loopTouches topic info <->
      exists j, j < TOPICS_NUMBER ∧ topic j ≠ -1 ∧ t ∈ topicTouches info j := by
  unfold loopTouches
  constructor
  · intro h
    rcases List.mem_flatMap.mp h with ⟨j, hj, hmem⟩
    split at hmem
    · rename_i hwanted
      exact ⟨j, List.mem_range.mp hj, hwanted, hmem⟩
    · cases hmem
  · rintro ⟨j, hj, hwanted, hmem⟩
    refine List.mem_flatMap.mpr ⟨j, List.mem_range.mpr hj, ?_⟩
    rw [if_pos hwanted]
    exact hmem

theorem inBounds_loopTouches {topic : Nat -> Int} {info : Nat -> CStr} :
    InBounds MessageBuffer.size (loopTouches topic info) <->
      forall j, j < TOPICS_NUMBER -> topic j ≠ -1 ->
        (stringTopics j).length + (info j).length + 1 < 50 := by
  unfold loopTouches
  rw [inBounds_flatMap]
  constructor
  · intro h j hj hwanted
    have hpart := h j (List.mem_range.mpr hj)
    rw [if_pos hwanted] at hpart
    exact inBounds_topicTouches.mp hpart
  · intro h j hj
    split
    · rename_i hwanted
      exact inBounds_topicTouches.mpr (h j (List.mem_range.mp hj) hwanted)
    · exact inBounds_nil _

/-- The loop loads the entries of the wanted topics and stores none. -/
theorem loadsFrom_loopTouches {done : List (Touch MessageBuffer)}
    {topic : Nat -> Int} {info : Nat -> CStr} :
    LoadsFrom done (loopTouches topic info) <->
      forall j, j < TOPICS_NUMBER -> topic j ≠ -1 ->
        .store .pubAvailableInfo (Int.ofNat j) ∈ done := by
  have hapart : forall (buffer : MessageBuffer) (i k : Int),
      .store buffer i ∈ loopTouches topic info ->
        .load buffer k ∉ loopTouches topic info := by
    intro buffer i k hstore hload
    rcases mem_loopTouches.mp hstore with ⟨j, _, _, hstore⟩
    rcases mem_loopTouches.mp hload with ⟨j', _, _, hload⟩
    rcases mem_topicTouches hstore with heq | ⟨_, heq⟩
    · cases heq
    · cases heq
      rcases mem_topicTouches hload with heq | ⟨_, heq⟩
      · cases heq
      · cases heq
  rw [loadsFrom_iff hapart]
  constructor
  · intro h j hj hwanted
    exact h _ _
      (mem_loopTouches.mpr ⟨j, hj, hwanted, load_mem_topicTouches info j⟩)
  · intro h buffer i hload
    rcases mem_loopTouches.mp hload with ⟨j, hj, hwanted, hmem⟩
    rcases mem_topicTouches hmem with heq | ⟨_, heq⟩
    · cases heq
      exact h j hj hwanted
    · cases heq

theorem store_mem_infoStores {buf : CStr} {j : Nat} :
    .store .pubAvailableInfo (Int.ofNat j) ∈ infoStores buf <->
      j < (fieldsOf buf).length := by
  unfold infoStores
  rw [mem_storeRange, tokensOf_comma]
  constructor
  · rintro ⟨i, hi, heq⟩
    rw [Nat.zero_add] at heq
    cases heq
    exact hi
  · intro hj
    exact ⟨j, hj, by rw [Nat.zero_add]⟩

/-!
# A whole line
-/

theorem inBounds_tmpStores {buf : CStr} :
    InBounds MessageBuffer.size (tmpStores buf) <->
      buf ≠ [] ∧ buf.length < 100 := by
  unfold tmpStores strcpyStores
  rw [inBounds_append, inBounds_storeRange, inBounds_store,
    ← List.length_pos_iff]
  constructor
  · rintro ⟨hshort, ⟨hnonneg, _⟩, _⟩
    rw [Nat.zero_add] at hshort
    refine ⟨?_, hshort⟩
    lia
  · rintro ⟨hpos, hshort⟩
    refine ⟨?_, ⟨?_, ?_⟩, inBounds_nil _⟩
    · rw [Nat.zero_add]
      exact hshort
    · lia
    · show (buf.length : Int) - 1 < (100 : Nat)
      lia

theorem not_load_mem_front {buf : CStr} (buffer : MessageBuffer) (i : Int) :
    .load buffer i ∉ tmpStores buf ++ infoStores buf := by
  intro h
  rcases List.mem_append.mp h with h | h
  · rcases List.mem_append.mp h with h | h
    · rcases mem_storeRange.mp h with ⟨_, _, heq⟩
      cases heq
    · rcases List.mem_singleton.mp h with heq
      cases heq
  · rcases mem_storeRange.mp h with ⟨_, _, heq⟩
    cases heq

theorem store_mem_front {buf : CStr} {j : Nat} :
    .store .pubAvailableInfo (Int.ofNat j) ∈ tmpStores buf ++ infoStores buf <->
      j < (fieldsOf buf).length := by
  rw [List.mem_append, store_mem_infoStores]
  refine or_iff_right ?_
  intro h
  rcases List.mem_append.mp h with h | h
  · rcases mem_storeRange.mp h with ⟨_, _, heq⟩
    cases heq
  · rcases List.mem_singleton.mp h with heq
    cases heq

theorem split_of_field {buf field : CStr} {j : Nat}
    (h : (fieldsOf buf)[j]? = some field) (argv : Nat -> CStr) :
    split buf (lit ",") argv j = field := by
  rw [← tokensOf_comma] at h
  unfold split
  rw [h]
  rfl

/--
`forward_message` stays in its three arrays and uses entries of its own split
exactly when the line fits them.
-/
theorem safe_messageTouches_iff (topic : Nat -> Int) (left : MessageLeftover)
    (line : Option (List Byte)) :
    SafeTouches MessageBuffer.size (messageTouches topic left line) <->
      forall bytes, line = some bytes ->
        FitsBuffers topic (stringOf bytes) := by
  cases line with
  | none =>
      constructor
      · intro _ bytes h
        cases h
      · intro _
        exact ⟨inBounds_nil _, trivial⟩
  | some bytes =>
      constructor
      · rintro ⟨hstores, hloads⟩ other heq
        cases heq
        unfold messageTouches at hstores hloads
        rw [inBounds_append, inBounds_append] at hstores
        rw [loadsFrom_append] at hloads
        rcases hstores with ⟨⟨htmp, hinfo⟩, hloop⟩
        rcases inBounds_tmpStores.mp htmp with ⟨hne, hshort⟩
        refine ⟨hne, hshort, inBounds_infoStores.mp hinfo, ?_⟩
        intro j hj hwanted
        have hstored := loadsFrom_loopTouches.mp hloads.right j hj hwanted
        rw [List.append_nil, List.mem_reverse, store_mem_front] at hstored
        have hfield := List.getElem?_eq_getElem hstored
        refine ⟨_, hfield, ?_⟩
        rw [← split_of_field hfield left.pubAvailableInfo]
        exact inBounds_loopTouches.mp hloop j hj hwanted
      · intro h
        rcases h bytes rfl with ⟨hne, hshort, hfields, htopics⟩
        unfold messageTouches
        constructor
        · rw [inBounds_append, inBounds_append]
          refine ⟨⟨inBounds_tmpStores.mpr ⟨hne, hshort⟩,
            inBounds_infoStores.mpr hfields⟩, inBounds_loopTouches.mpr ?_⟩
          intro j hj hwanted
          rcases htopics j hj hwanted with ⟨field, hfield, hlen⟩
          rw [split_of_field hfield]
          exact hlen
        · rw [loadsFrom_append]
          refine ⟨loadsFrom_storesOnly not_load_mem_front,
            loadsFrom_loopTouches.mpr ?_⟩
          intro j hj hwanted
          rcases htopics j hj hwanted with ⟨field, hfield, _⟩
          rw [List.append_nil, List.mem_reverse, store_mem_front]
          exact (List.getElem?_eq_some_iff.mp hfield).choose

def onePart : World where
  input := fun _ => [.bytes (lit "1" ++ [newline])]
  writes := fun _ => []
  sent := fun _ => []
  log := []

theorem onePart_uses_stale_entry :
    ¬ forall (connfdPub : Fd) (w w' : World) (line : List Byte)
        (topic : Nat -> Int) (left : MessageLeftover),
      receive connfdPub w = .ok (some line, w') ->
        line.length ≤ MAXLINE - 1 ->
        SafeTouches MessageBuffer.size
          (messageTouches topic left (some line)) := by
  intro h
  have hread : receive 4 onePart =
      .ok (some (lit "1" ++ [newline]), onePart.setInput 4 []) := rfl
  have hsafe := h 4 onePart _ _ (disableOthers 1 fun _ => 0)
    ⟨fun _ => [], []⟩ hread (by decide)
  have hloads := hsafe.loads
  unfold messageTouches at hloads
  rw [loadsFrom_append] at hloads
  have hstored := loadsFrom_loopTouches.mp hloads.right 1 (by decide) (by decide)
  rw [List.append_nil, List.mem_reverse, store_mem_front] at hstored
  exact absurd hstored (by decide)

/-!
# What a fitting line becomes
-/

/-- A line that fits is relayed the same whatever the locals held before. -/
theorem topicWrites_of_fits {topic : Nat -> Int} {buf : CStr}
    (hbuf : NulFree buf) (hfits : FitsBuffers topic buf)
    (left : MessageLeftover) :
    topicWrites topic (split buf (lit ",") left.pubAvailableInfo) left.string =
      (List.range 6).filterMap fun j =>
        if topic j ≠ -1 then (fieldsOf buf)[j]?.map (topicText j) else none := by
  unfold topicWrites
  apply List.filterMap_congr
  intro j hj
  split
  · rename_i hwanted
    rcases hfits.topics j (List.mem_range.mp hj) hwanted with ⟨field, hfield, _⟩
    have hnul : NulFree field := by
      have hmem : field ∈ tokensOf (lit ",") buf := by
        rw [tokensOf_comma]
        exact List.mem_of_getElem? hfield
      exact nulFree_token hbuf hmem
    rw [split_of_field hfield, stringOf_topicBuffer _ _ hnul, hfield]
    rfl
  · rfl

end Broker
end MQTTv1
