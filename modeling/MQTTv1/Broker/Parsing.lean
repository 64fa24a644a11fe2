import Mathlib.Data.List.Basic
import MQTTv1.Broker.Tables
import MQTTv1.Csapp.Stream

/-!
# Parsing a handshake

The accesses of a registration to its three buffers, in the order in which they
happen.  `rio_readlineb` stores the bytes of a line and a terminator, the line
ends are cut off in place, `strtok` writes over the delimiters, `split` fills
`buf_suscription_info` without a bound, and `thread` and `update_sus_info` read
its entries.
-/

namespace MQTTv1
namespace Broker

open CLib
open Csapp

inductive HandshakeBuffer where
  | bufNodeName
  | bufSusInfo
  | bufSuscriptionInfo
deriving DecidableEq, Repr

def HandshakeBuffer.size : HandshakeBuffer -> Nat
  | .bufNodeName => MAXLINE
  | .bufSusInfo => MAXLINE
  | .bufSuscriptionInfo => 2

inductive Access where
  | store (buffer : HandshakeBuffer) (index : Int)
  /-- A read of `buf_suscription_info[i]`. -/
  | load (i : Nat)
deriving DecidableEq, Repr

/-!
# The accesses of a registration
-/

/-- Where the loop of `rio_readlineb` stores, with `n` bytes stored before. -/
def readLoopStores : Nat -> Nat -> Rio -> List ReadResult -> List Nat
  | 0, n, _, _ => [n]
  | budget + 1, n, rp, input =>
      match rioRead rp 1 input with
      | none => []
      | some ((rc, bs), rp', rest) =>
          if rc = 1 then
            n :: (if bs.headD 0 = newline then [n + 1]
              else readLoopStores budget (n + 1) rp' rest)
          else if rc = 0 then
            if n = 0 then [] else [n]
          else []

def lineAccesses (buffer : HandshakeBuffer) (rp : Rio)
    (input : List ReadResult) : List Access :=
  (readLoopStores (MAXLINE - 1) 0 rp input).map fun i =>
    .store buffer (Int.ofNat i)

/-- Where the calls of `strtok` store in a line that starts at `start`. -/
def cutStores (delim : CStr) : Nat -> Nat -> CStr -> List Nat
  | 0, _, _ => []
  | calls + 1, start, src =>
      match strtok delim src with
      | (none, _) => []
      | (some token, rest) =>
          let skipped := (src.takeWhile fun b => delim.contains b).length
          let stop := skipped + token.length
          (if stop < src.length then [start + stop] else []) ++
            cutStores delim calls (start + (src.length - rest.length)) rest

def splitAccesses (linea : CStr) : List Access :=
  (cutStores (lit "/") (linea.length + 1) 0 linea).map
      (fun i => .store .bufSusInfo (Int.ofNat i)) ++
    (List.range (tokensOf (lit "/") linea).length).map
      fun i => .store .bufSuscriptionInfo (Int.ofNat i)

/-- Every branch but the first compares `suscription[2]`. -/
def updateSusInfoLoads (suscription : Nat -> CStr) : List Nat :=
  if suscription 1 = lit "#" then [1] else [1, 2]

def subscriptionLoads (susInfo : CStr) (left : Leftover) : List Nat :=
  0 :: updateSusInfoLoads (split susInfo (lit "/") left.bufSuscriptionInfo)

/-- From the strings that the two buffers hold when both lines are read. -/
def parsingStores (nodeName susInfo : CStr) : List Access :=
  .store .bufNodeName (nodeName.length - 1) ::
    .store .bufSusInfo (susInfo.length - 1) ::
      if isNone (chop susInfo) then [] else splitAccesses (chop susInfo)

def parsingLoads (susInfo : CStr) (left : Leftover) : List Nat :=
  if isNone (chop susInfo) then [] else subscriptionLoads (chop susInfo) left

def registrationAccesses (connfd : Fd) (left : Leftover) (w : World) :
    List Access :=
  let rio := rioReadinitb connfd
  lineAccesses .bufNodeName rio (w.input connfd) ++
    match RioReadlineb rio MAXLINE w with
    | .error _ => []
    | .ok (nameLine, rio, w) =>
        lineAccesses .bufSusInfo rio (w.input rio.rioFd) ++
          match RioReadlineb rio MAXLINE w with
          | .error _ => []
          | .ok (susLine, _, _) =>
              let susInfo := bufferString left.bufSusInfo susLine
              parsingStores (bufferString left.bufNodeName nameLine) susInfo ++
                (parsingLoads susInfo left).map Access.load

theorem registrationAccesses_readHandshake {connfd : Fd} (left : Leftover)
    {w w' : World} {nameLine susLine : Option (List Byte)}
    (h : readHandshake connfd w = .ok (nameLine, susLine, w')) :
    exists reads, registrationAccesses connfd left w =
      reads ++
        (parsingStores (bufferString left.bufNodeName nameLine)
            (bufferString left.bufSusInfo susLine) ++
          (parsingLoads (bufferString left.bufSusInfo susLine) left).map
            Access.load) := by
  rcases bind_eq_ok.mp h with ⟨⟨first, rio, mid⟩, hname, h⟩
  rcases bind_eq_ok.mp h with ⟨⟨second, rio', last⟩, hsus, h⟩
  cases h
  refine ⟨lineAccesses .bufNodeName (rioReadinitb connfd) (w.input connfd) ++
    lineAccesses .bufSusInfo rio (mid.input rio.rioFd), ?_⟩
  unfold registrationAccesses
  simp only [hname, hsus, List.append_assoc]

/-!
# Safety
-/

/--
Every store is inside its buffer and every entry read was stored before.  The
index `strlen - 1` of an empty string is -1.
-/
structure SafeAccesses (accesses : List Access) : Prop where
  stores : forall buffer index, Access.store buffer index ∈ accesses ->
    0 ≤ index ∧ index < buffer.size
  loads : forall before i after, accesses = before ++ .load i :: after ->
    .store .bufSuscriptionInfo (Int.ofNat i) ∈ before

def FitsBuffer (s : CStr) : Prop := s ≠ [] ∧ s.length ≤ MAXLINE

/-- The word NONE, or a node and "#". -/
def FitsSlots (susInfo : CStr) : Prop :=
  isNone susInfo = true ∨
    exists node, tokensOf (lit "/") susInfo = [node, lit "#"]

/--
What a client may send, given what the stack held: when both lines are read, the
buffers hold strings that are not empty, and the second one without its last
byte fits the two slots.
-/
def SafeHandshake (left : Leftover) (stream : List Arrival) : Prop :=
  let first := lineOf (MAXLINE - 1) [] stream
  let second := lineOf (MAXLINE - 1) [] first.2
  forall nameLine susLine, first.1.returned = some nameLine ->
    second.1.returned = some susLine ->
      FitsBuffer (bufferString left.bufNodeName nameLine) ∧
        FitsBuffer (bufferString left.bufSusInfo susLine) ∧
          FitsSlots (chop (bufferString left.bufSusInfo susLine))

theorem readLoopStores_le :
    forall {budget n k : Nat} {rp : Rio} {input : List ReadResult},
      k ∈ readLoopStores budget n rp input -> k ≤ n + budget := by
  intro budget
  induction budget with
  | zero =>
      intro n k rp input hk
      rw [List.mem_singleton.mp hk]
      exact Nat.le_refl _
  | succ budget ih =>
      intro n k rp input hk
      unfold readLoopStores at hk
      cases hread : rioRead rp 1 input with
      | none =>
          rw [hread] at hk
          cases hk
      | some result =>
          rcases result with ⟨⟨rc, bs⟩, rp', rest⟩
          rw [hread] at hk
          simp only at hk
          split at hk
          · rcases List.mem_cons.mp hk with rfl | hk
            · exact Nat.le_add_right _ _
            · split at hk
              · rw [List.mem_singleton.mp hk]
                lia
              · have hle := ih hk
                lia
          · split at hk
            · split at hk
              · cases hk
              · rw [List.mem_singleton.mp hk]
                exact Nat.le_add_right _ _
            · cases hk

theorem cutStores_lt {delim : CStr} :
    forall {calls start k : Nat} {src : CStr},
      k ∈ cutStores delim calls start src -> k < start + src.length := by
  intro calls
  induction calls with
  | zero =>
      intro start k src hk
      cases hk
  | succ calls ih =>
      intro start k src hk
      unfold cutStores at hk
      rcases hcall : strtok delim src with ⟨_ | token, rest⟩
      · rw [hcall] at hk
        cases hk
      · rw [hcall] at hk
        rcases List.mem_append.mp hk with hstop | hlater
        · split at hstop
          · rw [List.mem_singleton.mp hstop]
            lia
          · cases hstop
        · have hlt := ih hlater
          have hrest := strtok_rest_length hcall
          lia

theorem fitsBuffer_iff {s : CStr} :
    FitsBuffer s <->
      0 ≤ (s.length : Int) - 1 ∧ (s.length : Int) - 1 < (MAXLINE : Int) := by
  unfold FitsBuffer
  rw [← List.length_pos_iff]
  lia

def LineStore (a : Access) : Prop :=
  exists buffer k, a = .store buffer (Int.ofNat k) ∧
    buffer ≠ .bufSuscriptionInfo ∧ k < buffer.size

theorem lineAccesses_lineStore {buffer : HandshakeBuffer} {rp : Rio}
    {input : List ReadResult} (hline : buffer ≠ .bufSuscriptionInfo)
    {a : Access} (ha : a ∈ lineAccesses buffer rp input) : LineStore a := by
  rcases List.mem_map.mp ha with ⟨k, hk, rfl⟩
  refine ⟨buffer, k, rfl, hline, ?_⟩
  have hle := readLoopStores_le hk
  cases buffer with
  | bufSuscriptionInfo => exact absurd rfl hline
  | bufNodeName | bufSusInfo =>
      simp only [HandshakeBuffer.size, MAXLINE] at hle ⊢
      lia

theorem mem_splitAccesses {linea : CStr} {a : Access} :
    a ∈ splitAccesses linea <->
      (exists k, k ∈ cutStores (lit "/") (linea.length + 1) 0 linea ∧
        a = .store .bufSusInfo (Int.ofNat k)) ∨
      exists k, k < (tokensOf (lit "/") linea).length ∧
        a = .store .bufSuscriptionInfo (Int.ofNat k) := by
  unfold splitAccesses
  rw [List.mem_append, List.mem_map, List.mem_map]
  simp only [List.mem_range, eq_comm]

/-- The loads come last, so each has to find its entry stored in front. -/
theorem loads_stored_iff {front : List Access} (entries : List Nat)
    (hfront : forall i, Access.load i ∉ front) :
    (forall before i after,
        front ++ entries.map Access.load = before ++ .load i :: after ->
          .store .bufSuscriptionInfo (Int.ofNat i) ∈ before) <->
      forall i, i ∈ entries ->
        .store .bufSuscriptionInfo (Int.ofNat i) ∈ front := by
  constructor
  · intro hloads i hi
    rcases List.append_of_mem hi with ⟨first, rest, hentries⟩
    have hmem := hloads (front ++ first.map Access.load) i
      (rest.map Access.load) (by simp [hentries])
    rcases List.mem_append.mp hmem with hstored | hload
    · exact hstored
    · rcases List.mem_map.mp hload with ⟨_, _, hne⟩
      cases hne
  · intro hstored before i after hsplit
    have hi : i ∈ entries := by
      have hmem : Access.load i ∈ front ++ entries.map Access.load := by
        rw [hsplit]
        simp
      rcases List.mem_append.mp hmem with hin | hin
      · exact absurd hin (hfront i)
      · rcases List.mem_map.mp hin with ⟨_, hk, heq⟩
        cases heq
        exact hk
    rcases List.append_eq_append_iff.mp hsplit with
      ⟨between, hbefore, _⟩ | ⟨between, hinside, htail⟩
    · rw [hbefore]
      exact List.mem_append_left between (hstored i hi)
    · cases between with
      | nil =>
          rw [List.append_nil] at hinside
          rw [← hinside]
          exact hstored i hi
      | cons a between =>
          cases htail
          exact absurd (by rw [hinside]; simp) (hfront i)

/-!
## The two slots
-/

theorem split_one {susInfo : CStr} {before : Nat -> CStr}
    (hlen : (tokensOf (lit "/") susInfo).length = 2) :
    tokensOf (lit "/") susInfo =
      [split susInfo (lit "/") before 0, split susInfo (lit "/") before 1] := by
  rcases List.length_eq_two.mp hlen with ⟨node, level, htokens⟩
  simp [split, htokens]

theorem fitsSlots_iff {susInfo : CStr} (left : Leftover)
    (hsus : isNone susInfo = false) :
    FitsSlots susInfo <->
      (tokensOf (lit "/") susInfo).length ≤ 2 ∧
        forall i, i ∈ subscriptionLoads susInfo left ->
          i < (tokensOf (lit "/") susInfo).length := by
  unfold FitsSlots subscriptionLoads updateSusInfoLoads
  constructor
  · intro hfits
    rcases hfits with hnone | ⟨node, htokens⟩
    · exact absurd (hsus.symm.trans hnone) Bool.false_ne_true
    · have hlevel :
          split susInfo (lit "/") left.bufSuscriptionInfo 1 = lit "#" := by
        simp [split, htokens]
      rw [if_pos hlevel, htokens]
      simp
  · intro h
    rcases h with ⟨hlen, hloads⟩
    right
    by_cases hlevel :
        split susInfo (lit "/") left.bufSuscriptionInfo 1 = lit "#"
    · rw [if_pos hlevel] at hloads
      have hone := hloads 1 (by simp)
      refine ⟨split susInfo (lit "/") left.bufSuscriptionInfo 0, ?_⟩
      rw [← hlevel]
      exact split_one (by lia)
    · rw [if_neg hlevel] at hloads
      have htwo := hloads 2 (by simp)
      lia

/-!
## The whole registration
-/

theorem fitsBuffer_stores {s : CStr} (buffer : HandshakeBuffer)
    (hsize : buffer.size = MAXLINE) :
    FitsBuffer s <->
      0 ≤ (s.length : Int) - 1 ∧ (s.length : Int) - 1 < buffer.size := by
  rw [hsize]
  exact fitsBuffer_iff

theorem mem_parsingStores_split {nodeName susInfo : CStr}
    (hsus : isNone (chop susInfo) = false) {a : Access} :
    a ∈ parsingStores nodeName susInfo <->
      a = .store .bufNodeName (nodeName.length - 1) ∨
        a = .store .bufSusInfo (susInfo.length - 1) ∨
          a ∈ splitAccesses (chop susInfo) := by
  unfold parsingStores
  rw [hsus]
  simp

theorem load_notMem_parsingStores {nodeName susInfo : CStr} {i : Nat} :
    Access.load i ∉ parsingStores nodeName susInfo := by
  cases hsus : isNone (chop susInfo) with
  | true => simp [parsingStores, hsus]
  | false =>
      rw [mem_parsingStores_split hsus, mem_splitAccesses]
      rintro (h | h | ⟨_, _, h⟩ | ⟨_, _, h⟩) <;> cases h

section

variable {reads : List Access} {nodeName susInfo : CStr}

theorem slot_stored_iff (hreads : forall a, a ∈ reads -> LineStore a)
    (hsus : isNone (chop susInfo) = false) {i : Nat} :
    Access.store .bufSuscriptionInfo (Int.ofNat i) ∈
        reads ++ parsingStores nodeName susInfo <->
      i < (tokensOf (lit "/") (chop susInfo)).length := by
  rw [List.mem_append, mem_parsingStores_split hsus, mem_splitAccesses]
  constructor
  · rintro (hread | h | h | ⟨_, _, h⟩ | ⟨k, hk, h⟩)
    · rcases hreads _ hread with ⟨buffer, k, heq, hline, _⟩
      cases heq
      exact absurd rfl hline
    · cases h
    · cases h
    · cases h
    · cases h
      exact hk
  · intro hi
    exact Or.inr (Or.inr (Or.inr (Or.inr ⟨i, hi, rfl⟩)))

def StoresFit (nodeName susInfo : CStr) : Prop :=
  forall buffer index, Access.store buffer index ∈
    parsingStores nodeName susInfo -> 0 ≤ index ∧ index < buffer.size

theorem storesFit_lines (h : StoresFit nodeName susInfo) :
    FitsBuffer nodeName ∧ FitsBuffer susInfo := by
  constructor
  · apply (fitsBuffer_stores .bufNodeName rfl).mpr
    exact h _ _ (by simp [parsingStores])
  · apply (fitsBuffer_stores .bufSusInfo rfl).mpr
    exact h _ _ (by simp [parsingStores])

theorem storesFit_iff (hsus : isNone (chop susInfo) = false) :
    StoresFit nodeName susInfo <->
      FitsBuffer nodeName ∧ FitsBuffer susInfo ∧
        (tokensOf (lit "/") (chop susInfo)).length ≤ 2 := by
  constructor
  · intro h
    have hlines := storesFit_lines h
    refine ⟨hlines.left, hlines.right, Nat.le_of_not_lt ?_⟩
    intro hlong
    have hslot := h .bufSuscriptionInfo (Int.ofNat 2)
      ((mem_parsingStores_split hsus).mpr
        (Or.inr (Or.inr (mem_splitAccesses.mpr (Or.inr ⟨2, hlong, rfl⟩)))))
    exact absurd hslot.right (by decide)
  · intro h
    rcases h with ⟨hname, hline, hlen⟩
    intro buffer index hmem
    rw [mem_parsingStores_split hsus, mem_splitAccesses] at hmem
    rcases hmem with heq | heq | ⟨k, hk, heq⟩ | ⟨k, hk, heq⟩
    · cases heq
      exact (fitsBuffer_stores .bufNodeName rfl).mp hname
    · cases heq
      exact (fitsBuffer_stores .bufSusInfo rfl).mp hline
    · cases heq
      have hlt := cutStores_lt hk
      have hbound := hline.right
      simp only [chop, List.length_dropLast] at hlt
      simp only [HandshakeBuffer.size]
      lia
    · cases heq
      simp only [HandshakeBuffer.size]
      lia

theorem parsing_safe_iff {left : Leftover}
    (hreads : forall a, a ∈ reads -> LineStore a) :
    SafeAccesses
        (reads ++ (parsingStores nodeName susInfo ++
          (parsingLoads susInfo left).map Access.load)) <->
      FitsBuffer nodeName ∧ FitsBuffer susInfo ∧ FitsSlots (chop susInfo) := by
  have hfront : forall i,
      Access.load i ∉ reads ++ parsingStores nodeName susInfo := by
    intro i hmem
    rcases List.mem_append.mp hmem with hread | hstore
    · rcases hreads _ hread with ⟨_, _, heq, _⟩
      cases heq
    · exact load_notMem_parsingStores hstore
  have hloads := loads_stored_iff (parsingLoads susInfo left) hfront
  have hsafe : SafeAccesses
      (reads ++ (parsingStores nodeName susInfo ++
        (parsingLoads susInfo left).map Access.load)) <->
      StoresFit nodeName susInfo ∧
        forall i, i ∈ parsingLoads susInfo left ->
          .store .bufSuscriptionInfo (Int.ofNat i) ∈
            reads ++ parsingStores nodeName susInfo := by
    rw [← hloads, List.append_assoc]
    constructor
    · intro h
      refine ⟨?_, h.loads⟩
      intro buffer index hmem
      apply h.stores
      simp [hmem]
    · intro h
      refine ⟨?_, h.right⟩
      intro buffer index hmem
      rcases List.mem_append.mp hmem with hread | hmem
      · rcases hreads _ hread with ⟨_, k, heq, _, hk⟩
        cases heq
        exact ⟨Int.natCast_nonneg k, Int.ofNat_lt.mpr hk⟩
      · rcases List.mem_append.mp hmem with hstore | hload
        · exact h.left buffer index hstore
        · rcases List.mem_map.mp hload with ⟨_, _, heq⟩
          cases heq
  rw [hsafe]
  cases hsus : isNone (chop susInfo) with
  | true =>
      constructor
      · intro h
        have hlines := storesFit_lines h.left
        exact ⟨hlines.left, hlines.right, Or.inl hsus⟩
      · intro h
        constructor
        · intro buffer index hmem
          simp only [parsingStores, hsus, if_true, List.mem_cons,
            List.not_mem_nil, or_false] at hmem
          rcases hmem with heq | heq
          · cases heq
            exact (fitsBuffer_stores .bufNodeName rfl).mp h.left
          · cases heq
            exact (fitsBuffer_stores .bufSusInfo rfl).mp h.right.left
        · intro i hi
          simp [parsingLoads, hsus] at hi
  | false =>
      have hentries :
          parsingLoads susInfo left = subscriptionLoads (chop susInfo) left := by
        simp [parsingLoads, hsus]
      rw [hentries, storesFit_iff hsus, fitsSlots_iff left hsus]
      simp only [slot_stored_iff hreads hsus, and_assoc]

end

/-- The reads alone are safe, whatever arrives. -/
theorem safe_of_lineStores {reads : List Access}
    (hreads : forall a, a ∈ reads -> LineStore a) : SafeAccesses reads := by
  constructor
  · intro buffer index hmem
    rcases hreads _ hmem with ⟨_, k, heq, _, hk⟩
    cases heq
    exact ⟨Int.natCast_nonneg k, Int.ofNat_lt.mpr hk⟩
  · intro before i after hsplit
    have hmem : Access.load i ∈ reads := by
      rw [hsplit]
      simp
    rcases hreads _ hmem with ⟨_, _, heq, _⟩
    cases heq

theorem lineStores_append {reads reads' : List Access}
    (hreads : forall a, a ∈ reads -> LineStore a)
    (hreads' : forall a, a ∈ reads' -> LineStore a) :
    forall a, a ∈ reads ++ reads' -> LineStore a := by
  intro a ha
  rcases List.mem_append.mp ha with ha | ha
  · exact hreads a ha
  · exact hreads' a ha

/--
The exact condition on what a client sends: it depends on the stream and on the
stack, and not on how the kernel cuts the stream.
-/
theorem registrationAccesses_safe_iff (connfd : Fd) (left : Leftover)
    (w : World) :
    SafeAccesses (registrationAccesses connfd left w) <->
      SafeHandshake left (arrivals (w.input connfd)) := by
  have hfirst : forall a, a ∈ lineAccesses .bufNodeName (rioReadinitb connfd)
      (w.input connfd) -> LineStore a :=
    fun a ha => lineAccesses_lineStore (by decide) ha
  unfold registrationAccesses SafeHandshake
  rcases RioReadlineb_stream (rioReadinitb connfd) MAXLINE w with
    ⟨stop, hread, hnone⟩ | ⟨nameLine, rp, rest, hread, hfd, hsome, hrest⟩
  · constructor
    · intro _ first second nameLine susLine hname _
      cases hnone.symm.trans hname
    · intro _
      simp only [hread, List.append_nil]
      exact safe_of_lineStores hfirst
  · have hlater : (w.setInput connfd rest).input rp.rioFd = rest := by
      rw [hfd]
      exact Function.update_self ..
    have hsecond : forall a, a ∈ lineAccesses .bufSusInfo rp
        ((w.setInput connfd rest).input rp.rioFd) -> LineStore a :=
      fun a ha => lineAccesses_lineStore (by decide) ha
    have hreads := lineStores_append hfirst hsecond
    change RioReadlineb (rioReadinitb connfd) MAXLINE w =
      .ok (nameLine, rp, w.setInput connfd rest) at hread
    change (lineOf (MAXLINE - 1) [] (arrivals (w.input connfd))).1.returned =
      some nameLine at hsome
    change (lineOf (MAXLINE - 1) [] (arrivals (w.input connfd))).2 =
      rp.stream rest at hrest
    simp only [hread, hsome, hrest]
    rcases RioReadlineb_stream rp MAXLINE (w.setInput connfd rest) with
      ⟨stop, hread', hnone⟩ | ⟨susLine, rp', rest', hread', _, hsome', _⟩
    · rw [hlater] at hnone
      constructor
      · intro _ nameLine susLine _ hsus
        cases hnone.symm.trans hsus
      · intro _
        rw [hread', List.append_nil]
        exact safe_of_lineStores hreads
    · rw [hlater] at hsome'
      rw [hread', ← List.append_assoc, parsing_safe_iff hreads]
      constructor
      · intro h name sus hname hsus
        cases hname
        cases hsome'.symm.trans hsus
        exact h
      · intro h
        exact h nameLine susLine rfl hsome'

/-!
# A documented filter
-/

def threeParts : World where
  input := fun _ =>
    [.bytes (lit "sub1" ++ [newline] ++ (lit "node1/cpu/gen" ++ [newline]))]
  writes := fun _ => []
  sent := fun _ => []
  log := []

theorem threeParts_stores_past_slots :
    .store .bufSuscriptionInfo 2 ∈
        registrationAccesses 4 cleanLeftover threeParts ∧
      ¬ SafeAccesses (registrationAccesses 4 cleanLeftover threeParts) := by
  have hread : readHandshake 4 threeParts =
      .ok (some (lit "sub1" ++ [newline]),
        some (lit "node1/cpu/gen" ++ [newline]),
        (threeParts.setInput 4 []).setInput 4 []) := rfl
  rcases registrationAccesses_readHandshake cleanLeftover hread with
    ⟨reads, heq⟩
  have hmem : .store .bufSuscriptionInfo 2 ∈
      registrationAccesses 4 cleanLeftover threeParts := by
    rw [heq]
    apply List.mem_append_right
    apply List.mem_append_left
    decide
  refine ⟨hmem, ?_⟩
  intro hsafe
  exact absurd (hsafe.stores _ _ hmem).right (by decide)

end Broker
end MQTTv1
