import MQTTv1.CLib.Strtok

/-!
# Where the tokens of a line stand

`strtok` returns pointers into the line.  A pointer is modelled as an offset, and
the tokens of a line with their offsets are also found by one pass over its bytes:
a token starts at every byte behind a delimiter that is none itself.
-/

namespace MQTTv1
namespace CLib

/-- The calls of `split`, for the part of a line that starts at `start`. -/
def locatedFrom (delim : CStr) : Nat -> Nat -> CStr -> List (Nat × CStr)
  | 0, _, _ => []
  | calls + 1, start, src =>
      match strtok delim src with
      | (none, _) => []
      | (some token, rest) =>
          (start + (src.takeWhile fun b => delim.contains b).length, token) ::
            locatedFrom delim calls (start + (src.length - rest.length)) rest

def located (delim src : CStr) : List (Nat × CStr) :=
  locatedFrom delim (src.length + 1) 0 src

/-- The same in one pass; the flag tells whether a token may start here. -/
def wordsAt (d : Byte) : Bool -> Nat -> CStr -> List (Nat × CStr)
  | _, _, [] => []
  | gap, n, b :: rest =>
      if b = d then wordsAt d true (n + 1) rest
      else
        (if gap then [(n, (b :: rest).takeWhile (fun c => c != d))] else []) ++
          wordsAt d false (n + 1) rest

def startsIn (d : Byte) : Bool -> CStr -> Nat
  | _, [] => 0
  | gap, b :: rest =>
      if b = d then startsIn d true rest
      else (if gap then 1 else 0) + startsIn d false rest

def afterGap (d : Byte) : Bool -> CStr -> Bool
  | gap, [] => gap
  | _, b :: rest => afterGap d (b = d) rest

/-!
## One call
-/

theorem locatedFrom_calls {delim : CStr} :
    forall {calls calls' start : Nat} {src : CStr},
      src.length < calls -> src.length < calls' ->
        locatedFrom delim calls start src =
          locatedFrom delim calls' start src := by
  intro calls
  induction calls with
  | zero =>
      intro calls' start src h _
      lia
  | succ calls ih =>
      intro calls' start src h h'
      cases calls' with
      | zero => lia
      | succ calls' =>
          unfold locatedFrom
          rcases hcall : strtok delim src with ⟨_ | token, rest⟩
          · rfl
          · have hlt := strtok_rest_length hcall
            simp only
            rw [ih (by lia) (by lia : rest.length < calls')]

theorem locatedFrom_none {delim src rest : CStr} (calls start : Nat)
    (h : strtok delim src = (none, rest)) :
    locatedFrom delim calls start src = [] := by
  cases calls with
  | zero => rfl
  | succ calls =>
      unfold locatedFrom
      rw [h]

theorem locatedFrom_some {delim src token rest : CStr} (start : Nat)
    (h : strtok delim src = (some token, rest)) :
    locatedFrom delim (src.length + 1) start src =
      (start + (src.takeWhile fun b => delim.contains b).length, token) ::
        locatedFrom delim (rest.length + 1)
          (start + (src.length - rest.length)) rest := by
  have hlt := strtok_rest_length h
  rw [locatedFrom, h]
  simp only
  rw [locatedFrom_calls hlt (Nat.lt_succ_self rest.length)]

/-- The tokens are those that `split` stores. -/
theorem located_tokens (delim src : CStr) :
    (located delim src).map Prod.snd = tokensOf delim src := by
  have hcalls : forall (calls start : Nat) (s : CStr),
      (locatedFrom delim calls start s).map Prod.snd =
        splitFrom delim calls s := by
    intro calls
    induction calls with
    | zero =>
        intro start s
        rfl
    | succ calls ih =>
        intro start s
        unfold locatedFrom splitFrom
        rcases strtok delim s with ⟨_ | token, rest⟩
        · rfl
        · rw [List.map_cons, ih]
  exact hcalls _ _ _

/-!
## One pass
-/

theorem wordsAt_inside {d : Byte} (rest : CStr) :
    forall {s : CStr} (n : Nat), d ∉ s ->
      wordsAt d false n (s ++ rest) = wordsAt d false (n + s.length) rest
  | [], _, _ => rfl
  | b :: s, n, hs => by
      rcases not_or.mp (mt List.mem_cons.mpr hs) with ⟨hb, hs⟩
      have hlen : n + 1 + s.length = n + (b :: s).length := by
        rw [List.length_cons]
        lia
      rw [List.cons_append, wordsAt, if_neg (Ne.symm hb), if_neg (by decide),
        List.nil_append, wordsAt_inside rest (n + 1) hs, hlen]

theorem wordsAt_word {d : Byte} {w : CStr} (hne : w ≠ []) (hw : d ∉ w) (n : Nat)
    {rest : CStr} (hrest : rest = [] ∨ exists s, rest = d :: s) :
    wordsAt d true n (w ++ rest) =
      (n, w) :: wordsAt d false (n + w.length) rest := by
  have htake : (w ++ rest).takeWhile (fun c => c != d) = w := by
    rw [List.takeWhile_append_of_pos]
    · rcases hrest with rfl | ⟨s, rfl⟩
      · simp
      · simp
    · intro c hc
      have hcd : c ≠ d := fun h => hw (h ▸ hc)
      simpa using hcd
  cases w with
  | nil => exact absurd rfl hne
  | cons b w =>
      rcases not_or.mp (mt List.mem_cons.mpr hw) with ⟨hb, hw⟩
      have hlen : n + 1 + w.length = n + (b :: w).length := by
        rw [List.length_cons]
        lia
      rw [List.cons_append, wordsAt, if_neg (Ne.symm hb), if_pos rfl,
        ← List.cons_append, htake, wordsAt_inside rest (n + 1) hw, hlen]
      rfl

theorem locatedFrom_skip (d : Byte) (start : Nat) (rest : CStr) :
    locatedFrom [d] ((d :: rest).length + 1) start (d :: rest) =
      locatedFrom [d] (rest.length + 1) (start + 1) rest := by
  have hcall : strtok [d] (d :: rest) = strtok [d] rest :=
    @strtok_skip [d] [d] (fun b hb => hb) rest
  rcases hrest : strtok [d] rest with ⟨_ | token, left⟩
  · rw [locatedFrom_none _ _ hrest, locatedFrom_none _ _ (hcall.trans hrest)]
  · have hlt := strtok_rest_length hrest
    have hskip : ((d :: rest).takeWhile fun b => [d].contains b).length =
        1 + (rest.takeWhile fun b => [d].contains b).length := by
      simp [Nat.add_comm]
    have hleft : start + ((d :: rest).length - left.length) =
        start + 1 + (rest.length - left.length) := by
      rw [List.length_cons]
      lia
    rw [locatedFrom_some _ hrest, locatedFrom_some _ (hcall.trans hrest), hskip,
      hleft, ← Nat.add_assoc]

theorem locatedFrom_eq_wordsAt (d : Byte) (start : Nat) (src : CStr) :
    locatedFrom [d] (src.length + 1) start src = wordsAt d true start src := by
  have hnoGap : forall {w rest : CStr}, w ≠ [] -> d ∉ w ->
      ((w ++ rest).takeWhile fun b => [d].contains b).length = 0 := by
    intro w rest hne hw
    cases w with
    | nil => exact absurd rfl hne
    | cons b w =>
        have hb : b ≠ d := fun h => hw (h ▸ List.mem_cons_self)
        simp [hb]
  by_cases hd : d ∈ src
  · rcases List.eq_append_cons_of_mem hd with ⟨w, rest, hsrc, hfree⟩
    have hshorter : rest.length < src.length := by
      rw [hsrc, List.length_append, List.length_cons]
      lia
    rw [hsrc]
    by_cases hne : w = []
    · rw [hne]
      show locatedFrom [d] ((d :: rest).length + 1) start (d :: rest) =
        wordsAt d true start (d :: rest)
      rw [locatedFrom_skip, wordsAt, if_pos rfl]
      exact locatedFrom_eq_wordsAt d (start + 1) rest
    · have hcall := strtok_word_append (word_singleton hne hfree)
        List.mem_cons_self rest
      have hlen : start + ((w ++ d :: rest).length - rest.length) =
          start + w.length + 1 := by
        rw [List.length_append, List.length_cons]
        lia
      rw [locatedFrom_some _ hcall, hnoGap hne hfree, hlen,
        locatedFrom_eq_wordsAt d (start + w.length + 1) rest,
        wordsAt_word hne hfree start (Or.inr ⟨rest, rfl⟩), wordsAt, if_pos rfl]
      rfl
  · by_cases hne : src = []
    · rw [hne]
      rfl
    · have hcall := strtok_word (word_singleton hne hd)
      have hgap := @hnoGap src [] hne hd
      have hword := wordsAt_word hne hd start (Or.inl rfl)
      rw [List.append_nil] at hgap hword
      rw [locatedFrom_some _ hcall, hgap, hword]
      rfl
termination_by src.length

theorem located_eq_wordsAt (d : Byte) (src : CStr) :
    located [d] src = wordsAt d true 0 src :=
  locatedFrom_eq_wordsAt d 0 src

/-!
## Texts one behind the other
-/

theorem startsIn_append (d : Byte) :
    forall (gap : Bool) (s t : CStr),
      startsIn d gap (s ++ t) = startsIn d gap s + startsIn d (afterGap d gap s) t
  | gap, [], t => (Nat.zero_add _).symm
  | gap, b :: s, t => by
      by_cases hb : b = d
      · simp [startsIn, afterGap, hb, startsIn_append d true s t]
      · simp [startsIn, afterGap, hb, startsIn_append d false s t, Nat.add_assoc]

theorem afterGap_append (d : Byte) :
    forall (gap : Bool) (s t : CStr),
      afterGap d gap (s ++ t) = afterGap d (afterGap d gap s) t
  | _, [], _ => rfl
  | _, b :: s, t => afterGap_append d (b = d) s t

theorem drop_wordsAt_append (d : Byte) :
    forall (gap : Bool) (n : Nat) (s t : CStr),
      (wordsAt d gap n (s ++ t)).drop (startsIn d gap s) =
        wordsAt d (afterGap d gap s) (n + s.length) t
  | _, _, [], _ => rfl
  | gap, n, b :: s, t => by
      have hlen : n + (b :: s).length = n + 1 + s.length := by
        rw [List.length_cons]
        lia
      rw [hlen, List.cons_append]
      by_cases hb : b = d
      · rw [wordsAt, startsIn, afterGap, if_pos hb, if_pos hb, decide_eq_true hb]
        exact drop_wordsAt_append d true (n + 1) s t
      · rw [wordsAt, startsIn, afterGap, if_neg hb, if_neg hb, decide_eq_false hb,
          ← drop_wordsAt_append d false (n + 1) s t]
        cases gap with
        | false => simp
        | true => simp [Nat.add_comm 1]

theorem length_wordsAt (d : Byte) :
    forall (gap : Bool) (n : Nat) (s : CStr),
      (wordsAt d gap n s).length = startsIn d gap s
  | _, _, [] => rfl
  | gap, n, b :: s => by
      by_cases hb : b = d
      · rw [wordsAt, startsIn, if_pos hb, if_pos hb]
        exact length_wordsAt d true (n + 1) s
      · rw [wordsAt, startsIn, if_neg hb, if_neg hb, List.length_append,
          length_wordsAt d false (n + 1) s]
        cases gap <;> rfl

theorem mem_wordsAt {d : Byte} :
    forall {gap : Bool} {n o : Nat} {s w : CStr}, (o, w) ∈ wordsAt d gap n s ->
      exists k, o = n + k ∧ afterGap d gap (s.take k) = true ∧
        k + w.length ≤ s.length
  | gap, n, o, b :: s, w, h => by
      have hlater : forall {gap' : Bool}, afterGap d gap [b] = gap' ->
          (o, w) ∈ wordsAt d gap' (n + 1) s ->
          exists k, o = n + k ∧ afterGap d gap ((b :: s).take k) = true ∧
            k + w.length ≤ (b :: s).length := by
        intro gap' hgap hmem
        rcases mem_wordsAt hmem with ⟨k, hk, hafter, hlen⟩
        refine ⟨k + 1, by lia, ?_, ?_⟩
        · rw [List.take_succ_cons, ← hafter, ← hgap]
          rfl
        · rw [List.length_cons]
          lia
      rw [wordsAt] at h
      split at h
      · rename_i hb
        exact hlater (decide_eq_true hb) h
      · rename_i hb
        rcases List.mem_append.mp h with h | h
        · cases hgap : gap with
          | false =>
              rw [hgap] at h
              cases h
          | true =>
              rw [hgap] at h
              cases List.mem_singleton.mp h
              refine ⟨0, rfl, rfl, ?_⟩
              rw [Nat.zero_add]
              exact (List.takeWhile_prefix _).length_le
        · exact hlater (decide_eq_false hb) h

/-!
## Texts with runs of a delimiter in front of them
-/

def laid (d : Byte) (pieces : List (Nat × CStr)) : CStr :=
  pieces.flatMap fun piece => List.replicate piece.1 d ++ piece.2

/-- How many tokens start in the pieces, when each has a text. -/
def gapsIn : Bool -> List Nat -> Nat
  | _, [] => 0
  | gap, pad :: pads =>
      (if gap || 0 < pad then 1 else 0) + gapsIn false pads

/-- Only which of the runs are empty matters. -/
theorem gapsIn_congr :
    forall {gap : Bool} {pads pads' : List Nat},
      pads.map (fun pad => decide (0 < pad)) =
          pads'.map (fun pad => decide (0 < pad)) ->
        gapsIn gap pads = gapsIn gap pads'
  | _, [], [], _ => rfl
  | _, pad :: pads, pad' :: pads', h => by
      rcases List.cons.inj h with ⟨hpad, htail⟩
      simp only at hpad
      rw [gapsIn, gapsIn, hpad, gapsIn_congr htail]

section

variable {d : Byte}

theorem laid_append (front back : List (Nat × CStr)) :
    laid d (front ++ back) = laid d front ++ laid d back :=
  List.flatMap_append

theorem startsIn_replicate (gap : Bool) (pad : Nat) (s : CStr) :
    startsIn d gap (List.replicate pad d ++ s) =
      startsIn d (gap || decide (0 < pad)) s := by
  induction pad generalizing gap with
  | zero =>
      simp
  | succ pad ih =>
      rw [List.replicate_succ, List.cons_append, startsIn, if_pos rfl, ih]
      simp

theorem startsIn_plain :
    forall {s : CStr} (gap : Bool), s ≠ [] -> d ∉ s ->
      startsIn d gap s = (if gap then 1 else 0) ∧ afterGap d gap s = false
  | [b], gap, _, hs => by
      have hb : b ≠ d := fun h => hs (h ▸ List.mem_cons_self)
      simp [startsIn, afterGap, hb]
  | b :: c :: s, gap, _, hs => by
      rcases not_or.mp (mt List.mem_cons.mpr hs) with ⟨hb, hs⟩
      rcases startsIn_plain false (List.cons_ne_nil c s) hs with
        ⟨hstarts, hafter⟩
      constructor
      · rw [startsIn, if_neg (Ne.symm hb), hstarts]
        rfl
      · rw [afterGap, decide_eq_false (Ne.symm hb), hafter]

theorem afterGap_piece (gap : Bool) {piece : Nat × CStr}
    (hpiece : piece.2 ≠ [] ∧ d ∉ piece.2) :
    afterGap d gap (List.replicate piece.1 d ++ piece.2) = false := by
  rw [afterGap_append]
  exact (startsIn_plain _ hpiece.left hpiece.right).right

theorem startsIn_laid :
    forall {gap : Bool} {pieces : List (Nat × CStr)},
      (forall piece, piece ∈ pieces -> piece.2 ≠ [] ∧ d ∉ piece.2) ->
        startsIn d gap (laid d pieces) = gapsIn gap (pieces.map Prod.fst)
  | _, [], _ => rfl
  | gap, piece :: pieces, hpieces => by
      have hpiece := hpieces piece List.mem_cons_self
      have htail : startsIn d false (laid d pieces) =
          gapsIn false (pieces.map Prod.fst) :=
        startsIn_laid fun p hp => hpieces p (List.mem_cons_of_mem piece hp)
      show startsIn d gap ((List.replicate piece.1 d ++ piece.2) ++
        laid d pieces) = _
      rw [startsIn_append, afterGap_piece gap hpiece, htail, startsIn_replicate,
        (startsIn_plain _ hpiece.left hpiece.right).left]
      rfl

theorem afterGap_laid {gap : Bool} {pieces : List (Nat × CStr)}
    (hne : pieces ≠ [])
    (hpieces : forall piece, piece ∈ pieces -> piece.2 ≠ [] ∧ d ∉ piece.2) :
    afterGap d gap (laid d pieces) = false := by
  rcases List.eq_nil_or_concat pieces with rfl | ⟨front, last, rfl⟩
  · exact absurd rfl hne
  · rw [List.concat_eq_append, laid_append, afterGap_append]
    have hlast := afterGap_piece (afterGap d gap (laid d front))
      (hpieces last (by simp))
    simpa [laid] using hlast

theorem wordsAt_replicate (gap : Bool) (n pad : Nat) (s : CStr) :
    wordsAt d gap n (List.replicate pad d ++ s) =
      wordsAt d (gap || decide (0 < pad)) (n + pad) s := by
  induction pad generalizing gap n with
  | zero =>
      simp
  | succ pad ih =>
      rw [List.replicate_succ, List.cons_append, wordsAt, if_pos rfl, ih,
        Nat.add_assoc, Nat.add_comm 1]
      simp

/-- A text with a delimiter in front of it and behind it is a token. -/
theorem getElem?_located (front : CStr) {pad : Nat} (hpad : 0 < pad) {w : CStr}
    (hne : w ≠ []) (hw : d ∉ w) {back : CStr}
    (hback : back = [] ∨ exists s, back = d :: s) :
    (located [d] (front ++ (List.replicate pad d ++ (w ++ back))))[
        startsIn d true front]? =
      some (front.length + pad, w) := by
  have hdrop := drop_wordsAt_append d true 0 front
    (List.replicate pad d ++ (w ++ back))
  rw [wordsAt_replicate, decide_eq_true hpad, Bool.or_true,
    wordsAt_word hne hw _ hback, Nat.zero_add] at hdrop
  have hfirst := congrArg (fun l => l[0]?) hdrop
  simp only [List.getElem?_drop, Nat.add_zero, List.getElem?_cons_zero] at hfirst
  rw [located_eq_wordsAt]
  exact hfirst

end

end CLib
end MQTTv1
