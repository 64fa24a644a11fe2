import MQTTv1.CLib.CString

/-!
# The tokeniser of the C library

`strtok` scans from the given string or, when it is given NULL, from the
continuation pointer that the previous call left behind.  One call is modelled
as a function from the string it scans to the token it returns and the string
behind the new continuation pointer; the programs iterate it until it returns
NULL.
-/

namespace MQTTv1
namespace CLib

/--
One call of `strtok`: skip the leading delimiters, cut the token at the next
delimiter and leave the continuation pointer behind it.  At the end of the
string the call returns NULL and leaves the pointer at the terminator.
-/
def strtok (delim src : CStr) : Option CStr × CStr :=
  match src.dropWhile (fun b => delim.contains b) with
  | [] => (none, [])
  | b :: rest =>
      (some ((b :: rest).takeWhile (fun c => !delim.contains c)),
        ((b :: rest).dropWhile (fun c => !delim.contains c)).drop 1)

/-- The loop of `split`, with a bound on the number of calls. -/
def splitFrom (delim : CStr) : Nat -> CStr -> List CStr
  | 0, _ => []
  | calls + 1, src =>
      match strtok delim src with
      | (none, _) => []
      | (some token, rest) => token :: splitFrom delim calls rest

/-- The tokens of a line, in the order in which `split` stores them. -/
def tokensOf (delim src : CStr) : List CStr :=
  splitFrom delim (src.length + 1) src

/-- A word contains no delimiter and is not empty. -/
def Word (delim w : CStr) : Prop :=
  w ≠ [] ∧ forall b, b ∈ w -> b ∉ delim

instance (delim w : CStr) : Decidable (Word delim w) :=
  have := List.decidableBAll (fun b => b ∉ delim) w
  inferInstanceAs (Decidable (_ ∧ _))

theorem word_singleton {d : Byte} {w : CStr} (hne : w ≠ []) (hfree : d ∉ w) :
    Word [d] w := by
  constructor
  · exact hne
  · intro b hb hd
    rw [List.mem_singleton.mp hd] at hb
    exact hfree hb

/-!
## Every call consumes a byte
-/

theorem strtok_rest_length {delim src token rest : CStr}
    (h : strtok delim src = (some token, rest)) :
    rest.length < src.length := by
  unfold strtok at h
  have hskip := List.length_dropWhile_le (fun b => delim.contains b) src
  cases hsrc : src.dropWhile (fun b => delim.contains b) with
  | nil =>
      rw [hsrc] at h
      cases h
  | cons b tail =>
      rw [hsrc] at h hskip
      have hcut := List.length_dropWhile_le (fun c => !delim.contains c)
        (b :: tail)
      have hrest :
          ((b :: tail).dropWhile (fun c => !delim.contains c)).drop 1 = rest :=
        (Prod.mk.inj h).right
      rw [← hrest, List.length_drop]
      simp only [List.length_cons] at hskip hcut ⊢
      lia

theorem mem_of_strtok_some {delim src token rest : CStr}
    (h : strtok delim src = (some token, rest)) {b : Byte}
    (hb : b ∈ token ∨ b ∈ rest) : b ∈ src := by
  have hskip : forall c,
      c ∈ src.dropWhile (fun b => delim.contains b) -> c ∈ src := by
    intro c hc
    exact (List.dropWhile_suffix _).mem hc
  unfold strtok at h
  cases hsrc : src.dropWhile (fun b => delim.contains b) with
  | nil =>
      rw [hsrc] at h
      cases h
  | cons c tail =>
      rw [hsrc] at h hskip
      cases h
      rcases hb with htoken | hrest
      · exact hskip b ((List.takeWhile_prefix _).mem htoken)
      · exact hskip b ((List.dropWhile_suffix _).mem (List.mem_of_mem_drop hrest))

theorem splitFrom_calls {delim : CStr} :
    forall {calls calls' : Nat} {src : CStr},
      src.length < calls -> src.length < calls' ->
        splitFrom delim calls src = splitFrom delim calls' src := by
  intro calls
  induction calls with
  | zero =>
      intro calls' src h _
      lia
  | succ calls ih =>
      intro calls' src h h'
      cases calls' with
      | zero => lia
      | succ calls' =>
          unfold splitFrom
          rcases hcall : strtok delim src with ⟨_ | token, rest⟩
          · rfl
          · have hlt := strtok_rest_length hcall
            simp only
            rw [ih (by lia) (by lia : rest.length < calls')]

theorem tokensOf_of_strtok_none {delim src rest : CStr}
    (h : strtok delim src = (none, rest)) : tokensOf delim src = [] := by
  unfold tokensOf splitFrom
  rw [h]

theorem tokensOf_of_strtok_some {delim src token rest : CStr}
    (h : strtok delim src = (some token, rest)) :
    tokensOf delim src = token :: tokensOf delim rest := by
  have hlt := strtok_rest_length h
  unfold tokensOf
  rw [splitFrom, h]
  simp only
  rw [splitFrom_calls hlt (Nat.lt_succ_self rest.length)]

theorem mem_splitFrom {delim : CStr} :
    forall {calls : Nat} {src token : CStr} {b : Byte},
      token ∈ splitFrom delim calls src -> b ∈ token -> b ∈ src := by
  intro calls
  induction calls with
  | zero =>
      intro src token b htoken _
      cases htoken
  | succ calls ih =>
      intro src token b htoken hb
      unfold splitFrom at htoken
      rcases hcall : strtok delim src with ⟨_ | first, rest⟩
      · rw [hcall] at htoken
        cases htoken
      · rw [hcall] at htoken
        rcases List.mem_cons.mp htoken with rfl | hrest
        · exact mem_of_strtok_some hcall (Or.inl hb)
        · exact mem_of_strtok_some hcall (Or.inr (ih hrest hb))

theorem nulFree_token {delim src token : CStr} (hsrc : NulFree src)
    (htoken : token ∈ tokensOf delim src) : NulFree token :=
  fun b hb => hsrc b (mem_splitFrom htoken hb)

/-!
## Tokens of an assembled line
-/

@[simp] theorem tokensOf_nil (delim : CStr) : tokensOf delim [] = [] := rfl

theorem strtok_skip {delim gap : CStr} (hgap : forall b, b ∈ gap -> b ∈ delim)
    (src : CStr) : strtok delim (gap ++ src) = strtok delim src := by
  unfold strtok
  rw [List.dropWhile_append_of_pos]
  intro b hb
  simpa using hgap b hb

theorem strtok_word {delim w : CStr} (hw : Word delim w) :
    strtok delim w = (some w, []) := by
  rcases hw with ⟨hne, hfree⟩
  have hskip : w.dropWhile (fun b => delim.contains b) = w := by
    cases w with
    | nil => exact absurd rfl hne
    | cons b tail =>
        have hb := hfree b (List.mem_cons_self ..)
        simp [hb]
  have hall : forall c, c ∈ w -> (!delim.contains c) = true := by
    intro c hc
    simpa using hfree c hc
  unfold strtok
  rw [hskip]
  cases w with
  | nil => exact absurd rfl hne
  | cons b tail =>
      simp only
      rw [List.takeWhile_eq_self_iff.mpr hall,
        List.dropWhile_eq_nil_iff.mpr hall]
      rfl

theorem strtok_word_append {delim w : CStr} (hw : Word delim w) {d : Byte}
    (hd : d ∈ delim) (rest : CStr) :
    strtok delim (w ++ d :: rest) = (some w, rest) := by
  rcases hw with ⟨hne, hfree⟩
  have hall : forall c, c ∈ w -> (!delim.contains c) = true := by
    intro c hc
    simpa using hfree c hc
  have hskip :
      (w ++ d :: rest).dropWhile (fun b => delim.contains b) =
        w ++ d :: rest := by
    cases w with
    | nil => exact absurd rfl hne
    | cons b tail =>
        have hb := hfree b (List.mem_cons_self ..)
        simp [hb]
  have htake :
      (w ++ d :: rest).takeWhile (fun c => !delim.contains c) = w := by
    rw [List.takeWhile_append_of_pos hall]
    simp [hd]
  have hdrop :
      (w ++ d :: rest).dropWhile (fun c => !delim.contains c) = d :: rest := by
    rw [List.dropWhile_append_of_pos hall]
    simp [hd]
  unfold strtok
  rw [hskip]
  cases hcases : w ++ d :: rest with
  | nil => simp at hcases
  | cons b tail =>
      simp only
      rw [← hcases, htake, hdrop]
      rfl

theorem tokensOf_skip {delim gap : CStr}
    (hgap : forall b, b ∈ gap -> b ∈ delim) (src : CStr) :
    tokensOf delim (gap ++ src) = tokensOf delim src := by
  have hcall := strtok_skip hgap src
  rcases hsrc : strtok delim src with ⟨_ | token, rest⟩
  · rw [tokensOf_of_strtok_none hsrc]
    exact tokensOf_of_strtok_none (hcall.trans hsrc)
  · rw [tokensOf_of_strtok_some hsrc]
    exact tokensOf_of_strtok_some (hcall.trans hsrc)

theorem tokensOf_word {delim w : CStr} (hw : Word delim w) :
    tokensOf delim w = [w] := by
  rw [tokensOf_of_strtok_some (strtok_word hw), tokensOf_nil]

theorem tokensOf_word_append {delim w : CStr} (hw : Word delim w) {d : Byte}
    (hd : d ∈ delim) (rest : CStr) :
    tokensOf delim (w ++ d :: rest) = w :: tokensOf delim rest :=
  tokensOf_of_strtok_some (strtok_word_append hw hd rest)

/-- Splitting inverts joining with a single delimiter. -/
theorem tokensOf_intercalate {delim : CStr} {d : Byte} (hd : d ∈ delim) :
    forall {ws : List CStr}, (forall w, w ∈ ws -> Word delim w) ->
      tokensOf delim (List.intercalate [d] ws) = ws
  | [], _ => by simp [List.intercalate]
  | [w], hws => by
      simpa [List.intercalate] using tokensOf_word (hws w (by simp))
  | w :: w' :: ws, hws => by
      have htail : tokensOf delim (List.intercalate [d] (w' :: ws)) = w' :: ws :=
        tokensOf_intercalate hd fun v hv => hws v (List.mem_cons_of_mem w hv)
      have hjoin :
          List.intercalate [d] (w :: w' :: ws) =
            w ++ d :: List.intercalate [d] (w' :: ws) := by
        simp [List.intercalate]
      rw [hjoin, tokensOf_word_append (hws w (by simp)) hd, htail]

/-- With one delimiter the tokens are the parts between, unless they are empty. -/
theorem tokensOf_eq_splitOn (d : Byte) (src : CStr) :
    tokensOf [d] src = (src.splitOn d).filter fun part => part ≠ [] := by
  by_cases hd : d ∈ src
  · rcases List.eq_append_cons_of_mem hd with ⟨w, rest, rfl, hfree⟩
    have ih := tokensOf_eq_splitOn d rest
    rw [List.splitOn_append_cons_self_of_not_mem hfree]
    cases w with
    | nil =>
        have hskip : tokensOf [d] ([d] ++ rest) = tokensOf [d] rest :=
          tokensOf_skip (fun b hb => hb) rest
        change tokensOf [d] ([] ++ d :: rest) = tokensOf [d] rest at hskip
        rw [hskip, ih]
        simp
    | cons b w =>
        have hw : Word [d] (b :: w) := word_singleton (by simp) hfree
        rw [tokensOf_word_append hw List.mem_cons_self, ih]
        simp
  · rw [List.splitOn_eq_singleton hd]
    cases src with
    | nil => simp
    | cons b w => simp [tokensOf_word (word_singleton (by simp) hd)]
termination_by src.length

theorem tokensOf_append_cons (d : Byte) (s t : CStr) :
    tokensOf [d] (s ++ d :: t) = tokensOf [d] s ++ tokensOf [d] t := by
  rw [tokensOf_eq_splitOn, tokensOf_eq_splitOn, tokensOf_eq_splitOn,
    List.splitOn_append_cons_self, List.filter_append]

/-- Words with runs of a delimiter between them. -/
def spaced (d : Byte) : (Nat -> Nat) -> List CStr -> CStr
  | _, [] => []
  | _, [w] => w
  | gaps, w :: w' :: ws =>
      w ++ (List.replicate (gaps 0 + 1) d ++
        spaced d (fun i => gaps (i + 1)) (w' :: ws))

theorem append_spaced (d : Byte) (gaps : Nat -> Nat) (front w : CStr)
    (ws : List CStr) :
    front ++ spaced d gaps (w :: ws) = spaced d gaps ((front ++ w) :: ws) := by
  cases ws with
  | nil => rfl
  | cons w' ws => simp [spaced]

theorem spaced_append (d : Byte) (w : CStr) (more : List CStr) :
    forall (ws : List CStr) (gaps : Nat -> Nat),
      spaced d gaps (ws ++ w :: more) =
        spaced d gaps (ws ++ [[]]) ++
          spaced d (fun i => gaps (i + ws.length)) (w :: more)
  | [], _ => rfl
  | [v], gaps => by
      simp [spaced]
  | v :: v' :: ws, gaps => by
      have htail := spaced_append d w more (v' :: ws) fun i => gaps (i + 1)
      show v ++ (_ ++ spaced d (fun i => gaps (i + 1)) (v' :: ws ++ w :: more)) =
        v ++ (_ ++ spaced d (fun i => gaps (i + 1)) (v' :: ws ++ [[]])) ++ _
      rw [htail]
      simp [Nat.add_assoc]

theorem spaced_avoids {bs : List Byte} {d : Byte} (hd : d ∉ bs) :
    forall {ws : List CStr} (gaps : Nat -> Nat),
      (forall w, w ∈ ws -> forall b, b ∈ w -> b ∉ bs) ->
        forall b, b ∈ spaced d gaps ws -> b ∉ bs
  | [], _, _ => by
      intro b hb
      cases hb
  | [w], _, hws => hws w (List.mem_singleton.mpr rfl)
  | w :: w' :: ws, gaps, hws => by
      intro b hb
      rcases List.mem_append.mp hb with hb | hb
      · exact hws w List.mem_cons_self b hb
      · rcases List.mem_append.mp hb with hb | hb
        · rw [(List.mem_replicate.mp hb).right]
          exact hd
        · exact spaced_avoids hd _
            (fun v hv => hws v (List.mem_cons_of_mem w hv)) b hb

theorem infix_spaced {d : Byte} {w : CStr} :
    forall {ws : List CStr} (gaps : Nat -> Nat), w ∈ ws ->
      w <:+: spaced d gaps ws
  | [v], _, hw => by
      rw [List.mem_singleton.mp hw]
      exact List.infix_rfl
  | v :: v' :: ws, gaps, hw => by
      rcases List.mem_cons.mp hw with rfl | hw
      · exact (List.prefix_append w _).isInfix
      · have htail : w <:+: spaced d (fun i => gaps (i + 1)) (v' :: ws) :=
          infix_spaced _ hw
        unfold spaced
        rw [← List.append_assoc]
        exact htail.trans (List.suffix_append _ _).isInfix

/-- All words but the last are tokens; the last one may go on. -/
theorem tokensOf_spaced {delim : CStr} {d : Byte} (hd : d ∈ delim) :
    forall {ws : List CStr} (gaps : Nat -> Nat) (last tail : CStr),
      (forall w, w ∈ ws -> Word delim w) ->
        tokensOf delim (spaced d gaps (ws ++ [last]) ++ tail) =
          ws ++ tokensOf delim (last ++ tail) := by
  intro ws
  induction ws with
  | nil =>
      intro gaps last tail _
      rfl
  | cons w ws ih =>
      intro gaps last tail hws
      have hgap : forall (n : Nat) b, b ∈ List.replicate n d -> b ∈ delim := by
        intro n b hb
        rw [(List.mem_replicate.mp hb).right]
        exact hd
      have hstep :
          spaced d gaps ((w :: ws) ++ [last]) ++ tail =
            w ++ d :: (List.replicate (gaps 0) d ++
              (spaced d (fun i => gaps (i + 1)) (ws ++ [last]) ++ tail)) := by
        cases ws <;> simp [spaced, List.replicate_succ]
      rw [hstep, tokensOf_word_append (hws w List.mem_cons_self) hd,
        tokensOf_skip (hgap (gaps 0)),
        ih _ _ _ fun v hv => hws v (List.mem_cons_of_mem w hv),
        List.cons_append]

end CLib
end MQTTv1
