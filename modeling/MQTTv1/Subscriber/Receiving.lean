import MQTTv1.Csapp.Buffered

/-!
# What the subscriber prints

Behind its handshake `sub_client` reads lines through one `rio_t` and prints each
of them with `fputs`, which stops at a terminator, until the broker closes.
-/

namespace MQTTv1
namespace Subscriber

open CLib
open Csapp

inductive Ending where
  /-- `break`, and `exit(0)` behind the loop. -/
  | closed
  | stopped (stop : Stop)
deriving DecidableEq, Repr

theorem lineOf_shorter :
    forall {budget : Nat} {stored bs : List Byte} {stream rest : List Arrival},
      lineOf budget stored stream = (.line bs, rest) ->
        bs.length + rest.length ≤ stored.length + stream.length := by
  intro budget
  induction budget with
  | zero =>
      intro stored bs stream rest h
      cases h
      exact Nat.le_refl _
  | succ budget ih =>
      intro stored bs stream rest h
      match stream with
      | [] => cases h
      | .error :: tail => cases h
      | .eof :: tail =>
          unfold lineOf at h
          split at h
          · cases h
          · cases h
            simp
      | .byte b :: tail =>
          unfold lineOf at h
          split at h
          · cases h
            simp only [List.length_append, List.length_cons, List.length_nil]
            lia
          · have hle := ih h
            simp only [List.length_append, List.length_cons,
              List.length_nil] at hle ⊢
            lia

theorem rioReadlineb_shorter {rio rio' : Rio} {input rest : List ReadResult}
    {b : Byte} {bs : List Byte} {maxlen : Nat}
    (h : rioReadlineb rio maxlen input = (.line (b :: bs), rio', rest)) :
    (rio'.stream rest).length < (rio.stream input).length := by
  rcases rioReadlineb_stream rio maxlen input with
    ⟨result, rp, later, hread, _, hline⟩
  cases h.symm.trans hread
  have hle := lineOf_shorter hline
  simp only [List.length_cons, List.length_nil] at hle
  lia

/-- The loop of `main`: the bytes printed, and how it ends. -/
def receiveLoop (rio : Rio) (input : List ReadResult) : List Byte × Ending :=
  match _hread : rioReadlineb rio MAXLINE input with
  | (.blocked, _, _) => ([], .stopped .blocked)
  | (.error, _, _) => ([], .stopped .exited)
  | (.eof, _, _) => ([], .closed)
  | (.line [], _, _) => ([], .closed)
  | (.line (b :: bs), rio', rest) =>
      let later := receiveLoop rio' rest
      (stringOf (b :: bs) ++ later.1, later.2)
termination_by (rio.stream input).length
decreasing_by exact rioReadlineb_shorter _hread

/-!
## One call
-/

theorem receiveLoop_line {rio rio' : Rio} {input rest : List ReadResult}
    {bs : List Byte} (hne : bs ≠ [])
    (h : rioReadlineb rio MAXLINE input = (.line bs, rio', rest)) :
    receiveLoop rio input =
      (stringOf bs ++ (receiveLoop rio' rest).1,
        (receiveLoop rio' rest).2) := by
  rw [receiveLoop]
  split
  · rename_i heq
    cases h.symm.trans heq
  · rename_i heq
    cases h.symm.trans heq
  · rename_i heq
    cases h.symm.trans heq
  · rename_i heq
    cases h.symm.trans heq
    exact absurd rfl hne
  · rename_i heq
    cases h.symm.trans heq
    rfl

def endingOf : LineResult -> Ending
  | .blocked => .stopped .blocked
  | .error => .stopped .exited
  | _ => .closed

theorem receiveLoop_end {rio rio' : Rio} {input rest : List ReadResult}
    {result : LineResult} (hnone : forall bs, result ≠ .line bs)
    (h : rioReadlineb rio MAXLINE input = (result, rio', rest)) :
    receiveLoop rio input = ([], endingOf result) := by
  rw [receiveLoop]
  split
  · rename_i heq
    cases h.symm.trans heq
    rfl
  · rename_i heq
    cases h.symm.trans heq
    rfl
  · rename_i heq
    cases h.symm.trans heq
    rfl
  · rename_i heq
    cases h.symm.trans heq
    exact absurd rfl (hnone [])
  · rename_i heq
    cases h.symm.trans heq
    exact absurd rfl (hnone _)

/-!
## The lines of a stream
-/

structure Whole (limit : Nat) (piece : List Byte) : Prop where
  nonEmpty : piece ≠ []
  fits : piece.length ≤ limit
  single : newline ∉ piece.dropLast
  ended : piece.getLast? = some newline ∨ piece.length = limit

theorem whole_singleton {limit : Nat} {b : Byte} (hlimit : 0 < limit)
    (hend : b = newline ∨ limit = 1) : Whole limit [b] where
  nonEmpty := List.cons_ne_nil _ _
  fits := hlimit
  single := List.not_mem_nil
  ended := by
    rcases hend with rfl | rfl
    · exact Or.inl rfl
    · exact Or.inr rfl

theorem Whole.cons {limit : Nat} {b : Byte} {piece : List Byte}
    (hb : b ≠ newline) (h : Whole limit piece) :
    Whole (limit + 1) (b :: piece) where
  nonEmpty := List.cons_ne_nil _ _
  fits := Nat.succ_le_succ h.fits
  single := by
    rw [List.dropLast_cons_of_ne_nil h.nonEmpty]
    intro hmem
    rcases List.mem_cons.mp hmem with heq | hmem
    · exact hb heq.symm
    · exact h.single hmem
  ended := by
    rcases h.ended with hlast | hlength
    · left
      rw [List.getLast?_cons, hlast]
      rfl
    · right
      rw [List.length_cons, hlength]

theorem lineOf_front :
    forall (front stored : List Byte) {budget : Nat} (tail : List Arrival),
      0 < budget ->
      (exists piece later, front = piece ++ later ∧ Whole budget piece ∧
        lineOf budget stored (front.map Arrival.byte ++ tail) =
          (.line (stored ++ piece), later.map Arrival.byte ++ tail)) ∨
      (newline ∉ front ∧ front.length < budget ∧
        lineOf budget stored (front.map Arrival.byte ++ tail) =
          lineOf (budget - front.length) (stored ++ front) tail) := by
  intro front
  induction front with
  | nil =>
      intro stored budget tail hbudget
      right
      simpa using hbudget
  | cons b front ih =>
      intro stored budget tail hbudget
      match budget, hbudget with
      | budget + 1, hbudget =>
          rw [List.map_cons, List.cons_append, lineOf]
          by_cases hb : b = newline
          · left
            rw [if_pos hb]
            exact ⟨[b], front, rfl, whole_singleton hbudget (Or.inl hb), rfl⟩
          · rw [if_neg hb]
            cases budget with
            | zero =>
                left
                exact ⟨[b], front, rfl, whole_singleton hbudget (Or.inr rfl),
                  rfl⟩
            | succ budget =>
                rcases ih (stored ++ [b]) tail (Nat.succ_pos budget) with
                  ⟨piece, later, hfront, hwhole, hline⟩ | ⟨hfree, hshort, hline⟩
                · left
                  refine ⟨b :: piece, later, ?_, hwhole.cons hb, ?_⟩
                  · rw [hfront]
                    rfl
                  · rw [hline]
                    simp
                · right
                  refine ⟨?_, Nat.succ_lt_succ hshort, ?_⟩
                  · intro hmem
                    rcases List.mem_cons.mp hmem with heq | hmem
                    · exact hb heq.symm
                    · exact hfree hmem
                  · rw [hline]
                    simp

/-- The loop in terms of the stream: one line, and then the rest. -/
theorem receiveLoop_step (rio : Rio) (input : List ReadResult) :
    (exists bs rio' rest, bs ≠ [] ∧
      lineOf (MAXLINE - 1) [] (rio.stream input) =
        (.line bs, rio'.stream rest) ∧
      receiveLoop rio input =
        (stringOf bs ++ (receiveLoop rio' rest).1,
          (receiveLoop rio' rest).2)) ∨
    (exists result rest, (forall bs, bs ≠ [] -> result ≠ .line bs) ∧
      lineOf (MAXLINE - 1) [] (rio.stream input) = (result, rest) ∧
      receiveLoop rio input = ([], endingOf result)) := by
  rcases rioReadlineb_stream rio MAXLINE input with
    ⟨result, rio', rest, hread, _, hline⟩
  by_cases hsome : exists bs, bs ≠ [] ∧ result = .line bs
  · rcases hsome with ⟨bs, hne, rfl⟩
    exact Or.inl ⟨bs, rio', rest, hne, hline, receiveLoop_line hne hread⟩
  · right
    refine ⟨result, _, fun bs hne h => hsome ⟨bs, hne, h⟩, hline, ?_⟩
    by_cases hempty : result = .line []
    · rw [hempty] at hread ⊢
      rw [receiveLoop]
      split
      all_goals
        rename_i heq
        cases hread.symm.trans heq
      rfl
    · apply receiveLoop_end _ hread
      intro bs hbs
      cases bs with
      | nil => exact hempty hbs
      | cons b bs => exact hsome ⟨_, List.cons_ne_nil b bs, hbs⟩

/-- What the loop prints of the bytes in front of an end, an error or a gap. -/
structure Prints (rio : Rio) (input : List ReadResult) (front : List Byte)
    (tail : List Arrival) (pieces : List (List Byte))
    (unfinished : List Byte) : Prop where
  cut : front = pieces.flatten ++ unfinished
  whole : forall piece, piece ∈ pieces -> Whole (MAXLINE - 1) piece
  single : newline ∉ unfinished
  short : unfinished.length < MAXLINE - 1
  waiting : tail = [] ->
    receiveLoop rio input = (pieces.flatMap stringOf, .stopped .blocked)
  failing : forall later, tail = .error :: later ->
    receiveLoop rio input = (pieces.flatMap stringOf, .stopped .exited)
  closed : forall later, tail = .eof :: .eof :: later ->
    receiveLoop rio input =
      (pieces.flatMap stringOf ++ stringOf unfinished, .closed)

theorem receiveLoop_unfinished {rio : Rio} {input : List ReadResult}
    {front : List Byte} {tail : List Arrival} (hfree : newline ∉ front)
    (hshort : front.length < MAXLINE - 1)
    (hline : lineOf (MAXLINE - 1) [] (rio.stream input) =
      lineOf (MAXLINE - 1 - front.length) front tail) :
    Prints rio input front tail [] front := by
  have hbudget : exists n, MAXLINE - 1 - front.length = n + 1 :=
    ⟨MAXLINE - 1 - front.length - 1, by lia⟩
  rcases hbudget with ⟨n, hn⟩
  rw [hn] at hline
  -- a call that returns nothing decides how the loop ends
  have hend : forall {result : LineResult} {rest : List Arrival},
      (forall bs, result ≠ .line bs) ->
      lineOf (n + 1) front tail = (result, rest) ->
        receiveLoop rio input = ([], endingOf result) := by
    intro result rest hnone hresult
    rw [hresult] at hline
    rcases receiveLoop_step rio input with
      ⟨bs, rio', rest', _, hstep, _⟩ | ⟨other, rest', _, hstep, hloop⟩
    · cases hline.symm.trans hstep
      exact absurd rfl (hnone bs)
    · cases hline.symm.trans hstep
      exact hloop
  constructor
  · rfl
  · intro piece hpiece
    cases hpiece
  · exact hfree
  · exact hshort
  · rintro rfl
    exact @hend .blocked _ (by intro bs h; cases h) rfl
  · rintro later rfl
    exact @hend .error _ (by intro bs h; cases h) rfl
  · rintro later rfl
    by_cases hnil : front = []
    · have heof : lineOf (n + 1) front (.eof :: .eof :: later) =
          (.eof, .eof :: later) := by
        rw [lineOf, if_pos hnil]
      rw [@hend .eof _ (by intro bs h; cases h) heof, hnil]
      rfl
    · rw [lineOf, if_neg hnil] at hline
      rcases receiveLoop_step rio input with
        ⟨bs, rio', rest', hne, hstep, hloop⟩ | ⟨other, rest', hnone, hstep, _⟩
      · rcases Prod.mk.inj (hline.symm.trans hstep) with ⟨hbs, hrest⟩
        cases hbs
        rw [hloop]
        -- the next call finds the end again
        have hclosed : receiveLoop rio' rest' = ([], .closed) := by
          rcases receiveLoop_step rio' rest' with
            ⟨bs, _, _, _, hagain, _⟩ | ⟨other, _, _, hagain, hloop'⟩
          · rw [← hrest] at hagain
            cases hagain
          · rw [← hrest] at hagain
            cases hagain
            exact hloop'
        rw [hclosed]
        simp
      · cases hline.symm.trans hstep
        exact absurd rfl (hnone front hnil)

theorem Prints.cons {rio rio' : Rio} {input rest : List ReadResult}
    {piece front unfinished : List Byte} {tail : List Arrival}
    {pieces : List (List Byte)} (hwhole : Whole (MAXLINE - 1) piece)
    (hloop : receiveLoop rio input =
      (stringOf piece ++ (receiveLoop rio' rest).1, (receiveLoop rio' rest).2))
    (h : Prints rio' rest front tail pieces unfinished) :
    Prints rio input (piece ++ front) tail (piece :: pieces) unfinished := by
  constructor
  · rw [h.cut, List.flatten_cons, List.append_assoc]
  · intro other hother
    rcases List.mem_cons.mp hother with rfl | hother
    · exact hwhole
    · exact h.whole other hother
  · exact h.single
  · exact h.short
  · intro htail
    rw [hloop, h.waiting htail]
    rfl
  · intro later htail
    rw [hloop, h.failing later htail]
    rfl
  · intro later htail
    rw [hloop, h.closed later htail]
    simp

/-- Step by step the loop prints the pieces of the bytes in front. -/
theorem receiveLoop_prints :
    forall (rio : Rio) (input : List ReadResult) (front : List Byte)
      (tail : List Arrival),
      rio.stream input = front.map Arrival.byte ++ tail ->
        exists pieces unfinished,
          Prints rio input front tail pieces unfinished := by
  intro rio input front
  induction hlength : front.length using Nat.strongRecOn
    generalizing rio input front with
  | ind length ih =>
      subst hlength
      intro tail hstream
      rcases @lineOf_front front [] (MAXLINE - 1) tail (by decide) with
        ⟨piece, later, hfront, hwhole, hline⟩ | ⟨hfree, hshort, hline⟩
      · rw [← hstream, List.nil_append] at hline
        rcases receiveLoop_step rio input with
          ⟨bs, rio', rest, _, hstep, hloop⟩ | ⟨other, rest, hnone, hstep, _⟩
        · rcases Prod.mk.inj (hstep.symm.trans hline) with ⟨hbs, hrest⟩
          cases hbs
          have hshorter : later.length < front.length := by
            have hpos := List.length_pos_iff.mpr hwhole.nonEmpty
            rw [hfront, List.length_append]
            lia
          rcases ih later.length hshorter rio' rest later rfl tail hrest with
            ⟨pieces, unfinished, hprints⟩
          rw [hfront]
          exact ⟨_, _, hprints.cons hwhole hloop⟩
        · cases hline.symm.trans hstep
          exact absurd rfl (hnone piece hwhole.nonEmpty)
      · rw [← hstream, List.nil_append] at hline
        exact ⟨[], front, receiveLoop_unfinished hfree hshort hline⟩

theorem flatMap_stringOf {pieces : List (List Byte)}
    (hfree : NulFree pieces.flatten) :
    pieces.flatMap stringOf = pieces.flatten := by
  rw [List.flatMap_def, List.map_congr_left, List.map_id]
  intro piece hpiece
  apply stringOf_of_nulFree
  intro b hb
  exact hfree b (List.mem_flatten.mpr ⟨piece, hpiece, hb⟩)

theorem Prints.nulFree {rio : Rio} {input : List ReadResult}
    {front unfinished : List Byte} {tail : List Arrival}
    {pieces : List (List Byte)}
    (h : Prints rio input front tail pieces unfinished)
    (hfree : NulFree front) {later : List Arrival}
    (htail : tail = .eof :: .eof :: later) :
    receiveLoop rio input = (front, .closed) := by
  rw [h.cut] at hfree
  rcases nulFree_append.mp hfree with ⟨hpieces, hunfinished⟩
  rw [h.closed later htail, flatMap_stringOf hpieces,
    stringOf_of_nulFree hunfinished, h.cut]

theorem exists_front (stream : List Arrival) :
    exists (front : List Byte) (tail : List Arrival),
      stream = front.map Arrival.byte ++ tail ∧
        forall b later, tail ≠ .byte b :: later := by
  induction stream with
  | nil =>
      refine ⟨[], [], rfl, ?_⟩
      intro b later h
      cases h
  | cons arrival rest ih =>
      cases arrival with
      | byte b =>
          rcases ih with ⟨front, tail, hrest, htail⟩
          exact ⟨b :: front, tail, by rw [hrest]; rfl, htail⟩
      | eof =>
          refine ⟨[], .eof :: rest, rfl, ?_⟩
          intro b later h
          cases h
      | error =>
          refine ⟨[], .error :: rest, rfl, ?_⟩
          intro b later h
          cases h

/--
What is printed depends on the stream alone: its lines in order, each up to a
terminator in it, and the unfinished last one only when the broker closes.  A
text without terminators comes out as it was sent.
-/
theorem receiveLoop_stream (rio : Rio) (input : List ReadResult) :
    exists front tail pieces unfinished,
      rio.stream input = front.map Arrival.byte ++ tail ∧
        (forall b later, tail ≠ .byte b :: later) ∧
        Prints rio input front tail pieces unfinished ∧
        (NulFree front -> forall later, tail = .eof :: .eof :: later ->
          receiveLoop rio input = (front, .closed)) := by
  rcases exists_front (rio.stream input) with ⟨front, tail, hstream, htail⟩
  rcases receiveLoop_prints rio input front tail hstream with
    ⟨pieces, unfinished, hprints⟩
  refine ⟨front, tail, pieces, unfinished, hstream, htail, hprints, ?_⟩
  intro hfree later hlater
  exact hprints.nulFree hfree hlater

end Subscriber
end MQTTv1
