import Mathlib.Data.List.Basic
import Mathlib.Logic.Function.Basic

/-!
# Ledgers

Items are taken from sources and their pieces given to sinks, one entry after the
other.  The entries say what has become of every source and of every sink.
-/

namespace MQTTv1
namespace CLib

/-- An item, where it was taken from, and what was made of it. -/
structure Entry (src snk item piece : Type) where
  source : src
  item : item
  sink : snk
  pieces : List piece

variable {src snk item piece stream : Type}

def takeAll (take : stream -> Option (item × stream)) :
    Nat -> stream -> Option (List item × stream)
  | 0, s => some ([], s)
  | count + 1, s => do
      let (first, s) <- take s
      let (others, s) <- takeAll take count s
      return (first :: others, s)

theorem takeAll_succ {take : stream -> Option (item × stream)}
    {s s' s'' : stream} {i : item} {is : List item} {count : Nat}
    (h : take s = some (i, s'))
    (h' : takeAll take count s' = some (is, s'')) :
    takeAll take (count + 1) s = some (i :: is, s'') := by
  simp [takeAll, h, h']

theorem takeAll_add {take : stream -> Option (item × stream)}
    {s' s'' : stream} {js : List item} {n : Nat} :
    forall {m : Nat} {s : stream} {is : List item},
      takeAll take m s = some (is, s') -> takeAll take n s' = some (js, s'') ->
        takeAll take (m + n) s = some (is ++ js, s'') := by
  intro m
  induction m with
  | zero =>
      intro s is h h'
      cases h
      rw [Nat.zero_add]
      exact h'
  | succ m ih =>
      intro s is h h'
      rcases Option.bind_eq_some_iff.mp h with ⟨⟨i, mid⟩, hfirst, h⟩
      rcases Option.bind_eq_some_iff.mp h with ⟨⟨others, s1⟩, hothers, h⟩
      cases h
      rw [Nat.add_right_comm]
      exact takeAll_succ hfirst (ih hothers h')

section

variable [DecidableEq src] [DecidableEq snk]

def takenFrom (entries : List (Entry src snk item piece)) (p : src) :
    List item :=
  (entries.filter fun e => e.source = p).map Entry.item

def givenTo (entries : List (Entry src snk item piece)) (d : snk) :
    List piece :=
  (entries.filter fun e => e.sink = d).flatMap Entry.pieces

/--
Every source has lost the items that the entries name, in their order, and every
sink has got the pieces of its own entries.
-/
structure Balanced (take : src -> stream -> Option (item × stream))
    (entries : List (Entry src snk item piece)) (inputs inputs' : src -> stream)
    (outputs outputs' : snk -> List piece) : Prop where
  taken : forall p,
    takeAll (take p) (takenFrom entries p).length (inputs p) =
      some (takenFrom entries p, inputs' p)
  given : forall d, outputs' d = outputs d ++ givenTo entries d

variable {take : src -> stream -> Option (item × stream)}
variable {entries later : List (Entry src snk item piece)}
variable {inputs inputs' inputs'' : src -> stream}
variable {outputs outputs' outputs'' : snk -> List piece}

theorem balanced_nil : Balanced take ([] : List (Entry src snk item piece))
    inputs inputs outputs outputs where
  taken := fun _ => rfl
  given := fun _ => (List.append_nil _).symm

theorem Balanced.append
    (h : Balanced take entries inputs inputs' outputs outputs')
    (h' : Balanced take later inputs' inputs'' outputs' outputs'') :
    Balanced take (entries ++ later) inputs inputs'' outputs outputs'' where
  taken := by
    intro p
    have hsplit : takenFrom (entries ++ later) p =
        takenFrom entries p ++ takenFrom later p := by
      simp [takenFrom]
    rw [hsplit, List.length_append]
    exact takeAll_add (h.taken p) (h'.taken p)
  given := by
    intro d
    rw [h'.given d, h.given d, List.append_assoc]
    simp [givenTo]

theorem balanced_single {e : Entry src snk item piece} {s : stream}
    (htake : take e.source (inputs e.source) = some (e.item, s)) :
    Balanced take [e] inputs (Function.update inputs e.source s) outputs
      (Function.update outputs e.sink (outputs e.sink ++ e.pieces)) where
  taken := by
    intro p
    by_cases hp : e.source = p
    · subst hp
      have hone : takenFrom [e] e.source = [e.item] := by
        simp [takenFrom]
      rw [hone, Function.update_self]
      exact takeAll_succ htake rfl
    · have hnone : takenFrom [e] p = [] := by
        simp [takenFrom, hp]
      rw [hnone, Function.update_of_ne (Ne.symm hp)]
      rfl
  given := by
    intro d
    by_cases hd : e.sink = d
    · subst hd
      rw [Function.update_self]
      simp [givenTo]
    · rw [Function.update_of_ne (Ne.symm hd)]
      simp [givenTo, hd]

end

end CLib
end MQTTv1
