import Mathlib.Data.List.Basic

/-!
# Topic filters with wildcards

A topic is a list of levels.  A filter is a list of levels too, two of which are
wildcards: `plus` stands for one arbitrary level and a trailing `hash` for all
the levels that remain.
-/

namespace MQTTv1
namespace TopicFilter

variable {level : Type} (plus hash : level)

def Matches : List level -> List level -> Prop
  | [], topic => topic = []
  | f :: fs, topic =>
      (f = hash ∧ fs = []) ∨
        match topic with
        | [] => False
        | t :: ts => (f = plus ∨ f = t) ∧ Matches fs ts

instance [DecidableEq level] :
    forall filter topic : List level, Decidable (Matches plus hash filter topic)
  | [], topic => inferInstanceAs (Decidable (topic = []))
  | f :: fs, [] => inferInstanceAs (Decidable ((f = hash ∧ fs = []) ∨ False))
  | f :: fs, t :: ts =>
      have : Decidable (Matches plus hash fs ts) :=
        instDecidableMatchesOfDecidableEq fs ts
      inferInstanceAs (Decidable ((f = hash ∧ fs = []) ∨
        ((f = plus ∨ f = t) ∧ Matches plus hash fs ts)))

theorem matches_hash (topic : List level) :
    Matches plus hash [hash] topic := by
  exact Or.inl ⟨rfl, rfl⟩

theorem matches_level (f t : level) :
    Matches plus hash [f] [t] <-> f = hash ∨ f = plus ∨ f = t := by
  simp [Matches]

theorem matches_cons (f g t : level) (fs ts : List level) :
    Matches plus hash (f :: g :: fs) (t :: ts) <->
      (f = plus ∨ f = t) ∧ Matches plus hash (g :: fs) ts := by
  conv_lhs => unfold Matches
  simp

theorem matches_pair (a b x y : level) :
    Matches plus hash [a, b] [x, y] <->
      (a = plus ∨ a = x) ∧ (b = hash ∨ b = plus ∨ b = y) := by
  rw [matches_cons, matches_level]

end TopicFilter
end MQTTv1
