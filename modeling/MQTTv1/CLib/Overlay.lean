import Mathlib.Data.List.Basic
import Mathlib.Order.Basic

/-!
# Files that are written over

A file that is opened without truncation is written from its start, and what it
held behind the new bytes stays.  Written over and over it shows at every
position the newest text that reaches so far.
-/

namespace MQTTv1
namespace CLib

variable {byte : Type}

/-- A file `old` after `new` was written to it at offset 0. -/
def overwrite (old new : List byte) : List byte :=
  new ++ old.drop new.length

def layered (old : List byte) (news : List (List byte)) : List byte :=
  news.foldl overwrite old

@[simp] theorem layered_cons (old new : List byte) (news : List (List byte)) :
    layered old (new :: news) = layered (overwrite old new) news :=
  rfl

/-- The first of the texts that has a byte at a position. -/
def topmost (texts : List (List byte)) (k : Nat) : Option byte :=
  texts.findSome? fun text => text[k]?

theorem topmost_append (texts older : List (List byte)) (k : Nat) :
    topmost (texts ++ older) k = (topmost texts k).or (topmost older k) :=
  List.findSome?_append

theorem topmost_singleton (text : List byte) (k : Nat) :
    topmost [text] k = text[k]? := by
  unfold topmost
  cases h : text[k]? <;> simp [h]

theorem getElem?_overwrite (old new : List byte) (k : Nat) :
    (overwrite old new)[k]? = (new[k]?).or old[k]? := by
  unfold overwrite
  rcases Nat.lt_or_ge k new.length with hlt | hge
  · rw [List.getElem?_append_left hlt, List.getElem?_eq_getElem hlt]
    rfl
  · rw [List.getElem?_append_right hge, List.getElem?_eq_none hge,
      List.getElem?_drop, Nat.add_sub_cancel' hge]
    rfl

theorem getElem?_layered (news : List (List byte)) (k : Nat) :
    forall old : List byte,
      (layered old news)[k]? = topmost (news.reverse ++ [old]) k := by
  induction news with
  | nil =>
      intro old
      exact (topmost_singleton old k).symm
  | cons new news ih =>
      intro old
      rw [layered_cons, ih, List.reverse_cons, List.append_assoc,
        topmost_append, topmost_append, topmost_singleton, getElem?_overwrite]
      congr 1
      show _ = topmost ([new] ++ [old]) k
      rw [topmost_append, topmost_singleton, topmost_singleton]

theorem length_overwrite (old new : List byte) :
    (overwrite old new).length = max old.length new.length := by
  simp only [overwrite, List.length_append, List.length_drop]
  lia

/-- A file never shrinks: it is as long as the longest text has been. -/
theorem length_layered (news : List (List byte)) :
    forall old : List byte,
      (layered old news).length =
        (news.map List.length).foldl max old.length := by
  induction news with
  | nil =>
      intro old
      rfl
  | cons new news ih =>
      intro old
      rw [layered_cons, ih, length_overwrite]
      rfl

/-- What lies behind all the texts stays as it was. -/
theorem drop_layered {k : Nat} (news : List (List byte)) :
    forall old : List byte, (forall new, new ∈ news -> new.length ≤ k) ->
      (layered old news).drop k = old.drop k := by
  induction news with
  | nil =>
      intro old _
      rfl
  | cons new news ih =>
      intro old hshort
      rw [layered_cons, ih _ fun later hlater =>
        hshort later (List.mem_cons_of_mem new hlater)]
      have hnew : new.length ≤ k := hshort new List.mem_cons_self
      unfold overwrite
      rw [List.drop_append, List.drop_eq_nil_of_le hnew, List.nil_append,
        List.drop_drop, Nat.add_sub_cancel' hnew]

theorem overwrite_of_length_le {old new : List byte}
    (h : old.length ≤ new.length) : overwrite old new = new := by
  unfold overwrite
  rw [List.drop_eq_nil_of_le h, List.append_nil]

end CLib
end MQTTv1
