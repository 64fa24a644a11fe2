import MQTTv1.CLib.Runs

/-!
# Counted gates

Threads pass one after the other through a section that a mutex guards.  Inside,
each raises a counter, and from the `threshold`-th time on it posts a permit for
a second semaphore.  Behind the section every thread waits for a permit, so a
thread that has posted one later competes for the permits of all.
-/

namespace MQTTv1
namespace CLib

inductive Phase where
  | outside
  | inside
  /-- Inside, with the counter raised and the permit not yet posted. -/
  | counted
  | leaving
  | waiting
  | admitted
deriving DecidableEq, Repr

namespace Phase

@[simp] def inSection : Phase -> Bool
  | .inside | .counted | .leaving => true
  | _ => false

@[simp] def isInside : Phase -> Bool
  | .inside => true
  | _ => false

@[simp] def isCounted : Phase -> Bool
  | .counted => true
  | _ => false

@[simp] def isAdmitted : Phase -> Bool
  | .admitted => true
  | _ => false

@[simp] def registered : Phase -> Bool
  | .outside | .inside => false
  | _ => true

end Phase

structure Counters where
  mutex : Nat
  permits : Nat
  count : Nat

inductive Moves (threshold : Nat) (c : Counters) :
    Phase -> Phase -> Counters -> Prop
  | enter (hfree : 0 < c.mutex) :
      Moves threshold c .outside .inside { c with mutex := c.mutex - 1 }
  | inside : Moves threshold c .inside .inside c
  | count :
      Moves threshold c .inside .counted { c with count := c.count + 1 }
  | post (hcount : threshold ≤ c.count) :
      Moves threshold c .counted .leaving { c with permits := c.permits + 1 }
  | skip (hcount : ¬ threshold ≤ c.count) :
      Moves threshold c .counted .leaving c
  | leave :
      Moves threshold c .leaving .waiting { c with mutex := c.mutex + 1 }
  | pass (hposted : 0 < c.permits) :
      Moves threshold c .waiting .admitted { c with permits := c.permits - 1 }
  | admitted : Moves threshold c .admitted .admitted c

/--
The counting law.  Between the counter and the post the permit of the thread in
the section is missing from the other two terms.
-/
structure GateLaw (threshold : Nat) (phases : List Phase) (c : Counters) :
    Prop where
  mutex : c.mutex + phases.countP Phase.inSection = 1
  count : phases.countP Phase.registered = c.count
  permits : c.permits + phases.countP Phase.isAdmitted +
      (if threshold ≤ c.count then phases.countP Phase.isCounted else 0) =
    c.count + 1 - threshold

theorem gateLaw_initial {threshold : Nat} (hthreshold : 1 ≤ threshold) :
    GateLaw threshold [] { mutex := 1, permits := 0, count := 0 } where
  mutex := rfl
  count := rfl
  permits := by
    rw [if_neg (by lia)]
    simp only [List.countP_nil]
    lia

theorem ite_le_countP {threads : List thread} {t : Nat} {th : thread}
    (p : thread -> Bool) (hth : threads[t]? = some th) :
    (if p th then 1 else 0) ≤ threads.countP p := by
  split
  · apply List.countP_pos_iff.mpr
    exact ⟨th, List.mem_of_getElem? hth, ‹_›⟩
  · exact Nat.zero_le _

theorem countP_set_of_some {threads : List thread} {t : Nat} {th : thread}
    (p : thread -> Bool) (hth : threads[t]? = some th) (th' : thread) :
    (threads.set t th').countP p + (if p th then 1 else 0) =
      threads.countP p + (if p th' then 1 else 0) := by
  rcases List.getElem?_eq_some_iff.mp hth with ⟨hlt, hget⟩
  have hle := ite_le_countP p hth
  rw [List.countP_set hlt, hget]
  lia

theorem countP_inSection (phases : List Phase) :
    phases.countP Phase.isInside + phases.countP Phase.isCounted ≤
      phases.countP Phase.inSection := by
  induction phases with
  | nil => exact Nat.le_refl _
  | cons p rest ih =>
      simp only [List.countP_cons]
      cases p <;> simp <;> lia

section

variable {threshold : Nat} {phases : List Phase} {c c' : Counters} {t : Nat}
  {p p' : Phase}

theorem GateLaw.append (h : GateLaw threshold phases c) :
    GateLaw threshold (phases ++ [.outside]) c where
  mutex := by simpa using h.mutex
  count := by simpa using h.count
  permits := by simpa using h.permits

/-- Step lemma: every move of every thread keeps the law. -/
theorem GateLaw.move (h : GateLaw threshold phases c)
    (hp : phases[t]? = some p) (hmove : Moves threshold c p p' c') :
    GateLaw threshold (phases.set t p') c' := by
  have hsection := countP_set_of_some Phase.inSection hp p'
  have hregistered := countP_set_of_some Phase.registered hp p'
  have hcounted := countP_set_of_some Phase.isCounted hp p'
  have hadmitted := countP_set_of_some Phase.isAdmitted hp p'
  -- a thread that counts is alone in the section: nobody is about to post
  have hinside := ite_le_countP Phase.isInside hp
  have hsum := countP_inSection phases
  rcases h with ⟨hmutex, hcount, hpermits⟩
  cases hmove with
  | enter hfree | inside | count | post hge | skip hlt | leave | pass hposted
  | admitted =>
      simp only [Phase.inSection, Phase.registered, Phase.isCounted,
        Phase.isAdmitted, Phase.isInside, if_true, if_false,
        Bool.false_eq_true] at *
      constructor
      · lia
      · lia
      · split <;> split at hpermits <;> lia

/-- Nobody is admitted before the counter has reached the threshold. -/
theorem GateLaw.threshold_le (h : GateLaw threshold phases c)
    (hadmitted : 0 < phases.countP Phase.isAdmitted) : threshold ≤ c.count := by
  have hpermits := h.permits
  split at hpermits
  · assumption
  · lia

/-- Between two passages of the section every permit is accounted for. -/
theorem GateLaw.balance (h : GateLaw threshold phases c)
    (hidle : phases.countP Phase.inSection = 0) :
    c.permits + phases.countP Phase.isAdmitted = c.count + 1 - threshold := by
  have hsum := countP_inSection phases
  have hpermits := h.permits
  split at hpermits <;> lia

end

end CLib
end MQTTv1
