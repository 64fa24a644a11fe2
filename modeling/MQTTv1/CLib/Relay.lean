import Mathlib.Data.List.Basic
import Mathlib.Logic.Function.Basic

/-!
# Relays

Writers take numbered items from sources and write the pieces of each item, one
by one, to a sink that other writers may share.  The items arrive whole and in
order if a writer that writes to a sink finds no other one within an item for
that sink, and begins an item only when nobody holds an earlier one.
-/

namespace MQTTv1
namespace CLib

structure Held (src snk byte : Type) where
  source : src
  sink : snk
  number : Nat
  block : List (List byte)
  /-- The pieces that are still to be written. -/
  pending : List (List byte)

structure Block (src byte : Type) where
  source : src
  number : Nat
  pieces : List (List byte)

structure Relay (src snk byte : Type) where
  held : Nat -> Option (Held src snk byte)
  taken : src -> Nat
  sent : snk -> List byte

def contents (blocks : List (Block src byte)) : List byte :=
  (blocks.map fun b => b.pieces.flatten).flatten

theorem contents_concat (blocks : List (Block src byte)) (b : Block src byte) :
    contents (blocks ++ [b]) = contents blocks ++ b.pieces.flatten := by
  simp [contents]

namespace Held

def Open (h : Held src snk byte) : Prop := h.pending ≠ []

def Begun (h : Held src snk byte) : Prop := h.pending.length < h.block.length

def toBlock (h : Held src snk byte) : Block src byte where
  source := h.source
  number := h.number
  pieces := h.block

theorem pending_eq {h : Held src snk byte} (hsuffix : h.pending <:+ h.block)
    (hfresh : ¬ h.Begun) : h.pending = h.block := by
  apply hsuffix.eq_of_length
  have hle := hsuffix.length_le
  unfold Begun at hfresh
  lia

end Held

namespace Relay

def take [DecidableEq src] (r : Relay src snk byte) (t : Nat) (p : src) (d : snk)
    (block : List (List byte)) : Relay src snk byte where
  held := Function.update r.held t
    (some
      { source := p, sink := d, number := r.taken p, block := block,
        pending := block })
  taken := Function.update r.taken p (r.taken p + 1)
  sent := r.sent

def put [DecidableEq snk] (r : Relay src snk byte) (t : Nat) (h : Held src snk byte)
    (buf : List byte) (rest : List (List byte)) : Relay src snk byte where
  held := Function.update r.held t (some { h with pending := rest })
  taken := r.taken
  sent := Function.update r.sent h.sink (r.sent h.sink ++ buf)

def drop (r : Relay src snk byte) (t : Nat) : Relay src snk byte where
  held := Function.update r.held t none
  taken := r.taken
  sent := r.sent

/-- Writer `t`, which holds `h`, may write its next piece. -/
def Turn (r : Relay src snk byte) (t : Nat) (h : Held src snk byte) : Prop :=
  forall u other, u ≠ t -> r.held u = some other -> other.Open ->
    other.sink = h.sink ->
      ¬ other.Begun ∧
        (h.Begun ∨ (other.source = h.source -> h.number < other.number))

/-!
# What a sink has received
-/

/--
The sink has received the blocks in this order, all but the pieces that the
writer of the last one still holds.
-/
structure Log (Legit : src -> snk -> Nat -> List (List byte) -> Prop)
    (r : Relay src snk byte) (d : snk) (blocks : List (Block src byte)) :
    Prop where
  legit : forall b, b ∈ blocks -> Legit b.source d b.number b.pieces
  taken : forall b, b ∈ blocks -> b.number < r.taken b.source
  ordered : blocks.Pairwise fun b b' =>
    b.source = b'.source -> b.number < b'.number
  waiting : forall t h, r.held t = some h -> h.sink = d -> h.Open ->
    ¬ h.Begun -> forall b, b ∈ blocks -> b.source = h.source ->
      b.number < h.number
  quiet : (forall t h, r.held t = some h -> h.sink = d -> h.Open ->
    ¬ h.Begun) -> r.sent d = contents blocks
  within : forall t h, r.held t = some h -> h.sink = d -> h.Open -> h.Begun ->
    r.sent d ++ h.pending.flatten = contents blocks ∧
      exists earlier, blocks = earlier ++ [h.toBlock]

/-- The invariant of a relay whose writers wait for their turn. -/
structure Ordered (Legit : src -> snk -> Nat -> List (List byte) -> Prop)
    (r : Relay src snk byte) : Prop where
  legit : forall t h, r.held t = some h ->
    Legit h.source h.sink h.number h.block
  taken : forall t h, r.held t = some h -> h.number < r.taken h.source
  suffix : forall t h, r.held t = some h -> h.pending <:+ h.block
  logs : forall d, exists blocks, r.Log Legit d blocks

variable {Legit : src -> snk -> Nat -> List (List byte) -> Prop}
variable {r r' : Relay src snk byte}

theorem ordered_empty (hheld : forall t, r.held t = none)
    (hsent : forall d, r.sent d = []) : r.Ordered Legit := by
  have hnone : forall t h, r.held t = some h -> False := by
    intro t h hh
    rw [hheld t] at hh
    cases hh
  constructor
  · intro t h hh
    exact (hnone t h hh).elim
  · intro t h hh
    exact (hnone t h hh).elim
  · intro t h hh
    exact (hnone t h hh).elim
  · intro d
    refine ⟨[], by simp, by simp, List.Pairwise.nil, by simp, ?_, ?_⟩
    · intro _
      exact hsent d
    · intro t h hh
      exact (hnone t h hh).elim

/-- A step that writes nothing to the sink keeps its log. -/
theorem Log.frame {d : snk} {blocks : List (Block src byte)}
    (hlog : r.Log Legit d blocks) (hsent : r'.sent d = r.sent d)
    (htaken : forall p, r.taken p ≤ r'.taken p)
    (hheld : forall u other, r'.held u = some other -> other.sink = d ->
      other.Open -> r.held u = some other ∨
        (¬ other.Begun ∧ r.taken other.source ≤ other.number))
    (hback : forall u other, r.held u = some other -> other.sink = d ->
      other.Open -> r'.held u = some other) :
    r'.Log Legit d blocks := by
  constructor
  · exact hlog.legit
  · intro b hb
    exact Nat.lt_of_lt_of_le (hlog.taken b hb) (htaken b.source)
  · exact hlog.ordered
  · intro u other hother hsink hopen hfresh b hb hsource
    rcases hheld u other hother hsink hopen with hold | ⟨_, hnew⟩
    · exact hlog.waiting u other hold hsink hopen hfresh b hb hsource
    · rw [← hsource] at hnew
      exact Nat.lt_of_lt_of_le (hlog.taken b hb) hnew
  · intro hquiet
    rw [hsent]
    apply hlog.quiet
    intro u other hother hsink hopen
    exact hquiet u other (hback u other hother hsink hopen) hsink hopen
  · intro u other hother hsink hopen hbegun
    rw [hsent]
    rcases hheld u other hother hsink hopen with hold | ⟨hfresh, _⟩
    · exact hlog.within u other hold hsink hopen hbegun
    · exact absurd hbegun hfresh

/-!
# Steps
-/

theorem Ordered.take [DecidableEq src] (hr : r.Ordered Legit) {t : Nat}
    (p : src) (d : snk) (block : List (List byte)) (hfree : r.held t = none)
    (hlegit : Legit p d (r.taken p) block) :
    (r.take t p d block).Ordered Legit := by
  have hgrow : forall q, r.taken q ≤ (r.take t p d block).taken q := by
    intro q
    show r.taken q ≤ Function.update r.taken p _ q
    rw [Function.update_apply]
    split
    · rename_i hq
      rw [hq]
      exact Nat.le_succ _
    · exact Nat.le_refl _
  have hcases : forall u other, (r.take t p d block).held u = some other ->
      (u = t ∧ other = ⟨p, d, r.taken p, block, block⟩) ∨
        r.held u = some other := by
    intro u other hother
    change Function.update r.held t _ u = some other at hother
    rw [Function.update_apply] at hother
    split at hother
    · cases hother
      exact Or.inl ⟨‹_›, rfl⟩
    · exact Or.inr hother
  constructor
  · intro u other hother
    rcases hcases u other hother with ⟨_, rfl⟩ | hold
    · exact hlegit
    · exact hr.legit u other hold
  · intro u other hother
    rcases hcases u other hother with ⟨_, rfl⟩ | hold
    · show r.taken p < Function.update r.taken p _ p
      rw [Function.update_self]
      exact Nat.lt_succ_self _
    · exact Nat.lt_of_lt_of_le (hr.taken u other hold) (hgrow _)
  · intro u other hother
    rcases hcases u other hother with ⟨_, rfl⟩ | hold
    · exact List.suffix_refl _
    · exact hr.suffix u other hold
  · intro d'
    rcases hr.logs d' with ⟨blocks, hlog⟩
    refine ⟨blocks, hlog.frame rfl hgrow ?_ ?_⟩
    · intro u other hother _ _
      rcases hcases u other hother with ⟨_, rfl⟩ | hold
      · exact Or.inr ⟨Nat.lt_irrefl _, Nat.le_refl _⟩
      · exact Or.inl hold
    · intro u other hother _ _
      show Function.update r.held t _ u = some other
      rw [Function.update_of_ne, hother]
      intro hut
      rw [hut, hfree] at hother
      cases hother

theorem Ordered.drop (hr : r.Ordered Legit) {t : Nat} {h : Held src snk byte}
    (hheld : r.held t = some h) (hdone : h.pending = []) :
    (r.drop t).Ordered Legit := by
  have hcases : forall u other, (r.drop t).held u = some other ->
      r.held u = some other := by
    intro u other hother
    change Function.update r.held t none u = some other at hother
    rw [Function.update_apply] at hother
    split at hother
    · cases hother
    · exact hother
  constructor
  · intro u other hother
    exact hr.legit u other (hcases u other hother)
  · intro u other hother
    exact hr.taken u other (hcases u other hother)
  · intro u other hother
    exact hr.suffix u other (hcases u other hother)
  · intro d
    rcases hr.logs d with ⟨blocks, hlog⟩
    refine ⟨blocks, hlog.frame rfl (fun p => Nat.le_refl _) ?_ ?_⟩
    · intro u other hother _ _
      exact Or.inl (hcases u other hother)
    · intro u other hother _ hopen
      show Function.update r.held t none u = some other
      rw [Function.update_of_ne, hother]
      intro hut
      rw [hut, hheld] at hother
      cases hother
      exact hopen hdone

section

variable [DecidableEq snk] {t : Nat} {h : Held src snk byte} {buf : List byte}
variable {rest : List (List byte)}

theorem put_held_cases {u : Nat} {other : Held src snk byte}
    (hother : (r.put t h buf rest).held u = some other) :
    (u = t ∧ other = { h with pending := rest }) ∨
      (u ≠ t ∧ r.held u = some other) := by
  change Function.update r.held t _ u = some other at hother
  rw [Function.update_apply] at hother
  split at hother
  · cases hother
    exact Or.inl ⟨‹_›, rfl⟩
  · exact Or.inr ⟨‹_›, hother⟩

theorem put_held_self :
    (r.put t h buf rest).held t = some { h with pending := rest } :=
  Function.update_self ..

theorem put_sent_self :
    (r.put t h buf rest).sent h.sink = r.sent h.sink ++ buf :=
  Function.update_self ..

/-- After its turn the writer is the only one within a block, if it still is. -/
theorem Log.put {blocks : List (Block src byte)}
    (hlegit : forall b, b ∈ blocks -> Legit b.source h.sink b.number b.pieces)
    (htaken : forall b, b ∈ blocks -> b.number < r.taken b.source)
    (hordered : blocks.Pairwise fun b b' =>
      b.source = b'.source -> b.number < b'.number)
    (hturn : r.Turn t h) (hbegun : rest.length < h.block.length)
    (hwaiting : forall u other, u ≠ t -> r.held u = some other ->
      other.sink = h.sink -> other.Open -> ¬ other.Begun ->
        forall b, b ∈ blocks -> b.source = other.source ->
          b.number < other.number)
    (hsent : r.sent h.sink ++ buf ++ rest.flatten = contents blocks)
    (hlast : exists earlier, blocks = earlier ++ [h.toBlock]) :
    (r.put t h buf rest).Log Legit h.sink blocks := by
  constructor
  · exact hlegit
  · exact htaken
  · exact hordered
  · intro u other hother hsink hopen hfresh
    rcases put_held_cases hother with ⟨_, rfl⟩ | ⟨hut, hold⟩
    · exact absurd hbegun hfresh
    · exact hwaiting u other hut hold hsink hopen hfresh
  · intro hquiet
    have hdone : rest = [] := by
      by_contra hrest
      exact hquiet t _ put_held_self rfl hrest hbegun
    rw [hdone, List.flatten_nil, List.append_nil] at hsent
    rw [put_sent_self]
    exact hsent
  · intro u other hother hsink hopen hwithin
    rcases put_held_cases hother with ⟨_, rfl⟩ | ⟨hut, hold⟩
    · rw [put_sent_self]
      exact ⟨hsent, hlast⟩
    · exact absurd hwithin (hturn u other hut hold hopen hsink).left

theorem Ordered.put_log (hr : r.Ordered Legit) (hheld : r.held t = some h)
    (hpending : h.pending = buf :: rest) (hturn : r.Turn t h) :
    exists blocks, (r.put t h buf rest).Log Legit h.sink blocks := by
  rcases hr.logs h.sink with ⟨blocks, hlog⟩
  have hopen : h.Open := by
    unfold Held.Open
    rw [hpending]
    exact List.cons_ne_nil buf rest
  have hlength : rest.length < h.block.length := by
    have hle := (hr.suffix t h hheld).length_le
    rw [hpending] at hle
    exact hle
  by_cases hbegun : h.Begun
  · -- the next piece of the last block
    rcases hlog.within t h hheld rfl hopen hbegun with ⟨hsent, hlast⟩
    refine ⟨blocks, Log.put hlog.legit hlog.taken hlog.ordered hturn hlength
      ?_ ?_ hlast⟩
    · intro u other _ hother hsink hopen' hfresh
      exact hlog.waiting u other hother hsink hopen' hfresh
    · rw [hpending, List.flatten_cons, ← List.append_assoc] at hsent
      exact hsent
  · -- the first piece of a new block
    have hblock := Held.pending_eq (hr.suffix t h hheld) hbegun
    have hquiet : r.sent h.sink = contents blocks := by
      apply hlog.quiet
      intro u other hother hsink hopen'
      by_cases hut : u = t
      · rw [hut, hheld] at hother
        cases hother
        exact hbegun
      · exact (hturn u other hut hother hopen' hsink).left
    refine ⟨blocks ++ [h.toBlock], Log.put ?_ ?_ ?_ hturn hlength ?_ ?_
      ⟨blocks, rfl⟩⟩
    · intro b hb
      rcases List.mem_append.mp hb with hold | hnew
      · exact hlog.legit b hold
      · cases List.mem_singleton.mp hnew
        exact hr.legit t h hheld
    · intro b hb
      rcases List.mem_append.mp hb with hold | hnew
      · exact hlog.taken b hold
      · cases List.mem_singleton.mp hnew
        exact hr.taken t h hheld
    · refine List.pairwise_append.mpr
        ⟨hlog.ordered, List.pairwise_singleton _ _, ?_⟩
      intro b hb b' hb' hsource
      cases List.mem_singleton.mp hb'
      exact hlog.waiting t h hheld rfl hopen hbegun b hb hsource
    · intro u other hut hother hsink hopen' hfresh b hb hsource
      rcases List.mem_append.mp hb with hold | hnew
      · exact hlog.waiting u other hother hsink hopen' hfresh b hold hsource
      · cases List.mem_singleton.mp hnew
        rcases (hturn u other hut hother hopen' hsink).right with hin | hlater
        · exact absurd hin hbegun
        · exact hlater hsource.symm
    · rw [contents_concat, hquiet]
      show contents blocks ++ buf ++ rest.flatten =
        contents blocks ++ h.block.flatten
      rw [← hblock, hpending, List.flatten_cons, List.append_assoc]

theorem Ordered.put (hr : r.Ordered Legit) (hheld : r.held t = some h)
    (hpending : h.pending = buf :: rest) (hturn : r.Turn t h) :
    (r.put t h buf rest).Ordered Legit := by
  constructor
  · intro u other hother
    rcases put_held_cases hother with ⟨_, rfl⟩ | ⟨_, hold⟩
    · exact hr.legit t h hheld
    · exact hr.legit u other hold
  · intro u other hother
    rcases put_held_cases hother with ⟨_, rfl⟩ | ⟨_, hold⟩
    · exact hr.taken t h hheld
    · exact hr.taken u other hold
  · intro u other hother
    rcases put_held_cases hother with ⟨_, rfl⟩ | ⟨_, hold⟩
    · have hsuffix := hr.suffix t h hheld
      rw [hpending] at hsuffix
      exact (List.suffix_cons buf rest).trans hsuffix
    · exact hr.suffix u other hold
  · intro d
    by_cases hd : d = h.sink
    · rw [hd]
      exact hr.put_log hheld hpending hturn
    · rcases hr.logs d with ⟨blocks, hlog⟩
      refine ⟨blocks, hlog.frame (Function.update_of_ne hd _ _)
        (fun p => Nat.le_refl _) ?_ ?_⟩
      · intro u other hother hsink _
        rcases put_held_cases hother with ⟨_, rfl⟩ | ⟨_, hold⟩
        · exact absurd hsink.symm hd
        · exact Or.inl hold
      · intro u other hother hsink _
        show Function.update r.held t _ u = some other
        rw [Function.update_of_ne, hother]
        intro hut
        rw [hut, hheld] at hother
        cases hother
        exact hd hsink.symm

end

end Relay

end CLib
end MQTTv1
