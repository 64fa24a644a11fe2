import MQTTv1.CLib.Relay

/-!
# Weaves

What a relay does when its writers do not wait for each other: the pieces of
different items may alternate in a sink.  Every item still has one share, which
says where its pieces go and how many of them have gone.
-/

namespace MQTTv1
namespace CLib

/-- What has become of an item that a writer has taken. -/
structure Share (snk byte : Type) where
  sink : snk
  block : List (List byte)
  written : Nat

/-- A piece in a sink, and the item that it belongs to. -/
structure Strand (src byte : Type) where
  source : src
  number : Nat
  piece : List byte

structure Weave (src snk byte : Type) where
  /-- How many items were taken before the first one for a writer. -/
  skipped : src -> Nat
  shares : src -> Nat -> Option (Share snk byte)
  strands : snk -> List (Strand src byte)

def Strand.isOf [DecidableEq src] (p : src) (k : Nat)
    (strand : Strand src byte) : Bool :=
  decide (strand.source = p ∧ strand.number = k)

namespace Weave

def piecesIn [DecidableEq src] (w : Weave src snk byte) (d : snk) (p : src)
    (k : Nat) : List (List byte) :=
  ((w.strands d).filter (Strand.isOf p k)).map Strand.piece

def gone [DecidableEq snk] (w : Weave src snk byte) (d : snk) (p : src)
    (k : Nat) : List (List byte) :=
  (w.shares p k).elim [] fun share =>
    if share.sink = d then share.block.take share.written else []

def empty : Weave src snk byte where
  skipped := fun _ => 0
  shares := fun _ _ => none
  strands := fun _ => []

section

variable [DecidableEq src] (w : Weave src snk byte)

def skip (p : src) : Weave src snk byte :=
  { w with skipped := Function.update w.skipped p (w.skipped p + 1) }

def setShare (p : src) (k : Nat) (share : Share snk byte) :
    Weave src snk byte :=
  { w with
    shares := fun q n => if q = p ∧ n = k then some share else w.shares q n }

def assign (p : src) (k : Nat) (d : snk) (block : List (List byte)) :
    Weave src snk byte :=
  w.setShare p k { sink := d, block := block, written := 0 }

theorem setShare_cases {p q : src} {k n : Nat} {share other : Share snk byte}
    (h : (w.setShare p k share).shares q n = some other) :
    (q = p ∧ n = k ∧ other = share) ∨
      (¬ (q = p ∧ n = k) ∧ w.shares q n = some other) := by
  change (if q = p ∧ n = k then some share else w.shares q n) = _ at h
  split at h
  · rename_i heq
    cases h
    exact Or.inl ⟨heq.left, heq.right, rfl⟩
  · exact Or.inr ⟨‹_›, h⟩

theorem setShare_self (p : src) (k : Nat) (share : Share snk byte) :
    (w.setShare p k share).shares p k = some share :=
  if_pos ⟨rfl, rfl⟩

theorem setShare_of_ne {p q : src} {k n : Nat} (share : Share snk byte)
    (hne : ¬ (q = p ∧ n = k)) :
    (w.setShare p k share).shares q n = w.shares q n :=
  if_neg hne

variable [DecidableEq snk]

def write (h : Held src snk byte) (buf : List byte) : Weave src snk byte :=
  { w.setShare h.source h.number
      { sink := h.sink, block := h.block,
        written := h.block.length - h.pending.length + 1 } with
    strands := Function.update w.strands h.sink
      (w.strands h.sink ++
        [{ source := h.source, number := h.number, piece := buf }]) }

end

end Weave

/-- The weave accounts for the relay. -/
structure Woven [DecidableEq src] [DecidableEq snk]
    (Legit : src -> snk -> Nat -> List (List byte) -> Prop)
    (r : Relay src snk byte) (w : Weave src snk byte) : Prop where
  /-- Every item that was taken and not skipped has one share. -/
  shared : forall p k,
    (w.shares p k).isSome <-> w.skipped p ≤ k ∧ k < r.taken p
  skipped : forall p, w.skipped p ≤ r.taken p
  legit : forall p k share, w.shares p k = some share ->
    Legit p share.sink k share.block
  suffix : forall t h, r.held t = some h -> h.pending <:+ h.block
  held : forall t h, r.held t = some h ->
    w.shares h.source h.number =
      some
        { sink := h.sink, block := h.block,
          written := h.block.length - h.pending.length }
  /-- An item is in the hands of one writer at most. -/
  alone : forall t u h other, r.held t = some h -> r.held u = some other ->
    other.source = h.source -> other.number = h.number -> u = t
  /-- A share that no writer holds is complete. -/
  finished : forall p k share, w.shares p k = some share ->
    (forall t h, r.held t = some h -> ¬ (h.source = p ∧ h.number = k)) ->
      share.written = share.block.length
  sent : forall d, r.sent d = (w.strands d).flatMap Strand.piece
  /-- The pieces of an item lie in its own sink, once each and in order. -/
  pieces : forall d p k, w.piecesIn d p k = w.gone d p k

section

variable [DecidableEq src] [DecidableEq snk]
variable {Legit Legit' : src -> snk -> Nat -> List (List byte) -> Prop}
variable {r : Relay src snk byte} {w : Weave src snk byte}

theorem woven_empty (hheld : forall t, r.held t = none)
    (htaken : forall p, r.taken p = 0) (hsent : forall d, r.sent d = []) :
    Woven Legit r Weave.empty := by
  have hnone : forall t h, r.held t = some h -> False := by
    intro t h hh
    rw [hheld t] at hh
    cases hh
  constructor
  case shared =>
    intro p k
    rw [htaken p]
    constructor
    · intro h
      cases h
    · rintro ⟨_, hlt⟩
      cases hlt
  case skipped =>
    intro p
    exact Nat.zero_le _
  case legit =>
    intro p k share hshare
    cases hshare
  case suffix =>
    intro t h hh
    exact (hnone t h hh).elim
  case held =>
    intro t h hh
    exact (hnone t h hh).elim
  case alone =>
    intro t u h other hh
    exact (hnone t h hh).elim
  case finished =>
    intro p k share hshare
    cases hshare
  case sent =>
    exact hsent
  case pieces =>
    intro d p k
    rfl

theorem Woven.mono (hw : Woven Legit r w)
    (hle : forall p d k block, Legit p d k block -> Legit' p d k block) :
    Woven Legit' r w :=
  { hw with
    legit := fun p k share hshare =>
      hle p share.sink k share.block (hw.legit p k share hshare) }

theorem Woven.next (hw : Woven Legit r w) (p : src) :
    w.shares p (r.taken p) = none := by
  rw [← Option.not_isSome_iff_eq_none, hw.shared]
  rintro ⟨_, hlt⟩
  exact Nat.lt_irrefl _ hlt

theorem Woven.strand_share (hw : Woven Legit r w) {d : snk}
    {strand : Strand src byte} (hstrand : strand ∈ w.strands d) :
    exists share, w.shares strand.source strand.number = some share ∧
      share.sink = d ∧ strand.piece ∈ share.block := by
  have hmem : strand.piece ∈ w.piecesIn d strand.source strand.number := by
    apply List.mem_map_of_mem
    apply List.mem_filter.mpr
    exact ⟨hstrand, decide_eq_true ⟨rfl, rfl⟩⟩
  rw [hw.pieces, Weave.gone] at hmem
  cases hshare : w.shares strand.source strand.number with
  | none =>
      rw [hshare] at hmem
      cases hmem
  | some share =>
      rw [hshare, Option.elim_some] at hmem
      split at hmem
      · exact ⟨share, rfl, ‹_›, List.mem_of_mem_take hmem⟩
      · cases hmem

/-!
# Steps
-/

/-- An item that is taken for no writer, before all others. -/
theorem Woven.skip (hw : Woven Legit r w) {p : src}
    (hfirst : r.taken p = w.skipped p) :
    Woven Legit
      { r with taken := Function.update r.taken p (r.taken p + 1) }
      (w.skip p) := by
  constructor
  case shared =>
    intro q k
    show (w.shares q k).isSome <->
      Function.update w.skipped p _ q ≤ k ∧ k < Function.update r.taken p _ q
    rw [hw.shared q k, Function.update_apply, Function.update_apply]
    split
    · rename_i hq
      rw [hq]
      lia
    · rfl
  case skipped =>
    intro q
    show Function.update w.skipped p _ q ≤ Function.update r.taken p _ q
    rw [Function.update_apply, Function.update_apply]
    split
    · exact Nat.succ_le_succ (hw.skipped p)
    · exact hw.skipped q
  case legit =>
    exact hw.legit
  case suffix =>
    exact hw.suffix
  case held =>
    exact hw.held
  case alone =>
    exact hw.alone
  case finished =>
    exact hw.finished
  case sent =>
    exact hw.sent
  case pieces =>
    exact hw.pieces

theorem Woven.take (hw : Woven Legit r w) {t : Nat} {p : src} {d : snk}
    {block : List (List byte)} (hfree : r.held t = none)
    (hlegit : Legit p d (r.taken p) block) :
    Woven Legit (r.take t p d block) (w.assign p (r.taken p) d block) := by
  have hcases : forall u other, (r.take t p d block).held u = some other ->
      (u = t ∧ other = ⟨p, d, r.taken p, block, block⟩) ∨
        (u ≠ t ∧ r.held u = some other) := by
    intro u other hother
    change Function.update r.held t _ u = some other at hother
    rw [Function.update_apply] at hother
    split at hother
    · cases hother
      exact Or.inl ⟨‹_›, rfl⟩
    · exact Or.inr ⟨‹_›, hother⟩
  have hkept : forall u other, u ≠ t -> r.held u = some other ->
      (r.take t p d block).held u = some other := by
    intro u other hut hother
    show Function.update r.held t _ u = some other
    rw [Function.update_of_ne hut, hother]
  have hself : (r.take t p d block).held t =
      some ⟨p, d, r.taken p, block, block⟩ :=
    Function.update_self ..
  -- nobody has held the new item before
  have hnew : forall u other, r.held u = some other ->
      ¬ (other.source = p ∧ other.number = r.taken p) := by
    rintro u other hother ⟨rfl, hnumber⟩
    have hshare := hw.held u other hother
    rw [hnumber, hw.next] at hshare
    cases hshare
  constructor
  case shared =>
    intro q k
    show (if q = p ∧ k = r.taken p then some _ else w.shares q k).isSome <->
      w.skipped q ≤ k ∧ k < Function.update r.taken p _ q
    rw [Function.update_apply]
    by_cases hq : q = p
    · subst hq
      rw [if_pos rfl]
      by_cases hk : k = r.taken q
      · have hle := hw.skipped q
        rw [if_pos ⟨rfl, hk⟩, hk]
        simpa using hle
      · rw [if_neg (fun h => hk h.right), hw.shared q k]
        lia
    · rw [if_neg (fun h => hq h.left), if_neg hq]
      exact hw.shared q k
  case skipped =>
    intro q
    show w.skipped q ≤ Function.update r.taken p _ q
    rw [Function.update_apply]
    split
    · rename_i hq
      rw [hq]
      exact Nat.le_succ_of_le (hw.skipped p)
    · exact hw.skipped q
  case legit =>
    intro q k share hshare
    rcases w.setShare_cases hshare with ⟨rfl, rfl, rfl⟩ | ⟨_, hold⟩
    · exact hlegit
    · exact hw.legit q k share hold
  case suffix =>
    intro u other hother
    rcases hcases u other hother with ⟨_, rfl⟩ | ⟨_, hold⟩
    · exact List.suffix_refl _
    · exact hw.suffix u other hold
  case held =>
    intro u other hother
    rcases hcases u other hother with ⟨_, rfl⟩ | ⟨_, hold⟩
    · rw [Nat.sub_self]
      exact w.setShare_self p (r.taken p) _
    · show (w.setShare p (r.taken p) _).shares _ _ = _
      rw [w.setShare_of_ne _ (hnew u other hold)]
      exact hw.held u other hold
  case alone =>
    intro u v h other hh hother hsource hnumber
    rcases hcases u h hh with ⟨rfl, rfl⟩ | ⟨_, hold⟩
    · rcases hcases v other hother with ⟨rfl, _⟩ | ⟨_, hold'⟩
      · rfl
      · exact absurd ⟨hsource, hnumber⟩ (hnew v other hold')
    · rcases hcases v other hother with ⟨rfl, rfl⟩ | ⟨_, hold'⟩
      · exact absurd ⟨hsource.symm, hnumber.symm⟩ (hnew u h hold)
      · exact hw.alone u v h other hold hold' hsource hnumber
  case finished =>
    intro q k share hshare hnobody
    rcases w.setShare_cases hshare with ⟨rfl, rfl, _⟩ | ⟨_, hold⟩
    · exact absurd ⟨rfl, rfl⟩ (hnobody t _ hself)
    · apply hw.finished q k share hold
      intro u other hother
      by_cases hut : u = t
      · rw [hut, hfree] at hother
        cases hother
      · exact hnobody u other (hkept u other hut hother)
  case sent =>
    exact hw.sent
  case pieces =>
    intro d' q k
    have hold := hw.pieces d' q k
    unfold Weave.gone at hold ⊢
    by_cases heq : q = p ∧ k = r.taken p
    · rcases heq with ⟨rfl, rfl⟩
      show w.piecesIn d' q (r.taken q) =
        Option.elim ((w.setShare q (r.taken q) _).shares q (r.taken q)) _ _
      rw [hold, hw.next, w.setShare_self]
      simp
    · show w.piecesIn d' q k =
        Option.elim ((w.setShare p (r.taken p) _).shares q k) _ _
      rw [hold, w.setShare_of_ne _ heq]

theorem Woven.drop (hw : Woven Legit r w) {t : Nat} {h : Held src snk byte}
    (hheld : r.held t = some h) (hdone : h.pending = []) :
    Woven Legit (r.drop t) w := by
  have hcases : forall u other, (r.drop t).held u = some other ->
      r.held u = some other := by
    intro u other hother
    change Function.update r.held t none u = some other at hother
    rw [Function.update_apply] at hother
    split at hother
    · cases hother
    · exact hother
  constructor
  case shared =>
    exact hw.shared
  case skipped =>
    exact hw.skipped
  case legit =>
    exact hw.legit
  case suffix =>
    intro u other hother
    exact hw.suffix u other (hcases u other hother)
  case held =>
    intro u other hother
    exact hw.held u other (hcases u other hother)
  case alone =>
    intro u v h' other hh hother
    exact hw.alone u v h' other (hcases u h' hh) (hcases v other hother)
  case finished =>
    intro p k share hshare hnobody
    by_cases hown : h.source = p ∧ h.number = k
    · -- all pieces of the item that is dropped have gone
      rcases hown with ⟨rfl, rfl⟩
      have hlast := hw.held t h hheld
      rw [hshare] at hlast
      cases hlast
      rw [hdone]
      exact Nat.sub_zero _
    · apply hw.finished p k share hshare
      intro u other hother
      by_cases hut : u = t
      · rw [hut, hheld] at hother
        cases hother
        exact hown
      · apply hnobody u other
        show Function.update r.held t none u = some other
        rw [Function.update_of_ne hut, hother]
  case sent =>
    exact hw.sent
  case pieces =>
    exact hw.pieces

theorem Weave.piecesIn_write (w : Weave src snk byte) (h : Held src snk byte)
    (buf : List byte) (d : snk) (p : src) (k : Nat) :
    (w.write h buf).piecesIn d p k =
      if d = h.sink ∧ p = h.source ∧ k = h.number then
        w.piecesIn d p k ++ [buf]
      else w.piecesIn d p k := by
  unfold Weave.piecesIn
  show ((Function.update w.strands h.sink _ d).filter _).map _ = _
  rw [Function.update_apply]
  by_cases hd : d = h.sink
  · rw [if_pos hd, List.filter_append, List.map_append, ← hd]
    by_cases hown : p = h.source ∧ k = h.number
    · rw [if_pos ⟨rfl, hown⟩, hown.left, hown.right]
      simp [Strand.isOf]
    · have hother : ¬ (h.source = p ∧ h.number = k) := fun hsame =>
        hown ⟨hsame.left.symm, hsame.right.symm⟩
      rw [if_neg (fun hsame => hown hsame.right)]
      simp [Strand.isOf, hother]
  · rw [if_neg hd, if_neg (fun hsame => hd hsame.left)]

theorem take_suffix_cons {block rest : List (List byte)} {buf : List byte}
    (hsuffix : buf :: rest <:+ block) :
    block.length - rest.length = block.length - (buf :: rest).length + 1 ∧
      block.take (block.length - (buf :: rest).length + 1) =
        block.take (block.length - (buf :: rest).length) ++ [buf] := by
  rcases hsuffix with ⟨front, rfl⟩
  have hlength : (front ++ buf :: rest).length - (buf :: rest).length =
      front.length := by
    rw [List.length_append, Nat.add_sub_cancel]
  rw [hlength]
  constructor
  · rw [List.length_append, List.length_cons]
    lia
  · rw [List.take_length_add_append, List.take_left]
    rfl

theorem Woven.put (hw : Woven Legit r w) {t : Nat} {h : Held src snk byte}
    {buf : List byte} {rest : List (List byte)} (hheld : r.held t = some h)
    (hpending : h.pending = buf :: rest) :
    Woven Legit (r.put t h buf rest) (w.write h buf) := by
  have hsuffix := hw.suffix t h hheld
  rw [hpending] at hsuffix
  rcases take_suffix_cons hsuffix with ⟨hlength, htake⟩
  have hshare := hw.held t h hheld
  have hother : forall u other, u ≠ t -> r.held u = some other ->
      ¬ (other.source = h.source ∧ other.number = h.number) := by
    rintro u other hut hother ⟨hsource, hnumber⟩
    exact hut (hw.alone t u h other hheld hother hsource hnumber)
  constructor
  case shared =>
    intro p k
    refine Iff.trans ?_ (hw.shared p k)
    by_cases hown : p = h.source ∧ k = h.number
    · rcases hown with ⟨rfl, rfl⟩
      show ((w.setShare h.source h.number _).shares _ _).isSome <-> _
      rw [w.setShare_self, hshare]
      exact Iff.rfl
    · show ((w.setShare h.source h.number _).shares p k).isSome <-> _
      rw [w.setShare_of_ne _ hown]
  case skipped =>
    exact hw.skipped
  case legit =>
    intro p k share hset
    rcases w.setShare_cases hset with ⟨rfl, rfl, rfl⟩ | ⟨_, hold⟩
    · show Legit h.source h.sink h.number h.block
      have hlegit := hw.legit h.source h.number _ hshare
      exact hlegit
    · exact hw.legit p k share hold
  case suffix =>
    intro u other hput
    rcases Relay.put_held_cases hput with ⟨_, rfl⟩ | ⟨_, hold⟩
    · exact (List.suffix_cons buf rest).trans hsuffix
    · exact hw.suffix u other hold
  case held =>
    intro u other hput
    rcases Relay.put_held_cases hput with ⟨_, rfl⟩ | ⟨hut, hold⟩
    · show (w.setShare h.source h.number _).shares h.source h.number =
        some ⟨h.sink, h.block, h.block.length - rest.length⟩
      rw [w.setShare_self, hpending, hlength]
    · show (w.setShare h.source h.number _).shares _ _ = _
      rw [w.setShare_of_ne _ (hother u other hut hold)]
      exact hw.held u other hold
  case alone =>
    intro u v h' other hput hput' hsource hnumber
    rcases Relay.put_held_cases hput with ⟨rfl, rfl⟩ | ⟨hut, hold⟩
    · rcases Relay.put_held_cases hput' with ⟨rfl, _⟩ | ⟨hvt, hold'⟩
      · rfl
      · exact absurd ⟨hsource, hnumber⟩ (hother v other hvt hold')
    · rcases Relay.put_held_cases hput' with ⟨rfl, rfl⟩ | ⟨_, hold'⟩
      · exact absurd ⟨hsource.symm, hnumber.symm⟩ (hother u h' hut hold)
      · exact hw.alone u v h' other hold hold' hsource hnumber
  case finished =>
    intro p k share hset hnobody
    rcases w.setShare_cases hset with ⟨rfl, rfl, _⟩ | ⟨hown, hold⟩
    · exact absurd ⟨rfl, rfl⟩ (hnobody t _ Relay.put_held_self)
    · apply hw.finished p k share hold
      intro u other hu
      by_cases hut : u = t
      · rw [hut, hheld] at hu
        cases hu
        exact fun hsame => hown ⟨hsame.left.symm, hsame.right.symm⟩
      · apply hnobody u other
        show Function.update r.held t _ u = some other
        rw [Function.update_of_ne hut, hu]
  case sent =>
    intro d
    show Function.update r.sent h.sink _ d =
      (Function.update w.strands h.sink _ d).flatMap Strand.piece
    rw [Function.update_apply, Function.update_apply]
    split
    · rw [List.flatMap_append, hw.sent h.sink]
      simp
    · exact hw.sent d
  case pieces =>
    intro d p k
    have hold := hw.pieces d p k
    rw [Weave.piecesIn_write, hold]
    unfold Weave.gone
    by_cases hown : p = h.source ∧ k = h.number
    · rcases hown with ⟨rfl, rfl⟩
      show _ = Option.elim
        ((w.setShare h.source h.number _).shares h.source h.number) _ _
      rw [w.setShare_self, hshare, hpending]
      simp only [Option.elim_some, and_true]
      by_cases hd : h.sink = d
      · rw [if_pos hd, if_pos hd, if_pos hd.symm, htake]
      · rw [if_neg hd, if_neg hd, if_neg (Ne.symm hd)]
    · show _ = Option.elim ((w.setShare h.source h.number _).shares p k) _ _
      rw [w.setShare_of_ne _ hown, if_neg (fun hsame => hown hsame.right)]

end

end CLib
end MQTTv1
