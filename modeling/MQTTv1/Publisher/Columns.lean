import MQTTv1.CLib.TokenPositions
import MQTTv1.Publisher.InfoFile

/-!
# Reports in columns

`top` prints a percentage right-aligned in five characters, directly behind the
label in front of it.  The pointers that `separar_tokens` stores are the offsets
at which the tokens start in the read buffer.
-/

namespace MQTTv1
namespace Publisher

open CLib
open Csapp

structure Percent where
  tenths : Nat
  bound : tenths ≤ 1000

def Percent.text (p : Percent) : CStr :=
  decimal (p.tenths / 10) ++ [comma, digitChar p.tenths]

/-- A text of a report behind a number of spaces. -/
structure Piece where
  pad : Nat
  text : CStr
  /-- A percentage, a count or an amount, not a label. -/
  isValue : Bool

def label (pad : Nat) (text : CStr) : Piece where
  pad := pad
  text := text
  isValue := false

def amount (pad : Nat) (text : CStr) : Piece where
  pad := pad
  text := text
  isValue := true

def column (p : Percent) : Piece := amount (5 - p.text.length) p.text

/-- The lines of `info.txt`; the gaps count the extra spaces. -/
structure ColumnReport where
  us : Percent
  sy : Percent
  ni : Percent
  idle : Percent
  wa : Percent
  hi : Percent
  si : Percent
  st : Percent
  total : Count
  running : Count
  sleeping : Count
  stopped : Count
  zombie : Count
  memTotal : Value
  memFree : Value
  memUsed : Value
  buffCache : Value
  swapTotal : Value
  swapFree : Value
  swapUsed : Value
  memAvail : Value
  tasksGaps : Nat -> Nat
  memGaps : Nat -> Nat
  swapGaps : Nat -> Nat

namespace ColumnReport

def percents (r : ColumnReport) : List Percent :=
  [r.us, r.sy, r.ni, r.idle, r.wa, r.hi, r.si, r.st]

def lineEnd : Piece := label 0 [newline]

def cpuPieces (r : ColumnReport) : List Piece :=
  [label 0 (lit "%Cpu(s):"), column r.us, label 1 (lit "us,"), column r.sy,
    label 1 (lit "sy,"), column r.ni, label 1 (lit "ni,"), column r.idle,
    label 1 (lit "id,"), column r.wa, label 1 (lit "wa,"), column r.hi,
    label 1 (lit "hi,"), column r.si, label 1 (lit "si,"), column r.st,
    label 1 (lit "st"), lineEnd]

def tasksPieces (r : ColumnReport) : List Piece :=
  let gap := fun i => r.tasksGaps i + 1
  [label 0 (lit "Tasks:"), amount (gap 0) r.total.text,
    label (gap 1) (lit "total,"), amount (gap 2) r.running.text,
    label (gap 3) (lit "running,"), amount (gap 4) r.sleeping.text,
    label (gap 5) (lit "sleeping,"), amount (gap 6) r.stopped.text,
    label (gap 7) (lit "stopped,"), amount (gap 8) r.zombie.text,
    label (gap 9) (lit "zombie"), lineEnd]

def memPieces (r : ColumnReport) : List Piece :=
  let gap := fun i => r.memGaps i + 1
  [label 0 (lit "MiB"), label (gap 0) (lit "Mem"), label (gap 1) (lit ":"),
    amount (gap 2) r.memTotal.text, label (gap 3) (lit "total,"),
    amount (gap 4) r.memFree.text, label (gap 5) (lit "free,"),
    amount (gap 6) r.memUsed.text, label (gap 7) (lit "used,"),
    amount (gap 8) r.buffCache.text, label (gap 9) (lit "buff/cache"), lineEnd]

/-- The last line of `info.txt` has a space in front of its end. -/
def swapPieces (r : ColumnReport) : List Piece :=
  let gap := fun i => r.swapGaps i + 1
  [label 0 (lit "MiB"), label (gap 0) (lit "Swap:"),
    amount (gap 1) r.swapTotal.text, label (gap 2) (lit "total,"),
    amount (gap 3) r.swapFree.text, label (gap 4) (lit "free,"),
    amount (gap 5) r.swapUsed.text, label (gap 6) (lit "used."),
    amount (gap 7) r.memAvail.text, label (gap 8) (lit "avail"),
    label (gap 9) (lit "Mem"), label 1 [newline]]

def pieces (r : ColumnReport) : List Piece :=
  r.cpuPieces ++ r.tasksPieces ++ r.memPieces ++ r.swapPieces

end ColumnReport

def layOut (pieces : List Piece) : CStr :=
  laid 32 (pieces.map fun p => (p.pad, p.text))

namespace ColumnReport

def text (r : ColumnReport) : CStr := layOut r.pieces

def offset (r : ColumnReport) (k : Nat) : Nat :=
  (layOut (r.pieces.take k)).length + ((r.pieces[k]?).map Piece.pad).getD 0

/-- `info_list` after `separar_tokens`; `rest` is what follows in the file. -/
def pointers (r : ColumnReport) (rest : List Byte) : List (Nat × CStr) :=
  located (lit " ") (stringOf ((r.text ++ rest).take LIMIT_READ ++ [0]))

/-- Every value of two reports is at one index of `info_list`. -/
def SameIndices (r r' : ColumnReport) (rest rest' : List Byte) : Prop :=
  forall (k : Nat) (p p' : Piece), r.pieces[k]? = some p ->
    r'.pieces[k]? = some p' -> p.isValue = true ->
      exists i : Nat, (r.pointers rest)[i]? = some (r.offset k, p.text) ∧
        (r'.pointers rest')[i]? = some (r'.offset k, p'.text)

def Narrow (r : ColumnReport) : Prop :=
  forall p, p ∈ r.percents -> p.tenths < 1000

/-- The piece with the last amount. -/
def lastValue : Nat := 50

def Fits (r : ColumnReport) : Prop :=
  (layOut (r.pieces.take (lastValue + 1))).length ≤ LIMIT_READ

end ColumnReport

/-!
# The pieces
-/

theorem digitChar_isDigit (n : Nat) : isDigit (digitChar n) = true := by
  have hdigit : forall k, k < 10 -> isDigit (48 + k).toUInt8 = true := by decide
  exact hdigit (n % 10) (Nat.mod_lt n (by decide))

theorem lastDigits_isDigit :
    forall (width n : Nat) (b : Byte), b ∈ lastDigits width n ->
      isDigit b = true
  | 0, _, _, hb => nomatch hb
  | width + 1, n, b, hb => by
      rcases List.mem_append.mp hb with hb | hb
      · exact lastDigits_isDigit width _ b hb
      · rw [List.mem_singleton.mp hb]
        exact digitChar_isDigit n

theorem Percent.text_numeric (p : Percent) : p.text.all isNumeric = true := by
  rw [List.all_eq_true]
  intro b hb
  rcases List.mem_append.mp hb with hb | hb
  · simp [isNumeric, lastDigits_isDigit _ _ b hb]
  · simp only [List.mem_cons, List.not_mem_nil, or_false] at hb
    rcases hb with rfl | rfl
    · rfl
    · simp [isNumeric, digitChar_isDigit]

theorem Percent.length_text (p : Percent) :
    p.text.length < 5 <-> p.tenths < 1000 := by
  have hall : forall t, t < 1001 ->
      ((decimal (t / 10) ++ [comma, digitChar t]).length < 5 <-> t < 1000) := by
    decide +kernel
  exact hall p.tenths (Nat.lt_succ_of_le p.bound)

structure Piece.Solid (p : Piece) : Prop where
  nonEmpty : p.text ≠ []
  plain : forall b, b ∈ p.text -> b ∉ [0, 32]

theorem solid_numeric {p : Piece} (hne : p.text ≠ [])
    (hall : p.text.all isNumeric = true) : p.Solid := by
  have hbytes : forall b, b ∈ [0, 32] -> isNumeric b = false := by decide
  refine ⟨hne, ?_⟩
  intro b hb hmem
  exact notMem_of_all hall (hbytes b hmem) hb

theorem solid_column (p : Percent) : (column p).Solid :=
  solid_numeric (List.append_ne_nil_of_right_ne_nil _ (List.cons_ne_nil _ _))
    p.text_numeric

theorem solid_value (pad : Nat) (v : Value) : (amount pad v.text).Solid :=
  solid_numeric v.nonEmpty v.numeric

theorem solid_count (pad : Nat) (c : Count) : (amount pad c.text).Solid := by
  refine solid_numeric c.nonEmpty (List.all_eq_true.mpr ?_)
  intro b hb
  simp [isNumeric, List.all_eq_true.mp c.digits b hb]

theorem solid_label {text : CStr} (pad : Nat)
    (h : text ≠ [] ∧ forall b, b ∈ text -> b ∉ [0, 32]) :
    (label pad text).Solid :=
  ⟨h.left, h.right⟩

namespace ColumnReport

theorem solid_pieces (r : ColumnReport) :
    forall p, p ∈ r.pieces -> p.Solid := by
  simp only [pieces, cpuPieces, tasksPieces, memPieces, swapPieces, lineEnd,
    List.forall_mem_append, List.forall_mem_cons, List.not_mem_nil,
    false_implies, implies_true, and_true]
  and_intros
  all_goals
    first
    | exact solid_column _
    | exact solid_count _ _
    | exact solid_value _ _
    | exact solid_label _ ⟨by decide, by decide⟩

/-- Which pieces of a report without full columns have a gap in front. -/
def spread : List Bool :=
  let line := fun n => false :: List.replicate n true
  line 16 ++ [false] ++ line 10 ++ [false] ++ line 10 ++ [false] ++ line 11

theorem pads_narrow {r : ColumnReport} (hr : r.Narrow) :
    r.pieces.map (fun p => decide (0 < p.pad)) = spread := by
  have hcolumn : forall p, p ∈ r.percents -> 0 < (column p).pad := by
    intro p hp
    have hlt := p.length_text.mpr (hr p hp)
    show 0 < 5 - p.text.length
    lia
  simp only [percents, List.forall_mem_cons, List.not_mem_nil, false_implies,
    implies_true, and_true] at hcolumn
  rcases hcolumn with ⟨hus, hsy, hni, hidle, hwa, hhi, hsi, hst⟩
  simp [pieces, cpuPieces, tasksPieces, memPieces, swapPieces, lineEnd, label,
    amount, spread, hus, hsy, hni, hidle, hwa, hhi, hsi, hst, List.replicate]

def values : List Bool :=
  let pairs := fun n => (List.replicate n [true, false]).flatten
  [false] ++ pairs 8 ++ [false, false] ++ pairs 5 ++ [false, false, false, false] ++
    pairs 4 ++ [false, false, false] ++ pairs 4 ++ [false, false]

theorem isValue_pieces (r : ColumnReport) :
    r.pieces.map Piece.isValue = values :=
  rfl

theorem spread_around {k : Nat} (h : values[k]? = some true) :
    k ≤ lastValue ∧ spread[k]? = some true ∧ spread[k + 1]? = some true := by
  have hall : forall k, k < values.length -> values[k]? = some true ->
      k ≤ lastValue ∧ spread[k]? = some true ∧ spread[k + 1]? = some true := by
    decide
  exact hall k (List.getElem?_eq_some_iff.mp h).choose h

end ColumnReport

/-!
# Laying pieces out
-/

theorem layOut_append (front back : List Piece) :
    layOut (front ++ back) = layOut front ++ layOut back := by
  unfold layOut
  rw [List.map_append, laid_append]

theorem layOut_cons (p : Piece) (back : List Piece) :
    layOut (p :: back) =
      List.replicate p.pad 32 ++ (p.text ++ layOut back) := by
  show (List.replicate p.pad 32 ++ p.text) ++ layOut back = _
  rw [List.append_assoc]

theorem startsIn_layOut {gap : Bool} {pieces : List Piece}
    (hsolid : forall p, p ∈ pieces -> p.Solid) :
    startsIn 32 gap (layOut pieces) = gapsIn gap (pieces.map Piece.pad) := by
  unfold layOut
  rw [startsIn_laid, List.map_map]
  · rfl
  · intro piece hpiece
    rcases List.mem_map.mp hpiece with ⟨p, hp, rfl⟩
    exact ⟨(hsolid p hp).nonEmpty, fun h => (hsolid p hp).plain 32 h (by simp)⟩

theorem afterGap_layOut {gap : Bool} {pieces : List Piece} (hne : pieces ≠ [])
    (hsolid : forall p, p ∈ pieces -> p.Solid) :
    afterGap 32 gap (layOut pieces) = false := by
  apply afterGap_laid (mt List.map_eq_nil_iff.mp hne)
  intro piece hpiece
  rcases List.mem_map.mp hpiece with ⟨p, hp, rfl⟩
  exact ⟨(hsolid p hp).nonEmpty, fun h => (hsolid p hp).plain 32 h (by simp)⟩

theorem nulFree_layOut {pieces : List Piece}
    (hsolid : forall p, p ∈ pieces -> p.Solid) : NulFree (layOut pieces) := by
  intro b hb hb0
  rcases List.mem_flatMap.mp hb with ⟨piece, hpiece, hb⟩
  rcases List.mem_map.mp hpiece with ⟨p, hp, rfl⟩
  rw [hb0] at hb
  rcases List.mem_append.mp hb with hb | hb
  · exact absurd (List.mem_replicate.mp hb).right (by decide)
  · exact (hsolid p hp).plain 0 hb List.mem_cons_self

theorem layOut_gap {pieces : List Piece} {q : Piece} (hq : pieces[0]? = some q)
    (hpad : 0 < q.pad) : exists s, layOut pieces = 32 :: s := by
  cases pieces with
  | nil => cases hq
  | cons p pieces =>
      cases hq
      rcases Nat.exists_eq_succ_of_ne_zero (Nat.ne_of_gt hpad) with ⟨n, hn⟩
      rw [layOut_cons, hn]
      exact ⟨_, rfl⟩

theorem layOut_split {pieces : List Piece} {k : Nat} {p : Piece}
    (hp : pieces[k]? = some p) :
    layOut pieces =
      layOut (pieces.take k) ++ (List.replicate p.pad 32 ++
        (p.text ++ layOut (pieces.drop (k + 1)))) := by
  rcases List.getElem?_eq_some_iff.mp hp with ⟨hk, hget⟩
  have hdrop := List.drop_eq_getElem_cons hk
  rw [hget] at hdrop
  rw [← layOut_cons, ← hdrop, ← layOut_append, List.take_append_drop]

namespace ColumnReport

theorem offset_eq (r : ColumnReport) {k : Nat} {p : Piece}
    (hp : r.pieces[k]? = some p) :
    r.offset k = (layOut (r.pieces.take k)).length + p.pad := by
  unfold offset
  rw [hp]
  rfl

/-!
# Pointers
-/

theorem pad_pos {r : ColumnReport} (hnarrow : r.Narrow) {k : Nat}
    (hk : spread[k]? = some true) :
    exists p, r.pieces[k]? = some p ∧ 0 < p.pad := by
  rw [← pads_narrow hnarrow, List.getElem?_map] at hk
  rcases Option.map_eq_some_iff.mp hk with ⟨p, hp, hpad⟩
  exact ⟨p, hp, of_decide_eq_true hpad⟩

theorem values_of_value {r : ColumnReport} {k : Nat} {p : Piece}
    (hp : r.pieces[k]? = some p) (hvalue : p.isValue = true) :
    values[k]? = some true := by
  rw [← isValue_pieces r, List.getElem?_map, hp, Option.map_some, hvalue]

theorem read_narrow {r : ColumnReport} (hnarrow : r.Narrow) (hfits : r.Fits)
    (rest : List Byte) :
    exists back,
      stringOf ((r.text ++ rest).take LIMIT_READ ++ [0]) =
          layOut (r.pieces.take (lastValue + 1)) ++ back ∧
        (back = [] ∨ exists s, back = 32 :: s) := by
  have hlast : values[lastValue]? = some true := rfl
  rcases pad_pos hnarrow (spread_around hlast).right.right with ⟨q, hq, hpad⟩
  have hnext : (r.pieces.drop (lastValue + 1))[0]? = some q :=
    List.getElem?_drop.trans hq
  rcases layOut_gap hnext hpad with ⟨s, hs⟩
  have htext : r.text ++ rest =
      layOut (r.pieces.take (lastValue + 1)) ++ 32 :: (s ++ rest) := by
    unfold text
    rw [← List.cons_append, ← hs, ← List.append_assoc, ← layOut_append,
      List.take_append_drop]
  rw [htext]
  apply stringOf_read _ hfits
  exact nulFree_layOut fun p hp => r.solid_pieces p (List.mem_of_mem_take hp)

theorem pointers_value {r : ColumnReport} (hnarrow : r.Narrow) (hfits : r.Fits)
    (rest : List Byte) {k : Nat} {p : Piece} (hp : r.pieces[k]? = some p)
    (hvalue : p.isValue = true) :
    (r.pointers rest)[gapsIn true ((r.pieces.take k).map Piece.pad)]? =
      some (r.offset k, p.text) := by
  rcases spread_around (values_of_value hp hvalue) with ⟨hlast, hgap, hnext⟩
  have hpad : 0 < p.pad := by
    rcases pad_pos hnarrow hgap with ⟨p', hp', hpad⟩
    rw [hp] at hp'
    cases hp'
    exact hpad
  have hsolid := r.solid_pieces p (List.mem_of_getElem? hp)
  have hspace : 32 ∉ p.text := fun h => hsolid.plain 32 h (by simp)
  rcases read_narrow hnarrow hfits rest with ⟨back, hread, hback⟩
  have hfront : (r.pieces.take (lastValue + 1))[k]? = some p := by
    rw [List.getElem?_take, if_pos (Nat.lt_succ_of_le hlast)]
    exact hp
  -- the piece behind the value brings a space, or the value is the last one
  have hbehind :
      layOut ((r.pieces.take (lastValue + 1)).drop (k + 1)) ++ back = [] ∨
        exists s, layOut ((r.pieces.take (lastValue + 1)).drop (k + 1)) ++ back =
          32 :: s := by
    rcases Nat.lt_or_eq_of_le hlast with hlt | heq
    · rcases pad_pos hnarrow hnext with ⟨q, hq, hqpad⟩
      have hhead : ((r.pieces.take (lastValue + 1)).drop (k + 1))[0]? =
          some q := by
        rw [List.getElem?_drop, Nat.add_zero, List.getElem?_take,
          if_pos (Nat.succ_lt_succ hlt)]
        exact hq
      rcases layOut_gap hhead hqpad with ⟨s, hs⟩
      exact Or.inr ⟨s ++ back, by rw [hs]; rfl⟩
    · rw [heq, List.drop_eq_nil_of_le (List.length_take_le _ _)]
      exact hback
  have hsrc : stringOf ((r.text ++ rest).take LIMIT_READ ++ [0]) =
      layOut (r.pieces.take k) ++ (List.replicate p.pad 32 ++ (p.text ++
        (layOut ((r.pieces.take (lastValue + 1)).drop (k + 1)) ++ back))) := by
    rw [hread, layOut_split hfront, List.take_take,
      Nat.min_eq_left (Nat.le_succ_of_le hlast)]
    simp only [List.append_assoc]
  have hentry := getElem?_located (layOut (r.pieces.take k)) hpad
    hsolid.nonEmpty hspace hbehind
  rw [startsIn_layOut fun q hq =>
    r.solid_pieces q (List.mem_of_mem_take hq)] at hentry
  unfold pointers
  rw [hsrc, lit_space, hentry, r.offset_eq hp]

/-- A value that is pointed to has a gap in front and ends in the read buffer. -/
theorem gap_of_pointer {r : ColumnReport} {rest : List Byte} {i k : Nat}
    {p : Piece} (hk : k ≠ 0) (hp : r.pieces[k]? = some p)
    (hpointer : (r.pointers rest)[i]? = some (r.offset k, p.text)) :
    0 < p.pad ∧ r.offset k + p.text.length ≤ LIMIT_READ := by
  have hread : stringOf ((r.text ++ rest).take LIMIT_READ ++ [0]) <+:
      (r.text ++ rest).take LIMIT_READ := by
    rw [stringOf_terminated]
    exact List.takeWhile_prefix _
  unfold pointers at hpointer
  rw [lit_space, located_eq_wordsAt] at hpointer
  rcases mem_wordsAt (List.mem_of_getElem? hpointer) with
    ⟨n, hn, hafter, hlen⟩
  rw [Nat.zero_add] at hn
  rw [← hn] at hafter hlen
  constructor
  · apply Nat.pos_of_ne_zero
    intro hpad
    have hoffset := r.offset_eq hp
    rw [hpad, Nat.add_zero] at hoffset
    have hfront :
        (stringOf ((r.text ++ rest).take LIMIT_READ ++ [0])).take (r.offset k) =
          layOut (r.pieces.take k) := by
      have htext := List.prefix_iff_eq_take.mp
        (hread.trans (List.take_prefix _ _))
      rw [htext, List.take_take, Nat.min_eq_left (by lia), hoffset]
      unfold text
      rw [layOut_split hp, List.append_assoc, List.take_left']
      rfl
    have htake : r.pieces.take k ≠ [] := by
      intro hnil
      rcases List.take_eq_nil_iff.mp hnil with hzero | hempty
      · exact hk hzero
      · rw [hempty] at hp
        cases hp
    rw [hfront, afterGap_layOut htake fun q hq =>
      r.solid_pieces q (List.mem_of_mem_take hq)] at hafter
    cases hafter
  · refine Nat.le_trans hlen (Nat.le_trans hread.length_le ?_)
    exact List.length_take_le _ _

/-!
# Indices
-/

theorem percents_pieces (r : ColumnReport) {p : Percent} (hp : p ∈ r.percents) :
    exists k, k ≠ 0 ∧ r.pieces[k]? = some (column p) := by
  simp only [percents, List.mem_cons, List.not_mem_nil, or_false] at hp
  rcases hp with rfl | rfl | rfl | rfl | rfl | rfl | rfl | rfl
  · exact ⟨1, by decide, rfl⟩
  · exact ⟨3, by decide, rfl⟩
  · exact ⟨5, by decide, rfl⟩
  · exact ⟨7, by decide, rfl⟩
  · exact ⟨9, by decide, rfl⟩
  · exact ⟨11, by decide, rfl⟩
  · exact ⟨13, by decide, rfl⟩
  · exact ⟨15, by decide, rfl⟩

def Indexed (r : ColumnReport) (rest : List Byte) : Prop :=
  forall (k : Nat) (p : Piece), r.pieces[k]? = some p -> p.isValue = true ->
    exists i : Nat, (r.pointers rest)[i]? = some (r.offset k, p.text)

theorem narrow_fits_of_indexed {r : ColumnReport} {rest : List Byte}
    (h : r.Indexed rest) : r.Narrow ∧ r.Fits := by
  constructor
  · intro p hp
    rcases r.percents_pieces hp with ⟨k, hk, hpiece⟩
    rcases h k (column p) hpiece rfl with ⟨i, hi⟩
    have hpad := (gap_of_pointer hk hpiece hi).left
    apply p.length_text.mp
    change 0 < 5 - p.text.length at hpad
    lia
  · have hpiece : r.pieces[lastValue]? =
        some (amount (r.swapGaps 7 + 1) r.memAvail.text) := rfl
    rcases h lastValue _ hpiece rfl with ⟨i, hi⟩
    have hend := (gap_of_pointer (by decide) hpiece hi).right
    rw [r.offset_eq hpiece] at hend
    unfold Fits
    rw [List.take_add_one, hpiece, layOut_append, List.length_append]
    have hlast : (layOut (some (amount (r.swapGaps 7 + 1)
        r.memAvail.text)).toList).length =
          (r.swapGaps 7 + 1) + r.memAvail.text.length := by
      show (layOut [_]).length = _
      rw [layOut_cons]
      simp [layOut, laid, amount]
    rw [hlast, ← Nat.add_assoc]
    exact hend

theorem exists_piece {r : ColumnReport} (r' : ColumnReport) {k : Nat} {p : Piece}
    (hp : r.pieces[k]? = some p) :
    exists p', r'.pieces[k]? = some p' ∧ p'.isValue = p.isValue := by
  have hkind : (r'.pieces[k]?).map Piece.isValue = some p.isValue := by
    rw [← List.getElem?_map, isValue_pieces r', ← isValue_pieces r,
      List.getElem?_map, hp, Option.map_some]
  exact Option.map_eq_some_iff.mp hkind

/--
All values of two reports stand at the same indices exactly when no percentage
of either fills its column and both are read up to their last amount.
-/
theorem sameIndices_iff (r r' : ColumnReport) (rest rest' : List Byte) :
    r.SameIndices r' rest rest' <->
      (r.Narrow ∧ r.Fits) ∧ (r'.Narrow ∧ r'.Fits) := by
  constructor
  · intro h
    constructor
    · apply narrow_fits_of_indexed
      intro k p hp hvalue
      rcases exists_piece r' hp with ⟨p', hp', _⟩
      rcases h k p p' hp hp' hvalue with ⟨i, hi, _⟩
      exact ⟨i, hi⟩
    · apply narrow_fits_of_indexed
      intro k p' hp' hvalue'
      rcases exists_piece r hp' with ⟨p, hp, hkind⟩
      rcases h k p p' hp hp' (hkind.trans hvalue') with ⟨i, _, hi⟩
      exact ⟨i, hi⟩
  · rintro ⟨⟨hnarrow, hfits⟩, hnarrow', hfits'⟩ k p p' hp hp' hvalue
    have hvalue' : p'.isValue = true := by
      rcases exists_piece r' hp with ⟨q, hq, hkind⟩
      rw [hp'] at hq
      cases hq
      exact hkind.trans hvalue
    have hindex : gapsIn true ((r.pieces.take k).map Piece.pad) =
        gapsIn true ((r'.pieces.take k).map Piece.pad) := by
      apply gapsIn_congr
      rw [List.map_map, List.map_map, List.map_take, List.map_take]
      exact congrArg (List.take k)
        ((pads_narrow hnarrow).trans (pads_narrow hnarrow').symm)
    refine ⟨_, pointers_value hnarrow hfits rest hp hvalue, ?_⟩
    rw [hindex]
    exact pointers_value hnarrow' hfits' rest' hp' hvalue'

/-- The positions of `pub_client.c` and the pieces they are to pick. -/
def pickedPieces : List (Nat × Nat) :=
  [(CPU_GEN_POS, 1), (CPU_SYS_POS, 5), (TASKS_GEN_POS, 19),
    (TASKS_RUN_POS, 23), (TASKS_SLEEP_POS, 25), (MEM_AVAIL_POS, 33),
    (MEM_USED_POS, 39)]

/-- The positions pick the same values of every narrow report. -/
theorem separarTokens_narrow {r : ColumnReport} (hnarrow : r.Narrow)
    (hfits : r.Fits) (rest : List Byte) (infoList : InfoList) {pos k : Nat}
    (hpick : (pos, k) ∈ pickedPieces) :
    separarTokens (stringOf ((r.text ++ rest).take LIMIT_READ ++ [0])) (lit " ")
        infoList pos =
      (r.pieces[k]?).map Piece.text := by
  have hpicked : values[k]? = some true ∧
      gapsIn true ((spread.take k).map fun gap => if gap then 1 else 0) =
        pos := by
    have hall : forall pick, pick ∈ pickedPieces ->
        values[pick.2]? = some true ∧
          gapsIn true
              ((spread.take pick.2).map fun gap => if gap then 1 else 0) =
            pick.1 := by
      decide
    exact hall (pos, k) hpick
  rw [← isValue_pieces r, List.getElem?_map] at hpicked
  rcases Option.map_eq_some_iff.mp hpicked.left with ⟨p, hp, hvalue⟩
  have hpointer := pointers_value hnarrow hfits rest hp hvalue
  have hindex : gapsIn true ((r.pieces.take k).map Piece.pad) = pos := by
    rw [← hpicked.right]
    apply gapsIn_congr
    rw [← pads_narrow hnarrow]
    simp only [List.map_take, List.map_map]
    congr 2
    funext q
    by_cases hq : 0 < q.pad
    · simp [hq]
    · simp [hq]
  rw [hindex] at hpointer
  have htoken :
      (tokensOf (lit " ") (stringOf ((r.text ++ rest).take LIMIT_READ ++
        [0])))[pos]? = some p.text := by
    rw [← located_tokens, List.getElem?_map]
    unfold pointers at hpointer
    rw [hpointer]
    rfl
  unfold separarTokens
  rw [if_pos (List.getElem?_eq_some_iff.mp htoken).choose, htoken, hp]
  rfl

end ColumnReport

def percentOf (tenths : Nat) (h : tenths ≤ 1000) : Percent where
  tenths := tenths
  bound := h

/-- The `info.txt` in the repository. -/
def columnTxt : ColumnReport where
  us := percentOf 352 (by decide)
  sy := percentOf 56 (by decide)
  ni := percentOf 0 (by decide)
  idle := percentOf 592 (by decide)
  wa := percentOf 0 (by decide)
  hi := percentOf 0 (by decide)
  si := percentOf 0 (by decide)
  st := percentOf 0 (by decide)
  total := infoTxt.total
  running := infoTxt.running
  sleeping := infoTxt.sleeping
  stopped := infoTxt.stopped
  zombie := infoTxt.zombie
  memTotal := infoTxt.memTotal
  memFree := infoTxt.memFree
  memUsed := infoTxt.memUsed
  buffCache := infoTxt.buffCache
  swapTotal := swapTxt.total
  swapFree := swapTxt.free
  swapUsed := swapTxt.used
  memAvail := swapTxt.avail
  tasksGaps := infoTxt.tasksGaps
  memGaps := infoTxt.memGaps
  swapGaps := swapTxt.gaps

def idleTxt : ColumnReport :=
  { columnTxt with
    us := percentOf 0 (by decide)
    sy := percentOf 0 (by decide)
    idle := percentOf 1000 (by decide) }

example : columnTxt.text.take 225 = infoTxt.text := by
  decide +kernel

/-- On an idle machine the count of tasks is one position further left. -/
theorem idle_moves_positions :
    ¬ columnTxt.SameIndices idleTxt [] [] ∧
      (columnTxt.pointers [])[TASKS_GEN_POS]? =
        some (columnTxt.offset 19, lit "293") ∧
      (idleTxt.pointers [])[TASKS_GEN_POS - 1]? =
        some (idleTxt.offset 19, lit "293") ∧
      (idleTxt.pointers [])[TASKS_GEN_POS]? =
        some (idleTxt.offset 20, lit "total,") := by
  refine ⟨?_, ?_, ?_, ?_⟩
  · intro h
    rcases h 7 _ _ rfl rfl rfl with ⟨i, _, hi⟩
    have habsent : (idleTxt.offset 7, (column idleTxt.idle).text) ∉
        idleTxt.pointers [] := by
      decide +kernel
    exact habsent (List.mem_of_getElem? hi)
  all_goals decide +kernel

end Publisher
end MQTTv1
