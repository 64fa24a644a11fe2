import Mathlib.Data.List.TakeWhile

/-!
# C strings and byte buffers

A C string is the list of its bytes without the terminator, and a buffer is the
list of the bytes behind a pointer.  The library functions write through the
pointer without knowing how long the object is: a buffer that a call writes past
its end grows, so the length after a sequence of calls is one more than the
highest index ever stored, and a call overruns an object of `n` bytes
exactly when that length exceeds `n`.
-/

namespace MQTTv1
namespace CLib

abbrev Byte := UInt8

abbrev CStr := List Byte

def newline : Byte := 10

def comma : Byte := 44

def digitChar (d : Nat) : Byte := (48 + d % 10).toUInt8

def lit (s : String) : CStr := s.toList.map fun c => c.toNat.toUInt8

theorem lit_space : lit " " = [32] := by decide

theorem lit_comma : lit "," = [comma] := by decide

theorem lit_slash : lit "/" = [47] := by decide

/-- What is said of the bytes of a string is decided along the string. -/
instance (priority := high) decidableBytes (s : List Byte) (p : Byte -> Prop)
    [DecidablePred p] : Decidable (forall b, b ∈ s -> p b) :=
  List.decidableBAll p s

/-- A string of C contains no terminator of its own. -/
def NulFree (s : CStr) : Prop := forall b, b ∈ s -> b ≠ 0

instance (s : CStr) : Decidable (NulFree s) :=
  List.decidableBAll (fun b => b ≠ 0) s

/-- The string a buffer holds: its bytes up to the first terminator. -/
def stringOf (buf : List Byte) : CStr := buf.takeWhile (fun b => b != 0)

def strlen (buf : List Byte) : Nat := (stringOf buf).length

def storeAt (buf : List Byte) (i : Nat) (b : Byte) : List Byte :=
  buf.take i ++ List.replicate (i - buf.length) 0 ++ b :: buf.drop (i + 1)

def strcpy (dst : List Byte) (src : CStr) : List Byte :=
  src ++ 0 :: dst.drop (src.length + 1)

def strcat (dst : List Byte) (src : CStr) : List Byte :=
  dst.take (strlen dst) ++ strcpy (dst.drop (strlen dst)) src

/-- `buf[strlen(buf) - 1] = '\0'`, the way the programs cut a line end. -/
def chop (s : CStr) : CStr := s.dropLast

/-!
## Reading a buffer back
-/

theorem nulFree_append {s t : CStr} :
    NulFree (s ++ t) <-> NulFree s ∧ NulFree t := by
  unfold NulFree
  constructor
  · intro h
    exact ⟨fun b hb => h b (List.mem_append.mpr (Or.inl hb)),
      fun b hb => h b (List.mem_append.mpr (Or.inr hb))⟩
  · intro h b hb
    rcases List.mem_append.mp hb with hs | ht
    · exact h.left b hs
    · exact h.right b ht

theorem notMem_of_all {p : Byte -> Bool} {s : CStr} {b : Byte}
    (hall : s.all p = true) (hb : p b = false) : b ∉ s := by
  intro hmem
  have htrue := List.all_eq_true.mp hall b hmem
  rw [hb] at htrue
  cases htrue

theorem nulFree_of_all {p : Byte -> Bool} {s : CStr} (hall : s.all p = true)
    (hzero : p 0 = false) : NulFree s := by
  intro b hb hb0
  rw [hb0] at hb
  exact notMem_of_all hall hzero hb

theorem nulFree_stringOf (buf : List Byte) : NulFree (stringOf buf) := by
  intro b hb
  simpa using List.mem_takeWhile_imp hb

theorem stringOf_append_nul {s : CStr} (hs : NulFree s) (rest : List Byte) :
    stringOf (s ++ 0 :: rest) = s := by
  unfold stringOf
  rw [List.takeWhile_append_of_pos]
  · simp
  · intro b hb
    simpa using hs b hb

theorem stringOf_append {s : CStr} (hs : NulFree s) (rest : List Byte) :
    stringOf (s ++ rest) = s ++ stringOf rest := by
  unfold stringOf
  rw [List.takeWhile_append_of_pos]
  intro b hb
  simpa using hs b hb

theorem stringOf_of_nulFree {s : CStr} (hs : NulFree s) : stringOf s = s := by
  simpa [stringOf] using stringOf_append hs []

theorem chop_stringOf_line {s : CStr} (hs : NulFree s) :
    chop (stringOf (s ++ [newline])) = s := by
  have hline : NulFree (s ++ [newline]) :=
    nulFree_append.mpr ⟨hs, by decide⟩
  rw [stringOf_of_nulFree hline]
  exact List.dropLast_concat

theorem stringOf_terminated (buf : List Byte) :
    stringOf (buf ++ [0]) = stringOf buf := by
  unfold stringOf
  rw [List.takeWhile_append]
  split
  · rename_i hall
    rw [(List.takeWhile_prefix _).eq_of_length hall]
    simp
  · rfl

theorem take_strlen (buf : List Byte) :
    buf.take (strlen buf) = stringOf buf := by
  have hpre : stringOf buf <+: buf := List.takeWhile_prefix _
  exact (List.prefix_iff_eq_take.mp hpre).symm

theorem stringOf_strcpy {src : CStr} (hsrc : NulFree src) (dst : List Byte) :
    stringOf (strcpy dst src) = src :=
  stringOf_append_nul hsrc _

theorem stringOf_strcat {src : CStr} (hsrc : NulFree src) (dst : List Byte) :
    stringOf (strcat dst src) = stringOf dst ++ src := by
  unfold strcat strcpy
  rw [take_strlen, ← List.append_assoc]
  exact stringOf_append_nul
    (nulFree_append.mpr ⟨nulFree_stringOf dst, hsrc⟩) _

/-- A store behind the terminator does not change the string. -/
theorem stringOf_storeAt_past {s : CStr} (hs : NulFree s) (rest : List Byte)
    (b : Byte) :
    stringOf (storeAt (s ++ 0 :: rest) (s.length + 1) b) = s := by
  unfold storeAt
  rw [List.take_append]
  simp only [Nat.le_succ, List.take_of_length_le, Nat.add_sub_cancel_left,
    List.take_succ_cons, List.take_zero, List.append_assoc]
  exact stringOf_append_nul hs _

theorem strcat_split (dst : List Byte) (src : CStr) :
    exists rest, strcat dst src = (stringOf dst ++ src) ++ 0 :: rest := by
  refine ⟨(dst.drop (strlen dst)).drop (src.length + 1), ?_⟩
  simp [strcat, strcpy, take_strlen]

theorem stringOf_storeAt_last {s : CStr} (hs : NulFree s) (hne : s ≠ [])
    (rest : List Byte) {b : Byte} (hb : b ≠ 0) :
    stringOf (storeAt (s ++ 0 :: rest) (s.length - 1) b) =
      s.dropLast ++ [b] := by
  have hpos : 0 < s.length := List.length_pos_iff.mpr hne
  have hinit : NulFree (s.dropLast ++ [b]) := by
    apply nulFree_append.mpr
    constructor
    · intro c hc
      exact hs c (List.dropLast_subset s hc)
    · intro c hc
      rw [List.mem_singleton.mp hc]
      exact hb
  have hshort : s.length - 1 - (s ++ 0 :: rest).length = 0 := by
    rw [List.length_append]
    lia
  have hnext : s.length - 1 + 1 = s.length := Nat.sub_add_cancel hpos
  unfold storeAt
  rw [hshort, hnext, List.take_append_of_le_length (Nat.sub_le _ _),
    ← List.dropLast_eq_take, List.drop_left, List.replicate_zero,
    List.append_nil, List.append_cons]
  exact stringOf_append_nul hinit rest

theorem stringOf_foldl_strcat :
    forall {parts : List CStr} {buf : List Byte},
      (forall part, part ∈ parts -> NulFree part) ->
        stringOf (parts.foldl strcat buf) = stringOf buf ++ parts.flatten := by
  intro parts
  induction parts with
  | nil =>
      intro buf _
      simp
  | cons part rest ih =>
      intro buf hparts
      rw [List.foldl_cons, ih fun p hp => hparts p (List.mem_cons_of_mem _ hp),
        stringOf_strcat (hparts part List.mem_cons_self)]
      simp

end CLib
end MQTTv1
