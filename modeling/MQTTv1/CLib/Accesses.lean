import Mathlib.Data.List.Basic
import MQTTv1.CLib.CString

/-!
# Accesses to arrays

A piece of code is reduced to the stores and loads it makes, in order.  They are
safe when every store is in bounds and every load finds an entry that was stored
before.
-/

namespace MQTTv1
namespace CLib

inductive Touch (Array : Type) where
  | store (array : Array) (index : Int)
  | load (array : Array) (index : Int)
deriving DecidableEq, Repr

section

variable {Array : Type}

def storeRange (array : Array) (start count : Nat) : List (Touch Array) :=
  (List.range count).map fun i => .store array (Int.ofNat (start + i))

def strcpyStores (array : Array) (src : CStr) : List (Touch Array) :=
  storeRange array 0 (src.length + 1)

/-- `strcat` to an array that holds the string `dst`. -/
def strcatStores (array : Array) (dst src : CStr) : List (Touch Array) :=
  storeRange array dst.length (src.length + 1)

def InBounds (size : Array -> Nat) (touches : List (Touch Array)) : Prop :=
  forall (array : Array) (index : Int), .store array index ∈ touches ->
    0 ≤ index ∧ index < size array

/-- Every load finds its entry among `done` or stored earlier. -/
def LoadsFrom : List (Touch Array) -> List (Touch Array) -> Prop
  | _, [] => True
  | done, .store array index :: rest =>
      LoadsFrom (.store array index :: done) rest
  | done, .load array index :: rest =>
      .store array index ∈ done ∧ LoadsFrom (.load array index :: done) rest

structure SafeTouches (size : Array -> Nat) (touches : List (Touch Array)) :
    Prop where
  stores : InBounds size touches
  loads : LoadsFrom [] touches

/-!
## Bounds
-/

theorem inBounds_nil (size : Array -> Nat) :
    InBounds size ([] : List (Touch Array)) := by
  intro array index h
  cases h

theorem inBounds_append {size : Array -> Nat} {front back : List (Touch Array)} :
    InBounds size (front ++ back) <->
      InBounds size front ∧ InBounds size back := by
  constructor
  · intro h
    exact ⟨fun array index hmem => h array index (List.mem_append_left _ hmem),
      fun array index hmem => h array index (List.mem_append_right _ hmem)⟩
  · intro h array index hmem
    rcases List.mem_append.mp hmem with hmem | hmem
    · exact h.left array index hmem
    · exact h.right array index hmem

theorem inBounds_store {size : Array -> Nat} {array : Array} {index : Int}
    {rest : List (Touch Array)} :
    InBounds size (.store array index :: rest) <->
      (0 ≤ index ∧ index < size array) ∧ InBounds size rest := by
  constructor
  · intro h
    exact ⟨h array index List.mem_cons_self,
      fun other i hmem => h other i (List.mem_cons_of_mem _ hmem)⟩
  · intro h other i hmem
    rcases List.mem_cons.mp hmem with heq | hmem
    · cases heq
      exact h.left
    · exact h.right other i hmem

theorem inBounds_load {size : Array -> Nat} {array : Array} {index : Int}
    {rest : List (Touch Array)} :
    InBounds size (.load array index :: rest) <-> InBounds size rest := by
  constructor
  · intro h other i hmem
    exact h other i (List.mem_cons_of_mem _ hmem)
  · intro h other i hmem
    rcases List.mem_cons.mp hmem with heq | hmem
    · cases heq
    · exact h other i hmem

theorem inBounds_flatMap {size : Array -> Nat} {parts : List part}
    {touches : part -> List (Touch Array)} :
    InBounds size (parts.flatMap touches) <->
      forall p, p ∈ parts -> InBounds size (touches p) := by
  constructor
  · intro h p hp array index hmem
    exact h array index (List.mem_flatMap.mpr ⟨p, hp, hmem⟩)
  · intro h array index hmem
    rcases List.mem_flatMap.mp hmem with ⟨p, hp, hmem⟩
    exact h p hp array index hmem

theorem mem_storeRange {array : Array} {start count : Nat} {t : Touch Array} :
    t ∈ storeRange array start count <->
      exists i, i < count ∧ t = .store array (Int.ofNat (start + i)) := by
  unfold storeRange
  rw [List.mem_map]
  simp only [List.mem_range, eq_comm]

/-- A run of stores is in bounds when its last one is. -/
theorem inBounds_storeRange {size : Array -> Nat} {array : Array}
    {start count : Nat} :
    InBounds size (storeRange array start (count + 1)) <->
      start + count < size array := by
  constructor
  · intro h
    have hlast := h array (Int.ofNat (start + count))
      (mem_storeRange.mpr ⟨count, Nat.lt_succ_self count, rfl⟩)
    exact Int.ofNat_lt.mp hlast.right
  · intro h other index hmem
    rcases mem_storeRange.mp hmem with ⟨i, hi, heq⟩
    cases heq
    refine ⟨Int.natCast_nonneg _, Int.ofNat_lt.mpr ?_⟩
    lia

/-!
## Loads
-/

theorem loadsFrom_append :
    forall {done front back : List (Touch Array)},
      LoadsFrom done (front ++ back) <->
        LoadsFrom done front ∧ LoadsFrom (front.reverse ++ done) back := by
  intro done front
  induction front generalizing done with
  | nil =>
      intro back
      exact (iff_of_eq (true_and _)).symm
  | cons t front ih =>
      intro back
      cases t with
      | store array index =>
          show LoadsFrom (_ :: done) (front ++ back) <-> _
          rw [ih, List.reverse_cons, List.append_assoc]
          rfl
      | load array index =>
          show _ ∧ LoadsFrom (_ :: done) (front ++ back) <-> _
          rw [ih, List.reverse_cons, List.append_assoc, ← and_assoc]
          rfl

theorem loadsFrom_storesOnly :
    forall {done touches : List (Touch Array)},
      (forall array index, .load array index ∉ touches) ->
        LoadsFrom done touches := by
  intro done touches
  induction touches generalizing done with
  | nil =>
      intro _
      trivial
  | cons t touches ih =>
      intro hstores
      cases t with
      | store array index =>
          exact ih fun other i hmem =>
            hstores other i (List.mem_cons_of_mem _ hmem)
      | load array index => exact absurd List.mem_cons_self (hstores array index)

theorem loadsFrom_iff :
    forall {done touches : List (Touch Array)},
      (forall array i k, .store array i ∈ touches ->
        .load array k ∉ touches) ->
        (LoadsFrom done touches <->
          forall array index, .load array index ∈ touches ->
            .store array index ∈ done) := by
  intro done touches
  induction touches generalizing done with
  | nil =>
      intro _
      simp [LoadsFrom]
  | cons t touches ih =>
      intro hapart
      have htail : forall array i k, .store array i ∈ touches ->
          .load array k ∉ touches := by
        intro array i k hstore hload
        exact hapart array i k (List.mem_cons_of_mem _ hstore)
          (List.mem_cons_of_mem _ hload)
      cases t with
      | store array index =>
          show LoadsFrom _ touches <-> _
          rw [ih htail]
          constructor
          · intro h other i hload
            rcases List.mem_cons.mp hload with heq | hload
            · cases heq
            · rcases List.mem_cons.mp (h other i hload) with heq | hdone
              · cases heq
                exact absurd (List.mem_cons_of_mem _ hload)
                  (hapart array index index List.mem_cons_self)
              · exact hdone
          · intro h other i hload
            exact List.mem_cons_of_mem _
              (h other i (List.mem_cons_of_mem _ hload))
      | load array index =>
          show _ ∧ LoadsFrom _ touches <-> _
          rw [ih htail]
          constructor
          · rintro ⟨hdone, h⟩ other i hload
            rcases List.mem_cons.mp hload with heq | hload
            · cases heq
              exact hdone
            · rcases List.mem_cons.mp (h other i hload) with heq | hstored
              · cases heq
              · exact hstored
          · intro h
            refine ⟨h array index List.mem_cons_self, ?_⟩
            intro other i hload
            exact List.mem_cons_of_mem _
              (h other i (List.mem_cons_of_mem _ hload))

end

end CLib
end MQTTv1
