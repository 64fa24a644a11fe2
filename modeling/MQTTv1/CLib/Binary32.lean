import Mathlib.Algebra.Ring.Int.Defs
import Mathlib.Algebra.Ring.Nat
import MQTTv1.CLib.CString

/-!
# Numbers of the C library

`strtol`, single precision arithmetic in round-to-nearest, and the conversion
`%0.4f`.  A finite number is a significand scaled by a power of two, and every
operation rounds the exact result once.
-/

namespace MQTTv1
namespace CLib

def isSpace (b : Byte) : Bool := b = 32 || (9 ≤ b && b ≤ 13)

def isDigit (b : Byte) : Bool := 48 ≤ b && b ≤ 57

def LONG_MAX : Int := 2 ^ 63 - 1

def LONG_MIN : Int := -2 ^ 63

def decimalValue (digits : CStr) : Nat :=
  digits.foldl (fun n b => 10 * n + (b.toNat - 48)) 0

/-- `strtol(s, NULL, 10)`: the longest number at the start, saturated. -/
def strtol (s : CStr) : Int :=
  let magnitude (t : CStr) : Int := decimalValue (t.takeWhile isDigit)
  let value :=
    match s.dropWhile isSpace with
    | 45 :: rest => -magnitude rest
    | 43 :: rest => magnitude rest
    | rest => magnitude rest
  max LONG_MIN (min LONG_MAX value)

inductive Binary32 where
  | nan (negative : Bool)
  | inf (negative : Bool)
  | finite (negative : Bool) (significand : Nat) (exponent : Int)
deriving DecidableEq, Repr

/-- The integer nearest to a ratio, the even one of two. -/
def roundHalfEven (num den : Nat) : Nat :=
  if 2 * (num % den) < den ∨ (2 * (num % den) = den ∧ num / den % 2 = 0) then
    num / den
  else
    num / den + 1

/-- `num / (den * 2 ^ exponent)`, as a ratio. -/
def scaleBy (num den : Nat) (exponent : Int) : Nat × Nat :=
  (num * 2 ^ (-exponent).toNat, den * 2 ^ exponent.toNat)

/-- The exponent that leaves 24 bits of a ratio in front of the point. -/
def exponentOf (num den : Nat) : Int :=
  let low : Int := (num.log2 : Int) - den.log2 - 24
  let scaled := scaleBy num den low
  max (-149) (if scaled.1 / scaled.2 < 2 ^ 24 then low else low + 1)

namespace Binary32

def ofRatio (negative : Bool) (num den : Nat) : Binary32 :=
  if num = 0 then
    finite negative 0 0
  else
    let exponent := exponentOf num den
    let scaled := scaleBy num den exponent
    let significand := roundHalfEven scaled.1 scaled.2
    if 2 ^ 128 ≤ significand * 2 ^ exponent.toNat then
      inf negative
    else
      finite negative significand exponent

def ofInt (v : Int) : Binary32 := ofRatio (v < 0) v.natAbs 1

/-- An invalid operation yields the NaN with the sign bit set. -/
def div : Binary32 -> Binary32 -> Binary32
  | nan negative, _ => nan negative
  | _, nan negative => nan negative
  | inf _, inf _ => nan true
  | inf s, finite t _ _ => inf (s != t)
  | finite s _ _, inf t => finite (s != t) 0 0
  | finite s m e, finite t n f =>
      if n = 0 then
        if m = 0 then nan true else inf (s != t)
      else
        ofRatio (s != t) (m * 2 ^ (e - f).toNat) (n * 2 ^ (f - e).toNat)

def mul : Binary32 -> Binary32 -> Binary32
  | nan negative, _ => nan negative
  | _, nan negative => nan negative
  | inf s, inf t => inf (s != t)
  | inf s, finite t n _ => if n = 0 then nan true else inf (s != t)
  | finite s m _, inf t => if m = 0 then nan true else inf (s != t)
  | finite s m e, finite t n f =>
      ofRatio (s != t) (m * n * 2 ^ (e + f).toNat) (2 ^ (-(e + f)).toNat)

end Binary32

/-!
# Conversion to text
-/

def lastDigits : Nat -> Nat -> CStr
  | 0, _ => []
  | width + 1, n => lastDigits width (n / 10) ++ [digitChar n]

def decimal (n : Nat) : CStr :=
  lastDigits (Nat.toDigits 10 n).length n

def signText (negative : Bool) : CStr :=
  if negative then lit "-" else []

/-- `%0.4f` -/
def Binary32.fixed4 : Binary32 -> CStr
  | .nan negative => signText negative ++ lit "nan"
  | .inf negative => signText negative ++ lit "inf"
  | .finite negative significand exponent =>
      let scaled := scaleBy (significand * 10000) 1 (-exponent)
      let tenThousandths := roundHalfEven scaled.1 scaled.2
      signText negative ++ decimal (tenThousandths / 10000) ++ lit "." ++
        lastDigits 4 tenThousandths

def AboveComma (s : CStr) : Prop := forall b, b ∈ s -> 45 ≤ b

theorem aboveComma_append {s t : CStr} (hs : AboveComma s)
    (ht : AboveComma t) : AboveComma (s ++ t) := by
  intro b hb
  rcases List.mem_append.mp hb with hs' | ht'
  · exact hs b hs'
  · exact ht b ht'

theorem AboveComma.nulFree {s : CStr} (hs : AboveComma s) : NulFree s := by
  intro b hb hzero
  have hge := hs b hb
  rw [hzero] at hge
  revert hge
  decide

theorem digitChar_aboveComma (d : Nat) : 45 ≤ digitChar d := by
  have hdigit : forall r, r < 10 -> 45 ≤ (48 + r).toUInt8 := by decide
  exact hdigit (d % 10) (Nat.mod_lt d (by decide))

theorem lastDigits_aboveComma (width n : Nat) :
    AboveComma (lastDigits width n) := by
  induction width generalizing n with
  | zero =>
      intro b hb
      cases hb
  | succ width ih =>
      apply aboveComma_append (ih (n / 10))
      intro b hb
      rw [List.mem_singleton.mp hb]
      exact digitChar_aboveComma n

theorem signText_aboveComma (negative : Bool) :
    AboveComma (signText negative) := by
  unfold AboveComma
  cases negative <;> simp [signText, lit]

theorem Binary32.fixed4_aboveComma (x : Binary32) : AboveComma x.fixed4 := by
  have hnan : AboveComma (lit "nan") := by simp [AboveComma, lit]
  have hinf : AboveComma (lit "inf") := by simp [AboveComma, lit]
  have hpoint : AboveComma (lit ".") := by simp [AboveComma, lit]
  cases x with
  | nan negative => exact aboveComma_append (signText_aboveComma _) hnan
  | inf negative => exact aboveComma_append (signText_aboveComma _) hinf
  | finite negative significand exponent =>
      apply aboveComma_append _ (lastDigits_aboveComma _ _)
      apply aboveComma_append _ hpoint
      exact aboveComma_append (signText_aboveComma _) (lastDigits_aboveComma _ _)

theorem length_lastDigits (width n : Nat) :
    (lastDigits width n).length = width := by
  induction width generalizing n with
  | zero => rfl
  | succ width ih => simp [lastDigits, ih]

theorem Binary32.fixed4_length (x : Binary32) : 3 ≤ x.fixed4.length := by
  cases x with
  | nan negative => simp [Binary32.fixed4, lit]
  | inf negative => simp [Binary32.fixed4, lit]
  | finite negative significand exponent =>
      simp only [Binary32.fixed4, List.length_append, length_lastDigits]
      lia

end CLib
end MQTTv1
