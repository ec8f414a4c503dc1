import Himitsu.Library.JsString

/-!
# Base64url

* `encode` — `bytes.toString("base64url")`: no padding.
* `decode` — `Buffer.from(text, "base64url")`: both alphabets are read, every other character
  is skipped.

Principal result: `decode_encode`.
-/

set_option autoImplicit false

namespace Base64Url

/-! ## Digits -/

/-- `A-Z`, `a-z`, `0-9`, `-`, `_`. -/
def digit (n : Nat) : UInt16 :=
  if n < 26 then (0x41 + n).toUInt16
  else if n < 52 then (0x61 + (n - 26)).toUInt16
  else if n < 62 then (0x30 + (n - 52)).toUInt16
  else if n = 62 then 0x2D
  else 0x5F

/-- The value of a digit of either alphabet. -/
def digitValue (c : UInt16) : Option Nat :=
  if 0x41 ≤ c ∧ c ≤ 0x5A then some (c.toNat - 0x41)
  else if 0x61 ≤ c ∧ c ≤ 0x7A then some (c.toNat - 0x61 + 26)
  else if 0x30 ≤ c ∧ c ≤ 0x39 then some (c.toNat - 0x30 + 52)
  else if c = 0x2D ∨ c = 0x2B then some 62
  else if c = 0x5F ∨ c = 0x2F then some 63
  else none

theorem digitValue_digit {n : Nat} (h : n < 64) : digitValue (digit n) = some n := by
  have hall : ((List.range 64).all fun n => decide (digitValue (digit n) = some n)) = true := by
    decide +kernel
  exact of_decide_eq_true (List.all_eq_true.mp hall n (List.mem_range.mpr h))

/-! ## Groups of three bytes -/

def encode : List UInt8 → JsString
  | [] => []
  | [a] => [digit (a.toNat / 4), digit (a.toNat % 4 * 16)]
  | [a, b] =>
    [digit (a.toNat / 4), digit (a.toNat % 4 * 16 + b.toNat / 16), digit (b.toNat % 16 * 4)]
  | a :: b :: c :: rest =>
    digit (a.toNat / 4) :: digit (a.toNat % 4 * 16 + b.toNat / 16) ::
      digit (b.toNat % 16 * 4 + c.toNat / 64) :: digit (c.toNat % 64) :: encode rest

def decodeDigits : List Nat → List UInt8
  | [] => []
  | [_] => []
  | [p, q] => [.ofNat (p * 4 + q / 16)]
  | [p, q, r] => [.ofNat (p * 4 + q / 16), .ofNat (q % 16 * 16 + r / 4)]
  | p :: q :: r :: s :: rest =>
    .ofNat (p * 4 + q / 16) :: .ofNat (q % 16 * 16 + r / 4) :: .ofNat (r % 4 * 64 + s) ::
      decodeDigits rest

def decode (text : JsString) : List UInt8 := decodeDigits (text.filterMap digitValue)

theorem filterMap_digit_cons {n : Nat} (h : n < 64) (text : JsString) :
    (digit n :: text).filterMap digitValue = n :: text.filterMap digitValue := by
  rw [List.filterMap_cons, digitValue_digit h]

theorem ofNat_eq {n : Nat} {b : UInt8} (h : n = b.toNat) : UInt8.ofNat n = b := by
  rw [h, UInt8.ofNat_toNat]

/-- **Decoding gives the encoded bytes back.** -/
theorem decode_encode (bytes : List UInt8) : decode (encode bytes) = bytes := by
  unfold decode
  fun_induction encode bytes with
  | case1 => rfl
  | case2 a =>
    have ha := a.toNat_lt
    rw [filterMap_digit_cons (by omega), filterMap_digit_cons (by omega), List.filterMap_nil,
      decodeDigits, ofNat_eq (b := a) (by omega)]
  | case3 a b =>
    have ha := a.toNat_lt
    have hb := b.toNat_lt
    rw [filterMap_digit_cons (by omega), filterMap_digit_cons (by omega),
      filterMap_digit_cons (by omega), List.filterMap_nil, decodeDigits,
      ofNat_eq (b := a) (by omega), ofNat_eq (b := b) (by omega)]
  | case4 a b c rest ih =>
    have ha := a.toNat_lt
    have hb := b.toNat_lt
    have hc := c.toNat_lt
    rw [filterMap_digit_cons (by omega), filterMap_digit_cons (by omega),
      filterMap_digit_cons (by omega), filterMap_digit_cons (by omega), decodeDigits, ih,
      ofNat_eq (b := a) (by omega), ofNat_eq (b := b) (by omega), ofNat_eq (b := c) (by omega)]

end Base64Url
