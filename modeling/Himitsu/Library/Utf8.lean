import Himitsu.Library.JsString

/-!
# UTF-8

* `encode` — the UTF-8 encoding of a string; a lone surrogate is encoded as U+FFFD, as
  `Buffer.from(text, "utf8")` does.
* `decode` — the decoder of `buffer.toString("utf8")`: a maximal malformed part becomes U+FFFD.

Principal results: `decode_encode` — decoding gives a well-formed string back;
`encode_toWellFormed` — the encoding does not tell a lone surrogate from U+FFFD.
-/

set_option autoImplicit false

namespace Utf8

open JsString

/-! ## Encoding -/

/-- The scalar value of a unit that is not half of a pair. -/
def scalar (c : UInt16) : Nat := if isSurrogate c then 0xFFFD else c.toNat

/-- The scalar value of a surrogate pair. -/
def pairScalar (c d : UInt16) : Nat := 0x10000 + (c.toNat - 0xD800) * 1024 + (d.toNat - 0xDC00)

def encodeScalar (n : Nat) : List UInt8 :=
  if n < 0x80 then [.ofNat n]
  else if n < 0x800 then [.ofNat (0xC0 + n / 64), .ofNat (0x80 + n % 64)]
  else if n < 0x10000 then
    [.ofNat (0xE0 + n / 4096), .ofNat (0x80 + n / 64 % 64), .ofNat (0x80 + n % 64)]
  else
    [.ofNat (0xF0 + n / 262144), .ofNat (0x80 + n / 4096 % 64), .ofNat (0x80 + n / 64 % 64),
      .ofNat (0x80 + n % 64)]

def encode : JsString → List UInt8
  | [] => []
  | [c] => encodeScalar (scalar c)
  | c :: d :: rest =>
    if isHighSurrogate c && isLowSurrogate d then encodeScalar (pairScalar c d) ++ encode rest
    else encodeScalar (scalar c) ++ encode (d :: rest)

/-! ## Decoding -/

/-- Continuation bytes still needed, the scalar value so far, and the range of the next byte. -/
structure Decoder where
  needed : Nat
  point : Nat
  lower : Nat
  upper : Nat
  deriving DecidableEq, Repr

def Decoder.idle : Decoder := ⟨0, 0, 0x80, 0xBF⟩

/-- The first byte of a sequence: what it emits and the decoder after it. -/
def lead (byte : Nat) : JsString × Decoder :=
  if byte < 0x80 then ([byte.toUInt16], .idle)
  else if 0xC2 ≤ byte ∧ byte ≤ 0xDF then ([], ⟨1, byte - 0xC0, 0x80, 0xBF⟩)
  else if 0xE0 ≤ byte ∧ byte ≤ 0xEF then
    ([], ⟨2, byte - 0xE0, if byte = 0xE0 then 0xA0 else 0x80, if byte = 0xED then 0x9F else 0xBF⟩)
  else if 0xF0 ≤ byte ∧ byte ≤ 0xF4 then
    ([], ⟨3, byte - 0xF0, if byte = 0xF0 then 0x90 else 0x80, if byte = 0xF4 then 0x8F else 0xBF⟩)
  else ([0xFFFD], .idle)

/-- The code units of a scalar value. -/
def units (n : Nat) : JsString :=
  if n < 0x10000 then [n.toUInt16]
  else [(0xD800 + (n - 0x10000) / 1024).toUInt16, (0xDC00 + (n - 0x10000) % 1024).toUInt16]

/-- A byte where the decoder is not idle. -/
def trail (decoder : Decoder) (byte : Nat) : JsString × Decoder :=
  if decoder.lower ≤ byte ∧ byte ≤ decoder.upper then
    let point := decoder.point * 64 + (byte - 0x80)
    if decoder.needed = 1 then (units point, .idle)
    else ([], ⟨decoder.needed - 1, point, 0x80, 0xBF⟩)
  else (0xFFFD :: (lead byte).1, (lead byte).2)

def decodeFrom (decoder : Decoder) : List UInt8 → JsString
  | [] => if decoder.needed = 0 then [] else [0xFFFD]
  | byte :: rest =>
    let step := if decoder.needed = 0 then lead byte.toNat else trail decoder byte.toNat
    step.1 ++ decodeFrom step.2 rest

def decode (bytes : List UInt8) : JsString := decodeFrom .idle bytes

/-! ## Decoding what was encoded -/

theorem byte_toNat {n : Nat} (h : n < 256) : (UInt8.ofNat n).toNat = n := by
  rw [UInt8.toNat_ofNat', Nat.mod_eq_of_lt h]

theorem decodeFrom_lead {n : Nat} (hn : n < 256) (rest : List UInt8) :
    decodeFrom .idle (.ofNat n :: rest) = (lead n).1 ++ decodeFrom (lead n).2 rest := by
  simp [decodeFrom, Decoder.idle, byte_toNat hn]

theorem decodeFrom_trail {point lower upper n : Nat} (needed : Nat) (hn : n < 256)
    (hlower : lower ≤ n) (hupper : n ≤ upper) (rest : List UInt8) :
    decodeFrom ⟨needed + 2, point, lower, upper⟩ (.ofNat n :: rest) =
      decodeFrom ⟨needed + 1, point * 64 + (n - 0x80), 0x80, 0xBF⟩ rest := by
  simp [decodeFrom, byte_toNat hn, trail, hlower, hupper]

theorem decodeFrom_last {point lower upper n : Nat} (hn : n < 256) (hlower : lower ≤ n)
    (hupper : n ≤ upper) (rest : List UInt8) :
    decodeFrom ⟨1, point, lower, upper⟩ (.ofNat n :: rest) =
      units (point * 64 + (n - 0x80)) ++ decodeFrom .idle rest := by
  simp [decodeFrom, byte_toNat hn, trail, hlower, hupper]

theorem lead_two {b : Nat} (h : 0xC2 ≤ b ∧ b ≤ 0xDF) :
    lead b = ([], ⟨1, b - 0xC0, 0x80, 0xBF⟩) := by
  rw [lead, if_neg (by omega), if_pos h]

theorem lead_three {b : Nat} (h : 0xE0 ≤ b ∧ b ≤ 0xEF) :
    lead b = ([], ⟨2, b - 0xE0, if b = 0xE0 then 0xA0 else 0x80,
      if b = 0xED then 0x9F else 0xBF⟩) := by
  rw [lead, if_neg (by omega), if_neg (by omega), if_pos h]

theorem lead_four {b : Nat} (h : 0xF0 ≤ b ∧ b ≤ 0xF4) :
    lead b = ([], ⟨3, b - 0xF0, if b = 0xF0 then 0x90 else 0x80,
      if b = 0xF4 then 0x8F else 0xBF⟩) := by
  rw [lead, if_neg (by omega), if_neg (by omega), if_neg (by omega), if_pos h]

/-- **One scalar value.** -/
theorem decodeFrom_encodeScalar {n : Nat} (hn : n < 0x110000) (hs : n < 0xD800 ∨ 0xDFFF < n)
    (rest : List UInt8) :
    decodeFrom .idle (encodeScalar n ++ rest) = units n ++ decodeFrom .idle rest := by
  unfold encodeScalar
  split_ifs with h1 h2 h3 <;> simp only [List.cons_append, List.nil_append]
  · rw [decodeFrom_lead (by omega), lead, if_pos h1, units, if_pos (by omega)]
  · have hpoint : (0xC0 + n / 64 - 0xC0) * 64 + (0x80 + n % 64 - 0x80) = n := by omega
    rw [decodeFrom_lead (by omega), lead_two (by omega), List.nil_append,
      decodeFrom_last (by omega) (by omega) (by omega), hpoint]
  · have hpoint : ((0xE0 + n / 4096 - 0xE0) * 64 + (0x80 + n / 64 % 64 - 0x80)) * 64 +
        (0x80 + n % 64 - 0x80) = n := by omega
    rw [decodeFrom_lead (by omega), lead_three (by omega), List.nil_append,
      decodeFrom_trail 0 (by omega) (by split <;> omega) (by split <;> omega),
      decodeFrom_last (by omega) (by omega) (by omega), hpoint]
  · have hpoint : (((0xF0 + n / 262144 - 0xF0) * 64 + (0x80 + n / 4096 % 64 - 0x80)) * 64 +
        (0x80 + n / 64 % 64 - 0x80)) * 64 + (0x80 + n % 64 - 0x80) = n := by omega
    rw [decodeFrom_lead (by omega), lead_four (by omega), List.nil_append,
      decodeFrom_trail 1 (by omega) (by split <;> omega) (by split <;> omega),
      decodeFrom_trail 0 (by omega) (by omega) (by omega),
      decodeFrom_last (by omega) (by omega) (by omega), hpoint]

theorem units_toNat (c : UInt16) : units c.toNat = [c] := by
  have hlt := c.toNat_lt
  rw [units, if_pos (by omega)]
  simp

theorem surrogate_range (c : UInt16) :
    (isHighSurrogate c = true ↔ 0xD800 ≤ c.toNat ∧ c.toNat ≤ 0xDBFF) ∧
      (isLowSurrogate c = true ↔ 0xDC00 ≤ c.toNat ∧ c.toNat ≤ 0xDFFF) := by
  simp [isHighSurrogate, isLowSurrogate, UInt16.le_iff_toNat_le]

theorem decodeFrom_unit {c : UInt16} (h : isSurrogate c = false) (rest : List UInt8) :
    decodeFrom .idle (encodeScalar (scalar c) ++ rest) = c :: decodeFrom .idle rest := by
  have hlt := c.toNat_lt
  have hrange : c.toNat < 0xD800 ∨ 0xDFFF < c.toNat := by
    rw [isSurrogate, Bool.or_eq_false_iff, ← Bool.not_eq_true, ← Bool.not_eq_true,
      (surrogate_range c).1, (surrogate_range c).2] at h
    omega
  rw [scalar, h, if_neg (by simp), decodeFrom_encodeScalar (by omega) hrange, units_toNat]
  rfl

theorem decodeFrom_pair {c d : UInt16} (h : (isHighSurrogate c && isLowSurrogate d) = true)
    (rest : List UInt8) :
    decodeFrom .idle (encodeScalar (pairScalar c d) ++ rest) =
      c :: d :: decodeFrom .idle rest := by
  rw [Bool.and_eq_true, (surrogate_range c).1, (surrogate_range d).2] at h
  have hunits : units (pairScalar c d) = [c, d] := by
    have hc : 0xD800 + (pairScalar c d - 0x10000) / 1024 = c.toNat := by
      unfold pairScalar
      omega
    have hd : 0xDC00 + (pairScalar c d - 0x10000) % 1024 = d.toNat := by
      unfold pairScalar
      omega
    rw [units, if_neg (by unfold pairScalar; omega), hc, hd]
    simp
  rw [decodeFrom_encodeScalar (by unfold pairScalar; omega) (by unfold pairScalar; omega), hunits]
  rfl

/-- **Decoding gives a well-formed string back.** -/
theorem decode_encode {s : JsString} (h : isWellFormed s = true) : decode (encode s) = s := by
  unfold decode
  fun_induction encode s with
  | case1 => rfl
  | case2 c =>
    have hunit := decodeFrom_unit (by simpa [isWellFormed] using h) []
    rwa [List.append_nil] at hunit
  | case3 c d rest hpair ih =>
    rw [isWellFormed, if_pos hpair] at h
    rw [decodeFrom_pair hpair, ih h]
  | case4 c d rest hpair ih =>
    rw [isWellFormed, if_neg hpair, Bool.and_eq_true] at h
    rw [decodeFrom_unit (by simpa using h.1), ih h.2]

theorem encode_cons_of_not_surrogate {c : UInt16} (h : isSurrogate c = false) (s : JsString) :
    encode (c :: s) = encodeScalar (scalar c) ++ encode s := by
  cases s with
  | nil => simp [encode]
  | cons d s =>
    have hpair : ¬(isHighSurrogate c && isLowSurrogate d) = true := by
      simp only [isSurrogate, Bool.or_eq_false_iff] at h
      simp [h.1]
    rw [encode, if_neg hpair]

theorem scalar_replaced (c : UInt16) :
    scalar (if isSurrogate c then 0xFFFD else c) = scalar c := by
  by_cases h : isSurrogate c = true
  · rw [if_pos h, scalar, scalar, if_pos h]
    rfl
  · rw [if_neg h]

/-- **The encoding does not tell a lone surrogate from U+FFFD.** -/
theorem encode_toWellFormed (s : JsString) : encode (toWellFormed s) = encode s := by
  fun_induction toWellFormed s with
  | case1 => rfl
  | case2 c =>
    rw [encode_cons_of_not_surrogate (replaced_not_surrogate c), scalar_replaced, encode, encode,
      List.append_nil]
  | case3 c d rest hpair ih => rw [encode, if_pos hpair, encode, if_pos hpair, ih]
  | case4 c d rest hpair ih =>
    rw [encode_cons_of_not_surrogate (replaced_not_surrogate c), scalar_replaced, ih, encode,
      if_neg hpair]

/-- Decoding an encoding replaces the lone surrogates. -/
theorem decode_encode_eq (s : JsString) : decode (encode s) = toWellFormed s := by
  rw [← encode_toWellFormed s, decode_encode (isWellFormed_toWellFormed s)]

end Utf8
