import Himitsu.Library.JsonParse

/-!
# The type `uuid`

* `Uuid`, `Uuid.text` — a value and the text that the driver hands over.
* `uuidIn` — how the database reads a text: hexadecimal digits of either case, optional hyphens
  after each four of them, optional braces.

Principal result: `uuidIn_text` — the text of an id is read back.
-/

set_option autoImplicit false

namespace Himitsu.Database

open JsString

/-- A `uuid`. -/
structure Uuid where
  value : BitVec 128
  deriving DecidableEq, Repr

def hexDigits (value : Nat) : Nat → JsString
  | 0 => []
  | n + 1 => hexDigits (value / 16) n ++ [hexDigit (UInt16.ofNat (value % 16))]

/-- The text of a `uuid` as the driver hands it over. -/
def Uuid.text (id : Uuid) : JsString :=
  let digits := hexDigits id.value.toNat 32
  digits.take 8 ++ 0x2D :: (digits.drop 8).take 4 ++ 0x2D :: (digits.drop 12).take 4 ++
    0x2D :: (digits.drop 16).take 4 ++ 0x2D :: digits.drop 20

/-- The hyphen that may follow a group of four digits. -/
def skipHyphen (text : JsString) : JsString :=
  match text with
  | 0x2D :: rest => rest
  | _ => text

/-- The value of groups of four digits, with what follows them. The last group has no hyphen. -/
def readGroups : Nat → Nat → JsString → Option (Nat × JsString)
  | 0, value, rest => some (value, rest)
  | groups + 1, value, a :: b :: c :: d :: rest => do
    let unit ← Json.hexUnit a b c d
    readGroups groups (value * 65536 + unit.toNat) (if groups = 0 then rest else skipHyphen rest)
  | _ + 1, _, _ => none

/-- The input function of the type. -/
def uuidIn (text : JsString) : Option Uuid :=
  match text with
  | 0x7B :: rest =>
    match readGroups 8 0 rest with
    | some (value, [0x7D]) => some ⟨BitVec.ofNat 128 value⟩
    | _ => none
  | _ =>
    match readGroups 8 0 text with
    | some (value, []) => some ⟨BitVec.ofNat 128 value⟩
    | _ => none

/-! ## Reading back -/

theorem hexDigits_length (value n : Nat) : (hexDigits value n).length = n := by
  induction n generalizing value with
  | zero => rfl
  | succ n ih => rw [hexDigits, List.length_append, ih, List.length_singleton]

theorem hexDigits_add (value m n : Nat) :
    hexDigits value (m + n) = hexDigits (value / 16 ^ n) m ++ hexDigits value n := by
  induction n generalizing value with
  | zero => simp [hexDigits]
  | succ n ih =>
    rw [← Nat.add_assoc, hexDigits, ih, hexDigits, List.append_assoc, Nat.div_div_eq_div_mul,
      ← Nat.pow_succ']

theorem nibble_toNat (value : Nat) : (UInt16.ofNat (value % 16)).toNat = value % 16 := by
  rw [UInt16.toNat_ofNat']
  omega

theorem nibble_lt_sixteen (value : Nat) : UInt16.ofNat (value % 16) < 16 := by
  rw [UInt16.lt_iff_toNat_lt, nibble_toNat]
  show value % 16 < 16
  omega

/-- The four digits of a group are read back. -/
theorem readGroups_hexDigits (groups value unit : Nat) (rest : JsString) :
    readGroups (groups + 1) value (hexDigits unit 4 ++ rest) =
      readGroups groups (value * 65536 + unit % 65536)
        (if groups = 0 then rest else skipHyphen rest) := by
  have hunit : (unit / 16 / 16 / 16 % 16 * 4096 + unit / 16 / 16 % 16 * 256 + unit / 16 % 16 * 16 +
      unit % 16).toUInt16.toNat = unit % 65536 := by
    rw [Nat.toUInt16_eq, UInt16.toNat_ofNat']
    omega
  simp only [hexDigits, List.nil_append, List.cons_append, readGroups, Json.hexUnit,
    Json.hexDigitValue_hexDigit (nibble_lt_sixteen _), nibble_toNat, bind, Option.bind, pure, hunit]

theorem skipHyphen_hyphen (rest : JsString) : skipHyphen (0x2D :: rest) = rest := rfl

/-- A group of digits begins with neither a hyphen nor a brace. -/
theorem hexDigits_ne_cons {c : UInt16} (h : c < 0x30 ∨ 0x66 < c) (unit : Nat)
    (rest tail : JsString) : hexDigits unit 4 ++ rest ≠ c :: tail := by
  intro heq
  simp only [hexDigits, List.nil_append, List.cons_append, List.cons.injEq] at heq
  have hrange := hexDigit_range (nibble_lt_sixteen (unit / 16 / 16 / 16))
  rw [heq.1] at hrange
  grind

theorem skipHyphen_hexDigits (unit : Nat) (rest : JsString) :
    skipHyphen (hexDigits unit 4 ++ rest) = hexDigits unit 4 ++ rest := by
  unfold skipHyphen
  split
  · rename_i heq
    exact absurd heq (hexDigits_ne_cons (by decide) _ _ _)
  · rfl

/-- The text of an id by its groups of four digits. -/
theorem Uuid.text_eq (id : Uuid) :
    id.text =
      hexDigits (id.value.toNat / 16 ^ 28) 4 ++ (hexDigits (id.value.toNat / 16 ^ 24) 4 ++
      0x2D :: (hexDigits (id.value.toNat / 16 ^ 20) 4 ++
      0x2D :: (hexDigits (id.value.toNat / 16 ^ 16) 4 ++
      0x2D :: (hexDigits (id.value.toNat / 16 ^ 12) 4 ++
      0x2D :: (hexDigits (id.value.toNat / 16 ^ 8) 4 ++
      (hexDigits (id.value.toNat / 16 ^ 4) 4 ++ hexDigits id.value.toNat 4)))))) := by
  have hdigits : hexDigits id.value.toNat 32 =
      hexDigits (id.value.toNat / 16 ^ 28) 4 ++ (hexDigits (id.value.toNat / 16 ^ 24) 4 ++
      (hexDigits (id.value.toNat / 16 ^ 20) 4 ++ (hexDigits (id.value.toNat / 16 ^ 16) 4 ++
      (hexDigits (id.value.toNat / 16 ^ 12) 4 ++ (hexDigits (id.value.toNat / 16 ^ 8) 4 ++
      (hexDigits (id.value.toNat / 16 ^ 4) 4 ++ hexDigits id.value.toNat 4)))))) := by
    rw [hexDigits_add _ 4 28, hexDigits_add _ 4 24, hexDigits_add _ 4 20, hexDigits_add _ 4 16,
      hexDigits_add _ 4 12, hexDigits_add _ 4 8, hexDigits_add _ 4 4]
  have hgroup : ∀ unit, (hexDigits unit 4).length = 4 := fun unit => hexDigits_length unit 4
  unfold Uuid.text
  simp only [hdigits, List.take_append, List.drop_append, hgroup, List.take_of_length_le,
    List.drop_of_length_le, Nat.le_refl, Nat.reduceLeDiff, Nat.reduceSub, List.take_zero,
    List.drop_zero, List.nil_append, List.append_nil, List.append_assoc, List.cons_append]

/-- **The text of an id is read back.** -/
theorem uuidIn_text (id : Uuid) : uuidIn id.text = some id := by
  have hread : readGroups 8 0 id.text = some (id.value.toNat, []) := by
    have hlt := id.value.isLt
    rw [Uuid.text_eq, ← List.append_nil (hexDigits id.value.toNat 4)]
    simp only [readGroups_hexDigits, skipHyphen_hyphen, skipHyphen_hexDigits,
      Nat.reduceEqDiff, if_false, if_true, readGroups, Option.some.injEq, Prod.mk.injEq, and_true]
    omega
  have hbrace : ∀ rest, id.text ≠ 0x7B :: rest := fun rest => by
    rw [Uuid.text_eq]
    exact hexDigits_ne_cons (by decide) _ _ _
  unfold uuidIn
  split
  · rename_i heq
    exact absurd heq (hbrace _)
  · rw [hread]
    simp only [BitVec.ofNat_toNat, BitVec.setWidth_eq]

/-- Capital digits, with braces and fewer hyphens. -/
example : uuidIn (ofAscii "\x7b000000000000-000000000000-000000AB\x7d") = some ⟨0xAB⟩ := by decide

end Himitsu.Database
