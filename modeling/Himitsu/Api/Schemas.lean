import Himitsu.Database.Schema
import Himitsu.Library.JsonParse

/-!
# Checks of the request schemas

What `format: "uuid"`, `minLength` and `maxLength` of the schemas of `apps/api/src/index.ts` check,
and how the database reads the text of a `uuid`.

Principal result: `parseUuid_text` — the text of an id is read back.
-/

set_option autoImplicit false

namespace Himitsu.Api

open JsString Database

/-! ## Lengths -/

/-- The length of a text for the schemas: a pair of surrogates counts once. -/
def codePoints : JsString → Nat
  | [] => 0
  | [_] => 1
  | c :: d :: rest =>
    if isHighSurrogate c && isLowSurrogate d then codePoints rest + 1
    else codePoints (d :: rest) + 1

/-- `minLength` and `maxLength`. -/
def hasLength (minimum maximum : Nat) (text : JsString) : Bool :=
  minimum ≤ codePoints text && codePoints text ≤ maximum

/-! ## Ids -/

def readHex (text : JsString) : Option Nat :=
  text.foldlM (fun value c => (Json.hexDigitValue c).map fun digit => 16 * value + digit.toNat) 0

/-- Five groups of hexadecimal digits of either case. -/
def parseUuid (text : JsString) : Option Uuid :=
  match text.splitOn 0x2D with
  | [a, b, c, d, e] =>
    if a.length = 8 ∧ b.length = 4 ∧ c.length = 4 ∧ d.length = 4 ∧ e.length = 12 then
      (readHex (a ++ b ++ c ++ d ++ e)).map fun value => ⟨BitVec.ofNat 128 value⟩
    else none
  | _ => none

/-- The ids of a list of texts. Two texts of one id are two ids to a service, which then misses
one of them in the table. -/
def parseTagIds (texts : List JsString) : Option (List Uuid) := do
  let ids ← texts.reverse.dedup.reverse.mapM parseUuid
  if ids.Nodup then some ids else none

/-- Whether an id is written as the database writes it. -/
def isCanonicalId (text : JsString) : Bool := (parseUuid text).any fun id => id.text = text

theorem readHex_hexDigits (value n : Nat) :
    readHex (hexDigits value n) = some (value % 16 ^ n) := by
  induction n generalizing value with
  | zero =>
    show some 0 = some (value % 1)
    rw [Nat.mod_one]
  | succ n ih =>
    have hrest : (hexDigits (value / 16) n).foldlM (fun value c =>
        (Json.hexDigitValue c).map fun digit => 16 * value + digit.toNat) 0 =
        some (value / 16 % 16 ^ n) := ih (value / 16)
    have hmod : value % 16 ^ (n + 1) = 16 * (value / 16 % 16 ^ n) + value % 16 := by
      rw [Nat.pow_succ', Nat.mod_mul, Nat.add_comm]
    rw [readHex, hexDigits, List.foldlM_append, hrest]
    simp only [Option.bind_eq_bind, Option.bind_some, List.foldlM_cons, List.foldlM_nil,
      Json.hexDigitValue_hexDigit (nibble_lt_sixteen value), Option.map_some, nibble_toNat,
      Option.pure_def, hmod]

theorem hyphen_not_mem_hexDigits (value n : Nat) : 0x2D ∉ hexDigits value n := by
  induction n generalizing value with
  | zero => simp [hexDigits]
  | succ n ih =>
    rw [hexDigits, List.mem_append, List.mem_singleton, not_or]
    refine ⟨ih _, fun heq => ?_⟩
    have hrange := hexDigit_range (nibble_lt_sixteen value)
    rw [← heq] at hrange
    revert hrange
    decide

/-- **The text of an id is read back.** -/
theorem parseUuid_text (id : Uuid) : parseUuid id.text = some id := by
  have hhyphen := hyphen_not_mem_hexDigits id.value.toNat 32
  have hlen := hexDigits_length id.value.toNat 32
  have hread := readHex_hexDigits id.value.toNat 32
  rw [Nat.mod_eq_of_lt (show id.value.toNat < 16 ^ 32 from id.value.isLt)] at hread
  unfold parseUuid Uuid.text
  revert hhyphen hlen hread
  generalize hexDigits id.value.toNat 32 = digits
  intro hhyphen hlen hread
  have hfirst : 0x2D ∉ digits.take 8 := fun h => hhyphen (List.mem_of_mem_take h)
  have hgroup : ∀ n, 0x2D ∉ (digits.drop n).take 4 := fun n h =>
    hhyphen (List.mem_of_mem_drop (List.mem_of_mem_take h))
  have hlast : 0x2D ∉ digits.drop 20 := fun h => hhyphen (List.mem_of_mem_drop h)
  have hjoin : digits.take 8 ++ ((digits.drop 8).take 4 ++ ((digits.drop 12).take 4 ++
      ((digits.drop 16).take 4 ++ digits.drop 20))) = digits := by
    have hsplit : ∀ n, (digits.drop n).take 4 ++ digits.drop (n + 4) = digits.drop n := fun n => by
      rw [← List.drop_drop, List.take_append_drop]
    rw [hsplit 16, hsplit 12, hsplit 8, List.take_append_drop]
  simp only [List.append_assoc, List.cons_append,
    List.splitOn_append_cons_self_of_not_mem hfirst,
    List.splitOn_append_cons_self_of_not_mem (hgroup _), List.splitOn_eq_singleton hlast, hjoin,
    hread, Option.map_some, BitVec.ofNat_toNat, BitVec.setWidth_eq, List.length_take,
    List.length_drop, hlen]
  rfl

theorem isCanonicalId_text (id : Uuid) : isCanonicalId id.text = true := by
  rw [isCanonicalId, parseUuid_text]
  simp

end Himitsu.Api
