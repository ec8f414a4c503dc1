import Himitsu.Library.JsonParse
import Himitsu.Library.Utf8

/-!
# Arrays of strings

The JSON text of strings in arrays, at any depth, determines them.

* `Texts` — a string, or an array of such values.
* `Texts.prefix_free` — the text of such a value can be split off the front of any text.
* `Texts.encode_inj` — the bytes of such a text, which are what a digest sees, determine the value.
-/

set_option autoImplicit false

namespace Json

open JsString

inductive Texts : Json → Prop where
  | string (value : JsString) : Texts (.string value)
  | array (items : List Json) (h : ∀ item ∈ items, Texts item) : Texts (.array items)

theorem texts_strings (values : List JsString) : Texts (.array (values.map .string)) := by
  refine .array _ fun item hitem => ?_
  obtain ⟨value, -, rfl⟩ := List.mem_map.mp hitem
  exact .string value

/-- What follows an item: the other items, the bracket and the rest. -/
def afterItem : List Json → JsString → JsString
  | [], rest => 0x5D :: rest
  | item :: items, rest => 0x2C :: (stringify item ++ afterItem items rest)

theorem serializeItems_eq (items : List Json) :
    serializeItems [] [] items = items.map stringify := by
  induction items with
  | nil => rfl
  | cons item items ih => rw [serializeItems, List.map_cons, ih, stringify]

theorem intercalate_eq (item : Json) (items : List Json) (rest : JsString) :
    [0x2C].intercalate ((item :: items).map stringify) ++ 0x5D :: rest =
      stringify item ++ afterItem items rest := by
  induction items generalizing item with
  | nil => simp [afterItem]
  | cons next items ih =>
    rw [List.map_cons, List.map_cons, List.intercalate_cons_cons, List.append_assoc,
      List.append_assoc, ← List.map_cons, ih]
    rfl

theorem stringify_nil (rest : JsString) :
    stringify (.array []) ++ rest = 0x5B :: 0x5D :: rest := rfl

theorem stringify_cons (item : Json) (items : List Json) (rest : JsString) :
    stringify (.array (item :: items)) ++ rest =
      0x5B :: (stringify item ++ afterItem items rest) := by
  have hitems : serializeItems [] ([] ++ []) (item :: items) = (item :: items).map stringify :=
    serializeItems_eq _
  rw [stringify, serialize, hitems, wrap, if_neg (by simp), if_pos rfl, ← intercalate_eq]
  simp

theorem jsonQuote_prefix_free {value other s t : JsString}
    (h : jsonQuote value ++ s = jsonQuote other ++ t) : value = other ∧ s = t := by
  rw [jsonQuote_append, jsonQuote_append] at h
  have hread := congrArg parseString (List.cons.inj h).2
  rw [parseString_quoteUnits, parseString_quoteUnits] at hread
  exact Prod.mk.inj (Option.some.inj hread)

/-- The text begins with a quote or a bracket. -/
theorem Texts.begins {value : Json} (h : Texts value) (rest : JsString) :
    ∃ text, stringify value ++ rest = 0x22 :: text ∨ stringify value ++ rest = 0x5B :: text := by
  cases h with
  | string value => exact ⟨_, .inl (jsonQuote_append value rest)⟩
  | array items =>
    cases items with
    | nil => exact ⟨_, .inr (stringify_nil rest)⟩
    | cons item items => exact ⟨_, .inr (stringify_cons item items rest)⟩

def PrefixFree (value : Json) : Prop :=
  ∀ (other : Json) (s t : JsString), Texts other →
    stringify value ++ s = stringify other ++ t → value = other ∧ s = t

theorem afterItem_inj {items others : List Json} (h : ∀ item ∈ items, PrefixFree item)
    (hothers : ∀ item ∈ others, Texts item) {s t : JsString}
    (heq : afterItem items s = afterItem others t) : items = others ∧ s = t := by
  induction items generalizing others with
  | nil =>
    cases others with
    | nil => exact ⟨rfl, (List.cons.inj heq).2⟩
    | cons other others => exact absurd (List.cons.inj heq).1 (by decide)
  | cons item items ih =>
    cases others with
    | nil => exact absurd (List.cons.inj heq).1 (by decide)
    | cons other others =>
      obtain ⟨rfl, hrest⟩ := h item (List.mem_cons_self ..) other _ _
        (hothers other (List.mem_cons_self ..)) (List.cons.inj heq).2
      obtain ⟨rfl, hst⟩ := ih (fun i hi => h i (List.mem_cons_of_mem _ hi))
        (fun i hi => hothers i (List.mem_cons_of_mem _ hi)) hrest
      exact ⟨rfl, hst⟩

theorem array_prefix_free {items : List Json} (h : ∀ item ∈ items, Texts item)
    (hitems : ∀ item ∈ items, PrefixFree item) : PrefixFree (.array items) := by
  intro other s t hother heq
  cases hother with
  | string value =>
    obtain ⟨text, hquote⟩ : ∃ text, stringify (.string value) ++ t = 0x22 :: text :=
      ⟨_, jsonQuote_append value t⟩
    rw [hquote] at heq
    cases items with
    | nil => exact absurd (List.cons.inj heq).1 (by decide)
    | cons item items =>
      rw [stringify_cons] at heq
      exact absurd (List.cons.inj heq).1 (by decide)
  | array others hothers =>
    cases items with
    | nil =>
      cases others with
      | nil => exact ⟨rfl, (List.cons.inj (List.cons.inj heq).2).2⟩
      | cons other others =>
        rw [stringify_nil, stringify_cons] at heq
        obtain ⟨text, hbegins⟩ := (hothers other (List.mem_cons_self ..)).begins (afterItem others t)
        have hfirst := (List.cons.inj heq).2
        obtain hbegins | hbegins := hbegins <;> rw [hbegins] at hfirst <;>
          exact absurd (List.cons.inj hfirst).1 (by decide)
    | cons item items =>
      cases others with
      | nil =>
        rw [stringify_nil, stringify_cons] at heq
        obtain ⟨text, hbegins⟩ := (h item (List.mem_cons_self ..)).begins (afterItem items s)
        have hfirst := (List.cons.inj heq).2
        obtain hbegins | hbegins := hbegins <;> rw [hbegins] at hfirst <;>
          exact absurd (List.cons.inj hfirst).1 (by decide)
      | cons other others =>
        rw [stringify_cons, stringify_cons] at heq
        obtain ⟨rfl, hrest⟩ := hitems item (List.mem_cons_self ..) other _ _
          (hothers other (List.mem_cons_self ..)) (List.cons.inj heq).2
        obtain ⟨rfl, hst⟩ := afterItem_inj (fun i hi => hitems i (List.mem_cons_of_mem _ hi))
          (fun i hi => hothers i (List.mem_cons_of_mem _ hi)) hrest
        exact ⟨rfl, hst⟩

theorem Texts.prefix_free {value : Json} (h : Texts value) : PrefixFree value := by
  induction h with
  | string value =>
    intro other s t hother heq
    cases hother with
    | string other =>
      obtain ⟨rfl, hst⟩ := jsonQuote_prefix_free heq
      exact ⟨rfl, hst⟩
    | array others hothers =>
      rw [show stringify (.string value) ++ s = 0x22 :: _ from jsonQuote_append value s] at heq
      cases others with
      | nil => exact absurd (List.cons.inj heq).1 (by decide)
      | cons other others =>
        rw [stringify_cons] at heq
        exact absurd (List.cons.inj heq).1 (by decide)
  | array items h ih => exact array_prefix_free h ih

/-! ## The bytes of the text -/

theorem isWellFormed_afterItem {items : List Json}
    (h : ∀ item ∈ items, ∀ rest, isWellFormed (stringify item ++ rest) = isWellFormed rest)
    (rest : JsString) : isWellFormed (afterItem items rest) = isWellFormed rest := by
  induction items with
  | nil => exact isWellFormed_cons (isSurrogate_ascii (by decide)) rest
  | cons item items ih =>
    rw [afterItem, isWellFormed_cons (isSurrogate_ascii (by decide)), h item (List.mem_cons_self ..)]
    exact ih fun i hi => h i (List.mem_cons_of_mem _ hi)

theorem Texts.isWellFormed_append {value : Json} (h : Texts value) (rest : JsString) :
    isWellFormed (stringify value ++ rest) = isWellFormed rest := by
  induction h generalizing rest with
  | string value => exact isWellFormed_jsonQuote value rest
  | array items h ih =>
    cases items with
    | nil =>
      rw [stringify_nil, isWellFormed_cons (isSurrogate_ascii (by decide)),
        isWellFormed_cons (isSurrogate_ascii (by decide))]
    | cons item items =>
      rw [stringify_cons, isWellFormed_cons (isSurrogate_ascii (by decide)),
        ih item (List.mem_cons_self ..)]
      exact isWellFormed_afterItem (fun i hi => ih i (List.mem_cons_of_mem _ hi)) rest

/-- **The bytes of the text determine the value.** -/
theorem Texts.encode_inj {value other : Json} (h : Texts value) (hother : Texts other)
    (heq : Utf8.encode (stringify value) = Utf8.encode (stringify other)) : value = other := by
  have hwell : ∀ {v : Json}, Texts v → isWellFormed (stringify v) = true := fun hv => by
    have happend := hv.isWellFormed_append []
    rw [List.append_nil] at happend
    rw [happend]
    rfl
  have htext := congrArg Utf8.decode heq
  rw [Utf8.decode_encode (hwell h), Utf8.decode_encode (hwell hother)] at htext
  exact (h.prefix_free other [] [] hother (by rw [htext])).1

end Json
