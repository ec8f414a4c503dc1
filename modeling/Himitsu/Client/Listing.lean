import Himitsu.Library.JsString
import Himitsu.Library.PageWalk

/-!
# Listing a collection

Model of `pagination`, `paginated` and the schema `pageQuery` of `apps/api/src/index.ts`, and of the
two loops that list a collection through them: `listAll` of `integrations/client/resources.go` and
`listSecrets` of `apps/cli/src/index.ts`. A request is a function of the page that it asks for: the
collection does not change while it is listed.

* `paginated` — the slice that the server returns.
* `listRoute` — a route that checks the page before it is cut out.
* `listAll`, `listSecrets` — the loops, for any page size; `PAGE_SIZE` is that of both.

Principal result: `listings_complete` — both loops end with the collection, after one request for
each page.
-/

set_option autoImplicit false

namespace Himitsu.Client

open JsString PageWalk

variable {α ε : Type}

/-! ## The server -/

/-- The query of a request, after the texts have been read as integers. -/
structure PageQuery where
  limit : Option Int
  offset : Option Int

structure ListError where
  statusCode : Nat
  code : JsString
  message : JsString
  deriving DecidableEq, Repr

def invalidRequest : ListError :=
  ⟨400, ofAscii "INVALID_REQUEST", ofAscii "Request validation failed"⟩

/-- `pageQuery`: bounds, and a default for what is missing. -/
def checkPageQuery (query : PageQuery) : Except ListError PageQuery :=
  let limit := query.limit.getD 50
  let offset := query.offset.getD 0
  if 1 ≤ limit ∧ limit ≤ 100 ∧ 0 ≤ offset then .ok ⟨some limit, some offset⟩
  else .error invalidRequest

def pagination (query : PageQuery) : Int × Int := (query.limit.getD 50, query.offset.getD 0)

/-- `Array.prototype.slice`: a negative position counts from the end. -/
def slice (all : List α) (start finish : Int) : List α :=
  let position (i : Int) : Nat := if i < 0 then (all.length + i).toNat else i.toNat
  (all.take (position finish)).drop (position start)

structure Paginated (α : Type) where
  data : List α
  limit : Int
  offset : Int
  total : Nat

def paginated (all : List α) (query : PageQuery) : Paginated α where
  data := slice all (pagination query).2 ((pagination query).2 + (pagination query).1)
  limit := (pagination query).1
  offset := (pagination query).2
  total := all.length

/-- The answer of a route that lists a collection. -/
def listRoute (all : List α) (query : PageQuery) : Except ListError (Paginated α) :=
  (checkPageQuery query).map (paginated all)

/-- What a client reads of an answer. -/
def Paginated.page (answer : Paginated α) : Page α := ⟨answer.data, some answer.total⟩

/-! ## The clients -/

/-- `pageSize` of the Go client, and the `limit=100` of the CLI. -/
def PAGE_SIZE : Nat := 100

/-- `len(items) == 0 || len(items) < pageSize || len(all) >= meta.Meta.Total`; a total that is missing
is 0. -/
def isLastPage (pageSize : Nat) (page : Page α) (all : List α) : Bool :=
  page.data.isEmpty || decide (page.data.length < pageSize) ||
    decide (page.total.getD 0 ≤ all.length)

/-- `listAll`; `do` fails with an error of the client. -/
def listAll (pageSize : Nat) (request : PageQuery → Except ε (Page α)) (fuel : Nat) :
    Option (Except ε (List α)) :=
  walk (fun offset => request ⟨some pageSize, some offset⟩) (isLastPage pageSize) fuel [] 0

/-- `all.length >= (page.meta?.total ?? all.length)`, and after that `page.data.length === 0`. -/
def isComplete (page : Page α) (all : List α) : Bool :=
  decide (page.total.getD all.length ≤ all.length) || page.data.isEmpty

/-- `listSecrets`. -/
def listSecrets (pageSize : Nat) (request : PageQuery → Except ε (Page α)) (fuel : Nat) :
    Option (Except ε (List α)) :=
  walk (fun offset => request ⟨some pageSize, some offset⟩) isComplete fuel [] 0

/-! ## Slices -/

theorem slice_of_nonneg (all : List α) (offset limit : Nat) :
    slice all offset (offset + limit) = (all.drop offset).take limit := by
  have hoffset : ¬ (offset : Int) < 0 := by omega
  have hfinish : ¬ (offset + limit : Int) < 0 := by omega
  have hnat : (offset + limit : Int).toNat = offset + limit := by omega
  rw [slice]
  dsimp only
  rw [if_neg hoffset, if_neg hfinish, hnat, Int.toNat_natCast, List.drop_take, Nat.add_sub_cancel_left]

theorem page_paginated (all : List α) (pageSize offset : Nat) :
    (paginated all ⟨some pageSize, some offset⟩).page =
      ⟨(all.drop offset).take pageSize, some all.length⟩ :=
  congrArg (Page.mk · (some all.length)) (slice_of_nonneg all offset pageSize)

theorem checkPageQuery_ok {pageSize : Nat} (hpage : 0 < pageSize) (hlimit : pageSize ≤ 100)
    (offset : Nat) :
    checkPageQuery ⟨some pageSize, some offset⟩ = .ok ⟨some pageSize, some offset⟩ := by
  refine if_pos ⟨?_, ?_, ?_⟩
  · exact Int.ofNat_le.mpr hpage
  · exact Int.ofNat_le.mpr hlimit
  · exact Int.natCast_nonneg offset

/-! ## The loops -/

/-- The server as the loops see it, without the check of the page. -/
def slices (collection : List α) (query : PageQuery) : Except ListError (Page α) :=
  .ok (paginated collection query).page

def checkedSlices (collection : List α) (query : PageQuery) : Except ListError (Page α) :=
  (listRoute collection query).map Paginated.page

section

variable {collection : List α} {pageSize offset : Nat}

/-- The Go client stops at a page that ends the collection, and at no other. -/
theorem isLastPage_slice (hpage : 0 < pageSize) :
    isLastPage pageSize ⟨(collection.drop offset).take pageSize, some collection.length⟩
      (collection.take (offset + pageSize)) = decide (collection.length ≤ offset + pageSize) := by
  rw [isLastPage, Bool.eq_iff_iff]
  simp only [Bool.or_eq_true, decide_eq_true_eq, List.isEmpty_iff_length_eq_zero,
    List.length_take, List.length_drop, Option.getD_some]
  omega

/-- So does the CLI. -/
theorem isComplete_slice (hpage : 0 < pageSize) :
    isComplete ⟨(collection.drop offset).take pageSize, some collection.length⟩
      (collection.take (offset + pageSize)) = decide (collection.length ≤ offset + pageSize) := by
  rw [isComplete, Bool.eq_iff_iff]
  simp only [Bool.or_eq_true, decide_eq_true_eq, List.isEmpty_iff_length_eq_zero,
    List.length_take, List.length_drop, Option.getD_some]
  omega

/-- A server that returns the slices of a collection. -/
def Slices (request : PageQuery → Except ε (Page α)) (pageSize : Nat) (collection : List α) : Prop :=
  ∀ offset : Nat, request ⟨some pageSize, some offset⟩ =
    .ok ⟨(collection.drop offset).take pageSize, some collection.length⟩

variable {request : PageQuery → Except ε (Page α)}

theorem listAll_complete (hpage : 0 < pageSize) (h : Slices request pageSize collection) :
    Completes (listAll pageSize request) (pages pageSize collection.length) collection :=
  completes_walk hpage fun offset _ => ⟨_, h offset, isLastPage_slice hpage⟩

theorem listSecrets_complete (hpage : 0 < pageSize) (h : Slices request pageSize collection) :
    Completes (listSecrets pageSize request) (pages pageSize collection.length) collection :=
  completes_walk hpage fun offset _ => ⟨_, h offset, isComplete_slice hpage⟩

theorem slices_spec (collection : List α) (pageSize : Nat) :
    Slices (slices collection) pageSize collection :=
  fun offset => congrArg Except.ok (page_paginated collection pageSize offset)

theorem checkedSlices_spec (collection : List α) (hpage : 0 < pageSize) (hlimit : pageSize ≤ 100) :
    Slices (checkedSlices collection) pageSize collection := by
  intro offset
  rw [checkedSlices, listRoute, checkPageQuery_ok hpage hlimit]
  exact congrArg Except.ok (page_paginated collection pageSize offset)

/-- A page size that the schema rejects ends both loops at the first request. -/
theorem listings_rejected (collection : List α) (h : pageSize = 0 ∨ 100 < pageSize) (fuel : Nat) :
    listAll pageSize (checkedSlices collection) (fuel + 1) = some (.error invalidRequest) ∧
      listSecrets pageSize (checkedSlices collection) (fuel + 1) =
        some (.error invalidRequest) := by
  have hcheck : checkedSlices collection ⟨some pageSize, some (0 : Nat)⟩ =
      .error invalidRequest := by
    have hbounds : ¬ (1 ≤ (pageSize : Int) ∧ (pageSize : Int) ≤ 100 ∧ (0 : Int) ≤ (0 : Nat)) := by
      omega
    rw [checkedSlices, listRoute, checkPageQuery]
    dsimp only [Option.getD_some]
    rw [if_neg hbounds]
    rfl
  constructor
  · rw [listAll, walk, hcheck]
  · rw [listSecrets, walk, hcheck]

end

/-- **Both loops return the collection**, every item once and in order, after one request for each
page; the route that checks the page lets every page size up to 100 through. -/
theorem listings_complete (collection : List α) {pageSize : Nat} (hpage : 0 < pageSize) :
    Completes (listAll pageSize (slices collection)) (pages pageSize collection.length)
        collection ∧
      Completes (listSecrets pageSize (slices collection)) (pages pageSize collection.length)
        collection ∧
      (pageSize ≤ 100 →
        Completes (listAll pageSize (checkedSlices collection)) (pages pageSize collection.length)
            collection ∧
          Completes (listSecrets pageSize (checkedSlices collection))
            (pages pageSize collection.length) collection) :=
  ⟨listAll_complete hpage (slices_spec collection pageSize),
    listSecrets_complete hpage (slices_spec collection pageSize),
    fun hlimit => ⟨listAll_complete hpage (checkedSlices_spec collection hpage hlimit),
      listSecrets_complete hpage (checkedSlices_spec collection hpage hlimit)⟩⟩

theorem listings_complete_pageSize :
    listAll PAGE_SIZE (checkedSlices (List.range 200)) 2 = some (.ok (List.range 200)) ∧
      listSecrets PAGE_SIZE (checkedSlices (List.range 200)) 2 = some (.ok (List.range 200)) := by
  obtain ⟨hgo, hcli⟩ := (listings_complete (List.range 200)
    (by decide : 0 < PAGE_SIZE)).2.2 (by decide)
  rw [List.length_range] at hgo hcli
  exact ⟨hgo.returns 2 (by decide), hcli.returns 2 (by decide)⟩

end Himitsu.Client
