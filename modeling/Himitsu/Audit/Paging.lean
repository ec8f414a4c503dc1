import Himitsu.Audit.Events
import Himitsu.Library.Keyset

/-!
# Following the pages of the audit log

The database compares `(occurred_at, id)` at microseconds; the cursor holds milliseconds.  The
client's walk is the keyset walk of `Keyset.drain` with that cursor.

* `eventKey`, `cursorKey` — the key of an event and the bound made from it.
* `list_page` — one request shows the first rows of what is left.
* `followPages_eq` — the run over all pages.
* `followPages_terminates`, `followPages_sublist` — the walk ends and never repeats an event.

Principal result: `showsAll_iff` — the walk shows every matching event exactly when at every
page boundary the next event still precedes the boundary event after its time is cut to
milliseconds.
-/

set_option autoImplicit false

namespace Himitsu.Audit

open Keyset JsString Database

/-- Arguments that `list` and the database accept: `limit` is the page limit they ask for, and
`parameters` is what the clauses compare with. -/
structure AcceptedFilters where
  filters : AuditEventFilters
  limit : Nat
  parameters : Parameters
  accepted : checkFilters filters 100 = .ok limit
  bound : bindFilters filters = .ok parameters

theorem AcceptedFilters.limit_pos (request : AcceptedFilters) : 0 < request.limit := by
  have h := request.accepted
  unfold checkFilters at h
  dsimp only at h
  split at h
  · cases h
  · rename_i hlimit
    have hpos : 0 < (request.filters.limit.getD 50).toNat := by omega
    split at h
    · cases h
    · split at h
      · cases h
      · split at h
        · split at h
          · cases h
          · exact Except.ok.inj h ▸ hpos
        · exact Except.ok.inj h ▸ hpos

/-! ## Keys -/

def eventKey (event : AuditEventRow) : Int ×ₗ Nat := toLex (event.occurredAt, event.id)

def cursorKey (event : AuditEventRow) : Int ×ₗ Nat :=
  toLex (timestamptz (driverDate event.occurredAt), event.id)

theorem cursorKey_le (event : AuditEventRow) : cursorKey event ≤ eventKey event := by
  rw [cursorKey, eventKey, Prod.Lex.toLex_le_toLex]
  unfold timestamptz driverDate
  dsimp only
  omega

theorem precedes_iff (event : AuditEventRow) (occurredAt : Int) (id : Nat) :
    precedes event occurredAt id = true ↔ eventKey event < toLex (occurredAt, id) := by
  simp [precedes, eventKey, Prod.Lex.toLex_lt_toLex]

theorem orderEvents_perm (events : List AuditEventRow) : (orderEvents events).Perm events :=
  List.perm_insertionSort _ _

theorem orderEvents_descending {events : List AuditEventRow} (h : (events.map (·.id)).Nodup) :
    Descending eventKey (orderEvents events) := by
  have hrel : ∀ a b : AuditEventRow,
      precedes a b.occurredAt b.id = false ↔ eventKey b ≤ eventKey a := by
    intro a b
    rw [Bool.eq_false_iff, ne_eq, precedes_iff, not_lt]
    rfl
  have htotal : Std.Total fun a b : AuditEventRow => precedes a b.occurredAt b.id = false :=
    ⟨fun a b => by simpa only [hrel] using le_total (eventKey b) (eventKey a)⟩
  have htrans : IsTrans AuditEventRow fun a b => precedes a b.occurredAt b.id = false :=
    ⟨fun a b c => by simpa only [hrel] using fun hab hbc => le_trans hbc hab⟩
  have hsorted : (orderEvents events).Pairwise fun a b => eventKey b ≤ eventKey a :=
    (List.pairwise_insertionSort _ _).imp fun {a b} hab => (hrel a b).mp hab
  have hnodup : (orderEvents events).Pairwise fun a b => a.id ≠ b.id := by
    rw [← List.pairwise_map]
    exact (((orderEvents_perm events).map (·.id)).nodup_iff).mpr h
  refine (hsorted.and hnodup).imp ?_
  rintro a b ⟨hle, hne⟩
  refine lt_of_le_of_ne hle fun heq => hne ?_
  exact (Prod.mk.inj (toLex.injective heq)).2.symm

/-- The events that a request asks for, newest first. -/
def matchingEvents (engine : Engine) (tables : AuditTables) (orgId : Uuid)
    (request : AcceptedFilters) : List AuditEventRow :=
  orderEvents (tables.events.filter (filterClauses engine tables orgId request.parameters))

section

variable (engine : Engine) (tables : AuditTables) (orgId : Uuid) (request : AcceptedFilters)

theorem matchingEvents_descending :
    Descending eventKey (matchingEvents engine tables orgId request) :=
  orderEvents_descending (tables.ids_nodup.sublist (List.filter_sublist.map _))

theorem matchingEvents_mem {event : AuditEventRow}
    (h : event ∈ matchingEvents engine tables orgId request) : event ∈ tables.events :=
  List.mem_of_mem_filter ((orderEvents_perm _).mem_iff.mp h)

/-- The rows below a cursor, in order. -/
theorem orderEvents_below (last : AuditEventRow) :
    orderEvents ((tables.events.filter
        (filterClauses engine tables orgId request.parameters)).filter
      (precedes · (timestamptz (driverDate last.occurredAt)) last.id)) =
      below eventKey cursorKey last (matchingEvents engine tables orgId request) := by
  have hfilter : ∀ event : AuditEventRow,
      precedes event (timestamptz (driverDate last.occurredAt)) last.id =
        decide (eventKey event < cursorKey last) := by
    intro event
    rw [Bool.eq_iff_iff, precedes_iff, decide_eq_true_eq, cursorKey]
  simp only [hfilter]
  refine Descending.eq_of_perm (orderEvents_descending ?_)
    ((matchingEvents_descending engine tables orgId request).sublist (below_sublist _ _)) ?_
  · exact tables.ids_nodup.sublist ((List.filter_sublist.trans List.filter_sublist).map _)
  · exact (orderEvents_perm _).trans ((orderEvents_perm _).filter _).symm

/-! ## One page -/

/-- What is left to show at a cursor that the walk has reached. -/
inductive Left : Option JsString → List AuditEventRow → Prop where
  | all : Left none (matchingEvents engine tables orgId request)
  | after (last : AuditEventRow) (h : last ∈ tables.events) :
    Left (some (encodeCursor (eventFromRow tables last)))
      (below eventKey cursorKey last (matchingEvents engine tables orgId request))

theorem pageOf_take (limit : Nat) (rest : List AuditEventRow) :
    pageOf tables limit (rest.take (limit + 1)) =
      if limit < rest.length then
        ⟨(rest.take limit).map (eventFromRow tables),
          (rest.take limit).getLast?.map fun last => encodeCursor (eventFromRow tables last)⟩
      else ⟨rest.map (eventFromRow tables), none⟩ := by
  have hlen : (rest.take (limit + 1)).length = min (limit + 1) rest.length := List.length_take
  unfold pageOf
  by_cases hmore : limit < rest.length
  · have htake : (rest.take (limit + 1)).take limit = rest.take limit := by
      rw [List.take_take, Nat.min_eq_left (Nat.le_succ limit)]
    simp only [hlen, show limit < min (limit + 1) rest.length by omega, decide_true, if_true,
      if_pos hmore, htake, List.getLast?_map, Option.map_map]
    rfl
  · have htake : rest.take (limit + 1) = rest := List.take_of_length_le (by omega)
    simp [htake, hmore]

/-- **One request** shows the first rows of what is left. -/
theorem list_page {cursor : Option JsString} {rest : List AuditEventRow}
    (h : Left engine tables orgId request cursor rest) :
    list engine tables orgId { request.filters with cursor := cursor } =
      .ok (pageOf tables request.limit (rest.take (request.limit + 1))) := by
  have hcheck : checkFilters { request.filters with cursor := cursor } 100 = .ok request.limit :=
    request.accepted
  have hbound : bindFilters { request.filters with cursor := cursor } = .ok request.parameters :=
    request.bound
  unfold list query
  rw [hcheck, hbound]
  cases h with
  | all => simp only [Except.mapError, Option.mapM_none, bind, Except.bind, pure, Except.pure,
      Option.all_none, List.filter_true, matchingEvents]
  | after last hlast =>
    simp only [decodeCursor_encodeCursor engine tables hlast, bindCursor_driverDate tables hlast,
      Except.mapError, Option.mapM_some, Functor.map, Except.map, bind, Except.bind,
      Option.all_some, orderEvents_below]

/-! ## The run -/

theorem Left.sublist {cursor : Option JsString} {rest : List AuditEventRow}
    (h : Left engine tables orgId request cursor rest) :
    rest.Sublist (matchingEvents engine tables orgId request) := by
  cases h with
  | all => exact List.Sublist.refl _
  | after last hlast => exact below_sublist _ _

/-- What is left after a full page. -/
theorem Left.next {cursor : Option JsString} {rest : List AuditEventRow}
    (h : Left engine tables orgId request cursor rest) {last : AuditEventRow}
    (hlast : last ∈ rest) :
    Left engine tables orgId request (some (encodeCursor (eventFromRow tables last)))
      (below eventKey cursorKey last rest) := by
  have hmem := matchingEvents_mem engine tables orgId request
    ((Left.sublist engine tables orgId request h).subset hlast)
  cases h with
  | all => exact .after last hmem
  | after prev hprev =>
    have hbelow : eventKey last < cursorKey prev := by
      simp only [below, List.mem_filter, decide_eq_true_eq] at hlast
      exact hlast.2
    rw [below_below ((cursorKey_le last).trans hbelow.le)]
    exact .after last hmem

/-- **The run** over the pages is the keyset walk over what is left. -/
theorem followPages_eq (fuel : Nat) {cursor : Option JsString} {rest : List AuditEventRow}
    (h : Left engine tables orgId request cursor rest) :
    followPages engine tables orgId request.filters fuel cursor =
      .ok ((drain eventKey cursorKey request.limit fuel rest).map
        (·.map (eventFromRow tables))) := by
  induction fuel generalizing cursor rest with
  | zero => rfl
  | succ fuel ih =>
    rw [followPages, list_page engine tables orgId request h, pageOf_take, drain]
    by_cases hmore : request.limit < rest.length
    · obtain ⟨last, hlast, -⟩ := getLast_take request.limit_pos hmore
      have hmem : last ∈ rest := List.mem_of_mem_take (List.mem_of_getLast? hlast)
      have hrest := ih (Left.next engine tables orgId request h hmem)
      simp only [if_pos hmore, hlast, Option.map_some, bind, Except.bind, hrest, Option.map_map]
      congr 2
      funext out
      simp
    · simp only [if_neg hmore, bind, Except.bind, Option.map_some]

/-- The walk of a client that starts without a cursor shows exactly the matching events. -/
def ShowsAll : Prop :=
  ∃ fuel, followPages engine tables orgId request.filters fuel none =
    .ok (some ((matchingEvents engine tables orgId request).map (eventFromRow tables)))

/-- **The walk ends, and what it shows is in order and without repetition**, whatever the
timestamps are. -/
theorem followPages_ends :
    ∃ (fuel : Nat) (out : List AuditEventRow),
      followPages engine tables orgId request.filters fuel none =
        .ok (some (out.map (eventFromRow tables))) ∧
      out.Sublist (matchingEvents engine tables orgId request) := by
  have hd := matchingEvents_descending engine tables orgId request
  obtain ⟨out, hout⟩ := drain_terminates cursorKey_le request.limit_pos hd (Nat.lt_succ_self _)
  refine ⟨(matchingEvents engine tables orgId request).length + 1, out, ?_,
    drain_sublist cursorKey_le request.limit_pos hd hout⟩
  rw [followPages_eq engine tables orgId request _ .all, hout]
  rfl

theorem showsAll_iff_boundaries :
    ShowsAll engine tables orgId request ↔
      Boundaries eventKey cursorKey request.limit
        (matchingEvents engine tables orgId request) := by
  have hd := matchingEvents_descending engine tables orgId request
  constructor
  · rintro ⟨fuel, h⟩
    rw [followPages_eq engine tables orgId request fuel .all, Except.ok.injEq,
      Option.map_eq_some_iff] at h
    obtain ⟨out, hout, hmap⟩ := h
    have hsub := drain_sublist cursorKey_le request.limit_pos hd hout
    have hlen := congrArg List.length hmap
    rw [List.length_map, List.length_map] at hlen
    exact (drain_eq_iff cursorKey_le request.limit_pos hd hout).mp (hsub.eq_of_length hlen)
  · intro h
    obtain ⟨out, hout⟩ := drain_terminates cursorKey_le request.limit_pos hd (Nat.lt_succ_self _)
    refine ⟨(matchingEvents engine tables orgId request).length + 1, ?_⟩
    rw [followPages_eq engine tables orgId request _ .all, hout,
      (drain_eq_iff cursorKey_le request.limit_pos hd hout).mpr h]
    rfl

/-- **The exact condition of complete paging**: cutting the boundary event's time to
milliseconds must leave the next event below it. -/
theorem showsAll_iff :
    ShowsAll engine tables orgId request ↔
      ∀ k last next,
        (matchingEvents engine tables orgId request)[(k + 1) * request.limit - 1]? = some last →
        (matchingEvents engine tables orgId request)[(k + 1) * request.limit]? = some next →
        precedes next (timestamptz (driverDate last.occurredAt)) last.id = true := by
  rw [showsAll_iff_boundaries]
  simp only [Boundaries, precedes_iff, cursorKey]

end

/-! ## Events of one transaction -/

/-- Two events of one transaction, which share a timestamp of 1.5 milliseconds. -/
def transactionTables : AuditTables where
  events := [1, 2].map fun id =>
    ⟨id, ⟨1⟩, .system, none, none, ofAscii "project.created", ofAscii "project", none,
      none, none, none, none, .object [], 1500⟩
  users := []
  apiKeys := []
  ids_nodup := by decide
  id_range := by simp [MAX_BIGINT]
  time_range := by simp [MIN_TIMESTAMP, IsoDate.isTimeValue]

/-- Pages of one event. -/
def singleEventPages : AcceptedFilters where
  filters := ⟨none, none, none, none, none, none, none, none, some 1⟩
  limit := 1
  parameters := ⟨none, none, none, none, none, none, none⟩
  accepted := rfl
  bound := rfl

/-- The second page is empty: its cursor, one millisecond, lies below the remaining event. -/
theorem transaction_not_showsAll :
    ¬ ShowsAll ⟨fun _ _ => false, fun _ => none, id⟩ transactionTables ⟨1⟩
      singleEventPages := by
  rw [showsAll_iff_boundaries]
  intro h
  have hkey := h 0 _ _ rfl rfl
  revert hkey
  decide

end Himitsu.Audit
