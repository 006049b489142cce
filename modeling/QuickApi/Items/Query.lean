/-
  QuickApi.Items.Query

  `ItemPaginationQuery` with its checks, and `ItemRepository.find_and_count`
  (`app/database/repositories/item_repo.py`) under the semantics of SQL: a
  query with `ORDER BY` returns its rows in any order that the clause allows.
-/

import QuickApi.Items.Model
import QuickApi.Lib.Pages
import QuickApi.Lib.UnicodeCase
import QuickApi.Lib.PythonText
import Mathlib.Algebra.Order.Field.Rat

namespace QuickApi.Items

open QuickApi.Lib

-- ============================================================================
-- The query of a request
-- ============================================================================

/-- `MAX_SAFE_INTEGER` -/
def maxSafeInteger : Nat := 9007199254740991

inductive ItemSort where
  | createdAt
  | name
  | price
deriving DecidableEq, Repr

inductive SortOrder where
  | asc
  | desc
deriving DecidableEq, Repr

/-- The values of an `ItemPaginationQuery` once their types are right; the prices are accepted. -/
structure QueryValues where
  page : Int := 1
  limit : Int := 25
  order : List Char := "asc".toList
  search : Option (List Char) := none
  sort : ItemSort := .price
  minPrice : Option ℚ := none
  maxPrice : Option ℚ := none

/-- `ItemPaginationQuery`: what its validators check holds. -/
structure ItemPaginationQuery where
  page : Nat
  limit : Nat
  order : SortOrder
  search : Option (List Char)
  sort : ItemSort
  minPrice : Option ℚ
  maxPrice : Option ℚ
  one_le_page : 1 ≤ page
  page_le : page ≤ maxSafeInteger
  one_le_limit : 1 ≤ limit
  limit_le : limit ≤ 100
  offset_le : (page - 1) * limit ≤ maxSafeInteger
  prices_le : ∀ low ∈ minPrice, ∀ high ∈ maxPrice, low ≤ high

/-- Why a query is rejected: the fields out of range, or what a validator of the model says. -/
inductive QueryError where
  | fields (names : List String)
  | value (message : String)
deriving DecidableEq, Repr

/-- `normalize_order`, and the literal behind it. -/
def parseOrder (finalSigma : List Char → List Char → Bool) (order : List Char) :
    Option SortOrder :=
  let order := lower finalSigma order
  if order = "asc".toList then some .asc
  else if order = "desc".toList then some .desc
  else none

/-- `page` is in its range. -/
def pageOk (page : Int) : Bool := 1 ≤ page && page ≤ maxSafeInteger

/-- `limit` is in its range. -/
def limitOk (limit : Int) : Bool := 1 ≤ limit && limit ≤ 100

/-- `validate_price_range` lets the bounds pass. -/
def pricesOk (minPrice maxPrice : Option ℚ) : Bool :=
  match minPrice, maxPrice with
  | some low, some high => low ≤ high
  | _, _ => true

theorem le_of_pricesOk {minPrice maxPrice : Option ℚ} (h : pricesOk minPrice maxPrice = true) :
    ∀ low ∈ minPrice, ∀ high ∈ maxPrice, low ≤ high := by
  rintro low hlow high hhigh
  rw [Option.mem_def] at hlow hhigh
  simpa [pricesOk, hlow, hhigh] using h

/-- `(self.page - 1) * self.limit` of values in their ranges -/
theorem offset_toNat {page limit : Int} (hpage : 1 ≤ page) (hlimit : 1 ≤ limit)
    (h : (page - 1) * limit ≤ maxSafeInteger) :
    (page.toNat - 1) * limit.toNat ≤ maxSafeInteger := by
  obtain ⟨p, rfl⟩ := Int.eq_ofNat_of_zero_le (by omega : 0 ≤ page)
  obtain ⟨l, rfl⟩ := Int.eq_ofNat_of_zero_le (by omega : 0 ≤ limit)
  rw [Int.toNat_natCast, Int.toNat_natCast]
  have hcast : ((p - 1 : Nat) : Int) = (p : Int) - 1 := by omega
  rw [← hcast] at h
  exact_mod_cast h

/-- The checks of the fields, and then `validate_offset` and `validate_price_range`. -/
def ItemPaginationQuery.validate (finalSigma : List Char → List Char → Bool)
    (values : QueryValues) : Except QueryError ItemPaginationQuery :=
  match parseOrder finalSigma values.order with
  | some order =>
      if hfields : pageOk values.page ∧ limitOk values.limit then
        have hpage : 1 ≤ values.page ∧ values.page ≤ maxSafeInteger := by
          simpa [pageOk] using hfields.1
        have hlimit : 1 ≤ values.limit ∧ values.limit ≤ 100 := by
          simpa [limitOk] using hfields.2
        if hoffset : (values.page - 1) * values.limit ≤ maxSafeInteger then
          if hprices : pricesOk values.minPrice values.maxPrice then
            .ok { page := values.page.toNat, limit := values.limit.toNat, order,
                  search := values.search, sort := values.sort,
                  minPrice := values.minPrice, maxPrice := values.maxPrice,
                  one_le_page := by omega, page_le := by omega,
                  one_le_limit := by omega, limit_le := by omega,
                  offset_le := offset_toNat hpage.1 hlimit.1 hoffset,
                  prices_le := le_of_pricesOk hprices }
          else .error (.value "min_price cannot exceed max_price.")
        else .error (.value "Pagination offset exceeds the maximum safe integer")
      else .error (.fields ((if pageOk values.page then [] else ["page"]) ++
        if limitOk values.limit then [] else ["limit"]))
  | none => .error (.fields ((if pageOk values.page then [] else ["page"]) ++
      (if limitOk values.limit then [] else ["limit"]) ++ ["order"]))

/-- `offset` -/
def ItemPaginationQuery.offset (query : ItemPaginationQuery) : Nat :=
  (query.page - 1) * query.limit

/-- `PaginatedResult.total_pages` -/
def totalPages (total limit : Nat) : Nat :=
  if limit = 0 then 1 else max ((total + limit - 1) / limit) 1

-- ============================================================================
-- The query of the repository
-- ============================================================================

structure ItemListQuery where
  limit : Nat
  offset : Nat
  search : Option (List Char)
  sort : ItemSort
  order : SortOrder
  minPrice : Option ℚ
  maxPrice : Option ℚ
deriving DecidableEq

/-- `model_to(ItemListQuery, query)` -/
def ItemPaginationQuery.toListQuery (query : ItemPaginationQuery) : ItemListQuery where
  limit := query.limit
  offset := query.offset
  search := query.search
  sort := query.sort
  order := query.order
  minPrice := query.minPrice
  maxPrice := query.maxPrice

/-- A row of `items` as far as the list reads it. -/
structure Row (Id : Type) where
  id : Id
  createdAt : Int
  item : Item
deriving DecidableEq, Repr

/-- What the collation of the database decides: `ILIKE`, and the order of names. -/
structure Collation (Key : Type) where
  ilike : List Char → String → Bool
  sortKey : String → Key

variable {Id Key : Type} [LinearOrder Id] [LinearOrder Key]

/-- `f"%{payload.search.strip()}%"`, unless the search is missing or empty -/
def ItemListQuery.pattern (payload : ItemListQuery) : Option (List Char) :=
  match payload.search with
  | none => none
  | some search => if search = [] then none else some ('%' :: strip search ++ ['%'])

/-- `WHERE`: a comparison with null is not true. -/
def ItemListQuery.filters (collation : Collation Key) (payload : ItemListQuery) (row : Row Id) :
    Bool :=
  (payload.pattern.all fun pattern =>
    collation.ilike pattern row.item.name ||
      row.item.description.any fun text => collation.ilike pattern text) &&
  (payload.minPrice.all fun low => low ≤ row.item.price) &&
  payload.maxPrice.all fun high => row.item.price ≤ high

omit [LinearOrder Id] [LinearOrder Key] in
/-- A row matches that has the search text in its name or its description, whatever the search
    is, and a price within the bounds. -/
theorem ItemListQuery.filters_eq_true_iff {collation : Collation Key} {payload : ItemListQuery}
    {row : Row Id} :
    payload.filters collation row = true ↔
      (∀ search, payload.search = some search → search ≠ [] →
        collation.ilike ('%' :: strip search ++ ['%']) row.item.name = true ∨
          ∃ text, row.item.description = some text ∧
            collation.ilike ('%' :: strip search ++ ['%']) text = true) ∧
      (∀ low, payload.minPrice = some low → low ≤ row.item.price) ∧
      ∀ high, payload.maxPrice = some high → row.item.price ≤ high := by
  have hpattern : (payload.pattern.all fun pattern => collation.ilike pattern row.item.name ||
        row.item.description.any fun text => collation.ilike pattern text) = true ↔
      ∀ search, payload.search = some search → search ≠ [] →
        collation.ilike ('%' :: strip search ++ ['%']) row.item.name = true ∨
          ∃ text, row.item.description = some text ∧
            collation.ilike ('%' :: strip search ++ ['%']) text = true := by
    rw [ItemListQuery.pattern]
    cases payload.search with
    | none => simp
    | some search =>
        by_cases hnil : search = []
        · simp [hnil]
        · simp [hnil, Option.any_eq_true]
  rw [ItemListQuery.filters, Bool.and_eq_true, Bool.and_eq_true, hpattern, and_assoc]
  simp [Option.all_eq_true]

/-- The sort column of one row is at most that of another. -/
def columnLe (collation : Collation Key) (sort : ItemSort) (a b : Row Id) : Prop :=
  match sort with
  | .createdAt => a.createdAt ≤ b.createdAt
  | .name => collation.sortKey a.item.name ≤ collation.sortKey b.item.name
  | .price => a.item.price ≤ b.item.price

instance decidableColumnLe (collation : Collation Key) (sort : ItemSort) (a b : Row Id) :
    Decidable (columnLe collation sort a b) :=
  match sort with
  | .createdAt => inferInstanceAs (Decidable (a.createdAt ≤ b.createdAt))
  | .name => inferInstanceAs
      (Decidable (collation.sortKey a.item.name ≤ collation.sortKey b.item.name))
  | .price => inferInstanceAs (Decidable (a.item.price ≤ b.item.price))

/-- The sort column, and then the id. -/
def rowLe (collation : Collation Key) (sort : ItemSort) (a b : Row Id) : Prop :=
  columnLe collation sort a b ∧ (columnLe collation sort b a → a.id ≤ b.id)

instance decidableRowLe (collation : Collation Key) (sort : ItemSort) (a b : Row Id) :
    Decidable (rowLe collation sort a b) :=
  inferInstanceAs (Decidable (_ ∧ (_ → _)))

/-- `ORDER BY` lets the first row stand before the second. -/
def ItemListQuery.ordered (collation : Collation Key) (payload : ItemListQuery)
    (a b : Row Id) : Prop :=
  match payload.order with
  | .asc => rowLe collation payload.sort a b
  | .desc => rowLe collation payload.sort b a

instance decidableOrdered (collation : Collation Key) (payload : ItemListQuery) (a b : Row Id) :
    Decidable (payload.ordered collation a b) :=
  match h : payload.order with
  | .asc => decidable_of_iff (rowLe collation payload.sort a b) (by
      rw [ItemListQuery.ordered, h])
  | .desc => decidable_of_iff (rowLe collation payload.sort b a) (by
      rw [ItemListQuery.ordered, h])

/-- `base_query`: the rows that pass, in some order that the clause allows. -/
structure BaseQuery (collation : Collation Key) (table : List (Row Id)) (payload : ItemListQuery)
    (rows : List (Row Id)) : Prop where
  passed : rows.Perm (table.filter (payload.filters collation))
  sorted : rows.Pairwise (payload.ordered collation)

/-- `find_and_count`: the window of one evaluation of the query, and the count of another. -/
def FindAndCount (collation : Collation Key) (table : List (Row Id)) (payload : ItemListQuery)
    (answer : List (Row Id) × Nat) : Prop :=
  ∃ rows counted, BaseQuery collation table payload rows ∧
    BaseQuery collation table payload counted ∧
    answer = ((rows.drop payload.offset).take payload.limit, counted.length)

end QuickApi.Items
