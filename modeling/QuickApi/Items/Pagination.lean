/-
  QuickApi.Items.Pagination

  The pages of a query partition the rows that match it.  The id as the last
  column of the order leaves one order of the rows, so that every evaluation of
  the query cuts its window out of the same list.
-/

import QuickApi.Items.Query
import Mathlib.Data.List.Nodup

namespace QuickApi.Items

open QuickApi.Lib

variable {Id Key : Type} [LinearOrder Id] [LinearOrder Key]

-- ============================================================================
-- The order of the rows
-- ============================================================================

theorem rowLe_antisymm {collation : Collation Key} {sort : ItemSort} {a b : Row Id}
    (hab : rowLe collation sort a b) (hba : rowLe collation sort b a) : a.id = b.id :=
  le_antisymm (hab.2 hba.1) (hba.2 hab.1)

theorem ordered_antisymm {collation : Collation Key} {payload : ItemListQuery} {a b : Row Id}
    (hab : payload.ordered collation a b) (hba : payload.ordered collation b a) :
    a.id = b.id := by
  unfold ItemListQuery.ordered at hab hba
  split at hab
  · next horder =>
      rw [horder] at hba
      exact rowLe_antisymm hab hba
  · next horder =>
      rw [horder] at hba
      exact rowLe_antisymm hba hab

/-- A query has one answer, where the ids are unique. -/
theorem BaseQuery.unique {collation : Collation Key} {table : List (Row Id)}
    {payload : ItemListQuery} {rows rows' : List (Row Id)} (hids : (table.map Row.id).Nodup)
    (h : BaseQuery collation table payload rows) (h' : BaseQuery collation table payload rows') :
    rows = rows' := by
  refine List.Perm.eq_of_pairwise (fun a b ha hb hab hba => ?_) h.sorted h'.sorted
    (h.passed.trans h'.passed.symm)
  have ha' : a ∈ table := (List.mem_filter.mp (h.passed.mem_iff.mp ha)).1
  have hb' : b ∈ table := (List.mem_filter.mp (h'.passed.mem_iff.mp hb)).1
  exact List.inj_on_of_nodup_map hids ha' hb' (ordered_antisymm hab hba)

-- ============================================================================
-- The pages of a query
-- ============================================================================

/-- The query with another page. -/
def ItemPaginationQuery.atPage (query : ItemPaginationQuery) (page : Nat) : ItemListQuery :=
  { query.toListQuery with offset := (page - 1) * query.limit }

theorem totalPages_eq (query : ItemPaginationQuery) (total : Nat) :
    totalPages total query.limit = max (pageCount query.limit total) 1 := by
  have hlimit := query.one_le_limit
  rw [totalPages, if_neg (by omega), pageCount]

/-- Every evaluation of a page cuts the same list. -/
theorem page_eq {collation : Collation Key} {table : List (Row Id)} {query : ItemPaginationQuery}
    {rows : List (Row Id)} (hids : (table.map Row.id).Nodup)
    (hrows : BaseQuery collation table query.toListQuery rows) {page : Nat}
    {answer : List (Row Id) × Nat}
    (hanswer : FindAndCount collation table (query.atPage page) answer) :
    answer = (pageOf query.limit rows (page - 1),
      (table.filter (query.toListQuery.filters collation)).length) := by
  obtain ⟨rows', counted, hrows', hcounted, rfl⟩ := hanswer
  have hrows'' : BaseQuery collation table query.toListQuery rows' :=
    ⟨hrows'.passed, hrows'.sorted⟩
  rw [hrows''.unique hids hrows, hcounted.passed.length_eq]
  rfl

/-- Every page up to the last is accepted, as long as the rows can be counted safely. -/
theorem page_accepted (query : ItemPaginationQuery) {total page : Nat}
    (htotal : total ≤ maxSafeInteger) (hone : 1 ≤ page)
    (hpage : page ≤ totalPages total query.limit) :
    ∃ accepted : ItemPaginationQuery, accepted.toListQuery = query.atPage page := by
  have hlimit := query.one_le_limit
  have hbounds : page ≤ maxSafeInteger ∧ (page - 1) * query.limit ≤ maxSafeInteger := by
    by_cases hfirst : page = 1
    · subst hfirst
      exact ⟨by decide, by simp⟩
    · rw [totalPages_eq] at hpage
      have hlt : page - 1 < pageCount query.limit total := by omega
      have hoffset := (lt_pageCount_iff hlimit).mp hlt
      have hle : page - 1 ≤ (page - 1) * query.limit := Nat.le_mul_of_pos_right _ hlimit
      omega
  exact ⟨{ query with page, one_le_page := hone, page_le := hbounds.1, offset_le := hbounds.2 },
    rfl⟩

/-- The pages of an accepted query are the matching rows, each once and in order. -/
theorem pages_partition (collation : Collation Key) (table : List (Row Id))
    (hids : (table.map Row.id).Nodup) (query : ItemPaginationQuery)
    (pages : Nat → List (Row Id) × Nat)
    (hpages : ∀ page, FindAndCount collation table (query.atPage page) (pages page)) :
    let matching := table.filter (query.toListQuery.filters collation)
    let last := totalPages matching.length query.limit
    let rows := (List.range last).flatMap fun i => (pages (i + 1)).1
    (∀ page, (pages page).2 = matching.length) ∧
      rows.Perm matching ∧ rows.Nodup ∧ rows.Pairwise (query.toListQuery.ordered collation) ∧
      (∀ page, 1 ≤ page → page < last → (pages page).1.length = query.limit) ∧
      (∀ page, last < page → (pages page).1 = []) ∧
      query.toListQuery = query.atPage query.page ∧ query.offset ≤ maxSafeInteger ∧
      (matching.length ≤ maxSafeInteger → ∀ page, 1 ≤ page → page ≤ last →
        ∃ accepted : ItemPaginationQuery, accepted.toListQuery = query.atPage page) := by
  intro matching last rows
  have hlimit : 0 < query.limit := query.one_le_limit
  obtain ⟨all, -, hall, -, -⟩ := hpages 1
  replace hall : BaseQuery collation table query.toListQuery all := ⟨hall.passed, hall.sorted⟩
  have hpage : ∀ page, pages page = (pageOf query.limit all (page - 1), matching.length) :=
    fun page => page_eq hids hall (hpages page)
  have hlength : all.length = matching.length := hall.passed.length_eq
  have hlast : last = max (pageCount query.limit all.length) 1 := by
    rw [hlength]
    exact totalPages_eq query matching.length
  have hrows : rows = all := by
    have hcongr : ∀ i ∈ List.range last, (pages (i + 1)).1 = pageOf query.limit all i :=
      fun i _ => by rw [hpage, Nat.add_sub_cancel]
    rw [show rows = (List.range last).flatMap (pageOf query.limit all) from
      List.flatMap_congr hcongr]
    exact flatMap_pageOf_all hlimit all (by omega)
  refine ⟨fun page => by rw [hpage], hrows ▸ hall.passed, ?_, hrows ▸ hall.sorted, ?_, ?_, rfl,
    query.offset_le, fun htotal page hone hle => page_accepted query htotal hone hle⟩
  · rw [hrows, hall.passed.nodup_iff]
    exact (List.Nodup.of_map Row.id hids).filter _
  · intro page hone hlt
    rw [hpage]
    exact length_pageOf_of_lt hlimit (by omega)
  · intro page hlt
    rw [hpage]
    exact pageOf_eq_nil hlimit (by omega)

/-- Three rows of one price, two to a page, in descending order. -/
private def tiedTable : List (Row Nat) :=
  [⟨2, 0, ⟨1, "Same", 1, none⟩⟩, ⟨3, 0, ⟨1, "Same", 1, none⟩⟩, ⟨1, 0, ⟨1, "Same", 1, none⟩⟩]

private def tiedRows : List (Row Nat) :=
  [⟨3, 0, ⟨1, "Same", 1, none⟩⟩, ⟨2, 0, ⟨1, "Same", 1, none⟩⟩, ⟨1, 0, ⟨1, "Same", 1, none⟩⟩]

private def tiedQuery : ItemPaginationQuery where
  page := 2
  limit := 2
  order := .desc
  search := none
  sort := .price
  minPrice := none
  maxPrice := none
  one_le_page := by decide
  page_le := by decide
  one_le_limit := by decide
  limit_le := by decide
  offset_le := by decide
  prices_le := by simp

private def plainCollation : Collation Nat := ⟨fun _ _ => false, String.length⟩

private theorem tiedRows_base (page : Nat) :
    BaseQuery plainCollation tiedTable (tiedQuery.atPage page) tiedRows where
  passed := by
    have hall : tiedTable.filter ((tiedQuery.atPage page).filters plainCollation) = tiedTable :=
      List.filter_eq_self.mpr fun row _ => ItemListQuery.filters_eq_true_iff.mpr
        ⟨nofun, nofun, nofun⟩
    rw [hall]
    decide
  sorted := by
    have hsorted : tiedRows.Pairwise (tiedQuery.toListQuery.ordered plainCollation) := by
      decide +kernel
    exact hsorted

theorem pages_partition_tied :
    ((List.range 2).flatMap fun i => (tiedRows.drop (i * 2)).take 2).Perm tiedTable :=
  (pages_partition plainCollation tiedTable (by decide) tiedQuery
    (fun page => ((tiedRows.drop ((page - 1) * 2)).take 2, 3))
    (fun page => ⟨tiedRows, tiedRows, tiedRows_base page, tiedRows_base page, rfl⟩)).2.1

end QuickApi.Items
