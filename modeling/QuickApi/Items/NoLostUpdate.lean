/-
  QuickApi.Items.NoLostUpdate

  What serialization means for versions: the committed mutations of an item
  form a chain of versions, and refusals are exact.
-/

import QuickApi.Items.Serialization

namespace QuickApi.Items

open QuickApi.Lib

-- ============================================================================
-- Atomic mutations
-- ============================================================================

/-- `update` and `replace` change the version; `delete` removes the row. -/
def Mutation.isUpdate (m : Mutation) : Bool := m.data?.isSome

/-- An update has no version left to give the row. -/
def Mutation.AtMaximum (m : Mutation) (item : Item) : Prop :=
  m.isUpdate = true ∧ item.version = maxVersion

/-- The atomic mutation succeeds exactly on a row of the expected version, unless an update
    meets the maximum. -/
theorem Mutation.apply_eq_ok {m : Mutation} {row row' : Option Item}
    (h : m.apply row = .ok row') :
    ∃ item, row = some item ∧ item.version = m.expectedVersion.value ∧ ¬ m.AtMaximum item ∧
      row'.map Item.version =
        if m.isUpdate then some (m.expectedVersion.value + 1) else none := by
  cases row with
  | none => cases h
  | some item =>
      refine ⟨item, rfl, ?_⟩
      simp only [Mutation.apply] at h
      split at h
      · cases h
      · next hv =>
        have hv := not_not.mp hv
        cases hdata : m.data? with
        | none =>
            rw [hdata] at h
            obtain rfl := Except.ok.inj h
            simp [hv, Mutation.AtMaximum, Mutation.isUpdate, hdata]
        | some data =>
            simp only [hdata] at h
            split at h
            · cases h
            · next hmax =>
              obtain rfl := Except.ok.inj h
              simp [hv, hv ▸ hmax, Mutation.AtMaximum, Mutation.isUpdate, hdata]

/-- The two refusals, each with its exact condition. -/
theorem Mutation.apply_eq_error {m : Mutation} {row : Option Item} {e : HTTPException}
    (h : m.apply row = .error e) :
    (e = notFound ∧ row = none) ∨
    (e = versionConflict ∧
      ∃ item, row = some item ∧
        (item.version ≠ m.expectedVersion.value ∨ m.AtMaximum item)) := by
  cases row with
  | none => exact Or.inl ⟨(Except.error.inj h).symm, rfl⟩
  | some item =>
      simp only [Mutation.apply] at h
      split at h
      · next hv => exact Or.inr ⟨(Except.error.inj h).symm, item, rfl, Or.inl hv⟩
      · cases hdata : m.data? with
        | none =>
            rw [hdata] at h
            cases h
        | some data =>
            simp only [hdata] at h
            split at h
            · next hmax =>
              refine Or.inr ⟨(Except.error.inj h).symm, item, rfl, Or.inr ⟨?_, hmax⟩⟩
              rw [Mutation.isUpdate, hdata]
              rfl
            · cases h

-- ============================================================================
-- Chains of versions
-- ============================================================================

/-- The row that the `i`-th commit found. -/
def rowBefore (initial : Option Item) (cs : List Commit) : Nat → Option Item
  | 0 => initial
  | i + 1 => cs[i]?.bind Commit.left

theorem rowBefore_cons (initial : Option Item) (c : Commit) (cs : List Commit) (i : Nat) :
    rowBefore initial (c :: cs) (i + 1) = rowBefore c.left cs i := by
  cases i <;> rfl

/-- The committed mutations of one item, from its initial to its committed row. -/
structure NoLostUpdate (initial final : Option Item) (cs : List Commit) : Prop where
  consumes : ∀ i c, cs[i]? = some c →
    (rowBefore initial cs i).map Item.version = some c.mutation.expectedVersion.value
  leaves : ∀ c ∈ cs, c.left.map Item.version =
    if c.mutation.isUpdate then some (c.mutation.expectedVersion.value + 1) else none
  distinct : (cs.map fun c => c.mutation.expectedVersion.value).Nodup
  below_maximum : ∀ c ∈ cs, c.mutation.isUpdate = true →
    c.mutation.expectedVersion.value < maxVersion
  delete_last : ∀ i c, cs[i]? = some c → c.mutation.isUpdate = false → i + 1 = cs.length
  final_eq : rowBefore initial cs cs.length = final

open State (Serial)

/-- Later commits expect later versions. -/
theorem serial_expected_ge {row row' : Option Item} {cs : List Commit} (h : Serial row cs row') :
    ∀ c ∈ cs, ∃ item, row = some item ∧ item.version ≤ c.mutation.expectedVersion.value := by
  induction h with
  | nil => exact fun _ hc => absurd hc List.not_mem_nil
  | cons happly _ ih =>
      obtain ⟨item, rfl, hv, -, hleft⟩ := Mutation.apply_eq_ok happly
      intro d hd
      refine ⟨item, rfl, ?_⟩
      rcases List.mem_cons.mp hd with rfl | hd
      · exact le_of_eq hv
      · obtain ⟨left, hrow, hle⟩ := ih d hd
        rw [hrow, Option.map_some] at hleft
        split at hleft
        · have := Option.some.inj hleft
          omega
        · cases hleft

theorem noLostUpdate_of_serial {row row' : Option Item} {cs : List Commit}
    (h : Serial row cs row') : NoLostUpdate row row' cs := by
  induction h with
  | nil row =>
      refine ⟨?_, ?_, List.nodup_nil, ?_, ?_, rfl⟩
      · exact fun _ _ hc => by cases hc
      · exact fun _ hc => absurd hc List.not_mem_nil
      · exact fun _ hc => absurd hc List.not_mem_nil
      · exact fun _ _ hc => by cases hc
  | @cons row row' c cs happly hrest ih =>
      obtain ⟨item, rfl, hv, hmax, hleft⟩ := Mutation.apply_eq_ok happly
      have hge := serial_expected_ge hrest
      refine ⟨?_, ?_, ?_, ?_, ?_, ?_⟩
      · intro i d hd
        cases i with
        | zero =>
            obtain rfl := Option.some.inj hd
            exact congrArg some hv
        | succ i =>
            rw [rowBefore_cons]
            exact ih.consumes i d hd
      · exact List.forall_mem_cons.mpr ⟨hleft, ih.leaves⟩
      · refine List.nodup_cons.mpr ⟨?_, ih.distinct⟩
        intro hmem
        obtain ⟨d, hd, heq⟩ := List.mem_map.mp hmem
        have heq : d.mutation.expectedVersion.value = c.mutation.expectedVersion.value := heq
        obtain ⟨left, hrow, hle⟩ := hge d hd
        rw [hrow, Option.map_some] at hleft
        split at hleft
        · have := Option.some.inj hleft
          omega
        · cases hleft
      · refine List.forall_mem_cons.mpr ⟨fun hup => ?_, ih.below_maximum⟩
        have hne : item.version ≠ maxVersion := fun heq => hmax ⟨hup, heq⟩
        have := c.mutation.expectedVersion.le_max
        omega
      · intro i d hd hdelete
        cases i with
        | zero =>
            obtain rfl := Option.some.inj hd
            rw [hdelete] at hleft
            cases hcs : cs with
            | nil => rfl
            | cons d cs' =>
                obtain ⟨left, hrow, -⟩ := hge d (hcs ▸ List.mem_cons_self)
                rw [hrow] at hleft
                cases hleft
        | succ i =>
            rw [List.length_cons, ih.delete_last i d hd hdelete]
      · rw [List.length_cons, rowBefore_cons]
        exact ih.final_eq

/-- Versions stay in their range along a chain. -/
theorem serial_validVersion {row row' : Option Item} {cs : List Commit} (h : Serial row cs row')
    (hrow : ∀ item, row = some item → ValidVersion item.version) :
    ∀ item, row' = some item → ValidVersion item.version := by
  induction h with
  | nil => exact hrow
  | @cons row row' c cs happly _ ih =>
      apply ih
      intro left hleft
      obtain ⟨item, -, hv, hmax, hversion⟩ := Mutation.apply_eq_ok happly
      rw [hleft, Option.map_some] at hversion
      split at hversion
      · next hup =>
        have hle := c.mutation.expectedVersion.le_max
        have hne : item.version ≠ maxVersion := fun heq => hmax ⟨hup, heq⟩
        have := Option.some.inj hversion
        exact ⟨by omega, by omega⟩
      · cases hversion

-- ============================================================================
-- Outcomes
-- ============================================================================

/-- The outcome of a transaction is exact for the row its locking read saw. -/
structure OutcomeExact (tx : Transaction) : Prop where
  refused : ∀ e, tx.phase = .refused e → ∃ row, tx.seen = some row ∧
    (e = notFound ∨ e = versionConflict) ∧
    (e = notFound ↔ row = none) ∧
    (e = versionConflict ↔ ∃ item, row = some item ∧
      (item.version ≠ tx.mutation.expectedVersion.value ∨ tx.mutation.AtMaximum item))
  succeeded : (∃ obj, tx.phase = .returned obj) ∨ tx.phase = .committed →
    ∃ item, tx.seen = some (some item) ∧
      item.version = tx.mutation.expectedVersion.value ∧ ¬ tx.mutation.AtMaximum item

/-- What a step does to committed rows: only a commit of a mutation that returned changes
    them, the locking read sees them, and the end of a refused mutation changes nothing. -/
structure StepExact (s s' : State) (e : Event) : Prop where
  committed : ∀ id, s'.store.committed id ≠ s.store.committed id →
    ∃ t tx obj, e = .commit t ∧ s.transactions[t]? = some tx ∧ tx.id = id ∧
      tx.phase = .returned obj
  seen : ∀ t tx, e = .select t → s'.transactions[t]? = some tx →
    tx.seen = some (s.store.committed tx.id)
  refused : ∀ t tx f, e = .rollback t → s.transactions[t]? = some tx → tx.phase = .refused f →
    s'.store.latest = s.store.latest ∧ s'.store.committed = s.store.committed

namespace State

theorem Inv.outcomeExact {s : State} (h : Inv s) {t : Nat} {tx : Transaction}
    (ht : s.transactions[t]? = some tx) : OutcomeExact tx := by
  have htx := h.transactions t tx ht
  constructor
  · intro e he
    rw [TxInv, he] at htx
    obtain ⟨⟨row, hseen, happly⟩, -⟩ := htx
    refine ⟨row, hseen, ?_⟩
    rcases Mutation.apply_eq_error happly with ⟨rfl, rfl⟩ | ⟨rfl, item, rfl, hitem⟩
    · refine ⟨Or.inl rfl, ⟨fun _ => rfl, fun _ => rfl⟩, ⟨fun h => absurd h (by decide), ?_⟩⟩
      rintro ⟨_, h, _⟩
      cases h
    · exact ⟨Or.inr rfl, ⟨fun h => absurd h (by decide), fun h => by cases h⟩,
        ⟨fun _ => ⟨item, rfl, hitem⟩, fun _ => rfl⟩⟩
  · intro hphase
    obtain ⟨row, row', hseen, happly⟩ : ∃ row row', tx.seen = some row ∧
        tx.mutation.apply row = .ok row' := by
      rcases hphase with ⟨obj, hobj⟩ | hcommitted
      · rw [TxInv, hobj] at htx
        exact ⟨_, _, htx.1.seen, htx.2⟩
      · rw [TxInv, hcommitted] at htx
        exact htx.2
    obtain ⟨item, rfl, hv, hmax, -⟩ := Mutation.apply_eq_ok happly
    exact ⟨item, hseen, hv, hmax⟩

theorem select_store_committed (s : State) (t : Nat) (tx : Transaction) :
    (s.select t tx).store.committed = s.store.committed := by
  unfold select setTransaction
  dsimp only
  split <;> rfl

theorem select_transactions (s : State) (t : Nat) (tx : Transaction) :
    ∃ ph, (s.select t tx).transactions =
      s.transactions.set t { tx with phase := ph, seen := some (s.store.latest tx.id) } := ⟨_, rfl⟩

theorem write_store_committed (s : State) (t : Nat) (tx : Transaction) (item : Item) :
    (s.write t tx item).store.committed = s.store.committed := by
  unfold write
  dsimp only
  split <;> rfl

theorem refresh_store_committed (s : State) (t : Nat) (tx : Transaction) (obj : Item) :
    (s.refresh t tx obj).store.committed = s.store.committed := by
  unfold refresh
  split <;> rfl

theorem Inv.stepExact {s s' : State} {e : Event} (h : Inv s) (hs : s.next e = some s') :
    StepExact s s' e := by
  constructor
  · intro id hne
    cases e with
    | begin id m =>
        obtain rfl := Option.some.inj hs
        exact absurd rfl hne
    | select t =>
        obtain ⟨tx, ht, hs⟩ := Option.bind_eq_some_iff.mp hs
        split at hs
        · obtain rfl := Option.some.inj hs
          rw [select_store_committed] at hne
          exact absurd rfl hne
        · cases hs
    | write t =>
        obtain ⟨tx, ht, hs⟩ := Option.bind_eq_some_iff.mp hs
        split at hs
        · split at hs
          · obtain rfl := Option.some.inj hs
            rw [write_store_committed] at hne
            exact absurd rfl hne
          · cases hs
        · cases hs
    | refresh t =>
        obtain ⟨tx, ht, hs⟩ := Option.bind_eq_some_iff.mp hs
        split at hs
        · obtain rfl := Option.some.inj hs
          rw [refresh_store_committed] at hne
          exact absurd rfl hne
        · cases hs
    | commit t =>
        obtain ⟨tx, ht, hs⟩ := Option.bind_eq_some_iff.mp hs
        split at hs
        · next obj hreturned =>
          obtain rfl := Option.some.inj hs
          have hold : s.Holding t tx := by
            have := h.transactions t tx ht
            rw [TxInv, hreturned] at this
            exact this.1
          refine ⟨t, tx, obj, rfl, ht, ?_, hreturned⟩
          by_contra hid
          exact hne (RowStore.commit_committed_of_ne fun ho => hid (hold.only id ho).symm)
        · cases hs
    | rollback t =>
        obtain ⟨tx, ht, hs⟩ := Option.bind_eq_some_iff.mp hs
        split at hs
        · cases hs
        · obtain rfl := Option.some.inj hs
          exact absurd rfl hne
  · rintro t tx' rfl ht'
    obtain ⟨tx, ht, hs⟩ := Option.bind_eq_some_iff.mp hs
    split at hs
    · next hguard =>
      obtain rfl := Option.some.inj hs
      have hno : s.Unlocked t := by
        have := h.transactions t tx ht
        rwa [TxInv, hguard.1] at this
      have hlatest := h.clean _ (hguard.2.resolve_right (hno _))
      have hlt : t < s.transactions.length := (List.getElem?_eq_some_iff.mp ht).1
      obtain ⟨ph, htransactions⟩ := select_transactions s t tx
      rw [htransactions, List.getElem?_set_self hlt] at ht'
      rw [← Option.some.inj ht', hlatest]
    · cases hs
  · rintro t tx f rfl ht hrefused
    obtain ⟨tx', ht', hs⟩ := Option.bind_eq_some_iff.mp hs
    obtain rfl := Option.some.inj (ht.symm.trans ht')
    split at hs
    · cases hs
    · obtain rfl := Option.some.inj hs
      have htx := h.transactions t tx ht
      rw [TxInv, hrefused] at htx
      refine ⟨?_, rfl⟩
      funext k
      show (if s.store.owner k = some t then s.store.committed k else s.store.latest k) = _
      split
      · next hk => exact (htx.2 k hk).symm
      · rfl

end State

/-- No update of an item is lost: in every run of any number of mutations the committed ones
    form a chain of versions from the initial to the committed row, versions stay in range,
    and every refusal is exact and changes nothing. -/
theorem no_lost_update {s : State} (hs : itemSystem.Reachable s) :
    (∀ id, NoLostUpdate (s.initial id) (s.store.committed id) (s.historyOf id)) ∧
    (∀ id item, s.store.committed id = some item → ValidVersion item.version) ∧
    (∀ (t : Nat) (tx : Transaction), s.transactions[t]? = some tx → OutcomeExact tx) ∧
    (∀ e s', s.next e = some s' → StepExact s s' e) := by
  have hinv := State.inv_invariant.of_reachable hs
  refine ⟨fun id => noLostUpdate_of_serial (hinv.serial id), fun id item hitem => ?_,
    fun t tx ht => hinv.outcomeExact ht, fun e s' hnext => hinv.stepExact hnext⟩
  exact serial_validVersion (hinv.serial id) (hinv.valid id) item hitem

/-- A replacement and a deletion of the same version: the replacement commits first, and the
    deletion, which waits for its lock, is refused. -/
theorem no_lost_update_two :
    ∃ s, itemSystem.run ⟨.ofRows fun _ => some ⟨1, "Item", 1, none⟩, [],
        fun _ => some ⟨1, "Item", 1, none⟩, []⟩
        [.begin "a" (.replace ⟨⟨1, by decide, by decide⟩, "Item", 1, none⟩),
          .begin "a" (.delete ⟨1, by decide, by decide⟩), .select 0, .write 0, .refresh 0,
          .commit 0, .select 1] = some s ∧
      (s.store.committed "a").map Item.version = some 2 ∧
      (∀ id, NoLostUpdate (s.initial id) (s.store.committed id) (s.historyOf id)) ∧
      (∀ id item, s.store.committed id = some item → ValidVersion item.version) ∧
      (∀ (t : Nat) (tx : Transaction), s.transactions[t]? = some tx → OutcomeExact tx) ∧
      (∀ e s', s.next e = some s' → StepExact s s' e) := by
  obtain ⟨s, hrun, hversion⟩ : ∃ s, itemSystem.run ⟨.ofRows fun _ => some ⟨1, "Item", 1, none⟩, [],
        fun _ => some ⟨1, "Item", 1, none⟩, []⟩
        [.begin "a" (.replace ⟨⟨1, by decide, by decide⟩, "Item", 1, none⟩),
          .begin "a" (.delete ⟨1, by decide, by decide⟩), .select 0, .write 0, .refresh 0,
          .commit 0, .select 1] = some s ∧
      (s.store.committed "a").map Item.version = some 2 := ⟨_, rfl, rfl⟩
  refine ⟨s, hrun, hversion, no_lost_update ⟨_, _, ⟨_, ?_, rfl⟩, hrun⟩⟩
  rintro id item h
  obtain rfl := Option.some.inj h
  exact ⟨by decide, by decide⟩

end QuickApi.Items
