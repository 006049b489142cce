/-
  QuickApi.Items.Serialization

  Committed mutations are the atomic mutations in the order of their commits.
  `TxInv` says what an open transaction knows of its row; a transaction keeps
  it because the row is locked, and every other transaction leaves it alone.
-/

import QuickApi.Items.Transactions

namespace QuickApi.Items

open QuickApi.Lib

namespace State

-- ============================================================================
-- What an open transaction knows
-- ============================================================================

/-- The transaction has locked its row and saw the committed version of it. -/
structure Holding (s : State) (t : Nat) (tx : Transaction) : Prop where
  owner : s.store.owner tx.id = some t
  only : ∀ k, s.store.owner k = some t → k = tx.id
  seen : tx.seen = some (s.store.committed tx.id)

/-- The transaction has no lock. -/
def Unlocked (s : State) (t : Nat) : Prop := ∀ k, s.store.owner k ≠ some t

/-- What a transaction in each phase knows of the store. -/
def TxInv (s : State) (t : Nat) (tx : Transaction) : Prop :=
  match tx.phase with
  | .begun => s.Unlocked t
  | .locked item =>
      s.Holding t tx ∧ s.store.latest tx.id = some item ∧ s.store.committed tx.id = some item ∧
        item.version = tx.mutation.expectedVersion.value
  | .written _ =>
      s.Holding t tx ∧
        tx.mutation.apply (s.store.committed tx.id) = .ok (s.store.latest tx.id)
  | .returned _ =>
      s.Holding t tx ∧
        tx.mutation.apply (s.store.committed tx.id) = .ok (s.store.latest tx.id)
  | .refused e =>
      (∃ row, tx.seen = some row ∧ tx.mutation.apply row = .error e) ∧
        ∀ k, s.store.owner k = some t → s.store.latest k = s.store.committed k
  | .failed => s.Holding t tx
  | .committed =>
      s.Unlocked t ∧ ∃ row row', tx.seen = some row ∧ tx.mutation.apply row = .ok row'
  | .rolledBack => s.Unlocked t

theorem Holding.untouched {s s' : State} {t : Nat} {tx : Transaction} (h : s.Holding t tx)
    (hu : s.store.Untouched t s'.store) : s'.Holding t tx where
  owner := (hu.owner_iff _).mpr h.owner
  only k hk := h.only k ((hu.owner_iff k).mp hk)
  seen := by rw [h.seen, hu.committed _ h.owner]

/-- Whoever leaves the rows of `t` alone keeps what `t` knows. -/
theorem TxInv.untouched {s s' : State} {t : Nat} {tx : Transaction} (h : s.TxInv t tx)
    (hu : s.store.Untouched t s'.store) : s'.TxInv t tx := by
  have hunlocked : s.Unlocked t → s'.Unlocked t := fun hno k hk => hno k ((hu.owner_iff k).mp hk)
  unfold TxInv at h ⊢
  split at h
  · exact hunlocked h
  · obtain ⟨hold, hlatest, hcommitted, hv⟩ := h
    exact ⟨hold.untouched hu, by rw [hu.latest _ hold.owner, hlatest],
      by rw [hu.committed _ hold.owner, hcommitted], hv⟩
  · obtain ⟨hold, happly⟩ := h
    exact ⟨hold.untouched hu, by rw [hu.latest _ hold.owner, hu.committed _ hold.owner, happly]⟩
  · obtain ⟨hold, happly⟩ := h
    exact ⟨hold.untouched hu, by rw [hu.latest _ hold.owner, hu.committed _ hold.owner, happly]⟩
  · obtain ⟨hseen, hclean⟩ := h
    refine ⟨hseen, fun k hk => ?_⟩
    have hk := (hu.owner_iff k).mp hk
    rw [hu.latest k hk, hu.committed k hk, hclean k hk]
  · exact h.untouched hu
  · exact ⟨hunlocked h.1, h.2⟩
  · exact hunlocked h

-- ============================================================================
-- The invariant
-- ============================================================================

/-- The commits are the atomic mutations, one behind the other. -/
inductive Serial : Option Item → List Commit → Option Item → Prop where
  | nil (row : Option Item) : Serial row [] row
  | cons {row row' : Option Item} {c : Commit} {cs : List Commit}
      (happly : c.mutation.apply row = .ok c.left) (hrest : Serial c.left cs row') :
      Serial row (c :: cs) row'

theorem Serial.snoc {row row' : Option Item} {cs : List Commit} (h : Serial row cs row')
    {c : Commit} (happly : c.mutation.apply row' = .ok c.left) :
    Serial row (cs ++ [c]) c.left := by
  induction h with
  | nil row => exact .cons happly (.nil _)
  | cons hfirst _ ih => exact .cons hfirst (ih happly)

structure Inv (s : State) : Prop where
  clean : s.store.Clean
  transactions : ∀ t tx, s.transactions[t]? = some tx → s.TxInv t tx
  fresh : ∀ t, s.transactions.length ≤ t → s.Unlocked t
  valid : ∀ id item, s.initial id = some item → ValidVersion item.version
  serial : ∀ id, Serial (s.initial id) (s.historyOf id) (s.store.committed id)

/-- A step of transaction `t` that leaves the rows of all others alone. -/
theorem Inv.of_step {s s' : State} {t : Nat} {tx tx' : Transaction} (h : Inv s)
    (ht : s.transactions[t]? = some tx) (htransactions : s'.transactions = s.transactions.set t tx')
    (hothers : ∀ u, u ≠ t → s.store.Untouched u s'.store) (hclean : s'.store.Clean)
    (htx : s'.TxInv t tx') (hinitial : s'.initial = s.initial)
    (hserial : ∀ id, Serial (s.initial id) (s'.historyOf id) (s'.store.committed id)) :
    Inv s' := by
  have hlt : t < s.transactions.length := (List.getElem?_eq_some_iff.mp ht).1
  constructor
  · exact hclean
  · intro u ux hu
    rw [htransactions, List.getElem?_set] at hu
    split at hu
    · next htu =>
      obtain rfl := Option.some.inj hu
      exact htu ▸ htx
    · next htu => exact (h.transactions u ux hu).untouched (hothers u (Ne.symm htu))
  · intro u hu k hk
    rw [htransactions, List.length_set] at hu
    have hut : u ≠ t := fun heq => absurd hlt (Nat.not_lt_of_le (heq ▸ hu))
    exact h.fresh u hu k (((hothers u hut).owner_iff k).mp hk)
  · rw [hinitial]
    exact h.valid
  · rw [hinitial]
    exact hserial

section
variable {s : State} {t : Nat} {tx : Transaction}

theorem Inv.begin (h : Inv s) (id : ItemId) (m : Mutation) :
    Inv { s with transactions := s.transactions ++ [⟨id, m, .begun, none⟩] } := by
  refine ⟨h.clean, ?_, ?_, h.valid, h.serial⟩
  · intro u ux hu
    rw [List.getElem?_append] at hu
    split at hu
    · exact (h.transactions u ux hu).untouched (.refl u _)
    · next hlen =>
      obtain rfl := List.mem_singleton.mp (List.mem_of_getElem? hu)
      exact h.fresh u (Nat.le_of_not_lt hlen)
  · intro u hu
    rw [List.length_append] at hu
    exact h.fresh u (Nat.le_of_add_right_le hu)

theorem Inv.select (h : Inv s) (ht : s.transactions[t]? = some tx) (hbegun : tx.phase = .begun)
    (hfree : s.store.Lockable t tx.id) : Inv (s.select t tx) := by
  have hno : s.Unlocked t := by
    have := h.transactions t tx ht
    rwa [TxInv, hbegun] at this
  have hlatest : s.store.latest tx.id = s.store.committed tx.id :=
    h.clean _ (hfree.resolve_right (hno _))
  cases hrow : s.store.latest tx.id with
  | none =>
      have hselect : s.select t tx =
          s.setTransaction t { tx with phase := .refused notFound, seen := some none } := by
        simp [State.select, hrow, mutationItem]
      rw [hselect]
      refine h.of_step ht rfl (fun u _ => .refl u _) h.clean ?_ rfl h.serial
      exact ⟨⟨none, rfl, rfl⟩, fun k hk => absurd hk (hno k)⟩
  | some item =>
      have hothers : ∀ u, u ≠ t → s.store.Untouched u (s.store.lock t tx.id) :=
        fun u hu => RowStore.untouched_lock hu hfree
      have honly : ∀ k, (s.store.lock t tx.id).owner k = some t → k = tx.id := by
        intro k hk
        rw [RowStore.lock_owner] at hk
        by_contra hne
        rw [if_neg hne] at hk
        exact hno k hk
      cases hcheck : mutationItem (some item) tx.mutation.expectedVersion with
      | error e =>
          have hselect : s.select t tx = { s with store := s.store.lock t tx.id }.setTransaction t
              { tx with phase := .refused e, seen := some (some item) } := by
            simp [State.select, hrow, hcheck]
          rw [hselect]
          refine h.of_step ht rfl hothers (h.clean.lock t tx.id) ?_ rfl h.serial
          refine ⟨⟨_, rfl, apply_of_mutationItem_error hcheck⟩, fun k hk => ?_⟩
          obtain rfl := honly k hk
          exact hlatest
      | ok found =>
          obtain ⟨hfound, hv⟩ := mutationItem_ok hcheck
          obtain rfl := Option.some.inj hfound
          have hselect : s.select t tx = { s with store := s.store.lock t tx.id }.setTransaction t
              { tx with phase := .locked item, seen := some (some item) } := by
            simp [State.select, hrow, hcheck]
          rw [hselect]
          refine h.of_step ht rfl hothers (h.clean.lock t tx.id) ?_ rfl h.serial
          refine ⟨⟨?_, honly, ?_⟩, hrow, hlatest ▸ hrow, hv⟩
          · exact (RowStore.lock_owner t tx.id tx.id).trans (if_pos rfl)
          · exact congrArg some (hrow.symm.trans hlatest)

theorem Inv.write (h : Inv s) (ht : s.transactions[t]? = some tx) {item : Item}
    (hlocked : tx.phase = .locked item) : Inv (s.write t tx item) := by
  obtain ⟨hold, hlatest, hcommitted, hv⟩ : s.Holding t tx ∧ s.store.latest tx.id = some item ∧
      s.store.committed tx.id = some item ∧ item.version = tx.mutation.expectedVersion.value := by
    have := h.transactions t tx ht
    rwa [TxInv, hlocked] at this
  rcases statement_of_checked hv with ⟨happly, hstatement⟩ | ⟨row, happly, hstatement⟩
  · have hwrite : s.write t tx item =
        s.setTransaction t { tx with phase := .refused versionConflict } := by
      simp [State.write, hlatest, hstatement]
    rw [hwrite]
    refine h.of_step ht rfl (fun u _ => .refl u _) h.clean ?_ rfl h.serial
    refine ⟨⟨some item, hold.seen.trans (congrArg some hcommitted), happly⟩, fun k hk => ?_⟩
    obtain rfl := hold.only k hk
    exact hlatest.trans hcommitted.symm
  · have hwrite : s.write t tx item = { s with store := s.store.write tx.id row }.setTransaction t
        { tx with phase := .written item } := by
      simp [State.write, hlatest, hstatement]
    rw [hwrite]
    refine h.of_step ht rfl (fun u hu => RowStore.untouched_write hu hold.owner row)
      (h.clean.write hold.owner row) ?_ rfl h.serial
    refine ⟨⟨hold.owner, hold.only, hold.seen⟩, ?_⟩
    show tx.mutation.apply (s.store.committed tx.id) = .ok ((s.store.write tx.id row).latest tx.id)
    rw [hcommitted, happly, RowStore.write_latest, if_pos rfl]

theorem Inv.refresh (h : Inv s) (ht : s.transactions[t]? = some tx) {obj : Item}
    (hwritten : tx.phase = .written obj) : Inv (s.refresh t tx obj) := by
  have htx : s.Holding t tx ∧
      tx.mutation.apply (s.store.committed tx.id) = .ok (s.store.latest tx.id) := by
    have := h.transactions t tx ht
    rwa [TxInv, hwritten] at this
  have hkeep : ∀ ph, (s.setTransaction t { tx with phase := ph }).TxInv t { tx with phase := ph } →
      Inv (s.setTransaction t { tx with phase := ph }) := fun ph hph =>
    h.of_step ht rfl (fun u _ => .refl u _) h.clean hph rfl h.serial
  unfold State.refresh
  split
  · exact hkeep _ ⟨⟨htx.1.owner, htx.1.only, htx.1.seen⟩, htx.2⟩
  · exact hkeep _ ⟨⟨htx.1.owner, htx.1.only, htx.1.seen⟩, htx.2⟩
  · exact hkeep _ ⟨htx.1.owner, htx.1.only, htx.1.seen⟩

/-- A commit adds its mutation to the history of its item. -/
theorem Inv.commit (h : Inv s) (ht : s.transactions[t]? = some tx) {obj : Item}
    (hreturned : tx.phase = .returned obj) : Inv (s.commit t tx) := by
  obtain ⟨hold, happly⟩ : s.Holding t tx ∧
      tx.mutation.apply (s.store.committed tx.id) = .ok (s.store.latest tx.id) := by
    have := h.transactions t tx ht
    rwa [TxInv, hreturned] at this
  refine h.of_step ht rfl (fun u hu => RowStore.untouched_commit hu) (h.clean.commit t) ?_ rfl ?_
  · exact ⟨RowStore.commit_owner_ne t, _, _, hold.seen, happly⟩
  · intro id
    show Serial _ ((s.history ++ [Commit.mk tx.id tx.mutation (s.store.latest tx.id)]).filter _)
      ((s.store.commit t).committed id)
    rw [List.filter_append]
    by_cases hid : tx.id = id
    · subst hid
      rw [RowStore.commit_committed_of_owner hold.owner]
      simpa [historyOf] using (h.serial tx.id).snoc (c := ⟨tx.id, tx.mutation, s.store.latest tx.id⟩) happly
    · rw [RowStore.commit_committed_of_ne (fun ho => hid (hold.only id ho).symm)]
      simpa [historyOf, hid] using h.serial id

theorem Inv.rollback (h : Inv s) (ht : s.transactions[t]? = some tx) : Inv (s.rollback t tx) :=
  h.of_step ht rfl (fun _ hu => RowStore.untouched_rollback hu) (h.clean.rollback t)
    (RowStore.rollback_owner_ne t) rfl h.serial

end

theorem inv_invariant : itemSystem.Invariant Inv where
  init := by
    rintro s ⟨rows, hvalid, rfl⟩
    refine ⟨RowStore.clean_ofRows rows, ?_, fun _ _ _ => nofun, hvalid, fun id => .nil _⟩
    intro t tx ht
    cases ht
  step := by
    intro s e s' h hs
    cases e with
    | begin id m =>
        obtain rfl := Option.some.inj hs
        exact h.begin id m
    | select t =>
        obtain ⟨tx, ht, hs⟩ := Option.bind_eq_some_iff.mp hs
        split at hs
        · next hguard =>
          obtain rfl := Option.some.inj hs
          exact h.select ht hguard.1 hguard.2
        · cases hs
    | write t =>
        obtain ⟨tx, ht, hs⟩ := Option.bind_eq_some_iff.mp hs
        split at hs
        · next item hlocked =>
          split at hs
          · obtain rfl := Option.some.inj hs
            exact h.write ht hlocked
          · cases hs
        · cases hs
    | refresh t =>
        obtain ⟨tx, ht, hs⟩ := Option.bind_eq_some_iff.mp hs
        split at hs
        · next obj hwritten =>
          obtain rfl := Option.some.inj hs
          exact h.refresh ht hwritten
        · cases hs
    | commit t =>
        obtain ⟨tx, ht, hs⟩ := Option.bind_eq_some_iff.mp hs
        split at hs
        · next obj hreturned =>
          obtain rfl := Option.some.inj hs
          exact h.commit ht hreturned
        · cases hs
    | rollback t =>
        obtain ⟨tx, ht, hs⟩ := Option.bind_eq_some_iff.mp hs
        split at hs
        · cases hs
        · obtain rfl := Option.some.inj hs
          exact h.rollback ht

end State

end QuickApi.Items
