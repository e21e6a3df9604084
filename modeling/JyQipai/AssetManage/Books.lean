import JyQipai.AssetManage.Unlock

/-!
# Locks that are live

The id of a lock is the clock plus the number of locks that are live.  It is new as
long as the number of live locks has not gone down, since a lock that is still live
was taken, by as much as the clock has gone up.
-/

namespace JyQipai.AssetManage

open JyQipai.Lib

structure Lock where
  id : Int
  time : Int
  count : Int
  assets : List Asset
  deriving DecidableEq, Repr

/-- The account, with the locks that are neither committed nor unlocked, the lists
that are staged and not committed, and what the database has reported. -/
structure Books where
  account : Account
  locks : List Lock := []
  staged : List (Nat × List Asset) := []
  received : List Asset := []

def stopState {α : Type} : Prog Account Ask Answer α → Account
  | .done s _ => s
  | .raised s => s
  | .call s _ _ => s

def reported : List Change → List Asset
  | [] => []
  | .amount a _ :: l => a :: reported l
  | .object .. :: l => reported l

namespace Books

def step (b : Books) : Event → Books
  | .assetLock l =>
      match Account.assetLock l b.account with
      | .done s (0, id) =>
          { b with
            account := s
            locks := ⟨id, b.account.now, b.account.assetLockedDatasCount, l⟩ :: b.locks }
      | p => { b with account := stopState p }
  | .assetCommit id =>
      match Account.assetCommit id b.account with
      | .done s (0, _) => { b with account := s, locks := b.locks.filter (·.id ≠ id) }
      | p => { b with account := stopState p }
  | .assetUnlock id =>
      match Account.assetUnlock id b.account with
      | .done s 0 => { b with account := s, locks := b.locks.filter (·.id ≠ id) }
      | p => { b with account := stopState p }
  | .assetStaging l =>
      match Account.assetStaging l b.account with
      | .done s id => { b with account := s, staged := (id, l) :: b.staged }
      | p => { b with account := stopState p }
  | .assetMergeCommit ids =>
      { b with
        account := stopState (Account.assetMergeCommit ids b.account)
        staged := b.staged.filter (·.1 ∉ ids) }
  | .changeAssetMulti saveDb l =>
      { b with
        account := stopState (Account.changeAssetMulti saveDb l b.account)
        received := if saveDb then b.received else b.received ++ reported l }
  | .tick now => { b with account := { b.account with now := now } }

def start (s : Account) : Books where
  account := { s with
    assetLockedDatas := fun _ => none
    assetLockedDatasCount := 0
    assetStagingData := fun _ => none
    assetStagingDataCount := 0
    sent := [] }

def Fresh (b : Books) : Event → Prop
  | .assetLock l => ∀ u id, Account.assetLock l b.account = .done u (0, id) →
      ∀ k ∈ b.locks, k.id ≠ id
  | _ => True

/-- If the event takes a lock, then the number of locks has not gone down, since a
live lock was taken, by as much as the clock has gone up. -/
def ClockApart (b : Books) : Event → Prop
  | .assetLock l => b.account.Passes l → ∀ k ∈ b.locks,
      k.count - b.account.assetLockedDatasCount ≠
        b.account.now % 1524130583 - k.time % 1524130583
  | _ => True

structure LocksKept (b : Books) : Prop where
  stored : ∀ id l, b.account.assetLockedDatas id = some l ↔
    ∃ k ∈ b.locks, k.id = id ∧ k.assets = l
  count : b.account.assetLockedDatasCount = b.locks.length
  nodup : (b.locks.map (·.id)).Nodup
  made : ∀ k ∈ b.locks, k.id = k.time % 1524130583 + k.count

variable {b : Books} {e : Event}

theorem locksKept_start (s : Account) : LocksKept (start s) where
  stored _ _ := by simp [start]
  count := rfl
  nodup := List.nodup_nil
  made := by simp [start]

theorem LocksKept.alters {A : AssetType → Prop} (h : b.LocksKept) {b' : Books}
    (hs : Account.Alters A b.account b'.account) (hlocks : b'.locks = b.locks) :
    b'.LocksKept where
  stored := by
    rw [hs.locked, hlocks]
    exact h.stored
  count := by rw [hs.count, hlocks, h.count]
  nodup := hlocks ▸ h.nodup
  made := hlocks ▸ h.made

theorem alters_stopState {α : Type} {A : AssetType → Prop} {s : Account}
    {p : Prog Account Ask Answer α} (h : Account.Within A s p) :
    Account.Alters A s (stopState p) := by
  cases p with
  | done t a => exact h
  | raised t => exact h
  | call t q resume => exact h.1

theorem LocksKept.drop (h : b.LocksKept) {A : AssetType → Prop} {s : Account}
    (hs : Account.Alters A b.account s) {id : Int} {l : List Asset}
    (hl : b.account.assetLockedDatas id = some l) :
    LocksKept { b with
      account := s.dropLock id
      locks := b.locks.filter (·.id ≠ id) } where
  stored id' l' := by
    change Function.update s.assetLockedDatas id none id' = some l' ↔ _
    rw [hs.locked]
    by_cases hid : id' = id
    · subst hid
      rw [Function.update_self]
      refine ⟨fun hnone => (by cases hnone), ?_⟩
      rintro ⟨k, hk, hkid, -⟩
      simp [hkid] at hk
    · rw [Function.update_of_ne hid, h.stored]
      constructor
      · rintro ⟨k, hk, rfl, rfl⟩
        exact ⟨k, List.mem_filter.mpr ⟨hk, by simpa using hid⟩, rfl, rfl⟩
      · rintro ⟨k, hk, rfl, rfl⟩
        exact ⟨k, (List.mem_filter.mp hk).1, rfl, rfl⟩
  count := by
    obtain ⟨k, hk, rfl, -⟩ := (h.stored id l).mp hl
    have hone : b.locks.countP (·.id = k.id) = 1 := by
      have := List.count_eq_one_of_mem h.nodup (List.mem_map_of_mem hk)
      rwa [List.count, List.countP_map] at this
    have hlength := List.length_eq_countP_add_countP (fun j : Lock => decide (j.id = k.id))
      (l := b.locks)
    change s.assetLockedDatasCount - 1 = (b.locks.filter (·.id ≠ k.id)).length
    rw [hs.count, h.count, ← List.countP_eq_length_filter]
    simp only [decide_eq_true_eq, ne_eq] at hlength ⊢
    omega
  nodup := h.nodup.sublist (List.filter_sublist.map _)
  made k hk := h.made k (List.mem_filter.mp hk).1

theorem LocksKept.take (h : b.LocksKept) {A : AssetType → Prop} {s : Account}
    (hs : Account.Alters A b.account s) (l : List Asset)
    (hfresh : ∀ k ∈ b.locks, k.id ≠ b.account.createLockId) :
    LocksKept { b with
      account := s.takeLock l
      locks := ⟨b.account.createLockId, b.account.now, b.account.assetLockedDatasCount, l⟩ ::
        b.locks } where
  stored id' l' := by
    change Function.update s.assetLockedDatas s.createLockId (some l) id' = some l' ↔ _
    rw [hs.locked, Account.createLockId_alters hs]
    by_cases hid : id' = b.account.createLockId
    · subst hid
      rw [Function.update_self, Option.some.injEq]
      constructor
      · rintro rfl
        exact ⟨_, List.mem_cons_self, rfl, rfl⟩
      · rintro ⟨k, hk, hkid, rfl⟩
        rcases List.mem_cons.mp hk with rfl | hk
        · rfl
        · exact absurd hkid (hfresh k hk)
    · rw [Function.update_of_ne hid, h.stored]
      constructor
      · rintro ⟨k, hk, rfl, rfl⟩
        exact ⟨k, List.mem_cons_of_mem _ hk, rfl, rfl⟩
      · rintro ⟨k, hk, rfl, rfl⟩
        rcases List.mem_cons.mp hk with rfl | hk
        · exact absurd rfl hid
        · exact ⟨k, hk, rfl, rfl⟩
  count := by
    change s.assetLockedDatasCount + 1 = _
    rw [hs.count, h.count, List.length_cons]
    push_cast
    rfl
  nodup := by
    rw [List.map_cons, List.nodup_cons]
    refine ⟨?_, h.nodup⟩
    intro hmem
    obtain ⟨k, hk, hkid⟩ := List.mem_map.mp hmem
    exact hfresh k hk hkid
  made k hk := by
    rcases List.mem_cons.mp hk with rfl | hk
    · rfl
    · exact h.made k hk

theorem fresh_iff_clockApart (h : b.LocksKept) : b.Fresh e ↔ b.ClockApart e := by
  cases e with
  | assetLock l =>
      have hid : ∀ k ∈ b.locks, k.id ≠ b.account.createLockId ↔
          k.count - b.account.assetLockedDatasCount ≠
            b.account.now % 1524130583 - k.time % 1524130583 := by
        intro k hk
        rw [h.made k hk, Account.createLockId]
        omega
      constructor
      · intro hf hl k hk
        rcases Account.assetLock_cases l b.account with ⟨-, heq⟩ | ⟨hno, -⟩
        · exact (hid k hk).mp (hf _ _ heq k hk)
        · exact absurd hl hno
      · intro ha u id heq k hk
        rcases Account.assetLock_cases l b.account with
          ⟨hl, heq'⟩ | ⟨-, u', -, ⟨code, hpos, heq', -⟩ | ⟨heq', -⟩⟩
        · rw [heq] at heq'
          simp only [Prog.done.injEq, Prod.mk.injEq, true_and] at heq'
          rw [heq'.2]
          exact (hid k hk).mpr (ha hl k hk)
        · rw [heq] at heq'
          simp only [Prog.done.injEq, Prod.mk.injEq] at heq'
          omega
        · rw [heq] at heq'
          cases heq'
  | _ => exact Iff.rfl

theorem LocksKept.step (h : b.LocksKept) (he : b.Fresh e) : (b.step e).LocksKept := by
  cases e with
  | tick now =>
      exact ⟨h.stored, h.count, h.nodup, h.made⟩
  | assetLock l =>
      unfold Books.step
      rcases Account.assetLock_cases l b.account with
        ⟨-, heq⟩ | ⟨-, u, hu, ⟨code, hpos, heq, -⟩ | ⟨heq, -⟩⟩
      · simp only [heq]
        exact h.take (Account.alters_consumeAll (A := fun _ => True) (fun _ _ => trivial) _) l
          (he _ _ heq)
      · have hu := hu (fun _ => True) (fun _ _ => trivial)
        simp only [heq]
        split
        · next hcode =>
          simp only [Prog.done.injEq, Prod.mk.injEq] at hcode
          omega
        · exact h.alters hu rfl
      · simp only [heq]
        exact h.alters (hu (fun _ => True) (fun _ _ => trivial)) rfl
  | assetCommit id =>
      cases hl : b.account.assetLockedDatas id with
      | none =>
          have heq : b.step (.assetCommit id) = b := by
            simp [Books.step, Account.assetCommit, hl, stopState]
          rwa [heq]
      | some l =>
          have hcommit := Account.within_commitAll (A := fun _ => True) l none b.account
          cases hp : Account.commitAll l none b.account with
          | done s objs =>
              rw [hp] at hcommit
              have heq : b.step (.assetCommit id) = { b with
                  account := s.dropLock id
                  locks := b.locks.filter (·.id ≠ id) } := by
                simp [Books.step, Account.assetCommit, hl, hp, Prog.bind]
              rw [heq]
              exact h.drop hcommit hl
          | raised s =>
              rw [hp] at hcommit
              have heq : b.step (.assetCommit id) = { b with account := s } := by
                simp [Books.step, Account.assetCommit, hl, hp, Prog.bind, stopState]
              rw [heq]
              exact h.alters hcommit rfl
          | call s q resume =>
              rw [hp] at hcommit
              have heq : b.step (.assetCommit id) = { b with account := s } := by
                simp [Books.step, Account.assetCommit, hl, hp, Prog.bind, stopState]
              rw [heq]
              exact h.alters hcommit.1 rfl
  | assetUnlock id =>
      cases hl : b.account.assetLockedDatas id with
      | none =>
          have heq : b.step (.assetUnlock id) = b := by
            simp [Books.step, Account.assetUnlock, hl, stopState]
          rwa [heq]
      | some l =>
          have heq : b.step (.assetUnlock id) = { b with
              account := (Account.giveBackAll l b.account).dropLock id
              locks := b.locks.filter (·.id ≠ id) } := by
            simp [Books.step, Account.assetUnlock, hl]
          rw [heq]
          exact h.drop (Account.alters_giveBackAll (A := fun _ => True)
            (fun _ _ => trivial) _) hl
  | assetStaging l =>
      exact h.alters (Account.within_assetStaging (A := fun _ => True)
        (fun _ _ => trivial) _) rfl
  | assetMergeCommit ids =>
      exact h.alters (Account.within_assetMergeCommit (A := fun _ => True) ids _) rfl
  | changeAssetMulti saveDb l =>
      exact h.alters (alters_stopState (Account.within_changeAssetMulti (A := fun _ => True)
        (fun _ _ => trivial) saveDb _)) rfl

theorem LocksKept.run (h : b.LocksKept) {es : List Event}
    (hes : Allowed Books.step Fresh b es) : (Lib.run Books.step b es).LocksKept := by
  induction es generalizing b with
  | nil => exact h
  | cons e es ih => exact ih (h.step hes.1) hes.2

/-- The ids of locks are new throughout a run if and only if the number of locks never
goes down by as much as the clock goes up while a lock is live; then no locked list
is overwritten. -/
theorem lock_ids_fresh_iff (s : Account) (es : List Event) :
    (Allowed step Fresh (start s) es ↔ Allowed step ClockApart (start s) es) ∧
      (Allowed step ClockApart (start s) es →
        ∀ k ∈ (run step (start s) es).locks,
          (run step (start s) es).account.assetLockedDatas k.id = some k.assets) := by
  have hiff : ∀ b : Books, b.LocksKept →
      (Allowed step Fresh b es ↔ Allowed step ClockApart b es) := by
    induction es with
    | nil => exact fun _ _ => Iff.rfl
    | cons e es ih =>
        intro b h
        constructor
        · rintro ⟨he, hes⟩
          exact ⟨(fresh_iff_clockApart h).mp he, (ih _ (h.step he)).mp hes⟩
        · rintro ⟨he, hes⟩
          have hf := (fresh_iff_clockApart h).mpr he
          exact ⟨hf, (ih _ (h.step hf)).mpr hes⟩
  have hstart := hiff _ (locksKept_start s)
  refine ⟨hstart, fun h k hk => ?_⟩
  exact (((locksKept_start s).run (hstart.mpr h)).stored k.id k.assets).mpr ⟨k, hk, rfl, rfl⟩

/-! ## A lock id that is given out twice -/

def threeLocks : List Event :=
  [.tick 1600000000, .assetLock Account.coinFee, .assetLock [⟨"jing_bi", 3, some .consume⟩],
    .assetUnlock 75869417, .assetLock [⟨"jing_bi", 1, some .consume⟩]]

/-- The second lock is overwritten by the third. -/
theorem lock_overwritten :
    (run step (start Account.tenCoins) threeLocks).locks.map (fun k => (k.id, k.assets)) =
        [(75869418, [⟨"jing_bi", 1, some .consume⟩]),
          (75869418, [⟨"jing_bi", 3, some .consume⟩])] ∧
      (run step (start Account.tenCoins) threeLocks).account.assetLockedDatas 75869418 =
        some [⟨"jing_bi", 1, some .consume⟩] := by
  decide +kernel

end Books

end JyQipai.AssetManage
