import JyQipai.Zajindan.Eggs

/-!
# The split of an award

An award is split by a search among the awards from its own on.  A skill egg is replaced by as
many eggs as its skill has parts; together they are worth what the egg was.
-/

namespace JyQipai.Zajindan.Room

open Lib

section Resolve

variable {value : Int} {least : Nat}

/-- `now` is continued by at most `n` of the `uses`. -/
def Splits (value : Int) (least n : Nat) (uses now vec : List Int) : Prop :=
  vec.sum = value ∧ least ≤ vec.length ∧
    ∃ more, vec = now ++ more ∧ more.length ≤ n ∧ ∀ a ∈ more, a ∈ uses

theorem Splits.cons {n : Nat} {a : Int} {uses rest now vec : List Int} (ha : a ∈ uses)
    (hrest : ∀ b ∈ rest, b ∈ uses) (h : Splits value least n rest (now ++ [a]) vec) :
    Splits value least (n + 1) uses now vec := by
  obtain ⟨hsum, hleast, more, rfl, hlen, hmem⟩ := h
  refine ⟨hsum, hleast, a :: more, by simp, by simpa using hlen, fun b hb => ?_⟩
  rcases List.mem_cons.mp hb with rfl | hb
  · exact ha
  · exact hrest b (hmem b hb)

theorem Splits.mono {n : Nat} {uses rest now vec : List Int} (hrest : ∀ b ∈ rest, b ∈ uses)
    (h : Splits value least n rest now vec) : Splits value least n uses now vec := by
  obtain ⟨hsum, hleast, more, hvec, hlen, hmem⟩ := h
  exact ⟨hsum, hleast, more, hvec, hlen, fun b hb => hrest b (hmem b hb)⟩

theorem resolveLevel_splits {n : Nat} {next : List Int → List Int → Nat → List (List Int)}
    (hnext : ∀ uses now k, ∀ vec ∈ next uses now k, Splits value least n uses now vec)
    (now : List Int) (k : Nat) (uses : List Int) :
    ∀ vec ∈ resolveLevel value least next now k uses,
      Splits value least (n + 1) uses now vec := by
  induction uses with
  | nil => exact fun vec hvec => absurd hvec List.not_mem_nil
  | cons a rest ih =>
      intro vec hvec
      have hhere (k : Nat) (h : vec ∈ next (a :: rest) (now ++ [a]) k) :
          Splits value least (n + 1) (a :: rest) now vec :=
        (hnext _ _ _ vec h).cons List.mem_cons_self fun _ hb => hb
      have hbehind (h : vec ∈ resolveLevel value least next now k rest) :
          Splits value least (n + 1) (a :: rest) now vec :=
        (ih vec h).mono fun _ hb => List.mem_cons_of_mem _ hb
      rw [resolveLevel] at hvec
      split at hvec
      next hle =>
        split at hvec
        next hshort =>
          split at hvec
          · exact hhere _ hvec
          · exact (List.mem_append.mp hvec).elim (hhere _) hbehind
        next hshort =>
          rcases List.mem_append.mp hvec with h | h
          · -- the split is complete
            by_cases hsum : (now ++ [a]).sum = value
            · rw [if_pos hsum] at h
              obtain rfl := List.mem_singleton.mp h
              exact ⟨hsum, not_lt.mp fun hlt => hshort ⟨hsum, hlt⟩, [a], rfl, by simp,
                fun b hb => List.mem_singleton.mp hb ▸ List.mem_cons_self⟩
            · rw [if_neg hsum] at h
              exact absurd h List.not_mem_nil
          · exact hbehind h
      next => exact (List.mem_append.mp hvec).elim (hhere _) hbehind

theorem resolveAward_splits (n : Nat) (uses now : List Int) (k : Nat) :
    ∀ vec ∈ resolveAward value least n uses now k, Splits value least n uses now vec := by
  induction n generalizing uses now k with
  | zero => exact fun vec hvec => absurd hvec List.not_mem_nil
  | succ n ih =>
      intro vec hvec
      rw [resolveAward] at hvec
      split at hvec
      · exact absurd hvec List.not_mem_nil
      · exact resolveLevel_splits ih now k uses vec hvec

variable {cfg : Config}

theorem useToResolve_one {id : Nat} (hone : cfg.award.length ≤ 1) :
    useToResolve 0 ((cfg.ids.filter (id ≤ ·)).map cfg.awardOf) = [] ∨
      cfg.awardOf 1 ≠ 0 ∧
        useToResolve 0 ((cfg.ids.filter (id ≤ ·)).map cfg.awardOf) = [cfg.awardOf 1] := by
  have hids : cfg.ids = [] ∨ cfg.ids = [1] := by
    rw [Config.ids]
    rcases Nat.le_one_iff_eq_zero_or_eq_one.mp hone with h | h
    · exact .inl (by rw [h]; rfl)
    · exact .inr (by rw [h]; rfl)
  rcases hids with h | h
  · exact .inl (by rw [h]; rfl)
  · rw [h]
    by_cases hid : id ≤ 1
    · by_cases hzero : cfg.awardOf 1 = 0
      · exact .inl (by simp [hid, useToResolve, hzero])
      · exact .inr ⟨hzero, by simp [hid, useToResolve, hzero]⟩
    · exact .inl (by simp [hid, useToResolve])

theorem resolveCache_splits {skillKey num : Nat} {vecs : List (List Int)}
    (h : resolveCache cfg skillKey num value = some vecs) (hnum : 1 < num) :
    ∀ vec ∈ vecs, vec.sum = value ∧ vec.length = num ∧ 1 < cfg.award.length := by
  intro vec hvec
  obtain ⟨skill, -, h⟩ := Option.bind_eq_some_iff.mp h
  split at h
  case isFalse => cases h
  obtain ⟨id, hid, rfl⟩ := Option.map_eq_some_iff.mp h
  obtain ⟨hsum, hleast, more, rfl, hlen, hmem⟩ := resolveAward_splits _ _ _ _ vec hvec
  have hnum' : vec.length = num := by omega
  refine ⟨hsum, hnum', not_le.mp fun hone => ?_⟩
  rcases @useToResolve_one cfg id hone with hnil | ⟨hzero, huses⟩
  · obtain ⟨a, ha⟩ := List.exists_mem_of_length_pos (show 0 < vec.length by omega)
    exact absurd (hnil ▸ hmem a ha) List.not_mem_nil
  · -- the award is as many times itself
    have hrep : vec = List.replicate num (cfg.awardOf 1) :=
      List.eq_replicate_iff.mpr ⟨hnum', fun a ha => by simpa [huses] using hmem a ha⟩
    have hvalue : value = cfg.awardOf 1 := by
      have hfound := List.mem_of_find?_eq_some hid
      have hone' := List.find?_some hid
      have hid' : id = 1 := by
        have := List.mem_range'_1.mp (List.mem_reverse.mp hfound)
        omega
      subst hid'
      exact (by simpa using hone' : cfg.awardOf 1 = value).symm
    rw [hrep, List.sum_replicate, nsmul_eq_mul, hvalue] at hsum
    have hone' : (num : Int) = 1 := by
      refine mul_right_cancel₀ hzero ?_
      rw [hsum, one_mul]
    omega

end Resolve

section Draws

variable {cfg : Config} {value : Int} {num : Nat}

theorem getRealAwardData_awards (vec : List Int) :
    Draw.Always (getRealAwardData cfg vec) fun ids => ids.map cfg.awardOf = vec := by
  induction vec with
  | nil => exact .pure rfl
  | cons a rest ih =>
      refine .bind (Draw.always_choose _) fun id hid => .bind ih fun ids hids => .pure ?_
      rw [List.map_cons, hids, of_decide_eq_true (List.mem_filter.mp hid).2]

theorem swap_perm {α : Type} (l : List α) (i j : Nat) : (swap l i j).Perm l := by
  unfold swap
  split
  next a b ha hb =>
    obtain ⟨hi, rfl⟩ := List.getElem?_eq_some_iff.mp ha
    obtain ⟨hj, rfl⟩ := List.getElem?_eq_some_iff.mp hb
    exact List.set_set_perm hi hj
  next => exact .refl l

theorem shuffleFrom_perm {α : Type} (n i : Nat) (l : List α) :
    Draw.Always (shuffleFrom n i l) (·.Perm l) := by
  induction n generalizing i l with
  | zero => exact .pure (.refl l)
  | succ n ih =>
      exact .any fun j => (ih (i + 1) _).mono fun l' h => h.trans (swap_perm l i j.toNat)

structure Amounts (cfg : Config) (value : Int) (num : Nat) (ids : List Nat) : Prop where
  sum : (ids.map cfg.awardOf).sum = value
  length : ids.length = num
  two : 1 < cfg.award.length

theorem getResolve_amounts {skillKey : Nat} (hnum : 1 < num) (target : Draw (Option Int)) :
    Draw.Always (getResolve cfg (resolveCache cfg skillKey num value) target) fun ids =>
      ids = [] ∨ Amounts cfg value num ids := by
  unfold getResolve
  split
  · exact .fail
  · exact .pure (.inl rfl)
  next vecs _ hcache =>
    refine .any fun target => .bind (Draw.always_choose _) fun vec hvec =>
      .bind (getRealAwardData_awards vec) fun ids hids =>
        (shuffleFrom_perm _ 0 ids).mono fun ids' hperm => .inr ?_
    have hmem : vec ∈ vecs := by
      split at hvec
      · exact hvec
      · exact List.mem_of_mem_filter hvec
    obtain ⟨hsum, hlen, htwo⟩ := resolveCache_splits hcache hnum vec hmem
    constructor
    · rw [(hperm.map cfg.awardOf).sum_eq, hids, hsum]
    · rw [hperm.length_eq, ← hlen, ← hids, List.length_map]
    · exact htwo

end Draws

end JyQipai.Zajindan.Room
