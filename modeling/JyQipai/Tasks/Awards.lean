import JyQipai.Tasks.CommonTask
import JyQipai.Lib.Reach

/-!
# Awards are earned and paid once

While only levels are asked for that are completed, each level is paid once, and not before its
progress is reached.
-/

namespace JyQipai.Tasks

open Lib

structure EarnedOnce (s : Task) : Prop where
  once : (s.paid.map Paid.level).Nodup
  earned : ∀ x ∈ s.paid, 1 ≤ x.level ∧
    getGradeTotalProcess s.config.processData (x.level + 1) ≤ x.process

structure Config.Steps (config : Config) (steps : List Int) : Prop where
  nonempty : steps ≠ []
  pos : ∀ x ∈ steps, 0 < x
  data : config.processData = steps ∨ config.processData = steps ++ [-1]

namespace Task

def taken (s : Task) : List Int := (s.taskAwardGetStatus.map decodeTaskAwardStatus).getD []

def Completed (s : Task) (level : Int) : Prop :=
  1 ≤ level ∧ (level = s.lv → s.nowLvNeedProcess ≤ s.nowLvProcess)

/-- The bits of the levels and those that are set fit into a double. -/
def Fits (s : Task) (levels : List Int) : Prop :=
  Narrow ((levels ++ s.taken).map fun level => (level - 1).toNat)

def Asks (s : Task) (level : Option Int) : Prop :=
  s.lv < level.getD s.taskRound ∨ level.getD s.taskRound ∈ s.taken ∨
    s.Completed (level.getD s.taskRound) ∧ s.Fits [level.getD s.taskRound]

def due (s : Task) : List Int :=
  ((List.range s.lv.toNat).map fun i : Nat => (i : Int) + 1).filter fun level =>
    level ∉ s.taken ∧ ¬(level = s.lv ∧ s.nowLvProcess < s.nowLvNeedProcess)

/-- Only completed levels are asked for, and what is due is marked as paid. -/
def Careful (s : Task) : Event → Prop
  | .addProcess exp env => 0 ≤ exp ∧ (s.config.ownType = .goldpigNew2 →
      s.process = s.maxProcess ∨ s.outOfTime env.now ∨ (s.addExp exp).Asks none)
  | .getTaskAward _ => s.Asks none
  | .getTaskAwardNew level _ => s.Asks (some level)
  | .getShouldGetAwards change _ => s.due = [] ∨ change = true ∧ s.Fits s.due

end Task

section Totals

variable {config : Config} {steps : List Int}

def stepOf (processData : List Int) (k : Nat) : Int :=
  (stepAt processData ((fun i => (stepAt processData i).2)^[k] 1)).1

theorem totalFrom_succ (processData : List Int) (k index : Nat) :
    totalFrom processData (k + 1) index = totalFrom processData k index +
      (stepAt processData ((fun i => (stepAt processData i).2)^[k] index)).1 := by
  induction k generalizing index with
  | zero => simp [totalFrom]
  | succ k ih =>
      rw [totalFrom, ih, totalFrom, Function.iterate_succ_apply]
      omega

theorem processData_lt (h : config.Steps steps) {k : Nat} (hk : k < steps.length) :
    config.processData[k]? = some (steps[k]) := by
  rcases h.data with hdata | hdata
  · rw [hdata, List.getElem?_eq_getElem]
  · rw [hdata, List.getElem?_append_left hk, List.getElem?_eq_getElem]

theorem index_iterate (h : config.Steps steps) {k : Nat} (hk : k ≤ steps.length) :
    (fun i => (stepAt config.processData i).2)^[k] 1 = k + 1 := by
  induction k with
  | zero => rfl
  | succ k ih =>
      rw [Function.iterate_succ_apply', ih (Nat.le_of_succ_le hk)]
      have hpos := h.pos steps[k] (List.getElem_mem hk)
      simp only [stepAt, Nat.add_sub_cancel, processData_lt h hk]
      rw [if_neg (by omega)]

theorem stepOf_lt (h : config.Steps steps) {k : Nat} (hk : k < steps.length) :
    stepOf config.processData k = steps[k] := by
  have hpos := h.pos steps[k] (List.getElem_mem hk)
  rw [stepOf, index_iterate h hk.le]
  simp only [stepAt, Nat.add_sub_cancel, processData_lt h hk]
  rw [if_neg (by omega)]

theorem stepOf_ge (h : config.Steps steps) (hdata : config.processData = steps ++ [-1]) {k : Nat}
    (hk : steps.length ≤ k) : stepOf config.processData k = steps.getD (steps.length - 1) 0 := by
  have hlast : config.processData[steps.length]? = some (-1) := by simp [hdata]
  have hstep : stepAt config.processData (steps.length + 1) =
      (steps.getD (steps.length - 1) 0, steps.length + 1) := by
    have hlen := List.length_pos_iff.mpr h.nonempty
    simp only [stepAt, Nat.add_sub_cancel, hlast, if_true]
    rw [hdata, List.getD_append _ _ _ _ (by omega)]
    rfl
  have hindex : (fun i => (stepAt config.processData i).2)^[k] 1 = steps.length + 1 := by
    obtain ⟨d, rfl⟩ := Nat.exists_eq_add_of_le' hk
    rw [Function.iterate_add_apply, index_iterate h le_rfl]
    exact Function.iterate_fixed (congrArg Prod.snd hstep) d
  rw [stepOf, hindex, hstep]

theorem stepOf_pos (h : config.Steps steps) {k : Nat}
    (hk : config.processData = steps → k < steps.length) : 0 < stepOf config.processData k := by
  by_cases hlt : k < steps.length
  · rw [stepOf_lt h hlt]
    exact h.pos _ (List.getElem_mem hlt)
  · have hdata := h.data.resolve_left fun hdata => hlt (hk hdata)
    rw [stepOf_ge h hdata (not_lt.mp hlt)]
    have hlen := List.length_pos_iff.mpr h.nonempty
    rw [List.getD_eq_getElem _ _ (by omega)]
    exact h.pos _ (List.getElem_mem _)

/-- The progress before the level `k + 1`. -/
abbrev total (processData : List Int) (k : Nat) : Int := totalFrom processData k 1

theorem total_succ (processData : List Int) (k : Nat) :
    total processData (k + 1) = total processData k + stepOf processData k :=
  totalFrom_succ processData k 1

theorem total_mono (h : config.Steps steps) {k l : Nat} (hkl : k ≤ l)
    (hl : config.processData = steps → l ≤ steps.length) :
    total config.processData k ≤ total config.processData l := by
  induction l, hkl using Nat.le_induction with
  | base => exact le_rfl
  | succ l _ ih =>
      have hstep := stepOf_pos h (k := l) fun hdata => hl hdata
      have hle := ih fun hdata => Nat.le_of_succ_le (hl hdata)
      rw [total_succ]
      omega

def levelIndex (steps : List Int) (k : Nat) : Nat := min (k + 1) steps.length

/-- The progress within the level `k + 1`, as `get_lv_info` keeps it. -/
structure Placed (config : Config) (steps : List Int) (process : Int) (k : Nat)
    (r : Int × Int × Nat × Int) : Prop where
  now : r.1 = process - total config.processData k
  lv : r.2.1 = k + 1
  index : r.2.2.1 = levelIndex steps k
  need : r.2.2.2 = stepOf config.processData k
  nonneg : 0 ≤ r.1
  le : r.1 ≤ r.2.2.2
  finite : config.processData = steps → k < steps.length

theorem placed_lvLoop (h : config.Steps steps) {process : Int}
    (hmax : config.processData = steps → process ≤ total config.processData steps.length)
    (fuel k : Nat) (now : Int) (hnow : now = process - total config.processData k)
    (hnonneg : 0 ≤ now) (hfuel : now.toNat < fuel)
    (hfinite : config.processData = steps → k < steps.length) :
    ∃ k', k ≤ k' ∧ Placed config steps process k' (lvLoop config.processData fuel now (k + 1)
      (levelIndex steps k) (stepOf config.processData k)) := by
  induction fuel generalizing k now with
  | zero => exact absurd hfuel (Nat.not_lt_zero _)
  | succ fuel ih =>
      unfold lvLoop
      have hpos := stepOf_pos h hfinite
      split
      · rename_i hlt
        have hsucc := total_succ config.processData k
        have hmore : config.processData = steps → k + 1 < steps.length := by
          intro hdata
          have hk := hfinite hdata
          have hle := hmax hdata
          by_contra hno
          have heq : k + 1 = steps.length := by omega
          rw [← heq] at hle
          omega
        have hnext := ih (k + 1) (now - stepOf config.processData k) (by omega) (by omega)
          (by omega) hmore
        obtain ⟨k', hk', hplaced⟩ := hnext
        refine ⟨k', by omega, ?_⟩
        by_cases hk : k + 1 < steps.length
        · rw [levelIndex, min_eq_left hk.le, processData_lt h hk]
          have hstep := h.pos steps[k + 1] (List.getElem_mem hk)
          dsimp only
          rw [if_neg (by omega)]
          rwa [levelIndex, min_eq_left (by omega), stepOf_lt h hk] at hplaced
        · have hrepeat := h.data.resolve_left fun hdata => hk (hmore hdata)
          have hlast : config.processData[steps.length]? = some (-1) := by simp [hrepeat]
          have hlen := List.length_pos_iff.mpr h.nonempty
          have hstep : config.processData.getD (steps.length - 1) 0 =
              steps.getD (steps.length - 1) 0 := by
            rw [hrepeat, List.getD_append _ _ _ _ (by omega)]
          rw [levelIndex, min_eq_right (not_lt.mp hk), hlast]
          dsimp only
          rw [if_pos rfl, hstep]
          rwa [levelIndex, min_eq_right (by omega),
            stepOf_ge h hrepeat (not_lt.mp hk)] at hplaced
      · rename_i hle
        exact ⟨k, le_rfl, hnow, rfl, rfl, rfl, hnonneg, not_lt.mp hle, hfinite⟩

theorem getMaxProcess_pos {l : List Int} (hl : ∀ x ∈ l, 0 < x) : getMaxProcess l = l.sum := by
  induction l with
  | nil => rfl
  | cons x l ih =>
      have hx := hl x List.mem_cons_self
      have hrest (y : Int) (hy : y ∈ l) := hl y (List.mem_cons_of_mem x hy)
      have hno : -1 ∉ l := fun hmem => absurd (hrest (-1) hmem) (by decide)
      rw [getMaxProcess, if_neg (by omega), if_neg hno, ih hrest, List.sum_cons]

theorem total_take (h : config.Steps steps) {k : Nat} (hk : k ≤ steps.length) :
    total config.processData k = (steps.take k).sum := by
  induction k with
  | zero => rfl
  | succ k ih =>
      rw [total_succ, ih (Nat.le_of_succ_le hk), stepOf_lt h hk, List.sum_take_succ _ _ hk]

theorem getMaxProcess_nonneg (h : config.Steps steps) :
    0 ≤ getMaxProcess config.processData := by
  rcases h.data with hdata | hdata
  · rw [hdata, getMaxProcess_pos h.pos]
    exact List.sum_nonneg fun x hx => (h.pos x hx).le
  · obtain ⟨x, rest, rfl⟩ := List.exists_cons_of_ne_nil h.nonempty
    have hx := h.pos x List.mem_cons_self
    rw [hdata, List.cons_append, getMaxProcess, if_neg (by omega), if_pos (by simp)]
    decide

theorem max_finite (h : config.Steps steps) (hdata : config.processData = steps) :
    getMaxProcess config.processData = total config.processData steps.length := by
  rw [total_take h le_rfl, List.take_length, hdata, getMaxProcess_pos h.pos]

end Totals

/-! ## Bits of levels -/

abbrev levelOf (i : Nat) : Int := i + 1

abbrev bitSum (l : List Nat) : Nat := (l.map fun i => 2 ^ i).sum

theorem decode_nat (n : Nat) : decodeTaskAwardStatus n = n.bitIndices.map levelOf := by
  have hfloor : ⌊(n : ℚ) / 2⌋ = (n / 2 : ℕ) := by
    exact_mod_cast Rat.floor_natCast_div_natCast n 2
  have hshift (l : List Nat) :
      (l.map (· + 1)).map levelOf = l.map fun i : Nat => (i : Int) + 2 := by
    rw [List.map_map]
    refine List.map_congr_left fun i _ => ?_
    simp [levelOf]
    omega
  unfold decodeTaskAwardStatus
  rw [hfloor, Int.toNat_natCast]
  obtain ⟨m, rfl | rfl⟩ := n.even_or_odd'
  · have hhalf : 2 * m / 2 = m := by omega
    rw [hhalf, Nat.bitIndices_two_mul, hshift, if_neg]
    · rfl
    · push_cast
      simp
  · have hhalf : (2 * m + 1) / 2 = m := by omega
    rw [hhalf, Nat.bitIndices_two_mul_add_one, List.map_cons, hshift, if_pos]
    · rfl
    · push_cast
      ring

theorem decode_bitSum {l : List Nat} (hl : l.SortedLT) :
    decodeTaskAwardStatus (bitSum l) = l.map levelOf := by
  rw [decode_nat, Nat.bitIndices_sum_map_two_pow hl]

theorem powDouble_level {i : Nat} (hi : i < 1024) :
    powDouble (levelOf i - 1) = some ((2 ^ i : ℕ) : ℚ) := by
  have hpow : (2 : ℚ) ^ (levelOf i - 1) = ((1 * 2 ^ i : ℕ) : ℚ) := by
    rw [levelOf, add_sub_cancel_right, zpow_natCast, one_mul]
    push_cast
    rfl
  have hlt : 1 * 2 ^ i < 2 ^ 1024 := by
    rw [one_mul]
    exact Nat.pow_lt_pow_right Nat.one_lt_two hi
  rw [powDouble, hpow, double_exact (m := 1) (by norm_num) hlt, one_mul]

theorem encode_levels {l : List Nat} (hl : l.Nodup) (h : Narrow l) :
    encodeTaskAwardStatus (l.map levelOf) = some ((bitSum l : ℕ) : ℚ) := by
  induction l using List.reverseRecOn with
  | nil => rfl
  | append_singleton l i ih =>
      have hfront := ih (List.Nodup.of_append_left hl)
        (h.subset fun j hj => List.mem_append_left _ hj)
      have hi := (h i (by simp)).1
      have hsum := double_sum_two_pow hl h
      rw [List.map_append, List.sum_append, List.map_singleton, List.sum_singleton] at hsum
      unfold encodeTaskAwardStatus at hfront ⊢
      rw [List.map_append, List.foldl_append, hfront, List.map_singleton, List.foldl_cons,
        List.foldl_nil, powDouble_level hi, bitSum, bitSum, List.map_append, List.sum_append,
        List.map_singleton, List.sum_singleton, ← hsum, Nat.cast_add]
      rfl

theorem setLevel_levelOf (i : Nat) (l : List Nat) :
    setLevel (levelOf i) (l.map levelOf) = (l.orderedInsert (· ≤ ·) i).map levelOf := by
  rw [setLevel, if_pos (by unfold levelOf; omega)]
  exact (List.map_orderedInsert _ _ levelOf l i (fun _ _ => by simp) fun _ _ => by simp).symm

theorem setLevels (es l : List Nat) (hl : l.SortedLT) (hnodup : (es ++ l).Nodup) :
    ∃ l' : List Nat, l'.SortedLT ∧ l'.Perm (es ++ l) ∧
      (es.map levelOf).foldl (fun l level => setLevel level l) (l.map levelOf) =
        l'.map levelOf := by
  induction es generalizing l with
  | nil => exact ⟨l, hl, .refl _, rfl⟩
  | cons i es ih =>
      rw [List.cons_append, List.nodup_cons] at hnodup
      have hperm := List.perm_orderedInsert (· ≤ ·) i l
      have hi : i ∉ l := fun hmem => hnodup.1 (List.mem_append_right _ hmem)
      have hnew : (l.orderedInsert (· ≤ ·) i).Nodup :=
        hperm.nodup_iff.mpr (List.nodup_cons.mpr ⟨hi, hl.nodup⟩)
      have hsorted : (l.orderedInsert (· ≤ ·) i).SortedLT := by
        have hle : (l.orderedInsert (· ≤ ·) i).SortedLE :=
          (hl.sortedLE.pairwise.orderedInsert i l).sortedLE
        exact hle.sortedLT_of_nodup hnew
      have hmiddle : (es ++ l.orderedInsert (· ≤ ·) i).Perm (i :: (es ++ l)) :=
        (hperm.append_left es).trans List.perm_middle
      obtain ⟨l', hsorted', hperm', heq⟩ := ih _ hsorted
        (hmiddle.nodup_iff.mpr (List.nodup_cons.mpr hnodup))
      refine ⟨l', hsorted', hperm'.trans hmiddle, ?_⟩
      rw [List.map_cons, List.foldl_cons, setLevel_levelOf, heq]

namespace Task

variable {s t : Task} {steps : List Int} {k : Nat}

/-- The progress of a task that has reached the level `k + 1`. -/
structure Reached (s : Task) (steps : List Int) (k : Nat) : Prop where
  shape : s.config.Steps steps
  placed : Placed s.config steps s.process k
    (s.nowLvProcess, s.lv, s.processIndex, s.nowLvNeedProcess)
  max : s.maxProcess = getMaxProcess s.config.processData
  le : s.process ≤ s.maxProcess

theorem getD_levelIndex (h : s.config.Steps steps)
    (hfinite : s.config.processData = steps → k < steps.length) :
    s.config.processData.getD (levelIndex steps k - 1) 0 = stepOf s.config.processData k := by
  by_cases hk : k < steps.length
  · rw [levelIndex, min_eq_left hk, stepOf_lt h hk, List.getD_eq_getElem?_getD,
      Nat.add_sub_cancel, processData_lt h hk]
    rfl
  · have hrepeat := h.data.resolve_left fun hdata => hk (hfinite hdata)
    have hlen := List.length_pos_iff.mpr h.nonempty
    rw [levelIndex, min_eq_right (by omega), stepOf_ge h hrepeat (not_lt.mp hk), hrepeat,
      List.getD_append _ _ _ _ (by omega)]

theorem reached_getLvInfo (h : s.config.Steps steps)
    (hmax : s.maxProcess = getMaxProcess s.config.processData) (hle : s.process ≤ s.maxProcess)
    (hlv : s.lv = k + 1) (hindex : s.processIndex = levelIndex steps k)
    (hfinite : s.config.processData = steps → k < steps.length)
    (htotal : total s.config.processData k ≤ s.process) :
    ∃ k', k ≤ k' ∧ s.getLvInfo.Reached steps k' := by
  have hgrade : getGradeTotalProcess s.config.processData s.lv = total s.config.processData k := by
    rw [getGradeTotalProcess, hlv, add_sub_cancel_right, Int.toNat_natCast]
  have hbound (hdata : s.config.processData = steps) :
      s.process ≤ total s.config.processData steps.length := by
    rw [← max_finite h hdata, ← hmax]
    exact hle
  obtain ⟨k', hk', hplaced⟩ := placed_lvLoop h hbound
    ((s.process - total s.config.processData k).toNat + 1) k _ rfl (by omega)
    (Nat.lt_succ_self _) hfinite
  refine ⟨k', hk', h, ?_, hmax, hle⟩
  unfold getLvInfo
  dsimp only
  rw [hgrade, hlv, hindex, getD_levelIndex h hfinite]
  exact hplaced

theorem reached_start {config : Config} (h : config.Steps steps) (n : Int) :
    ∃ k, (start config n).Reached steps k := by
  have hlen := List.length_pos_iff.mpr h.nonempty
  obtain ⟨k, -, hreached⟩ := reached_getLvInfo (k := 0)
    (s := { config, totalStepHongbaoNum := n, maxProcess := getMaxProcess config.processData })
    h rfl (getMaxProcess_nonneg h) rfl (min_eq_left hlen).symm (fun _ => hlen) le_rfl
  exact ⟨k, hreached⟩

theorem reached_addExp (h : s.Reached steps k) {exp : Int} (hexp : 0 ≤ exp) :
    ∃ k', (s.addExp exp).Reached steps k' := by
  have hnow := h.placed.now
  have hnonneg := h.placed.nonneg
  have hle := h.le
  obtain ⟨k', -, hreached⟩ := reached_getLvInfo (k := k)
    (s := { s with process := min (s.process + exp) s.maxProcess }) h.shape h.max
    (min_le_right _ _) h.placed.lv h.placed.index h.placed.finite
    (by dsimp only at hnow hnonneg ⊢; omega)
  exact ⟨k', hreached⟩

theorem Reached.completed (h : s.Reached steps k) {level : Int} (hlv : level ≤ s.lv)
    (hlevel : s.Completed level) :
    1 ≤ level ∧ getGradeTotalProcess s.config.processData (level + 1) ≤ s.process := by
  refine ⟨hlevel.1, ?_⟩
  have hone := hlevel.1
  have hk : s.lv = k + 1 := h.placed.lv
  have hnow : s.nowLvProcess = s.process - total s.config.processData k := h.placed.now
  have hneed : s.nowLvNeedProcess = stepOf s.config.processData k := h.placed.need
  have hnonneg : 0 ≤ s.nowLvProcess := h.placed.nonneg
  rw [getGradeTotalProcess, add_sub_cancel_right]
  by_cases heq : level = s.lv
  · have hdone := hlevel.2 heq
    have hsucc := total_succ s.config.processData k
    have hnat : level.toNat = k + 1 := by omega
    rw [hnat]
    change total s.config.processData (k + 1) ≤ s.process
    omega
  · have hle : level.toNat ≤ k := by omega
    have hmono := total_mono h.shape hle fun hdata => (h.placed.finite hdata).le
    change total s.config.processData level.toNat ≤ s.process
    omega

/-! ## Marks -/

/-- The bits `l` are set, those of all awards that were returned among them. -/
structure Marked (s : Task) (l : List Nat) : Prop where
  sorted : l.SortedLT
  narrow : Narrow l
  status : s.taskAwardGetStatus = some ((bitSum l : ℕ) : ℚ)
  paid : ∀ x ∈ s.paid, ∃ i ∈ l, x.level = levelOf i

theorem Marked.taken {l : List Nat} (h : s.Marked l) : s.taken = l.map levelOf := by
  rw [Task.taken, h.status, Option.map_some, Option.getD_some, decode_bitSum h.sorted]

structure Inv (s : Task) : Prop where
  reached : ∃ steps k, s.Reached steps k
  marked : ∃ l, s.Marked l
  earned : EarnedOnce s

/-- Nothing but the times in the configuration, the red packets, the round and the locks has
changed. -/
def core (s : Task) :=
  ((s.config.processData, s.process, s.maxProcess),
    (s.nowLvProcess, s.lv, s.processIndex, s.nowLvNeedProcess))

theorem Reached.congr (h : s.Reached steps k) (hcore : t.core = s.core) : t.Reached steps k := by
  simp only [core, Prod.mk.injEq] at hcore
  obtain ⟨⟨hdata, hprocess, hmax⟩, hnow, hlv, hindex, hneed⟩ := hcore
  obtain ⟨hshape, hplaced, hmax', hle⟩ := h
  refine ⟨⟨hshape.nonempty, hshape.pos, by rw [hdata]; exact hshape.data⟩,
    ⟨?_, ?_, ?_, ?_, ?_, ?_, ?_⟩, by rw [hmax, hdata]; exact hmax',
    by rw [hprocess, hmax]; exact hle⟩
  · rw [hnow, hprocess, hdata]
    exact hplaced.now
  · rw [hlv]
    exact hplaced.lv
  · rw [hindex]
    exact hplaced.index
  · rw [hneed, hdata]
    exact hplaced.need
  · rw [hnow]
    exact hplaced.nonneg
  · rw [hnow, hneed]
    exact hplaced.le
  · rw [hdata]
    exact hplaced.finite

theorem earnedOnce_congr (h : EarnedOnce s) (hcore : t.core = s.core) (hpaid : t.paid = s.paid) :
    EarnedOnce t := by
  simp only [core, Prod.mk.injEq] at hcore
  refine ⟨by rw [hpaid]; exact h.once, ?_⟩
  rw [hpaid, hcore.1.1]
  exact h.earned

structure Quiet (s t : Task) : Prop where
  core : t.core = s.core
  status : t.taskAwardGetStatus = s.taskAwardGetStatus
  paid : t.paid = s.paid

protected theorem Quiet.refl (s : Task) : s.Quiet s := ⟨rfl, rfl, rfl⟩

protected theorem Quiet.trans {u : Task} (h : s.Quiet t) (h' : t.Quiet u) : s.Quiet u :=
  ⟨h'.core.trans h.core, h'.status.trans h.status, h'.paid.trans h.paid⟩

theorem Inv.quiet (h : s.Inv) (hquiet : s.Quiet t) : t.Inv := by
  obtain ⟨hcore, hstatus, hpaid⟩ := hquiet
  obtain ⟨⟨steps, k, hreached⟩, ⟨l, hmarked⟩, hearned⟩ := h
  exact ⟨⟨steps, k, hreached.congr hcore⟩,
    ⟨l, hmarked.sorted, hmarked.narrow, hstatus.trans hmarked.status,
      by rw [hpaid]; exact hmarked.paid⟩, earnedOnce_congr hearned hcore hpaid⟩

theorem Inv.mark (h : s.Inv) (levels : List Int)
    (hcore : t.core = s.core) (hnodup : levels.Nodup)
    (hlevels : ∀ level ∈ levels, level ≤ s.lv ∧ level ∉ s.taken ∧ s.Completed level)
    (hfits : s.Fits levels)
    (hstatus : t.taskAwardGetStatus =
      encodeTaskAwardStatus (levels.foldl (fun l level => setLevel level l) s.taken))
    (hpaid : t.paid = s.paid ∨
      t.paid = s.paid ++ levels.map fun level => ⟨level, s.process⟩) : t.Inv := by
  obtain ⟨⟨steps, k, hreached⟩, ⟨l, hmarked⟩, hearned⟩ := h
  have hback : (levels.map fun level => (level - 1).toNat).map levelOf = levels := by
    rw [List.map_map]
    refine (List.map_congr_left fun level hlevel => ?_).trans (List.map_id levels)
    have hone := (hlevels level hlevel).2.2.1
    simp only [Function.comp_apply, levelOf, id_eq]
    omega
  generalize levels.map (fun level => (level - 1).toNat) = es at hback
  subst hback
  have hes : es.Nodup := List.Nodup.of_map _ hnodup
  have htaken := hmarked.taken
  have hnew (i : Nat) (hi : i ∈ es) : i ∉ l := by
    intro hmem
    refine (hlevels (levelOf i) (List.mem_map_of_mem hi)).2.1 ?_
    rw [htaken]
    exact List.mem_map_of_mem hmem
  have hall : (es ++ l).Nodup :=
    List.nodup_append.mpr ⟨hes, hmarked.sorted.nodup, fun i hi j hj h => hnew i hi (h ▸ hj)⟩
  obtain ⟨l', hsorted, hperm, heq⟩ := setLevels es l hmarked.sorted hall
  have hnarrow : Narrow l' := by
    have hexp : ((es.map levelOf ++ s.taken).map fun level => (level - 1).toNat) = es ++ l := by
      rw [htaken, ← List.map_append, List.map_map]
      refine (List.map_congr_left fun i _ => ?_).trans (List.map_id _)
      simp [levelOf]
    have hfits : Narrow ((es.map levelOf ++ s.taken).map fun level => (level - 1).toNat) := hfits
    rw [hexp] at hfits
    exact hfits.subset fun i hi => hperm.subset hi
  have hmem (i : Nat) (hi : i ∈ es ∨ i ∈ l) : i ∈ l' :=
    hperm.symm.subset (List.mem_append.mpr hi)
  refine ⟨⟨steps, k, hreached.congr hcore⟩, ⟨l', hsorted, hnarrow, ?_, fun x hx => ?_⟩, ?_⟩
  · rw [hstatus, htaken, heq, encode_levels hsorted.nodup hnarrow]
  · have hold (x : Paid) (hx : x ∈ s.paid) : ∃ i ∈ l', x.level = levelOf i := by
      obtain ⟨i, hi, hlevel⟩ := hmarked.paid x hx
      exact ⟨i, hmem i (.inr hi), hlevel⟩
    rcases hpaid with hpaid | hpaid
    · exact hold x (hpaid ▸ hx)
    · rw [hpaid] at hx
      rcases List.mem_append.mp hx with hx | hx
      · exact hold x hx
      · obtain ⟨level, hlevel, rfl⟩ := List.mem_map.mp hx
        obtain ⟨i, hi, rfl⟩ := List.mem_map.mp hlevel
        exact ⟨i, hmem i (.inl hi), rfl⟩
  · rcases hpaid with hpaid | hpaid
    · exact earnedOnce_congr hearned hcore hpaid
    · have hdata : t.config.processData = s.config.processData := by
        simp only [core, Prod.mk.injEq] at hcore
        exact hcore.1.1
      refine ⟨?_, fun x hx => ?_⟩
      · rw [hpaid, List.map_append, List.map_map]
        refine List.nodup_append.mpr ⟨hearned.once, ?_, fun a ha b hb hab => ?_⟩
        · exact (List.map_id (es.map levelOf)).symm ▸ hnodup
        · obtain ⟨x, hx, rfl⟩ := List.mem_map.mp ha
          obtain ⟨level, hlevel, rfl⟩ := List.mem_map.mp hb
          obtain ⟨i, hi, hxi⟩ := hmarked.paid x hx
          refine (hlevels level hlevel).2.1 ?_
          rw [htaken]
          have hlevel' : level = levelOf i := hab.symm.trans hxi
          exact hlevel' ▸ List.mem_map_of_mem hi
      · rw [hdata]
        rw [hpaid] at hx
        rcases List.mem_append.mp hx with hx | hx
        · exact hearned.earned x hx
        · obtain ⟨level, hlevel, rfl⟩ := List.mem_map.mp hx
          obtain ⟨hle, -, hdone⟩ := hlevels level hlevel
          exact hreached.completed hle hdone

/-! ## Requests -/

theorem quiet_getLvAwardData {level : Int} {env : Env} {r : Option (List AwardItem)}
    (h : s.getLvAwardData level env = some (r, t)) : s.Quiet t := by
  unfold getLvAwardData at h
  cases hindex : awardIndex s.config level with
  | none =>
      simp only [hindex, Option.some.injEq, Prod.mk.injEq] at h
      exact h.2 ▸ Quiet.refl s
  | some index =>
      simp only [hindex] at h
      split at h
      · split at h
        · cases h
        · simp only [Option.some.injEq, Prod.mk.injEq] at h
          exact h.2 ▸ Quiet.refl s
      · simp only [Option.some.injEq, Prod.mk.injEq] at h
        cases index with
        | none => exact h.2 ▸ Quiet.refl s
        | some i => exact h.2 ▸ ⟨rfl, rfl, rfl⟩

theorem quiet_countHongbao (s : Task) (items : List AwardItem) :
    s.Quiet (s.countHongbao items).2 := by
  induction items generalizing s with
  | nil => exact Quiet.refl s
  | cons item items ih =>
      unfold countHongbao
      split
      · split
        · exact Quiet.refl s
        · have hcount : s.Quiet { s with
              nowStepGetHongbaoNum := s.nowStepGetHongbaoNum + item.value } := ⟨rfl, rfl, rfl⟩
          exact hcount.trans (ih _)
      · exact ih s

theorem inv_getAward (h : s.Inv) {level : Option Int} (env : Env) (hask : s.Asks level) :
    (s.getAward level env).2.Inv := by
  unfold getAward
  generalize hlevel : level.getD s.taskRound = l at hask
  unfold Asks at hask
  rw [hlevel] at hask
  dsimp only
  split
  · exact h
  rename_i hle
  have hle : l ≤ s.lv := not_lt.mp hle
  cases hstatus : s.taskAwardGetStatus with
  | none => exact h
  | some status =>
      have htaken : s.taken = decodeTaskAwardStatus status := by
        rw [taken, hstatus]
        rfl
      dsimp only
      split
      · exact h
      rename_i hnew
      rw [← htaken] at hnew ⊢
      obtain ⟨hdone, hfits⟩ := (hask.resolve_left (not_lt.mpr hle)).resolve_left hnew
      cases haward : s.getLvAwardData l env with
      | none => exact h
      | some r =>
          obtain ⟨data, t⟩ := r
          have hquiet := quiet_getLvAwardData haward
          cases data with
          | none => exact h.quiet hquiet
          | some items =>
              dsimp only
              have hcount : s.Quiet
                  (if t.config.ownType = .stepTask then t.countHongbao items else (true, t)).2 := by
                split
                · exact hquiet.trans (quiet_countHongbao t items)
                · exact hquiet
              generalize (if t.config.ownType = .stepTask then t.countHongbao items
                else (true, t)) = r at hcount ⊢
              obtain ⟨free, u⟩ := r
              obtain ⟨hcore, hsame, hpaid⟩ := hcount
              have hlevels (x : Int) (hx : x ∈ [l]) :
                  x ≤ s.lv ∧ x ∉ s.taken ∧ s.Completed x := by
                obtain rfl := List.mem_singleton.mp hx
                exact ⟨hle, hnew, hdone⟩
              cases free with
              | false => exact h.quiet ⟨hcore, hsame, hpaid⟩
              | true =>
                  have hprocess : u.process = s.process := by
                    simp only [core, Prod.mk.injEq] at hcore
                    exact hcore.1.2.1
                  dsimp only
                  rw [if_pos rfl]
                  split
                  · refine h.mark [l] hcore (List.nodup_singleton l) hlevels hfits
                      rfl (.inr ?_)
                    rw [List.map_singleton, ← hprocess, ← hpaid]
                    rfl
                  · exact h.mark [l] hcore (List.nodup_singleton l) hlevels hfits
                      rfl (.inl hpaid)

theorem inv_getTaskAward (h : s.Inv) {level : Option Int} (env : Env) (hask : s.Asks level) :
    (getTaskAward level env s).2.Inv := by
  have haward := inv_getAward h env hask
  unfold getTaskAward
  split
  · exact h
  · split <;> simp_all

theorem Asks.congr {level : Option Int} (h : s.Asks level) (hcore : t.core = s.core)
    (hstatus : t.taskAwardGetStatus = s.taskAwardGetStatus) (hround : t.taskRound = s.taskRound) :
    t.Asks level := by
  simp only [core, Prod.mk.injEq] at hcore
  obtain ⟨-, hnow, hlv, -, hneed⟩ := hcore
  simpa only [Asks, Completed, Fits, taken, hnow, hlv, hneed, hstatus, hround] using h

theorem inv_requestGetTaskAward (h : s.Inv) (env : Env) (hask : s.Asks none) :
    (requestGetTaskAward env s).2.Inv := by
  have hlock : s.Quiet { s with awardLock := true } := ⟨rfl, rfl, rfl⟩
  have haward := inv_getTaskAward (h.quiet hlock) env (hask.congr rfl rfl rfl)
  unfold requestGetTaskAward
  split
  · exact h
  · revert haward
    generalize getTaskAward none env { s with awardLock := true } = r
    intro haward
    obtain ⟨_ | r, t⟩ := r
    · exact haward
    · exact haward.quiet ⟨rfl, rfl, rfl⟩

theorem inv_requestGetTaskAwardNew (h : s.Inv) (level : Int) (env : Env)
    (hask : s.Asks (some level)) : (requestGetTaskAwardNew level env s).2.Inv := by
  have hlock : s.Quiet { s with awardNewLock := true } := ⟨rfl, rfl, rfl⟩
  have haward := inv_getTaskAward (h.quiet hlock) env (hask.congr rfl rfl rfl)
  unfold requestGetTaskAwardNew
  split
  · exact h
  · revert haward
    generalize getTaskAward (some level) env { s with awardNewLock := true } = r
    intro haward
    obtain ⟨_ | r, t⟩ := r
    · exact haward
    · exact haward.quiet ⟨rfl, rfl, rfl⟩

theorem inv_addExp (h : s.Inv) {exp : Int} (hexp : 0 ≤ exp) : (s.addExp exp).Inv := by
  obtain ⟨⟨steps, k, hreached⟩, ⟨l, hmarked⟩, hearned⟩ := h
  obtain ⟨k', hreached'⟩ := reached_addExp hreached hexp
  exact ⟨⟨steps, k', hreached'⟩, ⟨l, hmarked.sorted, hmarked.narrow, hmarked.status, hmarked.paid⟩,
    hearned.once, hearned.earned⟩

theorem inv_addProcess (h : s.Inv) {exp : Int} (env : Env) (hexp : 0 ≤ exp)
    (hask : s.config.ownType = .goldpigNew2 →
      s.process = s.maxProcess ∨ s.outOfTime env.now ∨ (s.addExp exp).Asks none) :
    (s.addProcess exp env).2.Inv := by
  unfold addProcess
  split
  · exact h
  rename_i hopen
  have hadded := inv_addExp h hexp
  dsimp only
  split
  · rename_i htype
    have hask := (hask htype).resolve_left fun hmax => hopen (.inl hmax)
    exact inv_getTaskAward hadded env (hask.resolve_left fun hout => hopen (.inr hout))
  · exact hadded

theorem mem_setLevel {level x : Int} {levels : List Int} :
    x ∈ setLevel level levels ↔ x = level ∨ x ∈ levels := by
  unfold setLevel
  split
  · exact List.mem_orderedInsert _
  · rw [List.mem_append, List.mem_singleton, or_comm]

/-- A level that `get_should_get_awards` pays. -/
def IsDue (s : Task) (taken : List Int) (level : Int) : Prop :=
  level ∉ taken ∧ ¬(level = s.lv ∧ s.nowLvProcess < s.nowLvNeedProcess)

instance (s : Task) (taken : List Int) : DecidablePred (s.IsDue taken) := fun _ =>
  inferInstanceAs (Decidable (_ ∧ _))

theorem IsDue.congr {taken : List Int} {level : Int} (hcore : t.core = s.core) :
    t.IsDue taken level ↔ s.IsDue taken level := by
  simp only [core, Prod.mk.injEq] at hcore
  obtain ⟨-, hnow, hlv, -, hneed⟩ := hcore
  rw [IsDue, IsDue, hnow, hlv, hneed]

theorem shouldLoop_spec (change : Bool) (env : Env) {taken : List Int} (keys levels : List Int)
    (awards : List (Int × List AwardItem)) (t : Task) (hcore : t.core = s.core)
    (hkeys : keys.Pairwise (· < ·)) (hlv : ∀ key ∈ keys, key ≤ s.lv)
    (hlevels : ∀ key ∈ keys, key ∈ levels ↔ key ∈ taken) :
    t.Quiet (shouldLoop change env keys levels awards t).2 ∧
      ∀ levels' awards', (shouldLoop change env keys levels awards t).1 = some (levels', awards') →
        awards'.map Prod.fst = awards.map Prod.fst ++ keys.filter (s.IsDue taken) ∧
        levels' = if change then
          (keys.filter (s.IsDue taken)).foldl (fun l x => setLevel x l) levels else levels := by
  induction keys generalizing levels awards t with
  | nil =>
      refine ⟨Quiet.refl t, fun levels' awards' h => ?_⟩
      simp only [shouldLoop, Option.some.injEq, Prod.mk.injEq] at h
      obtain ⟨rfl, rfl⟩ := h
      simp
  | cons key keys ih =>
      obtain ⟨hfirst, hkeys⟩ := List.pairwise_cons.mp hkeys
      have hmem := hlevels key List.mem_cons_self
      have hrest (x : Int) (hx : x ∈ keys) := hlv x (List.mem_cons_of_mem key hx)
      have hrest' (x : Int) (hx : x ∈ keys) := hlevels x (List.mem_cons_of_mem key hx)
      have hdue : t.IsDue levels key ↔ s.IsDue taken key := by
        rw [IsDue.congr hcore, IsDue, IsDue, hmem]
      unfold shouldLoop
      by_cases htaken : key ∈ levels
      · have hnot : ¬s.IsDue taken key := fun h => h.1 (hmem.mp htaken)
        rw [if_pos htaken, List.filter_cons_of_neg (by simpa using hnot)]
        exact ih levels awards t hcore hkeys hrest hrest'
      rw [if_neg htaken]
      by_cases hlast : key = t.lv ∧ t.nowLvProcess < t.nowLvNeedProcess
      · have hnil : keys = [] := by
          refine List.eq_nil_iff_forall_not_mem.mpr fun x hx => ?_
          have hlt := hfirst x hx
          have hle := hrest x hx
          have hlv : t.lv = s.lv := by
            simp only [core, Prod.mk.injEq] at hcore
            exact hcore.2.2.1
          omega
        subst hnil
        have hnot : ¬s.IsDue taken key := fun h => (hdue.mpr h).2 hlast
        rw [if_pos hlast, List.filter_cons_of_neg (by simpa using hnot)]
        refine ⟨Quiet.refl t, fun levels' awards' h => ?_⟩
        simp only [Option.some.injEq, Prod.mk.injEq] at h
        obtain ⟨rfl, rfl⟩ := h
        simp
      have hyes : s.IsDue taken key := hdue.mp ⟨htaken, hlast⟩
      rw [if_neg hlast, List.filter_cons_of_pos (by simpa using hyes)]
      cases haward : t.getLvAwardData key env with
      | none => exact ⟨Quiet.refl t, nofun⟩
      | some r =>
          obtain ⟨data, u⟩ := r
          have hquiet := quiet_getLvAwardData haward
          dsimp only
          generalize hv : (if change = true then { u with taskRound := u.taskRound + 1 }
            else u) = v
          have hround : t.Quiet v := by
            subst hv
            split
            · exact hquiet.trans ⟨rfl, rfl, rfl⟩
            · exact hquiet
          cases data with
          | none => exact ⟨hround, nofun⟩
          | some items =>
              have hmarks (x : Int) (hx : x ∈ keys) :
                  x ∈ (if change = true then setLevel key levels else levels) ↔ x ∈ taken := by
                have hne : x ≠ key := (hfirst x hx).ne'
                split
                · rw [mem_setLevel, hrest' x hx, or_iff_right hne]
                · exact hrest' x hx
              obtain ⟨hquiet', hresult⟩ := ih _ (awards ++ [(key, items)]) v
                (hround.core.trans hcore) hkeys hrest hmarks
              refine ⟨hround.trans hquiet', fun levels' awards' h => ?_⟩
              obtain ⟨hawards, hlevels⟩ := hresult levels' awards' h
              refine ⟨by rw [hawards, List.map_append]; simp, ?_⟩
              cases change <;> exact hlevels

theorem foldl_pay (awards : List (Int × List AwardItem)) (s : Task) :
    awards.foldl (fun s award => s.pay award.1) s = { s with
      paid := s.paid ++ (awards.map Prod.fst).map fun level => ⟨level, s.process⟩ } := by
  induction awards generalizing s with
  | nil => simp
  | cons award awards ih =>
      rw [List.foldl_cons, ih, List.map_cons, List.map_cons]
      simp [pay]

theorem inv_getShouldGetAwards (h : s.Inv) (change : Bool) (env : Env)
    (hcare : s.due = [] ∨ change = true ∧ s.Fits s.due) :
    (getShouldGetAwards change env s).2.Inv := by
  unfold getShouldGetAwards
  cases hstatus : s.taskAwardGetStatus with
  | none => exact h
  | some status =>
      have htaken : s.taken = decodeTaskAwardStatus status := by
        rw [taken, hstatus]
        rfl
      dsimp only
      rw [← htaken]
      have hkeys : ((List.range s.lv.toNat).map fun i : Nat => (i : Int) + 1).Pairwise (· < ·) :=
        List.pairwise_map.mpr (List.pairwise_lt_range.imp fun h => by omega)
      have hlv (key : Int)
          (hkey : key ∈ (List.range s.lv.toNat).map fun i : Nat => (i : Int) + 1) :
          1 ≤ key ∧ key ≤ s.lv := by
        obtain ⟨i, hi, rfl⟩ := List.mem_map.mp hkey
        have hlt := List.mem_range.mp hi
        omega
      have hspec := shouldLoop_spec (s := s) change env _ s.taken [] s rfl hkeys
        (fun key hkey => (hlv key hkey).2) fun _ _ => Iff.rfl
      revert hspec
      generalize shouldLoop change env _ s.taken [] s = r
      rintro ⟨hquiet, hresult⟩
      obtain ⟨_ | ⟨levels, awards⟩, t⟩ := r
      · exact h.quiet hquiet
      · obtain ⟨hawards, hlevels⟩ := hresult levels awards rfl
        have hdue : awards.map Prod.fst = s.due := hawards.trans (List.nil_append _)
        dsimp only
        rw [foldl_pay, hdue]
        have hprocess : t.process = s.process := by
          have hcore := hquiet.core
          simp only [core, Prod.mk.injEq] at hcore
          exact hcore.1.2.1
        cases change with
        | false =>
            have hnil := hcare.resolve_right fun hcare => absurd hcare.1 nofun
            refine h.quiet ⟨hquiet.core, hquiet.status, ?_⟩
            rw [hnil]
            exact (List.append_nil _).trans hquiet.paid
        | true =>
            refine h.mark s.due hquiet.core (hkeys.nodup.filter _)
              (fun level hlevel => ?_) ?_ (congrArg encodeTaskAwardStatus hlevels) (.inr ?_)
            · obtain ⟨hkey, hdue⟩ := List.mem_filter.mp hlevel
              obtain ⟨hone, hle⟩ := hlv level hkey
              have hdue : s.IsDue s.taken level := of_decide_eq_true hdue
              exact ⟨hle, hdue.1, hone, fun heq => not_lt.mp fun hlt => hdue.2 ⟨heq, hlt⟩⟩
            · rcases hcare with hnil | hcare
              · obtain ⟨l, hmarked⟩ := h.marked
                rw [hnil, Fits, List.nil_append, hmarked.taken, List.map_map]
                have hexp : l.map ((fun level => (level - 1).toNat) ∘ levelOf) = l :=
                  (List.map_congr_left fun i _ => by simp [levelOf]).trans (List.map_id l)
                rw [hexp]
                exact hmarked.narrow
              · exact hcare.2
            · change t.paid ++ s.due.map (fun level => ⟨level, t.process⟩) = _
              rw [hprocess]
              exact congrArg (· ++ _) hquiet.paid

theorem inv_step (h : s.Inv) {e : Event} (hcare : s.Careful e) : (step s e).Inv := by
  cases e with
  | addProcess exp env => exact inv_addProcess h env hcare.1 hcare.2
  | getTaskAward env => exact inv_requestGetTaskAward h env hcare
  | getTaskAwardNew level env => exact inv_requestGetTaskAwardNew h level env hcare
  | getShouldGetAwards change env => exact inv_getShouldGetAwards h change env hcare

theorem inv_start {config : Config} (h : config.Steps steps) (n : Int) : (start config n).Inv := by
  refine ⟨⟨steps, reached_start h n⟩, ⟨[], List.Pairwise.nil.sortedLT, nofun, rfl, nofun⟩,
    List.nodup_nil, nofun⟩

end Task

/-- While only completed levels are asked for, and their bits fit into a double, each award is
earned and returned once. -/
theorem awards_earned_once {config : Config} {steps : List Int} (h : config.Steps steps) (n : Int)
    {s : Task} (hs : Reach step Task.Careful (Task.start config n) s) : EarnedOnce s :=
  (Reach.invariant (Task.inv_start h n) (fun _ _ hs he => Task.inv_step hs he) hs).earned

instance (s : Task) : DecidablePred s.Completed := fun _ =>
  inferInstanceAs (Decidable (_ ∧ _))

instance (s : Task) (levels : List Int) : Decidable (s.Fits levels) :=
  inferInstanceAs (Decidable (Narrow _))

instance (s : Task) (level : Option Int) : Decidable (s.Asks level) :=
  inferInstanceAs (Decidable (_ ∨ _ ∨ _))

instance (s : Task) : DecidablePred s.Careful := fun e => by
  cases e <;> unfold Task.Careful <;> infer_instance

def repeated : Config where
  processData := [10, 20, -1]
  awardData := [[{ assetType := "jing_bi", value := 5 }], [{ assetType := "jing_bi", value := 9 }]]

def claims : List Event :=
  [.addProcess 35 {}, .getTaskAward {}, .getTaskAwardNew 5 {}, .getShouldGetAwards true {},
    .addProcess 40 {}, .getTaskAwardNew 3 {}, .getTaskAwardNew 2 {}]

theorem repeated_steps : repeated.Steps [10, 20] := ⟨nofun, by decide, .inr rfl⟩

theorem awards_earned_once_claims :
    (run step (Task.start repeated 0) claims).paid.map Paid.level = [1, 2, 3] ∧
      EarnedOnce (run step (Task.start repeated 0) claims) :=
  ⟨by decide +kernel, awards_earned_once repeated_steps 0 (reach_run (by decide +kernel))⟩

/-- The first award is returned before any progress. -/
theorem award_not_earned :
    ¬∀ (config : Config) (steps : List Int), config.Steps steps → ∀ (n : Int) (s : Task),
      Reach step (fun _ e => ∀ exp env, e = .addProcess exp env → 0 ≤ exp)
        (Task.start config n) s → EarnedOnce s := by
  intro h
  have hrun := h repeated [10, 20] repeated_steps 0
    (run step (Task.start repeated 0) [.getTaskAward {}])
    (reach_run ⟨fun _ _ h => (by cases h), trivial⟩)
  have hearned := hrun.earned ⟨1, 0⟩ (by decide +kernel)
  revert hearned
  decide +kernel

end JyQipai.Tasks
