import JyQipai.Tasks.Awards

/-!
# The level of a task

`get_lv_info` goes on from the level and the index that it left.  A level is left only with
progress over its step, so the level is the only one whose step the progress falls into, and
the same as when the loop begins at level 1.
-/

namespace JyQipai.Tasks

open Lib

namespace Task

def lvStart (s : Task) : Int × Int × Nat × Int :=
  (s.process - getGradeTotalProcess s.config.processData s.lv, s.lv, s.processIndex,
    s.config.processData.getD (s.processIndex - 1) 0)

def LvInfoEnds (s : Task) : Prop :=
  ∀ turns, s.lvStart.1.toNat < turns →
    lvLoop s.config.processData turns s.lvStart.1 s.lvStart.2.1 s.lvStart.2.2.1 s.lvStart.2.2.2 =
      lvLoop s.config.processData (s.lvStart.1.toNat + 1) s.lvStart.1 s.lvStart.2.1
        s.lvStart.2.2.1 s.lvStart.2.2.2

def stored (s : Task) : Task :=
  { s with lv := 1, processIndex := 1, maxProcess := getMaxProcess s.config.processData }

def reload (s : Task) : Task := s.stored.getLvInfo

/-- The progress is that of the levels before and a part of the next step, at the level
that is found from level 1 on. -/
structure Leveled (s : Task) : Prop where
  total : s.process = getGradeTotalProcess s.config.processData s.lv + s.nowLvProcess
  nonneg : 0 ≤ s.nowLvProcess
  le : s.nowLvProcess ≤ s.nowLvNeedProcess
  scratch : s.reload.lv = s.lv
  max : s.process ≤ s.maxProcess

end Task

inductive Progress where
  | addProcess (exp : Nat) (env : Task.Env)
  | reload

namespace Task

def progress (s : Task) : Progress → Task
  | .addProcess exp env => (s.addProcess exp env).2
  | .reload => s.reload

def beforeLvInfo (s : Task) : Progress → Task
  | .addProcess exp _ => { s with process := min (s.process + exp) s.maxProcess }
  | .reload => s.stored

/-! ## The level is unique -/

variable {config : Config} {steps : List Int} {s t : Task} {k l : Nat}

theorem lvLoop_stays_or_pos (processData : List Int) (turns : Nat) (now lv : Int) (index : Nat)
    (need : Int) : lvLoop processData turns now lv index need = (now, lv, index, need) ∨
      0 < (lvLoop processData turns now lv index need).1 := by
  induction turns generalizing now lv index need with
  | zero => exact .inl rfl
  | succ turns ih =>
      have hnext (lv' : Int) (index' : Nat) (need' : Int) (hlt : need < now) :
          0 < (lvLoop processData turns (now - need) lv' index' need').1 := by
        rcases ih (now - need) lv' index' need' with heq | hpos
        · rw [heq]
          exact Int.sub_pos.mpr hlt
        · exact hpos
      unfold lvLoop
      split
      · rename_i hlt
        right
        cases processData[index]? with
        | none => exact Int.sub_pos.mpr hlt
        | some step =>
            dsimp only
            split <;> exact hnext _ _ _ hlt
      · exact .inl rfl

def Begun (k : Nat) (now : Int) : Prop := k = 0 ∨ 0 < now

theorem placed_le (h : config.Steps steps) {process : Int} {r r' : Int × Int × Nat × Int}
    (hk : Placed config steps process k r) (hl : Placed config steps process l r')
    (hbegun : Begun l r'.1) : l ≤ k := by
  by_contra hlt
  have hnow := hk.now
  have hle := hk.le
  have hneed := hk.need
  have hpos : 0 < r'.1 := hbegun.resolve_left (by omega)
  have hnow' := hl.now
  have hsucc := total_succ config.processData k
  have hmono := total_mono h (k := k + 1) (l := l) (by omega) fun hdata => (hl.finite hdata).le
  omega

theorem placed_unique (h : config.Steps steps) {process : Int} {r r' : Int × Int × Nat × Int}
    (hk : Placed config steps process k r) (hl : Placed config steps process l r')
    (hbegun : Begun k r.1) (hbegun' : Begun l r'.1) : r = r' := by
  obtain rfl : k = l := le_antisymm (placed_le h hl hk hbegun) (placed_le h hk hl hbegun')
  obtain ⟨now, lv, index, need⟩ := r
  obtain ⟨now', lv', index', need'⟩ := r'
  obtain rfl : now = now' := hk.now.trans hl.now.symm
  obtain rfl : lv = lv' := hk.lv.trans hl.lv.symm
  obtain rfl : index = index' := hk.index.trans hl.index.symm
  obtain rfl : need = need' := hk.need.trans hl.need.symm
  rfl

/-! ## The loop of `get_lv_info` -/

structure GoesOn (s : Task) (steps : List Int) (k : Nat) : Prop where
  shape : s.config.Steps steps
  max : s.maxProcess = getMaxProcess s.config.processData
  le : s.process ≤ s.maxProcess
  lv : s.lv = k + 1
  index : s.processIndex = levelIndex steps k
  finite : s.config.processData = steps → k < steps.length
  total : Tasks.total s.config.processData k ≤ s.process
  begun : Begun k (s.process - Tasks.total s.config.processData k)

theorem GoesOn.lvStart (h : s.GoesOn steps k) : s.lvStart =
    (s.process - Tasks.total s.config.processData k, (k : Int) + 1, levelIndex steps k,
      stepOf s.config.processData k) := by
  have hgrade : getGradeTotalProcess s.config.processData s.lv =
      Tasks.total s.config.processData k := by
    rw [getGradeTotalProcess, h.lv, add_sub_cancel_right, Int.toNat_natCast]
  rw [Task.lvStart, hgrade, h.lv, h.index, getD_levelIndex h.shape h.finite]

theorem GoesOn.placed (h : s.GoesOn steps k) {turns : Nat} (hturns : s.lvStart.1.toNat < turns) :
    ∃ l, Placed s.config steps s.process l (lvLoop s.config.processData turns s.lvStart.1
        s.lvStart.2.1 s.lvStart.2.2.1 s.lvStart.2.2.2) ∧
      Begun l (lvLoop s.config.processData turns s.lvStart.1 s.lvStart.2.1 s.lvStart.2.2.1
        s.lvStart.2.2.2).1 := by
  have hbound (hdata : s.config.processData = steps) :
      s.process ≤ Tasks.total s.config.processData steps.length := by
    rw [← max_finite h.shape hdata, ← h.max]
    exact h.le
  have htotal := h.total
  rw [h.lvStart] at hturns ⊢
  obtain ⟨l, -, hl⟩ := placed_lvLoop h.shape hbound turns k _ rfl (by omega) hturns h.finite
  refine ⟨l, hl, ?_⟩
  have hstays := lvLoop_stays_or_pos s.config.processData turns
    (s.process - Tasks.total s.config.processData k) (k + 1) (levelIndex steps k)
    (stepOf s.config.processData k)
  rcases hstays with heq | hpos
  · have hlv := hl.lv
    rw [heq] at hlv
    obtain rfl : k = l := by
      dsimp only at hlv
      omega
    rw [heq]
    exact h.begun
  · exact .inr hpos

theorem GoesOn.ends (h : s.GoesOn steps k) : s.LvInfoEnds := by
  intro turns hturns
  obtain ⟨l, hl, hbegun⟩ := h.placed hturns
  obtain ⟨l', hl', hbegun'⟩ := h.placed (Nat.lt_succ_self _)
  exact placed_unique h.shape hl hl' hbegun hbegun'

structure At (s : Task) (steps : List Int) (k : Nat) : Prop where
  reached : s.Reached steps k
  begun : Begun k s.nowLvProcess

theorem GoesOn.getLvInfo (h : s.GoesOn steps k) : ∃ l, s.getLvInfo.At steps l := by
  obtain ⟨l, hl, hbegun⟩ := h.placed (Nat.lt_succ_self _)
  exact ⟨l, ⟨h.shape, hl, h.max, h.le⟩, hbegun⟩

theorem goesOn_stored (h : s.config.Steps steps) (hnonneg : 0 ≤ s.process)
    (hle : s.process ≤ getMaxProcess s.config.processData) : s.stored.GoesOn steps 0 where
  shape := h
  max := rfl
  le := hle
  lv := rfl
  index := (min_eq_left (List.length_pos_iff.mpr h.nonempty)).symm
  finite _ := List.length_pos_iff.mpr h.nonempty
  total := hnonneg
  begun := .inl rfl

namespace At

theorem process_nonneg (h : s.At steps k) : 0 ≤ s.process := by
  have hnow := h.reached.placed.now
  have hnonneg := h.reached.placed.nonneg
  have hmono := total_mono h.reached.shape (Nat.zero_le k)
    fun hdata => (h.reached.placed.finite hdata).le
  have hzero : Tasks.total s.config.processData 0 = 0 := rfl
  dsimp only at hnow hnonneg
  omega

theorem stored (h : s.At steps k) : s.stored.GoesOn steps 0 :=
  goesOn_stored h.reached.shape h.process_nonneg (h.reached.max ▸ h.reached.le)

theorem adds (h : s.At steps k) (exp : Nat) (env : Env) :
    (s.beforeLvInfo (.addProcess exp env)).GoesOn steps k := by
  have hnow := h.reached.placed.now
  have hnonneg := h.reached.placed.nonneg
  have hle := h.reached.le
  refine ⟨h.reached.shape, h.reached.max, min_le_right _ _, h.reached.placed.lv,
    h.reached.placed.index, h.reached.placed.finite, ?_, h.begun.imp_right fun hpos => ?_⟩
  · dsimp only [beforeLvInfo] at hnow hnonneg ⊢
    omega
  · dsimp only [beforeLvInfo] at hnow hnonneg ⊢
    omega

theorem congr (h : s.At steps k) (hcore : t.core = s.core) : t.At steps k := by
  refine ⟨h.reached.congr hcore, ?_⟩
  simp only [core, Prod.mk.injEq] at hcore
  rw [hcore.2.1]
  exact h.begun

theorem ends (h : s.At steps k) (p : Progress) : (s.beforeLvInfo p).LvInfoEnds := by
  cases p with
  | addProcess exp env => exact (h.adds exp env).ends
  | reload => exact h.stored.ends

theorem leveled (h : s.At steps k) : s.Leveled where
  total := by
    have hnow := h.reached.placed.now
    have hlv : s.lv = k + 1 := h.reached.placed.lv
    rw [getGradeTotalProcess, hlv, add_sub_cancel_right, Int.toNat_natCast]
    change s.nowLvProcess = s.process - Tasks.total s.config.processData k at hnow
    rw [hnow, add_sub_cancel]
  nonneg := h.reached.placed.nonneg
  le := h.reached.placed.le
  scratch := by
    obtain ⟨l, hl⟩ := h.stored.getLvInfo
    have hsame := placed_unique h.reached.shape hl.reached.placed h.reached.placed hl.begun h.begun
    exact congrArg (fun r : Int × Int × Nat × Int => r.2.1) hsame
  max := h.reached.le

end At

/-! ## Awards leave the level alone -/

theorem core_getAward (s : Task) (level : Option Int) (env : Env) :
    (s.getAward level env).2.core = s.core := by
  unfold getAward
  dsimp only
  split
  · rfl
  cases hstatus : s.taskAwardGetStatus with
  | none => rfl
  | some status =>
      dsimp only
      split
      · rfl
      cases haward : s.getLvAwardData (level.getD s.taskRound) env with
      | none => rfl
      | some r =>
          obtain ⟨data, t⟩ := r
          have hquiet := quiet_getLvAwardData haward
          cases data with
          | none => exact hquiet.core
          | some items =>
              dsimp only
              have hcount : s.Quiet
                  (if t.config.ownType = .stepTask then t.countHongbao items else (true, t)).2 := by
                split
                · exact hquiet.trans (quiet_countHongbao t items)
                · exact hquiet
              generalize (if t.config.ownType = .stepTask then t.countHongbao items
                else (true, t)) = r at hcount ⊢
              obtain ⟨free, u⟩ := r
              cases free with
              | false => exact hcount.core
              | true =>
                  dsimp only
                  rw [if_pos rfl]
                  split <;> exact hcount.core

theorem core_getTaskAward (s : Task) (level : Option Int) (env : Env) :
    (getTaskAward level env s).2.core = s.core := by
  have haward := core_getAward s level env
  unfold getTaskAward
  split
  · rfl
  · split <;> simp_all

/-! ## Runs -/

theorem At.progress (h : s.At steps k) (p : Progress) : ∃ l, (s.progress p).At steps l := by
  cases p with
  | reload => exact h.stored.getLvInfo
  | addProcess exp env =>
      change ∃ l, (s.addProcess exp env).2.At steps l
      unfold addProcess
      split
      · exact ⟨k, h⟩
      · obtain ⟨l, hl⟩ := (h.adds exp env).getLvInfo
        dsimp only
        split
        · exact ⟨l, hl.congr (core_getTaskAward _ none env)⟩
        · exact ⟨l, hl⟩

theorem at_run (h : s.stored.GoesOn steps 0) (ps : List Progress) :
    ∃ k, (ps.foldl progress s.reload).At steps k := by
  induction ps using List.reverseRecOn with
  | nil => exact h.getLvInfo
  | append_singleton ps p ih =>
      obtain ⟨k, hk⟩ := ih
      rw [List.foldl_append]
      exact hk.progress p

/-- The level that is kept is the level from scratch, in all runs of a task that is new or is
made from what is stored, and its loop always ends. -/
theorem level_from_scratch (h : s.config.Steps steps) (hnonneg : 0 ≤ s.process)
    (hle : s.process ≤ getMaxProcess s.config.processData) (ps : List Progress) (p : Progress) :
    (ps.foldl progress s.reload).Leveled ∧
      ((ps.foldl progress s.reload).beforeLvInfo p).LvInfoEnds := by
  obtain ⟨k, hk⟩ := at_run (goesOn_stored h hnonneg hle) ps
  exact ⟨hk.leveled, hk.ends p⟩

theorem level_from_scratch_repeated :
    (([.addProcess 10 {}, .addProcess 45 {}, .reload, .addProcess 1 {}] : List Progress).foldl
        progress (reload { config := repeated, process := 30 })).Leveled ∧
      ((([.addProcess 10 {}, .addProcess 45 {}, .reload, .addProcess 1 {}] : List Progress).foldl
        progress (reload { config := repeated, process := 30 })).beforeLvInfo .reload).LvInfoEnds :=
  level_from_scratch (s := { config := repeated, process := 30 }) repeated_steps (by decide)
    (by decide) _ _

end Task

end JyQipai.Tasks
