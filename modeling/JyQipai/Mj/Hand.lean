import JyQipai.Mj.Rules

/-!
# The course of a hand

A hand has three phases: before its first discard, in play, and over.  The
commands that do not play leave the hand alone (`Calm`); what the others do is
reduced here to a few rules, for predicates on tables that every booking keeps.
The rules are about commands left alone while they wait for an agent (`Orderly`),
and about invariants that do not need that (`Free`).
-/

namespace JyQipai.Mj

open JyQipai.Lib

inductive Phase where
  | pre
  | play
  | ended
  deriving DecidableEq, Repr

/-- The phase of a status other than `wait`. -/
def Status.phase : Status → Phase
  | .start | .cp | .cpFinish | .moPai | .pengGangHu | .qiangGangHu => .play
  | .settlement | .gameover | .gamecancel => .ended
  | _ => .pre

def Status.timed : Status → Bool
  | .touSezi | .huanPai | .huanPaiFinish | .daPiao | .daPiaoFinish | .dingQue
  | .dingQueFinish | .start | .gameover => true
  | _ => false

namespace Table

def phase (t : Table) : Phase :=
  if t.status = .wait ∧ t.nextStatus = some .gameover then .ended else t.status.phase

def Timed (t : Table) : Prop := ∀ next ∈ t.nextStatus, next.timed

def core (t : Table) :=
  (t.cfg, t.toStanding, t.toCourse, t.toRaces, t.toTrace, t.sInfo, t.waitHuActions,
    t.qghManagerWaitHu, t.hung)

structure Calm (t u : Table) : Prop where
  core : u.core = t.core
  phase : u.phase = t.phase ∨ t.phase = .pre ∧ u.status = .start
  play : t.phase = .play → u.status = t.status
  timed : Timed u

section Lobby

variable {F : NumFormat} {t u : Table}

theorem Calm.of_core (ht : Timed t) (hcore : u.core = t.core) (hs : u.status = t.status)
    (hn : u.nextStatus = t.nextStatus) : Calm t u := by
  refine ⟨hcore, .inl ?_, fun _ => hs, ?_⟩
  · rw [Table.phase, Table.phase, hs, hn]
  · rw [Timed, hn]
    exact ht

theorem Calm.of_pre (hcore : u.core = t.core) (ht : t.phase = .pre) (hu : u.phase = .pre)
    (htimed : Timed u) : Calm t u :=
  ⟨hcore, .inl (hu.trans ht.symm), fun h => absurd (ht.symm.trans h) (by decide), htimed⟩

theorem Calm.trans {v : Table} (h : Calm t u) (h' : Calm u v) (hu : u.status ≠ .start) :
    Calm t v := by
  have hphase : u.phase = t.phase := h.phase.resolve_right fun hs => hu hs.2
  refine ⟨h'.core.trans h.core, ?_, fun ht => ?_, h'.timed⟩
  · rcases h'.phase with hp | ⟨hp, hs⟩
    · exact .inl (hp.trans hphase)
    · exact .inr ⟨hphase ▸ hp, hs⟩
  · exact (h'.play (hphase.trans ht)).trans (h.play ht)

theorem phase_of_status {s : Status} (hs : t.status = s) (hw : s ≠ .wait) :
    t.phase = s.phase := by
  rw [phase, hs, if_neg (fun h => hw h.1)]

theorem calm_wait (s : Status) (hs : s.timed) (hne : s ≠ .gameover) (ht : t.phase = .pre)
    (hcore : u.core = t.core) (hu : u.status = .wait) (hn : u.nextStatus = some s) :
    Calm t u := by
  refine .of_pre hcore ht ?_ ?_
  · rw [Table.phase, hu, hn, if_neg fun h => hne (Option.some.inj h.2)]
    rfl
  · rw [Timed, hn]
    intro next hnext
    obtain rfl := Option.some.inj hnext
    exact hs

theorem calm_status (htimed : Timed t) (s : Status) (hw : s ≠ .wait) (hs : s.phase = .pre)
    (ht : t.phase = .pre) (hcore : u.core = t.core) (hu : u.status = s)
    (hn : u.nextStatus = t.nextStatus) : Calm t u := by
  refine .of_pre hcore ht ((phase_of_status hu hw).trans hs) ?_
  rw [Timed, hn]
  exact htimed

def Calmly (t : Table) : M α → Prop
  | .done u _ => Calm t u
  | .raised u => Calm t u
  | .call _ _ _ => False

theorem Calm.refl (ht : Timed t) : Calm t t := .of_core ht rfl rfl rfl

theorem calmly_join (ht : Timed t) (id : Nat) (seat : Option Nat) (score : Int) :
    Calmly t (t.join id seat score) := by
  unfold join
  split
  · exact Calm.refl ht
  · split
    · exact Calm.refl ht
    · exact Calm.of_core ht rfl rfl rfl

theorem calmly_playerExitGame (ht : Timed t) (seat : Nat) :
    Calmly t (t.playerExitGame seat) := by
  unfold playerExitGame
  split
  · exact Calm.refl ht
  · exact Calm.of_core ht rfl rfl rfl

theorem calmly_readyCmd (ht : Timed t) (seat : Nat)
    (hpre : t.ready seat = 0 → t.pReady + 1 = t.cfg.seatCount → t.phase = .pre) :
    Calmly t (t.readyCmd seat) := by
  unfold readyCmd
  split
  · next hseat =>
    dsimp only
    split
    · next hall =>
      exact calm_wait .touSezi rfl (by decide) (hpre hseat hall) rfl rfl rfl
    · exact Calm.of_core ht rfl rfl rfl
  · exact Calm.refl ht

theorem calmly_quitRoom (ht : Timed t) (seat : Nat) : Calmly t (t.quitRoom seat) := by
  unfold quitRoom
  split
  · exact Calm.of_core ht rfl rfl rfl
  · exact Calm.refl ht

theorem status_of_mayDo {s : Status} {seat : Nat} (h : t.mayDo [s] seat) : t.status = s := by
  simp only [mayDo, List.mem_singleton, Bool.decide_and, Bool.and_eq_true,
    decide_eq_true_eq] at h
  exact h.1

theorem calmly_daPiao (ht : Timed t) (seat : Nat) (n : Int) :
    Calmly t (t.daPiao seat n) := by
  unfold daPiao
  split
  · next hmay =>
    have hpre : t.phase = .pre := phase_of_status (status_of_mayDo hmay) (by decide)
    dsimp only
    split
    · exact Calm.of_core ht rfl rfl rfl
    · split
      · exact calm_wait .daPiaoFinish rfl (by decide) hpre rfl rfl rfl
      · exact Calm.of_core ht rfl rfl rfl
  · exact Calm.refl ht

theorem calmly_dingQue (ht : Timed t) (seat flower : Nat) :
    Calmly t (t.dingQue seat flower) := by
  unfold dingQue
  split
  · next hmay =>
    have hpre : t.phase = .pre := phase_of_status (status_of_mayDo hmay) (by decide)
    dsimp only
    split
    · exact calm_wait .dingQueFinish rfl (by decide) hpre rfl rfl rfl
    · exact Calm.of_core ht rfl rfl rfl
  · exact Calm.refl ht

theorem calm_huanPai (ht : Timed t) (seat : Nat) (old : List Nat) :
    Calm t (t.huanPai seat old) := by
  have hframe := huanPai_frame (f := fun t => (t.core, t.status, t.nextStatus))
    (fun _ _ _ => rfl) (fun _ _ => rfl) seat old t
  simp only [Prod.mk.injEq] at hframe
  exact Calm.of_core ht hframe.1 hframe.2.1 hframe.2.2

theorem calmly_huanSanZhang (ht : Timed t) (seat : Nat) (old : List Nat) :
    Calmly t (t.huanSanZhang seat old) := by
  unfold huanSanZhang
  split
  · next hmay =>
    have hstatus := status_of_mayDo hmay
    have hpre : t.phase = .pre := phase_of_status hstatus (by decide)
    have hdone : Calm t (t.setDone seat false) := .of_core ht rfl rfl rfl
    have hhuan := calm_huanPai hdone.timed seat old
    have hswap : Calm t (((t.setDone seat false).huanPai seat old).setSeat seat
        fun d => { d with isHuanPai := true }) := by
      refine ⟨hhuan.core, hhuan.phase, fun h => ?_, hhuan.timed⟩
      exact absurd (hpre.symm.trans h) (by decide)
    dsimp only
    split
    · exact calm_wait .huanPaiFinish rfl (by decide) hpre hswap.core rfl rfl
    · exact hswap
  · exact Calm.refl ht

/-! ## Timers -/

theorem calm_statusHuanPaiFinish (ht : t.phase = .pre) : Calm t t.statusHuanPaiFinish := by
  unfold statusHuanPaiFinish
  split
  · exact calm_wait .dingQue rfl (by decide) ht rfl rfl rfl
  · exact calm_wait .start rfl (by decide) ht rfl rfl rfl

theorem calm_statusDaPiaoFinish (ht : t.phase = .pre) : Calm t t.statusDaPiaoFinish := by
  unfold statusDaPiaoFinish
  split
  · exact calm_wait .huanPai rfl (by decide) ht rfl rfl rfl
  · exact calm_statusHuanPaiFinish ht

theorem Calm.pre (h : Calm t u) (ht : t.phase = .pre) (hu : u.status ≠ .start) :
    u.phase = .pre :=
  (h.phase.resolve_right fun hs => hu hs.2).trans ht

theorem calm_statusFapai (htimed : Timed t) (ht : t.phase = .pre) :
    Calm t t.statusFapai := by
  have hframe := fapaiNor_frame (f := fun t => (t.core, t.status, t.nextStatus))
    (fun _ _ _ => rfl) (fun _ _ _ => rfl) (t.enter .fapai)
  simp only [Prod.mk.injEq] at hframe
  obtain ⟨hcore, hstatus, hnext⟩ := hframe
  have hdeal : Calm t (t.enter .fapai).fapaiNor :=
    calm_status htimed .fapai (by decide) rfl ht hcore hstatus hnext
  have hne : (t.enter .fapai).fapaiNor.status ≠ .start := by
    rw [hstatus]
    simp [enter]
  unfold statusFapai
  dsimp only
  split
  · exact calm_wait .daPiao rfl (by decide) ht hdeal.core rfl rfl
  · exact hdeal.trans (calm_statusDaPiaoFinish (hdeal.pre ht hne)) hne

theorem calmly_changeStatus (htimed : Timed t) (ht : t.phase = .pre) {next : Status}
    (hnext : next.timed) (hne : next ≠ .gameover) :
    Calmly t (t.changeStatus F next) := by
  cases next with
  | touSezi => exact calm_status htimed .touSezi (by decide) rfl ht rfl rfl rfl
  | huanPai => exact calm_status htimed .huanPai (by decide) rfl ht rfl rfl rfl
  | daPiao => exact calm_status htimed .daPiao (by decide) rfl ht rfl rfl rfl
  | dingQue => exact calm_status htimed .dingQue (by decide) rfl ht rfl rfl rfl
  | huanPaiFinish =>
      have henter : Calm t (t.enter .huanPaiFinish) :=
        calm_status htimed .huanPaiFinish (by decide) rfl ht rfl rfl rfl
      exact henter.trans (calm_statusHuanPaiFinish
        (phase_of_status (s := .huanPaiFinish) rfl (by decide)))
        (by simp [enter])
  | daPiaoFinish =>
      have henter : Calm t (t.enter .daPiaoFinish) :=
        calm_status htimed .daPiaoFinish (by decide) rfl ht rfl rfl rfl
      exact henter.trans (calm_statusDaPiaoFinish
        (phase_of_status (s := .daPiaoFinish) rfl (by decide)))
        (by simp [enter])
  | dingQueFinish => exact calm_wait .start rfl (by decide) ht rfl rfl rfl
  | start =>
      unfold changeStatus startCp
      dsimp only
      split <;>
        exact ⟨rfl, .inr ⟨ht, rfl⟩, fun h => absurd (ht.symm.trans h) (by decide), htimed⟩
  | gameover => exact absurd rfl hne
  | _ => exact absurd hnext (by decide)

theorem Calmly.bind {p : M α} (h : Calmly t p) {f : α → Table → M β}
    (hf : ∀ a u, ∃ b, f a u = .done u b) : Calmly t (p.bind f) := by
  cases p with
  | done u a =>
      obtain ⟨b, hb⟩ := hf a u
      change Calmly t (f a u)
      rw [hb]
      exact h
  | raised u => exact h
  | call u q resume => exact h.elim

theorem calmly_update (htimed : Timed t)
    (hnext : t.status = .wait → t.nextStatus ≠ some .gameover) :
    Calmly t (t.update F) := by
  unfold update
  split
  · next next hwait hn =>
    have hpre : t.phase = .pre := by
      rw [phase, if_neg fun h => hnext h.1 h.2, hwait]
      rfl
    have hgo : next ≠ .gameover := by
      rintro rfl
      exact hnext hwait hn
    exact (calmly_changeStatus htimed hpre (htimed next hn) hgo).bind fun _ u => ⟨0, rfl⟩
  · next hs => exact calm_statusFapai htimed (phase_of_status hs (by decide))
  · exact Calm.refl htimed

end Lobby

/-! ## Payments -/

abbrev Sat (U : Table → Table → Prop) (P I E : Table → Prop) (Q : α → Table → Prop)
    (p : M α) : Prop :=
  p.Sat Valid U P I E Q

/-- A predicate that holds while a payment waits, that errors leave behind, and
that is found again with the answer. -/
structure Steady (U : Table → Table → Prop) (P I E D : Table → Prop) : Prop where
  waits : ∀ {t}, D t → I t
  fails : ∀ {t}, D t → E t
  wakes : ∀ {t u} ρ, D t → U t u → P u → D { u with rand := ρ }

def Rerolled (t u : Table) : Prop := ∃ ρ, u = { t with rand := ρ }

theorem Steady.of_rand {P I E D : Table → Prop} (hI : ∀ {t}, D t → I t)
    (hE : ∀ {t}, D t → E t) (hrand : ∀ {t} ρ, D t → D { t with rand := ρ }) :
    Steady Rerolled P I E D := by
  refine ⟨hI, hE, fun {t u} ρ h htu _ => ?_⟩
  obtain ⟨ρ', rfl⟩ := htu
  exact hrand ρ (hrand ρ' h)

section Pay

variable {F : NumFormat} {U : Table → Table → Prop} {P I E D R : Table → Prop} {α : Type}
  {Q : α → Table → Prop} {t : Table}

theorem sat_changeOnePlayerScore (hD : Steady U P I E D)
    (hP : ∀ {t} ρ, P t → P { t with rand := ρ }) (h : D t) (s : Nat) (score : Int)
    {k : Int → Table → M α}
    (hk : ∀ n, Fair score n → ∀ u, D u →
      P u ∨ (u.onLinePlayer s = none ∧ u.cfg.backMoney = false) → Sat U P I E Q (k n u)) :
    Sat U P I E Q (t.changeOnePlayerScore s score k) := by
  unfold changeOnePlayerScore
  split
  · refine ⟨hD.waits h, fun a u ha hu hp => ?_⟩
    exact hk a.value ha _ (hD.wakes a.rand h hu hp) (.inl (hP a.rand hp))
  · next hoff =>
    refine hk score ⟨fun hs => ⟨le_refl _, hs⟩, fun _ => rfl⟩ t h (.inr ?_)
    simpa using hoff

theorem sat_payLosers (hD : Steady U P I E D) (hP : ∀ {t} ρ, P t → P { t with rand := ρ })
    {race seat : Nat} {piao : Option Nat} {cap : Option Int} (hcap : ∀ m ∈ cap, 0 ≤ m)
    {others : List Nat} (sure : Prop)
    (hbook : ∀ {t s m n}, s ∈ others → (sure → m ≤ 0) → D t → D (t.book race s m n))
    {k : Int → Int → Table → M α} (hk : ∀ sum surplus t, D t → Sat U P I E Q (k sum surplus t))
    {score sum surplus : Int} (hscore : sure → 0 ≤ score) (h : D t) :
    Sat U P I E Q (payLosers race seat piao cap k others score sum surplus t) := by
  induction others generalizing score sum surplus t with
  | nil => exact hk sum surplus t h
  | cons loser others ih =>
      unfold payLosers
      split
      · exact hD.fails h
      · have hasked : sure → 0 ≤ askedScore piao cap score :=
          fun hs => askedScore_nonneg piao hcap (hscore hs)
        refine sat_changeOnePlayerScore hD hP h loser _ fun n hn u hu _ => ?_
        refine ih (fun hs => hbook (List.mem_cons_of_mem _ hs)) hasked ?_
        refine hbook (List.mem_cons_self ..) (fun hs => ?_) hu
        exact (hn.1 (by have := hasked hs; omega)).2

theorem sat_dealChangeScore (hD : Steady U P I E D)
    (hP : ∀ {t} ρ, P t → P { t with rand := ρ }) {race seat : Nat} {total : ℚ}
    {others : List Nat} {type : PayType}
    (hbook : ∀ {t s m n}, s ∈ others ∨ s = seat → (0 ≤ total → m ≤ 0 ∨ s = seat) → D t →
      D (t.book race s m n))
    (hend : ∀ {t}, D t → P t ∨ (t.onLinePlayer seat = none ∧ t.cfg.backMoney = false) → R t)
    {k : Int → Int → Table → M α} (hk : ∀ m n t, R t → Sat U P I E Q (k m n t)) (h : D t) :
    Sat U P I E Q (dealChangeScore F t race seat total others type k) := by
  have hscore : 0 ≤ total → 0 ≤ ⌊F.mul total t.cfg.initStake⌋ :=
    fun htotal => Int.floor_nonneg.mpr (NumFormat.rnd_nonneg (by positivity))
  have hpay : ∀ cap : Option Int, (∀ m ∈ cap, 0 ≤ m) → ∀ u, D u → Sat U P I E Q
      (payLosers race seat (if t.cfg.daPiao then some t.getDaPiaoPlayerNum else none) cap
        (fun sum surplus t => t.payWinner race seat sum surplus k) others
        ⌊F.mul total t.cfg.initStake⌋ 0 0 u) := by
    intro cap hcap u hu
    refine sat_payLosers hD hP hcap (0 ≤ total)
      (fun hs hm => hbook (.inl hs) fun ht => .inl (hm ht))
      (fun sum surplus v hv => ?_) hscore hu
    refine sat_changeOnePlayerScore hD hP (hbook (.inr rfl) (fun _ => .inr rfl) hv) seat _ ?_
    exact fun _ _ x hx hend' => hk _ _ x (hend hx hend')
  unfold dealChangeScore
  dsimp only
  split
  · refine ⟨hD.waits h, fun a u ha hu hp => ?_⟩
    refine hpay (some a.value) (fun m hm => ?_) _ (hD.wakes a.rand h hu hp)
    obtain rfl := Option.some.inj hm
    exact ha
  · exact hpay none (by simp) t h

/-! ## Settlement -/

theorem sat_runPays (hD : Steady U P I E D) (hP : ∀ {t} ρ, P t → P { t with rand := ρ })
    {race : Nat} (hbook : ∀ {t s m n}, D t → D (t.book race s m n))
    {k : Table → M α} (hk : ∀ t, D t → Sat U P I E Q (k t)) {pays : List Pay} (h : D t) :
    Sat U P I E Q (runPays F race k pays t) := by
  induction pays generalizing t with
  | nil => exact hk t h
  | cons pay pays ih =>
      unfold runPays
      exact sat_dealChangeScore hD hP (fun _ _ => hbook) (fun hu _ => hu)
        (fun _ _ u hu => ih hu) h

theorem sat_saveRaceOverLog {k : Table → M α} (hI : I t)
    (hrace : t.isBreakRace → Sat U P I E Q (k t))
    (hk : ∀ {u} ρ, U t u → P u → Sat U P I E Q (k { u with rand := ρ })) :
    Sat U P I E Q (t.saveRaceOverLog k) := by
  unfold saveRaceOverLog
  split
  · next hbroken => exact hrace hbroken
  · exact ⟨hI, fun a u _ hu hp => hk a.rand hu hp⟩

theorem sat_settle {Q : Unit → Table → Prop} (hD : Steady U P I E D)
    (hP : ∀ {t} ρ, P t → P { t with rand := ρ })
    (hbook : t.isBreakGame = false → ∀ {u s m n}, D u → D (u.book t.curRace s m n))
    (hraise : E (t.enter .settlement)) (hgen : D (t.enter .settlement).settleGenDatas)
    (hlog : ∀ {u}, D u → I u.settleBankrupt ∧ ∀ {v} ρ, U u.settleBankrupt v → P v →
      Q () (({ v with rand := ρ }.sendSettlement fun s => (u.sInfo s).score).nextGame))
    (hrace : ∀ {u}, D u → u.isBreakRace →
      Q () (u.settleBankrupt.sendSettlement fun s => (u.sInfo s).score).nextGame) :
    Sat U P I E Q (settle F t) := by
  have hfinish : ∀ u, D u → Sat U P I E Q (u.settleBankrupt.saveRaceOverLog fun v =>
      .done (v.sendSettlement fun s => (u.settleBankrupt.sInfo s).score).nextGame ()) := by
    intro u hu
    exact sat_saveRaceOverLog (hlog hu).1 (hrace hu) (hlog hu).2
  unfold settle statusSettlement
  split
  · exact hraise
  · dsimp only
    split
    · exact hfinish _ hgen
    · next hbreak =>
      unfold settleChaJiao
      split
      · exact sat_runPays hD hP (hbook (Bool.eq_false_of_not_eq_true hbreak)) hfinish hgen
      · exact hfinish _ hgen

end Pay

/-! ## Commands -/

def Event.plays : Event → Bool
  | .chuPai _ _ | .guoPai _ | .pengPai _ _ | .gangPai _ _ _ | .huPai _ => true
  | _ => false

/-- The seat that completes the count of the ready ones does so before the hand is
in play. -/
def OnTime (t : Table) : Event → Prop
  | .ready seat =>
      t.ready seat = 0 → t.pReady + 1 = t.cfg.seatCount → t.phase = .pre
  | _ => True

instance decidableOnTime (t : Table) : ∀ ev, Decidable (OnTime t ev) := by
  rintro (_ | _) <;> unfold OnTime <;> infer_instance

structure Upkeep (F : NumFormat) (U : Table → Table → Prop) (P I J : Table → Prop)
    (ok : Table → Event → Prop) : Prop where
  timed : ∀ {t}, J t → Timed t
  waits : ∀ {t}, J t → I t
  /-- The game ends with the answer of the manager. -/
  wakes : ∀ {t u}, J t → U t u → P u → J u
  calm : ∀ {t u}, J t → Calm t u → J u
  ready : ∀ {t seat}, J t → ok t (.ready seat) →
    Sat U P I J (fun _ => J) (t.readyCmd seat)
  /-- The game is over. -/
  finish : ∀ {t s}, J t → t.phase ≠ .play → s.phase = .ended → J (t.enter s)
  gone : ∀ {t}, J t → J { t with gone := true }
  /-- The manager ends the game. -/
  settle : ∀ {t}, J t → t.status ≠ .settlement →
    Sat U P I J (fun _ => J) (settle F { t with isBreakGame := true, isBreakRace := true })
  broken : ∀ {t}, J t → J { t with isBreakGame := true }
  force : ∀ {t}, J t → ok t .forceBreakGame → Sat U P I J (fun _ => J) t.forceBreakGame
  plays : ∀ {t ev}, J t → ok t ev → Event.plays ev → Sat U P I J (fun _ => J) (t.handle F ev)

section Commands

variable {F : NumFormat} {U : Table → Table → Prop} {P I J : Table → Prop}
  {ok : Table → Event → Prop} {t : Table}

theorem Upkeep.rand (h : Upkeep F U P I J ok) {t : Table} (ρ : Nat → Nat) (ht : J t) :
    J { t with rand := ρ } :=
  h.calm ht (.of_core (h.timed ht) rfl rfl rfl)

theorem sat_of_calmly (hcalm : ∀ {t u}, J t → Calm t u → J u) (ht : J t) {p : M Int}
    (hp : Calmly t p) : Sat U P I J (fun _ => J) p := by
  cases p with
  | done u n => exact hcalm ht hp
  | raised u => exact hcalm ht hp
  | call u q resume => exact hp.elim

theorem Upkeep.of_calmly (h : Upkeep F U P I J ok) (ht : J t) {p : M Int}
    (hp : Calmly t p) : Sat U P I J (fun _ => J) p :=
  sat_of_calmly h.calm ht hp

theorem Upkeep.finishGame (h : Upkeep F U P I J ok) (ht : J t) (hplay : t.phase ≠ .play)
    {s : Status} (hs : s.phase = .ended) : Sat U P I J (fun _ => J) (t.finishGame s) := by
  have henter := h.finish ht hplay hs
  refine ⟨h.waits henter, fun a u _ hu hp => ?_⟩
  exact h.gone (h.rand a.rand (h.wakes henter hu hp))

theorem Upkeep.breakGame (h : Upkeep F U P I J ok) (ht : J t) :
    Sat U P I J (fun _ => J) (t.breakGame F) := by
  unfold Table.breakGame
  split
  · exact ht
  · dsimp only
    split
    · next hready =>
      have hphase : ({ t with isBreakGame := true } : Table).phase ≠ .play := by
        rw [phase_of_status (t := { t with isBreakGame := true }) (s := .ready) hready
          (by decide)]
        decide
      exact Prog.Sat.bind (h.finishGame (h.broken ht) hphase rfl) fun _ _ hu => hu
    · split
      · next hne => exact Prog.Sat.bind (h.settle ht hne) fun _ _ hu => hu
      · exact h.broken ht

theorem Upkeep.cancelGame (h : Upkeep F U P I J ok) (ht : J t) :
    Sat U P I J (fun _ => J) t.cancelGame := by
  unfold Table.cancelGame
  split
  · exact ht
  · next hs =>
    have hphase : t.phase ≠ .play := by
      rw [phase_of_status (s := .waitP) (not_not.mp hs) (by decide)]
      decide
    exact Prog.Sat.bind (h.finishGame ht hphase rfl) fun _ _ hu => hu

theorem Upkeep.update (h : Upkeep F U P I J ok) (ht : J t) :
    Sat U P I J (fun _ => J) (t.update F) := by
  by_cases hover : t.status = .wait ∧ t.nextStatus = some .gameover
  · obtain ⟨hs, hn⟩ := hover
    have hphase : t.phase ≠ .play := by
      rw [phase, if_pos ⟨hs, hn⟩]
      decide
    have hrun : t.update F = (t.finishGame .gameover).bind fun _ t => .done t 0 := by
      unfold Table.update
      rw [hs, hn]
      rfl
    rw [hrun]
    exact Prog.Sat.bind (h.finishGame ht hphase rfl) fun _ _ hu => hu
  · exact h.of_calmly ht (calmly_update (h.timed ht) fun hs hn => hover ⟨hs, hn⟩)

theorem Upkeep.handle (h : Upkeep F U P I J ok) {ev : Event} (ht : J t) (hev : ok t ev) :
    Sat U P I J (fun _ => J) (t.handle F ev) := by
  have htimed := h.timed ht
  cases ev with
  | join id seat score => exact h.of_calmly ht (calmly_join htimed id seat score)
  | playerExitGame seat => exact h.of_calmly ht (calmly_playerExitGame htimed seat)
  | ready seat => exact h.ready ht hev
  | daPiao seat n => exact h.of_calmly ht (calmly_daPiao htimed seat n)
  | dingQue seat c => exact h.of_calmly ht (calmly_dingQue htimed seat c)
  | huanSanZhang seat old => exact h.of_calmly ht (calmly_huanSanZhang htimed seat old)
  | quitRoom seat => exact h.of_calmly ht (calmly_quitRoom htimed seat)
  | cancelGame => exact h.cancelGame ht
  | breakGame => exact h.breakGame ht
  | overTimeCancelGame =>
      change Sat U P I J _ (t.overTimeCancelGame F)
      unfold overTimeCancelGame
      split
      · exact h.cancelGame ht
      · exact h.breakGame ht
  | forceBreakGame => exact h.force ht hev
  | update => exact h.update ht
  | chuPai seat pai => exact h.plays ht hev rfl
  | guoPai seat => exact h.plays ht hev rfl
  | pengPai seat pai => exact h.plays ht hev rfl
  | gangPai seat type pai => exact h.plays ht hev rfl
  | huPai seat => exact h.plays ht hev rfl

def heeds (t : Table) : Event → Bool
  | .daPiao seat _ => t.mayDo [.daPiao] seat
  | .dingQue seat _ => t.mayDo [.dingQue] seat
  | .huanSanZhang seat _ => t.mayDo [.huanPai] seat
  | .chuPai seat _ => t.mayDo [.start, .cp, .moPai] seat
  | .guoPai seat => t.mayDo [.pengGangHu, .qiangGangHu] seat
  | .pengPai seat _ => t.mayDo [.pengGangHu] seat
  | .gangPai seat _ _ => t.mayDo [.pengGangHu, .moPai, .start, .cp] seat
  | .huPai seat => t.mayDo [.pengGangHu, .qiangGangHu, .moPai, .start] seat
  | _ => true

def Refuses (t : Table) (e : Event × (Nat → Nat)) : Prop :=
  t.gone ∨ t.hung ∨ t.heeds e.1 = false

instance decidableRefuses (t : Table) (e : Event × (Nat → Nat)) : Decidable (Refuses t e) :=
  inferInstanceAs (Decidable (t.gone ∨ t.hung ∨ t.heeds e.1 = false))

theorem handle_of_not_heeds {ev : Event} (hev : t.heeds ev = false) :
    t.handle F ev = .done t 1002 := by
  cases ev with
  | daPiao | dingQue | huanSanZhang | chuPai | guoPai | pengPai | gangPai | huPai =>
      change t.mayDo _ _ = false at hev
      simp only [Table.handle, daPiao, dingQue, huanSanZhang, chuPai, guoPai, pengPai, gangPai,
        huPai, hev]
      rfl
  | _ => cases hev

theorem step_of_refuses {e : Event × (Nat → Nat)} (he : Refuses t e) :
    ∃ u, Table.step F e t = .done u 1002 ∧ Rerolled t u := by
  unfold Table.step
  split
  · exact ⟨t, rfl, t.rand, rfl⟩
  · next hin =>
    obtain ⟨hgone, hhung⟩ := not_or.mp hin
    have hheeds : ({ t with rand := e.2 } : Table).heeds e.1 = false :=
      (he.resolve_left hgone).resolve_left hhung
    exact ⟨_, handle_of_not_heeds hheeds, e.2, rfl⟩

/-- The condition is about the commands that are handled, and about the table with their
random numbers. -/
def Rand (ok : Table → Event → Prop) (t : Table) (e : Event × (Nat → Nat)) : Prop :=
  ¬ Refuses t e → ok { t with rand := e.2 } e.1

instance decidableRand {ok : Table → Event → Prop} [∀ t ev, Decidable (ok t ev)] (t : Table)
    (e : Event × (Nat → Nat)) : Decidable (Rand ok t e) :=
  inferInstanceAs (Decidable (¬ Refuses t e → ok { t with rand := e.2 } e.1))

theorem Upkeep.rerolled (h : Upkeep F U P I J ok) {u : Table} (ht : J t)
    (hu : Rerolled t u) : J u := by
  obtain ⟨ρ, rfl⟩ := hu
  exact h.rand ρ ht

theorem Upkeep.step (h : Upkeep F U P I J ok) {e : Event × (Nat → Nat)} (ht : J t)
    (he : Rand ok t e) : Sat U P I J (fun _ => J) (Table.step F e t) := by
  by_cases hrefuse : Refuses t e
  · obtain ⟨u, hstep, hu⟩ := step_of_refuses (F := F) hrefuse
    rw [hstep]
    exact h.rerolled ht hu
  · have hin : ¬ (t.gone ∨ t.hung) := fun hin => hrefuse (or_assoc.mp (.inl hin))
    unfold Table.step
    rw [if_neg hin]
    exact h.handle (h.rand e.2 ht) (he hrefuse)

abbrev Orderly (ok : Table → Event → Prop) (P : Table → Prop) (w : MjWorld) :
    Input (Event × (Nat → Nat)) Answer → Prop :=
  w.Sequential Valid (Rand ok) Refuses P

theorem Upkeep.of_orderly (h : Upkeep F Rerolled P J J ok) {cfg : Config} {ρ : Nat → Nat}
    (hstart : J (newTable cfg ρ)) {w : MjWorld}
    (hw : Reachable F cfg ρ (Orderly ok P) w) : J w.state := by
  have hidle : ∀ t e, Refuses t e → ∃ u a, Table.step F e t = .done u a ∧ Rerolled t u :=
    fun t e he => let ⟨u, hstep, hu⟩ := step_of_refuses he; ⟨u, 1002, hstep, hu⟩
  have htrans : ∀ {t u v : Table}, Rerolled t u → Rerolled u v → Rerolled t v := by
    rintro t u v ⟨ρ, rfl⟩ ⟨ρ', rfl⟩
    exact ⟨ρ', rfl⟩
  exact (World.settled_of_reach hstart (fun t e ht he => h.step ht he) hidle
    (fun t => ⟨t.rand, rfl⟩) htrans h.rerolled hw).1

abbrev Free (ok : Table → Event → Prop) (P : Table → Prop) (w : MjWorld) :
    Input (Event × (Nat → Nat)) Answer → Prop :=
  w.Admits Valid (Rand ok) P

theorem Upkeep.of_free (h : Upkeep F (fun _ => J) P J J ok) {cfg : Config} {ρ : Nat → Nat}
    (hstart : J (newTable cfg ρ)) {w : MjWorld}
    (hw : Reachable F cfg ρ (Free ok P) w) : J w.state :=
  (World.kept_of_reach hstart (fun _ _ ht he => h.step ht he) hw).1

end Commands

end Table

end JyQipai.Mj
