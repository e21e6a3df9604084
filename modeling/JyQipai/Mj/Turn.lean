import JyQipai.Lib.Owned
import JyQipai.Mj.Hand

/-!
# Whose turn it is

One flag for each seat (`p_action_done`) stands for every kind of permission.  A
command that plays clears the flag of its seat; while it waits for an agent no seat
has a flag, so no other command plays.  The wait for claims is closed when the count of
the permitted seats is used up; then no flag is left.
-/

namespace JyQipai.Mj

open JyQipai.Lib

def Status.asks : Status → Bool
  | .daPiao | .huanPai | .dingQue => true
  | _ => false

def Status.beforePiao : Status → Bool
  | .waitP | .ready | .gameBegin | .touSezi | .fapai | .daPiao => true
  | _ => false

def Status.beforeHuan : Status → Bool
  | .daPiaoFinish | .huanPai => true
  | s => s.beforePiao

def Status.beforeQue : Status → Bool
  | .huanPaiFinish | .dingQue => true
  | s => s.beforeHuan

namespace Table

def stage (t : Table) : Status := if t.status = .wait then t.nextStatus.getD .wait else t.status

/-- The seat holds a permission in play: it is its turn, or it was offered a claim. -/
def Holder (t : Table) (s : Nat) : Prop :=
  match t.status with
  | .start | .cp | .moPai => s = t.curP
  | .pengGangHu => (t.pPermit s).any (·.guo) ∧ t.curChupai.any (·.1 ≠ s)
  | .qiangGangHu => (t.pPermit s).any fun p => p.guo ∧ p.hu.isSome
  | _ => False

def flagged (t : Table) : Nat := t.cfg.seatList.countP fun s => t.pActionDone s

def NoFlags (t : Table) : Prop := ∀ s ∈ t.cfg.seatList, t.pActionDone s = false

structure TurnSafe (t : Table) : Prop where
  timed : Timed t
  safe : t.phase ≠ .ended → ∀ s ∈ t.cfg.seatList, t.pActionDone s →
    Holder t s ∨ t.status.asks
  claims : t.status = .pengGangHu → 0 < t.flagged → (t.flagged : Int) ≤ t.pPermitPghCount
  robs : t.status = .qiangGangHu → 0 < t.flagged → (t.flagged : Int) ≤ t.qghPermitCount
  piao : t.stage.beforePiao → ∀ s ∈ t.cfg.seatList,
    (t.status = .daPiao → t.pActionDone s) → (t.seat s).piaoNum = -1
  huan : t.stage.beforeHuan → ∀ s ∈ t.cfg.seatList,
    (t.status = .huanPai → t.pActionDone s) → (t.seat s).isHuanPai = false
  que : t.stage.beforeQue → ∀ s ∈ t.cfg.seatList,
    (t.status = .dingQue → t.pActionDone s) → t.pDingQue s = none

abbrev Share := Nat × Nat

/-- While the turn is taken no seat has a flag; a command that settles finds the hand
over, or the game is broken off. -/
structure Bears (t : Table) (g : Share) : Prop where
  safe : TurnSafe t
  one : g.1 ≤ 1
  turn : g.1 = 1 → NoFlags t ∧ (t.phase = .play ∨ t.phase = .ended ∧ t.isBreakGame)
  closing : 1 ≤ g.2 → t.phase = .ended ∨ t.isBreakGame
  broken : 2 ≤ g.2 → t.isBreakGame

def owning : Owning Table Query Answer Share where
  valid _ _ := True
  keeps _ := True
  holds := Bears
  may _ _ := True
  frame _ _ _ _ := True

def turnView (t : Table) :=
  (t.cfg, t.status, t.nextStatus, t.pActionDone, t.curP, t.pPermit, t.curChupai,
    t.pPermitPghCount, t.qghPermitCount, (fun s => (t.seat s).piaoNum),
    (fun s => (t.seat s).isHuanPai), t.pDingQue, t.isBreakGame)

section Rules

variable {t u : Table} {g : Share} {fr : Share → Prop}

theorem TurnSafe.of_view (h : TurnSafe t) (hv : u.turnView = t.turnView) : TurnSafe u := by
  simp only [turnView, Prod.mk.injEq] at hv
  obtain ⟨hcfg, hstatus, hnext, hdone, hcur, hpermit, hchu, hpgh, hqgh, hpiao, hhuan, hque,
    -⟩ := hv
  have hphase : u.phase = t.phase := by rw [phase, phase, hstatus, hnext]
  have hstage : u.stage = t.stage := by rw [stage, stage, hstatus, hnext]
  have hflagged : u.flagged = t.flagged := by rw [flagged, flagged, hcfg, hdone]
  have hholder : ∀ s, Holder u s ↔ Holder t s := by
    intro s
    unfold Holder
    rw [hstatus, hcur, hpermit, hchu]
  refine ⟨?_, ?_, ?_, ?_, ?_, ?_, ?_⟩
  · rw [Timed, hnext]
    exact h.timed
  · intro hover s hs hd
    rw [hholder, hstatus]
    exact h.safe (hphase ▸ hover) s (hcfg ▸ hs) (hdone ▸ hd)
  · rw [hstatus, hflagged, hpgh]
    exact h.claims
  · rw [hstatus, hflagged, hqgh]
    exact h.robs
  · intro hst s hs hd
    rw [congrFun hpiao s]
    exact h.piao (hstage ▸ hst) s (hcfg ▸ hs) fun hda => hdone ▸ hd (hstatus ▸ hda)
  · intro hst s hs hd
    rw [congrFun hhuan s]
    exact h.huan (hstage ▸ hst) s (hcfg ▸ hs) fun hda => hdone ▸ hd (hstatus ▸ hda)
  · intro hst s hs hd
    rw [hque]
    exact h.que (hstage ▸ hst) s (hcfg ▸ hs) fun hda => hdone ▸ hd (hstatus ▸ hda)

theorem Bears.of_view (h : Bears t g) (hv : u.turnView = t.turnView) : Bears u g := by
  have hsafe := h.safe.of_view hv
  simp only [turnView, Prod.mk.injEq] at hv
  obtain ⟨hcfg, hstatus, hnext, hdone, -, -, -, -, -, -, -, -, hbreak⟩ := hv
  have hphase : u.phase = t.phase := by rw [phase, phase, hstatus, hnext]
  refine ⟨hsafe, h.one, fun hg => ?_, ?_, ?_⟩
  · rw [NoFlags, hcfg, hdone, hphase, hbreak]
    exact h.turn hg
  · rw [hphase, hbreak]
    exact h.closing
  · rw [hbreak]
    exact h.broken

theorem turns_view (hv : u.turnView = t.turnView) : owning.Turns fr t g u g :=
  ⟨trivial, fun _ _ h => h.of_view hv⟩

theorem turns_drop : owning.Turns fr t g t 0 := by
  refine ⟨trivial, fun f _ h => ⟨h.safe, ?_, fun hf => ?_, fun hf => ?_, fun hf => ?_⟩⟩
  · have := h.one
    simp only [Prod.fst_add, Prod.fst_zero] at this ⊢
    omega
  · have := h.one
    simp only [Prod.fst_add, Prod.fst_zero] at this hf
    refine h.turn ?_
    simp only [Prod.fst_add]
    omega
  · refine h.closing ?_
    simp only [Prod.snd_add, Prod.snd_zero] at hf ⊢
    omega
  · refine h.broken ?_
    simp only [Prod.snd_add, Prod.snd_zero] at hf ⊢
    omega

theorem noFlags_iff : t.NoFlags ↔ t.flagged = 0 := by
  rw [flagged, List.countP_eq_zero]
  simp only [NoFlags, Bool.not_eq_true]

theorem TurnSafe.of_noFlags (htimed : Timed t) (hflags : NoFlags t) (h : t.phase = .play) :
    TurnSafe t := by
  have hwait : t.status ≠ .wait := by
    intro hs
    rw [phase, hs] at h
    split at h <;> cases h
  have hstage : t.stage = t.status := if_neg hwait
  have hplay : t.status.phase = .play := (phase_of_status rfl hwait).symm.trans h
  have hque : t.status.beforeQue = false := by
    revert hplay
    cases t.status <;> simp [Status.phase, Status.beforeQue, Status.beforeHuan,
      Status.beforePiao]
  have hhuan : t.status.beforeHuan = false := by
    revert hplay
    cases t.status <;> simp [Status.phase, Status.beforeHuan, Status.beforePiao]
  have hpiao : t.status.beforePiao = false := by
    revert hplay
    cases t.status <;> simp [Status.phase, Status.beforePiao]
  have hzero := noFlags_iff.mp hflags
  refine ⟨htimed, fun _ s hs hd => ?_, fun _ hpos => ?_, fun _ hpos => ?_, ?_, ?_, ?_⟩
  · rw [hflags s hs] at hd
    cases hd
  · omega
  · omega
  · simp [hstage, hpiao]
  · simp [hstage, hhuan]
  · simp [hstage, hque]

theorem TurnSafe.of_over (htimed : Timed t) (h : t.phase = .ended) : TurnSafe t := by
  have hstage : t.stage.beforeQue = false ∧ t.status ≠ .pengGangHu ∧
      t.status ≠ .qiangGangHu := by
    unfold phase at h
    split at h
    · next hw =>
      rw [stage, if_pos hw.1, hw.1, hw.2]
      exact ⟨rfl, by decide, by decide⟩
    · have hwait : t.status ≠ .wait := by
        intro hs
        rw [hs] at h
        cases h
      rw [stage, if_neg hwait]
      revert h
      cases t.status <;> simp [Status.phase, Status.beforeQue, Status.beforeHuan,
        Status.beforePiao]
  obtain ⟨hque, hpgh, hqgh⟩ := hstage
  have hhuan : t.stage.beforeHuan = false := by
    revert hque
    cases t.stage <;> simp [Status.beforeQue]
  have hpiao : t.stage.beforePiao = false := by
    revert hhuan
    cases t.stage <;> simp [Status.beforeHuan]
  refine ⟨htimed, fun hne => absurd h hne, fun hs => absurd hs hpgh,
    fun hs => absurd hs hqgh, ?_, ?_, ?_⟩
  · simp [hpiao]
  · simp [hhuan]
  · simp [hque]

/-! ## The turn -/

def heldView (t : Table) :=
  (t.cfg, t.status, t.nextStatus, t.pActionDone, (fun s => (t.seat s).piaoNum),
    (fun s => (t.seat s).isHuanPai), t.pDingQue, t.isBreakGame)

theorem NoFlags.of_eq (h : NoFlags t) (hcfg : u.cfg = t.cfg)
    (hdone : u.pActionDone = t.pActionDone) : NoFlags u := by
  rw [NoFlags, hcfg, hdone]
  exact h

theorem turns_held (hv : u.heldView = t.heldView) :
    owning.Turns fr t (1, 0) u (1, 0) := by
  simp only [heldView, Prod.mk.injEq] at hv
  obtain ⟨hcfg, hstatus, hnext, hdone, hpiao, hhuan, hque, hbreak⟩ := hv
  have hphase : u.phase = t.phase := by rw [phase, phase, hstatus, hnext]
  have hstage : u.stage = t.stage := by rw [stage, stage, hstatus, hnext]
  refine ⟨trivial, fun f _ h => ?_⟩
  obtain ⟨hflags, hturn⟩ := h.turn (by have := h.one; simp at this ⊢; omega)
  have hflags' : NoFlags u := hflags.of_eq hcfg hdone
  have hzero := noFlags_iff.mp hflags'
  refine ⟨⟨?_, fun _ s hs hd => ?_, fun _ hpos => ?_, fun _ hpos => ?_, ?_, ?_, ?_⟩,
    h.one, fun _ => ⟨hflags', ?_⟩, ?_, ?_⟩
  · rw [Timed, hnext]
    exact h.safe.timed
  · rw [hflags' s hs] at hd
    cases hd
  · omega
  · omega
  · intro hst s hs hd
    rw [congrFun hpiao s]
    exact h.safe.piao (hstage ▸ hst) s (hcfg ▸ hs) fun hda => hdone ▸ hd (hstatus ▸ hda)
  · intro hst s hs hd
    rw [congrFun hhuan s]
    exact h.safe.huan (hstage ▸ hst) s (hcfg ▸ hs) fun hda => hdone ▸ hd (hstatus ▸ hda)
  · intro hst s hs hd
    rw [hque]
    exact h.safe.que (hstage ▸ hst) s (hcfg ▸ hs) fun hda => hdone ▸ hd (hstatus ▸ hda)
  · rw [hphase, hbreak]
    exact hturn
  · rw [hphase, hbreak]
    exact h.closing
  · rw [hbreak]
    exact h.broken

theorem Bears.taken {f : Share} {n : Nat} (h : Bears t ((1, n) + f)) :
    NoFlags t ∧ f.1 = 0 ∧ (1 ≤ n + f.2 → t.isBreakGame) := by
  have hone := h.one
  have hturn := h.turn
  have hover := h.closing
  simp only [Prod.fst_add, Prod.snd_add] at hone hturn hover
  obtain ⟨hflags, hphase⟩ := hturn (by omega)
  refine ⟨hflags, by omega, fun hf => ?_⟩
  rcases hphase with hplay | ⟨-, hbreak⟩
  · exact (hover hf).resolve_left fun h => by rw [hplay] at h; cases h
  · exact hbreak

theorem turns_play (hu : u.phase = .play) (hcfg : u.cfg = t.cfg)
    (hnext : u.nextStatus = t.nextStatus) (hdone : u.pActionDone = t.pActionDone)
    (hbreak : u.isBreakGame = t.isBreakGame) : owning.Turns fr t (1, 0) u (1, 0) := by
  refine ⟨trivial, fun f _ h => ?_⟩
  obtain ⟨hflags, hf, hbroken⟩ := h.taken
  have hflags' : NoFlags u := hflags.of_eq hcfg hdone
  have htimed : Timed u := by
    rw [Timed, hnext]
    exact h.safe.timed
  refine ⟨.of_noFlags htimed hflags' hu, h.one, fun _ => ⟨hflags', .inl hu⟩, fun hf => ?_, ?_⟩
  · rw [hbreak]
    exact .inr (hbroken (by simpa using hf))
  · rw [hbreak]
    exact h.broken

theorem turns_leave (hsafe : Timed t → NoFlags t → TurnSafe u)
    (hbreak : u.isBreakGame = t.isBreakGame) : owning.Turns fr t (1, 0) u 0 := by
  refine ⟨trivial, fun f _ h => ?_⟩
  obtain ⟨hflags, hf, hbroken⟩ := h.taken
  rw [zero_add]
  refine ⟨hsafe h.safe.timed hflags, by omega, fun hone => ?_, fun hpos => ?_, fun hpos => ?_⟩
  · omega
  · rw [hbreak]
    exact .inr (hbroken (by omega))
  · rw [hbreak]
    exact hbroken (by omega)

theorem turns_end (hu : u.phase = .ended) (hcfg : u.cfg = t.cfg)
    (hnext : u.nextStatus = t.nextStatus) (hbreak : u.isBreakGame = t.isBreakGame) :
    owning.Turns fr t (1, 0) u (0, 1) := by
  refine ⟨trivial, fun f _ h => ?_⟩
  obtain ⟨hflags, hf, hbroken⟩ := h.taken
  have htimed : Timed u := by
    rw [Timed, hnext]
    exact h.safe.timed
  refine ⟨.of_over htimed hu, ?_, fun hone => ?_, fun _ => .inl hu, fun hpos => ?_⟩
  · simp [hf]
  · simp [hf] at hone
  · rw [hbreak]
    refine hbroken ?_
    simp only [Prod.snd_add] at hpos
    omega

theorem turns_closed (hu : u.phase = .ended) (htimed : Timed t → Timed u)
    (hcfg : u.cfg = t.cfg) (hdone : u.pActionDone = t.pActionDone)
    (hbreak : u.isBreakGame = t.isBreakGame) : owning.Turns fr t (0, 1) u 0 := by
  refine ⟨trivial, fun f _ h => ?_⟩
  have hone := h.one
  simp only [Prod.fst_add, zero_add] at hone
  rw [zero_add]
  refine ⟨.of_over (htimed h.safe.timed) hu, hone, fun hf => ?_, fun _ => .inl hu,
    fun hf => ?_⟩
  · obtain ⟨hflags, hphase⟩ := h.turn (by simpa using hf)
    refine ⟨hflags.of_eq hcfg hdone, .inr ⟨hu, ?_⟩⟩
    rw [hbreak]
    rcases hphase with hplay | ⟨-, hb⟩
    · refine (h.closing (by simp)).resolve_left fun hover => ?_
      rw [hplay] at hover
      cases hover
    · exact hb
  · rw [hbreak]
    refine h.broken ?_
    simp only [Prod.snd_add]
    omega

theorem turns_nextGame : owning.Turns fr t (0, 1) t.nextGame 0 := by
  unfold nextGame
  split
  · refine turns_closed ?_ (fun _ => ?_) rfl rfl rfl
    · exact if_pos ⟨rfl, rfl⟩
    · intro next hnext
      obtain rfl := Option.some.inj hnext
      rfl
  · next hon =>
    obtain ⟨hbreak, -⟩ := not_or.mp hon
    refine ⟨trivial, fun f _ h => ?_⟩
    have hover : t.phase = .ended := (h.closing (by simp)).resolve_right hbreak
    have hfst : ¬ 1 ≤ f.1 := by
      intro hf
      have hone := h.one
      simp only [Prod.fst_add, zero_add] at hone
      rcases (h.turn (by simp only [Prod.fst_add]; omega)).2 with hplay | ⟨-, hb⟩
      · rw [hplay] at hover
        cases hover
      · exact hbreak hb
    have hsnd : ¬ 1 ≤ f.2 := fun hf => hbreak (h.broken (by
      simp only [Prod.snd_add]
      omega))
    rw [zero_add]
    refine ⟨?_, by omega, fun hf => ?_, fun hf => absurd hf hsnd, fun hf => ?_⟩
    · have hstatus : ∀ s : Status, (s = if t.curRace + 1 = 1 then .waitP else .ready) →
          s ≠ .pengGangHu ∧ s ≠ .qiangGangHu ∧ s ≠ .daPiao ∧ s ≠ .huanPai ∧ s ≠ .dingQue := by
        rintro s rfl
        split <;> decide
      obtain ⟨hpgh, hqgh, -, -, -⟩ := hstatus _ rfl
      refine ⟨h.safe.timed, fun _ s _ hd => ?_, fun hs => absurd hs hpgh,
        fun hs => absurd hs hqgh, fun _ s _ _ => rfl, fun _ s _ _ => rfl, fun _ s _ _ => rfl⟩
      cases hd
    · omega
    · omega

theorem turns_break (hsafe : TurnSafe t → TurnSafe u) (hcfg : u.cfg = t.cfg)
    (hdone : u.pActionDone = t.pActionDone) (hbreak : u.isBreakGame)
    (hphase : u.phase = t.phase ∨ u.phase = .ended) : owning.Turns fr t 0 u (0, 1) := by
  refine ⟨trivial, fun f _ h => ?_⟩
  rw [zero_add] at h
  refine ⟨hsafe h.safe, ?_, fun hf => ?_, fun _ => .inr hbreak, fun _ => hbreak⟩
  · have := h.one
    simpa using this
  · obtain ⟨hflags, hturn⟩ := h.turn (by simpa using hf)
    refine ⟨hflags.of_eq hcfg hdone, ?_⟩
    rcases hphase with hp | hp
    · rw [hp]
      rcases hturn with hplay | ⟨hover, -⟩
      · exact .inl hplay
      · exact .inr ⟨hover, hbreak⟩
    · exact .inr ⟨hp, hbreak⟩

theorem turns_over (hu : u.phase = .ended) (ht : t.phase ≠ .play)
    (htimed : Timed t → Timed u) (hcfg : u.cfg = t.cfg)
    (hdone : u.pActionDone = t.pActionDone) (hbreak : t.isBreakGame → u.isBreakGame) :
    owning.Turns fr t 0 u 0 := by
  refine ⟨trivial, fun f _ h => ?_⟩
  rw [zero_add] at h ⊢
  refine ⟨.of_over (htimed h.safe.timed) hu, h.one, fun hf => ?_, fun _ => .inl hu,
    fun hf => hbreak (h.broken hf)⟩
  obtain ⟨hflags, hturn⟩ := h.turn hf
  exact ⟨hflags.of_eq hcfg hdone, .inr ⟨hu, hbreak (hturn.resolve_left ht).2⟩⟩

theorem turns_idle (hsafe : TurnSafe t → TurnSafe u) (hfree : t.NoFlags → t.phase = .pre)
    (ht : t.phase ≠ .ended) (hbreak : u.isBreakGame = t.isBreakGame) :
    owning.Turns fr t 0 u 0 := by
  refine ⟨trivial, fun f _ h => ?_⟩
  rw [zero_add] at h ⊢
  refine ⟨hsafe h.safe, h.one, fun hf => ?_, fun hf => ?_, ?_⟩
  · obtain ⟨hflags, hturn⟩ := h.turn hf
    rcases hturn with hplay | ⟨hover, -⟩
    · rw [hfree hflags] at hplay
      cases hplay
    · exact absurd hover ht
  · rw [hbreak]
    exact .inr ((h.closing hf).resolve_left ht)
  · rw [hbreak]
    exact h.broken

theorem turns_take {seat : Nat} (hs : seat ∈ t.cfg.seatList) (hd : t.pActionDone seat)
    (ht : t.phase = .play) (hu : u.phase = .play) (hflags : TurnSafe t → NoFlags u)
    (hnext : u.nextStatus = t.nextStatus) (hbreak : u.isBreakGame = t.isBreakGame) :
    owning.Turns fr t 0 u (1, 0) := by
  refine ⟨trivial, fun f _ h => ?_⟩
  rw [zero_add] at h
  have hfree : f.1 = 0 := by
    have hone := h.one
    by_contra hf
    have := (h.turn (by omega)).1 seat hs
    rw [hd] at this
    cases this
  have htimed : Timed u := by
    rw [Timed, hnext]
    exact h.safe.timed
  refine ⟨.of_noFlags htimed (hflags h.safe) hu, ?_, fun _ => ⟨hflags h.safe, .inl hu⟩,
    fun hf => ?_, fun hf => ?_⟩
  · simp [hfree]
  · rw [hbreak]
    refine .inr ((h.closing (by simpa using hf)).resolve_left fun hover => ?_)
    rw [ht] at hover
    cases hover
  · rw [hbreak]
    exact h.broken (by simpa using hf)

end Rules

/-! ## Payments -/

/-- The handler has `g` where it starts, and nothing in the end. -/
abbrev Ends (t : Table) (g : Share) (p : M α) : Prop :=
  ∀ fr, p.Owns owning (fun _ _ g' => g' = 0) fr t g

section Pay

variable {F : NumFormat} {t u : Table} {g g' : Share} {α β : Type}

theorem Ends.of_turns {p : M α} (h : ∀ fr, owning.Turns fr t g u g') (hp : Ends u g' p) :
    Ends t g p :=
  fun fr => (hp fr).of_turns (h fr)

theorem Ends.of_view {p : M α} (hp : Ends u g p) (hv : u.turnView = t.turnView) :
    Ends t g p :=
  hp.of_turns fun _ => turns_view hv

theorem ends_done (h : ∀ fr, owning.Turns fr t g u 0) (a : α) : Ends t g (.done u a) :=
  fun fr => ⟨0, h fr, rfl⟩

theorem ends_left (hv : u.turnView = t.turnView) (a : α) : Ends t g (.done u a) :=
  ends_done (fun _ => (turns_view hv).trans turns_drop) a

theorem ends_raised (hv : u.turnView = t.turnView) : Ends t g (.raised u : M α) :=
  fun _ => (turns_view hv).trans turns_drop

theorem Ends.bind {p : M α} {k : α → Table → M β} (hp : Ends t g p)
    (hk : ∀ a u, Ends u 0 (k a u)) : Ends t g (p.bind k) :=
  fun fr => Prog.Owns.bind (hp fr) fun fr a u _ _ hg => hg ▸ hk a u fr

theorem ends_ask {q : Query} {k : Int → Table → M α} (hk : ∀ n u, Ends u g (k n u)) :
    Ends t g (t.ask q k) :=
  fun _ => ⟨g, turns_view rfl, trivial,
    fun a u _ _ => (hk a.value { u with rand := a.rand }).of_view (t := u) rfl _⟩

theorem ends_changeOnePlayerScore {s : Nat} {score : Int} {k : Int → Table → M α}
    (hk : ∀ n u, Ends u g (k n u)) : Ends t g (t.changeOnePlayerScore s score k) := by
  unfold changeOnePlayerScore
  split
  · exact ends_ask hk
  · exact hk score t

theorem ends_payLosers {race seat : Nat} {piao : Option Nat} {cap : Option Int}
    {k : Int → Int → Table → M α} (hk : ∀ m n u, Ends u g (k m n u)) {others : List Nat}
    {score sum surplus : Int} :
    Ends t g (payLosers race seat piao cap k others score sum surplus t) := by
  induction others generalizing score sum surplus t with
  | nil => exact hk sum surplus t
  | cons loser others ih =>
      unfold payLosers
      split
      · exact ends_raised rfl
      · exact ends_changeOnePlayerScore fun n u =>
          (ih (t := u.book race loser n (askedScore piao cap score + n))).of_view rfl

theorem ends_dealChangeScore {race seat : Nat} {total : ℚ} {others : List Nat}
    {type : PayType} {k : Int → Int → Table → M α} (hk : ∀ m n u, Ends u g (k m n u)) :
    Ends t g (dealChangeScore F t race seat total others type k) := by
  have hpay : ∀ piao cap score u, Ends u g (payLosers race seat piao cap
      (fun sum surplus t => t.payWinner race seat sum surplus k) others score 0 0 u) := by
    intro piao cap score u
    refine ends_payLosers fun sum surplus v => ?_
    refine Ends.of_view (u := v.book race seat |sum| (-surplus)) ?_ rfl
    exact ends_changeOnePlayerScore fun _ w => hk |sum| surplus w
  unfold dealChangeScore
  dsimp only
  split
  · exact ends_ask fun _ u => hpay _ _ _ u
  · exact hpay _ _ _ t

theorem ends_recordGangScore {race seat : Nat} {type : PgType} {pai : Nat}
    {others : List Nat} {k : Table → M α} (hk : ∀ u, Ends u g (k u)) :
    Ends t g (t.recordGangScore F race seat type pai others k) := by
  unfold recordGangScore
  split
  · exact hk t
  · refine ends_dealChangeScore fun m n u => Ends.of_view (u := { u with
      sInfo := Function.update u.sInfo seat { u.sInfo seat with
        gangScore := (u.sInfo seat).gangScore ++ [
          { gangType := type, pai := pai, mul := gangMul type, others := others
            score := m, loseSurplus := n }] } }) (hk _) rfl

theorem ends_runPays {race : Nat} {k : Table → M α} (hk : ∀ u, Ends u g (k u))
    {pays : List Pay} : Ends t g (runPays F race k pays t) := by
  induction pays generalizing t with
  | nil => exact hk t
  | cons pay pays ih => exact ends_dealChangeScore fun _ _ _ => ih

theorem ends_saveRaceOverLog {k : Table → M α} (hk : ∀ u, Ends u g (k u)) :
    Ends t g (t.saveRaceOverLog k) := by
  unfold saveRaceOverLog
  split
  · exact hk t
  · exact ends_ask fun _ => hk

theorem ends_statusSettlement : Ends t (0, 1) (t.statusSettlement F) := by
  have hfinish : ∀ u : Table, Ends u (0, 1) (u.settleBankrupt.saveRaceOverLog fun v =>
      .done (v.sendSettlement fun s => (u.settleBankrupt.sInfo s).score).nextGame ()) := by
    intro u
    refine Ends.of_view (u := u.settleBankrupt) (ends_saveRaceOverLog fun v => ?_) rfl
    refine Ends.of_view (u := v.sendSettlement fun s => (u.settleBankrupt.sInfo s).score)
      ?_ rfl
    exact ends_done (fun _ => turns_nextGame) ()
  unfold statusSettlement
  split
  · exact ends_raised rfl
  · refine Ends.of_view (u := t.settleGenDatas) ?_ rfl
    dsimp only
    split
    · exact hfinish _
    · unfold settleChaJiao
      split
      · exact ends_runPays hfinish
      · exact hfinish _

theorem ends_settle : Ends t (1, 0) (settle F t) :=
  Ends.of_turns (u := t.enter .settlement)
    (fun _ => turns_end (phase_of_status (s := .settlement) rfl (by decide)) rfl rfl rfl)
    ends_statusSettlement

end Pay

section Course

variable {F : NumFormat} {t u : Table} {fr : Share → Prop} {act : Act} {race : Nat}

theorem TurnSafe.of_turn (hs : u.status = .start ∨ u.status = .cp ∨ u.status = .moPai)
    (htimed : Timed u) (hflags : ∀ s ∈ u.cfg.seatList, u.pActionDone s → s = u.curP) :
    TurnSafe u := by
  have hholder : ∀ s, s = u.curP → Holder u s := by
    intro s hcur
    unfold Holder
    rcases hs with hst | hst | hst <;> rw [hst] <;> exact hcur
  have hstage : u.stage = u.status := by
    refine if_neg ?_
    rcases hs with hst | hst | hst <;> rw [hst] <;> decide
  refine ⟨htimed, fun _ s hs hd => .inl (hholder s (hflags s hs hd)), fun hst => ?_,
    fun hst => ?_, fun hst => ?_, fun hst => ?_, fun hst => ?_⟩
  · rcases hs with h | h | h <;> rw [h] at hst <;> cases hst
  · rcases hs with h | h | h <;> rw [h] at hst <;> cases hst
  all_goals
    rw [hstage] at hst
    rcases hs with h | h | h <;> rw [h] at hst <;> cases hst

theorem only_turn (hflags : NoFlags t) (hcfg : u.cfg = t.cfg)
    (hdone : u.pActionDone = Function.update t.pActionDone u.curP true) :
    ∀ s ∈ u.cfg.seatList, u.pActionDone s → s = u.curP := by
  intro s hs hd
  by_contra hne
  rw [hdone, Function.update_of_ne hne, hflags s (hcfg ▸ hs)] at hd
  cases hd

theorem turns_turn (hs : u.status = .start ∨ u.status = .cp ∨ u.status = .moPai)
    (hcfg : u.cfg = t.cfg) (hnext : u.nextStatus = t.nextStatus)
    (hdone : u.pActionDone = Function.update t.pActionDone u.curP true)
    (hbreak : u.isBreakGame = t.isBreakGame) : owning.Turns fr t (1, 0) u 0 := by
  refine turns_leave (fun htimed hflags => ?_) hbreak
  refine .of_turn hs ?_ (only_turn hflags hcfg hdone)
  rw [Timed, hnext]
  exact htimed

theorem view_setSeat (s : Nat) {f : SeatPai → SeatPai}
    (hpiao : ∀ d, (f d).piaoNum = d.piaoNum) (hhuan : ∀ d, (f d).isHuanPai = d.isHuanPai) :
    (t.setSeat s f).turnView = t.turnView := by
  have hp : (fun x => ((t.setSeat s f).seat x).piaoNum) = fun x => (t.seat x).piaoNum := by
    funext x
    rcases eq_or_ne x s with rfl | hx
    · simp [setSeat, hpiao]
    · simp [setSeat, hx]
  have hh : (fun x => ((t.setSeat s f).seat x).isHuanPai) =
      fun x => (t.seat x).isHuanPai := by
    funext x
    rcases eq_or_ne x s with rfl | hx
    · simp [setSeat, hhuan]
    · simp [setSeat, hx]
  simp only [turnView, Prod.mk.injEq]
  exact ⟨rfl, rfl, rfl, rfl, rfl, rfl, rfl, rfl, rfl, hp, hh, rfl, rfl⟩

theorem view_gain (s pai : Nat) : (t.gain s pai).turnView = t.turnView :=
  view_setSeat s (fun _ => rfl) fun _ => rfl

theorem view_draw (t : Table) : t.draw.2.turnView = t.turnView := by
  have hpop : ∀ u : Table, u.popPai.2.turnView = u.turnView := by
    intro u
    unfold popPai
    split
    · rfl
    · split <;> rfl
  have hseat : ∀ (u : Table) (s : Nat) (p : Option Nat),
      (u.setSeat s fun d => { d with moPai := p }).turnView = u.turnView :=
    fun u s p => view_setSeat s (fun _ => rfl) fun _ => rfl
  unfold draw
  exact (hseat _ _ _).trans (hpop _)

theorem turns_drawn {pai : Nat} (hs : t.status = .moPai) :
    owning.Turns fr t (1, 0) (t.drawn pai) 0 := by
  have hdone : (t.drawn pai).pActionDone = Function.update t.pActionDone t.curP true := rfl
  have hstatus : (t.drawn pai).status = .moPai := hs
  exact turns_turn (.inr (.inr hstatus)) rfl rfl hdone rfl

theorem ends_statusMoPai : Ends t (1, 0) (statusMoPai F t) := by
  have hphase : (t.enter .moPai).phase = .play :=
    phase_of_status (s := .moPai) rfl (by decide)
  refine Ends.of_turns (u := t.enter .moPai)
    (fun _ => turns_play hphase rfl rfl rfl rfl) ?_
  unfold statusMoPai
  dsimp only
  split
  · exact ends_settle
  · generalize decide ((_ : Nat) ≤ _) = isOver
    refine Ends.of_view (u := (t.enter .moPai).noteCheck isOver) ?_ rfl
    split
    · exact ends_settle
    · have hview := view_draw ((t.enter .moPai).noteCheck isOver)
      have hstatus : ((t.enter .moPai).noteCheck isOver).draw.2.status = .moPai := by
        simp only [turnView, Prod.mk.injEq] at hview
        exact hview.2.1
      refine Ends.of_view (u := ((t.enter .moPai).noteCheck isOver).draw.2) ?_ hview
      split
      · next v hv =>
        rw [hv]
        exact ends_settle
      · next pai v hv =>
        rw [hv] at hstatus ⊢
        exact ends_done (fun _ => turns_drawn hstatus) ()

theorem ends_dealGuo : Ends t (1, 0) (dealGuo F t) := by
  unfold dealGuo
  split
  · exact ends_raised rfl
  · next act _ =>
    refine Ends.of_turns (u := t.setPermit act.p {}) (fun _ => turns_held rfl) ?_
    dsimp only
    split
    · exact ends_raised rfl
    · next s _ =>
      exact Ends.of_turns (u := { t.setPermit act.p {} with curP := s })
        (fun _ => turns_held rfl) ends_statusMoPai

/-! ## Discards -/

theorem countP_lookup_le {β : Type} {l : List Nat} (hl : l.Nodup) (cs : List (Nat × β)) :
    l.countP (fun s => (cs.lookup s).isSome) ≤ cs.length := by
  have hkeys : (cs.map Prod.fst).length = cs.length := List.length_map _
  rw [List.countP_eq_length_filter, ← hkeys]
  refine List.Subperm.length_le (List.Nodup.subperm (hl.filter _) fun s hs => ?_)
  obtain ⟨b, hb⟩ := Option.isSome_iff_exists.mp (List.mem_filter.mp hs).2
  obtain ⟨l₁, l₂, rfl, -⟩ := List.lookup_eq_some_iff.mp hb
  simp

theorem mem_of_lookup {β : Type} {cs : List (Nat × β)} {s : Nat} {b : β}
    (h : cs.lookup s = some b) : (s, b) ∈ cs := by
  obtain ⟨l₁, l₂, rfl, -⟩ := List.lookup_eq_some_iff.mp h
  simp

theorem mem_claims {seat pai s : Nat} {p : Permit} (h : (s, p) ∈ t.claims seat pai) :
    s ≠ seat ∧ p.guo := by
  obtain ⟨x, -, hx⟩ := List.mem_filterMap.mp h
  split at hx
  · cases hx
  · next hne =>
    obtain ⟨q, hq, heq⟩ := Option.map_eq_some_iff.mp hx
    obtain ⟨rfl, rfl⟩ := Prod.mk.inj heq
    refine ⟨fun he => hne (.inl he), ?_⟩
    unfold cpPermit at hq
    split at hq
    · cases hq
    · dsimp only at hq
      obtain ⟨-, hq⟩ := Option.ite_none_right_eq_some.mp hq
      obtain rfl := Option.some.inj hq
      rfl

theorem turns_offer {seat pai : Nat} (hne : t.claims seat pai ≠ [])
    (hchu : t.curChupai = some (seat, pai)) :
    owning.Turns fr t (1, 0) ((t.offer (t.claims seat pai)).setZhuanYu seat) 0 := by
  refine turns_leave (fun htimed hflags => ?_) rfl
  generalize hcs : t.claims seat pai = cs at hne ⊢
  have hstatus : ((t.offer cs).setZhuanYu seat).status = .pengGangHu := if_neg hne
  have hdone : ∀ s ∈ t.cfg.seatList,
      ((t.offer cs).setZhuanYu seat).pActionDone s = (cs.lookup s).isSome := by
    intro s hs
    change (t.pActionDone s || (cs.lookup s).isSome) = _
    rw [hflags s hs, Bool.false_or]
  have hcount : ((t.offer cs).setZhuanYu seat).flagged ≤ cs.length := by
    refine le_trans (le_of_eq ?_) (countP_lookup_le (nodup_seatList t.cfg) cs)
    exact List.countP_congr fun s hs => by rw [hdone s hs]
  have hplay : ((t.offer cs).setZhuanYu seat).stage = .pengGangHu := by
    rw [stage, hstatus]
    rfl
  refine ⟨htimed, fun _ s hs hd => .inl ?_, fun _ _ => ?_, fun hst => ?_, fun hst => ?_,
    fun hst => ?_, fun hst => ?_⟩
  · rw [hdone s hs] at hd
    obtain ⟨p, hp⟩ := Option.isSome_iff_exists.mp hd
    obtain ⟨hseat, hguo⟩ := mem_claims (hcs ▸ mem_of_lookup hp)
    unfold Holder
    rw [hstatus]
    refine ⟨?_, ?_⟩
    · change (((cs.lookup s).or (t.pPermit s)).any (·.guo)) = true
      rw [hp]
      exact hguo
    · change (t.curChupai.any (·.1 ≠ s)) = true
      rw [hchu]
      simpa using hseat.symm
  · exact Int.ofNat_le.mpr hcount
  · rw [hstatus] at hst
    cases hst
  all_goals
    rw [hplay] at hst
    cases hst

theorem ends_dealChuPai {seat pai : Nat} (hchu : t.curChupai = some (seat, pai)) :
    Ends t (1, 0) (dealChuPai F t seat pai) := by
  unfold dealChuPai
  dsimp only
  by_cases hcs : t.claims seat pai = []
  · refine Ends.of_turns (u := (t.offer (t.claims seat pai)).setZhuanYu seat)
      (fun _ => turns_held ?_) ?_
    · rw [hcs]
      simp [heldView, offer, setZhuanYu]
    · rw [hcs, if_pos (by simp [offer, setZhuanYu])]
      exact ends_dealGuo
  · rw [if_neg]
    · exact ends_done (fun _ => turns_offer hcs hchu) ()
    · have hpos := List.length_pos_of_ne_nil hcs
      change ¬ ((t.claims seat pai).length : Int) < 1
      omega

/-! ## Melds -/

theorem ends_movePaiForPg {g : Share} {s pai : Nat} {type : PgType} {k : Table → M α}
    (hk : ∀ u, Ends u g (k u)) : Ends t g (t.movePaiForPg s pai type k) := by
  unfold movePaiForPg
  split
  · exact ends_raised rfl
  · next n _ =>
    exact (hk (t.movePai s pai type n)).of_view (view_setSeat s (fun _ => rfl) fun _ => rfl)

theorem ends_dealPengPai : Ends t (1, 0) (t.dealPengPai act) := by
  refine ends_movePaiForPg fun u => ends_done (fun _ => ?_) ()
  exact turns_turn (.inr (.inl rfl)) rfl rfl rfl rfl

theorem ends_gangDone {type : PgType} : Ends t (1, 0) (gangDone F t act type) := by
  refine ends_movePaiForPg fun u => ?_
  dsimp only
  generalize hv : { u.addAct act with pPermit := fun _ => none } = v
  have hheld : ({ v.dealGameBankrupt with curP := act.p } : Table).heldView =
      u.heldView := by
    subst hv
    rfl
  exact Ends.of_turns (fun _ => turns_held hheld) ends_statusMoPai

theorem ends_dealGang {type : PgType} : Ends t (1, 0) (dealGang F t race act type) := by
  unfold dealGang
  split
  · split
    · exact ends_raised rfl
    · exact ends_recordGangScore fun _ => ends_gangDone
  · exact ends_recordGangScore fun _ => ends_gangDone

theorem ends_dealWGangFinish : Ends t (1, 0) (dealWGangFinish F t race act) := by
  have hmo : ∀ u : Table, Ends u (1, 0) (statusMoPai F { u with curP := act.p }) :=
    fun u => Ends.of_turns (u := { u with curP := act.p }) (fun _ => turns_held rfl)
      ends_statusMoPai
  unfold dealWGangFinish
  dsimp only
  split
  · exact hmo t
  · exact ends_recordGangScore hmo

theorem turns_offerRob : owning.Turns fr t (1, 0)
    { t.offerRob with curWanGang := some act, status := .qiangGangHu } 0 := by
  refine turns_leave (fun htimed hflags => ?_) rfl
  generalize hu : ({ t.offerRob with curWanGang := some act, status := .qiangGangHu } :
    Table) = u
  have hstatus : u.status = .qiangGangHu := hu ▸ rfl
  have hcfg : u.cfg = t.cfg := hu ▸ rfl
  have hdone : ∀ s ∈ t.cfg.seatList, u.pActionDone s = (t.robbers.lookup s).isSome := by
    intro s hs
    subst hu
    change (t.pActionDone s || (t.robbers.lookup s).isSome) = _
    rw [hflags s hs, Bool.false_or]
  have hcount : u.flagged ≤ t.robbers.length := by
    refine le_trans (le_of_eq ?_) (countP_lookup_le (nodup_seatList t.cfg) t.robbers)
    rw [flagged, hcfg]
    exact List.countP_congr fun s hs => by rw [hdone s hs]
  have hstage : u.stage = .qiangGangHu := by
    rw [stage, hstatus]
    rfl
  refine ⟨?_, fun _ s hs hd => .inl ?_, fun hst => ?_, fun _ _ => ?_, fun hst => ?_,
    fun hst => ?_, fun hst => ?_⟩
  · subst hu
    exact htimed
  · rw [hdone s (hcfg ▸ hs)] at hd
    obtain ⟨info, hinfo⟩ := Option.isSome_iff_exists.mp hd
    unfold Holder
    rw [hstatus]
    subst hu
    change ((((t.robbers.lookup s).map fun hu => ({ guo := true, hu := some hu } :
      Permit)).or (t.pPermit s)).any fun p => p.guo ∧ p.hu.isSome) = true
    rw [hinfo]
    rfl
  · rw [hstatus] at hst
    cases hst
  · subst hu
    exact Int.ofNat_le.mpr hcount
  all_goals
    rw [hstage] at hst
    cases hst

theorem ends_dealWGang : Ends t (1, 0) (dealWGang F t race act) := by
  refine ends_movePaiForPg fun u => ?_
  dsimp only
  refine Ends.of_turns (u := u.wGangMoved act) (fun _ => turns_held rfl) ?_
  split
  · next hfew =>
    have hnone : (u.wGangMoved act).robbers = [] := by
      have : ((u.wGangMoved act).robbers.length : Int) < 1 := hfew
      exact List.length_eq_zero_iff.mp (by omega)
    refine Ends.of_turns (u := (u.wGangMoved act).offerRob) (fun _ => turns_held ?_)
      ends_dealWGangFinish
    simp [heldView, offerRob, hnone]
  · exact ends_done (fun _ => turns_offerRob) ()

/-! ## Wins -/

theorem view_win (a : HuAct) : (t.win a).turnView = t.turnView := by
  unfold win
  dsimp only
  split
  · exact (view_gain _ _).trans rfl
  · exact (view_gain _ _).trans rfl
  · rfl

theorem ends_dealHuLoop {actions : Nat → Option HuAct} {k : Table → M Unit}
    (hk : ∀ u, Ends u (1, 0) (k u)) (n : Nat) (s : Option Nat) :
    Ends t (1, 0) (dealHuLoop F race actions k n s t) := by
  induction n generalizing s t with
  | zero => exact hk t
  | succ n ih =>
      cases s with
      | none => exact ends_raised rfl
      | some s =>
          unfold dealHuLoop
          split
          · exact ih _
          · next a _ =>
            refine Ends.of_view (u := t.win a) (ends_dealChangeScore fun _ _ u => ?_)
              (view_win a)
            exact (ih (t := (u.setHu a).addAct (HuAct.act a)) _).of_view rfl

theorem ends_dealHu {actions : Nat → Option HuAct} :
    Ends t (1, 0) (dealHu F t race actions) := by
  unfold dealHu
  split
  · exact ends_raised rfl
  · refine ends_dealHuLoop (fun u => ?_) _ _
    dsimp only
    generalize decide ((_ : Nat) ≤ _) = isOver
    refine Ends.of_view (u := u.dealGameBankrupt.noteCheck isOver) ?_ rfl
    split
    · exact ends_settle
    · exact ends_dealGuo

/-! ## Claims -/

theorem view_unGang (act : Act) : (t.unGang act).turnView = t.turnView := by
  unfold unGang
  dsimp only
  refine (view_setSeat _ ?_ ?_).trans rfl
  · exact fun _ => rfl
  · exact fun _ => rfl

theorem ends_qiangGangHuManager {p : Nat} {hu : Option HuAct}
    (hlast : (t.noteRob p hu).qghPermitCount = 0 →
      ∀ fr, owning.Turns fr u 0 (t.noteRob p hu) (1, 0))
    (hwait : (t.noteRob p hu).qghPermitCount ≠ 0 →
      ∀ fr, owning.Turns fr u 0 (t.noteRob p hu) 0) :
    Ends u 0 (t.qiangGangHuManager F race p hu) := by
  unfold qiangGangHuManager
  dsimp only
  split
  · next hzero =>
    refine Ends.of_turns (hlast hzero) ?_
    split
    · exact ends_raised rfl
    · next act _ =>
      refine Ends.bind ?_ fun _ v => ends_left (by rfl) ()
      split
      · exact ends_dealHu.of_view (view_unGang act)
      · exact ends_dealWGangFinish
  · next hpos => exact ends_done (hwait hpos) ()

theorem ends_pengGangHuManager {c : Claim}
    (hlast : (t.noteClaim c).pPermitPghCount = 0 →
      ∀ fr, owning.Turns fr u 0 (t.noteClaim c) (1, 0))
    (hwait : (t.noteClaim c).pPermitPghCount ≠ 0 →
      ∀ fr, owning.Turns fr u 0 (t.noteClaim c) 0) :
    Ends u 0 (t.pengGangHuManager F race c) := by
  unfold pengGangHuManager
  dsimp only
  split
  · next hzero =>
    refine Ends.of_turns (hlast hzero) ?_
    refine Ends.bind ?_ fun _ v => ends_left (by rfl) ()
    split
    · exact ends_dealHu
    · split
      · split
        · exact ends_dealPengPai
        · split
          · exact ends_dealGang
          · exact ends_raised rfl
      · exact ends_dealGuo
  · next hpos => exact ends_done (hwait hpos) ()

end Course

/-! ## Answers -/

def Alone (t : Table) (seat : Nat) : Prop :=
  ∀ s ∈ t.cfg.seatList, s ≠ seat → t.pActionDone s = false

instance decidableAlone (t : Table) (seat : Nat) : Decidable (t.Alone seat) :=
  inferInstanceAs (Decidable (∀ s ∈ t.cfg.seatList, s ≠ seat → t.pActionDone s = false))

def answerView (t : Table) :=
  (t.cfg, t.status, t.nextStatus, t.curP, t.pPermit, t.curChupai,
    (fun s => (t.seat s).piaoNum), (fun s => (t.seat s).isHuanPai), t.pDingQue,
    t.isBreakGame)

structure Answered (seat : Nat) (t u : Table) : Prop where
  mem : seat ∈ t.cfg.seatList
  flag : t.pActionDone seat
  play : t.phase = .play
  view : u.answerView = t.answerView
  done : u.pActionDone = Function.update t.pActionDone seat false

section Answers

variable {t u : Table} {seat : Nat} {fr : Share → Prop}

theorem Answered.cfg (h : Answered seat t u) : u.cfg = t.cfg := by
  have hv := h.view
  simp only [answerView, Prod.mk.injEq] at hv
  exact hv.1

theorem Answered.flagged (h : Answered seat t u) : u.flagged + 1 = t.flagged := by
  have hperm := List.perm_cons_erase h.mem
  have hrest : (t.cfg.seatList.erase seat).countP (fun s => u.pActionDone s) =
      (t.cfg.seatList.erase seat).countP fun s => t.pActionDone s := by
    refine List.countP_congr fun s hs => ?_
    have hne := (List.Nodup.mem_erase_iff (nodup_seatList t.cfg)).mp hs
    rw [h.done, Function.update_of_ne hne.1]
  have hseat : u.pActionDone seat = false := by rw [h.done, Function.update_self]
  rw [Table.flagged, Table.flagged, h.cfg, hperm.countP_eq, hperm.countP_eq, List.countP_cons,
    List.countP_cons, hrest, h.flag, hseat]
  rfl

theorem Answered.safe (h : Answered seat t u)
    (hpgh : t.pPermitPghCount - 1 ≤ u.pPermitPghCount)
    (hqgh : t.qghPermitCount - 1 ≤ u.qghPermitCount) (ht : TurnSafe t) : TurnSafe u := by
  have hflagged := h.flagged
  have hless : ∀ s, u.pActionDone s → t.pActionDone s := by
    intro s hs
    rcases eq_or_ne s seat with rfl | hne
    · exact h.flag
    · rwa [h.done, Function.update_of_ne hne] at hs
  have hv := h.view
  simp only [answerView, Prod.mk.injEq] at hv
  obtain ⟨hcfg, hstatus, hnext, hcur, hpermit, hchu, hpiao, hhuan, hque, -⟩ := hv
  have hphase : u.phase = t.phase := by rw [phase, phase, hstatus, hnext]
  have hstage : u.stage = t.stage := by rw [stage, stage, hstatus, hnext]
  have hholder : ∀ s, Holder u s ↔ Holder t s := by
    intro s
    unfold Holder
    rw [hstatus, hcur, hpermit, hchu]
  have hplay : t.status.phase = .play := by
    have hp := h.play
    unfold phase at hp
    split at hp
    · cases hp
    · exact hp
  have hpre : t.stage.beforeQue = false := by
    have hwait : t.status ≠ .wait := fun hs => by rw [hs] at hplay; cases hplay
    rw [stage, if_neg hwait]
    revert hplay
    cases t.status <;> simp [Status.phase, Status.beforeQue, Status.beforeHuan,
      Status.beforePiao]
  have hhuanPre : t.stage.beforeHuan = false := by
    revert hpre
    cases t.stage <;> simp [Status.beforeQue]
  have hpiaoPre : t.stage.beforePiao = false := by
    revert hhuanPre
    cases t.stage <;> simp [Status.beforeHuan]
  refine ⟨?_, fun hover s hs hd => ?_, fun hst hpos => ?_, fun hst hpos => ?_, ?_, ?_, ?_⟩
  · rw [Timed, hnext]
    exact ht.timed
  · rw [hholder, hstatus]
    exact ht.safe (hphase ▸ hover) s (hcfg ▸ hs) (hless s hd)
  · have := ht.claims (hstatus ▸ hst) (by omega)
    omega
  · have := ht.robs (hstatus ▸ hst) (by omega)
    omega
  · simp [hstage, hpiaoPre]
  · simp [hstage, hhuanPre]
  · simp [hstage, hpre]

theorem Answered.noFlags (h : Answered seat t u) (ht : TurnSafe t)
    (hcase : t.status ∈ [.start, .cp, .moPai] ∨ t.Alone seat ∨ t.flagged ≤ 1) :
    NoFlags u := by
  have hflagged := h.flagged
  have halone : t.Alone seat → NoFlags u := by
    intro ha s hs
    rw [h.done]
    rcases eq_or_ne s seat with rfl | hne
    · exact Function.update_self ..
    · rw [Function.update_of_ne hne]
      exact ha s (h.cfg ▸ hs) hne
  rcases hcase with hst | ha | hone
  · refine halone fun s hs hne => ?_
    have hturn : ∀ x ∈ t.cfg.seatList, t.pActionDone x → x = t.curP := by
      intro x hx hd
      have hor := ht.safe (by rw [h.play]; decide) x hx hd
      unfold Holder at hor
      simp only [List.mem_cons, List.not_mem_nil, or_false] at hst
      rcases hst with h' | h' | h' <;> rw [h'] at hor <;> simpa [Status.asks] using hor
    by_contra hd
    refine hne ?_
    rw [hturn s hs (by simpa using hd), hturn seat h.mem h.flag]
  · exact halone ha
  · exact noFlags_iff.mpr (by omega)

theorem Answered.turns_take (h : Answered seat t u)
    (hcase : TurnSafe t → t.status ∈ [.start, .cp, .moPai] ∨ t.Alone seat ∨ t.flagged ≤ 1) :
    owning.Turns fr t 0 u (1, 0) := by
  have hv := h.view
  simp only [answerView, Prod.mk.injEq] at hv
  obtain ⟨-, hstatus, hnext, -, -, -, -, -, -, hbreak⟩ := hv
  have hphase : u.phase = t.phase := by rw [phase, phase, hstatus, hnext]
  exact Table.turns_take h.mem h.flag h.play (hphase.trans h.play)
    (fun ht => h.noFlags ht (hcase ht)) hnext hbreak

theorem Answered.turns_idle (h : Answered seat t u)
    (hpgh : t.pPermitPghCount - 1 ≤ u.pPermitPghCount)
    (hqgh : t.qghPermitCount - 1 ≤ u.qghPermitCount) : owning.Turns fr t 0 u 0 := by
  have hv := h.view
  simp only [answerView, Prod.mk.injEq] at hv
  refine Table.turns_idle (h.safe hpgh hqgh) (fun hflags => ?_) (by rw [h.play]; decide)
    hv.2.2.2.2.2.2.2.2.2
  have := hflags seat h.mem
  rw [h.flag] at this
  cases this

end Answers

end Table

end JyQipai.Mj
