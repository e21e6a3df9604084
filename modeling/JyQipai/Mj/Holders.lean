import JyQipai.Mj.Turn

/-!
# Who may play

In a run in which no answer ends a wait before all seats that were asked have
answered, a flag is a permission: of the seat in turn, or for the tile that lies on the
table.  Every command of any other seat is refused.  A win that ends the wait early
leaves the flags of the seats that were not heard.
-/

namespace JyQipai.Mj

open JyQipai.Lib

def Event.player : Event → Option Nat
  | .chuPai seat _ | .guoPai seat | .pengPai seat _ | .gangPai seat _ _ | .huPai seat =>
      some seat
  | _ => none

namespace Table

def hastens (t : Table) : Event → Bool
  | .gangPai _ type _ => t.status = .pengGangHu ∧ type ≠ .zg
  | .huPai seat =>
      match (t.pPermit seat).bind Permit.hu with
      | none => false
      | some hu =>
          match huTypeOf hu with
          | .pao => t.pPermitHCount = 1 ∨ t.status = .qiangGangHu ∧ t.pPermitPghCount = 1
          | .qghu => t.status = .pengGangHu ∧ t.qghPermitCount = 1
          | _ => t.status = .pengGangHu ∨ t.status = .qiangGangHu
  | _ => false

/-- Commands come from the seats of the table, the seat that completes the count of the
ready ones does so between hands, and all seats that were asked are heard. -/
def Heard (t : Table) (ev : Event) : Prop :=
  (∀ seat ∈ ev.player, seat ∈ t.cfg.seatList ∧ (t.hastens ev → t.Alone seat)) ∧
    match ev with
    | .ready seat => t.ready seat = 0 → t.pReady + 1 = t.cfg.seatCount →
        t.status = .waitP ∨ t.status = .ready
    | _ => True

instance decidableHeard (t : Table) : ∀ ev, Decidable (Heard t ev) := by
  rintro (_ | _) <;> unfold Heard <;> infer_instance

section Commands

variable {F : NumFormat} {t u : Table} {seat : Nat}

theorem mayDo_iff {statuses : List Status} :
    t.mayDo statuses seat ↔ t.status ∈ statuses ∧ t.pActionDone seat := by
  simp [mayDo]

theorem phase_of_mem {statuses : List Status} (h : t.status ∈ statuses)
    (hall : ∀ s ∈ statuses, s ≠ .wait ∧ s.phase = .play) : t.phase = .play :=
  (phase_of_status rfl (hall _ h).1).trans (hall _ h).2

theorem answered_setDone (hs : seat ∈ t.cfg.seatList) (hd : t.pActionDone seat)
    (hplay : t.phase = .play) : Answered seat t (t.setDone seat false) :=
  ⟨hs, hd, hplay, rfl, rfl⟩

theorem ends_fault {α : Type} (hs : seat ∈ t.cfg.seatList) (hd : t.pActionDone seat)
    (hplay : t.phase = .play) : Ends t 0 (.raised (t.setDone seat false) : M α) := by
  refine Ends.of_turns (fun _ => (answered_setDone hs hd hplay).turns_idle ?_ ?_)
    (ends_raised rfl)
  · exact Int.sub_le_self _ (by decide)
  · exact Int.sub_le_self _ (by decide)

def Last (t : Table) (seat : Nat) : Prop :=
  t.status ∈ [Status.start, .cp, .moPai] ∨ t.Alone seat ∨ t.flagged ≤ 1

theorem ends_rob {v : Table} {race : Nat} {hu : Option HuAct}
    (h : Answered seat t (v.noteRob seat hu)) (hpgh : v.pPermitPghCount = t.pPermitPghCount)
    (hqgh : v.qghPermitCount = t.qghPermitCount)
    (hlast : TurnSafe t → t.qghPermitCount = 1 → t.Last seat) :
    Ends t 0 (v.qiangGangHuManager F race seat hu) := by
  refine ends_qiangGangHuManager (fun hzero fr => h.turns_take fun ht => hlast ht ?_)
    fun _ fr => h.turns_idle ?_ ?_
  · have : v.qghPermitCount - 1 = 0 := hzero
    omega
  · change _ ≤ v.pPermitPghCount
    omega
  · change _ ≤ v.qghPermitCount - 1
    omega

theorem ends_claim {v : Table} {race : Nat} {c : Claim} (h : Answered seat t (v.noteClaim c))
    (hpgh : (v.noteClaim c).pPermitPghCount = t.pPermitPghCount - 1 ∨
      (v.noteClaim c).pPermitPghCount = 0)
    (hqgh : (v.noteClaim c).qghPermitCount = t.qghPermitCount)
    (hlast : TurnSafe t → (v.noteClaim c).pPermitPghCount = 0 → t.Last seat) :
    Ends t 0 (v.pengGangHuManager F race c) := by
  refine ends_pengGangHuManager (fun hzero fr => h.turns_take fun ht => hlast ht hzero)
    fun hne fr => h.turns_idle ?_ ?_
  · rw [hpgh.resolve_right hne]
  · rw [hqgh]
    exact Int.sub_le_self _ (by decide)

theorem last_of_count (ht : TurnSafe t) (hstatus : t.status = .pengGangHu)
    (hone : t.pPermitPghCount - 1 = 0) : t.Last seat := by
  have := ht.claims hstatus
  exact .inr (.inr (by omega))

theorem ends_chuPai {pai : Nat} (hs : seat ∈ t.cfg.seatList) :
    Ends t 0 (t.chuPai F seat pai) := by
  unfold chuPai
  split
  · next hmay =>
    obtain ⟨hstatus, hd⟩ := mayDo_iff.mp hmay
    have hplay : t.phase = .play := phase_of_mem hstatus (by decide)
    have hturn : t.Last seat := .inl hstatus
    refine Ends.of_turns
      (fun _ => (answered_setDone hs hd hplay).turns_take fun _ => hturn) ?_
    dsimp only
    split
    · refine Ends.of_turns (u := { t.setDone seat false with
        curChupai := some (seat, pai) }) (fun _ => turns_held rfl) ?_
      exact ends_raised rfl
    · next n _ =>
      refine Ends.of_turns (u := ((t.setDone seat false).discard seat pai n).enter .cpFinish)
        (fun _ => turns_play (phase_of_status (s := .cpFinish) rfl (by decide))
          rfl rfl rfl rfl) ?_
      exact (ends_dealChuPai rfl).bind fun _ v => ends_left (by rfl) 0
  · exact ends_left rfl _

theorem ends_guoPai (hs : seat ∈ t.cfg.seatList) : Ends t 0 (t.guoPai F seat) := by
  unfold guoPai
  split
  · next hmay =>
    obtain ⟨hstatus, hd⟩ := mayDo_iff.mp hmay
    have hplay : t.phase = .play := phase_of_mem hstatus (by decide)
    dsimp only
    split
    · exact ends_fault hs hd hplay
    · refine Ends.bind ?_ fun _ v => ends_left (by rfl) 0
      split
      · next hrob =>
        refine ends_rob ⟨hs, hd, hplay, rfl, rfl⟩ rfl rfl fun ht hone => ?_
        have := ht.robs hrob
        exact .inr (.inr (by omega))
      · next hrob =>
        have hclaims : t.status = .pengGangHu := by
          have hne : t.status ≠ .qiangGangHu := hrob
          simpa [hne] using hstatus
        exact ends_claim ⟨hs, hd, hplay, rfl, rfl⟩ (.inl rfl) rfl
          fun ht hone => last_of_count ht hclaims hone
  · exact ends_left rfl _

theorem ends_pengPai {pai : Nat} (hs : seat ∈ t.cfg.seatList) :
    Ends t 0 (t.pengPai F seat pai) := by
  unfold pengPai
  split
  · next hmay =>
    obtain ⟨hstatus, hd⟩ := mayDo_iff.mp hmay
    have hplay : t.phase = .play := phase_of_mem hstatus (by decide)
    refine Ends.bind ?_ fun _ v => ends_left (by rfl) 0
    exact ends_claim ⟨hs, hd, hplay, rfl, rfl⟩ (.inl rfl) rfl
      fun ht hone => last_of_count ht (List.mem_singleton.mp hstatus) hone
  · exact ends_left rfl _

theorem ends_gangPai {type : GangArg} {pai : Nat} (hs : seat ∈ t.cfg.seatList)
    (halone : t.hastens (.gangPai seat type pai) → t.Alone seat) :
    Ends t 0 (t.gangPai F seat type pai) := by
  unfold gangPai
  split
  · next hmay =>
    obtain ⟨hstatus, hd⟩ := mayDo_iff.mp hmay
    have hplay : t.phase = .play := phase_of_mem hstatus (by decide)
    have hanswered : ∀ ignore, Answered seat t
        { t.setDone seat false with pIgnoreHu := ignore } :=
      fun _ => ⟨hs, hd, hplay, rfl, rfl⟩
    have hturn : t.status = .pengGangHu ∨ t.status ∈ [Status.start, .cp, .moPai] := by
      simp only [List.mem_cons, List.not_mem_nil, or_false] at hstatus ⊢
      tauto
    have hlast : type ≠ .zg → t.Last seat := by
      intro hne
      rcases hturn with hclaims | hturn
      · exact .inr (.inl (halone (by simp [hastens, hclaims, hne])))
      · exact .inl hturn
    refine Ends.bind ?_ fun _ v => ends_left (by rfl) 0
    cases type with
    | ag =>
        exact Ends.of_turns (fun _ => (hanswered _).turns_take fun _ => hlast (by decide))
          ends_dealGang
    | zg =>
        refine ends_claim ⟨hs, hd, hplay, rfl, rfl⟩ (.inl rfl) rfl fun ht hone => ?_
        rcases hturn with hclaims | hturn
        · exact last_of_count ht hclaims hone
        · exact .inl hturn
    | wg =>
        exact Ends.of_turns (fun _ => (hanswered _).turns_take fun _ => hlast (by decide))
          ends_dealWGang
    | jwg =>
        exact Ends.of_turns (fun _ => (hanswered _).turns_take fun _ => hlast (by decide))
          ends_dealWGang
  · exact ends_left rfl _

theorem ends_zhuanYu {race : Nat} {a : HuAct} {acts : List Act} :
    Ends t 0 (t.zhuanYu F race seat a acts) := by
  unfold zhuanYu
  split
  · exact ends_left rfl 0
  · split
    · exact ends_left rfl 0
    · split
      · refine Ends.of_view (ends_dealChangeScore fun _ _ u => ends_left rfl 0) ?_
        rfl
      · exact ends_left rfl 0

theorem ends_huPai (hs : seat ∈ t.cfg.seatList)
    (halone : t.hastens (.huPai seat) → t.Alone seat) : Ends t 0 (t.huPai F seat) := by
  unfold huPai
  split
  · next hmay =>
    obtain ⟨hstatus, hd⟩ := mayDo_iff.mp hmay
    have hplay : t.phase = .play := phase_of_mem hstatus (by decide)
    have hturn : t.status = .pengGangHu ∨ t.status = .qiangGangHu ∨
        t.status ∈ [Status.start, .cp, .moPai] := by
      simp only [List.mem_cons, List.not_mem_nil, or_false] at hstatus ⊢
      tauto
    dsimp only
    split
    · exact ends_fault hs hd hplay
    · next hu hpermit =>
      have hpermit : (t.pPermit seat).bind Permit.hu = some hu := hpermit
      simp only [hastens, hpermit] at halone
      refine Ends.bind ?_ fun _ v => ends_zhuanYu
      cases htype : huTypeOf hu with
      | qghu =>
          simp only [htype, decide_eq_true_eq] at halone
          refine ends_rob ⟨hs, hd, hplay, rfl, rfl⟩ rfl rfl fun ht hone => ?_
          rcases hturn with hclaims | hrobs | hturn
          · exact .inr (.inl (halone ⟨hclaims, hone⟩))
          · have := ht.robs hrobs
            exact .inr (.inr (by omega))
          · exact .inl hturn
      | pao =>
          simp only [htype, decide_eq_true_eq] at halone
          refine ends_claim ⟨hs, hd, hplay, rfl, rfl⟩ ?_ rfl fun ht hzero => ?_
          · simp only [noteClaim]
            split
            · exact .inr rfl
            · exact .inl rfl
          · have hcount : (if t.pPermitHCount - 1 = 0 then 0 else t.pPermitPghCount - 1) =
                0 := hzero
            by_cases hlast : t.pPermitHCount - 1 = 0
            · exact .inr (.inl (halone (.inl (by omega))))
            · rw [if_neg hlast] at hcount
              rcases hturn with hclaims | hrobs | hturn
              · exact last_of_count ht hclaims hcount
              · exact .inr (.inl (halone (.inr ⟨hrobs, by omega⟩)))
              · exact .inl hturn
      | zimo =>
          simp only [htype, decide_eq_true_eq] at halone
          refine Ends.of_turns (fun _ => (answered_setDone hs hd hplay).turns_take fun _ => ?_)
            ends_dealHu
          rcases hturn with hclaims | hrobs | hturn
          · exact .inr (.inl (halone (.inl hclaims)))
          · exact .inr (.inl (halone (.inr hrobs)))
          · exact .inl hturn
      | tianHu =>
          simp only [htype, decide_eq_true_eq] at halone
          refine Ends.of_turns (fun _ => (answered_setDone hs hd hplay).turns_take fun _ => ?_)
            ends_dealHu
          rcases hturn with hclaims | hrobs | hturn
          · exact .inr (.inl (halone (.inl hclaims)))
          · exact .inr (.inl (halone (.inr hrobs)))
          · exact .inl hturn
  · exact ends_left rfl _

/-! ## Before the first discard -/

theorem TurnSafe.advance (h : TurnSafe t) (hpre : u.phase = .pre) (htimed : Timed u)
    (hcfg : u.cfg = t.cfg)
    (hflags : ∀ s ∈ t.cfg.seatList, u.pActionDone s → u.status.asks)
    (hpiao : u.stage.beforePiao → t.stage.beforePiao ∧ t.status ≠ .daPiao ∧
      ∀ s, (u.seat s).piaoNum = (t.seat s).piaoNum)
    (hhuan : u.stage.beforeHuan → t.stage.beforeHuan ∧ t.status ≠ .huanPai ∧
      ∀ s, (u.seat s).isHuanPai = (t.seat s).isHuanPai)
    (hque : u.stage.beforeQue → t.stage.beforeQue ∧ t.status ≠ .dingQue ∧
      u.pDingQue = t.pDingQue) : TurnSafe u := by
  have hstatus : u.status ≠ .pengGangHu ∧ u.status ≠ .qiangGangHu := by
    constructor
    · intro hs
      rw [phase_of_status hs (by decide)] at hpre
      cases hpre
    · intro hs
      rw [phase_of_status hs (by decide)] at hpre
      cases hpre
  refine ⟨htimed, fun _ s hs hd => .inr (hflags s (hcfg ▸ hs) hd),
    fun hs => absurd hs hstatus.1, fun hs => absurd hs hstatus.2, fun hst s hs _ => ?_,
    fun hst s hs _ => ?_, fun hst s hs _ => ?_⟩
  · obtain ⟨hbefore, hne, heq⟩ := hpiao hst
    rw [heq]
    exact h.piao hbefore s (hcfg ▸ hs) fun hd => absurd hd hne
  · obtain ⟨hbefore, hne, heq⟩ := hhuan hst
    rw [heq]
    exact h.huan hbefore s (hcfg ▸ hs) fun hd => absurd hd hne
  · obtain ⟨hbefore, hne, heq⟩ := hque hst
    rw [heq]
    exact h.que hbefore s (hcfg ▸ hs) fun hd => absurd hd hne

structure Chosen (seat : Nat) (t u : Table) : Prop where
  cfg : u.cfg = t.cfg
  status : u.status = t.status
  next : u.nextStatus = t.nextStatus
  done : u.pActionDone = Function.update t.pActionDone seat false
  piao : ∀ s, s ≠ seat ∨ t.status ≠ .daPiao → (u.seat s).piaoNum = (t.seat s).piaoNum
  huan : ∀ s, s ≠ seat ∨ t.status ≠ .huanPai →
    (u.seat s).isHuanPai = (t.seat s).isHuanPai
  que : ∀ s, s ≠ seat ∨ t.status ≠ .dingQue → u.pDingQue s = t.pDingQue s
  broken : u.isBreakGame = t.isBreakGame

theorem Chosen.safe (h : Chosen seat t u) (hask : t.status.asks) (ht : TurnSafe t) :
    TurnSafe u := by
  have hstage : u.stage = t.stage := by rw [stage, stage, h.status, h.next]
  have hother : ∀ s, u.pActionDone s → s ≠ seat ∧ t.pActionDone s := by
    intro s hs
    rw [h.done] at hs
    rcases eq_or_ne s seat with rfl | hne
    · rw [Function.update_self] at hs
      cases hs
    · exact ⟨hne, by rwa [Function.update_of_ne hne] at hs⟩
  refine ⟨?_, fun _ s _ _ => .inr ?_, fun hs => ?_, fun hs => ?_, fun hst s hs hd => ?_,
    fun hst s hs hd => ?_, fun hst s hs hd => ?_⟩
  · rw [Timed, h.next]
    exact ht.timed
  · rw [h.status]
    exact hask
  · rw [← h.status, hs] at hask
    cases hask
  · rw [← h.status, hs] at hask
    cases hask
  · rw [h.status] at hd
    rw [h.piao s ((em (t.status = .daPiao)).imp (fun hs => (hother s (hd hs)).1) id)]
    exact ht.piao (hstage ▸ hst) s (h.cfg ▸ hs) fun hs => (hother s (hd hs)).2
  · rw [h.status] at hd
    rw [h.huan s ((em (t.status = .huanPai)).imp (fun hs => (hother s (hd hs)).1) id)]
    exact ht.huan (hstage ▸ hst) s (h.cfg ▸ hs) fun hs => (hother s (hd hs)).2
  · rw [h.status] at hd
    rw [h.que s ((em (t.status = .dingQue)).imp (fun hs => (hother s (hd hs)).1) id)]
    exact ht.que (hstage ▸ hst) s (h.cfg ▸ hs) fun hs => (hother s (hd hs)).2

theorem asks_phase (hask : t.status.asks) : t.phase = .pre ∧ t.status ≠ .wait := by
  have hs : t.status ≠ .wait ∧ t.status.phase = .pre := by
    revert hask
    cases t.status <;> simp [Status.asks, Status.phase]
  exact ⟨(phase_of_status rfl hs.1).trans hs.2, hs.1⟩

theorem Chosen.ends (h : Chosen seat t u) (hask : t.status.asks) (n : Int) :
    Ends t 0 (.done u n) := by
  have hphase := (asks_phase hask).1
  refine ends_done (fun _ => turns_idle (h.safe hask) (fun _ => hphase) ?_ h.broken) n
  rw [hphase]
  decide

theorem Chosen.ends_wait {next : Status} (h : Chosen seat t u) (hask : t.status.asks)
    (hflags : TurnSafe u → NoFlags u) (htimed : next.timed) (hne : next ≠ .gameover)
    (hpiao : next.beforePiao = false)
    (hhuan : next.beforeHuan → t.status = .daPiao)
    (hque : next.beforeQue → t.status = .daPiao ∨ t.status = .huanPai) (n : Int) :
    Ends t 0 (.done (u.wait next) n) := by
  obtain ⟨hphase, hwait⟩ := asks_phase hask
  have hover : t.phase ≠ .ended := by
    rw [hphase]
    decide
  have hbroken : (u.wait next).isBreakGame = t.isBreakGame := h.broken
  refine ends_done (fun _ => turns_idle (fun ht => ?_) (fun _ => hphase) hover hbroken) n
  have hsafe := h.safe hask ht
  have hstage : u.stage = t.status := by
    rw [stage, h.status, if_neg hwait]
  refine hsafe.advance ?_ ?_ rfl (fun s hs hd => ?_) (fun hst => ?_) (fun hst => ?_)
    fun hst => ?_
  · refine (if_neg fun hgo => hne (Option.some.inj hgo.2)).trans rfl
  · intro x hx
    obtain rfl := Option.some.inj hx
    exact htimed
  · have := hflags hsafe s (h.cfg ▸ hs)
    have hd : u.pActionDone s := hd
    rw [this] at hd
    cases hd
  · have hst : next.beforePiao := hst
    rw [hpiao] at hst
    cases hst
  · have hs := hhuan hst
    refine ⟨?_, ?_, fun _ => rfl⟩
    · rw [hstage, hs]
      rfl
    · rw [h.status, hs]
      decide
  · have hs := hque hst
    refine ⟨?_, ?_, rfl⟩
    · rw [hstage]
      rcases hs with hs | hs <;> rw [hs] <;> rfl
    · rw [h.status]
      rcases hs with hs | hs <;> rw [hs] <;> decide

theorem ends_daPiao {n : Int} : Ends t 0 (t.daPiao seat n) := by
  unfold daPiao
  split
  · next hmay =>
    have hs := status_of_mayDo hmay
    have hask : t.status.asks := by rw [hs]; rfl
    dsimp only
    split
    · exact Chosen.ends (t := t) (u := t.setDone seat false) ⟨rfl, rfl, rfl, rfl,
        fun _ _ => rfl, fun _ _ => rfl, fun _ _ => rfl, rfl⟩ hask _
    · generalize hu : ((t.setDone seat false).setSeat seat fun d =>
        { d with piaoNum := n }) = u
      have hchosen : Chosen seat t u := by
        subst hu
        refine ⟨rfl, rfl, rfl, rfl, fun s hor => ?_, fun s _ => ?_, fun _ _ => rfl, rfl⟩
        · have hne : s ≠ seat := hor.resolve_right fun hne => hne hs
          simp [setSeat, hne, setDone]
        · rcases eq_or_ne s seat with rfl | hne
          · simp [setSeat, setDone]
          · simp [setSeat, hne, setDone]
      split
      · next hall =>
        refine hchosen.ends_wait hask (fun hsafe s hs' => ?_) rfl (by decide) rfl
          (fun _ => hs) (fun _ => .inl hs) 0
        have hpiao := of_decide_eq_true (List.all_eq_true.mp hall s hs')
        by_contra hd
        refine hpiao (hsafe.piao ?_ s hs' fun _ => by simpa using hd)
        rw [stage, hchosen.status, hs]
        rfl
      · exact hchosen.ends hask 0
  · exact ends_left rfl _

theorem ends_dingQue {c : Nat} : Ends t 0 (t.dingQue seat c) := by
  unfold dingQue
  split
  · next hmay =>
    have hs := status_of_mayDo hmay
    have hask : t.status.asks := by rw [hs]; rfl
    have hchosen : Chosen seat t { t.setDone seat false with
        pDingQue := Function.update (t.setDone seat false).pDingQue seat (some c) } := by
      refine ⟨rfl, rfl, rfl, rfl, fun _ _ => rfl, fun _ _ => rfl, fun s hor => ?_, rfl⟩
      have hne : s ≠ seat := hor.resolve_right fun hne => hne hs
      simp [hne, setDone]
    dsimp only
    split
    · next hall =>
      refine hchosen.ends_wait hask (fun hsafe s hs' => ?_) rfl (by decide) rfl
        (fun hb => absurd hb (by decide)) (fun hb => absurd hb (by decide)) 0
      have hque := List.all_eq_true.mp hall s hs'
      by_contra hd
      have hnone : Function.update t.pDingQue seat (some c) s = none := by
        refine hsafe.que ?_ s hs' fun _ => by simpa using hd
        rw [stage, hchosen.status, hs]
        rfl
      rw [hnone] at hque
      cases hque
    · exact hchosen.ends hask 0
  · exact ends_left rfl _

theorem ends_huanSanZhang {old : List Nat} : Ends t 0 (t.huanSanZhang seat old) := by
  unfold huanSanZhang
  split
  · next hmay =>
    have hs := status_of_mayDo hmay
    have hask : t.status.asks := by rw [hs]; rfl
    have hview : ((t.setDone seat false).huanPai seat old).turnView =
        (t.setDone seat false).turnView :=
      huanPai_frame (fun _ _ _ => view_setSeat _ (fun _ => rfl) fun _ => rfl)
        (fun _ _ => rfl) seat old _
    generalize (t.setDone seat false).huanPai seat old = v at hview
    simp only [turnView, Prod.mk.injEq] at hview
    obtain ⟨hcfg, hstatus, hnext, hdone, -, -, -, -, -, hpiao, hhuan, hque, hbreak⟩ := hview
    dsimp only
    have hchosen : Chosen seat t (v.setSeat seat fun d => { d with isHuanPai := true }) := by
      refine ⟨hcfg, hstatus, hnext, hdone, fun s _ => ?_, fun s hor => ?_, fun s _ => ?_,
        hbreak⟩
      · refine Eq.trans ?_ (congrFun hpiao s)
        rcases eq_or_ne s seat with rfl | hne
        · simp [setSeat]
        · simp [setSeat, hne]
      · have hne : s ≠ seat := hor.resolve_right fun hne => hne hs
        refine Eq.trans ?_ (congrFun hhuan s)
        simp [setSeat, hne]
      · exact congrFun hque s
    split
    · next hall =>
      refine hchosen.ends_wait hask (fun hsafe s hs' => ?_) rfl (by decide) rfl
        (fun hb => absurd hb (by decide)) (fun _ => .inr hs) 0
      have hdone := List.all_eq_true.mp hall s hs'
      by_contra hd
      rw [hsafe.huan ?_ s hs' fun _ => by simpa using hd] at hdone
      · cases hdone
      · rw [stage, hchosen.status, hs]
        rfl
    · exact hchosen.ends hask 0
  · exact ends_left rfl _

/-! ## Timers -/

def Pause (t : Table) : Prop := t.phase = .pre ∧ t.status.asks = false

theorem Pause.noFlags (h : Pause t) (ht : TurnSafe t) : NoFlags t := by
  obtain ⟨hphase, hask⟩ := h
  intro s hs
  by_contra hd
  have hor := ht.safe (by rw [hphase]; decide) s hs (by simpa using hd)
  rw [hask] at hor
  have hpre : t.status.phase = .pre := by
    unfold phase at hphase
    split at hphase
    · cases hphase
    · exact hphase
  unfold Holder at hor
  revert hpre hor
  cases t.status <;> simp [Status.phase]

theorem pause_wait {next : Status} (hw : t.status = .wait) (hn : t.nextStatus = some next)
    (hne : next ≠ .gameover) : Pause t := by
  refine ⟨?_, by rw [hw]; rfl⟩
  rw [phase, hn, if_neg (fun h => hne (Option.some.inj h.2)), hw]
  rfl

theorem Pause.ends (h : Pause t) (hu : u.phase = .pre) (htimed : Timed t → Timed u)
    (hcfg : u.cfg = t.cfg) (hbreak : u.isBreakGame = t.isBreakGame)
    (hdone : u.pActionDone = t.pActionDone ∨ u.status.asks)
    (hpiao : u.stage.beforePiao → t.stage.beforePiao ∧
      ∀ s, (u.seat s).piaoNum = (t.seat s).piaoNum)
    (hhuan : u.stage.beforeHuan → t.stage.beforeHuan ∧
      ∀ s, (u.seat s).isHuanPai = (t.seat s).isHuanPai)
    (hque : u.stage.beforeQue → t.stage.beforeQue ∧ u.pDingQue = t.pDingQue) {α : Type}
    (a : α) : Ends t 0 (.done u a) := by
  have hask : ∀ s : Status, s.asks → t.status ≠ s := by
    rintro s hs rfl
    rw [h.2] at hs
    cases hs
  refine ends_done (fun _ => turns_idle (fun ht => ?_) (fun _ => h.1) ?_ hbreak) a
  · refine ht.advance hu (htimed ht.timed) hcfg (fun s hs hd => ?_) (fun hst => ?_)
      (fun hst => ?_) fun hst => ?_
    · refine hdone.resolve_left fun heq => ?_
      rw [heq, h.noFlags ht s hs] at hd
      cases hd
    · exact ⟨(hpiao hst).1, hask _ rfl, (hpiao hst).2⟩
    · exact ⟨(hhuan hst).1, hask _ rfl, (hhuan hst).2⟩
    · exact ⟨(hque hst).1, hask _ rfl, (hque hst).2⟩
  · rw [h.1]
    decide

theorem phase_wait {next : Status} (hne : next ≠ .gameover) : (t.wait next).phase = .pre :=
  if_neg fun h => hne (Option.some.inj h.2)

theorem timed_wait {next : Status} (h : next.timed) : Timed (t.wait next) := by
  intro x hx
  obtain rfl := Option.some.inj hx
  exact h

theorem Pause.ends_wait {next : Status} (h : Pause t)
    (hview : u.turnView = (t.enter u.status).turnView) (htimed : next.timed)
    (hne : next ≠ .gameover) (hpiao : next.beforePiao → t.stage.beforePiao)
    (hhuan : next.beforeHuan → t.stage.beforeHuan)
    (hque : next.beforeQue → t.stage.beforeQue) {α : Type} (a : α) :
    Ends t 0 (.done (u.wait next) a) := by
  simp only [turnView, Prod.mk.injEq] at hview
  obtain ⟨hcfg, -, -, hdone, -, -, -, -, -, hp, hh, hq, hbreak⟩ := hview
  exact h.ends (phase_wait hne) (fun _ => timed_wait htimed) hcfg hbreak (.inl hdone)
    (fun hst => ⟨hpiao hst, congrFun hp⟩) (fun hst => ⟨hhuan hst, congrFun hh⟩)
    (fun hst => ⟨hque hst, hq⟩) a

theorem Pause.ends_huanPaiFinish (h : Pause t)
    (hview : u.turnView = (t.enter u.status).turnView) (hque : t.stage.beforeQue)
    {α : Type} (a : α) : Ends t 0 (.done u.statusHuanPaiFinish a) := by
  unfold statusHuanPaiFinish
  split
  · exact h.ends_wait hview rfl (by decide) (fun hb => absurd hb (by decide))
      (fun hb => absurd hb (by decide)) (fun _ => hque) a
  · simp only [turnView, Prod.mk.injEq] at hview
    obtain ⟨hcfg, -, -, hdone, -, -, -, -, -, -, -, -, hbreak⟩ := hview
    have hnever : ¬ Status.start.beforeQue ∧ ¬ Status.start.beforeHuan ∧
        ¬ Status.start.beforePiao := by decide
    refine h.ends (phase_wait ?_) (fun _ => timed_wait ?_) ?_ ?_ (.inl ?_)
      (fun hb => absurd hb hnever.2.2) (fun hb => absurd hb hnever.2.1)
      (fun hb => absurd hb hnever.1) a
    · decide
    · rfl
    · exact hcfg
    · exact hbreak
    · exact hdone

theorem beforeQue_of_beforeHuan {s : Status} (h : s.beforeHuan) : s.beforeQue := by
  revert h
  cases s <;> simp [Status.beforeHuan, Status.beforeQue]

theorem beforeHuan_of_beforePiao {s : Status} (h : s.beforePiao) : s.beforeHuan := by
  revert h
  cases s <;> simp [Status.beforeHuan, Status.beforePiao]

theorem Pause.ends_daPiaoFinish (h : Pause t)
    (hview : u.turnView = (t.enter u.status).turnView) (hhuan : t.stage.beforeHuan)
    {α : Type} (a : α) : Ends t 0 (.done u.statusDaPiaoFinish a) := by
  unfold statusDaPiaoFinish
  split
  · exact h.ends_wait hview rfl (by decide) (fun hb => absurd hb (by decide))
      (fun _ => hhuan) (fun _ => beforeQue_of_beforeHuan hhuan) a
  · exact h.ends_huanPaiFinish hview (beforeQue_of_beforeHuan hhuan) a

theorem Pause.ends_fapai (h : Pause t) (hpiao : t.stage.beforePiao) {α : Type} (a : α) :
    Ends t 0 (.done t.statusFapai a) := by
  have hview : (t.enter .fapai).fapaiNor.turnView = (t.enter .fapai).turnView :=
    fapaiNor_frame (fun _ _ _ => view_setSeat _ (fun _ => rfl) fun _ => rfl)
      (fun _ _ _ => rfl) _
  have hstatus : (t.enter .fapai).fapaiNor.status = .fapai := by
    simp only [turnView, Prod.mk.injEq] at hview
    exact hview.2.1
  have hhuan := beforeHuan_of_beforePiao hpiao
  have hsame : (t.enter .fapai).fapaiNor.turnView =
      (t.enter (t.enter .fapai).fapaiNor.status).turnView := by
    rw [hstatus]
    exact hview
  unfold statusFapai
  dsimp only
  split
  · exact h.ends_wait hsame rfl (by decide) (fun _ => hpiao)
      (fun _ => hhuan) (fun _ => beforeQue_of_beforeHuan hhuan) a
  · exact h.ends_daPiaoFinish hsame hhuan a

theorem Pause.ends_permitAll {status : Status} (h : Pause t) (hask : status.asks)
    (hpiao : status.beforePiao → t.stage.beforePiao)
    (hhuan : status.beforeHuan → t.stage.beforeHuan)
    (hque : status.beforeQue → t.stage.beforeQue) {α : Type} (a : α) :
    Ends t 0 (.done (t.permitAll status) a) := by
  have hwait : status ≠ .wait := by
    rintro rfl
    cases hask
  have hstage : (t.permitAll status).stage = status := if_neg hwait
  have hask' : (t.permitAll status).status.asks := hask
  refine h.ends (asks_phase hask').1 (fun htimed => htimed) rfl rfl (.inr hask') ?_ ?_ ?_ a
  · rw [hstage]
    exact fun hst => ⟨hpiao hst, fun _ => rfl⟩
  · rw [hstage]
    exact fun hst => ⟨hhuan hst, fun _ => rfl⟩
  · rw [hstage]
    exact fun hst => ⟨hque hst, rfl⟩

theorem Pause.ends_startCp (h : Pause t) : Ends t 0 t.startCp := by
  have hplay : t.phase ≠ .ended := by
    rw [h.1]
    decide
  unfold startCp
  dsimp only
  split
  · refine fun _ => turns_idle (fun ht => ?_) (fun _ => h.1) hplay rfl
    refine .of_turn (.inl rfl) ht.timed fun s hs hd => ?_
    have hflag := h.noFlags ht s hs
    simp only [enter] at hd
    rw [hflag] at hd
    cases hd
  · refine fun _ => ⟨0, turns_idle (fun ht => ?_) (fun _ => h.1) hplay rfl, rfl⟩
    exact .of_turn (.inl rfl) ht.timed (only_turn (h.noFlags ht) rfl rfl)

theorem ends_finishGame {s : Status} (h : ∀ fr, owning.Turns fr t 0 (u.enter s) 0) :
    Ends t 0 (u.finishGame s) := by
  unfold finishGame
  exact Ends.of_turns h (ends_ask fun _ v => ends_left (by rfl) ())

theorem ends_gameover (hu : t.phase ≠ .play) {s : Status} (hs : s.phase = .ended) :
    Ends t 0 (t.finishGame s) := by
  have hwait : s ≠ .wait := by
    rintro rfl
    cases hs
  refine ends_finishGame fun _ => turns_over ?_ hu (fun ht => ht) rfl rfl fun hb => hb
  exact (phase_of_status (t := t.enter s) rfl hwait).trans hs

theorem turns_untimed {fr : Share → Prop} {g g' : Share} (h : ¬ Timed t) :
    owning.Turns fr t g u g' :=
  ⟨trivial, fun _ _ hb => absurd hb.safe.timed h⟩

theorem ends_changeStatus {next : Status} (hw : t.status = .wait)
    (hn : t.nextStatus = some next) : Ends t 0 (t.changeStatus F next) := by
  have hstage : t.stage = next := by
    rw [stage, if_pos hw, hn]
    rfl
  have huntimed : next.timed = false → ¬ Timed t := by
    intro hoff htimed
    rw [htimed next hn] at hoff
    cases hoff
  have hpause := pause_wait hw hn
  cases next with
  | gameBegin =>
      exact (hpause (by decide)).ends_wait (u := t.enter .gameBegin) rfl rfl (by decide)
        (fun _ => by rw [hstage]; rfl) (fun _ => by rw [hstage]; rfl)
        (fun _ => by rw [hstage]; rfl) ()
  | touSezi =>
      exact (hpause (by decide)).ends (u := t.statusTouSezi)
        (phase_of_status (s := .touSezi) rfl (by decide)) (fun ht => ht) rfl rfl (.inl rfl)
        (fun _ => ⟨by rw [hstage]; rfl, fun _ => rfl⟩)
        (fun _ => ⟨by rw [hstage]; rfl, fun _ => rfl⟩)
        (fun _ => ⟨by rw [hstage]; rfl, rfl⟩) ()
  | fapai => exact (hpause (by decide)).ends_fapai (by rw [hstage]; rfl) ()
  | huanPai =>
      exact (hpause (by decide)).ends_permitAll rfl (fun hb => absurd hb (by decide))
        (fun _ => by rw [hstage]; rfl) (fun _ => by rw [hstage]; rfl) ()
  | huanPaiFinish =>
      exact (hpause (by decide)).ends_huanPaiFinish rfl (by rw [hstage]; rfl) ()
  | daPiao =>
      exact (hpause (by decide)).ends_permitAll rfl (fun _ => by rw [hstage]; rfl)
        (fun _ => by rw [hstage]; rfl) (fun _ => by rw [hstage]; rfl) ()
  | daPiaoFinish =>
      exact (hpause (by decide)).ends_daPiaoFinish rfl (by rw [hstage]; rfl) ()
  | dingQue =>
      exact (hpause (by decide)).ends_permitAll rfl (fun hb => absurd hb (by decide))
        (fun hb => absurd hb (by decide)) (fun _ => by rw [hstage]; rfl) ()
  | dingQueFinish =>
      exact (hpause (by decide)).ends_wait (u := t.enter .dingQueFinish) rfl rfl (by decide)
        (fun hb => absurd hb (by decide)) (fun hb => absurd hb (by decide))
        (fun hb => absurd hb (by decide)) ()
  | start => exact (hpause (by decide)).ends_startCp
  | gameover =>
      refine ends_gameover ?_ rfl
      rw [phase, if_pos ⟨hw, hn⟩]
      decide
  | gamecancel => exact ends_gameover (by rw [(hpause (by decide)).1]; decide) rfl
  | moPai => exact Ends.of_turns (fun _ => turns_untimed (huntimed rfl)) ends_statusMoPai
  | settlement => exact Ends.of_turns (fun _ => turns_untimed (huntimed rfl)) ends_settle
  | _ => exact ends_done (fun _ => turns_untimed (huntimed rfl)) ()

theorem ends_update : Ends t 0 (t.update F) := by
  unfold update
  split
  · next next hw hn => exact (ends_changeStatus hw hn).bind fun _ v => ends_left rfl 0
  · next hs =>
    refine Pause.ends_fapai ⟨phase_of_status hs (by decide), by rw [hs]; rfl⟩ ?_ 0
    rw [stage, hs]
    rfl
  · exact ends_left rfl 0

/-! ## Commands of the manager -/

theorem ends_readyCmd (hready : t.ready seat = 0 → t.pReady + 1 = t.cfg.seatCount →
    t.status = .waitP ∨ t.status = .ready) : Ends t 0 (t.readyCmd seat) := by
  unfold readyCmd
  split
  · next hseat =>
    dsimp only
    split
    · next hall =>
      have hs := hready hseat hall
      have hpause : Pause t := by
        rcases hs with hs | hs
        · exact ⟨phase_of_status hs (by decide), by rw [hs]; rfl⟩
        · exact ⟨phase_of_status hs (by decide), by rw [hs]; rfl⟩
      have hpiao : t.stage.beforePiao := by
        rw [stage]
        rcases hs with hs | hs <;> rw [hs] <;> rfl
      have hhuan := beforeHuan_of_beforePiao hpiao
      refine hpause.ends_wait ?_ rfl (by decide) (fun _ => hpiao) (fun _ => hhuan)
        (fun _ => beforeQue_of_beforeHuan hhuan) 0
      rfl
    · exact ends_left (by rfl) 0
  · exact ends_left rfl 0

theorem ends_cancelGame : Ends t 0 t.cancelGame := by
  unfold cancelGame
  split
  · exact ends_left rfl _
  · next hs =>
    refine (ends_gameover ?_ rfl).bind fun _ v => ends_left rfl 0
    rw [phase_of_status (not_not.mp hs) (by decide)]
    decide

theorem turns_marked {fr : Share → Prop} :
    owning.Turns fr t 0 { t with isBreakGame := true } (0, 1) :=
  turns_break (fun h => ⟨h.timed, h.safe, h.claims, h.robs, h.piao, h.huan, h.que⟩) rfl rfl rfl
    (.inl rfl)

theorem ends_breakGame : Ends t 0 (t.breakGame F) := by
  unfold breakGame
  split
  · exact ends_left rfl _
  · dsimp only
    split
    · next hready =>
      have hphase : t.phase ≠ .play := by
        rw [phase_of_status (t := t) (s := .ready) hready (by decide)]
        decide
      refine Ends.bind (ends_finishGame fun _ => ?_) fun _ v => ends_left rfl 0
      exact turns_over (phase_of_status (s := .gameover) rfl (by decide)) hphase
        (fun ht => ht) rfl rfl fun _ => rfl
    · split
      · refine Ends.bind ?_ fun _ v => ends_left rfl 0
        have hover : (({ t with
            isBreakGame := true
            isBreakRace := true } : Table).enter .settlement).phase = .ended :=
          phase_of_status (s := .settlement) rfl (by decide)
        refine Ends.of_turns (fun _ => turns_break (fun ht => ?_) ?_ ?_ ?_ (.inr hover))
          ends_statusSettlement
        · exact .of_over ht.timed hover
        · rfl
        · rfl
        · rfl
      · exact ends_done (fun _ => turns_marked.trans turns_drop) 0

theorem ends_forceBreakGame : Ends t 0 t.forceBreakGame := by
  unfold forceBreakGame
  refine Ends.of_turns (fun _ => turns_marked) (ends_saveRaceOverLog fun v => ?_)
  refine Ends.of_view (u := v.sendSettlement fun _ => 0) (ends_done (fun _ => ?_) 0) rfl
  exact turns_closed (if_pos ⟨rfl, rfl⟩) (fun _ => timed_wait rfl) rfl rfl rfl

theorem ends_handle {ev : Event} (hev : Heard t ev) : Ends t 0 (t.handle F ev) := by
  obtain ⟨hplayer, hready⟩ := hev
  cases ev with
  | join id seat score =>
      change Ends t 0 (t.join id seat score)
      unfold join
      split
      · exact ends_left rfl _
      · split
        · exact ends_left rfl _
        · exact ends_left (by rfl) 0
  | playerExitGame seat =>
      change Ends t 0 (t.playerExitGame seat)
      unfold playerExitGame
      split
      · exact ends_raised rfl
      · exact ends_left (by rfl) 0
  | ready seat => exact ends_readyCmd hready
  | daPiao seat n => exact ends_daPiao
  | dingQue seat c => exact ends_dingQue
  | huanSanZhang seat old => exact ends_huanSanZhang
  | chuPai seat pai => exact ends_chuPai (hplayer seat rfl).1
  | guoPai seat => exact ends_guoPai (hplayer seat rfl).1
  | pengPai seat pai => exact ends_pengPai (hplayer seat rfl).1
  | gangPai seat type pai => exact ends_gangPai (hplayer seat rfl).1 (hplayer seat rfl).2
  | huPai seat => exact ends_huPai (hplayer seat rfl).1 (hplayer seat rfl).2
  | quitRoom seat =>
      change Ends t 0 (t.quitRoom seat)
      unfold quitRoom
      split
      · exact ends_left (by rfl) 0
      · exact ends_left rfl 0
  | cancelGame => exact ends_cancelGame
  | breakGame => exact ends_breakGame
  | overTimeCancelGame =>
      change Ends t 0 (t.overTimeCancelGame F)
      unfold overTimeCancelGame
      split
      · exact ends_cancelGame
      · exact ends_breakGame
  | forceBreakGame => exact ends_forceBreakGame
  | update => exact ends_update

theorem ends_step {e : Event × (Nat → Nat)} (he : Rand Heard t e) :
    Ends t 0 (Table.step F e t) := by
  by_cases hrefuse : Refuses t e
  · obtain ⟨u, hstep, ρ, rfl⟩ := step_of_refuses (F := F) hrefuse
    rw [hstep]
    exact ends_left (by rfl) _
  · have hin : ¬ (t.gone ∨ t.hung) := fun hin => hrefuse (or_assoc.mp (.inl hin))
    unfold Table.step
    rw [if_neg hin]
    exact (ends_handle (he hrefuse)).of_view rfl

theorem turnSafe_newTable (cfg : Config) (ρ : Nat → Nat) : TurnSafe (newTable cfg ρ) where
  timed := by simp [Timed, newTable, newGame]
  safe _ _ _ hd := by cases hd
  claims hs := by cases hs
  robs hs := by cases hs
  piao _ _ _ _ := rfl
  huan _ _ _ _ := rfl
  que _ _ _ _ := rfl

theorem turnSafe_of_reachable {cfg : Config} {ρ : Nat → Nat} {w : MjWorld}
    (hw : Reachable F cfg ρ (Free Heard fun _ => True) w) : TurnSafe w.state := by
  have howned : w.Owned owning := by
    refine Reach.invariant (P := World.Owned owning) ?_ (fun v i hv hi => ?_) hw
    · refine ⟨trivial, [], ?_, .nil⟩
      exact ⟨turnSafe_newTable cfg ρ, by simp, by simp, by simp, by simp⟩
    · refine hv.step (fun t e _ (he : Rand Heard t e) => ends_step he _) ?_
        fun _ _ _ _ _ _ _ _ _ _ => trivial
      cases i with
      | command e => exact hi
      | answer j a => exact ⟨trivial, fun _ _ => trivial⟩
  obtain ⟨-, gs, hbears, -⟩ := howned
  exact hbears.safe

end Commands

section Refusals

variable {F : NumFormat} {t : Table}

theorem handle_of_unflagged {ev : Event} {seat : Nat} (hev : ev.player = some seat)
    (hd : t.pActionDone seat = false) : t.handle F ev = .done t 1002 := by
  have hmay : ∀ statuses, t.mayDo statuses seat = false := by
    intro statuses
    simp [mayDo, hd]
  cases ev <;> cases hev
  all_goals
    simp only [handle, chuPai, guoPai, pengPai, gangPai, huPai, hmay]
    rfl

theorem handle_of_not_holder {ev : Event} {seat : Nat} (hev : ev.player = some seat)
    (hs : seat ∈ t.cfg.seatList) (ht : TurnSafe t) (hholder : ¬ Holder t seat) :
    t.handle F ev = .done t 1002 := by
  by_cases hplay : t.phase = .play
  · refine handle_of_unflagged hev (Bool.eq_false_of_not_eq_true fun hd => ?_)
    rcases ht.safe (by rw [hplay]; decide) seat hs hd with hh | hask
    · exact hholder hh
    · rw [(asks_phase hask).1] at hplay
      cases hplay
  · have hmay : ∀ statuses : List Status, (∀ s ∈ statuses, s ≠ .wait ∧ s.phase = .play) →
        t.mayDo statuses seat = false := by
      intro statuses hall
      refine Bool.eq_false_of_not_eq_true fun hmay => hplay ?_
      exact phase_of_mem (mayDo_iff.mp hmay).1 hall
    cases ev <;> cases hev
    · simp only [handle, chuPai, hmay [.start, .cp, .moPai] (by decide)]
      rfl
    · simp only [handle, guoPai, hmay [.pengGangHu, .qiangGangHu] (by decide)]
      rfl
    · simp only [handle, pengPai, hmay [.pengGangHu] (by decide)]
      rfl
    · simp only [handle, gangPai, hmay [.pengGangHu, .moPai, .start, .cp] (by decide)]
      rfl
    · simp only [handle, huPai, hmay [.pengGangHu, .qiangGangHu, .moPai, .start] (by decide)]
      rfl

end Refusals

/-- Only a seat that holds a permission has a flag, and the commands of all others are
refused, whatever waits and in whatever order they come. -/
theorem Reachable.only_holders_play {F : NumFormat} {cfg : Config} {ρ : Nat → Nat}
    {w : MjWorld} (hw : Reachable F cfg ρ (Free Heard fun _ => True) w) {seat : Nat}
    (hs : seat ∈ w.state.cfg.seatList) :
    (w.state.pActionDone seat →
      Holder w.state seat ∨ w.state.status.asks ∨ w.state.phase = .ended) ∧
    ∀ ev, ev.player = some seat →
      ¬ Holder w.state seat ∨ w.state.pActionDone seat = false →
      w.state.handle F ev = .done w.state 1002 := by
  have hsafe := turnSafe_of_reachable hw
  refine ⟨fun hd => ?_, fun ev hev hother => ?_⟩
  · by_cases hover : w.state.phase = .ended
    · exact .inr (.inr hover)
    · exact (hsafe.safe hover seat hs hd).imp_right .inl
  · rcases hother with hholder | hanswered
    · exact handle_of_not_holder hev hs hsafe hholder
    · exact handle_of_unflagged hev hanswered

/-! ## A flag that is left over -/

def earlyConfig : Config := { algo := plainAlgo }

def earlyTiles : List Nat :=
  dealOrder
    [[18, 25, 25, 12, 13, 15, 17, 19, 21, 23, 24, 26, 28],
     [18, 18, 11, 11, 11, 11, 31, 32, 33, 34, 35, 36, 37],
     [12, 13, 14, 15, 16, 17, 21, 22, 23, 27, 28, 29, 18],
     [12, 14, 16, 19, 22, 23, 24, 26, 27, 28, 29, 13, 16]]
    [29, 25]

def heardRun : List (Input (Event × (Nat → Nat)) Answer) :=
  opening (fun _ => 100) (fun _ => 3) ++ [cmd (.chuPai 1 18), cmd (.guoPai 3)]

def earlyRun : List (Input (Event × (Nat → Nat)) Answer) :=
  opening (fun _ => 100) (fun _ => 3) ++
  [cmd (.chuPai 1 18), cmd (.huPai 3), ans 0, ans 0, cmd (.chuPai 4 25), cmd (.pengPai 1 25)]

def lateKong : List (Input (Event × (Nat → Nat)) Answer) :=
  [cmd (.gangPai 2 .ag 11), ans 0, ans 0, ans 0]

theorem heardRun_allowed :
    Allowed (World.step (Table.step .exact)) (Free Heard fun _ => True)
        ⟨newTable earlyConfig (rig .xzdd earlyTiles), []⟩ heardRun ∧
      (after earlyConfig (rig .xzdd earlyTiles) heardRun).state.cfg.seatList = [1, 2, 3, 4] ∧
      (after earlyConfig (rig .xzdd earlyTiles) heardRun).state.pActionDone 2 ∧
      (after earlyConfig (rig .xzdd earlyTiles) heardRun).state.pActionDone 3 = false := by
  rw [after, newTable_rig _ .xzdd earlyTiles rfl (by decide +kernel)]
  decide +kernel

/-- The second seat may still answer; the third one has. -/
theorem only_holders_play_heardRun :
    ((after earlyConfig (rig .xzdd earlyTiles) heardRun).state.pActionDone 2 ∧
      (Holder (after earlyConfig (rig .xzdd earlyTiles) heardRun).state 2 ∨
        (after earlyConfig (rig .xzdd earlyTiles) heardRun).state.status.asks ∨
        (after earlyConfig (rig .xzdd earlyTiles) heardRun).state.phase = .ended)) ∧
    (after earlyConfig (rig .xzdd earlyTiles) heardRun).state.handle .exact (.huPai 3) =
      .done (after earlyConfig (rig .xzdd earlyTiles) heardRun).state 1002 := by
  obtain ⟨hallowed, hseats, hflag, hanswered⟩ := heardRun_allowed
  have hreach : Reachable .exact earlyConfig (rig .xzdd earlyTiles) (Free Heard fun _ => True)
      (after earlyConfig (rig .xzdd earlyTiles) heardRun) := reach_run hallowed
  generalize after earlyConfig (rig .xzdd earlyTiles) heardRun = w at *
  have htwo := hreach.only_holders_play
    (show 2 ∈ w.state.cfg.seatList by rw [hseats]; decide)
  have hthree := hreach.only_holders_play
    (show 3 ∈ w.state.cfg.seatList by rw [hseats]; decide)
  exact ⟨⟨hflag, htwo.1 hflag⟩, hthree.2 (.huPai 3) rfl (.inr hanswered)⟩

theorem earlyRun_allowed :
    Allowed (World.step (Table.step .exact)) (Free (fun _ _ => True) fun _ => True)
        ⟨newTable earlyConfig (rig .xzdd earlyTiles), []⟩ earlyRun ∧
      (after earlyConfig (rig .xzdd earlyTiles) earlyRun).state.status = .cp ∧
      (after earlyConfig (rig .xzdd earlyTiles) earlyRun).state.curP = 1 ∧
      (after earlyConfig (rig .xzdd earlyTiles) earlyRun).state.pActionDone 2 ∧
      ((after earlyConfig (rig .xzdd earlyTiles) (earlyRun ++ lateKong)).state.seat 2).pgType
        11 = some .ag ∧
      (after earlyConfig (rig .xzdd earlyTiles) (earlyRun ++ lateKong)).state.curP = 2 := by
  rw [after, after, newTable_rig _ .xzdd earlyTiles rfl (by decide +kernel)]
  decide +kernel

theorem not_holder {t : Table} {s : Nat} (hstatus : t.status = .cp) (hs : s ≠ t.curP) :
    ¬ Holder t s := by
  unfold Holder
  rw [hstatus]
  exact hs

/-- The first seat has to discard, and the second one makes a kong. -/
theorem late_seat_plays :
    Reachable .exact earlyConfig (rig .xzdd earlyTiles) (Free (fun _ _ => True) fun _ => True)
        (after earlyConfig (rig .xzdd earlyTiles) earlyRun) ∧
      (after earlyConfig (rig .xzdd earlyTiles) earlyRun).state.pActionDone 2 ∧
      (after earlyConfig (rig .xzdd earlyTiles) earlyRun).state.status = .cp ∧
      ¬ Holder (after earlyConfig (rig .xzdd earlyTiles) earlyRun).state 2 ∧
      ((after earlyConfig (rig .xzdd earlyTiles) (earlyRun ++ lateKong)).state.seat 2).pgType
        11 = some .ag ∧
      (after earlyConfig (rig .xzdd earlyTiles) (earlyRun ++ lateKong)).state.curP = 2 := by
  obtain ⟨hallowed, hstatus, hcur, hflag, hkong, hturn⟩ := earlyRun_allowed
  exact ⟨reach_run hallowed, hflag, hstatus, not_holder hstatus (hcur ▸ by decide), hkong,
    hturn⟩

end Table

end JyQipai.Mj
