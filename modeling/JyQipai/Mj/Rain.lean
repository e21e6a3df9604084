import JyQipai.Mj.Hand

/-!
# Rain transfers

A seat that makes a kong, draws and discards a tile that exactly one seat can win
on is noted in `zhuan_yu_seat`; the winner then gets the money of its last kong.
The note stays when the seat lets the win pass, and is read at the end of every
`CMD.hu_pai`.
-/

namespace JyQipai.Mj

open JyQipai.Lib

structure Transfer.Rightful (tr : Transfer) : Prop where
  pao : tr.huType = .pao
  src : tr.dianpaoP = some tr.src
  kong : isGangshangpao tr.acts tr.src

theorem isGangshangpao_append (acts : List Act) {act : Act} (h : act.type = .cp) :
    isGangshangpao (acts ++ [act]) act.p = isGangshanghua acts act.p := by
  unfold isGangshangpao isGangshanghua
  rw [List.reverse_append, List.reverse_singleton, List.singleton_append]
  rcases acts.reverse with _ | ⟨a2, _ | ⟨a3, l⟩⟩
  · rfl
  · rfl
  · simp [h]

namespace Table

def lastCp? (t : Table) : Option Act := t.actionList.getLast?.filter fun a => a.type = .cp

structure Rain (t : Table) : Prop where
  timed : Timed t
  flagged : ∀ g, t.zhuanYuSeat = some g → ∀ a, t.lastCp? = some a →
    a.p = g ∧ isGangshangpao t.actionList g
  rob : t.status = .qiangGangHu → t.lastCp? = none
  fair : ∀ tr ∈ t.transfers, tr.Rightful

def rainView (t : Table) :=
  (t.zhuanYuSeat, t.actionList, t.transfers, t.status, t.nextStatus)

def noteView (t : Table) : Config × Option Nat × (Nat → List Gang) :=
  (t.cfg, t.zhuanYuSeat, fun s => (t.sInfo s).gangScore)

def pending (t : Table) : Option (Nat × Gang) :=
  if t.cfg.zhuanYu then
    t.zhuanYuSeat.bind fun g => (t.sInfo g).gangScore.getLast?.map fun gang => (g, gang)
  else none

section Rain

variable {F : NumFormat} {t u : Table} {T : Table → Prop}

theorem Rain.of_view (h : Rain t) (hv : u.rainView = t.rainView) : Rain u := by
  simp only [rainView, Prod.mk.injEq] at hv
  obtain ⟨hz, ha, htr, hs, hn⟩ := hv
  have hcp : u.lastCp? = t.lastCp? := by rw [lastCp?, lastCp?, ha]
  refine ⟨?_, ?_, ?_, ?_⟩
  · rw [Timed, hn]
    exact h.timed
  · rw [hz, ha, hcp]
    exact h.flagged
  · rw [hs, hcp]
    exact h.rob
  · rw [htr]
    exact h.fair

theorem Rain.addAct (h : Rain t) {act : Act} (ha : act.type ≠ .cp) : Rain (t.addAct act) := by
  have hcp : (t.addAct act).lastCp? = none := by
    simp [lastCp?, Table.addAct, ha]
  refine { h with flagged := fun g _ a hlast => ?_, rob := fun _ => hcp }
  rw [hcp] at hlast
  cases hlast

theorem Rain.enter (h : Rain t) {s : Status} (hs : s ≠ .qiangGangHu) : Rain (t.enter s) :=
  { h with rob := fun heq => absurd heq hs }

theorem Rain.wait (h : Rain t) {s : Status} (hs : s.timed) : Rain (t.wait s) := by
  refine { h with timed := fun next hnext => ?_, rob := fun heq => by cases heq }
  obtain rfl := Option.some.inj hnext
  exact hs

/-- What is known besides the invariant: it depends on the note and the kongs
only, and holds when there is no note. -/
structure Noted (T : Table → Prop) : Prop where
  view : ∀ {t u}, u.noteView = t.noteView → T t → T u
  none : ∀ {t}, t.zhuanYuSeat = none → T t

def Rains (T : Table → Prop) (t : Table) : Prop := Rain t ∧ T t

theorem Rains.same (hT : Noted T) (h : Rains T t) (hv : u.rainView = t.rainView)
    (hn : u.noteView = t.noteView) : Rains T u :=
  ⟨h.1.of_view hv, hT.view hn h.2⟩

theorem Rains.addAct (hT : Noted T) (h : Rains T t) (act : Act) (ha : act.type ≠ .cp) :
    Rains T (t.addAct act) :=
  ⟨h.1.addAct ha, hT.view (t := t) rfl h.2⟩

theorem Rains.enter (hT : Noted T) (h : Rains T t) {s : Status} (hs : s ≠ .qiangGangHu) :
    Rains T (t.enter s) :=
  ⟨h.1.enter hs, hT.view (t := t) rfl h.2⟩

theorem noteView_book (t : Table) (race s : Nat) (m n : Int) :
    (t.book race s m n).noteView = t.noteView := by
  have hgang : (fun x => ((t.book race s m n).sInfo x).gangScore) =
      fun x => (t.sInfo x).gangScore := by
    funext x
    by_cases hx : x = s
    · subst hx
      simp [book]
    · simp [book, hx]
  rw [noteView, hgang]
  rfl

theorem Rains.book (hT : Noted T) (h : Rains T t) (race s : Nat) (m n : Int) :
    Rains T (t.book race s m n) :=
  h.same hT rfl (noteView_book t race s m n)

abbrev RainSat (Q : Table → Prop) (p : M α) : Prop :=
  Sat Rerolled (fun _ => True) Rain Rain (fun _ => Q) p

theorem steady_rains (hT : Noted T) : Steady Rerolled (fun _ => True) Rain Rain (Rains T) :=
  .of_rand (fun h => h.1) (fun h => h.1) fun _ h => h.same hT rfl rfl

theorem Rains.nextGame (hT : Noted T) (h : Rains T t) : Rains T t.nextGame := by
  unfold Table.nextGame
  split
  · exact ⟨h.1.wait rfl, hT.view (t := t) rfl h.2⟩
  · refine ⟨⟨h.1.timed, fun g hg => ?_, fun hs => ?_, h.1.fair⟩, hT.none rfl⟩
    · cases hg
    · rfl

theorem Rains.settleGenDatas (hT : Noted T) (h : Rains T t) : Rains T t.settleGenDatas := by
  refine h.same hT rfl ?_
  simp only [noteView, Table.settleGenDatas, Prod.mk.injEq, true_and]
  funext s
  split <;> rfl

theorem rains_settle (hT : Noted T) (h : Rains T t) : RainSat (Rains T) (settle F t) := by
  have henter := h.enter hT (s := .settlement) (by decide)
  refine sat_settle (steady_rains hT) (fun _ _ => trivial)
    (fun _ _ _ _ _ hu => hu.book hT _ _ _ _) henter.1 (henter.settleGenDatas hT)
    (fun hu => ?_) fun hu _ => Rains.nextGame hT (hu.same hT rfl rfl)
  have hbroke := hu.same hT (u := Table.settleBankrupt _) rfl rfl
  refine ⟨hbroke.1, fun ρ hv _ => ?_⟩
  obtain ⟨ρ', rfl⟩ := hv
  refine Rains.nextGame hT ?_
  exact hbroke.same hT rfl rfl

/-! ## Turns and melds -/

theorem Rains.draw (hT : Noted T) (h : Rains T t) : Rains T t.draw.2 := by
  have hpop : ∀ {t : Table}, Rains T t → Rains T t.popPai.2 := by
    intro t h
    unfold popPai
    split
    · exact h
    · split
      · exact h
      · exact h.same hT rfl rfl
  have hignore : Rains T { t with
      pIgnoreHu := Function.update t.pIgnoreHu t.curP none } := h.same hT rfl rfl
  exact (hpop hignore).same hT rfl rfl

theorem Rains.drawn (hT : Noted T) (h : Rains T t) (pai : Nat) : Rains T (t.drawn pai) := by
  have hgain : Rains T { t.gain t.curP pai with
      pMopaiCount := Function.update t.pMopaiCount t.curP (t.pMopaiCount t.curP + 1) } :=
    h.same hT rfl rfl
  have hact := hgain.addAct hT { type := .moPai, p := t.curP, pai := pai } (by simp)
  exact hact.same hT rfl rfl

theorem rains_statusMoPai (hT : Noted T) (h : Rains T t) :
    RainSat (Rains T) (statusMoPai F t) := by
  have hmo := h.enter hT (s := .moPai) (by decide)
  unfold statusMoPai
  dsimp only
  split
  · exact rains_settle hT hmo
  · generalize decide ((_ : Nat) ≤ _) = isOver
    have hcheck : Rains T ((t.enter .moPai).noteCheck isOver) := hmo.same hT rfl rfl
    split
    · exact rains_settle hT hcheck
    · have hdraw := hcheck.draw hT
      split
      · next u hu =>
        rw [hu] at hdraw
        exact rains_settle hT hdraw
      · next pai u hu =>
        rw [hu] at hdraw
        exact hdraw.drawn hT pai

theorem rains_dealGuo (hT : Noted T) (h : Rains T t) : RainSat (Rains T) (dealGuo F t) := by
  unfold dealGuo
  split
  · exact h.1
  · dsimp only
    split
    · exact (h.same hT (u := { t.setPermit _ {} with hung := true }) rfl rfl).1
    · exact rains_statusMoPai hT (h.same hT rfl rfl)

theorem rains_movePaiForPg (hT : Noted T) (h : Rains T t) {s pai : Nat} {type : PgType}
    {k : Table → M α} {Q : Table → Prop} (hk : ∀ u, Rains T u → RainSat Q (k u)) :
    RainSat Q (t.movePaiForPg s pai type k) := by
  unfold movePaiForPg
  split
  · exact h.1
  · exact hk _ (h.same hT rfl rfl)

theorem rains_dealPengPai (hT : Noted T) (h : Rains T t) {act : Act} (ha : act.type ≠ .cp) :
    RainSat (Rains T) (t.dealPengPai act) := by
  refine rains_movePaiForPg hT h fun u hu => ?_
  have hpermit : Rains T (u.setPermit act.p {}) := hu.same hT rfl rfl
  have hact := hpermit.addAct hT act ha
  have hcur : Rains T { (u.setPermit act.p {}).addAct act with curP := act.p } :=
    hact.same hT rfl rfl
  exact (hcur.enter hT (s := .cp) (by decide)).same hT rfl rfl

theorem rains_gangDone (hT : Noted T) (h : Rains T t) {act : Act} (ha : act.type ≠ .cp)
    {type : PgType} : RainSat (Rains T) (gangDone F t act type) := by
  refine rains_movePaiForPg hT h fun u hu => ?_
  exact rains_statusMoPai hT ((hu.addAct hT act ha).same hT rfl rfl)

/-! ## Wins -/

theorem Rains.win (hT : Noted T) (h : Rains T t) (a : HuAct) : Rains T (t.win a) := by
  unfold Table.win
  dsimp only
  split
  · exact h.same hT rfl rfl
  · exact h.same hT rfl rfl
  · exact h.same hT rfl rfl

theorem Rains.setHu (hT : Noted T) (h : Rains T t) (a : HuAct) : Rains T (t.setHu a) := by
  refine h.same hT rfl ?_
  simp only [noteView, Table.setHu, Prod.mk.injEq, true_and]
  funext s
  by_cases hs : s = a.p
  · subst hs
    simp
  · simp [hs]

theorem rains_dealChangeScore (hT : Noted T) (h : Rains T t) {race seat : Nat} {total : ℚ}
    {others : List Nat} {type : PayType} {k : Int → Int → Table → M α} {Q : Table → Prop}
    (hk : ∀ m n u, Rains T u → RainSat Q (k m n u)) :
    RainSat Q (dealChangeScore F t race seat total others type k) :=
  sat_dealChangeScore (steady_rains hT) (fun _ _ => trivial)
    (fun _ _ hu => hu.book hT _ _ _ _) (fun hu _ => hu) hk h

theorem rains_dealHuLoop (hT : Noted T) {race : Nat} {actions : Nat → Option HuAct}
    {k : Table → M Unit} (hk : ∀ u, Rains T u → RainSat (Rains T) (k u)) (n : Nat)
    (s : Option Nat) (h : Rains T t) :
    RainSat (Rains T) (dealHuLoop F race actions k n s t) := by
  induction n generalizing s t with
  | zero => exact hk t h
  | succ n ih =>
      cases s with
      | none => exact h.1
      | some s =>
          unfold dealHuLoop
          split
          · exact ih _ h
          · next a _ =>
            refine rains_dealChangeScore hT (h.win hT a) fun _ _ u hu => ?_
            exact ih _ ((hu.setHu hT a).addAct hT _ (by simp [HuAct.act]))

theorem rains_dealHu (hT : Noted T) (h : Rains T t) {race : Nat}
    {actions : Nat → Option HuAct} : RainSat (Rains T) (dealHu F t race actions) := by
  unfold dealHu
  split
  · exact h.1
  · refine rains_dealHuLoop hT (fun u hu => ?_) _ _ h
    dsimp only
    generalize decide ((_ : Nat) ≤ _) = isOver
    have hcheck : Rains T (u.dealGameBankrupt.noteCheck isOver) := hu.same hT rfl rfl
    split
    · exact rains_settle hT hcheck
    · exact rains_dealGuo hT hcheck

theorem lastCp?_unGang (t : Table) (act : Act) (h : t.lastCp? = none) :
    (t.unGang act).lastCp? = none := by
  unfold lastCp? at h ⊢
  rw [show (t.unGang act).actionList = t.actionList.map fun a =>
    if a = act then { a with type := .pg .peng } else a from rfl, List.getLast?_map]
  cases hlast : t.actionList.getLast? with
  | none => rfl
  | some a =>
      rw [hlast] at h
      have ha : a.type ≠ .cp := by simpa using h
      have hmap : (if a = act then { a with type := .pg .peng } else a).type ≠ .cp := by
        split
        · simp
        · exact ha
      rw [Option.map_some, Option.filter_some, if_neg (by simpa using hmap)]

theorem Rains.unGang (hT : Noted T) (h : Rains T t) (hlast : t.lastCp? = none) (act : Act) :
    Rains T (t.unGang act) := by
  have hcp := lastCp?_unGang t act hlast
  refine ⟨⟨h.1.timed, fun g _ a ha => ?_, fun _ => hcp, h.1.fair⟩, hT.view (t := t) rfl h.2⟩
  rw [hcp] at ha
  cases ha

/-! ## Claims -/

theorem rain_noted : Noted fun _ => True := ⟨fun _ _ => trivial, fun _ => trivial⟩

theorem rain_recordGangScore (h : Rain t) {race seat : Nat} {type : PgType} {pai : Nat}
    {others : List Nat} {k : Table → M α} (hk : ∀ u, Rain u → RainSat Rain (k u)) :
    RainSat Rain (t.recordGangScore F race seat type pai others k) := by
  unfold recordGangScore
  split
  · exact hk t h
  · refine rains_dealChangeScore rain_noted ⟨h, trivial⟩ fun _ _ u hu => ?_
    exact hk _ (hu.1.of_view rfl)

theorem rain_of_rains {p : M α} (h : RainSat (Rains fun _ => True) p) : RainSat Rain p :=
  h.mono (fun _ => id) fun _ _ hu => hu.1

theorem rain_dealGang (h : Rain t) {race : Nat} {act : Act} (ha : act.type ≠ .cp)
    {type : PgType} : RainSat Rain (dealGang F t race act type) := by
  have hdone : ∀ u, Rain u → RainSat Rain (gangDone F u act type) :=
    fun u hu => rain_of_rains (rains_gangDone rain_noted ⟨hu, trivial⟩ ha)
  unfold dealGang
  split
  · split
    · exact h
    · exact rain_recordGangScore h hdone
  · exact rain_recordGangScore h hdone

theorem rain_dealWGangFinish (h : Rain t) {race : Nat} {act : Act} :
    RainSat Rain (dealWGangFinish F t race act) := by
  have hmo : ∀ u, Rain u → RainSat Rain (statusMoPai F { u with curP := act.p }) :=
    fun u hu => rain_of_rains (rains_statusMoPai rain_noted ⟨hu.of_view rfl, trivial⟩)
  unfold dealWGangFinish
  dsimp only
  split
  · exact hmo t h
  · exact rain_recordGangScore h hmo

theorem rain_dealWGang (h : Rain t) {race : Nat} {act : Act} (ha : act.type ≠ .cp) :
    RainSat Rain (dealWGang F t race act) := by
  refine rains_movePaiForPg rain_noted ⟨h, trivial⟩ fun u hu => ?_
  have hact : Rain (u.addAct act) := hu.1.addAct ha
  have hrob : Rain (u.wGangMoved act).offerRob := hact.of_view rfl
  dsimp only
  split
  · exact rain_dealWGangFinish hrob
  · refine { hrob with rob := fun _ => ?_ }
    simp [lastCp?, offerRob, wGangMoved, Table.addAct, ha]

theorem rain_qiangGangHuManager (h : Rain t) (hlast : t.lastCp? = none) {race p : Nat}
    {hu : Option HuAct} : RainSat Rain (t.qiangGangHuManager F race p hu) := by
  have hnote : Rain (t.noteRob p hu) := h.of_view rfl
  unfold qiangGangHuManager
  dsimp only
  split
  · split
    · exact hnote
    · next act _ =>
      refine Prog.Sat.bind ?_ fun _ u (hu : Rain u) => hu.of_view rfl
      split
      · have hback := Rains.unGang rain_noted ⟨hnote, trivial⟩ hlast act
        exact rain_of_rains (rains_dealHu rain_noted hback)
      · exact rain_dealWGangFinish hnote
  · exact hnote

theorem rains_qiangGangHuManager (hT : Noted T) (h : Rains T t) (hlast : t.lastCp? = none)
    {race p : Nat} (hp : p ∈ t.cfg.seatList) {a : HuAct} :
    RainSat (Rains T) (t.qiangGangHuManager F race p (some a)) := by
  have hnote : Rains T (t.noteRob p (some a)) := h.same hT rfl rfl
  have hwin : ((t.noteRob p (some a)).cfg.seatList.any fun s =>
      ((t.noteRob p (some a)).qghManagerWaitHu s).isSome) = true :=
    List.any_eq_true.mpr ⟨p, hp, by simp [noteRob]⟩
  unfold qiangGangHuManager
  dsimp only
  split
  · split
    · exact hnote.1
    · next act _ =>
      refine Prog.Sat.bind ?_ fun _ u (hu : Rains T u) => hu.same hT rfl rfl
      exact rains_dealHu hT (hnote.unGang hT hlast act)
  · exact hnote

theorem rain_pengGangHuManager (h : Rain t) {race : Nat} {c : Claim} :
    RainSat Rain (t.pengGangHuManager F race c) := by
  have hnote : Rain (t.noteClaim c) := by
    cases c with
    | hu a => exact h.of_view rfl
    | pg act => exact h.of_view rfl
    | guo p => exact h.of_view rfl
  have hrains : Rains (fun _ => True) (t.noteClaim c) := ⟨hnote, trivial⟩
  unfold pengGangHuManager
  dsimp only
  split
  · refine Prog.Sat.bind ?_ fun _ u (hu : Rain u) => hu.of_view rfl
    split
    · exact rain_of_rains (rains_dealHu rain_noted hrains)
    · split
      · next act _ =>
        split
        · next hpeng =>
          exact rain_of_rains (rains_dealPengPai rain_noted hrains (by simp [hpeng]))
        · split
          · next type htype => exact rain_dealGang hnote (by simp [htype])
          · exact hnote
      · exact rain_of_rains (rains_dealGuo rain_noted hrains)
  · exact hnote

theorem rains_pengGangHuManager (hT : Noted T) (h : Rains T t) {race : Nat} {a : HuAct}
    (ha : a.p ∈ t.cfg.seatList) :
    RainSat (Rains T) (t.pengGangHuManager F race (.hu a)) := by
  have hnote : Rains T (t.noteClaim (.hu a)) := h.same hT rfl rfl
  have hwin : ((t.noteClaim (.hu a)).cfg.seatList.any fun s =>
      ((t.noteClaim (.hu a)).waitHuActions s).isSome) = true :=
    List.any_eq_true.mpr ⟨a.p, ha, by simp [noteClaim]⟩
  unfold pengGangHuManager
  dsimp only
  split
  · refine Prog.Sat.bind ?_ fun _ u (hu : Rains T u) => hu.same hT rfl rfl
    exact rains_dealHu hT hnote
  · exact hnote

/-! ## Commands -/

def WinsOnDiscard (t : Table) (seat : Nat) : Prop :=
  ∃ hu ∈ (t.pPermit seat).bind Permit.hu, ∃ a ∈ t.lastCp?,
    hu.dianpaoP = some a.p ∧ hu.qiangganghu = false

/-- While a transfer is due, only wins on the last discard are announced; kongs are
robbed while that is asked for; a seat whose kong is remembered discards right after
the kong and the draw. -/
def RainOk (t : Table) : Event → Prop
  | .chuPai seat _ => t.lastGangSeat = some seat → isGangshanghua t.actionList seat
  | .huPai seat => seat ∈ t.cfg.seatList ∧
      (t.pending.isSome → WinsOnDiscard t seat) ∧
      ((∃ hu ∈ (t.pPermit seat).bind Permit.hu, huTypeOf hu = .qghu) →
        t.status = .qiangGangHu)
  | _ => True

theorem Rain.discard (h : Rain t) {seat : Nat} (pai : Nat) (n : Int)
    (hkong : t.lastGangSeat = some seat → isGangshanghua t.actionList seat)
    (cs : List (Nat × Permit)) :
    Rain ((((t.discard seat pai n).enter .cpFinish).offer cs).setZhuanYu seat) := by
  have hlast : ((((t.discard seat pai n).enter .cpFinish).offer cs).setZhuanYu seat).lastCp? =
      some { type := .cp, p := seat, pai := pai } := by
    unfold lastCp?
    rw [show ((((t.discard seat pai n).enter .cpFinish).offer cs).setZhuanYu
      seat).actionList = t.actionList ++ [{ type := .cp, p := seat, pai := pai }] from rfl,
      List.getLast?_append]
    rfl
  refine ⟨h.timed, fun g hg a ha => ?_, fun hs => ?_, h.fair⟩
  · obtain rfl := Option.some.inj (hlast.symm.trans ha)
    have hset : (if (if t.lastGangSeat = some seat then t.lastGangSeat else none) = some seat ∧
        ((cs.filter fun c => c.2.hu.isSome).length : Int) = 1 then some seat else none) =
        some g := hg
    rw [Option.ite_none_right_eq_some] at hset
    obtain ⟨⟨hgang, -⟩, hseat⟩ := hset
    obtain rfl := Option.some.inj hseat
    rw [Option.ite_none_right_eq_some] at hgang
    exact ⟨rfl, (isGangshangpao_append t.actionList
      (show Act.type { type := .cp, p := seat, pai := pai } = .cp from rfl)).trans (hkong hgang.1)⟩
  · have hoffer : (if cs = [] then Status.cpFinish else .pengGangHu) = .qiangGangHu := hs
    split at hoffer <;> cases hoffer

theorem rain_chuPai (h : Rain t) {seat pai : Nat}
    (hkong : t.lastGangSeat = some seat → isGangshanghua t.actionList seat) :
    RainSat Rain (t.chuPai F seat pai) := by
  have hdone : Rain (t.setDone seat false) := h.of_view rfl
  unfold chuPai
  split
  · dsimp only
    split
    · exact h.of_view rfl
    · next n _ =>
      refine Prog.Sat.bind ?_ fun _ u (hu : Rain u) => hu
      unfold dealChuPai
      dsimp only
      split
      · exact rain_of_rains (rains_dealGuo rain_noted ⟨hdone.discard pai n hkong _, trivial⟩)
      · exact hdone.discard pai n hkong _
  · exact h

theorem rain_guoPai (h : Rain t) {seat : Nat} : RainSat Rain (t.guoPai F seat) := by
  unfold guoPai
  split
  · dsimp only
    split
    · exact h.of_view rfl
    · refine Prog.Sat.bind ?_ fun _ u (hu : Rain u) => hu
      split
      · next hs =>
        refine rain_qiangGangHuManager ?_ ?_
        · exact h.of_view rfl
        · exact h.rob hs
      · refine rain_pengGangHuManager ?_
        exact h.of_view rfl
  · exact h

theorem rain_pengPai (h : Rain t) {seat pai : Nat} : RainSat Rain (t.pengPai F seat pai) := by
  unfold pengPai
  split
  · refine Prog.Sat.bind ?_ fun _ u (hu : Rain u) => hu
    refine rain_pengGangHuManager ?_
    exact h.of_view rfl
  · exact h

theorem rain_gangPai (h : Rain t) {seat : Nat} {type : GangArg} {pai : Nat} :
    RainSat Rain (t.gangPai F seat type pai) := by
  have hdone : Rain { t.setDone seat false with
      pIgnoreHu := Function.update t.pIgnoreHu seat none } := h.of_view rfl
  unfold gangPai
  split
  · refine Prog.Sat.bind ?_ fun _ u (hu : Rain u) => hu.of_view rfl
    cases type with
    | ag => exact rain_dealGang hdone (by simp)
    | zg => exact rain_pengGangHuManager hdone
    | wg => exact rain_dealWGang hdone (by simp)
    | jwg => exact rain_dealWGang hdone (by simp)
  · exact h

theorem noted_pending (p : Option (Nat × Gang)) :
    Noted fun t => t.pending = p ∨ t.pending = none := by
  have hview : ∀ {t u : Table}, u.noteView = t.noteView → u.pending = t.pending := by
    intro t u h
    simp only [noteView, Prod.mk.injEq] at h
    obtain ⟨hc, hz, hg⟩ := h
    rw [pending, pending, hc, hz]
    split
    · congr 1
      funext g
      rw [congrFun hg g]
    · rfl
  refine ⟨fun h ht => ?_, fun h => .inr ?_⟩
  · rw [hview h]
    exact ht
  · rw [pending, h]
    split <;> rfl

theorem rain_zhuanYu {p : Option (Nat × Gang)} {race seat : Nat} {a : HuAct} {acts : List Act}
    (hp : ∀ g gang, p = some (g, gang) →
      Transfer.Rightful ⟨g, seat, a.huType, a.info.dianpaoP, acts⟩)
    (h : Rains (fun t => t.pending = p ∨ t.pending = none) t) :
    RainSat Rain (t.zhuanYu F race seat a acts) := by
  unfold zhuanYu
  split
  · exact h.1
  · next g hg =>
    split
    · exact h.1
    · next gang hgang =>
      split
      · next hswitch =>
        have hdue : t.pending = some (g, gang) := by
          rw [pending, if_pos hswitch, hg, Option.bind_some, hgang]
          rfl
        have hright := hp g gang ((h.2.resolve_right (by simp [hdue])).symm.trans hdue)
        refine rains_dealChangeScore rain_noted ⟨?_, trivial⟩ fun _ _ u hu => hu.1
        refine { h.1 with fair := fun tr htr => ?_ }
        rcases List.mem_append.mp htr with htr | htr
        · exact h.1.fair tr htr
        · obtain rfl := List.mem_singleton.mp htr
          exact hright
      · exact h.1

theorem rain_huPai (h : Rain t) {seat : Nat} (hok : RainOk t (.huPai seat)) :
    RainSat Rain (t.huPai F seat) := by
  obtain ⟨hseat, hwins, hrob⟩ := hok
  have hT := noted_pending t.pending
  have hdone : Rains (fun u => u.pending = t.pending ∨ u.pending = none)
      (t.setDone seat false) := ⟨h.of_view rfl, .inl rfl⟩
  unfold huPai
  split
  · dsimp only
    split
    · exact hdone.1
    · next hu hhu =>
      have hright : ∀ g gang, t.pending = some (g, gang) →
          Transfer.Rightful ⟨g, seat, huTypeOf hu, hu.dianpaoP, t.actionList⟩ := by
        intro g gang hdue
        obtain ⟨hu', hhu', act, hact, hpao, hno⟩ := hwins (by simp [hdue])
        obtain rfl := Option.some.inj (hhu.symm.trans hhu')
        have hnote : t.zhuanYuSeat = some g := by
          rw [pending] at hdue
          split at hdue
          · obtain ⟨x, hx, hmap⟩ := Option.bind_eq_some_iff.mp hdue
            obtain ⟨y, -, hy⟩ := Option.map_eq_some_iff.mp hmap
            rw [hx, (Prod.mk.inj hy).1]
          · cases hdue
        obtain ⟨hg, hkong⟩ := h.flagged g hnote act hact
        refine ⟨?_, hpao.trans (by rw [hg]), hkong⟩
        simp [huTypeOf, hpao, hno]
      refine Prog.Sat.bind ?_ fun _ u hu => rain_zhuanYu hright hu
      cases hty : huTypeOf hu with
      | qghu =>
          refine rains_qiangGangHuManager hT ?_ ?_ ?_
          · exact hdone.same hT rfl rfl
          · exact h.rob (hrob ⟨hu, hhu, hty⟩)
          · exact hseat
      | pao => exact rains_pengGangHuManager hT hdone hseat
      | zimo => exact rains_dealHu hT hdone
      | tianHu => exact rains_dealHu hT hdone
  · exact h

/-! ## Runs -/

theorem rain_newTable (cfg : Config) (ρ : Nat → Nat) : Rain (newTable cfg ρ) := by
  refine ⟨?_, ?_, ?_, ?_⟩ <;> simp [newTable, newGame, Timed, lastCp?]

theorem Rain.calm (h : Rain t) (hu : Calm t u) : Rain u := by
  have hcore := hu.core
  simp only [core, Prod.mk.injEq] at hcore
  obtain ⟨-, -, hcourse, -, htrace, -⟩ := hcore
  have hcp : u.lastCp? = t.lastCp? := by rw [lastCp?, lastCp?, hcourse]
  refine ⟨hu.timed, ?_, fun hs => ?_, ?_⟩
  · rw [hcourse, hcp]
    exact h.flagged
  · have hplay : u.phase = .play := phase_of_status hs (by decide)
    rcases hu.phase with hp | ⟨-, hstart⟩
    · rw [hcp]
      exact h.rob ((hu.play (hp.symm.trans hplay)).symm.trans hs)
    · rw [hs] at hstart
      cases hstart
  · rw [htrace]
    exact h.fair

theorem rain_readyCmd (h : Rain t) {seat : Nat} : RainSat Rain (t.readyCmd seat) := by
  unfold readyCmd
  split
  · dsimp only
    split
    · refine Rain.wait (s := .touSezi) ?_ rfl
      exact (h.enter (s := .gameBegin) (by decide)).of_view rfl
    · exact h.of_view rfl
  · exact h

theorem upkeep_rain (F : NumFormat) : Upkeep F Rerolled (fun _ => True) Rain Rain RainOk where
  timed h := h.timed
  waits h := h
  wakes h hu _ := by
    obtain ⟨ρ, rfl⟩ := hu
    exact h.of_view rfl
  calm h := h.calm
  ready h _ := rain_readyCmd h
  finish h _ hs := h.enter (by rintro rfl; cases hs)
  gone h := h.of_view rfl
  settle {t} h _ := by
    have hbreak : Rain { t with isBreakGame := true, isBreakRace := true } := h.of_view rfl
    exact rain_of_rains (rains_settle rain_noted ⟨hbreak, trivial⟩)
  broken h := h.of_view rfl
  force {t} h _ := by
    have hbreak : Rain { t with isBreakGame := true } := h.of_view rfl
    refine sat_saveRaceOverLog hbreak (fun _ => ?_) fun ρ hu _ => ?_
    · refine Rain.wait (s := .gameover) ?_ rfl
      exact hbreak.of_view rfl
    · obtain ⟨ρ', rfl⟩ := hu
      refine Rain.wait (s := .gameover) ?_ rfl
      exact hbreak.of_view rfl
  plays {t ev} h hok hplays := by
    cases ev with
    | chuPai seat pai => exact rain_chuPai h hok
    | guoPai seat => exact rain_guoPai h
    | pengPai seat pai => exact rain_pengPai h
    | gangPai seat type pai => exact rain_gangPai h
    | huPai seat => exact rain_huPai h hok
    | _ => cases hplays

end Rain

/-- Every transfer of rain goes to a winner by discard, on the tile that followed
the kong of the seat that pays and its draw. -/
theorem Reachable.rain_rightful {F : NumFormat} {cfg : Config} {ρ : Nat → Nat} {w : MjWorld}
    (h : Reachable F cfg ρ (Orderly RainOk fun _ => True) w) :
    ∀ tr ∈ w.state.transfers, tr.Rightful :=
  ((upkeep_rain F).of_orderly (rain_newTable cfg ρ) h).fair

/-! ## A win after a pass -/

instance decidableWinsOnDiscard (t : Table) (seat : Nat) :
    Decidable (WinsOnDiscard t seat) := by
  unfold WinsOnDiscard
  infer_instance

instance decidableRainOk (t : Table) : ∀ ev, Decidable (RainOk t ev) := by
  rintro (_ | _) <;> unfold RainOk <;> infer_instance

def rainConfig : Config := { algo := plainAlgo, zhuanYu := true }

/-- The first seat holds a kong and a tile that the second seat waits for; the
second seat will draw another one. -/
def rainTiles : List Nat :=
  dealOrder
    [[11, 11, 11, 11, 12, 13, 14, 21, 22, 23, 24, 18, 25],
     [12, 13, 14, 15, 16, 17, 21, 22, 23, 27, 28, 29, 25],
     [12, 14, 16, 18, 21, 23, 26, 28, 15, 17, 19, 22, 24],
     [13, 15, 17, 19, 22, 24, 27, 29, 16, 18, 12, 14, 21]]
    [26, 19, 25]

def rainRun : List (Input (Event × (Nat → Nat)) Answer) :=
  opening (fun _ => 100) (fun _ => 3) ++
  [cmd (.gangPai 1 .ag 11), ans (-2), ans (-2), ans (-2), ans 6, cmd (.chuPai 1 25)]

def rainPao : List (Input (Event × (Nat → Nat)) Answer) :=
  rainRun ++ [cmd (.huPai 2), ans (-1), ans 1, ans (-6), ans 6]

def rainZimo : List (Input (Event × (Nat → Nat)) Answer) :=
  rainRun ++ [cmd (.guoPai 2), cmd (.huPai 2), ans (-1), ans (-1), ans (-1), ans 3,
    ans (-6), ans 6]

theorem rainPao_allowed :
    Allowed (World.step (Table.step .exact)) (Orderly RainOk fun _ => True)
        ⟨newTable rainConfig (rig .xzdd rainTiles), []⟩ rainPao ∧
      (after rainConfig (rig .xzdd rainTiles) rainPao).state.transfers.map
        (fun tr => (tr.src, tr.dst, tr.huType)) = [(1, 2, .pao)] := by
  rw [after, newTable_rig _ .xzdd rainTiles rfl (by decide +kernel)]
  decide +kernel

theorem rain_rightful_pao :
    (after rainConfig (rig .xzdd rainTiles) rainPao).state.transfers.map
        (fun tr => (tr.src, tr.dst, tr.huType)) = [(1, 2, .pao)] ∧
      ∀ tr ∈ (after rainConfig (rig .xzdd rainTiles) rainPao).state.transfers,
        tr.Rightful :=
  ⟨rainPao_allowed.2, Reachable.rain_rightful (reach_run rainPao_allowed.1)⟩

theorem rainZimo_transfers :
    (after rainConfig (rig .xzdd rainTiles) rainZimo).state.transfers.map
      (fun tr => (tr.src, tr.dst, tr.huType)) = [(1, 2, .zimo)] := by
  rw [after, newTable_rig _ .xzdd rainTiles rfl (by decide +kernel)]
  decide +kernel

/-- The seat that let the win pass gets the rain with a tile that it has drawn. -/
theorem rain_after_pass :
    Reachable .exact rainConfig (rig .xzdd rainTiles) (fun _ _ => True)
        (after rainConfig (rig .xzdd rainTiles) rainZimo) ∧
      ¬ ∀ tr ∈ (after rainConfig (rig .xzdd rainTiles) rainZimo).state.transfers,
        tr.Rightful := by
  refine ⟨reachable_after _ _ _, fun h => ?_⟩
  have htypes := rainZimo_transfers
  obtain ⟨tr, htr, heq⟩ := List.mem_map.mp (htypes ▸ List.mem_singleton_self (1, 2, HuType.zimo))
  have hpao := (h tr htr).pao
  rw [(Prod.mk.inj (Prod.mk.inj heq).2).2] at hpao
  cases hpao

end Table

end JyQipai.Mj
