import JyQipai.Lib.Tally
import JyQipai.Mj.Hand

/-!
# Passing the turn

`deal_guo` looks for the next seat without `hu_order`, with no other end than
finding one.  After a win the search is made only if the seats that have won and
the seats without money that are still online leave two others.  A seat that went
bankrupt and has left, or has money again, is not counted; one such seat does no
harm.
-/

namespace JyQipai.Mj

open JyQipai.Lib

namespace Table

/-- The seats that are out of the hand as bankrupt but that `deal_game_bankrupt`
does not count: they have left or have money again. -/
def uncounted (t : Table) : Nat :=
  t.cfg.seatList.countP fun s => t.huOrder s = some 0 ∧ s ∉ t.brokeSeats

def winners (t : Table) : Nat :=
  t.cfg.seatList.countP fun s => (t.huOrder s).any (0 < ·)

def Counts (t : Table) : Prop := t.uncounted ≤ 1

def InHand (t : Table) (s : Nat) : Prop := s ∈ t.cfg.seatList ∧ t.huOrder s = none

structure Passes (t : Table) : Prop where
  timed : Timed t
  winners : t.winners ≤ t.huNum
  free : t.hung = false

def passView (t : Table) := (t.cfg, t.huOrder, t.huNum, t.hung, t.nextStatus)

def countView (t : Table) :=
  (t.cfg, t.onLinePlayer, t.pScore, fun s => (t.sInfo s).score)

section Passes

variable {F : NumFormat} {t u : Table}

theorem Passes.of_view (h : Passes t) (hv : u.passView = t.passView) : Passes u := by
  simp only [passView, Prod.mk.injEq] at hv
  obtain ⟨hc, ho, hn, hh, hs⟩ := hv
  refine ⟨?_, ?_, hh.trans h.free⟩
  · rw [Timed, hs]
    exact h.timed
  · rw [Table.winners, hc, ho, hn]
    exact h.winners

theorem brokeSeats_of_view (hv : u.countView = t.countView) :
    u.brokeSeats = t.brokeSeats := by
  simp only [countView, Prod.mk.injEq] at hv
  obtain ⟨hc, ho, hp, hs⟩ := hv
  unfold brokeSeats onLine
  simp only [hc, ho, hp, congrFun hs]

theorem Counts.of_view (h : Counts t) (hv : u.countView = t.countView)
    (ho : ∀ s, u.huOrder s = some 0 → t.huOrder s = some 0) : Counts u := by
  have hbroke := brokeSeats_of_view hv
  have hcfg : u.cfg = t.cfg := congrArg Prod.fst hv
  rw [Counts, uncounted, hcfg, hbroke]
  refine le_trans (List.countP_mono_left fun x _ hx => ?_) h
  obtain ⟨hzero, hmoney⟩ := of_decide_eq_true hx
  exact decide_eq_true ⟨ho x hzero, hmoney⟩

/-! ## Counting seats -/

theorem mem_brokeSeats {s : Nat} : s ∈ t.brokeSeats ↔ t.cfg.breakExit = true ∧
    s ∈ t.onLine ∧ t.pScore s + (t.sInfo s).score < 1 := by
  unfold brokeSeats
  split
  · next h => simp [h]
  · next h => simp [h]

theorem Counts.book (h : Counts t) {race s : Nat} {m n : Int}
    (hs : m ≤ 0 ∨ t.onLinePlayer s = none) : Counts (t.book race s m n) := by
  refine le_trans (List.countP_mono_left fun x _ hx => ?_) h
  simp only [decide_eq_true_eq, mem_brokeSeats] at hx ⊢
  refine ⟨hx.1, fun hb => hx.2 ⟨hb.1, hb.2.1, ?_⟩⟩
  by_cases hxs : x = s
  · subst hxs
    rcases hs with hm | hoff
    · have := hb.2.2
      simp only [Table.book, Function.update_self]
      omega
    · have hon := (List.mem_filter.mp hb.2.1).2
      rw [hoff] at hon
      cases hon
  · simpa [Table.book, hxs] using hb.2.2

theorem Counts.dealGameBankrupt (h : Counts t) : Counts t.dealGameBankrupt := by
  refine le_trans (List.countP_mono_left fun x _ hx => ?_) h
  have hdef : (if x ∈ t.brokeSeats then some 0 else t.huOrder x) = some 0 ∧
      x ∉ t.brokeSeats := of_decide_eq_true hx
  obtain ⟨hzero, hbroke⟩ := hdef
  rw [if_neg hbroke] at hzero
  exact decide_eq_true ⟨hzero, hbroke⟩

theorem Passes.dealGameBankrupt (h : Passes t) : Passes t.dealGameBankrupt := by
  refine ⟨h.timed, le_trans (List.countP_mono_left fun x _ hx => ?_) h.winners, h.free⟩
  have hdef : (if x ∈ t.brokeSeats then some 0 else t.huOrder x).any (0 < ·) := hx
  split at hdef
  · cases hdef
  · exact hdef

theorem Passes.win (h : Passes t) (a : HuAct) : Passes (t.win a) := by
  have hone : t.cfg.seatList.countP (fun x => decide (x = a.p)) ≤ 1 := by
    have := List.nodup_iff_count_le_one.mp (nodup_seatList t.cfg) a.p
    simpa [List.count, beq_eq_decide] using this
  have hsplit : t.cfg.seatList.countP
      (fun x => (Function.update t.huOrder a.p (some (t.huNum + 1)) x).any (0 < ·)) ≤
      t.winners + t.cfg.seatList.countP fun x => decide (x = a.p) := by
    refine countP_le_add fun x _ hx => ?_
    by_cases hxa : x = a.p
    · exact .inr (decide_eq_true hxa)
    · exact .inl (by simpa [hxa] using hx)
  have hcount := h.winners
  have hwon : t.cfg.seatList.countP
      (fun x => (Function.update t.huOrder a.p (some (t.huNum + 1)) x).any (0 < ·)) ≤
      t.huNum + 1 := by omega
  unfold Table.win
  dsimp only
  split
  · exact ⟨h.timed, hwon, h.free⟩
  · exact ⟨h.timed, hwon, h.free⟩
  · exact ⟨h.timed, hwon, h.free⟩

theorem Counts.win (h : Counts t) (a : HuAct) : Counts (t.win a) := by
  have hzero : ∀ s, Function.update t.huOrder a.p (some (t.huNum + 1)) s = some 0 →
      t.huOrder s = some 0 := by
    intro s hs
    by_cases hsa : s = a.p
    · simp [hsa] at hs
    · simpa [hsa] using hs
  unfold Table.win
  dsimp only
  split
  · exact h.of_view rfl hzero
  · exact h.of_view rfl hzero
  · exact h.of_view rfl hzero

theorem exists_inHand (h : Passes t) (hcount : Counts t)
    (hover : ¬ t.cfg.seatCount ≤ t.huNum + t.brokeSeats.length + 1) :
    ∃ s, InHand t s := by
  by_contra hno
  have hall : t.cfg.seatList.countP (fun _ => true) ≤
      t.winners + t.cfg.seatList.countP fun s => decide (t.huOrder s = some 0) := by
    refine countP_le_add fun s hs _ => ?_
    cases ho : t.huOrder s with
    | none => exact absurd ⟨s, hs, ho⟩ hno
    | some n =>
        rcases Nat.eq_zero_or_pos n with rfl | hn
        · exact .inr rfl
        · exact .inl (decide_eq_true hn)
  have hzero : (t.cfg.seatList.countP fun s => decide (t.huOrder s = some 0)) ≤
      t.uncounted + t.cfg.seatList.countP fun s => decide (s ∈ t.brokeSeats) := by
    refine countP_le_add fun s _ hs => ?_
    by_cases hb : s ∈ t.brokeSeats
    · exact .inr (decide_eq_true hb)
    · exact .inl (decide_eq_true ⟨of_decide_eq_true hs, hb⟩)
  have hbroke : (t.cfg.seatList.countP fun s => decide (s ∈ t.brokeSeats)) ≤
      t.brokeSeats.length := by
    rw [List.countP_eq_length_filter]
    refine List.Subperm.length_le (List.Nodup.subperm ?_ fun s hs => ?_)
    · exact (nodup_seatList t.cfg).filter _
    · exact of_decide_eq_true (List.mem_filter.mp hs).2
  have hlen : t.cfg.seatList.countP (fun _ => true) = t.cfg.seatCount := by
    rw [List.countP_true, length_seatList]
  have hw := h.winners
  have hc : t.uncounted ≤ 1 := hcount
  omega

/-! ## Turns and melds -/

abbrev PassSat (Q : Table → Prop) (p : M α) : Prop :=
  Sat (fun _ => Passes) Counts Passes Passes (fun _ => Q) p

theorem steady_passes : Steady (fun _ => Passes) Counts Passes Passes Passes where
  waits h := h
  fails h := h
  wakes _ _ hu _ := hu.of_view rfl

theorem counts_rand (h : Counts t) (ρ : Nat → Nat) : Counts { t with rand := ρ } :=
  h.of_view rfl fun _ => id

theorem Passes.wait (h : Passes t) {s : Status} (hs : s.timed) : Passes (t.wait s) := by
  refine { h with timed := fun next hnext => ?_ }
  obtain rfl := Option.some.inj hnext
  exact hs

theorem Passes.nextGame (h : Passes t) : Passes t.nextGame := by
  unfold Table.nextGame
  split
  · exact h.wait rfl
  · exact ⟨h.timed, by simp [Table.winners, newGame], h.free⟩

theorem pass_dealChangeScore (h : Passes t) {race seat : Nat} {total : ℚ}
    {others : List Nat} {type : PayType} {k : Int → Int → Table → M α} {Q : Table → Prop}
    (hk : ∀ m n u, Passes u → PassSat Q (k m n u)) :
    PassSat Q (dealChangeScore F t race seat total others type k) :=
  sat_dealChangeScore steady_passes (fun ρ h => counts_rand h ρ)
    (fun _ _ hu => hu.of_view rfl) (fun hu _ => hu) hk h

theorem pass_settle (h : Passes t) : PassSat Passes (settle F t) := by
  refine sat_settle steady_passes (fun ρ h => counts_rand h ρ)
    (fun _ _ _ _ _ hu => hu.of_view rfl) (h.of_view rfl) (h.of_view rfl)
    (fun hu => ⟨hu.of_view rfl, fun ρ hv _ => Passes.nextGame ?_⟩)
    fun hu _ => Passes.nextGame ?_
  · exact hv.of_view rfl
  · exact hu.of_view rfl

theorem pass_statusMoPai (h : Passes t) : PassSat Passes (statusMoPai F t) := by
  have hmo : Passes (t.enter .moPai) := h.of_view rfl
  unfold statusMoPai
  dsimp only
  split
  · exact pass_settle hmo
  · generalize decide ((_ : Nat) ≤ _) = isOver
    have hcheck : Passes ((t.enter .moPai).noteCheck isOver) := hmo.of_view rfl
    split
    · exact pass_settle hcheck
    · have hdraw : Passes ((t.enter .moPai).noteCheck isOver).draw.2 := by
        refine hcheck.of_view ?_
        unfold draw popPai
        dsimp only
        split
        · rfl
        · split <;> rfl
      split
      · next u hu =>
        rw [hu] at hdraw
        exact pass_settle hdraw
      · next pai u hu =>
        rw [hu] at hdraw
        exact hdraw.of_view rfl

theorem pass_dealGuo (h : Passes t) (hseat : ∃ s, InHand t s) :
    PassSat Passes (dealGuo F t) := by
  obtain ⟨s, hs, horder⟩ := hseat
  unfold dealGuo
  split
  · exact h
  · next act _ =>
    dsimp only
    split
    · next hnone =>
      have hfound := List.find?_eq_none.mp hnone s (mem_seatsAfter.mpr hs)
      exact absurd (Option.isNone_iff_eq_none.mpr horder) hfound
    · exact pass_statusMoPai (h.of_view rfl)

theorem pass_movePaiForPg (h : Passes t) {s pai : Nat} {type : PgType} {k : Table → M α}
    {Q : Table → Prop} (hk : ∀ u, Passes u → PassSat Q (k u)) :
    PassSat Q (t.movePaiForPg s pai type k) := by
  unfold movePaiForPg
  split
  · exact h
  · exact hk _ (h.of_view rfl)

theorem pass_dealPengPai (h : Passes t) {act : Act} :
    PassSat Passes (t.dealPengPai act) := by
  refine pass_movePaiForPg h fun u hu => ?_
  exact hu.of_view rfl

theorem pass_recordGangScore (h : Passes t) {race seat : Nat} {type : PgType} {pai : Nat}
    {others : List Nat} {k : Table → M α} (hk : ∀ u, Passes u → PassSat Passes (k u)) :
    PassSat Passes (t.recordGangScore F race seat type pai others k) := by
  unfold recordGangScore
  split
  · exact hk t h
  · refine pass_dealChangeScore h fun _ _ u hu => hk _ ?_
    exact hu.of_view rfl

theorem pass_dealGang (h : Passes t) {race : Nat} {act : Act} {type : PgType} :
    PassSat Passes (dealGang F t race act type) := by
  have hdone : ∀ u, Passes u → PassSat Passes (gangDone F u act type) := by
    intro u hu
    refine pass_movePaiForPg hu fun v hv => pass_statusMoPai ?_
    have hact : Passes { v.addAct act with pPermit := fun _ => none } := hv.of_view rfl
    exact hact.dealGameBankrupt.of_view rfl
  unfold dealGang
  split
  · split
    · exact h
    · exact pass_recordGangScore h hdone
  · exact pass_recordGangScore h hdone

theorem pass_dealWGangFinish (h : Passes t) {race : Nat} {act : Act} :
    PassSat Passes (dealWGangFinish F t race act) := by
  have hmo : ∀ u, Passes u → PassSat Passes (statusMoPai F { u with curP := act.p }) :=
    fun u hu => pass_statusMoPai (hu.of_view rfl)
  unfold dealWGangFinish
  dsimp only
  split
  · exact hmo t h
  · exact pass_recordGangScore h hmo

theorem pass_dealWGang (h : Passes t) {race : Nat} {act : Act} :
    PassSat Passes (dealWGang F t race act) := by
  refine pass_movePaiForPg h fun u hu => ?_
  dsimp only
  split
  · refine pass_dealWGangFinish ?_
    exact hu.of_view rfl
  · exact hu.of_view rfl

/-! ## Wins -/

def Tallies (t : Table) : Prop := Passes t ∧ Counts t

theorem Tallies.same (h : Tallies t) (hv : u.passView = t.passView)
    (hc : u.countView = t.countView) : Tallies u := by
  have horder : u.huOrder = t.huOrder := by
    simp only [passView, Prod.mk.injEq] at hv
    exact hv.2.1
  exact ⟨h.1.of_view hv, h.2.of_view hc fun s => by rw [horder]; exact id⟩

/-- While a win is paid, the count is right with every answer; a winner that has
left gets none. -/
def Paying (seat : Nat) (t : Table) : Prop :=
  Passes t ∧ (t.onLinePlayer seat = none ∧ t.cfg.backMoney = false → Counts t)

theorem steady_paying (seat : Nat) :
    Steady (fun _ => Passes) Counts Passes Passes (Paying seat) where
  waits h := h.1
  fails h := h.1
  wakes ρ _ hu hp := ⟨hu.of_view rfl, fun _ => counts_rand hp ρ⟩

theorem Paying.book {race seat s : Nat} {m n : Int} (h : Paying seat t)
    (hs : m ≤ 0 ∨ s = seat) : Paying seat (t.book race s m n) := by
  refine ⟨h.1.of_view rfl, fun hoff => (h.2 hoff).book ?_⟩
  rcases hs with hm | rfl
  · exact .inl hm
  · exact .inr hoff.1

theorem Counts.setHu (h : Counts t) (a : HuAct) : Counts (t.setHu a) := by
  refine h.of_view ?_ fun _ => id
  simp only [countView, Table.setHu, Prod.mk.injEq, true_and]
  funext s
  by_cases hs : s = a.p
  · subst hs
    simp
  · simp [hs]

theorem pass_dealHuLoop {race : Nat} {actions : Nat → Option HuAct} {k : Table → M Unit}
    (hk : ∀ u, Tallies u → PassSat Passes (k u)) (n : Nat) (s : Option Nat)
    (h : Tallies t) : PassSat Passes (dealHuLoop F race actions k n s t) := by
  induction n generalizing s t with
  | zero => exact hk t h
  | succ n ih =>
      cases s with
      | none => exact h.1
      | some s =>
          unfold dealHuLoop
          split
          · exact ih _ h
          · next a _ =>
            refine sat_dealChangeScore (R := Tallies) (D := Paying a.p) (steady_paying a.p)
              (fun ρ h => counts_rand h ρ) (fun _ hm hu => hu.book (hm (by positivity)))
              (fun hu hp => ⟨hu.1, hp.elim id hu.2⟩) (fun _ _ u hu => ih _ ?_)
              ⟨h.1.win a, fun _ => h.2.win a⟩
            exact ⟨hu.1.of_view rfl, (hu.2.setHu a).of_view rfl fun _ => id⟩

theorem pass_dealHu (h : Tallies t) {race : Nat} {actions : Nat → Option HuAct} :
    PassSat Passes (dealHu F t race actions) := by
  unfold dealHu
  split
  · exact h.1
  · refine pass_dealHuLoop (fun u hu => ?_) _ _ h
    have hbank : Passes u.dealGameBankrupt := hu.1.dealGameBankrupt
    dsimp only
    split
    · exact pass_settle (hbank.of_view rfl)
    · next hover =>
      have hseat := exists_inHand hbank hu.2.dealGameBankrupt
        (fun hle => hover (decide_eq_true hle))
      exact pass_dealGuo (hbank.of_view rfl) hseat

/-! ## Claims -/

theorem pass_qiangGangHuManager (h : Tallies t) {race p : Nat} {hu : Option HuAct} :
    PassSat Passes (t.qiangGangHuManager F race p hu) := by
  have hnote : Tallies (t.noteRob p hu) := h.same rfl rfl
  unfold qiangGangHuManager
  dsimp only
  split
  · split
    · exact hnote.1
    · next act _ =>
      refine Prog.Sat.bind ?_ fun _ u (hu : Passes u) => hu.of_view rfl
      split
      · refine pass_dealHu ?_
        exact hnote.same rfl rfl
      · exact pass_dealWGangFinish hnote.1
  · exact hnote.1

/-- The winner has a seat at the table, and a seat that passes is in the hand. -/
def ClaimOk (t : Table) : Claim → Prop
  | .hu a => a.p ∈ t.cfg.seatList
  | .pg _ => True
  | .guo p => InHand t p

theorem pass_pengGangHuManager (h : Tallies t) {race : Nat} {c : Claim} (hc : ClaimOk t c) :
    PassSat Passes (t.pengGangHuManager F race c) := by
  have hnote : Tallies (t.noteClaim c) := by
    cases c with
    | hu a => exact h.same rfl rfl
    | pg act => exact h.same rfl rfl
    | guo p => exact h.same rfl rfl
  unfold pengGangHuManager
  dsimp only
  split
  · refine Prog.Sat.bind ?_ fun _ u (hu : Passes u) => hu.of_view rfl
    split
    · exact pass_dealHu hnote
    · next hnohu =>
      split
      · split
        · exact pass_dealPengPai hnote.1
        · split
          · exact pass_dealGang hnote.1
          · exact hnote.1
      · next hnopg =>
        refine pass_dealGuo hnote.1 ?_
        cases c with
        | hu a =>
            refine absurd (List.any_eq_true.mpr ⟨a.p, hc, ?_⟩) hnohu
            simp [noteClaim]
        | pg act => cases hnopg
        | guo p => exact ⟨p, hc⟩
  · exact hnote.1

/-! ## Commands -/

/-- The seats that discard or pass are still in the hand, the winner has a seat at
the table, and the count is right when claims are dealt with. -/
def PassOk (t : Table) : Event → Prop
  | .chuPai seat _ => InHand t seat
  | .guoPai seat => InHand t seat ∧ Counts t
  | .pengPai _ _ => Counts t
  | .gangPai _ _ _ => Counts t
  | .huPai seat => seat ∈ t.cfg.seatList ∧ Counts t
  | _ => True

theorem pass_chuPai (h : Passes t) {seat pai : Nat} (hseat : InHand t seat) :
    PassSat Passes (t.chuPai F seat pai) := by
  unfold chuPai
  split
  · dsimp only
    split
    · exact h.of_view rfl
    · refine Prog.Sat.bind ?_ fun _ u (hu : Passes u) => hu
      unfold dealChuPai
      dsimp only
      split
      · exact pass_dealGuo (h.of_view rfl) ⟨seat, hseat⟩
      · exact h.of_view rfl
  · exact h

theorem pass_guoPai (h : Tallies t) {seat : Nat} (hseat : InHand t seat) :
    PassSat Passes (t.guoPai F seat) := by
  unfold guoPai
  split
  · dsimp only
    split
    · exact h.1.of_view rfl
    · refine Prog.Sat.bind ?_ fun _ u (hu : Passes u) => hu
      split
      · refine pass_qiangGangHuManager ?_
        exact h.same rfl rfl
      · refine pass_pengGangHuManager ?_ ?_
        · exact h.same rfl rfl
        · exact hseat
  · exact h.1

theorem pass_pengPai (h : Tallies t) {seat pai : Nat} :
    PassSat Passes (t.pengPai F seat pai) := by
  unfold pengPai
  split
  · refine Prog.Sat.bind ?_ fun _ u (hu : Passes u) => hu
    refine pass_pengGangHuManager ?_ trivial
    exact h.same rfl rfl
  · exact h.1

theorem pass_gangPai (h : Tallies t) {seat : Nat} {type : GangArg} {pai : Nat} :
    PassSat Passes (t.gangPai F seat type pai) := by
  have hdone : Tallies { t.setDone seat false with
      pIgnoreHu := Function.update t.pIgnoreHu seat none } := h.same rfl rfl
  unfold gangPai
  split
  · refine Prog.Sat.bind ?_ fun _ u (hu : Passes u) => hu.of_view rfl
    cases type with
    | ag => exact pass_dealGang hdone.1
    | zg => exact pass_pengGangHuManager hdone trivial
    | wg => exact pass_dealWGang hdone.1
    | jwg => exact pass_dealWGang hdone.1
  · exact h.1

theorem pass_zhuanYu (h : Passes t) {race seat : Nat} {a : HuAct} {acts : List Act} :
    PassSat Passes (t.zhuanYu F race seat a acts) := by
  unfold zhuanYu
  split
  · exact h
  · split
    · exact h
    · split
      · refine pass_dealChangeScore ?_ fun _ _ u hu => hu
        exact h.of_view rfl
      · exact h

theorem pass_huPai (h : Tallies t) {seat : Nat} (hseat : seat ∈ t.cfg.seatList) :
    PassSat Passes (t.huPai F seat) := by
  have hdone : Tallies (t.setDone seat false) := h.same rfl rfl
  unfold huPai
  split
  · dsimp only
    split
    · exact hdone.1
    · refine Prog.Sat.bind ?_ fun _ u hu => pass_zhuanYu hu
      split
      · refine pass_qiangGangHuManager ?_
        exact hdone.same rfl rfl
      · exact pass_pengGangHuManager hdone hseat
      · exact pass_dealHu hdone
  · exact h.1

/-! ## Runs -/

theorem passes_newTable (cfg : Config) (ρ : Nat → Nat) : Passes (newTable cfg ρ) := by
  refine ⟨?_, ?_, rfl⟩
  · simp [newTable, newGame, Timed]
  · simp [newTable, newGame, winners]

theorem Passes.calm (h : Passes t) (hu : Calm t u) : Passes u := by
  have hcore := hu.core
  simp only [core, Prod.mk.injEq] at hcore
  obtain ⟨hc, hs, -, -, -, -, -, -, hh⟩ := hcore
  refine ⟨hu.timed, ?_, hh.trans h.free⟩
  rw [Table.winners, hc, hs]
  exact h.winners

theorem pass_readyCmd (h : Passes t) {seat : Nat} :
    PassSat Passes (t.readyCmd seat) := by
  unfold readyCmd
  split
  · dsimp only
    split
    · refine Passes.wait (s := .touSezi) ?_ rfl
      exact h.of_view rfl
    · exact h.of_view rfl
  · exact h

theorem upkeep_passes (F : NumFormat) :
    Upkeep F (fun _ => Passes) Counts Passes Passes PassOk where
  timed h := h.timed
  waits h := h
  wakes _ hu _ := hu
  calm h := h.calm
  ready h _ := pass_readyCmd h
  finish h _ _ := h.of_view rfl
  gone h := h.of_view rfl
  settle h _ := pass_settle (h.of_view rfl)
  broken h := h.of_view rfl
  force h _ := by
    refine sat_saveRaceOverLog (h.of_view rfl) (fun _ => ?_) fun ρ hu _ => ?_
    · refine Passes.wait (s := .gameover) ?_ rfl
      exact h.of_view rfl
    · refine Passes.wait (s := .gameover) ?_ rfl
      exact hu.of_view rfl
  plays {t ev} h hok hplays := by
    cases ev with
    | chuPai seat pai => exact pass_chuPai h hok
    | guoPai seat => exact pass_guoPai ⟨h, hok.2⟩ hok.1
    | pengPai seat pai => exact pass_pengPai ⟨h, hok⟩
    | gangPai seat type pai => exact pass_gangPai ⟨h, hok⟩
    | huPai seat => exact pass_huPai ⟨h, hok.2⟩ hok.1
    | _ => cases hplays

end Passes

/-- The search of `deal_guo` always finds a seat, however commands and answers are
interleaved. -/
theorem Reachable.passes_on {F : NumFormat} {cfg : Config} {ρ : Nat → Nat} {w : MjWorld}
    (h : Reachable F cfg ρ (Free PassOk Counts) w) : w.state.hung = false :=
  ((upkeep_passes F).of_free (passes_newTable cfg ρ) h).free

/-! ## Two bankrupt seats that have left -/

instance decidableCounts : DecidablePred Counts := fun t =>
  inferInstanceAs (Decidable (t.uncounted ≤ 1))

instance decidableInHand (t : Table) (s : Nat) : Decidable (InHand t s) :=
  inferInstanceAs (Decidable (s ∈ t.cfg.seatList ∧ t.huOrder s = none))

instance decidablePassOk (t : Table) : ∀ ev, Decidable (PassOk t ev) := by
  rintro (_ | _) <;> unfold PassOk <;> infer_instance

def breakConfig : Config := { algo := plainAlgo, breakExit := true }

def breakTiles : List Nat :=
  dealOrder
    [[11, 11, 11, 11, 12, 13, 14, 15, 16, 17, 22, 22, 22],
     [12, 13, 14, 15, 16, 17, 21, 23, 24, 27, 28, 29, 26],
     [12, 14, 16, 18, 21, 23, 26, 28, 15, 17, 19, 22, 24],
     [13, 15, 17, 19, 21, 24, 27, 29, 16, 18, 12, 14, 21]]
    [25, 25]

def breakKong (money : Nat → Int) : List (Input (Event × (Nat → Nat)) Answer) :=
  opening money (fun _ => 3) ++
  [cmd (.gangPai 1 .ag 11), ans (-2), ans (-2), ans (-2), ans 6]

def leftRun : List (Input (Event × (Nat → Nat)) Answer) :=
  breakKong (fun s => if s = 2 then 2 else 100) ++
  [cmd (.quitRoom 2), cmd (.huPai 1), ans (-2), ans (-2), ans 4]

/-- The kong costs two seats all their money, and they leave; the win costs the
last seat all of its money. -/
def brokeRun : List (Input (Event × (Nat → Nat)) Answer) :=
  breakKong (fun s => if s = 1 then 100 else if s = 4 then 3 else 2) ++
  [cmd (.quitRoom 2), cmd (.quitRoom 3), cmd (.huPai 1), ans (-1), ans 1]

theorem leftRun_allowed :
    Allowed (World.step (Table.step .exact)) (Free PassOk Counts)
        ⟨newTable breakConfig (rig .xzdd breakTiles), []⟩ leftRun ∧
      (after breakConfig (rig .xzdd breakTiles) leftRun).state.huOrder 2 = some 0 ∧
      (after breakConfig (rig .xzdd breakTiles) leftRun).state.onLinePlayer 2 = none ∧
      (after breakConfig (rig .xzdd breakTiles) leftRun).state.curP = 3 := by
  rw [after, newTable_rig _ .xzdd breakTiles rfl (by decide +kernel)]
  decide +kernel

/-- The search goes past the bankrupt seat that has left. -/
theorem passes_on_leftRun :
    (after breakConfig (rig .xzdd breakTiles) leftRun).state.huOrder 2 = some 0 ∧
      (after breakConfig (rig .xzdd breakTiles) leftRun).state.onLinePlayer 2 = none ∧
      (after breakConfig (rig .xzdd breakTiles) leftRun).state.curP = 3 ∧
      (after breakConfig (rig .xzdd breakTiles) leftRun).state.hung = false := by
  obtain ⟨hallowed, hbroke, hleft, hcur⟩ := leftRun_allowed
  exact ⟨hbroke, hleft, hcur, Reachable.passes_on (reach_run hallowed)⟩

theorem brokeRun_allowed :
    Allowed (World.step (Table.step .exact)) (Free (fun _ _ => True) fun _ => True)
        ⟨newTable breakConfig (rig .xzdd breakTiles), []⟩ brokeRun ∧
      (after breakConfig (rig .xzdd breakTiles) brokeRun).state.active = [] ∧
      (after breakConfig (rig .xzdd breakTiles) brokeRun).state.hung = true := by
  rw [after, newTable_rig _ .xzdd breakTiles rfl (by decide +kernel)]
  decide +kernel

/-- No seat is left, but two of them are not counted. -/
theorem hangs_after_departures :
    Reachable .exact breakConfig (rig .xzdd breakTiles)
        (Free (fun _ _ => True) fun _ => True)
        (after breakConfig (rig .xzdd breakTiles) brokeRun) ∧
      (after breakConfig (rig .xzdd breakTiles) brokeRun).state.active = [] ∧
      (after breakConfig (rig .xzdd breakTiles) brokeRun).state.hung = true :=
  ⟨reach_run brokeRun_allowed.1, brokeRun_allowed.2⟩

end Table

end JyQipai.Mj
