import JyQipai.Ddz.Decided

/-!
# One hand after the other

`new_game` resets the fields of a hand one by one.  The history variables of a
table say where the values of the fields that it does not reset come from, and
whether a value of an earlier hand has been read.  The one field that can outlive
its hand is `is_must_men`.
-/

namespace JyQipai.Ddz

open JyQipai.Lib

namespace Table

structure Unused (t : Table) : Prop where
  rangpaiNum : t.cfg.gameType ≠ .er → t.origin .rangpaiNum = .unset
  daoLaData : t.cfg.isMld = false → t.origin .daoLaData = .unset
  laizi : t.cfg.gameType ≠ .lz → t.origin .laizi = .unset
  stale : t.staleRead = false

structure Marks (t : Table) : Prop extends Unused t where
  rangpaiHand : t.cfg.gameType = .er → t.origin .rangpaiNum = .thisHand
  daoLaHand : t.cfg.isMld = true → t.origin .daoLaData = .thisHand
  isChuntian : t.origin .isChuntian = .thisHand
  nongmin : t.play.dizhu ≠ 0 → t.origin .nongmin = .thisHand
  winner : t.sInfo.winner ≠ 0 → t.play.dizhu ≠ 0
  award : t.cfg.isMld = true → t.play.dizhu = 0 →
    t.isBreakGame = true ∨ t.sInfo.award = none

def LzFor (t : Table) (s : Status) : Prop :=
  s = .cp → t.cfg.gameType = .lz → t.origin .laizi = .thisHand

/-- `is_must_men` is set only after two seats have declined, in a hand that is
broken off or that fulfils `here`. -/
def Must (t : Table) (here : Prop) : Prop :=
  t.isMustMen = true →
    t.cfg.isMld = true ∧ 1 < t.noZhuaCount ∧ (t.isBreakGame = true ∨ here)

def BlindBidding (t : Table) : Prop :=
  t.play.dizhu = 0 ∧ t.updating = none ∧
    (t.status = .mldMen ∨ t.status = .wait ∧ t.nextStatus = some .mldMen)

structure Current (t : Table) : Prop extends Marks t where
  status : t.LzFor t.status
  next : t.time → ∀ s ∈ t.nextStatus, t.LzFor s
  must : t.Must t.BlindBidding

def NoOpenCall (t : Table) : Event → Prop
  | .zhuaPai seat opt =>
      t.status = .mldMen ∧ t.play.curP = seat ∧ 0 < opt → t.isMustMen = false
  | _ => True

instance (t : Table) : ∀ e, Decidable (t.NoOpenCall e) := by
  rintro (_ | _) <;> unfold NoOpenCall <;> infer_instance

section Frame

variable {t u : Table} {P Q : Prop}

theorem Must.same (h : t.Must P) (hc : u.cfg = t.cfg)
    (hm : u.isMustMen = t.isMustMen ∧ u.noZhuaCount = t.noZhuaCount)
    (hb : t.isBreakGame = true → u.isBreakGame = true) (hpq : P → Q) :
    u.Must Q := by
  intro hu
  rw [hm.1] at hu
  obtain ⟨hmld, hno, hor⟩ := h hu
  rw [hc, hm.2]
  exact ⟨hmld, hno, hor.imp hb hpq⟩

theorem Marks.of_sInfo (h : t.Marks) (hc : u.cfg = t.cfg)
    (hd : u.play.dizhu = t.play.dizhu)
    (hs : t.sInfo.winner = 0 →
      u.sInfo.winner = 0 ∧ u.sInfo.award = t.sInfo.award)
    (ho : u.origin = t.origin) (hst : u.staleRead = t.staleRead)
    (hb : t.isBreakGame = true → u.isBreakGame = true) : u.Marks := by
  have hzero : t.play.dizhu = 0 → t.sInfo.winner = 0 := by
    intro h0
    by_contra hw
    exact h.winner hw h0
  constructor
  · constructor
    · rw [hc, ho]
      exact h.rangpaiNum
    · rw [hc, ho]
      exact h.daoLaData
    · rw [hc, ho]
      exact h.laizi
    · rw [hst]
      exact h.stale
  · rw [hc, ho]
    exact h.rangpaiHand
  · rw [hc, ho]
    exact h.daoLaHand
  · rw [ho]
    exact h.isChuntian
  · rw [hd, ho]
    exact h.nongmin
  · rw [hd]
    intro hw h0
    exact hw (hs (hzero h0)).1
  · rw [hc, hd]
    intro hm h0
    rw [(hs (hzero h0)).2]
    exact (h.award hm h0).imp_left hb

theorem Marks.same (h : t.Marks) (hc : u.cfg = t.cfg)
    (hd : u.play.dizhu = t.play.dizhu) (hs : u.sInfo = t.sInfo)
    (ho : u.origin = t.origin) (hst : u.staleRead = t.staleRead)
    (hb : t.isBreakGame = true → u.isBreakGame = true) : u.Marks :=
  h.of_sInfo hc hd (by rw [hs]; exact fun hw => ⟨hw, rfl⟩) ho hst hb

theorem Marks.origin_ne (h : t.Marks) :
    t.origin .rangpaiNum ≠ .earlierHand ∧ t.origin .daoLaData ≠ .earlierHand ∧
      t.origin .isChuntian ≠ .earlierHand ∧
      (t.play.dizhu ≠ 0 → t.origin .nongmin ≠ .earlierHand) := by
  refine ⟨?_, ?_, ?_, fun hd => ?_⟩
  · by_cases her : t.cfg.gameType = .er
    · simp [h.rangpaiHand her]
    · simp [h.rangpaiNum her]
  · by_cases hm : t.cfg.isMld = true
    · simp [h.daoLaHand hm]
    · simp [h.daoLaData (by simpa using hm)]
  · simp [h.isChuntian]
  · simp [h.nongmin hd]

theorem Marks.readIf (h : t.Marks) {f : HandField} {b : Bool}
    (hf : b = true → t.origin f ≠ .earlierHand) : (t.readIf b f).Marks := by
  refine h.same rfl rfl rfl rfl ?_ fun hb => hb
  rw [readIf_toTrace]
  cases b with
  | false => simp
  | true => simp [hf rfl]

theorem Marks.read (h : t.Marks) {f : HandField} (hf : t.origin f ≠ .earlierHand) :
    (t.read f).Marks :=
  h.readIf fun _ => hf

theorem Marks.settles (h : t.Marks) (hu : Settles t u)
    (hst : u.staleRead = t.staleRead)
    (hw : u.sInfo.winner ≠ 0 → t.play.dizhu ≠ 0)
    (ha : t.cfg.isMld = true → t.play.dizhu = 0 →
      t.isBreakGame = true ∨ u.sInfo.award = none) : u.Marks := by
  have ho : ∀ f, f ≠ .isChuntian → u.origin f = t.origin f := by
    intro f hf
    exact (hu.origin f).resolve_right fun h => hf h.1
  constructor
  · constructor
    · rw [hu.cfg, ho _ (by decide)]
      exact h.rangpaiNum
    · rw [hu.cfg, ho _ (by decide)]
      exact h.daoLaData
    · rw [hu.cfg, ho _ (by decide)]
      exact h.laizi
    · rw [hst]
      exact h.stale
  · rw [hu.cfg, ho _ (by decide)]
    exact h.rangpaiHand
  · rw [hu.cfg, ho _ (by decide)]
    exact h.daoLaHand
  · rcases hu.origin .isChuntian with hc | ⟨-, hc⟩
    · rw [hc]
      exact h.isChuntian
    · exact hc
  · rw [hu.play, hu.nongmin]
    exact h.nongmin
  · rw [hu.play]
    exact hw
  · rw [hu.cfg, hu.play, hu.toRaces]
    exact ha

theorem Current.of_wait {s : Status} (h : t.Marks) (hs : t.LzFor s)
    (hm : t.Must (s = .mldMen ∧ t.play.dizhu = 0 ∧ t.updating = none)) :
    (t.wait s).Current where
  toMarks := h.same rfl rfl rfl rfl rfl fun hb => hb
  status h := by cases h
  next := by
    rintro - s' hs'
    obtain rfl := Option.some.inj hs'
    exact hs
  must := by
    refine hm.same rfl ⟨rfl, rfl⟩ (fun hb => hb) ?_
    rintro ⟨rfl, hd, hu⟩
    exact ⟨hd, hu, .inr ⟨rfl, rfl⟩⟩

theorem Current.of_enter {s : Status} (h : t.Marks) (hs : t.LzFor s)
    (hst : t.status = s) (ht : t.time = false)
    (hm : t.Must (s = .mldMen ∧ t.play.dizhu = 0 ∧ t.updating = none)) :
    t.Current where
  toMarks := h
  status := hst ▸ hs
  next ht' := by simp [ht] at ht'
  must := by
    refine hm.same rfl ⟨rfl, rfl⟩ (fun hb => hb) ?_
    rintro ⟨rfl, hd, hu⟩
    exact ⟨hd, hu, .inl hst⟩

theorem Current.congr (h : t.Current) (hm : u.Marks) (hc : u.cfg = t.cfg)
    (hd : u.play.dizhu = t.play.dizhu) (ho : u.origin .laizi = t.origin .laizi)
    (hmust : u.isMustMen = t.isMustMen ∧ u.noZhuaCount = t.noZhuaCount)
    (hb : t.isBreakGame = true → u.isBreakGame = true)
    (hctrl : u.status = t.status ∧ u.nextStatus = t.nextStatus ∧ u.time = t.time ∧
      u.updating = t.updating) : u.Current := by
  obtain ⟨hst, hn, ht, hup⟩ := hctrl
  refine ⟨hm, ?_, ?_, ?_⟩
  · unfold LzFor
    rw [hst, hc, ho]
    exact h.status
  · unfold LzFor
    rw [ht, hn, hc, ho]
    exact h.next
  · refine h.must.same hc hmust hb ?_
    unfold BlindBidding
    rw [hd, hup, hst, hn]
    exact id

theorem Current.must_broken (h : t.Current) (hs : t.status ≠ .mldMen)
    (hw : t.status = .wait → t.nextStatus ≠ some .mldMen) : t.Must False := by
  refine h.must.same rfl ⟨rfl, rfl⟩ (fun hb => hb) ?_
  rintro ⟨-, -, hst | ⟨hst, hn⟩⟩
  · exact hs hst
  · exact hw hst hn

theorem Must.of_false (h : t.Must False) : t.Must P :=
  h.same rfl ⟨rfl, rfl⟩ (fun hb => hb) False.elim

theorem Current.settles (h : t.Current) (hu : Settles t u) (hm : u.Marks)
    (hmust : t.Must False) : u.Current := by
  have hlz : u.origin .laizi = t.origin .laizi :=
    (hu.origin .laizi).resolve_right fun h => by cases h.1
  have hmust' : u.Must False := by
    refine hmust.same hu.cfg ?_ ?_ id
    · rw [hu.toMld]
      exact ⟨rfl, rfl⟩
    · rw [hu.toRaces]
      exact id
  obtain ⟨p, hctrl | hctrl⟩ := hu.ctrl
  · refine ⟨hm, ?_, ?_, hmust'.of_false⟩
    · unfold LzFor
      rw [hctrl, hu.cfg, hlz]
      exact h.status
    · unfold LzFor
      rw [hctrl, hu.cfg, hlz]
      exact h.next
  · refine ⟨hm, ?_, ?_, hmust'.of_false⟩
    · rw [hctrl]
      intro hs
      cases hs
    · rw [hctrl]
      rintro - s hs
      obtain rfl := Option.some.inj hs
      intro hs'
      cases hs'

end Frame

section Settle

variable {t : Table}

theorem settlement_zero (t : Table) :
    (t.settlement 0).staleRead = t.staleRead ∧
      (t.settlement 0).sInfo.winner = 0 := by
  unfold settlement settleAwards
  dsimp only
  rw [if_pos rfl]
  split <;> simp

theorem capDizhu_winner (maxWin : Int) (l : List (Nat × Int)) (all : Int)
    (s : SInfo) : (capDizhu maxWin l all s).1.winner = s.winner := by
  induction l generalizing all s with
  | nil => rfl
  | cons kv l ih =>
      obtain ⟨k, v⟩ := kv
      rw [capDizhu, ih]
      exact (SInfo.winner_cap ..).1

theorem resumeSettlement_fields (t : Table) (answer : Int) (call : Pending) :
    (t.resumeSettlement answer call).staleRead = t.staleRead ∧
      (t.resumeSettlement answer call).sInfo.winner = t.sInfo.winner ∧
      (t.sInfo.award = none → t.resumeSettlement answer call = t) := by
  unfold resumeSettlement
  split
  · split
    · exact ⟨rfl, rfl, fun _ => rfl⟩
    · next k v _ _ hne =>
      have hcap := (SInfo.winner_cap t.sInfo k answer (decide (answer < v))).1
      dsimp only
      split
      · exact ⟨by simp, by simpa [SInfo.setAward] using hcap, fun h => absurd h hne⟩
      · exact ⟨rfl, hcap, fun h => absurd h hne⟩
  · split
    · exact ⟨rfl, rfl, fun _ => rfl⟩
    · next hne =>
      refine ⟨by simp, ?_, fun h => absurd h hne⟩
      simp [SInfo.setAward, capDizhu_winner]
  · exact ⟨rfl, rfl, fun _ => rfl⟩

theorem Current.settlement_zero (h : t.Current) (hm : t.Must False)
    (ha : t.cfg.isMld = true → t.isBreakGame = true) :
    (t.settlement 0).Current := by
  obtain ⟨hst, hw⟩ := t.settlement_zero
  refine h.settles (t.settles_settlement 0) ?_ hm
  refine h.toMarks.settles (t.settles_settlement 0) hst ?_ ?_
  · exact fun hne => absurd hw hne
  · exact fun hmld _ => .inl (ha hmld)

theorem Current.settlement (h : t.Current) (hm : t.Must False)
    (hd : t.play.dizhu ≠ 0) (w : Nat) : (t.settlement w).Current := by
  have hu := t.settles_settlement w
  refine h.settles hu ?_ hm
  refine h.toMarks.settles hu (hu.stale ?_) (fun _ => hd) ?_
  · exact h.origin_ne.2.2.2 hd
  · exact fun _ h0 => absurd h0 hd

end Settle

section Commands

variable {t u : Table} {p : Nat}

theorem Unused.resetHand (h : t.Unused) : t.resetHand.Marks := by
  constructor
  · constructor
    · intro hg
      rw [resetHand_cfg] at hg
      simp [hg, h.rangpaiNum hg]
    · intro hm
      rw [resetHand_cfg] at hm
      simp [hm, h.daoLaData hm]
    · intro hg
      rw [resetHand_cfg] at hg
      simp [h.laizi hg]
    · simpa using h.stale
  · intro hg
    rw [resetHand_cfg] at hg
    simp [hg]
  · intro hm
    rw [resetHand_cfg] at hm
    simp [hm]
  · simp
  · intro hd
    simp at hd
  · intro hw
    simp at hw
  · intro _ _
    simp

theorem Current.gameBegin (h : t.Marks) (hm : t.Must False) :
    t.gameBegin.Current := by
  unfold Table.gameBegin
  refine Current.of_wait ?_ ?_ ?_
  · exact h.same rfl rfl rfl rfl rfl fun hb => hb
  · intro hs
    cases hs
  · exact hm.same rfl ⟨rfl, rfl⟩ (fun hb => hb) False.elim

theorem Unused.newGame (h : t.Unused) (hm : t.isMustMen = false) (again : Bool) :
    (t.newGame again).Current := by
  unfold Table.newGame
  dsimp only
  generalize hu : { t with
    reFapaiNum := if again then t.reFapaiNum + 1 else t.reFapaiNum
    curRace := if again then t.curRace else t.curRace + 1 } = u
  have hreset : u.resetHand.Marks := by
    apply Unused.resetHand
    rw [← hu]
    exact ⟨h.rangpaiNum, h.daoLaData, h.laizi, h.stale⟩
  have hmust : u.resetHand.isMustMen = false := by
    rw [← hu]
    simpa using hm
  have hnone : u.resetHand.Must False := by
    intro hf
    rw [hmust] at hf
    cases hf
  split
  · exact Current.gameBegin hreset hnone
  · refine Current.of_enter ?_ ?_ rfl rfl ?_
    · exact hreset.same rfl rfl rfl rfl rfl fun hb => hb
    · intro hs
      split at hs <;> cases hs
    · exact hnone.same rfl ⟨rfl, rfl⟩ (fun hb => hb) False.elim

@[simp] theorem setDizhu_sInfo (t : Table) (d : Nat) (men : Option Nat) :
    (t.setDizhu d men).sInfo = t.sInfo := by
  simp [setDizhu, libSetDizhu]

@[simp] theorem setDizhu_toRaces (t : Table) (d : Nat) (men : Option Nat) :
    (t.setDizhu d men).toRaces = t.toRaces := by
  simp [setDizhu, libSetDizhu]

@[simp] theorem setDizhu_must (t : Table) (d : Nat) (men : Option Nat) :
    (t.setDizhu d men).isMustMen = t.isMustMen ∧
      (t.setDizhu d men).noZhuaCount = t.noZhuaCount := by
  simp [setDizhu, libSetDizhu]

theorem setDizhu_origin (t : Table) (d : Nat) (men : Option Nat) (f : HandField) :
    (t.setDizhu d men).origin f =
      if f = .nongmin then .thisHand else t.origin f := by
  simp [setDizhu, libSetDizhu]

theorem Marks.setDizhu (h : t.Marks) {d : Nat} (hd : d ≠ 0) (men : Option Nat) :
    (t.setDizhu d men).Marks := by
  have ho : ∀ f, f ≠ .nongmin → (t.setDizhu d men).origin f = t.origin f := by
    intro f hf
    rw [setDizhu_origin, if_neg hf]
  constructor
  · constructor
    · rw [setDizhu_cfg, ho _ (by decide)]
      exact h.rangpaiNum
    · rw [setDizhu_cfg, ho _ (by decide)]
      exact h.daoLaData
    · rw [setDizhu_cfg, ho _ (by decide)]
      exact h.laizi
    · have := h.origin_ne.1
      simp [Table.setDizhu, libSetDizhu, h.stale, this]
  · rw [setDizhu_cfg, ho _ (by decide)]
    exact h.rangpaiHand
  · rw [setDizhu_cfg, ho _ (by decide)]
    exact h.daoLaHand
  · rw [ho _ (by decide)]
    exact h.isChuntian
  · rw [setDizhu_origin, if_pos rfl]
    exact fun _ => rfl
  · rw [setDizhu_dizhu]
    exact fun _ => hd
  · rw [setDizhu_dizhu]
    exact fun _ h0 => absurd h0 hd

theorem libJiaoDizhu_marks (t : Table) (p rate : Nat) :
    (t.libJiaoDizhu p rate).2.sInfo = t.sInfo ∧
      (t.libJiaoDizhu p rate).2.toMld = t.toMld ∧
      (t.libJiaoDizhu p rate).2.toRaces = t.toRaces ∧
      (t.libJiaoDizhu p rate).2.toTrace = t.toTrace := by
  unfold libJiaoDizhu erJiaoDizhu norJiaoDizhu
  dsimp only
  split
  · split
    · simp
    · split
      · simp
      · split <;> simp
  · split
    · simp
    · split
      · simp
      · split
        · simp
        · split <;> simp

theorem Marks.jdzTable (h : t.Marks) (rate : Nat) {a : Act}
    (hb : Bids t (t.jdzTable p rate) a) :
    (t.jdzTable p rate).Marks ∧ (t.jdzTable p rate).toMld = t.toMld ∧
      (t.jdzTable p rate).toRaces = t.toRaces := by
  obtain ⟨hs, hm, hr, ht⟩ := t.libJiaoDizhu_marks p rate
  have hs' : (t.jdzTable p rate).sInfo = t.sInfo := hs
  have hr' : (t.jdzTable p rate).toRaces = t.toRaces := hr
  have ht' : (t.jdzTable p rate).toTrace = t.toTrace := ht
  refine ⟨?_, hm, hr'⟩
  refine h.same hb.cfg hb.dizhu hs' (by rw [ht']) (by rw [ht']) ?_
  rw [hr']
  exact id

theorem Current.noDizhu (h : t.Current) (hmld : t.cfg.isMld = false) :
    t.noDizhu.Current := by
  have hnone : t.isMustMen = false := by
    by_contra hm
    have := (h.must (by simpa using hm)).1
    rw [hmld] at this
    cases this
  have hmust : t.Must False := by
    intro hm
    rw [hnone] at hm
    cases hm
  have hmarks := h.toMarks
  unfold Table.noDizhu
  dsimp only
  split
  · refine Current.settlement_zero ?_ ?_ ?_
    · exact h.congr (hmarks.same rfl rfl rfl rfl rfl fun hb => hb) rfl rfl rfl
        ⟨rfl, rfl⟩ (fun hb => hb) ⟨rfl, rfl, rfl, rfl⟩
    · exact hmust.same rfl ⟨rfl, rfl⟩ (fun hb => hb) id
    · intro hm
      rw [show t.cfg.isMld = true from hm] at hmld
      cases hmld
  · refine Unused.newGame ?_ ?_ true
    · exact ⟨hmarks.rangpaiNum, hmarks.daoLaData, hmarks.laizi, hmarks.stale⟩
    · exact hnone

theorem lzFor_of_ne (hg : t.cfg.gameType ≠ .lz) (s : Status) : t.LzFor s :=
  fun _ h => absurd h hg

theorem Current.afterBidding (h : t.Marks) (hm : t.Must False) :
    t.afterBidding.Current := by
  unfold Table.afterBidding
  split
  · exact Current.of_wait h (fun hs => by cases hs) hm.of_false
  · split
    · exact Current.of_wait h (fun hs => by cases hs) hm.of_false
    · next hg =>
      refine Current.of_wait ?_ (lzFor_of_ne hg _) ?_
      · exact h.same rfl rfl rfl rfl rfl fun hb => hb
      · exact hm.same rfl ⟨rfl, rfl⟩ (fun hb => hb) False.elim

theorem Current.jiaoDizhu (h : t.Current) (hi : t.Inv) (hp : p ∈ t.cfg.seatList)
    (rate : Nat) : (t.jiaoDizhu p rate).table.Current := by
  rcases jiaoDizhu_cases hi.base hp rate with heq | ⟨hs, ⟨r, hbids⟩, hres⟩
  · rw [heq]
    exact h
  obtain ⟨hv, hvmld, hraces⟩ := h.toMarks.jdzTable rate hbids
  generalize (t.jiaoDizhu p rate).table = T at hres
  generalize t.jdzTable p rate = v at hbids hres hv hvmld hraces
  have hst := hi.status
  rw [hs] at hst
  obtain ⟨htime, hup⟩ := hi.quiet (by simp [hs]) (by simp [hs]) (by simp [hs])
  have hmust : v.Must False := by
    refine (h.must_broken (by simp [hs]) (by simp [hs])).same hbids.cfg ?_ ?_ id
    · rw [hvmld]
      exact ⟨rfl, rfl⟩
    · rw [hraces]
      exact id
  have hcur : v.Current := by
    refine Current.of_enter (s := .jdz) hv (fun h => by cases h) ?_ ?_ hmust.of_false
    · rw [hbids.toCtrl, hs]
    · rw [hbids.toCtrl, htime]
  have hland : ∀ {d}, d ∈ t.cfg.seatList →
      (v.setDizhu d none).Marks ∧ (v.setDizhu d none).Must False := by
    intro d hd
    refine ⟨hv.setDizhu (t.cfg.seat_pos hd) none, ?_⟩
    exact hmust.same (by simp) (by simp) (by simp) id
  rcases hres with rfl | rfl | ⟨-, -, rfl⟩ | ⟨d, hd, her, rfl⟩ | ⟨d, hd, -, rfl⟩
  · refine hcur.noDizhu ?_
    rw [hbids.cfg]
    exact hst.2
  · exact Current.of_wait hv (fun hs => by cases hs) hmust.of_false
  · exact Current.of_wait hv (fun hs => by cases hs) hmust.of_false
  · refine Current.of_wait (hland hd).1 (lzFor_of_ne ?_ _) (hland hd).2.of_false
    rw [setDizhu_cfg, hbids.cfg, her]
    decide
  · exact Current.afterBidding (hland hd).1 (hland hd).2

theorem Marks.write_rangpai (h : t.Marks) (her : t.cfg.gameType = .er) :
    (t.write .rangpaiNum).Marks := by
  constructor
  · constructor
    · exact fun hne => absurd her hne
    · intro hm
      simpa using h.daoLaData hm
    · intro hg
      simpa using h.laizi hg
    · exact h.stale
  · intro _
    simp
  · intro hm
    simpa using h.daoLaHand hm
  · simpa using h.isChuntian
  · intro hd
    simpa using h.nongmin hd
  · exact h.winner
  · exact h.award

theorem Marks.libErQiangDizhu (h : t.Marks) (her : t.cfg.gameType = .er)
    (p rate : Nat) :
    (t.libErQiangDizhu p rate).2.Marks ∧
      (t.libErQiangDizhu p rate).2.toMld = t.toMld ∧
      (t.libErQiangDizhu p rate).2.toRaces = t.toRaces := by
  have hadd : ∀ a n, Marks { t.addAct a with qiangDzCount := n } :=
    fun a n => h.same rfl rfl rfl rfl rfl fun hb => hb
  have hwrite : ∀ a n b, (({ t.addAct a with qiangDzCount := n }.readIf b
      .rangpaiNum).write .rangpaiNum).Marks := fun a n b =>
    ((hadd a n).readIf fun _ => (hadd a n).origin_ne.1).write_rangpai her
  unfold Table.libErQiangDizhu
  dsimp only
  split
  · split
    · refine ⟨?_, by simp, by simp⟩
      exact (hwrite _ _ _).same rfl rfl rfl rfl rfl fun hb => hb
    · refine ⟨?_, by simp, by simp⟩
      exact (hwrite _ _ _).same rfl rfl rfl rfl rfl fun hb => hb
  · refine ⟨?_, by simp, by simp⟩
    exact h.same rfl rfl rfl rfl rfl fun hb => hb

theorem Current.erQiangDizhu (h : t.Current) (hi : t.Inv) (p rate : Nat) :
    (t.erQiangDizhu p rate).table.Current := by
  by_cases hs : t.status = .erQiangdizhu
  · have hst := hi.status
    rw [hs] at hst
    obtain ⟨-, her, hcur⟩ := hst
    have hmarks : (t.erQdzTable p rate).Marks ∧
        (t.erQdzTable p rate).toMld = t.toMld ∧
        (t.erQdzTable p rate).toRaces = t.toRaces := by
      obtain ⟨hm, hmld, hr⟩ := h.toMarks.libErQiangDizhu her p rate
      exact ⟨hm.same rfl rfl rfl rfl rfl fun hb => hb, hmld, hr⟩
    rcases erQiangDizhu_cases her hcur p rate with heq | ⟨-, hbids, hres⟩
    · rw [heq]
      exact h
    generalize (t.erQiangDizhu p rate).table = T at hres
    generalize t.erQdzTable p rate = v at hbids hres hmarks
    obtain ⟨hv, hvmld, hraces⟩ := hmarks
    have hmust : v.Must False := by
      refine (h.must_broken (by simp [hs]) (by simp [hs])).same hbids.cfg ?_ ?_ id
      · rw [hvmld]
        exact ⟨rfl, rfl⟩
      · rw [hraces]
        exact id
    rcases hres with ⟨d, hd, rfl⟩ | ⟨-, rfl⟩
    · refine Current.of_wait (hv.setDizhu (t.cfg.seat_pos hd) none)
        (lzFor_of_ne ?_ _) ?_
      · rw [setDizhu_cfg, hbids.cfg, her]
        decide
      · exact hmust.same (by simp) (by simp) (by simp) False.elim
    · exact Current.of_wait hv (fun hs => by cases hs) hmust.of_false
  · rw [Table.erQiangDizhu, if_pos hs]
    exact h

theorem Current.jiabei (h : t.Current) (hi : t.Inv) (p rate : Nat) :
    (t.jiabei p rate).table.Current := by
  unfold Table.jiabei
  split
  · exact h
  · next hs =>
    replace hs : t.status = .jiabei := by
      simp only [not_or, not_not] at hs
      exact hs.1
    obtain ⟨htime, -⟩ := hi.quiet (by simp [hs]) (by simp [hs]) (by simp [hs])
    have hmust := h.must_broken (by simp [hs]) (by simp [hs])
    have hm := h.toMarks
    unfold libJiabei
    dsimp only
    split
    · split
      · refine Current.of_wait ?_ (fun hs => by cases hs) ?_
        · exact hm.same rfl rfl rfl rfl rfl fun hb => hb
        · exact hmust.same rfl ⟨rfl, rfl⟩ (fun hb => hb) False.elim
      · next hg =>
        refine Current.of_wait ?_ (lzFor_of_ne hg _) ?_
        · exact hm.same rfl rfl rfl rfl rfl fun hb => hb
        · exact hmust.same rfl ⟨rfl, rfl⟩ (fun hb => hb) False.elim
    · refine Current.of_enter (s := .jiabei) ?_ (fun hs => by cases hs) hs htime ?_
      · exact hm.same rfl rfl rfl rfl rfl fun hb => hb
      · exact hmust.same rfl ⟨rfl, rfl⟩ (fun hb => hb) False.elim

theorem Current.startCp (h : t.Marks) (hmld : t.cfg.isMld = true)
    (hm : t.Must False) : t.startCp.Current := by
  have hg : t.cfg.gameType ≠ .lz := by
    rw [t.cfg.mld_nor (by simpa [Config.isMld] using hmld)]
    decide
  unfold Table.startCp
  dsimp only
  refine Current.of_wait ?_ (lzFor_of_ne (by simpa using hg) _) ?_
  · exact h.same (by simp) (by simp) (by simp) (by simp) (by simp) (by simp)
  · exact hm.same (by simp) (by simp) (by simp) False.elim

theorem Current.men (h : t.Current) (hi : t.Inv) (hp : p ∈ t.cfg.seatList)
    (opt : Nat) : (t.men p opt).table.Current := by
  unfold Table.men
  split
  · exact h
  · next hs =>
    have hst := hi.status
    simp only [not_or, not_not] at hs
    rw [hs.1] at hst
    obtain ⟨hbid, hmld, -⟩ := hst
    have hm := h.toMarks
    have hup := (hi.quiet (by simp [hs]) (by simp [hs]) (by simp [hs])).2
    have hd := t.cfg.seat_pos hp
    split
    · exact h
    · split
      · dsimp only
        generalize hv : addMldAct _ OtherType.mldMen p .mldMen = v
        have hvm : v.Marks := by
          rw [← hv]
          exact hm.same (by simp) (by simp) (by simp) (by simp) (by simp) (by simp)
        have hvc : v.cfg = t.cfg := by
          rw [← hv]
          simp
        split
        · have hland := hvm.setDizhu hd (some 1)
          have hcfg : (v.setDizhu p (some 1)).cfg = t.cfg := by
            rw [setDizhu_cfg, hvc]
          generalize v.setDizhu p (some 1) = w at hland hcfg
          -- clearing the flag commutes with the start of the play
          have hstart : { w with isMustMen := false }.startCp.Current := by
            refine Current.startCp ?_ ?_ ?_
            · exact hland.same rfl rfl rfl rfl rfl fun hb => hb
            · rw [← hmld, ← hcfg]
            · intro hf
              cases hf
          exact hstart
        · next hno =>
          refine Current.of_wait (hvm.setDizhu hd _) (fun hs => by cases hs) ?_
          intro hf
          exact absurd hf hno
      · split
        · exact h
        · refine Current.of_wait ?_ (fun hs => by cases hs) ?_
          · exact hm.same (by simp) (by simp) (by simp) (by simp) (by simp) (by simp)
          · refine h.must.same (by simp) (by simp) (by simp) ?_
            rintro ⟨h0, -, -⟩
            exact ⟨rfl, by simpa using h0, by simpa using hup⟩

theorem Current.zhuaPai (h : t.Current) (hi : t.Inv) (hp : p ∈ t.cfg.seatList)
    (opt : Nat) (ho : t.NoOpenCall (.zhuaPai p opt)) :
    (t.zhuaPai p opt).table.Current := by
  unfold Table.zhuaPai
  split
  · exact h
  · next hs =>
    simp only [not_or, not_not] at hs
    have hm := h.toMarks
    have hup := (hi.quiet (by simp [hs]) (by simp [hs]) (by simp [hs])).2
    split
    · next hopt =>
      have hno := ho ⟨hs.1, hs.2, hopt⟩
      dsimp only
      generalize hv : addMldAct _ OtherType.mldZhua p .mldZp = v
      have hvm : v.Marks := by
        rw [← hv]
        exact hm.same (by simp) (by simp) (by simp) (by simp) (by simp) (by simp)
      have hvno : v.isMustMen = false := by
        rw [← hv]
        simpa using hno
      have hland := hvm.setDizhu (t.cfg.seat_pos hp) (some 0)
      refine Current.of_wait ?_ (fun hs => by cases hs) ?_
      · exact hland.same (by simp) (by simp) (by simp) (by simp) (by simp) (by simp)
      · intro hf
        simp [hvno] at hf
    · refine Current.of_wait ?_ (fun hs => by cases hs) ?_
      · exact hm.same (by simp) (by simp) (by simp) (by simp) (by simp) (by simp)
      · intro hf
        obtain ⟨hmld, hno, hor⟩ := h.must (by simpa using hf)
        refine ⟨by simpa using hmld, ?_, ?_⟩
        · simp
          omega
        · refine hor.imp (fun hb => by simpa using hb) ?_
          rintro ⟨h0, -, -⟩
          exact ⟨rfl, by simpa using h0, by simpa using hup⟩

theorem Current.dao (h : t.Current) (hi : t.Inv) (hs : t.status = .mldJb)
    (p opt : Nat) : (t.dao p opt).table.Current := by
  have hst := hi.status
  rw [hs] at hst
  obtain ⟨hdouble, hmld, -⟩ := hst
  have hmust := h.must_broken (by simp [hs]) (by simp [hs])
  obtain ⟨htime, -⟩ := hi.quiet (by simp [hs]) (by simp [hs]) (by simp [hs])
  unfold Table.dao
  split
  · exact h
  · dsimp only
    generalize hv : addMldAct (t.daoRate p opt) _ p .mldDao = v
    have hvm : v.Marks := by
      have hread := h.toMarks.readIf (f := .nongmin) (b := decide (0 < opt))
        fun _ => h.origin_ne.2.2.2 hdouble.1
      rw [← hv]
      exact hread.same (by simp) (by simp) (by simp) (by simp) (by simp) (by simp)
    have hvmust : v.Must False := by
      rw [← hv]
      exact hmust.same (by simp) (by simp) (by simp) id
    have hvc : v.cfg.isMld = true := by
      rw [← hv]
      simpa using hmld
    have hvctrl : v.toCtrl = t.toCtrl := by
      rw [← hv]
      simp
    split
    · split
      · refine Current.of_wait ?_ (fun hs => by cases hs) ?_
        · exact hvm.same rfl rfl rfl rfl rfl fun hb => hb
        · exact hvmust.same rfl ⟨rfl, rfl⟩ (fun hb => hb) False.elim
      · refine Current.startCp ?_ hvc ?_
        · exact hvm.same rfl rfl rfl rfl rfl fun hb => hb
        · exact hvmust.same rfl ⟨rfl, rfl⟩ (fun hb => hb) id
    · refine Current.of_enter (s := .mldJb) ?_ (fun hs => by cases hs) ?_ ?_ ?_
      · exact hvm.same rfl rfl rfl rfl rfl fun hb => hb
      · exact (congrArg Ctrl.status hvctrl).trans hs
      · exact (congrArg Ctrl.time hvctrl).trans htime
      · exact hvmust.same rfl ⟨rfl, rfl⟩ (fun hb => hb) False.elim

theorem Current.laEnd (h : t.Marks) (hmld : t.cfg.isMld = true)
    (hm : t.Must False) (p opt : Nat) : (t.laEnd p opt).table.Current := by
  unfold Table.laEnd
  dsimp only
  refine Current.startCp ?_ (by simpa using hmld) ?_
  · exact h.same (by simp) (by simp) (by simp) (by simp) (by simp) (by simp)
  · exact hm.same (by simp) (by simp) (by simp) id

theorem Current.la (h : t.Current) (hi : t.Inv) (hs : t.status = .mldJb)
    (hcur : t.play.curP = t.play.dizhu) (p opt : Nat) :
    (t.la p opt).table.Current := by
  have hst := hi.status
  rw [hs] at hst
  obtain ⟨hdouble, hmld, -, -, hall⟩ := hst
  have hmust := h.must_broken (by simp [hs]) (by simp [hs])
  by_cases hopt : 0 < opt
  · have hthree := nongmin_three hi.base hdouble.1 (isMld_gameType t.cfg hmld)
    replace hall := hall hcur
    rw [hthree] at hall
    obtain ⟨r, hla⟩ := la_eq (p := p) hopt (hall t.nm1 (by simp))
      (hall t.nm2 (by simp))
    rw [hla]
    have hread := h.toMarks.read (f := .nongmin) (h.origin_ne.2.2.2 hdouble.1)
    refine Current.laEnd ?_ ?_ ?_ p opt
    · exact hread.same rfl rfl rfl rfl rfl fun hb => hb
    · exact hmld
    · exact hmust.same rfl ⟨rfl, rfl⟩ (fun hb => hb) id
  · rw [Table.la, if_neg hopt]
    exact Current.laEnd h.toMarks hmld hmust p opt

theorem Current.daoLa (h : t.Current) (hi : t.Inv) (p opt : Nat) :
    (t.daoLa p opt).table.Current := by
  unfold Table.daoLa
  split
  · exact h
  · next hs =>
    replace hs : t.status = .mldJb := by simpa using hs
    have hread : (t.read .daoLaData).Current := by
      refine h.congr (h.toMarks.read h.origin_ne.2.1) rfl rfl rfl ⟨rfl, rfl⟩
        (fun hb => hb) ⟨rfl, rfl, rfl, rfl⟩
    have hinv : (t.read .daoLaData).Inv := hi.congr rfl rfl ⟨rfl, rfl⟩ rfl rfl
    dsimp only
    split
    · exact hread
    · split
      · exact hread
      · split
        · next hla => exact hread.la hinv hs hla p opt
        · exact hread.dao hinv hs p opt

theorem deduct_marks (t : Table) (p : Nat) (a : ChupaiArgs) :
    (t.deduct p a).1.origin = t.origin ∧
      (t.deduct p a).1.staleRead =
        (t.staleRead || t.origin .laizi == .earlierHand) := by
  simp [deduct]

theorem Marks.libChupai (h : t.Marks) (hlz : t.origin .laizi ≠ .earlierHand)
    (p : Nat) (a : ChupaiArgs) :
    (t.libChupai p a).table.Marks ∧
      (t.libChupai p a).table.origin = t.origin := by
  unfold Table.libChupai
  split
  · exact ⟨h, rfl⟩
  · exact ⟨h, rfl⟩
  · dsimp only
    split
    · refine ⟨h.same ?_ ?_ ?_ ?_ ?_ ?_, ?_⟩ <;> simp
    · obtain ⟨ho, hst⟩ := (t.addAct (a.act p)).deduct_marks p a
      obtain ⟨hc, hd, -, hh, -, -, -, hr, -⟩ := (t.addAct (a.act p)).deduct_frame p a
      generalize (t.addAct (a.act p)).deduct p a = q at ho hst hc hd hh hr
      obtain ⟨u, ok⟩ := q
      dsimp only at ho hst hc hd hh hr
      have hu : u.Marks := by
        refine h.same hc hd (by rw [hh]; rfl) ho ?_ ?_
        · rw [hst]
          simp [hlz]
        · rw [hr]
          exact id
      cases ok with
      | false => exact ⟨hu, ho⟩
      | true =>
          dsimp only
          generalize hw : Table.readIf { u with play := { u.play with
            remainPai := Function.update u.play.remainPai p
              (u.play.remainPai p - a.mergeCpList.length) } } _ .rangpaiNum = w
          have hwm : w.Marks ∧ w.origin = t.origin := by
            rw [← hw]
            refine ⟨Marks.readIf ?_ fun _ => ?_, ho⟩
            · exact hu.same rfl rfl rfl rfl rfl fun hb => hb
            · exact hu.origin_ne.1
          split
          · exact hwm
          · refine ⟨hwm.1.same ?_ ?_ ?_ ?_ ?_ ?_, ?_⟩ <;> simp [hwm.2]

theorem Current.chupai (h : t.Current) (hi : t.Inv) (p : Nat) (a : ChupaiArgs) :
    (t.chupai p a).table.Current := by
  unfold Table.chupai
  split
  · exact h
  · next hs =>
    replace hs : t.status = .cp := by
      simp only [not_or, not_not] at hs
      exact hs.1
    have hdz := hi.status
    rw [hs] at hdz
    replace hdz : t.play.dizhu ≠ 0 := hdz
    have hlzcp : t.cfg.gameType = .lz → t.origin .laizi = .thisHand := h.status hs
    have hlz : t.origin .laizi ≠ .earlierHand := by
      by_cases hg : t.cfg.gameType = .lz
      · simp [hlzcp hg]
      · simp [h.laizi hg]
    obtain ⟨htime, hup⟩ := hi.quiet (by simp [hs]) (by simp [hs]) (by simp [hs])
    have hmust := h.must_broken (by simp [hs]) (by simp [hs])
    have hmarks := h.toMarks.libChupai hlz p a
    have hspec := t.libChupai_spec p a
    generalize t.libChupai p a = q at hmarks hspec
    obtain ⟨res, u⟩ := q
    obtain ⟨hum, huo⟩ := hmarks
    dsimp only at hum huo hspec
    have hframe : u.cfg = t.cfg ∧ u.play.dizhu = t.play.dizhu ∧
        u.toCtrl = t.toCtrl ∧ u.toMld = t.toMld ∧ u.toRaces = t.toRaces := by
      rcases hspec with ⟨heq, -⟩ | ⟨hplays, -⟩
      · rw [heq]
        exact ⟨rfl, rfl, rfl, rfl, rfl⟩
      · exact ⟨hplays.cfg, hplays.dizhu, hplays.toCtrl, hplays.toMld, hplays.toRaces⟩
    obtain ⟨huc, hud, huctrl, humld, huraces⟩ := hframe
    have humust : u.Must False := by
      refine hmust.same huc ?_ ?_ id
      · rw [humld]
        exact ⟨rfl, rfl⟩
      · rw [huraces]
        exact id
    have hulz : u.LzFor .cp := by
      intro _
      rw [huc, huo]
      exact hlzcp
    have hcur : ∀ v : Table, v.Marks → v.cfg = u.cfg → v.origin = u.origin →
        v.toCtrl = u.toCtrl → v.Must False → v.Current := by
      intro v hv hc ho hctrl hvmust
      refine Current.of_enter (s := .cp) hv ?_ ?_ ?_ hvmust.of_false
      · intro hcp
        rw [hc, ho]
        exact hulz hcp
      · rw [hctrl, huctrl, hs]
      · rw [hctrl, huctrl, htime]
    cases res with
    | none => exact hcur u hum rfl rfl rfl humust
    | some status =>
        dsimp only
        split
        · generalize hv : sendAll (u.countPlay p a.type) _ = v
          have hvm : v.Marks := by
            rw [← hv]
            exact hum.same (by simp) (by simp) (by simp) (by simp) (by simp) (by simp)
          have hvmust : v.Must False := by
            rw [← hv]
            exact humust.same (by simp) (by simp) (by simp) id
          have hvc : v.cfg = u.cfg ∧ v.origin = u.origin ∧ v.toCtrl = u.toCtrl ∧
              v.play.dizhu = u.play.dizhu := by
            rw [← hv]
            simp
          split
          · refine (hcur v hvm hvc.1 hvc.2.1 hvc.2.2.1 hvmust).settlement hvmust ?_ p
            rw [hvc.2.2.2, hud]
            exact hdz
          · refine Current.of_wait hvm ?_ hvmust.of_false
            intro hcp
            rw [hvc.1, hvc.2.1]
            exact hulz hcp
        · exact hcur u hum rfl rfl rfl humust

end Commands

section Timer

variable {t : Table}

theorem Current.mldMenPermit (h : t.Marks) (hm : t.Must True)
    (hs : t.MayEnter .mldMen) (hu : t.updating = none) :
    t.mldMenPermit.Current := by
  unfold Table.mldMenPermit
  dsimp only
  refine Current.of_enter (s := .mldMen) ?_ (fun hs => by cases hs) rfl rfl ?_
  · exact h.same rfl rfl rfl rfl rfl fun hb => hb
  · intro hf
    replace hf : (t.isMustMen || decide (1 < t.noZhuaCount)) = true := hf
    refine ⟨hs.2.1, ?_, .inr ⟨rfl, hs.1.1, hu⟩⟩
    rcases Bool.or_eq_true .. ▸ hf with hmust | hno
    · exact (hm hmust).2.1
    · simpa using hno

theorem Current.createLz (h : t.Marks) (hm : t.Must False)
    (hg : t.cfg.gameType = .lz) (rand : Nat) : (t.createLz rand).Current := by
  unfold Table.createLz
  dsimp only
  refine Current.of_wait ?_ ?_ ?_
  · constructor
    · constructor
      · intro hne
        simpa using h.rangpaiNum hne
      · intro hmld
        simpa using h.daoLaData hmld
      · exact fun hne => absurd hg hne
      · exact h.stale
    · intro her
      simpa using h.rangpaiHand her
    · intro hmld
      simpa using h.daoLaHand hmld
    · simpa using h.isChuntian
    · intro hd
      simpa using h.nongmin hd
    · exact h.winner
    · exact h.award
  · intro _ _
    simp
  · exact hm.same rfl ⟨rfl, rfl⟩ (fun hb => hb) False.elim

theorem Current.changeStatus (h : t.Marks) {s : Status} (hlz : t.LzFor s)
    (hs : t.MayEnter s) (hu : t.updating = none) (hm : t.Must (s = .mldMen))
    (rand : Nat) : (t.changeStatus rand s).Current := by
  have hbroken : s ≠ .mldMen → t.Must False := fun hne =>
    hm.same rfl ⟨rfl, rfl⟩ (fun hb => hb) fun h => hne h
  have henter : ∀ u : Table, s ≠ .mldMen → u.Marks → u.cfg = t.cfg →
      u.origin = t.origin → u.toMld = t.toMld → u.isBreakGame = t.isBreakGame →
      u.status = s → u.time = false → u.Current := by
    intro u hne hum hc ho hmld hb hst ht
    refine Current.of_enter hum ?_ hst ht ?_
    · intro hcp
      rw [hc, ho]
      exact hlz hcp
    · refine (hbroken hne).same hc ?_ ?_ False.elim
      · rw [hmld]
        exact ⟨rfl, rfl⟩
      · rw [hb]
        exact id
  have hsame : ∀ u : Table, u.cfg = t.cfg → u.play.dizhu = t.play.dizhu →
      u.sInfo = t.sInfo → u.toTrace = t.toTrace → u.isBreakGame = t.isBreakGame →
      u.Marks := by
    intro u hc hd hi ht hb
    refine h.same hc hd hi (by rw [ht]) (by rw [ht]) ?_
    rw [hb]
    exact id
  cases s with
  | gameBegin => exact Current.gameBegin h (hbroken (by simp))
  | mldMen =>
      refine Current.mldMenPermit h ?_ hs hu
      exact hm.same rfl ⟨rfl, rfl⟩ (fun hb => hb) fun _ => trivial
  | mldJb =>
      have hread := h.read (f := .daoLaData) h.origin_ne.2.1
      refine henter _ (by simp) ?_ rfl rfl rfl rfl rfl rfl
      exact hread.same rfl rfl rfl rfl rfl fun hb => hb
  | createLz => exact Current.createLz h (hbroken (by simp)) hs.2 rand
  | _ =>
      exact henter _ (by simp) (hsame _ rfl rfl rfl rfl rfl) rfl rfl rfl rfl rfl rfl

theorem Current.update (h : t.Current) (hi : t.Inv) (rand : Nat) :
    (t.update rand).Current := by
  unfold Table.update
  split
  · next htime =>
    have hmarks : Marks { t with time := false } :=
      h.toMarks.same rfl rfl rfl rfl rfl fun hb => hb
    dsimp only
    split
    · next hnone =>
      refine ⟨hmarks, h.status, fun ht => absurd ht Bool.false_ne_true, ?_⟩
      exact h.must.same rfl ⟨rfl, rfl⟩ (fun hb => hb) id
    · next s hs =>
      refine Current.changeStatus hmarks (h.next htime.1 s hs) ?_ htime.2 ?_ rand
      · exact (mayEnter_congr rfl rfl rfl s).mpr (hi.next htime.1 s hs)
      · refine h.must.same rfl ⟨rfl, rfl⟩ (fun hb => hb) ?_
        rintro ⟨-, -, hst | ⟨-, hn⟩⟩
        · have := (hi.quiet (by simp [hst]) (by simp [hst]) (by simp [hst])).1
          rw [htime.1] at this
          cases this
        · rw [hs] at hn
          exact Option.some.inj hn
  · exact h

theorem Current.gameover (h : t.Current) (hm : t.Must False) :
    t.gameover.Current := by
  refine Current.of_enter (s := .gameover) ?_ (fun hs => by cases hs) rfl rfl ?_
  · exact h.toMarks.same rfl rfl rfl rfl rfl fun hb => hb
  · exact hm.same rfl ⟨rfl, rfl⟩ (fun hb => hb) False.elim

theorem Current.cancelGame (h : t.Current) : t.cancelGame.table.Current := by
  unfold Table.cancelGame
  split
  · exact h
  · next hs =>
    replace hs : t.status = .waitP := by simpa using hs
    refine Current.of_enter (s := .gamecancel) ?_ (fun hs => by cases hs) rfl rfl ?_
    · exact h.toMarks.same rfl rfl rfl rfl rfl fun hb => hb
    · exact (h.must_broken (by simp [hs]) (by simp [hs])).same rfl ⟨rfl, rfl⟩
        (fun hb => hb) False.elim

theorem Current.breakGame (h : t.Current) : t.breakGame.table.Current := by
  unfold Table.breakGame
  split
  · exact h
  · have hbreak : Current { t with isBreakGame := true } := by
      refine h.congr ?_ rfl rfl rfl ⟨rfl, rfl⟩ (fun _ => rfl) ⟨rfl, rfl, rfl, rfl⟩
      exact h.toMarks.same rfl rfl rfl rfl rfl fun _ => rfl
    have hmust : Must { t with isBreakGame := true } False := by
      intro hm
      obtain ⟨hmld, hno, -⟩ := h.must hm
      exact ⟨hmld, hno, .inl rfl⟩
    dsimp only
    split
    · exact hbreak.gameover hmust
    · split
      · exact hbreak.settlement_zero hmust fun _ => rfl
      · exact hbreak

theorem Current.later {s : Status} (h : t.Marks) (hst : t.status ≠ .cp)
    (hs : s ≠ .cp) (hm : t.Must False) : (t.later s).Current where
  toMarks := h.same rfl rfl rfl rfl rfl fun hb => hb
  status hcp := absurd hcp hst
  next := by
    rintro - s' hs'
    obtain rfl := Option.some.inj hs'
    exact fun hcp => absurd hcp hs
  must := hm.same rfl ⟨rfl, rfl⟩ (fun hb => hb) False.elim

theorem Current.fapai (h : t.Current) (hi : t.Inv) (hu : t.updating = some .fapai)
    (ρ : Nat → Nat) (rand : Nat) :
    ({ t with updating := none }.fapai ρ rand).Current := by
  have hst : t.status ≠ .cp := by
    rcases (hi.dealing hu).2 with hst | hst <;> simp [hst]
  have hmust : t.Must False := by
    refine h.must.same rfl ⟨rfl, rfl⟩ (fun hb => hb) ?_
    rintro ⟨-, hup, -⟩
    rw [hu] at hup
    cases hup
  unfold Table.fapai
  dsimp only
  split
  · refine Current.later ?_ hst (by decide) ?_
    · exact h.toMarks.same rfl rfl rfl rfl rfl fun hb => hb
    · exact hmust.same rfl ⟨rfl, rfl⟩ (fun hb => hb) id
  · refine Current.later ?_ hst (by decide) ?_
    · exact h.toMarks.same rfl rfl rfl rfl rfl fun hb => hb
    · exact hmust.same rfl ⟨rfl, rfl⟩ (fun hb => hb) id

theorem Current.settlementFinish (h : t.Current) (hi : t.Inv)
    (hu : t.updating = some .score) (F : NumFormat) (answer : Nat → Int → Int) :
    (settlementFinish F { t with updating := none } answer).Current := by
  have hst : t.status ≠ .cp := by
    rcases hi.paying hu with hst | hst <;> simp [hst]
  have hmust : t.Must False := by
    refine h.must.same rfl ⟨rfl, rfl⟩ (fun hb => hb) ?_
    rintro ⟨-, hup, -⟩
    rw [hu] at hup
    cases hup
  -- the payment reads `nongmin` only if a seat has won
  have hread : ((t.readIf (t.sInfo.winner = 4 ∨ t.sInfo.winner = 5)
      .nongmin).read .isChuntian).Marks := by
    refine Marks.read (Marks.readIf h.toMarks fun hw => ?_) h.origin_ne.2.2.1
    refine h.origin_ne.2.2.2 (h.winner ?_)
    rcases of_decide_eq_true hw with hw | hw <;> simp [hw]
  unfold Table.settlementFinish
  dsimp only
  unfold Table.nextGame
  split
  · next hnext =>
    refine Unused.newGame ?_ ?_ false
    · exact ⟨hread.rangpaiNum, hread.daoLaData, hread.laizi, hread.stale⟩
    · by_contra hf
      have hm : t.isMustMen = true := by simpa using hf
      rcases (hmust hm).2.2 with hb | hb
      · exact hnext.2 hb
      · exact hb
  · refine Current.later ?_ hst (by decide) ?_
    · refine hread.of_sInfo rfl rfl ?_ rfl rfl fun hb => hb
      intro hw
      replace hw : t.sInfo.winner = 0 := hw
      constructor <;> simp [calculateScore, hw]
    · exact hmust.same rfl ⟨rfl, rfl⟩ (fun hb => hb) id

end Timer

/-! ## Steps and runs -/

theorem Current.aside {t u : Table} (h : t.Current) (hc : u.cfg = t.cfg)
    (hp : u.play = t.play) (hs : u.sInfo = t.sInfo) (ht : u.toTrace = t.toTrace)
    (hm : u.toMld = t.toMld) (hb : u.isBreakGame = t.isBreakGame)
    (hctrl : u.status = t.status ∧ u.nextStatus = t.nextStatus ∧ u.time = t.time ∧
      u.updating = t.updating) : u.Current := by
  refine h.congr ?_ hc (by rw [hp]) (by rw [ht]) (by rw [hm]; exact ⟨rfl, rfl⟩) ?_ hctrl
  · refine h.toMarks.same hc (by rw [hp]) hs (by rw [ht]) (by rw [ht]) ?_
    rw [hb]
    exact id
  · rw [hb]
    exact id

theorem Current.readyCmd {t : Table} (h : t.Current) (seat : Nat)
    (hs : t.status = .waitP ∨ t.status = .ready) : (t.readyCmd seat).table.Current := by
  unfold Table.readyCmd
  split
  · dsimp only
    split
    · refine Current.gameBegin ?_ ?_
      · exact h.toMarks.same rfl rfl rfl rfl rfl fun hb => hb
      · have hbroken : t.Must False := by
          rcases hs with hs | hs <;> exact h.must_broken (by simp [hs]) (by simp [hs])
        exact hbroken.same rfl ⟨rfl, rfl⟩ (fun hb => hb) id
    · exact h.aside rfl rfl rfl rfl rfl rfl ⟨rfl, rfl, rfl, rfl⟩
  · exact h

theorem Current.awarded {t : Table} (h : t.Current) (ha : t.sInfo.award ≠ none) :
    t.Must False := by
  intro hm
  obtain ⟨hmld, hno, hor⟩ := h.must hm
  refine ⟨hmld, hno, ?_⟩
  rcases hor with hb | ⟨hd, -⟩
  · exact .inl hb
  · exact .inl ((h.award hmld hd).resolve_right ha)

theorem Current.capAnswer {t : Table} (h : t.Current) (answer : Int) (call : Pending) :
    ({ t with pending := t.pending.erase call }.resumeSettlement answer call).Current := by
  generalize hu : { t with pending := t.pending.erase call } = u
  have hcur : u.Current := by
    rw [← hu]
    exact h.aside rfl rfl rfl rfl rfl rfl ⟨rfl, rfl, rfl, rfl⟩
  obtain ⟨hstale, hwin, hnone⟩ := u.resumeSettlement_fields answer call
  by_cases ha : u.sInfo.award = none
  · rw [hnone ha]
    exact hcur
  · have hsettles := settles_resumeSettlement u answer call
    refine hcur.settles hsettles ?_ (hcur.awarded ha)
    refine hcur.toMarks.settles hsettles hstale ?_ ?_
    · rw [hwin]
      exact hcur.winner
    · exact fun hmld hd => .inl ((hcur.award hmld hd).resolve_right ha)

theorem Current.step {t : Table} (h : t.Current) (hi : t.Inv) (F : NumFormat) {e : Event}
    (he : t.Legal e) (ho : t.NoOpenCall e) : (t.step F e).Current := by
  unfold Table.step
  split
  · exact h
  · cases e with
    | join id seat =>
        simp only [handle, Table.join]
        split
        · exact h
        · split
          · exact h
          · exact h.aside rfl rfl rfl rfl rfl rfl ⟨rfl, rfl, rfl, rfl⟩
    | playerExitGame seat =>
        simp only [handle, Table.playerExitGame]
        split
        · exact h.aside rfl rfl rfl rfl rfl rfl ⟨rfl, rfl, rfl, rfl⟩
        · exact h.aside rfl rfl rfl rfl rfl rfl ⟨rfl, rfl, rfl, rfl⟩
    | ready seat => exact h.readyCmd seat he.2
    | jiaoDizhu seat rate => exact h.jiaoDizhu hi he rate
    | jiabei seat rate => exact h.jiabei hi seat rate
    | men seat opt => exact h.men hi he opt
    | zhuaPai seat opt => exact h.zhuaPai hi he opt ho
    | daoLa seat opt => exact h.daoLa hi seat opt
    | erQiangDizhu seat rate => exact h.erQiangDizhu hi seat rate
    | chupai seat args => exact h.chupai hi seat args
    | auto seat type => exact h.aside rfl rfl rfl rfl rfl rfl ⟨rfl, rfl, rfl, rfl⟩
    | cancelGame => exact h.cancelGame
    | breakGame => exact h.breakGame
    | overTimeCancelGame =>
        simp only [handle, Table.overTimeCancelGame]
        split
        · exact h.cancelGame
        · exact h.breakGame
    | update rand => exact h.update hi rand
    | fapaiAnswer ρ rand =>
        simp only [handle]
        split
        · next hu => exact h.fapai hi hu ρ rand
        · exact h
    | capAnswer call answer =>
        simp only [handle]
        split
        · exact h.capAnswer answer call
        · exact h
    | scoreAnswer answer =>
        simp only [handle]
        split
        · next hu => exact h.settlementFinish hi hu F answer
        · exact h

theorem current_newTable (cfg : Config) : (newTable cfg).Current := by
  refine Unused.newGame ⟨?_, ?_, ?_, rfl⟩ rfl false <;> exact fun _ => rfl

/-- If nobody calls openly while a blind call is due, then a hand reads no value of
an earlier hand, and its blind bidding starts without `is_must_men`. -/
theorem no_leak {F : NumFormat} {cfg : Config} {t : Table}
    (h : Reach (Table.step F) (fun t e => t.Legal e ∧ t.NoOpenCall e) (newTable cfg) t) :
    t.staleRead = false ∧
      (t.status = .mldMen → t.noZhuaCount = 0 → t.isMustMen = false) := by
  have hinv : t.Inv ∧ t.Current := by
    refine Reach.invariant (P := fun t => t.Inv ∧ t.Current)
      ⟨newTable_inv cfg, current_newTable cfg⟩ ?_ h
    rintro u e ⟨hi, hc⟩ ⟨he, ho⟩
    exact ⟨hi.step F he, hc.step hi F he ho⟩
  refine ⟨hinv.2.stale, fun _ hno => ?_⟩
  by_contra hm
  obtain ⟨-, hcount, -⟩ := hinv.2.must (by simpa using hm)
  omega

def twoHands : Config := { jdzType := .mld, raceCount := 2 }

def declined : List Event :=
  [.join 1 none, .join 2 none, .join 3 none, .ready 1, .ready 2, .ready 3, .update 0,
    .fapaiAnswer pairsDeal 1, .update 0, .men 2 0, .update 0, .zhuaPai 2 0, .update 0,
    .men 3 0, .update 0, .zhuaPai 3 0, .update 0]

def nextDeal : List Event :=
  [.chupai 1 pairsPlay, .update 0, .scoreAnswer fun _ _ => 0, .ready 1, .ready 2, .ready 3,
    .update 0, .fapaiAnswer (fun _ => 0) 0, .update 0]

def blindCall : List Event := declined ++ [.men 1 1, .update 0] ++ nextDeal

theorem no_leak_second :
    (after twoHands blindCall).curRace = 2 ∧ (after twoHands blindCall).status = .mldMen ∧
      (after twoHands blindCall).staleRead = false ∧
      (after twoHands blindCall).isMustMen = false := by
  obtain ⟨hstale, hmust⟩ := no_leak (F := .exact) (t := after twoHands blindCall)
    (reach_run (by decide +kernel))
  exact ⟨by decide +kernel, by decide +kernel, hstale,
    hmust (by decide +kernel) (by decide +kernel)⟩

def openCall : List Event :=
  declined ++ [.zhuaPai 1 1, .update 0, .daoLa 2 0, .daoLa 3 0, .update 0] ++ nextDeal

theorem must_men_leaks :
    Reachable .exact twoHands (after twoHands openCall) ∧
      (after twoHands openCall).status = .mldMen ∧
      (after twoHands openCall).noZhuaCount = 0 ∧
      (after twoHands openCall).isMustMen = true :=
  ⟨reachable_after (by decide +kernel), by decide +kernel, by decide +kernel,
    by decide +kernel⟩

end Table

end JyQipai.Ddz
