import JyQipai.Ddz.Control

/-!
# Blind bidding

In the blind mode a seat may call for the landlord before it looks at its cards
(`men`), or look and then call openly or decline (`zhua_pai`).  The room keeps
what a seat has done in `men_data`, but it reads `men_data` only when a seat asks
to look: the order of the two commands is left to the clients.
-/

namespace JyQipai.Ddz

open JyQipai.Lib

def Looked (l : List Act) (p : Nat) : Prop :=
  ∃ a ∈ l, a.type = OtherType.mldKp ∧ a.p = p

instance (l : List Act) (p : Nat) : Decidable (Looked l p) :=
  inferInstanceAs (Decidable (∃ a ∈ l, a.type = OtherType.mldKp ∧ a.p = p))

/-- An action fits the actions before it: a blind call comes from a seat that
has not looked, an open call or a refusal from one that has. -/
def BlindAct (l : List Act) (a : Act) : Prop :=
  (a.type = OtherType.mldMen → ¬ Looked l a.p) ∧
    (a.type = OtherType.mldZhua ∨ a.type = OtherType.mldBz → Looked l a.p)

def BlindOrder (l : List Act) : Prop :=
  ∀ i a, l[i]? = some a → BlindAct (l.take i) a

theorem looked_append {l : List Act} {a : Act} {p : Nat} :
    Looked (l ++ [a]) p ↔ Looked l p ∨ a.type = OtherType.mldKp ∧ a.p = p := by
  simp [Looked, or_and_right, exists_or]

theorem BlindOrder.append {l : List Act} {a : Act} (h : BlindOrder l)
    (ha : BlindAct l a) : BlindOrder (l ++ [a]) := by
  intro i b hb
  rcases Nat.lt_trichotomy i l.length with hi | rfl | hi
  · rw [List.getElem?_append_left hi] at hb
    rw [List.take_append_of_le_length hi.le]
    exact h i b hb
  · obtain rfl : a = b := by simpa using hb
    simpa using ha
  · rw [List.getElem?_eq_none (by simp; omega)] at hb
    cases hb

def Plain (type : Nat) : Prop :=
  type ∉ [OtherType.mldKp, OtherType.mldMen, OtherType.mldZhua, OtherType.mldBz]

instance (type : Nat) : Decidable (Plain type) :=
  inferInstanceAs (Decidable (¬ _))

theorem Plain.blindAct {a : Act} (h : Plain a.type) (l : List Act) :
    BlindAct l a := by
  simp only [Plain, List.mem_cons, List.not_mem_nil, or_false, not_or] at h
  exact ⟨fun hm => absurd hm h.2.1,
    fun hz => hz.elim (absurd · h.2.2.1) (absurd · h.2.2.2)⟩

namespace Table

/-- The action list keeps the order of blind bidding, and `men_data` knows who
has looked. -/
structure Blind (t : Table) : Prop where
  order : BlindOrder t.play.actList
  looked : ∀ s, t.menData s = some 0 ↔ Looked t.play.actList s
  open_ : t.cfg.isMld = false → ∀ s, t.menData s = none

/-- The clients bid in the right order: the seat in turn calls blind only if it
has not looked, and answers openly only if it has. -/
def InOrder (t : Table) : Event → Prop
  | .men seat opt =>
      t.status = .mldMen ∧ t.play.curP = seat ∧ 0 < opt → t.menData seat ≠ some 0
  | .zhuaPai seat _ =>
      t.status = .mldMen ∧ t.play.curP = seat → t.menData seat = some 0
  | _ => True

instance (t : Table) : ∀ e, Decidable (t.InOrder e) := by
  rintro (_ | _) <;> unfold InOrder <;> infer_instance

variable {t u : Table}

section Frame

theorem Blind.same (h : t.Blind) (hc : u.cfg = t.cfg)
    (ha : u.play.actList = t.play.actList) (hm : u.menData = t.menData) :
    u.Blind := by
  obtain ⟨ho, hl, hn⟩ := h
  constructor
  · rwa [ha]
  · rwa [ha, hm]
  · rwa [hc, hm]

theorem Blind.plain {a : Act} (h : t.Blind) (hp : Plain a.type)
    (hc : u.cfg = t.cfg) (ha : u.play.actList = t.play.actList ++ [a])
    (hm : u.menData = t.menData) : u.Blind := by
  constructor
  · rw [ha]
    exact h.order.append (hp.blindAct _)
  · intro s
    have hkp : a.type ≠ OtherType.mldKp := fun hk => hp (by simp [hk])
    rw [ha, hm, h.looked, looked_append]
    simp [hkp]
  · rw [hc, hm]
    exact h.open_

theorem Blind.settles (h : t.Blind) (hu : Settles t u) : u.Blind :=
  h.same hu.cfg (by rw [hu.play]) (by rw [hu.toMld])

theorem Blind.resetHand (h : t.Blind) : t.resetHand.Blind := by
  have hnone : ∀ s, t.resetHand.menData s = none := by
    intro s
    rw [resetHand_toMld]
    dsimp only
    split
    · rfl
    · next hmld => exact h.open_ (by simpa using hmld) s
  constructor
  · intro i a ha
    simp at ha
  · intro s
    rw [hnone]
    simp [Looked]
  · exact fun _ => hnone

theorem Blind.newGame (h : t.Blind) (again : Bool) : (t.newGame again).Blind := by
  unfold Table.newGame
  dsimp only
  generalize hu : { t with
    reFapaiNum := if again then t.reFapaiNum + 1 else t.reFapaiNum
    curRace := if again then t.curRace else t.curRace + 1 } = u
  have hreset : u.resetHand.Blind := by
    apply Blind.resetHand
    rw [← hu]
    exact h.same rfl rfl rfl
  split
  · exact hreset.same rfl rfl rfl
  · exact hreset.same rfl rfl rfl

end Frame

section Commands

variable {p : Nat}

@[simp] theorem setDizhu_menData (t : Table) (d : Nat) (men : Option Nat) :
    (t.setDizhu d men).menData = t.menData := by
  simp [setDizhu, libSetDizhu]

theorem startCp_blind (t : Table) :
    t.startCp.cfg = t.cfg ∧ t.startCp.play.actList = t.play.actList ∧
      t.startCp.menData = t.menData := by
  unfold startCp
  simp

theorem libJiaoDizhu_toMld (t : Table) (p rate : Nat) :
    (t.libJiaoDizhu p rate).2.toMld = t.toMld := by
  unfold libJiaoDizhu erJiaoDizhu norJiaoDizhu
  dsimp only
  split
  · split
    · rfl
    · split
      · simp
      · split <;> simp
  · split
    · rfl
    · split
      · rfl
      · split
        · simp
        · split <;> simp

theorem Blind.noDizhu (h : t.Blind) : t.noDizhu.Blind := by
  unfold Table.noDizhu
  dsimp only
  split
  · refine Blind.settles ?_ (settles_settlement _ _)
    exact h.same rfl rfl rfl
  · apply Blind.newGame
    exact h.same rfl rfl rfl

theorem Blind.afterBidding (h : t.Blind) : t.afterBidding.Blind := by
  unfold Table.afterBidding
  split
  · exact h.same rfl rfl rfl
  · split
    · exact h.same rfl rfl rfl
    · exact h.same rfl rfl rfl

theorem Blind.jiaoDizhu (h : t.Blind) (hi : t.Inv) (hp : p ∈ t.cfg.seatList)
    (rate : Nat) : (t.jiaoDizhu p rate).table.Blind := by
  rcases jiaoDizhu_cases hi.base hp rate with heq | ⟨hs, ⟨r, hbids⟩, hres⟩
  · rw [heq]
    exact h
  have hmld : (t.jdzTable p rate).toMld = t.toMld := t.libJiaoDizhu_toMld p rate
  generalize (t.jiaoDizhu p rate).table = T at hres
  generalize t.jdzTable p rate = v at hbids hres hmld
  have hv : v.Blind := by
    refine h.plain ?_ hbids.cfg hbids.actList (by rw [hmld])
    exact (show Plain OtherType.jdz by decide)
  have hland : ∀ d, (v.setDizhu d none).Blind :=
    fun d => hv.same (by simp) (by simp) (by simp)
  rcases hres with rfl | rfl | ⟨-, -, rfl⟩ | ⟨d, -, -, rfl⟩ | ⟨d, -, -, rfl⟩
  · exact hv.noDizhu
  · exact hv.same rfl rfl rfl
  · exact hv.same rfl rfl rfl
  · exact (hland d).same rfl rfl rfl
  · exact (hland d).afterBidding

theorem Blind.erQiangDizhu (h : t.Blind) (p rate : Nat) :
    (t.erQiangDizhu p rate).table.Blind := by
  unfold Table.erQiangDizhu
  split
  · exact h
  · have hplain : ∀ u : Table, u.cfg = t.cfg → u.play.actList = t.play.actList ++
        [{ type := OtherType.erQdz, p := p, rate := rate }] →
        u.menData = t.menData → u.Blind :=
      fun u => h.plain (show Plain OtherType.erQdz by decide)
    have hv : (t.libErQiangDizhu p rate).2.Blind := by
      unfold libErQiangDizhu
      dsimp only
      split
      · split
        · exact hplain _ (by simp) (by simp) (by simp)
        · exact hplain _ (by simp) (by simp) (by simp)
      · exact hplain _ (by simp) (by simp) (by simp)
    generalize t.libErQiangDizhu p rate = q at hv
    obtain ⟨status, v⟩ := q
    dsimp only at hv ⊢
    split
    · exact hv.same (by simp) (by simp) (by simp)
    · exact hv.same rfl rfl rfl

theorem Blind.jiabei (h : t.Blind) (p rate : Nat) :
    (t.jiabei p rate).table.Blind := by
  unfold Table.jiabei
  split
  · exact h
  · have hplain : ∀ u : Table, u.cfg = t.cfg → u.play.actList = t.play.actList ++
        [{ type := OtherType.jiabei, p := p, rate := rate }] →
        u.menData = t.menData → u.Blind :=
      fun u => h.plain (show Plain OtherType.jiabei by decide)
    unfold libJiabei
    dsimp only
    split
    · split
      · exact hplain _ rfl rfl rfl
      · exact hplain _ rfl rfl rfl
    · exact hplain _ rfl rfl rfl

theorem Blind.calls (h : t.Blind) (hmld : t.cfg.isMld)
    (hnone : t.menData p ≠ some 0) {r : Nat} (hc : u.cfg = t.cfg)
    (ha : u.play.actList = t.play.actList ++
      [⟨OtherType.mldMen, p, r, [], 0, none, []⟩])
    (hm : u.menData = Function.update t.menData p (some 1)) : u.Blind := by
  have hnot : ¬ Looked t.play.actList p := by
    rwa [← h.looked]
  constructor
  · rw [ha]
    apply h.order.append
    refine ⟨fun _ => hnot, fun hz => ?_⟩
    rcases hz with hz | hz <;> cases hz
  · intro s
    rw [ha, hm, looked_append]
    by_cases hs : s = p
    · subst hs
      simp [hnot, OtherType.mldMen, OtherType.mldKp]
    · rw [Function.update_of_ne hs, h.looked]
      simp [OtherType.mldMen, OtherType.mldKp]
  · intro hf
    rw [hc, hmld] at hf
    cases hf

theorem Blind.looks (h : t.Blind) (hmld : t.cfg.isMld) (hc : u.cfg = t.cfg)
    (ha : u.play.actList = t.play.actList ++
      [⟨OtherType.mldKp, p, 0, [], 0, none, []⟩])
    (hm : u.menData = Function.update t.menData p (some 0)) : u.Blind := by
  constructor
  · rw [ha]
    apply h.order.append
    refine ⟨fun hz => ?_, fun hz => ?_⟩
    · cases hz
    · rcases hz with hz | hz <;> cases hz
  · intro s
    rw [ha, hm, looked_append]
    by_cases hs : s = p
    · subst hs
      simp
    · rw [Function.update_of_ne hs, h.looked]
      simp [Ne.symm hs]
  · intro hf
    rw [hc, hmld] at hf
    cases hf

theorem Blind.zhua (h : t.Blind) (hlook : t.menData p = some 0) {a : Act}
    (htype : a.type = OtherType.mldZhua ∨ a.type = OtherType.mldBz)
    (hap : a.p = p) (hc : u.cfg = t.cfg)
    (ha : u.play.actList = t.play.actList ++ [a])
    (hm : u.menData = t.menData) : u.Blind := by
  have hlooked := (h.looked p).mp hlook
  constructor
  · rw [ha]
    apply h.order.append
    refine ⟨fun hz => ?_, fun _ => hap ▸ hlooked⟩
    rcases htype with ht | ht <;> rw [ht] at hz <;> cases hz
  · intro s
    have hkp : a.type ≠ OtherType.mldKp := by
      rcases htype with ht | ht <;> rw [ht] <;> decide
    rw [ha, hm, looked_append, h.looked]
    simp [hkp]
  · rw [hc, hm]
    exact h.open_

theorem Blind.startCp (h : t.Blind) : t.startCp.Blind := by
  obtain ⟨hc, ha, hm⟩ := t.startCp_blind
  exact h.same hc ha hm

theorem Blind.men (h : t.Blind) (hi : t.Inv) (opt : Nat)
    (ho : t.InOrder (.men p opt)) : (t.men p opt).table.Blind := by
  unfold Table.men
  split
  · exact h
  · next hs =>
    have hst := hi.status
    simp only [not_or, not_not] at hs
    rw [hs.1] at hst
    obtain ⟨-, hmld, -⟩ := hst
    split
    · exact h
    · split
      · next hopt =>
        dsimp only
        generalize hv : addMldAct _ OtherType.mldMen p .mldMen = v
        obtain ⟨r, hbids⟩ : ∃ r, Bids t v ⟨OtherType.mldMen, p, r, [], 0, none, []⟩ :=
          hv ▸ bids_addMldAct (by rfl) (by rfl) (by rfl) (by rfl) _ _ _
        have hvb : v.Blind := by
          refine h.calls hmld (ho ⟨hs.1, hs.2, hopt⟩) hbids.cfg hbids.actList ?_
          rw [← hv]
          simp
        have hland : (v.setDizhu p (some 1)).Blind :=
          hvb.same (by simp) (by simp) (by simp)
        split
        · exact hland.startCp.same rfl rfl rfl
        · exact hland.same rfl rfl rfl
      · split
        · exact h
        · exact h.looks (p := p) hmld (by simp) (by simp) (by simp)

theorem Blind.zhuaPai (h : t.Blind) (opt : Nat)
    (ho : t.InOrder (.zhuaPai p opt)) : (t.zhuaPai p opt).table.Blind := by
  unfold Table.zhuaPai
  split
  · exact h
  · next hs =>
    simp only [not_or, not_not] at hs
    replace ho : t.menData p = some 0 := ho hs
    split
    · dsimp only
      generalize hv : addMldAct _ OtherType.mldZhua p .mldZp = v
      obtain ⟨r, hbids⟩ : ∃ r, Bids t v ⟨OtherType.mldZhua, p, r, [], 0, none, []⟩ :=
        hv ▸ bids_addMldAct (by rfl) (by rfl) (by rfl) (by rfl) _ _ _
      have hvb : v.Blind := by
        refine h.zhua ho (.inl rfl) rfl hbids.cfg hbids.actList ?_
        rw [← hv]
        simp
      exact hvb.same (by simp) (by simp) (by simp)
    · refine h.zhua ho
        (a := ⟨OtherType.mldBz, p, t.lastRate p, [], 0, none, []⟩) (.inr rfl) rfl
        ?_ ?_ ?_ <;> simp

theorem Blind.dao (h : t.Blind) (p opt : Nat) : (t.dao p opt).table.Blind := by
  unfold Table.dao
  split
  · exact h
  · dsimp only
    generalize htype : (if 0 < opt then OtherType.mldDao else OtherType.mldBd) = type
    have hplain : Plain type := by
      rw [← htype]
      split <;> decide
    generalize hv : addMldAct (t.daoRate p opt) type p .mldDao = v
    have hvb : v.Blind := by
      rw [← hv]
      refine h.plain
        (a := ⟨type, p, (t.daoRate p opt).lastRate p, [], 0, none, []⟩) hplain
        ?_ ?_ ?_ <;> simp
    split
    · split
      · exact hvb.same rfl rfl rfl
      · apply Blind.startCp
        exact hvb.same rfl rfl rfl
    · exact hvb.same rfl rfl rfl

theorem Blind.laEnd (h : t.Blind) (p opt : Nat) :
    (t.laEnd p opt).table.Blind := by
  unfold Table.laEnd
  dsimp only
  generalize htype : (if 0 < opt then OtherType.mldLa else OtherType.mldBl) = type
  have hplain : Plain type := by
    rw [← htype]
    split <;> decide
  apply Blind.startCp
  refine h.plain (a := ⟨type, p, t.lastRate p, [], 0, none, []⟩) hplain
    ?_ ?_ ?_ <;> simp

theorem Blind.la (h : t.Blind) (p opt : Nat) : (t.la p opt).table.Blind := by
  have hrate : ∀ (v w : Table) (s : Nat), v.Blind → v.laRate s = some w →
      w.Blind := by
    intro v w s hv hw
    unfold laRate at hw
    obtain ⟨o, -, rfl⟩ := Option.map_eq_some_iff.mp hw
    exact hv.same rfl rfl rfl
  have hread : (t.read .nongmin).Blind := h.same rfl rfl rfl
  unfold Table.la
  split
  · dsimp only
    split
    · exact hread
    · next v hv =>
      have hvb := hrate _ _ _ hread hv
      split
      · exact hvb
      · next w hw =>
        have hwb := hrate _ _ _ hvb hw
        apply Blind.laEnd
        exact hwb.same rfl rfl rfl
  · exact h.laEnd p opt

theorem Blind.daoLa (h : t.Blind) (p opt : Nat) :
    (t.daoLa p opt).table.Blind := by
  have hread : (t.read .daoLaData).Blind := h.same rfl rfl rfl
  unfold Table.daoLa
  split
  · exact h
  · dsimp only
    split
    · exact hread
    · split
      · exact hread
      · split
        · exact hread.la p opt
        · exact hread.dao p opt

theorem Blind.chupai (h : t.Blind) (p : Nat) {a : ChupaiArgs}
    (hwf : (PaiType.mk a.type a.keyPai).Wf) : (t.chupai p a).table.Blind := by
  unfold Table.chupai
  split
  · exact h
  · have hspec := t.libChupai_spec p a
    generalize t.libChupai p a = q at hspec
    obtain ⟨res, u⟩ := q
    have hu : u.Blind := by
      rcases hspec with ⟨heq, -⟩ | ⟨hplays, -⟩
      · dsimp only at heq
        rw [heq]
        exact h
      · refine h.plain ?_ hplays.cfg hplays.actList (by rw [hplays.toMld])
        have hle : a.type ≤ 15 := hwf.type_le
        simp only [Plain, ChupaiArgs.act, List.mem_cons, List.not_mem_nil, or_false,
          OtherType.mldKp, OtherType.mldMen, OtherType.mldZhua, OtherType.mldBz]
        omega
    cases res with
    | none => exact hu
    | some status =>
        dsimp only
        split
        · split
          · refine Blind.settles ?_ (settles_settlement _ _)
            exact hu.same (by simp) (by simp) (by simp)
          · exact hu.same (by simp) (by simp) (by simp)
        · exact hu

end Commands

/-! ## Steps and runs -/

theorem Blind.changeStatus (h : t.Blind) (rand : Nat) (s : Status) :
    (t.changeStatus rand s).Blind := by
  cases s <;> exact h.same rfl rfl rfl

theorem Blind.update (h : t.Blind) (rand : Nat) : (t.update rand).Blind := by
  unfold Table.update
  split
  · dsimp only
    split
    · exact h.same rfl rfl rfl
    · apply Blind.changeStatus
      exact h.same rfl rfl rfl
  · exact h

theorem Blind.cancelGame (h : t.Blind) : t.cancelGame.table.Blind := by
  unfold Table.cancelGame
  split
  · exact h
  · exact h.same rfl rfl rfl

theorem Blind.breakGame (h : t.Blind) : t.breakGame.table.Blind := by
  unfold Table.breakGame
  split
  · exact h
  · have hbreak : Blind { t with isBreakGame := true } := h.same rfl rfl rfl
    dsimp only
    split
    · exact hbreak.same rfl rfl rfl
    · split
      · exact hbreak.settles (settles_settlement _ _)
      · exact hbreak

theorem Blind.step (h : t.Blind) (hi : t.Inv) (F : NumFormat) {e : Event}
    (he : t.Legal e) (ho : t.InOrder e) : (t.step F e).Blind := by
  unfold Table.step
  split
  · exact h
  · cases e with
    | join id seat =>
        simp only [handle, Table.join]
        split
        · exact h
        · split
          · exact h
          · exact h.same rfl rfl rfl
    | playerExitGame seat =>
        simp only [handle, Table.playerExitGame]
        split
        · exact h.same rfl rfl rfl
        · exact h.same rfl rfl rfl
    | ready seat =>
        simp only [handle, Table.readyCmd]
        split
        · split
          · exact h.same rfl rfl rfl
          · exact h.same rfl rfl rfl
        · exact h
    | jiaoDizhu seat rate => exact h.jiaoDizhu hi he rate
    | jiabei seat rate => exact h.jiabei seat rate
    | men seat opt => exact h.men hi opt ho
    | zhuaPai seat opt => exact h.zhuaPai opt ho
    | daoLa seat opt => exact h.daoLa seat opt
    | erQiangDizhu seat rate => exact h.erQiangDizhu seat rate
    | chupai seat args => exact h.chupai seat he.2
    | auto seat type => exact h.same rfl rfl rfl
    | cancelGame => exact h.cancelGame
    | breakGame => exact h.breakGame
    | overTimeCancelGame =>
        simp only [handle, Table.overTimeCancelGame]
        split
        · exact h.cancelGame
        · exact h.breakGame
    | update rand => exact h.update rand
    | fapaiAnswer ρ rand =>
        simp only [handle, Table.fapai]
        split
        · split
          · exact h.same rfl rfl rfl
          · exact h.same rfl rfl rfl
        · exact h
    | capAnswer call answer =>
        simp only [handle]
        split
        · refine Blind.settles ?_ (settles_resumeSettlement _ _ _)
          exact h.same rfl rfl rfl
        · exact h
    | scoreAnswer answer =>
        simp only [handle]
        split
        · unfold Table.settlementFinish
          dsimp only
          unfold Table.nextGame
          split
          · refine Blind.newGame ?_ false
            exact h.same rfl rfl rfl
          · exact h.same rfl rfl rfl
        · exact h

theorem blind_newTable (cfg : Config) : (newTable cfg).Blind := by
  refine Blind.newGame ?_ false
  constructor
  · intro i a ha
    simp at ha
  · intro s
    simp [Looked]
  · exact fun _ _ => rfl

/-- If the clients bid in the right order, then so does the action list: nobody
calls blind after having looked, and nobody calls openly before. -/
theorem blind_order {F : NumFormat} {cfg : Config} {t : Table}
    (h : Reach (Table.step F) (fun t e => t.Legal e ∧ t.InOrder e)
      (newTable cfg) t) :
    BlindOrder t.play.actList ∧
      ∀ s, t.menData s = some 0 ↔ Looked t.play.actList s := by
  have hinv : t.Inv ∧ t.Blind := by
    refine Reach.invariant (P := fun t => t.Inv ∧ t.Blind)
      ⟨newTable_inv cfg, blind_newTable cfg⟩ ?_ h
    rintro u e ⟨hi, hb⟩ ⟨he, ho⟩
    exact ⟨hi.step F he, hb.step hi F he ho⟩
  exact ⟨hinv.2.order, hinv.2.looked⟩

def mldConfig : Config := { jdzType := .mld }

def lookFirst : List Event :=
  [.join 1 none, .join 2 none, .join 3 none, .ready 1, .ready 2, .ready 3,
    .update 0, .fapaiAnswer (fun _ => 0) 0, .update 0, .men 1 0, .update 0]

theorem blind_order_zhua :
    BlindOrder (after mldConfig (lookFirst ++ [.zhuaPai 1 1])).play.actList :=
  (blind_order (F := .exact) (reach_run (by decide +kernel))).1

/-- The first seat looks at its cards, and is then accepted as a blind caller,
with four times the rate. -/
theorem blind_after_look :
    Reachable .exact mldConfig (after mldConfig (lookFirst ++ [.men 1 1])) ∧
      (after mldConfig lookFirst).menData 1 = some 0 ∧
      (after mldConfig lookFirst).pKanPai 1 = true ∧
      ((after mldConfig lookFirst).men 1 1).result = some 0 ∧
      (after mldConfig (lookFirst ++ [.men 1 1])).play.dizhu = 1 ∧
      (after mldConfig (lookFirst ++ [.men 1 1])).pRate 1 =
        4 * mldConfig.initRate ∧
      ¬ BlindOrder (after mldConfig (lookFirst ++ [.men 1 1])).play.actList := by
  refine ⟨reachable_after (by decide +kernel), by decide +kernel, by decide +kernel,
    by decide +kernel, by decide +kernel, by decide +kernel, fun h => ?_⟩
  have hact : (after mldConfig (lookFirst ++ [.men 1 1])).play.actList[1]? =
      some ⟨OtherType.mldMen, 1, 2, [], 0, none, []⟩ := by decide +kernel
  exact (h 1 _ hact).1 rfl (by decide +kernel)

end Table

end JyQipai.Ddz
