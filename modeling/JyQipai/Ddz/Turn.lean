import JyQipai.Ddz.Control

/-!
# Turn safety

The commands of a hand come from the agents in any order, also late or twice.
`MayAct` says which seat holds the right to send which command.  A command
without the right should be refused with an error code and change nothing; one
of the seven commands does not check the seat.
-/

namespace JyQipai.Ddz

open JyQipai.Lib

namespace Table

def sender : Event → Option Nat
  | .jiaoDizhu seat _ => some seat
  | .erQiangDizhu seat _ => some seat
  | .men seat _ => some seat
  | .zhuaPai seat _ => some seat
  | .daoLa seat _ => some seat
  | .jiabei seat _ => some seat
  | .chupai seat _ => some seat
  | _ => none

/-- The table is in the phase of the command and the seat holds the right: it is
its turn, or `cur_p` names a group (4: the farmers, 6: all seats) in which the
seat has not acted. -/
def MayAct (t : Table) : Event → Prop
  | .jiaoDizhu seat _ => t.status = .jdz ∧ t.play.curP = seat
  | .erQiangDizhu seat _ => t.status = .erQiangdizhu ∧ t.play.curP = seat
  | .men seat _ => t.status = .mldMen ∧ t.play.curP = seat
  | .zhuaPai seat _ => t.status = .mldMen ∧ t.play.curP = seat
  | .daoLa seat _ =>
      t.status = .mldJb ∧ t.daoLaData seat = none ∧
        (t.play.curP = 4 ∧ seat ≠ t.play.dizhu ∨
          t.play.curP = seat ∧ seat = t.play.dizhu)
  | .jiabei seat _ =>
      t.status = .jiabei ∧ t.play.curP = 6 ∧ t.pJiabei seat = none
  | .chupai seat _ => t.status = .cp ∧ t.play.curP = seat
  | _ => True

def answer (F : NumFormat) (t : Table) (e : Event) : Reply :=
  if t.gone then t.reply 1002 else t.handle F e

def Unchanged (t u : Table) : Prop := u = { t with staleRead := u.staleRead }

def Refused (t : Table) (r : Reply) : Prop :=
  (∃ code, r.result = some code ∧ 999 < code) ∧ Unchanged t r.table

def TurnSafe (F : NumFormat) (t : Table) (e : Event) : Prop :=
  (t.gone ∨ ¬ t.MayAct e) → Refused t (t.answer F e)

section Group

variable {t u : Table}

/-- While a table is in the doubling, `cur_p` names all seats. -/
def AllDouble (t : Table) : Prop := t.status = .jiabei → t.play.curP = 6

def NoDouble (t u : Table) : Prop :=
  u.status = .jiabei → t.status = .jiabei ∧ u.play.curP = t.play.curP

theorem AllDouble.of (h : t.AllDouble) (hu : NoDouble t u) : u.AllDouble := by
  intro hs
  obtain ⟨ht, hc⟩ := hu hs
  rw [hc]
  exact h ht

theorem NoDouble.of_ne (hs : u.status ≠ .jiabei) : NoDouble t u :=
  fun h => absurd h hs

theorem NoDouble.of_eq (hc : u.status = t.status) (hp : u.play.curP = t.play.curP) :
    NoDouble t u :=
  fun h => ⟨hc ▸ h, hp⟩

theorem NoDouble.settles (h : Settles t u) : NoDouble t u := by
  obtain ⟨p, hc | hc⟩ := h.ctrl
  · exact .of_eq (by rw [hc]) (by rw [h.play])
  · apply NoDouble.of_ne
    rw [hc]
    simp

theorem newGame_noDouble (t : Table) (again : Bool) : NoDouble u (t.newGame again) := by
  apply NoDouble.of_ne
  unfold newGame gameBegin
  dsimp only
  split
  · simp
  · simp only [enter_toCtrl]
    split <;> simp

theorem noDizhu_noDouble (hs : t.status = .jdz) : t.noDizhu.status ≠ .jiabei := by
  unfold noDizhu
  dsimp only
  split
  · intro h
    have := (NoDouble.settles (settles_settlement _ 0) h).1
    simp [hs] at this
  · intro h
    have := (newGame_noDouble (u := t) _ true h).1
    simp [hs] at this

theorem libJiaoDizhu_toCtrl (t : Table) (p rate : Nat) :
    (t.libJiaoDizhu p rate).2.toCtrl = t.toCtrl := by
  unfold libJiaoDizhu erJiaoDizhu norJiaoDizhu
  split <;> dsimp only <;> split <;> try rfl
  · split
    · simp
    · split <;> simp
  · split
    · rfl
    · split
      · simp
      · split <;> simp

theorem jiaoDizhu_noDouble (t : Table) (p rate : Nat) :
    NoDouble t (t.jiaoDizhu p rate).table := by
  unfold jiaoDizhu
  split
  · exact .of_eq rfl rfl
  · next hs =>
    replace hs : t.status = .jdz := by simpa using hs
    have hctrl := t.libJiaoDizhu_toCtrl p rate
    apply NoDouble.of_ne
    generalize t.libJiaoDizhu p rate = q at hctrl
    obtain ⟨status, u⟩ := q
    replace hs : u.status = .jdz := by
      dsimp only at hctrl
      rw [hctrl, hs]
    dsimp only
    split
    · simp [hs]
    · split
      · exact noDizhu_noDouble (by simpa using hs)
      · split
        · split
          · split <;> simp
          · unfold afterBidding
            split
            · simp
            · split <;> simp
        · simp

theorem startCp_status (t : Table) : t.startCp.status = .wait := by
  simp [startCp]

theorem dao_noDouble (t : Table) (p opt : Nat) :
    NoDouble t (t.dao p opt).table := by
  unfold dao
  split
  · exact .of_eq rfl rfl
  · dsimp only
    generalize (if 0 < opt then OtherType.mldDao else OtherType.mldBd) = type
    split
    · split
      · exact .of_ne (by simp)
      · exact .of_ne (by simp [startCp_status])
    · exact .of_eq (by simp) (by simp)

theorem la_noDouble (t : Table) (p opt : Nat) : NoDouble t (t.la p opt).table := by
  have hend : ∀ u : Table, (u.laEnd p opt).table.status ≠ .jiabei := by
    intro u
    simp [laEnd, startCp_status]
  unfold la
  split
  · dsimp only
    split
    · exact .of_eq (by simp) (by simp)
    · next u hu =>
      obtain ⟨opt1, -, hopt1⟩ := Option.map_eq_some_iff.mp hu
      split
      · rw [← hopt1]
        exact .of_eq (by simp) (by simp)
      · exact .of_ne (hend _)
  · exact .of_ne (hend _)

theorem daoLa_noDouble (t : Table) (p opt : Nat) :
    NoDouble t (t.daoLa p opt).table := by
  unfold daoLa
  split
  · exact .of_eq rfl rfl
  · dsimp only
    split
    · exact .of_eq (by simp) (by simp)
    · split
      · exact .of_eq (by simp) (by simp)
      · split
        · exact (la_noDouble (t.read .daoLaData) p opt : _)
        · exact (dao_noDouble (t.read .daoLaData) p opt : _)

theorem chupai_noDouble (t : Table) (p : Nat) (a : ChupaiArgs) :
    NoDouble t (t.chupai p a).table := by
  unfold chupai
  split
  · exact .of_eq rfl rfl
  · next hs =>
    replace hs : t.status = .cp := by
      simp only [not_or, not_not] at hs
      exact hs.1
    have hspec := t.libChupai_spec p a
    generalize t.libChupai p a = q at hspec
    obtain ⟨res, u⟩ := q
    have hu : u.status = .cp := by
      rcases hspec with ⟨hu, -⟩ | ⟨hu, -⟩
      · dsimp only at hu
        rw [hu, hs]
      · rw [hu.toCtrl, hs]
    apply NoDouble.of_ne
    cases res with
    | none => simp [hu]
    | some status =>
        dsimp only
        split
        · split
          · intro h
            have := (NoDouble.settles (settles_settlement _ p) h).1
            simp [hu] at this
          · simp
        · simp [hu]

theorem breakGame_noDouble (t : Table) : NoDouble t t.breakGame.table := by
  unfold breakGame
  split
  · exact .of_eq rfl rfl
  · dsimp only
    split
    · exact .of_ne (by simp [gameover])
    · split
      · exact (NoDouble.settles (settles_settlement _ 0) : _)
      · exact .of_eq rfl rfl

theorem cancelGame_noDouble (t : Table) : NoDouble t t.cancelGame.table := by
  unfold cancelGame
  split
  · exact .of_eq rfl rfl
  · exact .of_ne (by simp [gamecancel])

theorem AllDouble.update (h : t.AllDouble) (rand : Nat) : (t.update rand).AllDouble := by
  unfold Table.update
  split
  · dsimp only
    split
    · exact h
    · next s _ =>
      cases s with
      | jiabei =>
          intro _
          simp [changeStatus]
      | gameBegin => exact h.of (.of_ne (by simp [changeStatus, gameBegin]))
      | mldMen => exact h.of (.of_ne (by simp [changeStatus, mldMenPermit]))
      | mldJb => exact h.of (.of_ne (by simp [changeStatus, mldJbPermit]))
      | createLz => exact h.of (.of_ne (by simp [changeStatus, Table.createLz]))
      | cp => exact h.of (.of_ne (by simp [changeStatus, chupaiPermit]))
      | gameover => exact h.of (.of_ne (by simp [changeStatus, Table.gameover]))
      | gamecancel => exact h.of (.of_ne (by simp [changeStatus, Table.gamecancel]))
      | _ => exact h.of (.of_ne (by simp [changeStatus]))
  · exact h

theorem AllDouble.step (h : t.AllDouble) (hi : t.Inv) (F : NumFormat) (e : Event) :
    (t.step F e).AllDouble := by
  unfold Table.step
  split
  · exact h
  · cases e with
    | join id seat =>
        simp only [handle, Table.join]
        split
        · exact h
        · split
          · exact h
          · exact h
    | playerExitGame seat =>
        simp only [handle, Table.playerExitGame]
        split
        · exact h
        · exact h
    | ready seat =>
        simp only [handle, readyCmd]
        split
        · split
          · exact h.of (.of_ne (by simp [gameBegin]))
          · exact h
        · exact h
    | jiaoDizhu seat rate => exact h.of (t.jiaoDizhu_noDouble seat rate)
    | jiabei seat rate =>
        simp only [handle, Table.jiabei]
        split
        · exact h
        · unfold libJiabei
          dsimp only
          split
          · split
            · exact h.of (.of_ne (by simp))
            · exact h.of (.of_ne (by simp))
          · exact h.of (.of_eq (by simp) (by simp))
    | men seat opt =>
        simp only [handle, Table.men]
        split
        · exact h
        · split
          · exact h
          · split
            · split
              · exact h.of (.of_ne (by simp [startCp_status]))
              · exact h.of (.of_ne (by simp))
            · split
              · exact h
              · exact h.of (.of_ne (by simp))
    | zhuaPai seat opt =>
        simp only [handle, Table.zhuaPai]
        split
        · exact h
        · split
          · exact h.of (.of_ne (by simp))
          · exact h.of (.of_ne (by simp))
    | daoLa seat opt => exact h.of (t.daoLa_noDouble seat opt)
    | erQiangDizhu seat rate =>
        simp only [handle, Table.erQiangDizhu]
        split
        · exact h
        · generalize t.libErQiangDizhu seat rate = q
          split
          · exact h.of (.of_ne (by simp))
          · exact h.of (.of_ne (by simp))
    | chupai seat args => exact h.of (t.chupai_noDouble seat args)
    | auto seat type => exact h
    | cancelGame => exact h.of t.cancelGame_noDouble
    | breakGame => exact h.of t.breakGame_noDouble
    | overTimeCancelGame =>
        simp only [handle, Table.overTimeCancelGame]
        split
        · exact h.of t.cancelGame_noDouble
        · exact h.of t.breakGame_noDouble
    | update rand => exact h.update rand
    | fapaiAnswer ρ rand =>
        simp only [handle]
        split
        · next hu =>
          apply h.of
          apply NoDouble.of_ne
          unfold fapai
          dsimp only
          rcases (hi.dealing hu).2 with hs | hs
          · split <;> simp [hs]
          · split <;> simp [hs]
        · exact h
    | capAnswer call answer =>
        simp only [handle]
        split
        · exact h.of (NoDouble.settles (settles_resumeSettlement _ _ _) : _)
        · exact h
    | scoreAnswer answer =>
        simp only [handle]
        split
        · next hu =>
          apply h.of
          unfold settlementFinish nextGame
          dsimp only
          split
          · exact newGame_noDouble _ false
          · apply NoDouble.of_ne
            rcases hi.paying hu with hs | hs
            · simp [hs]
            · simp [hs]
        · exact h

end Group

section Refuse

variable {t : Table} {F : NumFormat}

theorem allDouble_newTable (cfg : Config) : (newTable cfg).AllDouble := by
  intro hs
  simp [newTable, newGame] at hs

theorem Reachable.allDouble {cfg : Config} (h : Reachable F cfg t) : t.AllDouble := by
  have hboth : t.Inv ∧ t.AllDouble := by
    refine Reach.invariant (P := fun u => u.Inv ∧ u.AllDouble) ?_ ?_ h
    · exact ⟨newTable_inv cfg, allDouble_newTable cfg⟩
    · intro u e hu he
      exact ⟨hu.1.step F he, hu.2.step hu.1 F e⟩
  exact hboth.2

theorem Refused.of_reply {code : Int} (h : 999 < code) : Refused t (t.reply code) :=
  ⟨⟨code, rfl, h⟩, rfl⟩

theorem unchanged_read (t : Table) (f : HandField) : Unchanged t (t.read f) := rfl

theorem jiaoDizhu_refused {p : Nat} (rate : Nat) (h : ¬ t.MayAct (.jiaoDizhu p rate)) :
    Refused t (t.jiaoDizhu p rate) := by
  unfold jiaoDizhu
  split
  · exact .of_reply (by decide)
  · next hs =>
    replace hs : t.status = .jdz := by simpa using hs
    have hp : p ≠ t.play.curP := fun hp => h ⟨hs, hp.symm⟩
    have hlib : t.libJiaoDizhu p rate = (1002, t) := by
      unfold libJiaoDizhu erJiaoDizhu norJiaoDizhu
      simp [hp]
    rw [hlib]
    exact .of_reply (by decide)

theorem blind_refused {p : Nat} (h : ¬ (t.status = .mldMen ∧ t.play.curP = p)) :
    t.status ≠ .mldMen ∨ t.play.curP ≠ p := by
  by_cases hs : t.status = .mldMen
  · exact .inr fun hp => h ⟨hs, hp⟩
  · exact .inl hs

theorem daoLa_refused (hi : t.Inv) {p : Nat} (opt : Nat)
    (h : ¬ t.MayAct (.daoLa p opt)) : Refused t (t.daoLa p opt) := by
  unfold daoLa
  split
  · exact .of_reply (by decide)
  · next hs =>
    replace hs : t.status = .mldJb := by simpa using hs
    have hst := hi.status
    rw [hs] at hst
    obtain ⟨-, -, -, hcur, -⟩ := hst
    have hrefused : Refused t ((t.read .daoLaData).reply 1002) :=
      ⟨⟨1002, rfl, by decide⟩, t.unchanged_read .daoLaData⟩
    dsimp only
    split
    · exact hrefused
    · next hnone =>
      have hdao : t.daoLaData p = none := by simpa using hnone
      split
      · exact hrefused
      · next hturn =>
        -- the seat is a farmer in the farmers' turn, or the landlord in its own
        exfalso
        apply h
        refine ⟨hs, hdao, ?_⟩
        simp only [read_play, not_or, not_and] at hturn
        rcases hcur with hcur | hcur
        · exact .inl ⟨hcur, fun hp => hturn.1 hcur hp⟩
        · have hp : p = t.play.dizhu := by simpa using hturn.2 hcur
          exact .inr ⟨hcur.trans hp.symm, hp⟩

theorem jiabei_refused (hd : t.AllDouble) {p : Nat} (rate : Nat)
    (h : ¬ t.MayAct (.jiabei p rate)) : Refused t (t.jiabei p rate) := by
  have hguard : t.status ≠ .jiabei ∨ (t.pJiabei p).isSome := by
    by_contra hno
    simp only [ne_eq, not_or, not_not, Bool.not_eq_true, Option.isSome_eq_false_iff,
      Option.isNone_iff_eq_none] at hno
    exact h ⟨hno.1, hd hno.1, hno.2⟩
  unfold jiabei
  rw [if_pos hguard]
  exact .of_reply (by decide)

theorem chupai_refused {p : Nat} (a : ChupaiArgs) (h : ¬ t.MayAct (.chupai p a)) :
    Refused t (t.chupai p a) := by
  have hguard : t.status ≠ .cp ∨ t.play.curP ≠ p := by
    by_contra hno
    simp only [ne_eq, not_or, not_not] at hno
    exact h hno
  unfold chupai
  rw [if_pos hguard]
  exact .of_reply (by decide)

theorem erQiangDizhu_result (hs : t.status = .erQiangdizhu) (p rate : Nat) :
    (t.erQiangDizhu p rate).result = some 0 := by
  unfold erQiangDizhu
  rw [if_neg (by simp [hs])]
  generalize t.libErQiangDizhu p rate = q
  obtain ⟨d, u⟩ := q
  dsimp only
  split
  · rfl
  · rfl

/-- Each of the seven commands is refused if the sender lacks the right, except
for `er_qiang_dizhu`, which does not compare the seat with `cur_p`. -/
theorem turn_safe {cfg : Config} (h : Reachable F cfg t) {e : Event} {p : Nat}
    (he : sender e = some p) :
    TurnSafe F t e ↔
      ¬ ((∃ rate, e = .erQiangDizhu p rate) ∧ t.gone = false ∧
        t.status = .erQiangdizhu ∧ t.play.curP ≠ p) := by
  unfold TurnSafe answer
  cases hgone : t.gone with
  | true =>
      simp only [if_true, true_or, forall_const]
      exact iff_of_true (.of_reply (by decide)) (by simp)
  | false =>
      simp only [Bool.false_eq_true, false_or, if_false, true_and]
      cases e with
      | jiaoDizhu seat rate =>
          exact iff_of_true (fun hno => jiaoDizhu_refused rate hno) (by simp)
      | men seat opt =>
          refine iff_of_true (fun hno => ?_) (by simp)
          simp only [handle, Table.men]
          rw [if_pos (blind_refused hno)]
          exact .of_reply (by decide)
      | zhuaPai seat opt =>
          refine iff_of_true (fun hno => ?_) (by simp)
          simp only [handle, Table.zhuaPai]
          rw [if_pos (blind_refused hno)]
          exact .of_reply (by decide)
      | daoLa seat opt =>
          exact iff_of_true (fun hno => daoLa_refused h.inv opt hno) (by simp)
      | jiabei seat rate =>
          exact iff_of_true (fun hno => jiabei_refused h.allDouble rate hno) (by simp)
      | chupai seat args =>
          exact iff_of_true (fun hno => chupai_refused args hno) (by simp)
      | erQiangDizhu seat rate =>
          obtain rfl : seat = p := by simpa [sender] using he
          constructor
          · rintro hsafe ⟨-, hs, hp⟩
            obtain ⟨⟨code, hcode, herr⟩, -⟩ := hsafe fun hmay => hp hmay.2
            rw [handle, erQiangDizhu_result hs] at hcode
            obtain rfl := Option.some.inj hcode
            exact absurd herr (by decide)
          · intro hno hmay
            have hs : t.status ≠ .erQiangdizhu := by
              intro hs
              refine hno ⟨⟨rate, rfl⟩, hs, fun hp => hmay ⟨hs, hp⟩⟩
            simp only [handle, Table.erQiangDizhu]
            rw [if_pos hs]
            exact .of_reply (by decide)
      | _ => cases he

def erCall : List Event :=
  [.join 1 none, .join 2 none, .ready 1, .ready 2, .update 0,
    .fapaiAnswer (fun _ => 0) 0, .update 0, .jiaoDizhu 1 1, .update 0]

def erConfig : Config := { gameType := .er }

theorem turn_safe_late_call :
    TurnSafe .exact (after erConfig erCall) (.jiaoDizhu 1 1) :=
  (turn_safe (reachable_after (by decide +kernel)) (p := 1) rfl).mpr
    fun ⟨⟨_, hrate⟩, _⟩ => Event.noConfusion hrate

/-- It is the second seat's turn to answer the call; the same message of the
first seat is accepted and changes the action list. -/
theorem late_qiang_accepted :
    Reachable .exact erConfig (after erConfig erCall) ∧
      (after erConfig erCall).status = .erQiangdizhu ∧
      (after erConfig erCall).play.curP = 2 ∧
      ((after erConfig erCall).answer .exact (.erQiangDizhu 1 1)).result = some 0 ∧
      ((after erConfig erCall).answer .exact
          (.erQiangDizhu 1 1)).table.play.actList ≠
        (after erConfig erCall).play.actList ∧
      ¬ TurnSafe .exact (after erConfig erCall) (.erQiangDizhu 1 1) := by
  have hreach : Reachable .exact erConfig (after erConfig erCall) :=
    reachable_after (by decide +kernel)
  have hresult : ((after erConfig erCall).answer .exact (.erQiangDizhu 1 1)).result =
      some 0 := by decide +kernel
  refine ⟨hreach, by decide +kernel, by decide +kernel, hresult, by decide +kernel, ?_⟩
  intro hsafe
  obtain ⟨⟨code, hcode, herr⟩, -⟩ := hsafe (.inr fun hmay =>
    absurd hmay.2 (by decide +kernel))
  rw [hresult] at hcode
  obtain rfl := Option.some.inj hcode
  exact absurd herr (by decide)

end Refuse

end Table

end JyQipai.Ddz
