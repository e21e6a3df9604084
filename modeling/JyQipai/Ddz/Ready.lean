import JyQipai.Ddz.Control
import JyQipai.Lib.Tally

/-!
# Players that wait for a hand

`join`, `ready` and `player_exit_game` keep two counters beside the tables of the
occupied and of the ready seats.  All other events leave the four alone, or clear
the ready seats for a new hand.
-/

namespace JyQipai.Ddz

open JyQipai.Lib

namespace Table

def Idle (t : Table) : Prop :=
  (t.status = .waitP ∨ t.status = .ready) ∧ t.gone = false

structure Counted (t : Table) : Prop where
  tally : Tally t.cfg.seatList t.pSeatNumber t.ready t.pCount t.pReady
  waits : t.Idle → t.pReady ≠ t.cfg.seatCount
  next : ∀ s ∈ t.nextStatus, s ≠ .waitP ∧ s ≠ .ready

structure Still (t u : Table) : Prop where
  cfg : u.cfg = t.cfg
  lobby : (u.toLobby = t.toLobby ∧ (u.Idle → t.Idle)) ∨
    u.toLobby = { t.toLobby with ready := fun _ => 0, pReady := 0 }
  next : u.nextStatus = t.nextStatus ∨
    ∃ s, u.nextStatus = some s ∧ s ≠ .waitP ∧ s ≠ .ready

section Still

variable {t u v : Table}

theorem seatCount_pos (cfg : Config) : 0 < cfg.seatCount := by
  rcases cfg.seat_cases with ⟨-, h, -⟩ | ⟨-, h, -⟩ <;> omega

theorem Counted.still (h : t.Counted) (hu : Still t u) : u.Counted where
  tally := by
    rw [hu.cfg]
    rcases hu.lobby with ⟨hl, -⟩ | hl
    · rw [hl]
      exact h.tally
    · rw [hl]
      exact h.tally.release
  waits hidle := by
    rw [hu.cfg]
    rcases hu.lobby with ⟨hl, hback⟩ | hl
    · rw [hl]
      exact h.waits (hback hidle)
    · rw [hl]
      have := seatCount_pos t.cfg
      dsimp only
      omega
  next s hs := by
    rcases hu.next with hn | ⟨s', hn, hs'⟩
    · exact h.next s (hn ▸ hs)
    · rw [hn] at hs
      obtain rfl := Option.some.inj hs
      exact hs'

theorem Still.refl (t : Table) : Still t t := ⟨rfl, .inl ⟨rfl, id⟩, .inl rfl⟩

theorem Still.of_stay (hc : u.cfg = t.cfg) (hl : u.toLobby = t.toLobby)
    (hctrl : u.toCtrl = t.toCtrl) : Still t u :=
  ⟨hc, .inl ⟨hl, fun h => by rwa [Idle, hctrl] at h⟩, .inl (by rw [hctrl])⟩

theorem Still.of_wait {s : Status} (hc : u.cfg = t.cfg) (hl : u.toLobby = t.toLobby)
    (hwait : u.status = .wait) (hn : u.nextStatus = some s)
    (hs : s ≠ .waitP ∧ s ≠ .ready) : Still t u :=
  ⟨hc, .inl ⟨hl, fun h => by simp [Idle, hwait] at h⟩, .inr ⟨s, hn, hs⟩⟩

theorem Still.of_enter (hc : u.cfg = t.cfg) (hl : u.toLobby = t.toLobby)
    (hs : u.status ≠ .waitP ∧ u.status ≠ .ready) (hn : u.nextStatus = t.nextStatus) :
    Still t u :=
  ⟨hc, .inl ⟨hl, fun h => absurd h.1 (not_or.mpr hs)⟩, .inl hn⟩

theorem Still.trans (h : Still t u) (h' : Still u v) : Still t v where
  cfg := h'.cfg.trans h.cfg
  lobby := by
    rcases h'.lobby with ⟨hl', hback'⟩ | hl'
    · rcases h.lobby with ⟨hl, hback⟩ | hl
      · exact .inl ⟨hl'.trans hl, fun hv => hback (hback' hv)⟩
      · exact .inr (hl'.trans hl)
    · rcases h.lobby with ⟨hl, -⟩ | hl <;> exact .inr (by rw [hl', hl])
  next := by
    rcases h'.next with hn' | hn'
    · rcases h.next with hn | hn
      · exact .inl (hn'.trans hn)
      · exact .inr (hn' ▸ hn)
    · exact .inr hn'

theorem Still.wait {s : Status} (h : Still t u) (hs : s ≠ .waitP ∧ s ≠ .ready) :
    Still t (u.wait s) :=
  h.trans (.of_wait rfl rfl rfl rfl hs)

theorem Still.settles (h : Settles t u) : Still t u := by
  obtain ⟨p, hc | hc⟩ := h.ctrl
  · refine ⟨h.cfg, .inl ⟨h.toLobby, fun hu => ?_⟩, .inl (by rw [hc])⟩
    rwa [Idle, hc] at hu
  · exact .of_wait (s := .settlement) h.cfg h.toLobby (by rw [hc]) (by rw [hc])
      (by decide)

theorem newGame_still (t : Table) (again : Bool) : Still t (t.newGame again) := by
  unfold newGame gameBegin
  dsimp only
  split
  · exact ⟨by simp, .inr (by simp), .inr ⟨.fp, by simp, by decide⟩⟩
  · exact ⟨by simp, .inr (by simp), .inl (by simp)⟩

theorem noDizhu_still (t : Table) : Still t t.noDizhu := by
  unfold noDizhu
  dsimp only
  split
  · exact Still.trans (u := { t with
        noDizhuCount := t.noDizhuCount + 1
        raceCount := 0 }) (.of_stay rfl rfl rfl) (.settles (settles_settlement _ 0))
  · exact (Still.of_stay (by simp) (by simp) (by simp)).trans (newGame_still _ true)

theorem afterBidding_still (t : Table) : Still t t.afterBidding := by
  unfold afterBidding
  split
  · exact (Still.refl t).wait (by decide)
  · split
    · exact (Still.refl t).wait (by decide)
    · exact .of_wait (s := .cp) (by simp) (by simp) (by simp) (by simp) (by decide)

theorem libJiaoDizhu_still (t : Table) (p rate : Nat) :
    Still t (t.libJiaoDizhu p rate).2 := by
  unfold libJiaoDizhu erJiaoDizhu norJiaoDizhu
  split
  · dsimp only
    split
    · exact .refl t
    · split
      · exact .of_stay (by simp) (by simp) (by simp)
      · split <;> exact .of_stay (by simp) (by simp) (by simp)
  · dsimp only
    split
    · exact .refl t
    · split
      · exact .refl t
      · split
        · exact .of_stay (by simp) (by simp) (by simp)
        · split <;> exact .of_stay (by simp) (by simp) (by simp)

@[simp] theorem setDizhu_toLobby (t : Table) (d : Nat) (men : Option Nat) :
    (t.setDizhu d men).toLobby = t.toLobby := by
  simp [setDizhu, libSetDizhu]

theorem setDizhu_still (t : Table) (d : Nat) (men : Option Nat) :
    Still t (t.setDizhu d men) :=
  .of_stay (by simp) (by simp) (by simp)

theorem jiaoDizhu_still (t : Table) (p rate : Nat) :
    Still t (t.jiaoDizhu p rate).table := by
  unfold jiaoDizhu
  split
  · exact .refl t
  · have hlib := t.libJiaoDizhu_still p rate
    generalize t.libJiaoDizhu p rate = q at hlib
    obtain ⟨status, u⟩ := q
    refine hlib.trans ?_
    dsimp only
    split
    · exact .refl u
    · refine Still.trans (u := u.sendAll fun _ => .jdz u.lastAct)
        (.of_stay (by simp) (by simp) (by simp)) ?_
      split
      · exact noDizhu_still _
      · split
        · split
          · split
            · exact (setDizhu_still _ _ _).wait (by decide)
            · exact (Still.refl _).wait (by decide)
          · exact (setDizhu_still _ _ _).trans (afterBidding_still _)
        · exact (Still.refl _).wait (by decide)

theorem libErQiangDizhu_still (t : Table) (p rate : Nat) :
    Still t (t.libErQiangDizhu p rate).2 := by
  unfold libErQiangDizhu
  dsimp only
  split
  · split <;> exact .of_stay (by simp) (by simp) (by simp)
  · exact .of_stay (by simp) (by simp) (by simp)

theorem erQiangDizhu_still (t : Table) (p rate : Nat) :
    Still t (t.erQiangDizhu p rate).table := by
  unfold erQiangDizhu
  split
  · exact .refl t
  · have hlib := t.libErQiangDizhu_still p rate
    generalize t.libErQiangDizhu p rate = q at hlib
    obtain ⟨status, u⟩ := q
    refine hlib.trans ?_
    refine Still.trans (u := u.sendAll fun _ => .erQdz u.lastAct)
      (.of_stay (by simp) (by simp) (by simp)) ?_
    dsimp only
    split
    · exact (setDizhu_still _ _ _).wait (by decide)
    · exact (Still.refl _).wait (by decide)

theorem jiabei_still (t : Table) (p rate : Nat) : Still t (t.jiabei p rate).table := by
  unfold jiabei libJiabei
  split
  · exact .refl t
  · dsimp only
    split
    · split
      · exact .of_wait (s := .createLz) (by simp) (by simp) (by simp) (by simp) (by decide)
      · exact .of_wait (s := .cp) (by simp) (by simp) (by simp) (by simp) (by decide)
    · exact .of_stay (by simp) (by simp) (by simp)

theorem startCp_still (t : Table) : Still t t.startCp :=
  .of_wait (s := .cp) (by simp [startCp]) (by simp [startCp]) (by simp [startCp])
    (by simp [startCp]) (by decide)

theorem men_still (t : Table) (p opt : Nat) : Still t (t.men p opt).table := by
  unfold men
  split
  · exact .refl t
  · split
    · exact .refl t
    · split
      · dsimp only
        generalize (fun s => if s ∈ t.seats then
          t.pRate s * (if s = p then 4 else 2) else t.pRate s) = r
        split
        · exact .of_wait (s := .cp) (by simp [startCp]) (by simp [startCp])
            (by simp [startCp]) (by simp [startCp]) (by decide)
        · exact .of_wait (s := .mldJb) (by simp) (by simp) (by simp) (by simp) (by decide)
      · split
        · exact .refl t
        · exact .of_wait (s := .mldMen) (by simp) (by simp) (by simp) (by simp) (by decide)

theorem zhuaPai_still (t : Table) (p opt : Nat) : Still t (t.zhuaPai p opt).table := by
  unfold zhuaPai
  split
  · exact .refl t
  · split
    · exact .of_wait (s := .mldJb) (by simp) (by simp) (by simp) (by simp) (by decide)
    · exact .of_wait (s := .mldMen) (by simp) (by simp) (by simp) (by simp) (by decide)

theorem dao_still (t : Table) (p opt : Nat) : Still t (t.dao p opt).table := by
  unfold dao
  split
  · exact .refl t
  · dsimp only
    generalize (if 0 < opt then OtherType.mldDao else OtherType.mldBd) = type
    split
    · split
      · exact .of_wait (s := .mldJb) (by simp) (by simp) (by simp) (by simp) (by decide)
      · exact Still.trans (.of_stay (by simp) (by simp) (by simp)) (startCp_still _)
    · exact .of_stay (by simp) (by simp) (by simp)

theorem la_still (t : Table) (p opt : Nat) : Still t (t.la p opt).table := by
  have hend (u : Table) (hu : Still t u) : Still t (u.laEnd p opt).table :=
    hu.trans (Still.trans (.of_stay (by simp) (by simp) (by simp)) (startCp_still _))
  unfold la
  split
  · dsimp only
    split
    · exact .of_stay (by simp) (by simp) (by simp)
    · next u hu =>
      obtain ⟨-, -, rfl⟩ := Option.map_eq_some_iff.mp hu
      split
      · exact .of_stay (by simp) (by simp) (by simp)
      · next v hv =>
        obtain ⟨-, -, rfl⟩ := Option.map_eq_some_iff.mp hv
        exact hend _ (.of_stay (by simp) (by simp) (by simp))
  · exact hend _ (.refl t)

theorem daoLa_still (t : Table) (p opt : Nat) : Still t (t.daoLa p opt).table := by
  unfold daoLa
  split
  · exact .refl t
  · refine Still.trans (u := t.read .daoLaData) (.of_stay (by simp) (by simp) (by simp)) ?_
    dsimp only
    split
    · exact .refl _
    · split
      · exact .refl _
      · split
        · exact la_still _ p opt
        · exact dao_still _ p opt

theorem chupai_still (t : Table) (p : Nat) (a : ChupaiArgs) :
    Still t (t.chupai p a).table := by
  unfold chupai
  split
  · exact .refl t
  · have hspec := t.libChupai_spec p a
    generalize t.libChupai p a = q at hspec
    obtain ⟨res, u⟩ := q
    have hu : Still t u := by
      rcases hspec with ⟨hu, -⟩ | ⟨hu, -⟩
      · exact hu ▸ .refl t
      · exact .of_stay hu.cfg hu.toLobby hu.toCtrl
    refine hu.trans ?_
    cases res with
    | none => exact .refl u
    | some status =>
        dsimp only
        split
        · refine Still.trans (.of_stay (by simp) (by simp) (by simp) :
            Still u ((u.countPlay p a.type).sendAll fun _ =>
              .cp (u.countPlay p a.type).lastAct ((u.countPlay p a.type).pRate p))) ?_
          split
          · exact .settles (settles_settlement _ p)
          · exact .of_wait (s := .cp) (by simp) (by simp) (by simp) (by simp) (by decide)
        · exact .refl u

theorem gameBegin_still (t : Table) : Still t t.gameBegin :=
  .of_wait (s := .fp) (by simp [gameBegin]) (by simp [gameBegin]) (by simp [gameBegin])
    (by simp [gameBegin]) (by decide)

theorem gameover_still (t : Table) : Still t t.gameover :=
  .of_enter (by simp [gameover]) (by simp [gameover]) (by simp [gameover])
    (by simp [gameover])

theorem gamecancel_still (t : Table) : Still t t.gamecancel :=
  .of_enter (by simp [gamecancel]) (by simp [gamecancel]) (by simp [gamecancel])
    (by simp [gamecancel])

theorem breakGame_still (t : Table) : Still t t.breakGame.table := by
  unfold breakGame
  split
  · exact .refl t
  · refine Still.trans (u := { t with isBreakGame := true }) (.of_stay rfl rfl rfl) ?_
    dsimp only
    split
    · exact gameover_still _
    · split
      · exact .settles (settles_settlement _ 0)
      · exact .refl _

theorem cancelGame_still (t : Table) : Still t t.cancelGame.table := by
  unfold cancelGame
  split
  · exact .refl t
  · exact gamecancel_still t

theorem changeStatus_still (t : Table) (rand : Nat) {s : Status}
    (hs : s ≠ .waitP ∧ s ≠ .ready) : Still t (t.changeStatus rand s) := by
  cases s with
  | waitP => exact absurd rfl hs.1
  | ready => exact absurd rfl hs.2
  | gameBegin => exact gameBegin_still t
  | createLz =>
      exact .of_wait (s := .cp) (by simp [changeStatus, createLz])
        (by simp [changeStatus, createLz]) (by simp [changeStatus, createLz])
        (by simp [changeStatus, createLz]) (by decide)
  | gameover => exact gameover_still t
  | gamecancel => exact gamecancel_still t
  | _ =>
      exact .of_enter
        (by simp [changeStatus, mldMenPermit, mldJbPermit, chupaiPermit])
        (by simp [changeStatus, mldMenPermit, mldJbPermit, chupaiPermit])
        (by simp [changeStatus, mldMenPermit, mldJbPermit, chupaiPermit])
        (by simp [changeStatus, mldMenPermit, mldJbPermit, chupaiPermit])

theorem Counted.update (h : t.Counted) (rand : Nat) : (t.update rand).Counted := by
  unfold Table.update
  split
  · have hidle : Still t { t with time := false } := ⟨rfl, .inl ⟨rfl, id⟩, .inl rfl⟩
    dsimp only
    split
    · exact h.still hidle
    · next s hs => exact h.still (hidle.trans (changeStatus_still _ rand (h.next s hs)))
  · exact h

theorem fapai_still (t : Table) (ρ : Nat → Nat) (rand : Nat) :
    Still t ({ t with updating := none }.fapai ρ rand) := by
  unfold fapai
  dsimp only
  split
  · exact ⟨by simp, .inl ⟨by simp, fun h => by simpa [Idle] using h⟩,
      .inr ⟨.mldMen, by simp, by decide⟩⟩
  · exact ⟨by simp, .inl ⟨by simp, fun h => by simpa [Idle] using h⟩,
      .inr ⟨.jdz, by simp, by decide⟩⟩

theorem settlementFinish_still (F : NumFormat) (t : Table) (answer : Nat → Int → Int) :
    Still t (settlementFinish F { t with updating := none } answer) := by
  unfold settlementFinish nextGame
  dsimp only
  split
  · refine Still.trans ?_ (newGame_still _ false)
    exact ⟨by simp, .inl ⟨by simp, fun h => by simpa [Idle] using h⟩, .inl (by simp)⟩
  · exact ⟨by simp, .inl ⟨by simp, fun h => by simpa [Idle] using h⟩,
      .inr ⟨.gameover, by simp, by decide⟩⟩

end Still

section Step

variable {t u : Table} {F : NumFormat}

/-- The events that keep the counters right: a player who leaves had pressed
ready, and a seat that is asked for is free. -/
def KeepsCount (t : Table) : Event → Prop
  | .join _ seat => ∀ s ∈ seat, s ∈ t.cfg.seatList ∧ t.pSeatNumber s = none
  | .playerExitGame seat => (t.pSeatNumber seat).isSome → t.ready seat = 1
  | .ready seat => seat ∈ t.cfg.seatList
  | _ => True

instance (t : Table) : ∀ e, Decidable (t.KeepsCount e) := by
  rintro (_ | _) <;> unfold KeepsCount <;> infer_instance

theorem seatList_nodup (cfg : Config) : cfg.seatList.Nodup := List.nodup_range'

theorem Counted.join (h : t.Counted) (id : Nat) (seat : Option Nat)
    (he : t.KeepsCount (.join id seat)) : (t.join id seat).table.Counted := by
  unfold Table.join
  split
  · exact h
  · split
    · exact h
    · next s hs =>
      have hfree : s ∈ t.cfg.seatList ∧ t.pSeatNumber s = none := by
        cases seat with
        | some s' =>
            obtain rfl : s' = s := by simpa using hs
            exact he s' rfl
        | none =>
            rw [Option.none_or] at hs
            exact ⟨List.mem_of_find?_eq_some hs, by simpa using List.find?_some hs⟩
      exact ⟨h.tally.take (seatList_nodup _) hfree.1 hfree.2 id, h.waits, h.next⟩

theorem Counted.playerExitGame (h : t.Counted) (seat : Nat)
    (he : t.KeepsCount (.playerExitGame seat)) :
    (t.playerExitGame seat).table.Counted := by
  unfold Table.playerExitGame
  dsimp only
  split
  · exact ⟨h.tally, h.waits, h.next⟩
  · next id hid =>
    have htaken : (t.pSeatNumber seat).isSome := Option.isSome_iff_exists.mpr ⟨id, hid⟩
    refine ⟨h.tally.leave (seatList_nodup _) htaken (he htaken), fun hidle => ?_, h.next⟩
    have hle : t.pReady ≤ t.cfg.seatCount := by
      rw [h.tally.total]
      have := List.countP_le_length (l := t.cfg.seatList) (p := fun s => t.ready s = 1)
      rw [Config.seatList, List.length_range'] at this
      exact_mod_cast this
    show t.pReady - 1 ≠ t.cfg.seatCount
    omega

theorem Counted.readyCmd (h : t.Counted) {seat : Nat} (hs : seat ∈ t.cfg.seatList) :
    (t.readyCmd seat).table.Counted := by
  unfold Table.readyCmd
  dsimp only
  split
  · next hzero =>
    have htally := h.tally.press (seatList_nodup _) hs hzero
    split
    · refine ⟨htally, fun hidle => ?_, ?_⟩
      · simp [Idle, gameBegin] at hidle
      · simp [gameBegin]
    · next hno => exact ⟨htally, fun _ => hno, h.next⟩
  · exact h

theorem Counted.step (h : t.Counted) (F : NumFormat) {e : Event}
    (he : t.KeepsCount e) : (t.step F e).Counted := by
  unfold Table.step
  split
  · exact h
  · cases e with
    | join id seat => exact h.join id seat he
    | playerExitGame seat => exact h.playerExitGame seat he
    | ready seat => exact h.readyCmd he
    | jiaoDizhu seat rate => exact h.still (t.jiaoDizhu_still seat rate)
    | jiabei seat rate => exact h.still (t.jiabei_still seat rate)
    | men seat opt => exact h.still (t.men_still seat opt)
    | zhuaPai seat opt => exact h.still (t.zhuaPai_still seat opt)
    | daoLa seat opt => exact h.still (t.daoLa_still seat opt)
    | erQiangDizhu seat rate => exact h.still (t.erQiangDizhu_still seat rate)
    | chupai seat args => exact h.still (t.chupai_still seat args)
    | auto seat type => exact ⟨h.tally, h.waits, h.next⟩
    | cancelGame => exact h.still t.cancelGame_still
    | breakGame => exact h.still t.breakGame_still
    | overTimeCancelGame =>
        simp only [handle, Table.overTimeCancelGame]
        split
        · exact h.still t.cancelGame_still
        · exact h.still t.breakGame_still
    | update rand => exact h.update rand
    | fapaiAnswer ρ rand =>
        simp only [handle]
        split
        · exact h.still (t.fapai_still ρ rand)
        · exact h
    | capAnswer call answer =>
        simp only [handle]
        split
        · refine h.still (Still.trans (u := { t with pending := t.pending.erase call }) ?_
            (.settles (settles_resumeSettlement _ _ _)))
          exact ⟨rfl, .inl ⟨rfl, id⟩, .inl rfl⟩
        · exact h
    | scoreAnswer answer =>
        simp only [handle]
        split
        · exact h.still (settlementFinish_still F t answer)
        · exact h

theorem counted_newTable (cfg : Config) : (newTable cfg).Counted := by
  refine Counted.still ?_ (newGame_still _ false)
  refine ⟨Tally.free _, fun _ => ?_, by simp⟩
  have := seatCount_pos cfg
  show (0 : Int) ≠ cfg.seatCount
  omega

/-! ## The beginning of a hand -/

def Begun (t : Table) : Prop := t.status = .wait ∧ t.nextStatus = some .fp

/-- The players press ready: the table waits for more of them, or all have done
so and the game has begun. -/
structure Pressing (t : Table) : Prop where
  counted : t.Counted
  live : t.gone = false
  phase : t.Idle ∨ (t.Begun ∧ ∀ s ∈ t.cfg.seatList, t.ready s = 1)

theorem Pressing.ready (h : t.Pressing) {s : Nat} (hs : s ∈ t.cfg.seatList) :
    (t.step F (.ready s)).Pressing ∧ (t.step F (.ready s)).cfg = t.cfg ∧
      (t.step F (.ready s)).ready s = 1 ∧
      ∀ x, t.ready x = 1 → (t.step F (.ready s)).ready x = 1 := by
  have hcounted : (t.step F (.ready s)).Counted := h.counted.step F hs
  have hstep : t.step F (.ready s) = (t.readyCmd s).table := by
    simp [Table.step, h.live, handle]
  rw [hstep] at hcounted ⊢
  rcases h.counted.tally.two s with hzero | hone
  · have hready : (t.readyCmd s).table.ready = Function.update t.ready s 1 := by
      simp only [readyCmd, hzero, if_true]
      split <;> simp [gameBegin]
    have hcfg : (t.readyCmd s).table.cfg = t.cfg := by
      simp only [readyCmd, hzero, if_true]
      split <;> simp [gameBegin]
    have hidle : t.Idle := by
      rcases h.phase with hidle | ⟨-, hall⟩
      · exact hidle
      · exact absurd (hall s hs) (by omega)
    refine ⟨⟨hcounted, ?_, ?_⟩, hcfg, by rw [hready, Function.update_self], ?_⟩
    · simp only [readyCmd, hzero, if_true]
      split <;> simp [gameBegin, h.live]
    · simp only [readyCmd, hzero, if_true]
      split
      · next hfull =>
        refine .inr ⟨by simp [Begun, gameBegin], ?_⟩
        have htally := h.counted.tally.press (seatList_nodup _) hs hzero
        have hlen : t.pReady + 1 = t.cfg.seatList.length := by
          rw [Config.seatList, List.length_range']
          exact hfull
        simpa [gameBegin] using htally.total_eq_length.mp hlen
      · exact .inl hidle
    · intro x hx
      rw [hready]
      by_cases hxs : x = s
      · rw [hxs, Function.update_self]
      · rwa [Function.update_of_ne hxs]
  · have hsame : (t.readyCmd s).table = t := by
      simp [readyCmd, hone]
    rw [hsame]
    exact ⟨h, rfl, hone, fun _ hx => hx⟩

theorem Counted.begins (h : t.Counted) (hidle : t.Idle) {order : List Nat}
    (hin : ∀ s ∈ order, s ∈ t.cfg.seatList) (hall : ∀ s ∈ t.cfg.seatList, s ∈ order) :
    (run (Table.step F) t (order.map .ready)).Begun := by
  have hrun : ∀ (order : List Nat) (u : Table), u.Pressing →
      (∀ s ∈ order, s ∈ u.cfg.seatList) →
      (∀ s ∈ u.cfg.seatList, s ∈ order ∨ u.ready s = 1) →
      (run (Table.step F) u (order.map .ready)).Begun := by
    intro order
    induction order with
    | nil =>
        intro u hu _ hall
        rcases hu.phase with hidle | hbegun
        · refine absurd ?_ (hu.counted.waits hidle)
          have hlen := hu.counted.tally.total_eq_length.mpr fun s hs => by simpa using hall s hs
          rwa [Config.seatList, List.length_range'] at hlen
        · exact hbegun.1
    | cons s order ih =>
        intro u hu hin hall
        obtain ⟨hnext, hcfg, hone, hmono⟩ := hu.ready (F := F) (hin s (by simp))
        refine ih _ hnext (fun x hx => ?_) fun x hx => ?_
        · rw [hcfg]
          exact hin x (by simp [hx])
        · rw [hcfg] at hx
          rcases hall x hx with hmem | hx1
          · rcases List.mem_cons.mp hmem with rfl | hmem
            · exact .inr hone
            · exact .inl hmem
          · exact .inr (hmono x hx1)
  exact hrun order t ⟨h, hidle.2, .inl hidle⟩ hin fun s hs => .inl (hall s hs)

/-- Ready counting at a waiting table: both counters are right, and if all seats
are occupied the game begins once each of them has sent ready, in any order. -/
def CountsReady (F : NumFormat) (t : Table) : Prop :=
  t.Idle →
    t.pReady = (t.cfg.seatList.countP fun s => t.ready s = 1) ∧
      t.pCount = (t.cfg.seatList.countP fun s => (t.pSeatNumber s).isSome) ∧
      ((∀ s ∈ t.cfg.seatList, (t.pSeatNumber s).isSome) → ∀ order : List Nat,
        (∀ s ∈ order, s ∈ t.cfg.seatList) → (∀ s ∈ t.cfg.seatList, s ∈ order) →
          (run (Table.step F) t (order.map .ready)).Begun)

theorem Counted.countsReady (h : t.Counted) : t.CountsReady F :=
  fun hidle => ⟨h.tally.total, h.tally.count,
    fun _ _ hin hall => h.begins hidle hin hall⟩

end Step

end Table

end JyQipai.Ddz
