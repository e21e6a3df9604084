import JyQipai.Ddz.Turn

/-!
# Bidding

From the deal on, the seat in turn calls until the landlord is known or nobody wants to be
landlord.  The accepted calls go round the table from `dz_candidate`.  With three seats the highest
bid wins; with two seats a call can be answered by a grab, and a grab by another one.
-/

namespace JyQipai.Ddz

open JyQipai.Lib

namespace Table

section Opens

variable {t u : Table}

def Opens (t : Table) : Prop :=
  t.cfg.gameType = .er → t.play.actList = [] → t.qiangDzCount = 0 ∧ t.rangpaiNum = some 1

structure KeepsGrabs (t u : Table) : Prop where
  cfg : u.cfg = t.cfg
  acts : u.play.actList = [] → t.play.actList = []
  grabs : u.qiangDzCount = t.qiangDzCount ∧ u.rangpaiNum = t.rangpaiNum

theorem Opens.of_keeps (h : t.Opens) (hk : KeepsGrabs t u) : u.Opens := by
  intro her hacts
  rw [hk.grabs.1, hk.grabs.2]
  exact h (hk.cfg ▸ her) (hk.acts hacts)

theorem Opens.of_acts (h : u.play.actList ≠ []) : u.Opens := fun _ hu => absurd hu h

theorem KeepsGrabs.trans {v : Table} (h : KeepsGrabs t u) (h' : KeepsGrabs u v) :
    KeepsGrabs t v where
  cfg := h'.cfg.trans h.cfg
  acts hv := h.acts (h'.acts hv)
  grabs := ⟨h'.grabs.1.trans h.grabs.1, h'.grabs.2.trans h.grabs.2⟩

theorem opens_newGame (t : Table) (again : Bool) : (t.newGame again).Opens := by
  intro her _
  unfold newGame gameBegin at her ⊢
  dsimp only at her ⊢
  split at her <;> rename_i hagain <;> simp_all [resetHand]

theorem keepsGrabs_settleAwards (t : Table) (w : Nat) : KeepsGrabs t (t.settleAwards w) := by
  unfold settleAwards
  split
  · exact ⟨rfl, id, rfl, rfl⟩
  · exact ⟨by simp, by simp, rfl, rfl⟩

theorem keepsGrabs_settlement (t : Table) (w : Nat) : KeepsGrabs t (t.settlement w) := by
  refine (t.keepsGrabs_settleAwards w).trans ?_
  unfold settlement
  dsimp only
  generalize t.settleAwards w = u
  split
  · split
    · split <;> exact ⟨rfl, id, rfl, rfl⟩
    · split <;> exact ⟨rfl, id, rfl, rfl⟩
  · exact ⟨rfl, id, rfl, rfl⟩

theorem keepsGrabs_resumeSettlement (t : Table) (answer : Int) (call : Pending) :
    KeepsGrabs t (t.resumeSettlement answer call) := by
  unfold resumeSettlement
  split
  · split
    · exact ⟨rfl, id, rfl, rfl⟩
    · dsimp only
      split <;> exact ⟨rfl, id, rfl, rfl⟩
  · split <;> exact ⟨rfl, id, rfl, rfl⟩
  · exact ⟨rfl, id, rfl, rfl⟩

theorem Opens.noDizhu (h : t.Opens) : t.noDizhu.Opens := by
  unfold Table.noDizhu
  dsimp only
  split
  · refine h.of_keeps (.trans (u := { t with noDizhuCount := t.noDizhuCount + 1, raceCount := 0 })
      ⟨rfl, id, rfl, rfl⟩ (keepsGrabs_settlement _ 0))
  · exact opens_newGame _ true

theorem Opens.update (h : t.Opens) (rand : Nat) : (t.update rand).Opens := by
  unfold Table.update
  split
  · dsimp only
    split
    · exact h.of_keeps ⟨rfl, id, rfl, rfl⟩
    · next s _ =>
      cases s <;> exact h.of_keeps ⟨rfl, id, rfl, rfl⟩
  · exact h

theorem Opens.jiaoDizhu (h : t.Opens) (hbase : t.Base) {p : Nat} (hp : p ∈ t.cfg.seatList)
    (rate : Nat) : (t.jiaoDizhu p rate).table.Opens := by
  rcases jiaoDizhu_cases hbase hp rate with heq | ⟨-, ⟨r, hb⟩, hcase⟩
  · rw [heq]
    exact h
  · have hacts : (t.jdzTable p rate).play.actList ≠ [] := by simp [hb.actList]
    rcases hcase with heq | heq | ⟨-, -, heq⟩ | ⟨d, -, -, heq⟩ | ⟨d, -, -, heq⟩
    · rw [heq]
      exact (Opens.of_acts hacts).noDizhu
    · rw [heq]
      exact .of_acts (by simpa using hacts)
    · rw [heq]
      exact .of_acts (by simpa using hacts)
    · rw [heq]
      exact .of_acts (by simpa using hacts)
    · rw [heq]
      refine .of_acts ?_
      unfold afterBidding
      split
      · simpa using hacts
      · split <;> simpa using hacts

theorem Opens.jiabei (h : t.Opens) (p rate : Nat) : (t.jiabei p rate).table.Opens := by
  unfold Table.jiabei libJiabei
  split
  · exact h
  · dsimp only
    split
    · split <;> exact .of_acts (by simp)
    · exact .of_acts (by simp)

theorem Opens.men (h : t.Opens) (p opt : Nat) : (t.men p opt).table.Opens := by
  unfold Table.men
  split
  · exact h
  · split
    · exact h
    · split
      · dsimp only
        split <;> exact .of_acts (by simp [startCp])
      · split
        · exact h
        · exact .of_acts (by simp)

theorem Opens.zhuaPai (h : t.Opens) (p opt : Nat) : (t.zhuaPai p opt).table.Opens := by
  unfold Table.zhuaPai
  split
  · exact h
  · split <;> exact .of_acts (by simp)

theorem laEnd_opens (t : Table) (p opt : Nat) : (t.laEnd p opt).table.Opens :=
  Opens.of_acts (by simp [laEnd, startCp])

theorem Opens.la (h : t.Opens) (p opt : Nat) : (t.la p opt).table.Opens := by
  unfold Table.la
  split
  · dsimp only
    split
    · exact h
    · next u hu =>
      obtain ⟨r, -, rfl⟩ := Option.map_eq_some_iff.mp hu
      split
      · exact h.of_keeps ⟨rfl, id, rfl, rfl⟩
      · exact laEnd_opens _ p opt
  · exact laEnd_opens _ p opt

theorem Opens.dao (h : t.Opens) (p opt : Nat) : (t.dao p opt).table.Opens := by
  unfold Table.dao
  split
  · exact h
  · dsimp only
    generalize (if 0 < opt then OtherType.mldDao else OtherType.mldBd) = type
    split
    · split
      · exact Opens.of_acts (by simp)
      · exact Opens.of_acts (by simp [startCp])
    · exact Opens.of_acts (by simp)

theorem Opens.daoLa (h : t.Opens) (p opt : Nat) : (t.daoLa p opt).table.Opens := by
  unfold Table.daoLa
  split
  · exact h
  · dsimp only
    have hread : (t.read .daoLaData).Opens := h.of_keeps ⟨rfl, id, rfl, rfl⟩
    split
    · exact hread
    · split
      · exact hread
      · split
        · exact hread.la p opt
        · exact hread.dao p opt

theorem Opens.erQiangDizhu (h : t.Opens) (p rate : Nat) :
    (t.erQiangDizhu p rate).table.Opens := by
  unfold Table.erQiangDizhu
  split
  · exact h
  · have hacts : (t.libErQiangDizhu p rate).2.play.actList ≠ [] := by
      unfold libErQiangDizhu
      dsimp only
      split
      · split <;> simp
      · simp
    generalize t.libErQiangDizhu p rate = q at hacts
    dsimp only
    split <;> exact .of_acts (by simpa using hacts)

theorem Opens.chupai (h : t.Opens) (p : Nat) (a : ChupaiArgs) :
    (t.chupai p a).table.Opens := by
  unfold Table.chupai
  split
  · exact h
  · have hlib : (t.libChupai p a).table.Opens := by
      rcases t.libChupai_spec p a with ⟨hu, -⟩ | ⟨hu, -⟩
      · rw [hu]
        exact h
      · exact Opens.of_acts (by simp [hu.actList])
    generalize t.libChupai p a = q at hlib
    obtain ⟨res, u⟩ := q
    cases res with
    | none => exact hlib
    | some status =>
        have hcount : ((u.countPlay p a.type).sendAll fun _ =>
            .cp (u.countPlay p a.type).lastAct ((u.countPlay p a.type).pRate p)).Opens :=
          Opens.of_keeps hlib ⟨rfl, id, rfl, rfl⟩
        dsimp only
        split
        · split
          · exact hcount.of_keeps (keepsGrabs_settlement _ p)
          · exact hcount.of_keeps ⟨rfl, id, rfl, rfl⟩
        · exact hlib

theorem Opens.cancelGame (h : t.Opens) : t.cancelGame.table.Opens := by
  unfold Table.cancelGame
  split
  · exact h
  · exact h.of_keeps ⟨rfl, id, rfl, rfl⟩

theorem Opens.breakGame (h : t.Opens) : t.breakGame.table.Opens := by
  unfold Table.breakGame
  split
  · exact h
  · dsimp only
    split
    · exact h.of_keeps ⟨rfl, id, rfl, rfl⟩
    · split
      · exact (h.of_keeps (u := { t with isBreakGame := true }) ⟨rfl, id, rfl, rfl⟩).of_keeps
          (keepsGrabs_settlement _ 0)
      · exact h.of_keeps ⟨rfl, id, rfl, rfl⟩

theorem Opens.step (h : t.Opens) (hi : t.Inv) {F : NumFormat} {e : Event} (he : t.Legal e) :
    (t.step F e).Opens := by
  unfold Table.step
  split
  · exact h
  · cases e with
    | join id seat =>
        simp only [handle, Table.join]
        split
        · exact h
        · split <;> exact h
    | playerExitGame seat =>
        simp only [handle, Table.playerExitGame]
        split <;> exact h
    | ready seat =>
        simp only [handle, readyCmd]
        split
        · split <;> exact h.of_keeps ⟨rfl, id, rfl, rfl⟩
        · exact h
    | jiaoDizhu seat rate => exact h.jiaoDizhu hi.base he rate
    | jiabei seat rate => exact h.jiabei seat rate
    | men seat opt => exact h.men seat opt
    | zhuaPai seat opt => exact h.zhuaPai seat opt
    | daoLa seat opt => exact h.daoLa seat opt
    | erQiangDizhu seat rate => exact h.erQiangDizhu seat rate
    | chupai seat args => exact h.chupai seat args
    | auto seat type => exact h
    | cancelGame => exact h.cancelGame
    | breakGame => exact h.breakGame
    | overTimeCancelGame =>
        simp only [handle, Table.overTimeCancelGame]
        split
        · exact h.cancelGame
        · exact h.breakGame
    | update rand => exact h.update rand
    | fapaiAnswer ρ rand =>
        simp only [handle]
        split
        · unfold fapai
          dsimp only
          split <;> exact h.of_keeps ⟨by simp, by simp [norFapai], by simp, by simp⟩
        · exact h
    | capAnswer call answer =>
        simp only [handle]
        split
        · exact h.of_keeps (.trans (u := { t with pending := t.pending.erase call })
            ⟨rfl, id, rfl, rfl⟩ (keepsGrabs_resumeSettlement ..))
        · exact h
    | scoreAnswer answer =>
        simp only [handle]
        split
        · unfold settlementFinish nextGame
          dsimp only
          split
          · exact opens_newGame _ false
          · exact h.of_keeps ⟨rfl, id, rfl, rfl⟩
        · exact h

theorem Reachable.opens {F : NumFormat} {cfg : Config} (h : Reachable F cfg t) : t.Opens := by
  have hboth : t.Inv ∧ t.Opens := by
    refine Reach.invariant (P := fun u => u.Inv ∧ u.Opens) ?_ ?_ h
    · exact ⟨newTable_inv cfg, opens_newGame _ false⟩
    · intro u e hu he
      exact ⟨hu.1.step F he, hu.2.step hu.1 he⟩
  exact hboth.2

end Opens

section Run

variable (F : NumFormat)

def callOf (t : Table) (rate : Nat) : Event :=
  if t.status = .erQiangdizhu then .erQiangDizhu t.play.curP rate
  else .jiaoDizhu t.play.curP rate

def callAct (t : Table) (rate : Nat) : Act :=
  { type := if t.status = .erQiangdizhu then OtherType.erQdz else OtherType.jdz
    p := t.play.curP, rate := rate }

def accepts (t : Table) (rate : Nat) : Bool :=
  (t.answer F (t.callOf rate)).result = some 0

def timerOut (t : Table) : Table :=
  if t.nextStatus = some .jdz ∨ t.nextStatus = some .erQiangdizhu then t.step F (.update 0) else t

def called (t : Table) (rate : Nat) : Table := timerOut F (t.step F (t.callOf rate))

def bids : Table → List Nat → List Act × Table
  | t, [] => ([], t)
  | t, rate :: rates =>
      let rest := bids (t.called F rate) rates
      (if t.accepts F rate then t.callAct rate :: rest.1 else rest.1, rest.2)

def opened (t : Table) (ρ : Nat → Nat) (rand : Nat) : Table :=
  (t.step F (.fapaiAnswer ρ rand)).step F (.update 0)

variable {F} {t : Table}

theorem bids_invariant {P : List Act → Table → Prop}
    (hstep : ∀ l u rate, P l u →
      P (l ++ if u.accepts F rate then [u.callAct rate] else []) (u.called F rate))
    (rates : List Nat) :
    ∀ {l : List Act} {t : Table}, P l t → P (l ++ (t.bids F rates).1) (t.bids F rates).2 := by
  induction rates with
  | nil =>
      intro l t h
      simpa [bids] using h
  | cons rate rates ih =>
      intro l t h
      have hrest := ih (hstep l t rate h)
      rw [List.append_assoc] at hrest
      simp only [bids]
      split at hrest <;> rename_i hacc
      · rw [if_pos hacc]
        exact hrest
      · rw [if_neg hacc]
        exact hrest

structure Ended (t : Table) : Prop where
  here : t.status = .wait
  next : ¬ (t.nextStatus = some .jdz ∨ t.nextStatus = some .erQiangdizhu)

theorem Ended.called (h : t.Ended) (rate : Nat) :
    t.called F rate = t ∧ t.accepts F rate = false := by
  have hcall : t.callOf rate = .jiaoDizhu t.play.curP rate := by
    rw [callOf, if_neg (by simp [h.here])]
  have hrefused : t.jiaoDizhu t.play.curP rate = t.reply 1002 := by
    rw [jiaoDizhu, if_pos (by simp [h.here])]
  have hstep : t.step F (.jiaoDizhu t.play.curP rate) = t := by
    rw [Table.step]
    split
    · rfl
    · rw [handle, hrefused]
      rfl
  refine ⟨by rw [Table.called, hcall, hstep, timerOut, if_neg h.next], ?_⟩
  rw [accepts, hcall, answer]
  split
  · rfl
  · rw [handle, hrefused]
    rfl

end Run

section Three

variable {F : NumFormat} {t u : Table} {p rate : Nat}

theorem maxBid_max {l : List Act} : ∀ a ∈ l, a.rate ≤ (maxBid l).1 := by
  have hfold : ∀ (l : List Act) (m : Nat × Nat),
      m.1 ≤ (l.foldl (fun m a => if m.1 < a.rate then (a.rate, a.p) else m) m).1 ∧
        ∀ a ∈ l, a.rate ≤
          (l.foldl (fun m a => if m.1 < a.rate then (a.rate, a.p) else m) m).1 := by
    intro l
    induction l with
    | nil => exact fun m => ⟨le_rfl, by simp⟩
    | cons b l ih =>
        intro m
        simp only [List.foldl_cons]
        obtain ⟨hm, hl⟩ := ih (if m.1 < b.rate then (b.rate, b.p) else m)
        have hb : m.1 ≤ (if m.1 < b.rate then (b.rate, b.p) else m).1 ∧
            b.rate ≤ (if m.1 < b.rate then (b.rate, b.p) else m).1 := by
          split <;> constructor <;> omega
        refine ⟨hb.1.trans hm, fun a ha => ?_⟩
        rcases List.mem_cons.mp ha with rfl | ha
        · exact hb.2.trans hm
        · exact hl a ha
  intro a ha
  exact (hfold l.reverse (0, 0)).2 a (List.mem_reverse.mpr ha)

def nextSeat (cfg : Config) (p : Nat) : Nat := if cfg.seatCount < p + 1 then 1 else p + 1

/-- The accepted calls go round the table from the seat `c`. -/
def InTurn (cfg : Config) (c : Nat) (l : List Act) : Prop :=
  l.map Act.p = List.iterate (nextSeat cfg) c l.length

def Rising (l : List Act) : Prop := ((l.map Act.rate).filter fun r => 0 < r).Pairwise (· < ·)

/-- The bidding after the calls `l` that did not end it. -/
structure AtTurn (c : Nat) (l : List Act) (t : Table) : Prop where
  here : t.gone = false
  idle : t.updating = none
  game : t.cfg.gameType ≠ .er
  seat : c ∈ t.cfg.seatList
  status : t.status = .jdz
  time : t.time = false
  dizhu : t.play.dizhu = 0
  candidate : t.play.dzCandidate = c
  acts : t.play.actList = l
  turns : InTurn t.cfg c l
  curP : t.play.curP = (nextSeat t.cfg)^[l.length] c
  rising : Rising l
  noted : ∀ a ∈ l, t.pJdz a.p = a.rate
  few : l.length < 3

def HighestBid (l : List Act) (t : Table) : Prop :=
  ∃ a ∈ l, 0 < a.rate ∧ (∀ b ∈ l, b.rate ≤ a.rate) ∧ t.play.dizhu = a.p ∧ t.pJdz a.p = a.rate

structure ThreeSeats (c : Nat) (l : List Act) (t : Table) : Prop where
  turns : InTurn t.cfg c l
  rising : Rising l
  few : l.length ≤ 3
  stage : t.Ended ∨ t.status = .jdz ∧ l.length < 3
  landlord : t.Ended → t.play.dizhu ≠ 0 → HighestBid l t
  nobody : t.Ended → (t.play.dizhu = 0 ↔ l.map Act.rate = [0, 0, 0])

theorem jiaoDizhu_error {code : Int} (hs : t.status = .jdz)
    (hlib : t.libJiaoDizhu p rate = (code, u)) (hcode : 999 < code) :
    t.jiaoDizhu p rate = u.reply code := by
  simp only [jiaoDizhu, hs, hlib, ne_eq, not_true_eq_false, if_false, if_pos hcode]

theorem jiaoDizhu_next (hs : t.status = .jdz) (hlib : t.libJiaoDizhu p rate = (0, u)) :
    t.jiaoDizhu p rate = ((u.sendAll fun _ => .jdz u.lastAct).wait .jdz).reply 0 := by
  simp [jiaoDizhu, hs, hlib]

theorem jiaoDizhu_nobody (hs : t.status = .jdz) (hlib : t.libJiaoDizhu p rate = (-1, u)) :
    t.jiaoDizhu p rate = (u.sendAll fun _ => .jdz u.lastAct).noDizhu.reply 0 := by
  simp [jiaoDizhu, hs, hlib]

theorem jiaoDizhu_landlord {d : Nat} (hs : t.status = .jdz) (hgame : u.cfg.gameType ≠ .er)
    (hlib : t.libJiaoDizhu p rate = ((d : Int), u)) (hd : 0 < d) (hle : d ≤ 3) :
    t.jiaoDizhu p rate =
      (((u.sendAll fun _ => .jdz u.lastAct).setDizhu d none).afterBidding).reply 0 := by
  have h₁ : ¬ 999 < (d : Int) := by omega
  have h₂ : ¬ (d : Int) = -1 := by omega
  have h₃ : 0 < (d : Int) := by omega
  simp only [jiaoDizhu, hs, hlib, ne_eq, not_true_eq_false, if_false, if_neg h₁, if_neg h₂,
    if_pos h₃, sendAll_cfg, if_neg hgame, Int.toNat_natCast]

theorem afterBidding_ended (t : Table) :
    t.afterBidding.Ended ∧ t.afterBidding.cfg = t.cfg ∧
      t.afterBidding.play.dizhu = t.play.dizhu ∧ t.afterBidding.pJdz = t.pJdz := by
  unfold afterBidding
  split
  · exact ⟨⟨rfl, by simp⟩, rfl, rfl, rfl⟩
  · split <;> exact ⟨⟨rfl, by simp⟩, rfl, rfl, rfl⟩

theorem noDizhu_ended (hd : t.play.dizhu = 0) :
    t.noDizhu.Ended ∧ t.noDizhu.cfg = t.cfg ∧ t.noDizhu.play.dizhu = 0 := by
  unfold noDizhu
  dsimp only
  split
  · have hend : ∀ v : Table, v.settlement 0 = (v.settleAwards 0).settlementEnd := by
      intro v
      simp [settlement, settleAwards]
    rw [hend]
    exact ⟨⟨rfl, by simp⟩, rfl, hd⟩
  · exact ⟨⟨rfl, by simp [newGame, gameBegin]⟩, rfl, rfl⟩

/-- The table `v` waits in the status `s` for the next call. -/
structure Awaits (t v : Table) (s : Status) : Prop where
  here : v.gone = false
  idle : v.updating = none
  status : v.status = s
  time : v.time = false
  cfg : v.cfg = t.cfg
  play : v.play = t.play
  hand : v.toHand = t.toHand

theorem timerOut_wait {s : Status} (hs : s = .jdz ∨ s = .erQiangdizhu) (hgone : t.gone = false)
    (hidle : t.updating = none) : Awaits t ((t.wait s).timerOut F) s := by
  have htimer : (t.wait s).timerOut F = (t.wait s).update 0 := by
    have hnext : (t.wait s).nextStatus = some .jdz ∨
        (t.wait s).nextStatus = some .erQiangdizhu := by
      simpa using hs
    have hgone' : ¬ (t.wait s).gone = true := by simp [hgone]
    rw [timerOut, if_pos hnext, Table.step, if_neg hgone']
    rfl
  have hwaits : (t.wait s).time = true ∧ (t.wait s).updating = none := ⟨rfl, hidle⟩
  rw [htimer, Table.update, if_pos hwaits]
  rcases hs with rfl | rfl <;> exact ⟨hgone, hidle, rfl, rfl, rfl, rfl, rfl⟩

theorem nextSeat_three {cfg : Config} {c n : Nat} (hgame : cfg.gameType ≠ .er)
    (hc : c ∈ cfg.seatList) (hn : n < 3) :
    (nextSeat cfg)^[n] c ∈ cfg.seatList ∧
      (nextSeat cfg)^[n] c ∉ List.iterate (nextSeat cfg) c n ∧
      ((nextSeat cfg)^[n + 1] c = c ↔ n = 2) := by
  obtain ⟨-, hcount, hlist⟩ := cfg.seat_cases.resolve_right fun h => hgame h.1
  rw [hlist] at hc ⊢
  simp only [List.mem_cons, List.not_mem_nil, or_false] at hc
  interval_cases n <;> rcases hc with rfl | rfl | rfl <;>
    simp [nextSeat, hcount, List.iterate]

theorem InTurn.snoc {cfg : Config} {c : Nat} {l : List Act} {a : Act} (h : InTurn cfg c l)
    (ha : a.p = (nextSeat cfg)^[l.length] c) : InTurn cfg c (l ++ [a]) := by
  rw [InTurn, List.map_append, h, List.length_append, List.iterate_add]
  simp [List.iterate, ha]

theorem Rising.snoc {l : List Act} {a : Act} (h : Rising l)
    (ha : a.rate ≠ 0 → (maxBid l).1 < a.rate) : Rising (l ++ [a]) := by
  rw [Rising, List.map_append, List.filter_append, List.pairwise_append]
  refine ⟨h, ?_, ?_⟩
  · exact (List.pairwise_singleton ..).sublist List.filter_sublist
  · intro r hr r' hr'
    obtain ⟨b, hb, rfl⟩ := List.mem_map.mp (List.mem_filter.mp hr).1
    obtain ⟨rfl, hpos⟩ : r' = a.rate ∧ 0 < r' := by simpa using hr'
    exact (maxBid_max b hb).trans_lt (ha hpos.ne')

theorem AtTurn.noted_snoc {c : Nat} {l : List Act} (h : AtTurn c l t) (rate : Nat) :
    ∀ a ∈ l ++ [t.callAct rate], (t.addBid t.play.curP rate).pJdz a.p = a.rate := by
  have hnew : t.play.curP ∉ l.map Act.p := by
    rw [h.turns, h.curP]
    exact (nextSeat_three h.game h.seat h.few).2.1
  intro a ha
  rw [addBid_toHand]
  rcases List.mem_append.mp ha with ha | ha
  · have hne : a.p ≠ t.play.curP := fun heq => hnew (heq ▸ List.mem_map_of_mem ha)
    simp only [Function.update_of_ne hne]
    exact h.noted a ha
  · obtain rfl := List.mem_singleton.mp ha
    exact Function.update_self ..

theorem called_of_jiaoDizhu {r : Reply} (hgone : t.gone = false) (hs : t.status = .jdz)
    (hr : t.jiaoDizhu t.play.curP rate = r) :
    t.called F rate = r.table.timerOut F ∧ t.accepts F rate = decide (r.result = some 0) := by
  have hgone' : ¬ t.gone = true := by simp [hgone]
  have hcall : t.callOf rate = .jiaoDizhu t.play.curP rate := if_neg (by simp [hs])
  rw [called, accepts, hcall, answer, Table.step, if_neg hgone', if_neg hgone', handle, hr]
  exact ⟨rfl, rfl⟩

def ThreeInv (c : Nat) (l : List Act) (t : Table) : Prop :=
  AtTurn c l t ∨ t.Ended ∧ ThreeSeats c l t

theorem AtTurn.landlord {c d : Nat} {l : List Act} {b : Act} (h : AtTurn c l t)
    (hlib : t.libJiaoDizhu t.play.curP rate = ((d : Int), u))
    (hturns : InTurn t.cfg c (l ++ [t.callAct rate]))
    (hrising : Rising (l ++ [t.callAct rate])) (hcfg : u.cfg = t.cfg)
    (hnoted : ∀ a ∈ l ++ [t.callAct rate], u.pJdz a.p = a.rate)
    (hb : b ∈ l ++ [t.callAct rate]) (hd : b.p = d) (hpos : 0 < b.rate)
    (hmax : ∀ a ∈ l ++ [t.callAct rate], a.rate ≤ b.rate) (hseat : d ∈ t.cfg.seatList) :
    t.accepts F rate = true ∧ ThreeInv c (l ++ [t.callAct rate]) (t.called F rate) := by
  have hd0 : d ≠ 0 := t.cfg.seat_pos hseat
  have hreply := jiaoDizhu_landlord h.status (hcfg ▸ h.game) hlib (Nat.pos_of_ne_zero hd0)
    (t.cfg.seat_le hseat)
  obtain ⟨hcalled, hacc⟩ := called_of_jiaoDizhu (F := F) h.here h.status hreply
  obtain ⟨hended, hcfg', hdizhu, hjdz⟩ :=
    afterBidding_ended ((u.sendAll fun _ => .jdz u.lastAct).setDizhu d none)
  rw [setDizhu_dizhu] at hdizhu
  rw [setDizhu_cfg, sendAll_cfg, hcfg] at hcfg'
  refine ⟨hacc, ?_⟩
  rw [hcalled, reply_table, timerOut, if_neg hended.next]
  generalize ((u.sendAll fun _ => .jdz u.lastAct).setDizhu d none).afterBidding = v at *
  have hbid : HighestBid (l ++ [t.callAct rate]) v := by
    refine ⟨b, hb, hpos, hmax, hdizhu.trans hd.symm, ?_⟩
    rw [hjdz]
    exact hnoted b hb
  refine .inr ⟨hended, hcfg' ▸ hturns, hrising, by simpa using h.few, .inl hended,
    fun _ _ => hbid, fun _ => ?_⟩
  constructor
  · intro hzero
    exact absurd (hdizhu.symm.trans hzero) hd0
  · intro hrates
    have hmem := List.mem_map_of_mem (f := Act.rate) hb
    rw [hrates] at hmem
    simp at hmem
    omega

def bestBid (t : Table) (rate : Nat) : Nat × Nat :=
  if rate ≠ 0 then (rate, t.play.curP) else maxBid t.play.actList

theorem norJiaoDizhu_accept (hup : rate ≠ 0 → (maxBid t.play.actList).1 < rate) :
    t.norJiaoDizhu t.play.curP rate =
      if rate = 3 then ((t.play.curP : Int), (t.addBid t.play.curP rate).setCurP 0)
      else if (t.addBid t.play.curP rate).guo.play.curP = t.play.dzCandidate then
        (if 0 < (t.bestBid rate).1 then ((t.bestBid rate).2 : Int) else -1,
          (t.addBid t.play.curP rate).guo.setCurP 0)
      else (0, (t.addBid t.play.curP rate).guo) := by
  have hlow : ¬ (rate ≤ (maxBid t.play.actList).1 ∧ rate ≠ 0) := fun h => by
    have := hup h.2
    omega
  rw [norJiaoDizhu, if_neg (not_not_intro rfl)]
  dsimp only
  rw [if_neg hlow]
  rfl

theorem bestBid_spec (hup : rate ≠ 0 → (maxBid t.play.actList).1 < rate) :
    (∀ a ∈ t.play.actList ++ [t.callAct rate], a.rate ≤ (t.bestBid rate).1) ∧
      (0 < (t.bestBid rate).1 → ∃ b ∈ t.play.actList ++ [t.callAct rate],
        b.p = (t.bestBid rate).2 ∧ b.rate = (t.bestBid rate).1) := by
  have hold (a : Act) (ha : a ∈ t.play.actList) := maxBid_max a ha
  by_cases hzero : rate = 0
  · have hbest : t.bestBid rate = maxBid t.play.actList := by simp [bestBid, hzero]
    rw [hbest]
    constructor
    · intro a ha
      rcases List.mem_append.mp ha with ha | ha
      · exact hold a ha
      · rw [List.mem_singleton.mp ha]
        exact hzero.trans_le (Nat.zero_le _)
    · intro hpos
      obtain ⟨b, hb, hp, hr⟩ := maxBid_mem hpos
      exact ⟨b, List.mem_append_left _ hb, hp, hr⟩
  · have hbest : t.bestBid rate = (rate, t.play.curP) := if_pos hzero
    rw [hbest]
    constructor
    · intro a ha
      rcases List.mem_append.mp ha with ha | ha
      · exact (hold a ha).trans (hup hzero).le
      · rw [List.mem_singleton.mp ha]
        exact le_rfl
    · intro _
      exact ⟨t.callAct rate, by simp, rfl, rfl⟩

theorem InTurn.seat {cfg : Config} {c : Nat} {l : List Act} (h : InTurn cfg c l)
    (hgame : cfg.gameType ≠ .er) (hc : c ∈ cfg.seatList) (hl : l.length ≤ 3) :
    ∀ a ∈ l, a.p ∈ cfg.seatList := by
  intro a ha
  have hmem := List.mem_map_of_mem (f := Act.p) ha
  rw [h, List.mem_iterate] at hmem
  obtain ⟨m, hm, hp⟩ := hmem
  rw [hp]
  exact (nextSeat_three hgame hc (by omega)).1

theorem AtTurn.step {c : Nat} {l : List Act} (h : AtTurn c l t) (rate : Nat) :
    (t.accepts F rate = true ↔ (rate ≠ 0 → (maxBid l).1 < rate)) ∧
      ThreeInv c (l ++ if t.accepts F rate then [t.callAct rate] else []) (t.called F rate) := by
  have hlib : t.libJiaoDizhu t.play.curP rate = t.norJiaoDizhu t.play.curP rate := by
    rw [libJiaoDizhu, if_neg h.game]
  obtain ⟨hseat, -, hlast⟩ := nextSeat_three h.game h.seat h.few
  rw [← h.curP] at hseat
  have hact : t.callAct rate = { type := OtherType.jdz, p := t.play.curP, rate := rate } := by
    simp [callAct, h.status]
  by_cases hlow : rate ≤ (maxBid l).1 ∧ rate ≠ 0
  · -- the bid is not higher than the others
    have hno : t.libJiaoDizhu t.play.curP rate = (1003, t) := by
      rw [hlib]
      simp [norJiaoDizhu, h.acts, hlow]
    obtain ⟨hcalled, hacc⟩ := called_of_jiaoDizhu (F := F) h.here h.status
        (jiaoDizhu_error h.status hno (by decide))
    have hidle : t.timerOut F = t := by
      unfold timerOut
      split
      · simp [Table.step, handle, Table.update, h.time]
      · rfl
    rw [hcalled, hacc, reply_table, hidle]
    simp only [reply_result, decide_eq_true_eq]
    exact ⟨iff_of_false (by decide) fun hup => (hup hlow.2).not_ge hlow.1, .inl (by simpa using h)⟩
  have hup : rate ≠ 0 → (maxBid l).1 < rate := fun hne => by omega
  have hturns : InTurn t.cfg c (l ++ [t.callAct rate]) := h.turns.snoc h.curP
  have hrising : Rising (l ++ [t.callAct rate]) := h.rising.snoc hup
  have hnoted := h.noted_snoc rate
  have hacts : (t.addBid t.play.curP rate).play.actList = l ++ [t.callAct rate] := by
    rw [hact]
    simp [h.acts]
  have hself : t.callAct rate ∈ l ++ [t.callAct rate] := by simp
  suffices hnew : t.accepts F rate = true ∧
      ThreeInv c (l ++ [t.callAct rate]) (t.called F rate) by
    rw [if_pos hnew.1]
    exact ⟨iff_of_true hnew.1 hup, hnew.2⟩
  rw [← h.acts] at hup
  have haccept := norJiaoDizhu_accept hup
  rw [← hlib] at haccept
  obtain ⟨hmax, hbest⟩ := bestBid_spec hup
  rw [h.acts] at hmax hbest hup
  by_cases hthree : rate = 3
  · -- the highest possible bid
    rw [if_pos hthree] at haccept
    refine h.landlord haccept hturns hrising (by simp) hnoted hself rfl ?_ (fun a ha => ?_) hseat
    · change 0 < rate
      omega
    · have hthis : (t.bestBid rate).1 = rate := by simp [bestBid, hthree]
      exact (hmax a ha).trans_eq hthis
  rw [if_neg hthree] at haccept
  have hcurP : (t.addBid t.play.curP rate).guo.play.curP = (nextSeat t.cfg)^[l.length + 1] c := by
    rw [Function.iterate_succ_apply', ← h.curP]
    rfl
  rw [hcurP, h.candidate] at haccept
  by_cases hround : l.length = 2
  · -- all three have called
    rw [if_pos (hlast.mpr hround)] at haccept
    by_cases hpos : 0 < (t.bestBid rate).1
    · rw [if_pos hpos] at haccept
      obtain ⟨b, hb, hd, hr⟩ := hbest hpos
      rw [← hr] at hmax hpos
      exact h.landlord haccept hturns hrising (by simp) hnoted hb hd hpos hmax
        (hd ▸ hturns.seat h.game h.seat (by simp [hround]) b hb)
    · rw [if_neg hpos] at haccept
      obtain ⟨hcalled, hacc⟩ := called_of_jiaoDizhu (F := F) h.here h.status
        (jiaoDizhu_nobody h.status haccept)
      obtain ⟨hended, hcfg, hdizhu⟩ :=
        noDizhu_ended (t := ((t.addBid t.play.curP rate).guo.setCurP 0).sendAll fun _ =>
          .jdz ((t.addBid t.play.curP rate).guo.setCurP 0).lastAct) h.dizhu
      refine ⟨hacc, ?_⟩
      rw [hcalled, reply_table, timerOut, if_neg hended.next]
      have hzero : (l ++ [t.callAct rate]).map Act.rate = [0, 0, 0] := by
        refine (List.eq_replicate_iff (n := 3) (a := 0)).mpr ⟨by simp [hround], fun r hr => ?_⟩
        obtain ⟨a, ha, rfl⟩ := List.mem_map.mp hr
        have := hmax a ha
        omega
      exact .inr ⟨hended, hcfg.symm ▸ hturns, hrising, by simp [hround], .inl hended,
        fun _ hne => absurd hdizhu hne, fun _ => iff_of_true hdizhu hzero⟩
  · rw [if_neg (hlast.not.mpr hround)] at haccept
    obtain ⟨hcalled, hacc⟩ := called_of_jiaoDizhu (F := F) h.here h.status
        (jiaoDizhu_next h.status haccept)
    refine ⟨hacc, .inl ?_⟩
    rw [hcalled, reply_table]
    have hw := timerOut_wait (F := F) (t := (t.addBid t.play.curP rate).guo.sendAll fun _ =>
      .jdz (t.addBid t.play.curP rate).guo.lastAct) (.inl rfl) (by simpa using h.here)
      (by simpa using h.idle)
    generalize (((t.addBid t.play.curP rate).guo.sendAll fun _ =>
      .jdz (t.addBid t.play.curP rate).guo.lastAct).wait .jdz).timerOut F = v at *
    have hcfg : v.cfg = t.cfg := by simp [hw.cfg]
    refine ⟨hw.here, hw.idle, hcfg ▸ h.game, hcfg ▸ h.seat, hw.status, hw.time, ?_, ?_, ?_, ?_, ?_,
      hrising, ?_, ?_⟩
    · simp [hw.play, h.dizhu]
    · simp [hw.play, h.candidate]
    · simpa [hw.play] using hacts
    · rwa [hcfg]
    · simpa [hw.play, hcfg] using hcurP
    · rw [hw.hand]
      exact hnoted
    · have := h.few
      simp
      omega

theorem ThreeInv.step {c : Nat} {l : List Act} (h : ThreeInv c l t) (rate : Nat) :
    ThreeInv c (l ++ if t.accepts F rate then [t.callAct rate] else []) (t.called F rate) := by
  rcases h with h | ⟨hended, hseats⟩
  · exact (h.step rate).2
  · obtain ⟨hcalled, hacc⟩ := hended.called (F := F) rate
    rw [hcalled, hacc]
    exact .inr ⟨hended, by simpa using hseats⟩

theorem maxBid_lt {l : List Act} (hrate : rate ≠ 0) :
    (maxBid l).1 < rate ↔ ∀ a ∈ l, a.rate < rate := by
  refine ⟨fun h a ha => (maxBid_max a ha).trans_lt h, fun h => ?_⟩
  by_contra hle
  obtain ⟨b, hb, -, hr⟩ := @maxBid_mem l (by omega)
  have := h b hb
  omega

theorem ThreeInv.accepts_iff {c : Nat} {l : List Act} (h : ThreeInv c l t) (rate : Nat) :
    t.accepts F rate = true ↔ ¬t.Ended ∧ (rate ≠ 0 → ∀ a ∈ l, a.rate < rate) := by
  rcases h with h | ⟨hended, -⟩
  · have hnot : ¬ t.Ended := fun hended => by simpa [h.status] using hended.here
    rw [(h.step rate).1]
    exact ⟨fun hup => ⟨hnot, fun hrate => (maxBid_lt hrate).mp (hup hrate)⟩,
      fun hup hrate => (maxBid_lt hrate).mpr (hup.2 hrate)⟩
  · exact iff_of_false (by simp [(hended.called (F := F) rate).2]) fun hnot => hnot.1 hended

theorem ThreeInv.threeSeats {c : Nat} {l : List Act} (h : ThreeInv c l t) :
    ThreeSeats c l t := by
  rcases h with h | ⟨-, hseats⟩
  · have hnot : ¬ t.Ended := fun hended => by simpa [h.status] using hended.here
    exact ⟨h.turns, h.rising, h.few.le, .inr ⟨h.status, h.few⟩, fun hended => absurd hended hnot,
      fun hended => absurd hended hnot⟩
  · exact hseats

end Three

section Two

variable {F : NumFormat} {t u : Table} {c rate : Nat} {l : List Act}

def grabs (l : List Act) : List Act := l.filter fun a => a.type = OtherType.erQdz ∧ a.rate = 1

def Caller (l : List Act) (seat : Nat) : Prop :=
  ∃ a ∈ l, a.type = OtherType.jdz ∧ 0 < a.rate ∧ seat = a.p

structure TwoSeats (c : Nat) (l : List Act) (t : Table) : Prop where
  turns : InTurn t.cfg c l
  few : l.length ≤ 3
  stage : t.Ended ∨ (t.status = .jdz ∨ t.status = .erQiangdizhu) ∧ l.length < 3
  nobody : t.Ended → (t.play.dizhu = 0 ↔ l.map Act.rate = [0, 0])
  caller : t.Ended → t.play.dizhu ≠ 0 → grabs l = [] → Caller l t.play.dizhu
  grabber : t.Ended → ∀ a ∈ (grabs l).getLast?, t.play.dizhu = a.p
  rangpai : t.Ended → t.play.dizhu ≠ 0 → t.rangpaiNum = some (1 + (grabs l).length)

/-- The calls so far: none, or a pass of the first seat; a call that is still to be answered;
a call and a grab. -/
inductive Stage : List Act → Status → Prop
  | first : Stage [] .jdz
  | passed (a : Act) : a.type = OtherType.jdz → a.rate = 0 → Stage [a] .jdz
  | called (a : Act) : a.type = OtherType.jdz → 0 < a.rate → Stage [a] .erQiangdizhu
  | grabbed (a g : Act) : a.type = OtherType.jdz → 0 < a.rate → g.type = OtherType.erQdz →
      g.rate = 1 → Stage [a, g] .erQiangdizhu

/-- The bidding of two seats after the calls `l` that did not end it. -/
structure TwoTurn (c : Nat) (l : List Act) (t : Table) : Prop where
  here : t.gone = false
  idle : t.updating = none
  game : t.cfg.gameType = .er
  seat : c ∈ t.cfg.seatList
  time : t.time = false
  dizhu : t.play.dizhu = 0
  candidate : t.play.dzCandidate = c
  turns : InTurn t.cfg c l
  curP : t.play.curP = (nextSeat t.cfg)^[l.length] c
  count : t.qiangDzCount = (grabs l).length
  rangpai : t.rangpaiNum = some (1 + (grabs l).length)
  stage : Stage l t.status

def TwoInv (c : Nat) (l : List Act) (t : Table) : Prop :=
  TwoTurn c l t ∨ t.Ended ∧ TwoSeats c l t

theorem nextSeat_two {cfg : Config} (hgame : cfg.gameType = .er) (hc : c ∈ cfg.seatList) :
    nextSeat cfg c = (if c = 1 then 2 else 1) ∧ nextSeat cfg c ≠ c ∧
      nextSeat cfg (nextSeat cfg c) = c ∧ nextSeat cfg c ≠ 0 ∧ c ≠ 0 ∧
      (if nextSeat cfg c = 1 then 2 else 1) = c := by
  obtain ⟨-, hcount, hlist⟩ := cfg.seat_cases.resolve_left fun h => h.1 hgame
  rw [hlist] at hc
  simp only [List.mem_cons, List.not_mem_nil, or_false] at hc
  rcases hc with rfl | rfl <;> simp [nextSeat, hcount]

theorem nextSeat_mem {cfg : Config} (hgame : cfg.gameType = .er) (hc : c ∈ cfg.seatList)
    (n : Nat) : (nextSeat cfg)^[n] c ∈ cfg.seatList := by
  induction n with
  | zero => exact hc
  | succ n ih =>
      rw [Function.iterate_succ_apply']
      obtain ⟨hnext, -⟩ := nextSeat_two hgame ih
      obtain ⟨-, hcount, hlist⟩ := cfg.seat_cases.resolve_left fun h => h.1 hgame
      rw [hnext, hlist]
      split <;> simp

theorem wait_ended (t : Table) : (t.wait .cp).Ended := ⟨rfl, by simp⟩

theorem timerOut_ended (h : t.Ended) : t.timerOut F = t := if_neg h.next

theorem erJiaoDizhu_turn (t : Table) (rate : Nat) :
    t.erJiaoDizhu t.play.curP rate =
      let u := (t.addBid t.play.curP (min rate 1)).guo
      if 0 < rate then ((t.play.curP : Int), u)
      else if u.play.curP = t.play.dzCandidate then (-1, u.setCurP 0) else (0, u) := by
  have hmin : min rate 1 = 1 ↔ 0 < rate := by omega
  rw [erJiaoDizhu, if_neg (not_not_intro rfl)]
  simp only [hmin]
  rfl

theorem jiaoDizhu_er (hs : t.status = .jdz) (hgame : t.cfg.gameType = .er)
    (hseat : t.play.curP ∈ t.cfg.seatList) (rate : Nat) :
    t.jiaoDizhu t.play.curP rate =
      let u := (t.addBid t.play.curP (min rate 1)).guo
      let v := u.sendAll fun _ => .jdz u.lastAct
      (if 0 < rate then
        if u.play.curP = t.play.dzCandidate then
          (v.setDizhu (if u.play.curP = 1 then 2 else 1) none).wait .cp
        else v.wait .erQiangdizhu
      else if u.play.curP = t.play.dzCandidate then
        ((u.setCurP 0).sendAll fun _ => .jdz u.lastAct).noDizhu
      else v.wait .jdz).reply 0 := by
  have hlib : t.libJiaoDizhu t.play.curP rate = t.erJiaoDizhu t.play.curP rate := if_pos hgame
  have hpos := t.cfg.seat_pos hseat
  have hle := t.cfg.seat_le hseat
  rw [jiaoDizhu, if_neg (not_not_intro hs), hlib, erJiaoDizhu_turn]
  dsimp only
  generalize hu : (t.addBid t.play.curP (min rate 1)).guo = u
  have hcfg : u.cfg = t.cfg := by rw [← hu]; rfl
  have hcand : u.play.dzCandidate = t.play.dzCandidate := by rw [← hu]; rfl
  by_cases hrate : 0 < rate
  · have h₁ : ¬ 999 < (t.play.curP : Int) := by omega
    have h₂ : ¬ (t.play.curP : Int) = -1 := by omega
    have h₃ : 0 < (t.play.curP : Int) := by omega
    simp only [if_pos hrate, if_neg h₁, if_neg h₂, if_pos h₃, sendAll_cfg, sendAll_play, hcfg,
      if_pos hgame, hcand]
    split <;> rfl
  · simp only [if_neg hrate]
    split
    · rfl
    · rfl

theorem TwoTurn.landlord {d : Nat} {v : Table} (h : TwoTurn c l t) (hv : v.Ended)
    (hcfg : v.cfg = t.cfg) (hd : v.play.dizhu = d) (hd0 : d ≠ 0) (hfew : l.length ≤ 2)
    (hrates : (l ++ [t.callAct rate]).map Act.rate ≠ [0, 0])
    (hrangpai : v.rangpaiNum = some (1 + (grabs (l ++ [t.callAct rate])).length))
    (hcaller : grabs (l ++ [t.callAct rate]) = [] → Caller (l ++ [t.callAct rate]) d)
    (hgrabber : ∀ a ∈ (grabs (l ++ [t.callAct rate])).getLast?, d = a.p) :
    TwoInv c (l ++ [t.callAct rate]) v := by
  subst hd
  exact .inr ⟨hv, hcfg ▸ h.turns.snoc h.curP, by simp; omega, .inl hv,
    fun _ => iff_of_false hd0 hrates, fun _ _ => hcaller, fun _ => hgrabber,
    fun _ _ => hrangpai⟩

theorem TwoTurn.turn {s : Status} {v : Table} (h : TwoTurn c l t) (hv : Awaits u v s)
    (hcfg : u.cfg = t.cfg) (hdizhu : u.play.dizhu = t.play.dizhu)
    (hcand : u.play.dzCandidate = t.play.dzCandidate)
    (hcurP : u.play.curP = nextSeat t.cfg t.play.curP)
    (hcount : u.qiangDzCount = (grabs (l ++ [t.callAct rate])).length)
    (hrangpai : u.rangpaiNum = some (1 + (grabs (l ++ [t.callAct rate])).length))
    (hstage : Stage (l ++ [t.callAct rate]) s) : TwoInv c (l ++ [t.callAct rate]) v := by
  have hcfg' : v.cfg = t.cfg := hv.cfg.trans hcfg
  refine .inl ⟨hv.here, hv.idle, hcfg'.symm ▸ h.game, hcfg'.symm ▸ h.seat, hv.time, ?_, ?_, ?_, ?_,
    ?_, ?_, hv.status ▸ hstage⟩
  · rw [hv.play, hdizhu, h.dizhu]
  · rw [hv.play, hcand, h.candidate]
  · rw [hcfg']
    exact h.turns.snoc h.curP
  · rw [hv.play, hcurP, hcfg', h.curP, List.length_append, List.length_singleton,
      Function.iterate_succ_apply']
  · rw [hv.hand, hcount]
  · rw [hv.hand, hrangpai]

theorem TwoTurn.jiaoDizhu (h : TwoTurn c l t) (hs : t.status = .jdz) (rate : Nat) :
    t.accepts F rate = true ∧ TwoInv c (l ++ [t.callAct rate]) (t.called F rate) := by
  obtain ⟨hnext, hne, htwice, hnext0, hc0, hother⟩ := nextSeat_two h.game h.seat
  have hact : t.callAct rate = { type := OtherType.jdz, p := t.play.curP, rate := rate } := by
    simp [callAct, hs]
  have hgrabs : grabs [t.callAct rate] = [] := by
    simp [grabs, hact, OtherType.jdz, OtherType.erQdz]
  have hcurP : ((t.addBid t.play.curP (min rate 1)).guo).play.curP =
      nextSeat t.cfg t.play.curP := rfl
  have hseat : t.play.curP ∈ t.cfg.seatList := by
    rw [h.curP]
    exact nextSeat_mem h.game h.seat _
  obtain ⟨hcalled, hacc⟩ := called_of_jiaoDizhu (F := F) h.here hs
    (jiaoDizhu_er hs h.game hseat rate)
  refine ⟨hacc, ?_⟩
  rw [hcalled, reply_table, hcurP, h.candidate]
  have hstage := h.stage
  rw [hs] at hstage
  generalize hst : Status.jdz = s at hstage
  cases hstage with
  | first =>
      have hc : t.play.curP = c := h.curP
      have hcand : nextSeat t.cfg t.play.curP ≠ c := by rwa [hc]
      have hgrabs' : grabs ([] ++ [t.callAct rate]) = [] := hgrabs
      rw [if_neg hcand, if_neg hcand]
      by_cases hrate : 0 < rate
      · rw [if_pos hrate]
        exact h.turn (timerOut_wait (.inr rfl) h.here h.idle) rfl rfl rfl rfl
          (by rw [hgrabs']; exact h.count) (by rw [hgrabs']; exact h.rangpai)
          (.called _ (by rw [hact]) hrate)
      · rw [if_neg hrate]
        exact h.turn (timerOut_wait (.inl rfl) h.here h.idle) rfl rfl rfl rfl
          (by rw [hgrabs']; exact h.count) (by rw [hgrabs']; exact h.rangpai)
          (.passed _ (by rw [hact]) (Nat.eq_zero_of_not_pos hrate))
  | passed a hjdz hpass =>
      have hc : t.play.curP = nextSeat t.cfg c := h.curP
      have hcand : nextSeat t.cfg t.play.curP = c := by rwa [hc]
      have hgrabs' : grabs ([a] ++ [t.callAct rate]) = [] := by
        rw [grabs, List.filter_append, ← grabs, ← grabs, hgrabs]
        simp [grabs, hjdz, OtherType.jdz, OtherType.erQdz]
      have hnolast (d : Nat) : ∀ g ∈ (grabs ([a] ++ [t.callAct rate])).getLast?, d = g.p := by
        rw [hgrabs']
        intro g hg
        cases hg
      have hnone : grabs [a] = [] := by simp [grabs, hjdz, OtherType.jdz, OtherType.erQdz]
      have hrangpai := h.rangpai
      rw [hnone] at hrangpai
      rw [if_pos hcand, if_pos hcand, hcand, ← hnext, ← hc]
      by_cases hrate : 0 < rate
      · rw [if_pos hrate, timerOut_ended (wait_ended _)]
        refine h.landlord (d := t.play.curP) (wait_ended _) rfl rfl (hc ▸ hnext0) (by simp) ?_ ?_ ?_
          ?_
        · simp [hpass, hact, hrate.ne']
        · rw [hgrabs']
          exact hrangpai
        · exact fun _ => ⟨t.callAct rate, by simp, by rw [hact], by rw [hact]; exact hrate, rfl⟩
        · exact hnolast _
      · rw [if_neg hrate]
        obtain ⟨hended, hcfg, hdizhu⟩ :=
          noDizhu_ended (t := ((t.addBid t.play.curP (min rate 1)).guo.setCurP 0).sendAll fun _ =>
            .jdz (t.addBid t.play.curP (min rate 1)).guo.lastAct) h.dizhu
        rw [timerOut_ended hended]
        have hzero : ([a] ++ [t.callAct rate]).map Act.rate = [0, 0] := by
          have hzero : (t.callAct rate).rate = 0 := Nat.eq_zero_of_not_pos hrate
          simp [hpass, hzero]
        exact .inr ⟨hended, hcfg.symm ▸ h.turns.snoc h.curP, by simp, .inl hended,
          fun _ => iff_of_true hdizhu hzero, fun _ hne => absurd hdizhu hne,
          fun _ => hnolast _, fun _ hne => absurd hdizhu hne⟩
  | called a _ _ => cases hst
  | grabbed a g _ _ _ _ => cases hst

theorem called_of_erQiangDizhu {v : Table} (hgone : t.gone = false)
    (hs : t.status = .erQiangdizhu) (hr : t.erQiangDizhu t.play.curP rate = v.reply 0) :
    t.called F rate = v.timerOut F ∧ t.accepts F rate = true := by
  have hgone' : ¬ t.gone = true := by simp [hgone]
  have hcall : t.callOf rate = .erQiangDizhu t.play.curP rate := if_pos hs
  rw [called, accepts, hcall, answer, Table.step, if_neg hgone', if_neg hgone', handle, hr]
  exact ⟨rfl, rfl⟩

def qiangTable (t : Table) (rate : Nat) : Table :=
  let u := (t.libErQiangDizhu t.play.curP rate).2
  u.sendAll fun _ => .erQdz u.lastAct

theorem erQiangDizhu_decline (hs : t.status = .erQiangdizhu) (hrate : rate ≠ 1) :
    (t.qiangTable rate).cfg = t.cfg ∧ (t.qiangTable rate).rangpaiNum = t.rangpaiNum ∧
      t.erQiangDizhu t.play.curP rate =
        (((t.qiangTable rate).setDizhu (if t.play.curP = 1 then 2 else 1) none).wait
          .cp).reply 0 := by
  have hpos : 0 < (if t.play.curP = 1 then 2 else 1) := by split <;> omega
  have hlib : t.libErQiangDizhu t.play.curP rate = (if t.play.curP = 1 then 2 else 1,
      t.addAct { type := OtherType.erQdz, p := t.play.curP, rate := rate }) := if_neg hrate
  rw [erQiangDizhu, if_neg (not_not_intro hs), qiangTable, hlib]
  exact ⟨rfl, rfl, if_pos hpos⟩

theorem erQiangDizhu_first (hs : t.status = .erQiangdizhu) (hcount : t.qiangDzCount = 0) :
    (t.qiangTable 1).toCtrl = t.toCtrl ∧ (t.qiangTable 1).cfg = t.cfg ∧
      (t.qiangTable 1).play.dizhu = t.play.dizhu ∧
      (t.qiangTable 1).play.dzCandidate = t.play.dzCandidate ∧
      (t.qiangTable 1).play.curP = nextSeat t.cfg t.play.curP ∧
      (t.qiangTable 1).qiangDzCount = 1 ∧ (t.qiangTable 1).rangpaiNum = some 2 ∧
      t.erQiangDizhu t.play.curP 1 = ((t.qiangTable 1).wait .erQiangdizhu).reply 0 := by
  rw [erQiangDizhu, if_neg (not_not_intro hs), qiangTable]
  simp [libErQiangDizhu, hcount, nextSeat]

theorem erQiangDizhu_second (hs : t.status = .erQiangdizhu) (hcount : t.qiangDzCount = 1)
    (hseat : t.play.curP ≠ 0) :
    (t.qiangTable 1).cfg = t.cfg ∧
      (t.qiangTable 1).rangpaiNum = t.rangpaiNum.map (· + 1) ∧
      t.erQiangDizhu t.play.curP 1 =
        (((t.qiangTable 1).setDizhu t.play.curP none).wait .cp).reply 0 := by
  rw [erQiangDizhu, if_neg (not_not_intro hs), qiangTable]
  simp [libErQiangDizhu, hcount, Nat.pos_of_ne_zero hseat]

theorem grabs_snoc (l : List Act) (a : Act) :
    grabs (l ++ [a]) =
      grabs l ++ if a.type = OtherType.erQdz ∧ a.rate = 1 then [a] else [] := by
  rw [grabs, List.filter_append, ← grabs]
  congr 1
  by_cases h : a.type = OtherType.erQdz ∧ a.rate = 1 <;> simp [h]

theorem TwoTurn.erQiangDizhu (h : TwoTurn c l t) (hs : t.status = .erQiangdizhu) (rate : Nat) :
    t.accepts F rate = true ∧ TwoInv c (l ++ [t.callAct rate]) (t.called F rate) := by
  obtain ⟨hnext, -, htwice, hnext0, hc0, hother⟩ := nextSeat_two h.game h.seat
  have hact : t.callAct rate = { type := OtherType.erQdz, p := t.play.curP, rate := rate } := by
    simp [callAct, hs]
  have hgrabs := grabs_snoc l (t.callAct rate)
  have hrate : (t.callAct rate).rate = rate := rfl
  have htype : (t.callAct rate).type = OtherType.erQdz := by rw [hact]
  rw [htype, hrate] at hgrabs
  have hstage := h.stage
  rw [hs] at hstage
  generalize hst : Status.erQiangdizhu = s at hstage
  cases hstage with
  | first => cases hst
  | passed a _ _ => cases hst
  | called a hjdz hcall =>
      have hc : t.play.curP = nextSeat t.cfg c := h.curP
      have ha : a.p = c := by simpa [InTurn, List.iterate] using h.turns
      have hnone : grabs [a] = [] := by simp [grabs, hjdz, OtherType.jdz, OtherType.erQdz]
      have hcount := h.count
      have hrangpai := h.rangpai
      rw [hnone] at hcount hrangpai hgrabs
      by_cases hgrab : rate = 1
      · subst hgrab
        obtain ⟨hctrl, hcfg, hdizhu, hcand, hcurP, hcount', hrangpai', hreply⟩ :=
          erQiangDizhu_first hs hcount
        obtain ⟨hcalled, hacc⟩ := called_of_erQiangDizhu (F := F) h.here hs hreply
        refine ⟨hacc, ?_⟩
        rw [hcalled]
        refine h.turn (timerOut_wait (.inr rfl) (by rw [hctrl]; exact h.here)
          (by rw [hctrl]; exact h.idle)) hcfg hdizhu hcand hcurP ?_ ?_
          (.grabbed _ _ hjdz hcall htype rfl)
        · rw [hgrabs, hcount']
          simp
        · rw [hgrabs, hrangpai']
          simp
      · obtain ⟨hcfg, hrangpai', hreply⟩ := erQiangDizhu_decline hs hgrab
        obtain ⟨hcalled, hacc⟩ := called_of_erQiangDizhu (F := F) h.here hs hreply
        refine ⟨hacc, ?_⟩
        have hnograb : grabs ([a] ++ [t.callAct rate]) = [] := hgrabs.trans (by simp [hgrab])
        rw [hcalled, timerOut_ended (wait_ended _), hc, hother]
        refine h.landlord (wait_ended _) (by simpa using hcfg) (by simp) hc0 (by simp) ?_ ?_ ?_ ?_
        · simp [hcall.ne']
        · rw [hnograb, ← hrangpai, ← hrangpai']
          rfl
        · exact fun _ => ⟨a, by simp, hjdz, hcall, ha.symm⟩
        · rw [hnograb]
          intro g hg
          cases hg
  | grabbed a g hjdz hcall hqdz hone =>
      have hc : t.play.curP = c := h.curP.trans htwice
      have hg : g.p = nextSeat t.cfg c := by
        have := h.turns
        simp only [InTurn, List.map_cons, List.map_nil, List.length_cons, List.length_nil,
          List.iterate, List.cons.injEq, and_true] at this
        exact this.2
      have hfirst : grabs [a, g] = [g] := by
        simp [grabs, hjdz, hqdz, hone, OtherType.jdz, OtherType.erQdz]
      have hcount := h.count
      have hrangpai := h.rangpai
      rw [hfirst] at hcount hrangpai hgrabs
      by_cases hgrab : rate = 1
      · subst hgrab
        obtain ⟨hcfg, hrangpai', hreply⟩ := erQiangDizhu_second hs hcount (hc ▸ hc0)
        obtain ⟨hcalled, hacc⟩ := called_of_erQiangDizhu (F := F) h.here hs hreply
        refine ⟨hacc, ?_⟩
        have htwo : grabs ([a, g] ++ [t.callAct 1]) = [g, t.callAct 1] := hgrabs.trans (by simp)
        rw [hcalled, timerOut_ended (wait_ended _)]
        refine h.landlord (d := t.play.curP) (wait_ended _) (by simpa using hcfg) (by simp)
          (hc ▸ hc0) (by simp) (by simp) ?_ ?_ ?_
        · rw [htwo]
          refine (show _ = (t.qiangTable 1).rangpaiNum from rfl).trans (hrangpai'.trans ?_)
          rw [hrangpai]
          rfl
        · rw [htwo]
          intro hnil
          cases hnil
        · rw [htwo]
          intro b hb
          obtain rfl : t.callAct 1 = b := by simpa using hb
          rfl
      · obtain ⟨hcfg, hrangpai', hreply⟩ := erQiangDizhu_decline hs hgrab
        obtain ⟨hcalled, hacc⟩ := called_of_erQiangDizhu (F := F) h.here hs hreply
        refine ⟨hacc, ?_⟩
        have hsame : grabs ([a, g] ++ [t.callAct rate]) = [g] := hgrabs.trans (by simp [hgrab])
        rw [hcalled, timerOut_ended (wait_ended _), hc, ← hnext]
        refine h.landlord (d := nextSeat t.cfg c) (wait_ended _) (by simpa using hcfg) (by simp)
          hnext0 (by simp) (by simp) ?_ ?_ ?_
        · rw [hsame]
          exact hrangpai'.trans hrangpai
        · rw [hsame]
          intro hnil
          cases hnil
        · rw [hsame]
          intro b hb
          obtain rfl : g = b := by simpa using hb
          exact hg.symm

theorem TwoTurn.step (h : TwoTurn c l t) (rate : Nat) :
    t.accepts F rate = true ∧ TwoInv c (l ++ [t.callAct rate]) (t.called F rate) := by
  have hstatus : t.status = .jdz ∨ t.status = .erQiangdizhu := by
    have hstage := h.stage
    generalize t.status = s at hstage ⊢
    cases hstage <;> simp
  rcases hstatus with hs | hs
  · exact h.jiaoDizhu hs rate
  · exact h.erQiangDizhu hs rate

theorem TwoInv.step (h : TwoInv c l t) (rate : Nat) :
    TwoInv c (l ++ if t.accepts F rate then [t.callAct rate] else []) (t.called F rate) := by
  rcases h with h | ⟨hended, hseats⟩
  · have hboth := h.step (F := F) rate
    rw [if_pos hboth.1]
    exact hboth.2
  · obtain ⟨hcalled, hacc⟩ := hended.called (F := F) rate
    rw [hcalled, hacc]
    exact .inr ⟨hended, by simpa using hseats⟩

theorem TwoTurn.not_ended (h : TwoTurn c l t) : ¬t.Ended := by
  intro hended
  have hstage := h.stage
  rw [hended.here] at hstage
  cases hstage

theorem TwoInv.accepts_iff (h : TwoInv c l t) (rate : Nat) :
    t.accepts F rate = true ↔ ¬t.Ended := by
  rcases h with h | ⟨hended, -⟩
  · exact iff_of_true (h.step rate).1 h.not_ended
  · exact iff_of_false (by simp [(hended.called (F := F) rate).2]) fun hnot => hnot hended

theorem TwoInv.twoSeats (h : TwoInv c l t) : TwoSeats c l t := by
  rcases h with h | ⟨-, hseats⟩
  · have hstage : (t.status = .jdz ∨ t.status = .erQiangdizhu) ∧ l.length < 3 := by
      have hstage := h.stage
      generalize t.status = s at hstage ⊢
      cases hstage <;> simp
    have hnot := h.not_ended
    exact ⟨h.turns, hstage.2.le, .inr hstage, fun hended => absurd hended hnot,
      fun hended => absurd hended hnot, fun hended => absurd hended hnot,
      fun hended => absurd hended hnot⟩
  · exact hseats

end Two

section Deal

variable {F : NumFormat} {cfg : Config} {t : Table}

theorem random_seat (cfg : Config) (rand : Nat) :
    random (fun _ => rand) 0 1 cfg.seatCount ∈ cfg.seatList := by
  have hpos : 0 < cfg.seatCount := by
    rcases cfg.seat_cases with ⟨-, h, -⟩ | ⟨-, h, -⟩ <;> omega
  have := Nat.mod_lt rand hpos
  rw [Config.seatList, List.mem_range'_1, random, Nat.add_sub_cancel]
  omega

structure Opening (t v : Table) (c : Nat) : Prop where
  here : v.gone = false
  idle : v.updating = none
  status : v.status = .jdz
  time : v.time = false
  cfg : v.cfg = t.cfg
  seat : c ∈ t.cfg.seatList
  candidate : v.play.dzCandidate = c
  curP : v.play.curP = c
  dizhu : v.play.dizhu = 0
  acts : v.play.actList = []
  grabs : v.qiangDzCount = t.qiangDzCount ∧ v.rangpaiNum = t.rangpaiNum

theorem opened_opening (h : t.Inv) (hgone : t.gone = false) (hdeal : t.updating = some .fapai)
    (hmld : t.cfg.isMld = false) (ρ : Nat → Nat) (rand : Nat) :
    Opening t (t.opened F ρ rand) (t.opened F ρ rand).play.dzCandidate := by
  have hplay : t.play = {} := (h.dealing hdeal).1.1
  have hgone' : ¬ t.gone = true := by simp [hgone]
  have hfapai : t.step F (.fapaiAnswer ρ rand) =
      ({ t with updating := none }.fapai ρ rand) := by
    rw [Table.step, if_neg hgone', handle, if_pos hdeal]
    rfl
  have hlater : ∃ u : Table, t.step F (.fapaiAnswer ρ rand) = u.later .jdz ∧ u.gone = false ∧
      u.updating = none ∧ u.cfg = t.cfg ∧
      u.play.dzCandidate = random (fun _ => rand) 0 1 t.cfg.seatCount ∧
      u.play.curP = u.play.dzCandidate ∧ u.play.dizhu = t.play.dizhu ∧
      u.play.actList = t.play.actList ∧
      u.qiangDzCount = t.qiangDzCount ∧ u.rangpaiNum = t.rangpaiNum := by
    rw [hfapai, fapai]
    dsimp only
    rw [if_neg (by simp [hmld])]
    exact ⟨_, rfl, hgone, rfl, rfl, rfl, rfl, rfl, rfl, rfl, rfl⟩
  obtain ⟨u, hu, hug, hui, huc, hucand, hucur, hudizhu, huacts, hugrabs⟩ := hlater
  have hupdate : t.opened F ρ rand = (u.later .jdz).update 0 := by
    have hg : ¬ (u.later .jdz).gone = true := by simp [hug]
    rw [opened, hu, Table.step, if_neg hg]
    rfl
  have htimer : (u.later .jdz).time = true ∧ (u.later .jdz).updating = none := ⟨rfl, hui⟩
  rw [hupdate, Table.update, if_pos htimer]
  have hcand : u.play.dzCandidate ∈ t.cfg.seatList := by
    rw [hucand]
    exact random_seat t.cfg rand
  rw [hplay] at hudizhu huacts
  exact ⟨hug, hui, rfl, rfl, huc, hcand, rfl, hucur, hudizhu, huacts, hugrabs⟩

theorem Reachable.bidding_three (h : Reachable F cfg t) (hgone : t.gone = false)
    (hdeal : t.updating = some .fapai) (hmld : t.cfg.isMld = false)
    (hgame : t.cfg.gameType ≠ .er) (ρ : Nat → Nat) (rand : Nat) (rates : List Nat) :
    ThreeInv (t.opened F ρ rand).play.dzCandidate
      ((t.opened F ρ rand).bids F rates).1 ((t.opened F ρ rand).bids F rates).2 := by
  have ho := opened_opening (F := F) h.inv hgone hdeal hmld ρ rand
  have hstart : ThreeInv (t.opened F ρ rand).play.dzCandidate [] (t.opened F ρ rand) := by
    refine .inl ⟨ho.here, ho.idle, ho.cfg ▸ hgame, ho.cfg.symm ▸ ho.seat, ho.status, ho.time,
      ho.dizhu, rfl, ho.acts, rfl, ho.curP, ?_, by simp, by simp⟩
    simp [Rising]
  exact bids_invariant (fun _ _ rate hinv => hinv.step rate) rates hstart

theorem Reachable.bidding_two (h : Reachable F cfg t) (hgone : t.gone = false)
    (hdeal : t.updating = some .fapai) (hgame : t.cfg.gameType = .er) (ρ : Nat → Nat)
    (rand : Nat) (rates : List Nat) :
    TwoInv (t.opened F ρ rand).play.dzCandidate
      ((t.opened F ρ rand).bids F rates).1 ((t.opened F ρ rand).bids F rates).2 := by
  have hmld : t.cfg.isMld = false := by
    by_contra hmld
    have := isMld_gameType t.cfg (by simpa using hmld)
    exact this hgame
  have ho := opened_opening (F := F) h.inv hgone hdeal hmld ρ rand
  have hplay : t.play = {} := (h.inv.dealing hdeal).1.1
  obtain ⟨hcount, hrangpai⟩ := h.opens hgame (by rw [hplay])
  have hstart : TwoInv (t.opened F ρ rand).play.dzCandidate [] (t.opened F ρ rand) := by
    refine .inl ⟨ho.here, ho.idle, ho.cfg ▸ hgame, ho.cfg.symm ▸ ho.seat, ho.time, ho.dizhu, rfl,
      rfl, ho.curP, ho.grabs.1.trans hcount, ho.grabs.2.trans hrangpai, ?_⟩
    rw [ho.status]
    exact .first
  exact bids_invariant (fun _ _ rate hinv => hinv.step rate) rates hstart

/-- From the deal on, the seats in turn call for the landlord, with three seats by bids and with
two by a call and grabs; until the landlord is known, a pass and what is higher than the bids
before it are accepted, and with two seats every call. -/
theorem Reachable.bidding_landlord (h : Reachable F cfg t) (hgone : t.gone = false)
    (hdeal : t.updating = some .fapai) (ρ : Nat → Nat) (rand : Nat) (rates : List Nat) :
    (t.cfg.gameType ≠ .er → t.cfg.isMld = false →
      ThreeSeats (t.opened F ρ rand).play.dzCandidate
          ((t.opened F ρ rand).bids F rates).1 ((t.opened F ρ rand).bids F rates).2 ∧
        ∀ rate, ((t.opened F ρ rand).bids F rates).2.accepts F rate = true ↔
          ¬((t.opened F ρ rand).bids F rates).2.Ended ∧
            (rate ≠ 0 → ∀ a ∈ ((t.opened F ρ rand).bids F rates).1, a.rate < rate)) ∧
      (t.cfg.gameType = .er →
        TwoSeats (t.opened F ρ rand).play.dzCandidate
            ((t.opened F ρ rand).bids F rates).1 ((t.opened F ρ rand).bids F rates).2 ∧
          ∀ rate, ((t.opened F ρ rand).bids F rates).2.accepts F rate = true ↔
            ¬((t.opened F ρ rand).bids F rates).2.Ended) := by
  refine ⟨fun hgame hmld => ?_, fun hgame => ?_⟩
  · have hinv := h.bidding_three hgone hdeal hmld hgame ρ rand rates
    exact ⟨hinv.threeSeats, hinv.accepts_iff⟩
  · have hinv := h.bidding_two hgone hdeal hgame ρ rand rates
    exact ⟨hinv.twoSeats, hinv.accepts_iff⟩

def seatedThree : Table :=
  after {} [.join 1 none, .join 2 none, .join 3 none, .ready 1, .ready 2, .ready 3, .update 0]

/-- The second seat passes between the bids 1 and 2. -/
theorem bidding_landlord_third :
    ThreeSeats (seatedThree.opened .exact id 0).play.dzCandidate
        ((seatedThree.opened .exact id 0).bids .exact [1, 0, 2]).1
        ((seatedThree.opened .exact id 0).bids .exact [1, 0, 2]).2 ∧
      ((seatedThree.opened .exact id 0).bids .exact [1, 0, 2]).2.play.dizhu = 3 :=
  ⟨(((reachable_after (by decide +kernel)).bidding_landlord (by decide +kernel) (by decide +kernel)
      id 0 [1, 0, 2]).1 (by decide +kernel) (by decide +kernel)).1, by decide +kernel⟩

end Deal

end Table

end JyQipai.Ddz
