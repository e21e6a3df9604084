import JyQipai.Mj.NiceHand

/-!
# A lucky seat is dealt to

`fapai` deals and then makes the hand of the lucky seat anew.  A deal from a whole deck leaves
four copies of each tile at most and enough tiles in the pool.
-/

namespace JyQipai.Mj

open JyQipai.Lib NicePai

namespace Table

def roundsBy (zhangshu n : Nat) : List Nat :=
  List.replicate (n / zhangshu) zhangshu ++ if n % zhangshu = 0 then [] else [n % zhangshu]

/-- `fapai_nor`; the rooms deal four tiles at a time, and with none the loop has no end. -/
def fapaiBy (zhangshu : Nat) (t : Table) : Table :=
  let t := (roundsBy zhangshu t.cfg.gameType.paiNum).foldl
    (fun t n => t.cfg.seatList.foldl
      (fun t s => (List.range n).foldl (fun t _ => t.give s) t) t) t
  match t.popPai with
  | (none, t) => t
  | (some pai, t) => t.gain t.zhuangSeat pai

def fapaiLucky (order orderForPitch : PairsOrder) (zhangshu luckySeat : Nat) (t : Table) :
    Draw Table := do
  let t := t.fapaiBy zhangshu
  let r ← adjustNicePai order orderForPitch (t.seat luckySeat).pai t.paiPool
  pure ({ t with paiPool := r.2.reverse }.setSeat luckySeat fun d => { d with pai := r.1 })

structure Shuffled (t : Table) : Prop where
  deck : t.paiPool.Perm (allPai t.cfg.gameType)
  hands : ∀ s, (t.seat s).pai = fun _ => none
  left : t.paiEmpty = false
  zhuang : t.zhuangSeat ∈ t.cfg.seatList

/-! ## The deck -/

theorem randomList_perm (ρ : Nat → Nat) (list : List Nat) : (randomList ρ list).Perm list := by
  unfold randomList
  refine List.foldlRecOn (motive := fun l : List Nat => l.Perm list) _ _ (.refl list) ?_
  intro l hl i hi
  have hlen := hl.length_eq
  have hbounds := List.mem_range'_1.mp hi
  have hmod := Nat.mod_lt (ρ i) (show 0 < list.length + 1 - i by omega)
  have hi' : i - 1 < l.length := by omega
  have hj : random ρ i i list.length - 1 < l.length := by
    unfold random
    omega
  refine List.Perm.trans ?_ hl
  dsimp only
  rw [List.getD_eq_getElem _ _ hj, List.getD_eq_getElem _ _ hi']
  exact List.set_set_perm hi' hj

theorem shuffled_statusTouSezi (t : Table) : Shuffled t.newGame.statusTouSezi where
  deck := (List.reverse_perm _).trans (randomList_perm _ _)
  hands _ := rfl
  left := rfl
  zhuang := by
    have hpos : 0 < t.cfg.seatCount := by
      unfold Config.seatCount
      cases t.cfg.gameType <;> decide
    refine List.mem_range'_1.mpr ⟨Nat.le_add_left 1 _, ?_⟩
    have hlt := Nat.mod_lt (random t.newGame.rand 0 1 6 + random t.newGame.rand 1 1 6) hpos
    change _ % t.cfg.seatCount + 1 < 1 + t.cfg.seatCount
    omega

theorem count_allPai_le (gameType : GameType) (pai : Nat) : (allPai gameType).count pai ≤ 4 := by
  have hall : ∀ pai ∈ paiIds, (allPai gameType).count pai ≤ 4 := by
    cases gameType <;> decide
  by_cases hpai : pai ∈ allPai gameType
  · have hsub : ∀ pai ∈ allPai gameType, pai ∈ paiIds := by
      cases gameType <;> decide
    exact hall pai (hsub pai hpai)
  · rw [List.count_eq_zero.mpr hpai]
    exact Nat.zero_le 4

/-! ## The tiles of a table -/

structure Whole (t : Table) : Prop where
  hand : ∀ s pai, ((t.seat s).pai pai).isSome → pai ∈ paiIds
  pool : ∀ pai ∈ t.paiPool, pai ∈ paiIds
  num : ∀ s pai, 0 ≤ (t.seat s).pai.num pai
  copies : ∀ pai, t.copies pai = (allPai t.cfg.gameType).count pai

theorem Shuffled.whole {t : Table} (h : Shuffled t) : Whole t where
  hand s pai hpai := by
    rw [h.hands s] at hpai
    exact absurd hpai Bool.false_ne_true
  pool pai hpai := by
    have hsub : ∀ pai ∈ allPai t.cfg.gameType, pai ∈ paiIds := by
      cases t.cfg.gameType <;> decide
    exact hsub pai (h.deck.mem_iff.mp hpai)
  num s pai := by
    rw [h.hands s]
    exact le_rfl
  copies pai := by
    have hzero : (t.cfg.seatList.map fun s => (t.seat s).pai.num pai).sum = 0 :=
      List.sum_eq_zero fun n hn => by
        obtain ⟨s, -, rfl⟩ := List.mem_map.mp hn
        rw [h.hands s]
        rfl
    rw [copies, hzero, add_zero, h.deck.count_eq]

theorem num_add (m : PaiMap) (a pai : Nat) :
    (m.add a).num pai = m.num pai + if pai = a then 1 else 0 := by
  rw [PaiMap.add, num_update]
  split
  · next h => rw [h, Option.getD_some]
  · exact (add_zero _).symm

theorem seat_gain (t : Table) (s pai s' : Nat) :
    ((t.gain s pai).seat s').pai = if s' = s then (t.seat s).pai.add pai else (t.seat s').pai := by
  change (Function.update t.seat s _ s').pai = _
  rw [Function.update_apply]
  split <;> rfl

section Give

variable {t : Table} {s : Nat}

theorem Whole.give (h : Whole t) (hs : s ∈ t.cfg.seatList) : Whole (t.give s) := by
  unfold Table.give
  split
  · exact h
  · next pai pool hpool =>
    obtain ⟨hpai, hrest⟩ := List.forall_mem_cons.mp (hpool ▸ h.pool)
    constructor
    case hand =>
      intro s' x hx
      rw [seat_gain] at hx
      split at hx
      · rw [PaiMap.add, Function.update_apply] at hx
        split at hx
        · next heq => exact heq ▸ hpai
        · exact h.hand s x hx
      · exact h.hand s' x hx
    case pool => exact hrest
    case num =>
      intro s' x
      rw [seat_gain]
      split
      · refine (h.num s x).trans ?_
        rw [num_add]
        split
        · exact le_add_of_nonneg_right one_pos.le
        · exact (add_zero _).ge
      · exact h.num s' x
    case copies =>
      intro x
      have hnum (s' : Nat) : ((({ t with paiPool := pool } : Table).gain s pai).seat s').pai.num x =
          (t.seat s').pai.num x + if s' = s then (if x = pai then 1 else 0) else 0 := by
        rw [seat_gain]
        split
        · next heq => rw [heq, num_add]
        · exact (add_zero _).symm
      have hold := h.copies x
      rw [Table.copies, hpool, List.count_cons] at hold
      refine Eq.trans ?_ hold
      change (pool.count x : Int) + (t.cfg.seatList.map fun s' => _).sum = _
      simp only [hnum]
      rw [List.sum_map_add, sum_ite t.cfg.seatList_nodup hs]
      by_cases hx : pai = x
      · subst hx
        simp
        omega
      · simp [hx, Ne.symm hx]

theorem give_cfg (t : Table) (s : Nat) : (t.give s).cfg = t.cfg := by
  unfold give
  split <;> rfl

theorem length_give (hpool : t.paiPool ≠ []) :
    (t.give s).paiPool.length + 1 = t.paiPool.length := by
  unfold give
  split
  · next hnil => exact absurd hnil hpool
  · next hcons =>
      rw [hcons]
      rfl

theorem size_give (h : Whole t) (hpool : t.paiPool ≠ []) (s' : Nat) :
    size ((t.give s).seat s').pai = size (t.seat s').pai + if s = s' then 1 else 0 := by
  unfold give
  split
  · next hnil => exact absurd hnil hpool
  · next pai pool hcons =>
    have hpai : pai ∈ paiIds := h.pool pai (by rw [hcons]; exact List.mem_cons_self)
    rw [seat_gain]
    split
    · next heq =>
      rw [if_pos heq.symm, heq]
      exact size_add hpai _ 1
    · next hne => rw [if_neg (Ne.symm hne), add_zero]

end Give

section Deal

variable {t : Table}

theorem deal_rest (seats : List Nat) (t : Table) :
    (seats.foldl give t).cfg = t.cfg ∧ (seats.foldl give t).zhuangSeat = t.zhuangSeat ∧
      (seats.foldl give t).paiEmpty = t.paiEmpty := by
  induction seats generalizing t with
  | nil => exact ⟨rfl, rfl, rfl⟩
  | cons s seats ih =>
      have hgive : (t.give s).zhuangSeat = t.zhuangSeat ∧ (t.give s).paiEmpty = t.paiEmpty := by
        unfold give
        split <;> exact ⟨rfl, rfl⟩
      obtain ⟨hcfg, hzhuang, hempty⟩ := ih (t.give s)
      exact ⟨hcfg.trans (give_cfg t s), hzhuang.trans hgive.1, hempty.trans hgive.2⟩

theorem Whole.deal {seats : List Nat} (h : Whole t) (hseats : ∀ s ∈ seats, s ∈ t.cfg.seatList) :
    Whole (seats.foldl Table.give t) := by
  induction seats generalizing t with
  | nil => exact h
  | cons s seats ih =>
      obtain ⟨hs, hseats⟩ := List.forall_mem_cons.mp hseats
      exact ih (h.give hs) (by rw [give_cfg]; exact hseats)

theorem size_deal {seats : List Nat} (h : Whole t) (hseats : ∀ s ∈ seats, s ∈ t.cfg.seatList)
    (hlen : seats.length ≤ t.paiPool.length) :
    (seats.foldl give t).paiPool.length + seats.length = t.paiPool.length ∧
      ∀ s, size ((seats.foldl give t).seat s).pai = size (t.seat s).pai + seats.count s := by
  induction seats generalizing t with
  | nil => exact ⟨rfl, fun s => (add_zero _).symm⟩
  | cons a seats ih =>
      obtain ⟨ha, hseats⟩ := List.forall_mem_cons.mp hseats
      rw [List.length_cons] at hlen
      have hpool : t.paiPool ≠ [] := List.ne_nil_of_length_pos (by omega)
      have hone := length_give (s := a) hpool
      obtain ⟨hlength, hsize⟩ := ih (h.give ha) (by rw [give_cfg]; exact hseats) (by omega)
      refine ⟨?_, fun s => (hsize s).trans ?_⟩
      · rw [List.foldl_cons, List.length_cons]
        omega
      · rw [size_give h hpool, List.count_cons]
        simp only [beq_iff_eq]
        push_cast
        ring

theorem rounds_eq (rounds : List Nat) (t : Table) :
    rounds.foldl (fun t n => t.cfg.seatList.foldl
      (fun t s => (List.range n).foldl (fun t _ => t.give s) t) t) t =
        (rounds.flatMap fun n =>
          t.cfg.seatList.flatMap fun s => List.replicate n s).foldl give t := by
  induction rounds generalizing t with
  | nil => rfl
  | cons n rounds ih =>
      have hgive (s : Nat) (t : Table) : (List.range n).foldl (fun t _ => t.give s) t =
          (List.replicate n s).foldl give t := by
        rw [← List.foldl_map, List.map_const', List.length_range]
      have hround : t.cfg.seatList.foldl
          (fun t s => (List.range n).foldl (fun t _ => t.give s) t) t =
            (t.cfg.seatList.flatMap fun s => List.replicate n s).foldl give t := by
        rw [List.foldl_flatMap]
        simp only [hgive]
      rw [List.foldl_cons, hround, ih, (deal_rest _ t).1, List.flatMap_cons, List.foldl_append]

theorem sum_roundsBy (zhangshu n : Nat) : (roundsBy zhangshu n).sum = n := by
  have hmod := Nat.div_add_mod' n zhangshu
  rw [roundsBy, List.sum_append, List.sum_replicate, smul_eq_mul]
  split
  · next hzero =>
      rw [hzero] at hmod
      exact hmod
  · rw [List.sum_singleton]
    exact hmod

def turns (zhangshu : Nat) (t : Table) : List Nat :=
  ((roundsBy zhangshu t.cfg.gameType.paiNum).flatMap fun n =>
    t.cfg.seatList.flatMap fun s => List.replicate n s) ++ [t.zhuangSeat]

theorem mem_turns (h : Shuffled t) (zhangshu : Nat) :
    ∀ s ∈ t.turns zhangshu, s ∈ t.cfg.seatList := by
  intro s hs
  rcases List.mem_append.mp hs with hs | hs
  · obtain ⟨n, -, hs⟩ := List.mem_flatMap.mp hs
    obtain ⟨s', hmem, hs⟩ := List.mem_flatMap.mp hs
    exact (List.mem_replicate.mp hs).2 ▸ hmem
  · exact List.mem_singleton.mp hs ▸ h.zhuang

theorem length_turns (zhangshu : Nat) (t : Table) : (t.turns zhangshu).length =
    t.cfg.gameType.paiNum * t.cfg.gameType.seatCount + 1 := by
  have hround (n : Nat) : (t.cfg.seatList.flatMap fun s => List.replicate n s).length =
      n * t.cfg.gameType.seatCount := by
    simp [List.length_flatMap, Config.seatList, Config.seatCount, Nat.mul_comm]
  rw [turns, List.length_append, List.length_flatMap]
  simp only [hround]
  rw [List.sum_map_mul_right, List.map_id', sum_roundsBy, List.length_singleton]

theorem count_turns (zhangshu : Nat) {seat : Nat} (hs : seat ∈ t.cfg.seatList) :
    (t.turns zhangshu).count seat ≤ t.cfg.gameType.paiNum + 1 := by
  have hround (n : Nat) : (t.cfg.seatList.flatMap fun s => List.replicate n s).count seat = n := by
    rw [count_flatMap_replicate t.cfg.seatList_nodup fun _ => n, if_pos hs]
  rw [turns, List.count_append, List.count_flatMap]
  have hmap : (List.count seat ∘ fun n =>
      t.cfg.seatList.flatMap fun s => List.replicate n s) = id := funext hround
  rw [hmap, List.map_id, sum_roundsBy, List.count_singleton]
  split <;> omega

theorem room (gameType : GameType) :
    gameType.paiNum * gameType.seatCount + 1 + 36 ≤ (allPai gameType).length ∧
      gameType.paiNum + 1 ≤ 14 := by
  cases gameType <;> decide

theorem fapaiBy_eq (h : Shuffled t) (zhangshu : Nat) :
    (t.fapaiBy zhangshu).seat = ((t.turns zhangshu).foldl give t).seat ∧
      (t.fapaiBy zhangshu).paiPool = ((t.turns zhangshu).foldl give t).paiPool ∧
      (t.fapaiBy zhangshu).cfg = t.cfg := by
  unfold fapaiBy
  rw [rounds_eq, turns, List.foldl_append]
  generalize hseats : ((roundsBy zhangshu t.cfg.gameType.paiNum).flatMap fun n =>
    t.cfg.seatList.flatMap fun s => List.replicate n s) = seats
  obtain ⟨hcfg, hzhuang, hempty⟩ := deal_rest seats t
  dsimp only
  generalize seats.foldl give t = u at hcfg hzhuang hempty
  have hleft : u.paiEmpty = false := hempty.trans h.left
  rw [List.foldl_cons, List.foldl_nil, ← hzhuang]
  unfold popPai give
  rw [hleft]
  cases u.paiPool with
  | nil => exact ⟨rfl, rfl, hcfg⟩
  | cons pai pool => exact ⟨rfl, rfl, hcfg⟩

theorem Whole.congr {u : Table} (h : Whole u) (hseat : t.seat = u.seat)
    (hpool : t.paiPool = u.paiPool) (hcfg : t.cfg = u.cfg) : Whole t where
  hand := hseat ▸ h.hand
  pool := hpool ▸ h.pool
  num := hseat ▸ h.num
  copies pai := by
    rw [Table.copies, hseat, hpool, hcfg]
    exact h.copies pai

theorem Shuffled.whole_fapaiBy (h : Shuffled t) (zhangshu : Nat) : Whole (t.fapaiBy zhangshu) := by
  obtain ⟨hseat, hpool, hcfg⟩ := fapaiBy_eq h zhangshu
  exact (h.whole.deal (mem_turns h zhangshu)).congr hseat hpool
    (hcfg.trans (deal_rest _ t).1.symm)

theorem Shuffled.ample (h : Shuffled t) (zhangshu : Nat) {seat : Nat} (hs : seat ∈ t.cfg.seatList) :
    Ample ((t.fapaiBy zhangshu).seat seat).pai (t.fapaiBy zhangshu).paiPool := by
  obtain ⟨hseat, hpool, hcfg⟩ := fapaiBy_eq h zhangshu
  obtain ⟨hroom, hfourteen⟩ := room t.cfg.gameType
  have hwhole := h.whole_fapaiBy zhangshu
  have hlength := length_turns zhangshu t
  have hdeck := h.deck.length_eq
  obtain ⟨hleft, hsize⟩ := size_deal h.whole (mem_turns h zhangshu) (by omega)
  constructor
  case hand => exact hwhole.hand seat
  case pool => exact hwhole.pool
  case num => exact hwhole.num seat
  case four =>
    intro pai
    have hcopies := hwhole.copies pai
    have hle := count_allPai_le (t.fapaiBy zhangshu).cfg.gameType pai
    have hone := List.single_le_sum
      (l := (t.fapaiBy zhangshu).cfg.seatList.map fun s =>
        ((t.fapaiBy zhangshu).seat s).pai.num pai)
      (fun n hn => by
        obtain ⟨s, -, rfl⟩ := List.mem_map.mp hn
        exact hwhole.num s pai) _
      (List.mem_map_of_mem (by rw [hcfg]; exact hs))
    rw [copies] at hcopies
    omega
  case size =>
    have hcount := count_turns zhangshu hs
    have hnone : size (t.seat seat).pai = 0 := by
      rw [h.hands seat]
      exact size_none
    rw [hseat, hsize, hnone]
    omega
  case rest =>
    rw [hpool]
    omega

end Deal

/-! ## The lucky seat -/

variable {t : Table} (order orderForPitch : PairsOrder)

theorem sure_fapaiLucky (h : Shuffled t) (zhangshu : Nat) {luckySeat : Nat}
    (hs : luckySeat ∈ t.cfg.seatList) :
    Draw.Sure (t.fapaiLucky order orderForPitch zhangshu luckySeat) fun u =>
      (∀ pai, u.copies pai = (allPai t.cfg.gameType).count pai) ∧
        size (u.seat luckySeat).pai = size ((t.fapaiBy zhangshu).seat luckySeat).pai := by
  have hcfg := (fapaiBy_eq h zhangshu).2.2
  refine .bind ((h.ample zhangshu hs).sure order orderForPitch) fun r hr => .pure ?_
  generalize hu : (({ t.fapaiBy zhangshu with paiPool := r.2.reverse } : Table).setSeat luckySeat
    fun d => { d with pai := r.1 }) = u
  have hseat (s : Nat) : (u.seat s).pai =
      if s = luckySeat then r.1 else ((t.fapaiBy zhangshu).seat s).pai := by
    rw [← hu]
    change (Function.update (t.fapaiBy zhangshu).seat luckySeat _ s).pai = _
    rw [Function.update_apply]
    split <;> rfl
  have hpool : u.paiPool = r.2.reverse := hu ▸ rfl
  have hcfg' : u.cfg = t.cfg := hu ▸ hcfg
  constructor
  · intro pai
    have hkept := hr.sum pai
    have hwhole := (h.whole_fapaiBy zhangshu).copies pai
    have hnum (s : Nat) : (u.seat s).pai.num pai = ((t.fapaiBy zhangshu).seat s).pai.num pai +
        if s = luckySeat then
          r.1.num pai - ((t.fapaiBy zhangshu).seat luckySeat).pai.num pai else 0 := by
      rw [hseat]
      split
      · next heq => rw [heq, add_sub_cancel]
      · exact (add_zero _).symm
    rw [copies, hcfg] at hwhole
    rw [copies, hpool, hcfg', List.count_reverse]
    simp only [hnum]
    rw [List.sum_map_add, sum_ite t.cfg.seatList_nodup hs]
    omega
  · rw [hseat, if_pos rfl]
    exact hr.size

/-- `adjust_nice_pai` after `fapai_nor` raises no error and keeps the tiles, whatever is drawn. -/
theorem sure_adjustNicePai (h : Shuffled t) (zhangshu : Nat) {seat : Nat}
    (hs : seat ∈ t.cfg.seatList) :
    Draw.Sure (adjustNicePai order orderForPitch ((t.fapaiBy zhangshu).seat seat).pai
        (t.fapaiBy zhangshu).paiPool)
      (Kept ((t.fapaiBy zhangshu).seat seat).pai (t.fapaiBy zhangshu).paiPool) :=
  (h.ample zhangshu hs).sure order orderForPitch

def tableForTwo : Table :=
  (newTable
    { gameType := .er13
      algo := { hupaiInfo := fun _ _ _ => none, maxTingTotal := fun _ _ _ => none } }
    fun k => 5 * k).statusTouSezi

theorem sure_adjustNicePai_two :
    Draw.Sure (adjustNicePai ⟨id, fun _ => .refl _⟩ ⟨id, fun _ => .refl _⟩
        ((tableForTwo.fapaiBy 4).seat 2).pai (tableForTwo.fapaiBy 4).paiPool)
      (Kept ((tableForTwo.fapaiBy 4).seat 2).pai (tableForTwo.fapaiBy 4).paiPool) :=
  sure_adjustNicePai _ _ (shuffled_statusTouSezi _) 4 (by decide)

end Table

end JyQipai.Mj
