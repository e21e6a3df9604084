import JyQipai.Mj.Room

/-!
# Runs of a Mahjong table

The runs of a table, and what runs on fixed tiles need: a deal given by the order
of the tiles, and an algorithm in which a win counts only its roots (`dai_geng`).
-/

namespace JyQipai.Mj

open JyQipai.Lib

/-! ## Tables without shape fans -/

def splits : Nat → List Nat → (Nat → Int) → Bool
  | _, [], _ => true
  | 0, _, _ => false
  | fuel + 1, id :: ids, c =>
      if c id = 0 then splits fuel ids c
      else
        (3 ≤ c id ∧ splits fuel (id :: ids) (Function.update c id (c id - 3))) ∨
          (1 ≤ c id ∧ 1 ≤ c (id + 1) ∧ 1 ≤ c (id + 2) ∧
            splits fuel (id :: ids) fun x =>
              if x = id ∨ x = id + 1 ∨ x = id + 2 then c x - 1 else c x)

def isHu (pai : PaiMap) : Bool :=
  paiIds.any fun id => 2 ≤ pai.num id ∧
    splits 45 paiIds (Function.update pai.num id (pai.num id - 2))

def gengNum (pai : PaiMap) (pg : PgMap) : Nat :=
  (paiIds.filter fun id =>
    pai.num id = 4 ∨ (pai.num id = 1 ∧ pg id = some .peng)).length +
  (paiIds.filter fun id => (pg id).any (· ≠ .peng)).length

def plainHupai (pai : PaiMap) (pg : PgMap) (_ : Option Nat) : Option Nat :=
  if (tongjiPaiInfo pai).1 + (tongjiPenggangInfo pg).1 = 14 ∧ isHu pai then
    some (gengNum pai pg)
  else none

def plainTing (pai : PaiMap) (pg : PgMap) (que : Option Nat) : Option Nat :=
  ((paiIds.filter fun id => some (flower id) ≠ que).filterMap fun id =>
    plainHupai (pai.add id) pg que).max?.map fun mul => 2 ^ mul

def plainAlgo : Algo where
  kaiguan :=
    { zimoJiafan := false
      gangShangHua := false
      gangShangPao := false
      haiDiLy := false
      haiDiPao := false
      tianHu := false
      diHu := false }
  hupaiInfo := plainHupai
  maxTingTotal := plainTing

/-! ## Deals on fixed tiles -/

def shuffleTo : List Nat → List Nat → List Nat
  | [], _ => []
  | _ :: _, [] => []
  | x :: list, y :: target =>
      let i := (x :: list).idxOf y
      i :: shuffleTo (if i = 0 then list else list.set (i - 1) x) target

def poolOf (gameType : GameType) (tiles : List Nat) : List Nat :=
  ((tiles ++ (allPai gameType).diff tiles).reverse)

def rig (gameType : GameType) (tiles : List Nat) : Nat → Nat :=
  let l := shuffleTo (allPai gameType) (poolOf gameType tiles)
  fun i => l.getD (i - 1) 0

def dealOrder (hands : List (List Nat)) (draws : List Nat) : List Nat :=
  (([0, 4, 8].flatMap fun k => hands.flatMap fun h => (h.drop k).take 4) ++
    hands.flatMap fun h => h.drop 12) ++ draws

theorem swap_shuffleTo (pre list : List Nat) {x y : Nat} (hy : y ∈ x :: list) :
    let l := pre ++ x :: list
    ∃ d list', d ≤ list.length ∧ (y :: list').Perm (x :: list) ∧
      (∀ target, shuffleTo (x :: list) (y :: target) = d :: shuffleTo list' target) ∧
      (l.set pre.length (l.getD (pre.length + d) 0)).set (pre.length + d)
        (l.getD pre.length 0) = pre ++ [y] ++ list' := by
  obtain ⟨as, bs, heq, has⟩ := List.eq_append_cons_of_mem hy
  have hd : (x :: list).idxOf y = as.length := by
    rw [heq, List.idxOf_append_of_notMem has, List.idxOf_cons_self, Nat.add_zero]
  cases as with
  | nil =>
      obtain ⟨rfl, rfl⟩ : x = y ∧ list = bs := by simpa using heq
      exact ⟨0, list, by simp, .refl _, by simp [shuffleTo], by simp⟩
  | cons a as =>
      obtain ⟨rfl, rfl⟩ : x = a ∧ list = as ++ y :: bs := by simpa using heq
      refine ⟨as.length + 1, as ++ x :: bs, by simp, ?_, by simp [shuffleTo, hd], by simp⟩
      exact (List.perm_middle.cons y).trans
        ((List.Perm.swap x y _).trans (List.perm_middle.symm.cons x))

theorem foldl_shuffleTo (ρ : Nat → Nat) (n : Nat) (pre list target : List Nat)
    (hp : list.Perm target) (hn : pre.length + list.length = n)
    (hρ : ∀ r, ρ (pre.length + 1 + r) = (shuffleTo list target).getD r 0) :
    (List.range' (pre.length + 1) (list.length - 1)).foldl
      (fun l i =>
        let j := random ρ i i n
        (l.set (i - 1) (l.getD (j - 1) 0)).set (j - 1) (l.getD (i - 1) 0)) (pre ++ list) =
      pre ++ target := by
  induction target generalizing pre list with
  | nil => rw [hp.eq_nil]; rfl
  | cons y target ih =>
      cases list with
      | nil => cases hp.nil_eq
      | cons x list =>
          obtain ⟨d, list', hd, hp', hshuffle, hswap⟩ :=
            swap_shuffleTo pre list (hp.mem_iff.mpr List.mem_cons_self)
          have hlen : list'.length = list.length := by simpa using hp'.length_eq
          cases list with
          | nil => rw [List.perm_singleton.mp hp.symm]; rfl
          | cons z list =>
              have hj : random ρ (pre.length + 1) (pre.length + 1) n = pre.length + d + 1 := by
                have h0 := hρ 0
                rw [hshuffle, Nat.add_zero, List.getD_cons_zero] at h0
                rw [random, h0, Nat.mod_eq_of_lt (by simp at hd hn; omega)]
                omega
              simp only [List.length_cons, Nat.add_sub_cancel, List.range'_succ,
                List.foldl_cons, hj, hswap]
              have hrest := ih (pre ++ [y]) list' (hp'.trans hp).cons_inv
                (by simp [hlen] at hn ⊢; omega) fun r => by
                  have hr := hρ (r + 1)
                  rw [hshuffle, List.getD_cons_succ] at hr
                  rw [← hr, List.length_append, List.length_singleton]
                  congr 1
                  omega
              simpa [hlen] using hrest

def dealt (cfg : Config) (tiles : List Nat) : Table :=
  { Table.newTable cfg (rig cfg.gameType tiles) with
    paiPool := tiles ++ (allPai cfg.gameType).diff tiles }

theorem newTable_rig (cfg : Config) (gameType : GameType) (tiles : List Nat)
    (hcfg : cfg.gameType = gameType)
    (h : ∀ x ∈ tiles, tiles.count x ≤ (allPai gameType).count x) :
    Table.newTable cfg (rig gameType tiles) = dealt cfg tiles := by
  subst hcfg
  have hp := (List.reverse_perm _).trans (List.subperm_append_diff_self_of_count_le h)
  have hpool : randomList (rig cfg.gameType tiles) (allPai _) = poolOf _ tiles :=
    foldl_shuffleTo _ _ [] (allPai _) (poolOf _ _) hp.symm (Nat.zero_add _) fun r => by
      dsimp only [rig, List.length_nil]
      rw [Nat.zero_add, Nat.add_sub_cancel_left]
  unfold dealt Table.newTable Table.newGame
  rw [hpool, poolOf, List.reverse_reverse]

namespace Table

/-! ## Seats -/

theorem length_seatList (cfg : Config) : cfg.seatList.length = cfg.seatCount :=
  List.length_range'

theorem nodup_seatList (cfg : Config) : cfg.seatList.Nodup := List.nodup_range'

theorem seatCount_cases (cfg : Config) : cfg.seatCount = 4 ∨ cfg.seatCount = 2 := by
  unfold Config.seatCount GameType.seatCount
  split
  · exact .inl rfl
  · exact .inr rfl

theorem mem_seatsAfter {t : Table} {s x : Nat} :
    s ∈ t.seatsAfter x ↔ s ∈ t.cfg.seatList := by
  unfold seatsAfter Config.seatList
  rw [List.mem_map, List.mem_range'_1]
  rcases seatCount_cases t.cfg with hn | hn
  · rw [hn]
    constructor
    · rintro ⟨k, -, rfl⟩
      omega
    · intro hs
      exact ⟨(s + 3 - x % 4) % 4, List.mem_range.mpr (by omega), by omega⟩
  · rw [hn]
    constructor
    · rintro ⟨k, -, rfl⟩
      omega
    · intro hs
      exact ⟨(s + 1 - x % 2) % 2, List.mem_range.mpr (by omega), by omega⟩

/-! ## What agents answer -/

/-- What an agent may answer when it is asked for a change of its score. -/
def Fair (score n : Int) : Prop :=
  (score ≤ 0 → score ≤ n ∧ n ≤ 0) ∧ (0 ≤ score → n = score)

theorem capped_nonneg {cap : Option Int} (hcap : ∀ m ∈ cap, 0 ≤ m) {x : Int} (hx : 0 ≤ x) :
    0 ≤ (match cap with
      | none => x
      | some m => if m < x then m else x) := by
  cases cap with
  | none => exact hx
  | some m =>
      dsimp only
      split
      · exact hcap m rfl
      · exact hx

theorem askedScore_nonneg (piao : Option Nat) {cap : Option Int} (hcap : ∀ m ∈ cap, 0 ≤ m)
    {score : Int} (h : 0 ≤ score) : 0 ≤ askedScore piao cap score := by
  unfold askedScore
  apply capped_nonneg hcap
  split <;> omega

section Frame

variable {β : Type} {f : Table → β}

theorem fapaiNor_frame
    (hpai : ∀ (t : Table) (s : Nat) (g : PaiMap → PaiMap),
      f (t.setSeat s fun d => { d with pai := g d.pai }) = f t)
    (hpool : ∀ (t : Table) (pool : List Nat) (b : Bool),
      f { t with paiPool := pool, paiEmpty := b } = f t) (t : Table) :
    f t.fapaiNor = f t := by
  have hgain : ∀ (t : Table) (s pai : Nat), f (t.gain s pai) = f t :=
    fun t s pai => hpai t s fun m => m.add pai
  have hgive : ∀ (t : Table) (s : Nat), f (t.give s) = f t := by
    intro t s
    unfold give
    split
    · rfl
    · next pai pool _ => exact (hgain _ s pai).trans (hpool t pool t.paiEmpty)
  have hfold : ∀ {γ : Type} (h : Table → γ → Table), (∀ t b, f (h t b) = f t) →
      ∀ (l : List γ) (t : Table), f (l.foldl h t) = f t := by
    intro γ h hh l
    induction l with
    | nil => exact fun t => rfl
    | cons b l ih => exact fun t => (ih _).trans (hh t b)
  have hround : ∀ (t : Table) (n : Nat), f (t.cfg.seatList.foldl
      (fun t s => (List.range n).foldl (fun t _ => t.give s) t) t) = f t :=
    fun t n => hfold _ (fun t s => hfold _ (fun t _ => hgive t s) _ t) _ t
  have hpop : ∀ t : Table, f t.popPai.2 = f t := by
    intro t
    unfold popPai
    split
    · rfl
    · split
      · rfl
      · exact hpool _ _ _
  unfold fapaiNor
  dsimp only
  generalize hu : (rounds t.cfg.gameType.paiNum).foldl _ t = u
  have hdeal : f u = f t := hu ▸ hfold _ hround _ t
  have hlast := hpop u
  split
  · next v hv =>
    rw [hv] at hlast
    exact hlast.trans hdeal
  · next pai v hv =>
    rw [hv] at hlast
    exact (hgain v v.zhuangSeat pai).trans (hlast.trans hdeal)

theorem huanPai_frame
    (hpai : ∀ (t : Table) (s : Nat) (g : PaiMap → PaiMap),
      f (t.setSeat s fun d => { d with pai := g d.pai }) = f t)
    (hpool : ∀ (t : Table) (pool : List Nat), f { t with paiPool := pool } = f t)
    (seat : Nat) (old : List Nat) (t : Table) : f (t.huanPai seat old) = f t := by
  have hswap : ∀ (l : List (Nat × Nat)) (r : Table × List (Nat × Nat × Nat)),
      f (l.foldl (fun r x => swapOne seat r x.1 x.2) r).1 = f r.1 := by
    intro l
    induction l with
    | nil => exact fun r => rfl
    | cons x l ih =>
        intro r
        refine (ih _).trans ?_
        exact (hpai { r.1 with paiPool := _ } seat fun m => PaiMap.add
          (Function.update m x.1 ((m x.1).map (· - 1))) _).trans (hpool r.1 _)
  have hback : ∀ (l : List (Nat × Nat × Nat)) (u : Table),
      f (l.foldl (swapBack seat) u) = f u := by
    intro l
    induction l with
    | nil => exact fun u => rfl
    | cons x l ih =>
        intro u
        refine (ih _).trans ?_
        exact (hpai { u with paiPool := _ } seat fun m => Function.update (m.add x.2.1)
          x.2.2 ((m.add x.2.1 x.2.2).map (· - 1))).trans (hpool u _)
  unfold huanPai
  split
  · rfl
  · dsimp only
    split
    · exact hswap _ _
    · exact (hback _ _).trans (hswap _ _)

end Frame

end Table

/-! ## Runs -/

abbrev MjWorld := World Table Query Answer Int

namespace Table

def Reachable (F : NumFormat) (cfg : Config) (ρ : Nat → Nat)
    (ok : MjWorld → Input (Event × (Nat → Nat)) Answer → Prop) (w : MjWorld) : Prop :=
  Reach (World.step (Table.step F)) ok ⟨newTable cfg ρ, []⟩ w

def after (cfg : Config) (ρ : Nat → Nat)
    (inputs : List (Input (Event × (Nat → Nat)) Answer)) : MjWorld :=
  run (World.step (Table.step .exact)) ⟨newTable cfg ρ, []⟩ inputs

theorem reachable_after (cfg : Config) (ρ : Nat → Nat)
    (inputs : List (Input (Event × (Nat → Nat)) Answer)) :
    Reachable .exact cfg ρ (fun _ _ => True) (after cfg ρ inputs) := by
  apply reach_run
  generalize (⟨newTable cfg ρ, []⟩ : MjWorld) = w
  induction inputs generalizing w with
  | nil => trivial
  | cons e inputs ih => exact ⟨trivial, ih _⟩

def cmd (e : Event) : Input (Event × (Nat → Nat)) Answer :=
  .command (e, fun _ => 0)

def ans (value : Int) : Input (Event × (Nat → Nat)) Answer :=
  .answer 0 { value := value }

def opening (money : Nat → Int) (que : Nat → Nat) :
    List (Input (Event × (Nat → Nat)) Answer) :=
  [1, 2, 3, 4].map (fun s => cmd (.join s none (money s))) ++
  [1, 2, 3, 4].map (fun s => cmd (.ready s)) ++
  [.command (.update, fun _ => 1), cmd .update, cmd .update] ++
  [1, 2, 3, 4].map (fun s => cmd (.dingQue s (que s))) ++
  [cmd .update, cmd .update]

def erOpening (money : Nat → Int) : List (Input (Event × (Nat → Nat)) Answer) :=
  [1, 2].map (fun s => cmd (.join s none (money s))) ++
  [1, 2].map (fun s => cmd (.ready s)) ++
  [.command (.update, fun _ => 1), cmd .update, cmd .update]

end Table

end JyQipai.Mj
