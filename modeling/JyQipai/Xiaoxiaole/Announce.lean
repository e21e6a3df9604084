import JyQipai.Xiaoxiaole.Lottery

/-!
# What is announced and what is paid

`lottery_kaijiang` announces the rate of the board with what a lucky draw adds to it, and the
room pays the rate that was drawn.
-/

namespace JyQipai.Xiaoxiaole

open Lib
open Lottery (Draws)

def wanted (real : Int) : Option Lian → Int
  | none => real
  | some lian => max 0 (real - lian.lianRate)

/-- The search ends with a board of the nearest key, and ten times the rate that is paid is
announced. -/
def Honest (F : NumFormat) (m : XcMap) (cfg : Option GlConfig) (draws : Draws)
    (real : Int) (k : Nat) : Prop :=
  match dealLian4Lian5 cfg real draws k with
  | (lian, k) =>
      (∃ board key k', getXcMap (some m) (wanted real lian) draws k = (some board, key, k') ∧
        IsNearest m.keys (wanted real lian) key) ∧
      ∃ r, lotteryKaijiang F (some m) cfg draws = some r ∧ r.realAwardRate = real ∧
        r.awardRate = r.realAwardRate

/-- A plain draw has a board with its rate.  A lucky one has a board that is not above its
rate, within reach of the search, and the search does not stop at one that is. -/
def XcMap.Makes (m : XcMap) (real : Int) : Option Lian → Prop
  | none => real ∈ m.keys
  | some lian =>
      (∃ key ∈ m.keys, key ≤ real ∧ real - lian.lianRate ≤ key + 10000 ∧
        (real = lian.lianRate → key < 10000)) ∧
      ∀ key ∈ m.keys, key ≤ real - lian.lianRate → key ≤ real

section Search

variable {m : XcMap} {w now key : Int} {n : Nat}

theorem XcMap.isSome_of_mem (h : key ∈ m.keys) : (m.boards key).isSome = true := h

theorem XcMap.bounds_of_mem (h : key ∈ m.keys) : 0 ≤ key ∧ key ≤ 10000 := by
  obtain ⟨l, hl⟩ := Option.isSome_iff_exists.mp (XcMap.isSome_of_mem h)
  exact m.bounded key l hl

theorem XcMap.keys_nonempty (m : XcMap) : m.keys.Nonempty := by
  obtain ⟨key, hkey⟩ := m.someKey
  exact ⟨key, Option.isSome_iff_ne_none.mpr hkey⟩

theorem XcMap.keys_finite (m : XcMap) : m.keys.Finite :=
  (Set.finite_Icc 0 10000).subset fun _ h => XcMap.bounds_of_mem h

theorem searchKey_bounds {dir : Int} (hdir : dir = 1 ∨ dir = -1)
    (h : searchKey m w n dir now = some key) :
    key ∈ m.keys ∧ min now w - n ≤ key ∧ key ≤ max now w + n := by
  induction n generalizing dir now with
  | zero => cases h
  | succ n ih =>
      rw [searchKey] at h
      by_cases hhas : (m.boards (now + dir)).isSome = true
      · rw [if_pos hhas] at h
        obtain rfl := Option.some.inj h
        refine ⟨hhas, ?_, ?_⟩ <;> rcases hdir with rfl | rfl <;> push_cast <;> omega
      · rw [if_neg hhas] at h
        by_cases hzero : now + dir ≤ 0
        · rw [if_pos hzero] at h
          obtain ⟨hmem, hlow, hhigh⟩ := ih (.inl rfl) h
          refine ⟨hmem, ?_, ?_⟩ <;> push_cast <;> omega
        · rw [if_neg hzero] at h
          obtain ⟨hmem, hlow, hhigh⟩ := ih hdir h
          refine ⟨hmem, ?_, ?_⟩ <;> rcases hdir with rfl | rfl <;> push_cast <;> omega

theorem searchKey_down (hkey : key ∈ m.keys) (hlt : key < now) (hn : now ≤ key + n)
    (hnone : ∀ j, key < j → j < now → j ∉ m.keys) :
    searchKey m w n (-1) now = some key := by
  induction n generalizing now with
  | zero => push_cast at hn; omega
  | succ n ih =>
      have hlow := (XcMap.bounds_of_mem hkey).1
      rw [searchKey]
      by_cases heq : now + -1 = key
      · rw [heq, if_pos (XcMap.isSome_of_mem hkey)]
      · have hnot : ¬ (m.boards (now + -1)).isSome = true := hnone _ (by omega) (by omega)
        rw [if_neg hnot, if_neg (by omega : ¬ now + -1 ≤ 0)]
        exact ih (by omega) (by push_cast at hn; omega) fun j hj hj' => hnone j hj (by omega)

theorem searchKey_up (hkey : key ∈ m.keys) (hpos : 0 ≤ now) (hlt : now < key)
    (hn : key ≤ now + n) (hnone : ∀ j, now < j → j < key → j ∉ m.keys) :
    searchKey m w n 1 now = some key := by
  induction n generalizing now with
  | zero => push_cast at hn; omega
  | succ n ih =>
      rw [searchKey]
      by_cases heq : now + 1 = key
      · rw [heq, if_pos (XcMap.isSome_of_mem hkey)]
      · have hnot : ¬ (m.boards (now + 1)).isSome = true := hnone _ (by omega) (by omega)
        rw [if_neg hnot, if_neg (by omega : ¬ now + 1 ≤ 0)]
        exact ih (by omega) (by omega) (by push_cast at hn; omega)
          fun j hj hj' => hnone j (by omega) hj'

theorem searchKey_turn (hpos : 1 ≤ now) (hnone : ∀ j < now, j ∉ m.keys) :
    searchKey m w (n + now.toNat) (-1) now = searchKey m w n 1 w := by
  obtain ⟨d, rfl⟩ : ∃ d : Nat, now = d + 1 := ⟨(now - 1).toNat, by omega⟩
  induction d with
  | zero =>
      have hnot : ¬ (m.boards 0).isSome = true := hnone 0 (by omega)
      simp [searchKey, hnot]
  | succ d ih =>
      have hnot : ¬ (m.boards ((d : Int) + 1)).isSome = true := hnone _ (by push_cast; omega)
      rw [show n + ((d + 1 : Nat) + 1 : Int).toNat = (n + ((d : Int) + 1).toNat) + 1 by omega,
        searchKey, show ((d + 1 : Nat) + 1 + -1 : Int) = (d : Int) + 1 by push_cast; ring,
        if_neg hnot, if_neg (by omega : ¬ (d : Int) + 1 ≤ 0)]
      exact ih (by omega) fun j hj => hnone j (by push_cast; omega)

theorem findKey_nearest (hw : 0 ≤ w) (h : IsNearest m.keys w key) (hreach : w ≤ key + 10000)
    (hzero : w = 0 → key < 10000) : findKey m w = some key := by
  have hbounds := XcMap.bounds_of_mem h.mem
  rw [findKey]
  rcases lt_trichotomy key w with hlt | rfl | hlt
  · have hnot : ¬ (m.boards w).isSome = true := h.not_mem_of_lt hlt le_rfl
    rw [if_neg hnot]
    exact searchKey_down h.mem hlt hreach fun j hj hj' => h.not_mem_of_lt hj hj'.le
  · exact if_pos h.mem
  · have hnot : ¬ (m.boards w).isSome = true := h.not_mem_of_le hlt hlt
    rw [if_neg hnot]
    have hup (n : Nat) (hn : key ≤ w + n) : searchKey m w n 1 w = some key :=
      searchKey_up h.mem hw hlt hn fun j _ hj => h.not_mem_of_le hlt hj
    rcases eq_or_lt_of_le hw with rfl | hpos
    · have hfirst : ¬ (m.boards (0 + -1)).isSome = true :=
        h.not_mem_of_le hlt (by omega)
      rw [searchKey, if_neg hfirst, if_pos (by omega)]
      exact hup 9999 (by have := hzero rfl; push_cast; omega)
    · rw [show (10000 : Nat) = (10000 - w.toNat) + w.toNat by omega,
        searchKey_turn hpos fun j hj => h.not_mem_of_le hlt (hj.trans hlt)]
      exact hup _ (by omega)

theorem findKey_bounds (hw : 0 ≤ w) (h : findKey m w = some key) :
    key ∈ m.keys ∧ w ≤ key + 10000 ∧ (w = 0 → key < 10000) := by
  rw [findKey] at h
  by_cases hhas : (m.boards w).isSome = true
  · rw [if_pos hhas] at h
    obtain rfl := Option.some.inj h
    exact ⟨hhas, by omega, by omega⟩
  · rw [if_neg hhas] at h
    obtain ⟨hmem, hlow, hhigh⟩ := searchKey_bounds (.inr rfl) h
    refine ⟨hmem, by push_cast at hlow; omega, ?_⟩
    -- at zero the first step goes below, where no key is
    rintro rfl
    have hfirst : ¬ (m.boards (0 + -1)).isSome = true := fun hneg =>
      absurd (XcMap.bounds_of_mem (m := m) hneg).1 (by omega)
    rw [searchKey, if_neg hfirst, if_pos (by omega)] at h
    have := (searchKey_bounds (.inl rfl) h).2.2
    push_cast at this
    omega

theorem getXcMap_some (h : findKey m w = some key) (draws : Draws) (k : Nat) :
    ∃ board, getXcMap (some m) w draws k = (some board, key, k + 1) := by
  have hmem : key ∈ m.keys := by
    rw [findKey] at h
    by_cases hhas : (m.boards w).isSome = true
    · rw [if_pos hhas] at h
      obtain rfl := Option.some.inj h
      exact hhas
    · rw [if_neg hhas] at h
      exact (searchKey_bounds (.inr rfl) h).1
  obtain ⟨boards, hboards⟩ := Option.isSome_iff_exists.mp (XcMap.isSome_of_mem hmem)
  have hlen : draws k % boards.length < boards.length :=
    Nat.mod_lt _ (List.length_pos_iff.mpr (m.filled key boards hboards))
  refine ⟨boards[draws k % boards.length], ?_⟩
  simp [getXcMap, h, hboards, List.getElem?_eq_getElem hlen]

theorem findKey_of_getXcMap {draws : Draws} {k k' : Nat} {board : Board}
    (h : getXcMap (some m) w draws k = (some board, key, k')) : findKey m w = some key := by
  cases hfind : findKey m w with
  | none => simp [getXcMap, hfind] at h
  | some key' =>
      obtain ⟨board', hget⟩ := getXcMap_some hfind draws k
      rw [hget] at h
      simp only [Prod.mk.injEq] at h
      rw [h.2.1]

end Search

section Lucky

variable {draws : Draws} {k : Nat}

theorem random_isSome {a b : Int} (h : a ≤ b) : (draws.random k a b).isSome = true := by
  rw [Lottery.Draws.random, if_pos h]
  rfl

theorem drawRow_isSome {α : Type} {power : α → Int} {rows : List α}
    (h : 1 ≤ (rows.map power).sum) : (drawRow power rows draws k).isSome = true := by
  rw [drawRow, Option.isSome_map]
  exact random_isSome h

theorem bind_isSome {α β : Type} {o : Option α} {f : α → Option β} (ho : o.isSome = true)
    (hf : ∀ a, (f a).isSome = true) : (o.bind f).isSome = true := by
  obtain ⟨a, rfl⟩ := Option.isSome_iff_exists.mp ho
  exact hf a

theorem lian3Round_isSome (trueRate totalLocky : Int) :
    (lian3Round trueRate totalLocky draws k).isSome = true := by
  refine bind_isSome (random_isSome (by omega)) fun rand => ?_
  split
  · rw [Option.isSome_map, getLian3Lucky, Option.isSome_map]
    exact drawRow_isSome (by decide)
  · rw [Option.isSome_map, getLian3Lucky, Option.isSome_map]
    exact drawRow_isSome (by decide)

theorem lian3Rounds_isSome (trueRate : Int) (n : Nat) (totalLocky : Int) :
    (lian3Rounds trueRate draws n totalLocky k).isSome = true := by
  induction n generalizing totalLocky k with
  | zero => rfl
  | succ n ih =>
      refine bind_isSome (lian3Round_isSome _ _) fun x => ?_
      rw [Option.isSome_map]
      exact ih _

variable (F : NumFormat)

theorem dealBaseXcMap_isSome (draws : Draws) (k : Nat) (board : Board) (lianType : LianType)
    (item : Option Int) :
    (dealBaseXcMap F (some board) lianType item draws k).isSome = true := by
  have hrange : ⌊F.mul (board.utf8ByteSize / 8 : Nat) (F.rnd (3 / 10))⌋ ≤
      ⌊F.mul (board.utf8ByteSize / 8 : Nat) (F.rnd (7 / 10))⌋ :=
    Int.floor_mono (F.mono (mul_le_mul_of_nonneg_left (F.mono (by norm_num))
      (Nat.cast_nonneg _)))
  rw [dealBaseXcMap, Option.bind_some]
  refine bind_isSome (random_isSome hrange) fun locky => ?_
  dsimp only
  split
  · refine bind_isSome (drawRow_isSome (by decide)) fun x => ?_
    rw [Option.isSome_map]
    exact lian3Rounds_isSome _ _ _
  · rw [Option.isSome_map]
    exact random_isSome (by omega)
  · rfl
  · rfl

theorem announce_some (draws : Draws) (k : Nat) (real key locky : Int) (board : Board)
    (lianType : LianType) (item : Option Int) :
    ∃ r, announce F real (some board, key, k) locky lianType item draws = some r ∧
      r.realAwardRate = real ∧ r.awardRate = key + locky := by
  obtain ⟨lucky, hlucky⟩ := Option.isSome_iff_exists.mp
    (dealBaseXcMap_isSome F draws k board lianType item)
  simp only [announce, Option.bind_some, hlucky, Option.map_some]
  exact ⟨_, rfl, rfl, rfl⟩

end Lucky

section Announce

variable {F : NumFormat} {m : XcMap} {cfg : Option GlConfig} {draws : Draws} {real : Int}
  {k k' : Nat}

theorem lianRate_le {lian : Lian} (h : dealLian4Lian5 cfg real draws k = (some lian, k')) :
    lian.lianRate ≤ real := by
  simp only [dealLian4Lian5] at h
  split at h
  · simp at h
  · simp only [Prod.mk.injEq, Option.filter_eq_some_iff] at h
    have hmem := List.mem_of_getElem? h.1.1
    obtain ⟨⟨key, d⟩, -, hlian⟩ := List.mem_flatMap.mp hmem
    rcases List.mem_append.mp hlian with hlian | hlian
    · split at hlian
      next hin =>
        obtain rfl := List.mem_singleton.mp hlian
        exact (min_le_right _ _).trans hin.1
      next => cases hlian
    · split at hlian
      next hin =>
        obtain rfl := List.mem_singleton.mp hlian
        exact (min_le_right _ _).trans hin.1
      next => cases hlian

theorem lotteryKaijiang_plain (hgl : getGl cfg draws 0 = some (real, k))
    (hlian : dealLian4Lian5 cfg real draws k = (none, k')) :
    lotteryKaijiang F (some m) cfg draws =
      announce F real (getXcMap (some m) real draws k') 0 .lian3 none draws := by
  simp only [lotteryKaijiang, hgl, Option.bind_some, hlian]

theorem lotteryKaijiang_lucky {lian : Lian} {board : Board} {key : Int} {j : Nat}
    (hgl : getGl cfg draws 0 = some (real, k))
    (hlian : dealLian4Lian5 cfg real draws k = (some lian, k'))
    (hget : getXcMap (some m) (wanted real (some lian)) draws k' = (some board, key, j)) :
    lotteryKaijiang F (some m) cfg draws =
      announce F real (some board, key, j) (max 0 (real - key)) lian.lianType
        (some lian.lockyItem) draws := by
  simp only [wanted] at hget
  simp only [lotteryKaijiang, hgl, Option.bind_some, hlian, hget]

theorem honest_plain (hgl : getGl cfg draws 0 = some (real, k))
    (hlian : dealLian4Lian5 cfg real draws k = (none, k')) :
    Honest F m cfg draws real k ↔ real ∈ m.keys := by
  simp only [Honest, hlian, wanted]
  constructor
  · rintro ⟨⟨board, key, j, hget, hnear⟩, r, hr, hreal, hrate⟩
    obtain ⟨r', hr', -, hrate'⟩ := announce_some F draws j real key 0 board
      .lian3 none
    rw [lotteryKaijiang_plain hgl hlian, hget, hr'] at hr
    obtain rfl := Option.some.inj hr
    have : key = real := by omega
    exact this ▸ hnear.mem
  · intro hmem
    have hfind : findKey m real = some real := if_pos hmem
    obtain ⟨board, hget⟩ := getXcMap_some hfind draws k'
    obtain ⟨r, hr, hreal, hrate⟩ := announce_some F draws (k' + 1) real real 0
      board .lian3 none
    refine ⟨⟨board, real, _, hget, .of_mem hmem⟩, r, ?_, hreal, by omega⟩
    rw [lotteryKaijiang_plain hgl hlian, hget, hr]

theorem honest_lucky {lian : Lian} (hgl : getGl cfg draws 0 = some (real, k))
    (hlian : dealLian4Lian5 cfg real draws k = (some lian, k')) :
    Honest F m cfg draws real k ↔ m.Makes real (some lian) := by
  have hle := lianRate_le hlian
  have hwanted : wanted real (some lian) = real - lian.lianRate := by
    simp only [wanted]
    omega
  simp only [Honest, hlian]
  constructor
  · rintro ⟨⟨board, key, j, hget, hnear⟩, r, hr, hreal, hrate⟩
    obtain ⟨r', hr', -, hrate'⟩ := announce_some F draws j real key
      (max 0 (real - key)) board lian.lianType (some lian.lockyItem)
    rw [lotteryKaijiang_lucky hgl hlian hget, hr'] at hr
    obtain rfl := Option.some.inj hr
    have hkey : key ≤ real := by omega
    rw [hwanted] at hget hnear
    obtain ⟨hmem, hreach, hzero⟩ := findKey_bounds (by omega) (findKey_of_getXcMap hget)
    exact ⟨⟨key, hmem, hkey, hreach, fun heq => hzero (by omega)⟩,
      fun i hi hiw => (hnear.le_of_le_self hi hiw).trans hkey⟩
  · rintro ⟨⟨i, hi, hir, hreach, hzero⟩, hall⟩
    obtain ⟨key, hnear⟩ := exists_isNearest m.keys_finite m.keys_nonempty
      (real - lian.lianRate)
    have hkey : key ≤ real := hnear.le_of_le hi hir hall
    have hbounds := XcMap.bounds_of_mem hnear.mem
    have hfind : findKey m (real - lian.lianRate) = some key := by
      refine findKey_nearest (by omega) hnear ?_ fun heq => ?_
      · rcases le_or_gt i (real - lian.lianRate) with hiw | hiw
        · have := hnear.le_of_le_self hi hiw
          omega
        · have := (XcMap.bounds_of_mem hi).2
          omega
      · have := hzero (by omega)
        rcases hnear with hnear | ⟨-, hnear⟩
        · have := hnear.1.2
          simp only [Set.mem_Iic] at this
          omega
        · have := hnear.2 hi
          omega
    obtain ⟨board, hget⟩ := getXcMap_some hfind draws k'
    rw [← hwanted] at hget
    obtain ⟨r, hr, hreal, hrate⟩ := announce_some F draws (k' + 1) real key
      (max 0 (real - key)) board lian.lianType (some lian.lockyItem)
    refine ⟨⟨board, key, _, hget, hwanted ▸ hnear⟩, r, ?_, hreal, by omega⟩
    rw [lotteryKaijiang_lucky hgl hlian hget, hr]

end Announce

/-- What is announced is what is paid just where the boards make up the rate that was
drawn. -/
theorem lotteryKaijiang_honest_iff (F : NumFormat) (m : XcMap) (cfg : Option GlConfig)
    (draws : Draws) :
    (∀ real k, getGl cfg draws 0 = some (real, k) → Honest F m cfg draws real k) ↔
      ∀ real k, getGl cfg draws 0 = some (real, k) →
        m.Makes real (dealLian4Lian5 cfg real draws k).1 := by
  refine forall_congr' fun real => forall_congr' fun k => imp_congr_right fun hgl => ?_
  rcases hlian : dealLian4Lian5 cfg real draws k with ⟨_ | lian, k'⟩
  · exact honest_plain hgl hlian
  · exact honest_lucky hgl hlian

def losingMap : XcMap where
  boards key := if key = 0 then some ["12345123"] else none
  bounded key l h := by
    split at h
    · omega
    · cases h
  filled key l h := by
    split at h
    · obtain rfl := Option.some.inj h
      simp
    · cases h
  someKey := ⟨0, by simp⟩

def halfConfig : GlConfig where
  base := [⟨1, some 5, 1⟩]
  fanjiang no := if no = 1 then some [⟨1, some 5, 1⟩] else none

/-- A rate of 0.5 is drawn and paid, and 0 is announced. -/
theorem halfRate_unannounced :
    ¬ ∀ real k, getGl (some halfConfig) (fun _ => 0) 0 = some (real, k) →
      Honest .exact losingMap (some halfConfig) (fun _ => 0) real k := by
  intro h
  have hgl : getGl (some halfConfig) (fun _ => 0) 0 = some (5, 2) := by decide
  have hlian : dealLian4Lian5 (some halfConfig) 5 (fun _ => 0) 2 = (none, 2) := rfl
  have hmem := (honest_plain hgl hlian).mp (h 5 2 hgl)
  exact absurd hmem (by simp [XcMap.keys, losingMap])

end JyQipai.Xiaoxiaole
