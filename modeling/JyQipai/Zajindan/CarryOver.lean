import JyQipai.Zajindan.Room

/-!
# Eggs carried over

The eggs of a game that were not opened are carried over into the next one.  An unopened group
of a skill becomes one egg again; where no award is its total, the next smaller one does, and an
award of half the total is kept back.  That is the remainder only where half the total is also
the largest award that fits.
-/

namespace JyQipai.Zajindan.Room

open Lib

variable (cfg : Config)

structure Config.Ending : Prop where
  sorted : (cfg.award.map AwardRow.award).Pairwise (· ≥ ·)
  zero : (cfg.award.map AwardRow.award).getLast? = some 0

def worth (eggs : List Egg) : Int := (eggs.map fun e => cfg.awardOf e.id).sum

def keptWorth (kickback : Option Nat) : Int := (kickback.map cfg.awardOf).getD 0

def skills : List AwardType := [.openAll, .skyGirlCastFlower, .bigHammer, .free]

def groupWorth (eggs window : List Egg) (awardType : AwardType) : Int :=
  ((window.find? (isPart awardType)).map (groupTotal cfg eggs)).getD 0

def unopenedWorth (eggs window : List Egg) : Int :=
  worth cfg (window.filter (isPart .normal)) + (skills.map (groupWorth cfg eggs window)).sum

/-- A total, or what is left of it behind the largest award that fits, is an award with an id
above 2. -/
def Fits (total : Int) : Prop :=
  ∃ id ∈ cfg.ids, 2 < id ∧
    (cfg.awardOf id = total ∨
      ∃ most, IsGreatest {a | a ≤ total ∧ ∃ id ∈ cfg.ids, cfg.awardOf id = a} most ∧
        cfg.awardOf id = total - most)

def Groups (P : Int → Prop) (eggs window : List Egg) : Prop :=
  ∀ awardType ∈ skills, ∀ egg, window.find? (isPart awardType) = some egg →
    P (groupTotal cfg eggs egg)

/-- A total is an award, or half of it is an award that is kept back and the largest that fits,
or nothing is kept back and no award is the rest. -/
def Recovered (total : Int) : Prop :=
  (∃ id ∈ cfg.ids, cfg.awardOf id = total) ∨
    (∃ id ∈ cfg.ids, 2 < id ∧ 2 * cfg.awardOf id = total ∧
      ∀ id' ∈ cfg.ids, cfg.awardOf id' ≤ total → cfg.awardOf id' ≤ cfg.awardOf id) ∨
    ((∀ id ∈ cfg.ids, 2 < id → 2 * cfg.awardOf id ≠ total) ∧ ¬ Fits cfg total)

section Table

variable {cfg} {id id' : Nat} {total : Int}

theorem mem_ids : id ∈ cfg.ids ↔ 1 ≤ id ∧ id ≤ cfg.award.length := by
  rw [Config.ids, List.mem_range'_1]
  omega

theorem awardOf_eq (h : id ∈ cfg.ids) :
    ∃ hlt : id - 1 < (cfg.award.map AwardRow.award).length,
      cfg.awardOf id = (cfg.award.map AwardRow.award)[id - 1] := by
  obtain ⟨hpos, hle⟩ := mem_ids.mp h
  have hlt : id - 1 < cfg.award.length := by omega
  refine ⟨by rwa [List.length_map], ?_⟩
  simp [Config.awardOf, List.getElem?_eq_getElem hlt]

theorem Config.Ending.le_of_le (h : cfg.Ending) (hid : id ∈ cfg.ids) (hid' : id' ∈ cfg.ids)
    (hle : id ≤ id') : cfg.awardOf id' ≤ cfg.awardOf id := by
  obtain ⟨hlt, heq⟩ := awardOf_eq hid
  obtain ⟨hlt', heq'⟩ := awardOf_eq hid'
  have hpos := (mem_ids.mp hid).1
  rw [heq, heq']
  rcases eq_or_lt_of_le hle with rfl | hlt''
  · exact le_rfl
  · exact List.pairwise_iff_getElem.mp h.sorted _ _ hlt hlt' (by omega)

theorem Config.Ending.lastId (h : cfg.Ending) :
    cfg.lastId ∈ cfg.ids ∧ cfg.awardOf cfg.lastId = 0 := by
  have hzero := h.zero
  rw [List.getLast?_eq_getElem?, List.length_map] at hzero
  have hlen : 0 < cfg.award.length := by
    by_contra hnot
    rw [List.getElem?_eq_none (by rw [List.length_map]; omega)] at hzero
    cases hzero
  refine ⟨mem_ids.mpr ⟨hlen, le_rfl⟩, ?_⟩
  rw [Config.awardOf, Config.lastId, ← List.getElem?_map, hzero]
  rfl

theorem Config.Ending.nonneg (h : cfg.Ending) (id : Nat) : 0 ≤ cfg.awardOf id := by
  by_cases hid : id - 1 < cfg.award.length
  · have hmem : id - 1 + 1 ∈ cfg.ids := mem_ids.mpr ⟨by omega, by omega⟩
    have hle := h.le_of_le hmem h.lastId.1 (mem_ids.mp hmem).2
    rw [h.lastId.2] at hle
    exact hle
  · rw [Config.awardOf, List.getElem?_eq_none (by omega)]
    exact le_rfl

theorem worth_nonneg (h : cfg.Ending) (eggs : List Egg) : 0 ≤ worth cfg eggs := by
  refine List.sum_nonneg fun a ha => ?_
  obtain ⟨e, -, rfl⟩ := List.mem_map.mp ha
  exact h.nonneg e.id

theorem groupTotal_nonneg (h : cfg.Ending) (eggs : List Egg) (egg : Egg) :
    0 ≤ groupTotal cfg eggs egg := by
  unfold groupTotal
  split
  · exact h.nonneg egg.id
  · exact worth_nonneg h _

theorem fitting_greatest (h : cfg.Ending) (hid : cfg.fitting total = some id) :
    IsGreatest {a | a ≤ total ∧ ∃ id ∈ cfg.ids, cfg.awardOf id = a} (cfg.awardOf id) := by
  obtain ⟨hle, as, bs, hids, hbefore⟩ := List.find?_eq_some_iff_append.mp hid
  have hmem : id ∈ cfg.ids := by simp [hids]
  refine ⟨⟨of_decide_eq_true hle, id, hmem, rfl⟩, ?_⟩
  rintro a ⟨ha, id', hid', rfl⟩
  have hsorted : (as ++ id :: bs).Pairwise (· < ·) := by
    rw [← hids, Config.ids]
    exact List.pairwise_lt_range'
  rw [hids] at hid'
  rcases List.mem_append.mp hid' with hin | hin
  · exact absurd (decide_eq_true ha) (by simpa using hbefore id' hin)
  · refine h.le_of_le hmem (hids ▸ List.mem_append.mpr (.inr hin)) ?_
    rcases List.mem_cons.mp hin with rfl | hin
    · exact le_rfl
    · exact (List.rel_of_pairwise_cons (List.pairwise_append.mp hsorted).2.1 hin).le

theorem fitting_isSome (h : cfg.Ending) (htotal : 0 ≤ total) :
    ∃ id, cfg.fitting total = some id := by
  refine Option.isSome_iff_exists.mp (List.find?_isSome.mpr ⟨cfg.lastId, h.lastId.1, ?_⟩)
  exact decide_eq_true (h.lastId.2.symm ▸ htotal)

end Table

section Round

variable {cfg} {s : Carry} {egg : Egg} {eggs : List Egg} {T : AwardType}

theorem Carry.count_fields (s : Carry) (id : Nat) :
    (s.count cfg id).eggs = s.eggs ∧ (s.count cfg id).old = s.old ∧
      (s.count cfg id).kickback = s.kickback := by
  unfold Carry.count
  split
  · exact ⟨rfl, rfl, rfl⟩
  · split <;> exact ⟨rfl, rfl, rfl⟩

def Carry.balance (cfg : Config) (s : Carry) : Int := worth cfg s.old + keptWorth cfg s.kickback

theorem worth_append (eggs eggs' : List Egg) :
    worth cfg (eggs ++ eggs') = worth cfg eggs + worth cfg eggs' := by
  simp [worth]

theorem worth_cons (egg : Egg) (eggs : List Egg) :
    worth cfg (egg :: eggs) = cfg.awardOf egg.id + worth cfg eggs := by
  simp [worth]

def carriedWorth (cfg : Config) (total : Int) : Int :=
  match cfg.ids.find? fun id => cfg.awardOf id = total with
  | some id => cfg.awardOf id
  | none =>
      match cfg.fitting total with
      | some id => cfg.awardOf id + keptWorth cfg (keepBack cfg none total id)
      | none => 0

theorem keptWorth_half {total : Int} {id : Nat} (hrest : 0 < total - cfg.awardOf id) :
    (∃ kept ∈ cfg.ids, 2 < kept ∧ 2 * cfg.awardOf kept = total ∧
        2 * keptWorth cfg (keepBack cfg none total id) = total) ∨
      ((∀ kept ∈ cfg.ids, 2 < kept → 2 * cfg.awardOf kept ≠ total) ∧
        keptWorth cfg (keepBack cfg none total id) = 0) := by
  unfold keepBack
  rw [if_pos ⟨rfl, hrest⟩]
  cases hfind : cfg.ids.find? fun kept =>
      cfg.awardOf kept = total - cfg.awardOf kept ∧ 2 < kept with
  | none =>
      refine .inr ⟨fun kept hkept hgt hhalf => ?_, rfl⟩
      have hnone := List.find?_eq_none.mp hfind kept hkept
      exact hnone (decide_eq_true ⟨by omega, hgt⟩)
  | some kept =>
      have hkept : cfg.awardOf kept = total - cfg.awardOf kept ∧ 2 < kept := by
        simpa using List.find?_some hfind
      have hhalf : 2 * cfg.awardOf kept = total := by omega
      exact .inl ⟨kept, List.mem_of_find?_eq_some hfind, hkept.2, hhalf, hhalf⟩

theorem carriedWorth_iff (h : cfg.Ending) {total : Int} (htotal : 0 ≤ total) :
    (carriedWorth cfg total ≤ total ∧ (Fits cfg total → carriedWorth cfg total = total)) ↔
      Recovered cfg total := by
  unfold carriedWorth
  cases hexact : cfg.ids.find? fun id => cfg.awardOf id = total with
  | some id =>
      have haward : cfg.awardOf id = total := by simpa using List.find?_some hexact
      exact iff_of_true ⟨haward.le, fun _ => haward⟩
        (.inl ⟨id, List.mem_of_find?_eq_some hexact, haward⟩)
  | none =>
      have hnone : ∀ id ∈ cfg.ids, cfg.awardOf id ≠ total := by
        simpa using List.find?_eq_none.mp hexact
      obtain ⟨id, hfitting⟩ := fitting_isSome h htotal
      have hgreatest := fitting_greatest h hfitting
      obtain ⟨hle, hmem⟩ := hgreatest.1
      have hlt : cfg.awardOf id < total :=
        lt_of_le_of_ne hle (hnone id (List.mem_of_find?_eq_some hfitting))
      have hmost : ∀ id' ∈ cfg.ids, cfg.awardOf id' ≤ total → cfg.awardOf id' ≤ cfg.awardOf id :=
        fun id' hid' hle' => hgreatest.2 ⟨hle', id', hid', rfl⟩
      rw [hfitting]
      dsimp only
      rcases keptWorth_half (show 0 < total - cfg.awardOf id by omega) with
        ⟨kept, hkept, hgt, hhalf, hworth⟩ | ⟨hno, hworth⟩
      · have hfit := hmost kept hkept (by omega)
        constructor
        · rintro ⟨hbound, -⟩
          exact .inr (.inl ⟨kept, hkept, hgt, hhalf, fun id' hid' hle' => by
            have := hmost id' hid' hle'
            omega⟩)
        · rintro (⟨id', hid', haward⟩ | ⟨half, hhalf', -, htwice, hlargest⟩ | ⟨hno, -⟩)
          · exact absurd haward (hnone id' hid')
          · have := hlargest id (List.mem_of_find?_eq_some hfitting) hle
            exact ⟨by omega, fun _ => by omega⟩
          · exact absurd hhalf (hno kept hkept hgt)
      · constructor
        · rintro ⟨-, hfull⟩
          refine .inr (.inr ⟨hno, fun hfits => ?_⟩)
          have := hfull hfits
          omega
        · rintro (⟨id', hid', haward⟩ | ⟨half, hhalf, hgt, htwice, -⟩ | ⟨-, hfits⟩)
          · exact absurd haward (hnone id' hid')
          · exact absurd htwice (hno half hhalf hgt)
          · exact ⟨by omega, fun h => absurd h hfits⟩

theorem Carry.group_cases (h : cfg.Ending) (s : Carry) (egg : Egg) :
    ∃ t id, s.group cfg egg = some t ∧ t.eggs = openGroup egg.awardType s.eggs ∧
      t.old = s.old ++ [{ id := id }] ∧
      (id ∈ cfg.ids ∧ cfg.awardOf id = groupTotal cfg s.eggs egg ∧ t.kickback = s.kickback ∨
        (∀ id' ∈ cfg.ids, cfg.awardOf id' ≠ groupTotal cfg s.eggs egg) ∧
          cfg.fitting (groupTotal cfg s.eggs egg) = some id ∧
          t.kickback = keepBack cfg s.kickback (groupTotal cfg s.eggs egg) id) := by
  let opened : Carry := { s with eggs := openGroup egg.awardType s.eggs }
  cases hexact : cfg.ids.find? fun id => cfg.awardOf id = groupTotal cfg s.eggs egg with
  | some id =>
      obtain ⟨heggs, hold, hkick⟩ := @Carry.count_fields cfg (opened.add { id := id }) id
      refine ⟨(opened.add { id := id }).count cfg id, id, ?_, heggs, hold,
        .inl ⟨List.mem_of_find?_eq_some hexact, by simpa using List.find?_some hexact, hkick⟩⟩
      simp only [Carry.group, hexact, opened]
  | none =>
      obtain ⟨id, hfitting⟩ := fitting_isSome h (groupTotal_nonneg h s.eggs egg)
      have hnone := List.find?_eq_none.mp hexact
      let kept : Carry := { opened.add { id := id } with
        kickback := keepBack cfg s.kickback (groupTotal cfg s.eggs egg) id }
      obtain ⟨heggs, hold, hkick⟩ := @Carry.count_fields cfg kept id
      refine ⟨kept.count cfg id, id, ?_, heggs, hold,
        .inr ⟨fun id' hid' => by simpa using hnone id' hid', hfitting, hkick⟩⟩
      simp only [Carry.group, hexact, hfitting, kept, opened, Carry.add]

theorem Carry.group_spec (h : cfg.Ending) (s : Carry) (egg : Egg) :
    ∃ t, s.group cfg egg = some t ∧ t.eggs = openGroup egg.awardType s.eggs ∧
      t.old.length = s.old.length + 1 ∧
      (s.kickback = none →
        t.balance cfg = s.balance cfg + carriedWorth cfg (groupTotal cfg s.eggs egg)) := by
  obtain ⟨t, id, ht, heggs, hold, hcases⟩ := Carry.group_cases h s egg
  refine ⟨t, ht, heggs, by rw [hold, List.length_append]; rfl, fun hkickback => ?_⟩
  have hbalance : t.balance cfg = s.balance cfg + (cfg.awardOf id + keptWorth cfg t.kickback) := by
    rw [Carry.balance, Carry.balance, hold, hkickback, worth_append, worth_cons]
    simp only [worth, List.map_nil, List.sum_nil, keptWorth, Option.map_none, Option.getD_none]
    omega
  rw [hbalance]
  congr 1
  rcases hcases with ⟨hid, haward, hkick⟩ | ⟨hnone, hfitting, hkick⟩
  · rw [hkick, hkickback, haward, carriedWorth]
    cases hexact : cfg.ids.find? fun id => cfg.awardOf id = groupTotal cfg s.eggs egg with
    | some id' =>
        have haward' : cfg.awardOf id' = groupTotal cfg s.eggs egg := by
          simpa using List.find?_some hexact
        simp [keptWorth, haward']
    | none => exact absurd (decide_eq_true haward) (List.find?_eq_none.mp hexact id hid)
  · have hexact : (cfg.ids.find? fun id => cfg.awardOf id = groupTotal cfg s.eggs egg) = none :=
      List.find?_eq_none.mpr fun id' hid' => by simpa using hnone id' hid'
    rw [carriedWorth, hexact, hfitting, hkick, hkickback]

theorem Carry.round_normal {i : Nat} (hget : s.eggs[i]? = some egg)
    (hgot : egg.isGetAward = false) (hnormal : egg.awardType = .normal) :
    ∃ t, s.round cfg i = some t ∧ t.eggs = s.eggs.set i { egg with isGetAward := true } ∧
      t.old = s.old ++ [egg] ∧ t.kickback = s.kickback := by
  unfold Carry.round
  rw [hget]
  dsimp only
  rw [if_neg (by simp [hgot]), if_pos hnormal]
  exact ⟨_, rfl, (Carry.count_fields _ _).1, (Carry.count_fields _ _).2.1,
    (Carry.count_fields _ _).2.2⟩

def OneSkill (T : AwardType) (eggs : List Egg) : Prop :=
  ∀ e ∈ eggs, e.awardType = .normal ∨ e.awardType = T

theorem OneSkill.openGroup (h : OneSkill T eggs) (awardType : AwardType) :
    OneSkill T (openGroup awardType eggs) := by
  intro e he
  obtain ⟨a, ha, rfl⟩ := List.mem_map.mp he
  split
  · exact h a ha
  · exact h a ha

theorem type_of_isPart {e : Egg} (h : isPart T e = true) : e.awardType = T := by
  simp only [isPart, Bool.and_eq_true, decide_eq_true_eq] at h
  exact h.1

theorem isPart_openGroup (T : AwardType) (e : Egg) :
    isPart T (if isPart T e then { e with isGetAward := true } else e) = false := by
  by_cases h : isPart T e = true
  · rw [if_pos h]
    simp [isPart]
  · rw [if_neg h]
    exact Bool.eq_false_iff.mpr h

theorem filter_openGroup {T' : AwardType} (hT : T ≠ T') (eggs : List Egg) :
    (openGroup T eggs).filter (isPart T') = eggs.filter (isPart T') := by
  induction eggs with
  | nil => rfl
  | cons e eggs ih =>
      rw [openGroup] at ih
      rw [openGroup, List.map_cons, List.filter_cons, List.filter_cons, ih]
      by_cases h : isPart T e = true
      · have htype : e.awardType = T := by
          simp only [isPart, Bool.and_eq_true, decide_eq_true_eq] at h
          exact h.1
        rw [if_pos h]
        simp [isPart, htype, hT]
      · rw [if_neg h]

theorem filter_set {p : Egg → Bool} {i : Nat} {e e' : Egg} (hi : eggs[i]? = some e)
    (he : p e = false) (he' : p e' = false) : (eggs.set i e').filter p = eggs.filter p := by
  induction eggs generalizing i with
  | nil => rfl
  | cons a eggs ih =>
      cases i with
      | zero =>
          obtain rfl : a = e := by simpa using hi
          simp [he, he']
      | succ i =>
          rw [List.set_cons_succ, List.filter_cons, List.filter_cons, ih (by simpa using hi)]

def windowWorth (cfg : Config) (f : Int → Int) (T : AwardType) (eggs window : List Egg) : Int :=
  worth cfg (window.filter (isPart .normal)) +
    ((window.find? (isPart T)).map fun egg => f (groupTotal cfg eggs egg)).getD 0

theorem windowWorth_of_none {window : List Egg} {f : Int → Int}
    (hfind : window.find? (isPart T) = none) :
    windowWorth cfg f T eggs window = worth cfg (window.filter (isPart .normal)) := by
  rw [windowWorth, hfind, Option.map_none, Option.getD_none, add_zero]

theorem windowWorth_normal {f : Int → Int} {eggs' window : List Egg}
    (hnormal : isPart .normal egg = true) (hpart : isPart T egg = false)
    (hgroup : ∀ e, isPart T e = true → groupTotal cfg eggs' e = groupTotal cfg eggs e) :
    windowWorth cfg f T eggs (egg :: window) =
      cfg.awardOf egg.id + windowWorth cfg f T eggs' window := by
  rw [windowWorth, windowWorth, List.find?_cons, hpart, List.filter_cons, if_pos hnormal,
    worth_cons, add_assoc]
  cases hfind : window.find? (isPart T) with
  | none => rfl
  | some e =>
      simp only [Option.map_some, hgroup e (List.find?_some hfind)]

theorem windowWorth_group {f : Int → Int} {window : List Egg} (hT : T ≠ .normal)
    (hpart : isPart T egg = true) :
    windowWorth cfg f T eggs (egg :: window) =
      f (groupTotal cfg eggs egg) +
        windowWorth cfg f T (openGroup T eggs) (openGroup T window) := by
  have hnormal : isPart .normal egg = false := by
    simp [isPart, type_of_isPart hpart, hT]
  have hnone : (openGroup T window).find? (isPart T) = none := by
    refine List.find?_eq_none.mpr fun e he => ?_
    obtain ⟨a, -, rfl⟩ := List.mem_map.mp he
    rw [isPart_openGroup]
    exact Bool.false_ne_true
  rw [windowWorth_of_none hnone, windowWorth, filter_openGroup hT, List.find?_cons, hpart,
    List.filter_cons, hnormal]
  simp only [Option.map_some, Option.getD_some, Bool.false_eq_true, if_false]
  omega

def Carries (cfg : Config) (T : AwardType) (s t : Carry) (window : List Egg) : Prop :=
  (s.kickback = none ∨ window.find? (isPart T) = none) →
    t.balance cfg = s.balance cfg + windowWorth cfg (carriedWorth cfg) T s.eggs window

theorem window_succ (eggs : List Egg) (i m : Nat) : (eggs.drop i).take (m + 1) =
    eggs[i]?.toList ++ (eggs.drop (i + 1)).take m := by
  cases h : eggs[i]? with
  | none =>
      have hlen := List.getElem?_eq_none_iff.mp h
      simp [List.drop_eq_nil_of_le hlen, List.drop_eq_nil_of_le (hlen.trans (Nat.le_succ i))]
  | some e =>
      obtain ⟨hlt, rfl⟩ := List.getElem?_eq_some_iff.mp h
      rw [List.drop_eq_getElem_cons hlt]
      rfl

theorem rounds_spec (h : cfg.Ending) (hT : T ≠ .normal) (m : Nat) : ∀ (i : Nat) (s : Carry),
    OneSkill T s.eggs →
      ∃ t, (List.range' i m).foldlM (Carry.round cfg) s = some t ∧
        t.old.length ≤ s.old.length + m ∧ Carries cfg T s t ((s.eggs.drop i).take m) := by
  induction m with
  | zero =>
      intro i s _
      refine ⟨s, rfl, le_rfl, fun _ => ?_⟩
      simp [windowWorth, worth]
  | succ m ih =>
      intro i s hone
      rw [List.range'_succ, List.foldlM_cons]
      have hskip (hround : s.round cfg i = some s)
          (hwindow : windowWorth cfg (carriedWorth cfg) T s.eggs ((s.eggs.drop i).take (m + 1)) =
            windowWorth cfg (carriedWorth cfg) T s.eggs ((s.eggs.drop (i + 1)).take m))
          (hfind : ((s.eggs.drop i).take (m + 1)).find? (isPart T) =
            ((s.eggs.drop (i + 1)).take m).find? (isPart T)) :
          ∃ t, (s.round cfg i >>= fun s => (List.range' (i + 1) m).foldlM (Carry.round cfg) s) =
              some t ∧ t.old.length ≤ s.old.length + (m + 1) ∧
            Carries cfg T s t ((s.eggs.drop i).take (m + 1)) := by
        obtain ⟨t, ht, hlen, hcarries⟩ := ih (i + 1) s hone
        refine ⟨t, by rw [hround]; exact ht, by omega, ?_⟩
        rw [Carries, hwindow, hfind]
        exact hcarries
      cases hget : s.eggs[i]? with
      | none =>
          refine hskip (by rw [Carry.round, hget]) ?_ ?_ <;> rw [window_succ, hget] <;> rfl
      | some egg =>
          have hwindow : (s.eggs.drop i).take (m + 1) = egg :: (s.eggs.drop (i + 1)).take m := by
            rw [window_succ, hget]
            rfl
          by_cases hgot : egg.isGetAward = true
          · have hnot (ty : AwardType) : isPart ty egg = false := by simp [isPart, hgot]
            refine hskip (by simp only [Carry.round, hget, hgot, if_true]) ?_ ?_
            · simp [hwindow, windowWorth, hnot]
            · simp [hwindow, hnot]
          rw [Bool.not_eq_true] at hgot
          by_cases hnormal : egg.awardType = .normal
          · -- a normal egg is carried over as it is
            obtain ⟨u, hround, heggs, hold, hkick⟩ :=
              @Carry.round_normal cfg _ _ _ hget hgot hnormal
            have hone' : OneSkill T u.eggs := by
              rw [heggs]
              intro e he
              rcases List.mem_or_eq_of_mem_set he with he | rfl
              · exact hone e he
              · exact .inl hnormal
            obtain ⟨t, ht, hlen, hcarries⟩ := ih (i + 1) u hone'
            have hpart (ty : AwardType) (hty : ty ≠ .normal) : isPart ty egg = false := by
              simp [isPart, hnormal, hty.symm]
            have hgroup (e : Egg) (he : isPart T e = true) :
                groupTotal cfg u.eggs e = groupTotal cfg s.eggs e := by
              rw [groupTotal, groupTotal, type_of_isPart he, heggs,
                filter_set hget (hpart T hT) (by simp [isPart])]
            have hdrop : u.eggs.drop (i + 1) = s.eggs.drop (i + 1) := by
              rw [heggs, List.drop_set_of_lt (Nat.lt_succ_self i)]
            rw [hdrop] at hcarries
            refine ⟨t, by rw [hround]; exact ht, ?_, ?_⟩
            · rw [hold, List.length_append] at hlen
              simp only [List.length_singleton] at hlen
              omega
            · intro hkickback
              have hfind : (egg :: (s.eggs.drop (i + 1)).take m).find? (isPart T) =
                  ((s.eggs.drop (i + 1)).take m).find? (isPart T) := by
                rw [List.find?_cons, hpart T hT]
              rw [hwindow, hfind, ← hkick] at hkickback
              rw [hwindow]
              have hrest := hcarries hkickback
              have hworth : windowWorth cfg (carriedWorth cfg) T s.eggs
                  (egg :: (s.eggs.drop (i + 1)).take m) = cfg.awardOf egg.id +
                    windowWorth cfg (carriedWorth cfg) T u.eggs
                      ((s.eggs.drop (i + 1)).take m) :=
                windowWorth_normal (by simp [isPart, hnormal, hgot]) (hpart T hT) hgroup
              have hbalance : u.balance cfg = s.balance cfg + cfg.awardOf egg.id := by
                rw [Carry.balance, Carry.balance, hold, hkick, worth_append, worth_cons]
                simp only [worth, List.map_nil, List.sum_nil]
                omega
              rw [hworth]
              omega
          · -- the first egg of a group
            obtain rfl : egg.awardType = T :=
              (hone egg (List.mem_of_getElem? hget)).resolve_left hnormal
            obtain ⟨u, hround, heggs, hlength, hbalance⟩ := Carry.group_spec h s egg
            have hpart : isPart egg.awardType egg = true := by simp [isPart, hgot]
            obtain ⟨t, ht, hlen, hcarries⟩ := ih (i + 1) u (heggs ▸ hone.openGroup _)
            have hnext : (u.eggs.drop (i + 1)).take m =
                openGroup egg.awardType ((s.eggs.drop (i + 1)).take m) := by
              rw [heggs, openGroup, openGroup, List.map_take, List.map_drop]
            have hround' : s.round cfg i = some u := by
              rw [Carry.round, hget]
              dsimp only
              rw [if_neg (by simp [hgot]), if_neg hnormal, hround]
            refine ⟨t, by rw [hround']; exact ht, by omega, ?_⟩
            rw [hwindow]
            intro hkickback
            have hfind : (egg :: (s.eggs.drop (i + 1)).take m).find? (isPart egg.awardType) =
                some egg := by rw [List.find?_cons, hpart]
            rw [hfind] at hkickback
            have hgroup := hbalance (hkickback.resolve_right nofun)
            have hgone : ((u.eggs.drop (i + 1)).take m).find? (isPart egg.awardType) = none := by
              rw [hnext]
              refine List.find?_eq_none.mpr fun e he => ?_
              obtain ⟨a, -, rfl⟩ := List.mem_map.mp he
              rw [isPart_openGroup]
              exact Bool.false_ne_true
            have hrest := hcarries (.inr hgone)
            rw [hnext, heggs] at hrest
            rw [windowWorth_group hT hpart]
            omega

end Round

section Skills

variable {cfg} {eggs : List Egg} {T : AwardType}

def AllNormal (eggs : List Egg) : Prop := ∀ e ∈ eggs, e.awardType = .normal

theorem AllNormal.oneSkill (h : AllNormal eggs) (T : AwardType) : OneSkill T eggs :=
  fun e he => .inl (h e he)

theorem AllNormal.append (h : AllNormal eggs) (id : Nat) : AllNormal (eggs ++ [{ id := id }]) := by
  intro e he
  rcases List.mem_append.mp he with he | he
  · exact h e he
  · rw [List.mem_singleton.mp he]

theorem OneSkill.append {eggs' : List Egg} (h : OneSkill T eggs) (h' : OneSkill T eggs') :
    OneSkill T (eggs ++ eggs') := by
  intro e he
  rcases List.mem_append.mp he with he | he
  · exact h e he
  · exact h' e he

theorem OneSkill.setPart (h : OneSkill T eggs) (key id : Nat) :
    OneSkill T (setPart eggs key id T) := by
  intro e he
  obtain ⟨j, hj⟩ := List.getElem?_of_mem he
  rw [Room.setPart, List.getElem?_modify] at hj
  obtain ⟨a, ha, rfl⟩ := Option.map_eq_some_iff.mp hj
  split
  · exact .inr rfl
  · exact h a (List.mem_of_getElem? ha)

theorem oneSkill_parts (T : AwardType) (ids : List Nat) : OneSkill T (parts T ids) := by
  intro e he
  obtain ⟨id, -, rfl⟩ := List.mem_map.mp he
  exact .inr rfl

theorem foldlM_invariant {α β : Type} {f : β → α → Option β} {P : β → Prop}
    (l : List α) (hf : ∀ b, ∀ a ∈ l, ∀ c, P b → f b a = some c → P c) (b c : β) (hb : P b)
    (h : l.foldlM f b = some c) : P c := by
  induction l generalizing b with
  | nil =>
      obtain rfl := Option.some.inj h
      exact hb
  | cons a l ih =>
      obtain ⟨d, hd, hl⟩ := Option.bind_eq_some_iff.mp h
      exact ih (fun b a' ha' => hf b a' (List.mem_cons_of_mem _ ha')) d
        (hf b a List.mem_cons_self d hb hd) hl

theorem allNormal_old (h : cfg.Ending) {n : Nat} {kickback : Option Nat} {carry : Carry}
    (hold : getOldRealEgg cfg eggs n kickback = some carry) : AllNormal carry.old := by
  refine foldlM_invariant (P := fun s => AllNormal s.old) _ (fun s i _ t hs ht => ?_) _ _ ?_ hold
  · cases hget : s.eggs[i]? with
    | none =>
        rw [Carry.round, hget] at ht
        obtain rfl := Option.some.inj ht
        exact hs
    | some egg =>
        by_cases hgot : egg.isGetAward = true
        · simp only [Carry.round, hget, hgot, if_true, Option.some.injEq] at ht
          exact ht ▸ hs
        rw [Bool.not_eq_true] at hgot
        by_cases hnormal : egg.awardType = .normal
        · obtain ⟨u, hu, -, heggs, -⟩ := @Carry.round_normal cfg _ _ _ hget hgot hnormal
          obtain rfl := Option.some.inj (hu.symm.trans ht)
          rw [heggs]
          intro e he
          rcases List.mem_append.mp he with he | he
          · exact hs e he
          · rw [List.mem_singleton.mp he]
            exact hnormal
        · obtain ⟨u, id, hu, -, heggs, -⟩ := Carry.group_cases h s egg
          rw [Carry.round, hget] at ht
          dsimp only at ht
          rw [if_neg (by simp [hgot]), if_neg hnormal, hu] at ht
          obtain rfl := Option.some.inj ht
          rw [heggs]
          exact hs.append id
  · exact List.forall_mem_nil _

theorem realEgg_normal (random : ℚ) (b : Build) (hb : AllNormal b.eggs) (keys : List (Nat × ℚ)) :
    Draw.Always (realEgg cfg random b keys) fun b => AllNormal b.eggs := by
  induction keys with
  | nil => exact .pure hb
  | cons row keys ih =>
      rw [realEgg]
      split
      · exact ih
      split
      · split
        · exact .fail
        · exact .pure (hb.append _)
      split
      · exact .any fun r => .pure (hb.append _)
      · exact ih

theorem realEggs_normal (keys : List (Nat × ℚ)) (n : Nat) (b : Build) (hb : AllNormal b.eggs) :
    Draw.Always (realEggs cfg keys n b) fun b => AllNormal b.eggs := by
  induction n generalizing b with
  | zero => exact .pure hb
  | succ n ih =>
      exact .any fun random => .bind (realEgg_normal _ b hb keys) fun b hb => ih b hb

theorem upgradeFrom_normal (hammer : HammerRow) (money : ℚ) (heggs : AllNormal eggs) (n : Nat) :
    Draw.Always (upgradeFrom cfg hammer money eggs n) fun r => AllNormal r.1 := by
  induction n with
  | zero => exact .pure heggs
  | succ n ih =>
      rw [upgradeFrom]
      split
      · exact ih
      next egg hegg =>
        refine .any fun upgrade => ?_
        split
        · refine .pure fun e he => ?_
          rcases List.mem_or_eq_of_mem_set he with he | rfl
          · exact heggs e he
          · exact heggs egg (List.mem_of_getElem? hegg)
        · exact ih

theorem upgradeEggAwards_normal (hammer : HammerRow) (money : ℚ) (heggs : AllNormal eggs) :
    Draw.Always (upgradeEggAwards cfg hammer money eggs) fun r => AllNormal r.1 := by
  rw [upgradeEggAwards]
  split
  · exact .pure heggs
  · exact upgradeFrom_normal hammer money heggs _

theorem tryUpgrade_normal (hammer : HammerRow) (money : ℚ) (heggs : AllNormal eggs) :
    Draw.Always (tryUpgrade cfg hammer money eggs) fun r => AllNormal r.1 := by
  refine .any fun random => ?_
  split
  · exact upgradeEggAwards_normal hammer money heggs
  · exact .pure heggs

theorem openAllBehind_oneSkill (b : Build) (hb : OneSkill .openAll b.eggs) (key : Nat) :
    OneSkill .openAll (openAllBehind cfg b key).eggs := by
  have hfold (l : List Nat) (eggs : List Egg) (heggs : OneSkill .openAll eggs) :
      OneSkill .openAll (l.foldl (fun eggs i =>
        if idAt eggs i = some cfg.lastId then setPart eggs i cfg.lastId .openAll else eggs)
          eggs) := by
    induction l generalizing eggs with
    | nil => exact heggs
    | cons i l ih =>
        refine ih _ ?_
        dsimp only
        split
        · exact heggs.setPart i cfg.lastId
        · exact heggs
  have heggs := hfold (behind key) b.eggs hb
  unfold openAllBehind
  dsimp only
  split
  · exact heggs
  · dsimp only
    split
    · exact heggs.setPart _ _
    · exact heggs

theorem splitEgg_oneSkill (b : Build) (hb : AllNormal b.eggs) (c : Candidate) (ids : List Nat) :
    Draw.Always (splitEgg cfg b c T ids) fun b => OneSkill T b.eggs := by
  cases ids with
  | nil => exact .pure (hb.oneSkill T)
  | cons id ids =>
      rw [splitEgg]
      split
      · exact .fail
      · refine .pure (OneSkill.append (OneSkill.setPart ?_ _ _) (oneSkill_parts T ids))
        split
        next h =>
          subst h
          exact openAllBehind_oneSkill b (hb.oneSkill _) _
        next => exact hb.oneSkill T

theorem createSkill_oneSkill (b : Build) (hb : AllNormal b.eggs) (c : Candidate) :
    Draw.Always (createSkill cfg b c) fun b => ∃ T, OneSkill T b.eggs := by
  unfold createSkill
  split
  · exact .any fun ids => (splitEgg_oneSkill b hb c ids).mono fun b h => ⟨_, h⟩
  · exact .any fun ids => (splitEgg_oneSkill b hb c ids).mono fun b h => ⟨_, h⟩
  · refine .any fun two => .any fun three => ?_
    split
    · exact .pure ⟨.normal, hb.oneSkill _⟩
    split
    · exact .fail
    · refine .pure ⟨.bigHammer, OneSkill.append (OneSkill.append ?_ (oneSkill_parts _ _))
        (oneSkill_parts _ _)⟩
      intro e he
      obtain ⟨j, hj⟩ := List.getElem?_of_mem he
      rw [List.getElem?_modify] at hj
      obtain ⟨a, ha, rfl⟩ := Option.map_eq_some_iff.mp hj
      split
      · exact .inr rfl
      · exact .inl (hb a (List.mem_of_getElem? ha))
  · exact .any fun ids => (splitEgg_oneSkill b hb c ids).mono fun b h => ⟨_, h⟩
  · exact .pure ⟨.normal, hb.oneSkill _⟩

theorem chooseSkill_oneSkill (b : Build) (hb : AllNormal b.eggs) :
    Draw.Always (chooseSkill cfg b) fun b => ∃ T, OneSkill T b.eggs := by
  refine .any fun first => ?_
  dsimp only
  split
  · exact .pure ⟨.normal, hb.oneSkill _⟩
  · refine .any fun group => .any fun c => .any fun random => .any fun skill => ?_
    split
    · exact createSkill_oneSkill b hb c
    · exact .pure ⟨.normal, hb.oneSkill _⟩

theorem ensureAwardNum_oneSkill (heggs : OneSkill T eggs) (id : Nat) (least most : Int) :
    Draw.Always (ensureAwardNum eggs id least most) (OneSkill T) := by
  refine .any fun target => .pure (heggs.append fun e he => ?_)
  rw [(List.mem_replicate.mp he).2]
  exact .inl rfl

theorem showEggs_oneSkill (keys : List (Nat × ℚ)) (n : Nat) (heggs : OneSkill T eggs) :
    Draw.Always (showEggs cfg keys n eggs) (OneSkill T) := by
  induction n generalizing eggs with
  | zero => exact .pure heggs
  | succ n ih =>
      refine .any fun random => .any fun row => ih (heggs.append fun e he => ?_)
      rw [List.mem_singleton.mp he]
      exact .inl rfl

theorem fillEggs_oneSkill (b : Build) (hb : OneSkill T b.eggs) :
    Draw.Always (fillEggs cfg b) (OneSkill T) :=
  .bind (ensureAwardNum_oneSkill hb _ _ _) fun _ heggs =>
    .bind (ensureAwardNum_oneSkill heggs _ _ _) fun _ heggs => showEggs_oneSkill _ _ heggs

theorem countingEggs_oneSkill (hammer : HammerRow) (isChangeEgg : Bool) (carry : Carry)
    (money : ℚ) (hcarry : AllNormal carry.old) :
    Draw.Always (countingEggs cfg hammer isChangeEgg carry money) fun r =>
      ∃ T, OneSkill T r.1.eggs := by
  unfold countingEggs
  dsimp only
  generalize (if isChangeEgg = true then hammer.awardPowerReplaceEgg.getD hammer.awardPower
    else hammer.awardPower) = powers
  by_cases hpowers : powers.length < cfg.award.length
  · rw [if_pos hpowers]
    exact .fail
  rw [if_neg hpowers]
  exact .bind (realEggs_normal _ _ _ hcarry) fun b hb =>
    .bind (tryUpgrade_normal hammer money hb) fun r hr =>
      .bind (chooseSkill_oneSkill { b with eggs := r.1 } hr) fun b hb => .pure hb

theorem initAwardData_oneSkill (h : cfg.Ending) (hammer : HammerRow) (isChangeEgg : Bool)
    (old : List Egg) (money : ℚ) (kickback : Option Nat) :
    Draw.Always (initAwardData cfg hammer isChangeEgg old money kickback) fun init =>
      ∃ T, OneSkill T init.awardData := by
  refine .bind (P := fun carry => AllNormal carry.old) ?_ fun carry hcarry => ?_
  · intro t k r hr
    obtain ⟨carry, hcarry, rfl⟩ := Option.map_eq_some_iff.mp hr
    exact allNormal_old h hcarry
  · refine .bind (countingEggs_oneSkill hammer isChangeEgg carry money hcarry) fun r hr => ?_
    obtain ⟨T, hT⟩ := hr
    exact .bind (fillEggs_oneSkill r.1 hT) fun eggs heggs => .pure ⟨T, heggs⟩

end Skills

section Strikes

variable {cfg} {g : GameData} {eggs : List Egg}

def shape (eggs : List Egg) : List (Nat × AwardType) := eggs.map fun e => (e.id, e.awardType)

theorem OneSkill.congr {T : AwardType} {eggs' : List Egg} (h : OneSkill T eggs)
    (heq : shape eggs' = shape eggs) : OneSkill T eggs' := by
  intro e he
  have hmem : (e.id, e.awardType) ∈ shape eggs := heq ▸ List.mem_map_of_mem he
  obtain ⟨a, ha, haeq⟩ := List.mem_map.mp hmem
  obtain ⟨-, htype⟩ := Prod.mk.inj haeq
  exact htype ▸ h a ha

theorem GameData.shape_takeAward (g : GameData) (i : Nat) :
    shape (g.takeAward i).awardData = shape g.awardData := by
  refine List.ext_getElem? fun j => ?_
  simp only [shape, GameData.takeAward, List.getElem?_map, List.getElem?_modify]
  cases g.awardData[j]? with
  | none => rfl
  | some e =>
      simp only [Option.map_some]
      split <;> rfl

theorem GameData.shape_take (g : GameData) (opened : List Opened) :
    shape (g.take opened).awardData = shape g.awardData := by
  change shape (opened.foldl (fun g o => g.takeAward o.awardIndex) g).awardData = _
  induction opened generalizing g with
  | nil => rfl
  | cons o opened ih => exact (ih _).trans (g.shape_takeAward _)

theorem GameData.awardData_openEggs (g : GameData) (hit : Nat) (status openStatus : Int)
    (opened : List Opened) :
    Draw.Always (GameData.openEggs g hit status openStatus opened) fun g' =>
      g'.awardData = g.awardData := by
  have hfold (l : List Nat) (g : GameData) :
      (l.foldl (fun g i => g.setStatus i (-1)) g).awardData = g.awardData := by
    induction l generalizing g with
    | nil => rfl
    | cons i l ih => exact ih _
  unfold GameData.openEggs
  dsimp only
  split
  · exact .pure (hfold _ g)
  · exact .any fun openStatus => .pure (hfold _ g)

theorem GameData.shape_openStrike (g : GameData) (hit : Nat) (status openStatus : Int)
    (tape : Tape) :
    shape (g.openStrike cfg hit status openStatus tape).2.awardData = shape g.awardData := by
  unfold GameData.openStrike
  cases g.firstAward with
  | none =>
      dsimp only
      split
      · rfl
      next g' k h => exact congrArg shape (g.awardData_openEggs hit status openStatus [] _ _ _ h)
  | some first =>
      obtain ⟨egg, key⟩ := first
      dsimp only
      have hmarked : shape (if egg.awardType = .bigHammer then g.takeAward key else g).awardData =
          shape g.awardData := by
        split
        · exact g.shape_takeAward key
        · rfl
      split
      · exact hmarked
      next opened g' k h =>
        refine Eq.trans ?_ hmarked
        obtain ⟨pairs, -, h⟩ := Option.bind_eq_some_iff.mp h
        obtain ⟨u, hu, h⟩ := Option.bind_eq_some_iff.mp h
        obtain rfl : u.1 = g' := (Prod.mk.inj (Prod.mk.inj (Option.some.inj h)).1).2
        exact (congrArg shape (GameData.awardData_openEggs _ _ _ _ _ _ _ _ hu)).trans
          (GameData.shape_take _ _)

theorem GameData.shape_strike (g : GameData) (eggNo : Nat) (tape : Tape) :
    shape (g.strike cfg eggNo tape).2.awardData = shape g.awardData := by
  unfold GameData.strike
  split
  · rfl
  split
  · rfl
  split
  · rfl
  dsimp only
  split
  · rfl
  split
  · rfl
  · exact GameData.shape_openStrike _ _ _ _ _

end Strikes

/-! ## Runs -/

def struck (g : GameData) (e : Nat × Tape) : GameData := (g.strike cfg e.1 e.2).2

def Striking (g : GameData) (_ : Nat × Tape) : Prop := g.openedEggNum < realRateEggsNum

variable {cfg}

/-- What is carried over is no more than the unopened eggs are worth, and just that where the
groups fit. -/
def CarriedInFull (cfg : Config) (eggs window : List Egg) (carry : Carry) : Prop :=
  carry.balance cfg ≤ unopenedWorth cfg eggs window ∧
    (Groups cfg (Fits cfg) eggs window → carry.balance cfg = unopenedWorth cfg eggs window)

section OneSkill

variable {T : AwardType} {eggs window : List Egg}

theorem OneSkill.find?_other (h : OneSkill T window) {awardType : AwardType}
    (hother : awardType ≠ T) (hnormal : awardType ≠ .normal) :
    window.find? (isPart awardType) = none := by
  refine List.find?_eq_none.mpr fun e he hpart => ?_
  rcases h e he with htype | htype
  · exact hnormal ((type_of_isPart hpart).symm.trans htype)
  · exact hother ((type_of_isPart hpart).symm.trans htype)

theorem mem_skills (hT : T ≠ .normal) : T ∈ skills := by
  cases T with
  | normal => exact absurd rfl hT
  | openAll => simp [skills]
  | skyGirlCastFlower => simp [skills]
  | bigHammer => simp [skills]
  | free => simp [skills]

theorem groups_iff (hT : T ≠ .normal) (h : OneSkill T window) {P : Int → Prop} :
    Groups cfg P eggs window ↔
      ∀ egg, window.find? (isPart T) = some egg → P (groupTotal cfg eggs egg) := by
  refine ⟨fun hgroups => hgroups T (mem_skills hT), fun hgroup awardType hskill egg hegg => ?_⟩
  by_cases hother : awardType = T
  · exact hgroup egg (hother ▸ hegg)
  · have hnormal : awardType ≠ .normal := by
      rintro rfl
      simp [skills] at hskill
    rw [h.find?_other hother hnormal] at hegg
    cases hegg

theorem unopenedWorth_eq (hT : T ≠ .normal) (h : OneSkill T window) :
    unopenedWorth cfg eggs window = windowWorth cfg id T eggs window := by
  have hnone (ty : AwardType) (hty : ty ≠ T) (hnormal : ty ≠ .normal) :
      groupWorth cfg eggs window ty = 0 := by
    rw [groupWorth, h.find?_other hty hnormal]
    rfl
  rw [unopenedWorth]
  change _ = worth cfg _ + groupWorth cfg eggs window T
  congr 1
  cases T with
  | normal => exact absurd rfl hT
  | openAll => simp [skills, hnone]
  | skyGirlCastFlower => simp [skills, hnone]
  | bigHammer => simp [skills, hnone]
  | free => simp [skills, hnone]

end OneSkill

theorem getOldRealEgg_spec (h : cfg.Ending) {T : AwardType} {eggs : List Egg}
    (hone : OneSkill T eggs) (n : Nat) (kickback : Option Nat) :
    ∃ carry, getOldRealEgg cfg eggs n kickback = some carry ∧ carry.old.length ≤ n ∧
      (kickback = none →
        (CarriedInFull cfg eggs (eggs.take n) carry ↔
          Groups cfg (Recovered cfg) eggs (eggs.take n))) := by
  obtain ⟨T', hT', hone'⟩ : ∃ T' : AwardType, T' ≠ .normal ∧ OneSkill T' eggs := by
    by_cases hT : T = .normal
    · exact ⟨.free, nofun, fun e he => .inl ((hone e he).elim id fun h => h.trans hT)⟩
    · exact ⟨T, hT, hone⟩
  obtain ⟨carry, hcarry, hlen, hbalance⟩ := rounds_spec h hT' n 0
    { eggs := eggs
      kickback := kickback } hone'
  rw [← List.range_eq_range'] at hcarry
  refine ⟨carry, hcarry, by simpa using hlen, fun hkickback => ?_⟩
  subst hkickback
  have hwindow : OneSkill T' (eggs.take n) := fun e he => hone' e (List.mem_of_mem_take he)
  have hzero : ({ eggs := eggs, kickback := none } : Carry).balance cfg = 0 := rfl
  have hcarried := hbalance (.inl rfl)
  rw [List.drop_zero, hzero, zero_add] at hcarried
  rw [CarriedInFull, groups_iff hT' hwindow, groups_iff hT' hwindow, hcarried,
    unopenedWorth_eq hT' hwindow]
  cases hfind : (eggs.take n).find? (isPart T') with
  | none =>
      rw [windowWorth_of_none hfind, windowWorth_of_none hfind]
      exact iff_of_true ⟨le_rfl, fun _ => rfl⟩ nofun
  | some egg =>
      have hiff := carriedWorth_iff h (groupTotal_nonneg h eggs egg)
      simpa [windowWorth, hfind] using hiff

/-- However the eggs were made and struck, the unopened ones are carried over, and in full
exactly if the groups are recovered. -/
theorem eggs_carried_over (hcfg : cfg.Ending) {hammer : HammerRow} {isChangeEgg : Bool}
    {old : List Egg} {money : ℚ} {kickback : Option Nat} {tape : Tape} {k : Nat}
    {r : Init × Nat}
    (hinit : initAwardData cfg hammer isChangeEgg old money kickback tape k = some r)
    {g g' : GameData} (hg : g.awardData = r.1.awardData)
    (hrun : Reach (struck cfg) Striking g g') (kept : Option Nat) :
    ∃ carry, getOldRealEgg cfg g'.awardData realRateEggsNum kept = some carry ∧
      carry.old.length ≤ realRateEggsNum ∧
      (kept = none →
        (CarriedInFull cfg g'.awardData (g'.awardData.take realRateEggsNum) carry ↔
          Groups cfg (Recovered cfg) g'.awardData (g'.awardData.take realRateEggsNum))) := by
  obtain ⟨T, hT⟩ := initAwardData_oneSkill hcfg hammer isChangeEgg old money kickback _ _ _ hinit
  have hone : OneSkill T g'.awardData :=
    Reach.invariant (P := fun g => OneSkill T g.awardData) (hg ▸ hT)
      (fun t e ht _ => ht.congr (t.shape_strike e.1 e.2)) hrun
  exact getOldRealEgg_spec hcfg hone realRateEggsNum kept

def freeConfig : Config where
  award := [⟨4, 1⟩, ⟨3, 1⟩, ⟨2, 1⟩, ⟨1, 1⟩, ⟨0, 1⟩]
  hammer := []
  skill := [⟨1, 18, 40⟩, ⟨2, 8, 30⟩, ⟨3, 6, 30⟩, ⟨4, 2, 30⟩]

def freeHammer : HammerRow where
  baseMoney := 100
  replaceMoney := 200
  awardPower := [0, 0, 1, 0, 0]
  replaceEggReturnFactor := 96
  replaceEggUpgradeRate := 0

def zeroTape : Tape := ⟨fun _ => 0, fun _ => 1⟩

def freeEggs : List Egg :=
  [⟨3, false, .normal⟩, ⟨4, false, .free⟩, ⟨3, false, .normal⟩, ⟨3, false, .normal⟩,
    ⟨3, false, .normal⟩, ⟨3, false, .normal⟩, ⟨4, false, .free⟩, ⟨5, false, .normal⟩,
    ⟨5, false, .normal⟩, ⟨5, false, .normal⟩, ⟨5, false, .normal⟩, ⟨1, false, .normal⟩]

def freeGame : GameData where
  baseMoney := 100
  oriReplaceMoney := 200
  replaceMoney := 200
  awardData := freeEggs
  eggsStatus := some (List.replicate 12 0)
  eggsOpenStatus := some (List.replicate 12 1)

theorem initAwardData_free :
    initAwardData freeConfig freeHammer false [] 0 none zeroTape 0 =
      some (⟨freeEggs, 0, none, some ⟨2, 2, 4, 4⟩⟩, 16) := by
  decide +kernel

/-- One egg is opened; four others and the free ones are carried over. -/
theorem eggs_carried_over_free :
    ∃ carry, getOldRealEgg freeConfig (struck freeConfig freeGame (3, zeroTape)).awardData
        realRateEggsNum none = some carry ∧
      carry.old.length ≤ realRateEggsNum ∧ carry.balance freeConfig = 10 := by
  have hcfg : freeConfig.Ending := ⟨by decide, by decide⟩
  have hrun : Reach (struck freeConfig) Striking freeGame
      (struck freeConfig freeGame (3, zeroTape)) := .tail .refl (show 0 < 6 by decide)
  obtain ⟨carry, hcarry, hlen, hfull⟩ :=
    eggs_carried_over hcfg initAwardData_free rfl hrun none
  have hgroups (P : Int → Prop) (htwo : P 2) : Groups freeConfig P
      (struck freeConfig freeGame (3, zeroTape)).awardData
      ((struck freeConfig freeGame (3, zeroTape)).awardData.take realRateEggsNum) := by
    intro awardType hskill egg hegg
    have htotal : groupTotal freeConfig
        (struck freeConfig freeGame (3, zeroTape)).awardData egg = 2 := by
      cases awardType with
      | normal => simp [skills] at hskill
      | free =>
          obtain rfl : ⟨4, false, .free⟩ = egg := Option.some.inj hegg
          decide +kernel
      | openAll => cases hegg
      | skyGirlCastFlower => cases hegg
      | bigHammer => cases hegg
    rwa [htotal]
  have hrecovered := hgroups (Recovered freeConfig) (.inl ⟨3, by decide, by decide⟩)
  have hfits := hgroups (Fits freeConfig) ⟨3, by decide, by decide, .inl rfl⟩
  exact ⟨carry, hcarry, hlen,
    (((hfull rfl).mpr hrecovered).2 hfits).trans (by decide +kernel)⟩

def halfConfig : Config where
  award := [⟨8, 1⟩, ⟨4, 1⟩, ⟨3, 1⟩, ⟨2, 1⟩, ⟨1, 1⟩, ⟨0, 1⟩]
  hammer := []
  skill := [⟨1, 4, 100⟩, ⟨2, 8, 0⟩, ⟨3, 4, 0⟩, ⟨4, 8, 0⟩]

/-- The award 2 kept back from the first egg is opened with the parts of the second, which are
worth 4. -/
def halfEggs : List Egg :=
  [⟨4, false, .normal⟩, ⟨5, false, .openAll⟩, ⟨4, false, .openAll⟩, ⟨2, false, .normal⟩,
    ⟨2, false, .normal⟩, ⟨2, false, .normal⟩, ⟨5, false, .openAll⟩, ⟨6, false, .openAll⟩,
    ⟨6, false, .openAll⟩, ⟨6, false, .openAll⟩, ⟨5, false, .openAll⟩, ⟨5, false, .openAll⟩]

/-- The group of 6 comes to 4 and, as half of it, 3. -/
theorem group_overpaid :
    halfConfig.Ending ∧
      (initAwardData halfConfig { freeHammer with awardPower := [0, 1, 0, 0, 0, 0] } false [] 0
        none ⟨fun _ => 0, fun _ => 2⟩ 0).map (fun r => r.1.awardData) = some halfEggs ∧
      ∃ carry, getOldRealEgg halfConfig halfEggs realRateEggsNum none = some carry ∧
        ¬CarriedInFull halfConfig halfEggs (halfEggs.take realRateEggsNum) carry := by
  refine ⟨⟨by decide, by decide⟩, by decide +kernel,
    ⟨halfEggs.map fun e => { e with isGetAward := true },
      [4, 2, 2, 2, 2].map fun id => { id := id }, 0, 0, some 3⟩, by decide +kernel, fun h => ?_⟩
  have hle := h.1
  revert hle
  decide +kernel

end JyQipai.Zajindan.Room
