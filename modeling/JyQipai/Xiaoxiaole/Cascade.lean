import Mathlib.Data.List.Nodup
import JyQipai.Xiaoxiaole.Rounds

/-!
# The cascade removes every cell at most once

Every round of `get_xcNumMap` that finds a group takes its cells from the board, so a cascade
ends, and its groups share no cell.
-/

namespace JyQipai.Xiaoxiaole.Match

variable {lucky_map : Nat → Option Nat} {high : Nat} {start map map' : MoreInfoMap} {s : Cascade}
  {found : List (Nat × List Point)}

def removedNos (groups : List Group) : List Nat := groups.flatMap Group.xc_no_list

def removedIn (round : Nat) (groups : List Group) : List Nat :=
  removedNos (groups.filter fun g => g.round == round)

def OnBoard (map : MoreInfoMap) (no : Nat) : Prop := ∃ p a, map p = some a ∧ a.no = no

def Standing (map : MoreInfoMap) (no : Nat) : Prop := ∃ p a, map p = some a ∧ a.no = no ∧ stands a

/-- Each column of the second board holds the cells of the first that were neither removed nor 0,
in their order and without a gap. -/
def Collapsed (removed : List Nat) (map map' : MoreInfoMap) : Prop :=
  ∀ y ∈ List.range' 1 wideMax, ∃ cells cells', Column map y cells ∧ Column map' y cells' ∧
    cells'.map Item.no =
      (cells.filter fun it => stands it && decide (it.no ∉ removed)).map Item.no

/-- Each board of a cascade is the collapse of the one before, by the groups of its round. -/
def History (groups : List Group) (boards : List MoreInfoMap) : Prop :=
  ∀ k map map', boards[k]? = some map → boards[k + 1]? = some map' →
    Collapsed (removedIn (k + 1) groups) map map'

/-! ## One round -/

theorem removedNos_groupOf (round : Nat) :
    removedNos (found.map (groupOf map' round)) = (cellsOf found).map (noAt map') := by
  rw [removedNos, List.flatMap_map, cellsOf, List.map_flatMap]
  rfl

def after (high : Nat) (map' : MoreInfoMap) (found : List (Nat × List Point)) : MoreInfoMap :=
  (xcTasuoByMoreInfoMap high (erase map' (cellsOf found))).1

structure Round (lucky_map : Nat → Option Nat) (high round : Nat) (map map' : MoreInfoMap)
    (found : List (Nat × List Point)) : Prop where
  columns : ∃ cells, Columns map cells ∧ ∀ y ∈ List.range' 1 wideMax, (cells y).length ≤ high
  playable : Playable lucky_map map
  turned : Alike (Turned lucky_map) map map'
  scanned : Scanned map' round visible found
    (erase map' (cellsOf found), found.map (groupOf map' round))

theorem standing_turned (hplay : Playable lucky_map map) (hturn : Alike (Turned lucky_map) map map')
    {no : Nat} : Standing map' no ↔ Standing map no := by
  constructor
  · rintro ⟨p, b, hb, rfl, hstands⟩
    obtain ⟨a, ha, hab⟩ := hturn.of_some' hb
    exact ⟨p, a, ha, hab.no.symm, (hplay.stands_turned ha hab).symm.trans hstands⟩
  · rintro ⟨p, a, ha, rfl, hstands⟩
    obtain ⟨b, hb, hab⟩ := hturn.of_some ha
    exact ⟨p, b, hb, hab.no, (hplay.stands_turned ha hab).trans hstands⟩

variable {round : Nat} (h : Round lucky_map high round map map' found)

include h

theorem Round.cell {p : Point} (hp : p ∈ cellsOf found) :
    ∃ a, map' p = some a ∧ stands a := by
  obtain ⟨g, -, hpos, hpg, hcomp⟩ := h.scanned.cell hp
  have htype := ((hcomp p).mp hpg).isType
  rw [isType, Option.any_eq_true] at htype
  obtain ⟨a, ha, htype⟩ := htype
  have hne : a.type ≠ 0 := by
    rw [beq_iff_eq.mp htype]
    exact hpos.ne'
  exact ⟨a, ha, decide_eq_true hne⟩

theorem Round.after_columns :
    ∃ cells cells', Columns map cells ∧ Columns (erase map' (cellsOf found)) cells' ∧
      Columns (after high map' found) (fun y => (cells' y).filter stands) ∧
      ∀ y ∈ List.range' 1 wideMax, (cells' y).length ≤ high ∧
        ((cells' y).filter stands).map Item.no =
          ((cells y).filter fun it =>
            stands it && decide (it.no ∉ (cellsOf found).map (noAt map'))).map Item.no := by
  obtain ⟨cells, hcells, hhigh⟩ := h.columns
  have hleft := left_erase h.playable h.turned (cellsOf found) fun p hp => by
    obtain ⟨a, ha, -⟩ := h.cell hp
    exact ⟨a, ha⟩
  obtain ⟨cells', hcells', hrel⟩ := hcells.alike hleft
  have hlen : ∀ y ∈ List.range' 1 wideMax, (cells' y).length ≤ high := fun y hy =>
    (hrel y hy).length_eq ▸ hhigh y hy
  exact ⟨cells, cells', hcells, hcells', xcTasuo_columns hcells' hlen, fun y hy =>
    ⟨hlen y hy, left_filter (hrel y hy)⟩⟩

theorem Round.collapsed :
    Collapsed ((cellsOf found).map (noAt map')) map (after high map' found) := by
  obtain ⟨cells, cells', hcells, -, hafter, hnos⟩ := h.after_columns
  exact fun y hy => ⟨cells y, (cells' y).filter stands, hcells.column y hy, hafter.column y hy,
    (hnos y hy).2⟩

theorem Round.stood {p : Point} {a : Item} (ha : after high map' found p = some a) :
    stands a ∧ ∃ q, map' q = some a ∧ q ∉ cellsOf found := by
  obtain ⟨cells, cells', -, hcells', hafter, -⟩ := h.after_columns
  obtain ⟨hstands, q, -, hq⟩ := hcells'.stood hafter ha
  rw [erase] at hq
  split_ifs at hq with hmem
  · rw [Option.map_eq_some_iff] at hq
    obtain ⟨b, -, rfl⟩ := hq
    exact absurd hstands Bool.false_ne_true
  · exact ⟨hstands, q, hq, hmem⟩

theorem Round.remains {q : Point} {a : Item} (ha : map' q = some a) (hstands : stands a)
    (hmem : q ∉ cellsOf found) : ∃ p, after high map' found p = some a := by
  obtain ⟨cells, cells', -, hcells', hafter, -⟩ := h.after_columns
  exact hcells'.remains hafter (by rw [erase, if_neg hmem, ha]) hstands

theorem Round.unique : UniqueNos (after high map' found) := by
  obtain ⟨cells, cells', -, hcells', hafter, -⟩ := h.after_columns
  have hunique : UniqueNos map' := (h.playable.turned h.turned).unique
  exact hcells'.unique hafter (UniqueNos.erase hunique (cellsOf found))

theorem Round.onBoard {no : Nat} (hno : OnBoard (after high map' found) no) : OnBoard map no := by
  obtain ⟨p, a, ha, rfl⟩ := hno
  obtain ⟨-, q, hq, -⟩ := h.stood ha
  obtain ⟨b, hb, hab⟩ := h.turned.of_some' hq
  exact ⟨q, b, hb, hab.no.symm⟩

theorem Round.removed {no : Nat} :
    no ∈ (cellsOf found).map (noAt map') ↔
      ∃ q ∈ cellsOf found, ∃ a, map' q = some a ∧ a.no = no := by
  rw [List.mem_map]
  refine exists_congr fun q => and_congr_right fun hq => ?_
  obtain ⟨a, ha, -⟩ := h.cell hq
  rw [noAt, ha, Option.map_some, Option.getD_some]
  simp only [Option.some.injEq, exists_eq_left']

theorem Round.account (no : Nat) :
    no ∈ (cellsOf found).map (noAt map') ∨ Standing (after high map' found) no ↔
      Standing map no := by
  rw [h.removed, ← standing_turned h.playable h.turned]
  constructor
  · rintro (⟨q, hq, a, ha, rfl⟩ | ⟨p, a, ha, rfl, hstands⟩)
    · obtain ⟨b, hb, hstands⟩ := h.cell hq
      obtain rfl := Option.some.inj (ha.symm.trans hb)
      exact ⟨q, a, ha, rfl, hstands⟩
    · obtain ⟨-, q, hq, -⟩ := h.stood ha
      exact ⟨q, a, hq, rfl, hstands⟩
  · rintro ⟨q, a, ha, rfl, hstands⟩
    by_cases hq : q ∈ cellsOf found
    · exact .inl ⟨q, hq, a, ha, rfl⟩
    · obtain ⟨p, hp⟩ := h.remains ha hstands hq
      exact .inr ⟨p, a, hp, rfl, hstands⟩

theorem Round.apart {no : Nat} (hno : no ∈ (cellsOf found).map (noAt map')) :
    ¬ OnBoard (after high map' found) no := by
  rintro ⟨p, a, ha, rfl⟩
  obtain ⟨q, hq, b, hb, hba⟩ := h.removed.mp hno
  obtain ⟨-, q', hq', hout⟩ := h.stood ha
  rw [(h.playable.turned h.turned).unique hb hq' hba] at hq
  exact hout hq

theorem Round.nodup : ((cellsOf found).map (noAt map')).Nodup := by
  refine List.Nodup.map_on (fun p hp q hq heq => ?_) h.scanned.nodup
  obtain ⟨a, ha, -⟩ := h.cell hp
  obtain ⟨b, hb, -⟩ := h.cell hq
  rw [noAt, noAt, ha, hb] at heq
  exact (h.playable.turned h.turned).unique ha hb heq

theorem Round.playable_after
    (hfilled : (xcTasuoByMoreInfoMap high (erase map' (cellsOf found))).2 = true) :
    Playable lucky_map (after high map' found) where
  unique := h.unique
  lucky := by
    intro p a ha htype
    obtain ⟨-, q, hq, -⟩ := h.stood ha
    exact (h.playable.turned h.turned).lucky hq htype
  full := by
    intro p hp
    have hall : visible.all (fun p => (after high map' found p).isSome) = true := hfilled
    obtain ⟨a, ha⟩ := Option.isSome_iff_exists.mp (List.all_eq_true.mp hall p hp)
    exact ⟨a, ha, of_decide_eq_true (h.stood ha).1⟩

omit h

/-! ## The invariant -/

def NoRow (map : MoreInfoMap) : Prop :=
  ∀ (d : HighOrWide) (p : Point) (i : Nat), d.place p i ∈ visible → d.place p (i + 2) ∈ visible →
    ¬ ∃ t, ∀ j < 3, isType map t (d.place p (i + j))

def boards (filled : Bool) (s : Cascade) : List MoreInfoMap :=
  if filled then s.round_map else s.round_map ++ [s.map]

def Short (map : MoreInfoMap) : Prop :=
  ∃ y ∈ List.range' 1 wideMax, ∃ cells, Column map y cells ∧ cells.length < highMax

structure Accounted (start : MoreInfoMap) (groups : List Group) (map : MoreInfoMap)
    (bs : List MoreInfoMap) : Prop where
  first : bs.head? = some start
  nodup : (removedNos groups).Nodup
  history : History groups bs
  account : ∀ no, no ∈ removedNos groups ∨ Standing map no ↔ Standing start no
  apart : ∀ no ∈ removedNos groups, ¬ OnBoard map no
  clean : groups ≠ [] → ∀ p a, map p = some a → stands a

structure Going (lucky_map : Nat → Option Nat) (high : Nat) (start : MoreInfoMap) (s : Cascade) :
    Prop where
  accounted : Accounted start s.xc_num_map s.map (s.round_map ++ [s.map])
  columns : ∃ cells, Columns s.map cells ∧ ∀ y ∈ List.range' 1 wideMax, (cells y).length ≤ high
  playable : Playable lucky_map s.map
  round : s.round = s.round_map.length + 1
  earlier : ∀ g ∈ s.xc_num_map, g.round < s.round
  tall : ∀ map ∈ (s.round_map ++ [s.map]).tail, ¬ Short map

structure Ended (start : MoreInfoMap) (filled : Bool) (s : Cascade) : Prop where
  accounted : Accounted start s.xc_num_map s.map (boards filled s)
  hole : filled = false ↔ ∃ map ∈ (boards filled s).tail, Short map
  noRow : filled = true → NoRow s.map

theorem Going.round_spec (h : Going lucky_map high start s) :
    ∃ map' count found, visible.foldlM (luckyStep lucky_map (no2Xy s.map))
        (s.map, s.lucky_lian_count) = some (map', count) ∧
      visible.foldlM (clearStep s.round) (map', []) =
        some (erase map' (cellsOf found), found.map (groupOf map' s.round)) ∧
      Round lucky_map high s.round s.map map' found := by
  obtain ⟨⟨map', count⟩, hlucky, hturn⟩ := lucky_total h.playable s.lucky_lian_count
  obtain ⟨found, ⟨board, groups⟩, hscan, hscanned⟩ :=
    scan_spec (List.Perm.refl visible) map' s.round
  obtain rfl : board = erase map' (cellsOf found) := hscanned.board
  obtain rfl : groups = found.map (groupOf map' s.round) := hscanned.groups
  exact ⟨map', count, found, hlucky, hscan, h.columns, h.playable, hturn, hscanned⟩

theorem removedNos_append (groups groups' : List Group) :
    removedNos (groups ++ groups') = removedNos groups ++ removedNos groups' :=
  List.flatMap_append

theorem removedIn_of_ne {groups groups' : List Group} {k : Nat} (h : ∀ g ∈ groups', g.round ≠ k) :
    removedIn k (groups ++ groups') = removedIn k groups := by
  have hnone : groups'.filter (fun g => g.round == k) = [] := by
    rw [List.filter_eq_nil_iff]
    exact fun g hg heq => h g hg (beq_iff_eq.mp heq)
  rw [removedIn, List.filter_append, hnone, List.append_nil, removedIn]

theorem removedIn_last {groups groups' : List Group} {k : Nat} (h : ∀ g ∈ groups, g.round ≠ k)
    (h' : ∀ g ∈ groups', g.round = k) :
    removedIn k (groups ++ groups') = removedNos groups' := by
  have hnone : groups.filter (fun g => g.round == k) = [] := by
    rw [List.filter_eq_nil_iff]
    exact fun g hg heq => h g hg (beq_iff_eq.mp heq)
  have hall : groups'.filter (fun g => g.round == k) = groups' := by
    rw [List.filter_eq_self]
    exact fun g hg => beq_iff_eq.mpr (h' g hg)
  rw [removedIn, List.filter_append, hnone, List.nil_append, hall]

theorem History.add {groups groups' : List Group} {before : List MoreInfoMap}
    (h : History groups (before ++ [map])) (hbefore : ∀ g ∈ groups, g.round < before.length + 1)
    (hround : ∀ g ∈ groups', g.round = before.length + 1)
    (hcollapse : Collapsed (removedNos groups') map map') :
    History (groups ++ groups') (before ++ [map] ++ [map']) := by
  intro k m m' hm hm'
  have hlen : (before ++ [map]).length = before.length + 1 := by
    rw [List.length_append, List.length_singleton]
  rcases Nat.lt_trichotomy k before.length with hk | rfl | hk
  · rw [removedIn_of_ne fun g hg => by have := hround g hg; omega]
    rw [List.getElem?_append_left (by omega)] at hm hm'
    exact h k m m' hm hm'
  · rw [removedIn_last (fun g hg => (hbefore g hg).ne) hround]
    rw [List.getElem?_append_left (by omega), List.getElem?_concat_length,
      Option.some.injEq] at hm
    rw [← hlen, List.getElem?_concat_length, Option.some.injEq] at hm'
    rwa [← hm, ← hm']
  · rw [List.getElem?_eq_none (by rw [List.length_append, hlen, List.length_singleton]; omega)]
      at hm'
    cases hm'

theorem short_of_not_filled (h : Round lucky_map high round map map' found)
    (hfilled : (xcTasuoByMoreInfoMap high (erase map' (cellsOf found))).2 = false) :
    Short (after high map' found) := by
  obtain ⟨-, cells', -, -, hafter, -⟩ := h.after_columns
  have hnot := Bool.eq_false_iff.mp hfilled
  rw [Ne, xcTasuo_filled hafter] at hnot
  push Not at hnot
  obtain ⟨y, hy, hlt⟩ := hnot
  exact ⟨y, hy, _, hafter.column y hy, hlt⟩

theorem not_short (h : Playable lucky_map map) : ¬ Short map := by
  rintro ⟨y, hy, cells, hcells, hlt⟩
  obtain ⟨a, ha, -⟩ := h.full (7 + 1, y) (List.pair_mem_product.mpr ⟨by decide, hy⟩)
  rw [hcells, List.getElem?_eq_none (Nat.le_of_lt_succ hlt)] at ha
  cases ha

theorem noRow_of_scanned {s : MoreInfoMap × List Group}
    (h : Scanned map round visible [] s) (hplay : Playable lucky_map map) : NoRow map := by
  rintro d p i hfirst hlast ⟨t, ht⟩
  have hlow := (mem_visible.mp hfirst d).1
  have hhigh := (mem_visible.mp hlast d).2
  rw [HighOrWide.coord_place] at hlow hhigh
  have hmiddle : d.place p (i + 1) ∈ visible := by
    have := visible_place (d := d) (i := i + 1) hfirst (by omega) (by omega)
    rwa [HighOrWide.place_place] at this
  have hline : ∀ j < 3, line map t d (d.place p (i + 1)) (i + j) := fun j hj => by
    rw [line_place]
    exact ht j hj
  have hcoord : d.coord (d.place p (i + 1)) = i + 1 := HighOrWide.coord_place
  obtain ⟨hmax, hthrough⟩ := maximal_measured (show 1 ≤ i + 1 by omega)
    (show i + 1 ≤ d.max by omega) (hline 1 (by omega))
  generalize startP (line map t d (d.place p (i + 1))) (i + 1) = first at *
  generalize endP (line map t d (d.place p (i + 1))) (d.max + 1 - (i + 1)) (i + 1) = last at *
  have hstart : first ≤ i := by
    by_contra hlt
    rcases hmax.before with heq | hfalse
    · omega
    · have := hline 0 (by omega)
      rw [show first - 1 = i + 0 by omega] at hfalse
      rw [hfalse] at this
      cases this
  have hend : i + 2 ≤ last := by
    by_contra hlt
    rcases hmax.after with heq | hfalse
    · omega
    · have := hline 2 (by omega)
      rw [show last + 1 = i + 2 by omega] at hfalse
      rw [hfalse] at this
      cases this
  have hlong : first + xcLimit ≤ last + 1 := by
    have : xcLimit = 3 := rfl
    omega
  have hrow : Row map t d (d.place p (i + 1)) first last :=
    ⟨hmiddle, hmax, hlong, by rw [hcoord]; exact hthrough⟩
  have hself : Component map t (d.place p (i + 1)) (d.place p (i + 1)) :=
    .single ⟨d, first, last, hrow, i + 1, hthrough.1, hthrough.2, HighOrWide.place_place.symm⟩
  have hpos : 0 < t := by
    obtain ⟨a, ha, hne⟩ := hplay.full _ hmiddle
    have htype := hself.isType
    rw [isType_of_eq ha, beq_iff_eq] at htype
    omega
  exact absurd (h.all _ hmiddle t hpos hself) List.not_mem_nil

theorem groupOf_round : ∀ g ∈ found.map (groupOf map' round), g.round = round := by
  intro g hg
  obtain ⟨f, -, rfl⟩ := List.mem_map.mp hg
  rfl

theorem Accounted.add {groups : List Group} {before : List MoreInfoMap}
    (hacc : Accounted start groups map (before ++ [map]))
    (h : Round lucky_map high round map map' found) (hround : round = before.length + 1)
    (hearlier : ∀ g ∈ groups, g.round < round) :
    Accounted start (groups ++ found.map (groupOf map' round)) (after high map' found)
      (before ++ [map] ++ [after high map' found]) where
  first := by
    rw [List.head?_append, hacc.first]
    rfl
  nodup := by
    rw [removedNos_append, removedNos_groupOf]
    refine List.nodup_append.mpr ⟨hacc.nodup, h.nodup, ?_⟩
    rintro no hno _ hno' rfl
    obtain ⟨q, -, b, hb, rfl⟩ := h.removed.mp hno'
    obtain ⟨a, ha, hab⟩ := h.turned.of_some' hb
    exact hacc.apart _ hno ⟨q, a, ha, hab.no.symm⟩
  history := by
    refine hacc.history.add (fun g hg => hround ▸ hearlier g hg)
      (fun g hg => hround ▸ groupOf_round g hg) ?_
    rw [removedNos_groupOf]
    exact h.collapsed
  account no := by
    rw [removedNos_append, List.mem_append, removedNos_groupOf, or_assoc, h.account]
    exact hacc.account no
  apart no hno := by
    rw [removedNos_append, List.mem_append, removedNos_groupOf] at hno
    rcases hno with hno | hno
    · exact fun hon => hacc.apart no hno (h.onBoard hon)
    · exact h.apart hno
  clean := fun _ p a ha => (h.stood ha).1

theorem Accounted.stop {groups : List Group} {bs : List MoreInfoMap}
    (hacc : Accounted start groups map bs) (hplay : Playable lucky_map map)
    (hturn : Alike (Turned lucky_map) map map') : Accounted start groups map' bs where
  first := hacc.first
  nodup := hacc.nodup
  history := hacc.history
  account no := by
    rw [standing_turned hplay hturn]
    exact hacc.account no
  apart no hno := by
    rintro ⟨p, b, hb, rfl⟩
    obtain ⟨a, ha, hab⟩ := hturn.of_some' hb
    exact hacc.apart _ hno ⟨p, a, ha, hab.no.symm⟩
  clean hne p b hb := by
    obtain ⟨a, ha, hab⟩ := hturn.of_some' hb
    exact (hplay.stands_turned ha hab).trans (hacc.clean hne p a ha)

/-! ## Runs -/

theorem tail_concat (before : List MoreInfoMap) (last last' : MoreInfoMap) :
    (before ++ [last] ++ [last']).tail = (before ++ [last]).tail ++ [last'] := by
  cases before <;> rfl

theorem Going.next (h : Going lucky_map high start s)
    (hround : Round lucky_map high s.round s.map map' found)
    (hfilled : (xcTasuoByMoreInfoMap high (erase map' (cellsOf found))).2 = true)
    (count : Nat → Nat) :
    Going lucky_map high start
      { map := after high map' found
        xc_num_map := s.xc_num_map ++ found.map (groupOf map' s.round)
        lucky_lian_count := count
        round := s.round + 1
        round_map := s.round_map ++ [s.map] } where
  accounted := h.accounted.add hround h.round h.earlier
  columns := by
    obtain ⟨_, cells', -, -, hafter, hlen⟩ := hround.after_columns
    exact ⟨_, hafter, fun y hy => (List.length_filter_le _ _).trans (hlen y hy).1⟩
  playable := hround.playable_after hfilled
  round := by rw [h.round, List.length_append, List.length_singleton]
  earlier := by
    intro g hg
    rcases List.mem_append.mp hg with hg | hg
    · exact Nat.lt_succ_of_lt (h.earlier g hg)
    · rw [groupOf_round g hg]
      exact Nat.lt_succ_self s.round
  tall := by
    intro m hm
    rw [tail_concat] at hm
    rcases List.mem_append.mp hm with hm | hm
    · exact h.tall m hm
    · obtain rfl := List.mem_singleton.mp hm
      exact not_short (hround.playable_after hfilled)

theorem Round.removed_pos {g : Nat × List Point}
    (h : Round lucky_map high round map map' (g :: found)) :
    0 < (removedNos ((g :: found).map (groupOf map' round))).length := by
  obtain ⟨-, p, hp, -⟩ := h.scanned.component g List.mem_cons_self
  rw [removedNos_groupOf, List.length_map]
  exact List.length_pos_of_mem (mem_cellsOf.mpr ⟨g, List.mem_cons_self, hp⟩)

theorem cascade_eq {fuel : Nat} {count : Nat → Nat} {board : MoreInfoMap} {groups : List Group}
    (hlucky : visible.foldlM (luckyStep lucky_map (no2Xy s.map)) (s.map, s.lucky_lian_count) =
      some (map', count))
    (hscan : visible.foldlM (clearStep s.round) (map', []) = some (board, groups)) :
    cascade high lucky_map (fuel + 1) s =
      if groups = [] then
        some (true,
          { s with
            map := board
            lucky_lian_count := count
            round_map := s.round_map ++ [s.map] })
      else if (xcTasuoByMoreInfoMap high board).2 then
        cascade high lucky_map fuel
          { map := (xcTasuoByMoreInfoMap high board).1
            xc_num_map := s.xc_num_map ++ groups
            lucky_lian_count := count
            round := s.round + 1
            round_map := s.round_map ++ [s.map] }
      else
        some (false,
          { s with
            map := (xcTasuoByMoreInfoMap high board).1
            xc_num_map := s.xc_num_map ++ groups
            lucky_lian_count := count
            round_map := s.round_map ++ [s.map] }) := by
  rw [cascade, hlucky]
  dsimp only [Option.bind_eq_bind, Option.bind_some]
  rw [hscan]
  rfl

theorem cascade_ends {bound : Nat} (hbound : ∀ no, Standing start no → 1 ≤ no ∧ no ≤ bound)
    {fuel : Nat} (h : Going lucky_map high start s)
    (hfuel : bound < fuel + (removedNos s.xc_num_map).length) :
    ∃ filled s', cascade high lucky_map fuel s = some (filled, s') ∧ Ended start filled s' := by
  induction fuel generalizing s with
  | zero =>
      have hsub : removedNos s.xc_num_map ⊆ List.range' 1 bound := by
        intro no hno
        obtain ⟨hlow, hhigh⟩ := hbound no ((h.accounted.account no).mp (.inl hno))
        exact List.mem_range'_1.mpr ⟨hlow, by omega⟩
      have hlen := (List.subperm_of_subset h.accounted.nodup hsub).length_le
      rw [List.length_range'] at hlen
      omega
  | succ fuel ih =>
      obtain ⟨map', count, found, hlucky, hscan, hround⟩ := h.round_spec
      rw [cascade_eq hlucky hscan]
      cases found with
      | nil =>
          have hmap : erase map' (cellsOf []) = map' := erase_nil
          have hscanned := hround.scanned
          rw [hmap] at hscanned ⊢
          refine ⟨true, _, if_pos rfl, h.accounted.stop h.playable hround.turned, ?_,
            fun _ => noRow_of_scanned hscanned (h.playable.turned hround.turned)⟩
          constructor
          · exact fun hfalse => Bool.noConfusion hfalse
          · rintro ⟨m, hm, hshort⟩
            exact absurd hshort (h.tall m hm)
      | cons g found =>
          have hne : (g :: found).map (groupOf map' s.round) ≠ [] := List.cons_ne_nil _ _
          rw [if_neg hne]
          cases hfilled : (xcTasuoByMoreInfoMap high (erase map' (cellsOf (g :: found)))).2 with
          | false =>
              have hshort := short_of_not_filled hround hfilled
              refine ⟨false, _, if_neg Bool.false_ne_true,
                h.accounted.add hround h.round h.earlier,
                ⟨fun _ => ⟨after high map' (g :: found), ?_, hshort⟩, fun _ => rfl⟩,
                fun hfalse => Bool.noConfusion hfalse⟩
              change _ ∈ (s.round_map ++ [s.map] ++ [after high map' (g :: found)]).tail
              rw [tail_concat]
              exact List.mem_append_right _ (List.mem_singleton_self _)
          | true =>
              rw [if_pos rfl]
              apply ih (h.next hround hfilled count)
              rw [removedNos_append, List.length_append]
              have hpos := hround.removed_pos
              omega

/-! ## Start boards -/

structure Start (lucky_map : Nat → Option Nat) (xc_map : List (List Nat)) : Prop where
  wide : ∀ row ∈ xc_map, row.length = wideMax
  high : highMax ≤ xc_map.length
  full : ∀ row ∈ xc_map.take highMax, 0 ∉ row
  lucky : ∀ p a, xcMap2MoreInfo xc_map p = some a → a.type = luckyType →
    ∃ t, lucky_map a.no = some t ∧ 1 ≤ t ∧ t ≤ 5

variable {xc_map : List (List Nat)}

theorem xcMap2MoreInfo_some {p : Point} {a : Item} (h : xcMap2MoreInfo xc_map p = some a) :
    1 ≤ p.1 ∧ 1 ≤ p.2 ∧ p.2 ≤ wideMax ∧ a.no = (p.1 - 1) * wideMax + p.2 ∧
      ∃ row, xc_map[p.1 - 1]? = some row ∧ row[p.2 - 1]? = some a.type := by
  rw [xcMap2MoreInfo] at h
  split_ifs at h with hin
  rw [Option.map_eq_some_iff] at h
  obtain ⟨t, ht, rfl⟩ := h
  rw [Option.bind_eq_some_iff] at ht
  exact ⟨hin.1, hin.2.1, hin.2.2, rfl, ht⟩

theorem uniqueNos_start : UniqueNos (xcMap2MoreInfo xc_map) := by
  intro p q a b ha hb hno
  obtain ⟨hp, hp', hp'', hano, -⟩ := xcMap2MoreInfo_some ha
  obtain ⟨hq, hq', hq'', hbno, -⟩ := xcMap2MoreInfo_some hb
  rw [hano, hbno] at hno
  simp only [wideMax] at hno hp'' hq''
  exact Prod.ext (by omega) (by omega)

def startColumn (xc_map : List (List Nat)) (y : Nat) : List Item :=
  xc_map.mapIdx fun i row =>
    { type := row.getD (y - 1) 0
      no := i * wideMax + y
      o_x := i + 1
      o_y := y }

theorem Start.columns (h : Start lucky_map xc_map) :
    Columns (xcMap2MoreInfo xc_map) (startColumn xc_map) where
  column := by
    intro y hy i
    rw [List.mem_range'_1] at hy
    have hin : 1 ≤ i + 1 ∧ 1 ≤ y ∧ y ≤ wideMax :=
      ⟨Nat.succ_pos i, hy.1, Nat.le_of_lt_succ hy.2⟩
    rw [xcMap2MoreInfo, if_pos hin, startColumn, List.getElem?_mapIdx, Nat.add_sub_cancel]
    cases hrow : xc_map[i]? with
    | none => rfl
    | some row =>
        have hlen : y - 1 < row.length := by
          rw [h.wide row (List.mem_of_getElem? hrow)]
          omega
        rw [Option.bind_some, List.getElem?_eq_getElem hlen, Option.map_some, Option.map_some,
          List.getD_eq_getElem?_getD, List.getElem?_eq_getElem hlen, Option.getD_some]
  outside := by
    rintro p hp
    rw [xcMap2MoreInfo, if_neg]
    rintro ⟨hx, hy, hle⟩
    rcases hp with hp | hp
    · omega
    · exact hp (List.mem_range'_1.mpr ⟨hy, Nat.lt_succ_of_le hle⟩)

theorem startColumn_length (y : Nat) : (startColumn xc_map y).length = xc_map.length :=
  List.length_mapIdx

theorem Start.playable (h : Start lucky_map xc_map) :
    Playable lucky_map (xcMap2MoreInfo xc_map) where
  unique := uniqueNos_start
  lucky := fun ha htype => h.lucky _ _ ha htype
  full := by
    rintro ⟨x, y⟩ hp
    obtain ⟨hx, hy⟩ := List.pair_mem_product.mp hp
    rw [List.mem_range'_1] at hx
    obtain ⟨i, rfl⟩ := Nat.exists_eq_add_of_le' hx.1
    have hhigh := h.high
    have hi : i < (startColumn xc_map y).length := by
      rw [startColumn_length]
      omega
    have ha : xcMap2MoreInfo xc_map (i + 1, y) = some (startColumn xc_map y)[i] := by
      rw [h.columns.column y hy, List.getElem?_eq_getElem hi]
    refine ⟨_, ha, fun hzero => ?_⟩
    obtain ⟨-, -, -, -, row, hrow, hcell⟩ := xcMap2MoreInfo_some ha
    rw [hzero] at hcell
    refine h.full row ?_ (List.mem_of_getElem? hcell)
    rw [Nat.add_sub_cancel] at hrow
    exact List.mem_of_getElem? ((List.getElem?_take_of_lt (by omega)).trans hrow)

theorem Start.going (h : Start lucky_map xc_map) :
    Going lucky_map xc_map.length (xcMap2MoreInfo xc_map) { map := xcMap2MoreInfo xc_map } where
  accounted :=
    { first := rfl
      nodup := List.nodup_nil
      history := by
        intro k m m' _ hm'
        cases hm'
      account := fun no => by simp [removedNos]
      apart := fun _ h => absurd h List.not_mem_nil
      clean := fun hne => absurd rfl hne }
  columns := ⟨_, h.columns, fun y _ => (startColumn_length y).le⟩
  playable := h.playable
  round := rfl
  earlier := fun _ h => absurd h List.not_mem_nil
  tall := fun _ h => absurd h List.not_mem_nil

theorem standing_start {no : Nat}
    (hno : Standing (xcMap2MoreInfo xc_map) no) : 1 ≤ no ∧ no ≤ xc_map.length * wideMax := by
  obtain ⟨p, a, ha, rfl, -⟩ := hno
  obtain ⟨hx, hy, hle, hano, row, hrow, -⟩ := xcMap2MoreInfo_some ha
  obtain ⟨hlt, -⟩ := List.getElem?_eq_some_iff.mp hrow
  simp only [wideMax] at hano hle ⊢
  omega

theorem cascade_fuel {fuel fuel' : Nat} {r : Bool × Cascade} (hle : fuel ≤ fuel')
    (h : cascade high lucky_map fuel s = some r) : cascade high lucky_map fuel' s = some r := by
  induction fuel generalizing fuel' s with
  | zero => cases h
  | succ fuel ih =>
      obtain ⟨fuel', rfl⟩ := Nat.exists_eq_add_of_le' (Nat.one_le_of_lt hle)
      cases hlucky : visible.foldlM (luckyStep lucky_map (no2Xy s.map))
          (s.map, s.lucky_lian_count) with
      | none =>
          rw [cascade, hlucky] at h
          cases h
      | some turned =>
          cases hscan : visible.foldlM (clearStep s.round) (turned.1, []) with
          | none =>
              rw [cascade, hlucky] at h
              dsimp only [Option.bind_eq_bind, Option.bind_some] at h
              rw [hscan] at h
              cases h
          | some scanned =>
              rw [cascade_eq hlucky hscan] at h ⊢
              split_ifs at h ⊢
              · exact h
              · exact ih (Nat.le_of_succ_le_succ hle) h
              · exact h

/-- A cascade ends, it removes every cell at most once, and it fails only at a hole. -/
theorem cascade_accounted (h : Start lucky_map xc_map) :
    ∃ filled s,
      (∀ fuel ≥ xc_map.length * wideMax + 1, ∀ need_roundMap,
        getXcNumMap fuel xc_map.length (xcMap2MoreInfo xc_map) lucky_map need_roundMap =
          some (if filled then some s.xc_num_map else none, s.lucky_lian_count,
            if need_roundMap then some s.round_map else none)) ∧
      cascade xc_map.length lucky_map (xc_map.length * wideMax + 1)
          { map := xcMap2MoreInfo xc_map } = some (filled, s) ∧
      (boards filled s).head? = some (xcMap2MoreInfo xc_map) ∧
      (removedNos s.xc_num_map).Nodup ∧
      History s.xc_num_map (boards filled s) ∧
      (s.xc_num_map ≠ [] → ∀ no, no ∈ removedNos s.xc_num_map ∨ OnBoard s.map no ↔
        Standing (xcMap2MoreInfo xc_map) no) ∧
      (∀ no ∈ removedNos s.xc_num_map, ¬ OnBoard s.map no) ∧
      (filled = false ↔ ∃ map ∈ (boards filled s).tail, Short map) ∧
      (filled = true → NoRow s.map) := by
  obtain ⟨filled, s, hs, hended⟩ := cascade_ends (fun no hno => standing_start hno) h.going
    (Nat.lt_add_right _ (Nat.lt_succ_self (xc_map.length * wideMax)))
  have hacc := hended.accounted
  refine ⟨filled, s, fun fuel hfuel need_roundMap => ?_, hs, hacc.first, hacc.nodup, hacc.history,
    fun hne no => ?_, hacc.apart, hended.hole, hended.noRow⟩
  · rw [getXcNumMap, cascade_fuel hfuel hs]
    rfl
  · rw [← hacc.account no]
    refine or_congr_right ⟨?_, ?_⟩
    · rintro ⟨p, a, ha, rfl⟩
      exact ⟨p, a, ha, rfl, hacc.clean hne p a ha⟩
    · rintro ⟨p, a, ha, rfl, -⟩
      exact ⟨p, a, ha, rfl⟩

/-- A board of eight rows with a row of three lucky cells -/
theorem cascade_accounted_lucky :
    ∃ (filled : Bool) (s : Cascade),
      (∀ fuel ≥ 65, ∀ need_roundMap,
        getXcNumMap fuel 8 (xcMap2MoreInfo ([6, 6, 6, 1, 2, 3, 4, 5] ::
            List.replicate 7 [1, 2, 3, 4, 5, 1, 2, 3])) (fun _ => some 1) need_roundMap =
          some (if filled then some s.xc_num_map else none, s.lucky_lian_count,
            if need_roundMap then some s.round_map else none)) ∧
      (removedNos s.xc_num_map).Nodup := by
  have hstart : Start (fun _ => some 1) ([6, 6, 6, 1, 2, 3, 4, 5] ::
      List.replicate 7 [1, 2, 3, 4, 5, 1, 2, 3]) :=
    ⟨by decide, by decide, by decide, fun _ _ _ _ => ⟨1, rfl, le_rfl, by decide⟩⟩
  obtain ⟨filled, s, hget, -, -, hnodup, -⟩ := cascade_accounted hstart
  exact ⟨filled, s, hget, hnodup⟩

end JyQipai.Xiaoxiaole.Match
