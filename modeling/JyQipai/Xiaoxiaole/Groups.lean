import JyQipai.Xiaoxiaole.Runs

/-!
# Groups are exact

`check_can_xc_by_point` is a flood along rows.  It finds the component of its point, each cell
once, whether it clears or not; so a scan of the board finds the same groups in every order.
-/

namespace JyQipai.Xiaoxiaole.Match

variable {map : MoreInfoMap} {t : Nat} {is_clear : Bool} {vec : List Nat} {p : Point}

/-! ## The search is a flood -/

def noAt (map : MoreInfoMap) (p : Point) : Nat := ((map p).map Item.no).getD 0

theorem erase_cons {cells : List Point} :
    erase map (p :: cells) = setType (erase map cells) p 0 := by
  funext q
  rw [setType, Function.update_apply]
  split_ifs with hq
  · subst hq
    rw [erase, if_pos List.mem_cons_self, erase]
    split_ifs with hmem
    · rw [Option.map_map]
      rfl
    · rfl
  · simp only [erase, List.mem_cons, hq, false_or]

theorem seenMap_no (map : MoreInfoMap) (is_clear : Bool) (cells : List Point) (p : Point) :
    (seenMap map is_clear cells p).map Item.no = (map p).map Item.no := by
  rw [seenMap]
  split_ifs
  · rw [erase]
    split_ifs
    · rw [Option.map_map]
      rfl
    · rfl
  · rfl

def ofTrail (map : MoreInfoMap) (is_clear : Bool) (vec : List Nat) (s : Lib.Trail Point) :
    Check where
  map := seenMap map is_clear s.done
  hash_map := fun p => decide (p ∈ s.seen)
  xc_vec := vec ++ s.seen.map (noAt map)

theorem ofTrail_hash (s : Lib.Trail Point) :
    (ofTrail map is_clear vec s).hash_map p = decide (p ∈ s.seen) := rfl

theorem ofTrail_new (s : Lib.Trail Point) (p : Point) :
    ofTrail map is_clear vec { s with seen := s.seen ++ [p] } =
      { ofTrail map is_clear vec s with
        hash_map := Function.update (ofTrail map is_clear vec s).hash_map p true
        xc_vec := (ofTrail map is_clear vec s).xc_vec ++ [noAt map p] } := by
  simp only [ofTrail, List.map_append, List.map_cons, List.map_nil, List.append_assoc,
    Check.mk.injEq, and_true, true_and]
  funext q
  rw [Function.update_apply]
  split_ifs with hq
  · rw [hq]
    exact decide_eq_true (List.mem_append_right _ (List.mem_singleton_self p))
  · simp only [List.mem_append, List.mem_singleton, hq, or_false]

theorem ofTrail_done (s : Lib.Trail Point) (p : Point) :
    ofTrail map is_clear vec { s with done := p :: s.done } =
      if is_clear then
        { ofTrail map is_clear vec s with
          map := setType (ofTrail map is_clear vec s).map p 0 }
      else ofTrail map is_clear vec s := by
  cases is_clear with
  | false => rfl
  | true => simp only [ofTrail, seenMap, if_true, erase_cons]

theorem checkPoint_ofTrail {check : Point → Check → Option Check}
    {flood : Point → Lib.Trail Point → Option (Lib.Trail Point)}
    (hcheck : ∀ s,
      check p (ofTrail map is_clear vec s) = (flood p s).map (ofTrail map is_clear vec))
    (hp : (map p).isSome) (s : Lib.Trail Point) :
    checkPoint is_clear check (ofTrail map is_clear vec s) p =
      (Lib.visit flood s p).map (ofTrail map is_clear vec) := by
  rw [checkPoint, Lib.visit]
  by_cases hseen : p ∈ s.seen
  · rw [if_pos hseen, ofTrail_hash, if_pos (decide_eq_true hseen), Option.map_some]
  · have hno := seenMap_no map is_clear s.done p
    obtain ⟨it, hit⟩ := Option.isSome_iff_exists.mp hp
    rw [hit, Option.map_some, Option.map_eq_some_iff] at hno
    obtain ⟨it', hit', hno⟩ := hno
    have hat : it'.no = noAt map p := by rw [hno, noAt, hit, Option.map_some, Option.getD_some]
    have hmap : (ofTrail map is_clear vec s).map p = some it' := hit'
    rw [if_neg hseen, ofTrail_hash, decide_eq_false hseen, if_neg Bool.false_ne_true, hmap]
    simp only [Option.bind_eq_bind, Option.bind_some, hat, ← ofTrail_new, hcheck]
    cases flood p { s with seen := s.seen ++ [p] } with
    | none => rfl
    | some s' =>
        simp only [Option.map_some, Option.bind_some, ofTrail_done]
        rfl

theorem foldlM_checkPoint {check : Point → Check → Option Check}
    {flood : Point → Lib.Trail Point → Option (Lib.Trail Point)} {l : List Point}
    (hcheck : ∀ p ∈ l, ∀ s,
      check p (ofTrail map is_clear vec s) = (flood p s).map (ofTrail map is_clear vec))
    (hl : ∀ p ∈ l, (map p).isSome) (s : Lib.Trail Point) :
    l.foldlM (checkPoint is_clear check) (ofTrail map is_clear vec s) =
      (l.foldlM (Lib.visit flood) s).map (ofTrail map is_clear vec) := by
  induction l generalizing s with
  | nil => rfl
  | cons p l ih =>
      rw [List.foldlM_cons, List.foldlM_cons,
        checkPoint_ofTrail (hcheck p List.mem_cons_self) (hl p List.mem_cons_self)]
      cases Lib.visit flood s p with
      | none => rfl
      | some s' =>
          exact ih (fun q hq => hcheck q (List.mem_cons_of_mem p hq))
            (fun q hq => hl q (List.mem_cons_of_mem p hq)) s'

theorem isSome_of_isType (h : isType map t p) : (map p).isSome := by
  rw [isType, Option.any_eq_true] at h
  obtain ⟨it, hit, -⟩ := h
  rw [hit, Option.isSome_some]

theorem checkLine_ofTrail (ht : 0 < t) (fuel : Nat) (d : HighOrWide) (hp : p ∈ visible)
    (s : Lib.Trail Point) :
    checkLine t is_clear fuel d p (ofTrail map is_clear vec s) =
      (Lib.flood (rows map ht is_clear) fuel d p s).map (ofTrail map is_clear vec) := by
  induction fuel generalizing d p s with
  | zero => rfl
  | succ fuel ih =>
      have hcell : ∀ q ∈ xcLine (seenMap map is_clear s.done) t d p,
          q ∈ visible ∧ isType (seenMap map is_clear s.done) t q := by
        intro q hq
        obtain ⟨first, last, hrow, i, hi, hil, rfl⟩ := (mem_xcLine hp).mp hq
        exact hrow.cell hi hil
      rw [checkLine, Lib.flood, rows_run, if_pos hp]
      apply foldlM_checkPoint
      · exact fun q hq s => ih d.turn (hcell q hq).1 s
      · exact fun q hq => isSome_of_isType (isType_seenMap ht (hcell q hq).2)

theorem checkCanXcByPoint_eq (ht : 0 < t) (fuel : Nat) (hp : p ∈ visible) :
    checkCanXcByPoint fuel map p t vec is_clear =
      (Lib.floodBoth (rows map ht is_clear) fuel .one p).map (ofTrail map is_clear vec) := by
  have hstart : ({ map, hash_map := fun _ => false, xc_vec := vec } : Check) =
      ofTrail map is_clear vec ⟨[], []⟩ := by
    simp only [ofTrail, seenMap_nil, List.not_mem_nil, decide_false, List.map_nil, List.append_nil]
  rw [checkCanXcByPoint, hstart, checkLine_ofTrail ht fuel .one hp, Lib.floodBoth]
  cases Lib.flood (rows map ht is_clear) fuel .one p ⟨[], []⟩ with
  | none => rfl
  | some s =>
      simp only [Option.map_some, Option.bind_eq_bind, Option.bind_some]
      by_cases hmem : p ∈ s.seen
      · rw [if_pos hmem, ofTrail_hash, if_pos (decide_eq_true hmem), Option.map_some]
      · rw [if_neg hmem, ofTrail_hash, decide_eq_false hmem, if_neg Bool.false_ne_true]
        exact checkLine_ofTrail ht fuel .two hp s

theorem erase_congr {cells cells' : List Point} (h : ∀ q, q ∈ cells ↔ q ∈ cells') :
    erase map cells = erase map cells' := by
  funext q
  simp only [erase, h]

theorem checkCanXcByPoint_spec (map : MoreInfoMap) (vec : List Nat) (is_clear : Bool) (ht : 0 < t)
    {fuel : Nat} (hfuel : checkFuel ≤ fuel) (hp : p ∈ visible) :
    ∃ s cells, checkCanXcByPoint fuel map p t vec is_clear = some s ∧ cells.Nodup ∧
      (∀ q, q ∈ cells ↔ Component map t p q) ∧ s.xc_vec = vec ++ cells.map (noAt map) ∧
      s.map = if is_clear then erase map cells else map := by
  obtain ⟨s, hs, hnodup, hcells, hdone⟩ := Lib.floodBoth_spec (r := rows map ht is_clear)
    (U := visible.toFinset) (fun d a b hb => List.mem_toFinset.mpr (rows_visible hb))
    (visible_card.trans_le hfuel) .one p
  refine ⟨ofTrail map is_clear vec s, s.seen, ?_, hnodup, fun q => ?_, rfl, ?_⟩
  · rw [checkCanXcByPoint_eq ht fuel hp, hs, Option.map_some]
  · rw [hcells, rows_component]
  · cases is_clear with
    | false => rfl
    | true => exact erase_congr hdone

/-! ## Scans -/

theorem Linked.isType {a b : Point} (h : Linked map t a b) : isType map t a := by
  obtain ⟨d, first, last, hrow, -⟩ := h
  have := (hrow.cell hrow.through.1 hrow.through.2).2
  rwa [HighOrWide.place_coord] at this

theorem Component.isType {a b : Point} (h : Component map t a b) : Match.isType map t a := by
  obtain ⟨c, hlink, -⟩ := Relation.TransGen.head'_iff.mp h
  exact hlink.isType

theorem Component.symm {a b : Point} (ht : 0 < t) (h : Component map t a b) :
    Component map t b a :=
  (rows_component ht true).mp ((rows_component ht true).mpr h).symm

theorem isType_unique {t' : Nat} (h : isType map t p) (h' : isType map t' p) : t = t' := by
  rw [isType, Option.any_eq_true] at h h'
  obtain ⟨it, hit, h⟩ := h
  obtain ⟨it', hit', h'⟩ := h'
  rw [hit, Option.some.injEq] at hit'
  rw [← hit'] at h'
  exact (beq_iff_eq.mp h).symm.trans (beq_iff_eq.mp h')

theorem erase_erase {cells cells' : List Point} :
    erase (erase map cells) cells' = erase map (cells ++ cells') := by
  funext q
  simp only [erase, List.mem_append]
  by_cases hq : q ∈ cells <;> by_cases hq' : q ∈ cells'
  · simp only [hq, hq', if_true, or_self, Option.map_map]
    rfl
  · simp only [hq, hq', if_true, if_false, true_or]
  · simp only [hq, hq', if_true, if_false, or_true]
  · simp only [hq, hq', if_false, or_self]

theorem noAt_erase {cells : List Point} : noAt (erase map cells) = noAt map := by
  funext q
  have := seenMap_no map true cells q
  rw [seenMap, if_pos rfl] at this
  rw [noAt, this, noAt]

def groupOf (map : MoreInfoMap) (round : Nat) (g : Nat × List Point) : Group where
  xc_no_list := g.2.map (noAt map)
  round := round
  type := g.1

def cellsOf (found : List (Nat × List Point)) : List Point := found.flatMap Prod.snd

structure Scanned (map : MoreInfoMap) (round : Nat) (passed : List Point)
    (found : List (Nat × List Point)) (s : MoreInfoMap × List Group) : Prop where
  board : s.1 = erase map (cellsOf found)
  groups : s.2 = found.map (groupOf map round)
  nodup : (cellsOf found).Nodup
  component : ∀ g ∈ found, 0 < g.1 ∧ ∃ p ∈ g.2, ∀ q, q ∈ g.2 ↔ Component map g.1 p q
  all : ∀ p ∈ passed, ∀ t, 0 < t → Component map t p p → p ∈ cellsOf found

variable {round : Nat} {passed : List Point} {found : List (Nat × List Point)}
  {s : MoreInfoMap × List Group}

theorem Scanned.start : Scanned map round [] [] (map, []) where
  board := erase_nil.symm
  groups := rfl
  nodup := List.nodup_nil
  component := fun _ h => absurd h List.not_mem_nil
  all := fun _ h => absurd h List.not_mem_nil

theorem mem_cellsOf : p ∈ cellsOf found ↔ ∃ g ∈ found, p ∈ g.2 := List.mem_flatMap

theorem Scanned.cell (h : Scanned map round passed found s) (hp : p ∈ cellsOf found) :
    ∃ g ∈ found, 0 < g.1 ∧ p ∈ g.2 ∧ ∀ q, q ∈ g.2 ↔ Component map g.1 p q := by
  obtain ⟨g, hg, hpg⟩ := mem_cellsOf.mp hp
  obtain ⟨hpos, a, -, hcomp⟩ := h.component g hg
  have hap : Component map g.1 a p := (hcomp p).mp hpg
  refine ⟨g, hg, hpos, hpg, fun q => (hcomp q).trans ⟨fun hq => ?_, fun hq => ?_⟩⟩
  · exact (hap.symm hpos).trans hq
  · exact hap.trans hq

theorem Scanned.closed (h : Scanned map round passed found s) (ht : 0 < t) :
    (rows map ht true).Closed (cellsOf found) := by
  intro a b ha hlink
  obtain ⟨g, hg, hpos, hag, hcomp⟩ := h.cell ha
  have hab : Component map t a b := (rows_component _ _).mp (.single hlink)
  obtain rfl : t = g.1 := isType_unique hab.isType ((hcomp a).mp hag).isType
  exact mem_cellsOf.mpr ⟨g, hg, (hcomp b).mpr hab⟩

theorem Scanned.component_iff (h : Scanned map round passed found s) (ht : 0 < t)
    (hp : p ∉ cellsOf found) (q : Point) :
    Component (erase map (cellsOf found)) t p q ↔ Component map t p q := by
  have hrun : ∀ d a, (rows (erase map (cellsOf found)) ht true).run [] d a =
      (rows map ht true).run (cellsOf found) d a := by
    intro d a
    rw [rows_run, rows_run, seenMap_nil]
    rfl
  exact (rows_component _ _).symm.trans
    (((h.closed ht).component_iff hrun hp).trans (rows_component _ _))

theorem Scanned.pass (h : Scanned map round passed found s)
    (hp : ∀ t, 0 < t → Component map t p p → p ∈ cellsOf found) :
    Scanned map round (passed ++ [p]) found s := by
  refine ⟨h.board, h.groups, h.nodup, h.component, fun q hq t ht hq' => ?_⟩
  rcases List.mem_append.mp hq with hq | hq
  · exact h.all q hq t ht hq'
  · obtain rfl := List.mem_singleton.mp hq
    exact hp t ht hq'

theorem Scanned.add (h : Scanned map round passed found s) (ht : 0 < t) {cells : List Point}
    (hp : p ∉ cellsOf found) (hself : Component map t p p) (hnodup : cells.Nodup)
    (hcells : ∀ q, q ∈ cells ↔ Component map t p q) :
    Scanned map round (passed ++ [p]) (found ++ [(t, cells)])
      (erase map (cellsOf found ++ cells), s.2 ++ [groupOf map round (t, cells)]) := by
  have hcellsOf : cellsOf (found ++ [(t, cells)]) = cellsOf found ++ cells := by
    rw [cellsOf, List.flatMap_append, List.flatMap_singleton, cellsOf]
  have hout : ∀ q ∈ cellsOf found, q ∉ cells := by
    intro q hq hqc
    have hqp := ((hcells q).mp hqc).symm ht
    exact hp ((h.closed ht).component hq ((rows_component _ _).mpr hqp))
  refine ⟨by rw [hcellsOf], ?_, ?_, fun g hg => ?_, fun q hq t' ht' hq' => ?_⟩
  · rw [h.groups, List.map_append, List.map_singleton]
  · rw [hcellsOf]
    refine List.nodup_append.mpr ⟨h.nodup, hnodup, fun a ha b hb heq => ?_⟩
    exact hout a ha (heq ▸ hb)
  · rcases List.mem_append.mp hg with hg | hg
    · exact h.component g hg
    · obtain rfl := List.mem_singleton.mp hg
      exact ⟨ht, p, (hcells p).mpr hself, hcells⟩
  · rw [hcellsOf]
    rcases List.mem_append.mp hq with hq | hq
    · exact List.mem_append_left _ (h.all q hq t' ht' hq')
    · obtain rfl := List.mem_singleton.mp hq
      exact List.mem_append_right _ ((hcells q).mpr hself)

theorem isType_of_eq {it : Item} (h : map p = some it) : isType map t p = (it.type == t) := by
  rw [isType, h, Option.any_some]

theorem Scanned.step (h : Scanned map round passed found s) (hp : p ∈ visible) :
    ∃ found' s', clearStep round s p = some s' ∧ Scanned map round (passed ++ [p]) found' s' := by
  have hboard := h.board
  rw [clearStep]
  cases hit : s.1 p with
  | none =>
      refine ⟨found, s, rfl, h.pass fun t ht hself => ?_⟩
      have hsome := isSome_of_isType hself.isType
      have hno := seenMap_no map true (cellsOf found) p
      rw [seenMap, if_pos rfl, ← hboard, hit, Option.map_none, eq_comm, Option.map_eq_none_iff]
        at hno
      rw [hno] at hsome
      exact absurd hsome Bool.false_ne_true
  | some it =>
      dsimp only
      by_cases hmem : p ∈ cellsOf found
      · -- a cell of an earlier group was set to 0
        have hzero : it.type = 0 := by
          rw [hboard, erase, if_pos hmem, Option.map_eq_some_iff] at hit
          obtain ⟨it', -, rfl⟩ := hit
          rfl
        rw [hzero, if_neg (Nat.lt_irrefl 0)]
        exact ⟨found, s, rfl, h.pass fun _ _ _ => hmem⟩
      · have hit' : map p = some it := by
          rw [hboard, erase, if_neg hmem] at hit
          exact hit
        split_ifs with ht
        · obtain ⟨found₁, cells, hfound, hnodup, hcells, hvec, hclear⟩ :=
            checkCanXcByPoint_spec s.1 [] true ht le_rfl hp
          have hcells' : ∀ q, q ∈ cells ↔ Component map it.type p q := fun q => by
            rw [hcells, hboard, h.component_iff ht hmem]
          rw [hfound, Option.bind_eq_bind, Option.bind_some, hvec, hclear, if_pos rfl, hboard,
            erase_erase, noAt_erase, List.nil_append]
          cases cells with
          | nil =>
              rw [List.append_nil, ← hboard]
              refine ⟨found, s, if_pos rfl, h.pass fun t' ht' hself => ?_⟩
              obtain rfl : it.type = t' := isType_unique
                ((isType_of_eq hit').trans (beq_self_eq_true _)) hself.isType
              exact absurd ((hcells' p).mpr hself) List.not_mem_nil
          | cons q cells =>
              refine ⟨_, _, if_neg (List.cons_ne_nil _ _), h.add ht hmem ?_ hnodup hcells'⟩
              have hq := (hcells' q).mp List.mem_cons_self
              exact hq.trans (hq.symm ht)
        · refine ⟨found, s, rfl, h.pass fun t' ht' hself => ?_⟩
          obtain rfl : it.type = t' := isType_unique
            ((isType_of_eq hit').trans (beq_self_eq_true _)) hself.isType
          exact absurd ht' ht

theorem Scanned.scan {order : List Point} (h : Scanned map round passed found s)
    (horder : ∀ p ∈ order, p ∈ visible) :
    ∃ found' s', order.foldlM (clearStep round) s = some s' ∧
      Scanned map round (passed ++ order) found' s' := by
  induction order generalizing passed found s with
  | nil => exact ⟨found, s, rfl, by rwa [List.append_nil]⟩
  | cons p order ih =>
      obtain ⟨found₁, s₁, hs₁, h₁⟩ := h.step (horder p List.mem_cons_self)
      obtain ⟨found₂, s₂, hs₂, h₂⟩ := ih h₁ fun q hq => horder q (List.mem_cons_of_mem p hq)
      refine ⟨found₂, s₂, ?_, ?_⟩
      · rw [List.foldlM_cons, hs₁]
        exact hs₂
      · rwa [List.append_assoc, List.singleton_append] at h₂

/-! ## The groups of a board -/

def groupSet (groups : List Group) : Set (Nat × Set Nat) :=
  {g | ∃ group ∈ groups, g = (group.type, {no | no ∈ group.xc_no_list})}

def componentSet (map : MoreInfoMap) : Set (Nat × Set Nat) :=
  {g | ∃ p, 0 < g.1 ∧ Component map g.1 p p ∧
    g.2 = {no | ∃ q, Component map g.1 p q ∧ noAt map q = no}}

theorem Component.visible {a b : Point} (h : Component map t a b) : a ∈ visible := by
  obtain ⟨c, ⟨d, first, last, hrow, -⟩, -⟩ := Relation.TransGen.head'_iff.mp h
  exact hrow.inside

theorem groupOf_numbers {g : Nat × List Point}
    (hcomp : ∀ q, q ∈ g.2 ↔ Component map g.1 p q) :
    {no | no ∈ (groupOf map round g).xc_no_list} =
      {no | ∃ q, Component map g.1 p q ∧ noAt map q = no} := by
  ext no
  simp only [groupOf, List.mem_map, Set.mem_ofPred_eq, hcomp]

theorem Scanned.groupSet_eq (h : Scanned map round passed found s)
    (hpassed : ∀ p ∈ visible, p ∈ passed) : groupSet s.2 = componentSet map := by
  ext g
  constructor
  · rintro ⟨group, hgroup, rfl⟩
    rw [h.groups] at hgroup
    obtain ⟨g, hg, rfl⟩ := List.mem_map.mp hgroup
    obtain ⟨hpos, p, hp, hcomp⟩ := h.component g hg
    exact ⟨p, hpos, (hcomp p).mp hp, groupOf_numbers hcomp⟩
  · rintro ⟨p, hpos, hself, hnos⟩
    obtain ⟨g', hg', -, hpg, hcomp⟩ := h.cell (h.all p (hpassed p hself.visible) _ hpos hself)
    have htype : g.1 = g'.1 := isType_unique hself.isType ((hcomp p).mp hpg).isType
    refine ⟨groupOf map round g', ?_, Prod.ext htype ?_⟩
    · rw [h.groups]
      exact List.mem_map_of_mem hg'
    · rw [groupOf_numbers hcomp, hnos, htype]

theorem Scanned.cells_iff (h : Scanned map round passed found s)
    (hpassed : ∀ p ∈ visible, p ∈ passed) :
    p ∈ cellsOf found ↔ ∃ t, 0 < t ∧ Component map t p p := by
  constructor
  · intro hp
    obtain ⟨g, -, hpos, hpg, hcomp⟩ := h.cell hp
    exact ⟨g.1, hpos, (hcomp p).mp hpg⟩
  · rintro ⟨t, ht, hself⟩
    exact h.all p (hpassed p hself.visible) t ht hself

theorem scan_spec {order : List Point} (horder : order.Perm visible) (map : MoreInfoMap)
    (round : Nat) :
    ∃ found s, order.foldlM (clearStep round) (map, []) = some s ∧
      Scanned map round order found s :=
  Scanned.start.scan fun _ hp => horder.mem_iff.mp hp

/-- What the search finds at a cell is its component, and a scan finds the same groups in every
order. -/
theorem groups_exact (map : MoreInfoMap) :
    (∀ p it vec is_clear fuel, p ∈ visible → map p = some it → 0 < it.type → checkFuel ≤ fuel →
      ∃ s cells, checkCanXcByPoint fuel map p it.type vec is_clear = some s ∧ cells.Nodup ∧
        (∀ q, q ∈ cells ↔ Component map it.type p q) ∧ s.xc_vec = vec ++ cells.map (noAt map) ∧
        s.map = if is_clear then erase map cells else map) ∧
    ∀ (round : Nat) (order order' : List Point), order.Perm visible →
      order'.Perm visible →
      ∃ s s', order.foldlM (clearStep round) (map, []) = some s ∧
        order'.foldlM (clearStep round) (map, []) = some s' ∧
        groupSet s.2 = groupSet s'.2 ∧ groupSet s.2 = componentSet map ∧ s.1 = s'.1 := by
  refine ⟨fun p it vec is_clear fuel hp _ ht hfuel => checkCanXcByPoint_spec _ _ _ ht hfuel hp,
    fun round order order' horder horder' => ?_⟩
  obtain ⟨found, s, hs, h⟩ := scan_spec horder map round
  obtain ⟨found', s', hs', h'⟩ := scan_spec horder' map round
  have hpassed : ∀ p ∈ visible, p ∈ order := fun p hp => horder.mem_iff.mpr hp
  have hpassed' : ∀ p ∈ visible, p ∈ order' := fun p hp => horder'.mem_iff.mpr hp
  refine ⟨s, s', hs, hs', ?_, h.groupSet_eq hpassed, ?_⟩
  · rw [h.groupSet_eq hpassed, h'.groupSet_eq hpassed']
  · rw [h.board, h'.board]
    exact erase_congr fun p => (h.cells_iff hpassed).trans (h'.cells_iff hpassed').symm

/-- A board on which a row and a column of fives cross, and others meet in a corner. -/
def crossedMap : MoreInfoMap := xcMap2MoreInfo
  [[1, 2, 3, 5, 1, 2, 3, 4], [2, 3, 4, 5, 2, 3, 4, 1], [3, 5, 5, 5, 5, 4, 1, 2],
    [4, 1, 2, 5, 4, 1, 2, 3], [1, 2, 3, 4, 1, 2, 3, 4], [2, 3, 4, 1, 2, 3, 5, 1],
    [3, 4, 1, 2, 3, 4, 5, 2], [4, 1, 2, 3, 5, 5, 5, 3]]

/-- From the end of the row the search finds the column that crosses it, and the scan against the
order of the rows finds what the scan in their order finds. -/
theorem groups_exact_crossed :
    (∃ s cells, checkCanXcByPoint checkFuel crossedMap (3, 5) 5 [] true = some s ∧ cells.Nodup ∧
        (∀ q, q ∈ cells ↔ Component crossedMap 5 (3, 5) q) ∧
        s.xc_vec = [] ++ cells.map (noAt crossedMap) ∧ s.map = erase crossedMap cells) ∧
    ∃ s s', visible.foldlM (clearStep 1) (crossedMap, []) = some s ∧
      visible.reverse.foldlM (clearStep 1) (crossedMap, []) = some s' ∧
      groupSet s.2 = groupSet s'.2 ∧ groupSet s.2 = componentSet crossedMap ∧ s.1 = s'.1 :=
  ⟨(groups_exact crossedMap).1 (3, 5) ⟨5, 21, 3, 5⟩ [] true checkFuel (by decide) rfl
      (by decide) le_rfl,
    (groups_exact crossedMap).2 1 visible visible.reverse (List.Perm.refl _)
      (List.reverse_perm _)⟩

end JyQipai.Xiaoxiaole.Match
