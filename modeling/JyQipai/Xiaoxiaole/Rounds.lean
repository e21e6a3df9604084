import JyQipai.Xiaoxiaole.Collapse
import JyQipai.Xiaoxiaole.Groups

/-!
# One round of the cascade

The loops of a round never fail on a board that can be played: lucky cells are turned, the
components are removed, and each column keeps the records that still stand.
-/

namespace JyQipai.Xiaoxiaole.Match

variable {lucky_map : Nat → Option Nat} {map map' map'' : MoreInfoMap} {p : Point}

/-! ## Loops that cannot fail -/

theorem foldlM_total {σ α : Type} {f : σ → α → Option σ} {Q : σ → Prop} {l : List α}
    (hf : ∀ s, Q s → ∀ a ∈ l, ∃ s', f s a = some s' ∧ Q s') {s : σ} (hs : Q s) :
    ∃ s', l.foldlM f s = some s' ∧ Q s' := by
  induction l generalizing s with
  | nil => exact ⟨s, rfl, hs⟩
  | cons a l ih =>
      obtain ⟨s₁, hs₁, hQ⟩ := hf s hs a List.mem_cons_self
      rw [List.foldlM_cons, hs₁]
      exact ih (fun s hs b hb => hf s hs b (List.mem_cons_of_mem a hb)) hQ

theorem mapM_total {α β : Type} {f : α → Option β} {l : List α} (hf : ∀ a ∈ l, (f a).isSome) :
    ∃ l', l.mapM f = some l' := by
  induction l with
  | nil => exact ⟨[], rfl⟩
  | cons a l ih =>
      obtain ⟨l', hl'⟩ := ih fun b hb => hf b (List.mem_cons_of_mem a hb)
      obtain ⟨b, hb⟩ := Option.isSome_iff_exists.mp (hf a List.mem_cons_self)
      exact ⟨b :: l', by rw [List.mapM_cons, hb, hl']; rfl⟩

/-! ## Boards with the same records -/

def Alike (R : Item → Item → Prop) (map map' : MoreInfoMap) : Prop :=
  ∀ p, Option.Rel R (map p) (map' p)

variable {R : Item → Item → Prop}

theorem Alike.of_some (h : Alike R map map') {a : Item} (hp : map p = some a) :
    ∃ b, map' p = some b ∧ R a b := by
  have hrel := h p
  rw [hp] at hrel
  cases hrel' : map' p with
  | none =>
      rw [hrel'] at hrel
      cases hrel
  | some b =>
      rw [hrel'] at hrel
      exact ⟨b, rfl, Option.rel_some_some.mp hrel⟩

theorem Alike.of_some' (h : Alike R map map') {b : Item} (hp : map' p = some b) :
    ∃ a, map p = some a ∧ R a b := by
  have hrel := h p
  rw [hp] at hrel
  cases hrel' : map p with
  | none =>
      rw [hrel'] at hrel
      cases hrel
  | some a =>
      rw [hrel'] at hrel
      exact ⟨a, rfl, Option.rel_some_some.mp hrel⟩

theorem Alike.modify {f : Point → Item → Item} (h : Alike R map map')
    (hf : ∀ p a b, map p = some a → map' p = some b → R a b → R a (f p b)) :
    Alike R map fun p => (map' p).map (f p) := by
  intro p
  have hrel := h p
  change Option.Rel R (map p) ((map' p).map (f p))
  cases ha : map p with
  | none =>
      cases hb : map' p with
      | none => exact .none
      | some b =>
          rw [ha, hb] at hrel
          cases hrel
  | some a =>
      obtain ⟨b, hb, hab⟩ := h.of_some ha
      rw [hb]
      exact .some (hf p a b ha hb hab)

theorem Alike.trans (hR : ∀ {a b c}, R a b → R b c → R a c) (h : Alike R map map')
    (h' : Alike R map' map'') : Alike R map map'' := by
  intro p
  have hrel := h p
  have hrel' := h' p
  cases hb : map' p with
  | none =>
      rw [hb] at hrel hrel'
      cases ha : map p with
      | none => rwa [ha] at hrel
      | some a =>
          rw [ha] at hrel
          cases hrel
  | some b =>
      obtain ⟨a, ha, hab⟩ := h.of_some' hb
      obtain ⟨c, hc, hbc⟩ := h'.of_some hb
      rw [ha, hc]
      exact .some (hR hab hbc)

structure Turned (lucky_map : Nat → Option Nat) (a b : Item) : Prop where
  no : b.no = a.no
  type : b.type = a.type ∨ a.type = luckyType ∧ lucky_map a.no = some b.type

theorem Turned.refl (a : Item) : Turned lucky_map a a := ⟨rfl, .inl rfl⟩

theorem Turned.trans {a b c : Item} (h : Turned lucky_map a b) (h' : Turned lucky_map b c) :
    Turned lucky_map a c := by
  refine ⟨h'.no.trans h.no, ?_⟩
  rcases h'.type with heq | ⟨hlucky, hval⟩
  · rw [heq]
    exact h.type
  · rw [h.no] at hval
    rcases h.type with heq' | ⟨hlucky', -⟩
    · exact .inr ⟨heq'.symm.trans hlucky, hval⟩
    · exact .inr ⟨hlucky', hval⟩

theorem alike_refl (h : ∀ a, R a a) : Alike R map map := by
  intro p
  cases map p with
  | none => exact .none
  | some a => exact .some (h a)

/-- The boards that `get_xcNumMap` meets at the start of a round -/
structure Playable (lucky_map : Nat → Option Nat) (map : MoreInfoMap) : Prop where
  unique : UniqueNos map
  lucky : ∀ {p a}, map p = some a → a.type = luckyType →
    ∃ t, lucky_map a.no = some t ∧ 1 ≤ t ∧ t ≤ 5
  full : ∀ p ∈ visible, ∃ a, map p = some a ∧ a.type ≠ 0

theorem Playable.turned (h : Playable lucky_map map) (hturn : Alike (Turned lucky_map) map map') :
    Playable lucky_map map' where
  unique := by
    intro p q b b' hb hb' heq
    obtain ⟨a, ha, hab⟩ := hturn.of_some' hb
    obtain ⟨a', ha', hab'⟩ := hturn.of_some' hb'
    exact h.unique ha ha' (hab.no.symm.trans (heq.trans hab'.no))
  lucky := by
    intro p b hb htype
    obtain ⟨a, ha, hab⟩ := hturn.of_some' hb
    rw [hab.no]
    rcases hab.type with heq | ⟨hlucky, -⟩
    · exact h.lucky ha (heq.symm.trans htype)
    · exact h.lucky ha hlucky
  full := by
    intro p hp
    obtain ⟨a, ha, hzero⟩ := h.full p hp
    obtain ⟨b, hb, hab⟩ := hturn.of_some ha
    refine ⟨b, hb, ?_⟩
    rcases hab.type with heq | ⟨hlucky, hval⟩
    · rwa [heq]
    · obtain ⟨t, ht, hpos, -⟩ := h.lucky ha hlucky
      rw [ht, Option.some.injEq] at hval
      omega

/-! ## The lucky loop -/

theorem Turned.setTypeByNo {no t : Nat} (h : Alike (Turned lucky_map) map map')
    (hlucky : ∀ p a, map p = some a → a.no = no → a.type = luckyType)
    (ht : lucky_map no = some t) : Alike (Turned lucky_map) map (setTypeByNo map' no t) := by
  refine h.modify fun p a b ha _ hab => ?_
  split_ifs with hno
  · have hno' : a.no = no := hab.no.symm.trans hno
    exact ⟨hab.no, .inr ⟨hlucky p a ha hno', hno' ▸ ht⟩⟩
  · exact hab

theorem Playable.turn (h : Playable lucky_map map) {nos : List Nat}
    (hnos : ∀ no ∈ nos, ∃ p a, map p = some a ∧ a.no = no ∧ a.type = luckyType) :
    ∃ map', nos.foldlM (fun map no => (lucky_map no).map (setTypeByNo map no)) map = some map' ∧
      Alike (Turned lucky_map) map map' := by
  refine foldlM_total (Q := Alike (Turned lucky_map) map) (fun m hm no hno => ?_)
    (alike_refl Turned.refl)
  obtain ⟨p, a, ha, rfl, htype⟩ := hnos no hno
  obtain ⟨t, ht, -⟩ := h.lucky ha htype
  refine ⟨_, by rw [ht, Option.map_some], Turned.setTypeByNo hm (fun q b hb heq => ?_) ht⟩
  obtain rfl := h.unique hb ha heq
  rw [ha, Option.some.injEq] at hb
  rwa [← hb]

theorem getLuckyXcCount_total (map : MoreInfoMap) (lucky_lian_count : Nat → Nat)
    {xc_vec : List Nat} {cur_no_2_xy : Nat → Option Point}
    (hvec : ∀ no ∈ xc_vec, (cur_no_2_xy no).isSome) :
    ∃ count, getLuckyXcCountByXcVec lucky_lian_count xc_vec cur_no_2_xy map = some count := by
  obtain ⟨points, hpoints⟩ := mapM_total hvec
  rw [getLuckyXcCountByXcVec, hpoints, Option.bind_eq_bind, Option.bind_some]
  have hstep : ∀ s, True → ∀ p ∈ visible, ∃ s', countStep s p = some s' ∧ True := by
    intro s _ p hp
    rw [countStep]
    cases s.1 p with
    | none => exact ⟨s, rfl, trivial⟩
    | some it =>
        dsimp only
        split_ifs with ht
        · obtain ⟨found, cells, hfound, -⟩ := checkCanXcByPoint_spec s.1 [] true
            ht le_rfl hp
          rw [hfound]
          exact ⟨_, rfl, trivial⟩
        · exact ⟨s, rfl, trivial⟩
  obtain ⟨s, hs, -⟩ := foldlM_total hstep
    (s := (fun p => if p ∈ points then map p else none, lucky_lian_count)) trivial
  refine ⟨s.2, ?_⟩
  dsimp only
  rw [hs]
  rfl

theorem no2Xy_isSome {a : Item} (hp : p ∈ visible) (ha : map p = some a) :
    (no2Xy map a.no).isSome := by
  rw [no2Xy, List.find?_isSome]
  exact ⟨p, hp, by rw [ha, Option.any_some, beq_self_eq_true]⟩

theorem luckyStep_total (h : Playable lucky_map map) {s : MoreInfoMap × (Nat → Nat)}
    (hs : Alike (Turned lucky_map) map s.1) (hp : p ∈ visible) :
    ∃ s', luckyStep lucky_map (no2Xy map) s p = some s' ∧ Alike (Turned lucky_map) map s'.1 := by
  have hplay := h.turned hs
  obtain ⟨it, hit, -⟩ := hplay.full p hp
  rw [luckyStep, hit, Option.bind_eq_bind, Option.bind_some]
  split_ifs with htype
  · obtain ⟨found, cells, hfound, -, hcells, hvec, -⟩ :=
      checkCanXcByPoint_spec (t := luckyType) s.1 [] false (by decide) le_rfl hp
    rw [hfound, Option.bind_eq_bind, Option.bind_some, hvec, List.nil_append]
    split_ifs with hempty
    · exact ⟨s, rfl, hs⟩
    · have hnos : ∀ no ∈ cells.map (noAt s.1),
          ∃ q a, q ∈ visible ∧ s.1 q = some a ∧ a.no = no ∧ a.type = luckyType := by
        intro no hno
        obtain ⟨q, hq, rfl⟩ := List.mem_map.mp hno
        have hself := ((hcells q).mp hq).symm (by decide)
        have htype' := hself.isType
        rw [isType, Option.any_eq_true] at htype'
        obtain ⟨a, ha, htype'⟩ := htype'
        refine ⟨q, a, hself.visible, ha, ?_, beq_iff_eq.mp htype'⟩
        rw [noAt, ha, Option.map_some, Option.getD_some]
      obtain ⟨map', hmap', hturn⟩ := hplay.turn fun no hno => by
        obtain ⟨q, a, -, ha⟩ := hnos no hno
        exact ⟨q, a, ha⟩
      have hsome : ∀ no ∈ cells.map (noAt s.1), (no2Xy map no).isSome := by
        intro no hno
        obtain ⟨q, a, hq, ha, rfl, -⟩ := hnos no hno
        obtain ⟨b, hb, hab⟩ := hs.of_some' ha
        rw [hab.no]
        exact no2Xy_isSome hq hb
      obtain ⟨count, hcount⟩ := getLuckyXcCount_total map' s.2 hsome
      refine ⟨(map', count), ?_, hs.trans Turned.trans hturn⟩
      rw [hmap', Option.bind_eq_bind, Option.bind_some, hcount, Option.bind_eq_bind,
        Option.bind_some]
  · exact ⟨s, rfl, hs⟩

theorem lucky_total (h : Playable lucky_map map) (lucky_lian_count : Nat → Nat) :
    ∃ s, visible.foldlM (luckyStep lucky_map (no2Xy map)) (map, lucky_lian_count) = some s ∧
      Alike (Turned lucky_map) map s.1 :=
  foldlM_total (fun _ hs _ hp => luckyStep_total h hs hp) (alike_refl Turned.refl)

/-! ## What a round does to the columns -/

theorem column_alike {f f' : Nat → Option Item} {cells : List Item}
    (h : ∀ i, Option.Rel R (f i) (f' i)) (hf : ∀ i, f i = cells[i]?) :
    ∃ cells', (∀ i, f' i = cells'[i]?) ∧ List.Forall₂ R cells cells' := by
  induction cells generalizing f f' with
  | nil =>
      refine ⟨[], fun i => ?_, .nil⟩
      have hrel := h i
      rw [hf, List.getElem?_nil] at hrel
      cases hb : f' i with
      | none => rfl
      | some b =>
          rw [hb] at hrel
          cases hrel
  | cons a cells ih =>
      obtain ⟨cells', hcells', hrel⟩ := ih (fun i => h (i + 1)) fun i => hf (i + 1)
      have hfirst := h 0
      rw [hf 0, List.getElem?_cons_zero] at hfirst
      cases hb : f' 0 with
      | none =>
          rw [hb] at hfirst
          cases hfirst
      | some b =>
          rw [hb] at hfirst
          refine ⟨b :: cells', fun i => ?_, .cons (Option.rel_some_some.mp hfirst) hrel⟩
          cases i with
          | zero => exact hb
          | succ i => exact hcells' i

theorem Columns.alike {cells : Nat → List Item} (h : Columns map cells) (hmap : Alike R map map') :
    ∃ cells', Columns map' cells' ∧
      ∀ y ∈ List.range' 1 wideMax, List.Forall₂ R (cells y) (cells' y) := by
  have hcol : ∀ y ∈ List.range' 1 wideMax, ∃ cells', Column map' y cells' ∧
      List.Forall₂ R (cells y) cells' := fun y hy =>
    column_alike (fun i => hmap (i + 1, y)) (h.column y hy)
  choose! cells' hcells' using hcol
  refine ⟨cells', ⟨fun y hy => (hcells' y hy).1, fun p hp => ?_⟩, fun y hy => (hcells' y hy).2⟩
  have hrel := hmap p
  rw [h.outside p hp] at hrel
  cases hb : map' p with
  | none => rfl
  | some b =>
      rw [hb] at hrel
      cases hrel

structure Left (removed : List Nat) (a b : Item) : Prop where
  no : b.no = a.no
  stands : stands b = (stands a && decide (a.no ∉ removed))

theorem left_filter {removed : List Nat} {cells cells' : List Item}
    (h : List.Forall₂ (Left removed) cells cells') :
    (cells'.filter stands).map Item.no =
      (cells.filter fun it => stands it && decide (it.no ∉ removed)).map Item.no := by
  induction h with
  | nil => rfl
  | @cons a b cells cells' hab _ ih =>
      rw [List.filter_cons, List.filter_cons, hab.stands]
      split_ifs
      · rw [List.map_cons, List.map_cons, hab.no, ih]
      · exact ih

theorem UniqueNos.erase (h : UniqueNos map) (cells : List Point) :
    UniqueNos (erase map cells) := by
  have hfrom : ∀ {p a}, Match.erase map cells p = some a → ∃ b, map p = some b ∧ b.no = a.no := by
    intro p a ha
    have hno := seenMap_no map true cells p
    rw [seenMap, if_pos rfl, ha, Option.map_some, eq_comm, Option.map_eq_some_iff] at hno
    exact hno
  intro p q a b ha hb hno
  obtain ⟨a', ha', hano⟩ := hfrom ha
  obtain ⟨b', hb', hbno⟩ := hfrom hb
  exact h ha' hb' (hano.trans (hno.trans hbno.symm))

theorem Playable.stands_turned (h : Playable lucky_map map) {a b : Item} (ha : map p = some a)
    (hab : Turned lucky_map a b) : stands b = stands a := by
  rcases hab.type with heq | ⟨hlucky, hval⟩
  · rw [stands, stands, heq]
  · obtain ⟨t, ht, hpos, -⟩ := h.lucky ha hlucky
    rw [ht, Option.some.injEq] at hval
    have hb : b.type ≠ 0 := by omega
    rw [stands, stands, hlucky, decide_eq_true hb]
    rfl

theorem left_erase (h : Playable lucky_map map)
    (hturn : Alike (Turned lucky_map) map map') (removed : List Point)
    (hremoved : ∀ p ∈ removed, ∃ a, map' p = some a) :
    Alike (Left (removed.map (noAt map'))) map (erase map' removed) := by
  have hplay := h.turned hturn
  intro p
  cases ha : map p with
  | none =>
      have hrel := hturn p
      rw [ha] at hrel
      cases hb : map' p with
      | none =>
          rw [erase, hb, Option.map_none, ite_self]
          exact .none
      | some b =>
          rw [hb] at hrel
          cases hrel
  | some a =>
      obtain ⟨b, hb, hab⟩ := hturn.of_some ha
      have hno : a.no = noAt map' p := by
        rw [noAt, hb, Option.map_some, Option.getD_some, hab.no]
      have hmem : a.no ∈ removed.map (noAt map') ↔ p ∈ removed := by
        constructor
        · intro hin
          obtain ⟨q, hq, heq⟩ := List.mem_map.mp hin
          obtain ⟨c, hc⟩ := hremoved q hq
          have hqno : noAt map' q = c.no := by
            rw [noAt, hc, Option.map_some, Option.getD_some]
          rw [hplay.unique hb hc (hab.no.trans (heq.symm.trans hqno))]
          exact hq
        · intro hin
          rw [hno]
          exact List.mem_map_of_mem hin
      rw [erase, hb]
      split_ifs with hp
      · refine .some ⟨hab.no, ?_⟩
        rw [decide_eq_false (fun h => h (hmem.mpr hp)), Bool.and_false]
        rfl
      · refine .some ⟨hab.no, ?_⟩
        have hnot : a.no ∉ removed.map (noAt map') := fun h => hp (hmem.mp h)
        rw [decide_eq_true hnot, Bool.and_true]
        exact h.stands_turned ha hab

end JyQipai.Xiaoxiaole.Match
