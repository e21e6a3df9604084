import JyQipai.Lib.Flood
import JyQipai.Xiaoxiaole.Match

/-!
# The rows of equal cells on a board

The loops of `check_can_xc_by_point` measure the maximal row of equal cells through a point,
unless some of its cells are erased.
-/

namespace JyQipai.Xiaoxiaole.Match

/-! ## The loops -/

/-- A maximal interval of numbers from 1 to `max` that all have a property -/
structure Maximal (p : Nat → Bool) (max first last : Nat) : Prop where
  pos : 1 ≤ first
  le : last ≤ max
  same : ∀ i, first ≤ i → i ≤ last → p i
  before : first = 1 ∨ p (first - 1) = false
  after : last = max ∨ p (last + 1) = false

variable {p p' : Nat → Bool} {max first last first' last' c : Nat}

theorem startP_spec (p : Nat → Bool) (c : Nat) :
    1 ≤ startP p c ∧ startP p c ≤ c + 1 ∧ (∀ i, startP p c ≤ i → i ≤ c → p i) ∧
      (startP p c = 1 ∨ p (startP p c - 1) = false) := by
  induction c with
  | zero =>
      rw [startP]
      exact ⟨le_rfl, le_rfl, fun i h h' => by omega, .inl rfl⟩
  | succ c ih =>
      rw [startP]
      split_ifs with hp
      · obtain ⟨hpos, hle, hsame, hbefore⟩ := ih
        refine ⟨hpos, by omega, fun i hi hic => ?_, hbefore⟩
        rcases Nat.lt_or_ge c i with h | h
        · obtain rfl : i = c + 1 := by omega
          exact hp
        · exact hsame i hi h
      · exact ⟨by omega, by omega, fun i h h' => by omega, .inr (Bool.eq_false_iff.mpr hp)⟩

theorem endP_spec (p : Nat → Bool) (rest c : Nat) (hc : 1 ≤ c) :
    c ≤ endP p rest c + 1 ∧ endP p rest c + 1 ≤ c + rest ∧
      (∀ i, c ≤ i → i ≤ endP p rest c → p i) ∧
      (endP p rest c + 1 = c + rest ∨ p (endP p rest c + 1) = false) := by
  induction rest generalizing c with
  | zero =>
      rw [endP]
      exact ⟨by omega, by omega, fun i h h' => by omega, .inl (by omega)⟩
  | succ rest ih =>
      rw [endP]
      split_ifs with hp
      · obtain ⟨hle, hle', hsame, hafter⟩ := ih (c + 1) (by omega)
        refine ⟨by omega, by omega, fun i hi hie => ?_, hafter.imp_left fun h => by omega⟩
        rcases Nat.lt_or_ge c i with h | h
        · exact hsame i h hie
        · obtain rfl : i = c := by omega
          exact hp
      · refine ⟨by omega, by omega, fun i h h' => by omega, .inr ?_⟩
        rw [Nat.sub_add_cancel hc]
        exact Bool.eq_false_iff.mpr hp

theorem Maximal.eq (h : Maximal p max first last) (h' : Maximal p max first' last')
    (hc : first ≤ c ∧ c ≤ last) (hc' : first' ≤ c ∧ c ≤ last') : first = first' ∧ last = last' := by
  have hlow {f l f' l' : Nat} (h : Maximal p max f l) (h' : Maximal p max f' l')
      (hc : f ≤ c ∧ c ≤ l) (hc' : f' ≤ c ∧ c ≤ l') : f ≤ f' := by
    by_contra hlt
    rcases h.before with hf | hf
    · have := h'.pos
      omega
    · exact absurd (h'.same (f - 1) (by omega) (by omega)) (Bool.eq_false_iff.mp hf)
  have hhigh {f l f' l' : Nat} (h : Maximal p max f l) (h' : Maximal p max f' l')
      (hc : f ≤ c ∧ c ≤ l) (hc' : f' ≤ c ∧ c ≤ l') : l' ≤ l := by
    by_contra hlt
    rcases h.after with hl | hl
    · have := h'.le
      omega
    · exact absurd (h'.same (l + 1) (by omega) (by omega)) (Bool.eq_false_iff.mp hl)
  exact ⟨le_antisymm (hlow h h' hc hc') (hlow h' h hc' hc),
    le_antisymm (hhigh h' h hc' hc) (hhigh h h' hc hc')⟩

theorem maximal_measured (hc : 1 ≤ c) (hmax : c ≤ max) (hp : p c) :
    Maximal p max (startP p c) (endP p (max + 1 - c) c) ∧
      startP p c ≤ c ∧ c ≤ endP p (max + 1 - c) c := by
  obtain ⟨hpos, hle, hsame, hbefore⟩ := startP_spec p c
  obtain ⟨hge, hle', hsame', hafter⟩ := endP_spec p (max + 1 - c) c hc
  have hstart : startP p c ≤ c := by
    rcases hbefore with h | h
    · omega
    · by_contra hlt
      obtain heq : startP p c - 1 = c := by omega
      rw [heq, hp] at h
      exact Bool.noConfusion h
  have hend : c ≤ endP p (max + 1 - c) c := by
    rcases hafter with h | h
    · omega
    · by_contra hlt
      obtain heq : endP p (max + 1 - c) c + 1 = c := by omega
      rw [heq, hp] at h
      exact Bool.noConfusion h
  refine ⟨⟨hpos, by omega, fun i hi hie => ?_, hbefore, hafter.imp_left fun h => by omega⟩,
    hstart, hend⟩
  rcases Nat.lt_or_ge c i with h | h
  · exact hsame' i h.le hie
  · exact hsame i hi h

theorem not_measured (hc : 1 ≤ c) (hp : p c = false) (rest : Nat) :
    endP p rest c + 1 - startP p c = 0 := by
  have hstart : startP p c = c + 1 := by
    obtain ⟨c, rfl⟩ := Nat.exists_eq_add_of_le' hc
    rw [startP, hp, if_neg Bool.false_ne_true]
  have hend : endP p rest c = c - 1 := by
    cases rest with
    | zero => rfl
    | succ rest => rw [endP, hp, if_neg Bool.false_ne_true]
  omega

/-! ## Lines of the board -/

namespace HighOrWide

variable {d : HighOrWide} {a : Point} {i j : Nat}

theorem two_directions (d e : HighOrWide) : e = d ∨ e = d.turn := by
  cases d <;> cases e <;> decide

@[simp] theorem coord_place : d.coord (d.place a i) = i := by cases d <;> rfl

@[simp] theorem place_place : d.place (d.place a i) j = d.place a j := by cases d <;> rfl

@[simp] theorem place_coord : d.place a (d.coord a) = a := by cases d <;> rfl

@[simp] theorem turn_coord_place : d.turn.coord (d.place a i) = d.turn.coord a := by
  cases d <;> rfl

@[simp] theorem max_eq : d.max = 8 := by cases d <;> rfl

end HighOrWide

theorem mem_visible {a : Point} :
    a ∈ visible ↔ ∀ d : HighOrWide, 1 ≤ d.coord a ∧ d.coord a ≤ d.max := by
  rw [visible, List.pair_mem_product, List.mem_range'_1, List.mem_range'_1]
  constructor
  · rintro ⟨hx, hy⟩ (_ | _)
    · exact ⟨hx.1, Nat.lt_succ_iff.mp hx.2⟩
    · exact ⟨hy.1, Nat.lt_succ_iff.mp hy.2⟩
  · intro h
    exact ⟨⟨(h .one).1, Nat.lt_succ_iff.mpr (h .one).2⟩,
      ⟨(h .two).1, Nat.lt_succ_iff.mpr (h .two).2⟩⟩

theorem visible_place {d : HighOrWide} {a : Point} {i : Nat} (ha : a ∈ visible) (hi : 1 ≤ i)
    (hmax : i ≤ d.max) : d.place a i ∈ visible := by
  rw [mem_visible] at ha ⊢
  intro e
  rcases d.two_directions e with rfl | rfl
  · rw [HighOrWide.coord_place]
    exact ⟨hi, hmax⟩
  · rw [HighOrWide.turn_coord_place]
    exact ha d.turn

theorem visible_card : visible.toFinset.card < checkFuel := by
  decide

/-! ## Rows -/

section

variable {map : MoreInfoMap} {t : Nat} {d : HighOrWide} {a b : Point}

def line (map : MoreInfoMap) (t : Nat) (d : HighOrWide) (a : Point) (i : Nat) : Bool :=
  isType map t (d.place a i)

/-- A maximal row of at least three cells of type `t` in the visible part, through `a` -/
structure Row (map : MoreInfoMap) (t : Nat) (d : HighOrWide) (a : Point) (first last : Nat) :
    Prop where
  inside : a ∈ visible
  maximal : Maximal (line map t d a) d.max first last
  long : first + xcLimit ≤ last + 1
  through : first ≤ d.coord a ∧ d.coord a ≤ last

def Linked (map : MoreInfoMap) (t : Nat) (a b : Point) : Prop :=
  ∃ d first last, Row map t d a first last ∧ ∃ i, first ≤ i ∧ i ≤ last ∧ b = d.place a i

/-- The cells that are reached from `a` along rows; none if no row passes through it -/
def Component (map : MoreInfoMap) (t : Nat) (a b : Point) : Prop :=
  Relation.TransGen (Linked map t) a b

@[simp] theorem line_place {i : Nat} : line map t d (d.place a i) = line map t d a := by
  funext j
  rw [line, HighOrWide.place_place, line]

theorem xcLine_eq (map : MoreInfoMap) (t : Nat) (d : HighOrWide) (a : Point) :
    xcLine map t d a =
      if endP (line map t d a) (d.max + 1 - d.coord a) (d.coord a) + 1 -
          startP (line map t d a) (d.coord a) ≥ xcLimit then
        (List.range' (startP (line map t d a) (d.coord a))
          (endP (line map t d a) (d.max + 1 - d.coord a) (d.coord a) + 1 -
            startP (line map t d a) (d.coord a))).map (d.place a)
      else [] := rfl

theorem mem_xcLine (ha : a ∈ visible) :
    b ∈ xcLine map t d a ↔
      ∃ first last, Row map t d a first last ∧ ∃ i, first ≤ i ∧ i ≤ last ∧ b = d.place a i := by
  have hin := mem_visible.mp ha d
  rw [xcLine_eq]
  cases hp : line map t d a (d.coord a) with
  | false =>
      rw [not_measured hin.1 hp, if_neg (by decide)]
      constructor
      · exact fun h => absurd h List.not_mem_nil
      · rintro ⟨first, last, hrow, -⟩
        have := hrow.maximal.same _ hrow.through.1 hrow.through.2
        rw [hp] at this
        exact Bool.noConfusion this
  | true =>
      obtain ⟨hmax, hthrough⟩ := maximal_measured hin.1 hin.2 hp
      generalize startP (line map t d a) (d.coord a) = start_p at *
      generalize endP (line map t d a) (d.max + 1 - d.coord a) (d.coord a) = end_p at *
      constructor
      · intro hb
        split_ifs at hb with hlong
        · obtain ⟨i, hi, rfl⟩ := List.mem_map.mp hb
          rw [List.mem_range'_1] at hi
          have hlong : start_p + xcLimit ≤ end_p + 1 := by
            have : xcLimit = 3 := rfl
            omega
          exact ⟨start_p, end_p, ⟨ha, hmax, hlong, hthrough⟩, i, hi.1, by omega, rfl⟩
        · exact absurd hb List.not_mem_nil
      · rintro ⟨first, last, hrow, i, hi, hil, rfl⟩
        obtain ⟨rfl, rfl⟩ := hrow.maximal.eq hmax hrow.through hthrough
        have hlong := hrow.long
        rw [if_pos (by omega)]
        exact List.mem_map_of_mem (List.mem_range'_1.mpr ⟨hi, by omega⟩)

theorem Row.cell {first last i : Nat} (h : Row map t d a first last) (hi : first ≤ i)
    (hil : i ≤ last) : d.place a i ∈ visible ∧ isType map t (d.place a i) :=
  ⟨visible_place h.inside (h.maximal.pos.trans hi) (hil.trans h.maximal.le),
    h.maximal.same i hi hil⟩

theorem Row.place {first last i : Nat} (h : Row map t d a first last) (hi : first ≤ i)
    (hil : i ≤ last) : Row map t d (d.place a i) first last where
  inside := (h.cell hi hil).1
  maximal := by
    rw [line_place]
    exact h.maximal
  long := h.long
  through := by
    rw [HighOrWide.coord_place]
    exact ⟨hi, hil⟩

theorem Row.measured {first last : Nat} (h : Row map t d a first last) :
    xcLine map t d a = (List.range' first (last + 1 - first)).map (d.place a) := by
  have hin := mem_visible.mp h.inside d
  have hp : line map t d a (d.coord a) := h.maximal.same _ h.through.1 h.through.2
  obtain ⟨hmax, hthrough⟩ := maximal_measured hin.1 hin.2 hp
  obtain ⟨hfirst, hlast⟩ := hmax.eq h.maximal hthrough h.through
  have hlong := h.long
  rw [xcLine_eq, hfirst, hlast, if_pos (by omega)]

/-! ## Rows of a board on which cells were erased -/

def erase (map : MoreInfoMap) (cells : List Point) : MoreInfoMap := fun p =>
  if p ∈ cells then (map p).map fun it => { it with type := 0 } else map p

def seenMap (map : MoreInfoMap) (is_clear : Bool) (cells : List Point) : MoreInfoMap :=
  if is_clear then erase map cells else map

variable {cells : List Point} {is_clear : Bool}

@[simp] theorem erase_nil : erase map [] = map := by
  funext p
  exact if_neg List.not_mem_nil

@[simp] theorem seenMap_nil : seenMap map is_clear [] = map := by
  rw [seenMap, erase_nil, ite_self]

theorem isType_erase (ht : 0 < t) :
    isType (erase map cells) t a = (isType map t a && decide (a ∉ cells)) := by
  rw [isType, isType, erase]
  split_ifs with ha
  · cases map a <;> simp [ha, ht.ne]
  · simp [ha]

theorem isType_seenMap (ht : 0 < t) (h : isType (seenMap map is_clear cells) t a) :
    isType map t a := by
  cases is_clear with
  | false => exact h
  | true =>
      rw [seenMap, if_pos rfl, isType_erase ht, Bool.and_eq_true] at h
      exact h.1

theorem isType_seenMap_of (ht : 0 < t) (h : isType map t a) (ha : a ∉ cells) :
    isType (seenMap map is_clear cells) t a := by
  cases is_clear with
  | false => exact h
  | true =>
      rw [seenMap, if_pos rfl, isType_erase ht, Bool.and_eq_true]
      exact ⟨h, decide_eq_true ha⟩

theorem Row.of_seenMap (ht : 0 < t) {first last : Nat}
    (h : Row (seenMap map is_clear cells) t d a first last) :
    ∃ first' last', Row map t d a first' last' ∧ first' ≤ first ∧ last ≤ last' := by
  have hin := mem_visible.mp h.inside d
  have hsub : ∀ i, line (seenMap map is_clear cells) t d a i → line map t d a i :=
    fun i => isType_seenMap ht
  have hp : line map t d a (d.coord a) := hsub _ (h.maximal.same _ h.through.1 h.through.2)
  obtain ⟨hmax, hthrough⟩ := maximal_measured hin.1 hin.2 hp
  have hin' := h.through
  have hfirst : startP (line map t d a) (d.coord a) ≤ first := by
    rcases hmax.before with hb | hb
    · exact hb.trans_le h.maximal.pos
    · by_contra hlt
      have := hsub _ (h.maximal.same (startP (line map t d a) (d.coord a) - 1) (by omega)
        (by omega))
      rw [hb] at this
      exact Bool.noConfusion this
  have hlast : last ≤ endP (line map t d a) (d.max + 1 - d.coord a) (d.coord a) := by
    rcases hmax.after with hb | hb
    · exact h.maximal.le.trans hb.ge
    · by_contra hlt
      have := hsub _ (h.maximal.same
        (endP (line map t d a) (d.max + 1 - d.coord a) (d.coord a) + 1) (by omega) (by omega))
      rw [hb] at this
      exact Bool.noConfusion this
  refine ⟨_, _, ⟨h.inside, hmax, ?_, hthrough⟩, hfirst, hlast⟩
  have := h.long
  omega

theorem Row.seenMap (ht : 0 < t) {first last : Nat} (h : Row map t d a first last)
    (hcells : ∀ i, first ≤ i → i ≤ last → d.place a i ∉ cells) :
    Row (seenMap map is_clear cells) t d a first last where
  inside := h.inside
  maximal := by
    refine ⟨h.maximal.pos, h.maximal.le, fun i hi hil => ?_,
      h.maximal.before.imp_right fun hb => ?_, h.maximal.after.imp_right fun hb => ?_⟩
    · exact isType_seenMap_of ht (h.maximal.same i hi hil) (hcells i hi hil)
    · exact Bool.eq_false_iff.mpr fun hs => Bool.eq_false_iff.mp hb (isType_seenMap ht hs)
    · exact Bool.eq_false_iff.mpr fun hs => Bool.eq_false_iff.mp hb (isType_seenMap ht hs)
  long := h.long
  through := h.through

/-- The rows that the search measures once the cells `done` are done -/
def rows (map : MoreInfoMap) {t : Nat} (ht : 0 < t) (is_clear : Bool) :
    Lib.Runs Point HighOrWide where
  run done d a := if a ∈ visible then xcLine (Match.seenMap map is_clear done) t d a else []
  turn := HighOrWide.turn
  two := HighOrWide.two_directions
  sub := by
    intro done d a b _ hb
    split_ifs at hb ⊢ with ha
    · rw [mem_xcLine ha] at hb ⊢
      obtain ⟨first, last, hrow, i, hi, hil, rfl⟩ := hb
      obtain ⟨first', last', hrow', hfirst, hlast⟩ := hrow.of_seenMap ht
      rw [seenMap_nil]
      exact ⟨first', last', hrow', i, hfirst.trans hi, hil.trans hlast, rfl⟩
    · exact hb
  whole := by
    intro done d a b hwhole hb
    rw [seenMap_nil] at hb hwhole
    split_ifs at hwhole hb ⊢ with ha
    · rw [mem_xcLine ha] at hb ⊢
      obtain ⟨first, last, hrow, i, hi, hil, rfl⟩ := hb
      refine ⟨first, last, hrow.seenMap ht fun j hj hjl => ?_, i, hi, hil, rfl⟩
      exact hwhole _ ((mem_xcLine ha).mpr ⟨first, last, hrow, j, hj, hjl, rfl⟩)
    · exact hb
  self := by
    intro d a b hb
    rw [seenMap_nil] at hb ⊢
    split_ifs at hb ⊢ with ha
    · rw [mem_xcLine ha] at hb ⊢
      obtain ⟨first, last, hrow, -⟩ := hb
      exact ⟨first, last, hrow, d.coord a, hrow.through.1, hrow.through.2,
        HighOrWide.place_coord.symm⟩
    · exact absurd hb List.not_mem_nil
  same := by
    intro d b a hb
    rw [seenMap_nil] at hb ⊢
    split_ifs at hb with ha
    · obtain ⟨first, last, hrow, i, hi, hil, rfl⟩ := (mem_xcLine ha).mp hb
      rw [if_pos (hrow.cell hi hil).1, if_pos ha, hrow.measured, (hrow.place hi hil).measured]
      exact List.map_congr_left fun j _ => HighOrWide.place_place
    · exact absurd hb List.not_mem_nil

theorem rows_run {ht : 0 < t} :
    (rows map ht is_clear).run cells d a =
      if a ∈ visible then xcLine (Match.seenMap map is_clear cells) t d a else [] := rfl

theorem mem_rows {ht : 0 < t} :
    b ∈ (rows map ht is_clear).run [] d a ↔
      ∃ first last, Row map t d a first last ∧ ∃ i, first ≤ i ∧ i ≤ last ∧ b = d.place a i := by
  rw [rows_run, seenMap_nil]
  split_ifs with ha
  · exact mem_xcLine ha
  · constructor
    · exact fun h => absurd h List.not_mem_nil
    · rintro ⟨first, last, hrow, -⟩
      exact absurd hrow.inside ha

theorem rows_visible {ht : 0 < t} (hb : b ∈ (rows map ht is_clear).run [] d a) :
    b ∈ visible := by
  obtain ⟨first, last, hrow, i, hi, hil, rfl⟩ := mem_rows.mp hb
  exact (hrow.cell hi hil).1

theorem rows_component (ht : 0 < t) (is_clear : Bool) :
    (rows map ht is_clear).Component a b ↔ Component map t a b := by
  have hlinked : (rows map ht is_clear).Linked = Linked map t := by
    funext a b
    exact propext (exists_congr fun d => mem_rows)
  rw [Lib.Runs.Component, hlinked, Component]

end

end JyQipai.Xiaoxiaole.Match
