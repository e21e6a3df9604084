import JyQipai.Xiaoxiaole.Legal

/-!
# Lucky cells do not change the rate

The two strings of `create_lucky` can be read back: the board is the one that was checked, and
the k-th lucky cell takes the k-th character of the second string.
-/

namespace JyQipai.Xiaoxiaole.Match

open Lib

def luckyNo (map : MoreInfoMap) (p : Point) : Option Nat :=
  (map p).bind fun it => if it.type = luckyType then some it.no else none

def readBack (str lucky_str : List Char) : Option (List (List Nat) × LuckyMap) :=
  (xcString2XcMap str).map fun xc_map =>
    (xc_map, fun no =>
      ((((points xc_map.length).filterMap (luckyNo (xcMap2MoreInfo xc_map))).zip lucky_str).lookup
        no).bind toNumber)

def rateOf (fuel : Nat) (xc_map : List (List Nat)) (lucky_map : LuckyMap) : Option Nat :=
  (getXcNumMap fuel xc_map.length (xcMap2MoreInfo xc_map) lucky_map false).bind fun r =>
    r.1.map getRateByXcNumMap

variable {map : MoreInfoMap} {lucky_map : LuckyMap} {xc_map : List (List Nat)}

/-! ## Digits -/

theorem digits_eq {n : Nat} (hn : n ≤ 9) : digits n = [Nat.digitChar n] :=
  Nat.toDigits_of_lt_base (Nat.lt_succ_of_le hn)

theorem toNumber_digitChar {n : Nat} (hn : n ≤ 9) : toNumber (Nat.digitChar n) = some n := by
  have hall : ∀ n < 10, toNumber (Nat.digitChar n) = some n := by decide
  exact hall n (Nat.lt_succ_of_le hn)

theorem flatMap_digits {α : Type} {l : List α} {f : α → Nat} (h : ∀ a ∈ l, f a ≤ 9) :
    l.flatMap (fun a => digits (f a)) = l.map fun a => Nat.digitChar (f a) := by
  induction l with
  | nil => rfl
  | cons a l ih =>
      rw [List.flatMap_cons, digits_eq (h a List.mem_cons_self), List.map_cons,
        ih fun b hb => h b (List.mem_cons_of_mem a hb)]
      rfl

theorem mapM_toNumber {cells : List Nat} (h : ∀ n ∈ cells, n ≤ 9) :
    (cells.map Nat.digitChar).mapM toNumber = some cells := by
  induction cells with
  | nil => rfl
  | cons n cells ih =>
      rw [List.map_cons, List.mapM_cons, toNumber_digitChar (h n List.mem_cons_self),
        ih fun m hm => h m (List.mem_cons_of_mem n hm)]
      rfl

theorem mapM_length {α β : Type} {f : α → Option β} {l : List α} {l' : List β}
    (h : l.mapM f = some l') : l'.length = l.length := by
  induction l generalizing l' with
  | nil =>
      obtain rfl := Option.some.inj h
      rfl
  | cons a l ih =>
      rw [List.mapM_cons, Option.bind_eq_bind, Option.bind_eq_some_iff] at h
      obtain ⟨b, -, h⟩ := h
      rw [Option.bind_eq_bind, Option.bind_eq_some_iff] at h
      obtain ⟨l₁, hl₁, h⟩ := h
      obtain rfl := Option.some.inj h
      rw [List.length_cons, List.length_cons, ih hl₁]

/-! ## Boards as strings -/

structure Rows (xc_map : List (List Nat)) : Prop where
  wide : ∀ row ∈ xc_map, row.length = wideMax
  digit : ∀ row ∈ xc_map, ∀ t ∈ row, t ≤ 9

theorem rowsOf_wide {n : Nat} {cells : List Nat} (h : n * wideMax ≤ cells.length) :
    ∀ row ∈ rowsOf n cells, row.length = wideMax := by
  induction n generalizing cells with
  | zero => exact fun _ h => absurd h List.not_mem_nil
  | succ n ih =>
      rw [Nat.succ_mul] at h
      intro row hrow
      rcases List.mem_cons.mp hrow with rfl | hrow
      · rw [List.length_take]
        omega
      · refine ih ?_ row hrow
        rw [List.length_drop]
        omega

theorem rowsOf_flatten (h : ∀ row ∈ xc_map, row.length = wideMax) :
    rowsOf xc_map.length xc_map.flatten = xc_map := by
  induction xc_map with
  | nil => rfl
  | cons row xc_map ih =>
      have hrow := h row List.mem_cons_self
      rw [List.length_cons, rowsOf, List.flatten_cons, List.take_left' hrow, List.drop_left' hrow,
        ih fun r hr => h r (List.mem_cons_of_mem row hr)]

theorem length_flatten_wide (h : ∀ row ∈ xc_map, row.length = wideMax) :
    xc_map.flatten.length = xc_map.length * wideMax := by
  induction xc_map with
  | nil => rfl
  | cons row xc_map ih =>
      rw [List.flatten_cons, List.length_append, h row List.mem_cons_self,
        ih fun r hr => h r (List.mem_cons_of_mem row hr), List.length_cons, Nat.succ_mul,
        Nat.add_comm]

theorem rows_of_string {str : List Char} (h : xcString2XcMap str = some xc_map) : Rows xc_map := by
  rw [xcString2XcMap, Option.map_eq_some_iff] at h
  obtain ⟨cells, hcells, rfl⟩ := h
  have hlen : cells.length = str.length := mapM_length hcells
  refine ⟨rowsOf_wide ?_, fun row hrow t ht => ?_⟩
  · rw [hlen]
    exact Nat.div_mul_le_self _ _
  · obtain ⟨c, -, hc⟩ := mapM_mem hcells t (mem_rowsOf hrow t ht)
    exact toNumber_le hc

theorem xcString2XcMap_flatten (h : Rows xc_map) :
    xcString2XcMap (xc_map.flatten.map Nat.digitChar) = some xc_map := by
  have hdigit : ∀ n ∈ xc_map.flatten, n ≤ 9 := by
    intro n hn
    obtain ⟨row, hrow, hn⟩ := List.mem_flatten.mp hn
    exact h.digit row hrow n hn
  rw [xcString2XcMap, mapM_toNumber hdigit, Option.map_some, List.length_map,
    length_flatten_wide h.wide, Nat.mul_div_cancel _ (by decide), rowsOf_flatten h.wide]

/-! ## The types of a board, row by row -/

theorem flatMap_range {α β : Type} (l : List α) (f : α → List β) :
    (List.range l.length).flatMap (fun i => (l[i]?).elim [] f) = l.flatMap f := by
  induction l with
  | nil => rfl
  | cons a l ih =>
      rw [List.length_cons, List.range_succ_eq_map, List.flatMap_cons, List.flatMap_map,
        List.flatMap_cons, ← ih]
      rfl

theorem filterMap_range {α : Type} (l : List α) :
    (List.range l.length).filterMap (fun i => l[i]?) = l := by
  have h := flatMap_range l fun a => [a]
  rw [List.flatMap_singleton'] at h
  rw [List.filterMap_eq_flatMap_toList]
  refine Eq.trans ?_ h
  congr 1
  funext i
  cases l[i]? <;> rfl

theorem xcMap2MoreInfo_type {i j : Nat} (hj : j < wideMax) :
    (xcMap2MoreInfo xc_map (1 + i, 1 + j)).map Item.type =
      xc_map[i]?.bind fun row => row[j]? := by
  have hin : 1 ≤ 1 + i ∧ 1 ≤ 1 + j ∧ 1 + j ≤ wideMax := ⟨by omega, by omega, by omega⟩
  rw [xcMap2MoreInfo, if_pos hin, Option.map_map, Nat.add_sub_cancel_left,
    Nat.add_sub_cancel_left]
  exact Option.map_id'

theorem row_types (h : ∀ row ∈ xc_map, row.length = wideMax) (i : Nat) :
    (List.range' 1 wideMax).filterMap (fun y => (xcMap2MoreInfo xc_map (1 + i, y)).map Item.type) =
      (xc_map[i]?).elim [] id := by
  have hcell : ∀ j ∈ List.range wideMax,
      (xcMap2MoreInfo xc_map (1 + i, 1 + j)).map Item.type =
        xc_map[i]?.bind fun row => row[j]? :=
    fun j hj => xcMap2MoreInfo_type (List.mem_range.mp hj)
  rw [List.range'_eq_map_range, List.filterMap_map]
  refine (List.filterMap_congr hcell).trans ?_
  cases hi : xc_map[i]? with
  | none => exact List.filterMap_none _
  | some row =>
      have hlen := h row (List.mem_of_getElem? hi)
      rw [← hlen]
      exact filterMap_range row

theorem points_types (h : ∀ row ∈ xc_map, row.length = wideMax) :
    (points xc_map.length).filterMap (fun p => (xcMap2MoreInfo xc_map p).map Item.type) =
      xc_map.flatten := by
  have hrange : List.range' 1 xc_map.length = (List.range xc_map.length).map (1 + ·) :=
    List.range'_eq_map_range
  rw [points, List.product, List.filterMap_flatMap, hrange, List.flatMap_map]
  simp only [List.filterMap_map]
  rw [← List.flatMap_id, ← flatMap_range xc_map id]
  congr 1
  funext i
  exact row_types h i

/-! ## The strings of a board -/

theorem foldlM_stringStep {ps : List Point} {s r : List Char × List Char}
    (h : ps.foldlM (stringStep map lucky_map) s = some r) :
    r.1 = s.1 ++ (ps.filterMap fun p => (map p).map Item.type).flatMap digits ∧
      r.2 = s.2 ++
        ((ps.filterMap (luckyNo map)).flatMap fun no => digits ((lucky_map no).getD 0)) ∧
      ∀ no ∈ ps.filterMap (luckyNo map), (lucky_map no).isSome := by
  induction ps generalizing s with
  | nil =>
      obtain rfl := Option.some.inj h
      exact ⟨(List.append_nil _).symm, (List.append_nil _).symm,
        fun _ h => absurd h List.not_mem_nil⟩
  | cons p ps ih =>
      rw [List.foldlM_cons, Option.bind_eq_bind, Option.bind_eq_some_iff] at h
      obtain ⟨s', hs', h⟩ := h
      obtain ⟨hstr, hlucky, hsome⟩ := ih h
      rw [stringStep, Option.bind_eq_bind, Option.bind_eq_some_iff] at hs'
      obtain ⟨it, hit, hs'⟩ := hs'
      rw [hstr, hlucky, List.filterMap_cons, List.filterMap_cons, luckyNo, hit, Option.map_some,
        Option.bind_some]
      split_ifs at hs' ⊢ with htype
      · rw [Option.bind_eq_bind, Option.bind_eq_some_iff] at hs'
        obtain ⟨lucky, hl, hs'⟩ := hs'
        obtain rfl := Option.some.inj hs'
        refine ⟨?_, ?_, ?_⟩
        · rw [List.flatMap_cons, List.append_assoc]
        · rw [List.flatMap_cons, hl, Option.getD_some, List.append_assoc]
        · intro no hno
          rcases List.mem_cons.mp hno with rfl | hno
          · rw [hl, Option.isSome_some]
          · exact hsome no hno
      · obtain rfl := Option.some.inj hs'
        refine ⟨?_, rfl, hsome⟩
        rw [List.flatMap_cons, List.append_assoc]

/-! ## The board with its lucky cells -/

def luckyRows (xc_map : List (List Nat)) (lucky_map : LuckyMap) : List (List Nat) :=
  xc_map.mapIdx fun i row => row.mapIdx fun j type =>
    if (lucky_map (i * wideMax + (j + 1))).isSome then luckyType else type

theorem luckyRows_board (xc_map : List (List Nat)) (lucky_map : LuckyMap) :
    xcMap2MoreInfo (luckyRows xc_map lucky_map) =
      getLuckyMoreinfoMap (xcMap2MoreInfo xc_map) lucky_map := by
  funext p
  rw [getLuckyMoreinfoMap, xcMap2MoreInfo, xcMap2MoreInfo]
  split_ifs with hin
  · rw [luckyRows, List.getElem?_mapIdx]
    cases xc_map[p.1 - 1]? with
    | none => rfl
    | some row =>
        rw [Option.map_some, Option.bind_some, Option.bind_some, List.getElem?_mapIdx,
          Nat.sub_add_cancel hin.2.1]
        cases row[p.2 - 1]? with
        | none => rfl
        | some type =>
            simp only [Option.map_some]
            split_ifs <;> rfl
  · rfl

theorem luckyRows_rows (h : Rows xc_map) (lucky_map : LuckyMap) :
    Rows (luckyRows xc_map lucky_map) where
  wide := by
    intro row hrow
    obtain ⟨i, hi, rfl⟩ := List.mem_mapIdx.mp hrow
    rw [List.length_mapIdx]
    exact h.wide _ (List.getElem_mem hi)
  digit := by
    intro row hrow t ht
    obtain ⟨i, hi, rfl⟩ := List.mem_mapIdx.mp hrow
    obtain ⟨j, hj, rfl⟩ := List.mem_mapIdx.mp ht
    split_ifs
    · decide
    · exact h.digit _ (List.getElem_mem hi) _ (List.getElem_mem hj)

theorem lookup_zip_map {l : List Nat} {f : Nat → Char} (no : Nat) :
    (l.zip (l.map f)).lookup no = if no ∈ l then some (f no) else none := by
  induction l with
  | nil => rfl
  | cons a l ih =>
      rw [List.map_cons, List.zip_cons_cons]
      by_cases ha : no = a
      · rw [ha, List.lookup_cons_self, if_pos List.mem_cons_self]
      · rw [List.lookup_cons, beq_false_of_ne ha, ih]
        simp only [List.mem_cons, ha, false_or]

theorem mem_points {high : Nat} {p : Point} :
    p ∈ points high ↔ (1 ≤ p.1 ∧ p.1 ≤ high) ∧ 1 ≤ p.2 ∧ p.2 ≤ wideMax := by
  rw [points, List.pair_mem_product, List.mem_range'_1, List.mem_range'_1]
  omega

theorem luckyNo_iff (hlegal : Legal (xcMap2MoreInfo xc_map) lucky_map)
    (hsome : ∀ no ∈ (points xc_map.length).filterMap
      (luckyNo (getLuckyMoreinfoMap (xcMap2MoreInfo xc_map) lucky_map)), (lucky_map no).isSome)
    (no : Nat) :
    no ∈ (points xc_map.length).filterMap
      (luckyNo (getLuckyMoreinfoMap (xcMap2MoreInfo xc_map) lucky_map)) ↔
      (lucky_map no).isSome := by
  refine ⟨hsome no, fun h => ?_⟩
  obtain ⟨t, ht⟩ := Option.isSome_iff_exists.mp h
  obtain ⟨⟨p, a, ha, rfl⟩, -⟩ := hlegal no t ht
  obtain ⟨hx, hy, hle, -, row, hrow, -⟩ := xcMap2MoreInfo_some ha
  obtain ⟨hlt, -⟩ := List.getElem?_eq_some_iff.mp hrow
  refine List.mem_filterMap.mpr ⟨p, mem_points.mpr ⟨⟨hx, by omega⟩, hy, hle⟩, ?_⟩
  rw [luckyNo, getLuckyMoreinfoMap, ha, Option.map_some, if_pos h, Option.bind_some, if_pos rfl]

theorem readBack_string {str lucky_str : List Char} (h : Rows xc_map)
    (hlegal : Legal (xcMap2MoreInfo xc_map) lucky_map)
    (hstring : moreInfomMap2String xc_map.length
      (getLuckyMoreinfoMap (xcMap2MoreInfo xc_map) lucky_map) lucky_map = some (str, lucky_str)) :
    readBack str lucky_str = some (luckyRows xc_map lucky_map, lucky_map) := by
  obtain ⟨hstr, hlucky, hsome⟩ := foldlM_stringStep hstring
  have hiff := luckyNo_iff hlegal hsome
  have hrows := luckyRows_rows h lucky_map
  have hlen : (luckyRows xc_map lucky_map).length = xc_map.length := List.length_mapIdx
  rw [← luckyRows_board, ← hlen] at hstr hlucky hiff
  have hdigit : ∀ n ∈ (luckyRows xc_map lucky_map).flatten, n ≤ 9 := by
    intro n hn
    obtain ⟨row, hrow, hn⟩ := List.mem_flatten.mp hn
    exact hrows.digit row hrow n hn
  have hstr' : str = (luckyRows xc_map lucky_map).flatten.map Nat.digitChar := by
    rw [points_types hrows.wide] at hstr
    exact hstr.trans (flatMap_digits (f := id) hdigit)
  have hlucky' : lucky_str = ((points (luckyRows xc_map lucky_map).length).filterMap
      (luckyNo (xcMap2MoreInfo (luckyRows xc_map lucky_map)))).map
        fun no => Nat.digitChar ((lucky_map no).getD 0) := by
    refine hlucky.trans (flatMap_digits fun no hno => ?_)
    obtain ⟨t, ht⟩ := Option.isSome_iff_exists.mp ((hiff no).mp hno)
    rw [ht]
    exact (hlegal no t ht).2
  rw [readBack, hstr', xcString2XcMap_flatten hrows, Option.map_some, hlucky']
  congr 2
  funext no
  rw [lookup_zip_map]
  split_ifs with hno
  · obtain ⟨t, ht⟩ := Option.isSome_iff_exists.mp ((hiff no).mp hno)
    rw [Option.bind_some, ht, Option.getD_some]
    exact toNumber_digitChar (hlegal no t ht).2
  · rw [hiff, Option.not_isSome_iff_eq_none] at hno
    rw [hno, Option.bind_none]

/-! ## The rate -/

theorem rateOf_of_accepted {fuel rate : Nat}
    (h : checkMapEqualRate fuel xc_map.length
      (getLuckyMoreinfoMap (xcMap2MoreInfo xc_map) lucky_map) lucky_map rate = some true) :
    rateOf fuel (luckyRows xc_map lucky_map) lucky_map = some rate := by
  have hlen : (luckyRows xc_map lucky_map).length = xc_map.length := List.length_mapIdx
  rw [checkMapEqualRate, Option.map_eq_some_iff] at h
  obtain ⟨⟨xc_num_map, rest⟩, hget, h⟩ := h
  rw [rateOf, hlen, luckyRows_board, hget, Option.bind_some]
  cases xc_num_map with
  | none => cases h
  | some groups => exact congrArg some (beq_iff_eq.mp h)

theorem luckyRows_empty (xc_map : List (List Nat)) :
    luckyRows xc_map (fun _ => none) = xc_map := by
  have hsame : ∀ {α : Type} (l : List α), l.mapIdx (fun _ a => a) = l := fun l => by
    rw [List.mapIdx_eq_zipIdx_map, List.zipIdx_map_fst]
  rw [luckyRows]
  simp only [Option.isSome_none, Bool.false_eq_true, if_false, hsame]

theorem not_lian45 {data : Lucky} (h : data.lianType ≠ .lian4 ∧ data.lianType ≠ .lian5) :
    isLian45 data = false := by
  rw [isLian45, decide_eq_false_iff_not, not_or]
  exact h

theorem rateOf_of_ok {fuel rate : Nat} {src : Source} {s : Lucked} (hok : s.Ok src)
    (hfuel : src.fuel = fuel) (hsrc : src.rate = rate) (hhigh : src.high = xc_map.length)
    (hboard : src.xc_moreInfo_map = xcMap2MoreInfo xc_map)
    (hrate : rateOf fuel xc_map (fun _ => none) = some rate) :
    rateOf fuel (luckyRows xc_map s.total_lucky_map) s.total_lucky_map = some rate := by
  rcases hok.accepted with h | h
  · rw [h, luckyRows_empty]
    exact hrate
  · rw [Source.accepts, hfuel, hsrc, hhigh, hboard] at h
    exact rateOf_of_accepted h

/-- Lucky cells do not change the rate of a board, nor any other cell. -/
theorem lucky_keeps_rate {fuel rate : Nat} {sort : List Lucky → Option (List Lucky)}
    (hsort : ∀ l l', sort l = some l' → l'.Perm l) {xc_str : List Char}
    (hmap : xcString2XcMap xc_str = some xc_map)
    (hrate : rateOf fuel xc_map (fun _ => none) = some rate) {lucky_data : List Lucky}
    (hdata : ∀ data ∈ lucky_data, data.lianType ≠ .lian4 ∧ data.lianType ≠ .lian5) :
    Draw.Always (createLucky fuel sort xc_str rate lucky_data) fun r =>
      ∃ xc_map' lucky_map, readBack r.1 r.2 = some (xc_map', lucky_map) ∧
        rateOf fuel xc_map' lucky_map = some rate ∧ xc_map'.length = xc_map.length ∧
        ∀ p a, xcMap2MoreInfo xc_map p = some a →
          ∃ b, xcMap2MoreInfo xc_map' p = some b ∧ (b.type ≠ luckyType → b = a) := by
  refine .bind (Draw.always_ofOption _) fun read hread => ?_
  obtain ⟨src, xc_num_map⟩ := read
  obtain ⟨xc_map₁, hmap₁, hfuel, hsrcRate, hhigh, hboard, hsrc, htyped⟩ := readSource_spec hread
  obtain rfl : xc_map = xc_map₁ := Option.some.inj (hmap.symm.trans hmap₁)
  refine .bind (Draw.always_ofOption _) fun sorted hsorted => ?_
  have hsub : ∀ data ∈ sorted, data ∈ lucky_data := by
    intro data hmem
    split_ifs at hsorted with hnil
    · obtain rfl := Option.some.inj hsorted
      exact absurd hmem List.not_mem_nil
    · exact (hsort _ _ hsorted).mem_iff.mp hmem
  have h45 : sorted.filter isLian45 = [] := by
    rw [List.filter_eq_nil_iff]
    intro data hmem h
    rw [not_lian45 (hdata data (hsub data hmem))] at h
    cases h
  have hstart : Lucked.Ok src
      { total_lucky_map := fun _ => none
        xc_num_map
        real_lian_num := 0 } := ⟨legal_empty, htyped, .inl rfl⟩
  refine .bind (dealLian12345_ok (fun _ _ hs => dealOnceLian3_ok hsrc hs) hstart) fun r₁ h₁ => ?_
  obtain ⟨is_lian3_succ, s₁⟩ := r₁
  dsimp only at h₁ ⊢
  rw [h45, dealLian12345_nil]
  refine .bind (.pure (Q := fun r => r = (false, s₁)) rfl) fun r₂ h₂ => ?_
  subst h₂
  refine .bind (dealLian12345_ok (fun _ _ hs => dealOnceLianOther_ok hsrc hs) h₁) fun r₃ h₃ => ?_
  refine (Draw.always_ofOption _).mono fun r hr => ?_
  rw [hhigh, hboard] at hr
  refine ⟨_, _, readBack_string (rows_of_string hmap) (hboard ▸ h₃.legal) hr,
    rateOf_of_ok h₃ hfuel hsrcRate hhigh hboard hrate, List.length_mapIdx, fun p a ha => ?_⟩
  rw [luckyRows_board, getLuckyMoreinfoMap, ha, Option.map_some]
  refine ⟨_, rfl, fun hne => ?_⟩
  split_ifs at hne ⊢
  · exact absurd rfl hne
  · rfl

def plainBoard : List (List Nat) :=
  [[1, 2, 3, 4, 5, 1, 2, 3], [3, 4, 5, 1, 2, 3, 4, 5], [5, 1, 2, 3, 4, 5, 1, 2],
    [2, 3, 4, 5, 1, 2, 3, 4], [4, 5, 1, 2, 3, 4, 5, 1], [1, 2, 3, 4, 5, 1, 2, 3],
    [3, 4, 5, 1, 2, 3, 4, 5], [5, 1, 2, 3, 4, 5, 1, 2]]

theorem plainBoard_rate : rateOf 65 plainBoard (fun _ => none) = some 0 := by
  decide +kernel

theorem lucky_keeps_rate_plain :
    Draw.Always (createLucky 65 some (plainBoard.flatten.map Nat.digitChar) 0
        [⟨.lian1, 0, 1, none⟩]) fun r =>
      ∃ xc_map' lucky_map, readBack r.1 r.2 = some (xc_map', lucky_map) ∧
        rateOf 65 xc_map' lucky_map = some 0 ∧ xc_map'.length = plainBoard.length ∧
        ∀ p a, xcMap2MoreInfo plainBoard p = some a →
          ∃ b, xcMap2MoreInfo xc_map' p = some b ∧ (b.type ≠ luckyType → b = a) :=
  lucky_keeps_rate (fun _ _ h => Option.some.inj h ▸ List.Perm.refl _)
    (xcString2XcMap_flatten ⟨by decide, by decide⟩) plainBoard_rate (by decide)

end JyQipai.Xiaoxiaole.Match
