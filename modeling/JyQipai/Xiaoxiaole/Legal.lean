import JyQipai.Xiaoxiaole.Cascade
import JyQipai.Xiaoxiaole.Lucky

/-!
# What lucky cells can be

Whatever is drawn, lucky cells are cells of the board, their types are digits, and what
`create_lucky` keeps was accepted by `check_map_equal_rate`.
-/

namespace JyQipai.Xiaoxiaole.Match

open Lib

/-! ## The records of a cascade -/

def Holds (P : Item → Prop) (map : MoreInfoMap) : Prop := ∀ p a, map p = some a → P a

variable {P : Item → Prop} {map : MoreInfoMap}

theorem foldlM_preserves {σ α : Type} {f : σ → α → Option σ} {Q : σ → Prop} {l : List α}
    (hf : ∀ s a s', a ∈ l → f s a = some s' → Q s → Q s') {s s' : σ} (h : l.foldlM f s = some s')
    (hs : Q s) : Q s' := by
  induction l generalizing s with
  | nil =>
      obtain rfl := Option.some.inj h
      exact hs
  | cons a l ih =>
      rw [List.foldlM_cons, Option.bind_eq_bind, Option.bind_eq_some_iff] at h
      obtain ⟨s₁, hs₁, h⟩ := h
      exact ih (fun s b s' hb => hf s b s' (List.mem_cons_of_mem a hb)) h
        (hf s a s₁ List.mem_cons_self hs₁ hs)

theorem Holds.erase (hzero : ∀ a, P a → P { a with type := 0 }) (h : Holds P map)
    (cells : List Point) : Holds P (Match.erase map cells) := by
  intro p a ha
  rw [Match.erase] at ha
  split_ifs at ha
  · obtain ⟨b, hb, rfl⟩ := Option.map_eq_some_iff.mp ha
    exact hzero b (h p b hb)
  · exact h p a ha

theorem Holds.update (h : Holds P map) {p : Point} {v : Option Item} (hv : ∀ a, v = some a → P a) :
    Holds P (Function.update map p v) := by
  intro q a ha
  rw [Function.update_apply] at ha
  split_ifs at ha
  · exact hv a ha
  · exact h q a ha

theorem Holds.tasuoColumn {y rest pos k : Nat} (h : Holds P map) :
    Holds P (tasuoColumn y rest pos k map) := by
  induction rest generalizing pos k map with
  | zero => exact h
  | succ rest ih =>
      rw [Match.tasuoColumn]
      cases hit : map (pos, y) with
      | none => exact h
      | some it =>
          have hnone : ∀ a, (none : Option Item) = some a → P a := fun a ha => by cases ha
          dsimp only
          split_ifs
          · exact ih (h.update hnone)
          · refine ih ((h.update fun a ha => ?_).update hnone)
            exact h _ a (hit.trans ha)
          · exact ih h

theorem Holds.tasuo {high : Nat} (h : Holds P map) :
    Holds P (xcTasuoByMoreInfoMap high map).1 := by
  rw [xcTasuoByMoreInfoMap]
  dsimp only
  generalize List.range' 1 wideMax = ys
  induction ys generalizing map with
  | nil => exact h
  | cons y ys ih => exact ih h.tasuoColumn

theorem luckyStep_empty {cur_no_2_xy : Nat → Option Point} {s s' : MoreInfoMap × (Nat → Nat)}
    {p : Point} (h : luckyStep (fun _ => none) cur_no_2_xy s p = some s') : s' = s := by
  rw [luckyStep, Option.bind_eq_bind, Option.bind_eq_some_iff] at h
  obtain ⟨it, -, h⟩ := h
  split_ifs at h with htype
  · rw [Option.bind_eq_bind, Option.bind_eq_some_iff] at h
    obtain ⟨found, -, h⟩ := h
    split_ifs at h with hvec
    · exact (Option.some.inj h).symm
    · obtain ⟨no, nos, hcons⟩ := List.exists_cons_of_ne_nil hvec
      rw [hcons, List.foldlM_cons] at h
      cases h
  · exact (Option.some.inj h).symm

theorem clearStep_holds (hzero : ∀ a, P a → P { a with type := 0 }) {T : Nat → Prop}
    (htype : ∀ a, P a → T a.type) {round : Nat} {s s' : MoreInfoMap × List Group} {p : Point}
    (hp : p ∈ visible) (h : clearStep round s p = some s')
    (hs : Holds P s.1 ∧ ∀ g ∈ s.2, T g.type) : Holds P s'.1 ∧ ∀ g ∈ s'.2, T g.type := by
  rw [clearStep] at h
  cases hit : s.1 p with
  | none =>
      rw [hit] at h
      obtain rfl := Option.some.inj h
      exact hs
  | some it =>
      rw [hit] at h
      dsimp only at h
      split_ifs at h with ht
      · obtain ⟨found, cells, hfound, -, -, -, hclear⟩ := checkCanXcByPoint_spec s.1 [] true
          ht le_rfl hp
        rw [hfound, Option.bind_eq_bind, Option.bind_some, hclear, if_pos rfl] at h
        split_ifs at h
        · obtain rfl := Option.some.inj h
          exact ⟨hs.1.erase hzero cells, hs.2⟩
        · obtain rfl := Option.some.inj h
          refine ⟨hs.1.erase hzero cells, fun g hg => ?_⟩
          rcases List.mem_append.mp hg with hg | hg
          · exact hs.2 g hg
          · obtain rfl := List.mem_singleton.mp hg
            exact htype it (hs.1 p it hit)
      · obtain rfl := Option.some.inj h
        exact hs

structure AllHold (P : Item → Prop) (T : Nat → Prop) (s : Cascade) : Prop where
  map : Holds P s.map
  rounds : ∀ m ∈ s.round_map, Holds P m
  groups : ∀ g ∈ s.xc_num_map, T g.type

theorem cascade_holds (hzero : ∀ a, P a → P { a with type := 0 }) {T : Nat → Prop}
    (htype : ∀ a, P a → T a.type) {high fuel : Nat} {s s' : Cascade} {filled : Bool}
    (h : cascade high (fun _ => none) fuel s = some (filled, s')) (hs : AllHold P T s) :
    AllHold P T s' := by
  induction fuel generalizing s with
  | zero => cases h
  | succ fuel ih =>
      cases hlucky : visible.foldlM (luckyStep (fun _ => none) (no2Xy s.map))
          (s.map, s.lucky_lian_count) with
      | none =>
          rw [cascade, hlucky] at h
          cases h
      | some turned =>
          obtain ⟨map', count⟩ := turned
          obtain rfl : map' = s.map :=
            foldlM_preserves (Q := fun s' => s'.1 = s.map)
              (fun _ _ _ _ hstep hmap => luckyStep_empty hstep ▸ hmap) hlucky rfl
          cases hscan : visible.foldlM (clearStep s.round) (s.map, []) with
          | none =>
              rw [cascade, hlucky] at h
              dsimp only [Option.bind_eq_bind, Option.bind_some] at h
              rw [hscan] at h
              cases h
          | some scanned =>
              obtain ⟨board, groups⟩ := scanned
              obtain ⟨hboard, hgroups⟩ := foldlM_preserves
                (Q := fun s' => Holds P s'.1 ∧ ∀ g ∈ s'.2, T g.type)
                (fun _ _ _ hp hstep => clearStep_holds hzero htype hp hstep) hscan
                ⟨hs.map, fun _ hg => absurd hg List.not_mem_nil⟩
              have hrounds : ∀ m ∈ s.round_map ++ [s.map], Holds P m := by
                intro m hm
                rcases List.mem_append.mp hm with hm | hm
                · exact hs.rounds m hm
                · obtain rfl := List.mem_singleton.mp hm
                  exact hs.map
              have hall : ∀ g ∈ s.xc_num_map ++ groups, T g.type := fun g hg =>
                (List.mem_append.mp hg).elim (hs.groups g) (hgroups g)
              rw [cascade_eq hlucky hscan] at h
              split_ifs at h
              · obtain ⟨-, rfl⟩ := Prod.mk.inj (Option.some.inj h)
                exact ⟨hboard, hrounds, hs.groups⟩
              · exact ih h ⟨hboard.tasuo, hrounds, hall⟩
              · obtain ⟨-, rfl⟩ := Prod.mk.inj (Option.some.inj h)
                exact ⟨hboard.tasuo, hrounds, hall⟩

/-! ## Creating lucky cells -/

/-- A record with a number of the board, and with a digit as its type -/
def Known (board : MoreInfoMap) (it : Item) : Prop := OnBoard board it.no ∧ it.type ≤ 9

def Legal (board : MoreInfoMap) (lucky_map : LuckyMap) : Prop :=
  ∀ no t, lucky_map no = some t → OnBoard board no ∧ t ≤ 9

def Typed (xc_num_map : XcNumMap) : Prop := ∀ count, ∀ g ∈ xc_num_map count, g.type ≤ 9

def Source.Ok (src : Source) : Prop := ∀ m ∈ src.round_map, Holds (Known src.xc_moreInfo_map) m

variable {board : MoreInfoMap} {lucky_map : LuckyMap}

theorem mapM_mem {α β : Type} {f : α → Option β} {l : List α} {l' : List β}
    (h : l.mapM f = some l') : ∀ b ∈ l', ∃ a ∈ l, f a = some b := by
  induction l generalizing l' with
  | nil =>
      obtain rfl := Option.some.inj h
      exact fun b hb => absurd hb List.not_mem_nil
  | cons a l ih =>
      rw [List.mapM_cons, Option.bind_eq_bind, Option.bind_eq_some_iff] at h
      obtain ⟨c, hc, h⟩ := h
      rw [Option.bind_eq_bind, Option.bind_eq_some_iff] at h
      obtain ⟨l₁, hl₁, h⟩ := h
      obtain rfl := Option.some.inj h
      intro b hb
      rcases List.mem_cons.mp hb with rfl | hb
      · exact ⟨a, List.mem_cons_self, hc⟩
      · obtain ⟨a', ha', hb'⟩ := ih hl₁ b hb
        exact ⟨a', List.mem_cons_of_mem a ha', hb'⟩

theorem createSingleLianStyle_known {m : MoreInfoMap} (hm : Holds (Known board) m)
    (base_num extra_num : Int) (target_dir : Option Dir) (target_style : Option Int)
    (force_start : Option (Int × Int)) :
    Draw.Always
      (createSingleLianStyle m base_num extra_num target_dir target_style force_start)
      fun r => ∀ vec, r.1 = some vec → ∀ it ∈ vec, Known board it := by
  refine .any fun style => .pure fun vec hvec it hit => ?_
  obtain ⟨positions, -, hvec⟩ := Option.bind_eq_some_iff.mp hvec
  obtain ⟨pos, -, hpos⟩ := mapM_mem hvec it hit
  rw [itemAt] at hpos
  split_ifs at hpos
  exact hm _ it hpos

theorem Legal.replace {it : Item} {s : XcPosMap × LuckyMap} {item : Option Nat}
    (h : Legal board s.2) (hit : Known board it) (hitem : ∀ t, item = some t → t ≤ 9) :
    Legal board (replaceOneItem it s item).2 := by
  intro no t ht
  change Function.update s.2 it.no item no = some t at ht
  rw [Function.update_apply] at ht
  split_ifs at ht with hno
  · exact ⟨hno ▸ hit.1, hitem t ht⟩
  · exact h no t ht

theorem dealReplaceFrom_legal {not_xc_map : Nat → Bool} {num : Int} {item : Option Nat}
    (hitem : ∀ t, item = some t → t ≤ 9) {index : Nat} {vec : List Item}
    (hvec : ∀ it ∈ vec, Known board it) {s : XcPosMap × LuckyMap} (hs : Legal board s.2) :
    Legal board (dealReplaceFrom not_xc_map num item index vec s).2.2 := by
  induction vec generalizing index s with
  | nil => exact hs
  | cons it vec ih =>
      have hit := hvec it List.mem_cons_self
      have hvec' : ∀ it ∈ vec, Known board it := fun a ha => hvec a (List.mem_cons_of_mem it ha)
      rw [dealReplaceFrom]
      split_ifs
      · exact ih hvec' (hs.replace hit hitem)
      · exact hs
      · refine ih hvec' (hs.replace hit fun t ht => ?_)
        obtain rfl := Option.some.inj ht
        exact hit.2

theorem legal_empty : Legal board fun _ => none := fun _ _ h => by cases h

theorem dealReplace_legal (not_xc_map : Nat → Bool) (num : Int) {item : Option Nat}
    (hitem : ∀ t, item = some t → t ≤ 9) {vec : Option (List Item)}
    (hvec : ∀ l, vec = some l → ∀ it ∈ l, Known board it) {s : XcPosMap × LuckyMap}
    (hs : Legal board s.2) : Legal board (dealReplace vec not_xc_map s num item).2.2 := by
  cases vec with
  | none => exact hs
  | some vec =>
      cases vec with
      | nil => exact hs
      | cons it vec => exact dealReplaceFrom_legal hitem (hvec _ rfl) hs

structure Attempt.Ok (board : MoreInfoMap) (s : Attempt) : Prop where
  vec : ∀ l, s.style_details_vec = some l → ∀ it ∈ l, Known board it
  target : ∀ t, s.target_lucky_item = some t → t ≤ 9

variable {src : Source}

theorem dealTries_legal {num : Int} {deal : Option Dir → Option Int → Attempt → Draw Attempt}
    (hdeal : ∀ dir style s, s.Ok board → Draw.Always (deal dir style s) (Attempt.Ok board))
    {rest key : Nat} {s : Attempt} (hs : s.Ok board) :
    Draw.Always (dealTries src num deal Attempt.target_lucky_item rest key s)
      fun r => ∀ s x, r = some (s, x) → Legal board x.2 := by
  induction rest generalizing key s with
  | zero => exact .pure fun s x h => by cases h
  | succ rest ih =>
      refine .bind (hdeal _ _ s hs) fun s₁ hs₁ => ?_
      have hlegal := dealReplace_legal src.not_xc_map num hs₁.target hs₁.vec
        (s := (src.xc_pos_map, fun _ => none)) legal_empty
      generalize dealReplace s₁.style_details_vec src.not_xc_map _ num s₁.target_lucky_item = r
        at hlegal ⊢
      obtain ⟨is_deal, x⟩ := r
      dsimp only
      split_ifs
      · refine .pure fun s x' h => ?_
        obtain ⟨-, rfl⟩ := Prod.mk.inj (Option.some.inj h)
        exact hlegal
      · exact ih hs₁

theorem dealFirst_legal {num : Attempt → Int}
    {deal : Option Dir → Option Int → Attempt → Draw Attempt}
    (hdeal : ∀ dir style s, s.Ok board → Draw.Always (deal dir style s) (Attempt.Ok board)) :
    Draw.Always (dealFirst src num deal Attempt.target_lucky_item)
      fun r => ∀ s x, r = some (s, x) → Legal board x.2 := by
  have hstart : Attempt.Ok board {} :=
    { vec := fun _ h => by cases h
      target := fun _ h => by cases h }
  refine .bind (hdeal _ _ _ hstart) fun s₁ hs₁ => ?_
  have hlegal := dealReplace_legal src.not_xc_map (num s₁) hs₁.target hs₁.vec
    (s := (src.xc_pos_map, fun _ => none)) legal_empty
  generalize dealReplace s₁.style_details_vec src.not_xc_map _ (num s₁) s₁.target_lucky_item = r
    at hlegal ⊢
  obtain ⟨is_deal, x⟩ := r
  dsimp only
  split_ifs
  · refine .pure fun s x' h => ?_
    obtain ⟨-, rfl⟩ := Prod.mk.inj (Option.some.inj h)
    exact hlegal
  · exact dealTries_legal hdeal hs₁

theorem dealCreateLianStyle_ok (hsrc : src.Ok) {xc_num_map : XcNumMap} (htyped : Typed xc_num_map)
    {lian_type_num : Nat} {lian_num : Int} {dir : Option Dir} {style : Option Int} {s : Attempt}
    (hs : s.Ok src.xc_moreInfo_map) :
    Draw.Always (dealCreateLianStyle src xc_num_map lian_type_num lian_num dir style s)
      (Attempt.Ok src.xc_moreInfo_map) := by
  rw [dealCreateLianStyle]
  by_cases hzero : lian_type_num = 0
  · rw [if_pos hzero]
    refine .bind (Draw.always_choose src.round_map) fun m hm => ?_
    refine .bind (createSingleLianStyle_known (hsrc m hm) _ _ _ _ _) fun r hr => ?_
    exact .pure ⟨hr, hs.target⟩
  rw [if_neg hzero]
  by_cases hempty : xc_num_map lian_type_num = []
  · rw [if_pos hempty]
    exact .pure hs
  rw [if_neg hempty]
  refine .any fun random_index => ?_
  refine .bind (Draw.always_ofOption _) fun rand_data hrand => ?_
  by_cases hlen : rand_data.xc_no_list.length ≠ lian_type_num
  · rw [if_pos hlen]
    exact .fail
  rw [if_neg hlen]
  refine .bind (Draw.always_ofOption _) fun m hm => .any fun start => ?_
  refine .bind (createSingleLianStyle_known (hsrc m (List.mem_of_getElem? hm)) _ _ _ _ _)
    fun r hr => .pure ⟨hr, fun t ht => ?_⟩
  dsimp only at ht
  split_ifs at ht
  · obtain rfl := Option.some.inj ht
    exact htyped lian_type_num rand_data (List.mem_of_getElem? hrand)
  · exact hs.target t ht

theorem createLian123Lucky_legal (hsrc : src.Ok) (data : Lucky) {xc_num_map : XcNumMap}
    (htyped : Typed xc_num_map) :
    Draw.Always (createLian123Lucky src data xc_num_map) fun r =>
      (∀ x, r.1 = some x → Legal src.xc_moreInfo_map x.2) ∧ Typed r.2 := by
  refine .bind (dealFirst_legal fun _ _ _ hs => dealCreateLianStyle_ok hsrc htyped hs)
    fun r hr => ?_
  cases r with
  | none => exact .pure ⟨fun x h => absurd h.symm (Option.some_ne_none x), htyped⟩
  | some r =>
      obtain ⟨s, x⟩ := r
      refine .pure ⟨fun x' h => ?_, ?_⟩
      · obtain rfl := Option.some.inj h
        exact hr s x rfl
      · cases hindex : s.random_index with
        | none => exact htyped
        | some random_index =>
            intro count g hg
            dsimp only at hg
            rw [Function.update_apply] at hg
            split_ifs at hg with hcount
            · exact htyped _ g (List.mem_of_mem_eraseIdx hg)
            · exact htyped count g hg

/-! ## Merging -/

def LuckyMap.Le (lucky_map lucky_map' : LuckyMap) : Prop :=
  ∀ no, (lucky_map no).isSome → (lucky_map' no).isSome

theorem mergeLucky_legal {ret : Option LuckyMap} (hret : ∀ x, ret = some x → Legal board x)
    (h : Legal board lucky_map) : Legal board (mergeLucky ret lucky_map) := by
  intro no t ht
  rw [mergeLucky] at ht
  cases hbind : ret.bind fun lucky_map => lucky_map no with
  | none =>
      rw [hbind] at ht
      exact h no t ht
  | some type =>
      rw [hbind] at ht
      obtain ⟨x, hx, hno⟩ := Option.bind_eq_some_iff.mp hbind
      exact hret x hx no t (hno.trans ht)

theorem le_mergeLucky (ret : Option LuckyMap) :
    LuckyMap.Le lucky_map (mergeLucky ret lucky_map) := by
  intro no hno
  rw [mergeLucky]
  cases ret.bind fun lucky_map => lucky_map no with
  | none => exact hno
  | some type => rfl

theorem mergeLucky_eq {tem : LuckyMap} (h : LuckyMap.Le lucky_map tem) :
    mergeLucky (some tem) lucky_map = tem := by
  funext no
  rw [mergeLucky, Option.bind_some]
  cases htem : tem no with
  | some type => rfl
  | none =>
      have hno := h no
      rw [htem] at hno
      exact Option.not_isSome_iff_eq_none.mp fun hsome => Bool.false_ne_true (hno hsome)

theorem createAll_legal (hsrc : src.Ok) {lian_data : List Lucky} {xc_num_map : XcNumMap}
    (hlegal : Legal src.xc_moreInfo_map lucky_map) (htyped : Typed xc_num_map) :
    Draw.Always (createAll src lian_data lucky_map xc_num_map) fun r =>
      Legal src.xc_moreInfo_map r.1 ∧ LuckyMap.Le lucky_map r.1 ∧ Typed r.2 := by
  induction lian_data generalizing lucky_map xc_num_map with
  | nil => exact .pure ⟨hlegal, fun _ h => h, htyped⟩
  | cons data lian_data ih =>
      refine .bind (createLian123Lucky_legal hsrc data htyped) fun r hr => ?_
      have hmerge := mergeLucky_legal (fun x (hx : r.1.map Prod.snd = some x) => by
        obtain ⟨y, hy, rfl⟩ := Option.map_eq_some_iff.mp hx
        exact hr.1 y hy) hlegal
      refine (ih hmerge hr.2).mono fun r' hr' => ⟨hr'.1, fun no hno => ?_, hr'.2.2⟩
      exact hr'.2.1 no (le_mergeLucky _ no hno)

/-! ## What is kept -/

def Source.accepts (src : Source) (lucky_map : LuckyMap) : Prop :=
  checkMapEqualRate src.fuel src.high (getLuckyMoreinfoMap src.xc_moreInfo_map lucky_map) lucky_map
    src.rate = some true

/-- The state between the parts of `create_lucky` -/
structure Lucked.Ok (src : Source) (s : Lucked) : Prop where
  legal : Legal src.xc_moreInfo_map s.total_lucky_map
  typed : Typed s.xc_num_map
  accepted : s.total_lucky_map = (fun _ => none) ∨ src.accepts s.total_lucky_map

theorem Lucked.Ok.keep {s : Lucked} (h : s.Ok src) {tem : LuckyMap}
    (hlegal : Legal src.xc_moreInfo_map tem) (hle : LuckyMap.Le s.total_lucky_map tem)
    {is_succ : Bool} (hsucc : checkMapEqualRate src.fuel src.high
      (getLuckyMoreinfoMap src.xc_moreInfo_map tem) tem src.rate = some is_succ) :
    (s.keep is_succ tem).Ok src := by
  cases is_succ with
  | false => exact h
  | true =>
      have hmap : (s.keep true tem).total_lucky_map = tem := mergeLucky_eq hle
      refine ⟨?_, h.typed, .inr ?_⟩
      · rw [hmap]
        exact hlegal
      · rw [hmap]
        exact hsucc

theorem dealOnceLian3_ok (hsrc : src.Ok) {lian3_data : List Lucky} {s : Lucked} (hs : s.Ok src) :
    Draw.Always (dealOnceLian3 src lian3_data s) fun r => r.2.Ok src := by
  refine .bind (createAll_legal hsrc hs.legal hs.typed) fun r hr => ?_
  refine .bind (Draw.always_ofOption _) fun is_succ hsucc => .pure ?_
  exact hs.keep hr.1 hr.2.1 hsucc

theorem dealOnceLianOther_ok (hsrc : src.Ok) {other_data : List Lucky} {s : Lucked}
    (hs : s.Ok src) :
    Draw.Always (dealOnceLianOther src false other_data s) fun r => r.2.Ok src := by
  refine .bind (createAll_legal hsrc hs.legal hs.typed) fun r hr => ?_
  refine .bind (Draw.always_ofOption _) fun is_succ hsucc => .pure ?_
  have hs' : Lucked.Ok src { s with xc_num_map := r.2 } := ⟨hs.legal, hr.2.2, hs.accepted⟩
  exact hs'.keep hr.1 hr.2.1 hsucc

theorem dealLian12345_ok {deal_func : List Lucky → Lucked → Draw (Bool × Lucked)}
    (hdeal : ∀ lian_data s, s.Ok src → Draw.Always (deal_func lian_data s) fun r => r.2.Ok src)
    {rest deal_times : Nat} {lian_data : List Lucky} {s : Lucked} (hs : s.Ok src) :
    Draw.Always (dealLian12345 deal_func rest deal_times lian_data s) fun r => r.2.Ok src := by
  induction rest generalizing deal_times lian_data s with
  | zero => exact .pure hs
  | succ rest ih =>
      rw [dealLian12345]
      by_cases hempty : lian_data = []
      · rw [if_pos hempty]
        exact ih hs
      rw [if_neg hempty]
      refine .bind (hdeal lian_data s hs) fun r hr => ?_
      obtain ⟨is_succ, s'⟩ := r
      cases is_succ with
      | true => exact .pure hr
      | false => exact ih hr

theorem dealLian12345_nil (deal_func : List Lucky → Lucked → Draw (Bool × Lucked))
    (rest deal_times : Nat) (s : Lucked) :
    dealLian12345 deal_func rest deal_times [] s = pure (false, s) := by
  induction rest with
  | zero => rfl
  | succ rest ih => rw [dealLian12345, if_pos rfl, ih]

/-! ## What has been read -/

theorem toNumber_le {c : Char} {n : Nat} (h : toNumber c = some n) : n ≤ 9 := by
  rw [toNumber] at h
  split_ifs at h with hc
  obtain rfl := Option.some.inj h
  rw [Char.isDigit, Bool.and_eq_true, decide_eq_true_eq, decide_eq_true_eq] at hc
  have hle : c.toNat ≤ 57 := hc.2
  omega

theorem mem_rowsOf {n : Nat} {cells row : List Nat} (h : row ∈ rowsOf n cells) :
    ∀ t ∈ row, t ∈ cells := by
  induction n generalizing cells with
  | zero => exact absurd h List.not_mem_nil
  | succ n ih =>
      intro t ht
      rcases List.mem_cons.mp h with rfl | h
      · exact List.mem_of_mem_take ht
      · exact List.mem_of_mem_drop (ih h t ht)

theorem known_board {str : List Char} {xc_map : List (List Nat)}
    (h : xcString2XcMap str = some xc_map) :
    Holds (Known (xcMap2MoreInfo xc_map)) (xcMap2MoreInfo xc_map) := by
  intro p a ha
  refine ⟨⟨p, a, ha, rfl⟩, ?_⟩
  obtain ⟨-, -, -, -, row, hrow, hcell⟩ := xcMap2MoreInfo_some ha
  rw [xcString2XcMap, Option.map_eq_some_iff] at h
  obtain ⟨cells, hcells, rfl⟩ := h
  have hmem := mem_rowsOf (List.mem_of_getElem? hrow) _ (List.mem_of_getElem? hcell)
  obtain ⟨c, -, hc⟩ := mapM_mem hcells _ hmem
  exact toNumber_le hc

theorem notXc_typed {m : MoreInfoMap} (hm : Holds (Known board) m) {len : Nat}
    {s s' : XcNumMap × List Nat} (h : visible.foldlM (notXcStep m len) s = some s')
    (hs : Typed s.1) : Typed s'.1 := by
  refine foldlM_preserves (Q := fun s => Typed s.1) (fun s p s' _ hstep hs => ?_) h hs
  rw [notXcStep, Option.bind_eq_bind, Option.bind_eq_some_iff] at hstep
  obtain ⟨it, hit, hstep⟩ := hstep
  split_ifs at hstep with hmem
  · obtain rfl := Option.some.inj hstep
    exact hs
  · rw [Option.bind_eq_bind, Option.bind_eq_some_iff] at hstep
    obtain ⟨other, -, hstep⟩ := hstep
    obtain rfl := Option.some.inj hstep
    intro count g hg
    dsimp only at hg
    rw [addGroup, Function.update_apply] at hg
    split_ifs at hg
    · rcases List.mem_append.mp hg with hg | hg
      · exact hs _ g hg
      · obtain rfl := List.mem_singleton.mp hg
        exact (hm p it hit).2
    · exact hs count g hg

theorem readSource_spec {fuel rate : Nat} {xc_str : List Char} {xc_num_map : XcNumMap}
    (h : readSource fuel xc_str rate = some (src, xc_num_map)) :
    ∃ xc_map, xcString2XcMap xc_str = some xc_map ∧ src.fuel = fuel ∧ src.rate = rate ∧
      src.high = xc_map.length ∧ src.xc_moreInfo_map = xcMap2MoreInfo xc_map ∧ src.Ok ∧
      Typed xc_num_map := by
  rw [readSource, Option.bind_eq_bind, Option.bind_eq_some_iff] at h
  obtain ⟨xc_map, hmap, h⟩ := h
  dsimp only at h
  rw [Option.bind_eq_bind, Option.bind_eq_some_iff] at h
  obtain ⟨⟨won, count, rounds⟩, hget, h⟩ := h
  rw [getXcNumMap, Option.map_eq_some_iff] at hget
  obtain ⟨⟨filled, s⟩, hs, hget⟩ := hget
  obtain ⟨rfl, -, rfl⟩ : (if filled then some s.xc_num_map else none) = won ∧
      s.lucky_lian_count = count ∧ some s.round_map = rounds := by
    simpa only [Prod.mk.injEq, if_true] using hget
  have hboard := known_board hmap
  have hall : AllHold (Known (xcMap2MoreInfo xc_map)) (· ≤ 9) s :=
    cascade_holds (fun _ ha => ⟨ha.1, Nat.zero_le 9⟩) (fun _ ha => ha.2) hs
      ⟨hboard, fun _ h => absurd h List.not_mem_nil, fun _ h => absurd h List.not_mem_nil⟩
  rw [Option.bind_eq_bind, Option.bind_eq_some_iff] at h
  obtain ⟨groups, hgroups, h⟩ := h
  dsimp only [Option.bind_eq_bind, Option.bind_some] at h
  rw [Option.bind_eq_some_iff] at h
  obtain ⟨notXc, hnot, h⟩ := h
  obtain ⟨rfl, rfl⟩ := Prod.mk.inj (Option.some.inj h)
  refine ⟨xc_map, hmap, rfl, rfl, rfl, rfl, hall.rounds, ?_⟩
  rw [getNotXcNumMap, Option.bind_eq_bind, Option.bind_eq_some_iff] at hnot
  obtain ⟨last, hlast, hnot⟩ := hnot
  rw [Option.bind_eq_bind, Option.bind_eq_some_iff] at hnot
  obtain ⟨s', hs', hnot⟩ := hnot
  obtain rfl := Option.some.inj hnot
  refine notXc_typed (hall.rounds last (List.mem_of_getLast? hlast)) hs' fun count g hg => ?_
  obtain rfl : s.xc_num_map = groups := by
    cases filled with
    | false => cases hgroups
    | true => exact Option.some.inj hgroups
  exact hall.groups g (List.mem_of_mem_filter hg)

end JyQipai.Xiaoxiaole.Match
