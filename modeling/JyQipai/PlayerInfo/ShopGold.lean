import JyQipai.PlayerInfo.Mirror

/-!
# The faces of the shop gold

Whenever the sum of the shop gold changes, `regroup_shop_gold_face` splits it into faces from the
largest to the smallest.  What is below the smallest face stays in the sum alone.
-/

namespace JyQipai.PlayerInfo

open Lib

/-! ## The split -/

variable {gold : Int} {faces : List (Int × String)}

theorem regroupFaces_cons {value : Int} {face : String} (hgold : 0 ≤ gold)
    (hface : ∀ f ∈ faces, f.2 ≠ face) (type : String) :
    (regroupFaces gold ((value, face) :: faces) type).getD 0 =
      if type = face then gold / value
      else (regroupFaces (gold % value) faces type).getD 0 := by
  have hnone : ∀ (gold : Int) (faces : List (Int × String)), (∀ f ∈ faces, f.2 ≠ face) →
      regroupFaces gold faces face = none := by
    intro gold faces
    induction faces generalizing gold with
    | nil => exact fun _ => rfl
    | cons f faces ih =>
        intro h
        obtain ⟨hne, h⟩ := List.forall_mem_cons.mp h
        rw [regroupFaces]
        split
        · rw [Function.update_of_ne (Ne.symm hne)]
          exact ih _ h
        · exact ih _ h
  rw [regroupFaces]
  split
  · by_cases htype : type = face
    · rw [if_pos htype, htype, Function.update_self, Option.getD_some]
    · rw [if_neg htype, Function.update_of_ne htype]
  · next hlt =>
    have hlt := not_le.mp hlt
    rw [Int.emod_eq_of_lt hgold hlt]
    by_cases htype : type = face
    · rw [if_pos htype, htype, hnone gold faces hface, Int.ediv_eq_zero_of_lt hgold hlt]
      rfl
    · rw [if_neg htype]

theorem regroupShopGold_eq (hgold : 0 ≤ gold) (type : String) :
    (regroupShopGold gold type).getD 0 =
      if type = "shop_gold_10000" then gold / 10000
      else if type = "shop_gold_1000" then gold % 10000 / 1000
      else if type = "shop_gold_100" then gold % 10000 % 1000 / 100
      else if type = "shop_gold_10" then gold % 10000 % 1000 % 100 / 10 else 0 := by
  unfold regroupShopGold shopGoldFaces
  rw [regroupFaces_cons hgold (by decide), regroupFaces_cons (by omega) (by decide),
    regroupFaces_cons (by omega) (by decide), regroupFaces_cons (by omega) (by decide)]
  rfl

/-! ## The counts in the record -/

theorem countIn_regroupFace (golds : String → Option Int) (props : Value → Option Fields)
    (face type : String) : countIn (regroupFace golds props face).1 type =
      if type = face then (golds type).getD 0 else countIn props type := by
  unfold regroupFace countIn
  dsimp only
  by_cases h : type = face
  · rw [if_pos h, h, Function.update_self]
    rfl
  · rw [if_neg h, Function.update_of_ne fun heq => h (Value.text.inj heq)]

theorem countIn_regroupProps (golds : String → Option Int) (faces : List (Int × String))
    (props : Value → Option Fields) (type : String) :
    countIn (regroupProps golds props faces).1 type =
      if type ∈ faces.map Prod.snd then (golds type).getD 0 else countIn props type := by
  induction faces generalizing props with
  | nil => rfl
  | cons face faces ih =>
      obtain ⟨value, face⟩ := face
      rw [regroupProps]
      refine (ih (regroupFace golds props face).1).trans ?_
      rw [countIn_regroupFace]
      simp only [List.map_cons, List.mem_cons]
      by_cases hmem : type ∈ faces.map Prod.snd
      · rw [if_pos hmem, if_pos (.inr hmem)]
      · rw [if_neg hmem]
        by_cases htype : type = face
        · rw [if_pos htype, if_pos (.inl htype)]
        · rw [if_neg htype, if_neg fun h => h.elim htype hmem]

def facesTotal (user : User) : Int := (shopGoldFaces.map fun f => f.1 * user.propCount f.2).sum

structure FacesAddUp (user : User) (sum : Int) : Prop where
  total : facesTotal user = sum - sum % 10
  nonneg : ∀ face ∈ shopGoldFaces, 0 ≤ user.propCount face.2
  small : ∀ face ∈ shopGoldFaces, face.1 < 10000 → user.propCount face.2 < 10

theorem facesAddUp_regroup {user regrouped : User} {sqls : Sql} (hgold : 0 ≤ gold)
    (hregroup : regroupShopGoldFace user gold = some (regrouped, sqls)) :
    FacesAddUp regrouped gold := by
  obtain ⟨props, -, heq⟩ := Option.map_eq_some_iff.mp hregroup
  have hprops : user.setKeyed .playerProp (regroupProps (regroupShopGold gold) props
      shopGoldFaces).1 = regrouped := congrArg Prod.fst heq
  have hcount : ∀ face ∈ shopGoldFaces,
      regrouped.propCount face.2 = (regroupShopGold gold face.2).getD 0 := by
    intro face hface
    rw [← hprops, propCount_setKeyed, countIn_regroupProps, if_pos (List.mem_map_of_mem hface)]
  constructor
  case total =>
    rw [facesTotal, List.map_congr_left fun face hface => by rw [hcount face hface]]
    simp [shopGoldFaces, regroupShopGold_eq hgold]
    omega
  case nonneg =>
    intro face hface
    rw [hcount face hface]
    exact regroupShopGold_nonneg gold face.2
  case small =>
    intro face hface hsmall
    rw [hcount face hface, regroupShopGold_eq hgold]
    simp only [shopGoldFaces, List.mem_cons, List.not_mem_nil, or_false] at hface
    rcases hface with rfl | rfl | rfl | rfl <;> simp at hsmall ⊢ <;> omega

/-! ## The calls -/

def changeShopGoldSum (debug real : Bool) (user : User) (change : Int) : Effect Bool :=
  changeCoin debug real user "shop_gold_sum" change

def changeShopGoldFace (debug real : Bool) (user : User) (type : String) (change : Int) :
    Effect Bool :=
  match faceValue type with
  | none => { user, result := none }
  | some value => changeShopGoldSum debug real user (value * change)

inductive ShopGoldCall where
  | sum (change : Int)
  | face (type : String) (change : Int)

namespace ShopGoldCall

def change : ShopGoldCall → Option Int
  | sum change => some change
  | face type change => (faceValue type).map (· * change)

def run (debug real : Bool) (user : User) : ShopGoldCall → Effect Bool
  | sum change => changeShopGoldSum debug real user change
  | face type change => changeShopGoldFace debug real user type change

end ShopGoldCall

def runCalls (debug real : Bool) (user : User) (calls : List ShopGoldCall) : User :=
  calls.foldl (fun user call => (call.run debug real user).user) user

structure HasShopGold (user : User) (sum : Int) : Prop where
  sum : user.number? .playerAsset "shop_gold_sum" = some sum
  props : (user.keyed .playerProp).isSome

variable (debug real : Bool) {user : User} {sum : Int}

theorem changeShopGoldSum_spec (h : HasShopGold user sum) (change : Int) :
    HasShopGold (changeShopGoldSum debug real user change).user (sum + change) ∧
      (0 ≤ sum + change →
        FacesAddUp (changeShopGoldSum debug real user change).user (sum + change)) := by
  have huser : (changeShopGoldSum debug real user change).user =
      (changePlayerAsset debug user .playerAsset "shop_gold_sum" change true).user := by
    unfold changeShopGoldSum changeCoin logChange
    split <;> rfl
  have hsum : (changePlayerAsset debug user .playerAsset "shop_gold_sum" change
      true).user.number? .playerAsset "shop_gold_sum" = some (sum + change) :=
    (changePlayerAsset_number? h.sum _ _).trans (if_pos ⟨rfl, rfl⟩)
  obtain ⟨tdata, htable, hfield⟩ := Option.bind_eq_some_iff.mp h.sum
  obtain ⟨props, hprops⟩ := Option.isSome_iff_exists.mp h.props
  let before := user.setPlain .playerAsset (tdata.put "shop_gold_sum" (.number (sum + change)))
  have hregroup : regroupShopGoldFace before (sum + change) =
      some (before.setKeyed .playerProp (regroupProps (regroupShopGold (sum + change)) props
        shopGoldFaces).1, (regroupProps (regroupShopGold (sum + change)) props
        shopGoldFaces).2) := by
    have hbefore : before.keyed .playerProp = some props := hprops
    rw [regroupShopGoldFace, hbefore]
    rfl
  have hafter : (changePlayerAsset debug user .playerAsset "shop_gold_sum" change true).user =
      before.setKeyed .playerProp (regroupProps (regroupShopGold (sum + change)) props
        shopGoldFaces).1 := by
    unfold changePlayerAsset
    rw [htable]
    dsimp only
    rw [hfield]
    dsimp only
    rw [if_pos rfl, hregroup]
  rw [huser]
  refine ⟨⟨hsum, ?_⟩, fun hpos => ?_⟩
  · rw [hafter]
    rfl
  · rw [hafter]
    exact facesAddUp_regroup hpos hregroup

theorem run_spec (h : HasShopGold user sum) (call : ShopGoldCall) :
    HasShopGold (call.run debug real user).user (sum + call.change.getD 0) ∧
      (call.change.isSome → 0 ≤ sum + call.change.getD 0 →
        FacesAddUp (call.run debug real user).user (sum + call.change.getD 0)) := by
  cases call with
  | sum change =>
      obtain ⟨hkeeps, hadds⟩ := changeShopGoldSum_spec debug real h change
      exact ⟨hkeeps, fun _ => hadds⟩
  | face type change =>
      have hrun : (ShopGoldCall.face type change).run debug real user =
        changeShopGoldFace debug real user type change := rfl
      have hchange : (ShopGoldCall.face type change).change =
        (faceValue type).map (· * change) := rfl
      rw [hrun, hchange]
      unfold changeShopGoldFace
      cases faceValue type with
      | none => exact ⟨(add_zero sum).symm ▸ h, fun hsome => absurd hsome Bool.false_ne_true⟩
      | some value =>
          obtain ⟨hkeeps, hadds⟩ := changeShopGoldSum_spec debug real h (value * change)
          exact ⟨hkeeps, fun _ => hadds⟩

theorem runCalls_spec (h : HasShopGold user sum) (calls : List ShopGoldCall) :
    HasShopGold (runCalls debug real user calls)
      (sum + (calls.map fun call => call.change.getD 0).sum) := by
  induction calls generalizing user sum with
  | nil => exact (add_zero sum).symm ▸ h
  | cons call calls ih =>
      have hstep := ih (run_spec debug real h call).1
      rw [List.map_cons, List.sum_cons, ← add_assoc]
      exact hstep

/-- After each call that leaves a sum of zero or more, the faces add up to the sum without its last
digit, and only the largest face may occur ten times or more often. -/
theorem shop_gold_faces_add_up (h : HasShopGold user sum)
    (calls : List ShopGoldCall) (last : ShopGoldCall) (hlast : last.change.isSome) :
    ∃ after, HasShopGold (runCalls debug real user (calls ++ [last])) after ∧
      (0 ≤ after → FacesAddUp (runCalls debug real user (calls ++ [last])) after) := by
  obtain ⟨hkeeps, hadds⟩ := run_spec debug real (runCalls_spec debug real h calls) last
  unfold runCalls at hkeeps hadds ⊢
  rw [List.foldl_append]
  exact ⟨_, hkeeps, hadds hlast⟩

def newUser : User := (createPlayerInfo "id" false [] [] [] 1).user

theorem shop_gold_faces_add_up_new :
    ∃ after, HasShopGold
      (runCalls false true newUser ([.sum 12345] ++ [.face "shop_gold_100" (-3)]))
        after ∧
      (0 ≤ after →
        FacesAddUp (runCalls false true newUser ([.sum 12345] ++ [.face "shop_gold_100" (-3)]))
          after) :=
  shop_gold_faces_add_up false true (show HasShopGold newUser 0 from ⟨rfl, rfl⟩) [.sum 12345]
    (.face "shop_gold_100" (-3)) rfl

end JyQipai.PlayerInfo
