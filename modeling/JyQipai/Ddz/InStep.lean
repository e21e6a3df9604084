import JyQipai.Ddz.Window

/-!
# The agents follow the table

What an agent keeps of a hand - its cards, the cards that each seat has left, the counter of the
cards it has not seen, the wildcard and the last actions - is what the table has, at every point at
which the agent has processed the messages of the table.
-/

namespace JyQipai.Ddz

open JyQipai.Lib
open Table (ChupaiArgs)

namespace Agent

/-! ## Messages without cards -/

structure KeepsCards (a b : Agent) : Prop where
  paiData : b.paiData = a.paiData
  paiList : b.paiList = a.paiList
  remainPai : b.remainPai = a.remainPai
  jipaiqi : b.jipaiqi = a.jipaiqi
  dizhu : b.dizhu = a.dizhu
  laizi : b.laizi = a.laizi ∧ b.laiziNum = a.laiziNum
  ready : a.ready.isSome → b.ready.isSome

theorem KeepsCards.refl (a : Agent) : KeepsCards a a := ⟨rfl, rfl, rfl, rfl, rfl, ⟨rfl, rfl⟩, id⟩

theorem KeepsCards.trans {a b c : Agent} (h : KeepsCards a b) (h' : KeepsCards b c) :
    KeepsCards a c :=
  ⟨h'.paiData.trans h.paiData, h'.paiList.trans h.paiList, h'.remainPai.trans h.remainPai,
    h'.jipaiqi.trans h.jipaiqi, h'.dizhu.trans h.dizhu,
    ⟨h'.laizi.1.trans h.laizi.1, h'.laizi.2.trans h.laizi.2⟩, fun ha => h'.ready (h.ready ha)⟩

theorem keepsCards_addAct (a : Agent) (act : Act) : KeepsCards a (a.addAct act) :=
  ⟨rfl, rfl, rfl, rfl, rfl, ⟨rfl, rfl⟩, id⟩

theorem keepsCards_foldl_addAct (acts : List Act) (a : Agent) :
    KeepsCards a (acts.foldl addAct a) := by
  induction acts generalizing a with
  | nil => exact .refl a
  | cons act acts ih => exact (keepsCards_addAct a act).trans (ih _)

theorem keepsCards_addMldAct (a : Agent) (act : Act) : KeepsCards a (a.addMldAct act) := by
  unfold addMldAct
  dsimp only
  split <;> exact ⟨rfl, rfl, rfl, rfl, rfl, ⟨rfl, rfl⟩, id⟩

theorem onlyBids_addMldAct {a : Agent} (h : OnlyBids a.actList) {act : Act} (hact : act.IsBid) :
    OnlyBids (a.addMldAct act).actList := by
  unfold addMldAct
  dsimp only
  split
  · exact h
  · exact h.addAct hact

theorem mldJdzPermit_same (a : Agent) (curP : Nat) (isMustMen : Bool) :
    KeepsCards a (a.mldJdzPermit curP isMustMen) ∧
      (a.mldJdzPermit curP isMustMen).actList = a.actList := by
  unfold mldJdzPermit
  dsimp only
  split
  · split
    · exact ⟨⟨rfl, rfl, rfl, rfl, rfl, ⟨rfl, rfl⟩, id⟩, rfl⟩
    · split
      · exact ⟨⟨rfl, rfl, rfl, rfl, rfl, ⟨rfl, rfl⟩, id⟩, rfl⟩
      · split <;> exact ⟨⟨rfl, rfl, rfl, rfl, rfl, ⟨rfl, rfl⟩, id⟩, rfl⟩
  · exact ⟨⟨rfl, rfl, rfl, rfl, rfl, ⟨rfl, rfl⟩, id⟩, rfl⟩

theorem receive_silent (a : Agent) {msg : Msg} (h : msg.Silent) :
    KeepsCards a (a.receive msg) ∧ (a.receive msg).actList = a.actList := by
  cases msg with
  | playerExit seat =>
      simp only [receive]
      split
      · exact ⟨.refl a, rfl⟩
      · exact ⟨⟨rfl, rfl, rfl, rfl, rfl, ⟨rfl, rfl⟩, fun _ => rfl⟩, rfl⟩
  | mldJdzPermit curP isMustMen => exact a.mldJdzPermit_same curP isMustMen
  | settlement isChuntian isOver =>
      refine ⟨⟨rfl, rfl, rfl, rfl, rfl, ⟨rfl, rfl⟩, fun ha => ?_⟩, rfl⟩
      cases isOver
      · exact rfl
      · exact ha
  | _ => first
    | exact h.elim
    | exact ⟨⟨rfl, rfl, rfl, rfl, rfl, ⟨rfl, rfl⟩, id⟩, rfl⟩

theorem receive_neutral (a : Agent) {msg : Msg} (h : msg.Neutral) :
    KeepsCards a (a.receive msg) ∧ (OnlyBids a.actList → OnlyBids (a.receive msg).actList) := by
  have hsilent (hs : msg.Silent) : KeepsCards a (a.receive msg) ∧
      (OnlyBids a.actList → OnlyBids (a.receive msg).actList) := by
    obtain ⟨hk, ha⟩ := a.receive_silent hs
    exact ⟨hk, fun hb => ha ▸ hb⟩
  cases msg with
  | jdz act => exact ⟨a.keepsCards_addAct act, fun hb => hb.addAct h⟩
  | erQdz act =>
      simp only [receive]
      split
      · split
        · exact ⟨.refl a, id⟩
        · next n hn =>
          refine ⟨⟨rfl, rfl, rfl, rfl, rfl, ⟨rfl, rfl⟩, id⟩, fun hb => ?_⟩
          exact OnlyBids.addAct (a := { a with qiangDzCount := some (n + 1) }) hb h
      · exact ⟨a.keepsCards_addAct act, fun hb => hb.addAct h⟩
  | myJiabei act => exact ⟨⟨rfl, rfl, rfl, rfl, rfl, ⟨rfl, rfl⟩, id⟩, fun hb => hb.addAct h⟩
  | jiabei acts rate =>
      refine ⟨a.keepsCards_foldl_addAct _, fun hb => hb.foldl_addAct fun act hact => ?_⟩
      exact h act (List.mem_of_mem_filter hact)
  | mldMen act =>
      simp only [receive]
      split
      · split
        · exact ⟨.refl a, id⟩
        · exact ⟨a.keepsCards_addAct act, fun hb => hb.addAct h⟩
      · next men _ =>
        obtain ⟨h1, h2, h3, h4, h5, h6, h7⟩ := a.keepsCards_addMldAct act
        exact ⟨⟨h1, h2, h3, h4, h5, h6, h7⟩, fun hb => onlyBids_addMldAct hb h⟩
  | mldZp act => exact ⟨a.keepsCards_addMldAct act, fun hb => onlyBids_addMldAct hb h⟩
  | mldDao act => exact ⟨a.keepsCards_addMldAct act, fun hb => onlyBids_addMldAct hb h⟩
  | mldLa act =>
      obtain ⟨h1, h2, h3, h4, h5, h6, h7⟩ := a.keepsCards_addMldAct act
      exact ⟨⟨h1, h2, h3, h4, h5, h6, h7⟩, fun hb => onlyBids_addMldAct hb h⟩
  | _ => exact hsilent h

/-! ## A new hand -/

structure Cleared (a : Agent) : Prop where
  paiData : a.paiData = none
  dizhu : a.dizhu = 0
  laizi : a.laizi = 0 ∧ a.laiziNum = 0
  actList : a.actList = []

theorem Cleared.keeps {a b : Agent} (h : a.Cleared) (hk : KeepsCards a b)
    (hacts : b.actList = a.actList) : b.Cleared :=
  ⟨hk.paiData.trans h.paiData, hk.dizhu.trans h.dizhu,
    ⟨hk.laizi.1.trans h.laizi.1, hk.laizi.2.trans h.laizi.2⟩, hacts.trans h.actList⟩

end Agent

def handData (pai : Finset Nat) : PaiData := ⟨pai, some fun type => getPaiTypeHash pai type⟩

/-! ## Counting ranks -/

theorem getPaiTypeHash_sdiff {pai cards : Finset Nat} (h : cards ⊆ pai) (type : Nat) :
    (getPaiTypeHash (pai \ cards) type : Int) =
      getPaiTypeHash pai type - getPaiTypeHash cards type := by
  have hsub : cards.filter (fun id => paiMap id = type) ⊆ pai.filter fun id => paiMap id = type :=
    Finset.filter_subset_filter _ h
  have hfilter : (pai \ cards).filter (fun id => paiMap id = type) =
      pai.filter (fun id => paiMap id = type) \ cards.filter fun id => paiMap id = type := by
    ext id
    simp only [Finset.mem_filter, Finset.mem_sdiff]
    tauto
  rw [getPaiTypeHash, hfilter, Finset.card_sdiff_of_subset hsub,
    Nat.cast_sub (Finset.card_le_card hsub)]
  rfl

theorem getPaiTypeHash_union {pai cards : Finset Nat} (h : Disjoint pai cards) (type : Nat) :
    getPaiTypeHash (pai ∪ cards) type = getPaiTypeHash pai type + getPaiTypeHash cards type := by
  rw [getPaiTypeHash, Finset.filter_union, Finset.card_union_of_disjoint]
  · rfl
  · exact Finset.disjoint_filter_filter h

theorem getPaiTypeHash_toFinset {ids : List Nat} (h : ids.Nodup) (type : Nat) :
    getPaiTypeHash ids.toFinset type = ids.countP fun id => paiMap id = type := by
  rw [List.countP_eq_length_filter, ← List.toFinset_card_of_nodup (h.filter _),
    List.toFinset_filter]
  simp [getPaiTypeHash]

theorem CpList.getPaiTypeHash_cards {cp : CpList} {hand : Finset Nat} {laizi : Option Nat}
    (h : cp.FromHand hand laizi) (type : Nat) :
    getPaiTypeHash (cp.cards hand laizi) type =
      (cp.norIds.countP fun id => paiMap id = type) +
        if laizi = some type then cp.lzIds.length else 0 := by
  have hdisj : Disjoint cp.norIds.toFinset (cp.lzCards hand laizi).toFinset := by
    rw [List.disjoint_toFinset_iff_disjoint]
    intro id hnor hlz
    exact h.nor_lz id hnor _ (mem_lzCards h hlz).2 rfl
  rw [cards, getPaiTypeHash_union hdisj, getPaiTypeHash_toFinset h.nor_nodup,
    getPaiTypeHash_toFinset (nodup_lzCards cp hand laizi), ← length_lzCards h]
  congr 1
  split
  · next hlz =>
    rw [List.countP_eq_length]
    intro id hid
    have hrank := (mem_lzCards h hid).2
    rw [hlz] at hrank
    exact decide_eq_true (Option.some.inj hrank).symm
  · next hlz =>
    rw [List.countP_eq_zero]
    intro id hid hrank
    exact hlz (of_decide_eq_true hrank ▸ (mem_lzCards h hid).2)

/-! ## Plays -/

theorem deductNor_hash (pai : Finset Nat) (h : Nat → Int) (nor : List Nat) :
    (deductNor ⟨pai, some h⟩ nor).hash =
      some fun type => h type - (nor.countP fun id => paiMap id = type : Nat) := by
  induction nor generalizing pai h with
  | nil => simp [deductNor]
  | cons id nor ih =>
      rw [deductNor, List.foldl_cons, ← deductNor]
      refine (ih _ _).trans (congrArg some ?_)
      funext type
      beta_reduce
      rw [Function.update_apply, List.countP_cons]
      by_cases h : paiMap id = type
      · subst h
        simp
        omega
      · simp [h, Ne.symm h]

theorem deductLz_hash (lz : Nat) (ids : List Nat) (num : Nat) (pai : Finset Nat)
    (h : Nat → Int) (hids : ids.Nodup) :
    (deductLz lz ids num ⟨pai, some h⟩).hash =
      some fun type => h type -
        (if lz = type then ((ids.filter (· ∈ pai)).take num).length else 0 : Nat) := by
  induction ids generalizing num pai h with
  | nil => simp [deductLz]
  | cons i ids ih =>
      obtain ⟨hi, hids⟩ := List.nodup_cons.mp hids
      rw [deductLz]
      cases num with
      | zero => simp
      | succ num =>
          rw [if_neg (by omega)]
          split
          · next hmem =>
            have hfilter : ids.filter (· ∈ pai.erase i) = ids.filter (· ∈ pai) := by
              refine List.filter_congr fun x hx => ?_
              have hne : x ≠ i := by
                rintro rfl
                exact hi hx
              simp [hne]
            refine (ih _ _ _ hids).trans (congrArg some ?_)
            funext type
            beta_reduce
            rw [Nat.add_sub_cancel, hfilter, Function.update_apply,
              List.filter_cons_of_pos (by simpa using hmem), List.take_succ_cons,
              List.length_cons]
            by_cases hlz : lz = type
            · subst hlz
              simp
              omega
            · simp [hlz, Ne.symm hlz]
          · next hmem =>
            refine (ih _ _ _ hids).trans (congrArg some ?_)
            rw [List.filter_cons_of_neg (by simpa using hmem)]

theorem deduct_handData {cp : CpList} {pai : Finset Nat} {laizi : Option Nat}
    (h : cp.FromHand pai laizi) :
    deductPaiByCpList (handData pai) (some cp) laizi =
      (handData (pai \ cp.cards pai laizi), true) := by
  obtain ⟨hpai, hok⟩ := deductPaiByCpList_pai (handData pai) h
  have hhash : (deductPaiByCpList (handData pai) (some cp) laizi).1.hash =
      some fun type => (getPaiTypeHash (pai \ cp.cards pai laizi) type : Int) := by
    have hnor := deductNor_hash pai (fun type => getPaiTypeHash pai type) cp.norIds
    have hnorPai := deductNor_pai (handData pai) cp.norIds
    have hsdiff := getPaiTypeHash_sdiff (CpList.cards_subset h)
    have hcards := CpList.getPaiTypeHash_cards h
    have hlen := CpList.length_lzCards h
    unfold deductPaiByCpList handData
    unfold handData at hnorPai
    dsimp only
    cases hlz : cp.lz with
    | none =>
        dsimp only
        rw [hnor, Option.some_inj]
        funext type
        have hnil : cp.lzIds.length = 0 := by simp [CpList.lzIds, hlz]
        rw [hsdiff, hcards, hnil]
        simp
    | some l =>
        obtain ⟨lz, rfl⟩ := Option.isSome_iff_exists.mp (h.lz_some (by simp [hlz]))
        dsimp only
        generalize deductNor _ cp.norIds = d at hnor hnorPai
        obtain ⟨dpai, dhash⟩ := d
        obtain rfl : dhash = _ := hnor
        obtain rfl : dpai = _ := hnorPai
        rw [deductLz_hash _ _ _ _ _ (idsOfType_nodup lz), Option.some_inj]
        funext type
        have hfilter : (idsOfType lz).filter (· ∈ pai \ cp.norIds.toFinset) =
            (idsOfType lz).filter (· ∈ pai) := by
          refine List.filter_congr fun x hx => ?_
          have hx' : x ∉ cp.norIds := fun hmem =>
            h.nor_lz x hmem lz rfl ((mem_idsOfType (h.lz_rank lz rfl)).mp hx)
          simp [hx']
        have hlzIds : l.length = cp.lzIds.length := by simp [CpList.lzIds, hlz]
        have hlzCards : ((idsOfType lz).filter (· ∈ pai)).take cp.lzIds.length =
            cp.lzCards pai (some lz) := rfl
        rw [hfilter, hlzIds, hlzCards, hlen, hsdiff, hcards]
        simp only [Option.some_inj]
        push_cast
        omega
  exact Prod.ext (congrArg₂ PaiData.mk hpai hhash) hok

theorem jipaiqi_fromHand {cp : CpList} {pai : Finset Nat} {laizi : Option Nat}
    (h : cp.FromHand pai laizi) (hrank : ∀ lz ∈ laizi, lz ∈ paiRanks) (count : Nat → Int) :
    jipaiqi (some cp) count (laizi.getD 0) =
      some fun type => count type - getPaiTypeHash (cp.cards pai laizi) type := by
  have hnor : jipaiqiNor cp.norIds count =
      fun type => count type - (cp.norIds.countP fun id => paiMap id = type : Nat) := by
    funext type
    rw [jipaiqiNor, Multiset.coe_countP]
  have hcards := CpList.getPaiTypeHash_cards h
  unfold jipaiqi
  dsimp only
  rw [hnor]
  cases hlz : cp.lz with
  | none =>
      have hnil : cp.lzIds.length = 0 := by simp [CpList.lzIds, hlz]
      dsimp only
      rw [Option.some_inj]
      funext type
      rw [hcards, hnil]
      simp
  | some l =>
      obtain ⟨lz, rfl⟩ := Option.isSome_iff_exists.mp (h.lz_some (by simp [hlz]))
      have hmem := hrank lz rfl
      have hne : lz ≠ 0 := by
        rintro rfl
        simp [paiRanks] at hmem
      have hlen : l.length = cp.lzIds.length := by simp [CpList.lzIds, hlz]
      dsimp only [Option.getD_some]
      rw [if_neg hne, Option.some_inj]
      funext type
      rw [hcards, Function.update_apply, hlen]
      by_cases htype : type = lz
      · subst htype
        simp
        omega
      · simp [htype, Ne.symm htype]

theorem wildcards_sdiff {cp : CpList} {pai : Finset Nat} {laizi : Option Nat}
    (h : cp.FromHand pai laizi) :
    (laizi.elim 0 fun lz => (getPaiTypeHash (pai \ cp.cards pai laizi) lz : Int)) =
      (laizi.elim 0 fun lz => (getPaiTypeHash pai lz : Int)) - cp.lzIds.length := by
  have hsub := CpList.cards_subset h
  cases laizi with
  | none =>
      have hnone : cp.lz = none := by simpa using mt h.lz_some
      simp [CpList.lzIds, hnone]
  | some lz =>
      have hnor : cp.norIds.countP (fun id => paiMap id = lz) = 0 := by
        rw [List.countP_eq_zero]
        intro id hid heq
        exact h.nor_lz id hid lz rfl (of_decide_eq_true heq)
      change (getPaiTypeHash _ lz : Int) = (getPaiTypeHash _ lz : Int) - _
      rw [getPaiTypeHash_sdiff hsub, CpList.getPaiTypeHash_cards h, if_pos rfl, hnor, Nat.zero_add]

namespace Agent

section CpMsg

variable {a : Agent} {act : Act}

theorem cpMsg_eq (act : Act) {remain : Nat → Int} (hremain : a.remainPai = some remain)
    (htype : act.type ≠ 0) :
    ∃ b : Agent, b.paiData = a.paiData ∧ b.jipaiqi = a.jipaiqi ∧ b.dizhu = a.dizhu ∧
      b.laizi = a.laizi ∧ b.laiziNum = a.laiziNum ∧ b.actList = (a.addAct act).actList ∧
      b.remainPai = some (Function.update remain act.p
        (remain act.p - act.mergeCpList.length)) ∧
      a.cpMsg act = if act.p = a.seatNum then b.ownPlay act else b.otherPlay act := by
  refine ⟨{ a.addAct act with remainPai := some (Function.update remain act.p
    (remain act.p - act.mergeCpList.length)) }, rfl, rfl, rfl, rfl, rfl, rfl, rfl, ?_⟩
  unfold cpMsg
  dsimp only
  rw [if_neg htype]
  simp only [addAct, hremain]

theorem ownPlay_eq {data data' : PaiData} (hdata : a.paiData = some data)
    (h : deductPaiByCpList data act.cpList a.laiziType = (data', true)) :
    a.ownPlay act = { a with
      paiData := some data'
      laiziNum := a.laiziNum - act.laziNum } := by
  simp only [ownPlay, hdata, h]

theorem otherPlay_eq {count count' : Nat → Int} (hcount : a.jipaiqi = some count)
    (h : Ddz.jipaiqi act.cpList count a.laizi = some count') :
    a.otherPlay act = { a with jipaiqi := some count' } := by
  simp only [otherPlay, hcount, h]

end CpMsg

/-! ## The bottom cards -/

theorem jipaiqiNor_val (pai : Finset Nat) (count : Nat → Int) :
    jipaiqiNor pai.val count = fun type => count type - getPaiTypeHash pai type := by
  funext type
  rw [jipaiqiNor, getPaiTypeHash, Multiset.countP_eq_card_filter, ← Finset.filter_val]
  rfl

theorem takeDzPai_of_disjoint {a : Agent} {pai : Finset Nat} {dzPai : List Nat}
    (hdata : a.paiData = some (handData pai)) (hlist : a.paiList = some pai.val)
    (hnodup : dzPai.Nodup) (hdisj : Disjoint pai dzPai.toFinset) :
    a.takeDzPai dzPai = some { a with
      paiData := some (handData (pai ∪ dzPai.toFinset))
      paiList := some (pai ∪ dzPai.toFinset).val } := by
  have hval : pai.val + (dzPai : Multiset Nat) = (pai ∪ dzPai.toFinset).val := by
    rw [val_union hdisj, List.toFinset_val, List.dedup_eq_self.mpr hnodup]
  rw [takeDzPai, hdata, hlist]
  dsimp only
  rw [hval]
  rfl

/-- The agent knows the landlord `d`, who has taken the bottom cards, and has the cards `pai`. -/
structure Took (a b : Agent) (d : Nat) (pai : Finset Nat) : Prop where
  paiData : b.paiData = some (handData pai)
  jipaiqi : b.jipaiqi = some fun type => getAllPaiCount a.gameType type - getPaiTypeHash pai type
  remainPai : b.remainPai = a.remainPai.map fun remain => Function.update remain d 20
  dizhu : b.dizhu = d
  laizi : b.laizi = a.laizi ∧ b.laiziNum = a.laiziNum
  actList : b.actList = a.actList

section Took

variable {a : Agent} {pai : Finset Nat} {dzPai : List Nat}

theorem took_dizhuMsg (hmld : a.isMld = false) (hremain : a.remainPai.isSome)
    (hdata : a.paiData = some (handData pai)) (hlist : a.paiList = some pai.val)
    (hnodup : dzPai.Nodup) (hdisj : Disjoint pai dzPai.toFinset) (hlen : dzPai.length = 3)
    (d : Nat) :
    Took a (a.dizhuMsg d dzPai) d (if d = a.seatNum then pai ∪ dzPai.toFinset else pai) := by
  obtain ⟨remain, hremain⟩ := Option.isSome_iff_exists.mp hremain
  have htake : dzPai.take 3 = dzPai := List.take_of_length_le hlen.le
  rw [dizhuMsg, if_neg (by simp [hmld]), hremain, htake]
  dsimp only
  split
  · have htook := takeDzPai_of_disjoint (a := { a with
      remainPai := some (Function.update remain d 20)
      status := .setDz
      dizhu := d }) hdata hlist hnodup hdisj
    rw [htook]
    refine ⟨rfl, ?_, by rw [hremain]; rfl, rfl, ⟨rfl, rfl⟩, rfl⟩
    exact congrArg some (jipaiqiNor_val _ _)
  · refine ⟨hdata, ?_, by rw [hremain]; rfl, rfl, ⟨rfl, rfl⟩, rfl⟩
    rw [initJipaiqi_jipaiqi]
    dsimp only
    rw [hlist]
    exact congrArg some (jipaiqiNor_val _ _)

theorem took_mldDizhuPaiMsg (hremain : a.remainPai.isSome)
    (hdata : a.paiData = some (handData pai)) (hlist : a.paiList = some pai.val)
    (hnodup : dzPai.Nodup) (hdisj : Disjoint pai dzPai.toFinset) (hlen : dzPai.length = 3)
    {msg : Option (List Nat)} (hmsg : a.dizhu = a.seatNum → msg = some dzPai) :
    Took a (a.mldDizhuPaiMsg msg) a.dizhu
      (if a.dizhu = a.seatNum then pai ∪ dzPai.toFinset else pai) := by
  obtain ⟨remain, hremain⟩ := Option.isSome_iff_exists.mp hremain
  have htake : dzPai.take 3 = dzPai := List.take_of_length_le hlen.le
  unfold mldDizhuPaiMsg
  split
  · next hown =>
    rw [hmsg hown, Option.getD_some, htake, takeDzPai_of_disjoint hdata hlist hnodup hdisj]
    dsimp only
    rw [hremain]
    refine ⟨rfl, ?_, by rw [hremain]; rfl, rfl, ⟨rfl, rfl⟩, rfl⟩
    exact congrArg some (jipaiqiNor_val _ _)
  · dsimp only
    rw [hremain]
    refine ⟨hdata, ?_, by rw [hremain]; rfl, rfl, ⟨rfl, rfl⟩, rfl⟩
    rw [initJipaiqi_jipaiqi]
    dsimp only
    rw [hlist]
    exact congrArg some (jipaiqiNor_val _ _)

end Took

end Agent

namespace Table

/-! ## What an agent should know -/

/-- The agent of the seat has been shown its cards, if the hand is dealt. -/
def Shown (t : Table) (s : Nat) : Prop := t.cfg.isMld → t.pKanPai s

def wildcards (t : Table) (s : Nat) : Int :=
  t.laizi.elim 0 fun lz => getPaiTypeHash (t.play.pai s) lz

def unseen (t : Table) (s type : Nat) : Int :=
  getAllPaiCount t.cfg.gameType type - getPaiTypeHash (t.play.pai s) type -
    getPaiTypeHash t.played type

structure Follows (t : Table) (s : Nat) (a : Agent) : Prop where
  paiData : t.Shown s → a.paiData = some (handData (t.play.pai s))
  hidden : ¬ t.Shown s → a.paiData = none
  seen : t.dzTaken = true → t.Shown s
  paiList : t.Shown s → t.dzTaken = false → a.paiList = some (t.play.pai s).val
  dizhu : a.dizhu = t.play.dizhu
  remainPai : ∃ remain, a.remainPai = some remain ∧
    ∀ p ∈ t.cfg.seatList, remain p = t.play.remainPai p
  jipaiqi : t.dzTaken = true → a.jipaiqi = some (t.unseen s)
  laizi : t.AtCp ∨ t.cfg.gameType ≠ .lz →
    a.laizi = t.laizi.getD 0 ∧ a.laiziNum = t.wildcards s
  acts : Window t.play.actList a.actList

section Follows

variable {t u : Table} {s p : Nat} {a b : Agent} {args : ChupaiArgs}

theorem Follows.of_keeps (h : Follows t s a) (hkeeps : Keeps t u)
    (hdizhu : u.play.dizhu = t.play.dizhu) (hpKan : u.pKanPai = t.pKanPai)
    (hcp : u.AtCp → t.AtCp ∨ t.cfg.gameType ≠ .lz) (hk : a.KeepsCards b)
    (hw : Window u.play.actList b.actList) : Follows u s b := by
  obtain ⟨hcfg, hpai, hremain, -, hplayed, hdz, hlz⟩ := hkeeps
  have hshown : u.Shown s ↔ t.Shown s := by simp only [Shown, hcfg, hpKan]
  refine ⟨fun hs => ?_, fun hs => ?_, fun ht => hshown.mpr (h.seen (hdz ▸ ht)), fun hs ht => ?_, ?_,
    ?_, fun ht => ?_, fun ht => ?_, hw⟩
  · rw [hk.paiData, hpai]
    exact h.paiData (hshown.mp hs)
  · rw [hk.paiData]
    exact h.hidden (mt hshown.mpr hs)
  · rw [hk.paiList, hpai]
    exact h.paiList (hshown.mp hs) (hdz ▸ ht)
  · rw [hk.dizhu, hdizhu, h.dizhu]
  · rw [hk.remainPai, hcfg, hremain]
    exact h.remainPai
  · rw [hk.jipaiqi, h.jipaiqi (hdz ▸ ht)]
    simp only [Option.some.injEq]
    funext type
    rw [unseen, unseen, hcfg, hpai, hplayed]
  · rw [hcfg] at ht
    rw [hk.laizi.1, hk.laizi.2, wildcards, hlz, hpai]
    exact h.laizi (ht.elim hcp .inr)

theorem Follows.of_rests (h : Follows t s a) (hr : Rests t u) (hk : a.KeepsCards b)
    (hw : Window u.play.actList b.actList) : Follows u s b :=
  h.of_keeps hr.keeps hr.dizhu hr.pKanPai hr.goesOn.atCp hk hw

variable {kaiguan : Nat → Bool}

theorem agent_map {m : Nat → Msg} (hc : u.cfg = t.cfg)
    (ho : u.outbox = t.outbox ++ t.seats.map fun p => (p, m p)) (hs : s ∈ t.seats) :
    u.agent kaiguan s = (t.agent kaiguan s).receive (m s) := by
  rw [agent_append hc ho, msgsTo_seats, if_pos hs]
  rfl

theorem gameType_agent (t : Table) (s : Nat) :
    (t.agent kaiguan s).gameType = t.cfg.gameType := (t.agent_sameSeat s).gameType

theorem seatNum_agent (t : Table) (s : Nat) : (t.agent kaiguan s).seatNum = s :=
  (t.agent_sameSeat s).seatNum

theorem isMld_agent (t : Table) (s : Nat) : (t.agent kaiguan s).isMld = t.cfg.isMld := by
  rw [Agent.isMld, (t.agent_sameSeat s).jdzType]
  rfl

theorem fapai_dealt (h : t.Fresh) (ρ : Nat → Nat) (rand : Nat) :
    ({ t with updating := none }.fapai ρ rand).Conserved ∧
      ({ t with updating := none }.fapai ρ rand).play.actList = [] ∧
      ({ t with updating := none }.fapai ρ rand).play.dizhu = 0 ∧
      ({ t with updating := none }.fapai ρ rand).dzTaken = false := by
  have hdealt := dealt_conserved h ρ
  obtain ⟨hplay, -, hdz⟩ := h
  have hact : t.play.actList = [] ∧ t.play.dizhu = 0 := by
    rw [hplay]
    exact ⟨rfl, rfl⟩
  unfold fapai
  dsimp only
  split
  · refine ⟨?_, hact.1, hact.2, hdz⟩
    exact Keeps.conserved (t := { t with play := norFapai (xipai t.cfg ρ) t.play 17 })
      ⟨rfl, rfl, rfl, rfl, rfl, rfl, rfl⟩ hdealt
  · refine ⟨?_, hact.1, hact.2, hdz⟩
    exact Keeps.conserved (t := { t with play := norFapai (xipai t.cfg ρ) t.play 17 })
      ⟨rfl, rfl, rfl, rfl, rfl, rfl, rfl⟩ hdealt

theorem agent_fapai (t : Table) (hs : s ∈ t.seats) (ρ : Nat → Nat) (rand : Nat) :
    ({ t with updating := none }.fapai ρ rand).agent kaiguan s =
      (t.agent kaiguan s).paiMsg (if t.cfg.isMld then none
        else some (({ t with updating := none }.fapai ρ rand).play.pai s)) := by
  by_cases hmld : t.cfg.isMld
  · have hfapai : { t with updating := none }.fapai ρ rand =
        ((getDzCandidate { t with
          updating := none
          play := norFapai (xipai t.cfg ρ) t.play 17 } rand).sendAll fun _ => .pai none).later
            .mldMen := if_pos hmld
    rw [hfapai, if_pos hmld]
    exact agent_map (m := fun _ => .pai none) rfl rfl hs
  · have hfapai : { t with updating := none }.fapai ρ rand =
        ((getDzCandidate { t with
          updating := none
          play := norFapai (xipai t.cfg ρ) t.play 17 } rand).sendAll fun p =>
            .pai (some ((norFapai (xipai t.cfg ρ) t.play 17).pai p))).later .jdz := if_neg hmld
    rw [hfapai, if_neg hmld]
    exact agent_map (m := fun p => .pai (some ((norFapai (xipai t.cfg ρ) t.play 17).pai p)))
      rfl rfl hs

theorem fapai_frame (t : Table) (ρ : Nat → Nat) (rand : Nat) :
    ({ t with updating := none }.fapai ρ rand).cfg = t.cfg ∧
      ({ t with updating := none }.fapai ρ rand).laizi = t.laizi ∧
      ({ t with updating := none }.fapai ρ rand).pKanPai = t.pKanPai ∧
      (t.status ≠ .cp → ¬ ({ t with updating := none }.fapai ρ rand).AtCp) := by
  unfold fapai
  dsimp only
  split
  · refine ⟨rfl, rfl, rfl, fun hs hcp => ?_⟩
    rcases hcp with hcp | ⟨-, hcp⟩
    · exact hs hcp
    · cases hcp
  · refine ⟨rfl, rfl, rfl, fun hs hcp => ?_⟩
    rcases hcp with hcp | ⟨-, hcp⟩
    · exact hs hcp
    · cases hcp

theorem Follows.deal (h : t.Fresh) (hlz : t.cfg.gameType ≠ .lz → t.laizi = none)
    (hkan : t.cfg.isMld → ∀ p, t.pKanPai p = false) (hstatus : t.status ≠ .cp) (hs : s ∈ t.seats)
    (ha : (t.agent kaiguan s).Cleared) (ρ : Nat → Nat) (rand : Nat) :
    Follows ({ t with updating := none }.fapai ρ rand) s
      (({ t with updating := none }.fapai ρ rand).agent kaiguan s) := by
  obtain ⟨hcons, hacts, hdizhu, hdz⟩ := fapai_dealt h ρ rand
  obtain ⟨hcfg, hlaizi, hpKan, hcp⟩ := fapai_frame t ρ rand
  replace hcp := hcp hstatus
  have hgame : (t.agent kaiguan s).gameType = t.cfg.gameType := gameType_agent t s
  rw [agent_fapai t hs]
  generalize { t with updating := none }.fapai ρ rand = u
    at hcons hacts hdizhu hdz hcfg hlaizi hpKan hcp
  generalize t.agent kaiguan s = a at ha hgame
  -- what the agent keeps apart from its cards
  have hother (b : Agent) (hb : b.dizhu = a.dizhu ∧ b.laizi = a.laizi ∧ b.laiziNum = a.laiziNum ∧
      b.actList = a.actList ∧
      b.remainPai = some fun p => if p = 3 ∧ a.gameType = .er then 9 else 17)
      (hdata : u.Shown s → b.paiData = some (handData (u.play.pai s)))
      (hhidden : ¬ u.Shown s → b.paiData = none)
      (hlist : u.Shown s → b.paiList = some (u.play.pai s).val) : Follows u s b := by
    obtain ⟨hb1, hb2, hb3, hb4, hb5⟩ := hb
    refine ⟨hdata, hhidden, fun ht => ?_, fun hs _ => hlist hs, ?_, ⟨_, hb5, fun p hp => ?_⟩,
      fun ht => ?_, fun ht => ?_, ?_⟩
    · rw [hdz] at ht
      cases ht
    · rw [hb1, ha.dizhu, hdizhu]
    · rw [hcons.remain p hp, hcons.untaken hdz p hp]
      have hne : ¬ (p = 3 ∧ a.gameType = .er) := by
        rintro ⟨rfl, her⟩
        rw [hgame, ← hcfg] at her
        rcases u.cfg.seat_cases with ⟨hg, -⟩ | ⟨-, -, hl⟩
        · exact hg her
        · rw [hl] at hp
          simp at hp
      rw [if_neg hne]
      rfl
    · rw [hdz] at ht
      cases ht
    · replace ht := hcfg ▸ ht.resolve_left hcp
      rw [hb2, hb3, ha.laizi.1, ha.laizi.2, wildcards, hlaizi, hlz ht]
      exact ⟨rfl, rfl⟩
    · rw [hb4, hacts, ha.actList]
      exact window_of_bids (by simp) onlyBids_nil
  by_cases hmld : t.cfg.isMld
  · have hshown : ¬ u.Shown s := fun hshown => by
      have := hshown (hcfg ▸ hmld)
      rw [hpKan, hkan hmld] at this
      cases this
    rw [if_pos hmld]
    exact hother _ ⟨rfl, rfl, rfl, rfl, rfl⟩ (fun hs => absurd hs hshown) (fun _ => ha.paiData)
      fun hs => absurd hs hshown
  · have hshown : u.Shown s := fun h => absurd (hcfg ▸ h) hmld
    rw [if_neg hmld]
    exact hother _ ⟨rfl, rfl, rfl, rfl, rfl⟩ (fun _ => rfl) (fun hs => absurd hshown hs)
      fun _ => rfl

/-! ## Moves that show or hand out cards -/

theorem agent_kanMyPai (t : Table) (p : Nat) (hs : s ∈ t.seats) :
    (t.kanMyPai p).agent kaiguan s =
      if t.pKanPai p = false ∧ p = s then (t.agent kaiguan s).setPai (t.play.pai s)
      else t.agent kaiguan s := by
  have hseat : (t.pSeatNumber s).isSome := by simpa [seats] using (List.mem_filter.mp hs).2
  have hsend : (t.sendIf (!t.pKanPai p) p (.mldKanMyPai (t.play.pai p))).agent kaiguan s = _ :=
    agent_sendIf t _ p _ hseat
  have hsame : (t.kanMyPai p).agent kaiguan s = (t.sendIf (!t.pKanPai p) p
    (.mldKanMyPai (t.play.pai p))).agent kaiguan s := agent_congr rfl rfl s
  rw [hsame, hsend]
  by_cases hp : p = s
  · subst hp
    simp [Agent.receive]
  · simp [hp]

theorem Follows.look (h : Follows t s (t.agent kaiguan s)) (hs : s ∈ t.seats) (p : Nat) :
    Follows (t.kanMyPai p) s ((t.kanMyPai p).agent kaiguan s) := by
  rw [agent_kanMyPai t p hs]
  split
  · next hp =>
    obtain ⟨-, rfl⟩ := hp
    have hshown : (t.kanMyPai p).Shown p := fun _ => Function.update_self ..
    exact ⟨fun _ => rfl, fun hn => absurd hshown hn, fun _ => hshown, fun _ _ => rfl, h.dizhu,
      h.remainPai, h.jipaiqi, h.laizi, h.acts⟩
  · next hp =>
    have hshown : (t.kanMyPai p).Shown s ↔ t.Shown s := by
      refine imp_congr_right fun _ => ?_
      change Function.update t.pKanPai p true s = true ↔ _
      rw [Function.update_apply]
      split
      · next heq =>
        have hne : t.pKanPai p ≠ false := fun hf => hp ⟨hf, heq.symm⟩
        rw [heq]
        simpa using hne
      · rfl
    exact ⟨fun hu => h.paiData (hshown.mp hu), fun hn => h.hidden (mt hshown.mpr hn),
      fun ht => hshown.mpr (h.seen ht), fun hu => h.paiList (hshown.mp hu), h.dizhu,
      h.remainPai, h.jipaiqi, h.laizi, h.acts⟩

theorem disjoint_bottom (h : t.Conserved) (hdz : t.dzTaken = false) (hs : s ∈ t.cfg.seatList) :
    Disjoint (t.play.pai s) t.play.dzPai.toFinset := by
  have hnodup : t.piles.Pairwise Disjoint := h.splits.pairwise_disjoint (deck_nodup _)
  have hbottom : t.bottom = t.play.dzPai.toFinset := by simp [bottom, hdz]
  simp only [piles, List.pairwise_cons, List.mem_cons, List.not_mem_nil, or_false,
    forall_eq_or_imp, forall_eq] at hnodup
  have hs' := mem_three hs
  simp only [List.mem_cons, List.not_mem_nil, or_false] at hs'
  rw [← hbottom]
  rcases hs' with rfl | rfl | rfl <;> tauto

@[simp] theorem getPaiTypeHash_empty (type : Nat) : getPaiTypeHash ∅ type = 0 := rfl

theorem Follows.of_took (h : Follows t s a) (hcons : t.Conserved)
    (hplayed : t.played = ∅) (hshown : t.Shown s) {d : Nat}
    (hk : Keeps ({ t with play := { t.play with dizhu := d } }.fapaiDizhu true) u)
    (hd : u.play.dizhu = d) (hpKan : u.pKanPai = t.pKanPai)
    (hacts : u.play.actList = t.play.actList) (hlz : u.AtCp → t.cfg.gameType ≠ .lz)
    (hnone : t.cfg.gameType ≠ .lz → t.laizi = none)
    (htook : a.Took b d (if d = s then t.play.pai s ∪ t.play.dzPai.toFinset else t.play.pai s))
    (hgame : a.gameType = t.cfg.gameType) : Follows u s b := by
  have htake : t.play.dzPai.take 3 = t.play.dzPai := List.take_of_length_le hcons.dzPai.1.le
  have hcfg : u.cfg = t.cfg := hk.cfg
  have hpai : u.play.pai s =
      if d = s then t.play.pai s ∪ t.play.dzPai.toFinset else t.play.pai s := by
    rw [hk.pai, fapaiDizhu_play]
    simp only [if_true, htake]
    rw [Function.update_apply]
    by_cases hds : d = s
    · rw [if_pos hds.symm, if_pos hds, hds]
    · rw [if_neg (Ne.symm hds), if_neg hds]
  have hu : u.played = ∅ := by
    rw [hk.played]
    exact hplayed
  have hlaizi : u.laizi = t.laizi := hk.laizi
  rw [← hpai] at htook
  have hshown' : u.Shown s := by simpa only [Shown, hcfg, hpKan] using hshown
  refine ⟨fun _ => htook.paiData, fun hn => absurd hshown' hn, fun _ => hshown', fun _ hf => ?_,
    htook.dizhu.trans hd.symm, ?_, fun _ => ?_, fun ht => ?_, ?_⟩
  · rw [hk.dzTaken] at hf
    simp at hf
  · obtain ⟨remain, hremain, hall⟩ := h.remainPai
    refine ⟨_, by rw [htook.remainPai, hremain]; rfl, fun p hp => ?_⟩
    rw [hcfg] at hp
    rw [hk.remainPai, fapaiDizhu_play]
    dsimp only
    rw [Function.update_apply, Function.update_apply, hall p hp]
    rfl
  · rw [htook.jipaiqi, hgame]
    simp only [Option.some.injEq]
    funext type
    rw [unseen, hcfg, hu, getPaiTypeHash_empty]
    simp
  · rw [hcfg] at ht
    have hgame' := ht.elim hlz id
    rw [htook.laizi.1, htook.laizi.2, wildcards, hlaizi]
    obtain ⟨h1, h2⟩ := h.laizi (.inr hgame')
    rw [h1, h2, wildcards, hnone hgame']
    exact ⟨rfl, rfl⟩
  · rw [hacts, htook.actList]
    exact h.acts

theorem outbox_setDizhu (t : Table) (d : Nat) (men : Option Nat) :
    ∃ (r : Nat → Nat) (n : Option Nat), (t.setDizhu d men).outbox =
      t.outbox ++ t.seats.map fun p => (p, .dizhu d t.play.dzPai (r p) n men) :=
  ⟨_, _, rfl⟩

theorem Follows.landlord (h : Follows t s (t.agent kaiguan s)) (hs : s ∈ t.seats)
    (hseat : s ∈ t.cfg.seatList) (hcons : t.Conserved) (hdz : t.dzTaken = false)
    (hplayed : t.played = ∅) (hnone : t.cfg.gameType ≠ .lz → t.laizi = none) (hcp : ¬ t.AtCp)
    (d : Nat) (men : Option Nat) :
    Follows (t.setDizhu d men) s ((t.setDizhu d men).agent kaiguan s) := by
  obtain ⟨r, n, ho⟩ := t.outbox_setDizhu d men
  have hagent : (t.setDizhu d men).agent kaiguan s =
      (t.agent kaiguan s).dizhuMsg d t.play.dzPai := agent_map (by simp) ho hs
  have hgame : (t.agent kaiguan s).gameType = t.cfg.gameType := gameType_agent t s
  have hseatNum : (t.agent kaiguan s).seatNum = s := seatNum_agent t s
  have hmldAgent : (t.agent kaiguan s).isMld = t.cfg.isMld := isMld_agent t s
  rw [hagent]
  generalize t.agent kaiguan s = a at h hgame hseatNum hmldAgent
  have hatCp : ¬ (t.setDizhu d men).AtCp := by
    rwa [AtCp, setDizhu_toCtrl]
  cases hmld : t.cfg.isMld with
  | true =>
      obtain ⟨hcfg, hpai, hremain, -, hplay, htaken, hlz⟩ := keeps_setDizhu_mld hmld d men
      have hpKan : (t.setDizhu d men).pKanPai = t.pKanPai := by simp [setDizhu, libSetDizhu]
      rw [Agent.dizhuMsg, if_pos (hmldAgent.trans hmld)]
      have hshown : (t.setDizhu d men).Shown s ↔ t.Shown s := by simp only [Shown, hcfg, hpKan]
      refine ⟨fun hu => ?_, fun hn => h.hidden (mt hshown.mpr hn), fun hf => ?_, fun hu _ => ?_,
        ?_, ?_, fun hf => ?_, fun ht => ?_, ?_⟩
      · rw [hpai]
        exact h.paiData (hshown.mp hu)
      · rw [htaken, hdz] at hf
        cases hf
      · rw [hpai]
        exact h.paiList (hshown.mp hu) hdz
      · exact (setDizhu_dizhu t d men).symm
      · rw [hcfg, hremain]
        exact h.remainPai
      · rw [htaken, hdz] at hf
        cases hf
      · rw [hcfg] at ht
        rw [wildcards, hlz, hpai]
        exact h.laizi (.inr (ht.resolve_left hatCp))
      · rw [setDizhu_actList]
        exact h.acts
  | false =>
      have hkeeps := t.keeps_setDizhu d men
      rw [hmld, Bool.not_false] at hkeeps
      have hshown : t.Shown s := fun hm => by
        rw [hmld] at hm
        cases hm
      refine h.of_took hcons hplayed hshown hkeeps (by simp) (by simp [setDizhu, libSetDizhu])
        (by simp) (fun hf => absurd hf hatCp) hnone ?_ hgame
      have hremain : a.remainPai.isSome := by
        obtain ⟨remain, hremain, -⟩ := h.remainPai
        rw [hremain]
        rfl
      have htook := Agent.took_dizhuMsg (hmldAgent.trans hmld) hremain (h.paiData hshown)
        (h.paiList hshown hdz) hcons.dzPai.2 (disjoint_bottom hcons hdz hseat) hcons.dzPai.1 d
      rwa [hseatNum] at htook

theorem Follows.bottom (h : Follows t s (t.agent kaiguan s)) (hs : s ∈ t.seats)
    (hseat : s ∈ t.cfg.seatList) (hcons : t.Conserved) (hdz : t.dzTaken = false)
    (hplayed : t.played = ∅) (hnone : t.cfg.gameType ≠ .lz → t.laizi = none)
    (hmld : t.cfg.isMld) (hkan : t.pKanPai s) (shown : Nat → Prop) [DecidablePred shown]
    (hd : shown t.play.dizhu) :
    Follows ((t.fapaiDizhu true).sendAll fun s =>
        .mldDizhuPai (if shown s then some t.play.dzPai else none)) s
      (((t.fapaiDizhu true).sendAll fun s =>
        .mldDizhuPai (if shown s then some t.play.dzPai else none)).agent kaiguan s) := by
  have hagent : ((t.fapaiDizhu true).sendAll fun s =>
        .mldDizhuPai (if shown s then some t.play.dzPai else none)).agent kaiguan s =
      (t.agent kaiguan s).mldDizhuPaiMsg (if shown s then some t.play.dzPai else none) :=
    agent_map (m := fun s => .mldDizhuPai (if shown s then some t.play.dzPai else none)) rfl rfl hs
  have hgame : (t.agent kaiguan s).gameType = t.cfg.gameType := gameType_agent t s
  have hseatNum : (t.agent kaiguan s).seatNum = s := seatNum_agent t s
  rw [hagent]
  generalize t.agent kaiguan s = a at h hgame hseatNum
  have hnor : t.cfg.gameType ≠ .lz := by
    rw [t.cfg.mld_nor (by simpa [Config.isMld] using hmld)]
    decide
  refine h.of_took (d := t.play.dizhu) hcons hplayed (fun _ => hkan) ?_ rfl rfl rfl
    (fun _ => hnor) hnone ?_ hgame
  · exact ⟨rfl, rfl, rfl, rfl, rfl, rfl, rfl⟩
  · have hremain : a.remainPai.isSome := by
      obtain ⟨remain, hremain, -⟩ := h.remainPai
      rw [hremain]
      rfl
    have hmsg : a.dizhu = a.seatNum →
        (if shown s then some t.play.dzPai else none) = some t.play.dzPai := fun heq => by
      rw [h.dizhu, hseatNum] at heq
      exact if_pos (heq ▸ hd)
    have htook := Agent.took_mldDizhuPaiMsg hremain (h.paiData fun _ => hkan)
      (h.paiList (fun _ => hkan) hdz) hcons.dzPai.2 (disjoint_bottom hcons hdz hseat)
      hcons.dzPai.1 hmsg
    rwa [hseatNum, h.dizhu] at htook

theorem Follows.wild (h : Follows t s (t.agent kaiguan s)) (hs : s ∈ t.seats)
    (hdz : t.dzTaken = true) (rand : Nat) :
    Follows (t.createLz rand) s ((t.createLz rand).agent kaiguan s) := by
  have hagent : (t.createLz rand).agent kaiguan s =
      (t.agent kaiguan s).laiziMsg (random (fun _ => rand) 0 3 15) :=
    agent_map (m := fun _ => .laizi (random (fun _ => rand) 0 3 15)) rfl rfl hs
  rw [hagent]
  generalize t.agent kaiguan s = a at h
  have hdata := h.paiData (h.seen hdz)
  have hlaizi : a.laiziMsg (random (fun _ => rand) 0 3 15) = { a with
      status := .setDz
      laizi := random (fun _ => rand) 0 3 15
      laiziNum := getPaiTypeHash (t.play.pai s) (random (fun _ => rand) 0 3 15) } := by
    rw [Agent.laiziMsg]
    dsimp only
    rw [hdata]
    rfl
  rw [hlaizi]
  exact ⟨fun _ => hdata, h.hidden, h.seen, h.paiList, h.dizhu, h.remainPai, h.jipaiqi,
    fun _ => ⟨rfl, rfl⟩, h.acts⟩

theorem Follows.pass (h : Follows t s a) (hl : Laid t u p args) (hwf : (args.act p).play.Wf)
    (hpass : isMustChupai t.cfg.gameType t.play.actList = false) (htype : args.type = 0) :
    Follows u s (a.cpMsg (args.act p)) := by
  have hrests : Rests t u := .of_same (hl.pass htype) hl.dizhu hl.pKanPai hl.lobby hl.ctrl
  have hmsg : a.cpMsg (args.act p) = a.addAct (args.act p) := if_pos htype
  rw [hmsg]
  refine h.of_rests hrests (a.keepsCards_addAct _) ?_
  rw [hl.acts]
  exact h.acts.addAct hwf fun _ => hpass

theorem laiziType_agent (h : a.laizi = t.laizi.getD 0) (hrank : ∀ lz ∈ t.laizi, lz ∈ paiRanks) :
    a.laiziType = t.laizi := by
  rw [Agent.laiziType, h]
  cases hlz : t.laizi with
  | none => rfl
  | some lz =>
      have hmem := hrank lz hlz
      have hne : lz ≠ 0 := by
        rintro rfl
        simp [paiRanks] at hmem
      simp [hne]

theorem disjoint_played (h : t.Conserved) (hs : s ∈ t.cfg.seatList) :
    Disjoint (t.play.pai s) t.played := by
  have hnodup : t.piles.Pairwise Disjoint := h.splits.pairwise_disjoint (deck_nodup _)
  simp only [piles, List.pairwise_cons, List.mem_cons, List.not_mem_nil, or_false,
    forall_eq_or_imp, forall_eq] at hnodup
  have hs' := mem_three hs
  simp only [List.mem_cons, List.not_mem_nil, or_false] at hs'
  rcases hs' with rfl | rfl | rfl <;> tauto

theorem unseen_of_lays {cards : Finset Nat} (hl : Lays t u p cards) (hcons : t.Conserved)
    (hp : p ∈ t.cfg.seatList) (hsub : cards ⊆ t.play.pai p) (s type : Nat) :
    u.unseen s type = t.unseen s type - if s = p then 0 else (getPaiTypeHash cards type : Int) := by
  have hplayed : getPaiTypeHash u.played type =
      getPaiTypeHash t.played type + getPaiTypeHash cards type := by
    rw [hl.played]
    exact getPaiTypeHash_union
      (disjoint_played hcons hp |>.symm |>.mono_right hsub) type
  rw [unseen, unseen, hl.cfg, hl.pai, hplayed, Function.update_apply]
  push_cast
  split
  · next hs =>
    rw [hs, getPaiTypeHash_sdiff hsub]
    omega
  · omega

theorem Follows.lays (h : Follows t s a) (hcons : t.Conserved) (hdz : t.dzTaken = true)
    (hcp : t.AtCp) (hp : p ∈ t.cfg.seatList) (hseat : a.seatNum = s)
    (hrank : ∀ lz ∈ t.laizi, lz ∈ paiRanks) (hwf : (args.act p).play.Wf) (hl : Laid t u p args)
    (htype : args.type ≠ 0) : Follows u s (a.cpMsg (args.act p)) := by
  obtain ⟨cp, hcpList, hfrom, hmerge, hwild, hlays, hlaizi⟩ := hl.lays htype
  obtain ⟨remain, hremain, hall⟩ := h.remainPai
  have hdata := h.paiData (h.seen hdz)
  have hcount := h.jipaiqi hdz
  obtain ⟨hlz, hnum⟩ := h.laizi (.inl hcp)
  have htypeLz := laiziType_agent hlz hrank
  have hsub : cp.cards (t.play.pai p) t.laizi ⊆ t.play.pai p := CpList.cards_subset hfrom
  have hunseen := unseen_of_lays hlays hcons hp hsub s
  have hcard := CpList.card_cards hfrom
  have hshown : u.Shown s := by
    have := h.seen hdz
    rwa [Shown, hlays.cfg, hl.pKanPai]
  have hacts : Window u.play.actList (a.addAct (args.act p)).actList := by
    rw [hl.acts]
    exact h.acts.addAct (g := t.cfg.gameType) hwf fun h0 => absurd h0 htype
  have hleft (q : Nat) (hq : q ∈ u.cfg.seatList) :
      Function.update remain p (remain p - args.mergeCpList.length) q = u.play.remainPai q := by
    rw [hlays.cfg] at hq
    rw [hlays.remainPai, Function.update_apply, Function.update_apply, hall q hq, hmerge, hcard,
      hall p hp]
  -- what both cases share
  have hfollows {b : Agent} (hdata : b.paiData = some (handData (u.play.pai s)))
      (hcount : b.jipaiqi = some (u.unseen s)) (hdizhu : b.dizhu = a.dizhu)
      (hremain : b.remainPai = some (Function.update remain p
        (remain p - args.mergeCpList.length)))
      (hlaizi : b.laizi = u.laizi.getD 0 ∧ b.laiziNum = u.wildcards s)
      (hb : b.actList = (a.addAct (args.act p)).actList) : Follows u s b := by
    refine ⟨fun _ => hdata, fun hn => absurd hshown hn, fun _ => hshown, fun _ hf => ?_, ?_,
      ⟨_, hremain, hleft⟩, fun _ => hcount, fun _ => hlaizi, hb ▸ hacts⟩
    · rw [hlays.dzTaken, hdz] at hf
      cases hf
    · rw [hdizhu, h.dizhu, hl.dizhu]
  obtain ⟨b, hb1, hb2, hb3, hb4, hb5, hb6, hb7, hmsg⟩ :=
    Agent.cpMsg_eq (args.act p) hremain htype
  rw [hmsg, hseat]
  by_cases hs : p = s
  · subst hs
    have hpai : u.play.pai p = t.play.pai p \ cp.cards (t.play.pai p) t.laizi := by
      rw [hlays.pai, Function.update_self]
    have hdeduct := deduct_handData hfrom
    rw [← hpai, ← hcpList, ← htypeLz] at hdeduct
    rw [if_pos (show (args.act p).p = p from rfl), Agent.ownPlay_eq (hb1.trans hdata)
      (by rw [Agent.laiziType, hb4]; exact hdeduct)]
    refine hfollows rfl ?_ hb3 hb7 ⟨?_, ?_⟩ hb6
    · refine (hb2.trans hcount).trans (congrArg some ?_)
      funext type
      rw [hunseen, if_pos rfl, sub_zero]
    · rw [hlaizi]
      exact hb4.trans hlz
    · change b.laiziNum - args.laziNum = _
      rw [hb5, hnum, wildcards, wildcards, hlaizi, hpai, hwild]
      exact (wildcards_sdiff hfrom).symm
  · have hpai : u.play.pai s = t.play.pai s := by
      rw [hlays.pai, Function.update_of_ne (Ne.symm hs)]
    have hcounter : Ddz.jipaiqi (args.act p).cpList (t.unseen s) b.laizi = some (u.unseen s) := by
      change Ddz.jipaiqi args.cpList _ _ = _
      rw [hb4, hcpList, hlz, jipaiqi_fromHand hfrom hrank, Option.some_inj]
      funext type
      rw [hunseen, if_neg (Ne.symm hs)]
    rw [if_neg (show ¬ (args.act p).p = s from hs), Agent.otherPlay_eq (hb2.trans hcount) hcounter]
    refine hfollows ?_ rfl hb3 hb7 ⟨?_, ?_⟩ hb6
    · rw [hpai]
      exact hb1.trans hdata
    · rw [hlaizi]
      exact hb4.trans hlz
    · refine hb5.trans (hnum.trans ?_)
      rw [wildcards, wildcards, hlaizi, hpai]

end Follows

end Table

end JyQipai.Ddz
