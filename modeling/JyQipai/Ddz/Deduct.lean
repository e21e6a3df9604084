import JyQipai.Ddz.HintPlay
import JyQipai.Ddz.Table

/-!
# Taking a play out of a hand

`deduct_pai_by_cp_list` removes ordinary cards by id and wildcards by rank.  If
the play can be made from the hand, it removes exactly as many cards as the play
names.
-/

namespace JyQipai.Ddz

/-! ## The removed cards -/

theorem deductNor_pai (data : PaiData) (nor : List Nat) :
    (deductNor data nor).pai = data.pai \ nor.toFinset := by
  induction nor generalizing data with
  | nil => simp [deductNor]
  | cons id nor ih =>
      rw [deductNor, List.foldl_cons, ← deductNor, ih]
      ext x
      simp only [Finset.mem_sdiff, Finset.mem_erase, List.toFinset_cons,
        Finset.mem_insert]
      tauto

theorem deductLz_pai (type : Nat) {ids : List Nat} (hids : ids.Nodup) (num : Nat)
    (data : PaiData) :
    (deductLz type ids num data).pai =
      data.pai \ ((ids.filter (· ∈ data.pai)).take num).toFinset := by
  induction ids generalizing num data with
  | nil => simp [deductLz]
  | cons i ids ih =>
      obtain ⟨hi, hids⟩ := List.nodup_cons.mp hids
      rw [deductLz]
      cases num with
      | zero => simp
      | succ num =>
          rw [if_neg (by omega)]
          split
          · next hmem =>
            have hfilter : ids.filter (· ∈ data.pai.erase i) =
                ids.filter (· ∈ data.pai) := by
              refine List.filter_congr fun x hx => ?_
              have hne : x ≠ i := by
                rintro rfl
                exact hi hx
              simp [hne]
            rw [ih hids, Nat.add_sub_cancel, hfilter,
              List.filter_cons_of_pos (by simpa using hmem), List.take_succ_cons]
            ext x
            simp only [Finset.mem_sdiff, Finset.mem_erase, List.toFinset_cons,
              Finset.mem_insert]
            tauto
          · next hmem =>
            rw [ih hids, List.filter_cons_of_neg (by simpa using hmem)]

/-! ## Plays that can be made from a hand -/

namespace CpList

/-- The play can be made from the hand: its ordinary cards are different cards
of the hand and no wildcards, and the hand has enough wildcards. -/
structure FromHand (cp : CpList) (hand : Finset Nat) (laizi : Option Nat) :
    Prop where
  nor_mem : ∀ id ∈ cp.norIds, id ∈ hand
  nor_nodup : cp.norIds.Nodup
  nor_lz : ∀ id ∈ cp.norIds, ∀ lz ∈ laizi, paiMap id ≠ lz
  lz_some : cp.lz.isSome → laizi.isSome
  lz_rank : ∀ lz ∈ laizi, lz ∈ paiRanks
  lz_le : ∀ lz ∈ laizi, cp.lzIds.length ≤ getPaiTypeHash hand lz

def lzCards (cp : CpList) (hand : Finset Nat) (laizi : Option Nat) : List Nat :=
  match laizi with
  | none => []
  | some lz => ((idsOfType lz).filter (· ∈ hand)).take cp.lzIds.length

def cards (cp : CpList) (hand : Finset Nat) (laizi : Option Nat) : Finset Nat :=
  cp.norIds.toFinset ∪ (cp.lzCards hand laizi).toFinset

variable {cp : CpList} {hand : Finset Nat} {laizi : Option Nat}

theorem mem_lzCards (h : cp.FromHand hand laizi) {id : Nat}
    (hid : id ∈ cp.lzCards hand laizi) : id ∈ hand ∧ paiMap id ∈ laizi := by
  unfold lzCards at hid
  split at hid
  · simp at hid
  · next lz =>
    have := List.mem_filter.mp (List.mem_of_mem_take hid)
    refine ⟨by simpa using this.2, ?_⟩
    rw [(mem_idsOfType (h.lz_rank lz rfl)).mp this.1]
    rfl

theorem norIds_subset_cards (cp : CpList) (hand : Finset Nat)
    (laizi : Option Nat) : cp.norIds.toFinset ⊆ cp.cards hand laizi :=
  Finset.subset_union_left

theorem cards_subset (h : cp.FromHand hand laizi) : cp.cards hand laizi ⊆ hand := by
  intro id hid
  rcases Finset.mem_union.mp hid with hid | hid
  · exact h.nor_mem id (List.mem_toFinset.mp hid)
  · exact (mem_lzCards h (List.mem_toFinset.mp hid)).1

theorem length_lzCards (h : cp.FromHand hand laizi) :
    (cp.lzCards hand laizi).length = cp.lzIds.length := by
  unfold lzCards
  cases laizi with
  | none =>
      have : cp.lz = none := by
        simpa using mt h.lz_some
      simp [lzIds, this]
  | some lz =>
      have hle := h.lz_le lz rfl
      rw [← length_filter_idsOfType hand (h.lz_rank lz rfl)] at hle
      rw [List.length_take]
      omega

theorem nodup_lzCards (cp : CpList) (hand : Finset Nat) (laizi : Option Nat) :
    (cp.lzCards hand laizi).Nodup := by
  unfold lzCards
  split
  · exact List.nodup_nil
  · exact ((idsOfType_nodup _).filter _).sublist (List.take_sublist _ _)

theorem card_cards (h : cp.FromHand hand laizi) :
    (cp.cards hand laizi).card = cp.norIds.length + cp.lzIds.length := by
  have hdisj : Disjoint cp.norIds.toFinset (cp.lzCards hand laizi).toFinset := by
    rw [List.disjoint_toFinset_iff_disjoint]
    intro id hnor hlz
    obtain ⟨-, hrank⟩ := mem_lzCards h hlz
    exact h.nor_lz id hnor _ hrank rfl
  rw [cards, Finset.card_union_of_disjoint hdisj,
    List.toFinset_card_of_nodup h.nor_nodup,
    List.toFinset_card_of_nodup (nodup_lzCards cp hand laizi), length_lzCards h]

end CpList

theorem deductPaiByCpList_pai (data : PaiData) {cp : CpList} {laizi : Option Nat}
    (h : cp.FromHand data.pai laizi) :
    (deductPaiByCpList data (some cp) laizi).1.pai =
        data.pai \ cp.cards data.pai laizi ∧
      (deductPaiByCpList data (some cp) laizi).2 = true := by
  have hnor := deductNor_pai data cp.norIds
  unfold deductPaiByCpList
  dsimp only
  generalize deductNor data cp.norIds = d at hnor
  cases hlz : cp.lz with
  | none =>
      refine ⟨?_, rfl⟩
      have hnil : cp.lzCards data.pai laizi = [] := by
        unfold CpList.lzCards
        cases laizi <;> simp [CpList.lzIds, hlz]
      simp [CpList.cards, hnil, hnor]
  | some l =>
      obtain ⟨lz, rfl⟩ := Option.isSome_iff_exists.mp (h.lz_some (by simp [hlz]))
      refine ⟨?_, rfl⟩
      dsimp only
      have hfilter : (idsOfType lz).filter (· ∈ d.pai) =
          (idsOfType lz).filter (· ∈ data.pai) := by
        refine List.filter_congr fun x hx => ?_
        have hx' : x ∉ cp.norIds := fun hmem =>
          h.nor_lz x hmem lz rfl ((mem_idsOfType (h.lz_rank lz rfl)).mp hx)
        simp [hnor, hx']
      have hlen : l.length = cp.lzIds.length := by simp [CpList.lzIds, hlz]
      rw [deductLz_pai lz (idsOfType_nodup lz), hfilter, hnor, hlen,
        CpList.cards, CpList.lzCards, sdiff_sdiff_left]
      rfl

end JyQipai.Ddz
