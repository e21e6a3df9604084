import JyQipai.Ddz.Control
import JyQipai.Ddz.Deal
import JyQipai.Ddz.Deduct

/-!
# No card is lost

Over a whole hand the hands of the seats, the cards played and the bottom cards
that nobody has taken split the deck, and the counters of the seats agree with
their hands.
-/

namespace JyQipai.Ddz

open JyQipai.Lib

namespace Table

def bottom (t : Table) : Finset Nat :=
  if t.dzTaken then ∅ else t.play.dzPai.toFinset

def piles (t : Table) : List (Finset Nat) :=
  [t.play.pai 1, t.play.pai 2, t.play.pai 3, t.played, t.bottom]

structure Conserved (t : Table) : Prop where
  splits : Splits (deck t.cfg.gameType) t.piles
  remain : ∀ s ∈ t.cfg.seatList, t.play.remainPai s = (t.play.pai s).card
  dzPai : t.play.dzPai.length = 3 ∧ t.play.dzPai.Nodup
  untaken : t.dzTaken = false → ∀ s ∈ t.cfg.seatList, (t.play.pai s).card = 17

def Fresh (t : Table) : Prop :=
  t.play = {} ∧ t.played = ∅ ∧ t.dzTaken = false

/-- The cards in a status: the bottom cards are on the table during the bidding
and with the landlord afterwards. -/
def CardsFor (t : Table) : Status → Prop
  | .jdz | .erQiangdizhu | .mldMen | .mldJb => t.Conserved ∧ t.dzTaken = false
  | .jiabei | .createLz | .cp => t.Conserved ∧ t.dzTaken = true
  | _ => True

structure Cards (t : Table) : Prop where
  hand : t.Fresh ∨ t.Conserved
  status : t.CardsFor t.status
  next : t.time → ∀ s ∈ t.nextStatus, t.CardsFor s
  laizi : ∀ lz ∈ t.laizi, lz ∈ paiRanks

def Playable (t : Table) (p : Nat) (a : ChupaiArgs) : Prop :=
  a.type ≠ 0 → ∃ cp, a.cpList = some cp ∧
    cp.FromHand (t.play.pai p) t.laizi ∧
    a.mergeCpList.length = cp.norIds.length + cp.lzIds.length

section Frame

variable {t u : Table}

structure Keeps (t u : Table) : Prop where
  cfg : u.cfg = t.cfg
  pai : u.play.pai = t.play.pai
  remainPai : u.play.remainPai = t.play.remainPai
  dzPai : u.play.dzPai = t.play.dzPai
  played : u.played = t.played
  dzTaken : u.dzTaken = t.dzTaken
  laizi : u.laizi = t.laizi

theorem Keeps.conserved (h : Keeps t u) (ht : t.Conserved) : u.Conserved where
  splits := by
    have : u.piles = t.piles := by
      simp only [piles, bottom, h.pai, h.played, h.dzTaken, h.dzPai]
    rw [this, h.cfg]
    exact ht.splits
  remain := by
    rw [h.cfg, h.remainPai, h.pai]
    exact ht.remain
  dzPai := by
    rw [h.dzPai]
    exact ht.dzPai
  untaken := by
    rw [h.dzTaken, h.cfg, h.pai]
    exact ht.untaken

theorem Keeps.cardsFor (h : Keeps t u) {s : Status} (ht : t.CardsFor s) :
    u.CardsFor s := by
  cases s with
  | jdz => exact ⟨h.conserved ht.1, h.dzTaken.trans ht.2⟩
  | erQiangdizhu => exact ⟨h.conserved ht.1, h.dzTaken.trans ht.2⟩
  | mldMen => exact ⟨h.conserved ht.1, h.dzTaken.trans ht.2⟩
  | mldJb => exact ⟨h.conserved ht.1, h.dzTaken.trans ht.2⟩
  | jiabei => exact ⟨h.conserved ht.1, h.dzTaken.trans ht.2⟩
  | createLz => exact ⟨h.conserved ht.1, h.dzTaken.trans ht.2⟩
  | cp => exact ⟨h.conserved ht.1, h.dzTaken.trans ht.2⟩
  | _ => trivial

structure Same (t u : Table) : Prop where
  cfg : u.cfg = t.cfg
  play : u.play = t.play
  trace : u.played = t.played ∧ u.dzTaken = t.dzTaken
  laizi : u.laizi = t.laizi

theorem Same.keeps (h : Same t u) : Keeps t u :=
  ⟨h.cfg, by rw [h.play], by rw [h.play], by rw [h.play], h.trace.1, h.trace.2,
    h.laizi⟩

theorem Same.hand (h : Same t u) (ht : t.Fresh ∨ t.Conserved) :
    u.Fresh ∨ u.Conserved := by
  rcases ht with ⟨hp, hpl, hdz⟩ | ht
  · exact .inl ⟨h.play.trans hp, h.trace.1.trans hpl, h.trace.2.trans hdz⟩
  · exact .inr (h.keeps.conserved ht)

theorem Cards.congr (h : t.Cards) (hs : Same t u) (hctrl : u.toCtrl = t.toCtrl) :
    u.Cards where
  hand := hs.hand h.hand
  status := by
    rw [hctrl]
    exact hs.keeps.cardsFor h.status
  next := by
    rw [hctrl]
    exact fun ht s hs' => hs.keeps.cardsFor (h.next ht s hs')
  laizi := by
    rw [hs.laizi]
    exact h.laizi

theorem Cards.of_wait {s : Status} (hhand : t.Fresh ∨ t.Conserved)
    (hlz : ∀ lz ∈ t.laizi, lz ∈ paiRanks) (hs : t.CardsFor s) :
    (t.wait s).Cards where
  hand := Same.hand (t := t) (u := t.wait s) ⟨rfl, rfl, ⟨rfl, rfl⟩, rfl⟩ hhand
  status := trivial
  next := by
    rintro - s' hs'
    obtain rfl := Option.some.inj hs'
    exact Keeps.cardsFor (t := t) (u := t.wait s) ⟨rfl, rfl, rfl, rfl, rfl, rfl, rfl⟩ hs
  laizi := hlz

theorem Cards.of_enter {s : Status} (hhand : t.Fresh ∨ t.Conserved)
    (hlz : ∀ lz ∈ t.laizi, lz ∈ paiRanks) (hs : t.CardsFor s)
    (hst : t.status = s) (ht : t.time = false) : t.Cards :=
  ⟨hhand, hst ▸ hs, by simp [ht], hlz⟩

theorem Keeps.wait {s : Status} (hk : Keeps t u) (h : t.Conserved)
    (hlz : ∀ lz ∈ t.laizi, lz ∈ paiRanks) (hs : t.CardsFor s) : (u.wait s).Cards :=
  Cards.of_wait (.inr (hk.conserved h)) (hk.laizi ▸ hlz) (hk.cardsFor hs)

theorem Keeps.stay {s : Status} (hk : Keeps t u) (h : t.Conserved)
    (hlz : ∀ lz ∈ t.laizi, lz ∈ paiRanks) (hs : t.CardsFor s)
    (hst : u.status = s) (ht : u.time = false) : u.Cards :=
  Cards.of_enter (.inr (hk.conserved h)) (hk.laizi ▸ hlz) (hk.cardsFor hs) hst ht

theorem Settles.same (h : Settles t u) : Same t u :=
  ⟨h.cfg, h.play, h.cards, h.hand.2⟩

theorem Cards.settles (h : t.Cards) (hu : Settles t u) : u.Cards := by
  have hsame := hu.same
  obtain ⟨p, hctrl | hctrl⟩ := hu.ctrl
  · refine ⟨hsame.hand h.hand, ?_, ?_, ?_⟩
    · rw [hctrl]
      exact hsame.keeps.cardsFor h.status
    · rw [hctrl]
      exact fun ht s hs => hsame.keeps.cardsFor (h.next ht s hs)
    · rw [hsame.laizi]
      exact h.laizi
  · refine ⟨hsame.hand h.hand, ?_, ?_, ?_⟩
    · rw [hctrl]
      trivial
    · rw [hctrl]
      rintro - s hs
      obtain rfl := Option.some.inj hs
      trivial
    · rw [hsame.laizi]
      exact h.laizi

end Frame

section NewHand

variable {t : Table}

theorem fresh_resetHand (t : Table) : t.resetHand.Fresh := by
  refine ⟨?_, ?_, ?_⟩ <;> simp

theorem Cards.gameBegin (h : t.Fresh ∨ t.Conserved)
    (hlz : ∀ lz ∈ t.laizi, lz ∈ paiRanks) : t.gameBegin.Cards := by
  refine Cards.of_wait (Same.hand (t := t) ?_ h) hlz trivial
  exact ⟨rfl, rfl, ⟨rfl, rfl⟩, rfl⟩

theorem Cards.newGame (hlz : ∀ lz ∈ t.laizi, lz ∈ paiRanks) (again : Bool) :
    (t.newGame again).Cards := by
  unfold Table.newGame
  dsimp only
  split
  · exact Cards.gameBegin (.inl (fresh_resetHand _)) (by simpa using hlz)
  · refine ⟨.inl (fresh_resetHand _), ?_, ?_, by simpa using hlz⟩
    · rw [enter_toCtrl]
      split <;> trivial
    · simp

theorem cards_newTable (cfg : Config) : (newTable cfg).Cards :=
  Cards.newGame (by simp) false

theorem Cards.join (h : t.Cards) (id : Nat) (seat : Option Nat) :
    (t.join id seat).table.Cards := by
  unfold Table.join
  split
  · exact h
  · split
    · exact h
    · exact h.congr ⟨rfl, rfl, ⟨rfl, rfl⟩, rfl⟩ rfl

theorem Cards.playerExitGame (h : t.Cards) (seat : Nat) :
    (t.playerExitGame seat).table.Cards := by
  unfold Table.playerExitGame
  dsimp only
  split
  · exact h.congr ⟨rfl, rfl, ⟨rfl, rfl⟩, rfl⟩ rfl
  · exact h.congr ⟨rfl, rfl, ⟨rfl, rfl⟩, rfl⟩ rfl

theorem Cards.fresh (h : t.Cards) (hp : t.play = {}) : t.Fresh := by
  refine h.hand.resolve_right fun hc => ?_
  have := hc.dzPai.1
  rw [hp] at this
  simp at this

theorem Cards.readyCmd (h : t.Cards) (seat : Nat) :
    (t.readyCmd seat).table.Cards := by
  unfold Table.readyCmd
  dsimp only
  split
  · split
    · refine Cards.gameBegin (Same.hand (t := t) ?_ h.hand) h.laizi
      exact ⟨rfl, rfl, ⟨rfl, rfl⟩, rfl⟩
    · exact h.congr ⟨rfl, rfl, ⟨rfl, rfl⟩, rfl⟩ rfl
  · exact h

theorem splits_segments {pai : List Nat} (hnodup : pai.Nodup) (a b c : Nat) :
    Splits (pai : Multiset Nat)
      [(pai.take a).toFinset, ((pai.drop a).take b).toFinset,
        ((pai.drop (a + b)).take c).toFinset, ∅,
        (pai.drop (a + b + c)).toFinset] := by
  have hval : ∀ l : List Nat, l.Sublist pai → l.toFinset.val = (l : Multiset Nat) := by
    intro l hl
    rw [List.toFinset_val, (hnodup.sublist hl).dedup]
  have hdrop : ∀ k n, (List.drop k pai).take n ++ pai.drop (k + n) = pai.drop k := by
    intro k n
    rw [← List.drop_drop]
    exact List.take_append_drop n _
  unfold Splits
  simp only [List.map_cons, List.map_nil, List.sum_cons, List.sum_nil,
    hval _ (List.take_sublist _ _), hval _ (List.drop_sublist _ _),
    hval _ ((List.take_sublist _ _).trans (List.drop_sublist _ _)),
    Finset.empty_val, zero_add, add_zero]
  rw [Multiset.coe_add, hdrop, Multiset.coe_add, hdrop, Multiset.coe_add,
    List.take_append_drop]

theorem deck_nodup (g : GameType) : (deck g).Nodup := by
  cases g <;> exact List.nodup_range'

theorem dealt_conserved (h : t.Fresh) (ρ : Nat → Nat) :
    Conserved { t with play := norFapai (xipai t.cfg ρ) t.play 17 } := by
  obtain ⟨hplay, hplayed, hdz⟩ := h
  have hperm := xipai_perm t.cfg ρ
  have hnodup := hperm.nodup_iff.mpr (deck_nodup _)
  have hlen := hperm.length_eq.trans (length_deck _)
  generalize xipai t.cfg ρ = pai at hperm hnodup hlen
  have hrange : 37 < pai.length ∧ pai.length ≤ 54 := by
    rw [hlen]
    split <;> omega
  obtain ⟨h1, h2, h3, r1, r2, r3, hdzPai⟩ := norFapai_spec hrange.1 hrange.2
  have hsplit := splits_segments hnodup 17 17 (pai.length - 37)
  rw [Multiset.coe_eq_coe.mpr hperm,
    show 17 + 17 + (pai.length - 37) = pai.length - 3 by omega] at hsplit
  have hcard : ∀ l : List Nat, l.Sublist pai → l.toFinset.card = l.length :=
    fun l hl => List.toFinset_card_of_nodup (hnodup.sublist hl)
  rw [hplay]
  have hcards : ∀ s ∈ t.cfg.seatList,
      (norFapai pai {} 17).remainPai s = 17 ∧
        ((norFapai pai {} 17).pai s).card = 17 := by
    have hfirst : ((norFapai pai {} 17).pai 1).card = 17 := by
      rw [h1, hcard _ (List.take_sublist _ _), List.length_take]
      omega
    have hsecond : ((norFapai pai {} 17).pai 2).card = 17 := by
      rw [h2, hcard _ ((List.take_sublist _ _).trans (List.drop_sublist _ _)),
        List.length_take, List.length_drop]
      omega
    rcases t.cfg.seat_cases with ⟨hg, -, hl⟩ | ⟨hg, -, hl⟩
    · rw [if_neg hg] at hlen
      have hthird : ((norFapai pai {} 17).pai 3).card = 17 := by
        rw [h3, hcard _ ((List.take_sublist _ _).trans (List.drop_sublist _ _)),
          List.length_take, List.length_drop]
        omega
      rw [hl]
      simp [r1, r2, r3, hfirst, hsecond, hthird, hlen]
    · rw [hl]
      simp [r1, r2, hfirst, hsecond]
  refine ⟨?_, ?_, ?_, ?_⟩
  · simpa [piles, bottom, hplayed, hdz, h1, h2, h3, hdzPai] using hsplit
  · intro s hs
    rw [(hcards s hs).1, (hcards s hs).2]
    rfl
  · rw [hdzPai, List.length_drop]
    exact ⟨by omega, hnodup.sublist (List.drop_sublist _ _)⟩
  · exact fun _ s hs => (hcards s hs).2

theorem Cards.of_later {s : Status} (hhand : t.Fresh ∨ t.Conserved)
    (hlz : ∀ lz ∈ t.laizi, lz ∈ paiRanks)
    (hst : t.status = .wait ∨ t.status = .fp ∨ t.status = .settlement)
    (hs : t.CardsFor s) : (t.later s).Cards := by
  have hsame : Same t (t.later s) := ⟨rfl, rfl, ⟨rfl, rfl⟩, rfl⟩
  refine ⟨hsame.hand hhand, ?_, ?_, hlz⟩
  · rw [later_toCtrl]
    rcases hst with hst | hst | hst <;> rw [hst] <;> trivial
  · rintro - s' hs'
    obtain rfl := Option.some.inj hs'
    exact hsame.keeps.cardsFor hs

theorem Cards.fapai (h : t.Cards) (hi : t.Inv) (hu : t.updating = some .fapai)
    (ρ : Nat → Nat) (rand : Nat) :
    ({ t with updating := none }.fapai ρ rand).Cards := by
  obtain ⟨hund, hst⟩ := hi.dealing hu
  have hst' : t.status = .wait ∨ t.status = .fp ∨ t.status = .settlement := by
    rcases hst with hst | hst <;> simp [hst]
  have hfresh := h.fresh hund.1
  have hdealt := dealt_conserved hfresh ρ
  have hc : ∀ (u : Table), Keeps
      { t with play := norFapai (xipai t.cfg ρ) t.play 17 } u →
      u.Conserved ∧ u.dzTaken = false := fun u hk =>
    ⟨hk.conserved hdealt, hk.dzTaken.trans hfresh.2.2⟩
  unfold Table.fapai
  dsimp only
  split
  · have hu := hc (sendAll (getDzCandidate { t with
      updating := none
      play := norFapai (xipai t.cfg ρ) t.play 17 } rand) fun _ => .pai none)
      ⟨rfl, rfl, rfl, rfl, rfl, rfl, rfl⟩
    exact Cards.of_later (.inr hu.1) h.laizi hst' hu
  · have hu := hc (sendAll (getDzCandidate { t with
      updating := none
      play := norFapai (xipai t.cfg ρ) t.play 17 } rand) fun s => .pai (some
        ((norFapai (xipai t.cfg ρ) t.play 17).pai s)))
      ⟨rfl, rfl, rfl, rfl, rfl, rfl, rfl⟩
    exact Cards.of_later (.inr hu.1) h.laizi hst' hu

end NewHand

section Take

variable {t u : Table}

theorem sum_seats (f : Nat → Finset Nat) (rest : List (Finset Nat)) :
    ((f 1 :: f 2 :: f 3 :: rest).map Finset.val).sum =
      ([1, 2, 3].map fun s => (f s).val).sum + (rest.map Finset.val).sum := by
  simp [add_assoc]

theorem sum_seats_update (f : Nat → Finset Nat) {p : Nat} (hp : p ∈ [1, 2, 3])
    (hand : Finset Nat) :
    ([1, 2, 3].map fun s => (Function.update f p hand s).val).sum + (f p).val =
      ([1, 2, 3].map fun s => (f s).val).sum + hand.val := by
  have := sum_map_update (l := [1, 2, 3]) (by decide) hp
    (fun s => (f s).val) hand.val
  rw [← this]
  congr 3
  funext s
  rw [Function.update_apply, Function.update_apply]
  split <;> rfl

theorem mem_three {cfg : Config} {p : Nat} (h : p ∈ cfg.seatList) :
    p ∈ [1, 2, 3] := by
  rcases cfg.seat_cases with ⟨-, -, hl⟩ | ⟨-, -, hl⟩ <;> rw [hl] at h
  · exact h
  · simp at h ⊢
    omega

theorem Conserved.take (h : t.Conserved) (hdz : t.dzTaken = false)
    (hd : t.play.dizhu ∈ t.cfg.seatList) : (t.fapaiDizhu true).Conserved := by
  have hbottom : t.bottom = t.play.dzPai.toFinset := by simp [bottom, hdz]
  have hnodup : t.piles.Pairwise Disjoint :=
    h.splits.pairwise_disjoint (deck_nodup _)
  have htake : t.play.dzPai.take 3 = t.play.dzPai :=
    List.take_of_length_le h.dzPai.1.le
  have hdisj : Disjoint (t.play.pai t.play.dizhu) t.bottom := by
    simp only [piles, List.pairwise_cons, List.mem_cons, List.not_mem_nil,
      or_false, forall_eq_or_imp, forall_eq] at hnodup
    have hd' := mem_three hd
    simp only [List.mem_cons, List.not_mem_nil, or_false] at hd'
    rcases hd' with hd' | hd' | hd' <;> rw [hd'] <;> tauto
  have hcard : t.bottom.card = 3 := by
    rw [hbottom, List.toFinset_card_of_nodup h.dzPai.2, h.dzPai.1]
  have hpai : (t.fapaiDizhu true).play.pai = Function.update t.play.pai
      t.play.dizhu (t.play.pai t.play.dizhu ∪ t.bottom) := by
    simp [htake, hbottom]
  constructor
  · have hsum := sum_seats_update t.play.pai (mem_three hd)
      (t.play.pai t.play.dizhu ∪ t.bottom)
    have hsplit := h.splits
    unfold Splits piles at hsplit ⊢
    rw [sum_seats] at hsplit ⊢
    rw [fapaiDizhu_cfg, ← hsplit, hpai]
    refine add_right_cancel (b := (t.play.pai t.play.dizhu).val) ?_
    have hnew : (t.fapaiDizhu true).bottom = ∅ := by simp [bottom]
    have hplayed : (t.fapaiDizhu true).played = t.played := by simp
    rw [hnew, hplayed, add_right_comm, hsum, val_union hdisj]
    simp only [List.map_cons, List.map_nil, List.sum_cons, List.sum_nil,
      Finset.empty_val]
    abel
  · intro s hs
    rw [hpai]
    by_cases hsd : s = t.play.dizhu
    · subst hsd
      rw [Function.update_self, Finset.card_union_of_disjoint hdisj, hcard,
        h.untaken hdz _ hd]
      simp
    · rw [Function.update_of_ne hsd]
      simpa [hsd] using h.remain s hs
  · simpa using h.dzPai
  · simp

theorem keeps_setDizhu (t : Table) (d : Nat) (men : Option Nat) :
    Keeps ({ t with play := { t.play with dizhu := d } }.fapaiDizhu !t.cfg.isMld)
      (t.setDizhu d men) := by
  constructor <;> simp [setDizhu, libSetDizhu]

theorem Conserved.setDizhu (h : t.Conserved) (hdz : t.dzTaken = false) {d : Nat}
    (hd : d ∈ t.cfg.seatList) (hmld : t.cfg.isMld = false) (men : Option Nat) :
    (t.setDizhu d men).Conserved ∧ (t.setDizhu d men).dzTaken = true := by
  have hkeeps := t.keeps_setDizhu d men
  rw [hmld, Bool.not_false] at hkeeps
  have h' : Conserved { t with play := { t.play with dizhu := d } } :=
    Keeps.conserved (t := t) ⟨rfl, rfl, rfl, rfl, rfl, rfl, rfl⟩ h
  refine ⟨hkeeps.conserved (h'.take hdz hd), ?_⟩
  rw [hkeeps.dzTaken]
  simp

theorem keeps_startCp (t : Table) : Keeps (t.fapaiDizhu true) t.startCp := by
  constructor <;> simp [Table.startCp]

theorem Cards.startCp (h : t.Conserved) (hdz : t.dzTaken = false)
    (hd : t.play.dizhu ∈ t.cfg.seatList) (hlz : ∀ lz ∈ t.laizi, lz ∈ paiRanks) :
    t.startCp.Cards := by
  have hkeeps := t.keeps_startCp
  have hcons := hkeeps.conserved (h.take hdz hd)
  have hst : t.startCp.status = .wait ∧ t.startCp.nextStatus = some .cp := by
    simp [Table.startCp]
  refine ⟨.inr hcons, ?_, ?_, ?_⟩
  · rw [hst.1]
    trivial
  · rintro - s hs
    rw [hst.2] at hs
    obtain rfl := Option.some.inj hs
    exact ⟨hcons, by rw [hkeeps.dzTaken]; simp⟩
  · rw [hkeeps.laizi]
    simpa using hlz

end Take

section Bid

variable {t u : Table} {p : Nat}

theorem Cards.noDizhu (h : t.Cards) : t.noDizhu.Cards := by
  unfold Table.noDizhu
  dsimp only
  split
  · refine Cards.settles ?_ (settles_settlement _ _)
    exact h.congr ⟨rfl, rfl, ⟨rfl, rfl⟩, rfl⟩ rfl
  · exact Cards.newGame (by simpa using h.laizi) true

theorem Cards.afterBidding (h : t.Conserved) (hdz : t.dzTaken = true)
    (hlz : ∀ lz ∈ t.laizi, lz ∈ paiRanks) : t.afterBidding.Cards := by
  unfold Table.afterBidding
  split
  · exact Cards.of_wait (.inr h) hlz ⟨h, hdz⟩
  · split
    · exact Cards.of_wait (.inr h) hlz ⟨h, hdz⟩
    · have hkeeps : Keeps t t.readyChupai := ⟨rfl, rfl, rfl, rfl, rfl, rfl, rfl⟩
      have h' := hkeeps.conserved h
      exact Cards.of_wait (.inr h') hlz ⟨h', hdz⟩

theorem keeps_jdzTable (t : Table) (p rate : Nat) : Keeps t (t.jdzTable p rate) := by
  unfold jdzTable libJiaoDizhu erJiaoDizhu norJiaoDizhu
  dsimp only
  split_ifs <;> constructor <;> simp

theorem keeps_erQdzTable (t : Table) (p rate : Nat) :
    Keeps t (t.erQdzTable p rate) := by
  unfold erQdzTable libErQiangDizhu
  dsimp only
  split_ifs <;> constructor <;> simp

theorem Cards.jiaoDizhu (h : t.Cards) (hi : t.Inv) (hp : p ∈ t.cfg.seatList)
    (rate : Nat) : (t.jiaoDizhu p rate).table.Cards := by
  rcases jiaoDizhu_cases hi.base hp rate with heq | ⟨hs, ⟨r, hbids⟩, hres⟩
  · rw [heq]
    exact h
  have hkeeps := t.keeps_jdzTable p rate
  generalize (t.jiaoDizhu p rate).table = T at hres
  generalize t.jdzTable p rate = v at hbids hkeeps hres
  obtain ⟨htime, -⟩ := hi.quiet (by simp [hs]) (by simp [hs]) (by simp [hs])
  have hst := h.status
  rw [hs] at hst
  have hmld : v.cfg.isMld = false := by
    have := hi.status
    rw [hs] at this
    rw [hkeeps.cfg]
    exact this.2
  have hv : v.Conserved ∧ v.dzTaken = false := hkeeps.cardsFor (s := .jdz) hst
  have hlz : ∀ lz ∈ v.laizi, lz ∈ paiRanks := by
    rw [hkeeps.laizi]
    exact h.laizi
  have hland : ∀ {d}, d ∈ t.cfg.seatList →
      (v.setDizhu d none).Conserved ∧ (v.setDizhu d none).dzTaken = true ∧
        ∀ lz ∈ (v.setDizhu d none).laizi, lz ∈ paiRanks := by
    intro d hd
    rw [← hkeeps.cfg] at hd
    obtain ⟨h1, h2⟩ := hv.1.setDizhu hv.2 hd hmld none
    refine ⟨h1, h2, ?_⟩
    rw [(v.keeps_setDizhu d none).laizi]
    exact hlz
  rcases hres with rfl | rfl | ⟨her, hcur, rfl⟩ | ⟨d, hd, -, rfl⟩ | ⟨d, hd, hne, rfl⟩
  · refine Cards.noDizhu ?_
    exact Cards.of_enter (s := .jdz) (.inr hv.1) hlz hv (by rw [hbids.toCtrl, hs])
      (by rw [hbids.toCtrl, htime])
  · exact Cards.of_wait (.inr hv.1) hlz hv
  · exact Cards.of_wait (.inr hv.1) hlz hv
  · obtain ⟨h1, h2, h3⟩ := hland hd
    exact Cards.of_wait (.inr h1) h3 ⟨h1, h2⟩
  · obtain ⟨h1, h2, h3⟩ := hland hd
    exact Cards.afterBidding h1 h2 h3

theorem Cards.erQiangDizhu (h : t.Cards) (hi : t.Inv) (p rate : Nat) :
    (t.erQiangDizhu p rate).table.Cards := by
  by_cases hs : t.status = .erQiangdizhu
  · have hst := hi.status
    rw [hs] at hst
    obtain ⟨-, her, hcur⟩ := hst
    rcases erQiangDizhu_cases her hcur p rate with heq | ⟨-, hbids, hres⟩
    · rw [heq]
      exact h
    have hkeeps := t.keeps_erQdzTable p rate
    generalize (t.erQiangDizhu p rate).table = T at hres
    generalize t.erQdzTable p rate = v at hkeeps hres
    have hcards := h.status
    rw [hs] at hcards
    have hv : v.Conserved ∧ v.dzTaken = false :=
      hkeeps.cardsFor (s := .erQiangdizhu) hcards
    have hlz : ∀ lz ∈ v.laizi, lz ∈ paiRanks := by
      rw [hkeeps.laizi]
      exact h.laizi
    rw [← hkeeps.cfg] at her hres
    rcases hres with ⟨d, hd, rfl⟩ | ⟨-, rfl⟩
    · have hmld : v.cfg.isMld = false := by
        by_contra hmld
        exact isMld_gameType v.cfg (by simpa using hmld) her
      obtain ⟨h1, h2⟩ := hv.1.setDizhu hv.2 hd hmld none
      refine Cards.of_wait (.inr h1) ?_ ⟨h1, h2⟩
      rw [(v.keeps_setDizhu d none).laizi]
      exact hlz
    · exact Cards.of_wait (.inr hv.1) hlz hv
  · rw [Table.erQiangDizhu, if_pos hs]
    exact h

theorem Cards.jiabei (h : t.Cards) (hi : t.Inv) (p rate : Nat) :
    (t.jiabei p rate).table.Cards := by
  unfold Table.jiabei
  split
  · exact h
  · next hs =>
    replace hs : t.status = .jiabei := by
      simp only [not_or, not_not] at hs
      exact hs.1
    have hst := h.status
    rw [hs] at hst
    obtain ⟨htime, -⟩ := hi.quiet (by simp [hs]) (by simp [hs]) (by simp [hs])
    unfold libJiabei
    dsimp only
    split
    · split
      · refine Keeps.wait ?_ hst.1 h.laizi hst
        exact ⟨rfl, rfl, rfl, rfl, rfl, rfl, rfl⟩
      · refine Keeps.wait ?_ hst.1 h.laizi hst
        exact ⟨rfl, rfl, rfl, rfl, rfl, rfl, rfl⟩
    · refine Keeps.stay (s := .jiabei) ?_ hst.1 h.laizi hst hs htime
      exact ⟨rfl, rfl, rfl, rfl, rfl, rfl, rfl⟩

end Bid

section Blind

variable {t u : Table} {p : Nat}

theorem keeps_setDizhu_mld (hmld : t.cfg.isMld) (d : Nat) (men : Option Nat) :
    Keeps t (t.setDizhu d men) := by
  have hkeeps := t.keeps_setDizhu d men
  rw [hmld, Bool.not_true] at hkeeps
  exact ⟨hkeeps.cfg, by simpa using hkeeps.pai, by simpa using hkeeps.remainPai,
    by simpa using hkeeps.dzPai, by simpa using hkeeps.played,
    by simpa using hkeeps.dzTaken, by simpa using hkeeps.laizi⟩

theorem Keeps.trans {v : Table} (h : Keeps t u) (h' : Keeps u v) : Keeps t v :=
  ⟨h'.cfg.trans h.cfg, h'.pai.trans h.pai, h'.remainPai.trans h.remainPai,
    h'.dzPai.trans h.dzPai, h'.played.trans h.played, h'.dzTaken.trans h.dzTaken,
    h'.laizi.trans h.laizi⟩

theorem Cards.men (h : t.Cards) (hi : t.Inv) (hp : p ∈ t.cfg.seatList)
    (opt : Nat) : (t.men p opt).table.Cards := by
  unfold Table.men
  split
  · exact h
  · next hs =>
    replace hs : t.status = .mldMen := by
      simp only [not_or, not_not] at hs
      exact hs.1
    have hst := h.status
    rw [hs] at hst
    have hmld : t.cfg.isMld := by
      have := hi.status
      rw [hs] at this
      exact this.2.1
    split
    · exact h
    · split
      · dsimp only
        generalize hv : addMldAct _ OtherType.mldMen p .mldMen = v
        have hkeeps : Keeps t v := by
          rw [← hv]
          constructor <;> simp
        have hmld' : v.cfg.isMld := by rw [hkeeps.cfg, hmld]
        have hset := hkeeps.trans (keeps_setDizhu_mld hmld' p (some 1))
        split
        · have hu := hset.cardsFor (s := .mldMen) hst
          have hstart := Cards.startCp hu.1 hu.2
            (by rw [setDizhu_dizhu, hset.cfg]; exact hp) (hset.laizi ▸ h.laizi)
          exact hstart.congr ⟨rfl, rfl, ⟨rfl, rfl⟩, rfl⟩ rfl
        · exact hset.wait hst.1 h.laizi hst
      · split
        · exact h
        · refine Keeps.wait ?_ hst.1 h.laizi hst
          constructor <;> simp

theorem Cards.zhuaPai (h : t.Cards) (hi : t.Inv) (p opt : Nat) :
    (t.zhuaPai p opt).table.Cards := by
  unfold Table.zhuaPai
  split
  · exact h
  · next hs =>
    replace hs : t.status = .mldMen := by
      simp only [not_or, not_not] at hs
      exact hs.1
    have hst := h.status
    rw [hs] at hst
    have hmld : t.cfg.isMld := by
      have := hi.status
      rw [hs] at this
      exact this.2.1
    split
    · dsimp only
      generalize hv : addMldAct _ OtherType.mldZhua p .mldZp = v
      have hkeeps : Keeps t v := by
        rw [← hv]
        constructor <;> simp
      have hmld' : v.cfg.isMld := by rw [hkeeps.cfg, hmld]
      have hset := hkeeps.trans (keeps_setDizhu_mld hmld' p (some 0))
      refine (hset.trans ?_).wait hst.1 h.laizi hst
      constructor <;> simp
    · refine Keeps.wait ?_ hst.1 h.laizi hst
      constructor <;> simp

theorem Cards.dao (h : t.Cards) (hi : t.Inv) (hs : t.status = .mldJb) (p opt : Nat) :
    (t.dao p opt).table.Cards := by
  have hst := h.status
  rw [hs] at hst
  have hdouble := hi.status
  rw [hs] at hdouble
  have hmem := (hi.base.dizhu hdouble.1.1).1
  obtain ⟨htime, -⟩ := hi.quiet (by simp [hs]) (by simp [hs]) (by simp [hs])
  unfold Table.dao
  split
  · exact h
  · dsimp only
    generalize hw : addMldAct (t.daoRate p opt) _ p .mldDao = w
    have hkeeps : Keeps t { w with
        daoLaData := Function.update w.daoLaData p (some opt) } := by
      rw [← hw]
      constructor <;> simp
    have hctrl : w.toCtrl = t.toCtrl := by
      rw [← hw]
      simp
    have hdz : w.play.dizhu = t.play.dizhu := by
      rw [← hw]
      simp
    split
    · split
      · exact hkeeps.wait hst.1 h.laizi hst
      · have hu := hkeeps.cardsFor (s := .mldJb) hst
        refine Cards.startCp hu.1 hu.2 ?_ (hkeeps.laizi ▸ h.laizi)
        rw [hkeeps.cfg]
        exact hdz ▸ hmem
    · refine hkeeps.stay (s := .mldJb) hst.1 h.laizi hst ?_ ?_
      · exact (congrArg Ctrl.status hctrl).trans hs
      · exact (congrArg Ctrl.time hctrl).trans htime

theorem Cards.laEnd (h : t.Conserved) (hdz : t.dzTaken = false)
    (hmem : t.play.dizhu ∈ t.cfg.seatList) (hlz : ∀ lz ∈ t.laizi, lz ∈ paiRanks)
    (p opt : Nat) : (t.laEnd p opt).table.Cards := by
  unfold Table.laEnd
  dsimp only
  generalize hw : addMldAct t _ p .mldLa = w
  have hkeeps : Keeps t { w with
      daoLaData := Function.update w.daoLaData p (some opt) } := by
    rw [← hw]
    constructor <;> simp
  refine Cards.startCp (hkeeps.conserved h) (hkeeps.dzTaken.trans hdz) ?_
    (hkeeps.laizi ▸ hlz)
  rw [hkeeps.cfg, ← hw]
  simpa using hmem

theorem Cards.la (h : t.Cards) (hi : t.Inv) (hs : t.status = .mldJb)
    (hcur : t.play.curP = t.play.dizhu) (p opt : Nat) :
    (t.la p opt).table.Cards := by
  have hst := h.status
  rw [hs] at hst
  have hdouble := hi.status
  rw [hs] at hdouble
  obtain ⟨hdouble, hmld, -, -, hall⟩ := hdouble
  have hmem := (hi.base.dizhu hdouble.1).1
  by_cases hopt : 0 < opt
  · have hthree := nongmin_three hi.base hdouble.1 (isMld_gameType t.cfg hmld)
    replace hall := hall hcur
    rw [hthree] at hall
    obtain ⟨r, hla⟩ := la_eq (p := p) hopt (hall t.nm1 (by simp))
      (hall t.nm2 (by simp))
    rw [hla]
    have hkeeps : Keeps t ((t.read .nongmin).setRate (t.sumNongmin r)) :=
      ⟨rfl, rfl, rfl, rfl, rfl, rfl, rfl⟩
    exact Cards.laEnd (hkeeps.conserved hst.1) hst.2 hmem h.laizi p opt
  · rw [Table.la, if_neg hopt]
    exact Cards.laEnd hst.1 hst.2 hmem h.laizi p opt

theorem Cards.daoLa (h : t.Cards) (hi : t.Inv) (p opt : Nat) :
    (t.daoLa p opt).table.Cards := by
  unfold Table.daoLa
  split
  · exact h
  · next hs =>
    replace hs : t.status = .mldJb := by simpa using hs
    have hread : (t.read .daoLaData).Cards :=
      h.congr ⟨rfl, rfl, ⟨rfl, rfl⟩, rfl⟩ rfl
    have hinv : (t.read .daoLaData).Inv := hi.congr rfl rfl ⟨rfl, rfl⟩ rfl rfl
    dsimp only
    split
    · exact hread
    · split
      · exact hread
      · split
        · next hla => exact hread.la hinv hs hla p opt
        · exact hread.dao hinv hs p opt

end Blind

section Play

variable {t u : Table} {p : Nat} {a : ChupaiArgs}

structure Lays (t u : Table) (p : Nat) (cards : Finset Nat) : Prop where
  cfg : u.cfg = t.cfg
  pai : u.play.pai = Function.update t.play.pai p (t.play.pai p \ cards)
  remainPai : u.play.remainPai =
    Function.update t.play.remainPai p (t.play.remainPai p - cards.card)
  dzPai : u.play.dzPai = t.play.dzPai
  played : u.played = t.played ∪ cards
  dzTaken : u.dzTaken = t.dzTaken

theorem Lays.conserved {cards : Finset Nat} (hu : Lays t u p cards)
    (h : t.Conserved) (hdz : t.dzTaken = true) (hp : p ∈ t.cfg.seatList)
    (hsub : cards ⊆ t.play.pai p) : u.Conserved := by
  have hdisj : Disjoint t.played cards := by
    have hnodup : t.piles.Pairwise Disjoint :=
      h.splits.pairwise_disjoint (deck_nodup _)
    simp only [piles, List.pairwise_cons, List.mem_cons, List.not_mem_nil,
      or_false, forall_eq_or_imp, forall_eq] at hnodup
    refine Finset.disjoint_of_subset_right hsub ?_
    have hp' := mem_three hp
    simp only [List.mem_cons, List.not_mem_nil, or_false] at hp'
    rcases hp' with rfl | rfl | rfl <;> rw [disjoint_comm] <;> tauto
  constructor
  · have hsum := sum_seats_update t.play.pai (mem_three hp) (t.play.pai p \ cards)
    have hsplit := h.splits
    unfold Splits piles at hsplit ⊢
    rw [sum_seats] at hsplit ⊢
    have hbottom : u.bottom = t.bottom := by
      simp only [bottom, hu.dzTaken, hu.dzPai]
    rw [hu.cfg, ← hsplit, hu.pai, hu.played, hbottom]
    refine add_right_cancel (b := (t.play.pai p).val) ?_
    rw [add_right_comm, hsum]
    simp only [List.map_cons, List.map_nil, List.sum_cons, List.sum_nil]
    rw [val_union hdisj, val_eq_sdiff_add hsub]
    abel
  · intro s hs
    rw [hu.cfg] at hs
    rw [hu.pai, hu.remainPai]
    by_cases hsp : s = p
    · subst hsp
      rw [Function.update_self, Function.update_self, h.remain s hs,
        Finset.card_sdiff_of_subset hsub,
        Nat.cast_sub (Finset.card_le_card hsub)]
    · rw [Function.update_of_ne hsp, Function.update_of_ne hsp]
      exact h.remain s hs
  · rw [hu.dzPai]
    exact h.dzPai
  · rw [hu.dzTaken, hdz]
    simp

theorem deduct_spec {cp : CpList} (hcp : a.cpList = some cp)
    (h : cp.FromHand (t.play.pai p) t.laizi) :
    (t.deduct p a).2 = true ∧
      (t.deduct p a).1.play.pai = Function.update t.play.pai p
        (t.play.pai p \ cp.cards (t.play.pai p) t.laizi) ∧
      (t.deduct p a).1.played =
        t.played ∪ cp.cards (t.play.pai p) t.laizi := by
  obtain ⟨hpai, hok⟩ := deductPaiByCpList_pai { pai := t.play.pai p } h
  have hsub := CpList.cards_subset h
  unfold deduct
  dsimp only
  rw [hcp]
  refine ⟨hok, by rw [hpai], ?_⟩
  rw [hpai, Finset.sdiff_sdiff_eq_self hsub, Finset.union_assoc, Option.getD_some,
    Finset.union_eq_right.mpr (CpList.norIds_subset_cards cp _ _)]

theorem deduct_keeps (t : Table) (p : Nat) (a : ChupaiArgs) :
    (t.deduct p a).1.play.remainPai = t.play.remainPai ∧
      (t.deduct p a).1.play.dzPai = t.play.dzPai ∧
      (t.deduct p a).1.dzTaken = t.dzTaken := by
  simp [deduct]

theorem libChupai_cards (h : t.Playable p a) :
    Keeps t (t.libChupai p a).table ∨
      (∃ cards ⊆ t.play.pai p, Lays t (t.libChupai p a).table p cards) ∧
        (t.libChupai p a).table.laizi = t.laizi := by
  unfold libChupai
  split
  · exact .inl ⟨rfl, rfl, rfl, rfl, rfl, rfl, rfl⟩
  · exact .inl ⟨rfl, rfl, rfl, rfl, rfl, rfl, rfl⟩
  · dsimp only
    split
    · exact .inl (by constructor <;> simp)
    · next htype =>
      refine .inr ?_
      obtain ⟨cp, hcp, hfrom, hlen⟩ := h htype
      obtain ⟨hok, hpai, hplayed⟩ := deduct_spec (t := t.addAct (a.act p)) hcp hfrom
      obtain ⟨hc, -, -, hh, -⟩ := (t.addAct (a.act p)).deduct_frame p a
      obtain ⟨hr, hdz, htaken⟩ := (t.addAct (a.act p)).deduct_keeps p a
      have hcard := CpList.card_cards hfrom
      generalize (t.addAct (a.act p)).deduct p a = q at hok hpai hplayed hc hh hr hdz htaken
      obtain ⟨u, ok⟩ := q
      dsimp only at hok hpai hplayed hc hh hr hdz htaken
      subst hok
      dsimp only
      have hlays : Lays t { u with play := { u.play with
          remainPai := Function.update u.play.remainPai p
            (u.play.remainPai p - a.mergeCpList.length) } } p
          (cp.cards (t.play.pai p) t.laizi) := by
        refine ⟨hc, hpai, ?_, hdz, hplayed, htaken⟩
        rw [hlen, ← hcard]
        dsimp only
        rw [hr]
        rfl
      have hlz : u.laizi = t.laizi := by rw [hh]; rfl
      split
      · exact ⟨⟨_, CpList.cards_subset hfrom, ⟨hlays.cfg, hlays.pai, hlays.remainPai,
          hlays.dzPai, hlays.played, hlays.dzTaken⟩⟩, hlz⟩
      · exact ⟨⟨_, CpList.cards_subset hfrom, ⟨hlays.cfg, hlays.pai, hlays.remainPai,
          hlays.dzPai, hlays.played, hlays.dzTaken⟩⟩, hlz⟩

theorem Conserved.libChupai (h : t.Conserved) (hdz : t.dzTaken = true)
    (hp : p ∈ t.cfg.seatList) (ha : t.Playable p a) :
    (t.libChupai p a).table.Conserved ∧
      (t.libChupai p a).table.dzTaken = true ∧
      (t.libChupai p a).table.laizi = t.laizi := by
  rcases libChupai_cards ha with hk | ⟨⟨cards, hsub, hl⟩, hlz⟩
  · exact ⟨hk.conserved h, hk.dzTaken.trans hdz, hk.laizi⟩
  · exact ⟨hl.conserved h hdz hp hsub, hl.dzTaken.trans hdz, hlz⟩

theorem Cards.chupai (h : t.Cards) (hi : t.Inv) (hp : p ∈ t.cfg.seatList)
    (ha : t.Playable p a) : (t.chupai p a).table.Cards := by
  unfold Table.chupai
  split
  · exact h
  · next hs =>
    replace hs : t.status = .cp := by
      simp only [not_or, not_not] at hs
      exact hs.1
    have hst := h.status
    rw [hs] at hst
    obtain ⟨htime, -⟩ := hi.quiet (by simp [hs]) (by simp [hs]) (by simp [hs])
    have hctrl : (t.libChupai p a).table.toCtrl = t.toCtrl := by
      rcases t.libChupai_spec p a with ⟨heq, -⟩ | ⟨hplays, -⟩
      · rw [heq]
      · exact hplays.toCtrl
    have hcons := hst.1.libChupai hst.2 hp ha
    generalize t.libChupai p a = q at hctrl hcons
    obtain ⟨res, u⟩ := q
    obtain ⟨hcons, hdz, hlz⟩ := hcons
    dsimp only at hcons hdz hlz hctrl
    have hlz' : ∀ lz ∈ u.laizi, lz ∈ paiRanks := hlz ▸ h.laizi
    have hust : u.status = .cp := by rw [hctrl, hs]
    have hutime : u.time = false := by rw [hctrl, htime]
    have hu : u.Cards := Cards.of_enter (s := .cp) (.inr hcons) hlz' ⟨hcons, hdz⟩
      hust hutime
    cases res with
    | none => exact hu
    | some status =>
        dsimp only
        have hkeeps : ∀ m, Keeps u ((u.countPlay p a.type).sendAll m) :=
          fun m => by constructor <;> simp
        split
        · split
          · refine Cards.settles ?_ (settles_settlement _ _)
            exact (hkeeps _).stay (s := .cp) hcons hlz' ⟨hcons, hdz⟩ hust hutime
          · exact (hkeeps _).wait hcons hlz' ⟨hcons, hdz⟩
        · exact hu

end Play

section Timer

variable {t : Table}

theorem Cards.changeStatus (hhand : t.Fresh ∨ t.Conserved)
    (hlz : ∀ lz ∈ t.laizi, lz ∈ paiRanks) {s : Status} (hs : t.CardsFor s)
    (rand : Nat) : (t.changeStatus rand s).Cards := by
  have hsame : ∀ u : Table, Same t u → u.status = s → u.time = false → u.Cards :=
    fun u hu hst ht => Cards.of_enter (hu.hand hhand) (hu.laizi ▸ hlz)
      (hu.keeps.cardsFor hs) hst ht
  have hkeeps : ∀ u : Table, Keeps t u → t.Conserved → u.status = s →
      u.time = false → u.Cards :=
    fun u hu hc hst ht => hu.stay hc hlz hs hst ht
  cases s with
  | gameBegin => exact Cards.gameBegin hhand hlz
  | jdz => exact hsame _ ⟨rfl, rfl, ⟨rfl, rfl⟩, rfl⟩ rfl rfl
  | mldMen => exact hsame _ ⟨rfl, rfl, ⟨rfl, rfl⟩, rfl⟩ rfl rfl
  | mldJb => exact hkeeps _ ⟨rfl, rfl, rfl, rfl, rfl, rfl, rfl⟩ hs.1 rfl rfl
  | jiabei => exact hkeeps _ ⟨rfl, rfl, rfl, rfl, rfl, rfl, rfl⟩ hs.1 rfl rfl
  | createLz =>
      have hc : Conserved (((({ t.enter .createLz with
          laizi := some (random (fun _ => rand) 0 3 15) }.write .laizi).sendAll
            fun _ => .laizi (random (fun _ => rand) 0 3 15)).readyChupai)) :=
        ⟨hs.1.splits, hs.1.remain, hs.1.dzPai, hs.1.untaken⟩
      refine Cards.of_wait (.inr hc) ?_ ⟨hc, hs.2⟩
      intro lz hlz
      obtain rfl := Option.some.inj hlz
      have := random_mem (fun _ => rand) 0 (show 3 ≤ 15 by omega)
      rw [mem_paiRanks]
      omega
  | _ => exact hsame _ ⟨rfl, rfl, ⟨rfl, rfl⟩, rfl⟩ rfl rfl

theorem Cards.update (h : t.Cards) (rand : Nat) : (t.update rand).Cards := by
  unfold Table.update
  split
  · next htime =>
    have hsame : Same t { t with time := false } := ⟨rfl, rfl, ⟨rfl, rfl⟩, rfl⟩
    dsimp only
    split
    · refine ⟨hsame.hand h.hand, hsame.keeps.cardsFor h.status, ?_, h.laizi⟩
      exact fun ht => absurd ht Bool.false_ne_true
    · next s hs =>
      exact Cards.changeStatus (hsame.hand h.hand) h.laizi
        (hsame.keeps.cardsFor (h.next htime.1 s hs)) rand
  · exact h

theorem Cards.gameover (h : t.Cards) : t.gameover.Cards :=
  Cards.changeStatus (s := .gameover) h.hand h.laizi trivial 0

theorem Cards.cancelGame (h : t.Cards) : t.cancelGame.table.Cards := by
  unfold Table.cancelGame
  split
  · exact h
  · exact Cards.changeStatus (s := .gamecancel) h.hand h.laizi trivial 0

theorem Cards.breakGame (h : t.Cards) : t.breakGame.table.Cards := by
  unfold Table.breakGame
  split
  · exact h
  · have hbreak : Cards { t with isBreakGame := true } :=
      h.congr ⟨rfl, rfl, ⟨rfl, rfl⟩, rfl⟩ rfl
    dsimp only
    split
    · exact hbreak.gameover
    · split
      · exact hbreak.settles (settles_settlement _ _)
      · exact hbreak

theorem Cards.settlementFinish (h : t.Cards) (hi : t.Inv)
    (hu : t.updating = some .score) (F : NumFormat) (answer : Nat → Int → Int) :
    (settlementFinish F { t with updating := none } answer).Cards := by
  unfold Table.settlementFinish
  dsimp only
  unfold Table.nextGame
  split
  · refine Cards.newGame ?_ false
    exact h.laizi
  · have hst : t.status = .wait ∨ t.status = .fp ∨ t.status = .settlement := by
      rcases hi.paying hu with hs | hs <;> simp [hs]
    refine Cards.of_later (Same.hand (t := t) ?_ h.hand) h.laizi hst trivial
    exact ⟨rfl, rfl, ⟨rfl, rfl⟩, rfl⟩

end Timer

/-! ## Steps and runs -/

def PlaysFromHand (t : Table) : Event → Prop
  | .chupai seat a => t.Playable seat a
  | _ => True

theorem Cards.step {t : Table} (h : t.Cards) (hi : t.Inv) (F : NumFormat)
    {e : Event} (he : t.Legal e) (hplay : t.PlaysFromHand e) :
    (t.step F e).Cards := by
  unfold Table.step
  split
  · exact h
  · cases e with
    | join id seat => exact h.join id seat
    | playerExitGame seat => exact h.playerExitGame seat
    | ready seat => exact h.readyCmd seat
    | jiaoDizhu seat rate => exact h.jiaoDizhu hi he rate
    | jiabei seat rate => exact h.jiabei hi seat rate
    | men seat opt => exact h.men hi he opt
    | zhuaPai seat opt => exact h.zhuaPai hi seat opt
    | daoLa seat opt => exact h.daoLa hi seat opt
    | erQiangDizhu seat rate => exact h.erQiangDizhu hi seat rate
    | chupai seat args => exact h.chupai hi he.1 hplay
    | auto seat type => exact h.congr ⟨rfl, rfl, ⟨rfl, rfl⟩, rfl⟩ rfl
    | cancelGame => exact h.cancelGame
    | breakGame => exact h.breakGame
    | overTimeCancelGame =>
        simp only [handle, Table.overTimeCancelGame]
        split
        · exact h.cancelGame
        · exact h.breakGame
    | update rand => exact h.update rand
    | fapaiAnswer ρ rand =>
        simp only [handle]
        split
        · next hu => exact h.fapai hi hu ρ rand
        · exact h
    | capAnswer call answer =>
        simp only [handle]
        split
        · have hsame : Same t { t with pending := t.pending.erase call } :=
            ⟨rfl, rfl, ⟨rfl, rfl⟩, rfl⟩
          refine Cards.settles ?_ (settles_resumeSettlement _ _ _)
          exact ⟨hsame.hand h.hand, hsame.keeps.cardsFor h.status,
            fun ht s hs => hsame.keeps.cardsFor (h.next ht s hs), h.laizi⟩
        · exact h
    | scoreAnswer answer =>
        simp only [handle]
        split
        · next hu => exact h.settlementFinish hi hu F answer
        · exact h

theorem Conserved.disjoint_union {t : Table} (h : t.Conserved) :
    t.piles.Pairwise Disjoint ∧
      ∀ id, id ∈ deck t.cfg.gameType ↔ ∃ pile ∈ t.piles, id ∈ pile :=
  ⟨h.splits.pairwise_disjoint (deck_nodup _), h.splits.mem_iff⟩

end Table

end JyQipai.Ddz
