import JyQipai.Ddz.Moves
import JyQipai.Ddz.Legality

/-!
# The last two actions

An agent keeps the last two actions only, and it is told of the bidding in part.  The plays of the
hand reach it one by one, so what it decides by its two actions is what the table decides by all.
-/

namespace JyQipai.Ddz

def lastTwo (l : List Act) : List Act := l.drop (l.length - 2)

theorem addAct_lastTwo {a : Agent} {l : List Act} (h : a.actList = lastTwo l) (act : Act) :
    (a.addAct act).actList = lastTwo (l ++ [act]) := by
  rw [Agent.addAct_actList, h]
  simp only [lastTwo, List.length_append, List.length_drop, List.length_singleton]
  split
  · rw [List.drop_drop, List.drop_append_of_le_length (by omega)]
    congr 2
    omega
  · rw [← List.drop_append_of_le_length (by omega)]
    congr 1
    omega

/-- Two lists of actions with the same plays after their bids; the first play is no pass. -/
def SamePlays (l k : List Act) : Prop :=
  ∃ bids bids' plays, l = bids ++ plays ∧ k = bids' ++ plays ∧ (∀ a ∈ bids, a.IsBid) ∧
    (∀ a ∈ bids', a.IsBid) ∧ (∀ a ∈ plays, a.play.Wf) ∧ ∀ a ∈ plays.head?, a.type ≠ 0

/-- The second list holds the last two actions of a list with the same plays. -/
def Window (l w : List Act) : Prop := ∃ k, SamePlays l k ∧ w = lastTwo k

def OnlyBids (w : List Act) : Prop := ∃ k, (∀ a ∈ k, a.IsBid) ∧ w = lastTwo k

section

variable {l w : List Act}

theorem not_isBid {a : Act} (h : a.play.Wf) : ¬ a.IsBid := by
  have hle : a.type ≤ 15 := h.type_le
  unfold Act.IsBid
  omega

theorem window_of_bids (hl : ∀ a ∈ l, a.IsBid) (hw : OnlyBids w) : Window l w := by
  obtain ⟨k, hk, rfl⟩ := hw
  refine ⟨k, ⟨l, k, [], ?_, ?_, hl, hk, by simp, by simp⟩, rfl⟩ <;> rw [List.append_nil]

theorem Window.onlyBids (h : Window l w) (hl : ∀ a ∈ l, a.IsBid) : OnlyBids w := by
  obtain ⟨k, ⟨bids, bids', plays, rfl, rfl, -, hbids', hplays, -⟩, rfl⟩ := h
  have hnil : plays = [] := by
    rw [List.eq_nil_iff_forall_not_mem]
    intro a ha
    exact not_isBid (hplays a ha) (hl a (List.mem_append_right _ ha))
  subst hnil
  exact ⟨bids', hbids', by rw [List.append_nil]⟩

theorem onlyBids_nil : OnlyBids [] := ⟨[], by simp, rfl⟩

theorem OnlyBids.addAct {a : Agent} (h : OnlyBids a.actList) {act : Act} (hact : act.IsBid) :
    OnlyBids (a.addAct act).actList := by
  obtain ⟨k, hk, ha⟩ := h
  refine ⟨k ++ [act], ?_, addAct_lastTwo ha act⟩
  simpa [or_imp, forall_and] using ⟨hk, hact⟩

theorem OnlyBids.foldl_addAct {acts : List Act} {a : Agent} (h : OnlyBids a.actList)
    (hacts : ∀ act ∈ acts, act.IsBid) : OnlyBids (acts.foldl Agent.addAct a).actList := by
  induction acts generalizing a with
  | nil => exact h
  | cons act acts ih =>
      exact ih (h.addAct (hacts act List.mem_cons_self)) fun b hb =>
        hacts b (List.mem_cons_of_mem _ hb)

theorem Window.addAct {a : Agent} (h : Window l a.actList) {g : GameType} {act : Act}
    (hwf : act.play.Wf) (hpass : act.type = 0 → isMustChupai g l = false) :
    Window (l ++ [act]) (a.addAct act).actList := by
  obtain ⟨k, ⟨bids, bids', plays, rfl, rfl, hbids, hbids', hplays, hfirst⟩, ha⟩ := h
  refine ⟨_, ⟨bids, bids', plays ++ [act], ?_, ?_, hbids, hbids', ?_, ?_⟩, addAct_lastTwo ha act⟩
  · rw [List.append_assoc]
  · rw [List.append_assoc]
  · simpa [or_imp, forall_and] using ⟨hplays, hwf⟩
  · cases plays with
    | nil =>
        intro b hb htype
        obtain rfl : act = b := by simpa using hb
        have hmust := hpass htype
        rw [List.append_nil, Table.must_of_bids hbids] at hmust
        cases hmust
    | cons b plays => simpa using hfirst

end

section Decide

variable {l w : List Act}

theorem lastTwo_append (l : List Act) (b a : Act) : lastTwo (l ++ [b, a]) = [b, a] := by
  simp [lastTwo]

theorem lastTwo_single (bids : List Act) (a : Act) :
    (∃ b ∈ bids, lastTwo (bids ++ [a]) = [b, a]) ∨ bids = [] ∧ lastTwo (bids ++ [a]) = [a] := by
  rcases bids.eq_nil_or_concat' with rfl | ⟨bids, b, rfl⟩
  · exact .inr ⟨rfl, rfl⟩
  · refine .inl ⟨b, by simp, ?_⟩
    rw [List.append_assoc]
    exact lastTwo_append bids b a

theorem Window.cases (h : Window l w) :
    ((∀ a ∈ l, a.IsBid) ∧ ∀ a ∈ w, a.IsBid) ∨
      (∃ bids a, l = bids ++ [a] ∧ a.play.Wf ∧ a.type ≠ 0 ∧ (∀ b ∈ bids, b.IsBid) ∧
        ((∃ b, b.IsBid ∧ w = [b, a]) ∨ w = [a])) ∨
      ∃ k b a, l = k ++ [b, a] ∧ a.play.Wf ∧ b.play.Wf ∧ w = [b, a] := by
  obtain ⟨k, ⟨bids, bids', plays, rfl, rfl, hbids, hbids', hplays, hfirst⟩, rfl⟩ := h
  rcases plays.eq_nil_or_concat' with rfl | ⟨plays, a, rfl⟩
  · refine .inl ⟨?_, ?_⟩
    · rwa [List.append_nil]
    · rw [List.append_nil]
      exact fun a ha => hbids' a (List.mem_of_mem_drop ha)
  · rcases plays.eq_nil_or_concat' with rfl | ⟨plays, b, rfl⟩
    · refine .inr (.inl ⟨bids, a, rfl, hplays a (by simp), hfirst a rfl, hbids, ?_⟩)
      rcases lastTwo_single bids' a with ⟨b, hb, hw⟩ | ⟨-, hw⟩
      · exact .inl ⟨b, hbids' b hb, hw⟩
      · exact .inr hw
    · refine .inr (.inr ⟨bids ++ plays, b, a, by simp, hplays a (by simp), hplays b (by simp), ?_⟩)
      have happ : bids' ++ (plays ++ [b] ++ [a]) = (bids' ++ plays) ++ [b, a] := by simp
      rw [happ, lastTwo_append]

theorem isMustChupai_append (g : GameType) (l : List Act) (b a : Act) :
    isMustChupai g (l ++ [b, a]) = isMustChupai g [b, a] := by
  cases g <;> simp [isMustChupai]

theorem isMustChupai_first (g : GameType) (bids : List Act) (hbids : ∀ b ∈ bids, b.IsBid) {a : Act}
    (hwf : a.play.Wf) (ha : a.type ≠ 0) : isMustChupai g (bids ++ [a]) = false := by
  have hle : a.type ≤ 15 := hwf.type_le
  rcases bids.eq_nil_or_concat' with rfl | ⟨bids, b, rfl⟩
  · cases g <;> simp [isMustChupai] <;> omega
  · rw [List.append_assoc, List.singleton_append, isMustChupai_append]
    cases g <;> simp [isMustChupai] <;> omega

theorem Window.isMustChupai (h : Window l w) (g : GameType) :
    Ddz.isMustChupai g w = Ddz.isMustChupai g l := by
  rcases h.cases with ⟨hl, hw⟩ | ⟨bids, a, rfl, hwf, ha, hbids, hw⟩ | ⟨k, b, a, rfl, -, -, rfl⟩
  · rw [Table.must_of_bids hl, Table.must_of_bids hw]
  · rw [isMustChupai_first g bids hbids hwf ha]
    rcases hw with ⟨b, hb, rfl⟩ | rfl
    · exact isMustChupai_first g [b] (by simpa using hb) hwf ha
    · exact isMustChupai_first g [] (by simp) hwf ha
  · rw [isMustChupai_append]

theorem lastChupai_append (l : List Act) (a : Act) :
    lastChupai (l ++ [a]) = if a.isChupai then some a else lastChupai l := by
  unfold lastChupai
  rw [List.reverse_append, List.reverse_singleton, List.singleton_append, List.find?_cons]
  cases a.isChupai <;> rfl

theorem Window.lastChupai (h : Window l w) {g : GameType} (hmust : Ddz.isMustChupai g l = false) :
    ∃ pos act, getRealChupaiPosByAct g w = some pos ∧ w[pos - 1]? = some act ∧
      Ddz.lastChupai l = some act ∧ act.play.Wf ∧ act.type ≠ 0 := by
  rcases h.cases with ⟨hl, -⟩ | ⟨bids, a, rfl, hwf, ha, hbids, hw⟩ | ⟨k, b, a, rfl, hawf, hbwf, rfl⟩
  · rw [Table.must_of_bids hl] at hmust
    cases hmust
  · have hle : a.type ≤ 15 := hwf.type_le
    have hplay : a.isChupai := isChupai_iff.mpr (by omega)
    rw [lastChupai_append, if_pos hplay]
    rcases hw with ⟨b, hb, rfl⟩ | rfl
    · refine ⟨2, a, ?_, rfl, rfl, hwf, ha⟩
      cases g <;> simp [getRealChupaiPosByAct, searchChupai, hplay]
    · refine ⟨1, a, ?_, rfl, rfl, hwf, ha⟩
      cases g <;> simp [getRealChupaiPosByAct, searchChupai, hplay]
  · have hsplit : k ++ [b, a] = k ++ [b] ++ [a] := by simp
    have hle : a.type ≤ 15 := hawf.type_le
    have hbound : b.type ≤ 15 := hbwf.type_le
    rw [isMustChupai_append] at hmust
    rw [hsplit, lastChupai_append]
    by_cases ha : a.type = 0
    · have hpass : a.isChupai = false := by simp [Act.isChupai, ha]
      have hgame : g ≠ .er := by
        rintro rfl
        simp [Ddz.isMustChupai, ha] at hmust
      have hb : b.type ≠ 0 := by
        intro hb
        cases g <;> simp [Ddz.isMustChupai, ha, hb] at hmust
      have hplay : b.isChupai := isChupai_iff.mpr (by omega)
      rw [if_neg (by simp [hpass]), lastChupai_append, if_pos hplay]
      refine ⟨1, b, ?_, rfl, rfl, hbwf, hb⟩
      cases g <;> simp [getRealChupaiPosByAct, searchChupai, hplay, hpass] at hgame ⊢
    · have hplay : a.isChupai := isChupai_iff.mpr (by omega)
      rw [if_pos hplay]
      refine ⟨2, a, ?_, rfl, rfl, hawf, ha⟩
      cases g <;> simp [getRealChupaiPosByAct, searchChupai, hplay]

end Decide

end JyQipai.Ddz
