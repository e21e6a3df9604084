import JyQipai.Ddz.Control
import JyQipai.Ddz.PaiShape

/-!
# The legality check of a play

`check_chupai_safe` compared with the rules.  On the histories that a table can
reach it always comes to a decision; the pairs of types on which this decision
differs from the rules are listed in `MisjudgedTypes`.
-/

namespace JyQipai.Ddz

open JyQipai.Lib

def lastPlay (l : List Act) : Option PaiType :=
  (l.filter Act.isChupai).getLast?.map Act.play

/-- The rules for the next play: a pass is legal unless one must play, a seat
that must play may play anything, and otherwise the last play must be
beaten. -/
def LegalPlay (gameType : GameType) (l : List Act) (p : PaiType) : Prop :=
  if p.type = 0 then isMustChupai gameType l = false
  else isMustChupai gameType l = true ∨ ∃ q ∈ lastPlay l, p.Beats q

/-- The check returns, and accepts exactly if `P` holds. -/
def Decides (check : Option Bool) (P : Prop) : Prop :=
  ∃ b, check = some b ∧ (b = true ↔ P)

/-- The types of plays `p` over `q` on which the check differs from the rules:
a play of another type that is no bomb, over anything but a real bomb or a
rocket; a soft bomb over a real bomb; a second rocket. -/
def MisjudgedTypes (p q : Nat) : Prop :=
  (p ≠ 13 ∧ p ≠ 14 ∧ p ≠ 15 ∧ p ≠ q ∧ q ≠ 13 ∧ q ≠ 14) ∨
    (p = 15 ∧ q = 13) ∨ (p = 14 ∧ q = 14)

def Misjudged (gameType : GameType) (l : List Act) (p : PaiType) : Prop :=
  p.type ≠ 0 ∧ isMustChupai gameType l = false ∧
    ∃ q ∈ lastPlay l, MisjudgedTypes p.type q.type

instance (g : GameType) (l : List Act) (p : PaiType) :
    Decidable (LegalPlay g l p) := by
  unfold LegalPlay
  infer_instance

instance (g : GameType) (l : List Act) (p : PaiType) :
    Decidable (Misjudged g l p) := by
  unfold Misjudged MisjudgedTypes
  infer_instance

instance (check : Option Bool) (P : Prop) [Decidable P] :
    Decidable (Decides check P) :=
  inferInstanceAs (Decidable (∃ b, check = some b ∧ (b = true ↔ P)))

/-! ## The last play -/

theorem lastChupai_eq (l : List Act) :
    lastChupai l = (l.filter Act.isChupai).getLast? := by
  rw [lastChupai, ← List.head?_filter, List.filter_reverse, List.head?_reverse]

theorem isChupai_iff {a : Act} : a.isChupai ↔ 0 < a.type ∧ a.type < 16 := by
  simp [Act.isChupai]

theorem History.last {g : GameType} {l : List Act} (h : History l)
    (hmust : isMustChupai g l = false) :
    ∃ a, lastChupai l = some a ∧ a.play.Wf := by
  obtain ⟨bids, plays, rfl, hbids, hplays, hfirst⟩ := h
  have hne : (bids ++ plays).filter Act.isChupai ≠ [] := by
    cases plays with
    | nil =>
        rw [List.append_nil, Table.must_of_bids hbids] at hmust
        cases hmust
    | cons b plays =>
        have hwf := (hplays b List.mem_cons_self).type_le
        have htype := hfirst b rfl
        have hb : b.isChupai := isChupai_iff.mpr
          ⟨Nat.pos_of_ne_zero htype, Nat.lt_succ_of_le hwf⟩
        refine List.ne_nil_of_mem (a := b) ?_
        simp [hb]
  obtain ⟨a, ha⟩ := Option.ne_none_iff_exists'.mp
    (mt List.getLast?_eq_none_iff.mp hne)
  refine ⟨a, by rw [lastChupai_eq, ha], ?_⟩
  have hmem := List.mem_filter.mp (List.mem_of_getLast? ha)
  have hrange := isChupai_iff.mp hmem.2
  rcases List.mem_append.mp hmem.1 with hbid | hplay
  · have := hbids a hbid
    unfold Act.IsBid at this
    omega
  · exact hplays a hplay

section Beats

variable {p q : PaiType}

theorem keyLarger_wf (hp : p.Wf) (hq : q.Wf) (hp0 : p.type ≠ 0)
    (hq0 : q.type ≠ 0) :
    keyLarger p.pai q.pai = some (decide (q.key < p.key)) := by
  obtain ⟨r, hr⟩ := hp.pai_cons hp0
  obtain ⟨s, hs⟩ := hq.pai_cons hq0
  rw [hr, hs, keyLarger]

theorem runLarger_wf (hp : p.Wf) (hq : q.Wf) (hpr : isRunType p.type)
    (hqr : isRunType q.type) :
    runLarger p.pai q.pai =
      some (decide ((p.runEnd : Int) - p.key = q.runEnd - q.key ∧ q.key < p.key)) := by
  obtain ⟨r, hr⟩ := hp.pai_run hpr
  obtain ⟨s, hs⟩ := hq.pai_run hqr
  rw [hr, hs, runLarger]

theorem isRunType_iff {type : Nat} :
    isRunType type ↔
      type = 6 ∨ type = 7 ∨ type = 10 ∨ type = 11 ∨ type = 12 := by
  simp [isRunType]

theorem decides_same_type (hp : p.Wf) (hq : q.Wf) (hp0 : p.type ≠ 0)
    (heq : p.type = q.type) (h14 : q.type ≠ 14) :
    Decides
      (if p.type < 6 ∨ p.type = 13 ∨ p.type = 15 ∨ p.type = 8 ∨ p.type = 9 then
        keyLarger p.pai q.pai
      else runLarger p.pai q.pai) (p.Beats q) := by
  have hq0 : q.type ≠ 0 := heq ▸ hp0
  have hle := hp.type_le
  split
  · next hkey =>
    have hrun : ¬ isRunType p.type := by
      rw [isRunType_iff]
      omega
    refine ⟨_, keyLarger_wf hp hq hp0 hq0, ?_⟩
    rw [decide_eq_true_iff, PaiType.Beats]
    constructor
    · exact fun h => .inl ⟨heq, h, fun h => absurd h hrun⟩
    · rintro (⟨-, h, -⟩ | h | h | h)
      · exact h
      all_goals omega
  · next hkey =>
    have hrun : isRunType p.type := by
      rw [isRunType_iff]
      omega
    refine ⟨_, runLarger_wf hp hq hrun (heq ▸ hrun), ?_⟩
    rw [decide_eq_true_iff, PaiType.Beats]
    rw [isRunType_iff] at hrun
    constructor
    · exact fun h => .inl ⟨heq, h.2, fun _ => h.1⟩
    · rintro (⟨-, h, hlen⟩ | h | h | h)
      · exact ⟨hlen (isRunType_iff.mpr hrun), h⟩
      all_goals omega

theorem decides_some {b : Bool} {P : Prop} : Decides (some b) P ↔ (b = true ↔ P) := by
  simp [Decides]

theorem beats_of_ne (hne : p.type ≠ q.type) :
    p.Beats q ↔ (p.type = 15 ∧ q.type ≠ 13 ∧ q.type ≠ 14) ∨
      (p.type = 13 ∧ q.type ≠ 14) ∨ p.type = 14 := by
  unfold PaiType.Beats
  omega

end Beats

theorem check_decides {g : GameType} {l : List Act} {a : Act} {p : PaiType}
    (hmust : isMustChupai g l = false) (hlast : lastChupai l = some a)
    (ha : a.play.Wf) (hp : p.Wf) (hp0 : p.type ≠ 0) :
    Decides (checkChupaiSafe g l p.type p.pai) (p.Beats a.play) ↔
      ¬ MisjudgedTypes p.type a.type := by
  have htype : a.play.type = a.type := rfl
  have hcheck : checkChupaiSafe g l p.type p.pai =
      if a.type = 14 then some false
      else if p.type = a.type then
        if p.type < 6 ∨ p.type = 13 ∨ p.type = 15 ∨ p.type = 8 ∨ p.type = 9 then
          keyLarger p.pai a.pai
        else runLarger p.pai a.pai
      else if a.type ≠ 13 ∨ p.type = 15 then some true
      else if p.type = 13 ∨ p.type = 14 then some true
      else some false := by
    simp [checkChupaiSafe, hmust, hlast, hp0]
  rw [hcheck]
  unfold MisjudgedTypes
  by_cases h14 : a.type = 14
  · rw [if_pos h14, decides_some]
    have : p.Beats a.play ↔ p.type = 14 := by
      by_cases hne : p.type = a.play.type
      · simp [PaiType.Beats, hne, htype, h14]
      · rw [beats_of_ne hne]
        omega
    rw [this]
    simp only [Bool.false_eq_true, false_iff]
    omega
  rw [if_neg h14]
  by_cases heq : p.type = a.type
  · rw [if_pos heq]
    have hdec := decides_same_type hp ha hp0 heq h14
    exact iff_of_true hdec (by omega)
  rw [if_neg heq]
  have hbeats := beats_of_ne (p := p) (q := a.play) heq
  rw [htype] at hbeats
  split
  · rw [decides_some, hbeats]
    simp only [true_iff]
    omega
  · split
    · rw [decides_some, hbeats]
      simp only [true_iff]
      omega
    · rw [decides_some, hbeats]
      simp only [Bool.false_eq_true, false_iff]
      omega

/-! ## The check on reachable histories -/

namespace Table

/-- On every history that a table can reach, and for every play that
`get_pai_type` can return, the check accepts exactly the legal plays, except
for the misjudged ones. -/
theorem Reachable.check_legal {F : NumFormat} {cfg : Config} {t : Table}
    (h : Reachable F cfg t) {ids : List Nat} {lzNum : Nat} {p : PaiType}
    (hp : getPaiType ids lzNum = some (some p)) :
    Decides (checkChupaiSafe t.cfg.gameType t.play.actList p.type p.pai)
        (LegalPlay t.cfg.gameType t.play.actList p) ↔
      ¬ Misjudged t.cfg.gameType t.play.actList p := by
  generalize t.cfg.gameType = g
  have hhist := h.inv.base.history
  generalize t.play.actList = l at hhist
  unfold LegalPlay Misjudged
  by_cases hp0 : p.type = 0
  · simp [hp0, checkChupaiSafe, decides_some]
  by_cases hmust : isMustChupai g l = true
  · simp [hp0, hmust, checkChupaiSafe, decides_some]
  · have hmust : isMustChupai g l = false := by simpa using hmust
    obtain ⟨a, hlast, ha⟩ := hhist.last hmust
    have hplay : lastPlay l = some a.play := by
      rw [lastPlay, ← lastChupai_eq, hlast, Option.map_some]
    have hdec := check_decides hmust hlast ha (getPaiType_wf hp) hp0
    simpa [hp0, hmust, hplay, Act.play] using hdec

def leadThree : List Event :=
  bidThree ++ [.update 0, .chupai 1
    { type := 1, keyPai := [3], cpList := some { nor := some [1] }
      mergeCpList := [1] }, .update 0]

theorem check_legal_seven :
    Decides
      (checkChupaiSafe (after {} leadThree).cfg.gameType
        (after {} leadThree).play.actList 1 [7])
      (LegalPlay (after {} leadThree).cfg.gameType
        (after {} leadThree).play.actList ⟨1, [7]⟩) :=
  (Reachable.check_legal (p := ⟨1, [7]⟩) (reachable_after (by decide +kernel))
    (show getPaiType [18] 0 = some (some ⟨1, [7]⟩) by decide +kernel)).mpr (by decide +kernel)

/-- A pair of sevens is accepted over a single three. -/
theorem pair_over_single :
    Reachable .exact {} (after {} leadThree) ∧
      (after {} leadThree).status = .cp ∧
      getPaiType [18, 19] 0 = some (some ⟨2, [7]⟩) ∧
      checkChupaiSafe .nor (after {} leadThree).play.actList 2 [7] = some true ∧
      ¬ Decides (checkChupaiSafe .nor (after {} leadThree).play.actList 2 [7])
        (LegalPlay .nor (after {} leadThree).play.actList ⟨2, [7]⟩) :=
  ⟨reachable_after (by decide +kernel), by decide +kernel, by decide +kernel,
    by decide +kernel, by decide +kernel⟩

end Table

end JyQipai.Ddz
