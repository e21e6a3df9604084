import JyQipai.Mj.Rules

/-!
# Robbing a kong

`deal_w_gang` offers an added kong to the seats that can win on its tile.  Its
loop leaves out the seat whose number is the number of the table, where it should
leave out the seat of the kong.
-/

namespace JyQipai.Mj

open JyQipai.Lib

theorem lookup_filterMap_keys {β : Type} (f : Nat → Option β) (l : List Nat) (s : Nat) :
    (l.filterMap fun x => (f x).map fun b => (x, b)).lookup s =
      if s ∈ l then f s else none := by
  induction l with
  | nil => rfl
  | cons x l ih =>
      by_cases hx : s = x
      · subst hx
        cases hf : f s with
        | none => simp [hf, ih]
        | some b => simp [hf]
      · have hne : (s == x) = false := beq_eq_false_iff_ne.mpr hx
        cases hf : f x with
        | none => simp [hf, ih, hx]
        | some b => simp [hf, List.lookup_cons, hne, ih, hx]

theorem length_filterMap_keys {β : Type} (f : Nat → Option β) (l : List Nat) :
    (l.filterMap fun x => (f x).map fun b => (x, b)).length =
      (l.filter fun x => (f x).isSome).length := by
  induction l with
  | nil => rfl
  | cons x l ih =>
      cases hf : f x with
      | none => simp [hf, ih]
      | some b => simp [hf, ih]

namespace Table

variable {t : Table} {p : Nat}

def robTable (t : Table) (act : Act) (n : Int) : Table :=
  (t.movePai act.p act.pai .wg n).wGangMoved act

def entitled (t : Table) (p : Nat) : List Nat :=
  t.onLine.filter fun s => s ≠ p ∧ (t.huOrder s).isNone ∧ (t.hupai s).isSome

/-- Exactly the entitled seats get the win, the right to answer and a place in
the count of the expected answers. -/
structure RobFair (t u : Table) (p : Nat) : Prop where
  permit : ∀ s, u.pPermit s =
    if s ∈ t.entitled p then (t.hupai s).map fun hu => { guo := true, hu := some hu }
    else none
  done : ∀ s, u.pActionDone s = (t.pActionDone s || decide (s ∈ t.entitled p))
  count : u.qghPermitCount = (t.entitled p).length

def robHu (t : Table) (s : Nat) : Option HuInfo :=
  if (t.huOrder s).isSome ∨ s = t.cfg.tNum then none else t.hupai s

theorem robbers_eq (t : Table) :
    t.robbers = t.onLine.filterMap fun s => (t.robHu s).map fun hu => (s, hu) := by
  unfold robbers robHu
  congr 1
  funext s
  split <;> rfl

def robSeats (t : Table) : List Nat :=
  t.onLine.filter fun s => (t.robHu s).isSome

theorem lookup_robbers (t : Table) (s : Nat) :
    t.robbers.lookup s = if s ∈ t.robSeats then t.hupai s else none := by
  rw [robbers_eq, lookup_filterMap_keys]
  unfold robSeats robHu
  by_cases hs : s ∈ t.onLine
  · by_cases hout : (t.huOrder s).isSome ∨ s = t.cfg.tNum
    · simp [hs, hout]
    · cases hhu : t.hupai s <;> simp [hs, hout, hhu]
  · simp [hs]

theorem mem_robSeats {s : Nat} :
    s ∈ t.robSeats ↔
      s ∈ t.onLine ∧ (t.huOrder s).isNone ∧ s ≠ t.cfg.tNum ∧ (t.hupai s).isSome := by
  unfold robSeats robHu
  rw [List.mem_filter]
  by_cases hout : (t.huOrder s).isSome ∨ s = t.cfg.tNum
  · simp only [hout, if_true, Option.isSome_none, Bool.false_eq_true, and_false, false_iff]
    rintro ⟨-, ho, hn, -⟩
    rcases hout with hout | hout
    · simp [Option.isNone_iff_eq_none.mp ho] at hout
    · exact hn hout
  · rw [not_or] at hout
    have ho : t.huOrder s = none := by simpa using hout.1
    simp [ho, hout.2]

theorem mem_entitled {s : Nat} :
    s ∈ t.entitled p ↔
      s ∈ t.onLine ∧ s ≠ p ∧ (t.huOrder s).isNone ∧ (t.hupai s).isSome := by
  simp [entitled]

theorem offerRob_spec (hclear : ∀ s, t.pPermit s = none) :
    (∀ s, t.offerRob.pPermit s =
        if s ∈ t.robSeats then (t.hupai s).map fun hu => { guo := true, hu := some hu }
        else none) ∧
      (∀ s, t.offerRob.pActionDone s =
        (t.pActionDone s || decide (s ∈ t.robSeats))) ∧
      t.offerRob.qghPermitCount = t.robSeats.length := by
  refine ⟨fun s => ?_, fun s => ?_, ?_⟩
  · simp only [offerRob, lookup_robbers, hclear s]
    split <;> simp
  · simp only [offerRob, lookup_robbers]
    congr 1
    by_cases hs : s ∈ t.robSeats
    · simpa [hs] using (mem_robSeats.mp hs).2.2.2
    · simp [hs]
  · simp only [offerRob, robbers_eq, length_filterMap_keys, robSeats]

theorem robFair_iff_seats (hclear : ∀ s, t.pPermit s = none) :
    RobFair t t.offerRob p ↔ t.robSeats = t.entitled p := by
  obtain ⟨hpermit, hdone, hcount⟩ := offerRob_spec hclear
  constructor
  · intro h
    have hmem : ∀ s, s ∈ t.robSeats ↔ s ∈ t.entitled p := by
      intro s
      have hs := h.permit s
      rw [hpermit] at hs
      constructor
      · intro hrob
        by_contra hno
        obtain ⟨hu, hhu⟩ := Option.isSome_iff_exists.mp (mem_robSeats.mp hrob).2.2.2
        simp [hrob, hno, hhu] at hs
      · intro hent
        by_contra hno
        obtain ⟨hu, hhu⟩ := Option.isSome_iff_exists.mp (mem_entitled.mp hent).2.2.2
        simp [hent, hno, hhu] at hs
    unfold robSeats entitled
    apply List.filter_congr
    intro s hs
    have := hmem s
    rw [mem_entitled] at this
    unfold robSeats at this
    rw [List.mem_filter] at this
    simp only [hs, true_and] at this
    rw [Bool.eq_iff_iff]
    simpa using this
  · intro heq
    rw [heq] at hpermit hdone hcount
    exact ⟨hpermit, hdone, hcount⟩

/-- An added kong is offered to exactly the entitled seats, unless the seat with
the number of the table is one of them, or the seat of the kong could itself win
on it. -/
theorem robFair_iff (t : Table) (act : Act) (n : Int) :
    RobFair (t.robTable act n) (t.robTable act n).offerRob act.p ↔
      ¬ (t.cfg.tNum ∈ (t.robTable act n).entitled act.p) ∧
        ¬ (act.p ∈ (t.robTable act n).onLine ∧ act.p ≠ t.cfg.tNum ∧
          ((t.robTable act n).huOrder act.p).isNone ∧
          ((t.robTable act n).hupai act.p).isSome) := by
  have hcfg : (t.robTable act n).cfg = t.cfg := rfl
  rw [robFair_iff_seats (t := t.robTable act n) (fun _ => rfl), ← hcfg]
  generalize t.robTable act n = u
  constructor
  · intro heq
    refine ⟨fun hmem => ?_, ?_⟩
    · rw [← heq] at hmem
      exact (mem_robSeats.mp hmem).2.2.1 rfl
    · rintro ⟨hon, hne, ho, hhu⟩
      have hmem : act.p ∈ u.robSeats := mem_robSeats.mpr ⟨hon, ho, hne, hhu⟩
      rw [heq] at hmem
      exact (mem_entitled.mp hmem).2.1 rfl
  · rintro ⟨hnum, hself⟩
    unfold robSeats entitled
    apply List.filter_congr
    intro s hs
    have hrob := mem_robSeats (t := u) (s := s)
    unfold robSeats at hrob
    rw [List.mem_filter] at hrob
    simp only [hs, true_and] at hrob
    rw [Bool.eq_iff_iff, hrob]
    simp only [decide_eq_true_eq]
    constructor
    · rintro ⟨ho, hne, hhu⟩
      refine ⟨?_, ho, hhu⟩
      rintro rfl
      exact hself ⟨hs, hne, ho, hhu⟩
    · rintro ⟨hne, ho, hhu⟩
      refine ⟨ho, ?_, hhu⟩
      rintro rfl
      exact hnum (mem_entitled.mpr ⟨hs, hne, ho, hhu⟩)

theorem not_robFair_of_count {u : Table} {s : Nat} (hs : s ∈ t.entitled p)
    (hcount : u.qghPermitCount = 0) : ¬ RobFair t u p := by
  intro h
  have hlen := h.count
  have hpos := List.length_pos_of_mem hs
  omega

/-! ## A kong that the second seat cannot rob -/

def kongTiles : List Nat :=
  dealOrder
    [[24, 24, 25, 26, 27, 28, 29, 25, 27, 28, 29, 14, 15],
     [11, 12, 13, 14, 15, 16, 17, 18, 19, 21, 21, 22, 24]]
    [13, 22, 23, 24]

def kongRun : List (Input (Event × (Nat → Nat)) Answer) :=
  erOpening (fun _ => 100) ++
  [cmd (.chuPai 1 25), cmd (.chuPai 2 24), cmd (.pengPai 1 24), cmd (.chuPai 1 26),
    cmd (.chuPai 2 22)]

def kongConfig (tNum : Nat) : Config :=
  { gameType := .er13, algo := plainAlgo, tNum := tNum }

def kongWorld (tNum : Nat) : MjWorld :=
  after (kongConfig tNum) (rig .er13 kongTiles) kongRun

def kongAct : Act := { type := .pg .wg, p := 1, pai := 24 }

theorem kongWorld_offer :
    let t := (kongWorld 2).state
    (t.status = .moPai ∧ t.pActionDone 1 = true ∧ (t.seat 1).pai 24 = some 1) ∧
      2 ∈ (t.robTable kongAct 1).entitled 1 ∧
      (t.robTable kongAct 1).offerRob.qghPermitCount = 0 := by
  rw [kongWorld, after, newTable_rig _ .er13 kongTiles rfl (by decide +kernel)]
  decide +kernel

/-- At the table with number 2 the kong of the first seat is not offered to the
second seat, which could win on it. -/
theorem kong_not_offered :
    Reachable .exact (kongConfig 2) (rig .er13 kongTiles) (fun _ _ => True)
        (kongWorld 2) ∧
      (let t := (kongWorld 2).state
      (t.status = .moPai ∧ t.pActionDone 1 = true ∧ (t.seat 1).pai 24 = some 1) ∧
        2 ∈ (t.robTable kongAct 1).entitled 1 ∧
        ¬ RobFair (t.robTable kongAct 1) (t.robTable kongAct 1).offerRob 1) := by
  obtain ⟨hturn, hmem, hcount⟩ := kongWorld_offer
  exact ⟨reachable_after _ _ _, hturn, hmem, not_robFair_of_count hmem hcount⟩

end Table

end JyQipai.Mj
