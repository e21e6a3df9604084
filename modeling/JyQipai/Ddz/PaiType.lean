import JyQipai.Ddz.Base

/-!
# Classification of a set of played cards

`get_pai_type` of `nor_ddz_algorithm_lib.lua`.  The cards are counted by rank,
the counts are sorted by amount (largest first) and then by rank, and the
sorted list decides the type of the play.
-/

namespace JyQipai.Ddz

structure PaiCount where
  type : Nat
  amount : Nat
  deriving DecidableEq, Repr

/-- The table `{type, pai}` that describes a play. -/
structure PaiType where
  type : Nat
  pai : List Nat
  deriving DecidableEq, Repr

def paiRanks : List Nat := List.range' 3 15

def getPaiTypeHashByList (paiList : List Nat) : Option (Nat → Nat) :=
  if paiList.any (fun id => paiMap id = 0) then none
  else some fun type => paiList.countP (fun id => paiMap id = type)

def PaiCount.before (a b : PaiCount) : Prop :=
  b.amount < a.amount ∨ a.amount = b.amount ∧ a.type ≤ b.type

instance : DecidableRel PaiCount.before :=
  fun a b => inferInstanceAs
    (Decidable (b.amount < a.amount ∨ a.amount = b.amount ∧ a.type ≤ b.type))

def paiCounts (count : Nat → Nat) : List PaiCount :=
  (paiRanks.filter (fun type => 0 < count type)).map
    fun type => ⟨type, count type⟩

def sortPaiByAmount (count : Nat → Nat) : List PaiCount :=
  (paiCounts count).insertionSort PaiCount.before

/-! ## The longest run of triples -/

/-- The variables of the loop that looks for the longest run of triples.
Positions count from 1 as in the source. -/
structure RunScan where
  maxLen : Nat := 1
  head : Nat := 1
  tail : Nat := 1
  curLen : Nat := 1
  curHead : Nat := 1
  curTail : Nat := 1
  deriving DecidableEq, Repr

def RunScan.extend (s : RunScan) (prev type i : Nat) : RunScan :=
  if prev + 1 = type ∧ type < 15 then
    { s with curLen := s.curLen + 1, curTail := i }
  else { s with curLen := 1, curHead := i, curTail := i }

def RunScan.record (s : RunScan) : RunScan :=
  if s.maxLen < s.curLen then
    { s with maxLen := s.curLen, head := s.curHead, tail := s.curTail }
  else s

/-- The loop from position `i` on, where `prev` is the rank at position
`i - 1`; it stops at the first entry that is no triple. -/
def scanRun (s : RunScan) (prev i : Nat) : List PaiCount → RunScan
  | [] => s
  | p :: rest =>
      if p.amount = 3 then
        scanRun (s.extend prev p.type i).record p.type (i + 1) rest
      else s

/-- The entries before position `head` and after position `tail`. -/
def outsideRun (head tail : Nat) (pai : List PaiCount) : List PaiCount :=
  pai.take (head - 1) ++ pai.drop tail

/-- The branch of `get_pai_type` for a largest amount of three. -/
def triplePaiType (first : PaiCount) (rest : List PaiCount) : Option PaiType :=
  let pai := first :: rest
  let typeAt (i : Nat) : Nat := ((pai[i - 1]?).map PaiCount.type).getD 0
  let run := scanRun {} first.type 2 rest
  if run.maxLen = pai.length then
    some ⟨12, [first.type, typeAt pai.length]⟩
  else
    let others := outsideRun run.head run.tail pai
    let count := (others.map PaiCount.amount).sum
    let isDouble := others.all fun p => p.amount = 2
    let bossCount := others.countP fun p => p.type = 16 || p.type = 17
    if count = run.maxLen ∧ bossCount < 2 then
      if run.maxLen = 1 then some ⟨4, [first.type, typeAt 2]⟩
      else some ⟨10, typeAt run.head :: typeAt run.tail ::
        others.flatMap fun p => List.replicate p.amount p.type⟩
    else if count = run.maxLen * 2 ∧ isDouble then
      if run.maxLen = 1 then some ⟨5, [first.type, typeAt 2]⟩
      else some ⟨11, typeAt run.head :: typeAt run.tail ::
        others.map PaiCount.type⟩
    else none

/-- `get_pai_type` on the sorted counts; `none` is the result `false`. -/
def paiTypeOfCounts (lzNum : Nat) : List PaiCount → Option PaiType
  | [] => none
  | [first] =>
      if first.amount = 4 then
        if lzNum < 4 ∧ 0 < lzNum then some ⟨15, [first.type]⟩
        else some ⟨13, [first.type]⟩
      else if first.amount < 4 then some ⟨first.amount, [first.type]⟩
      else none
  | first :: second :: rest =>
      let typeCount := rest.length + 2
      let last := rest.getLastD second
      if first.amount = 4 then
        match rest with
        | [] =>
            if second.amount = 2 then
              some ⟨8, [first.type, second.type, second.type]⟩
            else none
        | [third] =>
            if second.amount = 1 ∧ third.amount = 1 ∧
                (second.type ≠ 16 ∨ third.type ≠ 17) then
              some ⟨8, [first.type, second.type, third.type]⟩
            else if second.amount = 2 ∧ third.amount = 2 then
              some ⟨9, [first.type, second.type, third.type]⟩
            else none
        | _ => none
      else if first.amount = 2 then
        if 2 < typeCount ∧ (second :: rest).all (fun p => p.amount = 2) ∧
            last.type < 15 ∧ (last.type : Int) - first.type = typeCount - 1 then
          some ⟨7, [first.type, last.type]⟩
        else none
      else if first.amount = 1 then
        if typeCount = 2 then
          if first.type = 16 ∧ second.type = 17 then
            some ⟨14, [first.type, second.type]⟩
          else none
        else if 4 < typeCount ∧ last.type < 15 ∧
            (last.type : Int) - first.type = typeCount - 1 then
          some ⟨6, [first.type, last.type]⟩
        else none
      else if first.amount = 3 then triplePaiType first (second :: rest)
      else none

/-- `get_pai_type`.  The outer `none` is a Lua error, the inner one the result
`false`; an empty list is a pass. -/
def getPaiType (paiList : List Nat) (lzNum : Nat) : Option (Option PaiType) :=
  if paiList = [] then some (some ⟨0, []⟩)
  else (getPaiTypeHashByList paiList).map fun count =>
    paiTypeOfCounts lzNum (sortPaiByAmount count)

/-! ## The sorted counts are determined by the counts -/

instance : Std.Total PaiCount.before where
  total a b := by
    simp only [PaiCount.before]
    omega

instance : IsTrans PaiCount PaiCount.before where
  trans a b c := by
    simp only [PaiCount.before]
    omega

theorem mem_paiCounts {count : Nat → Nat} {p : PaiCount} :
    p ∈ paiCounts count ↔
      p.type ∈ paiRanks ∧ 0 < count p.type ∧ p.amount = count p.type := by
  simp only [paiCounts, List.mem_map, List.mem_filter, decide_eq_true_eq]
  constructor
  · rintro ⟨type, ⟨hr, hpos⟩, rfl⟩
    exact ⟨hr, hpos, rfl⟩
  · rintro ⟨hr, hpos, ha⟩
    exact ⟨p.type, ⟨hr, hpos⟩, by rw [← ha]⟩

theorem paiCounts_nodup (count : Nat → Nat) : (paiCounts count).Nodup := by
  refine List.Nodup.map ?_ ((List.nodup_range' (s := 3) (n := 15)).filter _)
  intro a b h
  exact congrArg PaiCount.type h

theorem sortPaiByAmount_eq {count : Nat → Nat} {l : List PaiCount}
    (hsorted : l.Pairwise fun a b =>
      b.amount < a.amount ∨ a.amount = b.amount ∧ a.type < b.type)
    (hmem : ∀ p, p ∈ l ↔
      p.type ∈ paiRanks ∧ 0 < count p.type ∧ p.amount = count p.type) :
    sortPaiByAmount count = l := by
  have hnodup : l.Nodup := by
    refine hsorted.imp ?_
    rintro a b h rfl
    omega
  have hperm : (sortPaiByAmount count).Perm l := by
    refine (List.perm_insertionSort _ _).trans ?_
    rw [List.perm_ext_iff_of_nodup (paiCounts_nodup count) hnodup]
    intro p
    rw [mem_paiCounts, hmem]
  refine hperm.eq_of_pairwise ?_ (List.pairwise_insertionSort _ _)
    (hsorted.imp fun h => h.imp_right fun h => ⟨h.1, h.2.le⟩)
  rintro ⟨ta, na⟩ ⟨tb, nb⟩ _ _ hab hba
  simp only [PaiCount.before, PaiCount.mk.injEq] at *
  omega

end JyQipai.Ddz
