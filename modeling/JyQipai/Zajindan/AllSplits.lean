import JyQipai.Zajindan.Resolve

/-!
# The search finds all splits

The search for the splits of an award ends, with its variables set back, and finds every split
with at most three empty parts once.
-/

namespace JyQipai.Zajindan.Resolve

open Lib

variable {M : Type}

/-! ## The variables are set back -/

def Search.add (s : Search M) (found : List (List M)) : Search M :=
  { s with canResolveVec := s.canResolveVec ++ found }

theorem Search.add_nil (s : Search M) : s.add [] = s := by
  rw [Search.add, List.append_nil]

theorem Search.add_add (s : Search M) (l l' : List (List M)) :
    (s.add l).add l' = s.add (l ++ l') := by
  simp [Search.add]

variable [AddCommGroup M]

structure At (num : Nat) (now : List M) (emptyNum : Nat) (s : Search M) : Prop where
  num_eq : s.nowResolveNum = now.sum
  index : s.nowResolveIndex = now.length
  vec : s.nowResolveVec = now
  empty : s.emptyNum = emptyNum

namespace At

variable {num emptyNum : Nat} {now : List M} {s : Search M}

theorem add (h : At num now emptyNum s) (l : List (List M)) : At num now emptyNum (s.add l) :=
  ⟨h.num_eq, h.index, h.vec, h.empty⟩

theorem push (h : At num now emptyNum s) (a : M) : At num (now ++ [a]) emptyNum (s.push a) := by
  refine ⟨?_, ?_, ?_, h.empty⟩
  · simp [Search.push, h.num_eq]
  · simp [Search.push, h.index]
  · simp [Search.push, h.vec]

theorem addEmpty (h : At num now emptyNum s) : At num now (emptyNum + 1) (s.addEmpty 1) := by
  refine ⟨h.num_eq, h.index, h.vec, ?_⟩
  simp [Search.addEmpty, h.empty]

end At

theorem Search.pop_add_push (s : Search M) (a : M) (l : List (List M)) :
    ((s.push a).add l).pop a = s.add l := by
  simp [Search.push, Search.pop, Search.add]

theorem Search.pop_push (s : Search M) (a : M) : (s.push a).pop a = s := by
  simpa only [Search.add_nil] using s.pop_add_push a []

theorem Search.pop_addEmpty (s : Search M) (a : M) (l : List (List M)) :
    ((((s.push a).addEmpty 1).add l).pop a).addEmpty (-1) = s.add l := by
  simp [Search.push, Search.pop, Search.add, Search.addEmpty]

theorem Search.pop_found (s : Search M) (a : M) :
    (s.push a).found.pop a = s.add [s.nowResolveVec ++ [a]] := by
  simp [Search.push, Search.pop, Search.add, Search.found]

variable [LinearOrder M]

/-- What one level of the search finds, `next` being what the level below it finds. -/
def resolveLevel (value : M) (num : Nat) (next : List M → List M → Nat → List (List M))
    (now : List M) (emptyNum : Nat) : List M → List (List M)
  | [] => []
  | a :: rest =>
      let vec := now ++ [a]
      if value ≤ vec.sum then
        if vec.sum = value ∧ vec.length < num then
          if a = 0 then next (a :: rest) vec (emptyNum + 1)
          else next (a :: rest) vec emptyNum ++ resolveLevel value num next now emptyNum rest
        else
          (if vec.sum = value then [vec] else []) ++
            resolveLevel value num next now emptyNum rest
      else next (a :: rest) vec emptyNum ++ resolveLevel value num next now emptyNum rest

def resolveParts (value : M) (num : Nat) : Nat → List M → List M → Nat → List (List M)
  | 0, _, _, _ => []
  | n + 1, parts, now, emptyNum =>
      if 2 < emptyNum then []
      else resolveLevel value num (resolveParts value num n) now emptyNum parts

theorem resolveParts_nil (value : M) (num n : Nat) (now : List M) (emptyNum : Nat) :
    resolveParts value num n [] now emptyNum = [] := by
  cases n with
  | zero => rfl
  | succ n =>
      rw [resolveParts]
      split
      · rfl
      · rfl

theorem resolveAward_eq {value : M} {num : Nat} (fuel : Nat) {front rest now : List M}
    {emptyNum n : Nat} {s : Search M} (hs : At num now emptyNum s)
    (hn : now.length + n = num) (hfuel : n + rest.length < fuel) :
    resolveAward (front ++ rest) value num num fuel (front.length + 1) s =
      some (true, s.add (resolveParts value num n rest now emptyNum)) := by
  induction fuel generalizing front rest now emptyNum n s with
  | zero => omega
  | succ fuel ih =>
      have hget : (front ++ rest)[front.length + 1 - 1]? = rest.head? := by
        rw [Nat.add_sub_cancel, List.getElem?_append_right le_rfl, Nat.sub_self,
          List.head?_eq_getElem?]
      rw [resolveAward, hget]
      cases rest with
      | nil => rw [resolveParts_nil, Search.add_nil, List.head?_nil]
      | cons a rest =>
          rw [List.head?_cons]
          dsimp only
          cases n with
          | zero =>
              have hindex := hs.index
              rw [if_pos (by omega), resolveParts, Search.add_nil]
          | succ n =>
              have hindex := hs.index
              have hempty := hs.empty
              rw [if_neg (by omega), resolveParts]
              by_cases hfull : 2 < emptyNum
              · rw [if_pos (by omega), if_pos hfull, Search.add_nil]
              rw [if_neg (by omega), if_neg hfull]
              rw [List.length_cons] at hfuel
              -- the level goes on behind the part, with the variables set back
              have hbehind (s' : Search M) (hs' : At num now emptyNum s') :
                  resolveAward (front ++ a :: rest) value num num fuel (front.length + 1 + 1) s' =
                    some (true, s'.add
                      (resolveLevel value num (resolveParts value num n) now emptyNum rest)) := by
                have hnext := @ih (front ++ [a]) rest _ _ _ _ hs' hn (by omega)
                rw [List.append_assoc, List.length_append, resolveParts, if_neg hfull] at hnext
                exact hnext
              -- a further part is looked for behind this one
              have hbelow (k : Nat) (s' : Search M) (hs' : At num (now ++ [a]) k s') :
                  resolveAward (front ++ a :: rest) value num num fuel (front.length + 1) s' =
                    some (true, s'.add
                      (resolveParts value num n (a :: rest) (now ++ [a]) k)) := by
                refine ih hs' ?_ ?_
                · rw [List.length_append, List.length_singleton]
                  omega
                · rw [List.length_cons]
                  omega
              have hpush := hs.push a
              have hlength : (now ++ [a]).length = now.length + 1 := by
                rw [List.length_append, List.length_singleton]
              rw [resolveLevel]
              by_cases hle : value ≤ (now ++ [a]).sum
              · rw [hpush.num_eq, hpush.index, if_pos hle, if_pos hle]
                by_cases hshort : (now ++ [a]).sum = value ∧ (now ++ [a]).length < num
                · have hlt := hshort.2
                  have hnone : (if (now ++ [a]).sum = value ∧ (num : Int) ≤ (now ++ [a]).length ∧
                      ((now ++ [a]).length : Int) ≤ num then (s.push a).found else s.push a) =
                      s.push a := if_neg fun h => by omega
                  have hshort' : (s.push a).nowResolveNum = value ∧
                      (s.push a).nowResolveIndex < num := by
                    rw [hpush.num_eq, hpush.index]
                    exact ⟨hshort.1, by omega⟩
                  rw [hnone, if_pos hshort', if_pos hshort]
                  by_cases hzero : a = 0
                  · rw [if_pos hzero, if_pos hzero, hbelow _ _ hpush.addEmpty, Option.bind_some]
                    dsimp only
                    rw [if_pos rfl, if_pos hzero, Search.pop_addEmpty]
                  · rw [if_neg hzero, if_neg hzero, hbelow _ _ hpush, Option.bind_some]
                    dsimp only
                    rw [if_pos rfl, if_neg hzero, Search.pop_add_push, hbehind _ (hs.add _),
                      Search.add_add]
                · rw [if_neg hshort]
                  by_cases heq : (now ++ [a]).sum = value
                  · have hnum : num ≤ (now ++ [a]).length := not_lt.mp fun h => hshort ⟨heq, h⟩
                    have hfound : (if (now ++ [a]).sum = value ∧ (num : Int) ≤ (now ++ [a]).length ∧
                        ((now ++ [a]).length : Int) ≤ num then (s.push a).found else s.push a) =
                        (s.push a).found := if_pos ⟨heq, by omega, by omega⟩
                    have hlast : ¬((s.push a).found.nowResolveNum = value ∧
                        (s.push a).found.nowResolveIndex < num) := by
                      rintro ⟨-, hlt⟩
                      have hat : (s.push a).found.nowResolveIndex = (now ++ [a]).length :=
                        hpush.index
                      omega
                    rw [hfound, if_neg hlast, Search.pop_found, hs.vec, hbehind _ (hs.add _),
                      Search.add_add, if_pos heq]
                  · have hnone : (if (now ++ [a]).sum = value ∧ (num : Int) ≤ (now ++ [a]).length ∧
                        ((now ++ [a]).length : Int) ≤ num then (s.push a).found else s.push a) =
                        s.push a := if_neg fun h => heq h.1
                    have hmore : ¬((s.push a).nowResolveNum = value ∧
                        (s.push a).nowResolveIndex < num) := by
                      rw [hpush.num_eq]
                      exact fun h => heq h.1
                    rw [hnone, if_neg hmore, Search.pop_push, hbehind _ hs, if_neg heq,
                      List.nil_append]
              · rw [hpush.num_eq, if_neg hle, if_neg hle, hbelow _ _ hpush, Option.bind_some]
                dsimp only
                rw [if_pos rfl, Search.pop_add_push, hbehind _ (hs.add _), Option.map_some,
                  Search.add_add]

/-! ## Every split is found -/

def splitsBehind (value : M) (n : Nat) (parts now : List M) : List (List M) :=
  ((splits n parts (value - now.sum)).filter fun more => more.count 0 + now.count 0 ≤ 3).map
    fun more => now ++ more

theorem splitsBehind_nil (value : M) (n : Nat) (now : List M) :
    splitsBehind value (n + 1) [] now = [] :=
  rfl

theorem splitsBehind_cons (value : M) (n : Nat) (a : M) (rest now : List M) :
    splitsBehind value (n + 1) (a :: rest) now =
      splitsBehind value n (a :: rest) (now ++ [a]) ++ splitsBehind value (n + 1) rest now := by
  have hsum : value - now.sum - a = value - (now ++ [a]).sum := by
    rw [List.sum_append, List.sum_singleton, sub_sub]
  have hcount (more : List M) : (a :: more).count 0 + now.count 0 =
      more.count 0 + (now ++ [a]).count 0 := by
    rw [List.count_cons, List.count_append, List.count_singleton]
    omega
  simp only [splitsBehind, splits, splitsLevel, List.filter_append, List.map_append, hsum,
    List.filter_map, List.map_map]
  congr 1
  have hmap : ((fun more => now ++ more) ∘ fun more => a :: more) =
      fun more => (now ++ [a]) ++ more := by
    funext more
    simp
  rw [hmap]
  congr 2
  funext more
  simp only [Function.comp_apply, hcount]

structure Due (value : M) (emptyNum : Nat) (parts now : List M) : Prop where
  desc : parts.Pairwise (· > ·)
  nonneg : ∀ x ∈ parts, 0 ≤ x
  le : now.sum ≤ value
  before : now.sum < value → emptyNum = 0
  full : now.sum = value → emptyNum = now.count 0
  zero : 0 ∈ now → ∀ x ∈ parts, x = 0

namespace Due

variable {value a : M} {emptyNum : Nat} {rest now : List M}

theorem tail (h : Due value emptyNum (a :: rest) now) : Due value emptyNum rest now :=
  ⟨(List.pairwise_cons.mp h.desc).2, fun x hx => h.nonneg x (List.mem_cons_of_mem a hx), h.le,
    h.before, h.full, fun hzero x hx => h.zero hzero x (List.mem_cons_of_mem a hx)⟩

theorem rest_nil (h : Due value emptyNum (a :: rest) now) (hzero : a = 0) : rest = [] := by
  refine List.eq_nil_iff_forall_not_mem.mpr fun x hx => ?_
  have hlt := (List.pairwise_cons.mp h.desc).1 x hx
  rw [hzero] at hlt
  exact absurd (h.nonneg x (List.mem_cons_of_mem a hx)) (not_le.mpr hlt)

theorem count_zero (h : Due value emptyNum (a :: rest) now) (hne : a ≠ 0) : now.count 0 = 0 :=
  List.count_eq_zero.mpr fun hin => hne (h.zero hin a List.mem_cons_self)

theorem zero_push (h : Due value emptyNum (a :: rest) now) (hin : 0 ∈ now ++ [a]) :
    ∀ x ∈ a :: rest, x = 0 := by
  by_cases hzero : a = 0
  · rw [h.rest_nil hzero, hzero]
    exact fun x hx => List.mem_singleton.mp hx
  · refine h.zero ?_
    rcases List.mem_append.mp hin with hin | hin
    · exact hin
    · exact absurd (List.mem_singleton.mp hin).symm hzero

variable [IsOrderedAddMonoid M]

theorem sum_push (hreached : (now ++ [a]).sum = value) : now.sum = value ↔ a = 0 := by
  rw [← hreached, List.sum_append, List.sum_singleton, left_eq_add]

theorem push_full (h : Due value emptyNum (a :: rest) now) (hreached : (now ++ [a]).sum = value) :
    Due value (if a = 0 then emptyNum + 1 else emptyNum) (a :: rest) (now ++ [a]) := by
  refine ⟨h.desc, h.nonneg, hreached.le, fun hlt => absurd hlt hreached.not_lt, fun _ => ?_,
    h.zero_push⟩
  rw [List.count_append, List.count_singleton]
  by_cases hzero : a = 0
  · rw [if_pos hzero, h.full ((sum_push hreached).mpr hzero), if_pos (by simpa using hzero)]
  · have hlt : now.sum < value := lt_of_le_of_ne h.le fun heq => hzero ((sum_push hreached).mp heq)
    rw [if_neg hzero, h.before hlt, h.count_zero hzero, if_neg (by simpa using hzero)]

theorem push_before (h : Due value emptyNum (a :: rest) now) (hlt : (now ++ [a]).sum < value) :
    Due value emptyNum (a :: rest) (now ++ [a]) := by
  have hnow : now.sum < value := by
    refine lt_of_le_of_lt ?_ hlt
    rw [List.sum_append, List.sum_singleton]
    exact le_add_of_nonneg_right (h.nonneg a List.mem_cons_self)
  exact ⟨h.desc, h.nonneg, hlt.le, fun _ => h.before hnow, fun heq => absurd heq hlt.ne,
    h.zero_push⟩

end Due

theorem splitsBehind_eq_nil {value : M} {emptyNum n : Nat} {parts now : List M}
    (h : Due value emptyNum parts now) (hfull : 2 < emptyNum) :
    splitsBehind value (n + 1) parts now = [] := by
  have hreached : now.sum = value := by
    by_contra hne
    have hzero := h.before (lt_of_le_of_ne h.le hne)
    omega
  have hcount := h.full hreached
  have hin : 0 ∈ now := List.count_pos_iff.mp (by omega)
  rw [splitsBehind, List.map_eq_nil_iff, List.filter_eq_nil_iff]
  intro more hmore
  obtain ⟨hlength, -, hmem⟩ := of_mem_splits hmore
  have hall : more.count 0 = more.length :=
    List.count_eq_length.mpr fun x hx => (h.zero hin x (hmem x hx)).symm
  rw [decide_eq_true_eq]
  omega

variable [IsOrderedAddMonoid M]

theorem resolveLevel_eq {value : M} {num n emptyNum : Nat} {parts now : List M}
    (hnext : ∀ parts now emptyNum, Due value emptyNum parts now → now.length + n = num → n ≠ 0 →
      resolveParts value num n parts now emptyNum = splitsBehind value n parts now)
    (h : Due value emptyNum parts now) (hfull : ¬2 < emptyNum) (hn : now.length + (n + 1) = num) :
    resolveLevel value num (resolveParts value num n) now emptyNum parts =
      splitsBehind value (n + 1) parts now := by
  induction parts with
  | nil => rw [resolveLevel, splitsBehind_nil]
  | cons a rest ih =>
      have hrest := ih h.tail
      have hlength : (now ++ [a]).length + n = num := by
        rw [List.length_append, List.length_singleton]
        omega
      rw [splitsBehind_cons, resolveLevel, hrest]
      split
      · rename_i hle
        split
        · rename_i hshort
          have hbelow := hnext _ _ _ (h.push_full hshort.1) hlength (by omega)
          split
          · rename_i hzero
            rw [if_pos hzero] at hbelow
            rw [hbelow, h.rest_nil hzero, splitsBehind_nil, List.append_nil]
          · rename_i hne
            rw [if_neg hne] at hbelow
            rw [hbelow]
        · rename_i hlong
          congr 1
          split
          · rename_i hreached
            have hcount := (h.push_full hreached).full hreached
            have hthree : (now ++ [a]).count 0 ≤ 3 := by
              rw [← hcount]
              split <;> omega
            obtain rfl : n = 0 := by
              by_contra hpos
              exact hlong ⟨hreached, by omega⟩
            rw [splitsBehind, splits, hreached, sub_self, if_pos rfl]
            generalize now ++ [a] = vec at hthree
            simp [hthree]
          · rename_i hne
            have hneg : value - (now ++ [a]).sum < 0 :=
              sub_neg.mpr (lt_of_le_of_ne hle (Ne.symm hne))
            rw [splitsBehind, splits_eq_nil h.nonneg hneg]
            rfl
      · rename_i hlt
        congr 1
        cases n with
        | zero =>
            have hne : value - (now ++ [a]).sum ≠ 0 := (sub_pos.mpr (not_le.mp hlt)).ne'
            rw [resolveParts, splitsBehind, splits, if_neg hne]
            rfl
        | succ n => exact hnext _ _ _ (h.push_before (not_le.mp hlt)) hlength (Nat.succ_ne_zero n)

theorem resolveParts_eq {value : M} {num : Nat} (n : Nat) {parts now : List M} {emptyNum : Nat}
    (h : Due value emptyNum parts now) (hn : now.length + n = num) (hpos : n ≠ 0) :
    resolveParts value num n parts now emptyNum = splitsBehind value n parts now := by
  induction n generalizing parts now emptyNum with
  | zero => exact absurd rfl hpos
  | succ n ih =>
      rw [resolveParts]
      split
      · rename_i hfull
        exact (splitsBehind_eq_nil h hfull).symm
      · rename_i hfull
        exact resolveLevel_eq (fun _ _ _ => ih) h hfull hn

/-! ## The awards that are used -/

omit [AddCommGroup M] [IsOrderedAddMonoid M] in
theorem useToResolve_desc {l : List M} {last : M} (hl : l.Pairwise (· ≥ ·))
    (hlast : ∀ x ∈ l, x ≤ last) : (useToResolve last l).Pairwise (· > ·) ∧
      ∀ x, x ∈ useToResolve last l ↔ x ∈ l ∧ x ≠ last := by
  induction l generalizing last with
  | nil => exact ⟨.nil, fun x => by simp [useToResolve]⟩
  | cons a rest ih =>
      obtain ⟨hbelow, hrest⟩ := List.pairwise_cons.mp hl
      obtain ⟨hdesc, hmem⟩ := ih hrest hbelow
      rw [useToResolve]
      split
      · rename_i hne
        have hlt : a < last := lt_of_le_of_ne (hlast a List.mem_cons_self) hne
        refine ⟨List.pairwise_cons.mpr ⟨fun x hx => ?_, hdesc⟩, fun x => ?_⟩
        · obtain ⟨hx, hxa⟩ := (hmem x).mp hx
          exact lt_of_le_of_ne (hbelow x hx) hxa
        · rw [List.mem_cons, hmem, List.mem_cons]
          constructor
          · rintro (rfl | ⟨hx, hxa⟩)
            · exact ⟨.inl rfl, hlt.ne⟩
            · exact ⟨.inr hx, ((hbelow x hx).trans_lt hlt).ne⟩
          · rintro ⟨hx, -⟩
            by_cases hxa : x = a
            · exact .inl hxa
            · exact .inr ⟨hx.resolve_left hxa, hxa⟩
      · rename_i heq
        obtain rfl : a = last := not_not.mp heq
        refine ⟨hdesc, fun x => ?_⟩
        rw [hmem, List.mem_cons]
        constructor
        · rintro ⟨hx, hxa⟩
          exact ⟨.inr hx, hxa⟩
        · rintro ⟨hx, hxa⟩
          exact ⟨hx.resolve_left hxa, hxa⟩

omit [AddCommGroup M] [IsOrderedAddMonoid M] in
theorem length_useToResolve_le (last : M) (l : List M) :
    (useToResolve last l).length ≤ l.length := by
  induction l generalizing last with
  | nil => exact le_rfl
  | cons a rest ih =>
      rw [useToResolve, List.length_cons]
      split
      · exact Nat.succ_le_succ (ih a)
      · exact (ih last).trans (Nat.le_succ _)

omit [IsOrderedAddMonoid M] in
theorem getResolveAward_eq (award : List M) (awardId : Nat) (value : M) (n : Nat) {fuel : Nat}
    (hfuel : award.length + n < fuel) : getResolveAward award awardId value n n fuel =
      some (resolveParts value n n (useToResolve 0 (award.drop (awardId - 1))) [] 0) := by
  have hlength : (useToResolve 0 (award.drop (awardId - 1))).length ≤ award.length := by
    refine (length_useToResolve_le _ _).trans ?_
    rw [List.length_drop]
    exact Nat.sub_le _ _
  have hstart : At n ([] : List M) 0 { nowResolveNum := 0 } := ⟨rfl, rfl, rfl, rfl⟩
  have hrun := @resolveAward_eq M _ _ value n fuel []
    (useToResolve 0 (award.drop (awardId - 1))) _ _ _ _ hstart (Nat.zero_add n) (by omega)
  rw [List.nil_append, List.length_nil] at hrun
  rw [getResolveAward, hrun, Option.map_some, Search.add, List.nil_append]

/-- For a table of awards that do not increase the search finds all splits of an award among those
behind it once. -/
theorem all_splits {award : List M} (hdesc : award.Pairwise (· ≥ ·)) (hnonneg : ∀ x ∈ award, 0 ≤ x)
    {awardId : Nat} {value : M} (hvalue : award[awardId - 1]? = some value) (hpos : 0 < value)
    {n : Nat} (hn : 2 ≤ n) :
    ∃ found, (∀ fuel, award.length + n < fuel →
        getResolveAward award awardId value n n fuel = some found) ∧
      found.Nodup ∧ ∀ l, l ∈ found ↔ l.length = n ∧ l.Pairwise (· ≥ ·) ∧ l.sum = value ∧
        (∀ x ∈ l, x ∈ award.drop (awardId - 1)) ∧ l.count 0 ≤ 3 := by
  obtain ⟨hlt, hget⟩ := List.getElem?_eq_some_iff.mp hvalue
  have hdrop := List.drop_eq_getElem_cons hlt
  rw [hget] at hdrop
  have hsub : (award.drop (awardId - 1)).Sublist award := List.drop_sublist _ _
  have hbehind := hdesc.sublist hsub
  rw [hdrop] at hbehind
  obtain ⟨hbelow, hrest⟩ := List.pairwise_cons.mp hbehind
  obtain ⟨hparts, hmem⟩ := useToResolve_desc hrest hbelow
  -- the award itself is not empty, so that it is the first part
  have huse : useToResolve 0 (award.drop (awardId - 1)) =
      value :: useToResolve value (award.drop (awardId - 1 + 1)) := by
    rw [hdrop, useToResolve, if_pos hpos.ne']
  have hin (x : M) : x ∈ useToResolve 0 (award.drop (awardId - 1)) ↔
      x ∈ award.drop (awardId - 1) := by
    rw [huse, hdrop, List.mem_cons, List.mem_cons, hmem]
    by_cases hx : x = value
    · simp [hx]
    · simp [hx]
  have hdue : Due value 0 (useToResolve 0 (award.drop (awardId - 1))) [] := by
    refine ⟨?_, fun x hx => hnonneg x (hsub.subset ((hin x).mp hx)), hpos.le, fun _ => rfl,
      fun _ => rfl, fun hzero => absurd hzero List.not_mem_nil⟩
    rw [huse]
    refine List.pairwise_cons.mpr ⟨fun x hx => ?_, hparts⟩
    obtain ⟨hx, hne⟩ := (hmem x).mp hx
    exact lt_of_le_of_ne (hbelow x hx) hne
  refine ⟨_, fun fuel hfuel => getResolveAward_eq award awardId value n hfuel, ?_, fun l => ?_⟩
  · rw [resolveParts_eq n hdue (Nat.zero_add n) (by omega), splitsBehind]
    exact ((nodup_splits hdue.desc).filter _).map fun _ _ h => h
  · rw [resolveParts_eq n hdue (Nat.zero_add n) (by omega), splitsBehind]
    simp only [List.nil_append, List.map_id', List.mem_filter, List.sum_nil,
      sub_zero, List.count_nil, Nat.add_zero, mem_splits hdue.desc, hin]
    constructor
    · rintro ⟨⟨hlength, hsum, hfrom, hpair⟩, hcount⟩
      exact ⟨hlength, hpair, hsum, hfrom, of_decide_eq_true hcount⟩
    · rintro ⟨hlength, hpair, hsum, hfrom, hcount⟩
      exact ⟨⟨hlength, hsum, hfrom, hpair⟩, decide_eq_true hcount⟩

/-- Prizes worth eight, in three parts. -/
theorem all_splits_eight : ∃ found,
    (∀ fuel, 6 + 3 < fuel →
      getResolveAward ([38, 8, 6, 2, 2, 0] : List Int) 2 8 3 3 fuel = some found) ∧
    found.Nodup ∧ ∀ l, l ∈ found ↔ l.length = 3 ∧ l.Pairwise (· ≥ ·) ∧ l.sum = 8 ∧
      (∀ x ∈ l, x ∈ [8, 6, 2, 2, 0]) ∧ l.count 0 ≤ 3 :=
  @all_splits Int _ _ _ [38, 8, 6, 2, 2, 0] (by decide) (by decide) 2 8 rfl (by decide) 3
    (by decide)

/-! ## The search that passes its variables on -/

theorem resolveLevel_room {value : Int} {num : Nat}
    {next : List Int → List Int → Nat → List (List Int)}
    (now : List Int) (emptyNum : Nat) (parts : List Int) :
    resolveLevel value num next now emptyNum parts =
      Room.resolveLevel value num next now emptyNum parts := by
  induction parts with
  | nil => rfl
  | cons a rest ih => rw [resolveLevel, Room.resolveLevel, ih]

theorem resolveParts_room (value : Int) (num n : Nat) :
    resolveParts value num n = Room.resolveAward value num n := by
  induction n with
  | zero => rfl
  | succ n ih =>
      funext parts now emptyNum
      rw [resolveParts, Room.resolveAward, ih, resolveLevel_room]

theorem resolveAward_room (parts : List Int) (value : Int) (num : Nat) {fuel : Nat}
    (hfuel : num + parts.length < fuel) :
    resolveAward parts value num num fuel 1 { nowResolveNum := 0 } =
      some (true, ({ nowResolveNum := 0 } : Search Int).add
        (Room.resolveAward value num num parts [] 0)) := by
  rw [← resolveParts_room]
  exact @resolveAward_eq Int _ _ value num fuel [] parts [] 0 num _ ⟨rfl, rfl, rfl, rfl⟩
    (Nat.zero_add num) hfuel

end JyQipai.Zajindan.Resolve
