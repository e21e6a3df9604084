import JyQipai.Mj.Majiang

/-!
# The port computes the same wins

The two searches are at the same place of the same tile map after every step,
and each call leaves the map as it found it.  Behind the search the two
languages look at tables and maps with the same entries.
-/

namespace JyQipai.Mj.Port

open JyQipai.Lib

/-! ## The searches side by side -/

def tiles (m : Nat → Nat) : Nat := ∑ s ∈ Finset.range 40, m s

/-- Position `i` of the vector is position `i + 1` of the table. -/
def Items (t : HashTable Nat PaiItem) (l : List PaiItem) : Prop :=
  ∀ i, t.lookup (i + 1) = l[i]?

def SameData (u : HuPaiData (HashTable Nat PaiItem)) (v : HuPaiData (List PaiItem)) : Prop :=
  Items u.list v.list

/-- Both searches hold the counts `m`, the same items, of them at least `n`, and
the same layouts. -/
structure Sim (m : Nat → Nat) (n : Nat) (a : Algorithm.Search) (b : Majiang.Search) :
    Prop where
  lua : ∀ s, a.num s = m s
  cpp : ∀ s, b.num s = m s
  items : Items a.list b.list
  length : n ≤ b.list.length
  info : List.Forall₂ SameData a.info b.info

theorem Items.set {t : HashTable Nat PaiItem} {l : List PaiItem} (h : Items t l) {p : Nat}
    (hp : p ≤ l.length) (item : PaiItem) :
    Items (t.insert (p + 1) item) (Majiang.setItem l p item) := by
  intro i
  unfold Majiang.setItem
  by_cases hi : i = p
  · subst hi
    rw [AList.lookup_insert, List.getElem?_set_self]
    simp
    omega
  · rw [AList.lookup_insert_ne (by omega), h i, List.getElem?_set_ne (Ne.symm hi)]
    by_cases hlt : i < l.length
    · rw [List.getElem?_append_left hlt]
    · rw [List.getElem?_eq_none (by omega), List.getElem?_eq_none]
      simp
      omega

theorem length_setItem (l : List PaiItem) (p : Nat) (item : PaiItem) :
    (Majiang.setItem l p item).length = max l.length (p + 1) := by
  simp [Majiang.setItem]
  omega

namespace Sim

variable {m : Nat → Nat} {n p s : Nat} {a : Algorithm.Search} {b : Majiang.Search}

theorem mono (h : Sim m n a b) {k : Nat} (hk : k ≤ n) : Sim m k a b :=
  { h with length := hk.trans h.length }

theorem next (h : Sim m n a b) (s : Nat) : a.next s = b.next s := by
  rw [Algorithm.Search.next, Majiang.Search.next, h.lua, h.cpp]

theorem place (h : Sim m n a b) (hp : p ≤ n) (type s : Nat) :
    Sim m (max n (p + 1)) (a.place (p + 1) type s) (b.place p type s) :=
  { h with
    items := h.items.set (hp.trans h.length) _
    length := by
      have := h.length
      simp only [Majiang.Search.place, length_setItem]
      omega }

theorem found (h : Sim m n a b) (jiangNum p : Nat) :
    Sim m n (a.found jiangNum (p + 1)) (b.found jiangNum p) :=
  { h with info := List.rel_append h.info (.cons h.items .nil) }

theorem set {a' : Algorithm.Search} {b' : Majiang.Search} (h : Sim m n a b) (s k : Nat)
    (ha : a' = { a with paiMap := a.paiMap.insert s k })
    (hb : b' = { b with paiMap := b.paiMap.insert s k }) :
    Sim (Function.update m s k) n a' b' := by
  subst ha hb
  refine { h with lua := fun x => ?_, cpp := fun x => ?_ }
  · by_cases hx : x = s
    · subst hx
      simp [Algorithm.Search.num]
    · rw [Function.update_of_ne hx, ← h.lua, Algorithm.Search.num, Algorithm.Search.num,
        AList.lookup_insert_ne hx]
  · rw [Majiang.Search.num, Std.TreeMap.getD_insert]
    by_cases hx : x = s
    · subst hx
      simp
    · rw [Function.update_of_ne hx, ← h.cpp, if_neg (by simpa using Ne.symm hx)]
      rfl

theorem take (h : Sim m n a b) (s k : Nat) :
    Sim (Function.update m s (m s - k)) n (a.take s k) (b.take s k) :=
  h.set s _ (by rw [Algorithm.Search.take, h.lua]) (by rw [Majiang.Search.take, h.cpp])

theorem put (h : Sim m n a b) (s k : Nat) :
    Sim (Function.update m s (m s + k)) n (a.put s k) (b.put s k) :=
  h.set s _ (by rw [Algorithm.Search.put, h.lua]) (by rw [Majiang.Search.put, h.cpp])

theorem touch (h : Sim m n a b) (s : Nat) : Sim m n a (b.touch s) := by
  refine { h with cpp := fun x => ?_ }
  rw [← h.cpp x]
  unfold Majiang.Search.touch Majiang.Search.num
  by_cases hc : b.paiMap.contains s
  · rw [if_pos hc]
  · rw [if_neg hc, Std.TreeMap.getD_insert]
    by_cases hx : s = x
    · subst hx
      rw [if_pos (by simp), Std.TreeMap.getD_eq_fallback_of_contains_eq_false
        (Bool.eq_false_of_not_eq_true hc)]
    · rw [if_neg (by simpa using hx)]

theorem contains (h : Sim m n a b) (hs : 0 < m s) : b.paiMap.contains s = true := by
  by_contra hc
  have h0 := h.cpp s
  rw [Majiang.Search.num,
    Std.TreeMap.getD_eq_fallback_of_contains_eq_false (Bool.eq_false_of_not_eq_true hc)] at h0
  omega

end Sim

/-! ## The steps of a call -/

def Agree (m : Nat → Nat) (n : Nat) (x : Option Algorithm.Search)
    (y : Option Majiang.Search) : Prop :=
  ∃ a b, x = some a ∧ y = some b ∧ Sim m n a b

def CallsAgree (fuel : Nat) (call : Algorithm.Call) (call' : Majiang.Call) : Prop :=
  ∀ m n s allNum jiangNum p a b, tiles m < fuel → p ≤ n → Sim m n a b →
    Agree m n (call s allNum jiangNum (p + 1) a) (call' s allNum jiangNum p b)

def RestAgree (m : Nat → Nat) (n : Nat) (rest : Algorithm.Search → Option Algorithm.Search)
    (rest' : Majiang.Search → Option Majiang.Search) : Prop :=
  ∀ a b, Sim m n a b → Agree m n (rest a) (rest' b)

theorem Agree.bind {m m' : Nat → Nat} {n n' : Nat} {x : Option Algorithm.Search}
    {y : Option Majiang.Search} {f : Algorithm.Search → Option Algorithm.Search}
    {g : Majiang.Search → Option Majiang.Search} (h : Agree m n x y)
    (hfg : ∀ a b, Sim m n a b → Agree m' n' (f a) (g b)) : Agree m' n' (x >>= f) (y >>= g) := by
  obtain ⟨a, b, rfl, rfl, hab⟩ := h
  exact hfg a b hab

theorem Sim.agree {m : Nat → Nat} {n : Nat} {a : Algorithm.Search} {b : Majiang.Search}
    (h : Sim m n a b) : Agree m n (some a) (some b) :=
  ⟨a, b, rfl, rfl, h⟩

theorem tiles_update {m : Nat → Nat} {s k : Nat} (hs : s < 40) (hk : k ≤ m s) :
    tiles (Function.update m s (m s - k)) + k = tiles m := by
  have hmem : s ∈ Finset.range 40 := Finset.mem_range.mpr hs
  rw [tiles, tiles, Finset.sum_update_of_mem hmem, ← Finset.add_sum_erase _ m hmem,
    Finset.sdiff_singleton_eq_erase]
  omega

variable {fuel : Nat} {call : Algorithm.Call} {call' : Majiang.Call} {m : Nat → Nat}
  {n s p jiangNum : Nat} {allNum : Int} {rest : Algorithm.Search → Option Algorithm.Search}
  {rest' : Majiang.Search → Option Majiang.Search} {a : Algorithm.Search} {b : Majiang.Search}

theorem takeDuizi_agrees (hcall : CallsAgree fuel call call') (hrest : RestAgree m n rest rest')
    (hm : tiles m ≤ fuel) (hs : s < 40) (hp : p ≤ n) (h : Sim m n a b) :
    Agree m n (Algorithm.takeDuizi call s allNum jiangNum (p + 1) rest a)
      (Majiang.takeDuizi call' s allNum jiangNum p rest' b) := by
  unfold Algorithm.takeDuizi Majiang.takeDuizi
  rw [h.lua, h.cpp]
  by_cases h3 : 2 < m s
  · rw [if_pos h3, if_pos h3]
    have hplace := h.place hp 2 s
    by_cases hend : allNum - 3 = 0
    · rw [if_pos hend, if_pos hend]
      by_cases hj : jiangNum = 1
      · rw [if_pos hj, if_pos hj]
        exact ((hplace.found jiangNum p).mono (by omega)).agree
      · rw [if_neg hj, if_neg hj]
        exact (hplace.mono (by omega)).agree
    · rw [if_neg hend, if_neg hend]
      have htake := hplace.take s 3
      have htiles := tiles_update (m := m) hs (k := 3) h3
      dsimp only
      rw [htake.next]
      refine (hcall _ _ _ _ _ _ _ _ (by omega) (by omega) htake).bind fun a' b' hab => ?_
      have hput := (hab.put s 3).mono (k := n) (by omega)
      refine hrest _ _ ?_
      convert hput using 1
      rw [Function.update_self, Function.update_idem, Nat.sub_add_cancel h3,
        Function.update_eq_self]
  · rw [if_neg h3, if_neg h3]
    exact hrest a b h

theorem Sim.probe (h : Sim m n a b) (s : Nat) : Sim m n a (Majiang.probe s b) := by
  unfold Majiang.probe
  split
  · exact h.touch _
  · exact h

theorem Sim.shunzi_iff (h : Sim m n a b) (hs : 0 < m s) :
    (s + 2 ≤ 39 ∧ b.paiMap.contains s ∧ (Majiang.probe s b).num (s + 1) ≠ 0 ∧
        (Majiang.probe s b).paiMap.contains (s + 2) ∧ (Majiang.probe s b).num (s + 1) > 0 ∧
        (Majiang.probe s b).num (s + 2) > 0) ↔
      s + 2 ≤ 39 ∧ 0 < m (s + 1) ∧ 0 < m (s + 2) := by
  have hprobe := h.probe s
  rw [hprobe.cpp, hprobe.cpp]
  constructor
  · rintro ⟨h39, -, -, -, h1, h2⟩
    exact ⟨h39, h1, h2⟩
  · rintro ⟨h39, h1, h2⟩
    exact ⟨h39, h.contains hs, by omega, hprobe.contains h2, h1, h2⟩

def takeRun (m : Nat → Nat) (s : Nat) : Nat → Nat := fun k =>
  if s ≤ k ∧ k ≤ s + 2 then m k - 1 else m k

theorem Sim.takeRun (h : Sim m n a b) (s : Nat) :
    Sim (Port.takeRun m s) n (((a.take s 1).take (s + 1) 1).take (s + 2) 1)
      (((b.take s 1).take (s + 1) 1).take (s + 2) 1) := by
  convert ((h.take s 1).take (s + 1) 1).take (s + 2) 1 using 1
  funext k
  simp only [Port.takeRun, Function.update_apply]
  split_ifs <;> first | omega | subst_vars; omega

theorem Sim.putRun (h : Sim (Port.takeRun m s) n a b) (h0 : 0 < m s) (h1 : 0 < m (s + 1))
    (h2 : 0 < m (s + 2)) :
    Sim m n (((a.put s 1).put (s + 1) 1).put (s + 2) 1)
      (((b.put s 1).put (s + 1) 1).put (s + 2) 1) := by
  convert ((h.put s 1).put (s + 1) 1).put (s + 2) 1 using 1
  funext k
  simp only [Port.takeRun, Function.update_apply]
  split_ifs <;> subst_vars <;> omega

theorem tiles_takeRun_lt (hs : s < 40) (h0 : 0 < m s) : tiles (takeRun m s) < tiles m := by
  refine Finset.sum_lt_sum (fun k _ => ?_) ⟨s, Finset.mem_range.mpr hs, ?_⟩
  · unfold takeRun
    split <;> omega
  · unfold takeRun
    split <;> omega

theorem takeShunzi_agrees (hcall : CallsAgree fuel call call')
    (hrest : RestAgree m n rest rest') (hm : tiles m ≤ fuel) (hs : s < 40) (h0 : 0 < m s)
    (hp : p ≤ n) (h : Sim m n a b) :
    Agree m n (Algorithm.takeShunzi call s allNum jiangNum (p + 1) rest a)
      (Majiang.takeShunzi call' s allNum jiangNum p rest' b) := by
  unfold Algorithm.takeShunzi Majiang.takeShunzi
  dsimp only
  have hprobe := h.probe s
  rw [h.lua, h.lua]
  by_cases hrun : s + 2 ≤ 39 ∧ 0 < m (s + 1) ∧ 0 < m (s + 2)
  · rw [if_pos hrun, if_pos ((h.shunzi_iff h0).mpr hrun)]
    obtain ⟨-, h1, h2⟩ := hrun
    have hplace := hprobe.place hp 3 s
    by_cases hend : allNum - 3 = 0
    · rw [if_pos hend, if_pos hend]
      by_cases hj : jiangNum = 1
      · rw [if_pos hj, if_pos hj]
        exact ((hplace.found jiangNum p).mono (by omega)).agree
      · rw [if_neg hj, if_neg hj]
        exact (hplace.mono (by omega)).agree
    · rw [if_neg hend, if_neg hend]
      have htake := hplace.takeRun s
      have htiles := tiles_takeRun_lt hs h0
      rw [htake.next]
      refine (hcall _ _ _ _ _ _ _ _ (by omega) (by omega) htake).bind fun a' b' hab => ?_
      exact hrest _ _ ((hab.putRun h0 h1 h2).mono (by omega))
  · rw [if_neg hrun, if_neg (mt (h.shunzi_iff h0).mp hrun)]
    exact hrest _ _ hprobe

theorem takeJiang_agrees (hcall : CallsAgree fuel call call')
    (hrest : RestAgree m n rest rest') (hm : tiles m ≤ fuel) (hs : s < 40) (hp : p ≤ n)
    (h : Sim m n a b) :
    Agree m n (Algorithm.takeJiang call s allNum jiangNum (p + 1) rest a)
      (Majiang.takeJiang call' s allNum jiangNum p rest' b) := by
  unfold Algorithm.takeJiang Majiang.takeJiang
  rw [h.lua, h.cpp]
  by_cases hpair : 1 < m s ∧ jiangNum = 0
  · have h2 := hpair.1
    have hport : b.paiMap.contains s = true ∧ m s > 1 ∧ jiangNum = 0 :=
      ⟨h.contains (by omega), hpair⟩
    rw [if_pos hpair, if_pos hport]
    have hplace := h.place hp 1 s
    by_cases hend : allNum - 2 = 0
    · rw [if_pos hend, if_pos hend]
      exact ((hplace.found jiangNum p).mono (by omega)).agree
    · rw [if_neg hend, if_neg hend]
      have htake := hplace.take s 2
      have htiles := tiles_update (m := m) hs (k := 2) h2
      dsimp only
      rw [htake.next]
      refine (hcall _ _ _ _ _ _ _ _ (by omega) (by omega) htake).bind fun a' b' hab => ?_
      have hput := (hab.put s 2).mono (k := n) (by omega)
      refine hrest _ _ ?_
      convert hput using 1
      rw [Function.update_self, Function.update_idem, Nat.sub_add_cancel h2,
        Function.update_eq_self]
  · rw [if_neg hpair, if_neg fun hall => hpair hall.2]
    exact hrest a b h

theorem computeNorHupaiInfo_agrees (fuel : Nat) :
    CallsAgree fuel (Algorithm.computeNorHupaiInfo fuel)
      (Majiang.computeNorHupaiInfo fuel) := by
  induction fuel with
  | zero =>
      intro m n s allNum jiangNum p a b hm
      omega
  | succ fuel ih =>
      intro m n s₀ allNum jiangNum p a b hm hp h
      rw [Algorithm.computeNorHupaiInfo, Majiang.computeNorHupaiInfo]
      have hfirst : (fun s => decide (b.paiMap.contains s ∧ b.num s > 0)) =
          fun s => decide (0 < a.num s) := by
        funext s
        rw [h.lua, h.cpp, decide_eq_decide]
        exact ⟨fun hs => hs.2, fun hs => ⟨h.contains hs, hs⟩⟩
      rw [hfirst]
      cases hfind : (List.range' s₀ (40 - s₀)).find? fun s => decide (0 < a.num s) with
      | none => exact h.agree
      | some s =>
          have h0 : 0 < m s := by
            have := List.find?_some hfind
            rw [h.lua] at this
            simpa using this
          have hs : s < 40 := by
            have := List.mem_range'_1.mp (List.mem_of_find?_eq_some hfind)
            omega
          have hm' : tiles m ≤ fuel := by omega
          have hjiang : RestAgree m n
              (Algorithm.takeJiang (Algorithm.computeNorHupaiInfo fuel) s allNum jiangNum
                (p + 1) some)
              (Majiang.takeJiang (Majiang.computeNorHupaiInfo fuel) s allNum jiangNum p
                some) :=
            fun _ _ h => takeJiang_agrees ih (fun _ _ h => h.agree) hm' hs hp h
          have hshunzi : RestAgree m n
              (Algorithm.takeShunzi (Algorithm.computeNorHupaiInfo fuel) s allNum jiangNum
                (p + 1) _)
              (Majiang.takeShunzi (Majiang.computeNorHupaiInfo fuel) s allNum jiangNum p _) :=
            fun _ _ h => takeShunzi_agrees ih hjiang hm' hs h0 hp h
          exact takeDuizi_agrees ih hshunzi hm' hs hp h

end JyQipai.Mj.Port
