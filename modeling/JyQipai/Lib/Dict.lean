import Mathlib

/-!
# Hash tables and ordered maps

The walk over a hash table meets its entries in any order, the walk over an
ordered map meets them by their keys.  What does not depend on the order comes
out the same for a table and a map with the same entries.
-/

namespace JyQipai.Lib

abbrev HashTable (K V : Type) := AList fun _ : K => V

abbrev OrderedMap (K V : Type) [Ord K] := Std.TreeMap K V

variable {K V W : Type} [DecidableEq K]

namespace HashTable

def ipairs (t : HashTable Nat V) : List V := go t.entries.length 1
where
  go : Nat → Nat → List V
    | 0, _ => []
    | n + 1, i =>
        match t.lookup i with
        | none => []
        | some v => v :: go n (i + 1)

theorem ipairs_go {t : HashTable Nat V} {l : List V} :
    ∀ {n i : Nat}, (∀ k, t.lookup (i + k) = l[k]?) → l.length ≤ n → ipairs.go t n i = l := by
  induction l with
  | nil =>
      intro n i h _
      cases n with
      | zero => rfl
      | succ n =>
          have h0 : t.lookup i = none := h 0
          rw [ipairs.go, h0]
  | cons v l ih =>
      intro n i h hn
      cases n with
      | zero => simp at hn
      | succ n =>
          have h0 : t.lookup i = some v := h 0
          have hrest : ∀ k, t.lookup (i + 1 + k) = l[k]? := by
            intro k
            rw [Nat.add_assoc, Nat.add_comm 1 k]
            exact h (k + 1)
          rw [ipairs.go, h0]
          simp only [ih hrest (by simpa using hn)]

theorem ipairs_eq {t : HashTable Nat V} {l : List V}
    (h : ∀ i, t.lookup (i + 1) = l[i]?) : t.ipairs = l := by
  refine ipairs_go (fun k => by rw [Nat.add_comm]; exact h k) ?_
  have hsub : List.range' 1 l.length ⊆ t.keys := by
    intro i hi
    obtain ⟨h1, h2⟩ := List.mem_range'_1.mp hi
    have hl : t.lookup i = l[i - 1]? := by
      have := h (i - 1)
      rwa [Nat.sub_add_cancel h1] at this
    rw [List.getElem?_eq_getElem (by omega)] at hl
    exact AList.mem_keys.mp (AList.lookup_isSome.mp (by rw [hl]; rfl))
  have := (List.subperm_of_subset (List.nodup_range' 1) hsub).length_le
  simpa [AList.keys, List.keys] using this

end HashTable

def Same [Ord K] (t : HashTable K V) (m : OrderedMap K V) : Prop := ∀ k, m[k]? = t.lookup k

variable [Ord K] [Std.TransOrd K]

namespace Same

theorem empty : Same (∅ : HashTable K V) (∅ : OrderedMap K V) := fun k => by
  rw [Std.TreeMap.getElem?_emptyc, AList.lookup_empty]

variable {t : HashTable K V} {m : OrderedMap K V}

theorem getD (h : Same t m) (k : K) (v : V) : m.getD k v = (t.lookup k).getD v := by
  rw [Std.TreeMap.getD_eq_getD_getElem?, h k]

theorem contains (h : Same t m) (k : K) : m.contains k = (t.lookup k).isSome := by
  rw [Std.TreeMap.contains_eq_isSome_getElem?, h k]

variable [Std.LawfulEqOrd K]

theorem insert (h : Same t m) (k : K) (v : V) : Same (t.insert k v) (m.insert k v) := by
  intro k'
  rw [Std.TreeMap.getElem?_insert]
  by_cases hk : k = k'
  · subst hk
    simp
  · rw [AList.lookup_insert_ne (Ne.symm hk), ← h k', if_neg]
    simpa using hk

theorem perm (h : Same t m) : m.toList.Perm (t.entries.map fun e => (e.1, e.2)) := by
  rw [List.perm_ext_iff_of_nodup]
  · rintro ⟨k, v⟩
    rw [Std.TreeMap.mem_toList_iff_getElem?_eq_some, h k, ← Option.mem_def,
      AList.mem_lookup_iff, List.mem_map]
    constructor
    · intro hmem
      exact ⟨⟨k, v⟩, hmem, rfl⟩
    · rintro ⟨⟨k', v'⟩, hmem, heq⟩
      obtain ⟨rfl, rfl⟩ := Prod.mk.inj heq
      exact hmem
  · have := Std.TreeMap.distinct_keys_toList (t := m)
    exact this.imp fun hne heq => hne (by rw [heq]; exact Std.ReflOrd.compare_self)
  · refine List.Nodup.map ?_ (List.Nodup.of_map _ t.nodupKeys)
    rintro ⟨k, v⟩ ⟨k', v'⟩ heq
    obtain ⟨rfl, rfl⟩ := Prod.mk.inj heq
    rfl

theorem all (h : Same t m) {p : K × V → Bool} {q : (Sigma fun _ : K => V) → Bool}
    (hpq : ∀ k v, p (k, v) = q ⟨k, v⟩) : m.toList.all p = t.entries.all q := by
  rw [h.perm.all_eq, List.all_map]
  exact congrArg _ (funext fun e => hpq e.1 e.2)

theorem any (h : Same t m) {p : K × V → Bool} {q : (Sigma fun _ : K => V) → Bool}
    (hpq : ∀ k v, p (k, v) = q ⟨k, v⟩) : m.toList.any p = t.entries.any q := by
  rw [h.perm.any_eq, List.any_map]
  exact congrArg _ (funext fun e => hpq e.1 e.2)

theorem countP (h : Same t m) {p : K × V → Bool} {q : (Sigma fun _ : K => V) → Bool}
    (hpq : ∀ k v, p (k, v) = q ⟨k, v⟩) : m.toList.countP p = t.entries.countP q := by
  rw [h.perm.countP_eq, List.countP_map]
  exact congrArg (List.countP · _) (funext fun e => hpq e.1 e.2)

theorem sum {M : Type} [AddCommMonoid M] (h : Same t m) {f : K × V → M}
    {g : (Sigma fun _ : K => V) → M} (hfg : ∀ k v, f (k, v) = g ⟨k, v⟩) :
    (m.toList.map f).sum = (t.entries.map g).sum := by
  rw [(h.perm.map _).sum_eq, List.map_map]
  exact congrArg (fun f => (List.map f _).sum) (funext fun e => hfg e.1 e.2)

end Same

def ofTable (t : HashTable K V) : OrderedMap K V :=
  t.entries.foldl (fun m e => m.insert e.1 e.2) ∅

variable [Std.LawfulEqOrd K]

theorem getElem?_foldl_insert {l : List (Sigma fun _ : K => V)} (hl : l.NodupKeys)
    (m : OrderedMap K V) (k : K) :
    (l.foldl (fun m e => m.insert e.1 e.2) m)[k]? = (l.dlookup k).or m[k]? := by
  induction l generalizing m with
  | nil => rfl
  | cons e l ih =>
      obtain ⟨hnot, hl⟩ := List.nodupKeys_cons.mp hl
      rw [List.foldl_cons, ih hl, Std.TreeMap.getElem?_insert]
      by_cases hk : e.1 = k
      · subst hk
        rw [List.dlookup_cons_eq, List.dlookup_eq_none.mpr hnot]
        simp
      · rw [List.dlookup_cons_ne _ _ (Ne.symm hk), if_neg (by simpa using hk)]

theorem same_ofTable (t : HashTable K V) : Same t (ofTable t) := by
  intro k
  rw [ofTable, getElem?_foldl_insert t.nodupKeys, Std.TreeMap.getElem?_emptyc, Option.or_none]
  rfl

end JyQipai.Lib
