import JyQipai.Lib.Cover
import JyQipai.Mj.Port

/-!
# The layouts that the search finds

A layout parts the tiles of a hand into pairs, three of a kind and runs.  The search looks at the
lowest tile: some item of every layout starts there, and what that item leaves is laid out by the
others.  Each call puts its items behind those of its callers and takes them back from the map.
-/

namespace JyQipai.Mj

open JyQipai.Lib

namespace PaiItem

def tiles (v : PaiItem) : List Nat :=
  if v.type = 1 then [v.paiType, v.paiType]
  else if v.type = 2 then [v.paiType, v.paiType, v.paiType]
  else [v.paiType, v.paiType + 1, v.paiType + 2]

def Good (v : PaiItem) : Prop :=
  v.type = 1 ∨ v.type = 2 ∨ v.type = 3 ∧ flower v.paiType = flower (v.paiType + 2)

end PaiItem

/-- The items lay out the tiles with the counts `m`, with `n` pairs. -/
structure Layout (m : Nat → Nat) (n : Nat) (l : List PaiItem) : Prop where
  good : ∀ v ∈ l, v.Good
  pairs : (l.countP fun v => v.type = 1) = n
  covers : Covers PaiItem.tiles m l

structure Holds (t : HashTable Nat PaiItem) (l : List PaiItem) : Prop where
  zero : t.lookup 0 = none
  items : Port.Items t l

namespace PaiItem

variable {v : PaiItem}

theorem mem_tiles_self (v : PaiItem) : v.paiType ∈ v.tiles := by
  unfold tiles
  split_ifs <;> simp

theorem le_of_mem_tiles {t : Nat} (ht : t ∈ v.tiles) : v.paiType ≤ t := by
  unfold tiles at ht
  split_ifs at ht <;> simp at ht <;> omega

theorem two_le_length_tiles (v : PaiItem) : 2 ≤ v.tiles.length := by
  unfold tiles
  split_ifs <;> simp

theorem ext_of_count {u : PaiItem} (hu : u.Good) (hv : v.Good) (hs : u.paiType = v.paiType)
    (hlen : u.tiles.length = v.tiles.length)
    (hcount : ∀ t, u.tiles.count t = v.tiles.count t) : u = v := by
  obtain ⟨type, s⟩ := u
  obtain ⟨type', s'⟩ := v
  obtain rfl : s = s' := hs
  have hself := hcount s
  rcases hu with rfl | rfl | ⟨rfl, -⟩ <;> rcases hv with rfl | rfl | ⟨rfl, -⟩ <;>
    first | rfl | simp [tiles] at hlen hself

end PaiItem

namespace Layout

variable {m : Nat → Nat} {n : Nat} {v : PaiItem} {l l' : List PaiItem}

theorem perm (h : Layout m n l) (hl : l.Perm l') : Layout m n l' where
  good v hv := h.good v (hl.mem_iff.mpr hv)
  pairs := (hl.countP_eq _).symm.trans h.pairs
  covers := h.covers.perm hl

theorem cons_iff : Layout m n (v :: l) ↔
    v.Good ∧ Fits PaiItem.tiles m v ∧
      ∃ k, n = k + (if v.type = 1 then 1 else 0) ∧ Layout (without PaiItem.tiles m v) k l := by
  constructor
  · rintro ⟨hgood, hpairs, hcovers⟩
    obtain ⟨hfits, hrest⟩ := Covers.cons_iff.mp hcovers
    rw [List.countP_cons] at hpairs
    simp only [decide_eq_true_eq] at hpairs
    exact ⟨hgood v List.mem_cons_self, hfits, _, hpairs.symm,
      fun u hu => hgood u (List.mem_cons_of_mem v hu), rfl, hrest⟩
  · rintro ⟨hv, hfits, k, rfl, hrest⟩
    refine ⟨fun u hu => ?_, ?_, Covers.cons_iff.mpr ⟨hfits, hrest.covers⟩⟩
    · rcases List.mem_cons.mp hu with rfl | hu
      · exact hv
      · exact hrest.good u hu
    · rw [List.countP_cons, hrest.pairs]
      simp only [decide_eq_true_eq]

theorem mem_iff (hv : v.Good) (hfits : Fits PaiItem.tiles m v) (k : Nat)
    (hn : n = k + (if v.type = 1 then 1 else 0)) :
    Layout m n l ∧ v ∈ l ↔ ∃ l₀, Layout (without PaiItem.tiles m v) k l₀ ∧ l.Perm (v :: l₀) := by
  constructor
  · rintro ⟨h, hmem⟩
    have hl := List.perm_cons_erase hmem
    obtain ⟨-, -, k', hk', hrest⟩ := cons_iff.mp (h.perm hl)
    obtain rfl : k' = k := Nat.add_right_cancel (hk'.symm.trans hn)
    exact ⟨_, hrest, hl⟩
  · rintro ⟨l₀, hrest, hl⟩
    exact ⟨(cons_iff.mpr ⟨hv, hfits, k, hn, hrest⟩).perm hl.symm,
      hl.mem_iff.mpr List.mem_cons_self⟩

theorem fits_of_mem (h : Layout m n l) (hmem : v ∈ l) :
    Fits PaiItem.tiles m v ∧ (v.type = 1 → n ≠ 0) := by
  obtain ⟨-, hfits, k, hk, -⟩ := cons_iff.mp (h.perm (List.perm_cons_erase hmem))
  refine ⟨hfits, fun htype => ?_⟩
  rw [if_pos htype] at hk
  omega

theorem exists_start (h : Layout m n l) {s : Nat} (hs : m s ≠ 0) (hlow : ∀ t < s, m t = 0) :
    ∃ v ∈ l, v.paiType = s := by
  obtain ⟨v, hv, hmem⟩ := h.covers.exists_mem hs
  refine ⟨v, hv, Nat.le_antisymm (PaiItem.le_of_mem_tiles hmem) ?_⟩
  by_contra hlt
  exact h.covers.count_ne_zero hv v.mem_tiles_self (hlow _ (Nat.lt_of_not_le hlt))

theorem eq_nil (h : Layout m n l) (hm : ∀ t, m t = 0) : l = [] := by
  cases l with
  | nil => rfl
  | cons v l =>
      exact absurd (hm _) (h.covers.count_ne_zero List.mem_cons_self v.mem_tiles_self)

end Layout

/-! ## One item -/

namespace Algorithm

structure Ready (bound : Nat) (pre : List PaiItem) (t : HashTable Nat PaiItem) : Prop where
  zero : t.lookup 0 = none
  items : ∀ i < pre.length, t.lookup (i + 1) = pre[i]?
  beyond : ∀ k, bound < 3 * k → t.lookup k = none

/-- What was found behind the first items are the layouts in `F`, up to the order of the items. -/
structure Reports (pre : List PaiItem) (F : List PaiItem → Prop)
    (found : List (HuPaiData (HashTable Nat PaiItem))) : Prop where
  sound : ∀ d ∈ found, ∃ l, F l ∧ Holds d.list (pre ++ l)
  complete : ∀ l, F l → ∃ d ∈ found, ∃ l', l'.Perm l ∧ Holds d.list (pre ++ l')

/-- A part of the search on the tiles `m` behind the items `pre`: it finds the layouts in `F` and
leaves the map and the first items as they are. -/
def Finds (bound : Nat) (m : Nat → Nat) (pre : List PaiItem) (F : List PaiItem → Prop)
    (f : Search → Option Search) : Prop :=
  ∀ w, (∀ s, w.num s = m s) → Ready bound pre w.list →
    ∃ w', f w = some w' ∧ (∀ s, w'.paiMap.lookup s = w.paiMap.lookup s) ∧
      Ready bound pre w'.list ∧ ∃ found, w'.info = w.info ++ found ∧ Reports pre F found

variable {bound n s jiangNum : Nat} {m : Nat → Nat} {pre : List PaiItem} {v : PaiItem}
  {F G : List PaiItem → Prop} {f rest call : Search → Option Search} {w : Search}
  {found found' : List (HuPaiData (HashTable Nat PaiItem))} {t : HashTable Nat PaiItem}

theorem Ready.insert (h : Ready bound pre t) (v : PaiItem) (hroom : 3 * (pre.length + 1) ≤ bound) :
    Ready bound (pre ++ [v]) (t.insert (pre.length + 1) v) where
  zero := (AList.lookup_insert_ne (Nat.succ_ne_zero _).symm).trans h.zero
  items i hi := by
    rw [List.length_append, List.length_singleton] at hi
    by_cases hlast : i = pre.length
    · subst hlast
      rw [AList.lookup_insert, List.getElem?_append_right (Nat.le_refl _), Nat.sub_self]
      rfl
    · rw [AList.lookup_insert_ne (by omega), h.items i (by omega),
        List.getElem?_append_left (by omega)]
  beyond k hk := by
    rw [AList.lookup_insert_ne (by omega), h.beyond k hk]

theorem Ready.init (h : Ready bound (pre ++ [v]) t) : Ready bound pre t where
  zero := h.zero
  items i hi := by
    rw [h.items i (by simp; omega), List.getElem?_append_left hi]
  beyond := h.beyond

theorem Ready.holds (h : Ready bound pre t) (hbound : bound < 3 * (pre.length + 1)) :
    Holds t pre where
  zero := h.zero
  items i := by
    by_cases hi : i < pre.length
    · exact h.items i hi
    · rw [h.beyond _ (by omega), List.getElem?_eq_none (Nat.le_of_not_lt hi)]

namespace Reports

theorem congr (h : Reports pre F found) (hFG : ∀ l, F l ↔ G l) : Reports pre G found := by
  obtain rfl : F = G := funext fun l => propext (hFG l)
  exact h

theorem append (h : Reports pre F found) (h' : Reports pre G found') :
    Reports pre (fun l => F l ∨ G l) (found ++ found') where
  sound d hd := by
    rcases List.mem_append.mp hd with hd | hd
    · obtain ⟨l, hl, hholds⟩ := h.sound d hd
      exact ⟨l, .inl hl, hholds⟩
    · obtain ⟨l, hl, hholds⟩ := h'.sound d hd
      exact ⟨l, .inr hl, hholds⟩
  complete l hl := by
    rcases hl with hl | hl
    · obtain ⟨d, hd, hholds⟩ := h.complete l hl
      exact ⟨d, List.mem_append_left _ hd, hholds⟩
    · obtain ⟨d, hd, hholds⟩ := h'.complete l hl
      exact ⟨d, List.mem_append_right _ hd, hholds⟩

theorem cons (h : Reports (pre ++ [v]) F found) :
    Reports pre (fun l => ∃ l₀, F l₀ ∧ l.Perm (v :: l₀)) found where
  sound d hd := by
    obtain ⟨l₀, hl₀, hholds⟩ := h.sound d hd
    rw [List.append_assoc] at hholds
    exact ⟨v :: l₀, ⟨l₀, hl₀, .refl _⟩, hholds⟩
  complete l hl := by
    obtain ⟨l₀, hl₀, hperm⟩ := hl
    obtain ⟨d, hd, l', hl', hholds⟩ := h.complete l₀ hl₀
    rw [List.append_assoc] at hholds
    exact ⟨d, hd, v :: l', (hl'.cons v).trans hperm.symm, hholds⟩

theorem none (h : ∀ l, ¬ F l) : Reports pre F [] where
  sound _ hd := absurd hd List.not_mem_nil
  complete l hl := absurd hl (h l)

theorem single {d : HuPaiData (HashTable Nat PaiItem)} (hd : Holds d.list (pre ++ [v]))
    (h : ∀ l, F l ↔ l = [v]) : Reports pre F [d] where
  sound d' hd' := by
    obtain rfl := List.mem_singleton.mp hd'
    exact ⟨[v], (h _).mpr rfl, hd⟩
  complete l hl := by
    obtain rfl := (h l).mp hl
    exact ⟨d, List.mem_singleton_self d, [v], .refl _, hd⟩

end Reports

theorem Finds.congr (h : Finds bound m pre F f) (hFG : ∀ l, F l ↔ G l) : Finds bound m pre G f := by
  obtain rfl : F = G := funext fun l => propext (hFG l)
  exact h

structure Undo (m : Nat → Nat) (v : PaiItem) (take put : Search → Search) : Prop where
  take_list : ∀ w, (take w).list = w.list
  take_info : ∀ w, (take w).info = w.info
  put_list : ∀ w, (put w).list = w.list
  put_info : ∀ w, (put w).info = w.info
  num : ∀ w, (∀ k, w.num k = m k) → ∀ k, (take w).num k = without PaiItem.tiles m v k
  back : ∀ w w', (∀ k, w.num k = m k) →
    (∀ k, w'.paiMap.lookup k = (take w).paiMap.lookup k) →
    ∀ k, (put w').paiMap.lookup k = w.paiMap.lookup k

/-- The layouts with an item of one of these types at the tile `s`. -/
def Starting (m : Nat → Nat) (n s : Nat) (types : List Nat) (l : List PaiItem) : Prop :=
  Layout m n l ∧ ∃ type ∈ types, ⟨type, s⟩ ∈ l

theorem starting_cons {type : Nat} {types : List Nat} (l : List PaiItem) :
    Starting m n s (type :: types) l ↔
      Layout m n l ∧ ⟨type, s⟩ ∈ l ∨ Starting m n s types l := by
  simp only [Starting, List.exists_mem_cons_iff, ← and_or_left]

theorem starting_single {type k : Nat} {types : List Nat} (hv : PaiItem.Good ⟨type, s⟩)
    (hfits : Fits PaiItem.tiles m ⟨type, s⟩) (hm : ∀ t, m t ≠ 0 → t < 40)
    (hn : n = k + (if type = 1 then 1 else 0)) (hmem : type ∈ types)
    (hlen : Port.tiles m = (PaiItem.tiles ⟨type, s⟩).length) (l : List PaiItem) :
    Starting m n s types l ↔ k = 0 ∧ l = [⟨type, s⟩] := by
  have hsupport : ∀ t, m t ≠ 0 → t ∈ Finset.range 40 := fun t ht =>
    Finset.mem_range.mpr (hm t ht)
  have hleft : ∀ t, without PaiItem.tiles m ⟨type, s⟩ t = 0 := by
    have hsum := hfits.sum_without hsupport
    rw [← hlen, Port.tiles, Nat.add_eq_right, Finset.sum_eq_zero_iff] at hsum
    intro t
    by_contra hne
    refine hne (hsum t (hsupport t fun h0 => hne ?_))
    rw [without, h0, Nat.zero_sub]
  have hone : Layout m n [⟨type, s⟩] ↔ k = 0 := by
    rw [Layout.cons_iff]
    constructor
    · rintro ⟨-, -, k', hk', hnil⟩
      have hk0 : k' = 0 := hnil.pairs.symm
      exact (Nat.add_right_cancel (hn.symm.trans hk')).trans hk0
    · rintro rfl
      exact ⟨hv, hfits, 0, hn, fun u hu => absurd hu List.not_mem_nil, rfl,
        Covers.nil_iff.mpr hleft⟩
  constructor
  · rintro ⟨h, type', -, hu⟩
    obtain ⟨hu', hfits', k', -, hrest⟩ :=
      Layout.cons_iff.mp (h.perm (List.perm_cons_erase hu))
    have hlength := h.covers.length hsupport
    have hperm := ((List.perm_cons_erase hu).flatMap_right PaiItem.tiles).length_eq
    rw [hlength, List.flatMap_cons, List.length_append] at hperm
    have herase : l.erase ⟨type', s⟩ = [] := by
      cases hl : l.erase ⟨type', s⟩ with
      | nil => rfl
      | cons u l₀ =>
          rw [hl, List.flatMap_cons, List.length_append] at hperm
          have h1 := PaiItem.two_le_length_tiles ⟨type', s⟩
          have h2 := PaiItem.two_le_length_tiles u
          have h3 : (PaiItem.tiles ⟨type, s⟩).length ≤ 3 := by
            unfold PaiItem.tiles
            split_ifs <;> simp
          rw [Port.tiles] at hlen
          omega
    have hl : l = [⟨type', s⟩] :=
      List.perm_singleton.mp (herase ▸ List.perm_cons_erase hu)
    have heq : (⟨type', s⟩ : PaiItem) = ⟨type, s⟩ := by
      refine PaiItem.ext_of_count hu' hv rfl ?_ fun t => ?_
      · rw [herase, List.flatMap_nil, List.length_nil, Nat.add_zero] at hperm
        exact hperm.symm.trans hlen
      · have h1 := (Covers.cons_iff.mp (hl ▸ h.covers)).2
        have h2 := Covers.nil_iff.mp h1 t
        have h3 := hleft t
        have h4 := hfits t
        have h5 := hfits' t
        simp only [without] at h2 h3
        omega
    rw [hl, heq]
    rw [hl, heq] at h
    exact ⟨hone.mp h, rfl⟩
  · rintro ⟨hk, rfl⟩
    exact ⟨hone.mpr hk, type, hmem, List.mem_singleton_self _⟩

theorem Finds.item (jiangNum : Nat) {type k : Nat} {types : List Nat} {take put : Search → Search}
    (hv : PaiItem.Good ⟨type, s⟩) (hfits : Fits PaiItem.tiles m ⟨type, s⟩)
    (hm : ∀ t, m t ≠ 0 → t < 40) (hn : n = k + (if type = 1 then 1 else 0))
    (hbound : bound + 1 = Port.tiles m + 3 * pre.length + 1 + n)
    (hundo : Undo m ⟨type, s⟩ take put)
    (hcall : Port.tiles m ≠ (PaiItem.tiles ⟨type, s⟩).length →
      Finds bound (without PaiItem.tiles m ⟨type, s⟩) (pre ++ [⟨type, s⟩])
        (Layout (without PaiItem.tiles m ⟨type, s⟩) k) call)
    (hrest : Finds bound m pre (Starting m n s types) rest) :
    Finds bound m pre (Starting m n s (type :: types)) fun w =>
      let w := w.place (pre.length + 1) type s
      if Port.tiles m = (PaiItem.tiles ⟨type, s⟩).length then
        some (if k = 0 then w.found jiangNum (pre.length + 1) else w)
      else (call (take w)).bind fun w => rest (put w) := by
  intro w hw hready
  have hsum := hfits.sum_without (s := Finset.range 40) fun t ht =>
    Finset.mem_range.mpr (hm t ht)
  have hlen : (PaiItem.tiles ⟨type, s⟩).length + (if type = 1 then 1 else 0) = 3 := by
    rcases hv with rfl | rfl | ⟨rfl, -⟩ <;> rfl
  have hplace := hready.insert ⟨type, s⟩ (by rw [Port.tiles] at hbound; omega)
  by_cases hlast : Port.tiles m = (PaiItem.tiles ⟨type, s⟩).length
  · have hsingle := starting_single hv hfits hm hn (List.mem_cons_self (l := types)) hlast
    dsimp only
    rw [if_pos hlast]
    by_cases hk : k = 0
    · rw [if_pos hk]
      have hholds := hplace.holds (by simp only [List.length_append, List.length_singleton]; omega)
      refine ⟨_, rfl, fun _ => rfl, hplace.init, _, rfl, .single hholds fun l => ?_⟩
      rw [hsingle, and_iff_right hk]
    · rw [if_neg hk]
      refine ⟨_, rfl, fun _ => rfl, hplace.init, [], (List.append_nil _).symm, .none fun l hl => ?_⟩
      exact hk ((hsingle l).mp hl).1
  · dsimp only
    rw [if_neg hlast]
    set w₁ := w.place (pre.length + 1) type s with hw₁
    have htake : Ready bound (pre ++ [⟨type, s⟩]) (take w₁).list := by
      rw [hundo.take_list]
      exact hplace
    obtain ⟨w₂, hrun, hmap, hlist, found, hfound, hreports⟩ :=
      hcall hlast (take w₁) (hundo.num w₁ hw) htake
    have hback := hundo.back w₁ w₂ hw hmap
    have hput : Ready bound pre (put w₂).list := by
      rw [hundo.put_list]
      exact hlist.init
    have hnum : ∀ k, (put w₂).num k = m k := by
      intro k
      rw [← hw k, Search.num, hback k]
      rfl
    obtain ⟨w₃, hrun', hmap', hlist', found', hfound', hreports'⟩ := hrest (put w₂) hnum hput
    refine ⟨w₃, ?_, fun k => (hmap' k).trans (hback k), hlist', found ++ found', ?_, ?_⟩
    · rw [hrun]
      exact hrun'
    · rw [hfound', hundo.put_info, hfound, hundo.take_info, List.append_assoc]
      rfl
    · refine (hreports.cons.append hreports').congr fun l => ?_
      rw [starting_cons, Layout.mem_iff hv hfits k hn]

theorem Finds.skip {type : Nat} {types : List Nat}
    (hno : ¬(Fits PaiItem.tiles m ⟨type, s⟩ ∧ (type = 1 → n ≠ 0)))
    (hrest : Finds bound m pre (Starting m n s types) rest) :
    Finds bound m pre (Starting m n s (type :: types)) rest := by
  refine hrest.congr fun l => ?_
  rw [starting_cons, or_iff_right]
  rintro ⟨h, hmem⟩
  exact hno (h.fits_of_mem hmem)

/-! ## The steps of a call -/

theorem lookup_take (w : Search) (s n k : Nat) :
    (w.take s n).paiMap.lookup k = if k = s then some (w.num s - n) else w.paiMap.lookup k := by
  by_cases hk : k = s
  · subst hk
    rw [if_pos rfl]
    exact AList.lookup_insert _
  · rw [if_neg hk]
    exact AList.lookup_insert_ne hk

theorem lookup_put (w : Search) (s n k : Nat) :
    (w.put s n).paiMap.lookup k = if k = s then some (w.num s + n) else w.paiMap.lookup k := by
  by_cases hk : k = s
  · subst hk
    rw [if_pos rfl]
    exact AList.lookup_insert _
  · rw [if_neg hk]
    exact AList.lookup_insert_ne hk

theorem num_take (w : Search) (s n k : Nat) :
    (w.take s n).num k = if k = s then w.num s - n else w.num k := by
  rw [Search.num, lookup_take]
  split <;> rfl

theorem num_put (w : Search) (s n k : Nat) :
    (w.put s n).num k = if k = s then w.num s + n else w.num k := by
  rw [Search.num, lookup_put]
  split <;> rfl

theorem lookup_of_num {w : Search} {s : Nat} (h : 0 < w.num s) :
    w.paiMap.lookup s = some (w.num s) := by
  unfold Search.num at h ⊢
  cases hs : w.paiMap.lookup s with
  | none =>
      rw [hs] at h
      exact absurd h (Nat.lt_irrefl 0)
  | some n => rfl

theorem count_pair (s t : Nat) :
    (PaiItem.tiles ⟨1, s⟩).count t = if t = s then 2 else 0 := by
  change [s, s].count t = _
  simp only [List.count_cons, List.count_nil, beq_iff_eq, eq_comm (a := s)]
  split_ifs <;> rfl

theorem count_three (s t : Nat) :
    (PaiItem.tiles ⟨2, s⟩).count t = if t = s then 3 else 0 := by
  change [s, s, s].count t = _
  simp only [List.count_cons, List.count_nil, beq_iff_eq, eq_comm (a := s)]
  split_ifs <;> rfl

theorem count_run (s t : Nat) :
    (PaiItem.tiles ⟨3, s⟩).count t = if s ≤ t ∧ t ≤ s + 2 then 1 else 0 := by
  have hne : ∀ j, (s + j == t) = decide (t = s + j) := fun j => by
    rw [beq_eq_decide]
    exact decide_eq_decide.mpr eq_comm
  change [s + 0, s + 1, s + 2].count t = _
  simp only [List.count_cons, List.count_nil, hne, decide_eq_true_eq]
  split_ifs <;> omega

theorem fits_same {type k : Nat}
    (hcount : ∀ t, (PaiItem.tiles ⟨type, s⟩).count t = if t = s then k else 0) :
    Fits PaiItem.tiles m ⟨type, s⟩ ↔ k ≤ m s := by
  constructor
  · intro h
    have := h s
    rwa [hcount, if_pos rfl] at this
  · intro h t
    rw [hcount]
    split
    · next ht => rwa [ht]
    · exact Nat.zero_le _

theorem fits_run : Fits PaiItem.tiles m ⟨3, s⟩ ↔ 0 < m s ∧ 0 < m (s + 1) ∧ 0 < m (s + 2) := by
  constructor
  · intro h
    have h0 := h s
    have h1 := h (s + 1)
    have h2 := h (s + 2)
    rw [count_run, if_pos (by omega)] at h0 h1 h2
    exact ⟨h0, h1, h2⟩
  · rintro ⟨h0, h1, h2⟩ t
    rw [count_run]
    split
    · next ht =>
        obtain rfl | rfl | rfl : t = s ∨ t = s + 1 ∨ t = s + 2 := by omega
        · exact h0
        · exact h1
        · exact h2
    · exact Nat.zero_le _

theorem Undo.same {type k : Nat} (hk : 0 < k) (hs : k ≤ m s)
    (hcount : ∀ t, (PaiItem.tiles ⟨type, s⟩).count t = if t = s then k else 0) :
    Undo m ⟨type, s⟩ (·.take s k) (·.put s k) where
  take_list _ := rfl
  take_info _ := rfl
  put_list _ := rfl
  put_info _ := rfl
  num w hw t := by
    rw [num_take, without, hcount, hw, hw]
    split
    · next ht => rw [ht]
    · rfl
  back w w' hw hmap t := by
    have hnum : w'.num s = w.num s - k := by
      rw [Search.num, hmap, lookup_take, if_pos rfl]
      rfl
    rw [lookup_put, hnum, hmap, lookup_take]
    split
    · next ht =>
        rw [ht, lookup_of_num (by rw [hw]; omega), hw, Nat.sub_add_cancel hs]
    · rfl

theorem Undo.run (h0 : 0 < m s) (h1 : 0 < m (s + 1)) (h2 : 0 < m (s + 2)) :
    Undo m ⟨3, s⟩ (fun w => ((w.take s 1).take (s + 1) 1).take (s + 2) 1)
      (fun w => ((w.put s 1).put (s + 1) 1).put (s + 2) 1) where
  take_list _ := rfl
  take_info _ := rfl
  put_list _ := rfl
  put_info _ := rfl
  num w hw t := by
    simp only [num_take, without, count_run, hw]
    split_ifs <;> first | omega | subst_vars; omega
  back w w' hw hmap t := by
    have hmap' : ∀ k, w'.paiMap.lookup k =
        if s ≤ k ∧ k ≤ s + 2 then some (m k - 1) else w.paiMap.lookup k := by
      intro k
      rw [hmap]
      simp only [lookup_take, num_take, hw]
      split_ifs <;> first | rfl | omega | subst_vars; rfl
    have hnum : ∀ k, s ≤ k → k ≤ s + 2 → w'.num k = m k - 1 := by
      intro k hk hk'
      rw [Search.num, hmap', if_pos ⟨hk, hk'⟩]
      rfl
    have hhas : ∀ k, 0 < m k → w.paiMap.lookup k = some (m k) := by
      intro k hk
      rw [← hw k]
      exact lookup_of_num (by rw [hw]; exact hk)
    by_cases hin : s ≤ t ∧ t ≤ s + 2
    · have hpos : 0 < m t := by
        obtain rfl | rfl | rfl : t = s ∨ t = s + 1 ∨ t = s + 2 := by omega
        · exact h0
        · exact h1
        · exact h2
      have hone := hnum t hin.1 hin.2
      simp only [lookup_put, num_put]
      rw [hhas t hpos, hmap', if_pos hin]
      split_ifs <;> subst_vars <;> first | omega | (congr 1; omega)
    · have hne : t ≠ s ∧ t ≠ s + 1 ∧ t ≠ s + 2 := by omega
      simp only [lookup_put]
      rw [if_neg hne.2.2, if_neg hne.2.1, if_neg hne.1, hmap', if_neg hin]

def CallFinds (bound : Nat) (m : Nat → Nat) (pre : List PaiItem) (s jiangNum n type : Nat)
    (call : Call) : Prop :=
  let v : PaiItem := ⟨type, s⟩
  Fits PaiItem.tiles m v → Port.tiles m ≠ v.tiles.length →
    Finds bound (without PaiItem.tiles m v) (pre ++ [v]) (Layout (without PaiItem.tiles m v) n)
      fun w => call (w.next s) (Port.tiles m - v.tiles.length : Int) jiangNum
        (pre.length + 1 + 1) w

section Steps

variable {call : Call} {types : List Nat} (hm : ∀ t, m t ≠ 0 → t ∈ paiIds)
  (hn : n + jiangNum = 1) (hbound : bound + 1 = Port.tiles m + 3 * pre.length + 1 + n)

theorem lt_of_mem_paiIds {t : Nat} (ht : t ∈ paiIds) : t < 40 := by
  revert t
  decide

theorem le_of_mem_paiIds {t : Nat} (ht : t ∈ paiIds) : 11 ≤ t := by
  revert t
  decide

theorem flower_run {s : Nat} (h0 : s ∈ paiIds) (h1 : s + 1 ∈ paiIds) (h2 : s + 2 ∈ paiIds) :
    flower s = flower (s + 2) := by
  revert h1 h2
  revert s
  decide

include hm hn hbound

theorem takeDuizi_finds (hcall : CallFinds bound m pre s jiangNum n 2 call)
    (hrest : Finds bound m pre (Starting m n s types) rest) :
    Finds bound m pre (Starting m n s (2 :: types))
      (takeDuizi call s (Port.tiles m) jiangNum (pre.length + 1) rest) := by
  have hfits : Fits PaiItem.tiles m ⟨2, s⟩ ↔ 2 < m s :=
    fits_same (count_three s)
  by_cases h3 : 2 < m s
  · have hundo := Undo.same (by decide) h3 (count_three s)
    intro w hw hready
    have hitem := Finds.item jiangNum (.inr (.inl rfl)) (hfits.mpr h3)
      (fun t ht => lt_of_mem_paiIds (hm t ht)) rfl hbound hundo (hcall (hfits.mpr h3)) hrest
      w hw hready
    rw [takeDuizi, hw, if_pos h3]
    have hlast : (Port.tiles m : Int) - 3 = 0 ↔
      Port.tiles m = (PaiItem.tiles ⟨2, s⟩).length := by
      change _ ↔ Port.tiles m = 3
      omega
    have hone : jiangNum = 1 ↔ n = 0 := by omega
    simp only [hlast, hone]
    exact hitem
  · intro w hw hready
    rw [takeDuizi, hw, if_neg h3]
    exact Finds.skip (fun h => h3 (hfits.mp h.1)) hrest w hw hready

theorem takeShunzi_finds (h0 : 0 < m s) (hcall : CallFinds bound m pre s jiangNum n 3 call)
    (hrest : Finds bound m pre (Starting m n s types) rest) :
    Finds bound m pre (Starting m n s (3 :: types))
      (takeShunzi call s (Port.tiles m) jiangNum (pre.length + 1) rest) := by
  have hfits : Fits PaiItem.tiles m ⟨3, s⟩ ↔ s + 2 ≤ 39 ∧ 0 < m (s + 1) ∧ 0 < m (s + 2) := by
    rw [fits_run]
    constructor
    · rintro ⟨-, h1, h2⟩
      have := lt_of_mem_paiIds (hm _ h2.ne')
      exact ⟨by omega, h1, h2⟩
    · rintro ⟨-, h1, h2⟩
      exact ⟨h0, h1, h2⟩
  by_cases hrun : s + 2 ≤ 39 ∧ 0 < m (s + 1) ∧ 0 < m (s + 2)
  · have hsuit := flower_run (hm _ h0.ne') (hm _ hrun.2.1.ne') (hm _ hrun.2.2.ne')
    intro w hw hready
    have hitem := Finds.item jiangNum (.inr (.inr ⟨rfl, hsuit⟩)) (hfits.mpr hrun)
      (fun t ht => lt_of_mem_paiIds (hm t ht)) rfl hbound (Undo.run h0 hrun.2.1 hrun.2.2)
      (hcall (hfits.mpr hrun)) hrest w hw hready
    rw [takeShunzi, hw, hw, if_pos hrun]
    have hlast : (Port.tiles m : Int) - 3 = 0 ↔
      Port.tiles m = (PaiItem.tiles ⟨3, s⟩).length := by
      change _ ↔ Port.tiles m = 3
      omega
    have hone : jiangNum = 1 ↔ n = 0 := by omega
    simp only [hlast, hone]
    exact hitem
  · intro w hw hready
    rw [takeShunzi, hw, hw, if_neg hrun]
    exact Finds.skip (fun h => hrun (hfits.mp h.1)) hrest w hw hready

theorem takeJiang_finds (hcall : jiangNum = 0 → CallFinds bound m pre s (jiangNum + 1) 0 1 call)
    (hrest : Finds bound m pre (Starting m n s types) rest) :
    Finds bound m pre (Starting m n s (1 :: types))
      (takeJiang call s (Port.tiles m) jiangNum (pre.length + 1) rest) := by
  have hfits : Fits PaiItem.tiles m ⟨1, s⟩ ↔ 1 < m s := fits_same (count_pair s)
  by_cases hpair : 1 < m s ∧ jiangNum = 0
  · have hundo := Undo.same (by decide) hpair.1 (count_pair s)
    have hn1 : n = 0 + (if 1 = 1 then 1 else 0) := by
      rw [if_pos rfl]
      omega
    intro w hw hready
    have hitem := Finds.item jiangNum (.inl rfl) (hfits.mpr hpair.1)
      (fun t ht => lt_of_mem_paiIds (hm t ht)) hn1 hbound hundo
      (hcall hpair.2 (hfits.mpr hpair.1)) hrest w hw hready
    rw [takeJiang, hw, if_pos hpair]
    have hlast : (Port.tiles m : Int) - 2 = 0 ↔
      Port.tiles m = (PaiItem.tiles ⟨1, s⟩).length := by
      change _ ↔ Port.tiles m = 2
      omega
    simp only [hlast]
    exact hitem
  · intro w hw hready
    rw [takeJiang, hw, if_neg hpair]
    refine Finds.skip (fun h => hpair ⟨hfits.mp h.1, ?_⟩) hrest w hw hready
    have := h.2 rfl
    omega

end Steps

theorem finds_none : Finds bound m pre (Starting m n s []) some := by
  intro w _ hready
  refine ⟨w, rfl, fun _ => rfl, hready, [], (List.append_nil _).symm, .none fun l hl => ?_⟩
  obtain ⟨-, type, htype, -⟩ := hl
  exact List.not_mem_nil htype

theorem starting_all (h0 : 0 < m s) (hlow : ∀ t < s, m t = 0) (l : List PaiItem) :
    Starting m n s [2, 3, 1] l ↔ Layout m n l := by
  refine ⟨And.left, fun h => ⟨h, ?_⟩⟩
  obtain ⟨⟨type, s⟩, hv, rfl⟩ := h.exists_start h0.ne' hlow
  refine ⟨type, ?_, hv⟩
  rcases h.good _ hv with htype | htype | ⟨htype, -⟩ <;> dsimp only at htype <;> rw [htype] <;>
    decide

/-- The search finds all layouts of fewer than `fuel` tiles behind the items before them. -/
def SearchFinds (fuel : Nat) : Prop :=
  ∀ {m : Nat → Nat} {pre : List PaiItem} {s₀ jiangNum n bound : Nat}, Port.tiles m < fuel →
    (∀ t, m t ≠ 0 → t ∈ paiIds) → (∀ t < s₀, m t = 0) → n + jiangNum = 1 →
    bound + 1 = Port.tiles m + 3 * pre.length + 1 + n → Port.tiles m ≠ 0 ∨ n ≠ 0 →
    Finds bound m pre (Layout m n)
      (computeNorHupaiInfo fuel s₀ (Port.tiles m) jiangNum (pre.length + 1))

theorem callFinds {fuel type k : Nat} (hm : ∀ t, m t ≠ 0 → t ∈ paiIds)
    (hfuel : Port.tiles m < fuel + 1) (hlow : ∀ t < s, m t = 0) (hk : k + jiangNum = 1)
    (hlen : (PaiItem.tiles ⟨type, s⟩).length + n = 3 + k)
    (hbound : bound + 1 = Port.tiles m + 3 * pre.length + 1 + n)
    (ih : SearchFinds fuel) :
    CallFinds bound m pre s jiangNum k type (computeNorHupaiInfo fuel) := by
  intro hfits hmore w hw hready
  set v : PaiItem := ⟨type, s⟩
  have hsum := hfits.sum_without (s := Finset.range 40) fun t ht =>
    Finset.mem_range.mpr (lt_of_mem_paiIds (hm t ht))
  have hpos := PaiItem.two_le_length_tiles v
  set m' := without PaiItem.tiles m v with hm'
  have hle : ∀ t, m t = 0 → m' t = 0 := by
    intro t ht
    rw [hm', without, ht, Nat.zero_sub]
  have hnext : ∀ t < w.next s, m' t = 0 := by
    intro t ht
    unfold Search.next at ht
    rw [hw] at ht
    split at ht
    · next hs =>
        rcases Nat.lt_succ_iff_lt_or_eq.mp ht with ht | rfl
        · exact hle t (hlow t ht)
        · exact hs
    · exact hle t (hlow t ht)
  have hall : (Port.tiles m : Int) - v.tiles.length = Port.tiles m' := by
    unfold Port.tiles
    omega
  have hlength : pre.length + 1 = (pre ++ [v]).length := by simp
  rw [hall, hlength]
  have hsum' : Port.tiles m' + v.tiles.length = Port.tiles m := hsum
  refine ih ?_ (fun t ht => hm t (mt (hle t) ht)) hnext hk ?_ (.inl ?_) w hw hready
  · omega
  · rw [← hlength]
    change _ + n = _ at hlen
    omega
  · omega

theorem computeNorHupaiInfo_finds (fuel : Nat) : SearchFinds fuel := by
  induction fuel with
  | zero =>
      intro m pre s₀ jiangNum n bound hfuel
      exact absurd hfuel (Nat.not_lt_zero _)
  | succ fuel ih =>
      intro m pre s₀ jiangNum n bound hfuel hm hlow hn hbound hsome w hw hready
      rw [computeNorHupaiInfo]
      simp only [hw]
      cases hfind : (List.range' s₀ (40 - s₀)).find? fun s => decide (0 < m s) with
      | none =>
          have hzero : ∀ t, m t = 0 := by
            intro t
            by_contra ht
            have hmem := lt_of_mem_paiIds (hm t ht)
            have hge : ¬ t < s₀ := fun h => ht (hlow t h)
            have := List.find?_eq_none.mp hfind t (List.mem_range'_1.mpr ⟨by omega, by omega⟩)
            exact this (decide_eq_true (Nat.pos_of_ne_zero ht))
          have hn0 : n ≠ 0 := by
            refine hsome.resolve_left fun h => h ?_
            exact Finset.sum_eq_zero fun t _ => hzero t
          refine ⟨w, rfl, fun _ => rfl, hready, [], (List.append_nil _).symm, .none fun l hl => ?_⟩
          have hnil := hl.eq_nil hzero
          subst hnil
          exact hn0 hl.pairs.symm
      | some s =>
          obtain ⟨h0, hmem, hbelow⟩ := List.find?_range'_eq_some.mp hfind
          have h0 : 0 < m s := of_decide_eq_true h0
          have hlow : ∀ t < s, m t = 0 := by
            intro t ht
            by_cases hs : t < s₀
            · exact hlow t hs
            · simpa using hbelow t (Nat.le_of_not_lt hs) ht
          have hjiang := takeJiang_finds hm hn hbound (s := s)
            (fun hj => callFinds hm hfuel hlow (k := 0) (by omega) (by
              change 2 + n = 3
              omega) hbound ih) finds_none
          have hshunzi := takeShunzi_finds hm hn hbound h0
            (callFinds hm hfuel hlow hn rfl hbound ih) hjiang
          have hduizi := takeDuizi_finds hm hn hbound
            (callFinds hm hfuel hlow hn rfl hbound ih) hshunzi
          exact (hduizi.congr (starting_all h0 hlow)) w hw hready

/-! ## The whole search -/

def PaiMap.num (pai : PaiMap) (s : Nat) : Nat := (pai.lookup s).getD 0

def PaiMap.count (pai : PaiMap) : Nat := (pai.entries.map (·.2)).sum

def PaiMap.Tiles (pai : PaiMap) : Prop := ∀ s ∈ pai.keys, s ∈ paiIds

instance (pai : PaiMap) : Decidable pai.Tiles := inferInstanceAs (Decidable (∀ s ∈ _, _))

theorem PaiMap.Tiles.num_ne_zero {pai : PaiMap} (h : pai.Tiles) {s : Nat} (hs : pai.num s ≠ 0) :
    s ∈ paiIds := by
  refine h s (AList.mem_keys.mp (AList.lookup_isSome.mp ?_))
  by_contra hnone
  rw [PaiMap.num, Option.not_isSome_iff_eq_none.mp hnone] at hs
  exact hs rfl

theorem sum_dlookup {l : List (Sigma fun _ : Nat => Nat)} (hl : l.NodupKeys)
    (hkeys : ∀ e ∈ l, e.1 < 40) :
    ∑ s ∈ Finset.range 40, (l.dlookup s).getD 0 = (l.map (·.2)).sum := by
  induction l with
  | nil => simp
  | cons e l ih =>
      obtain ⟨hnot, hl⟩ := List.nodupKeys_cons.mp hl
      rw [List.map_cons, List.sum_cons, ← ih hl fun e he => hkeys e (List.mem_cons_of_mem _ he)]
      have he := Finset.mem_range.mpr (hkeys e List.mem_cons_self)
      have hsplit : ∀ s, ((e :: l).dlookup s).getD 0 =
          (if s = e.1 then e.2 else 0) + (l.dlookup s).getD 0 := by
        intro s
        by_cases hs : s = e.1
        · subst hs
          have hself : (e :: l).dlookup e.1 = some e.2 := List.dlookup_cons_eq l e.1 e.2
          rw [hself, List.dlookup_eq_none.mpr hnot, if_pos rfl]
          rfl
        · rw [List.dlookup_cons_ne _ _ hs, if_neg hs, Nat.zero_add]
      simp only [hsplit, Finset.sum_add_distrib, Finset.sum_ite_eq', he, ↓reduceIte]

theorem PaiMap.Tiles.tiles_num {pai : PaiMap} (h : pai.Tiles) :
    Port.tiles pai.num = pai.count :=
  sum_dlookup pai.nodupKeys fun e he =>
    lt_of_mem_paiIds (h e.1 (List.mem_map_of_mem (f := Sigma.fst) he))

/-- What the search returns: some layout if there is one, layouts only, every layout up to the
order of its items, and the map it was given. -/
theorem computeNorHupaiInfo_layouts (pai : PaiMap) (hpai : pai.Tiles) (fuel : Nat)
    (hfuel : pai.count < fuel) :
    ∃ w, computeNorHupaiInfo fuel 11 pai.count 0 1 ⟨pai, ∅, []⟩ = some w ∧
      (w.info ≠ [] ↔ ∃ l, Layout pai.num 1 l) ∧
      (∀ d ∈ w.info, ∃ l, Layout pai.num 1 l ∧ Holds d.list l) ∧
      (∀ l, Layout pai.num 1 l → ∃ d ∈ w.info, ∃ l', l'.Perm l ∧ Holds d.list l') ∧
      ∀ s, w.paiMap.lookup s = pai.lookup s := by
  have htiles := hpai.tiles_num
  have hlow : ∀ t < 11, pai.num t = 0 := by
    intro t ht
    by_contra hne
    exact absurd (le_of_mem_paiIds (hpai.num_ne_zero hne)) (Nat.not_le_of_lt ht)
  have hready : Ready (pai.count + 1) [] (∅ : HashTable Nat PaiItem) :=
    ⟨AList.lookup_empty 0, fun i hi => absurd hi (Nat.not_lt_zero i),
      fun k _ => AList.lookup_empty k⟩
  have hfinds : Finds (pai.count + 1) pai.num [] (Layout pai.num 1)
      (computeNorHupaiInfo fuel 11 (Port.tiles pai.num) 0 1) :=
    computeNorHupaiInfo_finds fuel (htiles ▸ hfuel) (fun t ht => hpai.num_ne_zero ht) hlow rfl
      (by rw [htiles]; rfl) (.inr Nat.one_ne_zero)
  obtain ⟨w, hw, hmap, -, found, hfound, hsound, hcomplete⟩ :=
    hfinds ⟨pai, ∅, []⟩ (fun s => rfl) hready
  rw [htiles] at hw
  obtain rfl : w.info = found := hfound
  refine ⟨w, hw, ⟨fun hne => ?_, fun h => ?_⟩, hsound, hcomplete, hmap⟩
  · obtain ⟨d, hd⟩ := List.exists_mem_of_ne_nil _ hne
    obtain ⟨l, hl, -⟩ := hsound d hd
    exact ⟨l, hl⟩
  · obtain ⟨l, hl⟩ := h
    obtain ⟨d, hd, -⟩ := hcomplete l hl
    exact List.ne_nil_of_mem hd

def threeThrees : PaiMap := [⟨11, 3⟩, ⟨12, 3⟩, ⟨13, 3⟩, ⟨29, 2⟩].toAList

theorem computeNorHupaiInfo_layouts_threes :
    ∃ w, computeNorHupaiInfo 12 11 threeThrees.count 0 1 ⟨threeThrees, ∅, []⟩ = some w ∧
      (w.info ≠ [] ↔ ∃ l, Layout threeThrees.num 1 l) ∧
      (∀ d ∈ w.info, ∃ l, Layout threeThrees.num 1 l ∧ Holds d.list l) ∧
      (∀ l, Layout threeThrees.num 1 l → ∃ d ∈ w.info, ∃ l', l'.Perm l ∧ Holds d.list l') ∧
      ∀ s, w.paiMap.lookup s = threeThrees.lookup s :=
  computeNorHupaiInfo_layouts threeThrees (by decide) 12 (by decide)

end Algorithm

end JyQipai.Mj
