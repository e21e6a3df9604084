import JyQipai.Common.Sequence

/-!
# Runs of calls on lists and listmaps

`Rep` connects a world of lists with the sequences.  Every call keeps it, but for an
insertion before a first member, after which the list is not traversed as its sequence.
-/

namespace JyQipai.Basefunc

variable {κ α : Type}

section Faithful

variable {ι τ : Type}

structure Faithful (w : World ι τ κ α) (S : Seqs ι τ κ α) : Prop where
  forward : ∀ o n, (S.seq o).length ≤ n →
    (w.ends o).pairs w.heap n = some ((S.seq o).map fun e => (e.id, e.value))
  backward : ∀ o n, (S.seq o).length ≤ n →
    (w.ends o).rpairs w.heap n = some ((S.seq o).map fun e => (e.id, e.value)).reverse
  ends : ∀ o, (w.ends o).front = none ↔ (w.ends o).back = none
  live : ∀ m k a, (w.listmap m).map k = some a →
    ∃ e ∈ S.seq (.inr m), e.id = a ∧ e.key = some k ∧ w.heap.entry a = some e
  mapped : ∀ m k, (∃ e ∈ S.seq (.inr m), e.key = some k) → ((w.listmap m).map k).isSome
  keyed : ∀ m, ∀ e ∈ S.seq (.inr m), e.key.isSome
  keys : ∀ m, (S.keys m).Nodup

end Faithful

section World

variable {ι τ : Type} {w : World ι τ κ α} {S : Seqs ι τ κ α}

structure Rep (w : World ι τ κ α) (S : Seqs ι τ κ α) : Prop where
  made : S.made = w.heap.length
  stored : Stored w.heap w.ends S.seq
  mapped : ∀ m k a, (w.listmap m).map k = some a ↔
    ∃ e ∈ S.seq (.inr m), e.id = a ∧ e.key = some k
  keyed : ∀ m, ∀ e ∈ S.seq (.inr m), e.key.isSome

theorem rep_new : Rep (World.new : World ι τ κ α) Seqs.new where
  made := rfl
  stored := by
    refine ⟨fun o => ?_, fun o o' _ => List.disjoint_nil_left _⟩
    cases o <;> exact Holds.nil _
  mapped m k a := by
    constructor
    · intro h
      cases h
    · rintro ⟨e, he, -⟩
      exact absurd he List.not_mem_nil
  keyed m e he := absurd he List.not_mem_nil

namespace Rep

theorem holds (hr : Rep w S) (o : ι ⊕ τ) : Holds w.heap (w.ends o) (S.seq o) := hr.stored.holds o

theorem mem_keys (hr : Rep w S) (m : τ) (k : κ) :
    k ∈ S.keys m ↔ ((w.listmap m).map k).isSome := by
  rw [Seqs.keys, List.mem_filterMap, Option.isSome_iff_exists]
  constructor
  · rintro ⟨e, he, hk⟩
    exact ⟨e.id, (hr.mapped m k e.id).mpr ⟨e, he, rfl, hk⟩⟩
  · rintro ⟨a, ha⟩
    obtain ⟨e, he, -, hk⟩ := (hr.mapped m k a).mp ha
    exact ⟨e, he, hk⟩

theorem key_inj (hr : Rep w S) {m : τ} {d e : Entry κ α} {k : κ} (hd : d ∈ S.seq (.inr m))
    (he : e ∈ S.seq (.inr m)) (hdk : d.key = some k) (hek : e.key = some k) : d = e := by
  have hda := (hr.mapped m k d.id).mpr ⟨d, hd, rfl, hdk⟩
  have hea := (hr.mapped m k e.id).mpr ⟨e, he, rfl, hek⟩
  have hid : d.id = e.id := Option.some.inj (hda.symm.trans hea)
  have hde := (hr.holds (.inr m)).2 d hd
  rw [hid, (hr.holds (.inr m)).2 e he] at hde
  exact (Option.some.inj hde).symm

end Rep

variable [DecidableEq ι] [DecidableEq τ]

omit [DecidableEq τ] in
theorem World.putList_self (w : World ι τ κ α) {l : ι} :
    w.putList l (w.heap, w.list l) = w := by
  unfold World.putList
  rw [Function.update_eq_self]

omit [DecidableEq ι] in
theorem World.putMap_self (w : World ι τ κ α) {m : τ} :
    w.putMap m (w.heap, w.listmap m) = w := by
  unfold World.putMap
  rw [Function.update_eq_self]

theorem Seqs.put_self (S : Seqs ι τ κ α) {o : ι ⊕ τ} {s : List (Entry κ α)} (h : S.seq o = s) :
    S.put o s = S := by
  unfold Seqs.put
  rw [← h, Function.update_eq_self]

theorem ends_putList (l : ι) (r : Heap κ α × LinkedList) :
    (w.putList l r).ends = Function.update w.ends (.inl l) r.2 := by
  funext o
  cases o with
  | inl i =>
      by_cases hi : i = l
      · subst hi
        rw [Function.update_self]
        exact Function.update_self ..
      · rw [Function.update_of_ne (fun h => hi (Sum.inl.inj h))]
        exact Function.update_of_ne hi ..
  | inr m => exact (Function.update_of_ne Sum.inr_ne_inl ..).symm

theorem ends_putMap (m : τ) (r : Heap κ α × ListMap κ) :
    (w.putMap m r).ends = Function.update w.ends (.inr m) r.2.list := by
  funext o
  cases o with
  | inr i =>
      by_cases hi : i = m
      · subst hi
        rw [Function.update_self]
        exact congrArg ListMap.list (Function.update_self ..)
      · rw [Function.update_of_ne (fun h => hi (Sum.inr.inj h))]
        exact congrArg ListMap.list (Function.update_of_ne hi ..)
  | inl l => exact (Function.update_of_ne Sum.inl_ne_inr ..).symm

namespace Rep

theorem putList (hr : Rep w S) (l : ι) {r : Heap κ α × LinkedList} {s : List (Entry κ α)} {n : Nat}
    (hl : Holds r.1 r.2 s) (hw : Writes w.heap r.1 n (S.ids (.inl l)))
    (hids : ∀ a ∈ s.map Entry.id, w.heap.length ≤ a ∨ a ∈ S.ids (.inl l)) :
    Rep (w.putList l r) { S.put (.inl l) s with made := S.made + n } where
  made := by
    rw [hr.made]
    exact hw.length.symm
  stored := by
    rw [ends_putList]
    exact hr.stored.put (.inl l) hl hw hids
  mapped m k a := by
    have hseq : Function.update S.seq (.inl l) s (.inr m) = S.seq (.inr m) :=
      Function.update_of_ne Sum.inr_ne_inl ..
    change _ ↔ ∃ e ∈ Function.update S.seq (.inl l) s (.inr m), _
    rw [hseq]
    exact hr.mapped m k a
  keyed m e he := by
    change e ∈ Function.update S.seq (.inl l) s (.inr m) at he
    rw [Function.update_of_ne Sum.inr_ne_inl] at he
    exact hr.keyed m e he

theorem putMap (hr : Rep w S) (m : τ) {r : Heap κ α × ListMap κ} {s : List (Entry κ α)} {n : Nat}
    (hl : Holds r.1 r.2.list s) (hw : Writes w.heap r.1 n (S.ids (.inr m)))
    (hids : ∀ a ∈ s.map Entry.id, w.heap.length ≤ a ∨ a ∈ S.ids (.inr m))
    (hmap : ∀ k a, r.2.map k = some a ↔ ∃ e ∈ s, e.id = a ∧ e.key = some k)
    (hkeyed : ∀ e ∈ s, e.key.isSome) :
    Rep (w.putMap m r) { S.put (.inr m) s with made := S.made + n } where
  made := by
    rw [hr.made]
    exact hw.length.symm
  stored := by
    rw [ends_putMap]
    exact hr.stored.put (.inr m) hl hw hids
  mapped i k a := by
    change (Function.update w.listmap m r.2 i).map k = some a ↔
      ∃ e ∈ Function.update S.seq (.inr m) s (.inr i), e.id = a ∧ e.key = some k
    by_cases hi : i = m
    · subst hi
      rw [Function.update_self, Function.update_self]
      exact hmap k a
    · rw [Function.update_of_ne hi, Function.update_of_ne fun h => hi (Sum.inr.inj h)]
      exact hr.mapped i k a
  keyed i e he := by
    change e ∈ Function.update S.seq (.inr m) s (.inr i) at he
    by_cases hi : i = m
    · subst hi
      rw [Function.update_self] at he
      exact hkeyed e he
    · rw [Function.update_of_ne fun h => hi (Sum.inr.inj h)] at he
      exact hr.keyed i e he

variable [DecidableEq κ]

theorem enter (hr : Rep w S) (m : τ) {key : κ} (hkey : key ∉ S.keys m) (value : α)
    {h : Heap κ α} {list : LinkedList} {item : Option Nat} {s t : List (Entry κ α)}
    (hseq : S.seq (.inr m) = s ++ t)
    (hl : Holds h list (s ++ ⟨w.heap.length, value, none⟩ :: t))
    (hw : Writes w.heap h 1 (S.ids (.inr m))) (hitem : item = some w.heap.length)
    {f : Entry κ α → List (Entry κ α) → List (Entry κ α)}
    (hf : ∀ e : Entry κ α, e.id = w.heap.length → f e (s ++ t) = s ++ e :: t) :
    Rep (w.putMap m ((w.listmap m).enter h list key item))
      (S.make (.inr m) value (some key) f) := by
  subst hitem
  have hin (e : Entry κ α) (he : e ∈ s ∨ e ∈ t) : e ∈ S.seq (.inr m) := by
    rw [hseq]
    exact List.mem_append.mpr he
  have hold (e : Entry κ α) (he : e ∈ s ∨ e ∈ t) : e.id ≠ w.heap.length :=
    Nat.ne_of_lt ((hr.holds (.inr m)).1.bound e.id (List.mem_map_of_mem (hin e he)))
  have hmod := hl.modify w.heap.length (f := fun it => { it with key := some key })
    (g := fun e => { e with key := some key }) (fun _ => rfl) (fun _ => rfl) fun _ => rfl
  have hsame (r : List (Entry κ α)) (h : ∀ e ∈ r, e ∈ s ∨ e ∈ t) :
      r.map (fun e => if e.id = w.heap.length then { e with key := some key } else e) = r := by
    rw [List.map_congr_left fun e he => if_neg (hold e (h e he)), List.map_id']
  rw [List.map_append, List.map_cons, hsame s fun e he => .inl he, hsame t fun e he => .inr he,
    if_pos rfl] at hmod
  have hmake : S.make (.inr m) value (some key) f =
      { S.put (.inr m) (s ++ ⟨w.heap.length, value, some key⟩ :: t) with made := S.made + 1 } := by
    unfold Seqs.make
    rw [hseq, hf _ hr.made, hr.made]
  rw [hmake]
  have hmem (e : Entry κ α) (he : e ∈ s ++ ⟨w.heap.length, value, some key⟩ :: t) :
      e = ⟨w.heap.length, value, some key⟩ ∨ e ∈ S.seq (.inr m) := by
    rcases List.mem_append.mp he with he | he
    · exact .inr (hin e (.inl he))
    · exact (List.mem_cons.mp he).imp_right fun he => hin e (.inr he)
  have hback (e : Entry κ α) (he : e ∈ S.seq (.inr m)) :
      e ∈ s ++ ⟨w.heap.length, value, some key⟩ :: t := by
    rw [hseq] at he
    rcases List.mem_append.mp he with he | he
    · exact List.mem_append_left _ he
    · exact List.mem_append_right _ (List.mem_cons_of_mem _ he)
  refine hr.putMap m hmod ⟨?_, fun a ha hnot => ?_⟩ (fun a ha => ?_) (fun k a => ?_) fun e he => ?_
  · exact (List.length_modify ..).trans hw.length
  · exact (List.getElem?_modify_ne _ h (Nat.ne_of_gt ha)).trans (hw.same a ha hnot)
  · obtain ⟨e, he, rfl⟩ := List.mem_map.mp ha
    rcases hmem e he with rfl | he
    · exact .inl (Nat.le_refl _)
    · exact .inr (List.mem_map_of_mem he)
  · change Function.update (w.listmap m).map key (some w.heap.length) k = some a ↔ _
    by_cases hk : k = key
    · subst hk
      rw [Function.update_self]
      constructor
      · intro ha
        exact ⟨_, List.mem_append_right _ List.mem_cons_self, Option.some.inj ha, rfl⟩
      · rintro ⟨e, he, rfl, hek⟩
        rcases hmem e he with rfl | he
        · rfl
        · exact absurd (List.mem_filterMap.mpr ⟨e, he, hek⟩) hkey
    · rw [Function.update_of_ne hk, hr.mapped m k a]
      constructor
      · rintro ⟨e, he, hid, hek⟩
        exact ⟨e, hback e he, hid, hek⟩
      · rintro ⟨e, he, hid, hek⟩
        rcases hmem e he with rfl | he
        · exact absurd (Option.some.inj hek).symm hk
        · exact ⟨e, he, hid, hek⟩
  · rcases hmem e he with rfl | he
    · rfl
    · exact hr.keyed m e he

theorem leave (hr : Rep w S) (m : τ) {e : Entry κ α} {key : κ} {s t : List (Entry κ α)}
    (hseq : S.seq (.inr m) = s ++ e :: t) (hkey : e.key = some key) :
    let (h, list) := (w.listmap m).list.erase w.heap e.id
    Rep (w.putMap m (h, ⟨list, Function.update (w.listmap m).map key none⟩))
      (S.put (.inr m) (s ++ t)) := by
  have hl := hr.holds (.inr m)
  rw [hseq] at hl
  obtain ⟨hh, hw, -⟩ := holds_erase hl
  have hsub (d : Entry κ α) (hd : d ∈ s ++ t) : d ∈ S.seq (.inr m) := by
    rw [hseq]
    rcases List.mem_append.mp hd with hd | hd
    · exact List.mem_append_left _ hd
    · exact List.mem_append_right _ (List.mem_cons_of_mem _ hd)
  have he : e ∈ S.seq (.inr m) := by
    rw [hseq]
    exact List.mem_append_right _ List.mem_cons_self
  have hnot : e ∉ s ++ t := by
    intro hin
    have hnodup := hl.1.nodup
    rw [List.map_append, List.map_cons, List.nodup_middle, ← List.map_append] at hnodup
    exact (List.nodup_cons.mp hnodup).1 (List.mem_map_of_mem hin)
  rw [← hseq] at hw
  let r := (w.listmap m).list.erase w.heap e.id
  refine hr.putMap m (r := (r.1, ⟨r.2, Function.update (w.listmap m).map key none⟩)) hh hw
    (fun a ha => .inr ?_) (fun k a => ?_) fun d hd => ?_
  · obtain ⟨d, hd, rfl⟩ := List.mem_map.mp ha
    exact List.mem_map_of_mem (hsub d hd)
  · change Function.update (w.listmap m).map key none k = some a ↔ _
    by_cases hk : k = key
    · subst hk
      rw [Function.update_self]
      constructor
      · intro ha
        cases ha
      · rintro ⟨d, hd, -, hdk⟩
        exact absurd (hr.key_inj (hsub d hd) he hdk hkey ▸ hd) hnot
    · rw [Function.update_of_ne hk, hr.mapped m k a]
      constructor
      · rintro ⟨d, hd, hid, hdk⟩
        refine ⟨d, ?_, hid, hdk⟩
        rw [hseq] at hd
        rcases List.mem_append.mp hd with hd | hd
        · exact List.mem_append_left _ hd
        · rcases List.mem_cons.mp hd with rfl | hd
          · exact absurd (Option.some.inj (hdk.symm.trans hkey)) hk
          · exact List.mem_append_right _ hd
      · rintro ⟨d, hd, hid, hdk⟩
        exact ⟨d, hsub d hd, hid, hdk⟩
  · exact hr.keyed m d (hsub d hd)

end Rep

/-! ## One call -/

namespace Rep

theorem make (hr : Rep w S) (l : ι) (obj : α) {r : Heap κ α × LinkedList}
    {f : Entry κ α → List (Entry κ α) → List (Entry κ α)}
    (hl : Holds r.1 r.2 (f ⟨w.heap.length, obj, none⟩ (S.seq (.inl l))))
    (hw : Writes w.heap r.1 1 (S.ids (.inl l)))
    (hf : ∀ e, ∀ d ∈ f e (S.seq (.inl l)), d = e ∨ d ∈ S.seq (.inl l)) :
    Rep (w.putList l r) (S.make (.inl l) obj none f) := by
  have hput := hr.putList l hl hw fun a ha => by
    obtain ⟨d, hd, rfl⟩ := List.mem_map.mp ha
    rcases hf _ d hd with rfl | hd
    · exact .inl (Nat.le_refl _)
    · exact .inr (List.mem_map_of_mem hd)
  rw [← hr.made] at hput
  exact hput

theorem remove (hr : Rep w S) (l : ι) {e : Entry κ α} {s t : List (Entry κ α)}
    (hseq : S.seq (.inl l) = s ++ e :: t) :
    Rep (w.putList l ((w.list l).erase w.heap e.id)) (S.put (.inl l) (s ++ t)) := by
  have hl := hr.holds (.inl l)
  rw [hseq] at hl
  obtain ⟨hh, hw, -⟩ := holds_erase hl
  rw [← hseq] at hw
  refine hr.putList l (n := 0) hh hw fun a ha => .inr ?_
  obtain ⟨d, hd, rfl⟩ := List.mem_map.mp ha
  rw [Seqs.ids, hseq]
  refine List.mem_map_of_mem ?_
  rcases List.mem_append.mp hd with hd | hd
  · exact List.mem_append_left _ hd
  · exact List.mem_append_right _ (List.mem_cons_of_mem _ hd)

theorem merge (hr : Rep w S) {l other : ι} (hne : l ≠ other)
    {r : Heap κ α × LinkedList × LinkedList} {s : List (Entry κ α)}
    (hl : Holds r.1 r.2.1 s) (hnew : r.2.2 = LinkedList.new)
    (hw : Writes w.heap r.1 0 (s.map Entry.id))
    (hs : ∀ e ∈ s, e ∈ S.seq (.inl l) ∨ e ∈ S.seq (.inl other)) :
    Rep (w.putLists l other r) ((S.put (.inl l) s).put (.inl other) []) where
  made := by
    rw [show (w.putLists l other r).heap.length = w.heap.length from hw.length, ← hr.made]
    rfl
  stored := by
    have hends : (w.putLists l other r).ends =
        Function.update (Function.update w.ends (.inl l) r.2.1) (.inl other) LinkedList.new := by
      rw [← hnew, ← ends_putList l (r.1, r.2.1), ← ends_putList other (r.1, r.2.2)]
      rfl
    rw [hends]
    refine hr.stored.put₂ (fun h => hne (Sum.inl.inj h)) hl (fun a ha => ?_) hw
    obtain ⟨e, he, rfl⟩ := List.mem_map.mp ha
    exact (hs e he).imp List.mem_map_of_mem List.mem_map_of_mem
  mapped m k a := by
    change _ ↔ ∃ e ∈ Function.update (Function.update S.seq (.inl l) s) (.inl other) []
      (.inr m), _
    rw [Function.update_of_ne Sum.inr_ne_inl, Function.update_of_ne Sum.inr_ne_inl]
    exact hr.mapped m k a
  keyed m e he := by
    change e ∈ Function.update (Function.update S.seq (.inl l) s) (.inl other) [] (.inr m) at he
    rw [Function.update_of_ne Sum.inr_ne_inl, Function.update_of_ne Sum.inr_ne_inl] at he
    exact hr.keyed m e he

variable [DecidableEq κ]

theorem set (hr : Rep w S) (m : τ) (key : κ) (value : α) :
    Rep { w with heap := (w.listmap m).set w.heap key value }
      (S.put (.inr m) ((S.seq (.inr m)).map fun e =>
        if e.key = some key then { e with value := value } else e)) := by
  cases hmap : (w.listmap m).map key with
  | none =>
      have hnone : ∀ e ∈ S.seq (.inr m), e.key ≠ some key := by
        intro e he hkey
        have := (hr.mapped m key e.id).mpr ⟨e, he, rfl, hkey⟩
        rw [hmap] at this
        cases this
      have hheap : (w.listmap m).set w.heap key value = w.heap := by
        unfold ListMap.set
        rw [hmap]
      have hput : S.put (.inr m) (S.seq (.inr m)) = S := by
        unfold Seqs.put
        rw [Function.update_eq_self]
      rw [hheap, List.map_congr_left fun e he => if_neg (hnone e he), List.map_id', hput]
      exact hr
  | some item =>
      obtain ⟨e, he, rfl, hkey⟩ := (hr.mapped m key item).mp hmap
      have hat (d : Entry κ α) (hd : d ∈ S.seq (.inr m)) : d.key = some key ↔ d.id = e.id := by
        constructor
        · intro hdk
          rw [hr.key_inj hd he hdk hkey]
        · intro hid
          have hentry := (hr.holds (.inr m)).2 d hd
          rw [hid, (hr.holds (.inr m)).2 e he] at hentry
          rw [← Option.some.inj hentry, hkey]
      have hmod := (hr.holds (.inr m)).modify e.id (f := fun it => { it with value := value })
        (g := fun d => { d with value := value }) (fun _ => rfl) (fun _ => rfl) fun _ => rfl
      have hheap : (w.listmap m).set w.heap key value = w.heap.setValue e.id value := by
        unfold ListMap.set
        rw [hmap]
      have hworld : { w with heap := w.heap.setValue e.id value } =
          w.putMap m (w.heap.setValue e.id value, w.listmap m) := by
        unfold World.putMap
        rw [Function.update_eq_self]
      have hid (d : Entry κ α) :
          (if d.key = some key then { d with value := value } else d).id = d.id ∧
          (if d.key = some key then { d with value := value } else d).key = d.key := by
        split <;> exact ⟨rfl, rfl⟩
      rw [List.map_congr_left fun d hd => ite_congr (propext (hat d hd)).symm (fun _ => rfl)
        fun _ => rfl] at hmod
      rw [hheap, hworld]
      refine hr.putMap m (n := 0) hmod ⟨List.length_modify .., fun a _ hnot => ?_⟩ (fun a ha => ?_)
        (fun k a => ?_) fun d hd => ?_
      · exact List.getElem?_modify_ne _ _ fun heq => hnot (heq ▸ List.mem_map_of_mem he)
      · obtain ⟨d, hd, rfl⟩ := List.mem_map.mp ha
        obtain ⟨c, hc, rfl⟩ := List.mem_map.mp hd
        rw [(hid c).1]
        exact .inr (List.mem_map_of_mem hc)
      · rw [hr.mapped m k a]
        constructor
        · rintro ⟨d, hd, hda, hdk⟩
          exact ⟨_, List.mem_map_of_mem hd, (hid d).1.trans hda, (hid d).2.trans hdk⟩
        · rintro ⟨d, hd, hda, hdk⟩
          obtain ⟨c, hc, rfl⟩ := List.mem_map.mp hd
          exact ⟨c, hc, (hid c).1.symm.trans hda, (hid c).2.symm.trans hdk⟩
      · obtain ⟨c, hc, rfl⟩ := List.mem_map.mp hd
        rw [(hid c).2]
        exact hr.keyed m c hc

theorem pop (hr : Rep w S) (m : τ) {e : Entry κ α} {s t : List (Entry κ α)}
    (hseq : S.seq (.inr m) = s ++ e :: t)
    {f : Heap κ α → (Heap κ α × LinkedList) × Option α}
    (hpop : (f w.heap).1 = (w.listmap m).list.erase w.heap e.id) :
    let r := w.tryPop m ((w.listmap m).pop w.heap (some e.id) f)
    let r' := S.tryPop m (some e) (s ++ t)
    Rep r.1 r'.1 ∧ r.2 = r'.2 := by
  have he : e ∈ S.seq (.inr m) := by
    rw [hseq]
    exact List.mem_append_right _ List.mem_cons_self
  obtain ⟨it, hit, hv, hk⟩ := Heap.entry_eq ((hr.holds (.inr m)).2 e he)
  obtain ⟨key, hkey⟩ := Option.isSome_iff_exists.mp (hr.keyed m e he)
  have hleave := hr.leave m hseq hkey
  have heq : (w.listmap m).pop w.heap (some e.id) f =
      some ((((w.listmap m).list.erase w.heap e.id).1,
        ⟨((w.listmap m).list.erase w.heap e.id).2,
          Function.update (w.listmap m).map key none⟩), key, e.value) := by
    unfold ListMap.pop
    simp only [Option.bind_eq_bind, Option.bind_some, hit, hk, hkey, hpop, hv]
    rfl
  rw [heq]
  obtain ⟨id, value, key'⟩ := e
  obtain rfl : key' = some key := hkey
  exact ⟨hleave, rfl⟩

omit [DecidableEq ι] [DecidableEq τ] [DecidableEq κ] in
theorem split_after (hr : Rep w S) {o : ι ⊕ τ} {item : Nat} (hin : item ∈ S.ids o)
    (hfirst : (S.ids o).head? ≠ some item) :
    ∃ s e t, S.seq o = s ++ e :: t ∧ e.id = item ∧ (∀ d ∈ s, d.id ≠ item) ∧ s ≠ [] := by
  obtain ⟨s, e, t, hseq, hid, hs, -⟩ := (hr.holds o).split hin
  refine ⟨s, e, t, hseq, hid, hs, ?_⟩
  rintro rfl
  refine hfirst ?_
  rw [Seqs.ids, hseq, ← hid]
  rfl

omit [DecidableEq κ] in
theorem step_list_insert (hr : Rep w S) (l : ι) (obj : α) {item : Nat}
    (hin : item ∈ S.ids (.inl l)) (hfirst : (S.ids (.inl l)).head? ≠ some item) :
    Rep (w.putList l ((w.list l).insert w.heap obj (some item)))
      (S.make (.inl l) obj none (insertBefore item)) := by
  obtain ⟨s, e, t, hseq, hid, hs, hne⟩ := hr.split_after hin hfirst
  have hl := hr.holds (.inl l)
  rw [hseq] at hl
  obtain ⟨hh, hw⟩ := holds_insert hl hne obj
  rw [← hseq] at hw
  rw [hid] at hh hw
  refine hr.make l obj ?_ hw fun n d hd => ?_
  · rw [hseq, insertBefore_append hs hid]
    exact hh
  · rw [hseq, insertBefore_append hs hid] at hd
    rw [hseq]
    simp only [List.mem_append, List.mem_cons] at hd ⊢
    tauto

theorem step_tryMake (hr : Rep w S) (m : τ) (key : κ) (value : α)
    {r : Option (Heap κ α × ListMap κ)} {h : Heap κ α} {list : LinkedList} {item : Option Nat}
    {f : Entry κ α → List (Entry κ α) → List (Entry κ α)}
    (hcall : r = if ((w.listmap m).map key).isSome then none
      else some ((w.listmap m).enter h list key item))
    (hmake : key ∉ S.keys m → Rep (w.putMap m ((w.listmap m).enter h list key item))
      (S.make (.inr m) value (some key) f)) :
    Rep (w.tryMap m r).1 (S.tryMake m key value f).1 ∧
      (w.tryMap m r).2 = (S.tryMake m key value f).2 := by
  unfold Seqs.tryMake
  by_cases hkey : key ∈ S.keys m
  · rw [hcall, if_pos ((hr.mem_keys m key).mp hkey), if_pos hkey]
    exact ⟨hr, rfl⟩
  · rw [hcall, if_neg fun h => hkey ((hr.mem_keys m key).mpr h), if_neg hkey]
    exact ⟨hmake hkey, rfl⟩

theorem step (hr : Rep w S) {op : Op ι τ κ α} (hop : S.Allows op) (hfirst : ¬S.BeforeFront op) :
    Rep (w.step op).1 (S.step op).1 ∧ (w.step op).2 = (S.step op).2 := by
  cases op with
  | pushFront l obj =>
      obtain ⟨hl, hw⟩ := holds_pushFront (hr.holds (.inl l)) obj
      exact ⟨hr.make l obj hl hw fun e d hd => List.mem_cons.mp hd, rfl⟩
  | pushBack l obj =>
      obtain ⟨hl, hw⟩ := holds_pushBack (hr.holds (.inl l)) obj
      refine ⟨hr.make l obj (f := fun e s => s ++ [e]) hl hw fun e d hd => ?_, rfl⟩
      exact (List.mem_append.mp hd).symm.imp_left List.mem_singleton.mp
  | insert l obj where? =>
      cases where? with
      | none =>
          obtain ⟨hl, hw⟩ := holds_pushBack (hr.holds (.inl l)) obj
          refine ⟨hr.make l obj (f := fun e s => s ++ [e]) hl hw fun e d hd => ?_, rfl⟩
          exact (List.mem_append.mp hd).symm.imp_left List.mem_singleton.mp
      | some item => exact ⟨hr.step_list_insert l obj hop hfirst, rfl⟩
  | erase l item =>
      obtain ⟨s, e, t, hseq, rfl, hs, ht⟩ := (hr.holds (.inl l)).split hop
      have hremove := hr.remove l hseq
      have hl := hr.holds (.inl l)
      rw [hseq] at hl
      have hnext := (holds_erase hl).2.2
      have hfilter := filter_middle (p := fun d => d.id ≠ e.id) (e := e)
        (fun d hd => decide_eq_true (hs d hd)) (by simp) fun d hd => decide_eq_true (ht d hd)
      refine ⟨?_, ?_⟩
      · change Rep _ (S.put (.inl l) ((S.seq (.inl l)).filter fun d => d.id ≠ e.id))
        rw [hseq, hfilter]
        exact hremove
      · change Ret.item (w.heap.next e.id) = .item (following e.id (S.seq (.inl l)))
        rw [hnext, hseq, following_append hs rfl]
  | popFront l =>
      have hl := hr.holds (.inl l)
      cases hseq : S.seq (.inl l) with
      | nil =>
          rw [hseq] at hl
          have hpop : w.step (.popFront l) = (w, .value none) := by
            have hnone : (w.list l).popFront w.heap = ((w.heap, w.list l), none) := by
              unfold LinkedList.popFront
              rw [show (w.list l).front = none from hl.1.front]
            change (w.putList l ((w.list l).popFront w.heap).1,
              Ret.value ((w.list l).popFront w.heap).2) = _
            rw [hnone]
            exact congrArg (·, Ret.value none) w.putList_self
          have hpop' : S.step (.popFront l) = (S, .value none) := by
            rw [Seqs.step, hseq]
            exact congrArg (·, Ret.value none) (S.put_self hseq)
          rw [hpop, hpop']
          exact ⟨hr, rfl⟩
      | cons e t =>
          rw [hseq] at hl
          have hpop : w.step (.popFront l) =
              (w.putList l ((w.list l).erase w.heap e.id), .value (some e.value)) := by
            change (w.putList l ((w.list l).popFront w.heap).1,
              Ret.value ((w.list l).popFront w.heap).2) = _
            rw [show (w.list l).popFront w.heap = _ from popFront_cons hl]
          have hpop' : S.step (.popFront l) = (S.put (.inl l) t, .value (some e.value)) := by
            rw [Seqs.step, hseq]
            rfl
          rw [hpop, hpop']
          exact ⟨hr.remove l (s := []) hseq, rfl⟩
  | popBack l =>
      have hl := hr.holds (.inl l)
      rcases List.eq_nil_or_concat' (S.seq (.inl l)) with hseq | ⟨s, e, hseq⟩
      · rw [hseq] at hl
        have hpop : w.step (.popBack l) = (w, .value none) := by
          have hnone : (w.list l).popBack w.heap = ((w.heap, w.list l), none) := by
            unfold LinkedList.popBack
            rw [show (w.list l).back = none from hl.1.back]
          change (w.putList l ((w.list l).popBack w.heap).1,
            Ret.value ((w.list l).popBack w.heap).2) = _
          rw [hnone]
          exact congrArg (·, Ret.value none) w.putList_self
        have hpop' : S.step (.popBack l) = (S, .value none) := by
          rw [Seqs.step, hseq]
          exact congrArg (·, Ret.value none) (S.put_self hseq)
        rw [hpop, hpop']
        exact ⟨hr, rfl⟩
      · rw [hseq] at hl
        have hpop : w.step (.popBack l) =
            (w.putList l ((w.list l).erase w.heap e.id), .value (some e.value)) := by
          change (w.putList l ((w.list l).popBack w.heap).1,
            Ret.value ((w.list l).popBack w.heap).2) = _
          rw [show (w.list l).popBack w.heap = _ from popBack_concat hl]
        have hpop' : S.step (.popBack l) = (S.put (.inl l) s, .value (some e.value)) := by
          rw [Seqs.step, hseq, List.dropLast_concat, List.getLast?_concat]
          rfl
        have hremove := hr.remove l (t := []) hseq
        rw [List.append_nil] at hremove
        rw [hpop, hpop']
        exact ⟨hremove, rfl⟩
  | mergeFront l other =>
      obtain ⟨hl, hnew, hw⟩ := holds_mergeFront (hr.holds (.inl other)) (hr.holds (.inl l))
        (hr.stored.apart _ _ fun h => hop (Sum.inl.inj h).symm)
      exact ⟨hr.merge hop hl hnew hw fun e he => (List.mem_append.mp he).symm, rfl⟩
  | mergeBack l other =>
      obtain ⟨hl, hnew, hw⟩ := holds_mergeBack (hr.holds (.inl l)) (hr.holds (.inl other))
        (hr.stored.apart _ _ fun h => hop (Sum.inl.inj h))
      exact ⟨hr.merge hop hl hnew hw fun e he => List.mem_append.mp he, rfl⟩
  | mapPushFront m key value =>
      obtain ⟨hl, hw⟩ := holds_pushFront (hr.holds (.inr m)) value
      refine hr.step_tryMake m key value rfl fun hkey => ?_
      exact hr.enter m hkey value (s := []) rfl hl hw hl.1.front fun e _ => rfl
  | mapPushBack m key value =>
      obtain ⟨hl, hw⟩ := holds_pushBack (hr.holds (.inr m)) value
      refine hr.step_tryMake m key value rfl fun hkey => ?_
      refine hr.enter m hkey value (t := []) (List.append_nil _).symm hl hw ?_ fun e _ => ?_
      · exact hl.1.back.trans (by rw [List.getLast?_map, List.getLast?_concat, Option.map_some])
      · rw [List.append_nil]
  | mapInsert m key value item =>
      by_cases hkey : key ∈ S.keys m
      · exact hr.step_tryMake m key value rfl fun hnot => absurd hkey hnot
      · obtain ⟨s, e, t, hseq, rfl, hs, hne⟩ := hr.split_after hop fun h => hfirst ⟨h, hkey⟩
        have hl := hr.holds (.inr m)
        rw [hseq] at hl
        obtain ⟨hh, hw⟩ := holds_insert hl hne value
        rw [← hseq] at hw
        have hprev := hh.1.seg
        rw [List.map_append, Lib.Links.seg_append] at hprev
        refine hr.step_tryMake m key value rfl fun _ => ?_
        refine hr.enter m hkey value hseq hh hw hprev.2.2.2.1 fun n _ => ?_
        exact insertBefore_append hs rfl n
  | mapErase m key =>
      cases hmap : (w.listmap m).map key with
      | none =>
          have hnone : ∀ e ∈ S.seq (.inr m), e.key ≠ some key := by
            intro e he hkey
            have := (hr.mapped m key e.id).mpr ⟨e, he, rfl, hkey⟩
            rw [hmap] at this
            cases this
          have herase : w.step (.mapErase m key) = (w, .nothing) := by
            rw [World.step, ListMap.erase, hmap]
            exact congrArg (·, Ret.nothing) w.putMap_self
          have herase' : S.step (.mapErase m key) = (S, .nothing) := by
            rw [Seqs.step, List.filter_eq_self.mpr fun e he => decide_eq_true (hnone e he)]
            exact congrArg (·, Ret.nothing) (S.put_self rfl)
          rw [herase, herase']
          exact ⟨hr, rfl⟩
      | some item =>
          obtain ⟨e, he, rfl, hkey⟩ := (hr.mapped m key item).mp hmap
          obtain ⟨s, t, hseq⟩ := List.append_of_mem he
          have hother (d : Entry κ α) (hd : d ∈ s ++ t) : d.key ≠ some key := by
            intro hdk
            have hin : d ∈ S.seq (.inr m) := by
              rw [hseq]
              rcases List.mem_append.mp hd with hd | hd
              · exact List.mem_append_left _ hd
              · exact List.mem_append_right _ (List.mem_cons_of_mem _ hd)
            obtain rfl := hr.key_inj hin he hdk hkey
            have hnodup := (hr.holds (.inr m)).1.nodup
            rw [hseq, List.map_append, List.map_cons, List.nodup_middle,
              ← List.map_append] at hnodup
            exact (List.nodup_cons.mp hnodup).1 (List.mem_map_of_mem hd)
          have herase : w.step (.mapErase m key) =
              (w.putMap m (((w.listmap m).list.erase w.heap e.id).1,
                ⟨((w.listmap m).list.erase w.heap e.id).2,
                  Function.update (w.listmap m).map key none⟩), .nothing) := by
            rw [World.step, ListMap.erase, hmap]
          have hfilter := filter_middle (p := fun d => d.key ≠ some key) (e := e)
            (fun d hd => decide_eq_true (hother d (List.mem_append_left _ hd)))
            (by simp [hkey]) fun d hd => decide_eq_true (hother d (List.mem_append_right _ hd))
          have herase' : S.step (.mapErase m key) = (S.put (.inr m) (s ++ t), .nothing) := by
            rw [Seqs.step, hseq, hfilter]
          rw [herase, herase']
          exact ⟨hr.leave m hseq hkey, rfl⟩
  | mapSet m key value => exact ⟨hr.set m key value, rfl⟩
  | mapPopFront m =>
      have hl := hr.holds (.inr m)
      cases hseq : S.seq (.inr m) with
      | nil =>
          rw [hseq] at hl
          have hpop : w.step (.mapPopFront m) = (w, .raised) := by
            rw [World.step, ListMap.popFront, show (w.listmap m).list.front = none from hl.1.front]
            rfl
          have hpop' : S.step (.mapPopFront m) = (S, .raised) := by
            rw [Seqs.step, hseq]
            rfl
          rw [hpop, hpop']
          exact ⟨hr, rfl⟩
      | cons e t =>
          rw [hseq] at hl
          have hpop := hr.pop m (s := []) hseq (f := (w.listmap m).list.popFront)
            (congrArg Prod.fst (popFront_cons hl))
          have hfront : (w.listmap m).list.front = some e.id := hl.1.front
          rw [World.step, Seqs.step, ListMap.popFront, hfront, hseq]
          exact hpop
  | mapPopBack m =>
      have hl := hr.holds (.inr m)
      rcases List.eq_nil_or_concat' (S.seq (.inr m)) with hseq | ⟨s, e, hseq⟩
      · rw [hseq] at hl
        have hpop : w.step (.mapPopBack m) = (w, .raised) := by
          rw [World.step, ListMap.popBack, show (w.listmap m).list.back = none from hl.1.back]
          rfl
        have hpop' : S.step (.mapPopBack m) = (S, .raised) := by
          rw [Seqs.step, hseq]
          rfl
        rw [hpop, hpop']
        exact ⟨hr, rfl⟩
      · rw [hseq] at hl
        have hpop := hr.pop m (t := []) hseq (f := (w.listmap m).list.popBack)
          (congrArg Prod.fst (popBack_concat hl))
        rw [List.append_nil] at hpop
        have hback : (w.listmap m).list.back = some e.id :=
          hl.1.back.trans (by rw [List.getLast?_map, List.getLast?_concat, Option.map_some])
        rw [World.step, Seqs.step, ListMap.popBack, hback, hseq, List.dropLast_concat,
          List.getLast?_concat]
        exact hpop

omit [DecidableEq ι] [DecidableEq τ] [DecidableEq κ] in
theorem faithful (hr : Rep w S) : Faithful w S where
  forward o n hn := (hr.holds o).pairs hn
  backward o n hn := (hr.holds o).rpairs hn
  ends o := by
    rw [(hr.holds o).1.front, (hr.holds o).1.back, List.head?_eq_none_iff,
      List.getLast?_eq_none_iff]
  live m k a ha := by
    obtain ⟨e, he, rfl, hk⟩ := (hr.mapped m k a).mp ha
    exact ⟨e, he, rfl, hk, (hr.holds (.inr m)).2 e he⟩
  mapped m k := by
    rintro ⟨e, he, hk⟩
    exact Option.isSome_of_mem ((hr.mapped m k e.id).mpr ⟨e, he, rfl, hk⟩)
  keyed := hr.keyed
  keys m := by
    have hnodup : (S.seq (.inr m)).Nodup := List.Nodup.of_map _ (hr.holds (.inr m)).1.nodup
    refine List.pairwise_filterMap.mpr (hnodup.imp_of_mem fun hd he hne k hk k' hk' heq => ?_)
    exact hne (hr.key_inj hd he hk (heq ▸ hk'))

end Rep

theorem front_of_pairs {h : Heap κ α} {l : LinkedList} {n : Nat} {p : Nat × α}
    {rest : List (Nat × α)} (hl : l.pairs h n = some (p :: rest)) : l.front = some p.1 := by
  unfold LinkedList.pairs at hl
  cases hfront : l.front with
  | none =>
      rw [hfront] at hl
      cases n <;> cases hl
  | some a =>
      cases n with
      | zero =>
          rw [hfront] at hl
          cases hl
      | succ n =>
          rw [hfront, Lib.Links.walk] at hl
          obtain ⟨as, has, hmap⟩ := Option.bind_eq_some_iff.mp hl
          obtain ⟨as', -, rfl⟩ := Option.map_eq_some_iff.mp has
          rw [List.mapM_cons] at hmap
          obtain ⟨q, hq, hmap⟩ := Option.bind_eq_some_iff.mp hmap
          obtain ⟨qs, -, hcons⟩ := Option.bind_eq_some_iff.mp hmap
          obtain ⟨rfl, -⟩ := List.cons.inj (Option.some.inj hcons)
          obtain ⟨it, -, rfl⟩ := Option.map_eq_some_iff.mp hq
          rfl

theorem insert_front (h : Heap κ α) (l : LinkedList) (obj : α) (item : Nat) :
    (l.insert h obj (some item)).2 = l := by
  unfold LinkedList.insert
  dsimp only
  split <;> rfl

theorem insertBefore_head {item : Nat} {s : List (Entry κ α)} (n : Entry κ α)
    (hs : (s.map Entry.id).head? = some item) : insertBefore item n s = n :: s := by
  cases s with
  | nil => cases hs
  | cons e s => exact if_pos (Option.some.inj hs)

omit [DecidableEq ι] [DecidableEq τ] in
theorem Rep.not_forward (hr : Rep w S) {w' : World ι τ κ α} {S' : Seqs ι τ κ α} {o : ι ⊕ τ}
    {e : Entry κ α} (hfront : (w'.ends o).front = (w.ends o).front) (he : e.id = S.made)
    (hseq : S'.seq o = e :: S.seq o) (hne : S.seq o ≠ []) : ¬Faithful w' S' := by
  intro hw
  have hpairs := hw.forward o _ (Nat.le_refl _)
  rw [hseq, List.map_cons] at hpairs
  have hnew := front_of_pairs hpairs
  obtain ⟨d, s, hs⟩ := List.exists_cons_of_ne_nil hne
  have hl := hr.holds o
  rw [hs] at hl
  have hold : (w.ends o).front = some d.id := hl.1.front
  have hd : d.id < w.heap.length := hl.1.bound d.id List.mem_cons_self
  rw [hfront, hold] at hnew
  rw [Option.some.inj hnew, he, hr.made] at hd
  exact Nat.lt_irrefl _ hd

variable [DecidableEq κ]

theorem Rep.step_beforeFront (hr : Rep w S) {op : Op ι τ κ α} (hfirst : S.BeforeFront op) :
    ¬Faithful (w.step op).1 (S.step op).1 := by
  have hne {o : ι ⊕ τ} {item : Nat} (h : (S.ids o).head? = some item) : S.seq o ≠ [] := by
    intro hnil
    rw [Seqs.ids, hnil] at h
    cases h
  cases op with
  | insert l obj where? =>
      cases where? with
      | none => exact absurd hfirst id
      | some item =>
          refine hr.not_forward (o := .inl l) (e := ⟨S.made, obj, none⟩) ?_ rfl ?_ (hne hfirst)
          · change ((w.putList l
              ((w.list l).insert w.heap obj (some item))).ends (.inl l)).front = _
            rw [ends_putList, Function.update_self, insert_front]
            rfl
          · change Function.update S.seq (.inl l) _ (.inl l) = _
            rw [Function.update_self]
            exact insertBefore_head _ hfirst
  | mapInsert m key value item =>
      obtain ⟨hfirst, hkey⟩ := hfirst
      have hmap : ¬((w.listmap m).map key).isSome := fun h => hkey ((hr.mem_keys m key).mpr h)
      refine hr.not_forward (o := .inr m) (e := ⟨S.made, value, some key⟩) ?_ rfl ?_ (hne hfirst)
      · change ((w.tryMap m
          ((w.listmap m).insert w.heap key value item)).1.ends (.inr m)).front = _
        unfold ListMap.insert
        rw [if_neg hmap]
        change ((w.putMap m _).ends (.inr m)).front = _
        rw [ends_putMap, Function.update_self]
        unfold ListMap.enter
        split <;> exact congrArg LinkedList.front (insert_front _ _ _ _)
      · change (S.tryMake m key value (insertBefore item)).1.seq (.inr m) = _
        unfold Seqs.tryMake
        rw [if_neg hkey]
        change Function.update S.seq (.inr m) _ (.inr m) = _
        rw [Function.update_self]
        exact insertBefore_head _ hfirst
  | _ => exact absurd hfirst id

theorem Rep.run_iff (hr : Rep w S) {ops : List (Op ι τ κ α)} (hops : S.AllowsAll ops) :
    (∀ done, done <+: ops → Faithful (w.run done).1 (S.run done).1 ∧
      (w.run done).2 = (S.run done).2) ↔ S.NeverBeforeFront ops := by
  induction ops generalizing w S with
  | nil =>
      refine iff_of_true (fun done hdone => ?_) trivial
      obtain rfl := List.prefix_nil.mp hdone
      exact ⟨hr.faithful, rfl⟩
  | cons op ops ih =>
      obtain ⟨hop, hops⟩ := hops
      constructor
      · intro h
        have hfirst : ¬S.BeforeFront op := by
          intro hfirst
          exact hr.step_beforeFront hfirst (h [op] ⟨ops, rfl⟩).1
        refine ⟨hfirst, (ih (hr.step hop hfirst).1 hops).mp fun done hdone => ?_⟩
        obtain ⟨hw, hret⟩ := h (op :: done) (List.cons_prefix_cons.mpr ⟨rfl, hdone⟩)
        exact ⟨hw, (List.cons.inj hret).2⟩
      · rintro ⟨hfirst, hrest⟩ done hdone
        obtain ⟨hstep, hret⟩ := hr.step hop hfirst
        cases done with
        | nil => exact ⟨hr.faithful, rfl⟩
        | cons op' done =>
            obtain ⟨rfl, hrest'⟩ := List.cons_prefix_cons.mp hdone
            obtain ⟨hw, hrets⟩ := (ih hstep hops).mpr hrest done hrest'
            exact ⟨hw, congrArg₂ List.cons hret hrets⟩

/-- Calls on empty lists and listmaps do what they do to the sequences, and return the same,
up to the first that inserts an item before the first one: it is not traversed. -/
theorem faithful_run_iff (ops : List (Op ι τ κ α))
    (hops : (Seqs.new : Seqs ι τ κ α).AllowsAll ops) :
    (∀ done, done <+: ops →
      Faithful ((World.new : World ι τ κ α).run done).1 (Seqs.new.run done).1 ∧
        ((World.new : World ι τ κ α).run done).2 = (Seqs.new.run done).2) ↔
      (Seqs.new : Seqs ι τ κ α).NeverBeforeFront ops :=
  rep_new.run_iff hops

end World

/-- Two lists are merged, an item is made between theirs, and one is taken from each end. -/
theorem faithful_run_merged :
    let ops : List (Op Bool Unit Nat Char) := [.pushBack true 'a', .pushFront false 'b',
      .mergeFront true false, .insert true 'c' (some 0), .popFront true, .popBack true]
    ∀ done, done <+: ops →
      Faithful ((World.new : World Bool Unit Nat Char).run done).1 (Seqs.new.run done).1 ∧
        ((World.new : World Bool Unit Nat Char).run done).2 = (Seqs.new.run done).2 :=
  (faithful_run_iff _ (by simp [Seqs.AllowsAll, Seqs.Allows, Seqs.step, Seqs.make, Seqs.put,
    Seqs.new, Seqs.ids])).mpr (by simp [Seqs.NeverBeforeFront, Seqs.BeforeFront, Seqs.step,
      Seqs.make, Seqs.put, Seqs.new, Seqs.ids])

/-- An item inserted before the only one is met from the back, and not from the front. -/
theorem insert_before_front :
    let ops : List (Op Unit Unit Nat Char) := [.pushBack () 'a', .insert () 'b' (some 0)]
    let w := ((World.new : World Unit Unit Nat Char).run ops).1
    let S := ((Seqs.new : Seqs Unit Unit Nat Char).run ops).1
    Seqs.new.AllowsAll ops ∧ (S.seq (.inl ())).map Entry.value = ['b', 'a'] ∧
      (w.list ()).pairs w.heap 2 = some [(0, 'a')] ∧
      (w.list ()).rpairs w.heap 2 = some [(0, 'a'), (1, 'b')] ∧ ¬Faithful w S := by
  intro ops w S
  have hpairs : (w.list ()).pairs w.heap 2 = some [(0, 'a')] := rfl
  refine ⟨⟨trivial, List.mem_singleton.mpr rfl, trivial⟩, rfl, hpairs, rfl, fun hw => ?_⟩
  cases hpairs.symm.trans (hw.forward (.inl ()) 2 (Nat.le_refl 2))

end JyQipai.Basefunc
