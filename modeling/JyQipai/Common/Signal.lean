import JyQipai.Common.ListRuns
import Mathlib.Logic.Function.Iterate

/-!
# Signals

A signal keeps its receivers in a listmap.  `trigger` calls the receiver of an item and goes on
to the next item only then, so the receivers may change in between.  What a called function
does is the changes that it makes until it ends or raises an error; a signal that is triggered
again within a call is changed by the functions that this calls.
-/

namespace JyQipai.Basefunc

variable {κ α : Type} [DecidableEq κ]

/-- `basefunc.signal`, with the counter of `bind` for receivers without a key -/
structure Signal (κ α : Type) where
  recviers : World Empty Unit κ α := World.new
  nextObjKey : Nat := 0

inductive Change (κ α : Type) where
  | bind (obj : κ) (func : α)
  /-- without a key -/
  | bindFunc (func : α)
  | unbind (obj : κ)
  | alterconnect (obj : κ) (func : α)
  deriving DecidableEq

namespace Signal

def heap (s : Signal κ α) : Heap κ α := s.recviers.heap

def map (s : Signal κ α) : κ → Option Nat := (s.recviers.listmap ()).map

def front (s : Signal κ α) : Option Nat := (s.recviers.listmap ()).list.front

def call (s : Signal κ α) (op : Op Empty Unit κ α) : Signal κ α :=
  { s with recviers := (s.recviers.step op).1 }

def bind (s : Signal κ α) (obj : κ) (func : α) : Signal κ α :=
  if (s.map obj).isSome then s.call (.mapSet () obj func) else s.call (.mapPushBack () obj func)

/-- `objKey n` is the text `_obj_key_n`. -/
def change (objKey : Nat → κ) (s : Signal κ α) : Change κ α → Signal κ α
  | .bind obj func => s.bind obj func
  | .bindFunc func =>
      { s with nextObjKey := s.nextObjKey + 1 }.bind (objKey (s.nextObjKey + 1)) func
  | .unbind obj => s.call (.mapErase () obj)
  | .alterconnect obj func => s.call (.mapSet () obj func)

def IsBound (s : Signal κ α) (item : Nat) : Prop :=
  ∃ it ∈ s.heap[item]?, ∃ obj ∈ it.key, s.map obj = some item

instance (s : Signal κ α) : DecidablePred s.IsBound := fun item => by
  unfold IsBound
  infer_instance

end Signal

structure Call where
  item : Nat
  bound : Bool
  deriving DecidableEq

structure Firing (κ α : Type) where
  signal : Signal κ α
  cur : Option Nat := none
  pending : List (Change κ α) := []
  called : List Call := []

namespace Firing

/-- The function of an item is called, or the loop ends.  The functions are given by what they
do when they are called, after a number of other calls. -/
def callItem (react : Nat → Option α → List (Change κ α)) (s : Firing κ α) :
    Option Nat → Firing κ α
  | none => { s with cur := none }
  | some item =>
      { s with
        cur := some item
        pending := react s.called.length (s.signal.heap[item]?.map Item.value)
        called := s.called ++ [⟨item, s.signal.IsBound item⟩] }

def start (react : Nat → Option α → List (Change κ α)) (signal : Signal κ α) : Firing κ α :=
  callItem react { signal } signal.front

def step (objKey : Nat → κ) (react : Nat → Option α → List (Change κ α)) (s : Firing κ α) :
    Firing κ α :=
  match s.pending with
  | change :: rest => { s with signal := s.signal.change objKey change, pending := rest }
  | [] => s.callItem react (s.cur.bind s.signal.heap.next)

def after (objKey : Nat → κ) (react : Nat → Option α → List (Change κ α)) (signal : Signal κ α)
    (n : Nat) : Firing κ α := (step objKey react)^[n] (start react signal)

def Misses (s : Firing κ α) : Prop :=
  ∃ cur ∈ s.cur, ¬s.signal.IsBound cur ∧
    ∃ obj, s.pending.head? = some (.unbind obj) ∧ ∃ item ∈ s.signal.map obj,
      s.signal.heap.next cur = some item

end Firing

/-! ## One change -/

omit [DecidableEq κ] in
theorem Heap.next_setValue (h : Heap κ α) (item : Nat) (v : α) (a : Nat) :
    (h.setValue item v).next a = h.next a := by
  unfold Heap.next Heap.setValue
  rw [List.getElem?_modify]
  split <;> cases h[a]? <;> rfl

omit [DecidableEq κ] in
theorem next_erase_self {h : Heap κ α} {l : LinkedList} {s t : List (Entry κ α)} {e : Entry κ α}
    (hl : Holds h l (s ++ e :: t)) : (l.erase h e.id).1.next e.id = h.next e.id := by
  have hseg := hl.1.seg
  rw [List.map_append, Lib.Links.seg_append, List.map_cons, Lib.Links.seg_cons] at hseg
  obtain ⟨-, hprev, hnext, -⟩ := hseg
  rw [Option.or_none, Heap.links_prev] at hprev
  rw [Option.or_none, Heap.links_next] at hnext
  have hnodup := hl.1.nodup
  rw [List.map_append, List.map_cons, List.nodup_middle, List.nodup_cons, List.mem_append,
    not_or] at hnodup
  have hp : h.prev e.id ≠ some e.id := by
    intro heq
    exact hnodup.1.1 (List.mem_of_getLast? (hprev.symm.trans heq))
  have hq : h.next e.id ≠ some e.id := by
    intro heq
    exact hnodup.1.2 (List.mem_of_head? (hnext.symm.trans heq))
  rw [erase_eq rfl rfl hp, Heap.next, Heap.getElem?_setPrev?_of_ne hq,
    Heap.getElem?_setNext?_of_ne hp]
  rfl

/-- The signal has the receivers `ids`, the newest last, and links lead to newer items. -/
structure Receivers (s : Signal κ α) (ids : List Nat) : Prop where
  rep : ∃ S, Rep s.recviers S ∧ S.ids (.inr ()) = ids
  sorted : ids.Pairwise (· < ·)
  ascends : ∀ a b, s.heap.next a = some b → a < b ∧ b < s.heap.length

structure Changed (s t : Signal κ α) (change : Change κ α) (ids ids' : List Nat) : Prop where
  length : s.heap.length ≤ t.heap.length
  frozen : ∀ a < s.heap.length, a ∉ ids' → t.heap.next a = s.heap.next a
  fresh : ∀ a ∈ ids', a ∈ ids ∨ s.heap.length ≤ a
  left : ∀ a ∈ ids, a ∉ ids' → ∃ obj, change = .unbind obj ∧ s.map obj = some a

namespace Receivers

variable {s t : Signal κ α} {ids : List Nat} {a b : Nat}

omit [DecidableEq κ] in
theorem held (h : Receivers s ids) : Held s.heap (s.recviers.listmap ()).list ids := by
  obtain ⟨S, hrep, rfl⟩ := h.rep
  exact (hrep.holds (.inr ())).1

omit [DecidableEq κ] in
theorem lt (h : Receivers s ids) (ha : a ∈ ids) : a < s.heap.length := h.held.bound a ha

omit [DecidableEq κ] in
theorem isBound_iff (h : Receivers s ids) : s.IsBound a ↔ a ∈ ids := by
  obtain ⟨S, hrep, rfl⟩ := h.rep
  constructor
  · rintro ⟨it, -, obj, -, hobj⟩
    obtain ⟨e, he, rfl, -⟩ := (hrep.mapped () obj a).mp hobj
    exact List.mem_map_of_mem he
  · intro ha
    obtain ⟨e, he, rfl⟩ := List.mem_map.mp ha
    obtain ⟨obj, hobj⟩ := Option.isSome_iff_exists.mp (hrep.keyed () e he)
    obtain ⟨it, hit, -, hkey⟩ := Heap.entry_eq ((hrep.holds (.inr ())).2 e he)
    exact ⟨it, hit, obj, hkey.trans hobj, (hrep.mapped () obj e.id).mpr ⟨e, he, rfl, hobj⟩⟩

omit [DecidableEq κ] in
theorem next_eq (h : Receivers s ids) {l r : List Nat} (hids : ids = l ++ a :: r) :
    s.heap.next a = r.head? := by
  have hseg := h.held.seg
  rw [hids, Lib.Links.seg_append] at hseg
  exact hseg.2.2.1.trans (Option.or_none ..)

omit [DecidableEq κ] in
theorem next_mem (h : Receivers s ids) (ha : a ∈ ids) (hnext : s.heap.next a = some b) :
    b ∈ ids := by
  obtain ⟨l, r, hids⟩ := List.append_of_mem ha
  rw [h.next_eq hids] at hnext
  rw [hids]
  exact List.mem_append_right _ (List.mem_cons_of_mem _ (List.mem_of_head? hnext))

omit [DecidableEq κ] in
theorem next_le (h : Receivers s ids) (ha : a ∈ ids) (hb : b ∈ ids) (hlt : a < b) :
    ∃ c ∈ ids, s.heap.next a = some c ∧ a < c ∧ c ≤ b := by
  obtain ⟨l, r, hids⟩ := List.append_of_mem ha
  have hnext := h.next_eq hids
  have hsorted := h.sorted
  rw [hids, List.pairwise_append, List.pairwise_cons] at hsorted
  obtain ⟨-, ⟨hr, hsorted⟩, hl⟩ := hsorted
  have hbr : b ∈ r := by
    rw [hids] at hb
    rcases List.mem_append.mp hb with hb | hb
    · exact absurd (hl b hb a List.mem_cons_self) (Nat.lt_asymm hlt)
    · exact (List.mem_cons.mp hb).resolve_left (Nat.ne_of_gt hlt)
  cases r with
  | nil => cases hbr
  | cons c r =>
      refine ⟨c, ?_, hnext, hr c List.mem_cons_self, ?_⟩
      · rw [hids]
        exact List.mem_append_right _ (List.mem_cons_of_mem _ List.mem_cons_self)
      · rcases List.mem_cons.mp hbr with rfl | hbr
        · exact Nat.le_refl _
        · exact Nat.le_of_lt ((List.pairwise_cons.mp hsorted).1 b hbr)

omit [DecidableEq κ] in
theorem new : Receivers ({} : Signal κ α) [] where
  rep := ⟨Seqs.new, rep_new, rfl⟩
  sorted := .nil
  ascends := by
    intro a b h
    cases h

/-! ### Changes -/

omit [DecidableEq κ] in
theorem of_changed {change : Change κ α} {ids' : List Nat} (h : Receivers s ids)
    (hrep : ∃ S, Rep t.recviers S ∧ S.ids (.inr ()) = ids') (hsorted : ids'.Pairwise (· < ·))
    (hnew : ∀ a, s.heap.length ≤ a → a < t.heap.length → a ∈ ids')
    (hchange : Changed s t change ids ids') : Receivers t ids' where
  rep := hrep
  sorted := hsorted
  ascends := by
    intro a b hab
    have hheld : Held t.heap (t.recviers.listmap ()).list ids' := by
      obtain ⟨S, hr, rfl⟩ := hrep
      exact (hr.holds (.inr ())).1
    by_cases ha : a ∈ ids'
    · obtain ⟨l, r, hids⟩ := List.append_of_mem ha
      have hseg := hheld.seg
      rw [hids, Lib.Links.seg_append] at hseg
      have hnext : r.head? = some b := (hseg.2.2.1.trans (Option.or_none ..)).symm.trans hab
      have hb := List.mem_of_head? hnext
      rw [hids, List.pairwise_append, List.pairwise_cons] at hsorted
      refine ⟨hsorted.2.1.1 b hb, hheld.bound b ?_⟩
      rw [hids]
      exact List.mem_append_right _ (List.mem_cons_of_mem _ hb)
    · have hlt : a < s.heap.length := by
        by_contra hge
        refine ha (hnew a (Nat.not_lt.mp hge) ?_)
        by_contra hout
        rw [Heap.next, List.getElem?_eq_none (Nat.not_lt.mp hout)] at hab
        cases hab
      rw [hchange.frozen a hlt ha] at hab
      have hasc := h.ascends a b hab
      exact ⟨hasc.1, Nat.lt_of_lt_of_le hasc.2 hchange.length⟩

theorem set (h : Receivers s ids) (change : Change κ α) (obj : κ) (func : α) :
    Receivers (s.call (.mapSet () obj func)) ids ∧
      Changed s (s.call (.mapSet () obj func)) change ids ids := by
  obtain ⟨S, hrep, hids⟩ := h.rep
  have hlen : (s.call (.mapSet () obj func)).heap.length = s.heap.length := by
    change ((s.recviers.listmap ()).set s.recviers.heap obj func).length = s.heap.length
    unfold ListMap.set
    split
    · exact List.length_modify ..
    · rfl
  have hnext : ∀ a, (s.call (.mapSet () obj func)).heap.next a = s.heap.next a := by
    intro a
    change ((s.recviers.listmap ()).set s.recviers.heap obj func).next a = s.heap.next a
    unfold ListMap.set
    split
    · exact Heap.next_setValue ..
    · rfl
  have hchange : Changed s (s.call (.mapSet () obj func)) change ids ids := {
    length := Nat.le_of_eq hlen.symm
    frozen := fun a _ _ => hnext a
    fresh := fun a ha => .inl ha
    left := fun a ha hnot => absurd ha hnot }
  have hallows : S.Allows (.mapSet () obj func) := trivial
  have hstep := (hrep.step hallows id).1
  refine ⟨of_changed h ⟨_, hstep, ?_⟩ h.sorted ?_ hchange, hchange⟩
  · rw [← hids, Seqs.step, Seqs.ids, Seqs.put]
    dsimp only
    rw [Function.update_self, List.map_map]
    refine List.map_congr_left fun e _ => ?_
    change (if e.key = some obj then _ else _ : Entry κ α).id = e.id
    split <;> rfl
  · intro a hle hlt
    exact absurd (hlen ▸ hlt) (Nat.not_lt.mpr hle)

theorem pushBack (h : Receivers s ids) (change : Change κ α) (obj : κ) (func : α)
    (hobj : s.map obj = none) :
    Receivers (s.call (.mapPushBack () obj func)) (ids ++ [s.heap.length]) ∧
      Changed s (s.call (.mapPushBack () obj func)) change ids (ids ++ [s.heap.length]) := by
  obtain ⟨S, hrep, hids⟩ := h.rep
  have hkey : obj ∉ S.keys () := by
    intro hin
    have hsome := (hrep.mem_keys () obj).mp hin
    rw [show (s.recviers.listmap ()).map obj = none from hobj] at hsome
    cases hsome
  obtain ⟨hl, hw⟩ := holds_pushBack (hrep.holds (.inr ())) func
  have hback : ((s.recviers.listmap ()).list.pushBack s.recviers.heap func).2.back =
      some s.heap.length := by
    refine hl.1.back.trans ?_
    rw [List.getLast?_map, List.getLast?_concat]
    rfl
  have hcall : (s.call (.mapPushBack () obj func)).heap =
      (((s.recviers.listmap ()).list.pushBack s.recviers.heap func).1).setKey s.heap.length
        obj := by
    change (s.recviers.tryMap () ((s.recviers.listmap ()).pushBack s.recviers.heap obj func)).1.heap
      = _
    rw [ListMap.pushBack, show (s.recviers.listmap ()).map obj = none from hobj, Option.isSome_none,
      if_neg Bool.false_ne_true]
    unfold ListMap.enter
    dsimp only
    rw [hback]
    rfl
  have hlen : (s.call (.mapPushBack () obj func)).heap.length = s.heap.length + 1 := by
    rw [hcall]
    exact (List.length_modify ..).trans hw.length
  have hchange : Changed s (s.call (.mapPushBack () obj func)) change ids
      (ids ++ [s.heap.length]) := {
    length := hlen ▸ Nat.le_succ _
    frozen := by
      intro a ha hnot
      have hout : a ∉ S.ids (.inr ()) := by
        rw [hids]
        exact fun hin => hnot (List.mem_append_left _ hin)
      rw [hcall, Heap.next, Heap.setKey, List.getElem?_modify_ne _ _ (Nat.ne_of_gt ha)]
      exact congrArg (·.bind Item.next) (hw.same a ha hout)
    fresh := by
      intro a ha
      rcases List.mem_append.mp ha with ha | ha
      · exact .inl ha
      · exact .inr (Nat.le_of_eq (List.mem_singleton.mp ha).symm)
    left := fun a ha hnot => absurd (List.mem_append_left _ ha) hnot }
  have hallows : S.Allows (.mapPushBack () obj func) := trivial
  have hstep := (hrep.step hallows id).1
  refine ⟨of_changed h ⟨_, hstep, ?_⟩ ?_ ?_ hchange, hchange⟩
  · rw [Seqs.step, Seqs.tryMake, if_neg hkey, Seqs.ids, Seqs.make, Seqs.put]
    dsimp only
    rw [Function.update_self, List.map_append, hrep.made, ← hids]
    rfl
  · refine List.pairwise_append.mpr ⟨h.sorted, List.pairwise_singleton .., fun a ha b hb => ?_⟩
    rw [List.mem_singleton.mp hb]
    exact h.lt ha
  · intro a hle hlt
    rw [hlen] at hlt
    exact List.mem_append_right _ (List.mem_singleton.mpr (by omega))

theorem mapErase (h : Receivers s ids) (obj : κ) :
    ∃ ids', Receivers (s.call (.mapErase () obj)) ids' ∧
      Changed s (s.call (.mapErase () obj)) (.unbind obj) ids ids' ∧
      ∀ a, s.map obj = some a → a ∉ ids' := by
  obtain ⟨S, hrep, hids⟩ := h.rep
  have hallows : S.Allows (.mapErase () obj) := trivial
  have hstep := (hrep.step hallows id).1
  let rest := (S.seq (.inr ())).filter (·.key ≠ some obj)
  have hsub : (rest.map Entry.id).Sublist ids := by
    rw [← hids]
    exact List.filter_sublist.map _
  have hrest : ((S.step (.mapErase () obj)).1).ids (.inr ()) = rest.map Entry.id := by
    rw [Seqs.step, Seqs.ids, Seqs.put]
    dsimp only
    rw [Function.update_self]
  have hleft : ∀ a ∈ ids, a ∉ rest.map Entry.id → s.map obj = some a := by
    intro a ha hnot
    rw [← hids] at ha
    obtain ⟨e, he, rfl⟩ := List.mem_map.mp ha
    refine (hrep.mapped () obj e.id).mpr ⟨e, he, rfl, ?_⟩
    by_contra hkey
    exact hnot (List.mem_map_of_mem (List.mem_filter.mpr ⟨he, decide_eq_true hkey⟩))
  have hlen : (s.call (.mapErase () obj)).heap.length = s.heap.length :=
    hstep.made.symm.trans hrep.made
  have hfrozen : ∀ a < s.heap.length, a ∉ rest.map Entry.id →
      (s.call (.mapErase () obj)).heap.next a = s.heap.next a := by
    intro a ha hnot
    cases hmap : (s.recviers.listmap ()).map obj with
    | none =>
        have hcall : (s.call (.mapErase () obj)).heap = s.heap := by
          change ((s.recviers.listmap ()).erase s.recviers.heap obj).1 = s.recviers.heap
          rw [ListMap.erase, hmap]
        rw [hcall]
    | some item =>
        have hcall : (s.call (.mapErase () obj)).heap =
            ((s.recviers.listmap ()).list.erase s.recviers.heap item).1 := by
          change ((s.recviers.listmap ()).erase s.recviers.heap obj).1 = _
          rw [ListMap.erase, hmap]
        obtain ⟨e, he, rfl, hkey⟩ := (hrep.mapped () obj item).mp hmap
        obtain ⟨front, back, hseq⟩ := List.append_of_mem he
        have hl := hrep.holds (.inr ())
        rw [hseq] at hl
        rw [hcall]
        by_cases hae : a = e.id
        · rw [hae]
          exact next_erase_self hl
        · refine congrArg (·.bind Item.next) ((holds_erase hl).2.1.same a ha fun hin => hae ?_)
          rw [← hseq, ← Seqs.ids, hids] at hin
          exact Option.some.inj ((hleft a hin hnot).symm.trans hmap)
  have hchange : Changed s (s.call (.mapErase () obj)) (.unbind obj) ids (rest.map Entry.id) := {
    length := Nat.le_of_eq hlen.symm
    frozen := hfrozen
    fresh := fun a ha => .inl (hsub.subset ha)
    left := fun a ha hnot => ⟨obj, rfl, hleft a ha hnot⟩ }
  refine ⟨_, of_changed h ⟨_, hstep, hrest⟩ (h.sorted.sublist hsub) ?_ hchange, hchange, ?_⟩
  · intro a hle hlt
    exact absurd (hlen ▸ hlt) (Nat.not_lt.mpr hle)
  · intro a hmap hin
    obtain ⟨e, he, rfl⟩ := List.mem_map.mp hin
    obtain ⟨he, hkey⟩ := List.mem_filter.mp he
    obtain ⟨d, hd, hid, hdkey⟩ := (hrep.mapped () obj e.id).mp hmap
    have hentry := (hrep.holds (.inr ())).2 d hd
    rw [hid, (hrep.holds (.inr ())).2 e he] at hentry
    obtain rfl := Option.some.inj hentry
    exact of_decide_eq_true hkey hdkey

theorem change (h : Receivers s ids) (objKey : Nat → κ) (ch : Change κ α) :
    ∃ ids', Receivers (s.change objKey ch) ids' ∧ Changed s (s.change objKey ch) ch ids ids' ∧
      ∀ obj, ch = .unbind obj → ∀ a, s.map obj = some a → a ∉ ids' := by
  have hbind (s : Signal κ α) (h : Receivers s ids) (obj : κ) (func : α) :
      ∃ ids', Receivers (s.bind obj func) ids' ∧ Changed s (s.bind obj func) ch ids ids' := by
    unfold Signal.bind
    by_cases hobj : (s.map obj).isSome
    · rw [if_pos hobj]
      exact ⟨ids, h.set ch obj func⟩
    · rw [if_neg hobj]
      exact ⟨_, h.pushBack ch obj func (Option.not_isSome_iff_eq_none.mp hobj)⟩
  cases ch with
  | bind obj func =>
      obtain ⟨ids', hr, hchange⟩ := hbind s h obj func
      exact ⟨ids', hr, hchange, fun _ heq => by cases heq⟩
  | bindFunc func =>
      obtain ⟨ids', hr, hchange⟩ := hbind { s with nextObjKey := s.nextObjKey + 1 }
        ⟨h.rep, h.sorted, h.ascends⟩ (objKey (s.nextObjKey + 1)) func
      refine ⟨ids', hr, ⟨hchange.length, hchange.frozen, hchange.fresh, hchange.left⟩, ?_⟩
      exact fun _ heq => by cases heq
  | unbind obj =>
      obtain ⟨ids', hr, hchange, hout⟩ := h.mapErase obj
      refine ⟨ids', hr, hchange, fun obj' heq => ?_⟩
      cases heq
      exact hout
  | alterconnect obj func =>
      obtain ⟨hr, hchange⟩ := h.set (.alterconnect obj func) obj func
      exact ⟨ids, hr, hchange, fun _ heq => by cases heq⟩

end Receivers

/-! ## A signal that is triggered -/

namespace Firing

variable {objKey : Nat → κ} {react : Nat → Option α → List (Change κ α)} {signal : Signal κ α}
  {s : Firing κ α} {begun ids : List Nat} {length : Nat}

/-- What holds while a signal with the receivers `begun` is triggered: links lead from them to
each that is still bound. -/
structure Going (begun : List Nat) (length : Nat) (s : Firing κ α) (ids : List Nat) : Prop where
  receivers : Receivers s.signal ids
  grown : length ≤ s.signal.heap.length
  fresh : ∀ a ∈ ids, a ∈ begun ∨ length ≤ a
  path : ∀ a ∈ begun, ∀ e ∈ ids, e ∈ begun → a < e →
    ∃ b ∈ begun, s.signal.heap.next a = some b ∧ b ≤ e
  ascending : (s.called.map Call.item).Pairwise (· < ·)
  upto : ∀ c ∈ s.cur, c < s.signal.heap.length ∧ ∀ a ∈ s.called.map Call.item, a ≤ c
  reached : ∀ e ∈ ids, e ∈ begun →
    e ∈ s.called.map Call.item ∨ ∃ c ∈ s.cur, c ∈ begun ∧ c < e
  idle : s.cur = none → s.pending = []

omit [DecidableEq κ] in
theorem going_start (h : Receivers signal ids) :
    Going ids signal.heap.length (start react signal) ids := by
  have hfront : signal.front = ids.head? := h.held.front
  have hpath : ∀ a ∈ ids, ∀ e ∈ ids, e ∈ ids → a < e →
      ∃ b ∈ ids, signal.heap.next a = some b ∧ b ≤ e := by
    intro a ha e he _ hlt
    obtain ⟨b, hb, hnext, -, hle⟩ := h.next_le ha he hlt
    exact ⟨b, hb, hnext, hle⟩
  unfold start
  cases ids with
  | nil =>
      rw [hfront]
      exact {
        receivers := h
        grown := Nat.le_refl _
        fresh := fun a ha => .inl ha
        path := hpath
        ascending := .nil
        upto := fun c hc => by cases hc
        reached := fun e he => by cases he
        idle := fun _ => rfl }
  | cons c r =>
      rw [hfront]
      exact {
        receivers := h
        grown := Nat.le_refl _
        fresh := fun a ha => .inl ha
        path := hpath
        ascending := List.pairwise_singleton ..
        upto := by
          rintro _ ⟨⟩
          refine ⟨h.lt List.mem_cons_self, fun a ha => ?_⟩
          exact Nat.le_of_eq (List.mem_singleton.mp ha)
        reached := by
          intro e he _
          rcases List.mem_cons.mp he with rfl | he
          · exact .inl (List.mem_singleton_self _)
          · exact .inr ⟨c, rfl, List.mem_cons_self, (List.pairwise_cons.mp h.sorted).1 e he⟩
        idle := fun hcur => by cases hcur }

omit [DecidableEq κ] in
@[simp] theorem signal_callItem (item : Option Nat) :
    (s.callItem react item).signal = s.signal := by
  cases item <;> rfl

theorem step_change {change : Change κ α} {rest : List (Change κ α)}
    (hpending : s.pending = change :: rest) : s.step objKey react =
      { s with signal := s.signal.change objKey change, pending := rest } := by
  rw [step, hpending]

variable (objKey react) in
theorem step_goOn (hpending : s.pending = []) :
    s.step objKey react = s.callItem react (s.cur.bind s.signal.heap.next) := by
  rw [step, hpending]

variable (objKey react) in
theorem Going.change (h : Going begun length s ids) (hbegun : ∀ a ∈ begun, a < length)
    {change : Change κ α} {rest : List (Change κ α)} (hpending : s.pending = change :: rest) :
    ∃ ids', Going begun length (s.step objKey react) ids' ∧
      Changed s.signal (s.step objKey react).signal change ids ids' := by
  obtain ⟨ids', hr, hchange, -⟩ := h.receivers.change objKey change
  have hold : ∀ e ∈ ids', e ∈ begun → e ∈ ids := by
    intro e he hin
    refine (hchange.fresh e he).resolve_right fun hle => ?_
    exact absurd (hbegun e hin) (Nat.not_lt.mpr (Nat.le_trans h.grown hle))
  rw [step_change hpending]
  refine ⟨ids', ?_, hchange⟩
  exact {
    receivers := hr
    grown := Nat.le_trans h.grown hchange.length
    fresh := by
      intro a ha
      rcases hchange.fresh a ha with hin | hle
      · exact h.fresh a hin
      · exact .inr (Nat.le_trans h.grown hle)
    path := by
      intro a ha e he hin hlt
      by_cases hbound : a ∈ ids'
      · obtain ⟨c, hc, hnext, -, hle⟩ := hr.next_le hbound he hlt
        refine ⟨c, ?_, hnext, hle⟩
        refine (h.fresh c ?_).resolve_right fun hge => ?_
        · refine (hchange.fresh c hc).resolve_right fun hge => ?_
          have hlen := hbegun e hin
          have hgrown := h.grown
          omega
        · have hlen := hbegun e hin
          omega
      · have ha' := Nat.lt_of_lt_of_le (hbegun a ha) h.grown
        obtain ⟨b, hb, hnext, hle⟩ := h.path a ha e (hold e he hin) hin hlt
        exact ⟨b, hb, (hchange.frozen a ha' hbound).trans hnext, hle⟩
    ascending := h.ascending
    upto := fun c hc => ⟨Nat.lt_of_lt_of_le (h.upto c hc).1 hchange.length, (h.upto c hc).2⟩
    reached := fun e he hin => h.reached e (hold e he hin) hin
    idle := by
      intro hcur
      have hnil := h.idle hcur
      rw [hpending] at hnil
      cases hnil }

omit [DecidableEq κ] in
theorem Going.goOn (h : Going begun length s ids) (hpending : s.pending = []) :
    Going begun length (s.callItem react (s.cur.bind s.signal.heap.next)) ids := by
  have hpath : ∀ e ∈ ids, e ∈ begun → e ∈ s.called.map Call.item ∨
      ∃ b ∈ begun, s.cur.bind s.signal.heap.next = some b ∧ b ≤ e := by
    intro e he hin
    rcases h.reached e he hin with hcalled | ⟨c, hc, hbegun, hlt⟩
    · exact .inl hcalled
    · obtain ⟨b, hb, hnext, hle⟩ := h.path c hbegun e he hin hlt
      exact .inr ⟨b, hb, by rw [hc, Option.bind_some, hnext], hle⟩
  cases hnext : s.cur.bind s.signal.heap.next with
  | none =>
      exact {
        receivers := h.receivers
        grown := h.grown
        fresh := h.fresh
        path := h.path
        ascending := h.ascending
        upto := fun c hc => by cases hc
        reached := by
          intro e he hin
          refine .inl ((hpath e he hin).resolve_right ?_)
          rintro ⟨b, -, hb, -⟩
          rw [hnext] at hb
          cases hb
        idle := fun _ => hpending }
  | some b =>
      obtain ⟨c, hc, hcb⟩ := Option.bind_eq_some_iff.mp hnext
      obtain ⟨hlt, hb⟩ := h.receivers.ascends c b hcb
      have hupto := (h.upto c hc).2
      have hcalled : (s.callItem react (some b)).called.map Call.item =
          s.called.map Call.item ++ [b] := by
        change List.map Call.item (s.called ++ [_]) = _
        rw [List.map_append]
        rfl
      exact {
        receivers := h.receivers
        grown := h.grown
        fresh := h.fresh
        path := h.path
        ascending := by
          rw [hcalled]
          refine List.pairwise_append.mpr ⟨h.ascending, List.pairwise_singleton .., ?_⟩
          intro a ha b' hb'
          rw [List.mem_singleton.mp hb']
          exact Nat.lt_of_le_of_lt (hupto a ha) hlt
        upto := by
          rintro _ ⟨⟩
          refine ⟨hb, fun a ha => ?_⟩
          rw [hcalled] at ha
          rcases List.mem_append.mp ha with ha | ha
          · exact Nat.le_of_lt (Nat.lt_of_le_of_lt (hupto a ha) hlt)
          · exact Nat.le_of_eq (List.mem_singleton.mp ha)
        reached := by
          intro e he hin
          rw [hcalled]
          rcases hpath e he hin with hcalled | ⟨b', hb', heq, hle⟩
          · exact .inl (List.mem_append_left _ hcalled)
          · obtain rfl : b = b' := Option.some.inj (hnext.symm.trans heq)
            rcases Nat.eq_or_lt_of_le hle with rfl | hlt
            · exact .inl (List.mem_append_right _ (List.mem_singleton_self _))
            · exact .inr ⟨b, rfl, hb', hlt⟩
        idle := fun hcur => by cases hcur }

/-! ### Runs -/

theorem after_succ (n : Nat) :
    after objKey react signal (n + 1) = (after objKey react signal n).step objKey react :=
  Function.iterate_succ_apply' ..

variable (objKey react) in
theorem going_after (h : Receivers signal ids) (n : Nat) :
    ∃ ids', Going ids signal.heap.length (after objKey react signal n) ids' := by
  induction n with
  | zero => exact ⟨ids, going_start h⟩
  | succ n ih =>
      obtain ⟨ids', hgoing⟩ := ih
      rw [after_succ]
      cases hpending : (after objKey react signal n).pending with
      | nil =>
          rw [step_goOn objKey react hpending]
          exact ⟨ids', hgoing.goOn hpending⟩
      | cons change rest =>
          obtain ⟨ids'', hnext, -⟩ := hgoing.change objKey react (fun a ha => h.lt ha) hpending
          exact ⟨ids'', hnext⟩

theorem drain {P : Firing κ α → Prop} (hP : ∀ n, (after objKey react signal n).pending ≠ [] →
      P (after objKey react signal n) → P (after objKey react signal (n + 1))) {n : Nat}
    (hn : P (after objKey react signal n)) :
    ∃ m, (after objKey react signal m).pending = [] ∧ P (after objKey react signal m) := by
  induction hlen : (after objKey react signal n).pending.length generalizing n with
  | zero => exact ⟨n, List.eq_nil_of_length_eq_zero hlen, hn⟩
  | succ k ih =>
      cases hpending : (after objKey react signal n).pending with
      | nil =>
          rw [hpending] at hlen
          cases hlen
      | cons change rest =>
          refine ih (hP n ?_ hn) ?_
          · rw [hpending]
            exact List.cons_ne_nil change rest
          · rw [hpending] at hlen
            rw [after_succ, step_change hpending]
            exact Nat.succ.inj hlen

theorem ends_of_bounded (h : Receivers signal ids) {B : Nat}
    (hB : ∀ n, (after objKey react signal n).signal.heap.length ≤ B) :
    ∃ n, (after objKey react signal n).cur = none := by
  have hrun : ∀ k n, ∀ c ∈ (after objKey react signal n).cur, B - c ≤ k →
      ∃ m, (after objKey react signal m).cur = none := by
    intro k
    induction k with
    | zero =>
        intro n c hc hle
        obtain ⟨ids', hgoing⟩ := going_after objKey react h n
        have hlt := (hgoing.upto c hc).1
        have hlen := hB n
        omega
    | succ k ih =>
        intro n c hc hle
        have hstay : ∀ i, (after objKey react signal i).pending ≠ [] →
            (after objKey react signal i).cur = some c →
            (after objKey react signal (i + 1)).cur = some c := by
          intro i hpending hi
          obtain ⟨change, rest, hcons⟩ := List.exists_cons_of_ne_nil hpending
          rw [after_succ, step_change hcons]
          exact hi
        obtain ⟨m, hpending, hm⟩ := drain (P := fun s => s.cur = some c) hstay hc
        obtain ⟨ids', hgoing⟩ := going_after objKey react h m
        have hstep := step_goOn objKey react hpending
        rw [← after_succ, hm, Option.bind_some] at hstep
        cases hnext : (after objKey react signal m).signal.heap.next c with
        | none =>
            refine ⟨m + 1, ?_⟩
            rw [hstep, hnext]
            rfl
        | some b =>
            obtain ⟨hlt, -⟩ := hgoing.receivers.ascends c b hnext
            refine ih (m + 1) b ?_ (by omega)
            rw [hstep, hnext]
            exact Option.mem_some_self b
  cases hc : (after objKey react signal 0).cur with
  | none => exact ⟨0, hc⟩
  | some c => exact hrun B 0 c hc (Nat.sub_le B c)

theorem count_called (h : Receivers signal ids) {item : Nat}
    (hitem : ∀ n, (after objKey react signal n).signal.IsBound item) {n : Nat}
    (hend : (after objKey react signal n).cur = none) :
    ((after objKey react signal n).called.map Call.item).count item = 1 := by
  obtain ⟨ids', hgoing⟩ := going_after objKey react h n
  have hfirst := hitem 0
  rw [show (after objKey react signal 0).signal = signal from signal_callItem _] at hfirst
  have hbegun : item ∈ ids := h.isBound_iff.mp hfirst
  have hnow := hgoing.receivers.isBound_iff.mp (hitem n)
  have hcalled : item ∈ (after objKey react signal n).called.map Call.item := by
    refine (hgoing.reached item hnow hbegun).resolve_right ?_
    rintro ⟨c, hc, -⟩
    rw [hend] at hc
    cases hc
  exact List.count_eq_one_of_mem (hgoing.ascending.imp Nat.ne_of_lt) hcalled

/-! ### Missed receivers -/

structure Sound (s : Firing κ α) : Prop where
  leads : ∀ c ∈ s.cur, ¬s.signal.IsBound c → ∀ b, s.signal.heap.next c = some b →
    s.signal.IsBound b
  bound : ∀ call ∈ s.called, call.bound = true

omit [DecidableEq κ] in
theorem sound_start (h : Receivers signal ids) : (start react signal).Sound := by
  have hfront : signal.front = ids.head? := h.held.front
  unfold start
  cases hids : ids.head? with
  | none =>
      rw [hfront, hids]
      refine ⟨fun c hc => ?_, fun call hcall => ?_⟩
      · cases hc
      · cases hcall
  | some c =>
      have hbound : signal.IsBound c := h.isBound_iff.mpr (List.mem_of_head? hids)
      rw [hfront, hids]
      refine ⟨fun c' hc' hnot => ?_, fun call hcall => ?_⟩
      · cases hc'
        exact absurd hbound hnot
      · rw [List.mem_singleton.mp hcall]
        exact decide_eq_true hbound

theorem Sound.change (hs : s.Sound) (h : Going begun length s ids)
    (hbegun : ∀ a ∈ begun, a < length) (hmiss : ¬s.Misses) {change : Change κ α}
    {rest : List (Change κ α)} (hpending : s.pending = change :: rest) :
    (s.step objKey react).Sound := by
  obtain ⟨ids', hgoing, hchange⟩ := h.change objKey react hbegun hpending
  have hcur : (s.step objKey react).cur = s.cur := by rw [step_change hpending]
  have hcalled : (s.step objKey react).called = s.called := by rw [step_change hpending]
  constructor
  · intro c hc hnot b hb
    rw [hcur] at hc
    have hout : c ∉ ids' := fun hin => hnot (hgoing.receivers.isBound_iff.mpr hin)
    rw [hchange.frozen c (h.upto c hc).1 hout] at hb
    have hbids : b ∈ ids := by
      by_cases hin : c ∈ ids
      · exact h.receivers.next_mem hin hb
      · exact h.receivers.isBound_iff.mp (hs.leads c hc
          (fun hbound => hin (h.receivers.isBound_iff.mp hbound)) b hb)
    refine hgoing.receivers.isBound_iff.mpr ?_
    by_contra hleft
    obtain ⟨obj, rfl, hobj⟩ := hchange.left b hbids hleft
    refine hmiss ⟨c, hc, fun hbound => ?_, obj, ?_, b, hobj, hb⟩
    · -- the change unbinds one receiver, and that is the next one
      obtain ⟨obj', heq, hobj'⟩ := hchange.left c (h.receivers.isBound_iff.mp hbound) hout
      cases heq
      rw [hobj] at hobj'
      obtain rfl := Option.some.inj hobj'
      exact absurd (h.receivers.ascends _ _ hb).1 (Nat.lt_irrefl _)
    · rw [hpending]
      rfl
  · rw [hcalled]
    exact hs.bound

omit [DecidableEq κ] in
theorem Sound.goOn (hs : s.Sound) (h : Receivers s.signal ids) :
    (s.callItem react (s.cur.bind s.signal.heap.next)).Sound := by
  cases hnext : s.cur.bind s.signal.heap.next with
  | none =>
      refine ⟨fun c hc => ?_, hs.bound⟩
      cases hc
  | some b =>
      obtain ⟨c, hc, hcb⟩ := Option.bind_eq_some_iff.mp hnext
      have hbound : s.signal.IsBound b := by
        by_cases hin : s.signal.IsBound c
        · exact h.isBound_iff.mpr (h.next_mem (h.isBound_iff.mp hin) hcb)
        · exact hs.leads c hc hin b hcb
      refine ⟨fun c' hc' hnot => ?_, fun call hcall => ?_⟩
      · cases hc'
        exact absurd hbound hnot
      · rcases List.mem_append.mp hcall with hcall | hcall
        · exact hs.bound call hcall
        · rw [List.mem_singleton.mp hcall]
          exact decide_eq_true hbound

theorem sound_after (h : Receivers signal ids)
    (hmiss : ∀ n, ¬(after objKey react signal n).Misses) (n : Nat) :
    (after objKey react signal n).Sound := by
  induction n with
  | zero => exact sound_start h
  | succ n ih =>
      obtain ⟨ids', hgoing⟩ := going_after objKey react h n
      rw [after_succ]
      cases hpending : (after objKey react signal n).pending with
      | nil =>
          rw [step_goOn objKey react hpending]
          exact ih.goOn hgoing.receivers
      | cons change rest => exact ih.change hgoing (fun a ha => h.lt ha) (hmiss n) hpending

def Astray (s : Firing κ α) : Prop :=
  ∃ c ∈ s.cur, ¬s.signal.IsBound c ∧ ∃ b, s.signal.heap.next c = some b ∧ ¬s.signal.IsBound b

theorem astray_of_misses (h : Receivers signal ids) {n : Nat}
    (hmiss : (after objKey react signal n).Misses) :
    (after objKey react signal (n + 1)).Astray := by
  obtain ⟨c, hc, hnot, obj, hhead, b, hobj, hb⟩ := hmiss
  obtain ⟨ids', hgoing⟩ := going_after objKey react h n
  obtain ⟨ids'', hr, hchange, hout⟩ := hgoing.receivers.change objKey (.unbind obj)
  obtain ⟨rest, hpending⟩ := List.head?_eq_some_iff.mp hhead
  rw [after_succ, step_change hpending]
  have hclt := (hgoing.upto c hc).1
  have hcout : c ∉ ids'' := by
    intro hin
    refine hnot (hgoing.receivers.isBound_iff.mpr ?_)
    exact (hchange.fresh c hin).resolve_right (Nat.not_le.mpr hclt)
  refine ⟨c, hc, fun hbound => hcout (hr.isBound_iff.mp hbound), b, ?_, fun hbound => ?_⟩
  · exact (hchange.frozen c hclt hcout).trans hb
  · exact hout obj rfl b hobj (hr.isBound_iff.mp hbound)

theorem Astray.change (hs : s.Astray) (h : Going begun length s ids)
    (hbegun : ∀ a ∈ begun, a < length) {change : Change κ α} {rest : List (Change κ α)}
    (hpending : s.pending = change :: rest) : (s.step objKey react).Astray := by
  obtain ⟨ids', hgoing, hchange⟩ := h.change objKey react hbegun hpending
  obtain ⟨c, hc, hnot, b, hb, hbnot⟩ := hs
  have hstays : ∀ a < s.signal.heap.length, ¬s.signal.IsBound a → a ∉ ids' := by
    intro a hlt hnot hin
    refine hnot (h.receivers.isBound_iff.mpr ?_)
    exact (hchange.fresh a hin).resolve_right (Nat.not_le.mpr hlt)
  have hclt := (h.upto c hc).1
  have hblt := (h.receivers.ascends c b hb).2
  have hcur : (s.step objKey react).cur = s.cur := by rw [step_change hpending]
  refine ⟨c, hcur ▸ hc, fun hbound => ?_, b, ?_, fun hbound => ?_⟩
  · exact hstays c hclt hnot (hgoing.receivers.isBound_iff.mp hbound)
  · exact (hchange.frozen c hclt (hstays c hclt hnot)).trans hb
  · exact hstays b hblt hbnot (hgoing.receivers.isBound_iff.mp hbound)

theorem called_of_misses (h : Receivers signal ids) {n : Nat}
    (hmiss : (after objKey react signal n).Misses) :
    ∃ m, ∃ call ∈ (after objKey react signal m).called, call.bound = false := by
  have hstay : ∀ i, (after objKey react signal i).pending ≠ [] →
      (after objKey react signal i).Astray → (after objKey react signal (i + 1)).Astray := by
    intro i hpending hi
    obtain ⟨change, rest, hcons⟩ := List.exists_cons_of_ne_nil hpending
    obtain ⟨ids', hgoing⟩ := going_after objKey react h i
    rw [after_succ]
    exact hi.change hgoing (fun a ha => h.lt ha) hcons
  obtain ⟨m, hpending, c, hc, -, b, hb, hbnot⟩ := drain hstay (astray_of_misses h hmiss)
  refine ⟨m + 1, ⟨b, false⟩, ?_, rfl⟩
  rw [after_succ, step_goOn objKey react hpending, hc, Option.bind_some, hb]
  refine List.mem_append_right _ (List.mem_singleton.mpr ?_)
  rw [decide_eq_false hbnot]

end Firing

/-! ## Any signal -/

/-- A signal is triggered to the end if its functions bind no more than some number of
receivers; each that stays bound is called once, and none is called that is not bound. -/
structure Fires (objKey : Nat → κ) (react : Nat → Option α → List (Change κ α))
    (signal : Signal κ α) : Prop where
  ends : (∃ B, ∀ n, (Firing.after objKey react signal n).signal.heap.length ≤ B) →
    ∃ n, (Firing.after objKey react signal n).cur = none
  once : ∀ item, (∀ n, (Firing.after objKey react signal n).signal.IsBound item) →
    ∀ n, (Firing.after objKey react signal n).cur = none →
      ((Firing.after objKey react signal n).called.map Call.item).count item = 1
  bound : ∀ n, ∀ call ∈ (Firing.after objKey react signal n).called, call.bound = true

theorem receivers_of_changes (objKey : Nat → κ) (changes : List (Change κ α)) {s : Signal κ α}
    {ids : List Nat} (h : Receivers s ids) :
    ∃ ids', Receivers (changes.foldl (Signal.change objKey) s) ids' := by
  induction changes generalizing s ids with
  | nil => exact ⟨ids, h⟩
  | cons ch changes ih =>
      obtain ⟨ids', hr, -⟩ := h.change objKey ch
      exact ih hr

/-- Whatever the functions do, they are called as they should be just when none of them, its own
receiver unbound, unbinds the one behind it. -/
theorem fires_iff (objKey : Nat → κ) (react : Nat → Option α → List (Change κ α))
    (changes : List (Change κ α)) :
    Fires objKey react (changes.foldl (Signal.change objKey) {}) ↔
      ∀ n, ¬(Firing.after objKey react (changes.foldl (Signal.change objKey) {}) n).Misses := by
  obtain ⟨ids, h⟩ := receivers_of_changes objKey changes (Receivers.new (κ := κ) (α := α))
  constructor
  · intro hfires n hmiss
    obtain ⟨m, call, hcall, hnot⟩ := Firing.called_of_misses h hmiss
    rw [hfires.bound m call hcall] at hnot
    cases hnot
  · intro hmiss
    exact {
      ends := by
        rintro ⟨B, hB⟩
        exact Firing.ends_of_bounded h hB
      once := fun item hitem n hend => Firing.count_called h hitem hend
      bound := fun n => (Firing.sound_after h hmiss n).bound }

/-- The first of two receivers unbinds itself and then the second, which is called all the
same. -/
theorem unbound_called :
    ¬∀ (objKey : Nat → Nat) (react : Nat → Option Unit → List (Change Nat Unit))
      (changes : List (Change Nat Unit)),
      Fires objKey react (changes.foldl (Signal.change objKey) {}) := by
  intro h
  let react (n : Nat) (_ : Option Unit) : List (Change Nat Unit) :=
    if n = 0 then [.unbind 0, .unbind 1] else []
  have hbound := (h id react [.bind 0 (), .bind 1 ()]).bound 3 ⟨1, false⟩
  have hcalled : (⟨1, false⟩ : Call) ∈ (Firing.after id react
      ([.bind 0 (), .bind 1 ()].foldl (Signal.change id) {}) 3).called := by decide
  cases hbound hcalled

end JyQipai.Basefunc
