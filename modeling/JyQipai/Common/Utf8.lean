import Mathlib.Data.Nat.Basic
import Mathlib.Algebra.Order.Ring.Int

/-!
# The characters of a name

`utf8len` and `utf8sub` step through a string by the lengths that its bytes announce, until
nothing is left of it.  A last character that announces more bytes than there are makes the
count negative; then the bytes are read from the front on, until there is none.
-/

namespace JyQipai.Basefunc

/-- `error` is raised by the comparison of a byte that is not there, and `more` stands for a
loop whose turns are used up. -/
inductive Outcome (α : Type) where
  | value (v : α)
  | error
  | more
  deriving DecidableEq

def Outcome.map {α β : Type} (f : α → β) : Outcome α → Outcome β
  | .value v => .value (f v)
  | .error => .error
  | .more => .more

def byteAt (input : List UInt8) (i : Int) : Option UInt8 :=
  if 0 < i then input[(i - 1).toNat]?
  else if i < 0 ∧ -i ≤ input.length then input[(input.length + i).toNat]?
  else none

def arr : List Nat := [0, 0xc0, 0xe0, 0xf0, 0xf8, 0xfc]

/-- The number of bytes that a byte announces, looked for from `i` down. -/
def announcedFrom (tmp : UInt8) : Nat → Nat
  | 0 => 0
  | i + 1 => if arr.getD i 0 ≤ tmp.toNat then i + 1 else announcedFrom tmp i

def announced (tmp : UInt8) : Nat := announcedFrom tmp arr.length

/-- The loop of both functions: the characters that are counted, and their bytes where the loop
ends with the character `len`.  `utf8len` has no such character. -/
def utf8Loop (input : List UInt8) (len : Option Int) :
    Nat → Int → Nat → Nat → Outcome (Nat × Option Nat)
  | 0, left, cnt, _ => if left = 0 then .value (cnt, none) else .more
  | turns + 1, left, cnt, c =>
      if left = 0 then .value (cnt, none)
      else
        match byteAt input (-left) with
        | none => .error
        | some tmp =>
            if ∃ n ∈ len, n ≤ cnt + 1 then .value (cnt + 1, some (c + announced tmp))
            else utf8Loop input len turns (left - announced tmp) (cnt + 1) (c + announced tmp)

def turnsFor (input : List UInt8) : Nat := 2 * input.length + 2

def utf8len (input : List UInt8) : Outcome Nat :=
  (utf8Loop input none (turnsFor input) input.length 0 0).map Prod.fst

/-- `string.sub(input, 1, c)`, or the input where the loop has come to its end. -/
def subTo (input : List UInt8) : Option Nat → List UInt8
  | some c => input.take c
  | none => input

def utf8sub (input : List UInt8) (len : Int) : Outcome (List UInt8) :=
  (utf8Loop input (some len) (turnsFor input) input.length 0 0).map fun r => subTo input r.2

def dots : List UInt8 := ['.', '.', '.'].map Char.toUInt8

def shortPlayerName (name : List UInt8) (len : Int) : Outcome (List UInt8) :=
  match utf8len name with
  | .value cnt => if len < cnt then (utf8sub name len).map (· ++ dots) else .value name
  | .error => .error
  | .more => .more

def Frame (f : List UInt8) : Prop := ∃ b ∈ f.head?, announced b = f.length

def Framed (s : List UInt8) : Prop := ∃ frames : List (List UInt8), frames.flatten = s ∧
  ∀ f ∈ frames, Frame f

def encode (cs : List Char) : List UInt8 := cs.flatMap String.utf8EncodeChar

structure TotalAndExact (s : List UInt8) : Prop where
  len : ∃ cnt, utf8len s = .value cnt
  sub : ∀ n, ∃ t, utf8sub s n = .value t
  name : ∀ n, ∃ t, shortPlayerName s n = .value t
  exact_len : ∀ cs, s = encode cs → utf8len s = .value cs.length
  exact_sub : ∀ cs, s = encode cs → ∀ n : Nat, 1 ≤ n → utf8sub s n = .value (encode (cs.take n))
  exact_name : ∀ cs, s = encode cs → ∀ n : Nat, 1 ≤ n →
    shortPlayerName s n = .value (if n < cs.length then encode (cs.take n) ++ dots else s)

variable {input f s t : List UInt8} {b : UInt8} {frames front : List (List UInt8)}
  {turns cnt c : Nat} {left n : Int} {len : Option Int}

/-! ## The announced lengths -/

theorem announced_eq (b : UInt8) : announced b =
    if 0xfc ≤ b.toNat then 6 else if 0xf8 ≤ b.toNat then 5 else if 0xf0 ≤ b.toNat then 4
    else if 0xe0 ≤ b.toNat then 3 else if 0xc0 ≤ b.toNat then 2 else 1 := by
  simp [announced, announcedFrom, arr]

theorem announced_pos (b : UInt8) : 1 ≤ announced b := by
  rw [announced_eq]
  split_ifs <;> decide

theorem frame_utf8EncodeChar (c : Char) : Frame (String.utf8EncodeChar c) := by
  have hvalid : c.val.toNat < 0xd800 ∨ 0xdfff < c.val.toNat ∧ c.val.toNat < 0x110000 := c.valid
  unfold String.utf8EncodeChar
  dsimp only
  split_ifs <;> refine ⟨_, rfl, ?_⟩ <;> rw [announced_eq, UInt8.toNat_ofNat'] <;>
    simp only [List.length_cons, List.length_nil] <;> split_ifs <;> omega

theorem byteAt_left (pre t : List UInt8) (b : UInt8) :
    byteAt (pre ++ b :: t) (-((b :: t).length : Int)) = some b := by
  have hindex : (((pre ++ b :: t).length : Int) + -((b :: t).length : Int)).toNat = pre.length := by
    simp
    omega
  have hneg : -((b :: t).length : Int) < 0 := by simp; omega
  have hle : - -((b :: t).length : Int) ≤ (pre ++ b :: t).length := by simp
  rw [byteAt, if_neg (by omega), if_pos ⟨hneg, hle⟩, hindex, List.getElem?_append_right le_rfl,
    Nat.sub_self, List.getElem?_cons_zero]

/-! ## Turns -/

theorem utf8Loop_none (hleft : left ≠ 0) (hbyte : byteAt input (-left) = none) :
    utf8Loop input len (turns + 1) left cnt c = .error := by
  rw [utf8Loop, if_neg hleft, hbyte]

theorem utf8Loop_some (hleft : left ≠ 0) (hbyte : byteAt input (-left) = some b) :
    utf8Loop input len (turns + 1) left cnt c =
      if ∃ n ∈ len, n ≤ cnt + 1 then .value (cnt + 1, some (c + announced b))
      else utf8Loop input len turns (left - announced b) (cnt + 1) (c + announced b) := by
  rw [utf8Loop, if_neg hleft, hbyte]

theorem utf8Loop_ends (hturns : (left + input.length + 1).toNat < turns) :
    utf8Loop input len turns left cnt c ≠ .more := by
  induction turns generalizing left cnt c with
  | zero => exact absurd hturns (Nat.not_lt_zero _)
  | succ turns ih =>
      rcases eq_or_ne left 0 with rfl | hleft
      · simp [utf8Loop]
      · cases hbyte : byteAt input (-left) with
        | none => simp [utf8Loop_none hleft hbyte]
        | some tmp =>
            rw [utf8Loop_some hleft hbyte]
            split
            · simp
            · have hpos := announced_pos tmp
              have hread : -left ≤ input.length := by
                by_contra hout
                rw [byteAt, if_pos (by omega), List.getElem?_eq_none (by omega)] at hbyte
                cases hbyte
              exact ih (by omega)

/-! ## Strings that the lengths fit -/

theorem exists_cons_of_frame {f : List UInt8} (h : Frame f) :
    ∃ b t, f = b :: t ∧ announced b = f.length := by
  obtain ⟨b, hb, hlen⟩ := h
  cases f with
  | nil => cases hb
  | cons a t =>
      obtain rfl := Option.some.inj hb
      exact ⟨a, t, rfl, hlen⟩

theorem utf8Loop_frame (hinput : input = (front ++ f :: frames).flatten) (hf : Frame f) :
    utf8Loop input len (turns + 1) (f :: frames).flatten.length cnt front.flatten.length =
      if ∃ n ∈ len, n ≤ cnt + 1 then .value (cnt + 1, some (front ++ [f]).flatten.length)
      else utf8Loop input len turns frames.flatten.length (cnt + 1)
        (front ++ [f]).flatten.length := by
  obtain ⟨b, t, rfl, hlen⟩ := exists_cons_of_frame hf
  have hinput' : input = front.flatten ++ b :: (t ++ frames.flatten) := by
    rw [hinput]
    simp
  have hflat : ((b :: t) :: frames).flatten = b :: (t ++ frames.flatten) := rfl
  have hne : ((b :: (t ++ frames.flatten)).length : Int) ≠ 0 := by
    simp only [List.length_cons]
    omega
  have hc : (front ++ [b :: t]).flatten.length = front.flatten.length + (b :: t).length := by simp
  have hleft : ((b :: (t ++ frames.flatten)).length : Int) - (b :: t).length =
      frames.flatten.length := by simp
  have hbyte : byteAt input (-((b :: (t ++ frames.flatten)).length : Int)) = some b := by
    rw [hinput', byteAt_left]
  rw [hflat, utf8Loop_some hne hbyte, hlen, hleft, hc]

theorem utf8Loop_zero : utf8Loop input len turns 0 cnt c = .value (cnt, none) := by
  cases turns <;> simp [utf8Loop]

theorem utf8Loop_len (hframes : ∀ f ∈ frames, Frame f) (hinput : input = (front ++ frames).flatten)
    (hturns : frames.length ≤ turns) :
    utf8Loop input none turns frames.flatten.length cnt front.flatten.length =
      .value (cnt + frames.length, none) := by
  induction frames generalizing front turns cnt with
  | nil => exact utf8Loop_zero
  | cons f frames ih =>
      obtain ⟨turns, rfl⟩ := Nat.exists_eq_add_of_le' (Nat.lt_of_lt_of_le (Nat.succ_pos _) hturns)
      have hinput' : input = ((front ++ [f]) ++ frames).flatten := by simpa using hinput
      rw [utf8Loop_frame hinput (hframes f List.mem_cons_self), if_neg (by simp),
        ih (fun f hf => hframes f (List.mem_cons_of_mem _ hf)) hinput' (by simpa using hturns),
        List.length_cons]
      congr 2
      omega

theorem utf8Loop_sub (hframes : ∀ f ∈ frames, Frame f) (hinput : input = (front ++ frames).flatten)
    (hturns : frames.length ≤ turns) (hstart : front = [] ∨ front.length < n) :
    ∃ r, utf8Loop input (some n) turns frames.flatten.length front.length front.flatten.length =
        .value r ∧
      subTo input r.2 = ((front ++ frames).take (max n 1).toNat).flatten := by
  induction frames generalizing front turns with
  | nil =>
      refine ⟨_, utf8Loop_zero, ?_⟩
      rw [List.append_nil] at hinput ⊢
      rw [List.take_of_length_le, hinput]
      · rfl
      · rcases hstart with rfl | hlt
        · simp
        · omega
  | cons f frames ih =>
      obtain ⟨turns, rfl⟩ := Nat.exists_eq_add_of_le' (Nat.lt_of_lt_of_le (Nat.succ_pos _) hturns)
      have hsplit : front ++ f :: frames = (front ++ [f]) ++ frames := by simp
      rw [utf8Loop_frame hinput (hframes f List.mem_cons_self)]
      by_cases hn : n ≤ front.length + 1
      · have hlast : (max n 1).toNat = (front ++ [f]).length := by
          rw [List.length_append, List.length_singleton]
          rcases hstart with rfl | hlt
          · simp only [List.length_nil] at hn ⊢
            omega
          · omega
        have hflat : (front ++ [f] ++ frames).flatten =
            (front ++ [f]).flatten ++ frames.flatten := List.flatten_append
        rw [if_pos ⟨n, rfl, hn⟩]
        refine ⟨_, rfl, ?_⟩
        rw [hlast, hsplit, List.take_left, subTo, hinput, hsplit, hflat, List.take_left]
      · rw [if_neg (by simpa using hn), hsplit]
        have hlen : front.length + 1 = (front ++ [f]).length := by simp
        rw [hlen]
        exact ih (fun f hf => hframes f (List.mem_cons_of_mem _ hf)) (by rw [hinput, hsplit])
          (by simpa using hturns) (.inr (by rw [← hlen]; push_cast; omega))

/-! ## Strings that they do not fit -/

theorem utf8Loop_neg (hleft : left < 0) {r : Nat × Option Nat} :
    utf8Loop input none turns left cnt c ≠ .value r := by
  induction turns generalizing left cnt c with
  | zero => simp [utf8Loop, hleft.ne]
  | succ turns ih =>
      cases hbyte : byteAt input (-left) with
      | none => simp [utf8Loop_none hleft.ne hbyte]
      | some tmp =>
          rw [utf8Loop_some hleft.ne hbyte, if_neg (by simp)]
          exact ih (by omega)

theorem Framed.cons {f : List UInt8} (hf : Frame f) (hs : Framed s) : Framed (f ++ s) := by
  obtain ⟨frames, rfl, hframes⟩ := hs
  refine ⟨f :: frames, rfl, fun g hg => ?_⟩
  rcases List.mem_cons.mp hg with rfl | hg
  · exact hf
  · exact hframes g hg

theorem framed_of_value {pre : List UInt8} (hinput : input = pre ++ t) {r : Nat × Option Nat}
    (h : utf8Loop input none turns t.length cnt c = .value r) : Framed t := by
  have hcons (b : UInt8) (t : List UInt8) : ((b :: t).length : Int) ≠ 0 := by
    simp only [List.length_cons]
    omega
  induction turns generalizing pre t cnt c with
  | zero =>
      cases t with
      | nil => exact ⟨[], rfl, by simp⟩
      | cons b t =>
          rw [utf8Loop, if_neg (hcons b t)] at h
          cases h
  | succ turns ih =>
      cases t with
      | nil => exact ⟨[], rfl, by simp⟩
      | cons b t =>
          have hne := hcons b t
          rw [utf8Loop_some hne (by rw [hinput, byteAt_left]), if_neg (by simp)] at h
          have hpos := announced_pos b
          rcases le_or_gt (announced b) (b :: t).length with hle | hgt
          · have hrest : ((b :: t).length : Int) - announced b =
                ((b :: t).drop (announced b)).length := by
              rw [List.length_drop]
              omega
            have hsplit := List.take_append_drop (announced b) (b :: t)
            have hinput' : input = (pre ++ (b :: t).take (announced b)) ++
                (b :: t).drop (announced b) := by
              rw [List.append_assoc, hsplit, hinput]
            rw [hrest] at h
            have hframed := ih hinput' h
            have hframe : Frame ((b :: t).take (announced b)) := by
              refine ⟨b, ?_, ?_⟩
              · obtain ⟨k, hk⟩ := Nat.exists_eq_add_of_le' hpos
                rw [hk]
                rfl
              · rw [List.length_take, min_eq_left hle]
            rw [← hsplit]
            exact hframed.cons hframe
          · exact absurd h (utf8Loop_neg (by omega))

theorem length_le_flatten (hframes : ∀ f ∈ frames, Frame f) :
    frames.length ≤ frames.flatten.length := by
  induction frames with
  | nil => exact le_rfl
  | cons f frames ih =>
      have hrest := ih fun g hg => hframes g (List.mem_cons_of_mem f hg)
      obtain ⟨b, t, rfl, -⟩ := exists_cons_of_frame (hframes f List.mem_cons_self)
      simp only [List.length_cons, List.flatten_cons, List.length_append]
      omega

theorem length_le_turnsFor (hframes : ∀ f ∈ frames, Frame f) :
    frames.length ≤ turnsFor frames.flatten := by
  have hle := length_le_flatten hframes
  unfold turnsFor
  omega

theorem utf8len_flatten (hframes : ∀ f ∈ frames, Frame f) :
    utf8len frames.flatten = .value frames.length := by
  have hinput : frames.flatten = ([] ++ frames).flatten := rfl
  have hloop : utf8Loop frames.flatten none (turnsFor frames.flatten) frames.flatten.length 0 0 =
      .value (0 + frames.length, none) :=
    utf8Loop_len hframes hinput (length_le_turnsFor hframes)
  rw [utf8len, hloop, Nat.zero_add]
  rfl

theorem utf8sub_flatten (hframes : ∀ f ∈ frames, Frame f) (n : Int) :
    utf8sub frames.flatten n = .value (frames.take (max n 1).toNat).flatten := by
  have hinput : frames.flatten = ([] ++ frames).flatten := rfl
  obtain ⟨r, hloop, hr⟩ := utf8Loop_sub (n := n) hframes hinput (length_le_turnsFor hframes)
    (.inl rfl)
  have hloop' : utf8Loop frames.flatten (some n) (turnsFor frames.flatten)
      frames.flatten.length 0 0 = .value r := hloop
  rw [utf8sub, hloop']
  exact congrArg Outcome.value hr

theorem shortPlayerName_flatten (hframes : ∀ f ∈ frames, Frame f) (n : Int) :
    shortPlayerName frames.flatten n = .value (if n < frames.length then
      (frames.take (max n 1).toNat).flatten ++ dots else frames.flatten) := by
  rw [shortPlayerName, utf8len_flatten hframes]
  dsimp only
  split
  · rw [utf8sub_flatten hframes]
    rfl
  · rfl

theorem framed_of_utf8len {cnt : Nat} (h : utf8len s = .value cnt) : Framed s := by
  rw [utf8len] at h
  cases hloop : utf8Loop s none (turnsFor s) s.length 0 0 with
  | value r => exact framed_of_value (List.nil_append s).symm hloop
  | error =>
      rw [hloop] at h
      cases h
  | more =>
      rw [hloop] at h
      cases h

/-! ## Both kinds of strings -/

theorem encode_eq_flatten (cs : List Char) : encode cs = (cs.map String.utf8EncodeChar).flatten :=
  List.flatMap_def

theorem frames_encode (cs : List Char) : ∀ f ∈ cs.map String.utf8EncodeChar, Frame f := by
  intro f hf
  obtain ⟨c, -, rfl⟩ := List.mem_map.mp hf
  exact frame_utf8EncodeChar c

/-- A result is given just for the strings that the announced lengths fit, which UTF-8 is. -/
theorem totalAndExact_iff (s : List UInt8) : TotalAndExact s ↔ Framed s := by
  constructor
  · intro h
    obtain ⟨cnt, hcnt⟩ := h.len
    exact framed_of_utf8len hcnt
  · rintro ⟨frames, rfl, hframes⟩
    refine ⟨⟨_, utf8len_flatten hframes⟩, fun n => ⟨_, utf8sub_flatten hframes n⟩,
      fun n => ⟨_, shortPlayerName_flatten hframes n⟩, fun cs hcs => ?_, fun cs hcs n hn => ?_,
      fun cs hcs n hn => ?_⟩
    · rw [hcs, encode_eq_flatten, utf8len_flatten (frames_encode cs), List.length_map]
    · have hmax : (max (n : Int) 1).toNat = n := by omega
      rw [hcs, encode_eq_flatten, utf8sub_flatten (frames_encode cs), hmax, encode_eq_flatten,
        List.map_take]
    · have hmax : (max (n : Int) 1).toNat = n := by omega
      rw [hcs, encode_eq_flatten, shortPlayerName_flatten (frames_encode cs), hmax,
        encode_eq_flatten, List.map_take, List.length_map]
      simp only [Nat.cast_lt]

/-- A string that ends with the first byte of a longer character. -/
theorem utf8len_truncated : ¬∀ s : List UInt8, TotalAndExact s := by
  intro h
  obtain ⟨cnt, hcnt⟩ := (h [97, 0xe4]).len
  cases hcnt

end JyQipai.Basefunc
