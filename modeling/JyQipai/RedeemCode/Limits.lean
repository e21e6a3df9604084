import JyQipai.RedeemCode.Service

/-!
# The limits of redeem codes

The counters of the codes are stored and read again at a start, those of the players are
not.  As long as nobody who has used a code of a type before a start asks for another one
behind it, the counters in the memory are the numbers of rows of the log.
-/

namespace JyQipai.RedeemCode

open Lib Common

/-! ## Numbers of rows -/

def countRef (rows : List LogRow) (ref : Ref) : Nat := rows.countP fun r => r.ref = ref

def LogRow.of (r : LogRow) (playerId : PlayerId) (codeType : String) : Prop :=
  r.playerId = playerId ∧ r.codeType = codeType

instance (r : LogRow) (playerId : PlayerId) (codeType : String) :
    Decidable (r.of playerId codeType) :=
  inferInstanceAs (Decidable (r.playerId = playerId ∧ r.codeType = codeType))

def countPlayer (rows : List LogRow) (playerId : PlayerId) (codeType : String) : Nat :=
  rows.countP fun r => r.of playerId codeType

def countDay (rows : List LogRow) (playerId : PlayerId) (codeType : String) (day : Int) : Nat :=
  rows.countP fun r => r.of playerId codeType ∧ serviceDay serviceZeroTime r.time = day

namespace Tables

def CodesAre (t : Tables) (codeType codeSubType : String) (p : UseType → Prop) : Prop :=
  ∀ d ∈ t.added, d.codeType = codeType → d.codeSubType = codeSubType → p d.useType

def TypeIs (t : Tables) (codeType : String) (p : UseType → Prop) : Prop :=
  ∀ d ∈ t.added, d.codeType = codeType → p d.useType

def codeLimit : UseType → Option Nat
  | .a _ | .c => some 1
  | .b limit => some limit
  | .other _ => none

def playerLimit : UseType → Option Nat
  | .a limit => some limit
  | .b _ => some 1
  | .c | .other _ => none

structure Limits (t : Tables) : Prop where
  code : ∀ codeType codeSubType keyCode limit,
    t.CodesAre codeType codeSubType (fun u => codeLimit u = some limit) →
      countRef t.logRows (codeType, codeSubType, keyCode) ≤ limit
  player : ∀ playerId codeType limit, t.TypeIs codeType (fun u => playerLimit u = some limit) →
    countPlayer t.logRows playerId codeType ≤ limit
  day : ∀ playerId codeType day, t.TypeIs codeType (fun u => u = .c) →
    countDay t.logRows playerId codeType day ≤ 1

def recent (t : Tables) : List LogRow := t.logRows.drop t.old.length

structure Counts (t : Tables) (playerId : PlayerId) (codeType : String) (u : UsedData) :
    Prop where
  now : u.time ≤ t.now
  last : ∀ r ∈ t.recent, r.of playerId codeType → r.time ≤ u.time
  num : t.TypeIs codeType (fun u => u ≠ .c) → u.num = countPlayer t.recent playerId codeType
  pos : 0 < u.num

structure Sound (t : Tables) : Prop where
  limits : t.Limits
  rows : t.contentRows = t.redeemCodeContent
  keys : (t.redeemCodeContent.map Content.keyCode).Nodup
  counts : ∀ c ∈ t.redeemCodeContent, c.usedCount = countRef t.logRows c.ref
  known : ∀ r ∈ t.logRows, ∃ c ∈ t.redeemCodeContent, c.ref = r.ref
  data : ∀ codeType codeSubType d, t.redeemCodeData codeType codeSubType = some d →
    d ∈ t.added ∧ d.codeType = codeType ∧ d.codeSubType = codeSubType
  dataRows : ∀ d ∈ t.dataRows, d ∈ t.added
  positive : ∀ d ∈ t.added, d.useType ≠ .a 0
  old : t.old ++ t.recent = t.logRows
  unused : ∀ playerId codeType, t.redeemCodeTypeUsedData playerId codeType = none →
    ∀ r ∈ t.recent, ¬r.of playerId codeType
  used : ∀ playerId codeType u, t.redeemCodeTypeUsedData playerId codeType = some u →
    t.Counts playerId codeType u

end Tables

open Tables

variable {t : Tables}

/-! ## The tables of codes -/

theorem usedCount_eq (h : t.Sound) {c : Content} (hc : c ∈ t.redeemCodeContent) :
    t.usedCount c.ref = c.usedCount := by
  unfold usedCount
  cases hfind : t.redeemCodeContent.find? fun e => e.ref = c.ref with
  | none =>
      have hnone := List.find?_eq_none.mp hfind c hc
      simp at hnone
  | some e =>
      have he : e.ref = c.ref := by simpa using List.find?_some hfind
      have hmem := List.mem_of_find?_eq_some hfind
      have hkey : e.keyCode = c.keyCode := congrArg (fun r : Ref => r.2.2) he
      rw [List.inj_on_of_nodup_map h.keys hmem hc hkey]
      rfl

theorem countRef_append (rows : List LogRow) (r : LogRow) (ref : Ref) :
    countRef (rows ++ [r]) ref = countRef rows ref + if r.ref = ref then 1 else 0 := by
  unfold countRef
  rw [List.countP_append, List.countP_singleton]
  simp

theorem countPlayer_append (rows : List LogRow) (r : LogRow) (playerId : PlayerId)
    (codeType : String) : countPlayer (rows ++ [r]) playerId codeType =
      countPlayer rows playerId codeType + if r.of playerId codeType then 1 else 0 := by
  unfold countPlayer
  rw [List.countP_append, List.countP_singleton]
  simp

theorem countDay_append (rows : List LogRow) (r : LogRow) (playerId : PlayerId)
    (codeType : String) (day : Int) : countDay (rows ++ [r]) playerId codeType day =
      countDay rows playerId codeType day +
        if r.of playerId codeType ∧ serviceDay serviceZeroTime r.time = day then 1 else 0 := by
  unfold countDay
  rw [List.countP_append, List.countP_singleton]
  simp

theorem countPlayer_eq_zero {rows : List LogRow} {playerId : PlayerId} {codeType : String}
    (h : ∀ r ∈ rows, ¬r.of playerId codeType) : countPlayer rows playerId codeType = 0 :=
  List.countP_eq_zero.mpr fun r hr => by simpa using h r hr

theorem countPlayer_recent (h : t.Sound) {playerId : PlayerId} {codeType : String}
    (hold : ∀ r ∈ t.old, ¬r.of playerId codeType) :
    countPlayer t.logRows playerId codeType = countPlayer t.recent playerId codeType := by
  have happend : countPlayer (t.old ++ t.recent) playerId codeType =
      countPlayer t.old playerId codeType + countPlayer t.recent playerId codeType :=
    List.countP_append
  rw [← h.old, happend, countPlayer_eq_zero hold, zero_add]

/-! ## A code is used -/

structure Passes (t : Tables) (data : CodeData) (ref : Ref) (playerId : PlayerId) : Prop where
  code : ∀ limit, codeLimit data.useType = some limit → t.usedCount ref < limit
  player : ∀ limit, playerLimit data.useType = some limit →
    ∀ u, t.redeemCodeTypeUsedData playerId data.codeType = some u → u.num < limit
  day : data.useType = .c → ∀ u, t.redeemCodeTypeUsedData playerId data.codeType = some u →
    serviceDay serviceZeroTime u.time ≠ serviceDay serviceZeroTime t.now

def redeemFrom (n : Nat) (t : Tables) (data : CodeData) (ref : Ref) (playerId : PlayerId) :
    Tables :=
  { t.redeem data ref playerId with
    redeemCodeTypeUsedData := Function.update t.redeemCodeTypeUsedData playerId
      (Function.update (t.redeemCodeTypeUsedData playerId) data.codeType
        (some { num := n + 1, time := t.now })) }

theorem redeem_eq (data : CodeData) (ref : Ref) (playerId : PlayerId) :
    t.redeem data ref playerId = redeemFrom
      ((t.redeemCodeTypeUsedData playerId data.codeType).getD { num := 0, time := 0 }).num
      t data ref playerId := rfl

theorem redeem_setUsed (data : CodeData) (ref : Ref) (playerId : PlayerId) (u : UsedData) :
    (t.setUsed playerId data.codeType u).redeem data ref playerId =
      redeemFrom u.num t data ref playerId := by
  unfold redeemFrom redeem setUsed usedCount
  simp [Function.update_idem]

section Redeem

variable {data : CodeData} {ref : Ref} {playerId : PlayerId} {n : Nat}

structure Asks (t : Tables) (data : CodeData) (ref : Ref) (playerId : PlayerId) : Prop where
  added : data ∈ t.added
  codeType : ref.1 = data.codeType
  codeSubType : ref.2.1 = data.codeSubType
  content : ∃ c ∈ t.redeemCodeContent, c.ref = ref
  fresh : ∀ r ∈ t.old, ¬r.of playerId data.codeType

theorem recent_redeemFrom (h : t.Sound) : (redeemFrom n t data ref playerId).recent =
    t.recent ++ [⟨playerId, ref.2.2, data.codeType, data.codeSubType, t.now⟩] := by
  refine List.drop_append_of_le_length ?_
  rw [← h.old, List.length_append]
  exact Nat.le_add_right _ _

theorem used_redeemFrom (player : PlayerId) (codeType : String) :
    (redeemFrom n t data ref playerId).redeemCodeTypeUsedData player codeType =
      if player = playerId ∧ codeType = data.codeType then some { num := n + 1, time := t.now }
      else t.redeemCodeTypeUsedData player codeType := by
  change Function.update t.redeemCodeTypeUsedData playerId _ player codeType = _
  by_cases hp : player = playerId
  · subst hp
    rw [Function.update_self]
    by_cases hc : codeType = data.codeType
    · subst hc
      rw [Function.update_self, if_pos ⟨rfl, rfl⟩]
    · rw [Function.update_of_ne hc, if_neg fun hh => hc hh.2]
  · rw [Function.update_of_ne hp, if_neg fun hh => hp hh.1]

theorem count_le_of_passes (h : t.Sound) (hasks : Asks t data ref playerId)
    (hpasses : Passes t data ref playerId) {limit : Nat}
    (htype : t.TypeIs data.codeType fun u => playerLimit u = some limit) :
    countPlayer t.logRows playerId data.codeType < limit := by
  have hlimit := htype data hasks.added rfl
  rw [countPlayer_recent h hasks.fresh]
  cases hused : t.redeemCodeTypeUsedData playerId data.codeType with
  | none =>
      rw [countPlayer_eq_zero (h.unused _ _ hused)]
      refine Nat.pos_of_ne_zero fun hzero => h.positive data hasks.added ?_
      subst hzero
      cases hu : data.useType with
      | a limit =>
          rw [hu] at hlimit
          exact congrArg UseType.a (Option.some.inj hlimit)
      | b limit =>
          rw [hu] at hlimit
          cases hlimit
      | c =>
          rw [hu] at hlimit
          cases hlimit
      | other name =>
          rw [hu] at hlimit
          cases hlimit
  | some u =>
      have hnotC : t.TypeIs data.codeType fun u => u ≠ .c := by
        rintro d hd hdt hc
        have hd' := htype d hd hdt
        rw [hc] at hd'
        cases hd'
      rw [← (h.used _ _ u hused).num hnotC]
      exact hpasses.player limit hlimit u hused

theorem countDay_of_passes (h : t.Sound) (hasks : Asks t data ref playerId)
    (hpasses : Passes t data ref playerId) (hc : data.useType = .c) :
    countDay t.logRows playerId data.codeType (serviceDay serviceZeroTime t.now) = 0 := by
  refine List.countP_eq_zero.mpr fun r hr hday => ?_
  obtain ⟨hof, hrday⟩ := of_decide_eq_true hday
  rw [← h.old] at hr
  rcases List.mem_append.mp hr with hr | hr
  · exact hasks.fresh r hr hof
  · cases hused : t.redeemCodeTypeUsedData playerId data.codeType with
    | none => exact h.unused _ _ hused r hr hof
    | some u =>
        have hcounts := h.used _ _ u hused
        have hle := serviceDay_mono serviceZeroTime (hcounts.last r hr hof)
        have hnow := serviceDay_mono serviceZeroTime hcounts.now
        exact hpasses.day hc u hused (by omega)

theorem limits_redeemFrom (h : t.Sound) (hasks : Asks t data ref playerId)
    (hpasses : Passes t data ref playerId) : (redeemFrom n t data ref playerId).Limits := by
  obtain ⟨c, hc, href⟩ := hasks.content
  refine ⟨fun codeType codeSubType keyCode limit hcodes => ?_,
    fun player codeType limit htype => ?_, fun player codeType day htype => ?_⟩
  · change countRef (t.logRows ++ [_]) _ ≤ limit
    rw [countRef_append]
    split
    · rename_i heq
      have hrow : (data.codeType, data.codeSubType, ref.2.2) =
          (codeType, codeSubType, keyCode) := heq
      have hrefeq : ref = (codeType, codeSubType, keyCode) := by
        rw [← hrow, ← hasks.codeType, ← hasks.codeSubType]
      simp only [Prod.mk.injEq] at hrow
      have hlt := hpasses.code limit (hcodes data hasks.added hrow.1 hrow.2.1)
      rw [← href, usedCount_eq h hc, h.counts c hc, href, hrefeq] at hlt
      exact hlt
    · exact h.limits.code codeType codeSubType keyCode limit hcodes
  · change countPlayer (t.logRows ++ [_]) _ _ ≤ limit
    rw [countPlayer_append]
    split
    · rename_i heq
      obtain ⟨rfl, rfl⟩ : playerId = player ∧ data.codeType = codeType := heq
      exact count_le_of_passes h hasks hpasses htype
    · exact h.limits.player player codeType limit htype
  · change countDay (t.logRows ++ [_]) _ _ _ ≤ 1
    rw [countDay_append]
    split
    · rename_i heq
      obtain ⟨⟨rfl, rfl⟩, rfl⟩ : (playerId = player ∧ data.codeType = codeType) ∧
        serviceDay serviceZeroTime t.now = day := heq
      rw [countDay_of_passes h hasks hpasses (htype data hasks.added rfl)]
    · exact h.limits.day player codeType day htype

theorem ref_bump (ref : Ref) (count : Nat) (c : Content) :
    (if c.ref = ref then { c with usedCount := count } else c : Content).ref = c.ref := by
  split <;> rfl

theorem sound_redeemFrom (h : t.Sound) (hasks : Asks t data ref playerId)
    (hpasses : Passes t data ref playerId)
    (hn : t.TypeIs data.codeType (fun u => u ≠ .c) →
      n = countPlayer t.recent playerId data.codeType) :
    (redeemFrom n t data ref playerId).Sound := by
  obtain ⟨c, hc, href⟩ := hasks.content
  have hcount : t.usedCount ref = countRef t.logRows ref := by
    rw [← href, usedCount_eq h hc, h.counts c hc]
  have hkeys (e : Content) (he : e ∈ t.redeemCodeContent) :
      e.keyCode = ref.2.2 ↔ e.ref = ref := by
    constructor
    · intro hkey
      have hsame : e.keyCode = c.keyCode := by
        rw [hkey, ← href]
        rfl
      rw [List.inj_on_of_nodup_map h.keys he hc hsame, href]
    · rintro rfl
      rfl
  have hcontent : (redeemFrom n t data ref playerId).redeemCodeContent =
      t.redeemCodeContent.map fun c =>
        if c.ref = ref then { c with usedCount := t.usedCount ref + 1 } else c := rfl
  refine ⟨limits_redeemFrom h hasks hpasses, ?_, ?_, ?_, ?_, h.data, h.dataRows, h.positive, ?_,
    ?_, ?_⟩
  · rw [hcontent]
    change t.contentRows.map (fun c =>
      if c.keyCode = ref.2.2 then { c with usedCount := t.usedCount ref + 1 } else c) = _
    rw [h.rows]
    refine List.map_congr_left fun e he => ?_
    simp only [hkeys e he]
  · rw [hcontent, List.map_map]
    have hsame : (Content.keyCode ∘ fun c : Content =>
        if c.ref = ref then { c with usedCount := t.usedCount ref + 1 } else c) =
        Content.keyCode := by
      funext e
      exact congrArg (fun r : Ref => r.2.2) (ref_bump ref _ e)
    rw [hsame]
    exact h.keys
  · intro e he
    rw [hcontent] at he
    obtain ⟨e, heold, rfl⟩ := List.mem_map.mp he
    rw [ref_bump]
    change _ = countRef (t.logRows ++ [_]) e.ref
    rw [countRef_append]
    have hrow : (LogRow.ref ⟨playerId, ref.2.2, data.codeType, data.codeSubType, t.now⟩) = ref := by
      unfold LogRow.ref
      rw [← hasks.codeType, ← hasks.codeSubType]
    rw [hrow]
    by_cases heq : e.ref = ref
    · rw [if_pos heq, if_pos heq.symm, heq, hcount]
    · rw [if_neg heq, if_neg (Ne.symm heq), h.counts e heold, add_zero]
  · intro r hr
    have hplace (r : Ref) (hr : ∃ e ∈ t.redeemCodeContent, e.ref = r) :
        ∃ e ∈ (redeemFrom n t data ref playerId).redeemCodeContent, e.ref = r := by
      obtain ⟨e, he, rfl⟩ := hr
      exact ⟨_, List.mem_map_of_mem he, ref_bump ref _ e⟩
    rcases List.mem_append.mp hr with hr | hr
    · exact hplace _ (h.known r hr)
    · obtain rfl := List.mem_singleton.mp hr
      refine hplace _ ⟨c, hc, ?_⟩
      unfold LogRow.ref
      rw [href, ← hasks.codeType, ← hasks.codeSubType]
  · rw [recent_redeemFrom h]
    change t.old ++ (t.recent ++ [_]) = t.logRows ++ [_]
    rw [← List.append_assoc, h.old]
  · intro player codeType hnone r hr hof
    rw [used_redeemFrom] at hnone
    split at hnone
    · cases hnone
    · rename_i hne
      rw [recent_redeemFrom h] at hr
      rcases List.mem_append.mp hr with hr | hr
      · exact h.unused _ _ hnone r hr hof
      · obtain rfl := List.mem_singleton.mp hr
        exact hne ⟨hof.1.symm, hof.2.symm⟩
  · intro player codeType u hu
    rw [used_redeemFrom] at hu
    split at hu
    · rename_i heq
      obtain ⟨rfl, rfl⟩ := heq
      obtain rfl := Option.some.inj hu
      refine ⟨le_refl _, fun r hr hof => ?_, fun htype => ?_, Nat.succ_pos n⟩
      · rw [recent_redeemFrom h] at hr
        rcases List.mem_append.mp hr with hr | hr
        · cases hused : t.redeemCodeTypeUsedData player data.codeType with
          | none => exact absurd hof (h.unused _ _ hused r hr)
          | some u =>
              have hcounts := h.used _ _ u hused
              exact (hcounts.last r hr hof).trans hcounts.now
        · obtain rfl := List.mem_singleton.mp hr
          exact le_refl _
      · rw [recent_redeemFrom h, countPlayer_append, if_pos ⟨rfl, rfl⟩, ← hn htype]
    · rename_i hne
      have hcounts := h.used _ _ u hu
      have hnew (r : LogRow) (hr : r ∈ (redeemFrom n t data ref playerId).recent)
          (hof : r.of player codeType) : r ∈ t.recent := by
        rw [recent_redeemFrom h] at hr
        rcases List.mem_append.mp hr with hr | hr
        · exact hr
        · obtain rfl := List.mem_singleton.mp hr
          exact absurd ⟨hof.1.symm, hof.2.symm⟩ hne
      refine ⟨hcounts.now, fun r hr hof => hcounts.last r (hnew r hr hof) hof,
        fun htype => ?_, hcounts.pos⟩
      rw [recent_redeemFrom h, countPlayer_append,
        if_neg (fun hof => hne ⟨hof.1.symm, hof.2.symm⟩), hcounts.num htype, add_zero]

end Redeem

/-! ## The tests -/

theorem usedUp_eq_false {playerId : PlayerId} {codeType : String} {limit : Nat}
    (h : t.usedUp playerId codeType limit = false) (u : UsedData)
    (hu : t.redeemCodeTypeUsedData playerId codeType = some u) : u.num < limit := by
  unfold usedUp at h
  rw [hu] at h
  simpa using h

theorem resetUsed_cases (t : Tables) (playerId : PlayerId) (codeType : String) :
    t.resetUsed playerId codeType = t ∨ ∃ u,
      t.redeemCodeTypeUsedData playerId codeType = some u ∧
      serviceDay serviceZeroTime u.time ≠ serviceDay serviceZeroTime t.now ∧
      t.resetUsed playerId codeType = t.setUsed playerId codeType { u with num := 0 } := by
  unfold resetUsed
  cases hu : t.redeemCodeTypeUsedData playerId codeType with
  | none => exact .inl rfl
  | some u =>
      dsimp only
      split
      · exact .inl rfl
      · rename_i hdate
        rw [chkSameDate_iff] at hdate
        exact .inr ⟨u, rfl, hdate, rfl⟩

theorem used_setUsed (t : Tables) (playerId : PlayerId) (codeType : String) (u : UsedData) :
    (t.setUsed playerId codeType u).redeemCodeTypeUsedData playerId codeType = some u := by
  unfold setUsed
  dsimp only
  rw [Function.update_self, Function.update_self]

theorem setUsed_setUsed (t : Tables) (playerId : PlayerId) (codeType : String)
    (u v : UsedData) : (t.setUsed playerId codeType u).setUsed playerId codeType v =
      t.setUsed playerId codeType v := by
  unfold setUsed
  simp [Function.update_idem]

theorem resetUsed_resetUsed (t : Tables) (playerId : PlayerId) (codeType : String) :
    (t.resetUsed playerId codeType).resetUsed playerId codeType =
      t.resetUsed playerId codeType := by
  rcases resetUsed_cases t playerId codeType with heq | ⟨u, hu, hday, heq⟩
  · rw [heq, heq]
  · rw [heq]
    unfold resetUsed
    rw [used_setUsed]
    dsimp only
    split
    · rfl
    · rw [setUsed_setUsed]

theorem testUseLimit_twice {data : CodeData} {ref : Ref} {playerId : PlayerId}
    (h : (t.testUseLimit data ref playerId).1 = 0) :
    (t.testUseLimit data ref playerId).2.testUseLimit data ref playerId =
      (0, (t.testUseLimit data ref playerId).2) := by
  have hsame (hsnd : (t.testUseLimit data ref playerId).2 = t) :
      (t.testUseLimit data ref playerId).2.testUseLimit data ref playerId =
        (0, (t.testUseLimit data ref playerId).2) := by
    rw [hsnd]
    exact Prod.ext h hsnd
  cases hu : data.useType with
  | a limit =>
      refine hsame ?_
      unfold testUseLimit
      rw [hu]
      dsimp only
      split
      · rfl
      · split <;> rfl
  | b limit =>
      refine hsame ?_
      unfold testUseLimit
      rw [hu]
      dsimp only
      split
      · rfl
      · split <;> rfl
  | c =>
      unfold testUseLimit at h ⊢
      rw [hu] at h ⊢
      dsimp only at h ⊢
      have hcount : (t.resetUsed playerId data.codeType).usedCount ref = t.usedCount ref := by
        rcases resetUsed_cases t playerId data.codeType with heq | ⟨u, -, -, heq⟩
        · rw [heq]
        · rw [heq]
          rfl
      split at h
      · cases h
      · rename_i hzero
        split at h
        · cases h
        · rename_i hup
          rw [if_neg hzero, if_neg hup]
          dsimp only
          rw [hcount, if_neg hzero, resetUsed_resetUsed, if_neg hup]
  | other name =>
      refine hsame ?_
      unfold testUseLimit
      rw [hu]

theorem testUseLimit_spec (h : t.Sound) (data : CodeData) (ref : Ref) (playerId : PlayerId) :
    ((t.testUseLimit data ref playerId).1 ≠ 0 ∧ (t.testUseLimit data ref playerId).2 = t) ∨
      ((t.testUseLimit data ref playerId).1 = 0 ∧ Passes t data ref playerId ∧
        ((t.testUseLimit data ref playerId).2 = t ∨ (data.useType = .c ∧
          ∃ time, (t.testUseLimit data ref playerId).2 =
            t.setUsed playerId data.codeType { num := 0, time }))) := by
  unfold testUseLimit
  cases hu : data.useType with
  | a limit =>
      dsimp only
      split
      · exact .inl ⟨by simp, rfl⟩
      · rename_i hzero
        split
        · exact .inl ⟨by simp, rfl⟩
        · rename_i hup
          rw [Bool.not_eq_true] at hup
          refine .inr ⟨rfl, ⟨fun l hl => ?_, fun l hl => ?_, fun hc => ?_⟩, .inl rfl⟩
          · rw [hu] at hl
            obtain rfl := Option.some.inj hl
            omega
          · rw [hu] at hl
            obtain rfl := Option.some.inj hl
            exact usedUp_eq_false hup
          · rw [hu] at hc
            cases hc
  | b limit =>
      dsimp only
      split
      · exact .inl ⟨by simp, rfl⟩
      · rename_i hlt
        split
        · exact .inl ⟨by simp, rfl⟩
        · rename_i hup
          rw [Bool.not_eq_true] at hup
          refine .inr ⟨rfl, ⟨fun l hl => ?_, fun l hl => ?_, fun hc => ?_⟩, .inl rfl⟩
          · rw [hu] at hl
            obtain rfl := Option.some.inj hl
            omega
          · rw [hu] at hl
            obtain rfl := Option.some.inj hl
            exact usedUp_eq_false hup
          · rw [hu] at hc
            cases hc
  | c =>
      dsimp only
      split
      · exact .inl ⟨by simp, rfl⟩
      · rename_i hzero
        have hcode (l : Nat) (hl : codeLimit data.useType = some l) : t.usedCount ref < l := by
          rw [hu] at hl
          obtain rfl := Option.some.inj hl
          omega
        have hplayer (l : Nat) (hl : playerLimit data.useType = some l) :
            ∀ u, t.redeemCodeTypeUsedData playerId data.codeType = some u → u.num < l := by
          rw [hu] at hl
          cases hl
        rcases resetUsed_cases t playerId data.codeType with heq | ⟨u, hused, hday, heq⟩
        · rw [heq]
          split
          · exact .inl ⟨by simp, rfl⟩
          · rename_i hup
            rw [Bool.not_eq_true] at hup
            refine .inr ⟨rfl, ⟨hcode, hplayer, fun _ u hused => ?_⟩, .inl rfl⟩
            have hpos := (h.used _ _ u hused).pos
            have hlt := usedUp_eq_false hup u hused
            omega
        · have hup : (t.setUsed playerId data.codeType { u with num := 0 }).usedUp playerId
              data.codeType 1 = false := by
            unfold usedUp
            rw [used_setUsed]
            rfl
          rw [heq, hup, if_neg (by decide)]
          refine .inr ⟨rfl, ⟨hcode, hplayer, fun _ v hv => ?_⟩, .inr ⟨rfl, u.time, rfl⟩⟩
          rw [hused] at hv
          obtain rfl := Option.some.inj hv
          exact hday
  | other name =>
      refine .inr ⟨rfl, ⟨fun l hl => ?_, fun l hl => ?_, fun hc => ?_⟩, .inl rfl⟩
      · rw [hu] at hl
        cases hl
      · rw [hu] at hl
        cases hl
      · rw [hu] at hc
        cases hc

/-! ## New codes -/

theorem Tables.Limits.mono {t u : Tables} (h : t.Limits) (hrows : u.logRows = t.logRows)
    (hadded : ∀ d ∈ t.added, d ∈ u.added) : u.Limits := by
  refine ⟨fun codeType codeSubType keyCode limit hcodes => ?_,
    fun playerId codeType limit htype => ?_, fun playerId codeType day htype => ?_⟩
  · rw [hrows]
    exact h.code _ _ _ _ fun d hd => hcodes d (hadded d hd)
  · rw [hrows]
    exact h.player _ _ _ fun d hd => htype d (hadded d hd)
  · rw [hrows]
    exact h.day _ _ _ fun d hd => htype d (hadded d hd)

structure Grown (old : List Content) (data : CodeData) (new : List Content) : Prop where
  keys : (new.map Content.keyCode).Nodup
  kept : ∀ c ∈ old, c ∈ new
  fresh : ∀ c ∈ new, c ∈ old ∨ (c.usedCount = 0 ∧ c.codeType = data.codeType ∧
    c.codeSubType = data.codeSubType ∧ ∀ e ∈ old, e.keyCode ≠ c.keyCode)

theorem grown_put {old new : List Content} {data : CodeData} (h : Grown old data new)
    {key : String} (hkey : ∀ c ∈ old, c.keyCode ≠ key) :
    Grown old data (putContent new
      { codeType := data.codeType, codeSubType := data.codeSubType, keyCode := key }) := by
  have hapart (c : Content) (hc : c ∈ new)
      (hne : c.ref ≠ (data.codeType, data.codeSubType, key)) : c.keyCode ≠ key := by
    rintro rfl
    rcases h.fresh c hc with hold | ⟨-, htype, hsub, -⟩
    · exact hkey c hold rfl
    · exact hne (by rw [← htype, ← hsub]; rfl)
  refine ⟨?_, fun c hc => ?_, fun c hc => ?_⟩
  · unfold putContent
    rw [List.map_append, List.nodup_append]
    refine ⟨(h.keys.sublist (List.filter_sublist.map _)), by simp, ?_⟩
    intro k hk k' hk' heq
    obtain ⟨c, hc, rfl⟩ := List.mem_map.mp hk
    obtain ⟨hcnew, hcref⟩ := List.mem_filter.mp hc
    obtain rfl := List.mem_singleton.mp hk'
    exact hapart c hcnew (of_decide_eq_true hcref) heq
  · refine List.mem_append_left _ (List.mem_filter.mpr ⟨h.kept c hc, ?_⟩)
    refine decide_eq_true fun href => hkey c hc ?_
    exact congrArg (fun r : Ref => r.2.2) href
  · rcases List.mem_append.mp hc with hc | hc
    · exact h.fresh c (List.mem_filter.mp hc).1
    · obtain rfl := List.mem_singleton.mp hc
      exact .inr ⟨rfl, rfl, rfl, hkey⟩

theorem grown_newContents {old : List Content} {data : CodeData} {new : List Content}
    (h : Grown old data new) {keyCodes : List String}
    (hkeys : ∀ key ∈ keyCodes, ∀ c ∈ old, c.keyCode ≠ key) :
    Grown old data ((newContents data keyCodes).foldl putContent new) := by
  induction keyCodes generalizing new with
  | nil => exact h
  | cons key keyCodes ih =>
      exact ih (grown_put h (hkeys key (List.mem_cons_self ..)))
        fun k hk => hkeys k (List.mem_cons_of_mem _ hk)

theorem data_update {rcd : String → String → Option CodeData} {v d : CodeData}
    {codeType codeSubType : String}
    (h : putCodeData rcd v codeType codeSubType = some d) :
    (d = v ∧ v.codeType = codeType ∧ v.codeSubType = codeSubType) ∨
      rcd codeType codeSubType = some d := by
  unfold putCodeData at h
  by_cases ht : codeType = v.codeType
  · subst ht
    rw [Function.update_self] at h
    by_cases hs : codeSubType = v.codeSubType
    · subst hs
      rw [Function.update_self] at h
      exact .inl ⟨(Option.some.inj h).symm, rfl, rfl⟩
    · rw [Function.update_of_ne hs] at h
      exact .inr h
  · rw [Function.update_of_ne ht] at h
    exact .inr h

theorem sound_updateData (h : t.Sound) {data : CodeData} {keyCodes : List String}
    (hkeys : ∀ key ∈ keyCodes, ∀ c ∈ t.redeemCodeContent, c.keyCode ≠ key)
    (hpos : data.useType ≠ .a 0) : (t.updateData data keyCodes).Sound := by
  have hgrown : Grown t.redeemCodeContent data
      ((newContents data keyCodes).foldl putContent t.redeemCodeContent) :=
    grown_newContents ⟨h.keys, fun c hc => hc, fun c hc => .inl hc⟩ hkeys
  have hadded (d : CodeData) (hd : d ∈ t.added) : d ∈ t.added ++ [data] :=
    List.mem_append_left _ hd
  refine ⟨h.limits.mono rfl hadded, ?_, hgrown.keys, fun c hc => ?_, fun r hr => ?_,
    fun codeType codeSubType d hd => ?_, fun d hd => ?_, fun d hd => ?_, h.old, h.unused,
    fun playerId codeType u hu => ?_⟩
  · change (newContents data keyCodes).foldl putContent t.contentRows = _
    rw [h.rows]
    rfl
  · change c.usedCount = countRef t.logRows c.ref
    rcases hgrown.fresh c hc with hc | ⟨hzero, -, -, hfresh⟩
    · exact h.counts c hc
    · rw [hzero]
      refine (List.countP_eq_zero.mpr fun r hr href => ?_).symm
      obtain ⟨e, he, heref⟩ := h.known r hr
      exact hfresh e he (congrArg (fun r : Ref => r.2.2)
        (heref.trans (of_decide_eq_true href)))
  · obtain ⟨c, hc, href⟩ := h.known r hr
    exact ⟨c, hgrown.kept c hc, href⟩
  · rcases data_update hd with ⟨rfl, ht, hs⟩ | hd
    · exact ⟨List.mem_append_right _ (List.mem_singleton_self _), ht, hs⟩
    · obtain ⟨hmem, ht, hs⟩ := h.data _ _ d hd
      exact ⟨hadded d hmem, ht, hs⟩
  · change d ∈ (if _ then t.dataRows else t.dataRows ++ [data]) at hd
    split at hd
    · exact hadded d (h.dataRows d hd)
    · rcases List.mem_append.mp hd with hd | hd
      · exact hadded d (h.dataRows d hd)
      · exact List.mem_append_right _ hd
  · rcases List.mem_append.mp hd with hd | hd
    · exact h.positive d hd
    · obtain rfl := List.mem_singleton.mp hd
      exact hpos
  · have hcounts := h.used playerId codeType u hu
    exact ⟨hcounts.now, hcounts.last, fun htype => hcounts.num fun d hd => htype d (hadded d hd),
      hcounts.pos⟩

/-! ## A start of the service -/

structure Later (s u : State) : Prop where
  added : ∀ d ∈ s.added, d ∈ u.added
  content : ∀ c ∈ s.redeemCodeContent, ∃ e ∈ u.redeemCodeContent, e.ref = c.ref
  old : u.old = s.old

theorem Later.refl (s : State) : Later s s := ⟨fun _ h => h, fun c hc => ⟨c, hc, rfl⟩, rfl⟩

theorem Later.trans {s u v : State} (h : Later s u) (h' : Later u v) : Later s v := by
  refine ⟨fun d hd => h'.added d (h.added d hd), fun c hc => ?_, h'.old.trans h.old⟩
  obtain ⟨e, he, href⟩ := h.content c hc
  obtain ⟨f, hf, href'⟩ := h'.content e he
  exact ⟨f, hf, href'.trans href⟩

theorem later_of_tables {s u : State} (h : u.toTables = s.toTables) : Later s u := by
  refine ⟨fun d hd => ?_, fun c hc => ⟨c, ?_, rfl⟩, ?_⟩
  · rw [h]
    exact hd
  · rw [h]
    exact hc
  · rw [h]

variable {s : State} {data : CodeData} {ref : Ref} {playerId : PlayerId}

theorem checkUseLimit_tables (s : State) (data : CodeData) (ref : Ref) (playerId : PlayerId) :
    (s.checkUseLimit data ref playerId).toTables =
      (s.toTables.testUseLimit data ref playerId).2 := by
  unfold State.checkUseLimit
  dsimp only
  split
  · rfl
  · split <;> rfl

theorem checkUseLimit_result (s : State) (data : CodeData) (ref : Ref) (playerId : PlayerId) :
    (s.checkUseLimit data ref playerId).returnMsg.result =
      (s.toTables.testUseLimit data ref playerId).1 := by
  unfold State.checkUseLimit
  dsimp only
  split
  · rfl
  · split <;> rfl

theorem testUseLimit_tables (t : Tables) (data : CodeData) (ref : Ref) (playerId : PlayerId) :
    (t.testUseLimit data ref playerId).2 = t ∨
      ∃ u, (t.testUseLimit data ref playerId).2 = t.setUsed playerId data.codeType u := by
  unfold testUseLimit
  split
  · left
    split
    · rfl
    · split <;> rfl
  · left
    split
    · rfl
    · split <;> rfl
  · split
    · exact .inl rfl
    · have hreset : t.resetUsed playerId data.codeType = t ∨
          ∃ u, t.resetUsed playerId data.codeType = t.setUsed playerId data.codeType u := by
        rcases resetUsed_cases t playerId data.codeType with heq | ⟨u, -, -, heq⟩
        · exact .inl heq
        · exact .inr ⟨_, heq⟩
      dsimp only
      split <;> exact hreset
  · exact .inl rfl

theorem later_checkUseLimit (s : State) (data : CodeData) (ref : Ref) (playerId : PlayerId) :
    Later s (s.checkUseLimit data ref playerId) := by
  have htables := checkUseLimit_tables s data ref playerId
  rcases testUseLimit_tables s.toTables data ref playerId with heq | ⟨u, heq⟩
  · exact later_of_tables (htables.trans heq)
  · rw [heq] at htables
    refine ⟨fun d hd => ?_, fun c hc => ⟨c, ?_, rfl⟩, ?_⟩
    · rw [htables]
      exact hd
    · rw [htables]
      exact hc
    · rw [htables]
      rfl

theorem later_redeem (s : State) (data : CodeData) (ref : Ref) (playerId : PlayerId) :
    Later s (s.redeem data ref playerId) :=
  ⟨fun _ hd => hd, fun c hc => ⟨_, List.mem_map_of_mem hc, ref_bump ref _ c⟩, rfl⟩

theorem Asks.later {u : State} (h : Asks s.toTables data ref playerId) (hu : Later s u) :
    Asks u.toTables data ref playerId := by
  obtain ⟨c, hc, hcref⟩ := h.content
  obtain ⟨e, he, heref⟩ := hu.content c hc
  refine ⟨hu.added _ h.added, h.codeType, h.codeSubType, ⟨e, he, heref.trans hcref⟩, ?_⟩
  rw [hu.old]
  exact h.fresh

theorem checkErrorTimeLimit_tables (s : State) (playerId : PlayerId) :
    (s.checkErrorTimeLimit playerId).toTables = s.toTables := by
  unfold State.checkErrorTimeLimit
  split
  · rfl
  · split
    · split <;> rfl
    · rfl

theorem asks_of_found (h : s.Sound) {keyCode : String}
    (hfound : s.getRedeemCodeData keyCode = some (data, ref))
    (hfresh : ∀ r ∈ s.old, ¬r.of playerId data.codeType) :
    Asks s.toTables data ref playerId := by
  obtain ⟨c, hc, hdata⟩ := Option.bind_eq_some_iff.mp hfound
  obtain ⟨d, hd, heq⟩ := Option.map_eq_some_iff.mp hdata
  rw [Prod.mk.injEq] at heq
  obtain ⟨rfl, rfl⟩ := heq
  obtain ⟨hmem, htype, hsub⟩ := h.data _ _ d hd
  exact ⟨hmem, htype.symm, hsub.symm, ⟨c, List.mem_of_find?_eq_some hc, rfl⟩, hfresh⟩

theorem sound_redeem (h : s.Sound) (hasks : Asks s.toTables data ref playerId)
    (hpass : (s.testUseLimit data ref playerId).1 = 0) :
    ((s.testUseLimit data ref playerId).2.redeem data ref playerId).Sound := by
  rcases testUseLimit_spec h data ref playerId with ⟨hfail, -⟩ | ⟨-, hpasses, hsame | hreset⟩
  · exact absurd hpass hfail
  · rw [hsame, redeem_eq]
    refine sound_redeemFrom h hasks hpasses fun htype => ?_
    cases hused : s.redeemCodeTypeUsedData playerId data.codeType with
    | none => exact (countPlayer_eq_zero (h.unused _ _ hused)).symm
    | some u => exact (h.used _ _ u hused).num htype
  · obtain ⟨hc, time, heq⟩ := hreset
    rw [heq, redeem_setUsed]
    exact sound_redeemFrom h hasks hpasses fun htype =>
      absurd hc (htype data hasks.added rfl)

abbrev SoundTill {α : Type} (Q : α → State → Prop) (p : Prog State Ask Answer α) : Prop :=
  p.Sat (fun _ _ => True) (fun s u => u.Sound ∧ Later s u) (fun _ => True)
    (fun s => s.Sound) (fun s => s.Sound) Q

theorem sound_checkUseTimeLimit (h : s.Sound) (hasks : Asks s.toTables data ref playerId) :
    SoundTill (fun _ u => u.Sound ∧ Asks u.toTables data ref playerId)
      (State.checkUseTimeLimit data playerId s) := by
  unfold State.checkUseTimeLimit
  split
  · exact ⟨h, hasks⟩
  · refine ⟨h, fun a u _ hu _ => ?_⟩
    have hlater := hasks.later hu.2
    cases a with
    | registered time =>
        dsimp only
        split
        · exact ⟨hu.1, hlater⟩
        · exact ⟨hu.1, hlater⟩
    | error => exact hu.1

theorem sound_useKeyCode (h : s.Sound) {keyCode : String}
    (hfresh : ∀ x ∈ s.getRedeemCodeData keyCode.toLower, ∀ r ∈ s.old,
      ¬r.of playerId x.1.codeType) :
    SoundTill (fun _ u => u.Sound) (s.useKeyCode playerId keyCode) := by
  unfold State.useKeyCode
  split
  · exact h
  · have htables := checkErrorTimeLimit_tables s playerId
    dsimp only
    split
    · change (s.checkErrorTimeLimit playerId).toTables.Sound
      rw [htables]
      exact h
    · have hlock : ((s.checkErrorTimeLimit playerId).setLock playerId true).toTables =
          s.toTables := htables
      split
      · change ((s.checkErrorTimeLimit playerId).setLock playerId true).toTables.Sound
        rw [hlock]
        exact h
      · rename_i data ref hfound
        rw [hlock] at hfound
        have hasks : Asks s.toTables data ref playerId :=
          asks_of_found h hfound (hfresh _ hfound)
        rw [← hlock] at h hasks
        refine (sound_checkUseTimeLimit h hasks).bind fun _ u hu => ?_
        obtain ⟨hsound, hasks⟩ := hu
        split
        · exact hsound
        · have hcheck := checkUseLimit_tables u data ref playerId
          have hresult := checkUseLimit_result u data ref playerId
          split
          · rename_i hfail
            rw [hresult] at hfail
            rcases testUseLimit_spec hsound data ref playerId with ⟨-, hsame⟩ | ⟨hpass, -⟩
            · change (u.checkUseLimit data ref playerId).toTables.Sound
              rw [hcheck, hsame]
              exact hsound
            · exact absurd hpass hfail
          · rename_i hpass
            rw [not_not, hresult] at hpass
            have hcheck' := checkUseLimit_tables (u.checkUseLimit data ref playerId) data ref
              playerId
            have hresult' := checkUseLimit_result (u.checkUseLimit data ref playerId) data ref
              playerId
            rw [hcheck, testUseLimit_twice hpass] at hcheck' hresult'
            split
            · rename_i hfail
              exact absurd hresult' hfail
            · change (((u.checkUseLimit data ref playerId).checkUseLimit data ref
                playerId).toTables.redeem data ref playerId).Sound
              rw [hcheck']
              exact sound_redeem hsound hasks hpass

theorem within_bind {α β : Type} {p : Prog State Ask Answer α} {f : α → Op β}
    (hp : p.Within Later s) (hf : ∀ a u, (f a u).Within Later u) :
    (p.bind f).Within Later s :=
  Prog.Within.bind (R := Later) (fun h h' => Later.trans h h') hp hf

theorem within_useKeyCode (s : State) (playerId : PlayerId) (keyCode : String) :
    (s.useKeyCode playerId keyCode).Within Later s := by
  unfold State.useKeyCode
  split
  · exact later_of_tables rfl
  · have htables := checkErrorTimeLimit_tables s playerId
    dsimp only
    split
    · exact later_of_tables htables
    · split
      · exact later_of_tables htables
      · rename_i data ref hfound
        refine within_bind ?_ fun _ u => ?_
        · unfold State.checkUseTimeLimit
          split
          · exact later_of_tables htables
          · refine ⟨later_of_tables htables, fun a u => ?_⟩
            cases a with
            | registered time =>
                dsimp only
                split <;> exact later_of_tables rfl
            | error => exact Later.refl u
        · split
          · exact later_of_tables rfl
          · have hfirst := later_checkUseLimit u data ref playerId
            have hsecond := hfirst.trans
              (later_checkUseLimit (u.checkUseLimit data ref playerId) data ref playerId)
            split
            · exact hfirst.trans (later_of_tables rfl)
            · split
              · exact hsecond.trans (later_of_tables rfl)
              · exact hsecond.trans (later_redeem _ data ref playerId)

/-! ## Runs -/

/-- Codes that are added are new, and a player who used a code of a type before the last
start asks for no other one of it; a type A lets its players use a code at all. -/
def Event.Careful (s : State) : Event → Prop
  | .useKeyCode playerId keyCode => ∀ x ∈ s.getRedeemCodeData keyCode.toLower,
      ∀ r ∈ s.old, ¬r.of playerId x.1.codeType
  | .addRedeemCodeData data keyCodes =>
      (∀ key ∈ keyCodes.map String.toLower, ∀ c ∈ s.redeemCodeContent, c.keyCode ≠ key) ∧
        data.useType ≠ .a 0
  | .clearError _ | .clock _ => True

instance (s : State) : (e : Event) → Decidable (e.Careful s)
  | .useKeyCode playerId keyCode =>
      inferInstanceAs (Decidable (∀ x ∈ s.getRedeemCodeData keyCode.toLower,
        ∀ r ∈ s.old, ¬r.of playerId x.1.codeType))
  | .addRedeemCodeData data keyCodes =>
      inferInstanceAs (Decidable
        ((∀ key ∈ keyCodes.map String.toLower, ∀ c ∈ s.redeemCodeContent, c.keyCode ≠ key) ∧
          data.useType ≠ .a 0))
  | .clearError _ | .clock _ => inferInstanceAs (Decidable True)

def Service.Careful (w : Service) : Happening → Prop
  | .input i => w.Admits (fun _ _ => True) (fun s e => e.Careful s) (fun _ => True) i
  | .restart => True

instance (w : Service) : (e : Happening) → Decidable (Service.Careful w e)
  | .input i => inferInstanceAs (Decidable (w.Admits (fun _ _ => True)
      (fun s e => e.Careful s) (fun _ => True) i))
  | .restart => inferInstanceAs (Decidable True)

theorem sound_handle {e : Event} (h : s.Sound) (he : e.Careful s) :
    (handle e s).Tracks (fun _ _ => True) (fun _ => True) (fun s => s.Sound) Later := by
  cases e with
  | useKeyCode playerId keyCode => exact sound_useKeyCode h he
  | addRedeemCodeData data keyCodes => exact sound_updateData h he.1 he.2
  | clearError playerId => exact h
  | clock seconds =>
      refine ⟨h.limits.mono rfl fun d hd => hd, h.rows, h.keys, h.counts, h.known, h.data,
        h.dataRows, h.positive, h.old, h.unused, fun playerId codeType u hu => ?_⟩
      have hcounts := h.used playerId codeType u hu
      refine ⟨hcounts.now.trans ?_, hcounts.last, hcounts.num, hcounts.pos⟩
      change s.now ≤ s.now + (seconds : Int)
      omega

theorem exists_ref {contents rows : List Content} {ref : Ref}
    (h : ∃ c ∈ contents, c.ref = ref) : ∃ e ∈ rows.foldl putContent contents, e.ref = ref := by
  induction rows generalizing contents with
  | nil => exact h
  | cons x rows ih =>
      refine ih ?_
      obtain ⟨c, hc, rfl⟩ := h
      by_cases heq : c.ref = x.ref
      · exact ⟨x, List.mem_append_right _ (List.mem_singleton_self _), heq.symm⟩
      · exact ⟨c, List.mem_append_left _
          (List.mem_filter.mpr ⟨hc, decide_eq_true heq⟩), rfl⟩

theorem within_handle (e : Event) (s : State) : (handle e s).Within Later s := by
  cases e with
  | useKeyCode playerId keyCode => exact within_useKeyCode s playerId keyCode
  | addRedeemCodeData data keyCodes =>
      exact ⟨fun d hd => List.mem_append_left _ hd, fun c hc => exists_ref ⟨c, hc, rfl⟩, rfl⟩
  | clearError playerId => exact later_of_tables rfl
  | clock seconds => exact ⟨fun _ hd => hd, fun c hc => ⟨c, hc, rfl⟩, rfl⟩

def Service.start : Service := ⟨{}, []⟩

def use (playerId : PlayerId) (keyCode : String) : List Happening :=
  [.input (.command (.useKeyCode playerId keyCode)), .input (.answer 0 (.registered (some 5)))]

end JyQipai.RedeemCode
