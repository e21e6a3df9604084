import JyQipai.Friendgame.Vote

/-!
# The order of the votes

Whatever the order in which the players of a full room vote, the vote ends at the latest with the
last of them, and with the result that all the votes give.
-/

namespace JyQipai.Friendgame.Vote

open Lib

def core (s : Rooms) :=
  (fun r => (s.gameInfo r).map fun room => { room with lockJoin := false }, s.results, s.breaks)

def Locks (s t : Rooms) : Prop := core s = core t

theorem Locks.room {s t : Rooms} (h : Locks s t) {roomNo : RoomNo} {cur : Room}
    (hcur : t.gameInfo roomNo = some cur) :
    ∃ old lockJoin, s.gameInfo roomNo = some old ∧ cur = { old with lockJoin } := by
  have hmap := congrFun (congrArg Prod.fst h) roomNo
  simp only [core, hcur, Option.map_some] at hmap
  obtain ⟨old, hold, heq⟩ := Option.map_eq_some_iff.mp hmap
  refine ⟨old, cur.lockJoin, hold, ?_⟩
  cases old
  cases cur
  cases heq
  rfl

theorem locks_lock (s : Rooms) (roomNo : RoomNo) : Locks s (s.lock roomNo) := by
  refine Prod.ext (funext fun r => ?_) rfl
  change (s.gameInfo r).map _ = (Function.update s.gameInfo roomNo _ r).map _
  by_cases hr : r = roomNo
  · subst hr
    rw [Function.update_self, Option.map_map]
    rfl
  · rw [Function.update_of_ne hr]

structure Elsewhere (roomNo : RoomNo) (s t : Rooms) : Prop where
  entry : t.gameInfo roomNo = s.gameInfo roomNo
  results : resultsOf t roomNo = resultsOf s roomNo
  breaks : breaksOf t roomNo = breaksOf s roomNo

theorem Elsewhere.refl (roomNo : RoomNo) (s : Rooms) : Elsewhere roomNo s s := ⟨rfl, rfl, rfl⟩

section Handlers

variable {s : Rooms} {roomNo : RoomNo} {Q : Rooms → Prop} {playerId : PlayerId} {options now : Int}

def afterVote (s : Rooms) (roomNo : RoomNo) (room : Room) (result now : Int) : Rooms :=
  { (s.setRoom roomNo { room with lastVoteTime := some now, isVote := false }).tell room
      (.overVote result) with
    results := s.results ++ [(roomNo, result)]
    breaks := s.breaks ++ if result = 0 then [roomNo] else [] }

theorem leads_overTheVote {room : Room} {result : Int}
    (hQ : Q (afterVote s roomNo room result now)) :
    (Rooms.overTheVote roomNo room result now s).Leads Locks Q := by
  unfold Rooms.overTheVote
  unfold afterVote at hQ
  dsimp only
  split
  · rename_i hzero
    rw [if_pos hzero] at hQ
    refine ⟨hQ, ?_⟩
    rintro (n | _) u
    · change Locks u (if n = 0 then u.lock roomNo else u)
      split
      · exact locks_lock u roomNo
      · rfl
    · rfl
  · rename_i hzero
    rw [if_neg hzero, List.append_nil] at hQ
    exact hQ

def afterCount (s : Rooms) (roomNo : RoomNo) (room : Room) (playerId : PlayerId) (options : Int) :
    Rooms :=
  (s.setRoom roomNo (room.count playerId options)).tell (room.count playerId options)
    (.playerVote playerId options)

theorem leads_playerVote
    (hrefused : (∀ cur, s.gameInfo roomNo = some cur → cur.isVote = true →
      cur.votePlayerFlag playerId ≠ none) → Q s)
    (hcounted : ∀ cur, s.gameInfo roomNo = some cur → cur.isVote = true →
      cur.votePlayerFlag playerId = none →
      let room := cur.count playerId options
      (Rooms.verdict room.maxPlayer room.voteAgreeCount room.voteDisagreeCount).elim
        (Q (afterCount s roomNo cur playerId options)) fun result =>
          Q (afterVote (afterCount s roomNo cur playerId options) roomNo room result now)) :
    (Rooms.playerVoteCancelRoom roomNo playerId options now s).Leads Locks Q := by
  unfold Rooms.playerVoteCancelRoom
  split
  · exact hrefused fun cur hcur => by simp_all
  rename_i room hroom
  split
  · rename_i hopen
    have hcount := hcounted room hroom hopen.1 hopen.2
    refine Prog.Leads.map ?_ fun _ => 0
    unfold Rooms.checkVoteIsOver
    dsimp only at hcount ⊢
    split
    · rename_i result hresult
      rw [hresult] at hcount
      exact leads_overTheVote hcount
    · rename_i hresult
      rw [hresult] at hcount
      exact hcount
  · rename_i hclosed
    exact hrefused fun cur hcur hvote hflag => by simp_all

end Handlers

section Elsewhere

variable {s : Rooms} {roomNo r : RoomNo} {playerId : PlayerId} {now : Int}

theorem elsewhere_setRoom (hr : r ≠ roomNo) (room : Room) :
    Elsewhere roomNo s (s.setRoom r room) :=
  ⟨Function.update_of_ne hr.symm _ _, rfl, rfl⟩

theorem elsewhere_afterVote (hr : r ≠ roomNo) (room : Room) (result : Int) {t : Rooms}
    (ht : Elsewhere roomNo s t) : Elsewhere roomNo s (afterVote t r room result now) := by
  refine ⟨(Function.update_of_ne hr.symm _ _).trans ht.entry, ?_, ?_⟩
  · rw [← ht.results, resultsOf, resultsOf]
    change (t.results ++ [(r, result)]).filter _ = _
    rw [List.filter_append, List.filter_singleton, decide_eq_false hr, Bool.cond_false,
      List.append_nil]
  · rw [← ht.breaks, breaksOf, breaksOf]
    change (t.breaks ++ if result = 0 then [r] else []).filter _ = _
    split
    · rw [List.filter_append, List.filter_singleton, decide_eq_false hr, Bool.cond_false,
        List.append_nil]
    · rw [List.append_nil]

theorem elsewhere_playerVote (hr : r ≠ roomNo) (options : Int) {t : Rooms}
    (ht : Elsewhere roomNo s t) :
    (Rooms.playerVoteCancelRoom r playerId options now t).Leads Locks (Elsewhere roomNo s) := by
  refine leads_playerVote (fun _ => ht) fun cur _ _ _ => ?_
  have hcount : Elsewhere roomNo s (afterCount t r cur playerId options) :=
    ⟨(Function.update_of_ne hr.symm _ _).trans ht.entry, ht.results, ht.breaks⟩
  dsimp only
  cases Rooms.verdict (cur.count playerId options).maxPlayer
      (cur.count playerId options).voteAgreeCount
      (cur.count playerId options).voteDisagreeCount with
  | none => exact hcount
  | some result => exact elsewhere_afterVote hr _ result hcount

end Elsewhere

theorem leads_beginVote {s : Rooms} {roomNo : RoomNo} {Q : Rooms → Prop} {playerId : PlayerId}
    {now : Int}
    (hrefused : (∀ cur, s.gameInfo roomNo = some cur → cur.isVote = false →
      ∃ time ∈ cur.lastVoteTime, now - time ≤ 10) → Q s)
    (hbegun : ∀ cur, s.gameInfo roomNo = some cur → cur.isVote = false →
      (∀ time ∈ cur.lastVoteTime, 10 < now - time) →
        (Rooms.playerVoteCancelRoom roomNo playerId 1 now
          ((s.setRoom roomNo cur.beginVote).tell cur.beginVote
            (.beginVote playerId voteCountdown))).Leads Locks Q) :
    (Rooms.beginVoteCancelRoom roomNo playerId now s).Leads Locks Q := by
  unfold Rooms.beginVoteCancelRoom
  split
  · exact hrefused fun cur hcur => by simp_all
  rename_i room hroom
  split
  · exact hrefused fun cur hcur hvote => by simp_all
  rename_i hvote
  split
  · rename_i htime
    exact (hbegun room hroom (by simpa using hvote) htime).map fun _ => 0
  · rename_i htime
    refine hrefused fun cur hcur _ => ?_
    rw [hroom] at hcur
    cases hcur
    simpa only [not_forall, not_lt, exists_prop] using htime

/-! ## The room -/

theorem foretells_verdict {n : Nat} (hn : 2 ≤ n) :
    Foretells n (Rooms.verdict n) fun disagree =>
      if (if n = 2 then disagree = 0 else disagree ≤ 1) then 0 else 1 where
  early {a d e r} hr hle hroom := by
    unfold Rooms.verdict at hr
    split_ifs at hr ⊢ <;> simp_all <;> omega
  complete {a d} hall := by
    unfold Rooms.verdict
    split_ifs <;> simp_all <;> omega

/-- The counters of a vote that goes on are those of the players in `voted`. -/
structure Counts (room : Room) (yes : PlayerId → Prop) [DecidablePred yes]
    (voted : Finset PlayerId) (cur : Room) : Prop where
  isVote : cur.isVote = true
  maxPlayer : cur.maxPlayer = room.maxPlayer
  playerNum : cur.playerNum = room.maxPlayer
  flag : ∀ p, cur.votePlayerFlag p = none ↔ p ∉ voted
  agree : cur.voteAgreeCount = (voted.filter yes).card
  disagree : cur.voteDisagreeCount = (voted.filter fun p => ¬yes p).card
  count : cur.voteCount = voted.card

theorem Counts.cast {room cur : Room} {yes : PlayerId → Prop} [DecidablePred yes]
    {voted : Finset PlayerId} (h : Counts room yes voted cur) {p : PlayerId} (hp : p ∉ voted)
    {options : Int} (hoptions : options = 1 ↔ yes p) :
    Counts room yes (insert p voted) (cur.count p options) where
  isVote := h.isVote
  maxPlayer := h.maxPlayer
  playerNum := h.playerNum
  flag q := by
    rw [Finset.mem_insert, not_or, ← h.flag q, Room.count]
    by_cases hq : q = p
    · subst hq
      simp
    · simp [hq]
  agree := by
    rw [Finset.filter_insert]
    by_cases hyes : yes p
    · rw [if_pos hyes, Finset.card_insert_of_notMem fun hin => hp (Finset.mem_filter.mp hin).1,
        ← h.agree]
      simp [Room.count, hoptions, hyes]
    · rw [if_neg hyes, ← h.agree]
      simp [Room.count, hoptions, hyes]
  disagree := by
    rw [Finset.filter_insert]
    by_cases hyes : yes p
    · rw [if_neg (not_not.mpr hyes), ← h.disagree]
      simp [Room.count, hoptions, hyes]
    · rw [if_pos hyes, Finset.card_insert_of_notMem fun hin => hp (Finset.mem_filter.mp hin).1,
        ← h.disagree]
      simp [Room.count, hoptions, hyes]
  count := by
    rw [Finset.card_insert_of_notMem hp, ← h.count]
    rfl

section Course

variable {before : Rooms} {roomNo : RoomNo} {room : Room} {votes : PlayerId → Int}
  {starter : PlayerId} {voted : Finset PlayerId} {s t : Rooms}

variable (before roomNo room votes starter) in
inductive Course (voted : Finset PlayerId) (s : Rooms) : Prop
  | going (cur : Room) (entry : s.gameInfo roomNo = some cur)
      (counts : Counts room (fun p => counted votes starter p = 1) voted cur)
      (undecided : Rooms.verdict room.maxPlayer cur.voteAgreeCount cur.voteDisagreeCount = none)
      (results : resultsOf s roomNo = resultsOf before roomNo)
      (breaks : breaksOf s roomNo = breaksOf before roomNo)
  | ended (h : Ended before s roomNo room.maxPlayer (resultOf room votes starter))

theorem Course.locks (h : Course before roomNo room votes starter voted s) (hlocks : Locks s t) :
    Course before roomNo room votes starter voted t := by
  have hresults : resultsOf t roomNo = resultsOf s roomNo := by
    rw [resultsOf, resultsOf, show t.results = s.results from (congrArg (·.2.1) hlocks).symm]
  have hbreaks : breaksOf t roomNo = breaksOf s roomNo := by
    rw [breaksOf, breaksOf, show t.breaks = s.breaks from (congrArg (·.2.2) hlocks).symm]
  cases h with
  | going cur entry counts undecided results breaks =>
      obtain ⟨old, lock, hold, rfl⟩ := Locks.room (s := t) (t := s) hlocks.symm entry
      exact .going old hold ⟨counts.isVote, counts.maxPlayer, counts.playerNum, counts.flag,
        counts.agree, counts.disagree, counts.count⟩ undecided (hresults.trans results)
        (hbreaks.trans breaks)
  | ended h =>
      refine .ended ⟨fun cur hcur => ?_, fun cur hcur => ?_, hresults.trans h.results,
        hbreaks.trans h.breaks⟩
      · obtain ⟨old, lock, hold, rfl⟩ := hlocks.room hcur
        exact h.closed old hold
      · obtain ⟨old, lock, hold, rfl⟩ := hlocks.room hcur
        exact h.votes old hold

theorem Course.elsewhere (h : Course before roomNo room votes starter voted s)
    (ht : Elsewhere roomNo s t) : Course before roomNo room votes starter voted t := by
  cases h with
  | going cur entry counts undecided results breaks =>
      exact .going cur (ht.entry.trans entry) counts undecided (ht.results.trans results)
        (ht.breaks.trans breaks)
  | ended h =>
      refine .ended ⟨fun cur hcur => h.closed cur (ht.entry ▸ hcur), fun cur hcur =>
        h.votes cur (ht.entry ▸ hcur), ht.results.trans h.results, ht.breaks.trans h.breaks⟩

theorem resultOf_eq (hnodup : room.players.Nodup) : resultOf room votes starter =
    if (if room.maxPlayer = 2 then
        (room.players.toFinset.filter fun p => ¬counted votes starter p = 1).card = 0
      else (room.players.toFinset.filter fun p => ¬counted votes starter p = 1).card ≤ 1)
    then 0 else 1 := by
  have hcard : (room.players.toFinset.filter fun p => ¬counted votes starter p = 1).card =
      room.players.countP fun p => counted votes starter p ≠ 1 := by
    have hfilter : room.players.toFinset.filter (fun p => ¬counted votes starter p = 1) =
        (room.players.filter fun p => counted votes starter p ≠ 1).toFinset := by
      ext p
      simp
    rw [hfilter, List.toFinset_card_of_nodup (hnodup.filter _), List.countP_eq_length_filter]
  rw [hcard]
  rfl

theorem course_count {cur : Room} {now options : Int} {p : PlayerId}
    (htwo : 2 ≤ room.maxPlayer) (hfull : room.players.length = room.maxPlayer)
    (hnodup : room.players.Nodup) (hsub : voted ⊆ room.players.toFinset) (hp : p ∉ voted)
    (hmember : p ∈ room.players) (hoptions : options = 1 ↔ counted votes starter p = 1)
    (hcounts : Counts room (fun p => counted votes starter p = 1) voted cur)
    (hresults : resultsOf s roomNo = resultsOf before roomNo)
    (hbreaks : breaksOf s roomNo = breaksOf before roomNo) :
    (Rooms.verdict (cur.count p options).maxPlayer (cur.count p options).voteAgreeCount
        (cur.count p options).voteDisagreeCount).elim
      (Course before roomNo room votes starter (insert p voted) (afterCount s roomNo cur p options))
      fun result => Course before roomNo room votes starter (insert p voted)
        (afterVote (afterCount s roomNo cur p options) roomNo (cur.count p options) result
          now) := by
  have hcast := hcounts.cast hp hoptions
  have hsub' : insert p voted ⊆ room.players.toFinset :=
    Finset.insert_subset (List.mem_toFinset.mpr hmember) hsub
  have hcard : room.players.toFinset.card = room.maxPlayer :=
    (List.toFinset_card_of_nodup hnodup).trans hfull
  rw [hcast.maxPlayer]
  cases hverdict : Rooms.verdict room.maxPlayer (cur.count p options).voteAgreeCount
      (cur.count p options).voteDisagreeCount with
  | none => exact .going _ (Function.update_self _ _ _) hcast hverdict hresults hbreaks
  | some result =>
      obtain rfl : resultOf room votes starter = result := by
        rw [hcast.agree, hcast.disagree] at hverdict
        rw [resultOf_eq hnodup]
        exact (foretells_verdict htwo).eq_final hcard hsub' hverdict
      refine .ended ⟨?_, ?_, ?_, ?_⟩
      · intro cur' hcur'
        cases (Function.update_self _ _ _).symm.trans hcur'
        rfl
      · intro cur' hcur'
        cases (Function.update_self _ _ _).symm.trans hcur'
        change (cur.count p options).voteCount ≤ _
        rw [hcast.count, ← hcard]
        exact Finset.card_le_card hsub'
      · rw [← hresults, resultsOf, resultsOf]
        change (s.results ++ [(roomNo, resultOf room votes starter)]).filter _ = _
        rw [List.filter_append, List.filter_singleton, decide_eq_true rfl, Bool.cond_true]
      · rw [← hbreaks, breaksOf, breaksOf]
        change (s.breaks ++ if resultOf room votes starter = 0 then [roomNo] else []).filter _ = _
        rw [List.filter_append]
        congr 1
        split
        · rw [List.filter_singleton, decide_eq_true rfl, Bool.cond_true]
        · rfl

end Course

/-! ## The run -/

def voterOf (roomNo : RoomNo) : Input Event Answer → Finset PlayerId
  | .command (.playerVoteCancelRoom r p _ _) => if r = roomNo then {p} else ∅
  | _ => ∅

section Run

variable {start : Rooms} {roomNo : RoomNo} {room : Room} {votes : PlayerId → Int}
  {starter : PlayerId} {voted : Finset PlayerId} {time : Int}

theorem course_begin (h : Ready start roomNo room time) (hstarter : starter ∈ room.players) :
    (Rooms.beginVoteCancelRoom roomNo starter time start).Leads Locks
      (Course start roomNo room votes starter {starter}) := by
  refine leads_beginVote (fun hrefused => ?_) fun cur hcur _ _ => ?_
  · obtain ⟨last, hlast, hle⟩ := hrefused room h.entry h.isVote
    exact absurd (h.time last hlast) (not_lt.mpr hle)
  obtain rfl : room = cur := Option.some.inj (h.entry.symm.trans hcur)
  have hentry : ((start.setRoom roomNo room.beginVote).tell room.beginVote
      (.beginVote starter voteCountdown)).gameInfo roomNo = some room.beginVote :=
    Function.update_self _ _ _
  refine leads_playerVote (fun hrefused => ?_) fun cur hcur' _ _ => ?_
  · exact absurd rfl (hrefused _ hentry rfl)
  obtain rfl : room.beginVote = cur := Option.some.inj (hentry.symm.trans hcur')
  have hyes : counted votes starter starter = 1 := if_pos rfl
  exact course_count h.two_le h.full h.nodup (Finset.empty_subset _) (Finset.notMem_empty _)
    hstarter (iff_of_true rfl hyes) ⟨rfl, rfl, h.count, by simp [Room.beginVote], rfl, rfl, rfl⟩
    rfl rfl

variable {before : Rooms}

theorem Course.join {s : Rooms} (hs : Course before roomNo room votes starter voted s)
    (p : PlayerId) (r : RoomNo) (roomCard : Int) :
    (Rooms.joinFriendRoom p r roomCard s).Leads Locks
      (Course before roomNo room votes starter voted) := by
  unfold Rooms.joinFriendRoom
  split
  · exact hs
  rename_i cur hcur
  split
  · exact hs
  split
  · exact hs
  rename_i hroom
  split
  · exact hs
  split
  · exact hs
  by_cases hr : r = roomNo
  · subst hr
    cases hs with
    | going cur' entry counts undecided results breaks =>
        obtain rfl : cur = cur' := Option.some.inj (hcur.symm.trans entry)
        exact absurd (by rw [counts.playerNum, counts.maxPlayer]) hroom
    | ended hended =>
        refine .ended ⟨?_, ?_, hended.results, hended.breaks⟩
        · intro cur' hcur'
          cases (Function.update_self _ _ _).symm.trans hcur'
          exact hended.closed cur hcur
        · intro cur' hcur'
          cases (Function.update_self _ _ _).symm.trans hcur'
          exact hended.votes cur hcur
  · exact hs.elsewhere (elsewhere_setRoom hr _)

variable (h : Ready before roomNo room time)

include h

theorem Course.playerVote {s : Rooms} {p : PlayerId} {options now : Int}
    (hs : Course before roomNo room votes starter voted s)
    (hsub : voted ⊆ room.players.toFinset) (hstarter : starter ∈ voted) (hp : p ∈ room.players)
    (hoptions : ∀ cur ∈ s.gameInfo roomNo, cur.isVote = true → cur.votePlayerFlag p = none →
      options = votes p) :
    (Rooms.playerVoteCancelRoom roomNo p options now s).Leads Locks
      (Course before roomNo room votes starter (voted ∪ {p})) := by
  rw [Finset.union_comm, ← Finset.insert_eq]
  cases hs with
  | going cur entry counts undecided results breaks =>
      refine leads_playerVote (fun hrefused => ?_) fun cur' hcur' hvote hflag => ?_
      · have hin : p ∈ voted := by
          by_contra hout
          exact hrefused cur entry counts.isVote ((counts.flag p).mpr hout)
        rw [Finset.insert_eq_of_mem hin]
        exact .going cur entry counts undecided results breaks
      · obtain rfl : cur = cur' := Option.some.inj (entry.symm.trans hcur')
        have hout := (counts.flag p).mp hflag
        have hne : p ≠ starter := fun heq => hout (heq ▸ hstarter)
        refine course_count h.two_le h.full h.nodup hsub hout hp ?_ counts results breaks
        rw [hoptions cur entry hvote hflag, counted, if_neg hne]
  | ended hended =>
      refine leads_playerVote (fun _ => .ended hended) fun cur hcur hvote _ => ?_
      rw [hended.closed cur hcur] at hvote
      cases hvote

theorem Course.command {s : Rooms} {e : Event} {w : Service} (hw : w.state = s)
    (hs : Course before roomNo room votes starter voted s)
    (hsub : voted ⊆ room.players.toFinset) (hstarter : starter ∈ voted)
    (hok : Meanwhile roomNo room votes w (.command e)) :
    (handle e s).Leads Locks
      (Course before roomNo room votes starter (voted ∪ voterOf roomNo (.command e))) := by
  subst hw
  cases e with
  | playerVoteCancelRoom r p options now =>
      rw [voterOf]
      by_cases hr : r = roomNo
      · subst hr
        obtain ⟨hp, hoptions⟩ := hok rfl
        rw [if_pos rfl]
        exact hs.playerVote h hsub hstarter hp hoptions
      · rw [if_neg hr, Finset.union_empty]
        exact (elsewhere_playerVote hr options (.refl _ _)).mono fun _ => hs.elsewhere
  | beginVoteCancelRoom r p now =>
      have hnone : voterOf roomNo (.command (.beginVoteCancelRoom r p now)) = ∅ := rfl
      rw [hnone, Finset.union_empty]
      by_cases hr : r = roomNo
      · subst hr
        refine leads_beginVote (fun _ => hs) fun cur hcur hvote htime => ?_
        obtain ⟨last, hlast, hle⟩ := hok rfl cur hcur hvote
        exact absurd (htime last hlast) (not_lt.mpr hle)
      · refine (leads_beginVote (fun _ => .refl _ _) fun cur _ _ _ => ?_).mono fun _ => hs.elsewhere
        exact elsewhere_playerVote hr 1 ⟨Function.update_of_ne (Ne.symm hr) _ _, rfl, rfl⟩
  | joinFriendRoom p r roomCard =>
      have hnone : voterOf roomNo (.command (.joinFriendRoom p r roomCard)) = ∅ := rfl
      rw [hnone, Finset.union_empty]
      exact hs.join p r roomCard
  | tableFinish r =>
      have hnone : voterOf roomNo (.command (.tableFinish r)) = ∅ := rfl
      rw [hnone, Finset.union_empty]
      by_cases hr : r = roomNo
      · subst hr
        cases hs with
        | going cur entry counts undecided results breaks =>
            have hvote := hok rfl cur entry
            rw [counts.isVote] at hvote
            cases hvote
        | ended hended =>
            have hgone (cur : Room) : Function.update w.state.gameInfo r none r ≠ some cur := by
              rw [Function.update_self]
              exact (Option.some_ne_none cur).symm
            exact .ended ⟨fun cur hcur => absurd hcur (hgone cur),
              fun cur hcur => absurd hcur (hgone cur), hended.results, hended.breaks⟩
      · exact hs.elsewhere ⟨Function.update_of_ne (Ne.symm hr) _ _, rfl, rfl⟩

theorem Course.step {w : Service} (hw : w.AllWithin Locks)
    (hs : Course before roomNo room votes starter voted w.state)
    (hsub : voted ⊆ room.players.toFinset) (hstarter : starter ∈ voted) {i : Input Event Answer}
    (hok : Meanwhile roomNo room votes w i) : (w.step handle i).AllWithin Locks ∧
      Course before roomNo room votes starter (voted ∪ voterOf roomNo i)
        (w.step handle i).state := by
  cases i with
  | command e => exact hw.command (hs.command h rfl hsub hstarter hok)
  | answer i a =>
      have hanswer : (w.step handle (.answer i a)).AllWithin Locks ∧
          Locks w.state (w.step handle (.answer i a)).state := hw.answer (fun _ => rfl) i a
      have hnone : voterOf roomNo (.answer i a) = ∅ := rfl
      rw [hnone, Finset.union_empty]
      exact ⟨hanswer.1, hs.locks hanswer.2⟩

omit h in
theorem voterOf_subset {w : Service} {i : Input Event Answer}
    (hok : Meanwhile roomNo room votes w i) : voterOf roomNo i ⊆ room.players.toFinset := by
  unfold voterOf
  split
  · split
    · rename_i hr
      exact Finset.singleton_subset_iff.mpr (List.mem_toFinset.mpr (hok hr).1)
    · exact Finset.empty_subset _
  · exact Finset.empty_subset _

theorem course_run {w : Service} (hw : w.AllWithin Locks)
    (hs : Course before roomNo room votes starter voted w.state)
    (hsub : voted ⊆ room.players.toFinset) (hstarter : starter ∈ voted)
    {inputs : List (Input Event Answer)}
    (hok : Allowed (World.step handle) (Meanwhile roomNo room votes) w inputs) :
    ∃ voted', voted ⊆ voted' ∧ voted' ⊆ room.players.toFinset ∧
      (∀ p, HasVoted roomNo inputs p → p ∈ voted') ∧
      Course before roomNo room votes starter voted' (run (World.step handle) w inputs).state := by
  induction inputs generalizing w voted with
  | nil =>
      refine ⟨voted, subset_rfl, hsub, ?_, hs⟩
      rintro p ⟨options, now, hin⟩
      cases hin
  | cons i inputs ih =>
      obtain ⟨hi, hinputs⟩ := hok
      obtain ⟨hwithin, hcourse⟩ := hs.step h hw hsub hstarter hi
      obtain ⟨voted', hle, hsub', hvoted, hrun⟩ := ih hwithin hcourse
        (Finset.union_subset hsub (voterOf_subset hi)) (Finset.mem_union_left _ hstarter) hinputs
      refine ⟨voted', Finset.subset_union_left.trans hle, hsub', ?_, hrun⟩
      rintro p ⟨options, now, hin⟩
      rcases List.mem_cons.mp hin with rfl | hin
      · refine hle (Finset.mem_union_right _ ?_)
        rw [voterOf, if_pos rfl]
        exact Finset.mem_singleton_self p
      · exact hvoted p ⟨options, now, hin⟩

end Run

theorem allWithin_of_reach {start : Rooms} {w : Service}
    (h : Reach (World.step handle) (fun _ _ => True) ⟨start, []⟩ w) : w.AllWithin Locks := by
  have hall (s : Rooms) (e : Event) : (handle e s).Leads Locks fun _ => True := by
    have hvote (r : RoomNo) (p : PlayerId) (options now : Int) (s : Rooms) :
        (Rooms.playerVoteCancelRoom r p options now s).Leads Locks fun _ => True := by
      refine leads_playerVote (fun _ => trivial) fun cur _ _ _ => ?_
      dsimp only
      cases Rooms.verdict (cur.count p options).maxPlayer (cur.count p options).voteAgreeCount
          (cur.count p options).voteDisagreeCount with
      | none => trivial
      | some result => trivial
    cases e with
    | playerVoteCancelRoom r p options now => exact hvote r p options now s
    | beginVoteCancelRoom r p now =>
        exact leads_beginVote (fun _ => trivial) fun _ _ _ _ => hvote r p 1 now _
    | joinFriendRoom p r roomCard =>
        change (Rooms.joinFriendRoom p r roomCard s).Leads Locks fun _ => True
        unfold Rooms.joinFriendRoom
        split
        · trivial
        · split_ifs <;> trivial
    | tableFinish r => trivial
  refine Reach.invariant (P := fun w : Service => w.AllWithin Locks) (by simp [World.AllWithin])
    (fun w i hw _ => ?_) h
  cases i with
  | command e => exact (hw.command (hall w.state e)).1
  | answer i a => exact (hw.answer (fun _ => rfl) i a).1

def Refused (roomNo : RoomNo) (p : PlayerId) (s : Rooms) : Prop :=
  ∀ options now, ∃ code, code ≠ 0 ∧
    handle (.playerVoteCancelRoom roomNo p options now) s = .done s code

theorem refused_of {roomNo : RoomNo} {p : PlayerId} {s : Rooms}
    (h : ∀ cur, s.gameInfo roomNo = some cur → cur.isVote = true → cur.votePlayerFlag p ≠ none) :
    Refused roomNo p s := by
  intro options now
  change ∃ code, code ≠ 0 ∧ Rooms.playerVoteCancelRoom roomNo p options now s = .done s code
  unfold Rooms.playerVoteCancelRoom
  split
  · exact ⟨2412, by decide, rfl⟩
  rename_i cur hcur
  rw [if_neg fun hopen => h cur hcur hopen.1 hopen.2]
  exact ⟨1002, by decide, rfl⟩

/-- However the votes of a full room come in, the vote ends with the last of them at the latest,
with the result of all the votes; late and repeated votes are refused. -/
theorem votes_unordered {start : Rooms} {w : Service}
    (hreach : Reach (World.step handle) (fun _ _ => True) ⟨start, []⟩ w) {roomNo : RoomNo}
    {room : Room} {time : Int} (h : Ready w.state roomNo room time) {starter : PlayerId}
    (hstarter : starter ∈ room.players) {votes : PlayerId → Int}
    {inputs : List (Input Event Answer)}
    (hok : Allowed (World.step handle) (Meanwhile roomNo room votes)
      (w.step handle (.command (.beginVoteCancelRoom roomNo starter time))) inputs) :
    let s := (run (World.step handle)
      (w.step handle (.command (.beginVoteCancelRoom roomNo starter time))) inputs).state
    (Open w.state s roomNo ∨
      Ended w.state s roomNo room.maxPlayer (resultOf room votes starter)) ∧
    ((∀ p ∈ room.players, p ≠ starter → HasVoted roomNo inputs p) →
      Ended w.state s roomNo room.maxPlayer (resultOf room votes starter)) ∧
    ∀ p, (∀ cur ∈ s.gameInfo roomNo, cur.isVote = false) ∨ p = starter ∨
      HasVoted roomNo inputs p → Refused roomNo p s := by
  have hw := allWithin_of_reach hreach
  have hbegin : (handle (.beginVoteCancelRoom roomNo starter time) w.state).Leads Locks
      (Course w.state roomNo room votes starter {starter}) := course_begin h hstarter
  obtain ⟨hwithin, hbegun⟩ := hw.command hbegin
  obtain ⟨voted, hle, hsub, hvoted, hcourse⟩ := course_run h hwithin hbegun
    (Finset.singleton_subset_iff.mpr (List.mem_toFinset.mpr hstarter))
    (Finset.mem_singleton_self starter) hok
  have hin : starter ∈ voted := hle (Finset.mem_singleton_self starter)
  cases hcourse with
  | going cur entry counts undecided results breaks =>
      refine ⟨.inl ⟨⟨cur, entry, counts.isVote⟩, results, breaks⟩, fun hall => ?_, ?_⟩
      · have heq : voted = room.players.toFinset := by
          refine hsub.antisymm fun p hp => ?_
          by_cases hne : p = starter
          · exact hne ▸ hin
          · exact hvoted p (hall p (List.mem_toFinset.mp hp) hne)
        rw [counts.agree, counts.disagree, heq] at undecided
        exact absurd undecided ((foretells_verdict h.two_le).ne_none
          ((List.toFinset_card_of_nodup h.nodup).trans h.full))
      · intro p hp
        have hp' : p ∈ voted := by
          rcases hp with hclosed | rfl | hp
          · have hvote := hclosed cur entry
            rw [counts.isVote] at hvote
            cases hvote
          · exact hin
          · exact hvoted p hp
        refine refused_of fun cur' hcur' _ => ?_
        obtain rfl : cur = cur' := Option.some.inj (entry.symm.trans hcur')
        exact fun hflag => (counts.flag p).mp hflag hp'
  | ended hended =>
      refine ⟨.inr hended, fun _ => hended, fun p _ => refused_of fun cur hcur hvote => ?_⟩
      rw [hended.closed cur hcur] at hvote
      cases hvote

instance decidableMeanwhile (roomNo : RoomNo) (room : Room) (votes : PlayerId → Int) (w : Service) :
    DecidablePred (Meanwhile roomNo room votes w) := by
  rintro (e | ⟨i, a⟩)
  · rcases e with _ | _ | _ | _ <;> unfold Meanwhile <;> infer_instance
  · unfold Meanwhile
    infer_instance

def threePlayers : Room :=
  { roomId := "room", tNum := some 1, maxPlayer := 3, playerNum := 3, players := ["a", "b", "c"] }

def oneRoom : Rooms := { gameInfo := Function.update (fun _ => none) "100000" (some threePlayers) }

def twoAgree : List (Input Event Answer) :=
  [.command (.playerVoteCancelRoom "100000" "b" 1 100), .answer 0 (.number 0),
    .command (.playerVoteCancelRoom "100000" "c" 0 101)]

theorem votes_unordered_two : Ended oneRoom
    (run (World.step handle)
      (World.step handle ⟨oneRoom, []⟩ (.command (.beginVoteCancelRoom "100000" "a" 99)))
      twoAgree).state "100000" 3 0 := by
  have hready : Ready oneRoom "100000" threePlayers 99 :=
    ⟨rfl, by decide, rfl, rfl, by decide, rfl, by decide⟩
  have hok : Allowed (World.step handle)
      (Meanwhile "100000" threePlayers fun p => if p = "b" then 1 else 0)
      (World.step handle ⟨oneRoom, []⟩ (.command (.beginVoteCancelRoom "100000" "a" 99)))
      twoAgree := by decide
  refine (votes_unordered .refl hready (by decide) hok).2.1 ?_
  intro p hp hne
  fin_cases hp
  · exact absurd rfl hne
  · exact ⟨1, 100, by simp [twoAgree]⟩
  · exact ⟨0, 101, by simp [twoAgree]⟩

end JyQipai.Friendgame.Vote
