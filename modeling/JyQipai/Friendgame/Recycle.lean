import JyQipai.Friendgame.Service

/-!
# Free tables

As long as no game ends, the records of the free tables agree: a thread that has the lock
knows the last room of the stack while it waits for a table.
-/

namespace JyQipai.Friendgame

open Lib

namespace Rooms

def curNum (s : Rooms) (gameType : GameType) (roomId : RoomId) : Int :=
  ((s.roomInfo gameType roomId).map RoomInfo.curNum).getD 0

def tableNum (s : Rooms) (roomId : RoomId) : Int :=
  ((s.tableInfo roomId).map fun tables => tables.keys.length).getD 0

structure Recycled (s : Rooms) : Prop where
  entries : ∀ gameType roomId,
    ((s.availableTables gameType).count roomId : Int) = s.curNum gameType roomId
  tables : ∀ gameType roomId info, s.roomInfo gameType roomId = some info →
    info.curNum + s.tableNum roomId = info.maxTableNum

structure Started (s : Rooms) : Prop where
  available : ∀ gameType, s.availableTables gameType = []
  rooms : ∀ gameType roomId, s.roomInfo gameType roomId = none
  tables : ∀ roomId, s.tableInfo roomId = none
  free : s.lock = false
  asleep : s.woken = false

def gameAt (s : Rooms) (roomId : RoomId) (tableId : TableId) : Option GameInfo :=
  (s.tableInfo roomId).bind fun tables => (tables.lookup tableId).bind s.gameInfo

def InUse (s : Rooms) (roomId : RoomId) (tableId : TableId) : Prop :=
  ∃ tables ∈ s.tableInfo roomId, tableId ∈ tables

instance (s : Rooms) (roomId : RoomId) (tableId : TableId) :
    Decidable (s.InUse roomId tableId) :=
  inferInstanceAs (Decidable (∃ tables ∈ s.tableInfo roomId, tableId ∈ tables))

end Rooms

def Unused : Call → Answer → Rooms → Prop
  | .newTable (some roomId) _ _, .table tableId, s => ¬s.InUse roomId tableId
  | _, _, _ => True

def Unfinished (s : Rooms) : Event → Prop
  | .tableFinish roomId tableId => s.gameAt roomId tableId = none
  | _ => True

/-- A thread that was woken runs before anything else, and only such a thread runs on. -/
def Scheduled (w : World Rooms Call Answer Unit) : Input Event Answer → Prop
  | .command _ => w.state.woken = false
  | .answer i _ => ∀ x ∈ w.waiting[i]?, x.1 = .wait ↔ w.state.woken = true

/-- No game that is recorded ends, and the rooms give tables that are not in use. -/
def NoneEnds (w : World Rooms Call Answer Unit) : Input Event Answer → Prop
  | .command e => Unfinished w.state e
  | .answer i a => ∀ x ∈ w.waiting[i]?, Unused x.1 a w.state

/-! ## Ids of rooms -/

namespace Rooms

theorem roomIdOf_inj {myId : String} {n n' : Nat} (h : roomIdOf myId n = roomIdOf myId n') :
    n = n' := by
  have hlist := congrArg String.toList h
  simp only [roomIdOf, String.toList_append] at hlist
  have hrepr : n.repr = n'.repr := String.toList_inj.mp (List.append_cancel_left hlist)
  exact Nat.repr_inj.mp hrepr

def Old (s : Rooms) (roomId : RoomId) : Prop :=
  ∃ n ≤ s.roomCount, roomId = roomIdOf s.myId n

variable {s t : Rooms} {roomId : RoomId}

theorem not_old_createRoomId : ¬s.Old s.createRoomId.1 := by
  rintro ⟨n, hn, heq⟩
  have hcount := roomIdOf_inj heq
  omega

theorem Old.createRoomId (h : s.Old roomId) : s.createRoomId.2.Old roomId := by
  obtain ⟨n, hn, rfl⟩ := h
  exact ⟨n, Nat.le_succ_of_le hn, rfl⟩

end Rooms

/-! ## The thread with the lock -/

/-- What the thread with the lock knows while it waits: its new room is not recorded yet, or
has no tables, or is the last one of the stack. -/
inductive Token where
  | busy
  | opening (roomId : RoomId)
  | counting (roomId : RoomId)
  | seating (gameType : GameType) (roomId : RoomId)

def Token.Fits (s : Rooms) : Token → Prop
  | .busy => True
  | .opening roomId => s.Old roomId ∧ ∀ gameType, s.roomInfo gameType roomId = none
  | .counting roomId => s.Old roomId ∧ (∀ gameType, s.roomInfo gameType roomId = none) ∧
      s.tableNum roomId = 0
  | .seating gameType roomId => (s.availableTables gameType).getLast? = some roomId

structure Held (s : Rooms) (m : Multiset Token) : Prop where
  recycled : s.Recycled
  card : m.card ≤ 1
  lock : m ≠ 0 → s.lock = true
  woken : s.woken = true → m = 0
  fits : ∀ token ∈ m, token.Fits s
  old : ∀ gameType roomId info, s.roomInfo gameType roomId = some info → s.Old roomId
  one : ∀ gameType gameType' roomId info info', s.roomInfo gameType roomId = some info →
    s.roomInfo gameType' roomId = some info' → gameType = gameType'

def Frame : Call → Answer → Rooms → Multiset Token → Prop
  | .wait, _, _, f => f = 0
  | q, a, s, _ => Unused q a s

def owning : Owning Rooms Call Answer (Multiset Token) where
  valid _ _ := True
  keeps _ := True
  holds := Held
  may _ _ := True
  frame := Frame

structure SameRooms (s t : Rooms) : Prop where
  available : t.availableTables = s.availableTables
  rooms : t.roomInfo = s.roomInfo
  tables : t.tableInfo = s.tableInfo
  myId : t.myId = s.myId
  count : t.roomCount = s.roomCount

namespace Held

variable {s t : Rooms} {m : Multiset Token} {token : Token} {gameType : GameType}
  {roomId : RoomId}

theorem of_same (h : Held s m) (hst : SameRooms s t) {m' : Multiset Token} (hcard : m'.card ≤ 1)
    (hlock : m' ≠ 0 → t.lock = true) (hwoken : t.woken = true → m' = 0)
    (hfits : ∀ token ∈ m', token ∈ m ∨ token = .busy) : Held t m' := by
  obtain ⟨havail, hrooms, htables, hid, hcount⟩ := hst
  have hold (x : RoomId) (hx : s.Old x) : t.Old x := by
    rw [Rooms.Old, hid, hcount]
    exact hx
  refine ⟨⟨fun g r => ?_, fun g r info hinfo => ?_⟩, hcard, hlock, hwoken, fun token htoken => ?_,
    fun g r info hinfo => ?_, fun g g' r info info' hinfo hinfo' => ?_⟩
  · rw [havail, h.recycled.entries, Rooms.curNum, Rooms.curNum, hrooms]
  · rw [Rooms.tableNum, htables]
    exact h.recycled.tables g r info (hrooms ▸ hinfo)
  · rcases hfits token htoken with hmem | rfl
    · have hfit := h.fits token hmem
      cases token with
      | busy => trivial
      | opening r => exact ⟨hold r hfit.1, fun g => by rw [hrooms, hfit.2]⟩
      | counting r =>
          exact ⟨hold r hfit.1, fun g => by rw [hrooms, hfit.2.1],
            by rw [Rooms.tableNum, htables]; exact hfit.2.2⟩
      | seating g r => exact (congrArg List.getLast? (congrFun havail g)).trans hfit
    · trivial
  · exact hold r (h.old g r info (hrooms ▸ hinfo))
  · rw [hrooms] at hinfo hinfo'
    exact h.one g g' r info info' hinfo hinfo'

theorem drop (h : Held s m) : Held s 0 :=
  h.of_same ⟨rfl, rfl, rfl, rfl, rfl⟩ (by simp) (by simp) (by simp) (by simp)

theorem busy (h : Held s {token}) (hst : SameRooms s t) (hlock : t.lock = s.lock)
    (hwoken : t.woken = s.woken) : Held t {.busy} := by
  refine h.of_same hst (by simp) (fun _ => ?_) (fun hw => ?_) (fun x hx => ?_)
  · rw [hlock]
    exact h.lock (by simp)
  · exact absurd (h.woken (hwoken ▸ hw)) (by simp)
  · exact .inr (Multiset.mem_singleton.mp hx)

theorem start (h : Held s m) (hst : SameRooms s t) (hlock : t.lock = true)
    (hwoken : t.woken = false) : Held t {.busy} :=
  h.of_same hst (by simp) (fun _ => hlock) (fun hw => absurd (hwoken.symm.trans hw) nofun)
    fun x hx => .inr (Multiset.mem_singleton.mp hx)

theorem threadOver (h : Held s m) : Held s.threadOver 0 :=
  h.of_same (t := s.threadOver) ⟨rfl, rfl, rfl, rfl, rfl⟩ (by simp) (by simp) (by simp) (by simp)

theorem createRoomId (h : Held s {.busy}) :
    Held s.createRoomId.2 {.opening s.createRoomId.1} where
  recycled := ⟨h.recycled.entries, h.recycled.tables⟩
  card := by simp
  lock _ := h.lock (by simp)
  woken hw := absurd (h.woken hw) (by simp)
  fits token htoken := by
    obtain rfl := Multiset.mem_singleton.mp htoken
    refine ⟨⟨s.roomCount + 1, le_refl _, rfl⟩, fun g => ?_⟩
    by_contra hsome
    obtain ⟨info, hinfo⟩ := Option.ne_none_iff_exists'.mp hsome
    exact Rooms.not_old_createRoomId (h.old g _ info hinfo)
  old g r info hinfo := (h.old g r info hinfo).createRoomId
  one := h.one

theorem setTables_new (h : Held s {.opening roomId}) :
    Held (s.setTables roomId ∅) {.counting roomId} := by
  obtain ⟨hold, hnone⟩ := h.fits _ (Multiset.mem_singleton_self _)
  refine ⟨⟨h.recycled.entries, fun g r info hinfo => ?_⟩, by simp, fun _ => h.lock (by simp),
    fun hw => absurd (h.woken hw) (by simp), fun token htoken => ?_, h.old, h.one⟩
  · have hne : r ≠ roomId := by
      rintro rfl
      exact Option.some_ne_none info (hinfo.symm.trans (hnone g))
    rw [Rooms.tableNum, Rooms.tableInfo_setTables, Function.update_of_ne hne]
    exact h.recycled.tables g r info hinfo
  · obtain rfl := Multiset.mem_singleton.mp htoken
    exact ⟨hold, hnone, by simp [Rooms.tableNum, Rooms.setTables]⟩

section Update

variable {info : RoomInfo}

theorem update (h : Held s {token}) (info : RoomInfo) (hst : SameRooms s { t with
      availableTables := s.availableTables
      tableInfo := s.tableInfo
      roomInfo := s.roomInfo })
    (hlock : t.lock = s.lock) (hwoken : t.woken = s.woken)
    (hroom : t.roomInfo = (s.setRoom gameType roomId info).roomInfo)
    (havail : ∀ g, g ≠ gameType → t.availableTables g = s.availableTables g)
    (hcount : ∀ r, ((t.availableTables gameType).count r : Int) =
      if r = roomId then info.curNum else s.curNum gameType r)
    (htables : ∀ r, r ≠ roomId → t.tableInfo r = s.tableInfo r)
    (hsum : info.curNum + t.tableNum roomId = info.maxTableNum) (hold : s.Old roomId)
    (hone : ∀ g i, s.roomInfo g roomId = some i → g = gameType) : Held t {.busy} := by
  have hold' (x : RoomId) (hx : s.Old x) : t.Old x := by
    rw [Rooms.Old, show t.myId = s.myId from hst.myId, show t.roomCount = _ from hst.count]
    exact hx
  have hnew (g : GameType) (r : RoomId) (i : RoomInfo) (hi : t.roomInfo g r = some i) :
      (g = gameType ∧ r = roomId ∧ i = info) ∨
        (¬(g = gameType ∧ r = roomId) ∧ s.roomInfo g r = some i) := by
    rw [hroom, Rooms.roomInfo_setRoom] at hi
    split at hi
    · rename_i heq
      exact .inl ⟨heq.1, heq.2, (Option.some.inj hi).symm⟩
    · rename_i hne
      exact .inr ⟨hne, hi⟩
  refine ⟨⟨fun g r => ?_, fun g r i hi => ?_⟩, by simp, fun _ => hlock ▸ h.lock (by simp),
    fun hw => absurd (h.woken (hwoken ▸ hw)) (by simp), fun x hx => ?_, fun g r i hi => ?_,
    fun g g' r i i' hi hi' => ?_⟩
  · by_cases hg : g = gameType
    · subst hg
      have hcur : t.curNum g r =
          ((if g = g ∧ r = roomId then some info else s.roomInfo g r).map
            RoomInfo.curNum).getD 0 := by
        rw [Rooms.curNum, hroom, Rooms.roomInfo_setRoom]
      rw [hcount, hcur]
      by_cases hr : r = roomId
      · rw [if_pos hr, if_pos ⟨rfl, hr⟩]
        rfl
      · rw [if_neg hr, if_neg fun h => hr h.2]
        rfl
    · rw [havail g hg, h.recycled.entries, Rooms.curNum, Rooms.curNum, hroom,
        Rooms.roomInfo_setRoom, if_neg fun h => hg h.1]
  · rcases hnew g r i hi with ⟨rfl, rfl, rfl⟩ | ⟨hne, hi⟩
    · exact hsum
    · have hr : r ≠ roomId := by
        rintro rfl
        exact hne ⟨hone g i hi, rfl⟩
      rw [Rooms.tableNum, htables r hr]
      exact h.recycled.tables g r i hi
  · obtain rfl := Multiset.mem_singleton.mp hx
    trivial
  · rcases hnew g r i hi with ⟨-, rfl, -⟩ | ⟨-, hi⟩
    · exact hold' _ hold
    · exact hold' _ (h.old g r i hi)
  · rcases hnew g r i hi with ⟨rfl, rfl, -⟩ | ⟨-, hi⟩
    · rcases hnew g' r i' hi' with ⟨rfl, -, -⟩ | ⟨-, hi'⟩
      · rfl
      · exact (hone g' i' hi').symm
    · rcases hnew g' r i' hi' with ⟨rfl, rfl, -⟩ | ⟨-, hi'⟩
      · exact hone g i hi
      · exact h.one g g' r i i' hi hi'

end Update

theorem addRoom (h : Held s {.counting roomId}) (num : Nat) :
    Held (s.addRoom gameType roomId num) {.busy} := by
  obtain ⟨hold, hnone, hzero⟩ := h.fits _ (Multiset.mem_singleton_self _)
  have hempty : (s.availableTables gameType).count roomId = 0 := by
    have hentries := h.recycled.entries gameType roomId
    rw [Rooms.curNum, hnone gameType] at hentries
    exact Int.natCast_eq_zero.mp hentries
  refine h.update (t := s.addRoom gameType roomId num) ⟨num, num⟩
    ⟨rfl, rfl, rfl, rfl, rfl⟩ rfl rfl rfl (fun g hg => ?_) (fun r => ?_) (fun _ _ => rfl) ?_ hold
    fun g i hi => absurd (hi.symm.trans (hnone g)) nofun
  · exact Function.update_of_ne hg ..
  · rw [Rooms.addRoom, Rooms.availableTables_setAvailable, Function.update_self,
      List.count_append, List.count_replicate]
    by_cases hr : r = roomId
    · subst hr
      simp [hempty]
    · simpa [hr, Ne.symm hr] using h.recycled.entries gameType r
  · change (num : Int) + s.tableNum roomId = num
    omega

theorem seating (h : Held s {.busy}) (hlast : (s.availableTables gameType).getLast? = some roomId) :
    Held s {.seating gameType roomId} where
  recycled := h.recycled
  card := by simp
  lock _ := h.lock (by simp)
  woken hw := absurd (h.woken hw) (by simp)
  fits token htoken := by
    obtain rfl := Multiset.mem_singleton.mp htoken
    exact hlast
  old := h.old
  one := h.one

theorem last (h : Held s {.seating gameType roomId}) :
    ∃ info, s.roomInfo gameType roomId = some info := by
  have hlast : roomId ∈ s.availableTables gameType :=
    List.mem_of_getLast? (h.fits _ (Multiset.mem_singleton_self _))
  have hpos := List.count_pos_iff.mpr hlast
  have hentries := h.recycled.entries gameType roomId
  cases hinfo : s.roomInfo gameType roomId with
  | some info => exact ⟨info, rfl⟩
  | none =>
      rw [Rooms.curNum, hinfo] at hentries
      have hzero := Int.natCast_eq_zero.mp hentries
      omega

theorem seat (h : Held s {.seating gameType roomId}) {tables : RoomTables} {tableId : TableId}
    {roomNo : RoomNo} {info : RoomInfo} (htables : s.tableInfo roomId = some tables)
    (hfree : ¬s.InUse roomId tableId) (hinfo : s.roomInfo gameType roomId = some info) :
    Held (((s.setTables roomId (tables.insert tableId roomNo)).setRoom gameType roomId
      { info with curNum := info.curNum - 1 }).setAvailable gameType
        (s.availableTables gameType).dropLast) {.busy} := by
  have hlast := List.dropLast_append_getLast? roomId
    (h.fits _ (Multiset.mem_singleton_self _) : (s.availableTables gameType).getLast? = _)
  have hcount (r : RoomId) : ((s.availableTables gameType).dropLast.count r : Int) =
      s.curNum gameType r - if r = roomId then 1 else 0 := by
    have hentries := h.recycled.entries gameType r
    rw [← hlast, List.count_append, List.count_singleton] at hentries
    by_cases hr : r = roomId
    · subst hr
      rw [if_pos (by simp)] at hentries
      rw [if_pos rfl]
      push_cast at hentries
      omega
    · rw [if_neg (by simpa using Ne.symm hr)] at hentries
      rw [if_neg hr]
      push_cast at hentries
      omega
  have hkeys : tableId ∉ tables.keys := fun hmem => hfree ⟨tables, htables, hmem⟩
  have hsum := h.recycled.tables gameType roomId info hinfo
  refine h.update { info with curNum := info.curNum - 1 }
    ⟨rfl, rfl, rfl, rfl, rfl⟩ rfl rfl rfl (fun g hg => Function.update_of_ne hg ..) (fun r => ?_)
    (fun r hr => Function.update_of_ne hr ..) ?_ (h.old gameType roomId info hinfo)
    fun g i hi => h.one g gameType roomId i info hi hinfo
  · rw [Rooms.availableTables_setAvailable, Function.update_self, hcount]
    by_cases hr : r = roomId
    · rw [if_pos hr, if_pos hr, hr, Rooms.curNum, hinfo]
      rfl
    · rw [if_neg hr, if_neg hr, sub_zero]
  · have hnum : s.tableNum roomId = tables.keys.length := by
      rw [Rooms.tableNum, htables]
      rfl
    have hnext : (tables.insert tableId roomNo).keys.length = tables.keys.length + 1 := by
      rw [AList.keys_insert, @List.erase_of_not_mem _ instBEqOfDecidableEq _ _ _ hkeys,
        List.length_cons]
    have hnew : Rooms.tableNum (((s.setTables roomId (tables.insert tableId roomNo)).setRoom
        gameType roomId { info with curNum := info.curNum - 1 }).setAvailable gameType
          (s.availableTables gameType).dropLast) roomId = tables.keys.length + 1 := by
      change ((Function.update s.tableInfo roomId _ roomId).map _).getD 0 = _
      rw [Function.update_self]
      change ((tables.insert tableId roomNo).keys.length : Int) = _
      rw [hnext]
      push_cast
      rfl
    rw [hnew]
    dsimp only
    omega

end Held

section Owns

variable {s t : Rooms} {fr : Multiset Token → Prop} {token : Token} {m : Multiset Token}
  {gameType : GameType}

theorem turns_token (h : fr 0 → Held s {token} → Held t m) : owning.Turns fr s {token} t m := by
  refine ⟨trivial, fun f hf hs => ?_⟩
  have hcard := hs.card
  rw [Multiset.card_add, Multiset.card_singleton] at hcard
  obtain rfl : f = 0 := Multiset.card_eq_zero.mp (by omega)
  rw [add_zero]
  exact h hf (by rwa [add_zero] at hs)

theorem turns_none (hst : SameRooms s t) (hlock : t.lock = s.lock) (hwoken : t.woken = s.woken) :
    owning.Turns fr s 0 t 0 := by
  refine ⟨trivial, fun f _ hs => ?_⟩
  exact hs.of_same hst hs.card (fun hne => hlock ▸ hs.lock hne)
    (fun hw => hs.woken (hwoken ▸ hw)) fun token htoken => .inl htoken

theorem owns_threadStart (hwoken : s.woken = false) :
    (Rooms.threadStart s).Owns owning (fun _ _ g => g = {.busy}) fr s 0 := by
  unfold Rooms.threadStart
  split
  · refine ⟨0, turns_none ⟨rfl, rfl, rfl, rfl, rfl⟩ rfl rfl, trivial, fun _ u _ _ => ?_⟩
    refine ⟨{.busy}, ⟨trivial, fun f hf hu => ?_⟩, rfl⟩
    obtain rfl : f = 0 := hf
    exact hu.start ⟨rfl, rfl, rfl, rfl, rfl⟩ rfl rfl
  · rename_i hfree
    refine ⟨{.busy}, ⟨trivial, fun f _ hs => ?_⟩, rfl⟩
    rw [zero_add] at hs
    obtain rfl : f = 0 := by
      by_contra hne
      exact hfree (hs.lock hne)
    exact hs.start ⟨rfl, rfl, rfl, rfl, rfl⟩ rfl hwoken

theorem owns_createRoom :
    (Rooms.createRoom gameType s).Owns owning
      (fun r _ g => match r with
        | .ok () => g = {.busy}
        | .error _ => g = 0) fr s {.busy} := by
  unfold Rooms.createRoom
  split
  · exact ⟨{.busy}, turns_token fun _ h => h, rfl⟩
  have hid : owning.Turns fr s {.busy} s.createRoomId.2 {.opening s.createRoomId.1} :=
    turns_token fun _ h => h.createRoomId
  refine ⟨_, hid, trivial, fun a u _ _ => ?_⟩
  cases a with
  | ok =>
      have htables : owning.Turns (Frame (.create gameType s.createRoomId.1) .ok u) u
          {.opening s.createRoomId.1} (u.setTables s.createRoomId.1 ∅)
          {.counting s.createRoomId.1} := turns_token fun _ h => h.setTables_new
      refine ⟨_, htables, trivial, fun a v _ _ => ?_⟩
      cases a with
      | num n => exact ⟨{.busy}, turns_token fun _ h => h.addRoom n, rfl⟩
      | callFail => exact ⟨0, turns_token fun _ h => h.threadOver, rfl⟩
      | _ => exact turns_token fun _ h => h.drop
  | state code => exact ⟨0, turns_token fun _ h => h.threadOver, rfl⟩
  | _ => exact turns_token fun _ h => h.drop

theorem owns_seat {roomId : RoomId} {tableId : TableId} (roomNo : RoomNo)
    (hfree : fr 0 → ¬s.InUse roomId tableId) :
    (Rooms.seat gameType (some roomId) tableId roomNo s).Owns owning (fun _ _ g => g = {.busy})
      fr s {.seating gameType roomId} := by
  unfold Rooms.seat
  dsimp only
  cases htables : s.tableInfo roomId with
  | none => exact turns_token fun _ h => h.drop
  | some tables =>
      dsimp only
      cases hinfo : (s.setTables roomId (tables.insert tableId roomNo)).roomInfo gameType
          roomId with
      | none =>
          refine turns_token fun _ h => ?_
          obtain ⟨info, hsome⟩ := h.last
          exact absurd (hinfo.symm.trans hsome) nofun
      | some info =>
          exact ⟨{.busy}, turns_token fun hf h => h.seat htables (hfree hf) hinfo, rfl⟩

theorem owns_createChatRoom :
    (Rooms.createChatRoom s).Owns owning (fun _ _ g => g = {.busy}) fr s {.busy} := by
  unfold Rooms.createChatRoom
  split
  · refine ⟨{.busy}, turns_token fun _ h => h, trivial, fun a u _ _ => ?_⟩
    cases a with
    | chatRoom id => exact ⟨{.busy}, turns_token fun _ h => h, rfl⟩
    | _ => exact turns_token fun _ h => h.drop
  · exact ⟨{.busy}, turns_token fun _ h => h, rfl⟩

theorem turns_setGame (roomNo : RoomNo) (info : GameInfo) :
    owning.Turns fr s {.busy} (s.setGame roomNo (some info)).threadOver 0 := by
  refine turns_token fun _ h => ?_
  have hgame : Held (s.setGame roomNo (some info)) {.busy} :=
    h.busy ⟨rfl, rfl, rfl, rfl, rfl⟩ rfl rfl
  exact hgame.threadOver

theorem owns_newTable (playerId : PlayerId) (roomNo : RoomNo) (config : GameConfig) (rent : Int)
    (maxPlayer : Nat) :
    (Rooms.newTable playerId roomNo gameType config rent maxPlayer s).Owns owning
      (fun _ _ g => g = 0) fr s {.busy} := by
  unfold Rooms.newTable
  cases hlast : (s.availableTables gameType).getLast? with
  | none =>
      refine ⟨{.busy}, turns_token fun _ h => h, trivial, fun a u _ _ => ?_⟩
      cases a with
      | callFail => exact ⟨0, turns_token fun _ h => h.threadOver, rfl⟩
      | _ => exact turns_token fun _ h => h.drop
  | some roomId =>
      refine ⟨{.seating gameType roomId}, turns_token fun _ h => h.seating hlast, trivial,
        fun a u _ _ => ?_⟩
      cases a with
      | callFail => exact ⟨0, turns_token fun _ h => h.threadOver, rfl⟩
      | table tableId =>
          refine (owns_seat roomNo fun hfree => hfree).bind fun fr roomId' t g _ hg => ?_
          subst hg
          refine owns_createChatRoom.bind fun fr chatRoomId v g _ hg => ?_
          subst hg
          exact ⟨0, turns_setGame roomNo _, rfl⟩
      | _ => exact turns_token fun _ h => h.drop

theorem owns_handle (e : Event) (hwoken : s.woken = false) (hok : Unfinished s e) :
    (handle e s).Owns owning (fun _ _ g => g = 0) (fun _ => True) s 0 := by
  cases e with
  | createGameRoom playerId roomNo gameType config roomCard maxPlayer =>
      have hstill : owning.Turns (fun _ => True) s 0 s 0 :=
        turns_none ⟨rfl, rfl, rfl, rfl, rfl⟩ rfl rfl
      refine Prog.Owns.bind (Q := fun _ _ g => g = 0) ?_ fun fr _ t g _ hg =>
        ⟨g, ⟨trivial, fun _ _ h => h⟩, hg⟩
      unfold Rooms.createGameRoom
      split
      · exact ⟨0, hstill, rfl⟩
      split
      · exact ⟨0, hstill, rfl⟩
      refine (owns_threadStart hwoken).bind fun fr _ t g _ hg => ?_
      subst hg
      refine owns_createRoom.bind fun fr r u g _ hg => ?_
      cases r with
      | error code =>
          obtain rfl : g = 0 := hg
          exact ⟨0, turns_none ⟨rfl, rfl, rfl, rfl, rfl⟩ rfl rfl, rfl⟩
      | ok _ =>
          obtain rfl : g = {.busy} := hg
          exact owns_newTable playerId roomNo config _ maxPlayer
  | tableFinish roomId tableId =>
      have hstill : owning.Turns (fun _ => True) s 0 s 0 :=
        turns_none ⟨rfl, rfl, rfl, rfl, rfl⟩ rfl rfl
      have hgone : s.gameAt roomId tableId = none := hok
      simp only [handle, Rooms.tableFinish]
      unfold Rooms.gameAt at hgone
      cases htables : s.tableInfo roomId with
      | none => exact ⟨0, hstill, rfl⟩
      | some tables =>
          rw [htables, Option.bind_some] at hgone
          dsimp only
          cases hno : tables.lookup tableId with
          | none => exact ⟨0, hstill, rfl⟩
          | some roomNo =>
              rw [hno, Option.bind_some] at hgone
              dsimp only
              rw [hgone]
              exact hstill
  | reloadConfig roomRentCfg => exact ⟨0, turns_none ⟨rfl, rfl, rfl, rfl, rfl⟩ rfl rfl, rfl⟩

end Owns

theorem Rooms.Started.held {s : Rooms} (h : s.Started) : Held s 0 where
  recycled := by
    refine ⟨fun g r => ?_, fun g r info hinfo => absurd ((h.rooms g r).symm.trans hinfo) nofun⟩
    rw [h.available, Rooms.curNum, h.rooms]
    rfl
  card := by simp
  lock hne := absurd rfl hne
  woken _ := rfl
  fits := by simp
  old g r info hinfo := absurd ((h.rooms g r).symm.trans hinfo) nofun
  one g g' r info info' hinfo := absurd ((h.rooms g r).symm.trans hinfo) nofun

theorem held_of_reach {s : Rooms} (hs : s.Started) {w : World Rooms Call Answer Unit}
    (h : Reach (World.step handle) (fun w i => Scheduled w i ∧ NoneEnds w i) ⟨s, []⟩ w) :
    World.Owned owning w := by
  have hstart : World.Owned owning (⟨s, []⟩ : World Rooms Call Answer Unit) :=
    ⟨trivial, [], hs.held, .nil⟩
  refine Reach.invariant hstart (fun w i hw hi => ?_) h
  have hadmits : w.Admits owning.valid (fun s e => s.woken = false ∧ Unfinished s e)
      (fun _ => True) i := by
    cases i with
    | command e => exact ⟨hi.1, hi.2⟩
    | answer i a => exact ⟨trivial, fun _ _ => trivial⟩
  refine hw.step (fun s e _ hok => owns_handle e hok.1 hok.2) hadmits fun i a heq x hx g rest
    hholds _ _ => ?_
  subst heq
  have hunused := hi.2 x hx
  have hwait := hi.1 x hx
  obtain ⟨q, resume⟩ := x
  cases q with
  | wait =>
      have hzero := hholds.woken (hwait.mp rfl)
      exact (add_eq_zero.mp hzero).2
  | _ => exact hunused

theorem not_recycled_of_finish {s : Rooms} (h : s.Recycled) {roomId : RoomId} {tableId : TableId}
    {info : GameInfo} {room : RoomInfo} (hgame : s.gameAt roomId tableId = some info)
    (hroom : s.roomInfo info.gameType roomId = some room)
    (w : List (Call × (Answer → Rooms → Prog Rooms Call Answer Unit))) :
    ¬(World.stop w (s.tableFinish roomId tableId)).state.Recycled := by
  obtain ⟨tables, htables, hgame⟩ := Option.bind_eq_some_iff.mp hgame
  obtain ⟨roomNo, hno, hinfo⟩ := Option.bind_eq_some_iff.mp hgame
  let t := s.setAvailable info.gameType (s.availableTables info.gameType).dropLast
  obtain ⟨answer, hstep⟩ : ∃ answer, World.stop w (s.tableFinish roomId tableId) =
      ⟨(t.recycle info.gameType roomId tables tableId room).setGame roomNo none,
        w ++ [(.clearRoomNo roomNo, answer)]⟩ := by
    have hroom' : t.roomInfo info.gameType roomId = some room := hroom
    simp only [Rooms.tableFinish, htables, hno, hinfo]
    rw [hroom']
    exact ⟨_, rfl⟩
  rw [hstep]
  intro hagain
  have hcount := hagain.entries info.gameType roomId
  have hnew : Rooms.curNum
      ((t.recycle info.gameType roomId tables tableId room).setGame roomNo none)
        info.gameType roomId = room.curNum + 1 := by
    change (((t.setRoom info.gameType roomId _).roomInfo info.gameType roomId).map _).getD 0 = _
    rw [Rooms.roomInfo_setRoom, if_pos ⟨rfl, rfl⟩]
    rfl
  have hold := h.entries info.gameType roomId
  rw [Rooms.curNum, hroom] at hold
  have hsub : ((s.availableTables info.gameType).dropLast.count roomId) ≤
      (s.availableTables info.gameType).count roomId :=
    (List.dropLast_sublist _).count_le roomId
  have hdrop : ((Function.update s.availableTables info.gameType
      (s.availableTables info.gameType).dropLast info.gameType).count roomId : Int) =
      room.curNum + 1 := hcount.trans hnew
  rw [Function.update_self] at hdrop
  change _ = room.curNum at hold
  omega

/-- While no game ends, the records of the free tables agree in every state; the end of a game
whose room is known always breaks them. -/
theorem tables_recycled {s : Rooms} (hs : s.Started) {w : World Rooms Call Answer Unit}
    (h : Reach (World.step handle) (fun w i => Scheduled w i ∧ NoneEnds w i) ⟨s, []⟩ w) :
    w.state.Recycled ∧ ∀ roomId tableId info, w.state.gameAt roomId tableId = some info →
      w.state.roomInfo info.gameType roomId ≠ none →
        ¬(w.step handle (.command (.tableFinish roomId tableId))).state.Recycled := by
  obtain ⟨-, gs, hheld, -⟩ := held_of_reach hs h
  refine ⟨hheld.recycled, fun roomId tableId info hgame hroom => ?_⟩
  obtain ⟨room, hroom⟩ := Option.ne_none_iff_exists'.mp hroom
  exact not_recycled_of_finish hheld.recycled hgame hroom w.waiting

instance decidableUnused (q : Call) (a : Answer) (s : Rooms) : Decidable (Unused q a s) := by
  cases q with
  | newTable roomId roomNo gameType =>
      cases roomId with
      | none => exact .isTrue trivial
      | some roomId =>
          cases a with
          | table tableId => exact inferInstanceAs (Decidable ¬s.InUse roomId tableId)
          | _ => exact .isTrue trivial
  | _ => exact .isTrue trivial

instance decidableUnfinished (s : Rooms) (e : Event) : Decidable (Unfinished s e) := by
  cases e with
  | tableFinish roomId tableId =>
      exact decidable_of_iff ((s.gameAt roomId tableId).isNone = true) Option.isNone_iff_eq_none
  | _ => exact .isTrue trivial

instance decidableScheduled (w : World Rooms Call Answer Unit) (i : Input Event Answer) :
    Decidable (Scheduled w i) := by
  cases i with
  | command e => exact inferInstanceAs (Decidable (w.state.woken = false))
  | answer i a =>
      exact inferInstanceAs (Decidable (∀ x ∈ w.waiting[i]?, x.1 = .wait ↔ w.state.woken = true))

instance decidableNoneEnds (w : World Rooms Call Answer Unit) (i : Input Event Answer) :
    Decidable (NoneEnds w i) := by
  cases i with
  | command e => exact inferInstanceAs (Decidable (Unfinished w.state e))
  | answer i a => exact inferInstanceAs (Decidable (∀ x ∈ w.waiting[i]?, Unused x.1 a w.state))

def friendRooms : Rooms where
  roomRentCfg gameType raceCount :=
    if gameType = "nor_ddz_nor" ∧ raceCount = 8 then some 2 else none

theorem started_friendRooms : friendRooms.Started :=
  ⟨fun _ => rfl, fun _ _ => rfl, fun _ => rfl, rfl, rfl⟩

def createBy (playerId : PlayerId) (roomNo : RoomNo) : Input Event Answer :=
  .command (.createGameRoom playerId roomNo "nor_ddz_nor" { raceCount := 8 } 5 3)

def twoGames : List (Input Event Answer) :=
  [createBy "a" "100001", createBy "b" "100002", .answer 0 .ok, .answer 1 (.num 3),
    .answer 1 (.table (some 1)), .answer 0 .ok, .answer 0 (.table (some 2))]

theorem tables_recycled_twoGames :
    let w := run (World.step handle) ⟨friendRooms, []⟩ twoGames
    w.state.availableTables "nor_ddz_nor" = ["friendgame_service_1_room_1"] ∧
      w.state.Recycled :=
  ⟨by decide +kernel, (tables_recycled started_friendRooms (reach_run (by decide +kernel))).1⟩

/-- A game that ends takes a free table with it. -/
theorem table_lost :
    ¬∀ s : Rooms, s.Started → ∀ w,
      Reach (World.step handle) Scheduled ⟨s, []⟩ w → w.state.Recycled := by
  intro h
  have hrun := (h friendRooms started_friendRooms (run (World.step handle) ⟨friendRooms, []⟩
    (twoGames ++ [.command (.tableFinish "friendgame_service_1_room_1" (some 1))]))
    (reach_run (by decide +kernel))).entries "nor_ddz_nor" "friendgame_service_1_room_1"
  revert hrun
  decide +kernel

end JyQipai.Friendgame
