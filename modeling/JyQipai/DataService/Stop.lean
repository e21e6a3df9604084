import JyQipai.DataService.Exec

/-!
# No accepted write is lost

Every text that was pushed is in its queue, in the batch of the timer's callback,
executed, or recorded.  The callback owns the texts of its batch and the right to be the
only one of its queue; a call of `try_stop_service` whose tests found nothing to do owns
the promise that there is nothing to do until a text is pushed.
-/

namespace JyQipai.DataService

open JyQipai.Lib

abbrev Texts := Multiset (QueueName × Text)

def tagged (name : QueueName) (sqls : List Text) : Texts := (sqls.map (name, ·) : List _)

def queuedIn (queue : QueueName → Queue Text) : Texts :=
  tagged .fast ((queue .fast).toList.map queuedSql) +
    tagged .slow ((queue .slow).toList.map queuedSql)

namespace State

def allPushed (s : State) : Texts := (s.pushed.map fun p => (p.1, queuedSql p.2) : List _)

def recorded (s : State) : Texts :=
  (s.errorWriteQueue.filterMap fun p => p.2.map (p.1, ·) : List _)

def placed (s : State) : Texts :=
  queuedIn s.sqlQueues + (s.executed : Multiset _) + s.recorded

def Idle (s : State) : Prop :=
  (∀ name, (s.sqlQueues name).empty = true) ∧ ∀ name, s.running name = false

end State

abbrev Goods := Texts × Multiset QueueName × Multiset Nat

structure Kept (s : State) (g : Goods) : Prop where
  placed : s.allPushed = s.placed + g.1
  busy : ∀ name, g.2.1.count name = if s.running name then 1 else 0
  idle : ∀ n ∈ g.2.2, n ≤ s.pushed.length ∧ (s.pushed.length = n → s.Idle)

def Valid : Ask → Answer → Prop
  | .resetIndex .., .error | .batch .., .error | .selectIndex .., .error => False
  | .selectIndex _ rest, .index n => n < rest.length
  | .selectIndex .., _ => False
  | .batch .., .ok | .batch .., .errno => True
  | .batch .., _ => False
  | _, _ => True

def Ask.texts : Ask → Texts
  | .resetIndex name rest | .batch name rest | .selectIndex name rest => tagged name rest
  | _ => 0

def Ask.owned : Ask → Goods
  | .resetIndex name rest | .batch name rest | .selectIndex name rest =>
      (tagged name rest, {name}, 0)
  | .sleep n busy | .gatherServicesStatus n busy => (0, 0, if busy then 0 else {n})
  | .destroyByaddr => 0

def owning : Owning State Ask Answer Goods where
  valid := Valid
  keeps _ := True
  holds := Kept
  may q g := g = q.owned
  frame _ _ _ _ := True

section Turns

variable {s t : State} {fr : Goods → Prop} {name : QueueName} {sqls : List Text}

theorem turns_busy {a b : Texts} (hpushed : t.pushed = s.pushed) (hrun : t.running = s.running)
    (hplaced : t.placed + b = s.placed + a) :
    owning.Turns fr s (a, {name}, 0) t (b, {name}, 0) := by
  refine ⟨trivial, fun f _ h => ⟨?_, ?_, ?_⟩⟩
  · have hall : t.allPushed = s.allPushed := by
      unfold State.allPushed
      rw [hpushed]
    change t.allPushed = t.placed + (b + f.1)
    rw [hall, h.placed, ← add_assoc, hplaced, add_assoc]
    rfl
  · rw [hrun]
    exact h.busy
  · intro n hn
    obtain ⟨hle, hidle⟩ := h.idle n hn
    rw [hpushed]
    refine ⟨hle, fun heq => ?_⟩
    -- the timer is busy, so a text was pushed since the promise was given
    have hcount := h.busy name
    rw [(hidle heq).2 name] at hcount
    simp at hcount

theorem turns_same {g : Goods} (hs : t.placed = s.placed) (hpushed : t.pushed = s.pushed)
    (hrun : t.running = s.running) (hqueues : t.sqlQueues = s.sqlQueues) :
    owning.Turns fr s g t g := by
  refine ⟨trivial, fun f _ h => ⟨?_, ?_, ?_⟩⟩
  · have hall : t.allPushed = s.allPushed := by
      unfold State.allPushed
      rw [hpushed]
    rw [hall, h.placed, hs]
  · rw [hrun]
    exact h.busy
  · unfold State.Idle
    rw [hpushed, hrun, hqueues]
    exact h.idle

theorem turns_drop (n : Multiset Nat) : owning.Turns fr s (0, 0, n) s 0 := by
  refine ⟨trivial, fun f _ h => ⟨?_, ?_, fun m hm => ?_⟩⟩
  · simpa using h.placed
  · simpa using h.busy
  · refine h.idle m (Multiset.mem_add.mpr (.inr ?_))
    simpa using hm

end Turns

/-! ## Places -/

theorem tagged_append (name : QueueName) (a b : List Text) :
    tagged name (a ++ b) = tagged name a + tagged name b := by
  unfold tagged
  rw [List.map_append, Multiset.coe_add]

theorem queuedIn_update {queues : QueueName → Queue Text} {name : QueueName}
    {queue : Queue Text} {taken : List Text}
    (h : (queues name).toList.map queuedSql = taken ++ queue.toList.map queuedSql) :
    queuedIn (Function.update queues name queue) + tagged name taken = queuedIn queues := by
  unfold queuedIn
  cases name with
  | fast =>
      rw [Function.update_self, Function.update_of_ne (by decide), h, tagged_append]
      abel
  | slow =>
      rw [Function.update_self, Function.update_of_ne (by decide), h, tagged_append]
      abel

section Places

variable (s : State) (name : QueueName)

theorem placed_noteExecuted (sqls : List Text) :
    (s.noteExecuted name sqls).placed = s.placed + tagged name sqls := by
  change queuedIn s.sqlQueues + ((s.executed ++ sqls.map (name, ·) : List _) : Multiset _) +
    s.recorded = _
  rw [← Multiset.coe_add]
  unfold State.placed tagged
  abel

theorem placed_recordSqlError (sql : Text) :
    (s.recordSqlError name (some sql)).placed = s.placed + tagged name [sql] := by
  unfold State.placed State.recorded State.recordSqlError
  dsimp only
  rw [List.filterMap_append, ← Multiset.coe_add, ← add_assoc]
  rfl

theorem placed_setQueue {queue : Queue Text} {taken : List Text}
    (h : (s.sqlQueues name).toList.map queuedSql = taken ++ queue.toList.map queuedSql) :
    (s.setQueue name queue).placed + tagged name taken = s.placed := by
  change queuedIn (Function.update s.sqlQueues name queue) + (s.executed : Multiset _) +
    s.recorded + tagged name taken = _
  unfold State.placed
  rw [← queuedIn_update h]
  abel

end Places

section Timer

open State

variable {name : QueueName} {fr : Goods → Prop}

theorem owns_batch (array : List Text) {start : Nat} (hpos : 1 ≤ start) (t : State) :
    (Prog.call t (.batch name (array.drop (start - 1))) fun
      | .ok, s => .done (s.noteExecuted name (array.drop (start - 1))) none
      | .errno, s =>
        .call s (.selectIndex name (array.drop (start - 1))) fun
          | .index n, s =>
              .done (s.noteExecuted name ((array.drop (start - 1)).take n))
                (some ⟨n + start, Nat.le_add_left start n⟩)
          | _, s => .raised s
      | _, s => .raised s).Owns owning (fun (r : Option {fail : Nat // start ≤ fail}) _ g =>
        match r with
        | none => g = (0, {name}, 0)
        | some ⟨fail, _⟩ => ∃ sql, array[fail - 1]? = some sql ∧
            g = (tagged name (array.drop (fail - 1)), {name}, 0))
      fr t (tagged name (array.drop (start - 1)), {name}, 0) := by
  refine ⟨_, turns_busy rfl rfl rfl, rfl, fun b u hb _ => ?_⟩
  cases b with
  | ok =>
      refine ⟨(0, {name}, 0), turns_busy rfl rfl ?_, rfl⟩
      rw [add_zero, placed_noteExecuted]
  | errno =>
      refine ⟨_, turns_busy rfl rfl rfl, rfl, fun c v hc _ => ?_⟩
      cases c with
      | index n =>
          have hn : n < (array.drop (start - 1)).length := hc
          rw [List.length_drop] at hn
          have hat : n + start - 1 = start - 1 + n := by omega
          refine ⟨(tagged name (array.drop (n + start - 1)), {name}, 0),
            turns_busy rfl rfl ?_, array.get ⟨n + start - 1, by omega⟩, ?_, rfl⟩
          · rw [placed_noteExecuted, add_assoc, ← tagged_append, hat, ← List.drop_drop,
              List.take_append_drop]
          · exact List.getElem?_eq_getElem _
      | ok => exact absurd hc id
      | errno => exact absurd hc id
      | services statuses => exact absurd hc id
      | error => exact absurd hc id
  | index n => exact absurd hb id
  | services statuses => exact absurd hb id
  | error => exact absurd hb id

theorem owns_execSqlArray (array : List Text) {start : Nat} (hpos : 1 ≤ start) (s : State) :
    (execSqlArray name array start s).Owns owning (fun r _ g => match r with
        | none => g = (0, {name}, 0)
        | some ⟨fail, _⟩ => ∃ sql, array[fail - 1]? = some sql ∧
            g = (tagged name (array.drop (fail - 1)), {name}, 0))
      fr s (tagged name (array.drop (start - 1)), {name}, 0) := by
  refine ⟨_, turns_busy rfl rfl rfl, rfl, fun a t ha _ => ?_⟩
  cases a with
  | error => exact absurd ha id
  | ok => exact owns_batch array hpos t
  | errno => exact owns_batch array hpos t
  | index n => exact owns_batch array hpos t
  | services statuses => exact owns_batch array hpos t

variable (fr name) in
theorem owns_runArray (array : List Text) (start : Nat) (hpos : 1 ≤ start) (s : State) :
    (runArray name array start s).Owns owning (fun _ _ g => g = (0, {name}, 0))
      fr s (tagged name (array.drop (start - 1)), {name}, 0) := by
  induction hn : array.length + 1 - start using Nat.strong_induction_on
    generalizing start s fr with
  | _ n ih =>
      rw [runArray]
      split
      · refine (owns_execSqlArray array hpos s).bind fun fr r t g _ hr => ?_
        cases r with
        | none => exact ⟨g, turns_same rfl rfl rfl rfl, hr⟩
        | some fail =>
            obtain ⟨fail, hfail⟩ := fail
            obtain ⟨sql, hsql, rfl⟩ := hr
            have hlt := (List.getElem?_eq_some_iff.mp hsql).1
            have hcons : array.drop (fail - 1) = sql :: array.drop (fail + 1 - 1) := by
              rw [List.drop_eq_getElem_cons hlt, (List.getElem?_eq_some_iff.mp hsql).2]
              congr 2
              omega
            refine Prog.Owns.of_turns ?_ (ih _ (by omega) _ (fail + 1) (by omega) _ rfl)
            refine turns_busy rfl rfl ?_
            rw [hsql, placed_recordSqlError, hcons, add_assoc, ← tagged_append,
              List.singleton_append]
      · have hnil : array.drop (start - 1) = [] := by
          rw [List.drop_eq_nil_iff]
          omega
        rw [hnil]
        exact ⟨_, turns_same rfl rfl rfl rfl, rfl⟩

theorem owns_execQueueSqlImpl (count : Nat) (s : State) :
    (execQueueSqlImpl name count s).Owns owning (fun _ _ g => g = (0, {name}, 0))
      fr s (0, {name}, 0) := by
  induction count using Nat.strong_induction_on generalizing s fr with
  | _ count ih =>
      rw [execQueueSqlImpl]
      split
      · rename_i hgo
        obtain ⟨harray, hqueue⟩ := takeSqlArray_spec (s.sqlQueues name) (min 100 count)
        rcases htake : takeSqlArray (s.sqlQueues name) (min 100 count) with ⟨array, queue⟩
        rw [htake] at harray hqueue
        dsimp only at harray hqueue
        have hsplit : (s.sqlQueues name).toList.map queuedSql =
            array ++ queue.toList.map queuedSql := by
          rw [harray, hqueue, ← List.map_append, List.take_append_drop]
        have hset : owning.Turns fr s (0, {name}, 0) (s.setQueue name queue)
            (tagged name array, {name}, 0) :=
          turns_busy rfl rfl (by rw [add_zero, placed_setQueue s name hsplit])
        cases array with
        | nil => exact ⟨_, hset, rfl⟩
        | cons sql sqls =>
            refine Prog.Owns.of_turns hset ?_
            have hrun := owns_runArray name fr (sql :: sqls) 1 (le_refl 1)
              (s.setQueue name queue)
            refine hrun.bind fun fr _ t g _ hg => ?_
            subst hg
            exact ih _ (Nat.sub_lt hgo.2 (by simp)) t
      · exact ⟨_, turns_same rfl rfl rfl rfl, rfl⟩

theorem sure_execSqlArray (array : List Text) (start : Nat) (s : State) :
    (execSqlArray name array start s).Sure Valid := by
  intro a t ha
  cases a with
  | error => exact absurd ha id
  | _ =>
      intro b u hb
      cases b with
      | ok => trivial
      | errno =>
          intro c v hc
          cases c with
          | index n => trivial
          | _ => exact absurd hc id
      | _ => exact absurd hb id

theorem sure_runArray (array : List Text) (start : Nat) (s : State) :
    (runArray name array start s).Sure Valid := by
  induction hn : array.length + 1 - start using Nat.strong_induction_on
    generalizing start s with
  | _ n ih =>
      rw [runArray]
      split
      · refine (sure_execSqlArray array start s).bind fun r t => ?_
        cases r with
        | none => trivial
        | some fail =>
            obtain ⟨fail, hfail⟩ := fail
            exact ih _ (by omega) (fail + 1) _ rfl
      · trivial

theorem sure_execQueueSqlImpl (count : Nat) (s : State) :
    (execQueueSqlImpl name count s).Sure Valid := by
  induction count using Nat.strong_induction_on generalizing s with
  | _ count ih =>
      rw [execQueueSqlImpl]
      split
      · rename_i hgo
        split
        · trivial
        · exact (sure_runArray _ 1 _).bind fun _ t => ih _ (Nat.sub_lt hgo.2 (by simp)) t
      · trivial

theorem turns_start {s : State} (hrun : s.running name = false)
    (hne : (s.sqlQueues name).empty = false) :
    owning.Turns fr s 0 (s.setRunning name true) (0, {name}, 0) := by
  refine ⟨trivial, fun f _ h => ⟨?_, fun other => ?_, fun n hn => ?_⟩⟩
  · change s.allPushed = s.placed + _
    simpa using h.placed
  · have hother := h.busy other
    rw [zero_add] at hother
    change ({name} + f.2.1).count other =
      if Function.update s.running name true other then 1 else 0
    rw [Multiset.count_add, hother]
    by_cases heq : other = name
    · subst heq
      simp [hrun]
    · simp [heq]
  · obtain ⟨hle, hidle⟩ := h.idle n (by simpa using hn)
    refine ⟨hle, fun heq => ?_⟩
    have hempty := (hidle heq).1 name
    rw [hne] at hempty
    cases hempty

theorem turns_finish (s : State) :
    owning.Turns fr s (0, {name}, 0) (s.setRunning name false) 0 := by
  refine ⟨trivial, fun f _ h => ⟨?_, fun other => ?_, fun n hn => ?_⟩⟩
  · change s.allPushed = s.placed + _
    simpa using h.placed
  · have hother := h.busy other
    change ({name} + f.2.1).count other = _ at hother
    rw [Multiset.count_add] at hother
    rw [zero_add]
    change f.2.1.count other = if Function.update s.running name false other then 1 else 0
    by_cases heq : other = name
    · subst heq
      rw [Multiset.count_singleton_self] at hother
      have hzero : f.2.1.count other = 0 := by
        split at hother <;> omega
      rw [Function.update_self, hzero]
      rfl
    · rw [Multiset.count_singleton, if_neg heq, zero_add] at hother
      rw [Function.update_of_ne heq, hother]
  · obtain ⟨hle, hidle⟩ := h.idle n (by simpa using hn)
    refine ⟨hle, fun heq => ?_⟩
    have hcount := h.busy name
    rw [(hidle heq).2 name] at hcount
    simp at hcount

theorem setRunning_of_idle {s : State} (h : s.running name = false) :
    (s.setRunning name true).setRunning name false = s := by
  unfold setRunning
  rw [Function.update_idem, ← h, Function.update_eq_self]

theorem owns_tick (s : State) :
    (tick name s).Owns owning (fun _ _ g => g = 0) fr s 0 := by
  rw [tick]
  split
  · exact ⟨0, turns_same rfl rfl rfl rfl, rfl⟩
  · rename_i hrun
    rw [Bool.not_eq_true] at hrun
    cases hne : (s.sqlQueues name).empty with
    | true =>
        -- the callback finds nothing to do
        rw [execQueueSqlImpl, if_neg (fun h => by
          have hfalse : (s.sqlQueues name).empty = false := h.1
          rw [hne] at hfalse
          cases hfalse)]
        refine ⟨0, ?_, rfl⟩
        rw [setRunning_of_idle hrun]
        exact turns_same rfl rfl rfl rfl
    | false =>
        refine Prog.Owns.of_turns (turns_start hrun hne) ?_
        refine ((owns_execQueueSqlImpl (quota name) (s.setRunning name true)).xpcall
          (sure_execQueueSqlImpl _ _)).bind fun fr _ t g _ hr => ?_
        obtain ⟨-, -, rfl⟩ := hr
        exact ⟨0, turns_finish t, rfl⟩

/-! ## Stopping -/

theorem turns_promise {s : State} (hfast : (s.sqlQueues .fast).empty = true)
    (hslow : (s.sqlQueues .slow).empty = true) :
    owning.Turns fr s 0 s (Ask.sleep s.pushed.length s.isBusy).owned := by
  refine ⟨trivial, fun f _ h => ⟨?_, fun other => ?_, fun n hn => ?_⟩⟩
  · simpa [Ask.owned] using h.placed
  · simpa [Ask.owned] using h.busy other
  · change n ∈ (if s.isBusy = true then (0 : Multiset Nat) else {s.pushed.length}) + f.2.2 at hn
    rcases Multiset.mem_add.mp hn with hn | hn
    · split at hn
      · simp at hn
      · rename_i hbusy
        obtain rfl := Multiset.mem_singleton.mp hn
        simp only [isBusy, Bool.or_eq_true, not_or, Bool.not_eq_true] at hbusy
        refine ⟨le_refl _, fun _ => ⟨fun name => ?_, fun name => ?_⟩⟩
        · cases name
          · exact hfast
          · exact hslow
        · cases name
          · exact hbusy.1
          · exact hbusy.2
    · exact h.idle n (by simpa using hn)

theorem owns_tryStopService (s : State) :
    (tryStopService s).Owns owning (fun _ _ g => g = 0) fr s 0 := by
  unfold tryStopService
  split
  · exact ⟨0, turns_same rfl rfl rfl rfl, rfl⟩
  · rename_i hfast
    split
    · exact ⟨0, turns_same rfl rfl rfl rfl, rfl⟩
    · rename_i hslow
      rw [Bool.not_eq_false] at hfast hslow
      refine ⟨_, turns_promise hfast hslow, rfl, fun a t _ _ => ?_⟩
      refine ⟨_, turns_same rfl rfl rfl rfl, rfl, fun b u _ _ => ?_⟩
      cases b with
      | services statuses =>
          dsimp only
          split
          · exact ⟨0, turns_drop _, rfl⟩
          · exact ⟨0, turns_drop _, rfl⟩
      | _ => exact turns_drop _

theorem owns_destroy (s : State) : (destroy s).Owns owning (fun _ _ g => g = 0) fr s 0 :=
  ⟨0, turns_same rfl rfl rfl rfl, rfl, fun _ _ _ _ => ⟨0, turns_same rfl rfl rfl rfl, rfl⟩⟩

theorem owns_stopService (s : State) :
    (stopService s).Owns owning (fun _ _ g => g = 0) fr s 0 := by
  unfold stopService
  split
  · exact ⟨0, turns_same rfl rfl rfl rfl, rfl⟩
  · refine (owns_tryStopService s).bind fun fr status t g _ hg => ?_
    subst hg
    cases status with
    | stop =>
        have hturns : owning.Turns fr t 0 { t with currentServiceStatus := .stop } 0 :=
          turns_same rfl rfl rfl rfl
        exact (owns_destroy { t with currentServiceStatus := .stop }).of_turns hturns
    | _ => exact ⟨0, turns_same rfl rfl rfl rfl, rfl⟩

theorem owns_stopTick (s : State) : (stopTick s).Owns owning (fun _ _ g => g = 0) fr s 0 := by
  unfold stopTick
  split
  · exact ⟨0, turns_same rfl rfl rfl rfl, rfl⟩
  · refine (owns_tryStopService s).bind fun fr status t g _ hg => ?_
    subst hg
    cases status with
    | stop =>
        have hturns : owning.Turns fr t 0 { t with
            currentServiceStatus := .stop
            stopTimers := t.stopTimers - 1 } 0 := turns_same rfl rfl rfl rfl
        exact (owns_destroy _).of_turns hturns
    | _ => exact ⟨0, turns_same rfl rfl rfl rfl, rfl⟩

theorem turns_push (s : State) (name : QueueName) (sql : Text) :
    owning.Turns fr s 0 (s.push name sql) 0 := by
  refine ⟨trivial, fun f _ h => ⟨?_, h.busy, fun n hn => ?_⟩⟩
  · have hpushed : (s.push name sql).allPushed = s.allPushed + tagged name [queuedSql sql] := by
      unfold allPushed push tagged
      rw [List.map_append, ← Multiset.coe_add]
      rfl
    have hqueue : queuedIn (s.push name sql).sqlQueues =
        queuedIn s.sqlQueues + tagged name [queuedSql sql] := by
      unfold queuedIn push
      cases name with
      | fast =>
          dsimp only
          rw [Function.update_self, Function.update_of_ne (by decide), Queue.toList_pushBack,
            List.map_append, tagged_append]
          change _ + tagged .fast [queuedSql sql] + _ = _
          abel
      | slow =>
          dsimp only
          rw [Function.update_self, Function.update_of_ne (by decide), Queue.toList_pushBack,
            List.map_append, tagged_append]
          change _ + (_ + tagged .slow [queuedSql sql]) = _
          abel
    have hplaced : (s.push name sql).placed = s.placed + tagged name [queuedSql sql] := by
      unfold State.placed
      rw [hqueue]
      change _ + _ + (s.executed : Multiset _) + s.recorded = _
      abel
    rw [hpushed, hplaced, h.placed]
    abel
  · obtain ⟨hle, -⟩ := h.idle n hn
    have hlen : (s.push name sql).pushed.length = s.pushed.length + 1 := by simp [push]
    rw [hlen]
    exact ⟨by omega, by omega⟩

theorem owns_handle (e : Event) (s : State) :
    (handle e s).Owns owning (fun _ _ g => g = 0) fr s 0 := by
  cases e with
  | push name sql => exact ⟨0, turns_push s name sql, rfl⟩
  | tick name => exact owns_tick s
  | stopService => exact owns_stopService s
  | stopTick => exact owns_stopTick s

end Timer

section Runs

abbrev Service := World State Ask Answer Unit

abbrev Waiting := Ask × (Answer → State → Prog State Ask Answer Unit)

def Service.start : Service := ⟨{}, []⟩

def Ask.ofBatch : Ask → Bool
  | .resetIndex .. | .batch .. | .selectIndex .. => true
  | _ => false

def Service.inFlight (w : Service) : Texts := (w.waiting.map fun x => x.1.texts).sum

/-- Every text that was pushed is queued, in a batch, executed or recorded. -/
def Service.Accounted (w : Service) : Prop :=
  w.state.allPushed = w.state.placed + Service.inFlight w

instance (w : Service) : Decidable (Service.Accounted w) :=
  inferInstanceAs (Decidable (w.state.allPushed = w.state.placed + Service.inFlight w))

def stopsAt : Ask → Answer → Bool
  | .gatherServicesStatus .., .services statuses =>
      statuses.all fun st => st = .free ∨ st = .stop
  | _, _ => false

def Service.Stops (w : Service) : Input Event Answer → Prop
  | .command _ => False
  | .answer i a => ∃ x ∈ w.waiting[i]?, stopsAt x.1 a = true

instance (w : Service) : (i : Input Event Answer) → Decidable (Service.Stops w i)
  | .command _ => inferInstanceAs (Decidable False)
  | .answer i a => inferInstanceAs (Decidable (∃ x ∈ w.waiting[i]?, stopsAt x.1 a = true))

def Service.Clean (w : Service) : Prop :=
  (∀ name, (w.state.sqlQueues name).empty = true) ∧ ∀ x ∈ w.waiting, x.1.ofBatch = false

instance (w : Service) : Decidable (Service.Clean w) :=
  inferInstanceAs (Decidable ((∀ name, (w.state.sqlQueues name).empty = true) ∧
    ∀ x ∈ w.waiting, x.1.ofBatch = false))

def Ask.undisturbed (pushed : Nat) : Ask → Prop
  | .gatherServicesStatus n busy => n = pushed ∧ busy = false
  | _ => True

instance (pushed : Nat) : (q : Ask) → Decidable (q.undisturbed pushed)
  | .gatherServicesStatus n busy => inferInstanceAs (Decidable (n = pushed ∧ busy = false))
  | .resetIndex .. | .batch .. | .selectIndex .. | .sleep .. | .destroyByaddr =>
      inferInstanceAs (Decidable True)

instance (q : Ask) (a : Answer) : Decidable (Valid q a) := by
  unfold Valid
  split <;> infer_instance

/-- The calls to the database raise no error, and `try_stop_service` returns `stop` only
if nothing came between its tests and the answer of the other services. -/
def Service.Careful (w : Service) : Input Event Answer → Prop
  | .command _ => True
  | .answer i a => ∀ x ∈ w.waiting[i]?, Valid x.1 a ∧
      (stopsAt x.1 a = true → x.1.undisturbed w.state.pushed.length)

instance (w : Service) : (i : Input Event Answer) → Decidable (Service.Careful w i)
  | .command _ => inferInstanceAs (Decidable True)
  | .answer i a => inferInstanceAs (Decidable (∀ x ∈ w.waiting[i]?, Valid x.1 a ∧
      (stopsAt x.1 a = true → x.1.undisturbed w.state.pushed.length)))

theorem careful_admits {w : Service} {i : Input Event Answer} (h : Service.Careful w i) :
    w.Admits Valid (fun _ _ => True) (fun _ => True) i := by
  cases i with
  | command e => trivial
  | answer i a => exact ⟨trivial, fun x hx => (h x hx).1⟩

theorem owned_start : World.Owned owning Service.start :=
  ⟨trivial, [], ⟨rfl, fun name => by cases name <;> rfl, fun n hn => by simp at hn⟩, .nil⟩

theorem owned_of_reach {w : Service}
    (h : Reach (World.step handle) Service.Careful Service.start w) :
    World.Owned owning w :=
  Reach.invariant owned_start (fun _ _ hw hi => hw.step (fun s e _ _ => owns_handle e s)
    (careful_admits hi) fun _ _ _ _ _ _ _ _ _ _ => trivial) h

theorem kept_of_owned {w : Service} (h : World.Owned owning w) :
    Kept w.state (w.waiting.map fun x : Waiting => x.1.owned).sum := by
  obtain ⟨-, gs, hkept, hwait⟩ := h
  have hgs : w.waiting.map (fun x => x.1.owned) = gs := by
    rw [← List.forall₂_eq_eq_eq, List.forall₂_map_left_iff]
    exact hwait.imp fun _ _ hx => hx.1.symm
  rwa [hgs]

theorem Ask.owned_texts (q : Ask) : q.owned.1 = q.texts := by cases q <;> rfl

theorem sum_owned_texts (waiting : List Waiting) :
    (waiting.map fun x : Waiting => x.1.owned).sum.1 =
      (waiting.map fun x : Waiting => x.1.texts).sum := by
  induction waiting with
  | nil => rfl
  | cons x rest ih =>
      rw [List.map_cons, List.sum_cons, List.map_cons, List.sum_cons, ← ih,
        ← Ask.owned_texts]
      rfl

theorem owned_of_mem {waiting : List Waiting} {x : Waiting} (hx : x ∈ waiting) :
    ∃ rest, (waiting.map fun x : Waiting => x.1.owned).sum = x.1.owned + rest := by
  obtain ⟨before, after, rfl⟩ := List.append_of_mem hx
  refine ⟨(before.map fun x : Waiting => x.1.owned).sum +
    (after.map fun x : Waiting => x.1.owned).sum, ?_⟩
  rw [List.map_append, List.sum_append, List.map_cons, List.sum_cons]
  exact add_left_comm _ _ _

theorem Ask.owned_of_ofBatch {q : Ask} (h : q.ofBatch = true) :
    ∃ name, name ∈ q.owned.2.1 := by
  cases q with
  | resetIndex name rest => exact ⟨name, Multiset.mem_singleton_self _⟩
  | batch name rest => exact ⟨name, Multiset.mem_singleton_self _⟩
  | selectIndex name rest => exact ⟨name, Multiset.mem_singleton_self _⟩
  | _ => cases h

theorem clean_of_stops {w : Service}
    (hkept : Kept w.state (w.waiting.map fun x : Waiting => x.1.owned).sum)
    {i : Input Event Answer} (hcare : Service.Careful w i) (hstop : Service.Stops w i) :
    Service.Clean w := by
  cases i with
  | command e => exact absurd hstop id
  | answer i a =>
      obtain ⟨⟨q, resume⟩, hx, hat⟩ := hstop
      have hmem : (q, resume) ∈ w.waiting := List.mem_of_getElem? (by simpa using hx)
      obtain ⟨-, hund⟩ := hcare _ hx
      have hquiet := hund hat
      cases q with
      | gatherServicesStatus n busy =>
          obtain ⟨rfl, rfl⟩ : n = w.state.pushed.length ∧ busy = false := hquiet
          obtain ⟨rest, hrest⟩ := owned_of_mem hmem
          have hpromise : w.state.pushed.length ∈
              (w.waiting.map fun x : Waiting => x.1.owned).sum.2.2 := by
            rw [hrest]
            exact Multiset.mem_add.mpr (.inl (Multiset.mem_singleton_self _))
          obtain ⟨hempty, hrun⟩ := (hkept.idle _ hpromise).2 rfl
          refine ⟨hempty, fun y hy => ?_⟩
          by_contra hbatch
          rw [Bool.not_eq_false] at hbatch
          obtain ⟨name, hname⟩ := Ask.owned_of_ofBatch hbatch
          obtain ⟨others, hothers⟩ := owned_of_mem hy
          have hcount := hkept.busy name
          rw [hrun name, if_neg (by decide), Multiset.count_eq_zero, hothers] at hcount
          exact hcount (Multiset.mem_add.mpr (.inl hname))
      | _ => cases a <;> cases hat

end Runs

/-- No text that was pushed is ever lost, and the service is told to stop only when there
is nothing to write. -/
theorem no_write_lost {w : Service}
    (h : Reach (World.step handle) Service.Careful Service.start w) :
    Service.Accounted w ∧
      ∀ i, Service.Careful w i → Service.Stops w i → Service.Clean w := by
  have hkept := kept_of_owned (owned_of_reach h)
  refine ⟨?_, fun i hcare hstop => clean_of_stops hkept hcare hstop⟩
  unfold Service.Accounted Service.inFlight
  rw [hkept.placed, sum_owned_texts]

def stoppingRun : List (Input Event Answer) :=
  [.command (.push .fast "update t set a=1".toList), .command (.tick .fast), .answer 0 .ok,
    .answer 0 .ok, .command .stopService, .answer 0 .ok]

theorem no_write_lost_stopping :
    Service.Accounted (run (World.step handle) Service.start stoppingRun) ∧
      Service.Clean (run (World.step handle) Service.start stoppingRun) :=
  have hallowed : Allowed (World.step handle) Service.Careful Service.start stoppingRun := by
    decide +kernel
  have hrun := no_write_lost (reach_run hallowed)
  ⟨hrun.1, hrun.2 (.answer 0 (.services [.free])) (by decide +kernel) (by decide +kernel)⟩

def lostRun : List (Input Event Answer) :=
  [.command (.push .fast "update t set a=1".toList), .command (.tick .fast),
    .answer 0 .error]

def hastyRun : List (Input Event Answer) :=
  [.command (.push .fast "update t set a=1".toList), .command (.tick .fast),
    .command .stopService, .answer 1 .ok]

/-- The connection is lost during a batch, and the text is gone; and the service stops
while a batch is being executed. -/
theorem write_lost_by_error :
    ¬Service.Accounted (run (World.step handle) Service.start lostRun) ∧
      Service.Stops (run (World.step handle) Service.start hastyRun)
        (.answer 1 (.services [])) ∧
      ¬Service.Clean (run (World.step handle) Service.start hastyRun) := by
  decide +kernel

end JyQipai.DataService
