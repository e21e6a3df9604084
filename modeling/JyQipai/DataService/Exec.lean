import JyQipai.DataService.Queue
import JyQipai.DataService.Sql
import JyQipai.Lib.Serve

/-!
# The write queues

Other services push SQL texts to two queues.  A timer takes them out in chunks, sends
each chunk to MySQL as one batch, and starts again behind a text that was rejected.
`try_stop_service` says whether the service can be stopped.
-/

namespace JyQipai.DataService

open JyQipai.Lib

inductive QueueName where
  | fast
  | slow
  deriving DecidableEq, Repr

instance : Fintype QueueName := ⟨{.fast, .slow}, fun name => by cases name <;> decide⟩

/-- What `get_service_status` may return. -/
inductive ServiceStatus where
  | free
  | stop
  | running
  | wait
  deriving DecidableEq, Repr

/-- `running` is set while the callback of the queue's timer runs.  The last two fields
are the history: the texts that were pushed, and those that MySQL has executed as far as
the service has heard. -/
structure State where
  sqlQueues : QueueName → Queue Text := fun _ => .new
  errorWriteQueue : List (QueueName × Option Text) := []
  running : QueueName → Bool := fun _ => false
  currentServiceStatus : ServiceStatus := .running
  lastCommandRunning : Bool := false
  stopTimers : Nat := 0
  pushed : List (QueueName × Text) := []
  executed : List (QueueName × Text) := []

/-- What a handler waits for; the queries on behalf of a batch come with the texts of
the batch that are not dealt with yet. -/
inductive Ask where
  | resetIndex (name : QueueName) (rest : List Text)
  | batch (name : QueueName) (rest : List Text)
  | selectIndex (name : QueueName) (rest : List Text)
  | sleep (pushed : Nat) (busy : Bool)
  | gatherServicesStatus (pushed : Nat) (busy : Bool)
  | destroyByaddr

/-- `error` is an error that the call raises, `errno` an answer of MySQL. -/
inductive Answer where
  | ok
  | errno
  | index (n : Nat)
  | services (statuses : List ServiceStatus)
  | error

abbrev Op (α : Type) := Handler State Ask Answer α

def sqlStatement : Text := "set @sql_statement_index=@sql_statement_index+1".toList

def sqlStatementCounter : Text := sqlStatement ++ [';']

def safeSqlSemicolon (sql : Text) : Text :=
  if ';' ∈ sql then sql else sql ++ [';']

def queuedSql (sql : Text) : Text := safeSqlSemicolon sql ++ sqlStatementCounter

def takeSqlArray (queue : Queue Text) : Nat → List Text × Queue Text
  | 0 => ([], queue)
  | count + 1 =>
      match queue.popFront with
      | (none, queue) => ([], queue)
      | (some sql, queue) =>
          let (sqls, queue) := takeSqlArray queue count
          (queuedSql sql :: sqls, queue)

theorem takeSqlArray_spec (queue : Queue Text) (count : Nat) :
    (takeSqlArray queue count).1 = (queue.toList.take count).map queuedSql ∧
      (takeSqlArray queue count).2.toList = queue.toList.drop count := by
  induction count generalizing queue with
  | zero => exact ⟨rfl, rfl⟩
  | succ count ih =>
      cases hq : queue.toList with
      | nil =>
          rw [takeSqlArray, Queue.popFront_of_nil hq]
          exact ⟨rfl, hq⟩
      | cons sql rest =>
          obtain ⟨hpop, hrest⟩ := Queue.popFront_of_cons hq
          have hih := ih queue.popFront.2
          rw [hrest] at hih
          rw [takeSqlArray]
          rw [show queue.popFront = (some sql, queue.popFront.2) from Prod.ext hpop rfl]
          exact ⟨by rw [List.take_succ_cons, List.map_cons, ← hih.1], hih.2⟩

def concatSql (array : List Text) : Text := List.intercalate ['\n'] array

namespace State

def push (s : State) (name : QueueName) (sql : Text) : State :=
  { s with
    sqlQueues := Function.update s.sqlQueues name ((s.sqlQueues name).pushBack sql)
    pushed := s.pushed ++ [(name, sql)] }

def setQueue (s : State) (name : QueueName) (queue : Queue Text) : State :=
  { s with sqlQueues := Function.update s.sqlQueues name queue }

def noteExecuted (s : State) (name : QueueName) (sqls : List Text) : State :=
  { s with executed := s.executed ++ sqls.map (name, ·) }

def recordSqlError (s : State) (name : QueueName) (sql : Option Text) : State :=
  { s with errorWriteQueue := s.errorWriteQueue ++ [(name, sql)] }

def setRunning (s : State) (name : QueueName) (b : Bool) : State :=
  { s with running := Function.update s.running name b }

def execSqlArray (name : QueueName) (array : List Text) (start : Nat) :
    Op (Option {fail : Nat // start ≤ fail}) := fun s =>
  let rest := array.drop (start - 1)
  .call s (.resetIndex name rest) fun
    | .error, s => .raised s
    | _, s =>
      .call s (.batch name rest) fun
        | .ok, s => .done (s.noteExecuted name rest) none
        | .errno, s =>
          .call s (.selectIndex name rest) fun
            | .index n, s =>
                .done (s.noteExecuted name (rest.take n)) (some ⟨n + start, by omega⟩)
            | _, s => .raised s
        | _, s => .raised s

def runArray (name : QueueName) (array : List Text) (start : Nat) : Op Unit := fun s =>
  if start ≤ array.length then
    (execSqlArray name array start s).bind fun result s =>
      match result with
      | none => .done s ()
      | some ⟨fail, _⟩ =>
          runArray name array (fail + 1) (s.recordSqlError name array[fail - 1]?)
  else .done s ()
termination_by array.length + 1 - start

def execQueueSqlImpl (name : QueueName) (count : Nat) : Op Unit := fun s =>
  if (s.sqlQueues name).empty = false ∧ 0 < count then
    match takeSqlArray (s.sqlQueues name) (min 100 count) with
    | ([], queue) => .done (s.setQueue name queue) ()
    | (sql :: sqls, queue) =>
        (runArray name (sql :: sqls) 1 (s.setQueue name queue)).bind fun _ s =>
          execQueueSqlImpl name (count - (sql :: sqls).length) s
  else .done s ()
termination_by count

def quota : QueueName → Nat
  | .fast => 5000
  | .slow => 3000

/-- One round of `timer:start`: the callback is not called again before it has ended,
and its errors are caught. -/
def tick (name : QueueName) : Op Unit := fun s =>
  if s.running name then .done s ()
  else
    ((execQueueSqlImpl name (quota name) (s.setRunning name true)).xpcall).bind fun _ s =>
      .done (s.setRunning name false) ()

/-! ## Stopping -/

def isBusy (s : State) : Bool := s.running .fast || s.running .slow

def tryStopService : Op ServiceStatus := fun s =>
  if (s.sqlQueues .fast).empty = false then .done s .wait
  else if (s.sqlQueues .slow).empty = false then .done s .wait
  else
    .call s (.sleep s.pushed.length s.isBusy) fun _ t =>
      .call t (.gatherServicesStatus s.pushed.length s.isBusy) fun
        | .services statuses, t =>
            if statuses.all fun st => st = .free ∨ st = .stop then .done t .stop
            else .done t .wait
        | _, t => .raised t

def destroy : Op Unit := fun s => .call s .destroyByaddr fun _ s => .done s ()

def stopService : Op Unit := fun s =>
  if s.lastCommandRunning then .done s ()
  else
    (tryStopService s).bind fun status s =>
      let s := { s with currentServiceStatus := status }
      match status with
      | .wait => .done { s with
          lastCommandRunning := true
          stopTimers := s.stopTimers + 1 } ()
      | .stop => destroy s
      | _ => .done s ()

def stopTick : Op Unit := fun s =>
  if s.stopTimers = 0 then .done s ()
  else
    (tryStopService s).bind fun status s =>
      let s := { s with currentServiceStatus := status }
      match status with
      | .wait => .done { s with lastCommandRunning := false } ()
      | .stop => destroy { s with stopTimers := s.stopTimers - 1 }
      | _ => .done { s with
          lastCommandRunning := false
          stopTimers := s.stopTimers - 1 } ()

end State

inductive Event where
  | push (name : QueueName) (sql : Text)
  | tick (name : QueueName)
  | stopService
  | stopTick

def handle : Event → Op Unit
  | .push name sql, s => .done (s.push name sql) ()
  | .tick name, s => s.tick name
  | .stopService, s => s.stopService
  | .stopTick, s => s.stopTick

end JyQipai.DataService
