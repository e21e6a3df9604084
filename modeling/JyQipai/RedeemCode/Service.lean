import JyQipai.Common.Date
import JyQipai.Lib.Track

/-!
# Redeem codes

`redeem_code_center_service` counts how often a code was used, and how many codes of a type
a player has used.  `use_key_code` waits once, for the time at which the player has
registered; the limits are tested and the counters written behind it.  A start of the
service reads the stored rows.
-/

namespace JyQipai.RedeemCode

open Lib Common

abbrev PlayerId := String

inductive UseType where
  | a (limit : Nat)
  | b (limit : Nat)
  | c
  | other (name : String)
  deriving DecidableEq, Repr

structure CodeData where
  codeType : String
  codeSubType : String
  useType : UseType
  startTime : Int := 0
  endTime : Int := 0
  registerLimitTime : Int := 0
  assets : List (String × Int) := []
  deriving DecidableEq, Repr

/-- An entry of `redeem_code_content`, with its place. -/
structure Content where
  codeType : String
  codeSubType : String
  keyCode : String
  usedCount : Nat := 0
  deriving DecidableEq, Repr

abbrev Ref := String × String × String

def Content.ref (c : Content) : Ref := (c.codeType, c.codeSubType, c.keyCode)

structure LogRow where
  playerId : PlayerId
  keyCode : String
  codeType : String
  codeSubType : String
  time : Int
  deriving DecidableEq, Repr

def LogRow.ref (r : LogRow) : Ref := (r.codeType, r.codeSubType, r.keyCode)

/-- An entry of `redeem_code_type_used_data`. -/
structure UsedData where
  num : Nat
  time : Int
  deriving DecidableEq, Repr

/-- An entry of `player_opt_time`; `punTime` is in hundredths of a second. -/
structure OptTime where
  punTime : Int
  errorTime : Int
  deriving DecidableEq, Repr

structure ReturnMsg where
  result : Nat := 0
  time : Option Int := some 0
  deriving DecidableEq, Repr

/-- The tables of the service, and the rows that `data_service` stores for it.  `given` are
the assets that were sent to players; `added` is the history of the data of codes, and `old`
the log as it was when the service was started. -/
structure Tables where
  now : Int := 0
  redeemCodeData : String → String → Option CodeData := fun _ _ => none
  redeemCodeContent : List Content := []
  redeemCodeTypeUsedData : PlayerId → String → Option UsedData := fun _ _ => none
  dataRows : List CodeData := []
  contentRows : List Content := []
  logRows : List LogRow := []
  given : List (PlayerId × List (String × Int)) := []
  added : List CodeData := []
  old : List LogRow := []

structure State extends Tables where
  playerActLock : PlayerId → Bool := fun _ => false
  playerOptTime : PlayerId → Option OptTime := fun _ => none
  returnMsg : ReturnMsg := {}

inductive Ask where
  | registerTime (playerId : PlayerId)

inductive Answer where
  | registered (time : Option Int)
  | error

abbrev Op (α : Type) := Handler State Ask Answer α

def serviceZeroTime : Int := 6

/-! ## Tables -/

def putCodeData (rcd : String → String → Option CodeData) (v : CodeData) :
    String → String → Option CodeData :=
  Function.update rcd v.codeType (Function.update (rcd v.codeType) v.codeSubType (some v))

def putContent (contents : List Content) (c : Content) : List Content :=
  contents.filter (fun e => e.ref ≠ c.ref) ++ [c]

def newContents (data : CodeData) (keyCodes : List String) : List Content :=
  keyCodes.map fun key =>
    { codeType := data.codeType, codeSubType := data.codeSubType, keyCode := key }

namespace Tables

def usedCount (t : Tables) (ref : Ref) : Nat :=
  ((t.redeemCodeContent.find? fun c => c.ref = ref).map Content.usedCount).getD 0

def setUsed (t : Tables) (playerId : PlayerId) (codeType : String) (u : UsedData) : Tables :=
  { t with
    redeemCodeTypeUsedData := Function.update t.redeemCodeTypeUsedData playerId
      (Function.update (t.redeemCodeTypeUsedData playerId) codeType (some u)) }

def getRedeemCodeData (t : Tables) (keyCode : String) : Option (CodeData × Ref) :=
  (t.redeemCodeContent.find? fun c => c.keyCode = keyCode).bind fun c =>
    (t.redeemCodeData c.codeType c.codeSubType).map fun data => (data, c.ref)

def updateData (t : Tables) (data : CodeData) (keyCodes : List String) : Tables :=
  { t with
    redeemCodeData := putCodeData t.redeemCodeData data
    redeemCodeContent := (newContents data keyCodes).foldl putContent t.redeemCodeContent
    dataRows :=
      if t.dataRows.any fun d => d.codeType = data.codeType ∧ d.codeSubType = data.codeSubType
      then t.dataRows
      else t.dataRows ++ [data]
    contentRows := (newContents data keyCodes).foldl putContent t.contentRows
    added := t.added ++ [data] }

def resetUsed (t : Tables) (playerId : PlayerId) (codeType : String) : Tables :=
  match t.redeemCodeTypeUsedData playerId codeType with
  | none => t
  | some u =>
      if chkSameDate u.time t.now serviceZeroTime then t
      else t.setUsed playerId codeType { u with num := 0 }

def usedUp (t : Tables) (playerId : PlayerId) (codeType : String) (limit : Nat) : Bool :=
  match t.redeemCodeTypeUsedData playerId codeType with
  | none => false
  | some u => limit ≤ u.num

/-- The tests of `check_use_limit`: the result, and the tables with the counter that may
start again. -/
def testUseLimit (t : Tables) (data : CodeData) (ref : Ref) (playerId : PlayerId) :
    Nat × Tables :=
  match data.useType with
  | .a limit =>
      if 0 < t.usedCount ref then (4101, t)
      else if t.usedUp playerId data.codeType limit then (4104, t)
      else (0, t)
  | .b limit =>
      if limit ≤ t.usedCount ref then (4107, t)
      else if t.usedUp playerId data.codeType 1 then (4104, t)
      else (0, t)
  | .c =>
      if 0 < t.usedCount ref then (4101, t)
      else
        let t := t.resetUsed playerId data.codeType
        if t.usedUp playerId data.codeType 1 then (4108, t) else (0, t)
  | .other _ => (0, t)

/-- The end of `use_key_code`: the assets are sent, the counters and rows are written. -/
def redeem (t : Tables) (data : CodeData) (ref : Ref) (playerId : PlayerId) : Tables :=
  let used := (t.redeemCodeTypeUsedData playerId data.codeType).getD { num := 0, time := 0 }
  let count := t.usedCount ref + 1
  { t.setUsed playerId data.codeType { num := used.num + 1, time := t.now } with
    redeemCodeContent := t.redeemCodeContent.map fun c =>
      if c.ref = ref then { c with usedCount := count } else c
    contentRows := t.contentRows.map fun c =>
      if c.keyCode = ref.2.2 then { c with usedCount := count } else c
    logRows := t.logRows ++
      [{ playerId
         keyCode := ref.2.2
         codeType := data.codeType
         codeSubType := data.codeSubType
         time := t.now }]
    given := t.given ++ [(playerId, data.assets)] }

/-! ## Start -/

def initCodeData (rows : List CodeData) : String → String → Option CodeData :=
  rows.foldl putCodeData fun _ _ => none

def initContent (rows : List Content) : List Content := rows.foldl putContent []

/-- One row of the log in `init_data`: a counter that exists goes up; one that is made here
is not put into the table. -/
def initUsedRow (used : PlayerId → String → Option UsedData) (v : LogRow) :
    PlayerId → String → Option UsedData :=
  match used v.playerId v.codeType with
  | none => used
  | some ctd => Function.update used v.playerId (Function.update (used v.playerId) v.codeType
      (some { num := ctd.num + 1, time := v.time }))

def initUsed (rows : List LogRow) : PlayerId → String → Option UsedData :=
  rows.foldl initUsedRow fun _ _ => none

def initData (t : Tables) : Tables :=
  { t with
    redeemCodeData := initCodeData t.dataRows
    redeemCodeContent := initContent t.contentRows
    redeemCodeTypeUsedData := initUsed t.logRows
    old := t.logRows }

end Tables

namespace State

def setResult (s : State) (result : Nat) : State :=
  { s with returnMsg := { s.returnMsg with result } }

def setTime (s : State) (time : Option Int) : State :=
  { s with returnMsg := { s.returnMsg with time } }

def setLock (s : State) (playerId : PlayerId) (b : Bool) : State :=
  { s with playerActLock := Function.update s.playerActLock playerId b }

/-! ## Errors -/

def playerInputError (s : State) (playerId : PlayerId) : State :=
  let pun := (((s.playerOptTime playerId).map OptTime.punTime).getD 1) + 1
  { s with
    playerOptTime := Function.update s.playerOptTime playerId
      (some { punTime := if 10 < pun then 8 * 3600 * 100 else pun, errorTime := s.now }) }

def errorLeft (s : State) (ot : OptTime) : Int := 100 * (ot.errorTime - s.now) + ot.punTime

def checkErrorTimeLimit (s : State) (playerId : PlayerId) : State :=
  match s.playerOptTime playerId with
  | none => s.setResult 0
  | some ot =>
      if chkSameDate ot.errorTime s.now serviceZeroTime then
        if 0 < s.errorLeft ot then (s.setResult 4103).setTime (some (s.errorLeft ot / 100))
        else s.setResult 0
      else
        { s with playerOptTime := Function.update s.playerOptTime playerId none }.setResult 0

/-! ## Limits -/

def checkUseTimeLimit (data : CodeData) (playerId : PlayerId) : Op Unit := fun s =>
  if s.now < data.startTime ∨ data.endTime < s.now then .done (s.setResult 4105) ()
  else
    .call s (.registerTime playerId) fun
      | .registered time, s =>
          if time.getD 0 < data.registerLimitTime then .done (s.setResult 4106) ()
          else .done (s.setResult 0) ()
      | .error, s => .raised s

def checkUseLimit (s : State) (data : CodeData) (ref : Ref) (playerId : PlayerId) : State :=
  let (result, tables) := s.toTables.testUseLimit data ref playerId
  let s := { s with toTables := tables, returnMsg := { result, time := none } }
  if result = 0 then s
  else
    let s := s.playerInputError playerId
    match s.playerOptTime playerId with
    | none => s
    | some ot => s.setTime (some (s.errorLeft ot / 100))

def redeem (s : State) (data : CodeData) (ref : Ref) (playerId : PlayerId) : State :=
  { s with
    toTables := s.toTables.redeem data ref playerId
    playerOptTime := Function.update s.playerOptTime playerId none
    playerActLock := Function.update s.playerActLock playerId false
    returnMsg := { result := 0, time := none } }

def useKeyCode (playerId : PlayerId) (keyCode : String) : Op Unit := fun s =>
  if s.playerActLock playerId then .done ((s.setResult 1008).setTime none) ()
  else
    let s := s.checkErrorTimeLimit playerId
    if s.returnMsg.result ≠ 0 then .done s ()
    else
      let s := s.setLock playerId true
      match s.getRedeemCodeData keyCode.toLower with
      | none =>
          .done (((s.playerInputError playerId).setLock playerId false).setResult 4102) ()
      | some (data, ref) =>
          (checkUseTimeLimit data playerId s).bind fun _ s =>
            if s.returnMsg.result ≠ 0 then .done (s.setLock playerId false) ()
            else
              let s := s.checkUseLimit data ref playerId
              if s.returnMsg.result ≠ 0 then .done (s.setLock playerId false) ()
              else
                let s := s.checkUseLimit data ref playerId
                if s.returnMsg.result ≠ 0 then .done (s.setLock playerId false) ()
                else .done (s.redeem data ref playerId) ()

def clearError (s : State) (playerId : PlayerId) : State :=
  { s with
    playerOptTime := Function.update s.playerOptTime playerId none
    playerActLock := Function.update s.playerActLock playerId false }

end State

/-- `addRedeemCodeData` is for data that have passed the checks of their form. -/
inductive Event where
  | useKeyCode (playerId : PlayerId) (keyCode : String)
  | addRedeemCodeData (data : CodeData) (keyCodes : List String)
  | clearError (playerId : PlayerId)
  | clock (seconds : Nat)

def handle : Event → Op Unit
  | .useKeyCode playerId keyCode, s => s.useKeyCode playerId keyCode
  | .addRedeemCodeData data keyCodes, s =>
      .done { s with toTables := s.updateData data (keyCodes.map String.toLower) } ()
  | .clearError playerId, s => .done (s.clearError playerId) ()
  | .clock seconds, s => .done { s with now := s.now + seconds } ()

abbrev Service := World State Ask Answer Unit

inductive Happening where
  | input (i : Input Event Answer)
  | restart

def Service.next (w : Service) : Happening → Service
  | .input i => w.step handle i
  | .restart => ⟨{ toTables := w.state.initData }, []⟩

end JyQipai.RedeemCode
