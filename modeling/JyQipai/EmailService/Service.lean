import JyQipai.AssetManage.Purchase
import JyQipai.Common.SafeSerialize
import JyQipai.Lib.Dict

/-!
# The mail service

`email_service.lua`, with the tables `emails` and `emails_log` that `email_data.lua` keeps for it.
A handler does not wait between its first and its last change; the rounds of `update` wait between
two mails.  A player without a table of mails has an empty one here.
-/

namespace JyQipai.EmailService

open Lib Lib.Lua Basefunc AssetManage

abbrev PlayerId := Text

/-- The states that `set_email_state` lists. -/
inductive EmailState where
  | normal
  | read
  | invalid
  | close
  deriving DecidableEq

/-- A mail, and a row of the table `emails`; `data` is the text of its data. -/
structure Email where
  id : Nat
  type : Text
  title : Option Value
  sender : Text
  receiver : PlayerId
  state : EmailState
  validTime : Int
  data : Text
  createTime : Int
  completeTime : Int
  deriving DecidableEq

/-- An entry of `asset_data`. -/
inductive Attachment where
  | asset (assetType : Text) (value : Value)
  | object (assetType : Text) (attr : Entries)
  deriving DecidableEq

/-- The message `multi_change_asset_and_sendMsg`. -/
structure Sent where
  player : PlayerId
  assetData : List Attachment
  changeType : Option Value
  changeId : Option Value
  emailId : Nat
  deriving DecidableEq

structure Env where
  /-- `os.time() + v`, where `v` is no integer; `none` where it raises. -/
  plus : Int → Value → Option Value
  floatText : Bool → Option ℚ → Text
  /-- How deep `loadstring` reads. -/
  levels : Nat
  /-- The data in the row of an insert statement; `none` where the statement fails. -/
  stored : Email → Option Text
  /-- The order in which `pairs` meets the mails of a player. -/
  pairs : List Nat → List Nat
  pairs_perm : ∀ l, (pairs l).Perm l

/-- The data of the service, the tables of the data service, and what it was told to deliver.
`history` has all mails that were sent, with their data. -/
structure Service where
  emailMaxId : Nat := 0
  emails : PlayerId → HashTable Nat Email := fun _ => ∅
  emailLists : PlayerId → List Nat := fun _ => []
  emailDatas : Nat → Option Entries := fun _ => none
  table : List Email := []
  log : List Email := []
  sent : List Sent := []
  history : List (Email × Entries) := []

def emailMaxNum : Nat := 50

/-! ## Attachments -/

def keyIsAsset : Key → Bool
  | .index _ => false
  | .name s => isAsset (String.ofList s)

def ipairs (es : Entries) : List Value := go es.size 1
where
  go : Nat → Nat → List Value
    | 0, _ => []
    | n + 1, i =>
        match es.get (.index i) with
        | none => []
        | some v => v :: go n (i + 1)

def validTimeKey : Key := .name "valid_time".toList

def initAttribute (env : Env) (now : Int) (as : Entries) : Option Entries :=
  match as.get validTimeKey with
  | none | some (.boolean false) => some as
  | some (.integer i) => some (as.set validTimeKey (.integer (now + i)))
  | some v => (env.plus now v).map (as.set validTimeKey)

def attributes (value : Entries) : List Entries :=
  (ipairs value).filterMap fun
    | .table as => some as
    | _ => none

def entryAttachments (env : Env) (now : Int) : Key → Value → Option (List Attachment)
  | .index _, _ => some []
  | .name key, value =>
      if isAsset (String.ofList key) then some [.asset key value]
      else if isObjectAsset (String.ofList key) then
        match value with
        | .table es => (attributes es).mapM fun as => (initAttribute env now as).map (.object key)
        | _ => some []
      else some []

def assetData (env : Env) (now : Int) : Entries → Option (List Attachment)
  | .nil => some []
  | .cons key value rest =>
      (entryAttachments env now key value).bind fun l => (assetData env now rest).map (l ++ ·)

def hasAsset : Entries → Bool
  | .nil => false
  | .cons key _ rest => keyIsAsset key || hasAsset rest

/-- `change_type` and `change_id` of `asset_change_data`; `none` where it cannot be indexed. -/
def assetChangeData (data : Entries) : Option (Option Value × Option Value) :=
  match data.get (.name "asset_change_data".toList) with
  | none | some (.boolean false) | some (.text _) => some (none, none)
  | some (.table es) =>
      some (es.get (.name "change_type".toList), es.get (.name "change_id".toList))
  | some _ => none

/-! ## Mails -/

def Email.expired (email : Email) (now : Int) : Bool :=
  decide (0 < email.validTime) && decide (email.validTime < now)

namespace Service

section Operations

variable (env : Env) (now : Int) (player : PlayerId) (id : Nat) (s : Service)

def email : Option Email := (s.emails player).lookup id

def setRead (email : Email) : Service :=
  { s with
    emails := Function.update s.emails player
      ((s.emails player).insert id { email with state := .read, completeTime := now })
    table := s.table.map fun row =>
      if row.id = id then { row with state := .read, completeTime := now } else row }

def remove : Service :=
  { s with
    emails := Function.update s.emails player ((s.emails player).erase id)
    emailDatas := Function.update s.emailDatas id none
    table := s.table.filter fun row => row.id ≠ id }

def updateEmailLists : Service :=
  { s with emailLists :=
      Function.update s.emailLists player (env.pairs (s.emails player).keys) }

def multiChange (assets : List Attachment) (change : Option Value × Option Value) : Service :=
  { s with sent := s.sent ++ [⟨player, assets, change.1, change.2, id⟩] }

/-- The code that is returned, `none` where the handler raises, and the service. -/
abbrev Result := Option Nat × Service

def readEmail : Result :=
  match s.email player id with
  | none => (none, s)
  | some email =>
      if email.state = .normal then
        if email.expired now then (some 2302, s)
        else if (s.emailDatas id).any hasAsset then (some 2308, s)
        else (some 0, s.setRead now player id email)
      else if email.state = .read then (some 2307, s)
      else (some 2303, s)

def delete : Service := (s.remove player id).updateEmailLists env player

/-- The deletion at its end is that of a mail which has been read, see `deleteEmail_read`. -/
def getAttachment (notValidTime : Bool) : Result :=
  match s.emailDatas id with
  | none | some .nil => (some 2304, s)
  | some data =>
      match s.email player id with
      | none => (none, s)
      | some email =>
          if email.state = .read then (some 2305, s)
          else if email.state ≠ .normal then (some 2303, s)
          else if !notValidTime && email.expired now then (some 2302, s)
          else
            match assetData env now data with
            | none => (none, s)
            | some [] => (some 2304, s)
            | some assets =>
                let t := s.setRead now player id email
                match assetChangeData data with
                | none => (none, t)
                | some change =>
                    (some 0, (t.multiChange player id assets change).delete env player id)

def deleteEmail : Result :=
  match s.email player id with
  | none => (none, s)
  | some email =>
      if email.state = .read ∨ email.validTime < now then
        if email.state = .normal then
          match s.getAttachment env now player id true with
          | (none, t) => (none, t)
          | (some _, t) => (some 0, t.delete env player id)
        else (some 0, s.delete env player id)
      else if email.state = .normal then (some 2306, s)
      else (some 2303, s)

def dropOverflow : Option Unit × Service :=
  match s.email player id with
  | none => (none, s)
  | some email =>
      if email.state = .normal then
        match s.getAttachment env now player id true with
        | (none, t) => (none, t)
        | (some _, t) => (some (), t.remove player id)
      else (some (), s.remove player id)

def dropAll : List Nat → Service → Option Unit × Service
  | [], s => (some (), s)
  | id :: ids, s =>
      match s.dropOverflow env now player id with
      | (none, t) => (none, t)
      | (some _, t) => dropAll ids t

def chkDeleteOverflowEmails : Option Unit × Service :=
  let num := (s.emailLists player).length
  if emailMaxNum < num then
    let emailIds := (s.emailLists player).mergeSort
    let s := { s with emailLists := Function.update s.emailLists player emailIds }
    match s.dropAll env now player (emailIds.take (num - emailMaxNum)) with
    | (none, t) => (none, t)
    | (some _, t) => (some (), t.updateEmailLists env player)
  else (some (), s)

def updateEmail : Service :=
  match s.email player id with
  | none => s
  | some email =>
      if email.expired now then
        match s.getAttachment env now player id true with
        | (none, t) => t
        | (some _, t) => t.delete env player id
      else s

def getEmailList : Option (List Nat) × Service :=
  match s.chkDeleteOverflowEmails env now player with
  | (none, t) => (none, t)
  | (some _, t) => (some (t.emailLists player), t)

def getEmailAttachment : Result :=
  match s.email player id with
  | none => (some 2301, s)
  | some _ => s.getAttachment env now player id false

def getAll : List Nat → Service → Option (List Nat) × Service
  | [], s => (some [], s)
  | id :: ids, s =>
      match s.getAttachment env now player id false with
      | (none, t) => (none, t)
      | (some code, t) =>
          let r := getAll ids t
          (r.1.map fun l => if code = 0 then id :: l else l, r.2)

def getAllEmailAttachment : Option (List Nat) × Service :=
  s.getAll env now player (s.emailLists player)

end Operations

end Service

/-- What `opt_email` is asked for. -/
inductive Opt where
  | read
  | delete
  | other
  deriving DecidableEq

def Service.optEmail (env : Env) (now : Int) (player : PlayerId) (id : Nat) (opt : Opt)
    (s : Service) : Service.Result :=
  match s.email player id with
  | none => (some 2301, s)
  | some _ =>
      match opt with
      | .read => s.readEmail now player id
      | .delete => s.deleteEmail env now player id
      | .other => (some 1001, s)

/-! ## Sending -/

/-- The argument of `send_email`. -/
structure Draft where
  type : Option Value
  title : Option Value := none
  sender : Option Value
  receiver : Option PlayerId
  state : Option EmailState := none
  validTime : Option Int := none
  data : Option Value := none

def asText : Option Value → Option Text
  | some (.text s) => some s
  | _ => none

def titleOk : Option Value → Bool
  | none | some (.boolean false) | some (.text _) => true
  | _ => false

def dataTable : Option Value → Option Entries
  | none | some (.boolean false) => some .nil
  | some (.table es) => some es
  | _ => none

def Service.insertEmail (env : Env) (email : Email) (s : Service) : Service :=
  match env.stored email with
  | none => s
  | some data =>
      let row := { email with data }
      { s with
        table := if s.table.any (·.id = email.id) then s.table else s.table ++ [row]
        log := if s.log.any (·.id = email.id) then s.log else s.log ++ [row] }

def Service.put (env : Env) (email : Email) (data : Entries) (s : Service) : Service :=
  Service.insertEmail env email
    { s with
      emailMaxId := email.id
      emails := Function.update s.emails email.receiver
        ((s.emails email.receiver).insert email.id email)
      emailLists := Function.update s.emailLists email.receiver
        (s.emailLists email.receiver ++ [email.id])
      emailDatas := Function.update s.emailDatas email.id (some data)
      history := s.history ++ [(email, data)] }

def Service.sendEmail (env : Env) (now : Int) (draft : Option Draft) (s : Service) :
    Nat × Service :=
  match draft with
  | none => (1001, s)
  | some draft =>
      match asText draft.type, asText draft.sender, draft.receiver, dataTable draft.data with
      | some type, some sender, some receiver, some data =>
          if titleOk draft.title then
            let email : Email :=
              { id := s.emailMaxId + 1, type, title := draft.title, sender, receiver
                state := draft.state.getD .normal, validTime := draft.validTime.getD 0
                data := safeSerialize env.floatText (.table data)
                createTime := now, completeTime := 0 }
            (0, s.put env email data)
          else (1001, s)
      | _, _, _, _ => (1001, s)

/-! ## Starting again -/

def rowData (env : Env) (row : Email) : Entries :=
  match (parseEmailData env.levels row.data).1 with
  | .table es => es
  | _ => .nil

def Service.load (env : Env) (s : Service) (row : Email) : Service :=
  { s with
    emails := Function.update s.emails row.receiver ((s.emails row.receiver).insert row.id row)
    emailLists := Function.update s.emailLists row.receiver (s.emailLists row.receiver ++ [row.id])
    emailDatas := Function.update s.emailDatas row.id (some (rowData env row)) }

def Service.initData (env : Env) (s : Service) : Service :=
  s.table.foldl (Service.load env)
    { s with
      emailMaxId := (s.log.map Email.id).foldr max 0
      emails := fun _ => ∅
      emailLists := fun _ => []
      emailDatas := fun _ => none }

/-! ## Runs -/

inductive Event where
  | sendEmail (now : Int) (draft : Option Draft)
  | optEmail (now : Int) (player : PlayerId) (id : Nat) (opt : Opt)
  | getEmailAttachment (now : Int) (player : PlayerId) (id : Nat)
  | getAllEmailAttachment (now : Int) (player : PlayerId)
  | getEmailList (now : Int) (player : PlayerId)
  /-- `update` meets a mail. -/
  | updateEmail (now : Int) (player : PlayerId) (id : Nat)
  /-- `update` meets a player who is not there. -/
  | updatePlayer (now : Int) (player : PlayerId)
  /-- The server is stopped, which waits for all statements, and started again. -/
  | restart

def step (env : Env) (s : Service) : Event → Service
  | .sendEmail now draft => (s.sendEmail env now draft).2
  | .optEmail now player id opt => (s.optEmail env now player id opt).2
  | .getEmailAttachment now player id => (s.getEmailAttachment env now player id).2
  | .getAllEmailAttachment now player => (s.getAllEmailAttachment env now player).2
  | .getEmailList now player => (s.getEmailList env now player).2
  | .updateEmail now player id => s.updateEmail env now player id
  | .updatePlayer now player => (s.chkDeleteOverflowEmails env now player).2
  | .restart => s.initData env

end JyQipai.EmailService
