import JyQipai.Friendgame.Service
import JyQipai.Lib.Lead
import JyQipai.Lib.Poll

/-!
# Votes on the end of a friend room

The players of a friend room vote on breaking it off.  Tables are given out in
`Friendgame.Service`; here a room is there from the start until `table_finish`, and the part of
its entry in `game_info` that joining and voting use is kept.
-/

namespace JyQipai.Friendgame.Vote

open Lib

structure Room where
  roomId : RoomId
  tNum : TableId
  maxPlayer : Nat
  playerNum : Nat
  players : List PlayerId
  roomRent : Int := 0
  lockJoin : Bool := false
  isVote : Bool := false
  voteCount : Nat := 0
  voteAgreeCount : Nat := 0
  voteDisagreeCount : Nat := 0
  votePlayerFlag : PlayerId → Option Int := fun _ => none
  lastVoteTime : Option Int := none

inductive Msg where
  | beginVote (playerId : PlayerId) (countdown : Nat)
  | playerVote (playerId : PlayerId) (options : Int)
  | overVote (result : Int)
  deriving DecidableEq, Repr

/-- The service.  `sent`, `results` and `breaks` are the histories of the messages, of the votes
that are over, and of the calls of `break_game`. -/
structure Rooms where
  gameInfo : RoomNo → Option Room := fun _ => none
  sent : List (PlayerId × Msg) := []
  results : List (RoomNo × Int) := []
  breaks : List RoomNo := []

inductive Call where
  | breakGame (roomId : RoomId) (tNum : TableId)
  deriving DecidableEq, Repr

inductive Answer where
  | number (n : Int)
  | callFail
  deriving DecidableEq, Repr

abbrev Op (α : Type) := Handler Rooms Call Answer α

def voteCountdown : Nat := 15

namespace Rooms

def setRoom (s : Rooms) (roomNo : RoomNo) (room : Room) : Rooms :=
  { s with gameInfo := Function.update s.gameInfo roomNo (some room) }

def tell (s : Rooms) (room : Room) (msg : Msg) : Rooms :=
  { s with sent := s.sent ++ room.players.map fun id => (id, msg) }

def lock (s : Rooms) (roomNo : RoomNo) : Rooms :=
  { s with
    gameInfo := Function.update s.gameInfo roomNo
      ((s.gameInfo roomNo).map fun room => { room with lockJoin := true }) }

def overTheVote (roomNo : RoomNo) (room : Room) (result now : Int) : Op Unit := fun s =>
  let s := { (s.setRoom roomNo { room with lastVoteTime := some now, isVote := false }).tell room
    (.overVote result) with results := s.results ++ [(roomNo, result)] }
  if result = 0 then
    .call { s with breaks := s.breaks ++ [roomNo] } (.breakGame room.roomId room.tNum) fun
      | .number n, s => .done (if n = 0 then s.lock roomNo else s) ()
      | .callFail, s => .done s ()
  else .done s ()

/-- `check_vote_is_over`: the result of the vote, if it is over. -/
def verdict (maxPlayer agree disagree : Nat) : Option Int :=
  if 2 < maxPlayer then
    if 1 < disagree then some 1 else if maxPlayer - 1 ≤ agree then some 0 else none
  else if maxPlayer = 2 then
    if 0 < disagree then some 1 else if agree = maxPlayer then some 0 else none
  else none

def checkVoteIsOver (roomNo : RoomNo) (room : Room) (now : Int) : Op Unit := fun s =>
  match verdict room.maxPlayer room.voteAgreeCount room.voteDisagreeCount with
  | some result => overTheVote roomNo room result now s
  | none => .done s ()

end Rooms

def Room.count (room : Room) (playerId : PlayerId) (options : Int) : Room :=
  { room with
    votePlayerFlag := Function.update room.votePlayerFlag playerId (some options)
    voteCount := room.voteCount + 1
    voteAgreeCount := room.voteAgreeCount + if options = 1 then 1 else 0
    voteDisagreeCount := room.voteDisagreeCount + if options = 1 then 0 else 1 }

def Room.beginVote (room : Room) : Room :=
  { room with
    isVote := true
    voteCount := 0
    voteAgreeCount := 0
    voteDisagreeCount := 0
    votePlayerFlag := fun _ => none }

namespace Rooms

/-- `player_vote_cancel_room`; while the messages are sent nothing else runs, so that the room is
still there when the vote is checked. -/
def playerVoteCancelRoom (roomNo : RoomNo) (playerId : PlayerId) (options now : Int) : Op Int :=
  fun s =>
    match s.gameInfo roomNo with
    | none => .done s 2412
    | some room =>
        if room.isVote = true ∧ room.votePlayerFlag playerId = none then
          let room := room.count playerId options
          let s := (s.setRoom roomNo room).tell room (.playerVote playerId options)
          (checkVoteIsOver roomNo room now s).bind fun _ s => .done s 0
        else .done s 1002

def beginVoteCancelRoom (roomNo : RoomNo) (playerId : PlayerId) (now : Int) : Op Int := fun s =>
  match s.gameInfo roomNo with
  | none => .done s 2411
  | some room =>
      if room.isVote then .done s 2410
      else if ∀ time ∈ room.lastVoteTime, 10 < now - time then
        let s := (s.setRoom roomNo room.beginVote).tell room (.beginVote playerId voteCountdown)
        (playerVoteCancelRoom roomNo playerId 1 now s).bind fun _ s => .done s 0
      else .done s 2409

def joinFriendRoom (playerId : PlayerId) (roomNo : RoomNo) (roomCard : Int) : Op Int := fun s =>
  match s.gameInfo roomNo with
  | none => .done s 3201
  | some room =>
      if playerId ∈ room.players then .done s 3201
      else if room.maxPlayer ≤ room.playerNum then .done s 3202
      else if roomCard < room.roomRent then .done s 1026
      else if room.lockJoin then .done s 1002
      else
        .done (s.setRoom roomNo { room with
          playerNum := room.playerNum + 1
          players := room.players ++ [playerId] }) 0

def tableFinish (roomNo : RoomNo) : Op Int := fun s =>
  .done { s with gameInfo := Function.update s.gameInfo roomNo none } 0

end Rooms

inductive Event where
  | beginVoteCancelRoom (roomNo : RoomNo) (playerId : PlayerId) (now : Int)
  | playerVoteCancelRoom (roomNo : RoomNo) (playerId : PlayerId) (options now : Int)
  | joinFriendRoom (playerId : PlayerId) (roomNo : RoomNo) (roomCard : Int)
  | tableFinish (roomNo : RoomNo)

def handle : Event → Op Int
  | .beginVoteCancelRoom roomNo playerId now => Rooms.beginVoteCancelRoom roomNo playerId now
  | .playerVoteCancelRoom roomNo playerId options now =>
      Rooms.playerVoteCancelRoom roomNo playerId options now
  | .joinFriendRoom playerId roomNo roomCard => Rooms.joinFriendRoom playerId roomNo roomCard
  | .tableFinish roomNo => Rooms.tableFinish roomNo

abbrev Service := World Rooms Call Answer Int

/-! ## One vote -/

structure Ready (s : Rooms) (roomNo : RoomNo) (room : Room) (now : Int) : Prop where
  entry : s.gameInfo roomNo = some room
  two_le : 2 ≤ room.maxPlayer
  count : room.playerNum = room.maxPlayer
  full : room.players.length = room.maxPlayer
  nodup : room.players.Nodup
  isVote : room.isVote = false
  time : ∀ time ∈ room.lastVoteTime, 10 < now - time

def counted (votes : PlayerId → Int) (starter p : PlayerId) : Int :=
  if p = starter then 1 else votes p

def resultOf (room : Room) (votes : PlayerId → Int) (starter : PlayerId) : Int :=
  let disagree := room.players.countP fun p => counted votes starter p ≠ 1
  if (if room.maxPlayer = 2 then disagree = 0 else disagree ≤ 1) then 0 else 1

/-- What may happen meanwhile: a player's first vote while the vote goes on is the one of `votes`,
no other vote is begun, and the table is not finished before the vote is over. -/
def Meanwhile (roomNo : RoomNo) (room : Room) (votes : PlayerId → Int) (w : Service) :
    Input Event Answer → Prop
  | .command (.playerVoteCancelRoom r p options _) => r = roomNo → p ∈ room.players ∧
      ∀ cur ∈ w.state.gameInfo roomNo, cur.isVote = true → cur.votePlayerFlag p = none →
        options = votes p
  | .command (.beginVoteCancelRoom r _ now) => r = roomNo → ∀ cur ∈ w.state.gameInfo roomNo,
      cur.isVote = false → ∃ time ∈ cur.lastVoteTime, now - time ≤ 10
  | .command (.joinFriendRoom _ _ _) => True
  | .command (.tableFinish r) => r = roomNo → ∀ cur ∈ w.state.gameInfo roomNo, cur.isVote = false
  | .answer _ _ => True

def HasVoted (roomNo : RoomNo) (inputs : List (Input Event Answer)) (p : PlayerId) : Prop :=
  ∃ options now, Input.command (.playerVoteCancelRoom roomNo p options now) ∈ inputs

def resultsOf (s : Rooms) (roomNo : RoomNo) : List (RoomNo × Int) :=
  s.results.filter fun x => x.1 = roomNo

def breaksOf (s : Rooms) (roomNo : RoomNo) : List RoomNo := s.breaks.filter (· = roomNo)

structure Ended (before s : Rooms) (roomNo : RoomNo) (maxPlayer : Nat) (result : Int) : Prop where
  closed : ∀ cur ∈ s.gameInfo roomNo, cur.isVote = false
  votes : ∀ cur ∈ s.gameInfo roomNo, cur.voteCount ≤ maxPlayer
  results : resultsOf s roomNo = resultsOf before roomNo ++ [(roomNo, result)]
  breaks : breaksOf s roomNo = breaksOf before roomNo ++ if result = 0 then [roomNo] else []

structure Open (before s : Rooms) (roomNo : RoomNo) : Prop where
  isVote : ∃ cur ∈ s.gameInfo roomNo, cur.isVote = true
  results : resultsOf s roomNo = resultsOf before roomNo
  breaks : breaksOf s roomNo = breaksOf before roomNo

end JyQipai.Friendgame.Vote
