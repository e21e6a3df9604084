import JyQipai.Ddz.Agent
import JyQipai.Ddz.Control

/-!
# The lock of an agent

An agent serves one request at a time: a request handler sets `act_flag` before
it calls the room and clears it when the room has answered.  The handler of
`nor_ddz_nor_chupai` has one way out that does not clear the flag.
-/

namespace JyQipai.Ddz

open JyQipai.Lib

/-- An agent with its client.  `waiting` is the request whose handler waits for
the room. -/
structure Client where
  agent : Agent
  waiting : Option Request := none

inductive ClientEvent where
  /-- The client sends a request. -/
  | request (request : Request)
  /-- The room answers the pending call; `none` is `CALL_FAIL`. -/
  | answer (answer : Option Int)
  /-- The room sends a message. -/
  | message (msg : Msg)

namespace Client

def request (c : Client) (r : Request) : Client :=
  match c.agent.request r with
  | (a, .called _) => { agent := a, waiting := some r }
  | (a, _) => { c with agent := a }

def answer (c : Client) (answer : Option Int) : Client :=
  match c.waiting with
  | none => c
  | some r => { agent := (c.agent.replied r answer).1 }

def step (c : Client) : ClientEvent → Client
  | .request r => c.request r
  | .answer answer => c.answer answer
  | .message msg => { c with agent := c.agent.receive msg }

def Unlocked (c : Client) : Prop := c.waiting = none → c.agent.actFlag = false

end Client

namespace Agent

def hasType (a : Agent) (type : Int) (cpList : Option CpList) : Bool :=
  match a.checkChupai type cpList with
  | .error _ => true
  | .ok (merged, laziNum) => (getPaiType merged laziNum).any fun r =>
      r.any fun p => (p.type : Int) = type

/-- A request to play, made in the agent's turn, announces its type. -/
def Announced (a : Agent) : Request → Prop
  | .chupai (some type) cpList =>
      a.actFlag = false ∧ a.status = .cp ∧ a.curP = a.seatNum →
        a.hasType type cpList
  | _ => True

instance (a : Agent) (r : Request) : Decidable (a.Announced r) := by
  unfold Announced
  split <;> infer_instance

/-! ## The lock in the handlers -/

theorem takeDzPai_actFlag {a b : Agent} {dzPai : List Nat}
    (h : a.takeDzPai dzPai = some b) : b.actFlag = a.actFlag := by
  unfold takeDzPai at h
  split at h
  · rw [← Option.some.inj h]
  · cases h

theorem foldl_addAct_actFlag (acts : List Act) (a : Agent) :
    (acts.foldl addAct a).actFlag = a.actFlag := by
  induction acts generalizing a with
  | nil => rfl
  | cons act acts ih => rw [List.foldl_cons, ih, addAct_actFlag]

theorem dizhuMsg_actFlag (a : Agent) (dizhu : Nat) (dzPai : List Nat) :
    (a.dizhuMsg dizhu dzPai).actFlag = a.actFlag := by
  unfold dizhuMsg
  split
  · rfl
  · split
    · rfl
    · dsimp only
      split
      · split
        · rfl
        · next h => rw [initJipaiqi_actFlag, takeDzPai_actFlag h]
      · rfl

theorem mldDizhuPaiMsg_actFlag (a : Agent) (dzPai : Option (List Nat)) :
    (a.mldDizhuPaiMsg dzPai).actFlag = a.actFlag := by
  unfold mldDizhuPaiMsg
  dsimp only
  split
  · rfl
  · next b hb =>
    have hflag : b.actFlag = a.actFlag := by
      split at hb
      · exact takeDzPai_actFlag hb
      · rw [← Option.some.inj hb]
    split
    · exact hflag
    · exact hflag

theorem cpMsg_actFlag (a : Agent) (act : Act) :
    (a.cpMsg act).actFlag = a.actFlag := by
  unfold cpMsg
  dsimp only
  split
  · rfl
  · split
    · rfl
    · split
      · unfold ownPlay
        split
        · rfl
        · split <;> rfl
      · unfold otherPlay
        split
        · rfl
        · split <;> rfl

theorem receive_actFlag {a : Agent} {msg : Msg} (h : a.actFlag = false) :
    (a.receive msg).actFlag = false := by
  cases msg with
  | join seat ready =>
      simp only [receive]
      split
      · rfl
      · exact h
  | readyMsg seat =>
      simp only [receive]
      split <;> exact h
  | playerExit seat =>
      simp only [receive]
      split <;> exact h
  | pai pai => cases pai <;> exact h
  | erQdz act =>
      simp only [receive]
      split
      · split <;> exact h
      · exact h
  | dizhu dizhu dzPai rate rangpaiNum men =>
      exact (a.dizhuMsg_actFlag dizhu dzPai).trans h
  | jiabei acts rate => exact (foldl_addAct_actFlag _ a).trans h
  | laizi lz =>
      simp only [receive, laiziMsg]
      split <;> exact h
  | cp act rate => exact (a.cpMsg_actFlag act).trans h
  | mldJdzPermit curP isMustMen =>
      simp only [receive, mldJdzPermit]
      split
      · split
        · exact h
        · split
          · exact h
          · split <;> exact h
      · exact h
  | mldMen act =>
      simp only [receive, addMldAct]
      split
      · split <;> exact h
      · split <;> exact h
  | mldZp act =>
      simp only [receive, addMldAct]
      split <;> exact h
  | mldDao act =>
      simp only [receive, addMldAct]
      split <;> exact h
  | mldLa act =>
      simp only [receive, addMldAct]
      split <;> exact h
  | mldDizhuPai dzPai => exact (a.mldDizhuPaiMsg_actFlag dzPai).trans h
  | _ => exact h

/-- A handler that does not call the room leaves the lock as it was. -/
def Releases (a : Agent) (r : Agent × Outcome) : Prop :=
  (∃ e, r.2 = .called e) ∨ r.1.actFlag = a.actFlag

theorem requestNumber_releases (a : Agent) (allowed : Bool) (number : Option Int)
    (inRange refused : Int → Bool) (call : Nat → Event) :
    a.Releases (a.requestNumber allowed number inRange refused call) := by
  unfold requestNumber
  split
  · exact .inr rfl
  · split
    · exact .inr rfl
    · split
      · exact .inr rfl
      · split
        · exact .inr rfl
        · exact .inl ⟨_, rfl⟩

theorem requestChupai_releases {a : Agent} {type : Int} {cpList : Option CpList}
    (h : a.hasType type cpList) : a.Releases (a.requestChupai type cpList) := by
  have hcheck : a.cancelAuto.checkChupai type cpList = a.checkChupai type cpList :=
    rfl
  unfold requestChupai
  unfold hasType at h
  dsimp only
  rw [hcheck]
  cases hc : a.checkChupai type cpList with
  | error o => exact .inr rfl
  | ok r =>
      rw [hc] at h
      dsimp only at h ⊢
      cases hp : getPaiType r.1 r.2 with
      | none => simp [hp] at h
      | some q =>
          cases q with
          | none => simp [hp] at h
          | some p =>
              have htype : (p.type : Int) = type := by simpa [hp] using h
              dsimp only
              rw [if_neg (not_not.mpr htype)]
              exact .inl ⟨_, rfl⟩

theorem request_releases {a : Agent} {r : Request} (h : a.Announced r) :
    a.Releases (a.request r) := by
  cases r with
  | ready =>
      simp only [request]
      split
      · exact .inr rfl
      · exact .inl ⟨_, rfl⟩
  | chupai type cpList =>
      simp only [request]
      split
      · exact .inr rfl
      · next hguard =>
        simp only [not_or, not_not] at hguard
        cases type with
        | none => exact .inr rfl
        | some type =>
            apply requestChupai_releases
            exact h ⟨by simpa using hguard.1, hguard.2.1, hguard.2.2⟩
  | auto operate =>
      simp only [request]
      split
      · exact .inr rfl
      · split
        · exact .inr rfl
        · split <;> exact .inr rfl
  | jiabei rate => apply requestNumber_releases
  | jiaoDizhu rate => apply requestNumber_releases
  | erQDizhu rate => apply requestNumber_releases
  | mldMenZhua opt => apply requestNumber_releases
  | mldZhuaPai opt => apply requestNumber_releases
  | mldDaoLa opt => apply requestNumber_releases

theorem request_locked {a : Agent} (h : a.actFlag = true) (r : Request) :
    a.request r = (a, .returned (if r = .ready then 1008 else 1002)) := by
  cases r <;> simp [request, requestNumber, h]

end Agent

/-! ## Runs -/

namespace Client

def Announces (c : Client) : ClientEvent → Prop
  | .request r => c.agent.Announced r
  | _ => True

theorem Unlocked.step {c : Client} {e : ClientEvent} (h : c.Unlocked)
    (he : c.Announces e) : (c.step e).Unlocked := by
  cases e with
  | request r =>
      have hrel := Agent.request_releases he
      simp only [Client.step, Client.request]
      generalize c.agent.request r = q at hrel
      obtain ⟨a, o⟩ := q
      cases o with
      | called e => exact fun hw => by cases hw
      | returned result =>
          rcases hrel with ⟨e, he⟩ | hflag
          · cases he
          · exact fun hw => hflag.trans (h hw)
      | raised =>
          rcases hrel with ⟨e, he⟩ | hflag
          · cases he
          · exact fun hw => hflag.trans (h hw)
  | answer answer =>
      simp only [Client.step, Client.answer]
      split
      · exact h
      · exact fun _ => rfl
  | message msg => exact fun hw => Agent.receive_actFlag (h hw)

instance (c : Client) (e : ClientEvent) : Decidable (c.Announces e) := by
  unfold Announces
  split <;> infer_instance

def start (kaiguan : Nat → Bool) (cfg : Config) (seat : Nat) : Client :=
  { agent := Table.newAgent kaiguan cfg seat }

/-- After every handler has returned the lock is released, if every play that
gets as far as the lock has the type it announces. -/
theorem lock_released {kaiguan : Nat → Bool} {cfg : Config} {seat : Nat}
    {c : Client} (h : Reach Client.step Announces (start kaiguan cfg seat) c)
    (hw : c.waiting = none) : c.agent.actFlag = false := by
  have hinv : c.Unlocked :=
    Reach.invariant (fun _ => rfl) (fun _ _ hc he => hc.step he) h
  exact hinv hw

def landlordTurn : List ClientEvent :=
  ((Table.after {} (Table.bidThree ++ [.update 0])).inbox 1).map .message

/-- A play of one card, and the answer of the room. -/
theorem lock_released_lead :
    (run Client.step (start kaiguanNor {} 1) (landlordTurn ++
      [.request (.chupai (some 1) (some { nor := some [1] })),
        .answer (some 0)])).agent.actFlag = false :=
  lock_released (reach_run (by decide +kernel)) (by decide +kernel)

/-- The landlord announces a single card and sends a three and a four: the
request is refused, and so is every request after it. -/
theorem mismatch_locks :
    ∃ c, Reach Client.step (fun _ _ => True) (start kaiguanNor {} 1) c ∧
      c.waiting = none ∧ c.agent.actFlag = true ∧
      ∀ r, c.request r = c := by
  refine ⟨run Client.step (start kaiguanNor {} 1) (landlordTurn ++
    [.request (.chupai (some 1) (some { nor := some [1, 5] }))]),
    reach_run (by decide +kernel), by decide +kernel, by decide +kernel, ?_⟩
  intro r
  simp only [Client.request]
  rw [Agent.request_locked (by decide +kernel)]

end Client

end JyQipai.Ddz
