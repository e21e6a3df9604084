import JyQipai.Ddz.Agent

/-!
# Delivered messages

How the agents of a table follow the messages it sends.  An agent changes only
with the messages to its seat, so a step of the table is seen by an agent as the
messages that the step has added to the outbox.
-/

namespace JyQipai.Ddz

namespace Agent

/-! ## What no message changes -/

structure SameSeat (a b : Agent) : Prop where
  seatNum : b.seatNum = a.seatNum
  gameType : b.gameType = a.gameType
  jdzType : b.jdzType = a.jdzType
  kaiguan : b.kaiguan = a.kaiguan

theorem SameSeat.refl (a : Agent) : SameSeat a a := ⟨rfl, rfl, rfl, rfl⟩

theorem SameSeat.trans {a b c : Agent} (h : SameSeat a b) (h' : SameSeat b c) :
    SameSeat a c :=
  ⟨h'.seatNum.trans h.seatNum, h'.gameType.trans h.gameType,
    h'.jdzType.trans h.jdzType, h'.kaiguan.trans h.kaiguan⟩

theorem takeDzPai_sameSeat {a b : Agent} {dzPai : List Nat}
    (h : a.takeDzPai dzPai = some b) : SameSeat a b := by
  unfold takeDzPai at h
  split at h
  · rw [← Option.some.inj h]
    exact ⟨rfl, rfl, rfl, rfl⟩
  · cases h

theorem foldl_addAct_sameSeat (acts : List Act) (a : Agent) :
    SameSeat a (acts.foldl addAct a) := by
  induction acts generalizing a with
  | nil => exact .refl a
  | cons act acts ih =>
      exact SameSeat.trans (b := a.addAct act) ⟨rfl, rfl, rfl, rfl⟩ (ih _)

theorem dizhuMsg_sameSeat (a : Agent) (dizhu : Nat) (dzPai : List Nat) :
    SameSeat a (a.dizhuMsg dizhu dzPai) := by
  unfold dizhuMsg
  split
  · exact ⟨rfl, rfl, rfl, rfl⟩
  · split
    · exact .refl a
    · dsimp only
      split
      · split
        · exact ⟨rfl, rfl, rfl, rfl⟩
        · next h =>
          obtain ⟨h1, h2, h3, h4⟩ := takeDzPai_sameSeat h
          exact ⟨h1, h2, h3, h4⟩
      · exact ⟨rfl, rfl, rfl, rfl⟩

theorem mldDizhuPaiMsg_sameSeat (a : Agent) (dzPai : Option (List Nat)) :
    SameSeat a (a.mldDizhuPaiMsg dzPai) := by
  unfold mldDizhuPaiMsg
  dsimp only
  split
  · exact .refl a
  · next b hb =>
    have hsame : SameSeat a b := by
      split at hb
      · exact takeDzPai_sameSeat hb
      · rw [← Option.some.inj hb]
        exact .refl a
    split
    · exact hsame
    · exact hsame.trans ⟨rfl, rfl, rfl, rfl⟩

theorem cpMsg_sameSeat (a : Agent) (act : Act) : SameSeat a (a.cpMsg act) := by
  unfold cpMsg
  dsimp only
  split
  · exact ⟨rfl, rfl, rfl, rfl⟩
  · split
    · exact ⟨rfl, rfl, rfl, rfl⟩
    · split
      · unfold ownPlay
        split
        · exact ⟨rfl, rfl, rfl, rfl⟩
        · split <;> exact ⟨rfl, rfl, rfl, rfl⟩
      · unfold otherPlay
        split
        · exact ⟨rfl, rfl, rfl, rfl⟩
        · split <;> exact ⟨rfl, rfl, rfl, rfl⟩

theorem receive_sameSeat (a : Agent) (msg : Msg) : SameSeat a (a.receive msg) := by
  cases msg with
  | join seat ready =>
      simp only [receive]
      split <;> exact ⟨rfl, rfl, rfl, rfl⟩
  | readyMsg seat =>
      simp only [receive]
      split <;> exact ⟨rfl, rfl, rfl, rfl⟩
  | playerExit seat =>
      simp only [receive]
      split <;> exact ⟨rfl, rfl, rfl, rfl⟩
  | pai pai => cases pai <;> exact ⟨rfl, rfl, rfl, rfl⟩
  | erQdz act =>
      simp only [receive]
      split
      · split <;> exact ⟨rfl, rfl, rfl, rfl⟩
      · exact ⟨rfl, rfl, rfl, rfl⟩
  | dizhu dizhu dzPai rate rangpaiNum men => exact a.dizhuMsg_sameSeat dizhu dzPai
  | jiabei acts rate => exact foldl_addAct_sameSeat _ a
  | laizi lz =>
      simp only [receive, laiziMsg]
      split <;> exact ⟨rfl, rfl, rfl, rfl⟩
  | cp act rate => exact a.cpMsg_sameSeat act
  | mldJdzPermit curP isMustMen =>
      simp only [receive, mldJdzPermit]
      split
      · split
        · exact ⟨rfl, rfl, rfl, rfl⟩
        · split
          · exact ⟨rfl, rfl, rfl, rfl⟩
          · split <;> exact ⟨rfl, rfl, rfl, rfl⟩
      · exact ⟨rfl, rfl, rfl, rfl⟩
  | mldMen act =>
      simp only [receive, addMldAct]
      split
      · split <;> exact ⟨rfl, rfl, rfl, rfl⟩
      · split <;> exact ⟨rfl, rfl, rfl, rfl⟩
  | mldZp act =>
      simp only [receive, addMldAct]
      split <;> exact ⟨rfl, rfl, rfl, rfl⟩
  | mldDao act =>
      simp only [receive, addMldAct]
      split <;> exact ⟨rfl, rfl, rfl, rfl⟩
  | mldLa act =>
      simp only [receive, addMldAct]
      split <;> exact ⟨rfl, rfl, rfl, rfl⟩
  | mldDizhuPai dzPai => exact a.mldDizhuPaiMsg_sameSeat dzPai
  | _ => exact ⟨rfl, rfl, rfl, rfl⟩

theorem foldl_receive_sameSeat (msgs : List Msg) (a : Agent) :
    SameSeat a (msgs.foldl receive a) := by
  induction msgs generalizing a with
  | nil => exact .refl a
  | cons msg msgs ih => exact (a.receive_sameSeat msg).trans (ih _)

end Agent

namespace Table

variable {kaiguan : Nat → Bool} {t u v : Table} {s : Nat}

theorem agent_sameSeat (t : Table) (s : Nat) :
    Agent.SameSeat (newAgent kaiguan t.cfg s) (t.agent kaiguan s) :=
  Agent.foldl_receive_sameSeat _ _

/-! ## New messages -/

def msgsTo (ms : List (Nat × Msg)) (s : Nat) : List Msg :=
  (ms.filter fun x => x.1 = s).map Prod.snd

theorem agent_append (hc : u.cfg = t.cfg) {ms : List (Nat × Msg)}
    (ho : u.outbox = t.outbox ++ ms) (s : Nat) :
    u.agent kaiguan s = (msgsTo ms s).foldl Agent.receive (t.agent kaiguan s) := by
  unfold agent inbox msgsTo
  rw [ho, hc, List.filter_append, List.map_append, List.foldl_append]

theorem agent_congr (hc : u.cfg = t.cfg) (ho : u.outbox = t.outbox) (s : Nat) :
    u.agent kaiguan s = t.agent kaiguan s := by
  unfold agent inbox
  rw [ho, hc]

theorem seats_nodup (t : Table) : t.seats.Nodup :=
  List.Nodup.filter _ (by decide)

theorem msgsTo_seats (t : Table) (m : Nat → Msg) (s : Nat) :
    msgsTo (t.seats.map fun x => (x, m x)) s = if s ∈ t.seats then [m s] else [] := by
  unfold msgsTo
  rw [List.filter_map, List.map_map]
  have hfilter : t.seats.filter ((fun x : Nat × Msg => decide (x.1 = s)) ∘
      fun x => (x, m x)) = if s ∈ t.seats then [s] else [] := by
    have heq : ((fun x : Nat × Msg => decide (x.1 = s)) ∘ fun x => (x, m x)) =
        fun x => decide (x = s) := rfl
    rw [heq, List.filter_eq]
    split
    · next hmem => rw [List.count_eq_one_of_mem t.seats_nodup hmem]; rfl
    · next hmem => rw [List.count_eq_zero_of_not_mem hmem]; rfl
  rw [hfilter]
  split <;> rfl

theorem agent_sendAll (t : Table) (m : Nat → Msg) (hs : s ∈ t.seats) :
    (t.sendAll m).agent kaiguan s = (t.agent kaiguan s).receive (m s) := by
  rw [agent_append (u := t.sendAll m) (t := t) rfl rfl, msgsTo_seats, if_pos hs]
  rfl

theorem agent_sendIf (t : Table) (b : Bool) (p : Nat) (msg : Msg)
    (hs : (t.pSeatNumber s).isSome) :
    (t.sendIf b p msg).agent kaiguan s =
      if b ∧ p = s then (t.agent kaiguan s).receive msg else t.agent kaiguan s := by
  rw [agent_append (u := t.sendIf b p msg) (t := t) rfl rfl]
  cases b with
  | false => simp [msgsTo]
  | true =>
      by_cases hp : p = s
      · subst hp
        simp [msgsTo, hs]
      · by_cases hp' : (t.pSeatNumber p).isSome
        · simp [msgsTo, hp, hp']
        · simp [msgsTo, hp, hp']

structure Sends (P : Msg → Prop) (t u : Table) : Prop where
  cfg : u.cfg = t.cfg
  outbox : ∃ ms, u.outbox = t.outbox ++ ms ∧ ∀ x ∈ ms, P x.2

namespace Sends

variable {P Q : Msg → Prop}

theorem of_eq (hc : u.cfg = t.cfg) (ho : u.outbox = t.outbox) : Sends P t u :=
  ⟨hc, [], by rw [ho, List.append_nil], fun _ h => by cases h⟩

theorem trans (h : Sends P t u) (h' : Sends P u v) : Sends P t v := by
  obtain ⟨hc, ms, ho, hms⟩ := h
  obtain ⟨hc', ms', ho', hms'⟩ := h'
  refine ⟨hc'.trans hc, ms ++ ms', by rw [ho', ho, List.append_assoc], ?_⟩
  intro x hx
  rcases List.mem_append.mp hx with hx | hx
  · exact hms x hx
  · exact hms' x hx

theorem sendAll {m : Nat → Msg} (hm : ∀ s, P (m s)) : Sends P t (t.sendAll m) := by
  refine ⟨rfl, _, rfl, ?_⟩
  intro x hx
  obtain ⟨s, -, rfl⟩ := List.mem_map.mp hx
  exact hm s

theorem sendIf {b : Bool} {p : Nat} {msg : Msg} (hm : P msg) :
    Sends P t (t.sendIf b p msg) := by
  refine ⟨rfl, _, rfl, ?_⟩
  intro x hx
  split at hx
  · obtain rfl := List.mem_singleton.mp hx
    exact hm
  · cases hx

theorem agent {R : Agent → Prop} (h : Sends P t u)
    (hR : ∀ a msg, P msg → R a → R (a.receive msg))
    (ha : R (t.agent kaiguan s)) : R (u.agent kaiguan s) := by
  obtain ⟨hc, ms, ho, hms⟩ := h
  rw [agent_append hc ho]
  have hmsgs : ∀ msg ∈ msgsTo ms s, P msg := by
    intro msg hmsg
    obtain ⟨x, hx, rfl⟩ := List.mem_map.mp hmsg
    exact hms x (List.mem_filter.mp hx).1
  generalize t.agent kaiguan s = a at ha
  generalize msgsTo ms s = msgs at hmsgs
  induction msgs generalizing a with
  | nil => exact ha
  | cons msg msgs ih =>
      apply ih
      · exact hR a msg (hmsgs msg List.mem_cons_self) ha
      · exact fun m hm => hmsgs m (List.mem_cons_of_mem _ hm)

end Sends

end Table

end JyQipai.Ddz
