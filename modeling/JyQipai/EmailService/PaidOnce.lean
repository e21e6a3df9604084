import JyQipai.EmailService.Service
import JyQipai.Lib.Reach

/-!
# Attachments are delivered once

A mail with attachments is unread and unpaid until its attachments have been sent, and it is gone
from then on.  An operation touches one mail only, so this is a matter of that mail.
-/

namespace JyQipai.EmailService

open Lib Lib.Lua Basefunc AssetManage

/-! ## What a mail carries -/

def entryCarries : Key → Value → Bool
  | .index _, _ => false
  | .name key, value =>
      isAsset (String.ofList key) ||
        isObjectAsset (String.ofList key) && match value with
          | .table es => !(attributes es).isEmpty
          | _ => false

def carries : Entries → Bool
  | .nil => false
  | .cons key value rest => entryCarries key value || carries rest

variable {env : Env} {now : Int} {player : PlayerId} {id j : Nat} {s t : Service}
  {m : Email × Entries} {data : Entries}

theorem entryAttachments_eq_nil (env : Env) (now : Int) (key : Key) (value : Value) :
    entryAttachments env now key value = some [] ↔ entryCarries key value = false := by
  cases key with
  | index i => simp [entryAttachments, entryCarries]
  | name key =>
      simp only [entryAttachments, entryCarries]
      generalize isAsset (String.ofList key) = asset
      generalize isObjectAsset (String.ofList key) = object
      cases asset with
      | true => simp
      | false =>
          cases object with
          | false => simp
          | true =>
              cases value with
              | table es =>
                  dsimp only
                  generalize attributes es = l
                  cases l <;> simp [List.mapM_cons, Option.bind_eq_some_iff]
              | _ => simp

theorem assetData_eq_nil (env : Env) (now : Int) (data : Entries) :
    assetData env now data = some [] ↔ carries data = false := by
  fun_induction carries data with
  | case1 => simp [assetData]
  | case2 key value rest ih =>
      rw [assetData, Bool.or_eq_false_iff, ← entryAttachments_eq_nil env now, ← ih]
      cases entryAttachments env now key value with
      | none => simp
      | some l => simp [List.append_eq_nil_iff, and_comm]

def Alike (env : Env) (data data' : Entries) : Prop :=
  ∀ now, assetData env now data = assetData env now data'

theorem Alike.carries {data' : Entries} (h : Alike env data data') :
    carries data = carries data' := by
  rw [Bool.eq_iff_iff, ← not_iff_not, Bool.not_eq_true, Bool.not_eq_true,
    ← assetData_eq_nil env 0, ← assetData_eq_nil env 0, h]

namespace Service

def payments (s : Service) (id : Nat) : List Sent := s.sent.filter (·.emailId = id)

def Delivers (env : Env) (m : Email × Entries) (x : Sent) : Prop :=
  x.player = m.1.receiver ∧ ∃ now, assetData env now m.2 = some x.assetData

/-- The attachments of every mail are sent at most once, not while the mail is there unread, and
they have been sent when it has been read or is gone. -/
def Settled (env : Env) (s : Service) : Prop :=
  ∀ m ∈ s.history, carries m.2 →
    (s.payments m.1.id).length ≤ 1 ∧ (∀ x ∈ s.payments m.1.id, Delivers env m x) ∧
      ((∃ email ∈ s.email m.1.receiver m.1.id, email.state = .normal) →
        s.payments m.1.id = []) ∧
      ((∀ email ∈ s.email m.1.receiver m.1.id, email.state = .read) → s.payments m.1.id ≠ [])

structure Held (env : Env) (s : Service) (m : Email × Entries) : Prop where
  email : ∃ email, s.email m.1.receiver m.1.id = some email ∧ email.state = .normal
  data : ∃ data, s.emailDatas m.1.id = some data ∧ Alike env data m.2 ∧
    (assetChangeData data).isSome
  unpaid : s.payments m.1.id = []
  row : ∀ text, env.stored m.1 = some text →
    ∃ row ∈ s.table, row.id = m.1.id ∧ row.receiver = m.1.receiver ∧ row.state = .normal ∧
      row.data = text

structure Gone (env : Env) (s : Service) (m : Email × Entries) : Prop where
  email : s.email m.1.receiver m.1.id = none
  paid : ∃ x, s.payments m.1.id = [x] ∧ Delivers env m x
  row : ∀ row ∈ s.table, row.id ≠ m.1.id

structure Inv (env : Env) (s : Service) : Prop where
  ids : (s.history.map fun m => m.1.id).Nodup
  bound : ∀ m ∈ s.history, m.1.id ≤ s.emailMaxId
  known : ∀ p j, (s.email p j).isSome → ∃ m ∈ s.history, m.1.id = j ∧ m.1.receiver = p
  rows : ∀ row ∈ s.table, ∃ m ∈ s.history, m.1.id = row.id ∧ m.1.receiver = row.receiver
  rowIds : (s.table.map Email.id).Nodup
  sent : ∀ x ∈ s.sent, ∃ m ∈ s.history, m.1.id = x.emailId
  mails : ∀ m ∈ s.history, carries m.2 → Held env s m ∨ Gone env s m

theorem Inv.settled (h : Inv env s) : s.Settled env := by
  intro m hm hcarries
  rcases h.mails m hm hcarries with hheld | hgone
  · rw [hheld.unpaid]
    refine ⟨Nat.zero_le 1, fun x hx => absurd hx List.not_mem_nil, fun _ => rfl,
      fun hread => ?_⟩
    obtain ⟨email, hemail, hstate⟩ := hheld.email
    rw [hread email hemail] at hstate
    cases hstate
  · obtain ⟨x, hx, hdelivers⟩ := hgone.paid
    rw [hx]
    refine ⟨Nat.le_refl 1, fun y hy => ?_, fun ⟨email, hemail, _⟩ => ?_,
      fun _ => List.cons_ne_nil _ _⟩
    · rw [List.mem_singleton.mp hy]
      exact hdelivers
    · rw [hgone.email] at hemail
      exact absurd hemail (Option.not_mem_none _)

theorem Inv.unique (h : Inv env s) {m m' : Email × Entries} (hm : m ∈ s.history)
    (hm' : m' ∈ s.history) (hid : m.1.id = m'.1.id) : m = m' :=
  List.inj_on_of_nodup_map h.ids hm hm' hid

/-! ## What an operation touches -/

/-- Only the mail `id` is touched. -/
structure Touches (id : Nat) (s t : Service) : Prop where
  history : t.history = s.history
  emailMaxId : t.emailMaxId = s.emailMaxId
  email : ∀ p j, (t.email p j).isSome → (s.email p j).isSome
  rows : (t.table.map fun row => (row.id, row.receiver)).Sublist
    (s.table.map fun row => (row.id, row.receiver))
  sent : ∀ x ∈ t.sent, x ∈ s.sent ∨ x.emailId = id
  others : ∀ j ≠ id, (∀ p, t.email p j = s.email p j) ∧ t.emailDatas j = s.emailDatas j ∧
    t.payments j = s.payments j ∧
    t.table.filter (fun row => row.id = j) = s.table.filter (fun row => row.id = j)

theorem Touches.trans {u : Service} (h : Touches id s t) (h' : Touches id t u) :
    Touches id s u where
  history := h'.history.trans h.history
  emailMaxId := h'.emailMaxId.trans h.emailMaxId
  email p j hj := h.email p j (h'.email p j hj)
  rows := h'.rows.trans h.rows
  sent x hx := by
    rcases h'.sent x hx with hx | hx
    · exact h.sent x hx
    · exact .inr hx
  others j hj := by
    obtain ⟨hemail, hdata, hpaid, hrow⟩ := h.others j hj
    obtain ⟨hemail', hdata', hpaid', hrow'⟩ := h'.others j hj
    exact ⟨fun p => (hemail' p).trans (hemail p), hdata'.trans hdata, hpaid'.trans hpaid,
      hrow'.trans hrow⟩

@[simp] theorem email_setRead (email : Email) (p : PlayerId) (j : Nat) :
    (s.setRead now player id email).email p j =
      if p = player ∧ j = id then some { email with state := .read, completeTime := now }
      else s.email p j := by
  by_cases hp : p = player
  · subst hp
    by_cases hj : j = id
    · subst hj
      simp [setRead, Service.email]
    · simp [setRead, Service.email, hj, AList.lookup_insert_ne]
  · simp [setRead, Service.email, hp, Function.update_of_ne]

@[simp] theorem email_remove (p : PlayerId) (j : Nat) :
    (s.remove player id).email p j = if p = player ∧ j = id then none else s.email p j := by
  by_cases hp : p = player
  · subst hp
    by_cases hj : j = id
    · subst hj
      simp [remove, Service.email]
    · simp [remove, Service.email, hj, AList.lookup_erase_ne]
  · simp [remove, Service.email, hp, Function.update_of_ne]

theorem touches_setRead (hemail : (s.email player id).isSome) (email : Email) :
    Touches id s (s.setRead now player id email) where
  history := rfl
  emailMaxId := rfl
  email p j := by
    rw [email_setRead]
    split
    · next h => exact fun _ => by rwa [h.1, h.2]
    · exact fun h => h
  rows := by
    have hrows : (s.setRead now player id email).table.map (fun row => (row.id, row.receiver)) =
        s.table.map fun row => (row.id, row.receiver) := by
      simp only [setRead, List.map_map]
      refine List.map_congr_left fun row _ => ?_
      simp only [Function.comp_apply]
      split <;> rfl
    rw [hrows]
  sent x hx := .inl hx
  others j hj := by
    refine ⟨fun p => by simp [hj], rfl, rfl, ?_⟩
    have hid (row : Email) : (if row.id = id then
        { row with state := .read, completeTime := now } else row).id = row.id := by
      split <;> rfl
    simp only [setRead, List.filter_map, Function.comp_def, hid]
    refine List.map_congr_left (g := fun row => row) (fun row hrow => if_neg ?_) |>.trans
      (List.map_id' _)
    rw [of_decide_eq_true (List.mem_filter.mp hrow).2]
    exact hj

theorem touches_remove : Touches id s (s.remove player id) where
  history := rfl
  emailMaxId := rfl
  email p j := by
    rw [email_remove]
    split
    · exact fun h => by cases h
    · exact fun h => h
  rows := List.filter_sublist.map _
  sent x hx := .inl hx
  others j hj := by
    refine ⟨fun p => by simp [hj], by simp [remove, hj], rfl, ?_⟩
    simp only [remove, List.filter_filter]
    refine List.filter_congr fun row _ => ?_
    grind

theorem touches_updateEmailLists : Touches id s (s.updateEmailLists env player) :=
  ⟨rfl, rfl, fun _ _ h => h, .refl _, fun _ h => .inl h, fun _ _ => ⟨fun _ => rfl, rfl, rfl, rfl⟩⟩

theorem touches_multiChange (assets : List Attachment) (change : Option Value × Option Value) :
    Touches id s (s.multiChange player id assets change) where
  history := rfl
  emailMaxId := rfl
  email _ _ h := h
  rows := .refl _
  sent x hx := by
    simp only [multiChange, List.mem_append, List.mem_singleton] at hx
    rcases hx with hx | rfl
    · exact .inl hx
    · exact .inr rfl
  others j hj := by
    refine ⟨fun _ => rfl, rfl, ?_, rfl⟩
    simp [payments, multiChange, Ne.symm hj]

theorem touches_delete : Touches id s (s.delete env player id) :=
  touches_remove.trans touches_updateEmailLists

theorem Touches.mail (h : Touches id s t) (hid : m.1.id ≠ id)
    (hm : Held env s m ∨ Gone env s m) : Held env t m ∨ Gone env t m := by
  obtain ⟨hemail, hdata, hpaid, hrow⟩ := h.others m.1.id hid
  have hmem (row : Email) (hr : row.id = m.1.id) : row ∈ t.table ↔ row ∈ s.table := by
    have := congrArg (row ∈ ·) hrow
    simpa [hr] using this
  rcases hm with hheld | hgone
  · refine .inl ⟨by rw [hemail]; exact hheld.email, by rw [hdata]; exact hheld.data,
      by rw [hpaid]; exact hheld.unpaid, fun text htext => ?_⟩
    obtain ⟨row, hr, hrid, hrest⟩ := hheld.row text htext
    exact ⟨row, (hmem row hrid).mpr hr, hrid, hrest⟩
  · refine .inr ⟨by rw [hemail]; exact hgone.email, by rw [hpaid]; exact hgone.paid,
      fun row hr hrid => ?_⟩
    exact hgone.row row ((hmem row hrid).mp hr) hrid

theorem Inv.touches (h : Inv env s) (ht : Touches id s t) (hknown : ∃ m ∈ s.history, m.1.id = id)
    (hmail : ∀ m ∈ s.history, m.1.id = id → carries m.2 → Held env t m ∨ Gone env t m) :
    Inv env t where
  ids := by
    rw [ht.history]
    exact h.ids
  bound := by
    rw [ht.history, ht.emailMaxId]
    exact h.bound
  known p j hj := by
    rw [ht.history]
    exact h.known p j (ht.email p j hj)
  rows row hrow := by
    rw [ht.history]
    have hmem := ht.rows.subset (List.mem_map_of_mem hrow)
    obtain ⟨row', hrow', heq⟩ := List.mem_map.mp hmem
    obtain ⟨hrid, hreceiver⟩ := Prod.mk.inj heq
    rw [← hrid, ← hreceiver]
    exact h.rows row' hrow'
  rowIds := by
    have hsub := ht.rows.map Prod.fst
    rw [List.map_map, List.map_map] at hsub
    exact h.rowIds.sublist hsub
  sent x hx := by
    rw [ht.history]
    rcases ht.sent x hx with hx | hx
    · exact h.sent x hx
    · rw [hx]
      exact hknown
  mails m hm hcarries := by
    rw [ht.history] at hm
    by_cases hid : m.1.id = id
    · exact hmail m hm hid hcarries
    · exact ht.mail hid (h.mails m hm hcarries)

theorem Inv.emailLists (h : Inv env s) (lists : PlayerId → List Nat) :
    Inv env { s with emailLists := lists } :=
  ⟨h.ids, h.bound, h.known, h.rows, h.rowIds, h.sent, fun m hm hcarries =>
    (h.mails m hm hcarries).imp (fun hheld => ⟨hheld.1, hheld.2, hheld.3, hheld.4⟩)
      fun hgone => ⟨hgone.1, hgone.2, hgone.3⟩⟩

theorem Gone.remove (h : Gone env s m) : Gone env (s.remove player id) m where
  email := by
    rw [email_remove, h.email, ite_self]
  paid := h.paid
  row row hrow := h.row row (List.mem_of_mem_filter hrow)

theorem Inv.remove (h : Inv env s) (hknown : ∃ m ∈ s.history, m.1.id = id)
    (hgone : ∀ m ∈ s.history, m.1.id = id → carries m.2 → Gone env s m) :
    Inv env (s.remove player id) :=
  h.touches touches_remove hknown fun m hm hid hcarries =>
    .inr (hgone m hm hid hcarries).remove

theorem Inv.delete (h : Inv env s) (hknown : ∃ m ∈ s.history, m.1.id = id)
    (hgone : ∀ m ∈ s.history, m.1.id = id → carries m.2 → Gone env s m) :
    Inv env (s.delete env player id) :=
  (h.remove hknown hgone).emailLists _

theorem Inv.held (h : Inv env s) {email : Email} (hemail : s.email player id = some email)
    (hm : m ∈ s.history) (hid : m.1.id = id) (hcarries : carries m.2) :
    m.1.receiver = player ∧ Held env s m ∧ email.state = .normal := by
  obtain ⟨m', hm', hid', hreceiver⟩ := h.known player id (by rw [hemail]; rfl)
  obtain rfl := h.unique hm hm' (hid.trans hid'.symm)
  refine ⟨hreceiver, ?_⟩
  rcases h.mails m hm hcarries with hheld | hgone
  · obtain ⟨email', hemail', hstate⟩ := hheld.email
    rw [hreceiver, hid, hemail] at hemail'
    cases hemail'
    exact ⟨hheld, hstate⟩
  · have := hgone.email
    rw [hreceiver, hid, hemail] at this
    cases this

theorem Inv.exists_history (h : Inv env s) {email : Email}
    (hemail : s.email player id = some email) : ∃ m ∈ s.history, m.1.id = id := by
  obtain ⟨m, hm, hid, -⟩ := h.known player id (by rw [hemail]; rfl)
  exact ⟨m, hm, hid⟩

theorem Inv.gone_of_read (h : Inv env s) {email : Email}
    (hemail : s.email player id = some email) (hstate : email.state ≠ .normal) :
    ∀ m ∈ s.history, m.1.id = id → carries m.2 → Gone env s m :=
  fun _ hm hid hcarries => absurd (h.held hemail hm hid hcarries).2.2 hstate

/-! ## Delivering attachments -/

theorem getAttachment_cases (env : Env) (now : Int) (player : PlayerId) (id : Nat) (s : Service)
    (notValidTime : Bool) :
    ((s.getAttachment env now player id notValidTime).2 = s ∧
      ((s.getAttachment env now player id notValidTime).1 = none ∨ notValidTime = false ∨
        ∀ data email, s.emailDatas id = some data → s.email player id = some email →
          email.state = .normal → carries data = false)) ∨
    ∃ data email assets, s.emailDatas id = some data ∧ s.email player id = some email ∧
      email.state = .normal ∧ assetData env now data = some assets ∧
      ((assetChangeData data = none ∧ s.getAttachment env now player id notValidTime =
          (none, s.setRead now player id email)) ∨
        ∃ change, s.getAttachment env now player id notValidTime =
          (some 0, ((s.setRead now player id email).multiChange player id assets change).delete
            env player id)) := by
  unfold getAttachment
  split
  · next hdata =>
    refine .inl ⟨rfl, .inr (.inr fun data email hd => ?_)⟩
    rw [hdata] at hd
    cases hd
  · next hdata =>
    refine .inl ⟨rfl, .inr (.inr fun data email hd _ _ => ?_)⟩
    rw [hdata] at hd
    cases hd
    rfl
  · next data _ hdata =>
    split
    · exact .inl ⟨rfl, .inl rfl⟩
    · next email hemail =>
      split_ifs with hread hnormal hexpired
      · refine .inl ⟨rfl, .inr (.inr fun data' email' _ he hstate => ?_)⟩
        rw [hemail] at he
        cases he
        rw [hread] at hstate
        cases hstate
      · refine .inl ⟨rfl, .inr (.inr fun data' email' _ he hstate => ?_)⟩
        rw [hemail] at he
        cases he
        exact absurd hstate hnormal
      · refine .inl ⟨rfl, .inr (.inl ?_)⟩
        cases notValidTime with
        | false => rfl
        | true => simp at hexpired
      · split
        · exact .inl ⟨rfl, .inl rfl⟩
        · next hnone =>
          refine .inl ⟨rfl, .inr (.inr fun data' email' hd _ _ => ?_)⟩
          rw [hdata] at hd
          cases hd
          exact (assetData_eq_nil env now _).mp hnone
        · next assets _ hassets =>
          refine .inr ⟨data, email, assets, hdata, hemail, not_not.mp hnormal, hassets, ?_⟩
          split
          · next hchange => exact .inl ⟨hchange, rfl⟩
          · next change hchange => exact .inr ⟨change, rfl⟩

theorem gone_delivered (hheld : Held env s m) {email : Email} {assets : List Attachment}
    {change : Option Value × Option Value} (hdata : s.emailDatas m.1.id = some data)
    (hassets : assetData env now data = some assets) :
    Gone env (((s.setRead now m.1.receiver m.1.id email).multiChange m.1.receiver m.1.id assets
      change).delete env m.1.receiver m.1.id) m where
  email := by
    change ((_ : Service).remove _ _).email _ _ = none
    rw [email_remove, if_pos ⟨rfl, rfl⟩]
  paid := by
    obtain ⟨data', hdata', halike, -⟩ := hheld.data
    rw [hdata] at hdata'
    cases hdata'
    refine ⟨⟨m.1.receiver, assets, change.1, change.2, m.1.id⟩, ?_, rfl, now, ?_⟩
    · change (s.sent ++ [_]).filter _ = _
      have hunpaid : s.sent.filter (·.emailId = m.1.id) = [] := hheld.unpaid
      rw [List.filter_append, hunpaid]
      simp
    · rw [← halike, hassets]
  row row hrow := by
    have := (List.mem_filter.mp hrow).2
    simpa using this

theorem Inv.getAttachment (h : Inv env s) (now : Int) (player : PlayerId)
    (id : Nat) (notValidTime : Bool) :
    Inv env (s.getAttachment env now player id notValidTime).2 := by
  rcases getAttachment_cases env now player id s notValidTime with ⟨hs, -⟩ |
    ⟨data, email, assets, hdata, hemail, hstate, hassets, hres⟩
  · rwa [hs]
  have hread : Touches id s (s.setRead now player id email) :=
    touches_setRead (by rw [hemail]; rfl) email
  rcases hres with ⟨hchange, hres⟩ | ⟨change, hres⟩
  · rw [hres]
    refine h.touches hread (h.exists_history hemail) fun m hm hid hcarries => ?_
    obtain ⟨-, hheld, -⟩ := h.held hemail hm hid hcarries
    obtain ⟨data', hdata', -, hsome⟩ := hheld.data
    rw [hid, hdata] at hdata'
    cases hdata'
    rw [hchange] at hsome
    cases hsome
  · rw [hres]
    refine h.touches (hread.trans ((touches_multiChange assets change).trans touches_delete))
      (h.exists_history hemail) fun m hm hid hcarries => ?_
    obtain ⟨hreceiver, hheld, -⟩ := h.held hemail hm hid hcarries
    subst hid hreceiver
    exact .inr (gone_delivered hheld hdata hassets)

theorem Inv.gone_getAttachment (h : Inv env s) {email : Email}
    (hemail : s.email player id = some email) {code : Nat}
    (hcode : (s.getAttachment env now player id true).1 = some code) :
    ∀ m ∈ (s.getAttachment env now player id true).2.history, m.1.id = id → carries m.2 →
      Gone env (s.getAttachment env now player id true).2 m := by
  rcases getAttachment_cases env now player id s true with ⟨hs, hnone⟩ |
    ⟨data, email', assets, hdata, hemail', -, hassets, ⟨-, hres⟩ | ⟨change, hres⟩⟩
  · rw [hs]
    intro m hm hid hcarries
    obtain ⟨-, hheld, hstate⟩ := h.held hemail hm hid hcarries
    obtain ⟨data, hdata, halike, -⟩ := hheld.data
    rw [hid] at hdata
    rcases hnone with hnone | hnone | hnone
    · rw [hnone] at hcode
      cases hcode
    · cases hnone
    · rw [← halike.carries, hnone data email hdata hemail hstate] at hcarries
      cases hcarries
  · rw [hres] at hcode
    cases hcode
  · rw [hres]
    intro m hm hid hcarries
    obtain ⟨hreceiver, hheld, -⟩ := h.held hemail hm hid hcarries
    subst hid hreceiver
    exact gone_delivered hheld hdata hassets

theorem history_getAttachment (env : Env) (now : Int) (player : PlayerId) (id : Nat)
    (s : Service) (notValidTime : Bool) :
    (s.getAttachment env now player id notValidTime).2.history = s.history := by
  rcases getAttachment_cases env now player id s notValidTime with ⟨hs, -⟩ |
    ⟨_, _, _, -, -, -, -, ⟨-, hres⟩ | ⟨_, hres⟩⟩
  · rw [hs]
  · rw [hres]
    rfl
  · rw [hres]
    rfl

theorem Inv.remove_claimed (h : Inv env s) {email : Email}
    (hemail : s.email player id = some email) {code : Nat}
    (hcode : (s.getAttachment env now player id true).1 = some code) :
    Inv env ((s.getAttachment env now player id true).2.remove player id) := by
  refine (h.getAttachment now player id true).remove ?_ (h.gone_getAttachment hemail hcode)
  rw [history_getAttachment]
  exact h.exists_history hemail

theorem Inv.deleteEmail (h : Inv env s) (now : Int) (player : PlayerId) (id : Nat) :
    Inv env (s.deleteEmail env now player id).2 := by
  unfold Service.deleteEmail
  split
  · exact h
  · next email hemail =>
    split_ifs with hold hnormal
    · split
      · next t hres =>
        have := h.getAttachment now player id true
        rwa [hres] at this
      · next code t hres =>
        have := h.remove_claimed hemail (congrArg Prod.fst hres)
        rw [hres] at this
        exact this.emailLists _
    · exact h.delete (h.exists_history hemail) (h.gone_of_read hemail hnormal)
    · exact h
    · exact h

theorem Inv.dropOverflow (h : Inv env s) (now : Int) (player : PlayerId) (id : Nat) :
    Inv env (s.dropOverflow env now player id).2 := by
  unfold Service.dropOverflow
  split
  · exact h
  · next email hemail =>
    split_ifs with hnormal
    · split
      · next t hres =>
        have := h.getAttachment now player id true
        rwa [hres] at this
      · next code t hres =>
        have := h.remove_claimed hemail (congrArg Prod.fst hres)
        rwa [hres] at this
    · exact h.remove (h.exists_history hemail) (h.gone_of_read hemail hnormal)

theorem Inv.dropAll (h : Inv env s) (now : Int) (player : PlayerId) (ids : List Nat) :
    Inv env (dropAll env now player ids s).2 := by
  induction ids generalizing s with
  | nil => exact h
  | cons id ids ih =>
      have hdrop := h.dropOverflow now player id
      rw [Service.dropAll]
      split
      · next t hres => rwa [hres] at hdrop
      · next t hres =>
        rw [hres] at hdrop
        exact ih hdrop

theorem Inv.chkDeleteOverflowEmails (h : Inv env s) (now : Int) (player : PlayerId) :
    Inv env (s.chkDeleteOverflowEmails env now player).2 := by
  unfold Service.chkDeleteOverflowEmails
  dsimp only
  split
  · have hdrop := (h.emailLists (Function.update s.emailLists player
      (s.emailLists player).mergeSort)).dropAll now player
      ((s.emailLists player).mergeSort.take ((s.emailLists player).length - emailMaxNum))
    split
    · next t hres => rwa [hres] at hdrop
    · next t hres =>
      rw [hres] at hdrop
      exact hdrop.emailLists _
  · exact h

theorem Inv.updateEmail (h : Inv env s) (now : Int) (player : PlayerId) (id : Nat) :
    Inv env (s.updateEmail env now player id) := by
  unfold Service.updateEmail
  split
  · exact h
  · next email hemail =>
    split_ifs with hexpired
    · split
      · next t hres =>
        have := h.getAttachment now player id true
        rwa [hres] at this
      · next code t hres =>
        have := h.remove_claimed hemail (congrArg Prod.fst hres)
        rw [hres] at this
        exact this.emailLists _
    · exact h

theorem Inv.getEmailList (h : Inv env s) (now : Int) (player : PlayerId) :
    Inv env (s.getEmailList env now player).2 := by
  have hchk := h.chkDeleteOverflowEmails now player
  unfold Service.getEmailList
  split
  · next t hres => rwa [hres] at hchk
  · next t hres => rwa [hres] at hchk

theorem Inv.getAll (h : Inv env s) (now : Int) (player : PlayerId) (ids : List Nat) :
    Inv env (getAll env now player ids s).2 := by
  induction ids generalizing s with
  | nil => exact h
  | cons id ids ih =>
      have hget := h.getAttachment now player id false
      rw [Service.getAll]
      split
      · next t hres => rwa [hres] at hget
      · next code t hres =>
        rw [hres] at hget
        exact ih hget

theorem Inv.getEmailAttachment (h : Inv env s) (now : Int) (player : PlayerId) (id : Nat) :
    Inv env (s.getEmailAttachment env now player id).2 := by
  unfold Service.getEmailAttachment
  split
  · exact h
  · exact h.getAttachment now player id false

/-! ## Reading, sending and starting again -/

theorem Inv.readEmail (h : Inv env s) (now : Int) (player : PlayerId) (id : Nat)
    (hread : ∀ email ∈ s.email player id, email.state = .normal → email.expired now = false →
      ∀ data ∈ s.emailDatas id, carries data → hasAsset data) :
    Inv env (s.readEmail now player id).2 := by
  unfold Service.readEmail
  split
  · exact h
  · next email hemail =>
    split_ifs with hnormal hexpired hasset
    · exact h
    · exact h
    · refine h.touches (touches_setRead (by rw [hemail]; rfl) email) (h.exists_history hemail)
        fun m hm hid hcarries => absurd ?_ hasset
      obtain ⟨-, hheld, -⟩ := h.held hemail hm hid hcarries
      obtain ⟨data, hdata, halike, -⟩ := hheld.data
      rw [hid] at hdata
      rw [hdata, Option.any_some]
      exact hread email hemail hnormal (Bool.eq_false_iff.mpr hexpired) data hdata
        (by rwa [halike.carries])
    · exact h
    · exact h

theorem Inv.optEmail (h : Inv env s) (now : Int) (player : PlayerId) (id : Nat) (opt : Opt)
    (hread : opt = .read → ∀ email ∈ s.email player id, email.state = .normal →
      email.expired now = false → ∀ data ∈ s.emailDatas id, carries data → hasAsset data) :
    Inv env (s.optEmail env now player id opt).2 := by
  unfold Service.optEmail
  split
  · exact h
  · cases opt with
    | read => exact h.readEmail now player id (hread rfl)
    | delete => exact h.deleteEmail now player id
    | other => exact h

def rowOf (env : Env) (email : Email) : List Email :=
  ((env.stored email).map fun data => { email with data }).toList

theorem mem_rowOf {email row : Email} (h : row ∈ rowOf env email) :
    row.id = email.id ∧ row.receiver = email.receiver := by
  simp only [rowOf, Option.mem_toList, Option.map_eq_some_iff] at h
  obtain ⟨text, -, rfl⟩ := h
  exact ⟨rfl, rfl⟩

theorem insertEmail_frame (env : Env) (email : Email) (s : Service) :
    (s.insertEmail env email).history = s.history ∧
      (s.insertEmail env email).emailMaxId = s.emailMaxId ∧
      (s.insertEmail env email).emails = s.emails ∧
      (s.insertEmail env email).emailDatas = s.emailDatas ∧
      (s.insertEmail env email).sent = s.sent := by
  unfold insertEmail
  split <;> exact ⟨rfl, rfl, rfl, rfl, rfl⟩

theorem table_insertEmail {email : Email} (hnew : ∀ row ∈ s.table, row.id ≠ email.id) :
    (s.insertEmail env email).table = s.table ++ rowOf env email := by
  have hany : s.table.any (·.id = email.id) = false := by
    simpa [List.any_eq_false] using hnew
  unfold insertEmail rowOf
  cases env.stored email with
  | none => simp
  | some text =>
      simp only [hany, Option.map_some, Option.toList_some, Bool.false_eq_true, if_false]

structure Puts (env : Env) (new : Email) (data : Entries) (s t : Service) : Prop where
  history : t.history = s.history ++ [(new, data)]
  emailMaxId : t.emailMaxId = new.id
  email : ∀ p j, t.email p j =
    if p = new.receiver ∧ j = new.id then some new else s.email p j
  emailDatas : t.emailDatas = Function.update s.emailDatas new.id (some data)
  sent : t.sent = s.sent
  table : t.table = s.table ++ rowOf env new

theorem puts_put {email : Email} (hnew : ∀ row ∈ s.table, row.id ≠ email.id) :
    Puts env email data s (s.put env email data) := by
  unfold Service.put
  generalize hv : ({ s with
      emailMaxId := email.id
      emails := Function.update s.emails email.receiver
        ((s.emails email.receiver).insert email.id email)
      emailLists := Function.update s.emailLists email.receiver
        (s.emailLists email.receiver ++ [email.id])
      emailDatas := Function.update s.emailDatas email.id (some data)
      history := s.history ++ [(email, data)] } : Service) = v
  have hemail (p : PlayerId) (j : Nat) : v.email p j =
      if p = email.receiver ∧ j = email.id then some email else s.email p j := by
    rw [← hv]
    by_cases hp : p = email.receiver
    · subst hp
      by_cases hj : j = email.id
      · subst hj
        simp [Service.email]
      · simp [Service.email, hj, AList.lookup_insert_ne]
    · simp [Service.email, hp, Function.update_of_ne]
  obtain ⟨hhistory, hmax, hemails, hdatas, hsent⟩ := insertEmail_frame env email v
  refine ⟨?_, ?_, fun p j => ?_, ?_, ?_, ?_⟩
  · rw [hhistory, ← hv]
  · rw [hmax, ← hv]
  · rw [Service.email, hemails]
    exact hemail p j
  · rw [hdatas, ← hv]
  · rw [hsent, ← hv]
  · rw [table_insertEmail (by rw [← hv]; exact hnew), ← hv]

theorem Inv.id_lt_of_row (h : Inv env s) {row : Email} (hrow : row ∈ s.table) :
    row.id ≤ s.emailMaxId := by
  obtain ⟨m, hm, hmid, -⟩ := h.rows row hrow
  exact hmid ▸ h.bound m hm

theorem Puts.mail {email : Email} (h : Puts env email data s t) (hid : m.1.id ≠ email.id)
    (hm : Held env s m ∨ Gone env s m) : Held env t m ∨ Gone env t m := by
  have hemail : t.email m.1.receiver m.1.id = s.email m.1.receiver m.1.id := by
    rw [h.email, if_neg fun heq => hid heq.2]
  have hpaid : t.payments m.1.id = s.payments m.1.id := by
    rw [payments, h.sent, payments]
  rcases hm with hheld | hgone
  · refine .inl ⟨by rw [hemail]; exact hheld.email, ?_, by rw [hpaid]; exact hheld.unpaid,
      fun text htext => ?_⟩
    · rw [h.emailDatas, Function.update_of_ne hid]
      exact hheld.data
    · obtain ⟨row, hrow, hrest⟩ := hheld.row text htext
      exact ⟨row, h.table ▸ List.mem_append_left _ hrow, hrest⟩
  · refine .inr ⟨by rw [hemail]; exact hgone.email, by rw [hpaid]; exact hgone.paid,
      fun row hrow hrid => ?_⟩
    rw [h.table] at hrow
    rcases List.mem_append.mp hrow with hrow | hrow
    · exact hgone.row row hrow hrid
    · exact hid (hrid.symm.trans (mem_rowOf hrow).1)

theorem Inv.puts (h : Inv env s) {email : Email} (hput : Puts env email data s t)
    (hid : email.id = s.emailMaxId + 1)
    (hnew : carries data → email.state = .normal ∧ (assetChangeData data).isSome) :
    Inv env t := by
  have hfresh : ∀ m ∈ s.history, m.1.id ≠ email.id := by
    intro m hm heq
    have := h.bound m hm
    omega
  have hold {P : Email × Entries → Prop} (hp : ∃ m ∈ s.history, P m) : ∃ m ∈ t.history, P m := by
    obtain ⟨m, hm, hpm⟩ := hp
    exact ⟨m, hput.history ▸ List.mem_append_left _ hm, hpm⟩
  have hlast : (email, data) ∈ t.history :=
    hput.history ▸ List.mem_append_right _ (List.mem_singleton_self _)
  refine ⟨?_, ?_, fun p j hj => ?_, fun row hrow => ?_, ?_, fun x hx => ?_,
    fun m hm hcarries => ?_⟩
  · rw [hput.history, List.map_append, List.map_singleton, List.nodup_append]
    refine ⟨h.ids, List.nodup_singleton _, fun i hi k hk => ?_⟩
    obtain ⟨m, hm, rfl⟩ := List.mem_map.mp hi
    rw [List.mem_singleton.mp hk]
    exact hfresh m hm
  · intro m hm
    rw [hput.history] at hm
    rw [hput.emailMaxId]
    rcases List.mem_append.mp hm with hm | hm
    · have := h.bound m hm
      omega
    · rw [List.mem_singleton.mp hm]
  · rw [hput.email] at hj
    split at hj
    · next heq => exact ⟨_, hlast, heq.2.symm, heq.1.symm⟩
    · exact hold (h.known p j hj)
  · rw [hput.table] at hrow
    rcases List.mem_append.mp hrow with hrow | hrow
    · exact hold (h.rows row hrow)
    · obtain ⟨hrid, hreceiver⟩ := mem_rowOf hrow
      exact ⟨_, hlast, hrid.symm, hreceiver.symm⟩
  · rw [hput.table, List.map_append, List.nodup_append]
    refine ⟨h.rowIds, ?_, fun i hi k hk => ?_⟩
    · unfold rowOf
      cases env.stored email <;> simp
    · obtain ⟨row, hrow, rfl⟩ := List.mem_map.mp hi
      obtain ⟨row', hrow', rfl⟩ := List.mem_map.mp hk
      have := h.id_lt_of_row hrow
      have := (mem_rowOf hrow').1
      omega
  · rw [hput.sent] at hx
    exact hold (h.sent x hx)
  · rw [hput.history] at hm
    rcases List.mem_append.mp hm with hm | hm
    · exact hput.mail (hfresh m hm) (h.mails m hm hcarries)
    · obtain rfl := List.mem_singleton.mp hm
      obtain ⟨hstate, hchange⟩ := hnew hcarries
      refine .inl ⟨⟨email, by rw [hput.email, if_pos ⟨rfl, rfl⟩], hstate⟩,
        ⟨data, by rw [hput.emailDatas, Function.update_self], fun _ => rfl, hchange⟩, ?_,
        fun text htext => ?_⟩
      · rw [payments, hput.sent, List.filter_eq_nil_iff]
        intro x hx heq
        obtain ⟨m, hm, hmid⟩ := h.sent x hx
        exact hfresh m hm (hmid.trans (of_decide_eq_true heq))
      · refine ⟨{ email with data := text }, ?_, rfl, rfl, hstate, rfl⟩
        rw [hput.table, rowOf, htext]
        exact List.mem_append_right _ (List.mem_singleton_self _)

theorem Inv.sendEmail (h : Inv env s) (now : Int) (draft : Option Draft)
    (hdraft : ∀ d ∈ draft, ∀ data ∈ dataTable d.data, carries data →
      d.state.getD .normal = .normal ∧ (assetChangeData data).isSome) :
    Inv env (s.sendEmail env now draft).2 := by
  unfold Service.sendEmail
  split
  · exact h
  · next d =>
    split
    · next type sender receiver data htype hsender hreceiver hdata =>
      split
      · refine h.puts (puts_put fun row hrow => ?_) rfl (hdraft d rfl data hdata)
        have := h.id_lt_of_row hrow
        dsimp only
        omega
      · exact h
    · exact h

/-! ## Starting again -/

structure Loaded (env : Env) (rows : List Email) (s t : Service) : Prop where
  history : t.history = s.history
  emailMaxId : t.emailMaxId = s.emailMaxId
  sent : t.sent = s.sent
  table : t.table = s.table
  email : ∀ row ∈ rows, t.email row.receiver row.id = some row
  emailDatas : ∀ row ∈ rows, t.emailDatas row.id = some (rowData env row)
  only : ∀ p j email, t.email p j = some email →
    s.email p j = some email ∨ email ∈ rows ∧ email.id = j ∧ email.receiver = p

theorem loaded_foldl (rows : List Email) (s : Service) (hids : (rows.map Email.id).Nodup) :
    Loaded env rows s (rows.foldl (load env) s) := by
  induction rows using List.reverseRecOn with
  | nil => exact ⟨rfl, rfl, rfl, rfl, fun _ h => absurd h List.not_mem_nil,
      fun _ h => absurd h List.not_mem_nil, fun _ _ _ h => .inl h⟩
  | append_singleton rows row ih =>
      rw [List.map_append, List.map_singleton, List.nodup_append] at hids
      have hl := ih hids.1
      have hne : ∀ r ∈ rows, r.id ≠ row.id := fun r hr =>
        hids.2.2 r.id (List.mem_map_of_mem hr) row.id (List.mem_singleton_self _)
      rw [List.foldl_append]
      generalize rows.foldl (load env) s = u at hl
      have hemail (p : PlayerId) (j : Nat) : (u.load env row).email p j =
          if p = row.receiver ∧ j = row.id then some row else u.email p j := by
        by_cases hp : p = row.receiver
        · subst hp
          by_cases hj : j = row.id
          · subst hj
            simp [load, Service.email]
          · simp [load, Service.email, hj, AList.lookup_insert_ne]
        · simp [load, Service.email, hp, Function.update_of_ne]
      refine ⟨hl.history, hl.emailMaxId, hl.sent, hl.table, fun r hr => ?_, fun r hr => ?_,
        fun p j email he => ?_⟩
      · rw [List.foldl_cons, List.foldl_nil, hemail]
        rcases List.mem_append.mp hr with hr | hr
        · rw [if_neg fun heq => hne r hr heq.2, hl.email r hr]
        · rw [List.mem_singleton.mp hr, if_pos ⟨rfl, rfl⟩]
      · change Function.update u.emailDatas row.id _ r.id = _
        rcases List.mem_append.mp hr with hr | hr
        · rw [Function.update_of_ne (hne r hr), hl.emailDatas r hr]
        · rw [List.mem_singleton.mp hr, Function.update_self]
      · rw [List.foldl_cons, List.foldl_nil, hemail] at he
        split at he
        · next heq =>
          cases he
          exact .inr ⟨List.mem_append_right _ (List.mem_singleton_self _), heq.2.symm, heq.1.symm⟩
        · exact (hl.only p j email he).imp id fun h => ⟨List.mem_append_left _ h.1, h.2⟩

/-- The statements of all mails that are left were executed, and their rows have their attachments;
the last mail has its id in the log. -/
def Recorded (env : Env) (s : Service) : Prop :=
  (s.log.map Email.id).foldr max 0 = s.emailMaxId ∧
    ∀ m ∈ s.history, carries m.2 → (s.email m.1.receiver m.1.id).isSome →
      ∃ text, env.stored m.1 = some text ∧
        Alike env (rowData env { m.1 with data := text }) m.2 ∧
        (assetChangeData (rowData env { m.1 with data := text })).isSome

theorem Inv.initData (h : Inv env s) (hrec : Recorded env s) : Inv env (s.initData env) := by
  have hl : Loaded env s.table _ _ := loaded_foldl s.table { s with
      emailMaxId := (s.log.map Email.id).foldr max 0
      emails := fun _ => ∅
      emailLists := fun _ => []
      emailDatas := fun _ => none } h.rowIds
  unfold Service.initData
  generalize s.table.foldl (load env) _ = t at hl
  obtain ⟨hhistory, hmax, hsent, htable, hemail, hdatas, honly⟩ := hl
  dsimp only at hhistory hmax hsent htable
  have honly (p : PlayerId) (j : Nat) (email : Email) (he : t.email p j = some email) :
      email ∈ s.table ∧ email.id = j ∧ email.receiver = p := by
    rcases honly p j email he with he | he
    · simp [Service.email] at he
    · exact he
  refine ⟨hhistory ▸ h.ids, ?_, fun p j hj => ?_, ?_, htable ▸ h.rowIds, ?_,
    fun m hm hcarries => ?_⟩
  · rw [hhistory, hmax, hrec.1]
    exact h.bound
  · obtain ⟨email, he⟩ := Option.isSome_iff_exists.mp hj
    obtain ⟨hrow, rfl, rfl⟩ := honly p j email he
    rw [hhistory]
    exact h.rows email hrow
  · rw [htable, hhistory]
    exact h.rows
  · rw [hsent, hhistory]
    exact h.sent
  · rw [hhistory] at hm
    rcases h.mails m hm hcarries with hheld | hgone
    · obtain ⟨e, he, -⟩ := hheld.email
      obtain ⟨text, htext, halike, hchange⟩ := hrec.2 m hm hcarries (by rw [he]; rfl)
      obtain ⟨row, hrow, hrid, hreceiver, hstate, hdata⟩ := hheld.row text htext
      have hsame : rowData env row = rowData env { m.1 with data := text } := by
        rw [rowData, rowData, hdata]
      refine .inl ⟨⟨row, ?_, hstate⟩, ⟨_, ?_, hsame ▸ halike, hsame ▸ hchange⟩, ?_, ?_⟩
      · rw [← hrid, ← hreceiver]
        exact hemail row hrow
      · rw [← hrid]
        exact hdatas row hrow
      · rw [payments, hsent]
        exact hheld.unpaid
      · rw [htable]
        exact hheld.row
    · refine .inr ⟨?_, ?_, ?_⟩
      · rw [Option.eq_none_iff_forall_ne_some]
        intro e he
        obtain ⟨hrow, hrid, -⟩ := honly _ _ e he
        exact hgone.row e hrow hrid
      · rw [payments, hsent]
        exact hgone.paid
      · rw [htable]
        exact hgone.row

/-! ## Every run -/

/-- A mail with attachments is sent unread, is not read while it has objects only, and comes back
from its row as it was sent. -/
def Careful (env : Env) (s : Service) : Event → Prop
  | .sendEmail _ draft => ∀ d ∈ draft, ∀ data ∈ dataTable d.data, carries data →
      d.state.getD .normal = .normal ∧ (assetChangeData data).isSome
  | .optEmail now player id .read => ∀ email ∈ s.email player id, email.state = .normal →
      email.expired now = false → ∀ data ∈ s.emailDatas id, carries data → hasAsset data
  | .restart => Recorded env s
  | _ => True

theorem Inv.step (h : Inv env s) {e : Event} (he : Careful env s e) :
    Inv env (EmailService.step env s e) := by
  cases e with
  | sendEmail now draft => exact h.sendEmail now draft he
  | optEmail now player id opt =>
      refine h.optEmail now player id opt fun hopt => ?_
      subst hopt
      exact he
  | getEmailAttachment now player id => exact h.getEmailAttachment now player id
  | getAllEmailAttachment now player => exact h.getAll now player _
  | getEmailList now player => exact h.getEmailList now player
  | updateEmail now player id => exact h.updateEmail now player id
  | updatePlayer now player => exact h.chkDeleteOverflowEmails now player
  | restart => exact h.initData he

theorem inv_start (env : Env) : Inv env {} where
  ids := List.nodup_nil
  bound _ h := absurd h List.not_mem_nil
  known _ _ h := by cases h
  rows _ h := absurd h List.not_mem_nil
  rowIds := List.nodup_nil
  sent _ h := absurd h List.not_mem_nil
  mails _ h := absurd h List.not_mem_nil

theorem inv_run (h : Reach (EmailService.step env) (Careful env) {} s) : Inv env s :=
  h.invariant (inv_start env) fun _ _ hs he => hs.step he

/-- In every run in which nothing is lost outside of the service and no mail with objects only is
read, the attachments of every mail are sent once, before it is read or gone. -/
theorem attachments_sent_once (env : Env) {s : Service}
    (h : Reach (EmailService.step env) (Careful env) {} s) : s.Settled env :=
  (inv_run h).settled

def plainEnv : Env where
  plus _ _ := none
  floatText _ _ := []
  levels := 180
  stored email := some email.data
  pairs l := l
  pairs_perm := List.Perm.refl

/-- `{jing_bi=100}` -/
def assetMail : Entries := .cons (.name "jing_bi".toList) (.integer 100) .nil

/-- `{obj_a={{}}}` -/
def objectMail : Entries :=
  .cons (.name "obj_a".toList) (.table (.cons (.index 1) (.table .nil) .nil)) .nil

def draft (data : Entries) : Draft where
  type := some (.text "native".toList)
  sender := some (.text "sys".toList)
  receiver := some "p".toList
  data := some (.table data)

theorem careful_restart : Reach (EmailService.step plainEnv) (Careful plainEnv) {}
    (run (EmailService.step plainEnv) {}
      [.sendEmail 1 (some (draft assetMail)), .sendEmail 1 (some (draft objectMail)), .restart,
        .getEmailAttachment 2 "p".toList 1, .optEmail 2 "p".toList 2 .delete]) := by
  refine reach_run ⟨?_, ?_, ?_, trivial, trivial, trivial⟩
  · intro d hd data hdata _
    cases hd
    cases hdata
    exact ⟨rfl, rfl⟩
  · intro d hd data hdata _
    cases hd
    cases hdata
    exact ⟨rfl, rfl⟩
  · refine ⟨rfl, fun m hm _ _ => ⟨m.1.data, rfl, ?_⟩⟩
    rcases List.mem_cons.mp hm with rfl | hm
    · exact ⟨fun _ => rfl, rfl⟩
    · obtain rfl := List.mem_singleton.mp hm
      exact ⟨fun _ => rfl, rfl⟩

theorem attachments_sent_once_restart :
    Settled plainEnv (run (EmailService.step plainEnv) {}
      [.sendEmail 1 (some (draft assetMail)), .sendEmail 1 (some (draft objectMail)), .restart,
        .getEmailAttachment 2 "p".toList 1, .optEmail 2 "p".toList 2 .delete]) :=
  attachments_sent_once plainEnv careful_restart

end Service

end JyQipai.EmailService
