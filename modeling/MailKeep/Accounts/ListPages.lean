import MailKeep.Accounts.Announcements
import MailKeep.Accounts.Disabled
import MailKeep.Program.Place

/-! The account list of a page that has come to rest: whose work it is if the list is out of date. -/
namespace MailKeep
open Program Channel

namespace ListPage

def Awaits (bus : Broadcast AppEvent) (page : ListPage) : Prop :=
  (∃ st, page.stream = some st ∧ (st.next < bus.sent.length ∨ st.Draining)) ∨ 0 < page.wire ∨ page.request = .asked

def lastRead (page : ListPage) : Nat :=
  match page.request with
  | .answered _ readAt => readAt
  | _ => page.seen

end ListPage

/-- What a page does: the browser opens and loses the stream, asks for the list on a nudge, on the user's own actions
and when it is mounted, and shows the answer. -/
inductive PageStep {ι κ : Type} (s : Noticeboard ι κ) : ListPage → ListPage → Prop
  | mount {page : ListPage} (userId : UserId) :
      PageStep s page { page with userId := userId, shown := none, request := .asked }
  | subscribe {page : ListPage} :
      PageStep s page { page with stream := some (.subscribe s.bus), wire := 0, since := s.log.length }
  | disconnect {page : ListPage} : PageStep s page { page with stream := none, wire := 0 }
  | turn {page : ListPage} {st st' : EventStream} (windowFirst : Bool) (subscribed : page.stream = some st)
      (taken : st.turn s.bus s.now windowFirst = some st') :
      PageStep s page
        { page with stream := some st', wire := page.wire + (st'.nudges.length - st.nudges.length) }
  | nudged {page : ListPage} {wire : Nat} (arrived : page.wire = wire + 1) :
      PageStep s page { page with wire := wire, request := .asked }
  | refresh {page : ListPage} : PageStep s page { page with request := .asked }
  | answer {page : ListPage} (asked : page.request = .asked) :
      PageStep s page { page with request := .answered (.ok (AccountRepository.listForUser s.db page.userId)) s.log.length }
  | refuse {page : ListPage} (asked : page.request = .asked) (e : Error) :
      PageStep s page { page with request := .answered (.error e) s.log.length }
  | display {page : ListPage} {r : Except Error (List Account)} {readAt : Nat}
      (answered : page.request = .answered r readAt) :
      PageStep s page { page with request := .idle, shown := some r, seen := readAt }

section
variable {ι κ : Type}

/-- A restart of the server: the bus is new, and every connection is lost. -/
def Noticeboard.restarted (s : Noticeboard ι κ) : Noticeboard ι κ :=
  { s with
    bus := .empty
    pages := fun k => { s.pages k with stream := none, wire := 0 }
    pending := fun _ => none }

/-- No write yet, and no page has a subscription or a list. -/
def Noticeboard.Fresh (s : Noticeboard ι κ) : Prop :=
  s.log = [] ∧ s.bus = .empty ∧ (∀ i, s.pending i = none) ∧
    ∀ k, (s.pages k).stream = none ∧ (s.pages k).shown = none ∧ (s.pages k).request = .idle ∧ (s.pages k).seen = 0

namespace Noticeboard

structure PageSound (s : Noticeboard ι κ) (page : ListPage) : Prop where
  within : ∀ st, page.stream = some st → st.next ≤ s.bus.sent.length ∧ st.phase ≠ .ended
  seen : page.seen ≤ s.log.length
  read : ∀ r readAt, page.request = .answered r readAt → readAt ≤ s.log.length
  shown : ∀ rows, page.shown = some (.ok rows) →
    rows = (s.accountsAt page.seen).rows.filter (·.userId = page.userId)
  answered : ∀ rows readAt, page.request = .answered (.ok rows) readAt →
    rows = (s.accountsAt readAt).rows.filter (·.userId = page.userId)
  covered : ∀ st, page.stream = some st → ∀ p w, page.since ≤ p → page.lastRead ≤ p → s.log[p]? = some w →
    w.1.announced = true → (∃ i, s.pending i = some p) ∨ page.Awaits s.bus

/-- The state and what the threads owe. -/
structure Sound (s : Noticeboard ι κ) (owes : ι → Bool) : Prop where
  isOpen : s.bus.closed = false
  pending : ∀ i, s.pending i = none ↔ owes i = false
  pages : ∀ k, s.PageSound (s.pages k)

variable {s t : Noticeboard ι κ} {page page' : ListPage} {owes : ι → Bool}

private theorem accountsAt_end (s : Noticeboard ι κ) : s.accountsAt s.log.length = s.db.accounts := by
  simp [accountsAt]

/-- A request for the list excuses everything. -/
theorem PageSound.ask (h : s.PageSound page) (streams : page'.stream = page.stream) (seen : page'.seen = page.seen)
    (asked : page'.request = .asked) (shown : ∀ rows, page'.shown = some (.ok rows) →
      rows = (s.accountsAt page.seen).rows.filter (·.userId = page'.userId)) : s.PageSound page' where
  within st hst := h.within st (streams ▸ hst)
  seen := seen ▸ h.seen
  read r readAt ha := by
    rw [asked] at ha
    cases ha
  shown rows hs := seen ▸ shown rows hs
  answered rows readAt ha := by
    rw [asked] at ha
    cases ha
  covered _ _ _ _ _ _ _ _ := .inr (.inr (.inr asked))

/-- A list that has just been read owes nothing. -/
theorem PageSound.receive (h : s.PageSound page) (r : Except Error (List Account))
    (read : ∀ rows, r = .ok rows → rows = s.db.accounts.rows.filter (·.userId = page.userId)) :
    s.PageSound { page with request := .answered r s.log.length } where
  within := h.within
  seen := h.seen
  read _ _ ha := by
    cases ha
    exact le_rfl
  shown := h.shown
  answered rows readAt ha := by
    cases ha
    rw [accountsAt_end]
    exact read rows rfl
  covered st _ p w _ later found _ := by
    have := (List.getElem?_eq_some_iff.mp found).1
    exact absurd (this.trans_le later) (lt_irrefl p)

theorem PageSound.step (h : s.PageSound page) (isOpen : s.bus.closed = false) (step : PageStep s page page') :
    s.PageSound page' := by
  cases step with
  | mount userId => exact h.ask rfl rfl rfl fun _ hs => by cases hs
  | subscribe =>
    refine ⟨fun st hst => ?_, h.seen, h.read, h.shown, h.answered, fun st hst p w since _ found _ => ?_⟩
    · cases hst
      exact ⟨le_rfl, fun he => by cases he⟩
    · have := (List.getElem?_eq_some_iff.mp found).1
      exact absurd (this.trans_le since) (lt_irrefl p)
  | disconnect =>
    exact ⟨fun _ hst => (by cases hst), h.seen, h.read, h.shown, h.answered, fun _ hst => by cases hst⟩
  | turn windowFirst subscribed taken =>
    rename_i st st'
    obtain ⟨within, going, led⟩ := EventStream.turn_open (h.within st subscribed).1 isOpen taken
    refine ⟨fun x hx => ?_, h.seen, h.read, h.shown, h.answered, fun _ _ _ _ _ _ _ _ => .inr ?_⟩
    · cases hx
      exact ⟨within, going⟩
    · rcases led with draining | more
      · exact .inl ⟨st', rfl, .inr draining⟩
      · exact .inr (.inl (by dsimp only; omega))
  | nudged arrived => exact h.ask rfl rfl rfl h.shown
  | refresh => exact h.ask rfl rfl rfl h.shown
  | answer asked => exact h.receive _ fun rows hr => by cases hr; rfl
  | refuse asked e => exact h.receive _ fun rows hr => by cases hr
  | display answered =>
    rename_i r readAt
    refine ⟨h.within, h.read _ _ answered, fun _ _ ha => (by cases ha), fun rows hs => ?_, fun _ _ ha => (by cases ha),
      fun st hst p w since later found announced => ?_⟩
    · cases hs
      exact h.answered rows readAt answered
    · have read : page.lastRead = readAt := by
        rw [ListPage.lastRead, answered]
      refine (h.covered st hst p w since (read ▸ later) found announced).imp_right fun awaits => ?_
      rcases awaits with streaming | wire | asked
      · exact .inl streaming
      · exact .inr (.inl wire)
      · rw [answered] at asked
        cases asked

private theorem accountsAt_append {w : AccountWrite} (grown : t.log = s.log ++ [(w, s.db.accounts)]) {p : Nat}
    (old : p ≤ s.log.length) : t.accountsAt p = s.accountsAt p := by
  unfold accountsAt
  rw [grown]
  rcases old.lt_or_eq with old | rfl
  · rw [List.getElem?_append_left old, List.getElem?_eq_getElem old]
    rfl
  · simp

/-- A write that is announced later. -/
theorem PageSound.grow (h : s.PageSound page) {w : AccountWrite} (grown : t.log = s.log ++ [(w, s.db.accounts)])
    (bus : t.bus = s.bus) (kept : ∀ i p, s.pending i = some p → t.pending i = some p)
    (noted : w.announced = true → ∃ i, t.pending i = some s.log.length) : t.PageSound page where
  within := bus ▸ h.within
  seen := by
    rw [grown, List.length_append]
    exact h.seen.trans (Nat.le_add_right _ _)
  read r readAt ha := by
    rw [grown, List.length_append]
    exact (h.read r readAt ha).trans (Nat.le_add_right _ _)
  shown rows hs := by
    rw [accountsAt_append grown h.seen]
    exact h.shown rows hs
  answered rows readAt ha := by
    rw [accountsAt_append grown (h.read _ readAt ha)]
    exact h.answered rows readAt ha
  covered st hst p x since later found announced := by
    rw [grown] at found
    rcases Nat.lt_or_ge p s.log.length with old | new
    · rw [List.getElem?_append_left old] at found
      refine (h.covered st hst p x since later found announced).imp (fun ⟨i, hi⟩ => ⟨i, kept i p hi⟩) fun awaits => ?_
      rwa [bus]
    · have last : p < s.log.length + 1 := by simpa using (List.getElem?_eq_some_iff.mp found).1
      obtain rfl : p = s.log.length := by omega
      rw [List.getElem?_concat_length] at found
      cases found
      exact .inl (noted announced)

theorem PageSound.congr (h : s.PageSound page) (log : t.log = s.log) (bus : t.bus = s.bus) (pending : t.pending = s.pending)
    (accounts : t.db.accounts = s.db.accounts) : t.PageSound page := by
  have same (p : Nat) : t.accountsAt p = s.accountsAt p := by
    rw [accountsAt, accountsAt, log, accounts]
  refine ⟨bus ▸ h.within, log ▸ h.seen, log ▸ h.read, fun rows hs => ?_, fun rows readAt ha => ?_, ?_⟩
  · rw [same]
    exact h.shown rows hs
  · rw [same]
    exact h.answered rows readAt ha
  · rw [log, bus, pending]
    exact h.covered

theorem PageSound.restart (h : s.PageSound page) : s.restarted.PageSound { page with stream := none, wire := 0 } :=
  ⟨fun _ hst => (by cases hst), h.seen, h.read, h.shown, h.answered, fun _ hst => by cases hst⟩

theorem Sound.fresh (fresh : s.Fresh) : s.Sound fun _ => false where
  isOpen := by
    rw [fresh.2.1]
    rfl
  pending i := ⟨fun _ => rfl, fun _ => fresh.2.2.1 i⟩
  pages k := by
    obtain ⟨stream, shown, request, seen⟩ := fresh.2.2.2 k
    refine ⟨fun _ hst => ?_, seen ▸ Nat.zero_le _, fun _ _ ha => ?_, fun _ hs => ?_, fun _ _ ha => ?_, fun _ hst => ?_⟩
    · rw [stream] at hst
      cases hst
    · rw [request] at ha
      cases ha
    · rw [shown] at hs
      cases hs
    · rw [request] at ha
      cases ha
    · rw [stream] at hst
      cases hst

/-- The page has a list and a subscription that was opened before the list was read, and nothing is under way to it. -/
structure Resting (s : Noticeboard ι κ) (k : κ) (rows : List Account) : Prop where
  subscribed : ∃ st, (s.pages k).stream = some st
  before : (s.pages k).since ≤ (s.pages k).seen
  idle : (s.pages k).request = .idle
  nothing : ¬ (s.pages k).Awaits s.bus
  shown : (s.pages k).shown = some (.ok rows)

def rowsAt (s : Noticeboard ι κ) (userId : UserId) (p : Nat) : List Account :=
  (s.accountsAt p).rows.filter (·.userId = userId)

/-- Every write since the list was read goes unannounced. -/
private theorem Sound.unannounced (h : s.Sound owes) (calm : ∀ i, s.pending i = none)
    {k : κ} {rows : List Account} (resting : s.Resting k rows) {p : Nat} {w : AccountWrite × Keyed.Table Account.id}
    (later : (s.pages k).seen ≤ p) (found : s.log[p]? = some w) : w.1.announced = false := by
  obtain ⟨st, subscribed⟩ := resting.subscribed
  cases announced : w.1.announced with
  | false => rfl
  | true =>
    have read : (s.pages k).lastRead = (s.pages k).seen := by
      rw [ListPage.lastRead, resting.idle]
    rcases (h.pages k).covered st subscribed p w (resting.before.trans later) (read ▸ later) found announced with
      ⟨i, hi⟩ | awaits
    · rw [calm i] at hi
      cases hi
    · exact absurd awaits resting.nothing

end Noticeboard
end

section
variable {ι κ : Type} [DecidableEq ι] {cipher : CredentialCipher}

/-- A thread's place tells whether it owes an announcement. -/
def notices (ι κ : Type) [DecidableEq ι] (cipher : CredentialCipher) : Discipline (noticeboard ι κ cipher) ι Bool where
  start := false
  ready
    | i, owes, .write me _ => me = i ∧ owes = false
    | i, _, .notify me => me = i
    | _, _, _ => True
  after
    | owes, .write _ t, reply =>
      match reply with
      | .ok _ => t.announced
      | .error _ => owes
    | _, .notify _, _ => false
    | owes, _, _ => owes
  done owes := owes = false

namespace Announcing
variable {i : ι} {α β : Type}

abbrev Settles (κ : Type) (cipher : CredentialCipher) (i : ι) (x : BoardAction ι α) : Prop :=
  (notices ι κ cipher).Leads i (fun _ owes => owes = false) false x.run

theorem Settles.seq {x : BoardAction ι α} {f : α → BoardAction ι β} (first : Settles κ cipher i x)
    (rest : ∀ a, Settles κ cipher i (f a)) : Settles κ cipher i (x >>= f) := by
  apply Discipline.Leads.seq
  apply first.weaken
  rintro r owes rfl
  cases r with
  | ok a => exact rest a
  | error e => rfl

private theorem settles_liftResult {r : Except Error α} : Settles κ cipher i (liftResult r) := rfl

private theorem settles_encryptNew {accountId : AccountId} {password : Option String} :
    Settles κ cipher i (encryptNew accountId password) := by
  cases password with
  | none => exact rfl
  | some password => exact ⟨trivial, fun _ => rfl⟩

/-- An announced write, whose announcement follows at the end of what comes next. -/
theorem settles_write {t : AccountWrite} {f : t.Result → BoardAction ι β} (announced : t.announced = true)
    (rest : ∀ r, (notices ι κ cipher).Leads i (fun _ owes => owes = false) true (f r).run) :
    Settles κ cipher i (write i t >>= f) := by
  apply Discipline.Leads.seq
  refine ⟨⟨rfl, rfl⟩, fun reply => ?_⟩
  cases reply with
  | ok r =>
    change (notices ι κ cipher).Leads i _ t.announced (f r).run
    rw [announced]
    exact rest r
  | error e => exact rfl

private theorem settles_plain_write {t : AccountWrite} (quiet : t.announced = false) : Settles κ cipher i
    (write i t) := by
  refine ⟨⟨rfl, rfl⟩, fun reply => ?_⟩
  cases reply with
  | ok r => exact quiet
  | error e => exact rfl

theorem Settles.drop {x : BoardAction ι α} (h : Settles κ cipher i x) : Settles κ cipher i (Announcing.drop x) :=
  h.seq fun _ => rfl

theorem Call.settles (call : Call) : Settles κ cipher i (call.handle i) := by
  cases call with
  | createAccount params =>
    have draws : Settles κ cipher i accountToken := ⟨trivial, fun _ => rfl⟩
    have seals (accountId : AccountId) : Settles κ cipher i (encryptPassword accountId params.password) :=
      ⟨trivial, fun _ => rfl⟩
    change Settles κ cipher i (Announcing.drop (Announcing.createAccount i params))
    apply Settles.drop
    unfold Announcing.createAccount
    apply settles_liftResult.seq
    intro _
    apply draws.seq
    intro accountId
    apply (seals accountId).seq
    intro credentials
    exact settles_write rfl fun _ => ⟨rfl, fun _ => rfl⟩
  | updateAccount userId accountId expectedVersion input =>
    change Settles κ cipher i (Announcing.drop (Announcing.updateAccount i userId accountId expectedVersion input))
    apply Settles.drop
    unfold Announcing.updateAccount
    apply settles_liftResult.seq
    intro _
    apply settles_encryptNew.seq
    intro credentials
    exact settles_plain_write rfl
  | enable userId accountId => exact settles_write rfl fun _ => ⟨rfl, fun _ => rfl⟩
  | disable userId accountId => exact settles_write rfl fun _ => ⟨rfl, fun _ => rfl⟩
  | setStatus accountId status lastError => exact settles_write rfl fun _ => ⟨rfl, fun _ => rfl⟩
  | deleteAccount userId accountId =>
    exact settles_write rfl fun _ => ⟨trivial, fun _ => ⟨trivial, fun _ => ⟨trivial, fun _ => ⟨rfl, fun _ => rfl⟩⟩⟩⟩
  | deleteUser id => exact Settles.drop (settles_plain_write rfl)

end Announcing

namespace Noticeboard
variable {s : Noticeboard ι κ} {page : ListPage} {owes : ι → Bool}

/-- An event that is published reaches every subscription. -/
theorem PageSound.publish (h : s.PageSound page) (me : ι) : (s.notify me).PageSound page where
  within st hst := by
    refine ⟨(h.within st hst).1.trans ?_, (h.within st hst).2⟩
    simp [notify, Broadcast.send]
  seen := h.seen
  read := h.read
  shown := h.shown
  answered := h.answered
  covered st hst p x _ _ _ _ := by
    refine .inr (.inl ⟨st, hst, .inl ?_⟩)
    have := (h.within st hst).1
    simp only [notify, Broadcast.send, List.length_append, List.length_singleton]
    omega

theorem Sound.write (h : s.Sound owes) {me : ι} (free : owes me = false) (w : AccountWrite) (c : Option DbErr) :
    (s.write me w c).2.Sound (Function.update owes me ((notices ι κ cipher).after (owes me) (.write me w) (s.write me w c).1)) := by
  unfold Noticeboard.write
  cases c with
  | some e =>
    change s.Sound (Function.update owes me (owes me))
    rwa [Function.update_eq_self]
  | none =>
    cases done : w.body s.users s.db with
    | error e =>
      change s.Sound (Function.update owes me (owes me))
      rwa [Function.update_eq_self]
    | ok r =>
      dsimp only
      change Sound _ (Function.update owes me w.announced)
      have before : s.pending me = none := (h.pending me).mpr free
      refine ⟨h.isOpen, fun i => ?_, fun k => (h.pages k).grow rfl rfl (fun i p hi => ?_) fun announced => ⟨me, ?_⟩⟩
      · dsimp only
        rw [Function.update_apply]
        cases announced : w.announced with
        | false =>
          rw [if_neg Bool.false_ne_true, h.pending i]
          split
          · rename_i same
            rw [same, free]
          · rfl
        | true =>
          rw [if_pos rfl, Function.update_apply]
          split
          · exact ⟨fun he => (by cases he), fun he => (by cases he)⟩
          · exact h.pending i
      · dsimp only
        split
        · rw [Function.update_apply, if_neg]
          · exact hi
          · rintro rfl
            rw [before] at hi
            cases hi
        · exact hi
      · dsimp only
        rw [if_pos announced, Function.update_self]

theorem Sound.notify (h : s.Sound owes) (me : ι) : (s.notify me).Sound (Function.update owes me false) where
  isOpen := h.isOpen
  pending i := by
    simp only [Noticeboard.notify, Function.update_apply]
    split
    · exact ⟨fun _ => rfl, fun _ => rfl⟩
    · exact h.pending i
  pages k := (h.pages k).publish me

end Noticeboard

variable [DecidableEq κ]

/-- Everything that happens between the writes: pages go on, time passes, and the rest of the server works on its own
tables. -/
inductive Meanwhile (s : Noticeboard ι κ) : Noticeboard ι κ → Prop
  | page (k : κ) {page : ListPage} (step : PageStep s (s.pages k) page) :
      Meanwhile s { s with pages := Function.update s.pages k page }
  | pass (later : Nat) : Meanwhile s { s with now := later }
  | elsewhere (db : Database) (users : Users) (same : db.accounts = s.db.accounts) :
      Meanwhile s { s with db := db, users := users }

/-- Any number of calls in any order of steps, with any number of pages. -/
def boardSystem (ι κ : Type) [DecidableEq ι] [DecidableEq κ] (cipher : CredentialCipher) :
    System (noticeboard ι κ cipher) ι (Except Error Unit) where
  allowed _ _ _ := True
  root _ i p := ∃ call : Announcing.Call, p = (call.handle i).run
  env := Meanwhile
  crash s t := t = s.restarted

namespace Noticeboard

/-- Every step keeps it. -/
private theorem notices_keeps : (notices ι κ cipher).Keeps (boardSystem ι κ cipher) Sound where
  begins s owes i p sound root idle := by
    obtain ⟨call, rfl⟩ := root
    have free : owes i = false := idle.elim id id
    exact ⟨false, Discipline.Leads.fits call.settles, by rwa [← free, Function.update_eq_self]⟩
  op s owes i o c sound ready _ := by
    cases o with
    | write me w =>
      obtain ⟨rfl, free⟩ := ready
      exact sound.write free w c
    | notify me =>
      obtain rfl : me = i := ready
      exact sound.notify me
    | purge _ _ | accountToken | sealPassword _ _ =>
      change Sound s (Function.update owes i (owes i))
      rwa [Function.update_eq_self]
  env s t owes sound meanwhile := by
    cases meanwhile with
    | page k step =>
      refine ⟨sound.isOpen, sound.pending, fun j => ?_⟩
      dsimp only
      rw [Function.update_apply]
      split
      · exact ((sound.pages k).step sound.isOpen step).congr rfl rfl rfl rfl
      · exact (sound.pages j).congr rfl rfl rfl rfl
    | pass later => exact ⟨sound.isOpen, sound.pending, fun k => (sound.pages k).congr rfl rfl rfl rfl⟩
    | elsewhere db users same => exact ⟨sound.isOpen, sound.pending, fun k => (sound.pages k).congr rfl rfl rfl same⟩
  crash s t owes sound restarted := by
    obtain rfl : t = s.restarted := restarted
    exact ⟨rfl, fun i => ⟨fun _ => rfl, fun _ => rfl⟩, fun k => (sound.pages k).restart⟩

end Noticeboard

/-- Two values that differ differ somewhere in one step. -/
private theorem exists_step_ne {α : Type} {f : Nat → α} {m n : Nat} (le : m ≤ n) (ne : f m ≠ f n) :
    ∃ p, m ≤ p ∧ p < n ∧ f p ≠ f (p + 1) := by
  induction n, le using Nat.le_induction with
  | base => exact absurd rfl ne
  | succ n le ih =>
    by_cases same : f m = f n
    · exact ⟨n, le, n.lt_succ_self, same ▸ ne⟩
    · obtain ⟨p, after, before, differ⟩ := ih same
      exact ⟨p, after, before.trans n.lt_succ_self, differ⟩

/-- On every run a page at rest, while no call has a write to announce, shows the rows of its user as they are; or a
write that goes unannounced, an update or the deletion of a user, has changed them since. -/
theorem resting_page_current {s : Noticeboard ι κ} (fresh : s.Fresh)
    {c : Config (noticeboard ι κ cipher) ι (Except Error Unit)}
    (run : (boardSystem ι κ cipher).Reaches (.idle s) c) (calm : ∀ i, c.Busy i → c.state.pending i = none)
    {k : κ} {rows : List Account} (resting : c.state.Resting k rows) :
    rows = AccountRepository.listForUser c.state.db (c.state.pages k).userId ∨
      ∃ p w, (c.state.pages k).seen ≤ p ∧ c.state.log[p]? = some w ∧ w.1.announced = false ∧
        c.state.rowsAt (c.state.pages k).userId p ≠ c.state.rowsAt (c.state.pages k).userId (p + 1) := by
  obtain ⟨owes, linked, sound⟩ := Noticeboard.notices_keeps.reaches ((notices ι κ cipher).linked_idle s)
    (Noticeboard.Sound.fresh fresh) run
  have settled (i : ι) : c.state.pending i = none := by
    cases at_ : c.threads i with
    | none => exact (sound.pending i).mpr ((linked i).2 at_)
    | some p =>
      cases p with
      | ret r => exact (sound.pending i).mpr ((linked i).1 _ at_)
      | call o next => exact calm i ⟨o, next, at_⟩
  by_cases current : rows = AccountRepository.listForUser c.state.db (c.state.pages k).userId
  · exact .inl current
  · have then_ : rows = c.state.rowsAt (c.state.pages k).userId (c.state.pages k).seen :=
      (sound.pages k).shown rows resting.shown
    have now : AccountRepository.listForUser c.state.db (c.state.pages k).userId =
        c.state.rowsAt (c.state.pages k).userId c.state.log.length := by
      rw [Noticeboard.rowsAt, Noticeboard.accountsAt_end]
      rfl
    rw [then_, now] at current
    obtain ⟨p, later, below, differ⟩ := exists_step_ne (sound.pages k).seen current
    have found : c.state.log[p]? = some c.state.log[p] := List.getElem?_eq_getElem below
    exact .inr ⟨p, _, later, found, sound.unannounced settled resting later found, differ⟩

end

private def oneAccount : Noticeboard Nat Unit where
  db := (inboxWorld none 0).db
  users := annServer.users
  bus := .empty
  now := 0
  pages _ := ⟨1, none, 0, .idle, none, 0, 0⟩
  log := []
  pending _ := none

/-- The page has read its list anew after the nudge. -/
theorem resting_page_current_disabled :
    ∃ c : Config (noticeboard Nat Unit plainCipher) Nat (Except Error Unit), ∃ rows,
      rows.map Account.status = [.disabled] ∧ c.state.Resting () rows ∧
      (rows = AccountRepository.listForUser c.state.db (c.state.pages ()).userId ∨
        ∃ p w, (c.state.pages ()).seen ≤ p ∧ c.state.log[p]? = some w ∧ w.1.announced = false ∧
          c.state.rowsAt (c.state.pages ()).userId p ≠ c.state.rowsAt (c.state.pages ()).userId (p + 1)) := by
  let system := boardSystem Nat Unit plainCipher
  have page {c : Config (noticeboard Nat Unit plainCipher) Nat (Except Error Unit)} {after : ListPage}
      (run : system.Reaches (.idle oneAccount) c) (step : PageStep c.state (c.state.pages ()) after) :
      system.Reaches (.idle oneAccount) ⟨{ c.state with pages := Function.update c.state.pages () after }, c.threads⟩ :=
    run.tail (.outside _ (.page () step))
  have asked := page (page (page (page .refl .subscribe) (.mount 1)) (.answer rfl)) (.display rfl)
  have started := asked.tail (System.step_start (i := 0) rfl ⟨.disable 1 1, rfl⟩)
  have written := started.tail (.advance 0 _ _ rfl none trivial)
  have announced := written.tail (.advance 0 _ _ rfl () trivial)
  have opened := page announced (.turn true rfl rfl)
  have passed := opened.tail (.outside _ (.pass 500))
  have nudged := page (page passed (.turn true rfl (EventStream.turn_due rfl (Nat.le_refl 500)))) (.nudged rfl)
  have shown := page (page nudged (.answer rfl)) (.display rfl)
  obtain ⟨c, run, resting, calm⟩ : ∃ c : Config (noticeboard Nat Unit plainCipher) Nat (Except Error Unit),
      system.Reaches (.idle oneAccount) c ∧
        c.state.Resting () [(workAccount.setEnabled false).setStatus .disabled none] ∧
        ∀ i, c.Busy i → c.state.pending i = none := by
    refine ⟨_, shown, ?_, ?_⟩
    · constructor
      · exact ⟨_, rfl⟩
      · exact Nat.zero_le 1
      · rfl
      · rintro (⟨st, hst, left | ⟨_, draining⟩⟩ | wire | asked)
        · cases hst
          exact absurd left (lt_irrefl 1)
        · cases hst
          cases draining
        · exact absurd wire (lt_irrefl 0)
        · cases asked
      · rfl
    · intro i _
      by_cases same : i = 0
      · rw [same]
        rfl
      · change (Function.update (Function.update (fun _ => none) 0 (some 0)) 0 none : Nat → Option Nat) i = none
        rw [Function.update_apply, if_neg same, Function.update_apply, if_neg same]
  exact ⟨c, _, rfl, resting, resting_page_current ⟨rfl, rfl, fun _ => rfl, fun _ => ⟨rfl, rfl, rfl, rfl⟩⟩ run calm resting⟩

end MailKeep
