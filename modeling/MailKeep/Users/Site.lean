import MailKeep.Users.Login
import MailKeep.Program.Trace

/-! What each request can do to the users table, and histories of requests served one after another. -/
namespace MailKeep
open Program UserService

inductive Request
  | performLogin (username password : String)
  | oidcCallback (email : String)
  | registerAdmin (username fullName password email : String)
  | changeInitialPassword (token newPassword : String)
  | updateProfile (fullName email : String)
  | changePassword (current newPassword : String)
  | listUsersAdmin
  | adminCreateUser (username fullName email password : String) (capabilities : List String)
  | adminUpdateUser (token fullName email : String) (password : Option String) (capabilities : List String)
  | adminDeleteUser (token : String)

def Request.handle (platform : Platform) (client : ClientId) (actor : Option AuthUser) :
    Request → UserAction ServerFnError Reply
  | performLogin username password => MailKeep.performLogin platform client username password
  | oidcCallback email => MailKeep.oidcCallback client email
  | registerAdmin username fullName password email => MailKeep.registerAdmin client username fullName password email
  | changeInitialPassword token newPassword => MailKeep.changeInitialPassword platform token newPassword
  | updateProfile fullName email => MailKeep.updateProfile actor fullName email
  | changePassword current newPassword => MailKeep.changePassword platform actor current newPassword
  | listUsersAdmin => MailKeep.listUsersAdmin platform actor
  | adminCreateUser username fullName email password capabilities =>
    MailKeep.adminCreateUser platform actor username fullName email password capabilities
  | adminUpdateUser token fullName email password capabilities =>
    MailKeep.adminUpdateUser platform actor token fullName email password capabilities
  | adminDeleteUser token => MailKeep.adminDeleteUser platform actor token

def Users.Adds (before after : Users) (u : User) : Prop :=
  (∀ v ∈ before, v.id ≠ u.id) ∧ ∀ v, v ∈ after ↔ v ∈ before ∨ v = u

def Users.Rewrites (before after : Users) (u v : User) : Prop :=
  u ∈ before ∧ v.id = u.id ∧ ∀ w, w ∈ after ↔ w = v ∨ w ∈ before ∧ w.id ≠ u.id

def Users.Removes (before after : Users) (u : User) : Prop :=
  u ∈ before ∧ ∀ w, w ∈ after ↔ w ∈ before ∧ w.id ≠ u.id

def Administers (actor : Option AuthUser) (a : AuthUser) : Prop :=
  actor = some a ∧ (a.has .superAdmin = true ∨ a.has .admin = true)

def Request.Writes (platform : Platform) (actor : Option AuthUser) (before after : Users) : Request → Prop
  | registerAdmin _ _ _ _ => ∃ u, before.Adds after u
  | changeInitialPassword token newPassword => ∃ u v, before.Rewrites after u v ∧
    isBlank newPassword = false ∧ platform.parseToken token = .ok u.id ∧ u.changePasswordOnLogin = true
  | updateProfile _ _ => ∃ u v, before.Rewrites after u v ∧ v.passwordHash = u.passwordHash
  | changePassword current _ => ∃ u v a, before.Rewrites after u v ∧
    actor = some a ∧ u.id = a.id ∧ u.checkPassword platform current = true
  | adminCreateUser _ _ _ _ _ => ∃ u a, before.Adds after u ∧ Administers actor a ∧
    .superAdmin ∉ u.capabilities ∧ (.admin ∈ u.capabilities → a.has .superAdmin = true)
  | adminUpdateUser token _ _ _ _ => ∃ u v a, before.Rewrites after u v ∧ Administers actor a ∧
    platform.parseToken token = .ok u.id ∧ (.superAdmin ∈ u.capabilities → a.has .superAdmin = true) ∧
    (.superAdmin ∈ v.capabilities ↔ .superAdmin ∈ u.capabilities) ∧
      (.admin ∈ v.capabilities → a.has .superAdmin = true)
  | adminDeleteUser _ => ∃ u a, before.Removes after u ∧ Administers actor a ∧ .superAdmin ∉ u.capabilities
  | performLogin _ _ | oidcCallback _ | listUsersAdmin => False

/-- What a request, served whole or cut off, may do to the users table. -/
def Request.Effect (platform : Platform) (actor : Option AuthUser) (request : Request)
    (before after : Users) : Prop :=
  after = before ∨ request.Writes platform actor before after

section
variable {platform : Platform} {cases : Unicode.CaseData} {R : Users → Users → Prop} {users : Users} {s : Server}

/-- A request may leave the table in any state that stands in `R` to the one it found. -/
def serving (platform : Platform) (cases : Unicode.CaseData) (R : Users → Users → Prop) (users : Users) :
    Contract (userStore platform cases) :=
  .alone (fun _ _ _ => True) (fun t => R users t.users) fun _ _ => True

theorem serving_stable : (serving platform cases R users).Stable := Contract.alone_stable _ _ _

/-- The action leaves the table as it found it, and `φ` holds of its result. -/
def Quiet (platform : Platform) (cases : Unicode.CaseData) (R : Users → Users → Prop) (users : Users) (s : Server)
    (φ : α → Prop) (x : UserAction ε α) : Prop :=
  SafeAct (serving platform cases R users) (fun a t => t.users = users ∧ φ a) (fun _ _ => True) x s

/-- Whatever becomes of the action, the table stays within `R`. -/
def Within (platform : Platform) (cases : Unicode.CaseData) (R : Users → Users → Prop) (users : Users) (s : Server)
    (x : UserAction ε α) : Prop :=
  SafeAct (serving platform cases R users) (fun _ _ => True) (fun _ _ => True) x s

theorem Quiet.seq {φ : α → Prop} {x : UserAction ε α} {f : α → UserAction ε β}
    (hx : Quiet platform cases R users s φ x)
    (hf : ∀ a t, t.users = users → φ a → Within platform cases R users t (f a)) :
    Within platform cases R users s (x >>= f) :=
  SafeAct.seq serving_stable hx fun a t _ h => hf a t h.1 h.2

theorem Quiet.chain {φ : α → Prop} {ψ : β → Prop} {x : UserAction ε α} {f : α → UserAction ε β}
    (hx : Quiet platform cases R users s φ x)
    (hf : ∀ a t, t.users = users → φ a → Quiet platform cases R users t ψ (f a)) :
    Quiet platform cases R users s ψ (x >>= f) :=
  SafeAct.seq serving_stable hx fun a t _ h => hf a t h.1 h.2

theorem Within.seq {x : UserAction ε α} {f : α → UserAction ε β} (hx : Within platform cases R users s x)
    (hf : ∀ a t, Within platform cases R users t (f a)) : Within platform cases R users s (x >>= f) :=
  SafeAct.seq serving_stable hx fun a t _ _ => hf a t

theorem Within.pure (a : α) : Within platform cases R users s (pure a : UserAction ε α) :=
  SafeAct.pure fun _ _ _ => trivial

theorem Within.mapErr {f : ε → ε'} {x : UserAction ε α} (h : Within platform cases R users s x) :
    Within platform cases R users s (mapErr f x) :=
  SafeAct.mapErr serving_stable h

theorem Quiet.mapErr {φ : α → Prop} {f : ε → ε'} {x : UserAction ε α} (h : Quiet platform cases R users s φ x) :
    Quiet platform cases R users s φ (mapErr f x) :=
  SafeAct.mapErr serving_stable h

theorem Quiet.pure {φ : α → Prop} {a : α} (hs : s.users = users) (h : φ a) :
    Quiet platform cases R users s φ (pure a : UserAction ε α) :=
  SafeAct.pure fun _ _ he => ⟨he ▸ hs, h⟩

theorem Quiet.liftResult {r : Except ε α} (hs : s.users = users) :
    Quiet platform cases R users s (fun a => r = .ok a) (liftResult r) :=
  SafeAct.liftResult (fun _ ha _ _ he => ⟨he ▸ hs, ha⟩) fun _ _ _ _ _ => trivial

theorem Quiet.orElse {o : Option α} {e : ServerFnError} (hs : s.users = users) :
    Quiet platform cases R users s (fun a => o = some a) (orElse o e) := by
  refine SafeAct.liftResult (fun a ha t _ he => ⟨he ▸ hs, ?_⟩) fun _ _ _ _ _ => trivial
  cases o with
  | none => cases ha
  | some b => rw [Except.ok.inj ha]

theorem Quiet.reject {c : Prop} [Decidable c] {e : ε} (hs : s.users = users) :
    Quiet platform cases R users s (fun _ => ¬ c) (reject c e) :=
  SafeAct.reject (fun hc _ _ he => ⟨he ▸ hs, hc⟩) fun _ _ _ _ => trivial

theorem Quiet.encryptPassword {password : String} (refl : R users users) (hs : s.users = users) :
    Quiet platform cases R users s (fun _ => True) (encryptPassword password) :=
  SafeAct.call fun s₁ _ he _ _ => by
    have hs₁ : s₁.users = users := he ▸ hs
    exact ⟨show R users s₁.users from hs₁ ▸ refl, trivial, fun t _ ht => ⟨fun _ _ => ⟨ht ▸ hs₁, trivial⟩, fun _ _ => trivial⟩⟩

/-- A transaction that reads leaves the table alone. -/
theorem Quiet.transact (t : UserTxn) {φ : t.Result → Prop} (refl : R users users) (hs : s.users = users)
    (reads : ∀ d r after, t.body cases d users = .ok (r, after) → after = users ∧ φ r) :
    Quiet platform cases R users s φ (transact t) := by
  apply SafeAct.call
  intro s₁ _ he c _
  have hs₁ : s₁.users = users := he ▸ hs
  cases c with
  | error e => exact ⟨show R users s₁.users from hs₁ ▸ refl, trivial, fun _ _ _ => ⟨fun _ h => (by cases h), fun _ _ => trivial⟩⟩
  | ok d =>
    change R users (s₁.transact cases t (.ok d)).2.users ∧ True ∧ _
    simp only [Server.transact, hs₁]
    cases hb : t.body cases d users with
    | error e => exact ⟨show R users s₁.users from hs₁ ▸ refl, trivial, fun _ _ _ => ⟨fun _ h => (by cases h), fun _ _ => trivial⟩⟩
    | ok p =>
      obtain ⟨hu, hφ⟩ := reads d p.1 p.2 hb
      exact ⟨show R users p.2 from hu ▸ refl, trivial, fun t _ ht => ⟨fun _ ha => ⟨ht ▸ hu, Except.ok.inj ha ▸ hφ⟩, fun _ _ => trivial⟩⟩

theorem Within.transact (t : UserTxn) (refl : R users users) (hs : s.users = users)
    (writes : ∀ d r after, t.body cases d users = .ok (r, after) → R users after) :
    Within platform cases R users s (transact t) := by
  apply SafeAct.call
  intro s₁ _ he c _
  have hs₁ : s₁.users = users := he ▸ hs
  cases c with
  | error e => exact ⟨show R users s₁.users from hs₁ ▸ refl, trivial, fun _ _ _ => ⟨fun _ _ => trivial, fun _ _ => trivial⟩⟩
  | ok d =>
    change R users (s₁.transact cases t (.ok d)).2.users ∧ True ∧ _
    simp only [Server.transact, hs₁]
    cases hb : t.body cases d users with
    | error e => exact ⟨show R users s₁.users from hs₁ ▸ refl, trivial, fun _ _ _ => ⟨fun _ _ => trivial, fun _ _ => trivial⟩⟩
    | ok p => exact ⟨writes d p.1 p.2 hb, trivial, fun _ _ _ => ⟨fun _ _ => trivial, fun _ _ => trivial⟩⟩

theorem Within.loginUser {client : ClientId} {id : UserId} :
    Within platform cases R users s (loginUser client id) :=
  SafeAct.call fun _ hv _ _ _ => ⟨hv, trivial, fun _ _ _ => ⟨fun _ _ => trivial, fun _ _ => trivial⟩⟩

theorem Quiet.authenticatedUser {actor : Option AuthUser} (hs : s.users = users) :
    Quiet platform cases R users s (fun a => actor = some a) (MailKeep.authenticatedUser actor) := by
  refine SafeAct.liftResult (fun a ha t _ he => ⟨he ▸ hs, ?_⟩) fun _ _ _ _ _ => trivial
  cases hf : actor.filter (·.username ≠ "") with
  | none => rw [hf] at ha; cases ha
  | some b =>
    rw [hf] at ha
    cases ha
    exact (Option.filter_eq_some_iff.mp hf).1

theorem Within.safe {x : UserAction ε α} (h : Within platform cases R users s x) :
    SafeAct (serving platform cases R users) (fun _ _ => True) (fun _ _ => True) x s := h

-- The rules above are all that is needed of the two; unfolded, they would run the programs they are about.
attribute [irreducible] Quiet Within

theorem Quiet.findById {id : UserId} (refl : R users users) (hs : s.users = users) :
    Quiet platform cases R users s (fun found => ∀ u, found = some u → u ∈ users ∧ u.id = id)
      (UserService.transact (.findById id)) := by
  apply Quiet.transact (.findById id) refl hs
  intro d r after h
  obtain ⟨rfl, rfl⟩ := UserRepository.findById_ok h
  exact ⟨rfl, fun u hu => Keyed.Table.find?_eq_some.mp hu⟩

/-- The user a lookup by token finds. -/
theorem Quiet.found {id : UserId} {f : User → UserAction ServerFnError β} {e : ServerFnError}
    (refl : R users users) (hs : s.users = users)
    (hf : ∀ u t, t.users = users → u ∈ users → u.id = id → Within platform cases R users t (f u)) :
    Within platform cases R users s (Program.mapErr toServerErr (UserService.transact (.findById id)) >>= fun o => MailKeep.orElse o e >>= f) := by
  apply Quiet.seq (Quiet.mapErr (Quiet.findById refl hs))
  intro o t ht ho
  apply Quiet.seq (Quiet.orElse ht)
  intro u t ht hu
  exact hf u t ht (ho u hu).1 (ho u hu).2

theorem Quiet.requireAdmin {actor : Option AuthUser} (hs : s.users = users) :
    Quiet platform cases R users s (Administers actor) (MailKeep.requireAdmin actor) := by
  apply Quiet.chain (Quiet.authenticatedUser hs)
  intro a t ht ha
  apply Quiet.chain (Quiet.reject ht)
  intro _ t ht hr
  refine Quiet.pure ht ⟨ha, ?_⟩
  by_contra hn
  exact hr (by simpa [not_or] using hn)

theorem Quiet.newUser {username password email fullName : String} {capabilities : List Capability} {change : Bool}
    (refl : R users users) (hs : s.users = users) :
    Quiet platform cases R users s (fun u => u.capabilities = capabilities)
      (MailKeep.newUser username password email capabilities fullName change) := by
  apply Quiet.chain (Quiet.reject hs)
  intro _ t ht _
  apply Quiet.chain (Quiet.encryptPassword refl ht)
  intro _ t ht _
  apply Quiet.chain (Quiet.liftResult ht)
  intro _ t ht _
  exact Quiet.pure ht rfl

theorem Within.updateUser {user : User} (refl : R users users) (hs : s.users = users)
    (writes : ∀ u v after, users.Rewrites after u v → u.id = user.id → v.passwordHash = user.passwordHash →
      (∀ c, c ∈ v.capabilities ↔ c ∈ user.capabilities) → R users after) :
    Within platform cases R users s (UserService.transact (.updateUser user)) := by
  apply Within.transact (.updateUser user) refl hs
  intro d r after h
  obtain ⟨u, hu, hid, -, rfl, hmem⟩ := UserRepository.updateUser_ok h
  obtain ⟨version, he⟩ := UserRepository.updated_eq d.swap u user
  exact writes u _ after ⟨hu, UserRepository.updated_id _ _ _, hid ▸ hmem⟩ hid (by rw [he]) fun c =>
    by rw [he]; simp

theorem Quiet.isValidLogin {username password : String} (refl : R users users) (hs : s.users = users) :
    Quiet platform cases R users s (fun _ => True) (MailKeep.isValidLogin platform username password) := by
  have reads : Quiet platform cases R users s (fun _ => True)
      (UserService.transact (.findByUsername username)) := by
    apply Quiet.transact (.findByUsername username) refl hs
    intro d r after h
    cases h
    exact ⟨rfl, trivial⟩
  exact Quiet.chain reads fun _ t ht _ => Quiet.pure ht trivial

theorem Quiet.isValidEmail {email : EmailAddress} (refl : R users users) (hs : s.users = users) :
    Quiet platform cases R users s (fun _ => True) (MailKeep.isValidEmail email) := by
  apply Quiet.transact (.findByEmail email) refl hs
  intro d r after h
  cases h
  exact ⟨rfl, trivial⟩

theorem Quiet.listUsers {startId : Option UserId} {pageSize : Option Nat} (refl : R users users)
    (hs : s.users = users) :
    Quiet platform cases R users s (fun _ => True) (UserService.transact (.listUsers startId pageSize)) :=
  Quiet.transact (.listUsers startId pageSize) refl hs fun _ _ _ h => ⟨UserRepository.listUsers_ok h, trivial⟩

theorem Quiet.newHash {password : Option String} (refl : R users users) (hs : s.users = users) :
    Quiet platform cases R users s (fun _ => True) (MailKeep.newHash password) := by
  cases password with
  | none => exact Quiet.pure hs trivial
  | some pw => exact Quiet.chain (Quiet.mapErr (Quiet.encryptPassword refl hs)) fun _ t ht _ => Quiet.pure ht trivial

theorem Within.addUser {user : NewUser} (refl : R users users) (hs : s.users = users)
    (writes : ∀ u after, users.Adds after u → (∀ c, c ∈ u.capabilities ↔ c ∈ user.capabilities) → R users after) :
    Within platform cases R users s (UserService.transact (.addUser user)) := by
  apply Within.transact (.addUser user) refl hs
  intro d u after h
  obtain ⟨hid, -, -, hc, fresh, hmem⟩ := UserRepository.addUser_ok h
  exact writes u after ⟨hid ▸ fresh, hmem⟩ fun c => by rw [hc]; exact UserRepository.mem_serialize

theorem Within.deleteUser {id : UserId} (refl : R users users) (hs : s.users = users)
    (writes : ∀ u after, users.Removes after u → u.id = id → R users after) :
    Within platform cases R users s (UserService.transact (.deleteUser id)) := by
  apply Within.transact (.deleteUser id) refl hs
  intro d u after h
  obtain ⟨hu, hid, hmem⟩ := UserRepository.deleteUser_ok h
  exact writes u after ⟨hu, hid ▸ hmem⟩ hid

end

section
variable {platform : Platform} {cases : Unicode.CaseData} {client : ClientId} {actor : Option AuthUser} {s : Server}

/-- The request keeps to its effect on the table it finds. -/
def Request.Kept (platform : Platform) (cases : Unicode.CaseData) (client : ClientId) (actor : Option AuthUser)
    (s : Server) (request : Request) : Prop :=
  Within platform cases (request.Effect platform actor) s.users s (request.handle platform client actor)

private theorem effect_refl (request : Request) (users : Users) :
    request.Effect platform actor users users := .inl rfl

private theorem kept_performLogin (username password : String) :
    (Request.performLogin username password).Kept platform cases client actor s := by
  apply Quiet.seq (Quiet.mapErr (Quiet.isValidLogin (effect_refl _ _) rfl))
  intro o t ht _
  apply Quiet.seq (Quiet.orElse ht)
  intro u t _ _
  split
  · exact Within.pure _
  · exact Within.seq Within.loginUser fun _ _ => Within.pure _

private theorem kept_oidcCallback (email : String) :
    (Request.oidcCallback email).Kept platform cases client actor s := by
  apply Quiet.seq (Quiet.mapErr (Quiet.liftResult rfl))
  intro email t ht _
  apply Quiet.seq (Quiet.mapErr (Quiet.isValidEmail (effect_refl _ _) ht))
  intro o t ht _
  apply Quiet.seq (Quiet.orElse ht)
  intro u t _ _
  exact Within.seq Within.loginUser fun _ _ => Within.pure _

private theorem kept_registerAdmin (username fullName password email : String) :
    (Request.registerAdmin username fullName password email).Kept platform cases client actor s := by
  apply Quiet.seq (Quiet.mapErr (Quiet.listUsers (effect_refl _ _) rfl))
  intro existing t ht _
  apply Quiet.seq (Quiet.reject ht)
  intro _ t ht _
  apply Quiet.seq (Quiet.mapErr (Quiet.newUser (effect_refl _ _) ht))
  intro user t ht _
  refine Within.seq (Within.mapErr (Within.addUser (effect_refl _ _) ht fun u after ha _ => .inr ⟨u, ha⟩)) fun u t => ?_
  exact Within.seq Within.loginUser fun _ _ => Within.pure _

private theorem kept_changeInitialPassword (token newPassword : String) :
    (Request.changeInitialPassword token newPassword).Kept platform cases client actor s := by
  apply Quiet.seq (Quiet.reject rfl)
  intro _ t ht blank
  apply Quiet.seq (Quiet.mapErr (Quiet.liftResult ht))
  intro id t ht parsed
  apply Quiet.found (effect_refl _ _) ht
  intro user t ht hu hid
  apply Quiet.seq (Quiet.reject ht)
  intro _ t ht pending
  apply Quiet.seq (Quiet.mapErr (Quiet.encryptPassword (effect_refl _ _) ht))
  intro hash t ht _
  refine Within.seq (Within.mapErr (Within.updateUser (effect_refl _ _) ht fun u v after hw hi _ _ => ?_)) fun _ _ => Within.pure _
  have same : u = user := Users.eq_of_id hw.1 hu hi
  exact .inr ⟨u, v, hw, by simpa using blank, by rw [same, hid, parsed], by simpa [same] using pending⟩

private theorem kept_updateProfile (fullName email : String) :
    (Request.updateProfile fullName email).Kept platform cases client actor s := by
  apply Quiet.seq (Quiet.reject rfl)
  intro _ t ht _
  apply Quiet.seq (Quiet.mapErr (Quiet.liftResult ht))
  intro address t ht _
  apply Quiet.seq (Quiet.authenticatedUser ht)
  intro a t ht _
  apply Quiet.found (effect_refl _ _) ht
  intro user t ht hu _
  refine Within.seq (Within.mapErr (Within.updateUser (effect_refl _ _) ht fun u v after hw hi hh _ => ?_)) fun _ _ => Within.pure _
  exact .inr ⟨u, v, hw, by rw [Users.eq_of_id hw.1 hu hi, hh]⟩

private theorem kept_changePassword (current newPassword : String) :
    (Request.changePassword current newPassword).Kept platform cases client actor s := by
  apply Quiet.seq (Quiet.reject rfl)
  intro _ t ht _
  apply Quiet.seq (Quiet.authenticatedUser ht)
  intro a t ht ha
  apply Quiet.found (effect_refl _ _) ht
  intro user t ht hu hid
  apply Quiet.seq (Quiet.reject ht)
  intro _ t ht checked
  apply Quiet.seq (Quiet.mapErr (Quiet.encryptPassword (effect_refl _ _) ht))
  intro hash t ht _
  refine Within.seq (Within.mapErr (Within.updateUser (effect_refl _ _) ht fun u v after hw hi _ _ => ?_)) fun _ _ => Within.pure _
  have same : u = user := Users.eq_of_id hw.1 hu hi
  exact .inr ⟨u, v, a, hw, ha, same ▸ hid, by simpa [same] using checked⟩

private theorem kept_listUsersAdmin : Request.listUsersAdmin.Kept platform cases client actor s := by
  apply Quiet.seq (Quiet.requireAdmin rfl)
  intro _ t ht _
  exact Quiet.seq (Quiet.mapErr (Quiet.listUsers (effect_refl _ _) ht)) fun _ t _ _ => Within.pure _

private theorem kept_adminCreateUser (username fullName email password : String) (capabilities : List String) :
    (Request.adminCreateUser username fullName email password capabilities).Kept platform cases client actor s := by
  apply Quiet.seq (Quiet.requireAdmin rfl)
  intro a t ht ha
  apply Quiet.seq (Quiet.liftResult ht)
  intro caps t ht _
  apply Quiet.seq (Quiet.reject ht)
  intro _ t ht notSuper
  apply Quiet.seq (Quiet.reject ht)
  intro _ t ht adminBySuper
  apply Quiet.seq (Quiet.mapErr (Quiet.newUser (effect_refl _ _) ht))
  intro user t ht hcaps
  refine Within.seq (Within.mapErr (Within.addUser (effect_refl _ _) ht fun u after hw hc => ?_))
    fun _ _ => Within.pure _
  refine .inr ⟨u, a, hw, ha, ?_, fun h => ?_⟩
  · rwa [hc, hcaps]
  · rw [hc, hcaps] at h
    simpa [h] using adminBySuper

private theorem kept_adminUpdateUser (token fullName email : String) (password : Option String)
    (capabilities : List String) :
    (Request.adminUpdateUser token fullName email password capabilities).Kept platform cases client actor s := by
  apply Quiet.seq (Quiet.requireAdmin rfl)
  intro a t ht ha
  apply Quiet.seq (Quiet.mapErr (Quiet.liftResult ht))
  intro id t ht parsed
  apply Quiet.found (effect_refl _ _) ht
  intro user t ht hu hid
  apply Quiet.seq (Quiet.reject ht)
  intro _ t ht superBySuper
  apply Quiet.seq (Quiet.liftResult ht)
  intro caps t ht _
  apply Quiet.seq (Quiet.reject ht)
  intro _ t ht noNewSuper
  apply Quiet.seq (Quiet.reject ht)
  intro _ t ht noLostSuper
  apply Quiet.seq (Quiet.reject ht)
  intro _ t ht adminBySuper
  apply Quiet.seq (Quiet.reject ht)
  intro _ t ht _
  apply Quiet.seq (Quiet.mapErr (Quiet.liftResult ht))
  intro address t ht _
  apply Quiet.seq (Quiet.newHash (effect_refl _ _) ht)
  intro hash t ht _
  refine Within.seq (Within.mapErr (Within.updateUser (effect_refl _ _) ht fun u v after hw hi _ hc => ?_)) fun _ _ => Within.pure _
  rw [editedUser_id] at hi
  have same : u = user := Users.eq_of_id hw.1 hu hi
  simp only [editedUser_capabilities] at hc
  refine .inr ⟨u, v, a, hw, ha, by rw [same, hid, parsed], fun h => ?_, ?_, fun h => ?_⟩
  · rw [same] at h
    simpa [h] using superBySuper
  · rw [hc, same]
    exact ⟨fun h => by_contra fun hn => noNewSuper ⟨h, hn⟩, fun h => by_contra fun hn => noLostSuper ⟨h, hn⟩⟩
  · rw [hc] at h
    simpa [h] using adminBySuper

private theorem kept_adminDeleteUser (token : String) :
    (Request.adminDeleteUser token).Kept platform cases client actor s := by
  apply Quiet.seq (Quiet.requireAdmin rfl)
  intro a t ht ha
  apply Quiet.seq (Quiet.reject ht)
  intro _ t ht _
  apply Quiet.seq (Quiet.mapErr (Quiet.liftResult ht))
  intro id t ht parsed
  apply Quiet.found (effect_refl _ _) ht
  intro user t ht hu hid
  apply Quiet.seq (Quiet.reject ht)
  intro _ t ht notSuper
  refine Within.seq (Within.mapErr (Within.deleteUser (effect_refl _ _) ht fun u after hw hi => ?_))
    fun _ _ => Within.pure _
  exact .inr ⟨u, a, hw, ha, Users.eq_of_id hw.1 hu hi ▸ notSuper⟩

/-- Served whole or cut off after any operation, a request has no effect but its own. -/
theorem Request.effect (request : Request) {rest : Prog userSignature (Except ServerFnError Reply)} {t : Server}
    (run : Reaches (M := userStore platform cases) (fun _ _ _ => True)
      ((request.handle platform client actor).run, s) (rest, t)) :
    request.Effect platform actor s.users t.users := by
  have kept : request.Kept platform cases client actor s := by
    cases request with
    | performLogin => exact kept_performLogin _ _
    | oidcCallback => exact kept_oidcCallback _
    | registerAdmin => exact kept_registerAdmin _ _ _ _
    | changeInitialPassword => exact kept_changeInitialPassword _ _
    | updateProfile => exact kept_updateProfile _ _
    | changePassword => exact kept_changePassword _ _
    | listUsersAdmin => exact kept_listUsersAdmin
    | adminCreateUser => exact kept_adminCreateUser _ _ _ _ _
    | adminUpdateUser => exact kept_adminUpdateUser _ _ _ _ _
    | adminDeleteUser => exact kept_adminDeleteUser _
  exact (Safe.reaches serving_stable kept.safe (effect_refl request s.users) run).1

end

/-- An entry of the history: the server loaded a user for the sessions that are his, or it served a request. -/
inductive Visit
  | loaded (actor : AuthUser)
  | served (client : ClientId) (request : Request) (actor : Option AuthUser)
      (answer : Option (Except ServerFnError Reply)) (before after : Users)

structure Site where
  server : Server
  history : List Visit

def answer? : Prog userSignature α → Option α
  | .ret a => some a
  | .call _ _ => none

/-- The user of a request is one that was loaded for its session, at any time before. -/
inductive Site.Step (platform : Platform) (cases : Unicode.CaseData) : Site → Site → Prop
  | load (site : Site) (u : User) (h : u ∈ site.server.users) :
      Step platform cases site ⟨site.server, .loaded u.authUser :: site.history⟩
  | serve (site : Site) (client : ClientId) (request : Request) (actor : Option AuthUser)
      (known : ∀ a, actor = some a → .loaded a ∈ site.history ∧ site.server.login client = some a.id)
      (rest : Prog userSignature (Except ServerFnError Reply)) (server : Server)
      (run : Reaches (M := userStore platform cases) (fun _ _ _ => True)
        ((request.handle platform client actor).run, site.server) (rest, server)) :
      Step platform cases site
        ⟨server, .served client request actor (answer? rest) site.server.users server.users :: site.history⟩

abbrev Site.Reaches (platform : Platform) (cases : Unicode.CaseData) : Site → Site → Prop :=
  Relation.ReflTransGen (Site.Step platform cases)

/-- A server to run on: one administrator, logged in, and an environment in which nothing fails. -/
def ann : User := ⟨1, 1, "ann", "Ann", "salt$secret", ⟨"ann@x.org", by decide⟩, [.admin], false⟩

def annServer : Server where
  users := ⟨⟨[ann], by simp⟩, by simp, by simp⟩
  login _ := some 1

def drawing (token : UserId) : (o : UserOp) → o.Choice
  | .transact _ => .ok ⟨token, false, 0⟩
  | .encryptPassword _ => "salt"
  | .loginUser _ _ => ()

theorem reaches_drawing (platform : Platform) (cases : Unicode.CaseData) (token n : Nat)
    (x : Prog userSignature α × Server) :
    Reaches (M := userStore platform cases) (fun _ _ _ => True) x
      ((userStore platform cases).follow (drawing token) n x) :=
  @reaches_follow (userStore platform cases) _ (fun _ _ _ => True) (drawing token) (fun _ _ => trivial) n x

end MailKeep
