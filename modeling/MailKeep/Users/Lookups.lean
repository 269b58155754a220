import MailKeep.Program.Place
import MailKeep.Users.Privilege

/-! What a request knows of the users when it writes: the row it has looked up, the empty table it has
listed, and the permissions its actor came with. -/
namespace MailKeep
open Program

/-- What a look-up by id finds takes the place of what was found before. -/
def foundAfter (read : Option User) : (o : UserOp) → o.Value → Option User
  | .transact (.findById _), .ok found => found
  | _, _ => read

/-- A look-up finds a row of the moment; no other operation moves what a thread has found. -/
theorem foundAfter_exec {platform : Platform} {cases : Unicode.CaseData} {s : Server} {o : UserOp} {c : o.Choice}
    {read : Option User} {u : User} (h : foundAfter read o ((userStore platform cases).exec o c s).1 = some u) :
    read = some u ∨ u ∈ s.users ∧ ((userStore platform cases).exec o c s).2.users = s.users := by
  cases o with
  | encryptPassword _ | loginUser _ _ => exact .inl h
  | transact t =>
    cases t with
    | findByUsername _ | findByEmail _ | listUsers _ _ | addUser _ | updateUser _ | deleteUser _ => exact .inl h
    | findById id =>
      change foundAfter read (.transact (.findById id)) (s.transact cases (.findById id) c).1 = some u at h
      change _ ∨ _ ∧ (s.transact cases (.findById id) c).2.users = s.users
      cases c with
      | error e => exact .inl h
      | ok d =>
        dsimp only [Server.transact] at h ⊢
        split at h
        · exact .inl h
        · rename_i found users hb
          obtain ⟨rfl, rfl⟩ := UserRepository.findById_ok hb
          exact .inr ⟨(Keyed.Table.find?_eq_some.mp h).1, rfl⟩

def nobodyAfter (nobody : Bool) : (o : UserOp) → o.Value → Bool
  | .transact (.listUsers none _), .ok found => found.isEmpty
  | .transact (.listUsers (some _) _), .ok _ => false
  | _, _ => nobody

structure Seen where
  read : Option User
  nobody : Bool

def Seen.after (seen : Seen) (o : UserOp) (reply : o.Value) : Seen :=
  ⟨foundAfter seen.read o reply, nobodyAfter seen.nobody o reply⟩

/-- The capabilities of the row a transaction writes, none for the row it deletes. -/
def UserTxn.written : UserTxn → Option (List Capability)
  | addUser user => some user.capabilities
  | updateUser user => some user.capabilities
  | deleteUser _ => some []
  | _ => none

/-- What an administration request asks of its actor before it writes a row with these capabilities. -/
def Authorises (actor : Option AuthUser) (capabilities : List Capability) : Prop :=
  ∃ a, Administers actor a ∧ (.superAdmin ∈ capabilities ∨ .admin ∈ capabilities → a.has .superAdmin = true)

def Request.Bootstraps : Request → Prop
  | registerAdmin _ _ _ _ => True
  | _ => False

def Request.Edits : Request → Prop
  | registerAdmin _ _ _ _ | adminCreateUser _ _ _ _ _ => False
  | _ => True

structure UserTxn.Ready (request : Request) (actor : Option AuthUser) (seen : Seen) (t : UserTxn) : Prop where
  authorised : request.Administrative → ∀ capabilities, t.written = some capabilities →
    Authorises actor capabilities
  adds : ∀ user, t = .addUser user → ¬ request.Edits ∧
    (request.Bootstraps → seen.nobody = true ∧ .superAdmin ∈ user.capabilities) ∧
      (¬ request.Bootstraps → .superAdmin ∉ user.capabilities)
  updates : ∀ user, t = .updateUser user → ∃ u, seen.read = some u ∧ u.id = user.id ∧ u.version = user.version ∧
    (.superAdmin ∈ user.capabilities ↔ .superAdmin ∈ u.capabilities)
  deletes : ∀ id, t = .deleteUser id → ∃ u, seen.read = some u ∧ u.id = id ∧ .superAdmin ∉ u.capabilities

def UserOp.Ready (request : Request) (actor : Option AuthUser) (seen : Seen) : UserOp → Prop
  | transact t => t.Ready request actor seen
  | _ => True

theorem UserTxn.ready_of_reads {request : Request} {actor : Option AuthUser} {seen : Seen} {t : UserTxn}
    (reads : t.written = none) : t.Ready request actor seen where
  authorised _ _ h := by cases reads.symm.trans h
  adds _ h := by cases h; cases reads
  updates _ h := by cases h; cases reads
  deletes _ h := by cases h; cases reads

section
variable {ι : Type} {platform : Platform} {cases : Unicode.CaseData} {request : Request} {actor : Option AuthUser}
  {i : ι} {seen : Seen}

def userPlaces (ι : Type) (platform : Platform) (cases : Unicode.CaseData) (request : Request)
    (actor : Option AuthUser) :
    Discipline (userStore platform cases) ι Seen where
  start := ⟨none, false⟩
  ready _ seen o := o.Ready request actor seen
  after := Seen.after
  done _ := True

/-- From this place on the action is ready for all it issues. -/
private structure Follows (ι : Type) (platform : Platform) (cases : Unicode.CaseData) (request : Request)
    (actor : Option AuthUser) (i : ι) (seen : Seen) (x : UserAction ε α) : Prop where
  leads : (userPlaces ι platform cases request actor).Leads i (fun _ _ => True) seen x.run

/-- The action neither looks up nor lists nor writes, and `φ` holds of its result. -/
private structure Remains (ι : Type) (platform : Platform) (cases : Unicode.CaseData) (request : Request)
    (actor : Option AuthUser) (i : ι) (seen : Seen) (φ : α → Prop) (x : UserAction ε α) : Prop where
  leads : (userPlaces ι platform cases request actor).Leads i
    (fun r q => q = seen ∧ ∀ a, r = .ok a → φ a) seen x.run

private theorem Remains.seq {φ : α → Prop} {x : UserAction ε α} {f : α → UserAction ε β}
    (hx : Remains ι platform cases request actor i seen φ x)
    (hf : ∀ a, φ a → Follows ι platform cases request actor i seen (f a)) :
    Follows ι platform cases request actor i seen (x >>= f) := by
  refine ⟨Discipline.Leads.seq (Discipline.Leads.weaken hx.leads fun r q hq => ?_)⟩
  cases r with
  | ok a => exact hq.1 ▸ (hf a (hq.2 a rfl)).leads
  | error e => trivial

private theorem Remains.chain {φ : α → Prop} {ψ : β → Prop} {x : UserAction ε α} {f : α → UserAction ε β}
    (hx : Remains ι platform cases request actor i seen φ x)
    (hf : ∀ a, φ a → Remains ι platform cases request actor i seen ψ (f a)) :
    Remains ι platform cases request actor i seen ψ (x >>= f) := by
  refine ⟨Discipline.Leads.seq (Discipline.Leads.weaken hx.leads fun r q hq => ?_)⟩
  cases r with
  | ok a => exact hq.1 ▸ (hf a (hq.2 a rfl)).leads
  | error e => exact ⟨hq.1, fun a h => (by cases h)⟩

private theorem Remains.mapErr {φ : α → Prop} {f : ε → ε'} {x : UserAction ε α}
    (hx : Remains ι platform cases request actor i seen φ x) :
    Remains ι platform cases request actor i seen φ (mapErr f x) := by
  refine ⟨Discipline.Leads.mapErr (Discipline.Leads.weaken hx.leads fun r q hq => ⟨hq.1, fun a h => ?_⟩)⟩
  cases r with
  | ok b =>
    cases h
    exact hq.2 a rfl
  | error e => cases h

private theorem Remains.imp {φ ψ : α → Prop} {x : UserAction ε α}
    (hx : Remains ι platform cases request actor i seen φ x)
    (imp : ∀ a, φ a → ψ a) : Remains ι platform cases request actor i seen ψ x :=
  ⟨Discipline.Leads.weaken hx.leads fun _ _ hq => ⟨hq.1, fun a h => imp a (hq.2 a h)⟩⟩

private theorem remains_liftResult {r : Except ε α} :
    Remains ι platform cases request actor i seen (fun a => r = .ok a) (liftResult r) :=
  ⟨rfl, fun _ h => h⟩

private theorem remains_pure {φ : α → Prop} {a : α} (h : φ a) :
    Remains ι platform cases request actor i seen φ (pure a : UserAction ε α) :=
  ⟨rfl, fun _ ha => Except.ok.inj ha ▸ h⟩

private theorem remains_reject {c : Prop} [Decidable c] {e : ε} :
    Remains ι platform cases request actor i seen (fun _ => ¬ c) (reject c e) := by
  unfold reject
  split
  · exact ⟨rfl, fun _ h => (by cases h)⟩
  · rename_i h
    exact remains_pure h

private theorem remains_orElse {o : Option α} {e : ServerFnError} :
    Remains ι platform cases request actor i seen (fun a => o = some a) (orElse o e) := by
  cases o with
  | none => exact ⟨rfl, fun _ h => (by cases h)⟩
  | some a => exact ⟨rfl, fun _ h => congrArg some (Except.ok.inj h)⟩

private theorem remains_encryptPassword {password : String} :
    Remains ι platform cases request actor i seen (fun _ => True) (UserService.encryptPassword password) :=
  ⟨trivial, fun _ => ⟨rfl, fun _ _ => trivial⟩⟩

private theorem remains_loginUser {client : ClientId} {id : UserId} :
    Remains ι platform cases request actor i seen (fun _ => True) (UserService.loginUser client id) :=
  ⟨trivial, fun _ => ⟨rfl, fun _ _ => trivial⟩⟩

private theorem remains_findByUsername {username : String} :
    Remains ι platform cases request actor i seen (fun _ => True)
      (UserService.transact (.findByUsername username)) :=
  ⟨UserTxn.ready_of_reads rfl, fun _ => ⟨rfl, fun _ _ => trivial⟩⟩

private theorem remains_findByEmail {email : EmailAddress} :
    Remains ι platform cases request actor i seen (fun _ => True) (UserService.transact (.findByEmail email)) :=
  ⟨UserTxn.ready_of_reads rfl, fun _ => ⟨rfl, fun _ _ => trivial⟩⟩

private theorem remains_isValidLogin {username password : String} :
    Remains ι platform cases request actor i seen (fun _ => True) (isValidLogin platform username password) :=
  Remains.chain remains_findByUsername fun _ _ => remains_pure trivial

private theorem remains_newHash {password : Option String} :
    Remains ι platform cases request actor i seen (fun _ => True) (newHash password) := by
  cases password with
  | none => exact remains_pure trivial
  | some pw => exact Remains.chain (Remains.mapErr remains_encryptPassword) fun _ _ => remains_pure trivial

private theorem remains_newUser {username password email fullName : String}
    {capabilities : List Capability} {change : Bool} :
    Remains ι platform cases request actor i seen (fun u => u.capabilities = capabilities)
      (newUser username password email capabilities fullName change) := by
  refine Remains.chain remains_reject fun _ _ => Remains.chain remains_encryptPassword fun _ _ => ?_
  exact Remains.chain remains_liftResult fun _ _ => remains_pure rfl

private theorem remains_authenticatedUser :
    Remains ι platform cases request actor i seen (fun a => actor = some a) (authenticatedUser actor) :=
  Remains.imp remains_orElse fun _ h => (Option.filter_eq_some_iff.mp h).1

private theorem remains_requireAdmin : Remains ι platform cases request actor i seen
    (Administers actor) (requireAdmin actor) := by
  refine Remains.chain remains_authenticatedUser fun a ha => Remains.chain remains_reject
    fun _ allowed => remains_pure ⟨ha, ?_⟩
  by_contra hn
  exact allowed (by simpa [not_or] using hn)

/-- After a look-up the thread stands at the row that was found. -/
private theorem follows_found {id : UserId} {f : User → UserAction ServerFnError β}
    (hf : ∀ u, Follows ι platform cases request actor i ⟨some u, seen.nobody⟩ (f u)) :
    Follows ι platform cases request actor i seen (do
      let user ← mapErr toServerErr (UserService.transact (.findById id))
      let user ← orElse user "User not found"
      f user) := by
  refine ⟨Discipline.Leads.seq (Discipline.Leads.mapErr ⟨UserTxn.ready_of_reads rfl, fun reply => ?_⟩)⟩
  cases reply with
  | error e => trivial
  | ok found =>
    cases found with
    | none => trivial
    | some u => exact (hf u).leads

/-- After a listing the thread knows whether there was anybody. -/
private theorem follows_listed {pageSize : Option Nat} {f : List User → UserAction ServerFnError β}
    (hf : ∀ existing : List User, Follows ι platform cases request actor i ⟨seen.read, existing.isEmpty⟩ (f existing)) :
    Follows ι platform cases request actor i seen (do
      let existing ← mapErr toServerErr (UserService.transact (.listUsers none pageSize))
      f existing) := by
  refine ⟨Discipline.Leads.seq (Discipline.Leads.mapErr ⟨UserTxn.ready_of_reads rfl, fun reply => ?_⟩)⟩
  cases reply with
  | error e => trivial
  | ok existing => exact (hf existing).leads

/-- A write the request has checked for, whatever comes after it. -/
private theorem follows_write {t : UserTxn} {f : Error → ServerFnError} {g : t.Result → UserAction ServerFnError β}
    (ready : t.Ready request actor seen)
    (hg : ∀ r place, Follows ι platform cases request actor i place (g r)) :
    Follows ι platform cases request actor i seen (do
      let r ← mapErr f (UserService.transact t)
      g r) := by
  refine ⟨Discipline.Leads.seq (Discipline.Leads.mapErr ⟨ready, fun reply => ?_⟩)⟩
  cases reply with
  | error e => trivial
  | ok r => exact (hg r _).leads

private theorem follows_pure {a : α} : Follows ι platform cases request actor i seen
    (pure a : UserAction ε α) := ⟨trivial⟩

private theorem follows_performLogin {client : ClientId} {username password : String} :
    Follows ι platform cases request actor i seen (performLogin platform client username password) := by
  apply Remains.seq (Remains.mapErr remains_isValidLogin)
  intro user _
  apply Remains.seq remains_orElse
  intro user _
  split
  · exact follows_pure
  · exact Remains.seq remains_loginUser fun _ _ => follows_pure

private theorem follows_oidcCallback {client : ClientId} {email : String} :
    Follows ι platform cases request actor i seen (oidcCallback client email) := by
  refine Remains.seq (Remains.mapErr remains_liftResult) fun email _ => Remains.seq
    (Remains.mapErr remains_findByEmail) fun user _ => ?_
  exact Remains.seq remains_orElse fun user _ => Remains.seq remains_loginUser fun _ _ => follows_pure

private theorem follows_listUsersAdmin : Follows ι platform cases request actor i seen
    (listUsersAdmin platform actor) :=
  Remains.seq remains_requireAdmin fun _ _ => follows_listed fun _ => follows_pure

/-- An update by a request that is no administrator's, with the capabilities of the row it has looked up. -/
private theorem ready_updateUser {u user : User} {nobody : Bool} (plain : ¬ request.Administrative)
    (hid : u.id = user.id)
    (hv : u.version = user.version) (caps : user.capabilities = u.capabilities) :
    (UserTxn.updateUser user).Ready request actor ⟨some u, nobody⟩ where
  authorised admin := absurd admin plain
  adds _ h := by cases h
  updates _ h := by
    cases h
    exact ⟨u, rfl, hid, hv, by rw [caps]⟩
  deletes _ h := by cases h

private theorem follows_changeInitialPassword {token newPassword : String} (plain : ¬ request.Administrative) :
    Follows ι platform cases request actor i seen (changeInitialPassword platform token newPassword) := by
  refine Remains.seq remains_reject fun _ _ => Remains.seq (Remains.mapErr remains_liftResult)
    fun id _ => follows_found fun u => ?_
  refine Remains.seq remains_reject fun _ _ => Remains.seq (Remains.mapErr remains_encryptPassword) fun hash _ => ?_
  exact follows_write (ready_updateUser plain rfl rfl rfl) fun _ _ => follows_pure

private theorem follows_updateProfile {fullName email : String} (plain : ¬ request.Administrative) :
    Follows ι platform cases request actor i seen (updateProfile actor fullName email) := by
  refine Remains.seq remains_reject fun _ _ => Remains.seq (Remains.mapErr remains_liftResult) fun address _ => ?_
  refine Remains.seq remains_authenticatedUser fun _ _ => follows_found fun u => ?_
  exact follows_write (ready_updateUser plain rfl rfl rfl) fun _ _ => follows_pure

private theorem follows_changePassword {current newPassword : String} (plain : ¬ request.Administrative) :
    Follows ι platform cases request actor i seen (changePassword platform actor current newPassword) := by
  refine Remains.seq remains_reject fun _ _ => Remains.seq remains_authenticatedUser
    fun _ _ => follows_found fun u => ?_
  refine Remains.seq remains_reject fun _ _ => Remains.seq (Remains.mapErr remains_encryptPassword) fun hash _ => ?_
  exact follows_write (ready_updateUser plain rfl rfl rfl) fun _ _ => follows_pure

private theorem follows_registerAdmin {client : ClientId} {username fullName password email : String}
    (first : request.Bootstraps) (adds : ¬ request.Edits) (plain : ¬ request.Administrative) :
    Follows ι platform cases request actor i seen (registerAdmin client username fullName password email) := by
  refine follows_listed fun existing => Remains.seq remains_reject fun _ none => ?_
  refine Remains.seq (Remains.mapErr remains_newUser) fun user hc => follows_write ?_ fun _ _ => ?_
  · have empty : existing.isEmpty = true := List.isEmpty_iff.mpr (not_not.mp none)
    refine ⟨fun admin => absurd admin plain, fun _ h => ?_, fun _ h => (by cases h), fun _ h => (by cases h)⟩
    cases h
    exact ⟨adds, fun _ => ⟨empty, by simp [hc]⟩, absurd first⟩
  · exact Remains.seq remains_loginUser fun _ _ => follows_pure

private theorem follows_adminCreateUser {username fullName email password : String} {capabilities : List String}
    (later : ¬ request.Bootstraps) (adds : ¬ request.Edits) :
    Follows ι platform cases request actor i seen
      (adminCreateUser platform actor username fullName email password capabilities) := by
  refine Remains.seq remains_requireAdmin fun a ha => Remains.seq remains_liftResult fun caps _ => ?_
  refine Remains.seq remains_reject fun _ notSuper => Remains.seq remains_reject fun _ adminBySuper => ?_
  refine Remains.seq (Remains.mapErr remains_newUser) fun user hc => follows_write ?_ fun _ _ => follows_pure
  refine ⟨fun _ _ h => ?_, fun _ h => ?_, fun _ h => (by cases h), fun _ h => (by cases h)⟩
  · cases h
    rw [hc]
    exact ⟨a, ha, fun h => by simpa [h.resolve_left notSuper] using adminBySuper⟩
  · cases h
    exact ⟨adds, fun first => absurd first later, fun _ => hc ▸ notSuper⟩

private theorem follows_adminDeleteUser {token : String} :
    Follows ι platform cases request actor i seen (adminDeleteUser platform actor token) := by
  refine Remains.seq remains_requireAdmin fun a ha => Remains.seq remains_reject fun _ _ => ?_
  refine Remains.seq (Remains.mapErr remains_liftResult) fun id _ => follows_found fun u => ?_
  refine Remains.seq remains_reject fun _ notSuper => follows_write ?_ fun _ _ => follows_pure
  refine ⟨fun _ _ h => ?_, fun _ h => (by cases h), fun _ h => (by cases h), fun _ h => ?_⟩
  · cases h
    exact ⟨a, ha, fun h => by simp at h⟩
  · cases h
    exact ⟨u, rfl, rfl, notSuper⟩

private theorem follows_adminUpdateUser {token fullName email : String} {password : Option String}
    {capabilities : List String} :
    Follows ι platform cases request actor i seen
      (adminUpdateUser platform actor token fullName email password capabilities) := by
  refine Remains.seq remains_requireAdmin fun a ha => Remains.seq (Remains.mapErr remains_liftResult) fun id _ => ?_
  refine follows_found fun u => Remains.seq remains_reject
    fun _ superBySuper => Remains.seq remains_liftResult fun caps _ => ?_
  refine Remains.seq remains_reject fun _ noNewSuper => Remains.seq remains_reject fun _ noLostSuper => ?_
  refine Remains.seq remains_reject fun _ adminBySuper => Remains.seq remains_reject fun _ _ => ?_
  refine Remains.seq (Remains.mapErr remains_liftResult) fun address _ => Remains.seq remains_newHash
    fun hash _ => ?_
  refine follows_write ?_ fun _ _ => follows_pure
  have same : .superAdmin ∈ caps ↔ .superAdmin ∈ u.capabilities :=
    ⟨fun h => by_contra fun hn => noNewSuper ⟨h, hn⟩, fun h => by_contra fun hn => noLostSuper ⟨h, hn⟩⟩
  refine ⟨fun _ _ h => ?_, fun _ h => (by cases h), fun _ h => ?_, fun _ h => (by cases h)⟩
  · cases h
    rw [editedUser_capabilities]
    refine ⟨a, ha, fun h => ?_⟩
    rcases h with h | h
    · simpa [same.mp h] using superBySuper
    · simpa [h] using adminBySuper
  · cases h
    exact ⟨u, rfl, by rw [editedUser_id], by rw [editedUser_version], by rw [editedUser_capabilities]; exact same⟩

private theorem follows_handle (client : ClientId) :
    Follows ι platform cases request actor i seen (request.handle platform client actor) := by
  cases request with
  | performLogin => exact follows_performLogin
  | oidcCallback => exact follows_oidcCallback
  | registerAdmin => exact follows_registerAdmin trivial id id
  | changeInitialPassword => exact follows_changeInitialPassword id
  | updateProfile => exact follows_updateProfile id
  | changePassword => exact follows_changePassword id
  | listUsersAdmin => exact follows_listUsersAdmin
  | adminCreateUser => exact follows_adminCreateUser id id
  | adminUpdateUser => exact follows_adminUpdateUser
  | adminDeleteUser => exact follows_adminDeleteUser

/-- Every request has checked what its writes need. -/
theorem Request.follows (client : ClientId) :
    (userPlaces ι platform cases request actor).Leads i (fun _ _ => True) seen
      (request.handle platform client actor).run :=
  (follows_handle client).leads

end
end MailKeep
