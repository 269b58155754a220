import MailKeep.Users.Repository
import MailKeep.Unicode.LetterCase
import MailKeep.Database.Error
import MailKeep.Program.Safe

/-! The requests that log a user in, and those that write the users table. -/
namespace MailKeep
open Program

abbrev ServerFnError := String

def trimmed (s : String) : String := String.ofList (trim s.toList)

def isBlank (s : String) : Bool := (trimmed s).isEmpty

abbrev ClientId := Nat

/-- What a transaction on the users table draws: a fresh token, the order a set is written in, and
the row a query without an order finds first. -/
structure UserDraw where
  token : UserId
  swap : Bool
  pick : Nat

inductive UserTxn
  | findById (id : UserId)
  | findByUsername (username : String)
  | findByEmail (email : EmailAddress)
  | listUsers (startId : Option UserId) (pageSize : Option Nat)
  | addUser (user : NewUser)
  | updateUser (user : User)
  | deleteUser (id : UserId)

abbrev UserTxn.Result : UserTxn → Type
  | findById _ | findByUsername _ | findByEmail _ => Option User
  | listUsers _ _ => List User
  | addUser _ | updateUser _ | deleteUser _ => User

/-- `LOWER(username) = :name`, the name lower-cased by the caller. -/
def UserRepository.lowerNameEq (cases : Unicode.CaseData) (name : String) (u : User) : Bool :=
  Unicode.asciiLower u.username = cases.toLowercase name

def UserTxn.body (cases : Unicode.CaseData) (d : UserDraw) : (t : UserTxn) → UserTransaction t.Result
  | findById id => UserRepository.findById id
  | findByUsername username => fun users =>
    .ok (UserRepository.one d.pick (users.rows.filter (UserRepository.lowerNameEq cases username)), users)
  | findByEmail email => fun users => .ok (UserRepository.one d.pick (users.rows.filter (·.emailAddress = email)), users)
  | listUsers startId pageSize => UserRepository.listUsers startId pageSize
  | addUser user => UserRepository.addUser d.token d.swap user
  | updateUser user => UserRepository.updateUser d.swap user
  | deleteUser id => UserRepository.deleteUser id

/-- Three of the transactions write. -/
theorem UserTxn.body_cases {cases : Unicode.CaseData} {d : UserDraw} {t : UserTxn} {r : t.Result}
    {users users' : Users} (h : t.body cases d users = .ok (r, users')) :
    users' = users ∨ (∃ user, t = .addUser user) ∨ (∃ user, t = .updateUser user) ∨ ∃ id, t = .deleteUser id := by
  cases t with
  | findById id => exact .inl (UserRepository.findById_ok h).1
  | findByUsername | findByEmail =>
    cases h
    exact .inl rfl
  | listUsers => exact .inl (UserRepository.listUsers_ok h)
  | addUser user => exact .inr (.inl ⟨user, rfl⟩)
  | updateUser user => exact .inr (.inr (.inl ⟨user, rfl⟩))
  | deleteUser id => exact .inr (.inr (.inr ⟨id, rfl⟩))

structure Server where
  users : Users
  login : ClientId → Option UserId

inductive UserOp
  | transact (t : UserTxn)
  | encryptPassword (password : String)
  | loginUser (client : ClientId) (id : UserId)

abbrev UserOp.Value : UserOp → Type
  | transact t => Except Error t.Result
  | encryptPassword _ => Except Error String
  | loginUser _ _ => Unit

/-- A transaction may fail; a hash takes its salt from the system. -/
abbrev UserOp.Choice : UserOp → Type
  | transact _ => Except DbErr UserDraw
  | encryptPassword _ => String
  | loginUser _ _ => Unit

def Server.transact (cases : Unicode.CaseData) (s : Server) (t : UserTxn) :
    Except DbErr UserDraw → Except Error t.Result × Server
  | .error e => (.error (.repositoryError (handleDberr e)), s)
  | .ok d =>
    match t.body cases d s.users with
    | .error e => (.error e, s)
    | .ok (r, users) => (.ok r, { s with users := users })

abbrev userSignature : Signature := ⟨UserOp, UserOp.Value⟩

abbrev userStore (platform : Platform) (cases : Unicode.CaseData) : Machine where
  toSignature := userSignature
  State := Server
  Choice := UserOp.Choice
  exec
    | .transact t, c, s => s.transact cases t c
    | .encryptPassword password, salt, s => (platform.encryptPassword salt password, s)
    | .loginUser client id, _, s => ((), { s with login := Function.update s.login client (some id) })

abbrev UserAction (ε α : Type) := Action userSignature ε α

namespace UserService

def transact (t : UserTxn) : UserAction Error t.Result := .mk (.call (UserOp.transact t) .ret)

def encryptPassword (password : String) : UserAction Error String :=
  .mk (.call (UserOp.encryptPassword password) .ret)

def loginUser (client : ClientId) (id : UserId) : UserAction ServerFnError Unit :=
  .mk (.call (UserOp.loginUser client id) fun _ => .ret (.ok ()))

end UserService
open UserService

section
variable (platform : Platform)

/-- `NewUser::new`. -/
def newUser (username password email : String) (capabilities : List Capability) (fullName : String)
    (changePasswordOnLogin : Bool) : UserAction Error NewUser := do
  reject (isBlank fullName) (.validation "Full name is required")
  let passwordHash ← encryptPassword password
  let emailAddress ← liftResult (EmailAddress.new email)
  return ⟨username, fullName, passwordHash, emailAddress, capabilities, changePasswordOnLogin⟩

def isValidLogin (username password : String) : UserAction Error (Option User) := do
  let user ← transact (.findByUsername username)
  return user.filter (·.checkPassword platform password)

def isValidEmail (email : EmailAddress) : UserAction Error (Option User) := transact (.findByEmail email)

structure UserAdminRow where
  token : String
  username : String
  fullName : String
  email : String
  capabilities : List String

inductive Reply
  | done
  | login (token : Option String)
  | created (token : String)
  | listed (rows : List UserAdminRow)

def orElse (o : Option α) (e : ServerFnError) : UserAction ServerFnError α := liftResult (o.elim (.error e) .ok)

/-- The text `to_server_err` keeps. -/
def toServerErr : Error → ServerFnError := Error.text

def performLogin (client : ClientId) (username password : String) : UserAction ServerFnError Reply := do
  let user ← mapErr toServerErr (isValidLogin platform username password)
  let user ← orElse user "Invalid username or password"
  if user.changePasswordOnLogin then
    return .login (some (platform.formatToken user.id))
  else
    loginUser client user.id
    return .login none

/-- The end of the single sign-on callback, once the provider has vouched for the address. -/
def oidcCallback (client : ClientId) (email : String) : UserAction ServerFnError Reply := do
  let email ← mapErr toServerErr (liftResult (EmailAddress.new email))
  let user ← mapErr toServerErr (isValidEmail email)
  let user ← orElse user "Sign-in failed"
  loginUser client user.id
  return .done

def registerAdmin (client : ClientId) (username fullName password email : String) :
    UserAction ServerFnError Reply := do
  let existing ← mapErr toServerErr (transact (.listUsers none (some 1)))
  reject (existing ≠ []) "Admin already exists"
  let user ← mapErr toServerErr (newUser username password email [.superAdmin] fullName false)
  let user ← mapErr toServerErr (transact (.addUser user))
  loginUser client user.id
  return .done

def changeInitialPassword (token newPassword : String) : UserAction ServerFnError Reply := do
  reject (isBlank newPassword) "Password must not be empty"
  let userToken ← mapErr toServerErr (liftResult (platform.parseToken token))
  let user ← mapErr toServerErr (transact (.findById userToken))
  let user ← orElse user "User not found"
  reject (user.changePasswordOnLogin = false) "Password change is not pending for this account"
  let newHash ← mapErr toServerErr (encryptPassword newPassword)
  let _ ← mapErr toServerErr
    (transact (.updateUser { user with passwordHash := newHash, changePasswordOnLogin := false }))
  return .done

def authenticatedUser (actor : Option AuthUser) : UserAction ServerFnError AuthUser :=
  orElse (actor.filter (·.username ≠ "")) "Not authenticated"

def updateProfile (actor : Option AuthUser) (fullName email : String) : UserAction ServerFnError Reply := do
  reject (isBlank fullName) "Full name must not be empty"
  let emailAddress ← mapErr toServerErr (liftResult (EmailAddress.new email))
  let actor ← authenticatedUser actor
  let existing ← mapErr toServerErr (transact (.findById actor.id))
  let existing ← orElse existing "User not found"
  let _ ← mapErr toServerErr
    (transact (.updateUser { existing with fullName := trimmed fullName, emailAddress := emailAddress }))
  return .done

def changePassword (actor : Option AuthUser) (current newPassword : String) : UserAction ServerFnError Reply := do
  reject (isBlank newPassword) "New password must not be empty"
  let actor ← authenticatedUser actor
  let existing ← mapErr toServerErr (transact (.findById actor.id))
  let existing ← orElse existing "User not found"
  reject (existing.checkPassword platform current = false) "Current password is incorrect"
  let newHash ← mapErr toServerErr (encryptPassword newPassword)
  let _ ← mapErr toServerErr (transact (.updateUser { existing with passwordHash := newHash }))
  return .done

def roleSortKey (capabilities : List Capability) : Nat :=
  if .superAdmin ∈ capabilities then 0 else if .admin ∈ capabilities then 1 else 2

def requireAdmin (actor : Option AuthUser) : UserAction ServerFnError AuthUser := do
  let actor ← authenticatedUser actor
  reject (actor.has .superAdmin = false ∧ actor.has .admin = false) "Insufficient permissions"
  return actor

def listUsersAdmin (actor : Option AuthUser) : UserAction ServerFnError Reply := do
  let _ ← requireAdmin actor
  let users ← mapErr toServerErr (transact (.listUsers none none))
  let sorted := users.mergeSort fun a b =>
    roleSortKey a.capabilities < roleSortKey b.capabilities ||
      roleSortKey a.capabilities = roleSortKey b.capabilities && decide (a.username ≤ b.username)
  return .listed (sorted.map fun u =>
    ⟨platform.formatToken u.id, u.username, u.fullName, u.emailAddress.text, u.capabilities.map Capability.asStr⟩)

def parseCapability (s : String) : Except ServerFnError Capability :=
  if s = "Admin" then .ok .admin
  else if s = "SuperAdmin" then .ok .superAdmin
  else .error ("Unknown capability: " ++ s)

def parseCapabilities (capabilities : List String) : Except ServerFnError (List Capability) := do
  return (← capabilities.mapM parseCapability).dedup

def createErr (e : Error) : ServerFnError :=
  let msg := e.text
  if ["Constraint", "unique", "duplicate"].any fun word => decide (word.toList <:+: msg.toList) then
    "Username or email address is already in use"
  else msg

def adminCreateUser (actor : Option AuthUser) (username fullName email password : String)
    (capabilities : List String) :
    UserAction ServerFnError Reply := do
  let actor ← requireAdmin actor
  let caps ← liftResult (parseCapabilities capabilities)
  reject (.superAdmin ∈ caps) "Cannot assign Super Admin role"
  reject (.admin ∈ caps ∧ actor.has .superAdmin = false) "Only Super Admin can create Admin users"
  let user ← mapErr createErr (newUser username password email caps fullName true)
  let user ← mapErr createErr (transact (.addUser user))
  return .created (platform.formatToken user.id)

/-- The row an administrator leaves: a new password that is not the actor's own has to be changed. -/
def editedUser (actor : AuthUser) (token : String) (user : User) : Option String → User
  | none => user
  | some hash =>
    { user with
      passwordHash := hash
      changePasswordOnLogin := user.changePasswordOnLogin || decide (platform.formatToken actor.id ≠ token) }

theorem editedUser_id (actor : AuthUser) (token : String) (user : User) (hash : Option String) :
    (editedUser platform actor token user hash).id = user.id := by
  cases hash <;> rfl

theorem editedUser_capabilities (actor : AuthUser) (token : String) (user : User) (hash : Option String) :
    (editedUser platform actor token user hash).capabilities = user.capabilities := by
  cases hash <;> rfl

theorem editedUser_version (actor : AuthUser) (token : String) (user : User) (hash : Option String) :
    (editedUser platform actor token user hash).version = user.version := by
  cases hash <;> rfl

def newHash : Option String → UserAction ServerFnError (Option String)
  | none => pure none
  | some pw => do return some (← mapErr toServerErr (encryptPassword pw))

def adminUpdateUser (actor : Option AuthUser) (token fullName email : String) (password : Option String)
    (capabilities : List String) : UserAction ServerFnError Reply := do
  let actor ← requireAdmin actor
  let userToken ← mapErr (fun _ => "Invalid user token") (liftResult (platform.parseToken token))
  let user ← mapErr toServerErr (transact (.findById userToken))
  let user ← orElse user "User not found"
  reject (.superAdmin ∈ user.capabilities ∧ actor.has .superAdmin = false)
    "Only Super Admin can edit a Super Admin user"
  let newCaps ← liftResult (parseCapabilities capabilities)
  reject (.superAdmin ∈ newCaps ∧ .superAdmin ∉ user.capabilities) "Cannot assign Super Admin role"
  reject (.superAdmin ∈ user.capabilities ∧ .superAdmin ∉ newCaps) "Cannot remove Super Admin role"
  reject (.admin ∈ newCaps ∧ actor.has .superAdmin = false) "Only Super Admin can assign Admin role"
  reject (isBlank fullName) "Full name is required"
  let emailAddress ← mapErr toServerErr (liftResult (EmailAddress.new email))
  let newHash ← newHash (password.filter (· ≠ ""))
  let _ ← mapErr toServerErr (transact (.updateUser (editedUser platform actor token
    { user with fullName := trimmed fullName, emailAddress := emailAddress, capabilities := newCaps } newHash)))
  return .done

def adminDeleteUser (actor : Option AuthUser) (token : String) : UserAction ServerFnError Reply := do
  let actor ← requireAdmin actor
  reject (platform.formatToken actor.id = token) "You cannot delete your own account"
  let userToken ← mapErr (fun _ => "Invalid user token") (liftResult (platform.parseToken token))
  let user ← mapErr toServerErr (transact (.findById userToken))
  let user ← orElse user "User not found"
  reject (.superAdmin ∈ user.capabilities) "Cannot delete the Super Admin user"
  let _ ← mapErr toServerErr (transact (.deleteUser user.id))
  return .done

end
end MailKeep
