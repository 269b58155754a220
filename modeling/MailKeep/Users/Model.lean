import MailKeep.Core.Query
import MailKeep.Keyed.Table

/-! The users of the server, and what a session knows of the one who logged in. -/
namespace MailKeep

inductive Capability
  | admin
  | superAdmin
deriving DecidableEq

def Capability.asStr : Capability → String
  | admin => "Admin"
  | superAdmin => "SuperAdmin"

structure EmailAddress where
  text : String
  valid : '@' ∈ text.toList
deriving DecidableEq

def EmailAddress.new (email : String) : Except Error EmailAddress :=
  if h : '@' ∈ email.toList then .ok ⟨email, h⟩ else .error (.validation ("Invalid email format: " ++ email))

/-- A user row; the capabilities stand in the order the column's text has them. -/
structure User where
  id : UserId
  version : Nat
  username : String
  fullName : String
  passwordHash : String
  emailAddress : EmailAddress
  capabilities : List Capability
  changePasswordOnLogin : Bool
deriving DecidableEq

structure NewUser where
  username : String
  fullName : String
  passwordHash : String
  emailAddress : EmailAddress
  capabilities : List Capability
  changePasswordOnLogin : Bool
deriving DecidableEq

structure AuthUser where
  id : UserId
  username : String
  permissions : List String
deriving DecidableEq

/-- `load_user` on the row it finds. -/
def User.authUser (u : User) : AuthUser := ⟨u.id, u.username, u.capabilities.map Capability.asStr⟩

def AuthUser.has (actor : AuthUser) (c : Capability) : Bool := actor.permissions.contains c.asStr

theorem User.authUser_has (u : User) (c : Capability) : u.authUser.has c = true ↔ c ∈ u.capabilities := by
  have inj : ∀ a b : Capability, a.asStr = b.asStr → a = b := by
    intro a b
    cases a <;> cases b <;> simp [Capability.asStr]
  rw [AuthUser.has, List.contains_iff_mem, User.authUser, List.mem_map]
  constructor
  · rintro ⟨a, ha, he⟩
    exact inj a c he ▸ ha
  · exact fun h => ⟨c, h, rfl⟩

/-- What the server takes from the hashing and token libraries: a salted hash of a password, the
check of a password against a hash, and the text of a user's token. -/
structure Platform where
  encryptPassword : (salt password : String) → Except Error String
  verifyPassword : (hash password : String) → Bool
  formatToken : UserId → String
  parseToken : String → Except Error UserId

def User.checkPassword (platform : Platform) (u : User) (password : String) : Bool :=
  platform.verifyPassword u.passwordHash password

end MailKeep
