import MailKeep.Users.Model
import MailKeep.Database.Recording
import MailKeep.Ranked.Page

/-! The users table and the transactions on it. -/
namespace MailKeep

/-- The users table: ids, user names and email addresses are unique, compared exactly. -/
structure Users extends Keyed.Table User.id where
  usernames : (rows.map User.username).Nodup
  emails : (rows.map User.emailAddress).Nodup

namespace Users

instance : Membership User Users := ⟨fun t u => u ∈ t.toTable⟩

theorem mem_def {t : Users} {u : User} : u ∈ t ↔ u ∈ t.toTable := Iff.rfl

def empty : Users := ⟨.empty, List.nodup_nil, List.nodup_nil⟩

theorem eq_of_username {t : Users} {u v : User} (hu : u ∈ t) (hv : v ∈ t) (h : u.username = v.username) : u = v :=
  List.inj_on_of_nodup_map t.usernames hu hv h

theorem eq_of_id {t : Users} {u v : User} (hu : u ∈ t) (hv : v ∈ t) (h : u.id = v.id) : u = v :=
  Keyed.Table.eq_of_key (t := t.toTable) hu hv h

def ofTable (t : Keyed.Table User.id) : Except Error Users :=
  if h : (t.rows.map User.username).Nodup then
    if h' : (t.rows.map User.emailAddress).Nodup then .ok ⟨t, h, h'⟩
    else .error (constraintError "UNIQUE constraint failed: users.email_address")
  else .error (constraintError "UNIQUE constraint failed: users.username")

private theorem ofTable_ok {t : Keyed.Table User.id} {users : Users} (h : ofTable t = .ok users) :
    users.toTable = t := by
  unfold ofTable at h
  split at h
  · split at h <;> cases h
    rfl
  · cases h

end Users

abbrev UserTransaction (α : Type) := StateT Users (Except Error) α

namespace UserRepository

/-- A set of at most two is written in one order or the other. -/
def serialize (swap : Bool) (capabilities : List Capability) : List Capability :=
  if swap then capabilities.reverse else capabilities

@[simp] theorem mem_serialize {swap : Bool} {capabilities : List Capability} {c : Capability} :
    c ∈ serialize swap capabilities ↔ c ∈ capabilities := by
  unfold serialize
  split <;> simp

def addUser (token : UserId) (swap : Bool) (user : NewUser) : UserTransaction User := fun users =>
  let model : User := {
    id := token, version := 1, username := user.username, fullName := user.fullName, passwordHash :=
      user.passwordHash
    emailAddress := user.emailAddress, capabilities := serialize swap user.capabilities
    changePasswordOnLogin := user.changePasswordOnLogin }
  match users.insert model with
  | none => .error (constraintError "UNIQUE constraint failed: users.id")
  | some t => do return (model, ← Users.ofTable t)

/-- The row after an update: a row that changes gets a new version. -/
def updated (swap : Bool) (existing user : User) : User :=
  let changed := { user with id := existing.id, version := existing.version, capabilities := serialize swap user.capabilities }
  if changed = existing then existing else { changed with version := existing.version + 1 }

theorem updated_id (swap : Bool) (existing user : User) : (updated swap existing user).id = existing.id := by
  unfold updated
  dsimp only
  split <;> rfl

/-- Apart from its version the row is what the caller asked for. -/
theorem updated_eq (swap : Bool) (existing user : User) :
    ∃ version, updated swap existing user =
      { user with id := existing.id, version := version, capabilities := serialize swap user.capabilities } := by
  unfold updated
  dsimp only
  split
  · rename_i h
    exact ⟨existing.version, h.symm⟩
  · exact ⟨existing.version + 1, rfl⟩

def updateUser (swap : Bool) (user : User) : UserTransaction User := fun users =>
  if user.id = 0 then .error (.invalidId user.id)
  else match users.find? user.id with
  | none => .error (.repositoryError .notFound)
  | some existing =>
    if existing.version ≠ user.version then .error (.repositoryError .conflict)
    else do
      let t ← Users.ofTable (users.update (·.id = existing.id) (updated swap · user) (updated_id swap · user))
      return (updated swap existing user, t)

def findById (id : UserId) : UserTransaction (Option User) := fun users =>
  if id = 0 then .error (.invalidId id) else .ok (users.find? id, users)

/-- The user service finds the row and hands it to the repository in one transaction. -/
def deleteUser (id : UserId) : UserTransaction User := fun users =>
  if id = 0 then .error (.invalidId id)
  else match users.find? id with
  | none => .error (.repositoryError .notFound)
  | some existing => do return (existing, ← Users.ofTable (users.filter (·.id ≠ id)))

def deleteRow (user : User) : UserTransaction User := fun users =>
  if user.id = 0 then .error (.invalidId user.id)
  else match users.find? user.id with
  | none => .error (.repositoryError .notFound)
  | some existing =>
    if existing.version ≠ user.version then .error (.repositoryError .conflict)
    else do return (existing, ← Users.ofTable (users.filter (·.id ≠ user.id)))

def listUsers (startId : Option UserId) (pageSize : Option Nat) : UserTransaction (List User) := fun users =>
  if pageSize = some 0 then .error (.invalidPageSize 0)
  else
    let sorted := Ranked.sortDesc (fun u => OrderDual.toDual u.id) users.rows
    let fromStart := sorted.filter fun u => decide (startId.getD 0 ≤ u.id)
    .ok (match pageSize with
      | none => fromStart
      | some n => fromStart.take n, users)

/-- One of the rows a filter leaves: without an order, which one is up to the store. -/
def one (pick : Nat) (rows : List User) : Option User := rows[pick % rows.length]?

theorem one_eq_some {pick : Nat} {rows : List User} {u : User} (h : one pick rows = some u) : u ∈ rows :=
  List.mem_of_getElem? h

/-- Every row the filter leaves may be the one. -/
theorem one_surjective {rows : List User} {u : User} (h : u ∈ rows) : ∃ pick, one pick rows = some u := by
  obtain ⟨i, hi, he⟩ := List.getElem_of_mem h
  exact ⟨i, by rw [one, Nat.mod_eq_of_lt hi, List.getElem?_eq_getElem hi, he]⟩

theorem one_eq_none {pick : Nat} {rows : List User} : one pick rows = none ↔ rows = [] := by
  rw [one, List.getElem?_eq_none_iff]
  constructor
  · intro h
    by_contra hne
    exact absurd (Nat.mod_lt pick (List.length_pos_iff.mpr hne)) (by omega)
  · rintro rfl
    simp

theorem addUser_ok {token : UserId} {swap : Bool} {user : NewUser} {users users' : Users} {u : User}
    (h : addUser token swap user users = .ok (u, users')) :
    u.id = token ∧ u.username = user.username ∧ u.passwordHash = user.passwordHash ∧
      u.capabilities = serialize swap user.capabilities ∧ (∀ v ∈ users, v.id ≠ token) ∧
      ∀ v, v ∈ users' ↔ v ∈ users ∨ v = u := by
  simp only [addUser] at h
  split at h
  · cases h
  · rename_i t ht
    cases hu : Users.ofTable t with
    | error e =>
      rw [hu] at h
      cases h
    | ok t' =>
      rw [hu] at h
      cases h
      refine ⟨rfl, rfl, rfl, rfl, (Keyed.Table.insert_eq_some ht).1, fun v => ?_⟩
      rw [Users.mem_def, Users.ofTable_ok hu]
      exact Keyed.Table.mem_of_insert ht

/-- An update rewrites the row whose version the caller read. -/
theorem updateUser_ok {swap : Bool} {user u : User} {users users' : Users}
    (h : updateUser swap user users = .ok (u, users')) :
    ∃ existing ∈ users, existing.id = user.id ∧ existing.version = user.version ∧ u = updated swap existing user ∧
      ∀ v, v ∈ users' ↔ v = u ∨ v ∈ users ∧ v.id ≠ user.id := by
  unfold updateUser at h
  split at h
  · cases h
  · split at h
    · cases h
    · rename_i existing hf
      obtain ⟨hm, hid⟩ := Keyed.Table.find?_eq_some.mp hf
      split at h
      · cases h
      · rename_i hv
        cases hu : Users.ofTable (users.update (·.id = existing.id) (updated swap · user) (updated_id swap · user)) with
        | error e =>
          rw [hu] at h
          cases h
        | ok t =>
          rw [hu] at h
          cases h
          refine ⟨existing, hm, hid, not_not.mp hv, rfl, fun v => ?_⟩
          rw [Users.mem_def, Users.ofTable_ok hu, ← hid]
          exact Keyed.Table.mem_update_one hm fun r' _ => by simp

theorem deleteUser_ok {id : UserId} {u : User} {users users' : Users} (h : deleteUser id users = .ok (u, users')) :
    u ∈ users ∧ u.id = id ∧ ∀ v, v ∈ users' ↔ v ∈ users ∧ v.id ≠ id := by
  unfold deleteUser at h
  split at h
  · cases h
  · split at h
    · cases h
    · rename_i existing hf
      obtain ⟨hm, hid⟩ := Keyed.Table.find?_eq_some.mp hf
      cases hu : Users.ofTable (users.filter (·.id ≠ id)) with
      | error e =>
        rw [hu] at h
        cases h
      | ok t =>
        rw [hu] at h
        cases h
        refine ⟨hm, hid, fun v => ?_⟩
        rw [Users.mem_def, Users.ofTable_ok hu, Keyed.Table.mem_filter]
        simp [Users.mem_def]

private theorem deleteUser_eq (id : UserId) : deleteUser id = (do
    match ← findById id with
    | some user => deleteRow user
    | none => fun _ => .error (.repositoryError .notFound)) := by
  funext users
  change deleteUser id users = findById id users >>= _
  unfold deleteUser findById
  split
  · rfl
  · rename_i valid
    cases hf : users.find? id with
    | none => rfl
    | some existing =>
      obtain ⟨-, rfl⟩ := Keyed.Table.find?_eq_some.mp hf
      change _ = deleteRow existing users
      unfold deleteRow
      rw [if_neg valid, hf]
      exact (if_neg (not_not.mpr rfl)).symm

/-- The row a deletion deletes is the one it has found. -/
theorem deleteUser_parts {id : UserId} {u : User} {users users' : Users}
    (h : deleteUser id users = .ok (u, users')) :
    findById id users = .ok (some u, users) ∧ deleteRow u users = .ok (u, users') := by
  obtain ⟨hu, hid, -⟩ := deleteUser_ok h
  have valid : id ≠ 0 := by
    rintro rfl
    cases h
  have found : findById id users = .ok (some u, users) := by
    unfold findById
    rw [if_neg valid, Keyed.Table.find?_eq_some.mpr ⟨hu, hid⟩]
  refine ⟨found, ?_⟩
  rw [deleteUser_eq] at h
  change (findById id users >>= _) = _ at h
  rw [found] at h
  exact h

theorem updateUser_stale {swap : Bool} {user u : User} {users : Users} (hu : u ∈ users) (hid : u.id = user.id)
    (valid : user.id ≠ 0) (stale : u.version ≠ user.version) :
    updateUser swap user users = .error (.repositoryError .conflict) := by
  unfold updateUser
  rw [if_neg valid, Keyed.Table.find?_eq_some.mpr ⟨hu, hid⟩]
  exact if_pos stale

theorem deleteRow_stale {user u : User} {users : Users} (hu : u ∈ users) (hid : u.id = user.id)
    (valid : user.id ≠ 0) (stale : u.version ≠ user.version) :
    deleteRow user users = .error (.repositoryError .conflict) := by
  unfold deleteRow
  rw [if_neg valid, Keyed.Table.find?_eq_some.mpr ⟨hu, hid⟩]
  exact if_pos stale

theorem findById_ok {id : UserId} {users users' : Users} {found : Option User}
    (h : findById id users = .ok (found, users')) : users' = users ∧ found = users.find? id := by
  unfold findById at h
  split at h <;> cases h
  exact ⟨rfl, rfl⟩

theorem listUsers_ok {startId : Option UserId} {pageSize : Option Nat} {users users' : Users} {found : List User}
    (h : listUsers startId pageSize users = .ok (found, users')) : users' = users := by
  unfold listUsers at h
  split at h <;> cases h
  rfl

end UserRepository
end MailKeep
