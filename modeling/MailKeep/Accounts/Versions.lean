import MailKeep.Accounts.Disabled
import MailKeep.Keyed.Versioned

/-! Optimistic locking on accounts and users: who writes a row by its version writes the row he saw. -/
namespace MailKeep
open Program

/-- The account rows and the user rows have only moved on to higher versions, or gone. -/
structure Registry.Evolves {ι : Type} (s t : Registry ι) : Prop where
  accounts : s.accounts.Evolves Account.version t.accounts
  users : s.users.toTable.Evolves User.version t.users.toTable

namespace Registry.Evolves
variable {ι : Type} {s t u : Registry ι}

theorem refl (s : Registry ι) : s.Evolves s := ⟨.refl _, .refl _⟩

theorem trans (h : s.Evolves t) (h' : t.Evolves u) : s.Evolves u :=
  ⟨h.accounts.trans h'.accounts, h.users.trans h'.users⟩

end Registry.Evolves

theorem Database.evolves_update {db : Database} {accountId : AccountId} {f : Account → Account}
    {hf : ∀ a, (f a).id = a.id}
    (up : ∀ a, f a = a ∨ a.version < (f a).version) :
    db.accounts.Evolves Account.version (db.updateAccount accountId f hf).accounts :=
  .update hf fun a _ => up a

theorem AccountTxn.evolves {t : AccountTxn} {r : t.Result} {db db' : Database} (h : t.body db = .ok (r, db')) :
    db.accounts.Evolves Account.version db'.accounts := by
  have status (status : AccountStatus) (lastError : Option String) (a : Account) :
      a.setStatus status lastError = a ∨ a.version < (a.setStatus status lastError).version :=
        .inr (Nat.lt_succ_self _)
  have flags {db : Database} {accountId : AccountId} {enabled : Bool} {st : AccountStatus} :
      db.accounts.Evolves Account.version ((db.updateAccount accountId (·.setEnabled enabled) fun _ => rfl).updateAccount
        accountId (·.setStatus st none) fun _ => rfl).accounts :=
    (Database.evolves_update fun a => .inr (Nat.lt_succ_self _)).trans (Database.evolves_update (status st none))
  cases t with
  | listEnabled =>
    obtain ⟨rfl, -⟩ := AccountRepository.mem_listEnabled h
    exact .refl _
  | enable userId accountId =>
    rw [AccountService.setFlags_ok h]
    exact flags
  | disable userId accountId =>
    rw [AccountService.setFlags_ok h]
    exact flags
  | setStatus accountId st lastError =>
    rw [AccountRepository.rewrite_ok h]
    exact Database.evolves_update (status st lastError)
  | listEnabledFolders accountId =>
    change FolderRepository.listEnabledForAccount accountId db = _ at h
    unfold FolderRepository.listEnabledForAccount at h
    split at h <;> cases h
    exact .refl _

private theorem AccountService.updateAccount_evolves {userId : UserId} {accountId : AccountId} {expectedVersion : Nat}
    {change : PartialAccountUpdate} {account : Account} {db db' : Database}
    (h : AccountService.updateAccount userId accountId expectedVersion change db = .ok (account, db')) :
    db.accounts.Evolves Account.version db'.accounts := by
  obtain ⟨existing, -, -, -, -, -, rfl⟩ := updateAccount_ok h
  exact Database.evolves_update fun a => (change.applyTo existing).updated_version a

theorem UserRepository.updated_version (swap : Bool) (existing user : User) :
    updated swap existing user = existing ∨ existing.version < (updated swap existing user).version := by
  unfold updated
  dsimp only
  split
  · exact .inl rfl
  · exact .inr (Nat.lt_succ_self _)

/-- An update gives the row it names a new version, if it changes it at all. -/
private theorem UserRepository.updateUser_evolves {swap : Bool} {user u : User} {users users' : Users}
    (h : updateUser swap user users = .ok (u, users')) : users.toTable.Evolves User.version users'.toTable := by
  obtain ⟨existing, hm, hid, -, rfl, hmem⟩ := updateUser_ok h
  intro v hv
  rcases (hmem v).mp hv with rfl | ⟨hv, -⟩
  · exact ⟨existing, hm, (updated_id swap existing user).symm, (updated_version swap existing user).imp_left Eq.symm⟩
  · exact ⟨v, hv, rfl, .inl rfl⟩

private theorem UserRepository.deleteUser_evolves {id : UserId} {u : User} {users users' : Users}
    (h : deleteUser id users = .ok (u, users')) : users.toTable.Evolves User.version users'.toTable := by
  obtain ⟨_, _, hmem⟩ := deleteUser_ok h
  exact fun v hv => ⟨v, ((hmem v).mp hv).1, rfl, .inl rfl⟩

/-- Every transaction on users but the one that adds one. -/
theorem UserTxn.evolves {cases : Unicode.CaseData} {d : UserDraw} {t : UserTxn} {r : t.Result}
    {users users' : Users}
    (h : t.body cases d users = .ok (r, users')) (edits : ∀ user, t ≠ .addUser user) :
    users.toTable.Evolves User.version users'.toTable := by
  rcases UserTxn.body_cases h with rfl | ⟨user, rfl⟩ | ⟨user, rfl⟩ | ⟨id, rfl⟩
  · exact .refl _
  · exact absurd rfl (edits user)
  · exact UserRepository.updateUser_evolves h
  · exact UserRepository.deleteUser_evolves h

variable {ι : Type} [DecidableEq ι] {platform : Platform} {cases : Unicode.CaseData} {cipher : CredentialCipher}

private theorem transact_evolves {s : SyncHost ι} {me : ι} {t : AccountTxn} {c : Option DbErr} :
    s.db.accounts.Evolves Account.version (s.transact me t c).2.db.accounts := by
  unfold SyncHost.transact
  split
  · exact .refl _
  · split
    · exact .refl _
    · rename_i r db hb
      have noted : ({ s with db := db }.note me t).db = db := by
        cases t <;> rfl
      dsimp only
      rw [noted]
      exact AccountTxn.evolves hb

omit [DecidableEq ι] in
private theorem registry_evolves {s : Registry ι} {t : RegistryTxn} {c : Option DbErr}
    (plain : (RegistryOp.account t : RegistryOp ι).Plain) :
    s.Evolves (s.transact t c).2 ∧ (s.transact t c).2.users = s.users ∧ (s.transact t c).2.read = s.read := by
  unfold Registry.transact
  split
  · exact ⟨.refl _, rfl, rfl⟩
  · split
    · exact ⟨.refl _, rfl, rfl⟩
    · rename_i r db hb
      refine ⟨⟨?_, .refl _⟩, rfl, rfl⟩
      cases t with
      | insert new => exact plain.elim
      | createFolders accountId folders => exact plain.elim
      | update userId accountId expectedVersion change => exact AccountService.updateAccount_evolves hb
      | delete userId accountId =>
        obtain ⟨_, _, rfl⟩ := AccountService.deleteAccount_ok hb
        exact .filter _

/-- What a user operation that adds no user does to the two tables. -/
private theorem serve_evolves {s : Registry ι} {me : ι} {o : UserOp} {c : o.Choice}
    (edits : ∀ user, o ≠ .transact (.addUser user)) : s.Evolves (s.serve platform cases me o c).2 := by
  constructor
  · change s.accounts.Evolves Account.version (s.cascade o _).accounts
    unfold Registry.cascade
    split
    · exact .filter _
    · exact .refl _
  · change s.users.toTable.Evolves User.version ((userStore platform cases).exec o c s.server).2.users.toTable
    cases o with
    | transact t =>
      change s.users.toTable.Evolves User.version (s.server.transact cases t c).2.users.toTable
      unfold Server.transact
      split
      · exact .refl _
      · split
        · exact .refl _
        · rename_i r users hb
          exact UserTxn.evolves hb fun user ht => edits user (ht ▸ rfl)
    | encryptPassword _ | loginUser _ _ => exact .refl _

def RegistryOp.Ready (i : ι) (seen : Seen) : RegistryOp ι → Prop
  | user me o => me = i ∧ ∃ (request : Request) (actor : Option AuthUser), request.Edits ∧
    o.Ready request actor seen
  | o => o.Plain

/-- A thread's place in the registry is what it has seen of the users. -/
def versionPlaces (ι : Type) [DecidableEq ι] (platform : Platform) (cases : Unicode.CaseData)
    (cipher : CredentialCipher) :
    Discipline (registry ι platform cases cipher) ι Seen where
  start := ⟨none, false⟩
  ready i seen o := o.Ready i seen
  after
    | seen, .user _ o, reply => seen.after o reply
    | seen, _, _ => seen
  done _ := True

def Request.prog (platform : Platform) (me : ι) (client : ClientId) (actor : Option AuthUser) (request : Request) :
    Prog (registrySignature ι) RegistryEnd :=
  ((userPart me).act (request.handle platform client actor)).run >>= fun r => .ret (.answered r)

/-- Any number of calls on accounts and of requests that edit users, with any actors, in any order of steps. -/
def editorSystem (ι : Type) [DecidableEq ι] (platform : Platform) (cases : Unicode.CaseData)
    (cipher : CredentialCipher) :
    System (registry ι platform cases cipher) ι RegistryEnd where
  allowed
    | _, .sync .trackedAccounts, order => ∀ ids, (order ids).Perm ids
    | _, _, _ => True
  root _ i p := (∃ call : AccountCall, p = call.prog cipher i) ∨
    ∃ (request : Request) (client : ClientId) (actor : Option AuthUser), request.Edits ∧
      p = request.prog platform i client actor
  env _ _ := False
  crash _ _ := False

/-- The rows threads have looked up are rows of now or of a lower version. -/
structure Tracked (base s : Registry ι) (places : ι → Seen) : Prop where
  read : s.read = fun i => (places i).read
  seen : ∀ i u, s.read i = some u → ∀ v ∈ s.users, v.id = u.id → v = u ∨ u.version < v.version
  evolves : base.Evolves s

private theorem plain_fits {i : ι} {place : Seen} {p : Prog (registrySignature ι) RegistryEnd}
    (h : p.Only RegistryOp.Plain) : (versionPlaces ι platform cases cipher).Fits i place p := by
  refine Discipline.Leads.fits (Discipline.Leads.weaken (Discipline.Leads.of_only h fun q o plain => ?_) fun _ _ _ => trivial)
  cases o with
  | user me o => exact plain.elim
  | sync _ | account _ | sealPassword _ _ | accountToken | folderTokens _ => exact plain

private theorem request_fits {i : ι} {place : Seen} {request : Request} (edits : request.Edits) (client : ClientId)
    (actor : Option AuthUser) : (versionPlaces ι platform cases cipher).Fits i place
      (request.prog platform i client actor) := by
  have follows : (userPlaces ι platform cases request actor).Leads i (fun _ _ => True) place
      (request.handle platform client actor).run :=
    Request.follows client
  have embedded : (versionPlaces ι platform cases cipher).Leads i (fun _ _ => True) place
      ((request.handle platform client actor).run.embed (userPart i)) := by
    refine Discipline.Leads.embed (N := registry ι platform cases cipher) (userPart i) id
      (fun _ _ => True) ?_ ?_ follows
    · exact fun q o ready => ⟨rfl, request, actor, edits, ready⟩
    · exact fun q o r => rfl
  exact Discipline.Leads.fits (Discipline.Leads.bind (Discipline.Leads.weaken embedded fun r q _ => trivial))

namespace Tracked
variable {base s s' : Registry ι} {places : ι → Seen}

omit [DecidableEq ι] in
/-- An operation that looks nothing up. -/
theorem evolve (h : Tracked base s places) (evolves : s.Evolves s') (read : s'.read = s.read) :
    Tracked base s' places where
  read := read.trans h.read
  evolves := h.evolves.trans evolves
  seen i u hu v hv hid := by
    obtain ⟨w, hw, hk, he⟩ := evolves.users v hv
    have old := h.seen i u (read ▸ hu) w hw (hk.trans hid)
    rcases he with rfl | he
    · exact old
    · rcases old with rfl | lt
      · exact .inr he
      · exact .inr (lt.trans he)

/-- A thread that looks nothing up stays where it is. -/
theorem stay (h : Tracked base s places) (i : ι) : Tracked base s (Function.update places i (places i)) := by
  rw [Function.update_eq_self]
  exact h

/-- A user operation of a thread: what it looks up takes the place of what was found before. -/
theorem serve {i : ι} {o : UserOp} {c : o.Choice} (h : Tracked base s places)
    (edits : ∀ user, o ≠ .transact (.addUser user)) :
    Tracked base (s.serve platform cases i o c).2
      (Function.update places i ((places i).after o (s.serve platform cases i o c).1)) := by
  have evolves : s.Evolves (s.serve platform cases i o c).2 := serve_evolves edits
  have unread : Tracked base { (s.serve platform cases i o c).2 with read := s.read } places :=
    h.evolve ⟨evolves.accounts, evolves.users⟩ rfl
  have older := unread.seen
  refine ⟨funext fun j => ?_, fun j u hu v hv hid => ?_, h.evolves.trans evolves⟩
  · change Function.update s.read i (foundAfter (s.read i) o (s.serve platform cases i o c).1) j = _
    rw [h.read]
    by_cases hj : j = i
    · subst hj
      rw [Function.update_self, Function.update_self]
      rfl
    · rw [Function.update_of_ne hj, Function.update_of_ne hj]
  · by_cases hj : j = i
    · subst hj
      have found : foundAfter (s.read j) o (s.serve platform cases j o c).1 = some u :=
        (Function.update_self j _ s.read).symm.trans hu
      rcases foundAfter_exec found with old | ⟨hu, same⟩
      · exact older j u old v hv hid
      · exact .inl (Users.eq_of_id (same ▸ hv) hu hid)
    · exact older j u ((Function.update_of_ne hj _ _).symm.trans hu) v hv hid

end Tracked

private theorem editorSystem_keeps (base : Registry ι) :
    (versionPlaces ι platform cases cipher).Keeps (editorSystem ι platform cases cipher) (Tracked base) where
  begins s places i p tracked root _ := by
    refine ⟨places i, ?_, tracked.stay i⟩
    rcases root with ⟨call, rfl⟩ | ⟨request, client, actor, edits, rfl⟩
    · exact plain_fits call.only
    · exact request_fits edits client actor
  op s places i o c tracked ready ok := by
    cases o with
    | user me o =>
      obtain ⟨rfl, request, actor, edits, ready⟩ := ready
      apply tracked.serve
      intro user ho
      subst ho
      exact (ready.adds user rfl).1 edits
    | sync o =>
      have evolves : s.Evolves { s with host := ((syncHost ι).exec o c s.host).2 } := by
        cases o with
        | transact me t => exact ⟨transact_evolves, .refl _⟩
        | start _ _ | stop _ | reclaim _ _ | status _ | trackedAccounts => exact ⟨.refl _, .refl _⟩
      exact (tracked.evolve evolves rfl).stay i
    | account t =>
      obtain ⟨evolves, -, read⟩ := registry_evolves ready
      exact (tracked.evolve evolves read).stay i
    | sealPassword _ _ | accountToken | folderTokens _ => exact tracked.stay i
  env _ _ _ _ outside := outside.elim
  crash _ _ _ _ crash := crash.elim

/-- From a moment of the run on, rows only move on to higher versions; and what threads have looked up stays tracked. -/
theorem editorSystem_evolves {s : Registry ι} (unread : ∀ i, s.read i = none)
    {c₀ c : Config (registry ι platform cases cipher) ι RegistryEnd}
    (run₀ : (editorSystem ι platform cases cipher).Reaches (.idle s) c₀)
    (run : (editorSystem ι platform cases cipher).Reaches c₀ c) :
    ∃ places, (versionPlaces ι platform cases cipher).Linked c places ∧ Tracked c₀.state c.state places := by
  have first : Tracked s s fun _ => ⟨none, false⟩ := ⟨funext unread, fun i u hu => (by cases (unread i).symm.trans hu), .refl s⟩
  obtain ⟨places, linked, tracked⟩ :=
    (editorSystem_keeps s).reaches (Discipline.linked_idle (versionPlaces ι platform cases cipher) s) first run₀
  exact (editorSystem_keeps c₀.state).reaches linked ⟨tracked.read, tracked.seen, .refl _⟩ run

/-- What optimistic locking promises at a moment of a run. -/
structure LosesNoUpdate (s : Registry ι) (c : Config (registry ι platform cases cipher) ι RegistryEnd) : Prop where
  /-- A write that changes a row gives it a higher version. -/
  advances : ∀ c', (editorSystem ι platform cases cipher).Step c c' → c.state.Evolves c'.state
  /-- An update of an account works on the one row that ever had the version it names, untouched since. -/
  accountUpdate : ∀ userId accountId expectedVersion change a db,
    AccountService.updateAccount userId accountId expectedVersion change c.state.host.db = .ok (a, db) →
    ∃ existing ∈ c.state.accounts, existing.id = accountId ∧ existing.version = expectedVersion ∧
      a = (change.applyTo existing).updated existing ∧
      (editorSystem ι platform cases cipher).Unbroken s c (fun t => existing ∈ t.accounts) ∧
      ∀ c₀, (editorSystem ι platform cases cipher).Reaches (.idle s) c₀ →
        (editorSystem ι platform cases cipher).Reaches c₀ c →
        ∀ seen ∈ c₀.state.accounts, seen.id = accountId → seen.version = expectedVersion → seen = existing
  /-- An update of a user works on the row its thread has looked up, untouched since. -/
  userUpdate : ∀ i me user next swap u users,
    c.threads i = some (.call (.user me (.transact (.updateUser user))) next) →
    UserRepository.updateUser swap user c.state.users = .ok (u, users) →
    ∃ existing ∈ c.state.users, c.state.read i = some existing ∧ existing.id = user.id ∧
      existing.version = user.version ∧ u = UserRepository.updated swap existing user ∧
      (editorSystem ι platform cases cipher).Unbroken s c fun t => existing ∈ t.users
  /-- A deletion reads the row it deletes in the same transaction. -/
  accountDelete : ∀ userId accountId a db, AccountService.deleteAccount userId accountId c.state.host.db = .ok (a, db) →
    AccountService.ownAccount userId accountId c.state.host.db = .ok (a, c.state.host.db) ∧
      AccountRepository.delete a c.state.host.db = .ok (a, db)
  userDelete : ∀ id u users, UserRepository.deleteUser id c.state.users = .ok (u, users) →
    UserRepository.findById id c.state.users = .ok (some u, c.state.users) ∧
      UserRepository.deleteRow u c.state.users = .ok (u, users)
  /-- A write by a version the row no longer has is a conflict and changes nothing. -/
  staleAccount : ∀ account ∈ c.state.accounts, account.id ≠ 0 → ∀ expectedVersion change,
    account.version ≠ expectedVersion →
    c.state.transact (.update account.userId account.id expectedVersion change) none =
      (.error (.repositoryError .conflict), c.state)
  staleUser : ∀ u ∈ c.state.users, u.id ≠ 0 → ∀ user, user.id = u.id → u.version ≠ user.version → ∀ me d,
    c.state.serve platform cases me (.transact (.updateUser user)) (.ok d) =
      (.error (.repositoryError .conflict), c.state)
  staleAccountDelete : ∀ existing ∈ c.state.accounts, existing.id ≠ 0 → ∀ account : Account,
    existing.id = account.id → existing.version ≠ account.version →
    AccountRepository.delete account c.state.host.db = .error (.repositoryError .conflict)
  staleUserDelete : ∀ existing ∈ c.state.users, existing.id ≠ 0 → ∀ user : User,
    existing.id = user.id → existing.version ≠ user.version →
    UserRepository.deleteRow user c.state.users = .error (.repositoryError .conflict)

section
variable {s : Registry ι} {c : Config (registry ι platform cases cipher) ι RegistryEnd}

/-- A row that is there now was there ever since it first was. -/
private theorem unbroken_accounts (unread : ∀ i, s.read i = none) {a : Account} (ha : a ∈ c.state.accounts) :
    (editorSystem ι platform cases cipher).Unbroken s c fun t => a ∈ t.accounts := by
  intro c₀ c₁ run₀ run₁ run there
  obtain ⟨_, _, before⟩ := editorSystem_evolves unread run₀ run₁
  obtain ⟨_, _, after⟩ := editorSystem_evolves unread (run₀.trans run₁) run
  exact before.evolves.accounts.mem_between after.evolves.accounts there ha

private theorem unbroken_users (unread : ∀ i, s.read i = none) {u : User} (hu : u ∈ c.state.users) :
    (editorSystem ι platform cases cipher).Unbroken s c fun t => u ∈ t.users := by
  intro c₀ c₁ run₀ run₁ run there
  obtain ⟨_, _, before⟩ := editorSystem_evolves unread run₀ run₁
  obtain ⟨_, _, after⟩ := editorSystem_evolves unread (run₀.trans run₁) run
  exact before.evolves.users.mem_between after.evolves.users there hu

omit [DecidableEq ι] in
private theorem stale_account {a : Account} (ha : a ∈ s.accounts) (valid : a.id ≠ 0) {expectedVersion : Nat}
    {change : PartialAccountUpdate} (stale : a.version ≠ expectedVersion) :
    s.transact (.update a.userId a.id expectedVersion change) none = (.error (.repositoryError .conflict), s) := by
  have conflict : RegistryTxn.body s.users (.update a.userId a.id expectedVersion change) s.host.db =
      .error (.repositoryError .conflict) :=
    AccountService.updateAccount_stale ha rfl rfl valid stale
  unfold Registry.transact
  rw [conflict]

private theorem stale_user {u user : User} (hu : u ∈ s.users) (valid : u.id ≠ 0) (hid : user.id = u.id)
    (stale : u.version ≠ user.version) (me : ι) (d : UserDraw) :
    s.serve platform cases me (.transact (.updateUser user)) (.ok d) =
      (.error (.repositoryError .conflict), s) := by
  have conflict : UserTxn.body cases d (.updateUser user) s.server.users = .error (.repositoryError .conflict) :=
    UserRepository.updateUser_stale hu hid.symm (hid ▸ valid) stale
  have server : s.server.transact cases (.updateUser user) (.ok d) =
      (.error (.repositoryError .conflict), s.server) := by
    unfold Server.transact
    dsimp only
    rw [conflict]
  unfold Registry.serve
  dsimp only [userStore]
  rw [server]
  exact congrArg (Prod.mk _) (congrArg (fun read => { s with read := read }) (Function.update_eq_self me s.read))

theorem optimistic_locking (unread : ∀ i, s.read i = none)
    (run : (editorSystem ι platform cases cipher).Reaches (.idle s) c) :
    LosesNoUpdate s c where
  advances c' step := by
    obtain ⟨_, _, tracked⟩ := editorSystem_evolves unread run (.single step)
    exact tracked.evolves
  accountUpdate userId accountId expectedVersion change a db h := by
    obtain ⟨existing, hm, hid, -, hv, rfl, -⟩ := AccountService.updateAccount_ok h
    refine ⟨existing, hm, hid, hv, rfl, unbroken_accounts unread hm, fun c₀ run₀ run seen hs hid' hv' => ?_⟩
    obtain ⟨_, _, tracked⟩ := editorSystem_evolves unread run₀ run
    exact (tracked.evolves.accounts.eq_of_version hs hm (hid.trans hid'.symm) (hv.trans hv'.symm)).symm
  userUpdate i me user next swap u users hi h := by
    obtain ⟨places, linked, tracked⟩ := editorSystem_evolves unread .refl run
    obtain ⟨⟨rfl, request, actor, -, ready⟩, -⟩ := (linked i).1 _ hi
    obtain ⟨seen, hread, hid, hv, -⟩ := ready.updates user rfl
    obtain ⟨existing, hm, hid', hv', rfl, -⟩ := UserRepository.updateUser_ok h
    have found : c.state.read me = some seen := tracked.read ▸ hread
    have same : existing = seen :=
      (tracked.seen me seen found existing hm (hid'.trans hid.symm)).resolve_right fun lt => by omega
    exact ⟨existing, hm, same ▸ found, hid', hv', rfl, unbroken_users unread hm⟩
  accountDelete userId accountId a db h := by
    obtain ⟨existing, mid, ho, hd⟩ := Transaction.bind_eq_ok.mp h
    obtain ⟨rfl, hm, -⟩ := AccountService.ownAccount_ok ho
    obtain ⟨hm', hid, -⟩ := AccountRepository.delete_ok hd
    obtain rfl := Keyed.Table.eq_of_key hm hm' hid.symm
    exact ⟨ho, hd⟩
  userDelete id u users h := UserRepository.deleteUser_parts h
  staleAccount a ha valid expectedVersion change stale := stale_account ha valid stale
  staleUser u hu valid user hid stale me d := stale_user hu valid hid stale me d
  staleAccountDelete existing hm valid account hid stale :=
    AccountRepository.delete_stale hm hid (hid ▸ valid) stale
  staleUserDelete existing hm valid user hid stale := UserRepository.deleteRow_stale hm hid (hid ▸ valid) stale

end

private def rename (name : String) : AccountCall := .updateAccount 1 1 1 ⟨some name, none, none, none⟩

private def twoRenames : Config (registry Nat plainPlatform latinCases plainCipher) Nat RegistryEnd :=
  ((Config.idle workRegistry).set workRegistry 0 ((rename "Office").prog plainCipher 0)).set workRegistry 1
    ((rename "Home").prog plainCipher 1)

theorem optimistic_locking_twoRenames :
    ∃ c : Config (registry Nat plainPlatform latinCases plainCipher) Nat RegistryEnd,
      c.result? 0 = some (.called (.ok ())) ∧ c.result? 1 = some (.called (.error (.repositoryError .conflict))) ∧
        c.state.accounts.rows.map (fun a => (a.displayName, a.version)) = [("Office", 2)] ∧ LosesNoUpdate workRegistry c := by
  have first : (editorSystem Nat plainPlatform latinCases plainCipher).Step (.idle workRegistry)
      ((Config.idle workRegistry).set workRegistry 0 ((rename "Office").prog plainCipher 0)) :=
    System.step_start rfl (.inl ⟨_, rfl⟩)
  have second : (editorSystem Nat plainPlatform latinCases plainCipher).Step
      ((Config.idle workRegistry).set workRegistry 0 ((rename "Office").prog plainCipher 0)) twoRenames :=
    System.step_start rfl (.inl ⟨_, rfl⟩)
  have permits : (editorSystem Nat plainPlatform latinCases plainCipher).Permits
      (fun _ => calmly) twoRenames [0, 1] :=
    ⟨trivial, trivial, trivial⟩
  refine ⟨_, ?_, ?_, ?_, optimistic_locking (fun _ => rfl) (((Relation.ReflTransGen.single first).tail second).trans permits.reaches)⟩
  · rfl
  · rfl
  · rfl

end MailKeep
