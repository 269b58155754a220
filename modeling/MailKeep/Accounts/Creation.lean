import MailKeep.Accounts.Registry
import MailKeep.Program.Play
import MailKeep.Users.Login
import MailKeep.Users.Site

/-! The request that creates an account with its folders and starts its sync, one transaction after another. -/
namespace MailKeep
open Program

structure ServerConfigDto where
  host : String
  port : Fin 65536
  tls : String
deriving DecidableEq

structure NewFolderDto where
  path : String
  specialUse : Option String
  noSelect : Bool
deriving DecidableEq

structure NewAccountDto where
  displayName : String
  email : String
  server : ServerConfigDto
  password : String
  folders : List NewFolderDto
deriving DecidableEq

structure AccountSummaryDto where
  token : String
  displayName : String
  email : String
  status : String
  lastSynced : Option String
  lastError : Option String
deriving DecidableEq

structure CreateAccountParams where
  userId : UserId
  displayName : String
  emailAddress : EmailAddress
  server : ImapServerConfig
  username : String
  password : String

structure NewFolderRequest where
  path : String
  displayName : Option String
  specialUse : Option SpecialUse
  uidvalidity : Option U32
deriving DecidableEq

def tlsFromString (s : String) : TlsMode := if s = "StartTls" then .startTls else .tls

def SpecialUse.fromStr (s : String) : Option SpecialUse :=
  if s = "inbox" then some inbox
  else if s = "sent" then some sent
  else if s = "drafts" then some drafts
  else if s = "trash" then some trash
  else if s = "archive" then some archive
  else if s = "junk" then some junk
  else if s = "all" then some all
  else none

def specialUseFromString (s : Option String) : Option SpecialUse := s.bind SpecialUse.fromStr

def serverConfigFromDto (d : ServerConfigDto) : ImapServerConfig := ⟨d.host, d.port, tlsFromString d.tls⟩

def AccountStatus.asStr : AccountStatus → String
  | pendingFirstSync => "PendingFirstSync"
  | syncing => "Syncing"
  | idle => "Idle"
  | error => "Error"
  | disabled => "Disabled"

def accountToSummary (formatToken : AccountId → String) (a : Account) (lastSynced : Option String) :
    AccountSummaryDto :=
  ⟨formatToken a.id, a.displayName, a.emailAddress, a.status.asStr, lastSynced, if a.status = .error then a.lastError else none⟩

def validateCreate (p : CreateAccountParams) : Except Error Unit := do
  if isBlank p.displayName then throw (.validation "display_name is required")
  if isBlank p.server.host then throw (.validation "server.host is required")
  if p.server.port = 0 then throw (.validation "server.port must be > 0")
  if isBlank p.username then throw (.validation "username is required")
  if p.password.isEmpty then throw (.validation "password is required")

def newFolderRows (accountId : AccountId) (requests : List NewFolderRequest) (tokens : Nat → FolderId) :
    List NewFolderRow :=
  requests.mapIdx fun i req =>
    ⟨tokens i, accountId, req.path, req.displayName, req.specialUse, req.specialUse = some .inbox, req.uidvalidity⟩

def NewAccountDto.requests (payload : NewAccountDto) : List NewFolderRequest :=
  (payload.folders.filter (!·.noSelect)).map fun f => ⟨f.path, none, specialUseFromString f.specialUse, none⟩

section
variable {ι : Type}

def newAccountToken : RegistryAction ι Error AccountId :=
  .mk (.call RegistryOp.accountToken fun id => .ret (.ok id))

def newFolderTokens (n : Nat) : RegistryAction ι Error (Nat → FolderId) :=
  .mk (.call (RegistryOp.folderTokens n) fun ids => .ret (.ok ids))

def CreateAccountParams.newAccount (p : CreateAccountParams) (token : AccountId) (credentials : Bytes) :
    NewAccount :=
  ⟨p.userId, p.displayName, p.emailAddress, p.server, p.username, credentials, token⟩

def createAccount (params : CreateAccountParams) : RegistryAction ι Error Account := do
  liftResult (validateCreate params)
  let token ← newAccountToken
  let credentials ← encryptCredentials token params.password
  registryTransact (.insert (params.newAccount token credentials))

def createFoldersForAccount (accountId : AccountId) (requests : List NewFolderRequest) :
    RegistryAction ι Error (List Folder) := do
  let tokens ← newFolderTokens requests.length
  registryTransact (.createFolders accountId (newFolderRows accountId requests tokens))

def createAccountAndStart (formatToken : AccountId → String) (openCredentials : OpenCredentials) (me : ι)
    (actor : Option AuthUser) (payload : NewAccountDto) : RegistryAction ι ServerFnError AccountSummaryDto := do
  let user ← (userPart me).act (authenticatedUser actor)
  let email ← mapErr toServerErr (liftResult (EmailAddress.new payload.email))
  let server := serverConfigFromDto payload.server
  let account ← mapErr toServerErr
    (createAccount ⟨user.id, payload.displayName, email, server, payload.email, payload.password⟩)
  let _ ← mapErr toServerErr (createFoldersForAccount account.id payload.requests)
  mapErr toServerErr ((syncPart ι).act (startAccount me openCredentials account.id))
  return accountToSummary formatToken account none

/-- What the request meets: what it draws, and which of its transactions fail. -/
structure CreationCourse where
  accountToken : AccountId
  nonce : Nat
  folderTokens : Nat → FolderId
  insertFault : Option DbErr
  foldersFault : Option DbErr
  listFault : Option DbErr
  listFoldersFault : Option DbErr
  statusFault : Option DbErr

namespace CreationCourse

def syncPick (course : CreationCourse) : (o : SyncOp ι) → o.Choice
  | .transact _ .listEnabled => course.listFault
  | .transact _ (.listEnabledFolders _) => course.listFoldersFault
  | .transact _ (.setStatus _ _ _) => course.statusFault
  | .transact _ (.enable _ _) | .transact _ (.disable _ _) => none
  | .start _ _ | .stop _ | .reclaim _ _ => ()
  | .status _ => notRunningStatus
  | .trackedAccounts => id

def pick (course : CreationCourse) : (o : RegistryOp ι) → o.Choice
  | .sync o => course.syncPick o
  | .account (.insert _) => course.insertFault
  | .account (.createFolders _ _) => course.foldersFault
  | .account (.update _ _ _ _) | .account (.delete _ _) => none
  | .user _ (.transact _) => .error (.other "not asked")
  | .user _ (.encryptPassword _) => ""
  | .user _ (.loginUser _ _) => ()
  | .sealPassword _ _ => course.nonce
  | .accountToken => course.accountToken
  | .folderTokens _ => course.folderTokens

end CreationCourse

/-- Whether the request gets as far as the new account: a user who is there, a form that passes, a fresh id and no fault. -/
structure CreationCourse.Inserts (course : CreationCourse) (actor : Option AuthUser) (payload : NewAccountDto)
    (s : Registry ι) : Prop where
  user : ∃ a, actor = some a ∧ a.username ≠ "" ∧ ∃ u ∈ s.users, u.id = a.id
  email : '@' ∈ payload.email.toList
  displayName : isBlank payload.displayName = false
  host : isBlank payload.server.host = false
  port : payload.server.port ≠ 0
  username : isBlank payload.email = false
  password : payload.password.isEmpty = false
  fresh : ∀ a ∈ s.accounts, a.id ≠ course.accountToken
  fault : course.insertFault = none

/-- Whether the steps after it go through: no folder clashes, the credentials can be opened and no transaction fails. -/
structure CreationCourse.Completes (course : CreationCourse) (cipher : CredentialCipher) (payload : NewAccountDto)
    (db : Database) : Prop where
  token : course.accountToken ≠ 0
  folders : FolderRepository.Insertable course.accountToken
    (newFolderRows course.accountToken payload.requests course.folderTokens) db
  credentials : ∃ password, cipher.openCredentials course.accountToken
    (cipher.sealPassword course.nonce course.accountToken payload.password) = .ok password
  foldersFault : course.foldersFault = none
  listFault : course.listFault = none
  listFoldersFault : course.listFoldersFault = none
  statusFault : course.statusFault = none

structure Database.SameRows (db db' : Database) : Prop where
  accounts : ∀ a, a ∈ db'.accounts ↔ a ∈ db.accounts
  folders : ∀ f, f ∈ db'.folders ↔ f ∈ db.folders

theorem Database.SameRows.refl (db : Database) : db.SameRows db := ⟨fun _ => Iff.rfl, fun _ => Iff.rfl⟩

private theorem validateCreate_iff {p : CreateAccountParams} : validateCreate p = .ok () ↔
    isBlank p.displayName = false ∧ isBlank p.server.host = false ∧ p.server.port ≠ 0 ∧ isBlank p.username = false ∧
      p.password.isEmpty = false := by
  unfold validateCreate
  by_cases name : isBlank p.displayName
  · simp [name, throw, throwThe, MonadExceptOf.throw, bind, Except.bind]
  by_cases host : isBlank p.server.host
  · simp [name, host, throw, throwThe, MonadExceptOf.throw, bind, Except.bind]
  by_cases port : p.server.port = 0
  · simp [name, host, port, throw, throwThe, MonadExceptOf.throw, bind, Except.bind]
  by_cases username : isBlank p.username
  · simp [name, host, port, username, throw, throwThe, MonadExceptOf.throw, bind, Except.bind]
  by_cases password : p.password.isEmpty
  · simp [name, host, port, username, password, throw, throwThe, MonadExceptOf.throw]
  · simp [name, host, port, username, password, pure, Except.pure]

/-- A transaction goes through with its own result or leaves the registry as it was. -/
private theorem transact_play (s : Registry ι) (t : RegistryTxn) (fault : Option DbErr) :
    (∃ r db, fault = none ∧ t.body s.users s.host.db = .ok (r, db) ∧ s.transact t fault = (.ok r, s.putDb db)) ∨
      (∃ e, s.transact t fault = (.error e, s)) ∧ ¬ (fault = none ∧ ∃ r db, t.body s.users s.host.db = .ok (r, db)) := by
  unfold Registry.transact
  cases fault with
  | some e => exact .inr ⟨⟨_, rfl⟩, nofun⟩
  | none =>
    cases h : t.body s.users s.host.db with
    | error e =>
      refine .inr ⟨⟨e, rfl⟩, ?_⟩
      rintro ⟨-, r, db, ok⟩
      cases ok
    | ok r => exact .inl ⟨r.1, r.2, rfl, rfl, rfl⟩

section
variable [DecidableEq ι] {platform : Platform} {cases : Unicode.CaseData} {cipher : CredentialCipher} {me : ι}
  {course : CreationCourse}

private theorem createAccount_play (platform : Platform) (cases : Unicode.CaseData) (cipher : CredentialCipher)
    (course : CreationCourse) (s : Registry ι) (params : CreateAccountParams) :
    let new := params.newAccount course.accountToken (cipher.sealPassword course.nonce course.accountToken params.password)
    let good := validateCreate params = .ok () ∧ course.insertFault = none ∧ (∃ u ∈ s.users, u.id = params.userId) ∧
      ∀ a ∈ s.accounts, a.id ≠ course.accountToken
    let played := (registry ι platform cases cipher).play course.pick (createAccount params).run s
    (good ∧ ∃ db, AccountRepository.insert s.users new s.host.db = .ok (new.row, db) ∧ played = (.ok new.row, s.putDb db)) ∨
      (∃ e, played = (.error e, s)) ∧ ¬ good := by
  intro new good played
  cases checked : validateCreate params with
  | error e =>
    refine .inr ⟨⟨e, play_seq_error (M := registry ι platform cases cipher) ?_⟩, ?_⟩
    · rw [checked]
      rfl
    · rintro ⟨ok, -⟩
      rw [checked] at ok
      cases ok
  | ok _ =>
    have after : played = s.transact (.insert new) course.insertFault := by
      refine (play_seq_ok (M := registry ι platform cases cipher) (t := s) (a := ()) ?_).trans rfl
      rw [checked]
      rfl
    have iff := AccountRepository.insert_iff s.users new s.host.db
    rcases transact_play s (.insert new) course.insertFault with
      ⟨r, db, calm, ok, result⟩ | ⟨⟨e, result⟩, failed⟩
    · obtain rfl := (AccountRepository.insert_ok ok).1
      obtain ⟨user, fresh⟩ := iff.mp ⟨_, _, ok⟩
      exact .inl ⟨⟨checked, calm, user, fresh⟩, db, ok, after.trans result⟩
    · refine .inr ⟨⟨e, after.trans result⟩, ?_⟩
      rintro ⟨-, calm, user, fresh⟩
      exact failed ⟨calm, iff.mpr ⟨user, fresh⟩⟩

private theorem createFolders_play (platform : Platform) (cases : Unicode.CaseData) (cipher : CredentialCipher)
    (course : CreationCourse) {s : Registry ι} {account : Account} {accountId : AccountId}
    (requests : List NewFolderRequest) (there : account ∈ s.accounts) (own : account.id = accountId) :
    let good := course.foldersFault = none ∧ accountId ≠ 0 ∧
      FolderRepository.Insertable accountId (newFolderRows accountId requests course.folderTokens) s.host.db
    let played := (registry ι platform cases cipher).play course.pick
      (createFoldersForAccount accountId requests).run s
    (good ∧ ∃ r db, db.accounts = s.accounts ∧ played = (.ok r, s.putDb db)) ∨
      (∃ e, played = (.error e, s)) ∧ ¬ good := by
  intro good played
  have own_rows : ∀ new ∈ newFolderRows accountId requests course.folderTokens, new.accountId = accountId := by
    intro new hnew
    obtain ⟨i, _, rfl⟩ := List.mem_mapIdx.mp hnew
    rfl
  have iff : _ ↔ FolderRepository.Insertable accountId _ s.host.db :=
    FolderRepository.createRows_iff there own own_rows
  have body (valid : accountId ≠ 0) (rows : List NewFolderRow) :
      (RegistryTxn.createFolders accountId rows).body s.users s.host.db =
        FolderRepository.createRows accountId rows s.host.db :=
    congrFun (if_neg valid) s.host.db
  rcases transact_play s (.createFolders accountId (newFolderRows accountId requests course.folderTokens)) course.foldersFault with ⟨r, db, calm, ok, result⟩ | ⟨⟨e, result⟩, failed⟩
  · by_cases zero : accountId = 0
    · have refused := (congrFun (if_pos zero) s.host.db).symm.trans ok
      cases refused
    · rw [body zero] at ok
      exact .inl ⟨⟨calm, zero, iff.mp ⟨r, db, ok⟩⟩, r, db, FolderRepository.createRows_accounts ok, result⟩
  · refine .inr ⟨⟨e, result⟩, ?_⟩
    rintro ⟨calm, valid, insertable⟩
    obtain ⟨r, db, ok⟩ := iff.mpr insertable
    exact failed ⟨calm, r, db, (body valid _).trans ok⟩

private theorem startOne_play {s : SyncHost ι} {account : Account} {openCredentials : OpenCredentials}
    (there : account ∈ s.db.accounts) (valid : account.id ≠ 0) :
    let good := course.listFoldersFault = none ∧ (∃ password, openCredentials account.id account.credentials = .ok password) ∧
      course.statusFault = none
    let played := (syncHost ι).play course.syncPick (startOne me openCredentials account).run s
    (good ∧ played.1 = .ok ()) ∨ (∃ e, played.1 = .error e) ∧ played.2.db = s.db ∧ ¬ good := by
  intro good played
  cases fault : course.listFoldersFault with
  | some e =>
    have stopped : played = (.error (.repositoryError (handleDberr e)), s) := by
      apply play_seq_error (M := syncHost ι)
      change s.transact me (.listEnabledFolders account.id) course.listFoldersFault = _
      rw [fault]
      rfl
    refine .inr ⟨⟨_, congrArg Prod.fst stopped⟩, by rw [stopped], fun h => ?_⟩
    cases fault.symm.trans h.1
  | none =>
    let folders := s.db.folders.rows.filter fun f => f.accountId = account.id && f.enabled
    have listed : (syncHost ι).play course.syncPick (tryTransact me (.listEnabledFolders account.id)).run s = (.ok folders, s) := by
      change s.transact me (.listEnabledFolders account.id) course.listFoldersFault = _
      rw [fault]
      simp [SyncHost.transact, AccountTxn.body, FolderRepository.listEnabledForAccount, valid, SyncHost.note,
        AccountTxn.event?, folders]
    cases opened : openCredentials account.id account.credentials with
    | error e =>
      have stopped : played = (.error e, s) := by
        refine (play_seq_ok (M := syncHost ι) listed).trans (play_seq_error (M := syncHost ι) ?_)
        rw [opened]
        rfl
      refine .inr ⟨⟨_, congrArg Prod.fst stopped⟩, by rw [stopped], fun h => ?_⟩
      obtain ⟨password, ok⟩ := h.2.1
      cases opened.symm.trans ok
    | ok password =>
      let started := (s.setTracked account.id ⟨account.server, account.username, password, folders.map folderConfig⟩).push
        (.started account.id)
      have after : played = started.transact me (.setStatus account.id .syncing none) course.statusFault := by
        refine (play_seq_ok (M := syncHost ι) listed).trans
          ((play_seq_ok (M := syncHost ι) (t := s) (a := password) ?_).trans rfl)
        rw [opened]
        rfl
      cases status : course.statusFault with
      | some e =>
        rw [status] at after
        refine .inr ⟨⟨_, congrArg Prod.fst after⟩, by rw [after]; rfl, fun h => ?_⟩
        cases status.symm.trans h.2.2
      | none =>
        have found : started.db.accounts.find? account.id = some account :=
          Keyed.Table.find?_eq_some.mpr ⟨there, rfl⟩
        refine .inl ⟨⟨fault, ⟨password, opened⟩, status⟩, ?_⟩
        rw [after, status]
        simp [SyncHost.transact, AccountTxn.body, AccountRepository.setStatus, AccountRepository.rewrite, valid, found]

/-- The sync of an enabled account starts, or its rows are as they were. -/
private theorem startAccount_play (me : ι) (course : CreationCourse) (openCredentials : OpenCredentials)
    {s : SyncHost ι} {account : Account} (there : account ∈ s.db.accounts)
    (enabled : account.enabled = true) (valid : account.id ≠ 0) :
    let good := course.listFault = none ∧ course.listFoldersFault = none ∧
      (∃ password, openCredentials account.id account.credentials = .ok password) ∧ course.statusFault = none
    let played := (syncHost ι).play course.syncPick (startAccount me openCredentials account.id).run s
    (good ∧ played.1 = .ok ()) ∨ (∃ e, played.1 = .error e) ∧ played.2.db = s.db ∧ ¬ good := by
  intro good played
  have found : (s.db.accounts.rows.filter (·.enabled)).find? (·.id = account.id) = some account :=
    Keyed.Table.find?_eq_some.mpr ⟨Keyed.Table.mem_filter.mpr ⟨there, enabled⟩, rfl⟩
  cases fault : course.listFault with
  | some e =>
    have stopped : played = (.error (.repositoryError (handleDberr e)), s) := by
      apply play_seq_error (M := syncHost ι)
      change s.transact me .listEnabled course.listFault = _
      rw [fault]
      rfl
    refine .inr ⟨⟨_, congrArg Prod.fst stopped⟩, by rw [stopped], fun h => ?_⟩
    cases fault.symm.trans h.1
  | none =>
    let heard : SyncHost ι := { s with since := Function.update s.since me [] }
    have after : played = (syncHost ι).play course.syncPick (startOne me openCredentials account).run heard := by
      refine (play_seq_ok (M := syncHost ι) (t := heard) (a := s.db.accounts.rows.filter (·.enabled)) ?_).trans ?_
      · change s.transact me .listEnabled course.listFault = _
        rw [fault]
        rfl
      · rw [found]
    rw [after]
    rcases startOne_play (s := heard) there valid with ⟨ok, result⟩ | ⟨result, same, bad⟩
    · exact .inl ⟨⟨fault, ok⟩, result⟩
    · exact .inr ⟨result, same, fun h => bad h.2⟩

abbrev creationEnd (platform : Platform) (cases : Unicode.CaseData) (cipher : CredentialCipher)
    (formatToken : AccountId → String) (me : ι) (course : CreationCourse) (actor : Option AuthUser)
    (payload : NewAccountDto) (s : Registry ι) : Except ServerFnError AccountSummaryDto × Registry ι :=
  (registry ι platform cases cipher).play course.pick
    (createAccountAndStart formatToken cipher.openCredentials me actor payload).run s

private def afterInsert (formatToken : AccountId → String) (openCredentials : OpenCredentials) (me : ι)
    (payload : NewAccountDto) (account : Account) : RegistryAction ι ServerFnError AccountSummaryDto := do
  let _ ← mapErr toServerErr (createFoldersForAccount account.id payload.requests)
  mapErr toServerErr ((syncPart ι).act (startAccount me openCredentials account.id))
  return accountToSummary formatToken account none

variable {formatToken : AccountId → String} {actor : Option AuthUser} {payload : NewAccountDto}

private theorem play_mapErr_eq {s t : Registry ι} {α : Type} {x : RegistryAction ι Error α} {r : Except Error α}
    (h : (registry ι platform cases cipher).play course.pick x.run s = (r, t)) :
    (registry ι platform cases cipher).play course.pick (mapErr toServerErr x).run s =
      (r.mapError toServerErr, t) := by
  rw [play_mapErr, h]

/-- The request stops with the registry untouched, or the account goes in. -/
private theorem creation_begins (platform : Platform) (cases : Unicode.CaseData) (cipher : CredentialCipher)
    (formatToken : AccountId → String) (me : ι) (course : CreationCourse) (actor : Option AuthUser)
    (payload : NewAccountDto)
    (s : Registry ι) :
    (¬ course.Inserts actor payload s ∧
      ∃ e, creationEnd platform cases cipher formatToken me course actor payload s = (.error e, s)) ∨
    course.Inserts actor payload s ∧ ∃ account db, account.id = course.accountToken ∧ account.enabled = true ∧
      account.credentials = cipher.sealPassword course.nonce course.accountToken payload.password ∧
        account ∉ s.accounts ∧
      account ∈ db.accounts ∧ db.folders = s.host.db.folders ∧
      creationEnd platform cases cipher formatToken me course actor payload s =
        (registry ι platform cases cipher).play course.pick
          (afterInsert formatToken cipher.openCredentials me payload account).run (s.putDb db) := by
  cases user : actor.filter (·.username ≠ "") with
  | none =>
    refine .inl ⟨?_, "Not authenticated", play_seq_error (M := registry ι platform cases cipher) ?_⟩
    · rintro ⟨⟨a, rfl, named, -⟩, -⟩
      simp [named] at user
    · rw [authenticatedUser, user]
      rfl
  | some a =>
    obtain ⟨rfl, named⟩ := Option.filter_eq_some_iff.mp user
    have entered : (registry ι platform cases cipher).play course.pick
      ((userPart me).act (authenticatedUser (some a))).run s =
        (.ok a, s) := by
      rw [authenticatedUser, user]
      rfl
    by_cases email : '@' ∈ payload.email.toList
    · have parsed : (registry ι platform cases cipher).play course.pick
          (mapErr toServerErr (liftResult (EmailAddress.new payload.email))).run s =
            (.ok ⟨payload.email, email⟩, s) := by
        rw [EmailAddress.new, dif_pos email]
        rfl
      let params : CreateAccountParams :=
        ⟨a.id, payload.displayName, ⟨payload.email, email⟩, serverConfigFromDto payload.server, payload.email, payload.password⟩
      have checks := validateCreate_iff (p := params)
      rcases createAccount_play platform cases cipher course s params with ⟨⟨checked, calm, known, fresh⟩, db, inserted, result⟩ | ⟨⟨e, result⟩, bad⟩
      · obtain ⟨displayName, host, port, username, password⟩ := checks.mp checked
        obtain ⟨-, folders, accounts⟩ := AccountRepository.insert_ok inserted
        refine .inr ⟨⟨⟨a, rfl, of_decide_eq_true named, known⟩, email, displayName, host, port, username, password, fresh, calm⟩,
          _, db, rfl, rfl, rfl, fun there => fresh _ there rfl, (accounts _).mpr (.inr rfl), folders, ?_⟩
        exact (play_seq_ok (M := registry ι platform cases cipher) entered).trans
          ((play_seq_ok (M := registry ι platform cases cipher) parsed).trans
            (play_seq_ok (M := registry ι platform cases cipher) (play_mapErr_eq result)))
      · refine .inl ⟨fun h => bad ⟨checks.mpr ⟨h.displayName, h.host, h.port, h.username, h.password⟩, h.fault, ?_, h.fresh⟩,
          toServerErr e, ?_⟩
        · obtain ⟨b, same, -, known⟩ := h.user
          cases same
          exact known
        · exact (play_seq_ok (M := registry ι platform cases cipher) entered).trans
            ((play_seq_ok (M := registry ι platform cases cipher) parsed).trans
              (play_seq_error (M := registry ι platform cases cipher) (play_mapErr_eq result)))
    · have refused : (registry ι platform cases cipher).play course.pick
          (mapErr toServerErr (liftResult (EmailAddress.new payload.email))).run s =
          (.error (toServerErr (.validation ("Invalid email format: " ++ payload.email))), s) := by
        rw [EmailAddress.new, dif_neg email]
        rfl
      exact .inl ⟨fun h => email h.email, _, (play_seq_ok (M := registry ι platform cases cipher) entered).trans
        (play_seq_error (M := registry ι platform cases cipher) refused)⟩

/-- Once the account is there, the request answers success if every later step goes through, and an error else;
then the account stays. -/
private theorem creation_ends (platform : Platform) (cases : Unicode.CaseData) (cipher : CredentialCipher)
    (formatToken : AccountId → String) (me : ι) (course : CreationCourse) (payload : NewAccountDto) {s : Registry ι}
    {account : Account} (there : account ∈ s.accounts) (own : account.id = course.accountToken)
    (enabled : account.enabled = true)
    (credentials : account.credentials = cipher.sealPassword course.nonce course.accountToken payload.password) :
    let played := (registry ι platform cases cipher).play course.pick
      (afterInsert formatToken cipher.openCredentials me payload account).run s
    (course.Completes cipher payload s.host.db ∧ played.1 = .ok (accountToSummary formatToken account none)) ∨
      ¬ course.Completes cipher payload s.host.db ∧ (∃ e, played.1 = .error e) ∧ account ∈ played.2.accounts := by
  intro played
  have credentials_iff : (∃ password, cipher.openCredentials account.id account.credentials = .ok password) ↔
      ∃ password, cipher.openCredentials course.accountToken
        (cipher.sealPassword course.nonce course.accountToken payload.password) = .ok password := by
    rw [own, credentials]
  rcases createFolders_play platform cases cipher course payload.requests there rfl with ⟨⟨foldersFault, valid, folders⟩, r, db, accounts, result⟩ | ⟨⟨e, result⟩, bad⟩
  · have started := play_embed (M := syncHost ι) (N := registry ι platform cases cipher) (syncPart ι)
      course.syncPick course.pick Registry.host (fun _ _ => ⟨rfl, rfl⟩)
      (startAccount me cipher.openCredentials account.id).run (s.putDb db)
    have answer {r : Except Error Unit} {t : Registry ι}
        (h : (registry ι platform cases cipher).play course.pick
          ((syncPart ι).act (startAccount me cipher.openCredentials account.id)).run (s.putDb db) = (r, t)) :
        played = ((r.mapError toServerErr).map fun _ => accountToSummary formatToken account none, t) := by
      apply (play_seq_ok (M := registry ι platform cases cipher) (play_mapErr_eq result)).trans
      cases r with
      | ok _ => exact play_seq_ok (M := registry ι platform cases cipher) (play_mapErr_eq h)
      | error e => exact play_seq_error (M := registry ι platform cases cipher) (play_mapErr_eq h)
    rcases startAccount_play me course cipher.openCredentials (s := (s.putDb db).host)
      (accounts ▸ there) enabled valid with ⟨⟨listFault, listFolders, opened, status⟩, ok⟩ |
        ⟨⟨e, failed⟩, same, bad⟩
    · refine .inl ⟨⟨own ▸ valid, own ▸ folders, credentials_iff.mp opened, foldersFault, listFault, listFolders, status⟩, ?_⟩
      rw [answer (Prod.ext (started.1.trans ok) rfl)]
      rfl
    · refine .inr ⟨fun h => bad ⟨h.listFault, h.listFoldersFault, credentials_iff.mpr h.credentials, h.statusFault⟩, ?_⟩
      rw [answer (Prod.ext (started.1.trans failed) rfl)]
      refine ⟨⟨_, rfl⟩, ?_⟩
      have kept : Registry.accounts _ = s.accounts :=
        (congrArg Database.accounts ((congrArg SyncHost.db started.2).trans same)).trans accounts
      exact kept.symm ▸ there
  · have stopped : played = (.error (toServerErr e), s) :=
      play_seq_error (M := registry ι platform cases cipher) (play_mapErr_eq result)
    refine .inr ⟨fun h => bad ⟨h.foldersFault, own ▸ h.token, own ▸ h.folders⟩, ⟨_, congrArg Prod.fst stopped⟩, ?_⟩
    rw [stopped]
    exact there

/-- Creation is all or nothing exactly where the account does not go in at all or every later step goes through. -/
theorem account_creation_atomic (s : Registry ι) (platform : Platform) (cases : Unicode.CaseData)
    (cipher : CredentialCipher)
    (formatToken : AccountId → String) (me : ι) (course : CreationCourse) (actor : Option AuthUser)
    (payload : NewAccountDto) :
    ((∃ e, (creationEnd platform cases cipher formatToken me course actor payload s).1 = .error e) →
        s.host.db.SameRows (creationEnd platform cases cipher formatToken me course actor payload s).2.host.db) ↔
      (course.Inserts actor payload s → course.Completes cipher payload s.host.db) := by
  rcases creation_begins platform cases cipher formatToken me course actor payload s with
    ⟨stops, e, result⟩ | ⟨inserts, account, db, own, enabled, credentials, fresh, there, folders, result⟩
  · rw [result]
    exact iff_of_true (fun _ => .refl _) fun h => absurd h stops
  · have same : course.Completes cipher payload db ↔ course.Completes cipher payload s.host.db :=
      ⟨fun h => { h with folders := h.folders.of_folders folders.symm }, fun h => { h with folders := h.folders.of_folders folders }⟩
    rw [result]
    rcases creation_ends platform cases cipher formatToken me course payload
      (s := s.putDb db) there own enabled credentials with
      ⟨completes, ok⟩ | ⟨incomplete, failed, left⟩
    · refine iff_of_true ?_ fun _ => same.mp completes
      rintro ⟨e, error⟩
      cases ok.symm.trans error
    · exact iff_of_false (fun all => fresh (((all failed).accounts account).mp left)) fun all =>
        incomplete (same.mpr (all inserts))

end
end

def inboxForm : NewAccountDto :=
  ⟨"Work", "ann@x.org", ⟨"mail.x.org", 993, "Tls"⟩, "secret", [⟨"INBOX", some "inbox", false⟩]⟩

def noAccounts : Registry Unit where
  host := ⟨⟨.empty, .empty, .empty, .empty, .empty, .empty, 0⟩, [], [], fun _ => []⟩
  server := annServer
  read _ := none

def creationCourse (accountToken : AccountId) (foldersFault : Option DbErr) : CreationCourse :=
  ⟨accountToken, 0, fun i => 10 * accountToken + i, none, foldersFault, none, none, none⟩

def submitted (course : CreationCourse) (s : Registry Unit) :
    Except ServerFnError AccountSummaryDto × Registry Unit :=
  creationEnd plainPlatform latinCases ⟨fun _ _ password => password.toUTF8.toList, fun _ _ => .ok "secret"⟩
    (fun id => "A_" ++ toString id) () course (some ann.authUser) inboxForm s

/-- The request fails and its account stays; the user's retry leaves a second one. -/
theorem account_creation_leaves_account :
    let first := submitted (creationCourse 1 (some (.statement none (some ("5", "database is locked")) "database is locked"))) noAccounts
    let again := submitted (creationCourse 2 none) first.2
    (∃ e, first.1 = .error e) ∧ ¬ noAccounts.host.db.SameRows first.2.host.db ∧ (∃ r, again.1 = .ok r) ∧
      again.2.accounts.rows.map (fun a => (a.id, a.userId, a.emailAddress)) = [(1, 1, "ann@x.org"), (2, 1, "ann@x.org")] := by
  intro first again
  have error : first.1 = .error "Database busy: database is locked" := by decide +kernel
  have account : first.2.accounts.rows.map Account.id = [1] := by decide +kernel
  have ok : again.1 = .ok ⟨"A_2", "Work", "ann@x.org", "PendingFirstSync", none, none⟩ := by decide +kernel
  refine ⟨⟨_, error⟩, fun same => ?_, ⟨_, ok⟩, by decide +kernel⟩
  obtain ⟨a, there, -⟩ := List.mem_map.mp (account ▸ List.mem_singleton.mpr rfl : 1 ∈ first.2.accounts.rows.map Account.id)
  exact Keyed.Table.not_mem_empty a ((same.accounts a).mp there)

end MailKeep
