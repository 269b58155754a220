import MailKeep.Accounts.Creation
import MailKeep.Accounts.Sealing
import MailKeep.Accounts.Versions

/-! The account services over a database encrypted under one key, and over the same database encrypted under another. -/
namespace MailKeep
open Program

section
variable {ι : Type}

/-- One of the starts that `start_all_enabled` makes side by side: that of the row with the number `n` in the list. -/
def startNth (me : ι) (openCredentials : OpenCredentials) (n : Nat) : SyncAction ι Error Unit := do
  match (← tryTransact me .listEnabled)[n]? with
  | some account => startOne me openCredentials account
  | none => pure ()

/-- What users, administrators, the tick and the start of the sync subsystem ask for. -/
inductive OfficeCall
  | account (call : AccountCall)
  | user (request : Request) (client : ClientId) (actor : Option AuthUser)
  | create (actor : Option AuthUser) (payload : NewAccountDto)
  | switch (userId : UserId) (accountId : AccountId) (enabled : Bool)
  | startNth (n : Nat)

inductive OfficeEnd
  | registry (r : RegistryEnd)
  | created (r : Except ServerFnError AccountSummaryDto)
  | switched (r : Except ServerFnError Unit)

def OfficeCall.prog (platform : Platform) (cipher : CredentialCipher) (formatToken : AccountId → String) (me : ι) :
    OfficeCall → Prog (registrySignature ι) OfficeEnd
  | account call => call.prog cipher me >>= fun r => .ret (.registry r)
  | user request client actor => request.prog platform me client actor >>= fun r => .ret (.registry r)
  | create actor payload =>
    (createAccountAndStart formatToken cipher.openCredentials me actor payload).run >>= fun r => .ret (.created r)
  | switch userId accountId enabled =>
    ((syncPart ι).act (setAccountEnabled me cipher.openCredentials userId accountId enabled)).run >>= fun r =>
      .ret (.switched r)
  | startNth n =>
    ((syncPart ι).act (MailKeep.startNth me cipher.openCredentials n)).run >>= fun r => .ret (.registry (.called r))

end

/-- Any number of calls in any order of steps, while other services write every table but the accounts. A restart
leaves no task running. -/
def officeSystem (ι : Type) [DecidableEq ι] (platform : Platform) (cases : Unicode.CaseData)
    (formatToken : AccountId → String) (cipher : CredentialCipher) :
    System (registry ι platform cases cipher) ι OfficeEnd where
  allowed
    | _, .sync .trackedAccounts, order => ∀ ids, (order ids).Perm ids
    | _, _, _ => True
  root _ i p := ∃ call : OfficeCall, p = call.prog platform cipher formatToken i
  env s t := ∃ db : Database, db.accounts = s.accounts ∧ t = s.putDb db
  crash s t := t = { s with host := { s.host with tracked := [] } }

def SyncOp.Keyless {ι : Type} : SyncOp ι → Prop
  | transact _ .listEnabled | transact _ (.enable _ _) | transact _ (.disable _ _) => False
  | _ => True

namespace Rekeying
variable {ι : Type} (k : Rekeying)

inductive SyncOps : Matching (syncSignature ι) (syncSignature ι)
  | same (o : SyncOp ι) (h : o.Keyless) : SyncOps o o Eq
  | listEnabled (me : ι) :
      SyncOps (.transact me .listEnabled) (.transact me .listEnabled) (Likewise k.RowLists)
  | enable (me : ι) (userId : UserId) (accountId : AccountId) :
      SyncOps (.transact me (.enable userId accountId)) (.transact me (.enable userId accountId)) (Likewise k.Rows)
  | disable (me : ι) (userId : UserId) (accountId : AccountId) :
      SyncOps (.transact me (.disable userId accountId)) (.transact me (.disable userId accountId)) (Likewise k.Rows)

inductive Ops : Matching (registrySignature ι) (registrySignature ι)
  | sync {o o' : SyncOp ι} {ρ : o.Value → o'.Value → Prop} (h : k.SyncOps o o' ρ) : Ops (.sync o) (.sync o') ρ
  | user (me : ι) (o : UserOp) : Ops (.user me o) (.user me o) Eq
  | sealPassword (accountId : AccountId) (password : String) :
      Ops (.sealPassword accountId password) (.sealPassword accountId password) fun ct ct' =>
        SealedUnder k.old k.json accountId ct ∧ ct' = CipherService.reencrypt k.old k.new accountId ct
  | accountToken : Ops .accountToken .accountToken Eq
  | folderTokens (n : Nat) : Ops (.folderTokens n) (.folderTokens n) Eq
  | insert (new : NewAccount) (h : SealedUnder k.old k.json new.token new.credentials) :
      Ops (.account (.insert new)) (.account (.insert (new.rekeyed k.old k.new))) (Likewise k.Rows)
  | createFolders (accountId : AccountId) (folders : List NewFolderRow) :
      Ops (.account (.createFolders accountId folders)) (.account (.createFolders accountId folders)) Eq
  | update (userId : UserId) (accountId : AccountId) (expectedVersion : Nat) {change change' : PartialAccountUpdate}
      (h : k.Change accountId change change') :
      Ops (.account (.update userId accountId expectedVersion change))
        (.account (.update userId accountId expectedVersion change')) (Likewise k.Rows)
  | delete (userId : UserId) (accountId : AccountId) :
      Ops (.account (.delete userId accountId)) (.account (.delete userId accountId)) (Likewise k.Rows)

structure Registries (s s' : Registry ι) : Prop where
  is_sealed : s.host.db.Sealed k.old k.json
  eq : s' = s.rekeyed k.old k.new

variable {k}

theorem Registries.databases {s s' : Registry ι} (h : k.Registries s s') : k.Databases s.host.db s'.host.db :=
  ⟨h.is_sealed, h.eq ▸ rfl⟩

theorem Registries.putDb {s s' : Registry ι} (h : k.Registries s s') {db db' : Database} (twin : k.Databases db db') :
    k.Registries (s.putDb db) (s'.putDb db') := by
  refine ⟨twin.is_sealed, ?_⟩
  rw [twin.eq, h.eq]
  rfl

section
variable [DecidableEq ι] {s s' : Registry ι} {formatToken : AccountId → String}

theorem syncTransact (h : k.Registries s s') (me : ι) (t : AccountTxn) {post : t.Result → t.Result → Prop}
    (txn : k.Transactions post t.body t.body) (fault : Option DbErr) :
    Likewise post (s.host.transact me t fault).1 (s'.host.transact me t fault).1 ∧
      k.Registries { s with host := (s.host.transact me t fault).2 } { s' with host := (s'.host.transact me t fault).2 } := by
  unfold SyncHost.transact
  cases fault with
  | some e => exact ⟨.error _, h⟩
  | none =>
    have both := txn _ _ h.databases
    dsimp only
    generalize t.body s.host.db = r at both ⊢
    generalize t.body s'.host.db = r' at both ⊢
    cases both with
    | error e => exact ⟨.error e, h⟩
    | @ok r r' both =>
      obtain ⟨a, db⟩ := r
      obtain ⟨a', db'⟩ := r'
      obtain ⟨values, twin⟩ := both
      obtain ⟨is_sealed, eq⟩ := h.putDb twin
      refine ⟨.ok values, ?_, ?_⟩
      · cases t <;> exact is_sealed
      · dsimp only at twin ⊢
        rw [h.eq, twin.eq]
        cases t <;> rfl

omit [DecidableEq ι] in
theorem accountTransact (h : k.Registries s s') (t t' : RegistryTxn) {post : t.Result → t'.Result → Prop}
    (txn : ∀ users, k.Transactions post (t.body users) (t'.body users)) (fault : Option DbErr) :
    Likewise post (s.transact t fault).1 (s'.transact t' fault).1 ∧
      k.Registries (s.transact t fault).2 (s'.transact t' fault).2 := by
  unfold Registry.transact
  cases fault with
  | some e => exact ⟨.error _, h⟩
  | none =>
    have users : s'.users = s.users := by rw [h.eq]; rfl
    have both := txn s.users _ _ h.databases
    rw [users]
    dsimp only
    generalize t.body s.users s.host.db = r at both ⊢
    generalize t'.body s.users s'.host.db = r' at both ⊢
    cases both with
    | error e => exact ⟨.error e, h⟩
    | @ok r r' both =>
      obtain ⟨a, db⟩ := r
      obtain ⟨a', db'⟩ := r'
      exact ⟨.ok both.1, h.putDb both.2⟩

omit [DecidableEq ι] in
/-- The rows that go with a user are found by their owner, whatever the key. -/
theorem cascade (h : k.Registries s s') (o : UserOp) (reply : o.Value) :
    k.Databases (s.cascade o reply) (s'.cascade o reply) := by
  cases o with
  | encryptPassword _ | loginUser _ _ => exact h.databases
  | transact t =>
    cases t with
    | findById _ | findByUsername _ | findByEmail _ | listUsers _ _ | addUser _ | updateUser _ => exact h.databases
    | deleteUser id =>
      cases reply with
      | error e => exact h.databases
      | ok deleted =>
        change k.Databases (s.host.db.deleteAccounts fun a => (s.accounts.find? a).any (·.userId = id))
          (s'.host.db.deleteAccounts fun a => (s'.accounts.find? a).any (·.userId = id))
        have owned : (fun a => (s'.accounts.find? a).any (·.userId = id)) =
            fun a => (s.accounts.find? a).any (·.userId = id) := by
          funext a
          rw [find? h.databases, Option.any_map]
          rfl
        rw [owned]
        exact deleteAccounts h.databases _

theorem serve (h : k.Registries s s') (platform : Platform) (cases : Unicode.CaseData) (me : ι) (o : UserOp)
    (c : o.Choice) : (s.serve platform cases me o c).1 = (s'.serve platform cases me o c).1 ∧
      k.Registries (s.serve platform cases me o c).2 (s'.serve platform cases me o c).2 := by
  have server : s'.server = s.server := by rw [h.eq]; rfl
  have read : s'.read = s.read := by rw [h.eq]; rfl
  have host : s'.host = { s.host with db := s.host.db.rekeyed k.old k.new } := by rw [h.eq]; rfl
  have rows := cascade h o ((userStore platform cases).exec o c s.server).1
  unfold Registry.serve
  dsimp only
  rw [server, read]
  refine ⟨rfl, rows.is_sealed, ?_⟩
  dsimp only [Registry.putDb]
  rw [rows.eq, host]
  rfl

/-- What an operation does under the one key, the operation that stands for it does under the other. -/
theorem exec (h : k.Registries s s') {platform : Platform} {cases : Unicode.CaseData} {o o' : RegistryOp ι}
    {ρ : o.Value → o'.Value → Prop} (ops : k.Ops o o' ρ) (c : o.Choice)
    (ok : (officeSystem ι platform cases formatToken (credentialCipher k.old k.json)).allowed s o c) :
    ∃ c' : o'.Choice, (officeSystem ι platform cases formatToken (credentialCipher k.new k.json)).allowed s' o' c' ∧
      ρ ((registry ι platform cases (credentialCipher k.old k.json)).exec o c s).1
        ((registry ι platform cases (credentialCipher k.new k.json)).exec o' c' s').1 ∧
      k.Registries ((registry ι platform cases (credentialCipher k.old k.json)).exec o c s).2
        ((registry ι platform cases (credentialCipher k.new k.json)).exec o' c' s').2 := by
  cases ops with
  | user me o => exact ⟨c, trivial, serve h platform cases me o c⟩
  | accountToken => exact ⟨c, trivial, rfl, h⟩
  | folderTokens n => exact ⟨c, trivial, rfl, h⟩
  | sealPassword accountId password =>
    refine ⟨c, trivial, ⟨sealed_sealPassword c password, ?_⟩, h⟩
    exact (CipherService.reencrypt_encrypt k.oldLawful k.new (by simp [nonceBytes])).symm
  | insert new is_sealed =>
    exact ⟨c, trivial, accountTransact h (.insert new) (.insert _) (fun users => insert users is_sealed) c⟩
  | createFolders accountId folders =>
    obtain ⟨values, after⟩ := accountTransact h (.createFolders accountId folders) (.createFolders accountId folders)
      (fun _ => createMany accountId folders) c
    exact ⟨c, trivial, values.eq, after⟩
  | update userId accountId expectedVersion change =>
    exact ⟨c, trivial, accountTransact h (.update userId accountId expectedVersion _)
      (.update userId accountId expectedVersion _)
      (fun _ => updateByVersion userId accountId expectedVersion change) c⟩
  | delete userId accountId =>
    exact ⟨c, trivial, accountTransact h (.delete userId accountId) (.delete userId accountId)
      (fun _ => deleteAccount userId accountId) c⟩
  | @sync o _ _ ops =>
    cases ops with
    | listEnabled me => exact ⟨c, trivial, syncTransact h me .listEnabled listEnabled c⟩
    | enable me userId accountId =>
      exact ⟨c, trivial, syncTransact h me (.enable userId accountId) (setFlags userId accountId true .pendingFirstSync) c⟩
    | disable me userId accountId =>
      exact ⟨c, trivial, syncTransact h me (.disable userId accountId) (setFlags userId accountId false .disabled) c⟩
    | same _ keyless =>
      have tracked : s'.host.tracked = s.host.tracked := by rw [h.eq]; rfl
      cases o with
      | transact me t =>
        cases t with
        | listEnabled => exact keyless.elim
        | enable _ _ => exact keyless.elim
        | disable _ _ => exact keyless.elim
        | setStatus accountId status lastError =>
          obtain ⟨values, after⟩ := syncTransact h me (.setStatus accountId status lastError)
            (setStatus accountId status lastError) c
          exact ⟨c, trivial, values.eq, after⟩
        | listEnabledFolders accountId =>
          obtain ⟨values, after⟩ := syncTransact h me (.listEnabledFolders accountId) (listEnabledForAccount accountId) c
          exact ⟨c, trivial, values.eq, after⟩
      | start _ _ => exact ⟨c, trivial, rfl, h.is_sealed, by rw [h.eq]; rfl⟩
      | stop _ => exact ⟨c, trivial, rfl, h.is_sealed, by rw [h.eq]; rfl⟩
      | reclaim _ _ => exact ⟨c, trivial, rfl, h.is_sealed, by rw [h.eq]; rfl⟩
      | status accountId =>
        refine ⟨c, trivial, ?_, h⟩
        change _ = Except.ok (if s'.host.tracked.any _ then _ else _)
        rw [tracked]
      | trackedAccounts =>
        refine ⟨c, ok, ?_, h⟩
        change _ = c (s'.host.tracked.map Prod.fst)
        rw [tracked]

end

section
variable {me : ι}

/-- A program of the sync service that neither takes nor returns credentials. -/
theorem keyless {α ε : Type} {x : SyncAction ι ε α} (h : OnlyAct SyncOp.Keyless x) :
    MatchesAct k.SyncOps Eq x x :=
  MatchesAct.of_only h .same

/-- A program of the sync service as one of the registry. -/
theorem onRegistry {α β ε : Type} {post : α → β → Prop} {x : SyncAction ι ε α} {y : SyncAction ι ε β}
    (h : MatchesAct k.SyncOps post x y) : MatchesAct k.Ops post ((syncPart ι).act x) ((syncPart ι).act y) :=
  Prog.Matches.embed h fun _ _ _ ops => .sync ops

theorem onUsers {α ε : Type} (x : UserAction ε α) :
    MatchesAct k.Ops Eq ((userPart me).act x) ((userPart me).act x) := by
  have only : OnlyAct (fun o : RegistryOp ι => ∃ q, o = .user me q) ((userPart me).act x) :=
    OnlyAct.embed (userPart me) (Prog.only_true x.run) fun q _ => ⟨q, rfl⟩
  refine MatchesAct.of_only only ?_
  rintro o ⟨q, rfl⟩
  exact .user me q

theorem openCredentials {a a' : Account} (rows : k.Rows a a') : Likewise Eq
    (decryptPassword k.old k.json a.id a.credentials) (decryptPassword k.new k.json a'.id a'.credentials) := by
  obtain ⟨password, opened, opened'⟩ := rows.is_sealed.opens k.oldLawful k.newLawful k.jsonLawful
  rw [rows.eq, opened]
  change Likewise Eq _ (decryptPassword k.new k.json a.id (CipherService.reencrypt k.old k.new a.id a.credentials))
  rw [opened']
  exact .ok rfl

private theorem startOne_matches {a a' : Account} (rows : k.Rows a a') : MatchesAct k.SyncOps Eq
    (startOne me (decryptPassword k.old k.json) a) (startOne me (decryptPassword k.new k.json) a') := by
  have opened := openCredentials rows
  obtain ⟨-, rfl⟩ := rows
  refine MatchesAct.seq (keyless (OnlyAct.op trivial)) fun folders _ same => ?_
  subst same
  refine MatchesAct.seq (MatchesAct.liftResult opened) fun password _ same => ?_
  subst same
  refine MatchesAct.seq (MatchesAct.attempt (keyless (OnlyAct.op trivial))) fun r r' outcome => ?_
  cases outcome with
  | ok _ => exact keyless (OnlyAct.op trivial)
  | error e =>
    refine keyless (OnlyAct.seq (OnlyAct.attempt (OnlyAct.op trivial)) fun _ => OnlyAct.throw e)

theorem listed : MatchesAct k.SyncOps k.RowLists (tryTransact me .listEnabled) (tryTransact me .listEnabled) :=
  MatchesAct.op (.listEnabled me) fun _ _ outcome => outcome

private theorem startAccount_matches (accountId : AccountId) : MatchesAct k.SyncOps Eq
    (startAccount me (decryptPassword k.old k.json) accountId)
    (startAccount me (decryptPassword k.new k.json) accountId) := by
  refine MatchesAct.seq listed fun as as' rows => ?_
  obtain ⟨is_sealed, rfl⟩ := rows
  rw [List.find?_map]
  change MatchesAct _ _ _ (match (as.find? (·.id = accountId)).map (·.rekeyed k.old k.new) with
    | some account => startOne me _ account
    | none => _)
  cases found : as.find? (·.id = accountId) with
  | none => exact MatchesAct.throw _
  | some a => exact startOne_matches ⟨is_sealed a (List.mem_of_find?_eq_some found), rfl⟩

private theorem startNth_matches (n : Nat) : MatchesAct k.SyncOps Eq
    (startNth me (decryptPassword k.old k.json) n) (startNth me (decryptPassword k.new k.json) n) := by
  refine MatchesAct.seq listed fun as as' rows => ?_
  obtain ⟨is_sealed, rfl⟩ := rows
  rw [List.getElem?_map]
  cases found : as[n]? with
  | none => exact MatchesAct.pure rfl
  | some a => exact startOne_matches ⟨is_sealed a (List.mem_of_getElem? found), rfl⟩

/-- Statuses are driven by ids and statuses, which the key leaves alone. -/
private theorem driveStatuses_rekeyed (as : List Account) :
    driveStatuses me (as.map (·.rekeyed k.old k.new)) = driveStatuses me as := by
  induction as with
  | nil => rfl
  | cons a as ih =>
    rw [List.map_cons]
    unfold driveStatuses
    rw [ih]
    rfl

private theorem keyless_driveStatuses (as : List Account) : OnlyAct SyncOp.Keyless (driveStatuses me as) := by
  induction as with
  | nil => exact OnlyAct.pure ()
  | cons a as ih =>
    unfold driveStatuses
    refine OnlyAct.seq (OnlyAct.attempt (OnlyAct.op trivial)) fun r => ?_
    cases r with
    | error e => exact ih
    | ok live =>
      dsimp only
      cases desiredStatus live.state with
      | none => exact ih
      | some desired =>
        dsimp only
        split
        · exact OnlyAct.seq (OnlyAct.attempt (OnlyAct.op trivial)) fun _ => ih
        · exact ih

private theorem keyless_tearDown (enabledIds ids : List AccountId) : OnlyAct SyncOp.Keyless
    (tearDown me enabledIds ids) := by
  induction ids with
  | nil => exact OnlyAct.pure ()
  | cons id ids ih =>
    unfold tearDown
    split
    · exact OnlyAct.seq (OnlyAct.attempt (OnlyAct.op trivial)) fun _ => ih
    · exact ih

private theorem reconcileStatuses_matches : MatchesAct k.SyncOps Eq (reconcileStatuses me) (reconcileStatuses me) := by
  refine MatchesAct.seq listed fun as as' rows => ?_
  obtain ⟨-, rfl⟩ := rows
  have ids : (as.map (·.rekeyed k.old k.new)).map Account.id = as.map Account.id := by
    rw [List.map_map]
    rfl
  rw [driveStatuses_rekeyed, ids]
  exact keyless (OnlyAct.seq (keyless_driveStatuses as) fun _ => OnlyAct.seq (OnlyAct.op trivial) fun tracked =>
    keyless_tearDown _ tracked)

theorem switchedFlags {t : AccountTxn} {post : t.Result → t.Result → Prop}
    (ops : k.SyncOps (.transact me t) (.transact me t) (Likewise post)) :
    MatchesAct k.SyncOps post (tryTransact me t) (tryTransact me t) :=
  MatchesAct.op ops fun _ _ outcome => outcome

private theorem setAccountEnabled_matches (userId : UserId) (accountId : AccountId) (enabled : Bool) :
    MatchesAct k.SyncOps Eq (setAccountEnabled me (decryptPassword k.old k.json) userId accountId enabled)
      (setAccountEnabled me (decryptPassword k.new k.json) userId accountId enabled) := by
  unfold setAccountEnabled
  split
  · exact MatchesAct.seq (MatchesAct.mapErr (switchedFlags (.enable me userId accountId))) fun _ _ _ =>
      MatchesAct.mapErr (startAccount_matches accountId)
  · exact MatchesAct.seq (MatchesAct.mapErr (switchedFlags (.disable me userId accountId))) fun _ _ _ =>
      MatchesAct.mapErr (keyless (OnlyAct.op trivial))

theorem unitOf_matches {α : Type} {post : α → α → Prop} {x y : RegistryAction ι Error α}
    (h : MatchesAct k.Ops post x y) : MatchesAct k.Ops Eq (unitOf x) (unitOf y) :=
  MatchesAct.seq h fun _ _ _ => MatchesAct.pure rfl

private theorem registryTransact_matches {t t' : RegistryTxn} {post : t.Result → t'.Result → Prop}
    (ops : k.Ops (ι := ι) (.account t) (.account t') (Likewise post)) :
    MatchesAct k.Ops post (registryTransact t : RegistryAction ι Error t.Result) (registryTransact t') :=
  MatchesAct.op ops fun _ _ outcome => outcome

private theorem encryptCredentials_matches (accountId : AccountId) (password : String) :
    MatchesAct k.Ops (fun ct ct' =>
        SealedUnder k.old k.json accountId ct ∧ ct' = CipherService.reencrypt k.old k.new accountId ct)
      (encryptCredentials accountId password : RegistryAction ι Error Bytes) (encryptCredentials accountId password) :=
  MatchesAct.op (.sealPassword accountId password) fun _ _ both => .ok both

private theorem updateAccount_matches (userId : UserId) (accountId : AccountId) (expectedVersion : Nat)
    (input : PartialAccountInput) :
    MatchesAct k.Ops k.Rows (MailKeep.updateAccount userId accountId expectedVersion input : RegistryAction ι Error Account)
      (MailKeep.updateAccount userId accountId expectedVersion input) := by
  refine MatchesAct.seq (MatchesAct.liftResult (Likewise.refl _)) fun _ _ _ => ?_
  have encrypted : MatchesAct k.Ops (fun ct ct' => (∀ c ∈ ct, SealedUnder k.old k.json accountId c) ∧
      ct' = ct.map (CipherService.reencrypt k.old k.new accountId))
      (encryptNew accountId input.password : RegistryAction ι Error (Option Bytes))
      (encryptNew accountId input.password) := by
    unfold encryptNew
    cases input.password with
    | none => exact MatchesAct.pure ⟨nofun, rfl⟩
    | some password =>
      refine MatchesAct.seq (encryptCredentials_matches accountId password) fun ct ct' both => MatchesAct.pure ⟨?_, ?_⟩
      · rintro c ⟨⟩
        exact both.1
      · exact congrArg some both.2
  refine MatchesAct.seq encrypted fun ct ct' both => ?_
  refine registryTransact_matches (.update userId accountId expectedVersion ⟨both.1, ?_⟩)
  rw [both.2]
  rfl

private theorem createAccount_matches (params : CreateAccountParams) :
    MatchesAct k.Ops k.Rows (createAccount params : RegistryAction ι Error Account) (createAccount params) := by
  refine MatchesAct.seq (MatchesAct.liftResult (Likewise.refl _)) fun _ _ _ => ?_
  refine MatchesAct.seq (MatchesAct.op .accountToken fun r r' same => Likewise.ok same) fun token _ same => ?_
  subst same
  refine MatchesAct.seq (encryptCredentials_matches token params.password) fun ct ct' both => ?_
  obtain ⟨is_sealed, rfl⟩ := both
  exact registryTransact_matches (.insert (params.newAccount token ct) is_sealed)

private theorem createFolders_matches (accountId : AccountId) (requests : List NewFolderRequest) :
    MatchesAct k.Ops Eq (createFoldersForAccount accountId requests : RegistryAction ι Error (List Folder))
      (createFoldersForAccount accountId requests) := by
  refine MatchesAct.seq (MatchesAct.op (.folderTokens requests.length) fun r r' same => Likewise.ok same)
    fun tokens _ same => ?_
  subst same
  refine MatchesAct.op (.createFolders accountId _) fun r r' same => ?_
  subst same
  exact Likewise.refl r

private theorem createAccountAndStart_matches (formatToken : AccountId → String) (actor : Option AuthUser)
    (payload : NewAccountDto) : MatchesAct k.Ops Eq
      (createAccountAndStart formatToken (decryptPassword k.old k.json) me actor payload)
      (createAccountAndStart formatToken (decryptPassword k.new k.json) me actor payload) := by
  have checked : MatchesAct k.Ops Eq
      (mapErr toServerErr (liftResult (EmailAddress.new payload.email)) : RegistryAction ι ServerFnError EmailAddress)
      (mapErr toServerErr (liftResult (EmailAddress.new payload.email))) :=
    MatchesAct.mapErr (MatchesAct.liftResult (Likewise.refl (EmailAddress.new payload.email)))
  have account (params : CreateAccountParams) : MatchesAct k.Ops k.Rows
      (mapErr toServerErr (createAccount params) : RegistryAction ι ServerFnError Account)
      (mapErr toServerErr (createAccount params)) :=
    MatchesAct.mapErr (createAccount_matches params)
  have folders (accountId : AccountId) : MatchesAct k.Ops Eq
      (mapErr toServerErr (createFoldersForAccount accountId payload.requests) :
        RegistryAction ι ServerFnError (List Folder))
      (mapErr toServerErr (createFoldersForAccount accountId payload.requests)) :=
    MatchesAct.mapErr (createFolders_matches accountId payload.requests)
  have started (accountId : AccountId) : MatchesAct k.Ops Eq
      (mapErr toServerErr ((syncPart ι).act (startAccount me (decryptPassword k.old k.json) accountId)) :
        RegistryAction ι ServerFnError Unit)
      (mapErr toServerErr ((syncPart ι).act (startAccount me (decryptPassword k.new k.json) accountId))) :=
    MatchesAct.mapErr (onRegistry (startAccount_matches accountId))
  unfold createAccountAndStart
  refine MatchesAct.seq (onUsers (authenticatedUser actor)) fun user _ same => ?_
  subst same
  refine MatchesAct.seq checked fun email _ same => ?_
  subst same
  refine MatchesAct.seq (account _) fun a a' rows => ?_
  obtain ⟨-, rfl⟩ := rows
  refine MatchesAct.seq (folders a.id) fun _ _ _ => ?_
  refine MatchesAct.seq (started a.id) fun _ _ _ => ?_
  exact MatchesAct.pure rfl

private theorem handle_matches (call : AccountCall) : MatchesAct k.Ops Eq
    (call.handle (credentialCipher k.old k.json) me) (call.handle (credentialCipher k.new k.json) me) := by
  cases call with
  | enable userId accountId => exact unitOf_matches (onRegistry (switchedFlags (.enable me userId accountId)))
  | disable userId accountId => exact unitOf_matches (onRegistry (switchedFlags (.disable me userId accountId)))
  | startAccount accountId => exact onRegistry (startAccount_matches accountId)
  | stopAccount accountId => exact onRegistry (keyless (OnlyAct.op trivial))
  | updateAccount userId accountId expectedVersion input =>
    exact unitOf_matches (updateAccount_matches userId accountId expectedVersion input)
  | deleteAccount userId accountId => exact unitOf_matches (registryTransact_matches (.delete userId accountId))
  | reconcileStatuses => exact onRegistry reconcileStatuses_matches

private theorem prog_matches (platform : Platform) (formatToken : AccountId → String) (call : OfficeCall) :
    (call.prog platform (credentialCipher k.old k.json) formatToken me).Matches k.Ops Eq
      (call.prog platform (credentialCipher k.new k.json) formatToken me) := by
  cases call with
  | account call => exact ((handle_matches call).run.map RegistryEnd.called).map OfficeEnd.registry
  | user request client actor =>
    exact ((onUsers (request.handle platform client actor)).run.map RegistryEnd.answered).map OfficeEnd.registry
  | create actor payload => exact (createAccountAndStart_matches formatToken actor payload).run.map OfficeEnd.created
  | switch userId accountId enabled =>
    exact (onRegistry (setAccountEnabled_matches userId accountId enabled)).run.map OfficeEnd.switched
  | startNth n => exact (onRegistry (startNth_matches n)).run.map fun r => OfficeEnd.registry (.called r)

end

variable [DecidableEq ι] {platform : Platform} {cases : Unicode.CaseData} {formatToken : AccountId → String}

private theorem simulates : (officeSystem ι platform cases formatToken (credentialCipher k.old k.json)).Simulates
    (officeSystem ι platform cases formatToken (credentialCipher k.new k.json)) k.Ops k.Registries Eq where
  root s s' i p _ := by
    rintro ⟨call, rfl⟩
    exact ⟨_, ⟨call, rfl⟩, prog_matches platform formatToken call⟩
  op s s' o o' ρ c h ops ok := exec h ops c ok
  env s s' t h := by
    rintro ⟨db, accounts, rfl⟩
    have is_sealed : db.Sealed k.old k.json := by
      unfold Database.Sealed
      rw [accounts]
      exact h.is_sealed
    refine ⟨_, ⟨db.rekeyed k.old k.new, ?_, rfl⟩, is_sealed, ?_⟩
    · rw [h.eq]
      exact congrArg (fun t : Keyed.Table Account.id => t.map (·.rekeyed k.old k.new) fun a => a.rekeyed_id k.old k.new)
        accounts
    · rw [h.eq]
      rfl
  crash s s' t h := by
    rintro rfl
    refine ⟨_, rfl, h.is_sealed, ?_⟩
    rw [h.eq]
    rfl

end Rekeying

/-- Every run has its like over the database that is encrypted under another key: the same results, the same running
tasks and the same rows but for their credentials; and under either key these open to the same passwords. -/
theorem runs_under_other_key {ι : Type} [DecidableEq ι] (k : Rekeying) (platform : Platform) (cases : Unicode.CaseData)
    (formatToken : AccountId → String) {s : Registry ι} (is_sealed : s.host.db.Sealed k.old k.json)
    {c : Config (registry ι platform cases (credentialCipher k.old k.json)) ι OfficeEnd}
    (run : (officeSystem ι platform cases formatToken (credentialCipher k.old k.json)).Reaches (.idle s) c) :
    (∃ c' : Config (registry ι platform cases (credentialCipher k.new k.json)) ι OfficeEnd,
      (officeSystem ι platform cases formatToken (credentialCipher k.new k.json)).Reaches
        (.idle (s.rekeyed k.old k.new)) c' ∧
      c'.state = c.state.rekeyed k.old k.new ∧ ∀ i, c'.result? i = c.result? i) ∧
    ∀ a ∈ c.state.accounts, ∃ password, decryptPassword k.old k.json a.id a.credentials = .ok password ∧
      decryptPassword k.new k.json a.id (a.rekeyed k.old k.new).credentials = .ok password := by
  obtain ⟨c', run', related⟩ := (Rekeying.simulates (k := k)).reaches ⟨is_sealed, rfl⟩ run
  refine ⟨⟨c', run', related.state.eq, related.result?⟩, fun a ha => ?_⟩
  exact (related.state.is_sealed a ha).opens k.oldLawful k.newLawful k.jsonLawful

/-- The account id goes in front of the ciphertext, which is the message with each byte moved on by the key. -/
def shifting (key : UInt8) : Aead where
  encrypt _ aad msg := aad ++ msg.map (· + key)
  decrypt _ aad ct := if ct.take aad.length = aad then some ((ct.drop aad.length).map (· - key)) else none

private theorem shifting_lawful (key : UInt8) : (shifting key).Lawful := by
  intro nonce aad msg _
  have bytes : (msg.map (· + key)).map (· - key) = msg := by
    rw [List.map_map]
    exact (List.map_congr_left fun b _ => UInt8.add_sub_cancel b key).trans (List.map_id msg)
  simp [shifting, bytes]

/-- `{"Password":"…"}`, for passwords without anything to escape. -/
def passwordJson : CredentialsJson where
  toVec | .password password => ("\x7b\"Password\":\"" ++ password ++ "\"\x7d").toUTF8.data.toList
  fromSlice bytes :=
    match String.fromUTF8? ⟨bytes.toArray⟩ with
    | none => .error "invalid unicode code point"
    | some text => .ok (.password (String.ofList ((text.toList.drop 13).dropLast.dropLast)))

private theorem passwordJson_lawful : passwordJson.Lawful := by
  rintro ⟨password⟩
  have valid (text : String) : String.fromUTF8? ⟨text.toUTF8.data.toList.toArray⟩ = some text := by
    rw [Array.toArray_toList]
    exact dif_pos text.isValidUTF8
  have inner : (("\x7b\"Password\":\"" ++ password ++ "\"\x7d").toList.drop 13).dropLast.dropLast = password.toList := by
    rw [String.toList_append, String.toList_append]
    change (((_ :: _ :: _ :: _ :: _ :: _ :: _ :: _ :: _ :: _ :: _ :: _ :: _ :: ([] : List Char)) ++ password.toList ++
      ['"', '\x7d']).drop 13).dropLast.dropLast = _
    simp
  dsimp only [passwordJson]
  rw [valid]
  dsimp only
  rw [inner, String.ofList_toList]

/-- One account, its password encrypted under the key `1`. -/
def sealedWork : Registry Nat where
  host := { quietHost with db := { quietHost.db with
    accounts := ⟨[{ workAccount with credentials :=
      (credentialCipher (shifting 1) passwordJson).sealPassword 0 1 "secret" }], List.nodup_singleton _⟩ } }
  server := annServer
  read _ := none

def keyChange : Rekeying where
  old := shifting 1
  new := shifting 2
  json := passwordJson
  oldLawful := shifting_lawful 1
  newLawful := shifting_lawful 2
  jsonLawful := passwordJson_lawful

abbrev sealedOffice := officeSystem Nat plainPlatform latinCases toString (credentialCipher (shifting 1) passwordJson)

def sealedStart : Config (registry Nat plainPlatform latinCases (credentialCipher (shifting 1) passwordJson)) Nat OfficeEnd :=
  (Config.idle sealedWork).set sealedWork 0
    ((OfficeCall.account (.startAccount 1)).prog plainPlatform (credentialCipher (shifting 1) passwordJson) toString 0)

def sealedStarted := [0, 0, 0, 0].foldl (fun c i => c.advance calmly i) sealedStart

theorem runs_under_other_key_started :
    sealedStarted.state.host.tracked = [(1, ⟨workAccount.server, workAccount.username, "secret", []⟩)] ∧
      ∃ c' : Config (registry Nat plainPlatform latinCases (credentialCipher (shifting 2) passwordJson)) Nat OfficeEnd,
        (officeSystem Nat plainPlatform latinCases toString (credentialCipher (shifting 2) passwordJson)).Reaches
          (.idle (sealedWork.rekeyed (shifting 1) (shifting 2))) c' ∧
        c'.state.host.tracked = sealedStarted.state.host.tracked := by
  have calm (s : Registry Nat) (o : RegistryOp Nat) : sealedOffice.allowed s o (calmly o) := by
    cases o with
    | sync o =>
      cases o with
      | trackedAccounts => exact fun ids => List.Perm.refl ids
      | transact _ _ | start _ _ | stop _ | reclaim _ _ | status _ => trivial
    | account _ | user _ _ | sealPassword _ _ | accountToken | folderTokens _ => trivial
  have run : sealedOffice.Reaches (.idle sealedWork) sealedStarted :=
    .trans (.single (System.step_start rfl ⟨_, rfl⟩)) (System.reaches_schedule (fun _ => calm) sealedStart [0, 0, 0, 0])
  have is_sealed : sealedWork.host.db.Sealed (shifting 1) passwordJson := by
    intro a ha
    obtain rfl := List.mem_singleton.mp ha
    exact sealed_sealPassword 0 "secret"
  obtain ⟨⟨c', run', state, -⟩, -⟩ :=
    runs_under_other_key keyChange plainPlatform latinCases toString is_sealed run
  exact ⟨by decide +kernel, c', run', (congrArg (fun s : Registry Nat => s.host.tracked) state).trans rfl⟩
end MailKeep
