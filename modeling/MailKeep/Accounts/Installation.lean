import MailKeep.Accounts.Sync
import MailKeep.Parser.Handler
import MailKeep.Program.Embed
import MailKeep.Search.Indexer

/-! The whole installation that the deletion of an account reaches: the database with the users, the blob
stores, the index with its one writer, and the sync tasks. -/
namespace MailKeep
open Program

inductive Store
  | raw
  | attachments
  | docs
deriving DecidableEq

/-- `docs` is the committed index, `writer` what a commit would leave, `locked` that a batch holds the writer.
The last two fields are a history: what has been cleaned, and the cleanups that failed with a warning. -/
structure Installation where
  world : World
  users : Users
  login : ClientId → Option UserId
  docs : List Document
  writer : List Document
  locked : Bool
  fetched : MessageId → Option (Except Error Bytes)
  running : AccountId → Bool
  cleaned : AccountId → Store → Bool
  warnings : List (AccountId × Store)

/-- A removal that fails may have removed a part already; for documents, it may have committed. -/
structure RemoveFault where
  error : Error
  left : ContentHash → Bool
  termDeleted : Bool
  committed : Bool

inductive InstallationOp
  | backend (o : BackendOp)
  | index (o : IndexOp)
  | user (o : UserOp)
  | getAccount (userId : UserId) (accountId : AccountId)
  | deleteAccount (userId : UserId) (accountId : AccountId)
  | stopAccount (accountId : AccountId)
  | remove (accountId : AccountId) (store : Store)
  | warn (accountId : AccountId) (store : Store)

abbrev InstallationOp.Value : InstallationOp → Type
  | backend o => o.Value
  | index o => o.Value
  | user o => o.Value
  | getAccount _ _ | deleteAccount _ _ => Except Error Account
  | stopAccount _ | remove _ _ => Except Error Unit
  | warn _ _ => Unit

abbrev InstallationOp.Choice : InstallationOp → Type
  | backend o => o.Choice
  | index o => o.Choice
  | user o => o.Choice
  | getAccount _ _ | deleteAccount _ _ => Option DbErr
  | remove _ _ => Option RemoveFault
  | stopAccount _ | warn _ _ => Unit

def removeBlobs (store : AccountId → ContentHash → Option Bytes) (accountId : AccountId)
    (left : ContentHash → Bool) :
    AccountId → ContentHash → Option Bytes := fun a k =>
  if a = accountId ∧ left k = false then none else store a k

namespace Installation

def indexWorld (s : Installation) : IndexWorld where
  messages := s.world.db.messages
  raw := s.world.raw
  index := some ⟨buildSchema, s.docs⟩
  sidecar := none
  writer := some s.writer
  release := currentRelease
  serving := true
  fetched := s.fetched
  holdings := .all

def putIndex (s : Installation) (w : IndexWorld) : Installation :=
  { s with
    world := { s.world with db := { s.world.db with messages := w.messages } }
    docs := (w.index.map DiskIndex.docs).getD s.docs
    writer := w.writer.getD s.writer
    fetched := w.fetched }

/-- A batch holds the writer from `lockWriter` until its commit, or until a document cannot be added. -/
def lockAfter : (o : IndexOp) → o.Value → Bool → Bool
  | .lockWriter, .ok (), _ => true
  | .addDocument _, .error _, _ | .commit, _, _ => false
  | _, _, locked => locked

/-- The rows of the accounts of a user who is gone go with the user. -/
def cascade (s : Installation) : (o : UserOp) → o.Value → Database
  | .transact (.deleteUser id), .ok _ => s.world.db.deleteAccounts fun a =>
    (s.world.db.accounts.find? a).any (·.userId = id)
  | _, _ => s.world.db

def transact (s : Installation) (body : Transaction Account) : Option DbErr → Except Error Account × Installation
  | some e => (.error (.repositoryError (handleDberr e)), s)
  | none =>
    match body s.world.db with
    | .error e => (.error e, s)
    | .ok (account, db) => (.ok account, { s with world := { s.world with db := db } })

theorem transact_ok {s : Installation} {body : Transaction Account} {c : Option DbErr} {account : Account}
    (h : (s.transact body c).1 = .ok account) :
    ∃ db, body s.world.db = .ok (account, db) ∧ (s.transact body c).2 =
      { s with world := { s.world with db := db } } := by
  unfold transact at h ⊢
  split at h
  · cases h
  · split at h
    · cases h
    · rename_i found db hb
      cases h
      exact ⟨db, hb, rfl⟩

def clean (s : Installation) (accountId : AccountId) (store : Store) : Installation :=
  { s with cleaned := fun a t => decide (a = accountId ∧ t = store) || s.cleaned a t }

def deleteTerm (s : Installation) (accountId : AccountId) : Installation :=
  { s with writer := s.writer.filter fun d => d.accountId ≠ accountId }

def commit (s : Installation) : Installation := { s with docs := s.writer }

/-- What a removal does before it is through, or before it fails. -/
def removePart (s : Installation) (accountId : AccountId) (fault : Option RemoveFault) : Store → Installation
  | .raw => { s with world.raw := removeBlobs s.world.raw accountId (fault.elim (fun _ => false) RemoveFault.left) }
  | .attachments =>
    { s with world.attachments := removeBlobs s.world.attachments accountId (fault.elim (fun _ => false) RemoveFault.left) }
  | .docs =>
    match fault with
    | none => (s.deleteTerm accountId).commit
    | some f => if f.termDeleted then (if f.committed then (s.deleteTerm accountId).commit else s.deleteTerm accountId) else s

/-- The installation with no history yet. -/
def atStart (s : Installation) : Installation := { s with cleaned := fun _ _ => false, warnings := [] }

end Installation

abbrev installationSignature : Signature := ⟨InstallationOp, InstallationOp.Value⟩

abbrev installation (computeHash : Bytes → ContentHash) (platform : Platform)
    (cases : Unicode.CaseData) : Machine where
  toSignature := installationSignature
  State := Installation
  Choice := InstallationOp.Choice
  exec
    | .backend o, c, s =>
      let (reply, world) := backendExec computeHash o c s.world
      (reply, { s with world := world })
    | .index o, c, s =>
      let (reply, w) := indexExec o c s.indexWorld
      (reply, { s.putIndex w with locked := Installation.lockAfter o reply s.locked })
    | .user o, c, s =>
      let (reply, server) := (userStore platform cases).exec o c ⟨s.users, s.login⟩
      (reply, { s with
        users := server.users
        login := server.login
        world := { s.world with db := s.cascade o reply } })
    | .getAccount userId accountId, c, s => s.transact (AccountService.ownAccount userId accountId) c
    | .deleteAccount userId accountId, c, s => s.transact (AccountService.deleteAccount userId accountId) c
    | .stopAccount accountId, _, s => (.ok (), { s with running := Function.update s.running accountId false })
    | .remove accountId store, none, s => (.ok (), (s.removePart accountId none store).clean accountId store)
    | .remove accountId store, some f, s => (.error f.error, s.removePart accountId (some f) store)
    | .warn accountId store, _, s => ((), { s with warnings := (accountId, store) :: s.warnings })

abbrev InstallationAction (ε α : Type) := Action installationSignature ε α

def onBackend : Embedding backendSignature installationSignature := ⟨.backend, fun _ r => r⟩

def onIndex : Embedding indexSignature installationSignature := ⟨.index, fun _ r => r⟩

def onUsers : Embedding userSignature installationSignature := ⟨.user, fun _ r => r⟩

/-- Best-effort cleanup: a failure is logged and the deletion goes on. -/
def removeOrWarn (accountId : AccountId) (store : Store) : InstallationAction Error Unit := do
  match ← attempt (.mk (.call (InstallationOp.remove accountId store) .ret) : InstallationAction Error Unit) with
  | .ok () => pure ()
  | .error _ => .mk (.call (InstallationOp.warn accountId store) fun _ => .ret (.ok ()))

/-- `AccountService::delete_account`. -/
def deleteAccount (userId : UserId) (accountId : AccountId) : InstallationAction Error Unit := do
  let account ← (.mk (.call (InstallationOp.deleteAccount userId accountId) .ret) : InstallationAction Error Account)
  removeOrWarn account.id .raw
  removeOrWarn account.id .attachments
  removeOrWarn account.id .docs

/-- The request to delete an account: the task is stopped first, then the service deletes. -/
def AccountActions.deleteAccount (parseAccountToken : String → Except Error AccountId) (actor : Option AuthUser)
    (accountToken : String) : InstallationAction ServerFnError Unit := do
  let user ← onUsers.act (authenticatedUser actor)
  let accountId ← mapErr toServerErr (liftResult (parseAccountToken accountToken))
  let _ ← mapErr toServerErr
    (.mk (.call (InstallationOp.getAccount user.id accountId) .ret) : InstallationAction Error Account)
  let _ ← (attempt (.mk (.call (InstallationOp.stopAccount accountId) .ret) : InstallationAction Error Unit) :
    InstallationAction ServerFnError (Except Error Unit))
  mapErr toServerErr (MailKeep.deleteAccount user.id accountId)

end MailKeep
