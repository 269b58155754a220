import MailKeep.Accounts.Deletion
import MailKeep.Database.UserReads
import MailKeep.Frontend.ArchivedMail
import MailKeep.Imap.PassRules
import MailKeep.Program.Embedded

/-! The viewer shows what the parser made of the stored mail, whatever else the server does. -/
namespace MailKeep
open Program Backend

/-- A transaction on the account rows changes nothing, or it goes through. -/
theorem Installation.transact_cases (s : Installation) (body : Transaction Account) (c : Option DbErr) :
    (s.transact body c).2 = s ∨ ∃ account db, body s.world.db = .ok (account, db) ∧
      (s.transact body c).2 = { s with world := { s.world with db := db } } := by
  cases result : (s.transact body c).1 with
  | ok account =>
    obtain ⟨db, ok, after⟩ := transact_ok result
    exact .inr ⟨account, db, ok, after⟩
  | error e =>
    refine .inl ?_
    unfold transact at result ⊢
    split
    · rfl
    · split
      · rfl
      · rename_i through
        simp only [through] at result
        cases result

namespace Viewing
variable {computeHash : Bytes → ContentHash} {platform : Platform} {cases : Unicode.CaseData} {parseEml : ParseEml}
  {s t : Viewing}

def Ready (computeHash : Bytes → ContentHash) (parseEml : ParseEml) (s : Viewing) : ViewingOp → Prop
  | .installation (.backend (.transact (.recordParsedMessage payload message))) =>
    Archivable computeHash parseEml s payload message
  | .installation (.remove accountId _) => accountId ∈ s.retired
  | _ => True

private theorem Intact.same {after : Installation} (h : Intact computeHash parseEml s)
    (world : after.world = s.world) : Intact computeHash parseEml (s.next after) ∧ Preserves s (s.next after) := by
  refine h.tended (.of_rows ?_ ?_ ?_ (.of_eq ?_) (.of_eq ?_))
  all_goals rw [world]

/-- Each operation that is ready keeps what is archived. -/
theorem Intact.exec (h : Intact computeHash parseEml s) {o : ViewingOp} {c : o.Choice}
    (ready : Ready computeHash parseEml s o) :
    Intact computeHash parseEml ((viewing computeHash platform cases).exec o c s).2 ∧
      Preserves s ((viewing computeHash platform cases).exec o c s).2 := by
  cases o with
  | getMessage userId messageId => exact ⟨h, .refl s⟩
  | installation o =>
    cases o with
    | backend o =>
      by_cases records : o.Records
      · cases o with
        | transact x =>
          cases x with
          | recordParsedMessage payload message =>
            rcases s.world.transact_cases (.recordParsedMessage payload message) c with ⟨e, he⟩ | ⟨d, r, db, -, body, ok⟩
            · exact h.same (congrArg Prod.snd he)
            · exact h.recorded ready body (congrArg Prod.snd ok)
          | _ => exact records.elim
        | _ => exact records.elim
      · exact h.tended (.of_aside (backendExec_aside records c s.world))
    | index o => exact h.tended (.of_index rfl)
    | user o =>
      have cascade : (s.installation.cascade o ((userStore platform cases).exec o c
          ⟨s.installation.users, s.installation.login⟩).1 = s.world.db) ∨ ∃ gone, s.installation.cascade o
            ((userStore platform cases).exec o c ⟨s.installation.users, s.installation.login⟩).1 =
              s.world.db.deleteAccounts gone := by
        unfold Installation.cascade
        split
        · exact .inr ⟨_, rfl⟩
        · exact .inl rfl
      rcases cascade with none | ⟨gone, deleted⟩
      · exact h.same (congrArg (fun db => { s.world with db := db }) none)
      · exact h.deleteAccounts (congrArg (fun db => { s.world with db := db }) deleted)
    | getAccount userId accountId =>
      rcases s.installation.transact_cases (AccountService.ownAccount userId accountId) c with same | ⟨account, db, body, ok⟩
      · exact h.same (congrArg Installation.world same)
      · obtain ⟨rfl, -⟩ := AccountService.ownAccount_ok body
        exact h.same (congrArg Installation.world ok)
    | deleteAccount userId accountId =>
      rcases s.installation.transact_cases (AccountService.deleteAccount userId accountId) c with same | ⟨account, db, body, ok⟩
      · exact h.same (congrArg Installation.world same)
      · obtain ⟨-, -, rfl⟩ := AccountService.deleteAccount_ok body
        exact h.deleteAccounts (congrArg Installation.world ok)
    | stopAccount accountId => exact h.same rfl
    | remove accountId store =>
      cases c with
      | none => exact h.tended (.of_removePart ready none store rfl)
      | some f => exact h.tended (.of_removePart ready (some f) store rfl)
    | warn accountId store => exact h.same rfl

section
variable {ε α : Type}

end

end Viewing

section
variable (computeHash : Bytes → ContentHash) (parseEml : ParseEml) (parts : ViewerParts)

/-- What the viewer of the user has read: a message as it was archived, and archived still unless its account has gone. -/
structure Viewing.Found (s : Viewing) (userId : UserId) (m : Message) (attachments : List MessageAttachment) (raw : Bytes)
    (parsed : ParsedEml) : Prop where
  digest : computeHash raw = m.contentHash
  parses : parseEml m.contentHash raw = .ok parsed
  row : m = ((parsed.recorded computeHash m.contentHash).toRow m.id m.accountId).withIndexed m.indexed
  attachments : (attachments.map (·.toParsedAttachment)).Perm (parsed.attachments.map (·.stored computeHash))
  own : m.accountId ∈ s.retired ∨ ∃ a ∈ s.world.db.accounts, a.id = m.accountId ∧ a.userId = userId
  archived : m.accountId ∈ s.retired ∨ (∃ indexed, m.withIndexed indexed ∈ s.world.db.messages) ∧
    s.world.raw m.accountId m.contentHash = some raw

/-- The body is rendered from the mail; once the mail may be gone it is rendered from bytes with the same hash, or missing. -/
def RenderedFrom (raw : Bytes) (loadRemote : Bool) (gone : Prop) (rendered : Option RenderedBody) : Prop :=
  (∃ r, parts.render raw loadRemote = .ok r ∧ rendered = some r) ∨
    gone ∧ ∀ r, rendered = some r → ∃ bytes, computeHash bytes = computeHash raw ∧ parts.render bytes loadRemote = .ok r

/-- The headers and the attachments are those the parser read off the mail, and the body is rendered from the same mail;
`gone` tells that the mail may have been deleted meanwhile. -/
structure MessageViewDto.Shows (dto : MessageViewDto) (messageId : MessageId) (raw : Bytes) (parsed : ParsedEml)
    (loadRemote : Bool) (gone : Prop) : Prop where
  token : dto.token = parts.formatMessageToken messageId
  subject : dto.subject = parsed.subject
  sender : dto.sender = parsed.fromName.getD parsed.fromAddress
  recipients : dto.recipients = parsed.toAddresses.map NamedAddress.display
  cc : dto.cc = parsed.ccAddresses.map NamedAddress.display
  dated : dto.dateDisplay.isSome = parsed.sentDate.isSome
  attachments : (dto.attachments.map fun a => (a.filename, a.contentType, a.sizeBytes)).Perm
    (parsed.attachments.map fun att => (att.filename, att.contentType, (att.bytes.length : Int)))
  body : ∃ rendered, RenderedFrom computeHash parts raw loadRemote gone rendered ∧
    dto.bodyHtml = rendered.bind RenderedBody.html ∧ dto.bodyText = rendered.bind RenderedBody.text ∧
    dto.hasRemoteContent = (rendered.map RenderedBody.hasRemoteContent).getD false

end

theorem RenderedFrom.imp {computeHash : Bytes → ContentHash} {parts : ViewerParts} {raw : Bytes} {loadRemote : Bool}
    {gone gone' : Prop} {rendered : Option RenderedBody} (h : RenderedFrom computeHash parts raw loadRemote gone rendered)
    (later : gone → gone') : RenderedFrom computeHash parts raw loadRemote gone' rendered :=
  Or.imp_right (And.imp_left later) h

namespace Viewing
variable {computeHash : Bytes → ContentHash} {platform : Platform} {cases : Unicode.CaseData} {parseEml : ParseEml}
  {parts : ViewerParts} {s t : Viewing} {userId : UserId} {m : Message} {attachments : List MessageAttachment} {raw : Bytes}
  {parsed : ParsedEml}

theorem Found.mono (h : s.Found computeHash parseEml userId m attachments raw parsed) (keeps : Preserves s t) :
    t.Found computeHash parseEml userId m attachments raw parsed := by
  refine { h with own := ?_, archived := ?_ }
  · rcases h.own with gone | ⟨a, ha, id, user⟩
    · exact .inl (keeps.retired _ gone)
    · rcases keeps.accounts a ha with gone | ⟨b, hb, id', user'⟩
      · exact .inl (id ▸ gone)
      · exact .inr ⟨b, hb, id'.trans id, user'.trans user⟩
  · rcases h.archived with gone | ⟨⟨b, hb⟩, stored⟩
    · exact .inl (keeps.retired _ gone)
    · rcases keeps.rows _ hb with gone | ⟨⟨b', hb'⟩, -⟩
      · exact .inl gone
      · exact (keeps.raw _ _ _ stored).imp_right fun there => ⟨⟨b', hb'⟩, there⟩

/-- A view that is through shows what was archived under the token it was asked for. -/
def Shown (computeHash : Bytes → ContentHash) (parseEml : ParseEml) (parts : ViewerParts) (actor : Option AuthUser)
    (token : String) (loadRemote : Bool) (dto : MessageViewDto) (t : Viewing) : Prop :=
  ∃ user m attachments raw parsed, sessionUser actor = .ok user ∧ parts.parseMessageToken token = .ok m.id ∧
    t.Found computeHash parseEml user.id m attachments raw parsed ∧
    dto.Shows computeHash parts m.id raw parsed loadRemote (m.accountId ∈ t.retired)

theorem Shown.mono {actor : Option AuthUser} {token : String} {loadRemote : Bool} {dto : MessageViewDto}
    (h : s.Shown computeHash parseEml parts actor token loadRemote dto) (keeps : Preserves s t) :
    t.Shown computeHash parseEml parts actor token loadRemote dto := by
  obtain ⟨user, m, attachments, raw, parsed, session, same, found, shows⟩ := h
  obtain ⟨rendered, from_mail, texts⟩ := shows.body
  exact ⟨user, m, attachments, raw, parsed, session, same, found.mono keeps,
    { shows with body := ⟨rendered, from_mail.imp (keeps.retired _), texts⟩ }⟩

section
variable {ι : Type} {tantivy : Tantivy} {extractBody : Bytes → Option String}
  {parseAccountToken : String → Except Error AccountId} {errand : ι → Errand}

end
end Viewing

end MailKeep
