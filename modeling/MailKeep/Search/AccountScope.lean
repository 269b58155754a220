import MailKeep.Search.Resolution

/-! Which searches keep to the accounts their hints select. -/
namespace MailKeep
open Ranked

/-- Every hit of the search belongs to an account in the scope of the query. -/
def ScopeHonoured (lib : TextLibrary) (tantivy : Tantivy) (order : HashOrder) (db : Database)
    (index : List Document) (userId : UserId) (query : String) (limit offset : U32) : Prop :=
  ∀ results, search lib tantivy order db index userId query limit offset = .ok results →
    ∀ hit ∈ results.hits, hit.accountId ∈ queryScope lib db userId query

variable {lib : TextLibrary} {tantivy : Tantivy} {order : HashOrder}
variable {db : Database} {index : List Document} {userId : UserId} {query : String} {limit offset : U32}

/-- A message in a folder of every plain hint shows that each of them names a folder. -/
theorem hintsResolve_of_passesHints {scope : Finset AccountId} {hints : List Hint} {id : MessageId}
    (h : passesHints lib db scope hints id = true) : hintsResolve lib db scope hints = true := by
  rw [hintsResolve, List.all_eq_true]
  intro hint hh
  have hp := List.all_eq_true.mp h hint hh
  cases hn : hint.1 with
  | true => rfl
  | false =>
    rw [hn, bne_iff_ne, ne_eq, Bool.not_eq_false, inNamedFolder, List.any_eq_true] at hp
    obtain ⟨l, -, hl⟩ := hp
    obtain ⟨f, hf, hfn⟩ := List.any_eq_true.mp (Bool.and_eq_true_iff.mp hl).2
    exact List.any_eq_true.mpr ⟨f, hf, (Bool.and_eq_true_iff.mp hfn).2⟩

private theorem mem_listedMessages_page {m : Message} :
    m ∈ page (sortDesc listingKey (listedMessages lib db userId query)) offset limit ↔
      m ∈ listedMessages lib db userId query ∧
        offset ≤ rank listingKey (listedMessages lib db userId query) m ∧
        rank listingKey (listedMessages lib db userId query) m < offset + limit :=
  mem_page_sortDesc (listingKey_nodup db.messages _)

/-- The index only answers with documents in scope. -/
theorem mem_rankedDocuments {doc : Document}
    (h : doc ∈ rankedDocuments lib tantivy db index userId query limit offset) :
    doc.accountId ∈ queryScope lib db userId query := by
  have hd := List.mem_filter.mp (mem_sortDesc.mp (List.mem_of_mem_take (List.mem_filter.mp h).1))
  exact of_decide_eq_true (Bool.and_eq_true_iff.mp hd.2).1

/-- The scope is honoured exactly where no message of the user outside it, let through by
the folder hints, has a place on the requested page of a pure folder listing. -/
theorem search_scopeHonoured_iff :
    ScopeHonoured lib tantivy order db index userId query limit offset ↔
      (queryScope lib db userId query ≠ ∅ → 0 ∉ queryScope lib db userId query → userId ≠ 0 →
        queryResidual lib query = [] → queryFolderHints lib query ≠ [] →
        ∀ m ∈ listedMessages lib db userId query,
          offset ≤ rank listingKey (listedMessages lib db userId query) m →
          rank listingKey (listedMessages lib db userId query) m < offset + limit →
          m.accountId ∈ queryScope lib db userId query) := by
  rw [ScopeHonoured, search_eq]
  constructor
  · intro h hs h0 hu hr hf m hm hlo hhi
    have hres : hintsResolve lib db (queryScope lib db userId query) (queryFolderHints lib query) = true :=
      hintsResolve_of_passesHints (Bool.and_eq_true_iff.mp (List.mem_filter.mp hm).2).2
    rw [if_neg hs, if_neg h0, if_pos ⟨hr, hf⟩, if_pos hres, if_neg hu] at h
    exact h _ rfl m.toHit (List.mem_map_of_mem (mem_listedMessages_page.mpr ⟨hm, hlo, hhi⟩))
  · intro h results hok hit hhit
    split at hok
    · cases hok
      cases hhit
    · rename_i hs
      split at hok
      · cases hok
      · rename_i h0
        split at hok
        · rename_i hf
          split at hok
          · split at hok
            · cases hok
            · rename_i hu
              cases hok
              obtain ⟨m, hm, rfl⟩ := List.mem_map.mp hhit
              obtain ⟨hm, hlo, hhi⟩ := mem_listedMessages_page.mp hm
              exact h hs h0 hu hf.1 hf.2 m hm hlo hhi
          · cases hok
            cases hhit
        · cases hok
          obtain ⟨doc, hd, rfl⟩ := List.mem_map.mp (mem_of_mem_page hhit)
          exact mem_rankedDocuments hd

namespace TwoAccounts

def textLibrary : TextLibrary where
  toLowercase s := String.ofList (s.toList.map asciiLower)
  parseDate _ := none
  maxDate := 95026236

def engine : Tantivy where
  enStem s := [⟨0, String.ofList (s.toList.map asciiLower)⟩]
  fromTimestampSecs seconds := seconds * 1000000000

def ascending : HashOrder := ⟨fun s => s.sort (· ≤ ·), fun _ _ => Finset.mem_sort _⟩

def account (id : AccountId) (name : String) : Account where
  id := id
  version := 1
  userId := 1
  displayName := name
  emailAddress := "alice@example.com"
  server := ⟨"imap.example.com", 993, .tls⟩
  username := "alice"
  credentials := []
  enabled := true
  status := .idle
  lastError := none
  lastSyncedAt := none

def message (id : MessageId) (accountId : AccountId) : Message where
  rfc822MessageId := "<m@example.com>"
  contentHash := ⟨.replicate 32 0⟩
  subject := none
  fromAddress := "bob@example.com"
  fromName := none
  toAddresses := []
  ccAddresses := []
  bccAddresses := []
  replyToAddresses := []
  sentDate := some 0
  inReplyTo := none
  references := []
  snippet := ""
  sizeBytes := 0
  id := id
  version := 1
  accountId := accountId
  hasAttachments := false
  attachmentCount := 0
  indexed := true

/-- One user with the accounts `work` and `home`, each holding one message and no folder. -/
def store : Database where
  accounts := ⟨[account 1 "Work", account 2 "Home"], by decide⟩
  folders := .empty
  messages := ⟨[message 10 1, message 20 2], by decide⟩
  locations := .empty
  attachments := .empty
  jobs := .empty
  nextJobId := 1

private theorem parse_hints : parse textLibrary "account:work !folder:spam" =
    [⟨false, .account "work"⟩, ⟨true, .folder "spam"⟩] := by decide

private theorem queryScope_hints : queryScope textLibrary store 1 "account:work !folder:spam" = {1} := by
  rw [queryScope, parse_hints]
  decide

private theorem listedMessages_hints : listedMessages textLibrary store 1 "account:work !folder:spam" =
    [message 10 1, message 20 2] := by
  rw [listedMessages, queryScope_hints, queryFolderHints, parse_hints]
  decide

private theorem page_listedMessages : (page (sortDesc listingKey [message 10 1, message 20 2])
    (0 : U32) (10 : U32)).map Message.toHit = [⟨20, 2, ""⟩, ⟨10, 1, ""⟩] := by decide

end TwoAccounts

/-- `account:work !folder:spam` lists the message of the other account as well. -/
theorem search_ignores_account_hint :
    ¬ ScopeHonoured TwoAccounts.textLibrary TwoAccounts.engine TwoAccounts.ascending TwoAccounts.store []
      1 "account:work !folder:spam" 10 0 := by
  intro h
  have hs : search TwoAccounts.textLibrary TwoAccounts.engine TwoAccounts.ascending TwoAccounts.store []
      1 "account:work !folder:spam" 10 0 = .ok ⟨2, [⟨20, 2, ""⟩, ⟨10, 1, ""⟩]⟩ := by
    rw [search_eq, TwoAccounts.queryScope_hints, TwoAccounts.listedMessages_hints, queryResidual, queryFolderHints,
      TwoAccounts.parse_hints]
    rw [if_neg (by decide), if_neg (by decide), if_pos (by decide), if_pos (by decide), if_neg (by decide)]
    simp only [TwoAccounts.page_listedMessages, List.length_cons, List.length_nil]
  rw [ScopeHonoured, hs, TwoAccounts.queryScope_hints] at h
  exact absurd (h _ rfl ⟨20, 2, ""⟩ (by decide)) (by decide)

end MailKeep
