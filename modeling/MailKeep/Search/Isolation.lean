import MailKeep.Search.AccountScope

/-! Searches of one user do not depend on the rows and documents of the others. -/
namespace MailKeep
open Ranked

def Database.ownsFolder (db : Database) (userId : UserId) (folderId : FolderId) : Prop :=
  ∃ f ∈ db.folders, f.id = folderId ∧ f.accountId ∈ db.ownedAccounts userId

/-- The two states hold the same accounts, folders, messages, locations and documents of one user. -/
structure AgreeFor (userId : UserId) (db₁ db₂ : Database) (index₁ index₂ : List Document) : Prop where
  accounts : AccountRepository.listForUser db₁ userId = AccountRepository.listForUser db₂ userId
  folders : ∀ f, f.accountId ∈ db₁.ownedAccounts userId → (f ∈ db₁.folders ↔ f ∈ db₂.folders)
  messages : ∀ m, m.accountId ∈ db₁.ownedAccounts userId → (m ∈ db₁.messages ↔ m ∈ db₂.messages)
  locations : ∀ l, db₁.ownsFolder userId l.folderId → (l ∈ db₁.locations ↔ l ∈ db₂.locations)
  documents : index₁.filter (fun doc => doc.accountId ∈ db₁.ownedAccounts userId) =
    index₂.filter (fun doc => doc.accountId ∈ db₁.ownedAccounts userId)

variable {lib : TextLibrary} {tantivy : Tantivy} {userId : UserId} {query : String} {limit offset : U32}
variable {db₁ db₂ : Database} {index₁ index₂ : List Document}

private theorem applyHint_subset (resolve : String → Option AccountId) (scope : Finset AccountId) (hint : Hint) :
    applyHint lib resolve scope hint ⊆ scope := by
  simp only [applyHint]
  cases resolve (lib.toLowercase hint.2) with
  | none => split <;> simp
  | some id =>
    dsimp only
    split
    · exact Finset.erase_subset _ _
    · split
      · rename_i h
        exact Finset.singleton_subset_iff.mpr h
      · exact Finset.empty_subset _

/-- Hints only ever narrow the scope. -/
private theorem resolveScope_subset (accounts : List Account) (hints : List Hint) :
    resolveScope lib accounts hints ⊆ (accounts.map Account.id).toFinset := by
  suffices key : ∀ s : Finset AccountId, hints.foldl (applyHint lib (nameMap lib accounts)) s ⊆ s from key _
  induction hints with
  | nil => exact fun s => Finset.Subset.refl s
  | cons hint rest ih => exact fun s => (ih _).trans (applyHint_subset _ s hint)

theorem queryScope_owned {db : Database} {a : AccountId} (h : a ∈ queryScope lib db userId query) :
    a ∈ db.ownedAccounts userId :=
  List.mem_toFinset.mp (resolveScope_subset _ _ h)

namespace AgreeFor

private theorem ownedAccounts_eq (h : AgreeFor userId db₁ db₂ index₁ index₂) :
    db₁.ownedAccounts userId = db₂.ownedAccounts userId :=
  congrArg (List.map Account.id) h.accounts

theorem queryScope_eq (h : AgreeFor userId db₁ db₂ index₁ index₂) :
    queryScope lib db₁ userId query = queryScope lib db₂ userId query := by
  rw [queryScope, queryScope, h.accounts]

variable {scope : Finset AccountId}

/-- Over a scope the user owns, the two states offer the same folders. -/
private theorem mem_folders (h : AgreeFor userId db₁ db₂ index₁ index₂)
    (owned : ∀ a ∈ scope, a ∈ db₁.ownedAccounts userId) {name : String} {f : Folder}
    (hf : namedBy lib scope name f = true) : f ∈ db₁.folders ↔ f ∈ db₂.folders :=
  h.folders f (owned _ (of_decide_eq_true (Bool.and_eq_true_iff.mp hf).1))

private theorem hintsResolve_eq (h : AgreeFor userId db₁ db₂ index₁ index₂)
    (owned : ∀ a ∈ scope, a ∈ db₁.ownedAccounts userId) (hints : List Hint) :
    hintsResolve lib db₁ scope hints = hintsResolve lib db₂ scope hints := by
  have hany : ∀ name, db₁.folders.rows.any (namedBy lib scope name) = db₂.folders.rows.any
      (namedBy lib scope name) := by
    intro name
    rw [Bool.eq_iff_iff, List.any_eq_true, List.any_eq_true]
    exact exists_congr fun f => and_congr_left fun hf => h.mem_folders owned hf
  simp only [hintsResolve, hany]

private theorem inNamedFolder_eq (h : AgreeFor userId db₁ db₂ index₁ index₂)
    (owned : ∀ a ∈ scope, a ∈ db₁.ownedAccounts userId) (name : String) (id : MessageId) :
    inNamedFolder lib db₁ scope name id = inNamedFolder lib db₂ scope name id := by
  rw [Bool.eq_iff_iff]
  simp only [inNamedFolder, List.any_eq_true, Bool.and_eq_true, decide_eq_true_eq, ← Keyed.Table.mem_def]
  constructor
  · rintro ⟨l, hl, hm, f, hf, hid, hn⟩
    have hown : db₁.ownsFolder userId l.folderId :=
      ⟨f, hf, hid, owned _ (of_decide_eq_true (Bool.and_eq_true_iff.mp hn).1)⟩
    exact ⟨l, (h.locations l hown).mp hl, hm, f, (h.mem_folders owned hn).mp hf, hid, hn⟩
  · rintro ⟨l, hl, hm, f, hf, hid, hn⟩
    have hf' := (h.mem_folders owned hn).mpr hf
    have hown : db₁.ownsFolder userId l.folderId :=
      ⟨f, hf', hid, owned _ (of_decide_eq_true (Bool.and_eq_true_iff.mp hn).1)⟩
    exact ⟨l, (h.locations l hown).mpr hl, hm, f, hf', hid, hn⟩

private theorem passesHints_eq (h : AgreeFor userId db₁ db₂ index₁ index₂)
    (owned : ∀ a ∈ scope, a ∈ db₁.ownedAccounts userId) (hints : List Hint) (id : MessageId) :
    passesHints lib db₁ scope hints id = passesHints lib db₂ scope hints id := by
  simp only [passesHints, h.inNamedFolder_eq owned]

private theorem listedMessages_perm (h : AgreeFor userId db₁ db₂ index₁ index₂) :
    (listedMessages lib db₁ userId query).Perm (listedMessages lib db₂ userId query) := by
  refine (List.perm_ext_iff_of_nodup ((List.Nodup.of_map _ db₁.messages.nodup).filter _)
    ((List.Nodup.of_map _ db₂.messages.nodup).filter _)).mpr fun m => ?_
  simp only [List.mem_filter, ← h.queryScope_eq, ← h.ownedAccounts_eq,
    h.passesHints_eq fun a => queryScope_owned, Bool.and_eq_true, decide_eq_true_eq]
  exact and_congr_left fun hm => h.messages m hm.1

private theorem matchingDocuments_eq (h : AgreeFor userId db₁ db₂ index₁ index₂) :
    matchingDocuments lib tantivy db₁ index₁ userId query =
      matchingDocuments lib tantivy db₂ index₂ userId query := by
  have inner : ∀ index : List Document, matchingDocuments lib tantivy db₁ index userId query =
      (index.filter fun doc => doc.accountId ∈ db₁.ownedAccounts userId).filter fun doc =>
        decide (doc.accountId ∈ queryScope lib db₁ userId query) && residualMatches lib tantivy query doc := by
    intro index
    rw [List.filter_filter]
    apply List.filter_congr
    intro doc _
    by_cases hs : doc.accountId ∈ queryScope lib db₁ userId query
    · simp [hs, queryScope_owned hs]
    · simp [hs]
  have hscope : matchingDocuments lib tantivy db₂ index₂ userId query =
      matchingDocuments lib tantivy db₁ index₂ userId query := by
    rw [matchingDocuments, matchingDocuments, h.queryScope_eq]
  rw [hscope, inner index₁, inner index₂, h.documents]

private theorem rankedDocuments_eq (h : AgreeFor userId db₁ db₂ index₁ index₂) :
    rankedDocuments lib tantivy db₁ index₁ userId query limit offset =
      rankedDocuments lib tantivy db₂ index₂ userId query limit offset := by
  rw [rankedDocuments, rankedDocuments, h.matchingDocuments_eq, ← h.queryScope_eq]
  simp only [h.passesHints_eq fun a => queryScope_owned]

end AgreeFor

/-- Two states that agree on one user's rows and documents answer every search of that user alike. -/
theorem search_congr (order₁ order₂ : HashOrder) (h : AgreeFor userId db₁ db₂ index₁ index₂) :
    search lib tantivy order₁ db₁ index₁ userId query limit offset =
      search lib tantivy order₂ db₂ index₂ userId query limit offset := by
  have hlist : (listedMessages lib db₁ userId query).Perm (listedMessages lib db₂ userId query) :=
    h.listedMessages_perm
  have hsort := sortDesc_eq_of_perm hlist (listingKey_nodup db₁.messages _)
  rw [search_eq, search_eq, ← h.queryScope_eq, ← h.hintsResolve_eq fun a => queryScope_owned, h.matchingDocuments_eq,
    h.rankedDocuments_eq]
  simp only [hlist.length_eq, hsort]

/-- A second user's account and document change no search of the first user. -/
theorem search_congr_twoAccounts :
    search TwoAccounts.textLibrary TwoAccounts.engine TwoAccounts.ascending TwoAccounts.store
        [toDocument TwoAccounts.engine (TwoAccounts.message 10 1) ""] 1 "folder:inbox !spam" 10 0 =
      search TwoAccounts.textLibrary TwoAccounts.engine TwoAccounts.ascending
        { TwoAccounts.store with
          accounts := ⟨[TwoAccounts.account 1 "Work", TwoAccounts.account 2 "Home",
            { TwoAccounts.account 3 "Work" with userId := 2 }], by decide⟩ }
        [toDocument TwoAccounts.engine (TwoAccounts.message 30 3) "",
          toDocument TwoAccounts.engine (TwoAccounts.message 10 1) ""] 1 "folder:inbox !spam" 10 0 :=
  search_congr _ _
    { accounts := by decide
      folders := fun _ _ => Iff.rfl
      messages := fun _ _ => Iff.rfl
      locations := fun _ _ => Iff.rfl
      documents := by decide }

end MailKeep
