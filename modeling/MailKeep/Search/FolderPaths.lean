import MailKeep.Search.Slices

/-! The folder listing against the ordinary path: the two ways a search can honour folder hints. -/
namespace MailKeep
open Ranked

variable (lib : TextLibrary) (tantivy : Tantivy) (order : HashOrder)
variable (db : Database) (index : List Document) (userId : UserId) (query : String)

def ordinaryHits (scope : List AccountId) (constraints : List FolderConstraint)
    (residual : List Clause) : List SearchHit :=
  let hits := (index.filter (buildQuery lib tantivy scope residual)).map Document.toHit
  let rankedIds := hits.map SearchHit.messageId
  if constraints.isEmpty then hits
  else hits.filter fun h => postFilter db rankedIds constraints (fun id => id ∈ rankedIds) h.messageId

def ordinarySearch : Except Error (List SearchHit) := do
  let (accountHints, folderHints, residual) := splitClauses (parse lib query)
  let (scope, constraints) ← resolveHints lib order db userId accountHints folderHints
  if scope.isEmpty then
    return []
  return ordinaryHits lib tantivy db index scope constraints residual

def OnlyFolderHints : Prop := parse lib query ≠ [] ∧ ∀ clause ∈ parse lib query, ∃ name, clause.term = .folder name

/-- The user's part of the index: one document for each message. -/
def OneDocumentEach : Prop :=
  ((index.filter fun doc => doc.accountId ∈ db.ownedAccounts userId).map fun doc => (doc.messageId, doc.accountId)).Perm
    ((db.messages.rows.filter fun m => m.accountId ∈ db.ownedAccounts userId).map fun m => (m.id, m.accountId))

variable {lib tantivy order db index userId query}

private theorem splitClauses_folders {clauses : List Clause}
    (only : ∀ clause ∈ clauses, ∃ name, clause.term = .folder name) :
    (splitClauses clauses).1 = [] ∧ (splitClauses clauses).2.1.length = clauses.length ∧
      (splitClauses clauses).2.2 = [] := by
  induction clauses with
  | nil => exact ⟨rfl, rfl, rfl⟩
  | cons clause rest ih =>
    obtain ⟨name, named⟩ := only clause List.mem_cons_self
    obtain ⟨accounts, folders, residual⟩ := ih fun c hc => only c (List.mem_cons_of_mem _ hc)
    rw [splitClauses, named]
    exact ⟨accounts, congrArg Nat.succ folders, residual⟩

namespace OnlyFolderHints

theorem pure (only : OnlyFolderHints lib query) : PureListing lib query := by
  obtain ⟨-, folders, residual⟩ := splitClauses_folders only.2
  refine ⟨residual, fun none => only.1 ?_⟩
  rw [← List.length_eq_zero_iff, ← folders]
  exact congrArg List.length none

/-- Without account hints the scope is everything the user owns. -/
private theorem mem_scope (only : OnlyFolderHints lib query) {a : AccountId} :
    a ∈ queryScope lib db userId query ↔ a ∈ db.ownedAccounts userId := by
  rw [queryScope, (splitClauses_folders only.2).1]
  exact List.mem_toFinset

theorem matching (only : OnlyFolderHints lib query) : matchingDocuments lib tantivy db index userId query =
    index.filter fun doc => doc.accountId ∈ db.ownedAccounts userId := by
  rw [matchingDocuments]
  apply List.filter_congr
  intro doc _
  rw [residualMatches, only.pure.1, List.all_nil, Bool.and_true]
  simp only [only.mem_scope]

end OnlyFolderHints

/-- The ordinary path keeps the matching documents that the hints let through. -/
private theorem ordinarySearch_eq : ordinarySearch lib tantivy order db index userId query =
    if queryScope lib db userId query = ∅ then .ok []
    else if 0 ∈ queryScope lib db userId query then .error (.invalidId 0)
    else .ok (((matchingDocuments lib tantivy db index userId query).filter fun doc =>
      passesHints lib db (queryScope lib db userId query)
        (queryFolderHints lib query) doc.messageId).map Document.toHit) := by
  have split : splitClauses (parse lib query) =
      ((splitClauses (parse lib query)).1, queryFolderHints lib query, queryResidual lib query) := rfl
  rw [ordinarySearch, split]
  by_cases empty : queryScope lib db userId query = ∅
  · have scope : resolveScope lib (AccountRepository.listForUser db userId)
      (splitClauses (parse lib query)).1 = ∅ := empty
    simp [resolveHints, empty, scope, bind, Except.bind, pure, Except.pure]
  · have resolved := resolveHints_eq order empty
    rw [if_neg empty]
    split at resolved
    · rename_i zero
      rw [if_pos zero]
      simp [resolved, bind, Except.bind]
    · rename_i ids
      obtain ⟨constraints, resolved, stand⟩ := resolved
      have some : (order.list (queryScope lib db userId query)).isEmpty = false := by
        obtain ⟨a, ha⟩ := Finset.nonempty_iff_ne_empty.mpr empty
        exact List.isEmpty_eq_false_iff_exists_mem.mpr ⟨a, (order.mem_list _ a).mpr ha⟩
      rw [if_neg ids]
      simp only [resolved, bind, Except.bind, some, Bool.false_eq_true, if_false, pure, Except.pure, ordinaryHits]
      rw [filter_buildQuery (order.mem_list _), keptHits_eq stand]
      exact fun doc hdoc => List.mem_map_of_mem (List.mem_map_of_mem hdoc)

variable (tantivy) in
/-- One document each, and the two paths select the same messages. -/
private theorem listed_perm (only : OnlyFolderHints lib query) (covered : OneDocumentEach db index userId) :
    ((listedMessages lib db userId query).map Message.id).Perm
      (((matchingDocuments lib tantivy db index userId query).filter fun doc =>
        passesHints lib db (queryScope lib db userId query)
          (queryFolderHints lib query) doc.messageId).map Document.messageId) := by
  have each := covered.map Prod.fst
  rw [List.map_map, List.map_map] at each
  have passing := each.filter (passesHints lib db (queryScope lib db userId query) (queryFolderHints lib query))
  rw [List.filter_map, List.filter_map, List.filter_filter (l := db.messages.rows)] at passing
  rw [only.matching, listedMessages]
  refine List.Perm.trans (.of_eq (congrArg _ (List.filter_congr fun m _ => ?_))) passing.symm
  exact Bool.and_comm _ _

/-- Each page of the listing is cut from one list, which holds just the messages the ordinary path would keep; its total
is their number. -/
theorem folder_paths_agree (only : OnlyFolderHints lib query)
    (covered : OneDocumentEach db index userId) (user : userId ≠ 0) :
    ∃ listed : List SearchHit,
      (∀ limit offset, search lib tantivy order db index userId query limit offset =
        (ordinarySearch lib tantivy order db index userId query).map fun kept =>
          ⟨kept.length, page listed offset limit⟩) ∧
      (∀ kept, ordinarySearch lib tantivy order db index userId query = .ok kept →
        (listed.map SearchHit.messageId).Perm (kept.map SearchHit.messageId) ∧
          (listed.map SearchHit.messageId).Nodup) := by
  refine ⟨(listing lib db userId query).map Message.toHit, ?_⟩
  rw [ordinarySearch_eq]
  by_cases empty : queryScope lib db userId query = ∅
  · have none : listing lib db userId query = [] := if_pos empty
    rw [if_pos empty, none]
    refine ⟨fun limit offset => ?_, ?_⟩
    · rw [search_eq, if_pos empty]
      simp [Except.map, page]
    · rintro kept ⟨⟩
      exact ⟨.nil, List.nodup_nil⟩
  · by_cases zero : 0 ∈ queryScope lib db userId query
    · rw [if_neg empty, if_pos zero]
      refine ⟨fun limit offset => ?_, fun kept h => by cases h⟩
      rw [search_eq, if_neg empty, if_pos zero]
      rfl
    · rw [if_neg empty, if_neg zero]
      have same := listed_perm tantivy only covered
      have sorted : (listing lib db userId query).Perm (listedMessages lib db userId query) := by
        rw [listing, if_neg empty]
        exact sortDesc_perm _ _
      refine ⟨fun limit offset => ?_, ?_⟩
      · rw [search_listing only.pure user zero, Except.map, page, List.map_take, List.map_drop]
        have count := (sorted.map Message.id).length_eq.trans (same.length_eq)
        rw [List.length_map, List.length_map] at count
        rw [List.length_map, count]
        rfl
      · rintro kept ⟨⟩
        have ids := (sorted.map Message.id).trans same
        rw [List.map_map, List.map_map]
        refine ⟨ids, ?_⟩
        change ((listing lib db userId query).map Message.id).Nodup
        rw [(sorted.map Message.id).nodup_iff]
        exact db.messages.nodup.sublist (List.filter_sublist.map _)

namespace TwoAccounts

def everyMessage : List Document := [toDocument engine (message 20 2) "", toDocument engine (message 10 1) ""]

private theorem only_spam : OnlyFolderHints textLibrary "!folder:spam" := by
  have parsed : parse textLibrary "!folder:spam" = [⟨true, .folder "spam"⟩] := by decide
  rw [OnlyFolderHints, parsed]
  exact ⟨by decide, fun clause h => ⟨"spam", by rw [List.mem_singleton.mp h]⟩⟩

private theorem everyMessage_covered : OneDocumentEach store everyMessage 1 := by
  unfold OneDocumentEach
  decide

end TwoAccounts

theorem folder_paths_agree_spam : ∃ listed : List SearchHit,
    (∀ limit offset, search TwoAccounts.textLibrary TwoAccounts.engine TwoAccounts.ascending TwoAccounts.store
        TwoAccounts.everyMessage 1 "!folder:spam" limit offset =
      (ordinarySearch TwoAccounts.textLibrary TwoAccounts.engine TwoAccounts.ascending TwoAccounts.store TwoAccounts.everyMessage 1
        "!folder:spam").map fun kept => ⟨kept.length, page listed offset limit⟩) ∧
    ∀ kept, ordinarySearch TwoAccounts.textLibrary TwoAccounts.engine TwoAccounts.ascending TwoAccounts.store
        TwoAccounts.everyMessage 1 "!folder:spam" = .ok kept →
      (listed.map SearchHit.messageId).Perm (kept.map SearchHit.messageId) ∧
        (listed.map SearchHit.messageId).Nodup :=
  folder_paths_agree TwoAccounts.only_spam TwoAccounts.everyMessage_covered (by decide)

end MailKeep
