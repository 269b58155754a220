import MailKeep.Search.AccountScope

/-! The pages of either path as slices of one list. -/
namespace MailKeep
open Ranked

variable (lib : TextLibrary) (tantivy : Tantivy) (order : HashOrder)
variable (db : Database) (index : List Document) (userId : UserId) (query : String)

def PureListing : Prop := queryResidual lib query = [] ∧ queryFolderHints lib query ≠ []

instance : Decidable (PureListing lib query) := inferInstanceAs (Decidable (_ ∧ _))

def listing : List Message :=
  if queryScope lib db userId query = ∅ then [] else sortDesc listingKey (listedMessages lib db userId query)

def rankedMatches : List Document :=
  sortDesc (K := WithBot Int) (fun doc => doc.sentDate) (matchingDocuments lib tantivy db index userId query)

/-- The matches that pass the folder hints, in ranked order and without a window. -/
def fullRanking : List Document :=
  (rankedMatches lib tantivy db index userId query).filter fun doc =>
    passesHints lib db (queryScope lib db userId query) (queryFolderHints lib query) doc.messageId

variable {lib tantivy order db index userId query} {limit offset : U32}

/-- Where a required hint names no folder no message passes. -/
private theorem listedMessages_unresolved
    (unresolved : hintsResolve lib db (queryScope lib db userId query) (queryFolderHints lib query) ≠ true) :
    listedMessages lib db userId query = [] := by
  rw [List.eq_nil_iff_forall_not_mem]
  intro m h
  exact unresolved (hintsResolve_of_passesHints (Bool.and_eq_true_iff.mp (List.mem_filter.mp h).2).2)

/-- What a search of the folder listing returns. -/
theorem search_listing (pure : PureListing lib query) (user : userId ≠ 0)
    (ids : 0 ∉ queryScope lib db userId query) :
    search lib tantivy order db index userId query limit offset =
      .ok ⟨(listing lib db userId query).length, (page (listing lib db userId query) offset limit).map Message.toHit⟩ := by
  rw [PureListing] at pure
  rw [search_eq, listing]
  by_cases empty : queryScope lib db userId query = ∅
  · rw [if_pos empty, if_pos empty]
    simp [page]
  · rw [if_neg empty, if_neg ids, if_pos pure, if_neg user, if_neg empty]
    split
    · rw [length_sortDesc]
    · rename_i unresolved
      simp [listedMessages_unresolved unresolved, page, sortDesc]

/-- The window only cuts off the end. -/
private theorem rankedDocuments_isPrefix :
    rankedDocuments lib tantivy db index userId query limit offset <+:
      fullRanking lib tantivy db index userId query :=
  (List.take_prefix _ _).filter _

private theorem rankedDocuments_unconstrained (none : queryFolderHints lib query = []) :
    rankedDocuments lib tantivy db index userId query limit offset =
      (fullRanking lib tantivy db index userId query).take (fetchCount false limit offset) := by
  rw [rankedDocuments, fullRanking, none]
  simp [passesHints, rankedMatches]

/-- Without folder hints the window covers the page asked for. -/
private theorem le_fetchCount (h : offset.val + limit.val ≤ maxFetch) :
    offset.val + limit.val ≤ fetchCount false limit offset := by
  simp only [fetchCount, Usize.saturatingAdd, usizeMax, Bool.false_eq_true, if_false, maxFetch] at h ⊢
  omega

/-- What a search of the ranked path returns. -/
theorem search_ranked {results : SearchResults} (ranked : ¬ PureListing lib query)
    (found : search lib tantivy order db index userId query limit offset = .ok results) :
    results.hits = page ((rankedDocuments lib tantivy db index userId query limit offset).map Document.toHit) offset limit := by
  rw [search_eq] at found
  split at found
  · rename_i empty
    cases found
    have nothing : rankedDocuments lib tantivy db index userId query limit offset = [] := by
      rw [List.eq_nil_iff_forall_not_mem]
      intro doc h
      have := mem_rankedDocuments h
      rw [empty] at this
      exact absurd this (Finset.notMem_empty _)
    simp [nothing, page]
  · split at found
    · cases found
    · rw [PureListing] at ranked
      rw [if_neg ranked] at found
      cases found
      rfl

/-- A page is a prefix of its slice of the full ranking, and the whole slice as long as the window covers it. -/
theorem search_slice {results : SearchResults} (ranked : ¬ PureListing lib query)
    (found : search lib tantivy order db index userId query limit offset = .ok results) :
    results.hits <+: page ((fullRanking lib tantivy db index userId query).map Document.toHit) offset limit ∧
      (queryFolderHints lib query = [] → offset.val + limit.val ≤ 10000 →
        results.hits = page ((fullRanking lib tantivy db index userId query).map Document.toHit) offset limit) := by
  rw [search_ranked ranked found]
  refine ⟨page_isPrefix (rankedDocuments_isPrefix.map _) _ _, fun none within => ?_⟩
  rw [rankedDocuments_unconstrained none, List.map_take, page_take (le_fetchCount within)]

namespace TwoAccounts

def documents : List Document :=
  [toDocument engine (message 10 1) "", toDocument engine { message 11 1 with sentDate := none } ""]

private theorem parse_work : parse textLibrary "account:work" = [⟨false, .account "work"⟩] := by decide

theorem scope_work : queryScope textLibrary store 1 "account:work" = {1} := by
  rw [queryScope, parse_work]
  decide

theorem hints_work : queryFolderHints textLibrary "account:work" = [] := by rw [queryFolderHints, parse_work]; rfl

private theorem residual_work : queryResidual textLibrary "account:work" = [] := by rw [queryResidual, parse_work]; rfl

theorem matching_work : matchingDocuments textLibrary engine store documents 1 "account:work" = documents := by
  rw [matchingDocuments, scope_work]
  simp only [residualMatches, residual_work]
  decide

private theorem search_work : search textLibrary engine ascending store documents 1 "account:work" 1 1 =
    .ok ⟨2, [⟨11, 1, ""⟩]⟩ := by
  rw [search_eq, scope_work, if_neg (by decide), if_neg (by decide), hints_work, residual_work, if_neg (by simp), matching_work,
    rankedDocuments_unconstrained hints_work, fullRanking, rankedMatches, hints_work, matching_work]
  decide

end TwoAccounts

theorem search_slice_work : ¬ PureListing TwoAccounts.textLibrary "account:work" ∧
    [⟨11, 1, ""⟩] = page ((fullRanking TwoAccounts.textLibrary TwoAccounts.engine TwoAccounts.store TwoAccounts.documents 1
      "account:work").map Document.toHit) (1 : U32) (1 : U32) := by
  have ranked : ¬ PureListing TwoAccounts.textLibrary "account:work" := fun h => h.2 TwoAccounts.hints_work
  exact ⟨ranked, (search_slice ranked TwoAccounts.search_work).2 TwoAccounts.hints_work (by decide)⟩

end MailKeep
