import MailKeep.Search.Service

/-! What a search computes, in closed form: the order of the hash set and the two ways of
applying the folder hints disappear. -/
namespace MailKeep
open Ranked

variable (lib : TextLibrary) (tantivy : Tantivy) (order : HashOrder)
variable (db : Database) (index : List Document) (userId : UserId) (query : String) (limit offset : U32)

def namedBy (scope : Finset AccountId) (name : String) (f : Folder) : Bool :=
  f.accountId ∈ scope && folderMatches lib (lib.toLowercase name) f

def inNamedFolder (scope : Finset AccountId) (name : String) (id : MessageId) : Bool :=
  db.locations.rows.any fun l => l.messageId = id &&
    db.folders.rows.any fun f => f.id = l.folderId && namedBy lib scope name f

/-- In a named folder for every plain hint and in none for every negated one. -/
def passesHints (scope : Finset AccountId) (hints : List Hint) (id : MessageId) : Bool :=
  hints.all fun hint => inNamedFolder lib db scope hint.2 id != hint.1

def hintsResolve (scope : Finset AccountId) (hints : List Hint) : Bool :=
  hints.all fun hint => hint.1 || db.folders.rows.any (namedBy lib scope hint.2)

def queryScope : Finset AccountId :=
  resolveScope lib (AccountRepository.listForUser db userId) (splitClauses (parse lib query)).1

def queryFolderHints : List Hint := (splitClauses (parse lib query)).2.1

def queryResidual : List Clause := (splitClauses (parse lib query)).2.2

def listedMessages : List Message :=
  db.messages.rows.filter fun m => decide (m.accountId ∈ db.ownedAccounts userId) &&
    passesHints lib db (queryScope lib db userId query) (queryFolderHints lib query) m.id

def residualMatches (doc : Document) : Bool :=
  (queryResidual lib query).all fun clause => (clauseQuery lib tantivy clause).2 doc != clause.negated

def matchingDocuments : List Document :=
  index.filter fun doc =>
    decide (doc.accountId ∈ queryScope lib db userId query) && residualMatches lib tantivy query doc

def rankedDocuments : List Document :=
  let hints := queryFolderHints lib query
  let top := (sortDesc (fun doc => (doc.sentDate : WithBot Int))
    (matchingDocuments lib tantivy db index userId query)).take (fetchCount (!hints.isEmpty) limit offset)
  top.filter fun doc => passesHints lib db (queryScope lib db userId query) hints doc.messageId

/-- Folder ids of a hint stand for the folders it names. -/
structure Resolves (scope : Finset AccountId) (hint : Hint) (c : FolderConstraint) : Prop where
  negated : c.1 = hint.1
  mem_ids : ∀ id, id ∈ c.2 ↔ ∃ f ∈ db.folders, f.id = id ∧ namedBy lib scope hint.2 f = true

variable {lib tantivy order db index userId query limit offset}
variable {scope : Finset AccountId} {hint : Hint} {c : FolderConstraint}

theorem Resolves.located (h : Resolves lib db scope hint c) (id : MessageId) :
    db.located id c.2 = inNamedFolder lib db scope hint.2 id := by
  rw [Bool.eq_iff_iff, Database.located_iff]
  simp [inNamedFolder, h.mem_ids, Keyed.Table.mem_def]

theorem Resolves.isEmpty (h : Resolves lib db scope hint c) :
    c.2.isEmpty = !db.folders.rows.any (namedBy lib scope hint.2) := by
  rw [Bool.eq_iff_iff, List.isEmpty_iff, List.eq_nil_iff_forall_not_mem]
  simp only [h.mem_ids, Keyed.Table.mem_def, Bool.not_eq_true', List.any_eq_false]
  constructor
  · intro hn f hf hp
    exact hn f.id ⟨f, hf, rfl, hp⟩
  · rintro hn id ⟨f, hf, -, hp⟩
    exact hn f hf hp

private theorem mapM_listForAccount (l : List AccountId) (h : 0 ∉ l) :
    l.mapM (FolderRepository.listForAccount db) =
      .ok (l.map fun a => db.folders.rows.filter (·.accountId = a)) := by
  induction l with
  | nil => rfl
  | cons a l ih =>
    rw [List.mem_cons, not_or] at h
    simp [List.mapM_cons, FolderRepository.listForAccount, Ne.symm h.1, ih h.2, Except.bind, bind, pure,
      Except.pure]

private theorem mapM_listForAccount_zero (l : List AccountId) (h : 0 ∈ l) :
    l.mapM (FolderRepository.listForAccount db) = .error (.invalidId 0) := by
  induction l with
  | nil => cases h
  | cons a l ih =>
    by_cases ha : a = 0
    · simp [List.mapM_cons, FolderRepository.listForAccount, ha, Except.bind, bind]
    · have hl : 0 ∈ l := (List.mem_cons.mp h).resolve_left (Ne.symm ha)
      simp [List.mapM_cons, FolderRepository.listForAccount, ha, ih hl, Except.bind, bind]

private theorem resolves_folderConstraint {folders : List Folder}
    (hf : ∀ f, f ∈ folders ↔ f ∈ db.folders ∧ f.accountId ∈ scope) (hint : Hint) :
    Resolves lib db scope hint (folderConstraint lib folders hint) where
  negated := rfl
  mem_ids id := by
    simp only [folderConstraint, List.mem_map, List.mem_filter, hf, namedBy, Bool.and_eq_true,
      decide_eq_true_eq]
    constructor
    · rintro ⟨f, ⟨⟨hm, hs⟩, hp⟩, rfl⟩
      exact ⟨f, hm, rfl, hs, hp⟩
    · rintro ⟨f, hm, rfl, hs, hp⟩
      exact ⟨f, ⟨⟨hm, hs⟩, hp⟩, rfl⟩

variable (order) in
/-- Phase one over a nonempty scope: account id `0` is refused, every other scope resolves. -/
theorem resolveHints_eq (hne : queryScope lib db userId query ≠ ∅) :
    if 0 ∈ queryScope lib db userId query then
      resolveHints lib order db userId (splitClauses (parse lib query)).1 (queryFolderHints lib query) =
        .error (.invalidId 0)
    else ∃ constraints,
      resolveHints lib order db userId (splitClauses (parse lib query)).1 (queryFolderHints lib query) =
          .ok (order.list (queryScope lib db userId query), constraints) ∧
        List.Forall₂ (Resolves lib db (queryScope lib db userId query))
          (queryFolderHints lib query) constraints := by
  have hs : resolveScope lib (AccountRepository.listForUser db userId) (splitClauses (parse lib query)).1 =
      queryScope lib db userId query := rfl
  split
  · rename_i h0
    have h0' := (order.mem_list (queryScope lib db userId query) 0).mpr h0
    simp [resolveHints, hs, hne, mapM_listForAccount_zero _ h0', bind, Except.bind]
  · rename_i h0
    have h0' : 0 ∉ order.list (queryScope lib db userId query) := fun h => h0 ((order.mem_list _ 0).mp h)
    let folders := ((order.list (queryScope lib db userId query)).map fun a =>
      db.folders.rows.filter (·.accountId = a)).flatten
    refine ⟨(queryFolderHints lib query).map (folderConstraint lib folders), ?_, ?_⟩
    · simp only [resolveHints, hs, hne, mapM_listForAccount _ h0', bind, Except.bind, pure, Except.pure, if_false]
      rfl
    · rw [List.forall₂_map_right_iff, List.forall₂_same]
      intro hint _
      apply resolves_folderConstraint
      intro f
      simp only [folders, List.mem_flatten, List.mem_map, exists_exists_and_eq_and, List.mem_filter, order.mem_list,
        decide_eq_true_eq, exists_eq_right_right', Keyed.Table.mem_def]
      exact and_comm

private theorem hintsResolve_cons (hint : Hint) (hints : List Hint) :
    hintsResolve lib db scope (hint :: hints) =
      ((hint.1 || db.folders.rows.any (namedBy lib scope hint.2)) && hintsResolve lib db scope hints) := rfl

private theorem passesHints_cons (hint : Hint) (hints : List Hint) (id : MessageId) :
    passesHints lib db scope (hint :: hints) id =
      ((inNamedFolder lib db scope hint.2 id != hint.1) && passesHints lib db scope hints id) := rfl

private theorem located_nil (id : MessageId) : db.located id [] = false := by simp [Database.located]

private theorem located_append (id : MessageId) (a b : List FolderId) :
    db.located id (a ++ b) = (db.located id a || db.located id b) := by
  rw [Bool.eq_iff_iff, Bool.or_eq_true]
  simp only [Database.located_iff, List.mem_append]
  constructor
  · rintro ⟨l, hl, hm, hf⟩
    exact hf.imp (fun h => ⟨l, hl, hm, h⟩) fun h => ⟨l, hl, hm, h⟩
  · rintro (⟨l, hl, hm, hf⟩ | ⟨l, hl, hm, hf⟩)
    · exact ⟨l, hl, hm, .inl hf⟩
    · exact ⟨l, hl, hm, .inr hf⟩

private theorem inFolders_eq (groups : List (List FolderId)) (exclude : List FolderId) (id : MessageId) :
    MessageRepository.inFolders db groups exclude id =
      (groups.all (db.located id) && !db.located id exclude) := by
  cases exclude with
  | nil => simp [MessageRepository.inFolders, located_nil]
  | cons => rfl

/-- Grouped constraints select what the constraints select one by one. -/
private theorem folderGroups_spec {hints : List Hint} {constraints : List FolderConstraint}
    (h : List.Forall₂ (Resolves lib db scope) hints constraints) :
    match folderGroups constraints with
    | none => hintsResolve lib db scope hints = false
    | some (groups, exclude) => hintsResolve lib db scope hints = true ∧
        ∀ id, MessageRepository.inFolders db groups exclude id = passesHints lib db scope hints id := by
  induction h with
  | nil => simp [folderGroups, hintsResolve, passesHints, inFolders_eq, located_nil]
  | @cons hint c hints constraints hc _ ih =>
    obtain ⟨negated, ids⟩ := c
    obtain rfl : negated = hint.1 := hc.negated
    have hl := hc.located
    have he := hc.isEmpty
    simp only [folderGroups, hintsResolve_cons, passesHints_cons]
    cases hg : folderGroups constraints with
    | none =>
      rw [hg] at ih
      have hi : hintsResolve lib db scope hints = false := ih
      cases hn : hint.1 with
      | true => simpa [hn] using hi
      | false =>
        cases hids : ids.isEmpty with
        | true => simp_all
        | false => simpa [hn, hids] using fun _ _ _ => hi
    | some ge =>
      obtain ⟨groups, exclude⟩ := ge
      rw [hg] at ih
      obtain ⟨hi, hp⟩ := ih
      cases hn : hint.1 with
      | true =>
        refine ⟨by simpa [hn] using hi, fun id => ?_⟩
        have := hp id
        rw [inFolders_eq] at this ⊢
        rw [← this, located_append, hl]
        cases groups.all (db.located id) <;> cases inNamedFolder lib db scope hint.2 id <;>
          cases db.located id exclude <;> rfl
      | false =>
        cases hids : ids.isEmpty with
        | true => simp_all
        | false =>
          have hany : db.folders.rows.any (namedBy lib scope hint.2) = true := by simp_all
          refine ⟨by simpa [hn, hany] using hi, fun id => ?_⟩
          have := hp id
          rw [inFolders_eq] at this ⊢
          rw [← this, List.all_cons, hl]
          cases groups.all (db.located id) <;> cases inNamedFolder lib db scope hint.2 id <;>
            cases db.located id exclude <;> rfl

/-- The post-filter applies the same folder test to the ids it was given. -/
private theorem postFilter_spec {hints : List Hint} {constraints : List FolderConstraint}
    (h : List.Forall₂ (Resolves lib db scope) hints constraints) {rankedIds : List MessageId}
    {id : MessageId} (hid : id ∈ rankedIds) (keep : MessageId → Bool) :
    postFilter db rankedIds constraints keep id = (keep id && passesHints lib db scope hints id) := by
  induction h generalizing keep with
  | nil => simp [postFilter, passesHints]
  | @cons hint c hints constraints hc _ ih =>
    obtain ⟨negated, ids⟩ := c
    obtain rfl : negated = hint.1 := hc.negated
    have hl := hc.located id
    rw [postFilter, passesHints_cons]
    split
    · rename_i he
      have hids : ids = [] := List.isEmpty_iff.mp he
      rw [hids, located_nil] at hl
      cases hn : hint.1 with
      | true => simpa [← hl] using ih keep
      | false => simp [← hl]
    · rw [ih]
      have hm : decide (id ∈ MessageLocationRepository.filterMessageIdsInFolders db rankedIds ids) =
          inNamedFolder lib db scope hint.2 id := by
        rw [← hl, Bool.eq_iff_iff, decide_eq_true_eq, MessageLocationRepository.mem_filterMessageIdsInFolders]
        simp [hid]
      rw [hm, Bool.and_assoc]

private theorem buildQuery_eq (ids : List AccountId) (doc : Document) :
    buildQuery lib tantivy ids (queryResidual lib query) doc =
      (decide (doc.accountId ∈ ids) && residualMatches lib tantivy query doc) := by
  have hscope : BooleanQuery (ids.map fun id => (Occur.should, TermQuery.u64 Document.accountId id)) doc = true ↔
      doc.accountId ∈ ids := by
    rw [BooleanQuery_iff]
    simp [TermQuery.u64]
  rw [Bool.eq_iff_iff, buildQuery, BooleanQuery_iff, Bool.and_eq_true, decide_eq_true_eq, residualMatches,
    List.all_eq_true]
  simp only [List.mem_cons, List.mem_map, forall_eq_or_imp, exists_eq_or_imp, hscope, forall_exists_index, and_imp,
    forall_apply_eq_imp_iff₂, true_or, and_true, forall_const, reduceCtorEq, false_imp_iff, true_and]
  constructor
  · rintro ⟨⟨hs, hmust⟩, hnot⟩
    refine ⟨hs, fun clause hc => ?_⟩
    have hm := hmust clause hc
    have hn := hnot clause hc
    cases hneg : clause.negated <;> simp_all [clauseQuery]
  · rintro ⟨hs, hall⟩
    refine ⟨⟨hs, fun clause hc => ?_⟩, fun clause hc => ?_⟩ <;>
      have := hall clause hc <;> cases hneg : clause.negated <;> simp_all [clauseQuery]

private theorem constraints_isEmpty {hints : List Hint} {constraints : List FolderConstraint}
    (h : List.Forall₂ (Resolves lib db scope) hints constraints) : constraints.isEmpty = hints.isEmpty := by
  cases h <;> rfl

/-- The fast path over resolved constraints lists the messages the hints let through. -/
private theorem folderListing_eq {constraints : List FolderConstraint}
    (h : List.Forall₂ (Resolves lib db (queryScope lib db userId query)) (queryFolderHints lib query) constraints) :
    folderListing db userId constraints limit offset =
      if hintsResolve lib db (queryScope lib db userId query) (queryFolderHints lib query) then
        if userId = 0 then .error (.invalidId 0)
        else
          let listed := listedMessages lib db userId query
          .ok ⟨listed.length, (page (sortDesc listingKey listed) offset limit).map Message.toHit⟩
      else .ok ⟨0, []⟩ := by
  have hg := folderGroups_spec h
  unfold folderListing
  cases hf : folderGroups constraints with
  | none =>
    rw [hf] at hg
    have hr : hintsResolve lib db (queryScope lib db userId query) (queryFolderHints lib query) = false := hg
    simp [hr]
  | some ge =>
    obtain ⟨groups, exclude⟩ := ge
    rw [hf] at hg
    obtain ⟨hr, hp⟩ := hg
    have hq : MessageRepository.foldersQuery db userId groups exclude = fun m =>
        decide (m.accountId ∈ db.ownedAccounts userId) &&
          passesHints lib db (queryScope lib db userId query) (queryFolderHints lib query) m.id :=
      funext fun m => by rw [MessageRepository.foldersQuery, hp]
    simp only [hr, if_true, MessageRepository.listAndCountByFoldersForUser, hq]
    split
    · rename_i hu
      subst hu
      rfl
    · rfl

/-- Of the hits of some documents the post-filter keeps those the hints let through. -/
theorem keptHits_eq {hints : List Hint} {constraints : List FolderConstraint}
    (h : List.Forall₂ (Resolves lib db scope) hints constraints)
    (docs : List Document) {ids : List MessageId} (covers : ∀ doc ∈ docs, doc.messageId ∈ ids) :
    (if constraints.isEmpty then docs.map Document.toHit
      else (docs.map Document.toHit).filter fun hit => postFilter db ids constraints
        (fun id => id ∈ ids) hit.messageId) =
      (docs.filter fun doc => passesHints lib db scope hints doc.messageId).map Document.toHit := by
  rw [constraints_isEmpty h]
  split
  · rename_i none
    have nil : hints = [] := List.isEmpty_iff.mp none
    simp [nil, passesHints]
  · rw [List.filter_map]
    refine congrArg _ (List.filter_congr fun doc hdoc => ?_)
    rw [Function.comp, Document.toHit, postFilter_spec h (covers doc hdoc)]
    simp [covers doc hdoc]

theorem filter_buildQuery {ids : List AccountId} (hids : ∀ a, a ∈ ids ↔ a ∈ queryScope lib db userId query) :
    index.filter (buildQuery lib tantivy ids (queryResidual lib query)) =
      matchingDocuments lib tantivy db index userId query :=
  List.filter_congr fun doc _ => by rw [buildQuery_eq]; simp only [hids]

/-- The ranked path over resolved constraints pages the documents the hints let through. -/
private theorem rankedSearch_eq {ids : List AccountId} {constraints : List FolderConstraint}
    (hids : ∀ a, a ∈ ids ↔ a ∈ queryScope lib db userId query)
    (h : List.Forall₂ (Resolves lib db (queryScope lib db userId query)) (queryFolderHints lib query) constraints) :
    rankedSearch lib tantivy db index ids constraints (queryResidual lib query) limit offset =
      ⟨(matchingDocuments lib tantivy db index userId query).length,
        page ((rankedDocuments lib tantivy db index userId query limit offset).map Document.toHit) offset limit⟩ := by
  have fetched : ∀ doc ∈ Collector.topDocs index (buildQuery lib tantivy ids (queryResidual lib query))
      (fetchCount (!constraints.isEmpty) limit offset),
      doc.messageId ∈ ((Collector.topDocs index (buildQuery lib tantivy ids (queryResidual lib query))
        (fetchCount (!constraints.isEmpty) limit offset)).map Document.toHit).map SearchHit.messageId :=
    fun doc hdoc => List.mem_map_of_mem (List.mem_map_of_mem hdoc)
  rw [rankedSearch]
  rw [keptHits_eq h _ fetched, Collector.count, Collector.topDocs, filter_buildQuery hids, rankedDocuments, constraints_isEmpty h]

/-- A search as a function of the state and the query alone. -/
theorem search_eq :
    search lib tantivy order db index userId query limit offset =
      if queryScope lib db userId query = ∅ then .ok ⟨0, []⟩
      else if 0 ∈ queryScope lib db userId query then .error (.invalidId 0)
      else if queryResidual lib query = [] ∧ queryFolderHints lib query ≠ [] then
        if hintsResolve lib db (queryScope lib db userId query) (queryFolderHints lib query) then
          if userId = 0 then .error (.invalidId 0)
          else
            let listed := listedMessages lib db userId query
            .ok ⟨listed.length, (page (sortDesc listingKey listed) offset limit).map Message.toHit⟩
        else .ok ⟨0, []⟩
      else .ok ⟨(matchingDocuments lib tantivy db index userId query).length,
        page ((rankedDocuments lib tantivy db index userId query limit offset).map Document.toHit) offset limit⟩ := by
  have hsplit : splitClauses (parse lib query) =
      ((splitClauses (parse lib query)).1, queryFolderHints lib query, queryResidual lib query) := rfl
  rw [search, hsplit]
  by_cases hs : queryScope lib db userId query = ∅
  · have hr : resolveScope lib (AccountRepository.listForUser db userId)
      (splitClauses (parse lib query)).1 = ∅ := hs
    simp [resolveHints, hs, hr, bind, Except.bind, pure, Except.pure]
  · have hres := resolveHints_eq order hs
    rw [if_neg hs]
    split at hres
    · rename_i h0
      rw [if_pos h0]
      simp [hres, bind, Except.bind]
    · rename_i h0
      obtain ⟨constraints, hres, hc⟩ := hres
      have hne : (order.list (queryScope lib db userId query)).isEmpty = false := by
        obtain ⟨a, ha⟩ := Finset.nonempty_iff_ne_empty.mpr hs
        exact List.isEmpty_eq_false_iff_exists_mem.mpr ⟨a, (order.mem_list _ a).mpr ha⟩
      rw [if_neg h0]
      simp only [hres, bind, Except.bind, hne]
      rw [constraints_isEmpty hc]
      by_cases hf : queryResidual lib query = [] ∧ queryFolderHints lib query ≠ []
      · rw [if_pos hf, folderListing_eq hc]
        simp [hf.1, hf.2]
      · rw [if_neg hf, rankedSearch_eq (order.mem_list _) hc]
        rw [if_neg (by simp), if_neg (by simpa [List.isEmpty_iff] using hf)]
        rfl

end MailKeep
