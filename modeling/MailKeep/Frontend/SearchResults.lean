import MailKeep.Search.Slices

/-! The search results view: one page at a time, until a page comes short. -/
namespace MailKeep
open Ranked

variable (lib : TextLibrary) (tantivy : Tantivy) (order : HashOrder)
variable (db : Database) (index : List Document) (userId : UserId) (query : String)

def searchPageSize : U32 := 25

/-- Rows in hit order; a hit without a message is dropped. -/
def orderRowsByHits (hits : List SearchHit) (messages : List Message) : List Message :=
  hits.filterMap fun hit => messages.reverse.find? (·.id = hit.messageId)

/-- One page for the authenticated user: its rows and how many hits stand behind them. -/
def searchMessages (limit offset : U32) : Except Error (List Message × U32) := do
  let results ← search lib tantivy order db index userId query limit offset
  let hitCount := Fin.ofNat 4294967296 results.hits.length
  let messages ← MessageRepository.listByIdsForUser db userId (results.hits.map SearchHit.messageId)
  return (orderRowsByHits results.hits messages, hitCount)

def fetchPage (offset : U32) : Except Error (List Message × U32) :=
  searchMessages lib tantivy order db index userId query searchPageSize offset

structure ResultsView where
  rows : List Message
  error : Option Error
  reachedEnd : Bool
  /-- Counts hits, not rows. -/
  hitOffset : U32

def ResultsView.mount : ResultsView := ⟨[], none, false, 0⟩

def initialLoad : ResultsView :=
  match fetchPage lib tantivy order db index userId query 0 with
  | .ok (rows, hitCount) =>
    { ResultsView.mount with reachedEnd := hitCount < searchPageSize, hitOffset := hitCount, rows := rows }
  | .error e => { ResultsView.mount with error := some e }

def loadMore (view : ResultsView) : ResultsView :=
  match fetchPage lib tantivy order db index userId query view.hitOffset with
  | .ok (rows, hitCount) =>
    { view with
      error := none
      reachedEnd := hitCount < searchPageSize
      hitOffset := view.hitOffset + hitCount
      rows := view.rows ++ rows }
  | .error e => { view with error := some e }

def loadNext (view : ResultsView) : ResultsView :=
  if view.reachedEnd then view else loadMore lib tantivy order db index userId query view

def shown (loads : Nat) : ResultsView :=
  (loadNext lib tantivy order db index userId query)^[loads] (initialLoad lib tantivy order db index userId query)

def messageOf (id : MessageId) : Option Message :=
  db.messages.rows.find? fun m => m.id = id && m.accountId ∈ db.ownedAccounts userId

variable {lib tantivy order db index userId query}

theorem messageOf_eq_some {id : MessageId} {m : Message} :
    messageOf db userId id = some m ↔ m ∈ db.messages ∧ m.accountId ∈ db.ownedAccounts userId ∧ m.id = id := by
  constructor
  · intro found
    have here := List.find?_some found
    rw [Bool.and_eq_true, decide_eq_true_eq, decide_eq_true_eq] at here
    exact ⟨List.mem_of_find?_eq_some found, here.2, here.1⟩
  · rintro ⟨stored, owned, rfl⟩
    refine Keyed.find?_of_unique stored (by simp [owned]) fun other within here => ?_
    rw [Bool.and_eq_true, decide_eq_true_eq] at here
    exact Keyed.Table.eq_of_key within stored here.1

variable (db) in
/-- Joining the hits to the messages fetched for them looks each hit up by itself. -/
private theorem orderRowsByHits_eq (hits : List SearchHit) (user : userId ≠ 0) :
    (MessageRepository.listByIdsForUser db userId (hits.map SearchHit.messageId)).map (orderRowsByHits hits) =
      .ok (hits.filterMap fun hit => messageOf db userId hit.messageId) := by
  unfold MessageRepository.listByIdsForUser
  rw [if_neg user]
  cases hits with
  | nil => rfl
  | cons first rest =>
    rw [if_neg (by simp), Except.map]
    refine congrArg _ (List.filterMap_congr fun hit fetched => ?_)
    apply Option.ext
    intro m
    rw [messageOf_eq_some]
    have asked : hit.messageId ∈ (first :: rest).map SearchHit.messageId := List.mem_map_of_mem fetched
    constructor
    · intro found
      have here := List.find?_some found
      have stored := List.mem_filter.mp (List.mem_reverse.mp (List.mem_of_find?_eq_some found))
      rw [Bool.and_eq_true, decide_eq_true_eq, decide_eq_true_eq] at stored
      exact ⟨stored.1, stored.2.2, of_decide_eq_true here⟩
    · rintro ⟨stored, owned, same⟩
      have selected : (decide (m.id ∈ (first :: rest).map SearchHit.messageId) &&
          decide (m.accountId ∈ db.ownedAccounts userId)) = true := by
        rw [Bool.and_eq_true, decide_eq_true_eq, decide_eq_true_eq]
        exact ⟨same ▸ asked, owned⟩
      refine Keyed.find?_of_unique (List.mem_reverse.mpr (List.mem_filter.mpr ⟨stored, selected⟩))
        (decide_eq_true same) ?_
      intro other kept here
      exact Keyed.Table.eq_of_key (List.mem_filter.mp (List.mem_reverse.mp kept)).1 stored
        ((of_decide_eq_true here).trans same.symm)

/-- A page the search answers is shown, a refused one is not. -/
theorem fetchPage_eq {offset : U32} :
    fetchPage lib tantivy order db index userId query offset =
      (search lib tantivy order db index userId query searchPageSize offset).bind fun results =>
        if userId = 0 then .error (.invalidId 0)
        else .ok (results.hits.filterMap fun hit => messageOf db userId hit.messageId, Fin.ofNat 4294967296 results.hits.length) := by
  rw [fetchPage, searchMessages]
  cases search lib tantivy order db index userId query searchPageSize offset with
  | error e => rfl
  | ok results =>
    simp only [bind, Except.bind]
    by_cases user : userId = 0
    · subst user
      rfl
    · rw [if_neg user]
      have joined := orderRowsByHits_eq db results.hits user
      cases fetched : MessageRepository.listByIdsForUser db userId (results.hits.map SearchHit.messageId) with
      | error e =>
        rw [fetched] at joined
        cases joined
      | ok messages =>
        rw [fetched, Except.map, Except.ok.injEq] at joined
        simp only [pure, Except.pure, joined]

/-- The first page is loaded like every other. -/
theorem initialLoad_eq : initialLoad lib tantivy order db index userId query =
    loadNext lib tantivy order db index userId query .mount := by
  unfold initialLoad loadNext loadMore
  simp only [ResultsView.mount, Bool.false_eq_true, if_false, List.nil_append, Fin.zero_add]

end MailKeep
