import MailKeep.Search.Schema
import MailKeep.Database.Listing
import Mathlib.Data.Finset.Image
import Mathlib.Data.Finset.Sort

/-! The search service: hints, the account scope, the folder listing and the ranked search. -/
namespace MailKeep
open Ranked

def folderOverfetch : Nat := 10

def maxFetch : Nat := 10000

structure SearchHit where
  messageId : MessageId
  accountId : AccountId
  snippet : String
deriving DecidableEq

structure SearchResults where
  total : Nat
  hits : List SearchHit
deriving DecidableEq

abbrev Hint := Bool × String

abbrev FolderConstraint := Bool × List FolderId

structure HashOrder where
  list : Finset AccountId → List AccountId
  mem_list : ∀ s a, a ∈ list s ↔ a ∈ s

variable (lib : TextLibrary) (tantivy : Tantivy) (order : HashOrder)

def stemTokens (value : String) : List String := (tantivy.enStem value).map Token.text

def textFieldQuery (field : Document → List Token) (value : String) : IndexQuery :=
  match stemTokens tantivy value with
  | [] => EmptyQuery
  | [one] => TermQuery.text field one
  | many => PhraseQuery field many

def bareQuery (value : String) : IndexQuery :=
  BooleanQuery [(.should, textFieldQuery tantivy Document.subject value),
    (.should, textFieldQuery tantivy Document.body value)]

/-- Midnight at the start of the day, on the index's clock. -/
def dayStart (date : NaiveDate) : Int := tantivy.fromTimestampSecs (date * 86400)

def dateRangeQuery (bound : DateBound) (date : NaiveDate) : IndexQuery :=
  let start := dayStart tantivy date
  let next := (lib.succOpt date).elim start (dayStart tantivy)
  match bound with
  | .on => RangeQuery Document.sentDate (some start) (some next)
  | .before => RangeQuery Document.sentDate none (some start)
  | .after => RangeQuery Document.sentDate (some next) none

def clauseQuery (clause : Clause) : Occur × IndexQuery :=
  let occur := if clause.negated then .mustNot else .must
  let query := match clause.term with
    | .bare value => bareQuery tantivy value
    | .text .subject value => textFieldQuery tantivy Document.subject value
    | .text .sender value => textFieldQuery tantivy Document.sender value
    | .text .recipient value => textFieldQuery tantivy Document.recipients value
    | .date bound date => dateRangeQuery lib tantivy bound date
    | .attachments has => TermQuery.u64 Document.hasAttachments has.toNat
    | .account _ | .folder _ => EmptyQuery
  (occur, query)

def buildQuery (scope : List AccountId) (residual : List Clause) : IndexQuery :=
  let scopeQuery := BooleanQuery (scope.map fun id => (.should, TermQuery.u64 Document.accountId id))
  BooleanQuery ((.must, scopeQuery) :: residual.map (clauseQuery lib tantivy))

def splitClauses : List Clause → List Hint × List Hint × List Clause
  | [] => ([], [], [])
  | clause :: rest =>
    let (accounts, folders, residual) := splitClauses rest
    match clause.term with
    | .account name => ((clause.negated, name) :: accounts, folders, residual)
    | .folder name => (accounts, (clause.negated, name) :: folders, residual)
    | _ => (accounts, folders, clause :: residual)

/-- Lower-cased display names; the last account of a name wins. -/
def nameMap (accounts : List Account) : String → Option AccountId :=
  accounts.foldl (fun m a => Function.update m (lib.toLowercase a.displayName) (some a.id)) fun _ => none

def applyHint (resolve : String → Option AccountId) (scope : Finset AccountId) (hint : Hint) : Finset AccountId :=
  let resolved := resolve (lib.toLowercase hint.2)
  if hint.1 then
    match resolved with
    | some id => scope.erase id
    | none => scope
  else
    match resolved with
    | some id => if id ∈ scope then {id} else ∅
    | none => ∅

def resolveScope (accounts : List Account) (hints : List Hint) : Finset AccountId :=
  hints.foldl (applyHint lib (nameMap lib accounts)) (accounts.map Account.id).toFinset

def contains (text needle : String) : Bool := needle.toList <:+: text.toList

def folderMatches (needle : String) (f : Folder) : Bool :=
  contains (lib.toLowercase f.path) needle ||
    f.displayName.any fun d => contains (lib.toLowercase d) needle

def folderConstraint (scopedFolders : List Folder) (hint : Hint) : FolderConstraint :=
  (hint.1, (scopedFolders.filter (folderMatches lib (lib.toLowercase hint.2))).map Folder.id)

/-- The first read transaction: the scope and the resolved folder hints. -/
def resolveHints (db : Database) (userId : UserId) (accountHints folderHints : List Hint) :
    Except Error (List AccountId × List FolderConstraint) := do
  let accounts := AccountRepository.listForUser db userId
  let scope := resolveScope lib accounts accountHints
  if scope = ∅ then
    return ([], [])
  let folders ← (order.list scope).mapM (FolderRepository.listForAccount db)
  return (order.list scope, folderHints.map (folderConstraint lib folders.flatten))

/-- Required groups and excluded folders, or `none` if a required hint matched no folder. -/
def folderGroups : List FolderConstraint → Option (List (List FolderId) × List FolderId)
  | [] => some ([], [])
  | (negated, ids) :: rest =>
    if negated then (folderGroups rest).map fun (groups, exclude) => (groups, ids ++ exclude)
    else if ids.isEmpty then none
    else (folderGroups rest).map fun (groups, exclude) => (ids :: groups, exclude)

def Message.toHit (m : Message) : SearchHit := ⟨m.id, m.accountId, m.snippet⟩

def Document.toHit (doc : Document) : SearchHit := ⟨doc.messageId, doc.accountId, doc.snippet⟩

/-- The fast path: a folder listing straight from the database. -/
def folderListing (db : Database) (userId : UserId) (constraints : List FolderConstraint)
    (limit offset : U32) : Except Error SearchResults :=
  match folderGroups constraints with
  | none => .ok ⟨0, []⟩
  | some (includeGroups, exclude) => do
    let (total, messages) ←
      MessageRepository.listAndCountByFoldersForUser db userId includeGroups exclude limit offset
    return ⟨total, messages.map Message.toHit⟩

def fetchCount (constrained : Bool) (limit offset : U32) : Nat :=
  let want := Usize.saturatingAdd offset limit
  let fetch := if constrained then Usize.saturatingMul want folderOverfetch else want
  max 1 (min fetch maxFetch)

/-- The second read transaction: which of the ranked ids pass every folder constraint. -/
def postFilter (db : Database) (rankedIds : List MessageId) :
    List FolderConstraint → (MessageId → Bool) → MessageId → Bool
  | [], keep => keep
  | (negated, folderIds) :: rest, keep =>
    if folderIds.isEmpty then
      if negated then postFilter db rankedIds rest keep else fun _ => false
    else
      let hits := MessageLocationRepository.filterMessageIdsInFolders db rankedIds folderIds
      postFilter db rankedIds rest fun id => keep id && (decide (id ∈ hits) != negated)

/-- The ranked path: the index answers, the folder hints filter what it fetched. -/
def rankedSearch (db : Database) (index : List Document) (scope : List AccountId)
    (constraints : List FolderConstraint) (residual : List Clause) (limit offset : U32) : SearchResults :=
  let query := buildQuery lib tantivy scope residual
  let total := Collector.count index query
  let top := Collector.topDocs index query (fetchCount (!constraints.isEmpty) limit offset)
  let hits := top.map Document.toHit
  let rankedIds := hits.map SearchHit.messageId
  let kept := if constraints.isEmpty then hits
    else hits.filter fun h => postFilter db rankedIds constraints (fun id => id ∈ rankedIds) h.messageId
  ⟨total, page kept offset limit⟩

def search (db : Database) (index : List Document) (userId : UserId) (query : String) (limit offset : U32) :
    Except Error SearchResults := do
  let (accountHints, folderHints, residual) := splitClauses (parse lib query)
  let (scope, constraints) ← resolveHints lib order db userId accountHints folderHints
  if scope.isEmpty then
    return ⟨0, []⟩
  if residual.isEmpty && !constraints.isEmpty then
    folderListing db userId constraints limit offset
  else
    return rankedSearch lib tantivy db index scope constraints residual limit offset

end MailKeep
