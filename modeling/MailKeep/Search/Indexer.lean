import MailKeep.Search.IndexStore

/-! The write side of the search: opening the index, the reconcile at startup and the drain. -/
namespace MailKeep
open Program

inductive SearchIndexError
  | createDir (source : String)
  | resetDir (source : String)
  | openIndex (source : String)
  | writeVersion (source : String)
deriving DecidableEq

abbrev IndexAction (ε α : Type) := Action indexSignature ε α

namespace IndexStore

def perform {ε : Type} (o : IndexOp) : IndexAction ε o.Value := .mk (.call o fun reply => .ret (.ok reply))

def orElse {ε ε' α : Type} (toError : ε → ε') : Except ε α → IndexAction ε' α
  | .ok a => pure a
  | .error e => throw (toError e)

end IndexStore
open IndexStore

/-- Removes the entries in the order the directory lists them. -/
def removeEntries : List DirEntry → IndexAction SearchIndexError Unit
  | [] => pure ()
  | entry :: entries => do
    orElse .resetDir (← perform (.removeEntry entry))
    removeEntries entries

def clearDirContents : IndexAction SearchIndexError Unit := do
  let entries ← orElse .resetDir (← perform .readDir)
  removeEntries entries

/-- An index with another schema is wiped before the directory is opened. -/
def openOrCreate (schema : IndexSchema) : IndexAction SearchIndexError Unit := do
  orElse .createDir (← perform .createDirAll)
  let existing ← perform .openIndex
  if existing.any (· ≠ schema) then clearDirContents
  orElse .openIndex (← perform (.openOrCreate schema))

def writeVersion (version : U32) : IndexAction SearchIndexError Unit := do
  orElse .writeVersion (← perform .truncateSidecar)
  orElse .writeVersion (← perform (.writeSidecar (toString version.val)))

def BATCH : Nat := 128

def SearchIndexError.text (dir : String) : SearchIndexError → String
  | createDir source => "creating search index directory " ++ dir ++ ": " ++ source
  | resetDir source => "clearing stale search index directory " ++ dir ++ ": " ++ source
  | openIndex source => "opening search index at " ++ dir ++ ": " ++ source
  | writeVersion source => "writing schema version sidecar " ++ dir ++ "/schema_version: " ++ source

def indexError (dir : String) (e : SearchIndexError) : Error := .infrastructure ("search index: " ++ e.text dir)

def tantivyError (text : String) : Error := .infrastructure ("search engine: " ++ text)

def lockPoisoned (_ : String) : Error := .infrastructure "search index writer lock poisoned"

def clearIndex : IndexAction Error Unit := do
  orElse lockPoisoned (← perform .lockWriter)
  orElse tantivyError (← perform .deleteAllDocuments)
  orElse tantivyError (← perform .commit)

/-- Where the sidecar does not have the version of this release: clear the index, queue every
message again, and only then record the version. -/
def reconcileOnStartup (dir : String) (version : U32) : IndexAction Error Unit := do
  if needsRebuild version (← perform .readSidecar) then do
    clearIndex
    let _ ← orElse id (← perform .resetAllIndexed)
    orElse (indexError dir) (← attempt (writeVersion version))

section Drain
variable (tantivy : Tantivy) (extractBody : Bytes → Option String)

/-- The ids of the batch and the documents of the messages that have one; a missing blob and one
that does not parse give none, any other failure ends the batch. -/
def fetchBatch : List Message → IndexAction Error (List MessageId × List (MessageId × Document))
  | [] => pure ([], [])
  | msg :: msgs => do
    let docs : List (MessageId × Document) ← match ← perform (.getRaw msg) with
      | .ok raw => match extractBody raw with
        | some body => pure [(msg.id, toDocument tantivy msg body)]
        | none => pure []
      | .error (.blobNotFound _ _) => pure []
      | .error e => throw e
    let rest ← fetchBatch msgs
    return (msg.id :: rest.1, docs ++ rest.2)

/-- `delete_term` and then `add_document` for each. -/
def addAll : List (MessageId × Document) → IndexAction Error Unit
  | [] => pure ()
  | (id, doc) :: docs => do
    perform (.deleteTerm id)
    orElse tantivyError (← perform (.addDocument doc))
    addAll docs

def writeBatch (docs : List (MessageId × Document)) : IndexAction Error Unit := do
  orElse lockPoisoned (← perform .lockWriter)
  addAll docs
  orElse tantivyError (← perform .commit)

/-- One batch: list, fetch, write and commit, and only then mark. -/
def drainOnce : IndexAction Error Nat := do
  let messages ← orElse id (← perform (.listUnindexed BATCH))
  if messages.isEmpty then return 0
  let (ids, docs) ← fetchBatch tantivy extractBody messages
  writeBatch docs
  orElse id (← perform (.markIndexed ids))
  return ids.length

end Drain

/-- What a process does before its first drain; a failed reconcile is only logged. -/
def startup (dir : String) (release : Release) : IndexAction SearchIndexError Unit := do
  openOrCreate release.schema
  let _ ← attempt (reconcileOnStartup dir release.schemaVersion)
  perform .serve

end MailKeep
