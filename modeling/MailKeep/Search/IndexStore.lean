import MailKeep.Database.Error
import MailKeep.Database.Recording
import MailKeep.Program.Safe
import MailKeep.Search.Schema

/-! What the indexer acts on, one operation at a time: the index directory with its version
sidecar, the one writer, the flags of the message rows and the raw blobs. -/
namespace MailKeep
open Program Ranked

def SCHEMA_VERSION : U32 := 1

inductive FieldKind
  | u64
  | text
  | date
deriving DecidableEq

structure FieldEntry where
  name : String
  kind : FieldKind
  stored : Bool
  indexed : Bool
  fast : Bool
  stemmed : Bool
deriving DecidableEq

abbrev IndexSchema := List FieldEntry

def buildSchema : IndexSchema := [
  ⟨"message_id", .u64, true, true, false, false⟩,
  ⟨"account_id", .u64, false, true, true, false⟩,
  ⟨"subject", .text, true, true, false, true⟩,
  ⟨"body", .text, false, true, false, true⟩,
  ⟨"from", .text, false, true, false, true⟩,
  ⟨"to", .text, false, true, false, true⟩,
  ⟨"sent_date", .date, false, false, true, false⟩,
  ⟨"has_attachments", .u64, false, true, false, false⟩,
  ⟨"snippet", .text, true, false, false, false⟩]

/-- A release: the schema it builds and the version it gives it. -/
structure Release where
  schemaVersion : U32
  schema : IndexSchema
deriving DecidableEq

def currentRelease : Release := ⟨SCHEMA_VERSION, buildSchema⟩

/-- `str::parse::<u32>`. -/
def parseU32 (s : List Char) : Option U32 :=
  let digits := match s with
    | '+' :: rest => rest
    | s => s
  if digits.isEmpty || !digits.all Char.isDigit then none
  else
    let n := digits.foldl (fun n c => 10 * n + (c.toNat - 48)) 0
    if h : n < 4294967296 then some ⟨n, h⟩ else none

def readVersion (sidecar : Option String) : Option U32 := sidecar.bind fun s => parseU32 (trim s.toList)

def needsRebuild (version : U32) (sidecar : Option String) : Bool := readVersion sidecar ≠ some version

/-- The committed index: the schema it was created with and its documents. -/
structure DiskIndex where
  schema : IndexSchema
  docs : List Document

/-- An entry of the index directory: the index's own metadata, the sidecar, a file that holds
the documents of some messages, or anything else. -/
inductive DirEntry
  | metaFile
  | versionFile
  | segment (holds : MessageId → Bool)
  | other

/-- Whether the index still has the documents of the rows that are marked: it has, it has until the next commit, or they
have been thrown away. -/
inductive Holdings
  | all
  | dropping
  | lost
deriving DecidableEq

namespace Holdings

def drop : Holdings → Holdings
  | all => dropping
  | h => h

def commit : Holdings → Holdings
  | dropping => lost
  | h => h

/-- What was not committed is as it was. -/
def reopened : Holdings → Holdings
  | dropping => all
  | h => h

end Holdings

/-- `writer` has the documents a commit would leave, while a process has the index open. `fetched` and `holdings` are a
history: what the last read of a message's blob gave, and whether documents were thrown away while rows were marked. -/
structure IndexWorld where
  messages : Keyed.Table Message.id
  raw : AccountId → ContentHash → Option Bytes
  index : Option DiskIndex
  sidecar : Option String
  writer : Option (List Document)
  release : Release
  serving : Bool
  fetched : MessageId → Option (Except Error Bytes)
  holdings : Holdings

def Message.withIndexed (m : Message) (indexed : Bool) : Message := { m with indexed := indexed }

@[simp] theorem Message.withIndexed_id (m : Message) (indexed : Bool) : (m.withIndexed indexed).id = m.id := rfl

namespace IndexWorld

/-- The documents are gone, which matters only where a row is marked. -/
def discarded (w : IndexWorld) : Holdings := if w.messages.rows.any Message.indexed then .lost else w.holdings

def dropped (w : IndexWorld) : Holdings := if w.messages.rows.any Message.indexed then w.holdings.drop else w.holdings

def remove (w : IndexWorld) : DirEntry → IndexWorld
  | .metaFile => { w with index := none, holdings := w.discarded }
  | .versionFile => { w with sidecar := none }
  | .segment holds =>
    { w with
      index := w.index.map fun i => { i with docs := i.docs.filter fun d => !holds d.messageId }
      holdings := w.discarded }
  | .other => w

/-- The documents of the writer become those of the index. -/
def committed (w : IndexWorld) : IndexWorld :=
  { w with
    index := w.index.map fun i => { i with docs := w.writer.getD i.docs }
    holdings := w.holdings.commit }

def setIndexed (w : IndexWorld) (p : Message → Bool) (indexed : Bool) : IndexWorld :=
  { w with messages := w.messages.update p (·.withIndexed indexed) fun m => m.withIndexed_id indexed }

theorem mem_setIndexed {w : IndexWorld} {p : Message → Bool} {indexed : Bool} {m : Message} :
    m ∈ (w.setIndexed p indexed).messages ↔ ∃ m' ∈ w.messages, m = if p m' then m'.withIndexed indexed else m' := by
  rw [setIndexed, Keyed.Table.mem_update]

/-- In ascending id order, at most `limit` of them. -/
def listUnindexed (w : IndexWorld) (limit : Nat) : List Message :=
  (sortDesc (fun m => OrderDual.toDual m.id) (w.messages.rows.filter fun m => !m.indexed)).take limit

end IndexWorld

/-- A step that reports a failure may have had its effect already. -/
structure Fault (ε : Type) where
  error : ε
  done : Bool

inductive IndexOp
  | createDirAll
  | openIndex
  | readDir
  | removeEntry (entry : DirEntry)
  | openOrCreate (schema : IndexSchema)
  | readSidecar
  | truncateSidecar
  | writeSidecar (text : String)
  | lockWriter
  | deleteAllDocuments
  | deleteTerm (messageId : MessageId)
  | addDocument (doc : Document)
  | commit
  | resetAllIndexed
  | listUnindexed (limit : Nat)
  | markIndexed (ids : List MessageId)
  | getRaw (msg : Message)
  | serve

abbrev IndexOp.Value : IndexOp → Type
  | openIndex => Option IndexSchema
  | readDir => Except String (List DirEntry)
  | readSidecar => Option String
  | resetAllIndexed => Except Error Nat
  | listUnindexed _ => Except Error (List Message)
  | markIndexed _ => Except Error Unit
  | getRaw _ => Except Error Bytes
  | deleteTerm _ | serve => Unit
  | createDirAll | removeEntry _ | openOrCreate _ | truncateSidecar | writeSidecar _ | lockWriter
  | deleteAllDocuments | addDocument _ | commit => Except String Unit

/-- A read of a blob that fails for another reason than that it is missing. -/
structure ReadFault where
  error : Error
  present : ∀ accountId hash, error ≠ .blobNotFound accountId hash

/-- A failed write of the sidecar leaves some text in it. -/
abbrev IndexOp.Choice : IndexOp → Type
  | openIndex => Bool
  | readDir => Except String (List DirEntry)
  | writeSidecar _ => Option (String × String)
  | resetAllIndexed | listUnindexed _ | markIndexed _ => Option (Fault DbErr)
  | getRaw _ => Option ReadFault
  | readSidecar | deleteTerm _ | serve => Unit
  | createDirAll | removeEntry _ | openOrCreate _ | truncateSidecar | lockWriter | deleteAllDocuments
  | addDocument _ | commit => Option (Fault String)

/-- The reply and the world of a step that turns `w` into `w'`, or fails. -/
def fallible {ε ε' α : Type} (toError : ε → ε') (value : α) (w w' : IndexWorld) :
    Option (Fault ε) → Except ε' α × IndexWorld
  | none => (.ok value, w')
  | some f => (.error (toError f.error), if f.done then w' else w)

def indexExec : (o : IndexOp) → o.Choice → IndexWorld → o.Value × IndexWorld
  | .createDirAll, c, w => fallible id () w w c
  | .openIndex, readable, w => (if readable then w.index.map DiskIndex.schema else none, w)
  | .readDir, entries, w => (entries, w)
  | .removeEntry entry, c, w => fallible id () w (w.remove entry) c
  | .openOrCreate schema, c, w =>
    match w.index, c with
    | none, none => (.ok (), { w with index := some ⟨schema, []⟩, writer := some [], holdings := w.discarded })
    | none, some f =>
      (.error f.error, if f.done then { w with index := some ⟨schema, []⟩, holdings := w.discarded } else w)
    | some i, c =>
      if i.schema ≠ schema then (.error "An index exists but the schema does not match.", w)
      else match c with
      | none => (.ok (), { w with writer := some i.docs })
      | some f => (.error f.error, w)
  | .readSidecar, _, w => (w.sidecar, w)
  | .truncateSidecar, c, w => fallible id () w { w with sidecar := some "" } c
  | .writeSidecar text, none, w => (.ok (), { w with sidecar := some text })
  | .writeSidecar _, some (error, left), w => (.error error, { w with sidecar := some left })
  | .lockWriter, c, w => fallible id () w w c
  | .deleteAllDocuments, c, w =>
    fallible id () w { w with writer := w.writer.map fun _ => [], holdings := w.dropped } c
  | .deleteTerm messageId, _, w =>
    ((), { w with writer := w.writer.map fun docs => docs.filter fun d => d.messageId ≠ messageId })
  | .addDocument doc, c, w => fallible id () w { w with writer := w.writer.map fun docs => docs ++ [doc] } c
  | .commit, c, w => fallible id () w w.committed c
  | .resetAllIndexed, c, w =>
    fallible (fun e => .repositoryError (handleDberr e)) w.messages.rows.length w
      { w.setIndexed (fun _ => true) false with holdings := .all } c
  | .listUnindexed limit, c, w => fallible (fun e => .repositoryError (handleDberr e)) (w.listUnindexed limit) w w c
  | .markIndexed ids, c, w =>
    fallible (fun e => .repositoryError (handleDberr e)) () w (w.setIndexed (fun m => ids.contains m.id) true) c
  | .getRaw msg, c, w =>
    let reply : Except Error Bytes := match c with
      | some f => .error f.error
      | none => match w.raw msg.accountId msg.contentHash with
        | some bytes => .ok bytes
        | none => .error (.blobNotFound msg.accountId msg.contentHash.asHex)
    (reply, { w with fetched := Function.update w.fetched msg.id (some reply) })
  | .serve, _, w => ((), { w with serving := true })

abbrev indexSignature : Signature := ⟨IndexOp, IndexOp.Value⟩

abbrev indexStore : Machine where
  toSignature := indexSignature
  State := IndexWorld
  Choice := IndexOp.Choice
  exec := indexExec

end MailKeep
