import MailKeep.Database.Schema
import MailKeep.Core.Query
import MailKeep.Ranked.Page
import Mathlib.Order.WithBot

/-! The search index: its documents, the queries it evaluates and its collector. -/
namespace MailKeep
open Ranked

structure Token where
  position : Nat
  text : String
deriving DecidableEq

/-- What the adapter takes from Tantivy: the analyzer registered as `en_stem` and the
conversion of a date to the index's clock. -/
structure Tantivy where
  enStem : String → List Token
  fromTimestampSecs : Int → Int

structure Document where
  messageId : MessageId
  accountId : AccountId
  subject : List Token
  body : List Token
  sender : List Token
  recipients : List Token
  sentDate : Option Int
  hasAttachments : Nat
  snippet : String
deriving DecidableEq

variable (tantivy : Tantivy)

def fromText (msg : Message) : String :=
  " ".intercalate (msg.fromAddress :: msg.fromName.toList)

def pushNamedAddress (addr : NamedAddress) : List String := addr.address :: addr.name.toList

def toText (msg : Message) : String :=
  " ".intercalate ((msg.toAddresses ++ msg.ccAddresses).flatMap pushNamedAddress)

/-- The document of a message; an undated message has no `sent_date`. -/
def toDocument (msg : Message) (bodyText : String) : Document where
  messageId := msg.id
  accountId := msg.accountId
  subject := tantivy.enStem (msg.subject.getD "")
  body := tantivy.enStem bodyText
  sender := tantivy.enStem (fromText msg)
  recipients := tantivy.enStem (toText msg)
  sentDate := msg.sentDate.map fun sent => tantivy.fromTimestampSecs (DateTimeUtc.timestamp sent)
  hasAttachments := msg.hasAttachments.toNat
  snippet := msg.snippet

abbrev IndexQuery := Document → Bool

inductive Occur
  | must
  | should
  | mustNot
deriving DecidableEq

def EmptyQuery : IndexQuery := fun _ => false

def TermQuery.text (field : Document → List Token) (term : String) : IndexQuery := fun doc =>
  (field doc).any (·.text = term)

def TermQuery.u64 (field : Document → Nat) (value : Nat) : IndexQuery := fun doc => field doc = value

def PhraseQuery (field : Document → List Token) (terms : List String) : IndexQuery := fun doc =>
  (field doc).any fun first =>
    terms.zipIdx.all fun (term, i) => (field doc).any fun t => t.position = first.position + i && t.text = term

/-- Half-open range; a document without a value never matches. -/
def RangeQuery (field : Document → Option Int) (lower upper : Option Int) : IndexQuery := fun doc =>
  match field doc with
  | none => false
  | some v => lower.all (fun l => decide (l ≤ v)) && upper.all (fun u => decide (v < u))

/-- Every `must` and no `mustNot` clause; without a `must` clause, at least one `should`. -/
def BooleanQuery (clauses : List (Occur × IndexQuery)) : IndexQuery := fun doc =>
  let having (o : Occur) := (clauses.filter fun c => c.1 = o).map fun c => c.2 doc
  (having .must).all id && !(having .mustNot).any id && (!(having .must).isEmpty || (having .should).any id)

theorem BooleanQuery_iff {clauses : List (Occur × IndexQuery)} {doc : Document} :
    BooleanQuery clauses doc = true ↔
      (∀ c ∈ clauses, c.1 = .must → c.2 doc = true) ∧ (∀ c ∈ clauses, c.1 = .mustNot → c.2 doc = false) ∧
        ((∃ c ∈ clauses, c.1 = .must) ∨ ∃ c ∈ clauses, c.1 = .should ∧ c.2 doc = true) := by
  simp [BooleanQuery, and_assoc, imp_iff_not_or]

/-- `Count`. -/
def Collector.count (index : List Document) (query : IndexQuery) : Nat := (index.filter query).length

/-- `TopDocs` by `sent_date` descending: undated documents last, ties in document order. -/
def Collector.topDocs (index : List Document) (query : IndexQuery) (limit : Nat) : List Document :=
  (sortDesc (fun doc => (doc.sentDate : WithBot Int)) (index.filter query)).take limit

end MailKeep
