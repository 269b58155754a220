import MailKeep.Database.MessageReads
import MailKeep.Database.Recording
import MailKeep.Pipeline.Backend
import MailKeep.Ranked.Arrivals
import MailKeep.Search.IndexRuns
import MailKeep.Users.Requests
import Mathlib.Logic.Relation

/-! The message list of an account: pages by offset, while messages arrive. -/
namespace MailKeep
open Ranked Relation

def messagePageSize : U32 := 50

def sessionUser (actor : Option AuthUser) : Except ServerFnError AuthUser :=
  (actor.filter (·.username ≠ "")).elim (.error "Not authenticated") .ok

/-- The ownership gate: the account that the token names, if it is the user's own. -/
def gateAccount (parseAccountToken : String → Except Error AccountId) (actor : Option AuthUser) (token : String)
    (db : Database) : Except ServerFnError AccountId := do
  let user ← sessionUser actor
  let accountId ← (parseAccountToken token).mapError toServerErr
  let _ ← ((AccountService.ownAccount user.id accountId).run db).mapError toServerErr
  return accountId

def listMessages (accountId : AccountId) (limit offset : U32) (db : Database) : Except ServerFnError (List Message) :=
  ((MessageRepository.listForAccount accountId limit offset).run db).map Prod.fst |>.mapError toServerErr

/-- A page that is being fetched: from where, whether it replaces the rows, and the account once the gate is passed. -/
structure PageFetch where
  offset : U32
  replace : Bool
  gated : Option AccountId

/-- `fetch` is there while the list is loading. -/
structure MessageListView where
  rows : List Message
  error : Option ServerFnError
  reachedEnd : Bool
  fetch : Option PageFetch

namespace MessageListView

def mount : MessageListView := ⟨[], none, false, some ⟨0, true, none⟩⟩

def loadMore (v : MessageListView) : MessageListView :=
  if v.fetch.isSome then v
  else { v with error := none, fetch := some ⟨Fin.ofNat 4294967296 v.rows.length, false, none⟩ }

def refresh (v : MessageListView) : MessageListView :=
  if v.fetch.isSome then v else { v with error := none, fetch := some ⟨0, true, none⟩ }

/-- The button is there below a list that is not empty and not at its end. -/
def OffersMore (v : MessageListView) : Prop := v.rows ≠ [] ∧ v.reachedEnd = false

def fail (v : MessageListView) (e : ServerFnError) : MessageListView := { v with error := some e, fetch := none }

def receive (v : MessageListView) (fetch : PageFetch) (rows : List Message) : MessageListView :=
  { v with
    reachedEnd := Fin.ofNat 4294967296 rows.length < messagePageSize
    rows := if fetch.replace then rows else v.rows ++ rows
    fetch := none }

end MessageListView

/-- The database and the list of one page. `top` is a history: the rows of the account when the list was last loaded
from the top. -/
structure MessageListWorld where
  db : Database
  view : MessageListView
  top : Option (List Message)

section
variable (parseAccountToken : String → Except Error AccountId) (actor : Option AuthUser) (token : String)
variable (evolves : AccountId → Database → Database → Prop)

/-- The user clicks, the request goes through its two transactions, and the database goes on. -/
inductive MessageListStep : MessageListWorld → MessageListWorld → Prop
  | evolve {w : MessageListWorld} {db : Database}
      (evolved : ∀ accountId, parseAccountToken token = .ok accountId → evolves accountId w.db db) :
      MessageListStep w { w with db := db }
  | loadMore {w : MessageListWorld} (offered : w.view.OffersMore) :
      MessageListStep w { w with view := w.view.loadMore }
  | refresh {w : MessageListWorld} : MessageListStep w { w with view := w.view.refresh }
  | gate {w : MessageListWorld} {fetch : PageFetch} {accountId : AccountId} (fetching : w.view.fetch = some fetch)
      (passed : gateAccount parseAccountToken actor token w.db = .ok accountId) :
      MessageListStep w { w with view := { w.view with fetch := some { fetch with gated := some accountId } } }
  | read {w : MessageListWorld} {fetch : PageFetch} {accountId : AccountId} {rows : List Message}
      (fetching : w.view.fetch = some fetch) (gated : fetch.gated = some accountId)
      (answered : listMessages accountId messagePageSize fetch.offset w.db = .ok rows) :
      MessageListStep w
        { w with
          view := w.view.receive fetch rows
          top := if fetch.replace then some (MessageRepository.listing w.db accountId) else w.top }
  | fail {w : MessageListWorld} {fetch : PageFetch} (fetching : w.view.fetch = some fetch) (e : ServerFnError) :
      MessageListStep w { w with view := w.view.fail e }

end

/-- The keys of the account's rows; messages arrive, none goes, and the offset can count them. -/
def accountKeys (db : Database) (accountId : AccountId) : List (Lex (WithBot Int × Nat)) :=
  (db.messages.rows.filter (·.accountId = accountId)).map listingKey

structure Arrivals (accountId : AccountId) (db db' : Database) : Prop where
  arrived : (accountKeys db accountId).Subperm (accountKeys db' accountId)
  counted : (accountKeys db' accountId).length < 4294967296

def KeepsListing (accountId : AccountId) (db db' : Database) : Prop :=
  MessageRepository.listing db' accountId = MessageRepository.listing db accountId

theorem accountKeys_nodup (db : Database) (accountId : AccountId) : (accountKeys db accountId).Nodup :=
  listingKey_nodup db.messages _

private theorem listing_keys (db : Database) (accountId : AccountId) :
    ((MessageRepository.listing db accountId).map listingKey).Perm (accountKeys db accountId) :=
  (sortDesc_perm listingKey _).map _

private theorem length_listing (db : Database) (accountId : AccountId) :
    (MessageRepository.listing db accountId).length = (accountKeys db accountId).length := by
  rw [MessageRepository.listing, length_sortDesc, accountKeys, List.length_map]

private theorem listMessages_ok {accountId : AccountId} {limit offset : U32} {db : Database} {rows : List Message}
    (h : listMessages accountId limit offset db = .ok rows) :
    rows = page (MessageRepository.listing db accountId) offset limit := by
  unfold listMessages MessageRepository.listForAccount at h
  by_cases zero : accountId = 0
  · simp [StateT.run, zero, Except.map, Except.mapError] at h
  · simpa [StateT.run, zero, Except.map, Except.mapError, eq_comm] using h

/-- Recordings only let messages arrive. -/
private theorem Arrivals.of_record {accountId recorded : AccountId} {tokens : RecordTokens} {folderId : FolderId}
    {uid uidvalidity : U32} {internalDate : DateTimeUtc} {flags : MessageFlags} {parsed : ParsedMessage}
    {r : RecordedMessage} {db db' : Database}
    (h : recordParsedMessage tokens recorded folderId uid uidvalidity internalDate flags parsed db = .ok (r, db'))
    (counted : (accountKeys db' accountId).length < 4294967296) : Arrivals accountId db db' := by
  obtain ⟨mid, saved, archived, moved, -⟩ := recordParsedMessage_ok h
  refine ⟨List.subperm_of_subset (accountKeys_nodup db accountId) fun k there => ?_, counted⟩
  obtain ⟨m, listed, rfl⟩ := List.mem_map.mp there
  obtain ⟨stored, own⟩ := List.mem_filter.mp listed
  have kept : m ∈ db'.messages := by
    rw [moved]
    exact archived.kept m stored
  exact List.mem_map_of_mem (List.mem_filter.mpr ⟨kept, own⟩)

section
variable {parseAccountToken : String → Except Error AccountId} {actor : Option AuthUser} {token : String}
variable {evolves : AccountId → Database → Database → Prop} {w w' : MessageListWorld}

private theorem gateAccount_ok {a : AccountId} {db : Database}
    (passed : gateAccount parseAccountToken actor token db = .ok a) :
    parseAccountToken token = .ok a := by
  unfold gateAccount at passed
  cases user : sessionUser actor with
  | error e => simp [user, bind, Except.bind] at passed
  | ok user =>
    cases parsed : parseAccountToken token with
    | error e => simp [*, bind, Except.bind, Except.mapError] at passed
    | ok id =>
      simp only [*, bind, Except.bind, Except.mapError] at passed
      split at passed
      · cases passed
      · cases passed
        rfl

/-- The request in flight is one for the account of the token, from the top or from where the rows end. -/
structure MessageListView.Fetching (parseAccountToken : String → Except Error AccountId) (token : String)
    (v : MessageListView) : Prop where
  gated : ∀ fetch a, v.fetch = some fetch → fetch.gated = some a → parseAccountToken token = .ok a
  fromTop : ∀ fetch, v.fetch = some fetch → fetch.replace = true → fetch.offset = 0
  onward : ∀ fetch, v.fetch = some fetch → fetch.replace = false →
    fetch.offset = Fin.ofNat 4294967296 v.rows.length ∧ v.rows ≠ []

namespace MessageListView.Fetching

theorem idle {v : MessageListView} (idle : v.fetch = none) : v.Fetching parseAccountToken token where
  gated _ _ fetching := by
    rw [idle] at fetching
    cases fetching
  fromTop _ fetching := by
    rw [idle] at fetching
    cases fetching
  onward _ fetching := by
    rw [idle] at fetching
    cases fetching

theorem asked {v : MessageListView} {fetch : PageFetch} (fetching : v.fetch = some fetch)
    (gated : ∀ a, fetch.gated = some a → parseAccountToken token = .ok a)
    (fromTop : fetch.replace = true → fetch.offset = 0)
    (onward : fetch.replace = false → fetch.offset = Fin.ofNat 4294967296 v.rows.length ∧ v.rows ≠ []) :
    v.Fetching parseAccountToken token where
  gated f a hf := by
    obtain rfl : fetch = f := Option.some.inj (fetching.symm.trans hf)
    exact gated a
  fromTop f hf := by
    obtain rfl : fetch = f := Option.some.inj (fetching.symm.trans hf)
    exact fromTop
  onward f hf := by
    obtain rfl : fetch = f := Option.some.inj (fetching.symm.trans hf)
    exact onward

theorem mount : MessageListView.mount.Fetching parseAccountToken token :=
  asked rfl (fun _ gated => (by cases gated)) (fun _ => rfl) fun onward => (by cases onward)

theorem step (h : w.view.Fetching parseAccountToken token)
    (step : MessageListStep parseAccountToken actor token evolves w w') : w'.view.Fetching parseAccountToken token := by
  cases step with
  | evolve evolved => exact h
  | loadMore offered =>
    unfold MessageListView.loadMore
    split
    · exact h
    · exact asked rfl (fun _ gated => (by cases gated)) (fun replace => (by cases replace)) fun _ => ⟨rfl, offered.1⟩
  | refresh =>
    unfold MessageListView.refresh
    split
    · exact h
    · exact asked rfl (fun _ gated => (by cases gated)) (fun _ => rfl) fun onward => (by cases onward)
  | gate fetching passed =>
    rename_i fetch accountId
    refine asked rfl (fun a gated => ?_) (h.fromTop fetch fetching) (h.onward fetch fetching)
    cases gated
    exact gateAccount_ok passed
  | read fetching gated answered => exact idle rfl
  | fail fetching e => exact idle rfl

end MessageListView.Fetching

private theorem reachedEnd_iff {view : MessageListView} {fetch : PageFetch} {rows : List Message}
    (most : rows.length ≤ 50) :
    (view.receive fetch rows).reachedEnd = true ↔ rows.length < 50 := by
  have small : rows.length % 4294967296 = rows.length := Nat.mod_eq_of_lt (by omega)
  simp [MessageListView.receive, Fin.lt_def, messagePageSize, small]

/-- What a step does to the list: nothing, or it shows the first page, or it goes on with the next. -/
inductive MessageListView.Moves (parseAccountToken : String → Except Error AccountId) (token : String)
    (evolves : AccountId → Database → Database → Prop) (w w' : MessageListWorld) : Prop
  | none (rows : w'.view.rows = w.view.rows) (reachedEnd : w'.view.reachedEnd = w.view.reachedEnd)
      (top : w'.top = w.top)
      (db : w'.db = w.db ∨ ∀ a, parseAccountToken token = .ok a → evolves a w.db w'.db)
  | first {a : AccountId} (known : parseAccountToken token = .ok a) (db : w'.db = w.db)
      (rows : w'.view.rows = page (MessageRepository.listing w.db a) 0 50)
      (reachedEnd : w'.view.reachedEnd = true ↔ (page (MessageRepository.listing w.db a) 0 50).length < 50)
      (top : w'.top = some (MessageRepository.listing w.db a))
  | next {a : AccountId} (known : parseAccountToken token = .ok a) (db : w'.db = w.db) (offered : w.view.rows ≠ [])
      (rows : w'.view.rows = w.view.rows ++
        page (MessageRepository.listing w.db a) (w.view.rows.length % 4294967296) 50)
      (reachedEnd : w'.view.reachedEnd = true ↔
        (page (MessageRepository.listing w.db a) (w.view.rows.length % 4294967296) 50).length < 50)
      (top : w'.top = w.top)

private theorem MessageListView.Fetching.moves (h : w.view.Fetching parseAccountToken token)
    (step : MessageListStep parseAccountToken actor token evolves w w') :
    MessageListView.Moves parseAccountToken token evolves w w' := by
  cases step with
  | evolve evolved => exact .none rfl rfl rfl (.inr evolved)
  | loadMore offered =>
    unfold MessageListView.loadMore
    split <;> exact .none rfl rfl rfl (.inl rfl)
  | refresh =>
    unfold MessageListView.refresh
    split <;> exact .none rfl rfl rfl (.inl rfl)
  | gate fetching passed => exact .none rfl rfl rfl (.inl rfl)
  | fail fetching e => exact .none rfl rfl rfl (.inl rfl)
  | read fetching gated answered =>
    rename_i fetch a rows
    have known := h.gated fetch a fetching gated
    have answer := listMessages_ok answered
    have most : rows.length ≤ 50 := by
      rw [answer, length_page]
      exact Nat.min_le_left _ _
    cases replace : fetch.replace with
    | true =>
      rw [h.fromTop fetch fetching replace] at answer
      refine .first known rfl ((if_pos replace).trans answer) ?_ rfl
      exact (reachedEnd_iff most).trans (by rw [answer]; rfl)
    | false =>
      obtain ⟨offset, offered⟩ := h.onward fetch fetching replace
      rw [offset] at answer
      refine .next known rfl offered ((if_neg (by simp [replace])).trans (congrArg _ answer)) ?_ rfl
      exact (reachedEnd_iff most).trans (by rw [answer]; rfl)

structure ListReading (parseAccountToken : String → Except Error AccountId) (token : String) (w : MessageListWorld) :
    Prop where
  fetching : w.view.Fetching parseAccountToken token
  counted : ∀ a, parseAccountToken token = .ok a →
    w.view.rows.length ≤ (accountKeys w.db a).length ∧ (accountKeys w.db a).length < 4294967296
  blank : w.top = none → w.view.rows = []
  reading : ∀ top, w.top = some top → ∃ a, parseAccountToken token = .ok a ∧
    (top.map listingKey).Subperm (accountKeys w.db a) ∧
    Covers (w.view.rows.map listingKey) (top.map listingKey) (accountKeys w.db a)
  ended : w.view.reachedEnd = true → ∀ top, w.top = some top → ∀ m ∈ top, listingKey m ∈ w.view.rows.map listingKey

namespace ListReading

theorem mount {db : Database}
    (small : ∀ a, parseAccountToken token = .ok a → (accountKeys db a).length < 4294967296) :
    ListReading parseAccountToken token ⟨db, .mount, none⟩ where
  fetching := .mount
  counted a known := ⟨Nat.zero_le _, small a known⟩
  blank _ := rfl
  reading _ loaded := by cases loaded
  ended reached := by cases reached

/-- The keys of a window of the listing. -/
private theorem keys_page (db : Database) (a : AccountId) (read : List Message) (offset : Nat)
    (at_end : offset = read.length) :
    (read ++ page (MessageRepository.listing db a) offset 50).map listingKey = read.map listingKey ++
      (page (sortDesc listingKey (db.messages.rows.filter (·.accountId = a)))
        (read.map listingKey).length 50).map listingKey := by
  rw [List.map_append, at_end, List.length_map]
  rfl

theorem step (h : ListReading parseAccountToken token w)
    (step : MessageListStep parseAccountToken actor token Arrivals w w') : ListReading parseAccountToken token w' := by
  have fetching := h.fetching.step step
  cases h.fetching.moves step with
  | none rows reachedEnd top db =>
    have arrived (a : AccountId) (known : parseAccountToken token = .ok a) :
        (accountKeys w.db a).Subperm (accountKeys w'.db a) ∧ (accountKeys w'.db a).length < 4294967296 := by
      rcases db with same | evolved
      · rw [same]
        exact ⟨.refl _, (h.counted a known).2⟩
      · exact ⟨(evolved a known).arrived, (evolved a known).counted⟩
    refine ⟨fetching, fun a known => ?_, ?_, fun t loaded => ?_, ?_⟩
    · rw [rows]
      exact ⟨(h.counted a known).1.trans (arrived a known).1.length_le, (arrived a known).2⟩
    · rw [top, rows]
      exact h.blank
    · obtain ⟨a, known, within, covers⟩ := h.reading t (top ▸ loaded)
      rw [rows]
      exact ⟨a, known, within.trans (arrived a known).1, covers.arrivals (arrived a known).1⟩
    · rw [reachedEnd, top, rows]
      exact h.ended
  | @first a known db rows reachedEnd top =>
    have whole : ((MessageRepository.listing w.db a).map listingKey).Subperm (accountKeys w.db a) :=
      (listing_keys w.db a).subperm
    have keys := keys_page w.db a [] 0 rfl
    rw [List.nil_append] at keys
    refine ⟨fetching, fun b there => ?_, fun blank => ?_, fun t loaded => ?_, fun reached t loaded m hm => ?_⟩
    · obtain rfl : a = b := Except.ok.inj (known.symm.trans there)
      rw [db, rows, length_page, length_listing]
      exact ⟨(Nat.min_le_right _ _).trans (Nat.sub_le _ _), (h.counted a known).2⟩
    · rw [top] at blank
      cases blank
    · obtain rfl : MessageRepository.listing w.db a = t := Option.some.inj (top.symm.trans loaded)
      refine ⟨a, known, ?_, ?_⟩
      · rw [db]
        exact whole
      · rw [db, rows, keys]
        exact (covers_nil _ _).next (accountKeys_nodup w.db a) whole
    · obtain rfl : MessageRepository.listing w.db a = t := Option.some.inj (top.symm.trans loaded)
      rw [rows, keys]
      exact (covers_nil _ _).short (accountKeys_nodup w.db a) whole (reachedEnd.mp reached) _ (List.mem_map_of_mem hm)
  | @next a known db offered rows reachedEnd top =>
    have counted := h.counted a known
    have offset : w.view.rows.length % 4294967296 = w.view.rows.length := Nat.mod_eq_of_lt (by omega)
    rw [offset] at rows reachedEnd
    have keys := keys_page w.db a w.view.rows _ rfl
    have reading (t : List Message) (loaded : w'.top = some t) :
        (t.map listingKey).Subperm (accountKeys w.db a) ∧
          Covers (w.view.rows.map listingKey) (t.map listingKey) (accountKeys w.db a) := by
      obtain ⟨b, there, held⟩ := h.reading t (top ▸ loaded)
      obtain rfl : a = b := Except.ok.inj (known.symm.trans there)
      exact held
    refine ⟨fetching, fun b there => ?_, fun blank => ?_, fun t loaded => ?_, fun reached t loaded m hm => ?_⟩
    · obtain rfl : a = b := Except.ok.inj (known.symm.trans there)
      rw [db, rows, List.length_append, length_page, length_listing]
      omega
    · exact absurd (h.blank (top ▸ blank)) offered
    · obtain ⟨within, covers⟩ := reading t loaded
      refine ⟨a, known, db ▸ within, ?_⟩
      rw [db, rows, keys]
      exact covers.next (accountKeys_nodup w.db a) within
    · obtain ⟨within, covers⟩ := reading t loaded
      rw [rows, keys]
      have short : (page (MessageRepository.listing w.db a) (w.view.rows.map listingKey).length 50).length < 50 := by
        rw [List.length_map]
        exact reachedEnd.mp reached
      exact covers.short (accountKeys_nodup w.db a) within short _ (List.mem_map_of_mem hm)

theorem run (h : ListReading parseAccountToken token w)
    (run : ReflTransGen (MessageListStep parseAccountToken actor token Arrivals) w w') :
    ListReading parseAccountToken token w' := by
  induction run with
  | refl => exact h
  | tail _ next ih => exact ih.step next

end ListReading

/-- Messages that arrive between two pages push no message past the reader: what the archive held when the list was
last loaded from the top is shown, or it still ranks where the next page begins or behind, and then the end is not
announced. -/
theorem message_list_skips_nothing {db : Database} {top : List Message} {m : Message}
    (small : ∀ a, parseAccountToken token = .ok a → (accountKeys db a).length < 4294967296)
    (run : ReflTransGen (MessageListStep parseAccountToken actor token Arrivals) ⟨db, .mount, none⟩ w)
    (loaded : w.top = some top) (there : m ∈ top) :
    m.id ∈ w.view.rows.map Message.id ∨
      w.view.reachedEnd = false ∧ ∃ a, parseAccountToken token = .ok a ∧
        w.view.rows.length ≤ keyRank (accountKeys w.db a) (listingKey m) := by
  have reading := (ListReading.mount small).run run
  have shown (key : listingKey m ∈ w.view.rows.map listingKey) : m.id ∈ w.view.rows.map Message.id := by
    obtain ⟨row, listed, same⟩ := List.mem_map.mp key
    exact List.mem_map.mpr ⟨row, listed, congrArg (fun k => (ofLex k).2) same⟩
  obtain ⟨a, known, within, covers⟩ := reading.reading top loaded
  rcases covers _ (List.mem_map_of_mem there) with read | behind
  · exact .inl (shown read)
  · cases reached : w.view.reachedEnd with
    | true => exact .inl (shown (reading.ended reached top loaded m there))
    | false => exact .inr ⟨rfl, a, known, by rwa [List.length_map] at behind⟩

/-- A beginning of the listing goes on with the window behind it, and a short window ends it. -/
private theorem isPrefix_page {l read : List Message} (shown : read <+: l) (n : Nat) :
    read ++ page l read.length n <+: l ∧ ((page l read.length n).length < n → read ++ page l read.length n = l) := by
  obtain ⟨rest, rfl⟩ := shown
  have window : page (read ++ rest) read.length n = rest.take n := by
    rw [page, List.drop_left]
  rw [window]
  constructor
  · exact (List.prefix_append_right_inj read).mpr (List.take_prefix n rest)
  · intro short
    rw [List.length_take] at short
    rw [List.take_of_length_le (by omega)]

/-- What is known of the rows of a list while its account stays as it is. -/
structure ListSettled (parseAccountToken : String → Except Error AccountId) (token : String) (listing : List Message)
    (a : AccountId) (w : MessageListWorld) : Prop where
  fetching : w.view.Fetching parseAccountToken token
  listed : MessageRepository.listing w.db a = listing
  begins : w.view.rows <+: listing
  ended : w.view.reachedEnd = true → w.view.rows = listing

theorem ListSettled.step {listing : List Message} {a : AccountId} (h : ListSettled parseAccountToken token listing a w)
    (known : parseAccountToken token = .ok a) (small : listing.length < 4294967296)
    (step : MessageListStep parseAccountToken actor token KeepsListing w w') :
    ListSettled parseAccountToken token listing a w' := by
  have fetching := h.fetching.step step
  cases h.fetching.moves step with
  | none rows reachedEnd top db =>
    refine ⟨fetching, ?_, ?_, ?_⟩
    · rcases db with same | evolved
      · rw [same]
        exact h.listed
      · exact (evolved a known).trans h.listed
    · rw [rows]
      exact h.begins
    · rw [rows, reachedEnd]
      exact h.ended
  | @first b there db rows reachedEnd top =>
    obtain rfl : a = b := Except.ok.inj (known.symm.trans there)
    rw [h.listed] at rows reachedEnd
    obtain ⟨begins, whole⟩ := isPrefix_page (List.nil_prefix : [] <+: listing) 50
    refine ⟨fetching, ?_, ?_, fun reached => ?_⟩
    · rw [db]
      exact h.listed
    · rw [rows]
      exact begins
    · rw [rows]
      exact whole (reachedEnd.mp reached)
  | @next b there db offered rows reachedEnd top =>
    obtain rfl : a = b := Except.ok.inj (known.symm.trans there)
    have offset : w.view.rows.length % 4294967296 = w.view.rows.length :=
      Nat.mod_eq_of_lt (h.begins.length_le.trans_lt small)
    rw [h.listed, offset] at rows reachedEnd
    obtain ⟨begins, whole⟩ := isPrefix_page h.begins 50
    refine ⟨fetching, ?_, ?_, fun reached => ?_⟩
    · rw [db]
      exact h.listed
    · rw [rows]
      exact begins
    · rw [rows]
      exact whole (reachedEnd.mp reached)

/-- While its account stays as it is, the list shows a beginning of the archive, newest first and nothing twice, and it
announces the end behind the last message only. -/
theorem message_list_of_settled_account {db : Database} {a : AccountId} (known : parseAccountToken token = .ok a)
    (small : (MessageRepository.listing db a).length < 4294967296)
    (run : ReflTransGen (MessageListStep parseAccountToken actor token KeepsListing) ⟨db, .mount, none⟩ w) :
    w.view.rows <+: MessageRepository.listing db a ∧
      Descending listingKey w.view.rows ∧
      (w.view.reachedEnd = true → w.view.rows = MessageRepository.listing db a) := by
  have settled : ListSettled parseAccountToken token (MessageRepository.listing db a) a w := by
    induction run with
    | refl => exact ⟨.mount, rfl, List.nil_prefix, fun reached => by cases reached⟩
    | tail _ next ih => exact ih.step known small next
  exact ⟨settled.begins, (sortDesc_strict (accountKeys_nodup db a)).sublist settled.begins.sublist, settled.ended⟩

end

private theorem listMessages_eq {accountId : AccountId} (known : accountId ≠ 0) (limit offset : U32) (db : Database) :
    listMessages accountId limit offset db = .ok (page (MessageRepository.listing db accountId) offset limit) := by
  unfold listMessages MessageRepository.listForAccount
  simp [StateT.run, known, Except.map, Except.mapError]

private def mailNumber (i : Nat) : ParsedMessage := { newMail with contentHash := ⟨Vector.replicate 32 (UInt8.ofNat i)⟩ }

private def fullArchive : Database :=
  { (inboxWorld (some 1) 1).db with
    messages := ⟨(List.range 51).map fun i => (mailNumber i).toRow (10 + i) 1, by decide +kernel⟩ }

private def flagless : MessageFlags := mapFlags []

private def arrived : Except Error (RecordedMessage × Database) :=
  recordParsedMessage ⟨61, id, 1⟩ 1 7 2 1 0 flagless (mailNumber 51) fullArchive

private def grownArchive : Database := (arrived.map Prod.snd).toOption.getD fullArchive

/-- The first page is read, `db` is the archive from then on, and the second page is read. -/
private def firstPage : MessageListView :=
  MessageListView.receive { MessageListView.mount with fetch := some ⟨0, true, some 1⟩ } ⟨0, true, some 1⟩
    (page (MessageRepository.listing fullArchive 1) 0 messagePageSize)

private def twoPages (db : Database) : MessageListWorld where
  db := db
  view := firstPage.loadMore.receive ⟨Fin.ofNat 4294967296 firstPage.rows.length, false, some 1⟩
    (page (MessageRepository.listing db 1) (Fin.ofNat 4294967296 firstPage.rows.length : U32) messagePageSize)
  top := some (MessageRepository.listing fullArchive 1)

private theorem gate_passed {db : Database} (accounts : db.accounts = fullArchive.accounts) :
    gateAccount (fun _ => .ok 1) (some ⟨1, "ann", []⟩) "account" db = .ok 1 := by
  obtain ⟨rows, folders, messages, locations, attachments, jobs, next⟩ := db
  cases accounts
  rfl

private theorem twoPages_reached {evolves : AccountId → Database → Database → Prop} {db : Database}
    (accounts : db.accounts = fullArchive.accounts) (evolved : evolves 1 fullArchive db) :
    ReflTransGen (MessageListStep (fun _ => .ok 1) (some ⟨1, "ann", []⟩) "account" evolves)
      ⟨fullArchive, .mount, none⟩ (twoPages db) := by
  have offered : firstPage.OffersMore := by
    constructor <;> decide +kernel
  have first : ReflTransGen (MessageListStep (fun _ => .ok 1) (some ⟨1, "ann", []⟩) "account" evolves)
      ⟨fullArchive, .mount, none⟩ ⟨fullArchive, firstPage, some (MessageRepository.listing fullArchive 1)⟩ :=
    (ReflTransGen.single (.gate rfl (gate_passed rfl))).tail (.read rfl rfl (listMessages_eq (by decide) _ _ _))
  refine (((first.tail (.evolve fun a known => ?_)).tail (.loadMore offered)).tail (.gate rfl (gate_passed accounts))).tail
    (.read rfl rfl (listMessages_eq (by decide) _ _ _))
  cases known
  exact evolved

private theorem arrived_ok : arrived = .ok (⟨61, true⟩, grownArchive) := by
  have created : (arrived.map Prod.fst).toOption = some ⟨61, true⟩ := by decide +kernel
  unfold grownArchive
  cases h : arrived with
  | error e =>
    rw [h] at created
    cases created
  | ok r =>
    rw [h] at created
    obtain ⟨recorded, db⟩ := r
    cases created
    rfl

private theorem grownArchive_accounts : grownArchive.accounts = fullArchive.accounts := by
  obtain ⟨mid, saved, archived, moved, -⟩ := recordParsedMessage_ok arrived_ok
  rw [moved]
  exact archived.accounts

/-- A message arrives between the two pages; the last of the archive is on the second. -/
theorem message_list_skips_nothing_arrived : (10 : MessageId) ∈ (twoPages grownArchive).view.rows.map Message.id ∨
    (twoPages grownArchive).view.reachedEnd = false ∧ ∃ a, (Except.ok 1 : Except Error AccountId) = .ok a ∧
      (twoPages grownArchive).view.rows.length ≤
        keyRank (accountKeys grownArchive a) (listingKey ((mailNumber 0).toRow 10 1)) := by
  have arrivals : Arrivals 1 fullArchive grownArchive := .of_record arrived_ok (by decide +kernel)
  have oldest : (mailNumber 0).toRow 10 1 ∈ MessageRepository.listing fullArchive 1 := by
    rw [MessageRepository.listing, mem_sortDesc]
    exact List.mem_cons_self
  refine message_list_skips_nothing (fun a known => ?_) (twoPages_reached grownArchive_accounts arrivals) rfl oldest
  cases known
  decide +kernel

example : (twoPages grownArchive).view.rows.map Message.id = (List.range 50).reverse.map (· + 11) ++ [11, 10] := by
  decide +kernel

/-- The account stays as it is while a job is queued. -/
theorem message_list_of_settled_account_two :
    (twoPages { fullArchive with nextJobId := 2 }).view.rows <+: MessageRepository.listing fullArchive 1 ∧
      Descending listingKey (twoPages { fullArchive with nextJobId := 2 }).view.rows ∧
      ((twoPages { fullArchive with nextJobId := 2 }).view.reachedEnd = true →
        (twoPages { fullArchive with nextJobId := 2 }).view.rows = MessageRepository.listing fullArchive 1) :=
  message_list_of_settled_account rfl (by decide +kernel) (twoPages_reached rfl rfl)

end MailKeep
