import MailKeep.Frontend.SearchResults
import MailKeep.Ranked.Reader

/-! When loading page after page shows every match. -/
namespace MailKeep
open Ranked

variable (lib : TextLibrary) (tantivy : Tantivy) (order : HashOrder)
variable (db : Database) (index : List Document) (userId : UserId) (query : String)

def hitsAt (limit offset : U32) : List SearchHit :=
  if PureListing lib query then (page (listing lib db userId query) offset limit).map Message.toHit
  else page ((rankedDocuments lib tantivy db index userId query limit offset).map Document.toHit) offset limit

def fullRows : List Message :=
  if PureListing lib query then
    (sortDesc listingKey (listedMessages lib db userId query)).filter fun m =>
      m.accountId ∈ queryScope lib db userId query
  else (fullRanking lib tantivy db index userId query).filterMap fun doc => messageOf db userId doc.messageId

def messagesOf (hits : List SearchHit) : List Message := hits.filterMap fun hit => messageOf db userId hit.messageId

/-- A folder listing takes no message from outside the scope and comes to its last page before the offset wraps. -/
def ListingComplete : Prop :=
  queryScope lib db userId query ≠ ∅ →
    (∀ m ∈ listedMessages lib db userId query, m.accountId ∈ queryScope lib db userId query) ∧
      (listedMessages lib db userId query).length < 4294967300

/-- Where the window of a page holds too few passing matches to fill the pages up to it, none that is left passes. -/
def WindowsReachAll : Prop :=
  ∀ n, (((rankedMatches lib tantivy db index userId query).take (250 * (n + 1))).filter fun doc =>
      passesHints lib db (queryScope lib db userId query)
        (queryFolderHints lib query) doc.messageId).length < 25 * (n + 1) →
    ∀ doc ∈ (rankedMatches lib tantivy db index userId query).drop (250 * (n + 1)),
      passesHints lib db (queryScope lib db userId query) (queryFolderHints lib query) doc.messageId = true →
        messageOf db userId doc.messageId = none

variable {lib tantivy order db index userId query}

variable (tantivy order index) in
private theorem search_hits (limit offset : U32) (user : userId ≠ 0) (ids : 0 ∉ queryScope lib db userId query) :
    ∃ total, search lib tantivy order db index userId query limit offset =
      .ok ⟨total, hitsAt lib tantivy db index userId query limit offset⟩ := by
  by_cases pure : PureListing lib query
  · rw [search_listing pure user ids, hitsAt, if_pos pure]
    exact ⟨_, rfl⟩
  · obtain ⟨results, found⟩ : ∃ results, search lib tantivy order db index userId query limit offset =
      .ok results := by
      rw [PureListing] at pure
      rw [search_eq, if_neg ids, if_neg pure]
      split
      · exact ⟨_, rfl⟩
      · exact ⟨_, rfl⟩
    rw [found, hitsAt, if_neg pure, ← search_ranked pure found]
    exact ⟨_, rfl⟩

private theorem fetchPage_hits {offset : U32} (user : userId ≠ 0) (ids : 0 ∉ queryScope lib db userId query) :
    fetchPage lib tantivy order db index userId query offset =
      .ok (messagesOf db userId (hitsAt lib tantivy db index userId query searchPageSize offset),
        Fin.ofNat 4294967296 (hitsAt lib tantivy db index userId query searchPageSize offset).length) := by
  obtain ⟨total, found⟩ := search_hits tantivy order index searchPageSize offset user ids
  rw [fetchPage_eq, found]
  simp only [Except.bind, if_neg user]
  rfl

variable (lib tantivy db index userId query) in
private theorem length_hitsAt (limit offset : U32) :
    (hitsAt lib tantivy db index userId query limit offset).length ≤ limit.val := by
  unfold hitsAt
  split <;> simp [page]

variable (tantivy order index) in
/-- The id `0` is refused at every offset. -/
private theorem fetchPage_refused (zero : userId = 0 ∨ 0 ∈ queryScope lib db userId query) :
    ∃ e, ∀ offset, fetchPage lib tantivy order db index userId query offset = .error e := by
  refine ⟨.invalidId 0, fun offset => ?_⟩
  rw [fetchPage_eq]
  by_cases inScope : 0 ∈ queryScope lib db userId query
  · rw [search_eq, if_neg (Finset.ne_empty_of_mem inScope), if_pos inScope]
    rfl
  · have user := zero.resolve_right inScope
    rw [search_eq, if_neg inScope, if_pos user]
    simp only [if_pos user]
    split_ifs <;> rfl

variable (lib tantivy db index userId query) in
/-- Page number `k`, at the offset that full pages before it lead to. -/
def pageAt (k : Nat) : List SearchHit := hitsAt lib tantivy db index userId query searchPageSize
    (Fin.ofNat 4294967296 (k * 25))

variable (lib tantivy db index userId query) in
def hitsAfter (n : Nat) : Reader SearchHit := readPages (pageAt lib tantivy db index userId query) 25 n

private theorem messagesOf_append (front back : List SearchHit) :
    messagesOf db userId (front ++ back) = messagesOf db userId front ++ messagesOf db userId back :=
      List.filterMap_append

private theorem hitsAfter_succ (n : Nat) : hitsAfter lib tantivy db index userId query (n + 1) =
    if (hitsAfter lib tantivy db index userId query n).ended then hitsAfter lib tantivy db index userId query n
    else ⟨(hitsAfter lib tantivy db index userId query n).rows ++ pageAt lib tantivy db index userId query n,
      decide ((pageAt lib tantivy db index userId query n).length < 25)⟩ := rfl

variable (tantivy order index) in
/-- After `n` loads the view shows the messages of the hits read. -/
private theorem loadNext_iterate (user : userId ≠ 0) (ids : 0 ∉ queryScope lib db userId query) (n : Nat) :
    let view := (loadNext lib tantivy order db index userId query)^[n] .mount
    let reader := hitsAfter lib tantivy db index userId query n
    view.rows = messagesOf db userId reader.rows ∧ view.reachedEnd = reader.ended ∧
      (reader.ended = false → view.hitOffset = Fin.ofNat 4294967296 (n * 25)) := by
  induction n with
  | zero => exact ⟨rfl, rfl, fun _ => rfl⟩
  | succ n ih =>
    obtain ⟨rows, ended, offset⟩ := ih
    rw [Function.iterate_succ_apply', hitsAfter_succ, loadNext, ended]
    cases stopped : (hitsAfter lib tantivy db index userId query n).ended with
    | true =>
      rw [if_pos rfl, if_pos rfl]
      exact ⟨rows, ended, fun going => absurd going (ne_false_of_eq_true stopped)⟩
    | false =>
      have at_ := offset stopped
      have size := length_hitsAt lib tantivy db index userId query searchPageSize (Fin.ofNat 4294967296 (n * 25))
      have count : (pageAt lib tantivy db index userId query n).length ≤ 25 := size
      rw [if_neg Bool.false_ne_true, if_neg Bool.false_ne_true, loadMore, fetchPage_hits user ids, at_]
      refine ⟨?_, ?_, fun going => ?_⟩
      · rw [messagesOf_append, ← rows]
        rfl
      · change decide (Fin.ofNat 4294967296 (pageAt lib tantivy db index userId query n).length < searchPageSize) = _
        rw [decide_eq_decide, Fin.lt_def]
        simp only [Fin.val_ofNat, searchPageSize]
        rw [Nat.mod_eq_of_lt (by omega)]
        rfl
      · have full : (pageAt lib tantivy db index userId query n).length = 25 := by
          have := of_decide_eq_false going
          omega
        change Fin.ofNat 4294967296 (n * 25) + Fin.ofNat 4294967296
          (pageAt lib tantivy db index userId query n).length = _
        rw [full, Fin.ext_iff]
        simp only [Fin.val_add, Fin.val_ofNat]
        omega

/-- The view comes to its end on some rows exactly when the reader ends on hits that show them. -/
private theorem shown_iff (user : userId ≠ 0) (ids : 0 ∉ queryScope lib db userId query) (rows : List Message) :
    (∃ loads, (shown lib tantivy order db index userId query loads).reachedEnd = true ∧
        (shown lib tantivy order db index userId query loads).rows = rows) ↔
      ∃ n, (hitsAfter lib tantivy db index userId query n).ended = true ∧
        messagesOf db userId (hitsAfter lib tantivy db index userId query n).rows = rows := by
  have after (loads : Nat) : shown lib tantivy order db index userId query loads =
      (loadNext lib tantivy order db index userId query)^[loads + 1] .mount := by
    rw [Function.iterate_succ_apply, shown, initialLoad_eq]
  constructor
  · rintro ⟨loads, ended, same⟩
    have read := loadNext_iterate tantivy order index user ids (loads + 1)
    rw [after] at ended same
    exact ⟨loads + 1, read.2.1 ▸ ended, read.1 ▸ same⟩
  · rintro ⟨n, ended, same⟩
    cases n with
    | zero => cases ended
    | succ n =>
      have read := loadNext_iterate tantivy order index user ids (n + 1)
      refine ⟨n, ?_, ?_⟩
      · rw [after, read.2.1, ended]
      · rw [after, read.1, same]

/-- Nothing is ever shown to the id `0`, nor where an account of that id is in scope. -/
private theorem shown_refused (zero : userId = 0 ∨ 0 ∈ queryScope lib db userId query) (loads : Nat) :
    (shown lib tantivy order db index userId query loads).reachedEnd = false := by
  obtain ⟨e, refused⟩ := fetchPage_refused tantivy order index zero
  unfold shown
  induction loads with
  | zero =>
    rw [Function.iterate_zero_apply, initialLoad, refused]
    rfl
  | succ loads ih =>
    rw [Function.iterate_succ_apply', loadNext, ih, if_neg Bool.false_ne_true, loadMore, refused]
    exact ih

variable (lib tantivy db index userId query) in
/-- What the window of page `k` lets through. -/
def windowAt (k : Nat) : List Document :=
  ((rankedMatches lib tantivy db index userId query).take (250 * (k + 1))).filter fun doc =>
    passesHints lib db (queryScope lib db userId query) (queryFolderHints lib query) doc.messageId

private theorem length_rankedMatches : (rankedMatches lib tantivy db index userId query).length =
    (matchingDocuments lib tantivy db index userId query).length := length_sortDesc _ _

/-- Ten thousand matches fit into the largest window. -/
private theorem take_fetchCount {α : Type} {l : List α} (few : l.length ≤ 10000) (constrained : Bool)
    {k : Nat} (small : k * 25 ≤ 10000) :
    l.take (fetchCount constrained searchPageSize (Fin.ofNat 4294967296 (k * 25))) =
      l.take (if constrained then 250 * (k + 1) else 25 * (k + 1)) := by
  have offset : (Fin.ofNat 4294967296 (k * 25)).val = k * 25 := Nat.mod_eq_of_lt (by omega)
  have count : fetchCount constrained searchPageSize (Fin.ofNat 4294967296 (k * 25)) =
      min (if constrained then 250 * (k + 1) else 25 * (k + 1)) 10000 := by
    cases constrained <;>
      simp only [fetchCount, Usize.saturatingAdd, Usize.saturatingMul, usizeMax, offset, searchPageSize, folderOverfetch, maxFetch,
        if_true, Bool.false_eq_true, if_false] <;> omega
  rw [count, ← List.take_take, List.take_of_length_le few]

private theorem ranked_windows (ranked : ¬ PureListing lib query)
    (few : (matchingDocuments lib tantivy db index userId query).length ≤ 10000) :
    Windows (pageAt lib tantivy db index userId query) 25
      ((fullRanking lib tantivy db index userId query).map Document.toHit)
      fun k => (windowAt lib tantivy db index userId query k).map Document.toHit where
  within k := ((List.take_prefix _ _).filter _).map _
  grows k := by
    rw [List.length_map, List.length_map]
    refine (List.Sublist.filter _ ?_).length_le
    exact List.take_sublist_take_left (by omega)
  served k hk := by
    have bound : k * 25 ≤ 10000 := by
      rw [List.length_map] at hk
      have := List.length_filter_le (fun doc : Document => passesHints lib db (queryScope lib db userId query)
        (queryFolderHints lib query) doc.messageId) (rankedMatches lib tantivy db index userId query)
      rw [length_rankedMatches] at this
      exact hk.trans (this.trans few)
    have offset : (Fin.ofNat 4294967296 (k * 25)).val = k * 25 := Nat.mod_eq_of_lt (by omega)
    have all : (rankedMatches lib tantivy db index userId query).length ≤ 10000 := length_rankedMatches.trans_le few
    have fetched := take_fetchCount all (!(queryFolderHints lib query).isEmpty) bound
    rw [pageAt, hitsAt, if_neg ranked, offset]
    change page (((((rankedMatches lib tantivy db index userId query).take _).filter _).map _)) _ _ = _
    rw [fetched, windowAt]
    by_cases none : queryFolderHints lib query = []
    · simp only [none, passesHints, List.all_nil, List.filter_true, List.isEmpty_nil, Bool.not_true, Bool.false_eq_true, if_false,
        List.map_take]
      have size : searchPageSize.val = 25 := rfl
      rw [page_take (by omega), page_take (by omega)]
      rfl
    · have some : (queryFolderHints lib query).isEmpty = false := by simpa using none
      simp only [some, Bool.not_false, if_true]
      rfl

private theorem messagesOf_toHit (docs : List Document) :
    messagesOf db userId (docs.map Document.toHit) = docs.filterMap fun doc => messageOf db userId doc.messageId :=
  List.filterMap_map

/-- What the windows have not shown by the first short page is what is missing. -/
private theorem ranked_shows_all (user : userId ≠ 0) (ids : 0 ∉ queryScope lib db userId query)
    (ranked : ¬ PureListing lib query)
    (few : (matchingDocuments lib tantivy db index userId query).length ≤ 10000) :
    (∃ loads, (shown lib tantivy order db index userId query loads).reachedEnd = true ∧
        (shown lib tantivy order db index userId query loads).rows = fullRows lib tantivy db index userId query) ↔
      WindowsReachAll lib tantivy db index userId query := by
  have w := ranked_windows ranked few
  obtain ⟨last, full, short⟩ := w.ends (by decide)
  have read := w.read_short full short
  rw [List.length_map] at short
  have rest (n : Nat) : fullRanking lib tantivy db index userId query =
    windowAt lib tantivy db index userId query n ++
      ((rankedMatches lib tantivy db index userId query).drop (250 * (n + 1))).filter fun doc =>
        passesHints lib db (queryScope lib db userId query) (queryFolderHints lib query) doc.messageId := by
    rw [windowAt, ← List.filter_append, List.take_append_drop]
    rfl
  have ended : (∃ loads, (shown lib tantivy order db index userId query loads).reachedEnd = true ∧
      (shown lib tantivy order db index userId query loads).rows = fullRows lib tantivy db index userId query) ↔
      messagesOf db userId ((windowAt lib tantivy db index userId query last).map Document.toHit) =
        fullRows lib tantivy db index userId query := by
    rw [shown_iff user ids]
    constructor
    · rintro ⟨n, ended, same⟩
      have later : last + 1 ≤ n := by
        by_contra early
        have going := w.read_full (n := n) fun k hk => full k (by omega)
        rw [hitsAfter, going] at ended
        cases ended
      have stays := readPages_ended (by rw [read]) later
      rwa [hitsAfter, stays, read] at same
    · intro same
      exact ⟨last + 1, by rw [hitsAfter, read], by rw [hitsAfter, read, same]⟩
  rw [ended, fullRows, if_neg ranked, messagesOf_toHit, rest last, List.filterMap_append, List.self_eq_append_right,
    List.filterMap_eq_nil_iff]
  constructor
  · intro missing n tooFew doc behind passes
    have later : last ≤ n := by
      by_contra early
      have := full n (by omega)
      rw [List.length_map] at this
      change (windowAt lib tantivy db index userId query n).length < _ at tooFew
      omega
    refine missing doc (List.mem_filter.mpr ⟨?_, passes⟩)
    exact List.drop_subset_drop_left _ (by omega) behind
  · intro reach doc h
    obtain ⟨behind, passes⟩ := List.mem_filter.mp h
    exact reach last (by change (windowAt lib tantivy db index userId query last).length < _; omega) doc behind passes

private theorem mem_listing {m : Message} (h : m ∈ listing lib db userId query) :
    m ∈ db.messages ∧ m.accountId ∈ db.ownedAccounts userId := by
  unfold listing at h
  split at h
  · cases h
  · obtain ⟨stored, selected⟩ := List.mem_filter.mp (mem_sortDesc.mp h)
    exact ⟨stored, of_decide_eq_true (Bool.and_eq_true_iff.mp selected).1⟩

private theorem listing_nodup : (listing lib db userId query).Nodup := by
  unfold listing
  split
  · exact List.nodup_nil
  · exact (sortDesc_perm _ _).nodup_iff.mpr (db.messages.nodup.of_map.filter _)

/-- Every message of the listing is shown. -/
private theorem messagesOf_listing {rows : List Message} (part : rows ⊆ listing lib db userId query) :
    messagesOf db userId (rows.map Message.toHit) = rows := by
  rw [messagesOf, List.filterMap_map]
  conv_rhs => rw [← List.filterMap_some (l := rows)]
  apply List.filterMap_congr
  intro m h
  obtain ⟨stored, owned⟩ := mem_listing (part h)
  exact messageOf_eq_some.mpr ⟨stored, owned, rfl⟩

private theorem pageAt_listing (pure : PureListing lib query) (k : Nat) :
    pageAt lib tantivy db index userId query k =
      (page (listing lib db userId query) (k * 25 % 4294967296) 25).map Message.toHit := by
  rw [pageAt, hitsAt, if_pos pure]
  rfl

variable (tantivy index) in
private theorem listing_windows (pure : PureListing lib query)
    (short : (listing lib db userId query).length < 4294967300) :
    Windows (pageAt lib tantivy db index userId query) 25 ((listing lib db userId query).map Message.toHit)
      fun _ => (listing lib db userId query).map Message.toHit where
  within _ := List.prefix_rfl
  grows _ := le_rfl
  served k hk := by
    rw [List.length_map] at hk
    rw [pageAt_listing pure, Nat.mod_eq_of_lt (by omega), page, page, List.map_take, List.map_drop]

variable (tantivy index) in
/-- A listing that ends before the offset wraps is shown as a whole. -/
private theorem listing_shown (pure : PureListing lib query)
    (short : (listing lib db userId query).length < 4294967300) :
    ∃ n, hitsAfter lib tantivy db index userId query n =
      ⟨(listing lib db userId query).map Message.toHit, true⟩ := by
  have w := listing_windows tantivy index pure short
  obtain ⟨last, full, stops⟩ := w.ends (by decide)
  exact ⟨last + 1, w.read_short full stops⟩

/-- Behind the wrapped offset rows come again. -/
private theorem listing_repeats (pure : PureListing lib query)
    (long : 4294967300 ≤ (listing lib db userId query).length) {n : Nat}
    (ended : (hitsAfter lib tantivy db index userId query n).ended = true) :
    ¬ (messagesOf db userId (hitsAfter lib tantivy db index userId query n).rows).Nodup := by
  have before (k : Nat) (hk : k ≤ 171798692) : hitsAfter lib tantivy db index userId query k =
      ⟨((listing lib db userId query).map Message.toHit).take (k * 25), false⟩ := by
    refine readPages_slices (fun j hj => ?_) (by rw [List.length_map]; omega)
    rw [pageAt_listing pure, Nat.mod_eq_of_lt (by omega), page, page, List.map_take, List.map_drop]
  have later : 171798693 ≤ n := by
    by_contra early
    rw [before n (by omega)] at ended
    cases ended
  obtain ⟨more, grown⟩ := readPages_isPrefix (pageAt lib tantivy db index userId query) 25 later
  have again : (hitsAfter lib tantivy db index userId query 171798693).rows =
      ((listing lib db userId query).take 4294967300).map Message.toHit ++
        (page (listing lib db userId query) 4 25).map Message.toHit := by
    rw [hitsAfter_succ, before _ le_rfl, if_neg Bool.false_ne_true, pageAt_listing pure, List.map_take]
  have shows : messagesOf db userId (hitsAfter lib tantivy db index userId query n).rows =
      ((listing lib db userId query).take 4294967300 ++ page (listing lib db userId query) 4 25) ++
        messagesOf db userId more := by
    rw [hitsAfter, ← grown, messagesOf_append]
    change messagesOf db userId (hitsAfter lib tantivy db index userId query 171798693).rows ++ _ = _
    rw [again, ← List.map_append, messagesOf_listing]
    intro m h
    rcases List.mem_append.mp h with front | back
    · exact List.mem_of_mem_take front
    · exact mem_of_mem_page back
  rw [shows]
  intro distinct
  have apart := (List.nodup_append.mp (List.nodup_append.mp distinct).1).2.2
  have fifth : 4 < (listing lib db userId query).length := by omega
  refine apart (listing lib db userId query)[4] ?_ _ (mem_page_iff_getElem.mpr ⟨4, le_rfl, by decide, List.getElem?_eq_getElem fifth⟩) rfl
  exact List.mem_take_iff_getElem.mpr ⟨4, by omega, rfl⟩

private theorem fullRows_listing (pure : PureListing lib query) : fullRows lib tantivy db index userId query =
    (listing lib db userId query).filter fun m => m.accountId ∈ queryScope lib db userId query := by
  rw [fullRows, if_pos pure, listing]
  split
  · rename_i empty
    simp [empty]
  · rfl

private theorem listing_shows_all (user : userId ≠ 0) (ids : 0 ∉ queryScope lib db userId query)
    (pure : PureListing lib query) :
    (∃ loads, (shown lib tantivy order db index userId query loads).reachedEnd = true ∧
        (shown lib tantivy order db index userId query loads).rows = fullRows lib tantivy db index userId query) ↔
      ListingComplete lib db userId query := by
  have complete : ListingComplete lib db userId query ↔
      (∀ m ∈ listing lib db userId query, m.accountId ∈ queryScope lib db userId query) ∧
        (listing lib db userId query).length < 4294967300 := by
    unfold ListingComplete listing
    split
    · rename_i empty
      simp [empty]
    · rename_i some
      simp [some]
  rw [shown_iff user ids, complete, fullRows_listing pure]
  constructor
  · rintro ⟨n, ended, same⟩
    have short : (listing lib db userId query).length < 4294967300 := by
      by_contra long
      apply listing_repeats pure (not_lt.mp long) ended
      rw [same]
      exact listing_nodup.filter _
    obtain ⟨m, all⟩ := listing_shown tantivy index pure short
    have stop : hitsAfter lib tantivy db index userId query n = hitsAfter lib tantivy db index userId query m := by
      rcases le_total n m with le | le
      · exact (readPages_ended ended le).symm
      · exact readPages_ended (by change (hitsAfter lib tantivy db index userId query m).ended = true; rw [all]) le
    rw [stop, all, messagesOf_listing (List.Subset.refl _)] at same
    exact ⟨fun m h => of_decide_eq_true (List.filter_eq_self.mp same.symm m h), short⟩
  · rintro ⟨within, short⟩
    obtain ⟨n, all⟩ := listing_shown tantivy index pure short
    refine ⟨n, by rw [all], ?_⟩
    rw [all, messagesOf_listing (List.Subset.refl _), List.filter_eq_self.mpr fun m h => decide_eq_true (within m h)]

private theorem messageOf_inj {id id' : MessageId} {m : Message} (h : m ∈ messageOf db userId id)
    (h' : m ∈ messageOf db userId id') :
    id = id' := (messageOf_eq_some.mp h).2.2.symm.trans (messageOf_eq_some.mp h').2.2

private theorem fullRows_nodup (distinct : (index.map Document.messageId).Nodup) :
    (fullRows lib tantivy db index userId query).Nodup := by
  unfold fullRows
  split
  · exact ((sortDesc_perm _ _).nodup_iff.mpr (db.messages.nodup.of_map.filter _)).filter _
  · change ((fullRanking lib tantivy db index userId query).filterMap (messageOf db userId ∘ Document.messageId)).Nodup
    rw [← List.filterMap_map]
    apply List.Nodup.filterMap (fun _ _ _ h h' => messageOf_inj h h')
    apply List.Nodup.sublist (List.filter_sublist.map _)
    exact ((sortDesc_perm _ _).map _).nodup_iff.mpr (distinct.sublist (List.filter_sublist.map _))

/-- Pages add up to all matching messages exactly where the windows reach them all, or the listing is of accounts in scope. -/
theorem loadMore_shows_all_iff (lib : TextLibrary) (tantivy : Tantivy) (order : HashOrder) (db : Database)
    (index : List Document) (userId : UserId) (query : String)
    (few : (matchingDocuments lib tantivy db index userId query).length ≤ 10000) :
    ((∃ loads, (shown lib tantivy order db index userId query loads).reachedEnd = true ∧
        (shown lib tantivy order db index userId query loads).rows = fullRows lib tantivy db index userId query) ↔
      userId ≠ 0 ∧ 0 ∉ queryScope lib db userId query ∧
        if PureListing lib query then ListingComplete lib db userId query
        else WindowsReachAll lib tantivy db index userId query) ∧
      ((index.map Document.messageId).Nodup → (fullRows lib tantivy db index userId query).Nodup) := by
  refine ⟨?_, fullRows_nodup⟩
  by_cases zero : userId = 0 ∨ 0 ∈ queryScope lib db userId query
  · refine iff_of_false ?_ fun h => zero.elim h.1 h.2.1
    rintro ⟨loads, ended, -⟩
    rw [shown_refused zero] at ended
    cases ended
  · obtain ⟨user, ids⟩ := not_or.mp zero
    rw [and_iff_right user, and_iff_right ids]
    split
    · rename_i pure
      exact listing_shows_all user ids pure
    · rename_i ranked
      exact ranked_shows_all user ids ranked few

theorem loadMore_shows_all_work : ∃ loads, (shown TwoAccounts.textLibrary TwoAccounts.engine TwoAccounts.ascending
      TwoAccounts.store TwoAccounts.documents 1 "account:work" loads).reachedEnd = true ∧
    (shown TwoAccounts.textLibrary TwoAccounts.engine TwoAccounts.ascending TwoAccounts.store TwoAccounts.documents 1
      "account:work" loads).rows =
      fullRows TwoAccounts.textLibrary TwoAccounts.engine TwoAccounts.store TwoAccounts.documents 1 "account:work" := by
  have matching := TwoAccounts.matching_work
  have few : (matchingDocuments TwoAccounts.textLibrary TwoAccounts.engine TwoAccounts.store TwoAccounts.documents 1
      "account:work").length ≤ 10000 := by
    rw [matching]
    decide
  have ranked : ¬ PureListing TwoAccounts.textLibrary "account:work" := fun pure => pure.2 TwoAccounts.hints_work
  refine (loadMore_shows_all_iff _ _ _ _ _ _ _ few).1.mpr ⟨by decide, by rw [TwoAccounts.scope_work]; decide, ?_⟩
  rw [if_neg ranked]
  intro n _ doc behind
  rw [List.drop_of_length_le] at behind
  · cases behind
  · rw [length_rankedMatches, matching]
    change 2 ≤ _
    omega

namespace SparseFolder
open TwoAccounts

def folder (id : FolderId) (path : String) : Folder where
  id := id
  version := 1
  accountId := 1
  path := path
  displayName := none
  specialUse := none
  enabled := true
  idleEnabled := false
  uidvalidity := some 1
  lastUid := 0
  lastSyncedAt := none
  lastError := none

/-- Message `i + 1`, sent `i` seconds before the epoch. -/
def letter (i : Nat) : Message :=
  { message (i + 1) 1 with sentDate := some (-(i : Int) * 1000000000), hasAttachments := true, attachmentCount := 1 }

def location (i : Nat) : MessageLocation where
  id := i + 1
  version := 1
  messageId := i + 1
  folderId := if i = 250 then 2 else 1
  uid := 1
  uidvalidity := 1
  flags := ⟨false, false, false, false, false, false, []⟩
  internalDate := 0

private theorem numbered {ρ : Type} (key : ρ → Nat) (row : Nat → ρ) (ids : ∀ i, key (row i) = i + 1) :
    (((List.range 251).map row).map key).Nodup := by
  rw [List.map_map, funext (f := key ∘ row) ids]
  exact List.nodup_range.map Nat.succ_injective

/-- 250 recent messages in the inbox and an older one in the archive. -/
def store : Database where
  accounts := ⟨[account 1 "Work"], by decide⟩
  folders := ⟨[folder 1 "INBOX", folder 2 "Archive"], by decide⟩
  messages := ⟨(List.range 251).map letter, numbered _ _ fun _ => rfl⟩
  locations := ⟨(List.range 251).map location, numbered _ _ fun _ => rfl⟩
  attachments := .empty
  jobs := .empty
  nextJobId := 1

def documents : List Document := (List.range 251).map fun i => toDocument engine (letter i) ""

def wanted : String := "has:attachment folder:archive"

private theorem parse_wanted : parse textLibrary wanted =
    [⟨false, .attachments true⟩, ⟨false, .folder "archive"⟩] := by decide

private theorem scope_wanted : queryScope textLibrary store 1 wanted = {1} := by
  rw [queryScope, parse_wanted]
  decide

private theorem hints_wanted : queryFolderHints textLibrary wanted = [(false, "archive")] := by
  rw [queryFolderHints, parse_wanted]
  rfl

private theorem residual_wanted : queryResidual textLibrary wanted = [⟨false, .attachments true⟩] := by
  rw [queryResidual, parse_wanted]
  rfl

/-- All of them match. -/
private theorem matching_wanted : matchingDocuments textLibrary engine store documents 1 wanted = documents := by
  rw [matchingDocuments, List.filter_eq_self, scope_wanted]
  intro doc h
  obtain ⟨i, -, rfl⟩ := List.mem_map.mp h
  rw [residualMatches, residual_wanted]
  rfl

private theorem ranked_wanted : rankedMatches textLibrary engine store documents 1 wanted = documents := by
  rw [rankedMatches, matching_wanted]
  refine sortDesc_eq_self (List.pairwise_map.mpr (List.pairwise_lt_range.imp fun {i j} before => ?_))
  have older : engine.fromTimestampSecs (DateTimeUtc.timestamp (-(j : Int) * 1000000000)) ≤
      engine.fromTimestampSecs (DateTimeUtc.timestamp (-(i : Int) * 1000000000)) := by
    simp only [engine, DateTimeUtc.timestamp]
    omega
  exact WithBot.coe_le_coe.mpr older

private theorem passes_wanted {i : Nat} (h : i < 251) :
    passesHints textLibrary store (queryScope textLibrary store 1 wanted)
      (queryFolderHints textLibrary wanted) (i + 1) =
      decide (i = 250) := by
  have inbox : namedBy textLibrary {1} "archive" (folder 1 "INBOX") = false := by decide
  have archive : namedBy textLibrary {1} "archive" (folder 2 "Archive") = true := by decide
  rw [scope_wanted, hints_wanted, passesHints, List.all_cons, List.all_nil, Bool.and_true, Bool.bne_false, Bool.eq_iff_iff,
    inNamedFolder, List.any_eq_true, decide_eq_true_eq]
  constructor
  · rintro ⟨l, stored, here⟩
    obtain ⟨j, -, rfl⟩ := List.mem_map.mp stored
    rw [Bool.and_eq_true, decide_eq_true_eq, List.any_eq_true] at here
    obtain ⟨same, f, known, named⟩ := here
    rw [Bool.and_eq_true, decide_eq_true_eq] at named
    obtain rfl : j = i := Nat.succ.inj same
    by_contra other
    have first : (location j).folderId = 1 := if_neg other
    rcases List.mem_cons.mp known with rfl | known
    · rw [inbox] at named
      exact Bool.false_ne_true named.2
    · rw [List.mem_singleton.mp known, first] at named
      exact absurd named.1 (by decide)
  · rintro rfl
    refine ⟨location 250, List.mem_map.mpr ⟨250, List.mem_range.mpr h, rfl⟩, ?_⟩
    rw [Bool.and_eq_true, List.any_eq_true]
    refine ⟨decide_eq_true rfl, folder 2 "Archive", List.mem_cons_of_mem _ (List.mem_singleton.mpr rfl), ?_⟩
    rw [archive]
    rfl

private theorem drop_documents : documents.drop 250 = [toDocument engine (letter 250) ""] := by
  rw [documents, ← List.map_drop, List.range_eq_range', List.drop_range']
  rfl

private theorem window_empty : windowAt textLibrary engine store documents 1 wanted 0 = [] := by
  rw [windowAt, ranked_wanted, List.filter_eq_nil_iff, documents, ← List.map_take, List.take_range]
  intro doc h
  obtain ⟨i, early, rfl⟩ := List.mem_map.mp h
  have recent := List.mem_range.mp early
  have passes := passes_wanted (i := i) (by omega)
  change ¬ passesHints textLibrary store (queryScope textLibrary store 1 wanted)
    (queryFolderHints textLibrary wanted) (i + 1) = true
  rw [passes, decide_eq_true_eq]
  omega

end SparseFolder

/-- The window of the first page holds recent messages only, and the page they leave empty ends the view. -/
theorem loadMore_misses : (matchingDocuments TwoAccounts.textLibrary TwoAccounts.engine SparseFolder.store SparseFolder.documents 1
      SparseFolder.wanted).length ≤ 10000 ∧
    ¬ ∃ loads, (shown TwoAccounts.textLibrary TwoAccounts.engine TwoAccounts.ascending SparseFolder.store SparseFolder.documents 1
        SparseFolder.wanted loads).reachedEnd = true ∧
      (shown TwoAccounts.textLibrary TwoAccounts.engine TwoAccounts.ascending SparseFolder.store SparseFolder.documents 1
        SparseFolder.wanted loads).rows =
        fullRows TwoAccounts.textLibrary TwoAccounts.engine SparseFolder.store SparseFolder.documents 1 SparseFolder.wanted := by
  have few : SparseFolder.documents.length ≤ 10000 := by
    rw [SparseFolder.documents, List.length_map, List.length_range]
    decide
  have ranked : ¬ PureListing TwoAccounts.textLibrary SparseFolder.wanted := by
    intro pure
    have := pure.1
    rw [SparseFolder.residual_wanted] at this
    cases this
  rw [SparseFolder.matching_wanted]
  refine ⟨few, ?_⟩
  rw [ranked_shows_all (by decide) (by rw [SparseFolder.scope_wanted]; decide) ranked (by rwa [SparseFolder.matching_wanted])]
  intro reach
  have few' : (windowAt TwoAccounts.textLibrary TwoAccounts.engine SparseFolder.store SparseFolder.documents 1
      SparseFolder.wanted 0).length < 25 := by
    rw [SparseFolder.window_empty]
    decide
  have behind : toDocument TwoAccounts.engine (SparseFolder.letter 250) "" ∈ (rankedMatches TwoAccounts.textLibrary
      TwoAccounts.engine SparseFolder.store SparseFolder.documents 1 SparseFolder.wanted).drop 250 := by
    rw [SparseFolder.ranked_wanted, SparseFolder.drop_documents]
    exact List.mem_singleton.mpr rfl
  have gone := reach 0 few' _ behind (SparseFolder.passes_wanted (by decide))
  have here : messageOf SparseFolder.store 1 251 = some (SparseFolder.letter 250) :=
    messageOf_eq_some.mpr ⟨List.mem_map.mpr ⟨250, by decide, rfl⟩, by decide, rfl⟩
  exact absurd (gone.symm.trans here) (by simp)

end MailKeep
