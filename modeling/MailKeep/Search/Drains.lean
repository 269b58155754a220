import MailKeep.Search.Convergence
import MailKeep.Program.Play

/-! Drain after drain with blobs that stay as they are: which messages come into the index. -/
namespace MailKeep
open Program Ranked IndexStore

section Drain
variable (tantivy : Tantivy) (extractBody : Bytes → Option String) (fault : MessageId → Option ReadFault)

def fixedReads : (o : IndexOp) → o.Choice
  | .getRaw msg => fault msg.id
  | .openIndex => true
  | .readDir => .ok []
  | .readSidecar | .deleteTerm _ | .serve => ()
  | .writeSidecar _ | .resetAllIndexed | .listUnindexed _ | .markIndexed _ | .createDirAll | .removeEntry _ | .openOrCreate _
  | .truncateSidecar | .lockWriter | .deleteAllDocuments | .addDocument _ | .commit => none

/-- One call of `drain_once`. -/
def drain (w : IndexWorld) : Except Error Nat × IndexWorld :=
  indexStore.play (fixedReads fault) (drainOnce tantivy extractBody).run w

def drains (n : Nat) (w : IndexWorld) : IndexWorld := (fun w => (drain tantivy extractBody fault w).2)^[n] w

def bodyOf (w : IndexWorld) (m : Message) : Option String := (w.raw m.accountId m.contentHash).bind extractBody

def batchDocs (w : IndexWorld) (msgs : List Message) : List (MessageId × Document) :=
  msgs.flatMap fun m => ((bodyOf extractBody w m).map fun body => (m.id, toDocument tantivy m body)).toList

/-- What `delete_term` and `add_document` make of the writer's documents. -/
def replaceAll (docs : List Document) (batch : List (MessageId × Document)) : List Document :=
  batch.foldl (fun docs new => docs.filter (fun d => d.messageId ≠ new.1) ++ [new.2]) docs

variable {tantivy extractBody fault} {w : IndexWorld}

def readReply (w : IndexWorld) (m : Message) : Except Error Bytes :=
  match w.raw m.accountId m.contentHash with
  | some bytes => .ok bytes
  | none => .error (.blobNotFound m.accountId m.contentHash.asHex)

variable (fault w) in
private theorem getRaw_play (m : Message) : indexStore.play (fixedReads fault)
    (perform (ε := Error) (.getRaw m)).run w =
    let reply := (fault m.id).elim (readReply w m) fun f => .error f.error
    (.ok reply, { w with fetched := Function.update w.fetched m.id (some reply) }) := by
  cases faulty : fault m.id with
  | none =>
    change (Except.ok (indexExec (.getRaw m) (fault m.id) w).1, (indexExec (.getRaw m) (fault m.id) w).2) = _
    rw [faulty]
    rfl
  | some f =>
    change (Except.ok (indexExec (.getRaw m) (fault m.id) w).1, (indexExec (.getRaw m) (fault m.id) w).2) = _
    rw [faulty]
    rfl

variable (tantivy extractBody) in
/-- Without a fault the batch is fetched as a whole. -/
private theorem fetchBatch_play (msgs : List Message) (calm : ∀ m ∈ msgs, fault m.id = none) :
    ∃ fetched, indexStore.play (fixedReads fault) (fetchBatch tantivy extractBody msgs).run w =
      (.ok (msgs.map Message.id, batchDocs tantivy extractBody w msgs), { w with fetched := fetched }) := by
  induction msgs generalizing w with
  | nil => exact ⟨w.fetched, rfl⟩
  | cons m msgs ih =>
    have read := getRaw_play fault w m
    rw [calm m List.mem_cons_self] at read
    obtain ⟨last, rest⟩ := ih (w := { w with fetched := Function.update w.fetched m.id (some (readReply w m)) }) fun m' h =>
      calm m' (List.mem_cons_of_mem _ h)
    refine ⟨last, ?_⟩
    rw [fetchBatch]
    apply (play_seq_ok read).trans
    dsimp only [Option.elim_none] at rest ⊢
    rw [batchDocs, List.flatMap_cons, bodyOf]
    cases raw : w.raw m.accountId m.contentHash with
    | none =>
      rw [readReply, raw] at rest ⊢
      exact (play_seq_ok rest).trans rfl
    | some bytes =>
      rw [readReply, raw] at rest ⊢
      cases body : extractBody bytes with
      | none =>
        simp only [body, Option.bind_some]
        exact (play_seq_ok rest).trans rfl
      | some text =>
        simp only [body, Option.bind_some]
        exact (play_seq_ok rest).trans rfl

variable (tantivy extractBody) in
/-- One fault ends the batch. -/
private theorem fetchBatch_fault {msgs : List Message} (faulty : ∃ m ∈ msgs, fault m.id ≠ none) :
    ∃ e fetched, indexStore.play (fixedReads fault) (fetchBatch tantivy extractBody msgs).run w =
      (.error e, { w with fetched := fetched }) := by
  induction msgs generalizing w with
  | nil =>
    obtain ⟨m, h, -⟩ := faulty
    cases h
  | cons m msgs ih =>
    have read := getRaw_play fault w m
    rw [fetchBatch]
    cases first : fault m.id with
    | some f =>
      rw [first] at read
      refine ⟨f.error, Function.update w.fetched m.id (some (.error f.error)), (play_seq_ok read).trans ?_⟩
      have present := f.present
      dsimp only [Option.elim_some]
      split
      · rename_i blob
        cases blob
      · rename_i blob
        exact absurd (Except.error.inj blob) (present _ _)
      · rename_i blob
        cases blob
        rfl
    | none =>
      rw [first] at read
      have later : ∃ m ∈ msgs, fault m.id ≠ none := by
        obtain ⟨m', h, hf⟩ := faulty
        rcases List.mem_cons.mp h with rfl | h
        · exact absurd first hf
        · exact ⟨m', h, hf⟩
      obtain ⟨e, last, rest⟩ := ih (w := { w with fetched := Function.update w.fetched m.id (some (readReply w m)) }) later
      refine ⟨e, last, (play_seq_ok read).trans ?_⟩
      dsimp only [Option.elim_none] at rest ⊢
      cases raw : w.raw m.accountId m.contentHash with
      | none =>
        rw [readReply, raw] at rest ⊢
        exact (play_seq_error rest).trans rfl
      | some bytes =>
        rw [readReply, raw] at rest ⊢
        cases body : extractBody bytes with
        | none =>
          simp only [body]
          exact (play_seq_error rest).trans rfl
        | some text =>
          simp only [body]
          exact (play_seq_error rest).trans rfl

variable (fault) in
private theorem addAll_play (batch : List (MessageId × Document)) {docs : List Document}
    (opened : w.writer = some docs) :
    indexStore.play (fixedReads fault) (addAll batch).run w =
      (.ok (), { w with writer := some (replaceAll docs batch) }) := by
  induction batch generalizing w docs with
  | nil =>
    rw [replaceAll, List.foldl_nil, ← opened]
    rfl
  | cons new batch ih =>
    have step := ih (w := { w with writer := some (docs.filter (fun d => d.messageId ≠ new.1) ++ [new.2]) }) rfl
    refine Eq.trans ?_ step
    rw [addAll]
    change indexStore.play _ (addAll batch).run { w with writer := (w.writer.map _).map _ } = _
    rw [opened]
    rfl

variable (fault) in
private theorem writeBatch_play (batch : List (MessageId × Document)) {docs : List Document}
    {i : DiskIndex} (opened : w.writer = some docs)
    (onDisk : w.index = some i) : indexStore.play (fixedReads fault) (writeBatch batch).run w =
      (.ok (), { w with
        writer := some (replaceAll docs batch)
        index := some { i with docs := replaceAll docs batch }
        holdings := w.holdings.commit }) := by
  have added := addAll_play fault batch opened
  refine (play_seq_ok (t := w) (a := ()) rfl).trans ((play_seq_ok added).trans ?_)
  change ((Except.ok (), IndexWorld.committed _) : Except Error Unit × IndexWorld) = _
  rw [IndexWorld.committed, onDisk]
  rfl

private theorem drain_play (some : (w.listUnindexed BATCH).isEmpty = false) :
    drain tantivy extractBody fault w = indexStore.play (fixedReads fault) (do
      let (ids, docs) ← fetchBatch tantivy extractBody (w.listUnindexed BATCH)
      writeBatch docs
      orElse id (← perform (.markIndexed ids))
      return ids.length : IndexAction Error Nat).run w := by
  rw [drain, drainOnce]
  refine (play_seq_ok (t := w) (a := .ok (w.listUnindexed BATCH)) rfl).trans
    ((play_seq_ok (t := w) (a := w.listUnindexed BATCH) rfl).trans ?_)
  dsimp only
  rw [some, if_neg Bool.false_ne_true]

/-- With nothing to index a drain does nothing. -/
private theorem drain_idle (none : w.listUnindexed BATCH = []) : drain tantivy extractBody fault w = (.ok 0, w) := by
  rw [drain, drainOnce]
  refine (play_seq_ok (t := w) (a := .ok (w.listUnindexed BATCH)) rfl).trans
    ((play_seq_ok (t := w) (a := w.listUnindexed BATCH) rfl).trans ?_)
  rw [none]
  rfl

variable (tantivy extractBody) in
/-- A batch with a fault is given up: nothing is written and nothing is marked. -/
private theorem drain_fault (faulty : ∃ m ∈ w.listUnindexed BATCH, fault m.id ≠ none) :
    ∃ fetched, (drain tantivy extractBody fault w).2 = { w with fetched := fetched } := by
  obtain ⟨e, fetched, batch⟩ := fetchBatch_fault tantivy extractBody (w := w) faulty
  obtain ⟨m, h, -⟩ := faulty
  rw [drain_play (List.isEmpty_eq_false_iff_exists_mem.mpr ⟨m, h⟩), play_seq_error batch]
  exact ⟨fetched, rfl⟩

variable (tantivy extractBody) in
/-- A batch without one is written, committed and marked. -/
private theorem drain_batch (calm : ∀ m ∈ w.listUnindexed BATCH, fault m.id = none) {docs : List Document}
    {i : DiskIndex}
    (opened : w.writer = some docs) (onDisk : w.index = some i) :
    ∃ fetched, (drain tantivy extractBody fault w).2 =
      if w.listUnindexed BATCH = [] then w
      else
        let docs' := replaceAll docs (batchDocs tantivy extractBody w (w.listUnindexed BATCH))
        { w with
          fetched := fetched
          writer := some docs'
          index := some { i with docs := docs' }
          holdings := w.holdings.commit }.setIndexed
          (fun m => ((w.listUnindexed BATCH).map Message.id).contains m.id) true := by
  obtain ⟨fetched, batch⟩ := fetchBatch_play tantivy extractBody (w := w) _ calm
  refine ⟨fetched, ?_⟩
  split
  · rename_i none
    rw [drain_idle none]
  · rename_i some
    rw [drain_play (by simpa using some), play_seq_ok batch]
    have written := writeBatch_play fault (w := { w with fetched := fetched })
      (batchDocs tantivy extractBody w (w.listUnindexed BATCH)) opened onDisk
    dsimp only
    rw [play_seq_ok written]
    rfl

variable (w) in
def IndexWorld.backlog : List Message := sortDesc (fun m => OrderDual.toDual m.id)
    (w.messages.rows.filter fun m => !m.indexed)

theorem IndexWorld.mem_backlog {m : Message} : m ∈ w.backlog ↔ m ∈ w.messages ∧ m.indexed = false := by
  rw [backlog, mem_sortDesc, List.mem_filter, Bool.not_eq_true', Keyed.Table.mem_def]

private theorem unindexed_nodup : ((w.messages.rows.filter fun m => !m.indexed).map fun m => OrderDual.toDual m.id).Nodup :=
  (w.messages.nodup.sublist (List.filter_sublist.map _) : ((w.messages.rows.filter fun m => !m.indexed).map Message.id).Nodup)

private theorem IndexWorld.backlog_nodup : (w.backlog.map Message.id).Nodup :=
  ((sortDesc_perm _ _).map _).nodup_iff.mpr (w.messages.nodup.sublist (List.filter_sublist.map _))

/-- Marked rows leave the backlog. -/
private theorem IndexWorld.backlog_mark (ids : List MessageId) :
    (w.setIndexed (fun m => ids.contains m.id) true).backlog =
    w.backlog.filter fun m => !ids.contains m.id := by
  rw [backlog, backlog, ← sortDesc_filter unindexed_nodup, List.filter_filter]
  apply congrArg _
  rw [setIndexed, Keyed.Table.update, List.filter_map]
  have left : w.messages.rows.filter ((fun m => !m.indexed) ∘ fun m => if ids.contains m.id then m.withIndexed true else m) =
      w.messages.rows.filter fun m => !ids.contains m.id && !m.indexed := by
    apply List.filter_congr
    intro m _
    rw [Function.comp]
    split
    · rename_i marked
      rw [marked]
      rfl
    · rename_i unmarked
      rw [Bool.not_eq_true] at unmarked
      rw [unmarked, Bool.not_false, Bool.true_and]
  rw [left]
  conv_rhs => rw [← List.map_id (w.messages.rows.filter _)]
  refine List.map_congr_left fun m h => if_neg ?_
  have unmarked := (Bool.and_eq_true_iff.mp (List.mem_filter.mp h).2).1
  rw [Bool.not_eq_true'] at unmarked
  rw [unmarked]
  exact Bool.false_ne_true

private theorem filter_front (front back : List Message) (distinct : ((front ++ back).map Message.id).Nodup) :
    (front ++ back).filter (fun m => !(front.map Message.id).contains m.id) = back := by
  rw [List.map_append, List.nodup_append] at distinct
  rw [List.filter_append, List.filter_eq_nil_iff.mpr, List.filter_eq_self.mpr, List.nil_append]
  · intro m later
    rw [Bool.not_eq_true', ← Bool.not_eq_true, List.contains_iff_mem]
    exact fun early => distinct.2.2 _ early _ (List.mem_map_of_mem later) rfl
  · intro m early
    rw [Bool.not_eq_true', Bool.not_eq_false, List.contains_iff_mem]
    exact List.mem_map_of_mem early

/-- Without the ids of its first batch the backlog is what comes behind it. -/
private theorem filter_batch {l : List Message} (distinct : (l.map Message.id).Nodup) (n : Nat) :
    l.filter (fun m => !((l.take n).map Message.id).contains m.id) = l.drop n := by
  have split := filter_front (l.take n) (l.drop n)
  rw [List.take_append_drop] at split
  exact split distinct

/-- Each document of the batch replaces what the writer had for its message. -/
private theorem copies_replaceAll (docs : List Document) {batch : List (MessageId × Document)}
    (own : ∀ new ∈ batch, new.2.messageId = new.1)
    (distinct : (batch.map Prod.fst).Nodup) (id : MessageId) :
    copies id (replaceAll docs batch) = if id ∈ batch.map Prod.fst then 1 else copies id docs := by
  induction batch generalizing docs with
  | nil => rfl
  | cons new batch ih =>
    rw [List.map_cons, List.nodup_cons] at distinct
    have rest := ih (docs.filter (fun d => d.messageId ≠ new.1) ++ [new.2])
      (fun new' h => own new' (List.mem_cons_of_mem _ h)) distinct.2
    rw [replaceAll, List.foldl_cons]
    change copies id (replaceAll _ batch) = _
    rw [rest, copies_add, own new List.mem_cons_self]
    by_cases here : id = new.1
    · subst here
      rw [if_neg distinct.1, copies_delete_self, if_pos rfl, List.map_cons, if_pos List.mem_cons_self]
    · rw [copies_delete_other here, if_neg (Ne.symm here), Nat.add_zero]
      simp only [List.map_cons, List.mem_cons, here, false_or]

/-- A message of the batch has a document just where its text could be read. -/
private theorem batchDocs_ids (msgs : List Message) : (batchDocs tantivy extractBody w msgs).map Prod.fst =
    (msgs.filter fun m => (bodyOf extractBody w m).isSome).map Message.id := by
  induction msgs with
  | nil => rfl
  | cons m msgs ih =>
    rw [batchDocs, List.flatMap_cons, List.map_append]
    change _ ++ (batchDocs tantivy extractBody w msgs).map Prod.fst = _
    rw [ih]
    cases body : bodyOf extractBody w m with
    | none => rw [List.filter_cons_of_neg (by simp [body])]; rfl
    | some text => rw [List.filter_cons_of_pos (by simp [body])]; rfl

private theorem batchDocs_own {msgs : List Message} : ∀ new ∈ batchDocs tantivy extractBody w msgs,
    new.2.messageId = new.1 := by
  intro new h
  obtain ⟨m, -, found⟩ := List.mem_flatMap.mp h
  obtain ⟨body, -, rfl⟩ := Option.map_eq_some_iff.mp (Option.mem_toList.mp found)
  rfl

/-- The batches before number `k` have been drained. -/
structure Drained (extractBody : Bytes → Option String) (start : IndexWorld) (k : Nat) (w : IndexWorld) : Prop where
  raw : w.raw = start.raw
  backlog : w.backlog = start.backlog.drop (BATCH * k)
  marked : ∀ m ∈ start.backlog.take (BATCH * k), ∃ m' ∈ w.messages, m'.id = m.id ∧ m'.indexed = true
  indexed : ∃ docs i, w.writer = some docs ∧ w.index = some i ∧ ∀ m ∈ start.backlog.take (BATCH * k),
    (bodyOf extractBody start m).isSome = true → copies m.id docs = 1 ∧ copies m.id i.docs = 1

namespace Drained
variable {start : IndexWorld} {k : Nat}

theorem batch (h : Drained extractBody start k w) : w.listUnindexed BATCH =
    (start.backlog.drop (BATCH * k)).take BATCH := by
  change w.backlog.take BATCH = _
  rw [h.backlog]

/-- A batch with a fault stays where it is. -/
private theorem stuck (h : Drained extractBody start k w)
    (faulty : ∃ m ∈ (start.backlog.drop (BATCH * k)).take BATCH, fault m.id ≠ none) :
    Drained extractBody start k (drain tantivy extractBody fault w).2 := by
  rw [← h.batch] at faulty
  obtain ⟨fetched, same⟩ := drain_fault tantivy extractBody faulty
  rw [same]
  exact ⟨h.raw, h.backlog, h.marked, h.indexed⟩

/-- A batch without one is done. -/
theorem next (h : Drained extractBody start k w) (calm : ∀ m ∈ (start.backlog.drop (BATCH * k)).take BATCH, fault m.id = none) :
    Drained extractBody start (k + 1) (drain tantivy extractBody fault w).2 := by
  rw [← h.batch] at calm
  obtain ⟨docs, i, opened, onDisk, indexed⟩ := h.indexed
  obtain ⟨fetched, done⟩ := drain_batch tantivy extractBody calm opened onDisk
  have further : start.backlog.take (BATCH * (k + 1)) = start.backlog.take (BATCH * k) ++
      w.listUnindexed BATCH := by
    rw [h.batch, Nat.mul_succ, List.take_add]
  rw [done]
  split
  · rename_i none
    rw [none, List.append_nil] at further
    refine ⟨h.raw, ?_, further ▸ h.marked, docs, i, opened, onDisk, further ▸ indexed⟩
    have empty : w.backlog = [] := (List.take_eq_nil_iff.mp none).resolve_left (by decide)
    rw [Nat.mul_succ, ← List.drop_drop, ← h.backlog, empty, List.drop_nil]
  · have distinct : ((w.listUnindexed BATCH).map Message.id).Nodup := by
      change ((w.backlog.take BATCH).map Message.id).Nodup
      exact w.backlog_nodup.sublist ((List.take_sublist _ _).map _)
    have once : ((batchDocs tantivy extractBody w (w.listUnindexed BATCH)).map Prod.fst).Nodup := by
      rw [batchDocs_ids]
      exact distinct.sublist (List.filter_sublist.map _)
    have replaced := copies_replaceAll docs batchDocs_own once
    refine ⟨h.raw, ?_, ?_, _, _, rfl, rfl, ?_⟩
    · apply (IndexWorld.backlog_mark _).trans
      change w.backlog.filter (fun m => !((w.backlog.take BATCH).map Message.id).contains m.id) = _
      rw [filter_batch w.backlog_nodup, h.backlog, List.drop_drop, Nat.mul_succ]
    · intro m early
      rw [further, List.mem_append] at early
      rcases early with before | now
      · obtain ⟨m', stored, same, marked⟩ := h.marked m before
        refine ⟨_, IndexWorld.mem_setIndexed.mpr ⟨m', stored, rfl⟩, ?_, ?_⟩
        · split <;> exact same
        · split
          · rfl
          · exact marked
      · have stored := (IndexWorld.mem_backlog.mp (List.mem_of_mem_take now)).1
        refine ⟨_, IndexWorld.mem_setIndexed.mpr ⟨m, stored, rfl⟩, ?_⟩
        rw [if_pos (List.contains_iff_mem.mpr (List.mem_map_of_mem now))]
        exact ⟨rfl, rfl⟩
    · intro m early readable
      apply and_self_iff.mpr
      rw [replaced, batchDocs_ids]
      rw [further, List.mem_append] at early
      split
      · rfl
      · rename_i other
        rcases early with before | now
        · exact (indexed m before readable).1
        · refine absurd (List.mem_map_of_mem (List.mem_filter.mpr ⟨now, ?_⟩)) other
          rw [bodyOf, h.raw]
          exact readable

end Drained

variable (fault) in
/-- The blob of the message at this place of the backlog cannot be read. -/
def FaultyAt (start : IndexWorld) (q : Nat) : Prop := ∃ m, start.backlog[q]? = some m ∧ fault m.id ≠ none

variable {start : IndexWorld} {k : Nat}

private theorem drains_succ (n : Nat) (w : IndexWorld) :
    drains tantivy extractBody fault (n + 1) w = (drain tantivy extractBody fault (drains tantivy extractBody fault n w)).2 :=
  Function.iterate_succ_apply' _ _ _

private theorem mem_batch {m : Message} : m ∈ (start.backlog.drop (BATCH * k)).take BATCH ↔
    ∃ q, q / 128 = k ∧ start.backlog[q]? = some m := by
  change m ∈ page start.backlog (128 * k) 128 ↔ _
  rw [mem_page_iff_getElem]
  apply exists_congr
  intro q
  rw [← and_assoc]
  exact and_congr_left fun _ => by omega

theorem Drained.advance (h : Drained extractBody start k w) (before : ∀ q, FaultyAt fault start q → q / 128 ≠ k) :
    Drained extractBody start (k + 1) (drain tantivy extractBody fault w).2 := by
  apply h.next
  intro m batch
  obtain ⟨q, number, place⟩ := mem_batch.mp batch
  by_contra faulty
  exact before q ⟨m, place, faulty⟩ number

theorem Drained.begin {docs : List Document} {i : DiskIndex} (opened : w.writer = some docs)
    (onDisk : w.index = some i) :
    Drained extractBody w 0 w :=
  ⟨rfl, rfl, fun _ h => (by cases h), docs, i, opened, onDisk, fun _ h => (by cases h)⟩

variable (tantivy) in
/-- Up to the batch of the first fault every drain does one batch. -/
theorem Drained.run (h : Drained extractBody start 0 start) {n : Nat}
    (ahead : ∀ q, FaultyAt fault start q → n ≤ q / 128) :
    Drained extractBody start n (drains tantivy extractBody fault n start) := by
  induction n with
  | zero => exact h
  | succ n ih =>
    rw [drains_succ]
    exact (ih fun q faulty => Nat.le_of_succ_le (ahead q faulty)).advance fun q faulty =>
      Nat.ne_of_gt (ahead q faulty)

variable (tantivy) in
/-- What is done stays done, and no drain gets past a fault. -/
theorem Drained.stays (h : Drained extractBody start k w)
    (ahead : ∀ q, FaultyAt fault start q → k ≤ q / 128) (n : Nat) :
    ∃ k', k ≤ k' ∧ Drained extractBody start k' (drains tantivy extractBody fault n w) ∧
      ∀ q, FaultyAt fault start q → k' ≤ q / 128 := by
  induction n with
  | zero => exact ⟨k, le_rfl, h, ahead⟩
  | succ n ih =>
    obtain ⟨k', le, drained, ahead'⟩ := ih
    rw [drains_succ]
    by_cases here : ∃ q, FaultyAt fault start q ∧ q / 128 = k'
    · obtain ⟨q, ⟨m, place, faulty⟩, number⟩ := here
      exact ⟨k', le, drained.stuck ⟨m, mem_batch.mpr ⟨q, number, place⟩, faulty⟩, ahead'⟩
    · have other : ∀ q, FaultyAt fault start q → q / 128 ≠ k' := fun q faulty number => here ⟨q, faulty, number⟩
      exact ⟨k' + 1, by omega, drained.advance other, fun q faulty => lt_of_le_of_ne (ahead' q faulty) (other q faulty).symm⟩

/-- Nothing in the batch of a fault or behind it ever leaves the backlog. -/
theorem Drained.waits (h : Drained extractBody start 0 start) {p q : Nat} {a b : Message}
    (place : start.backlog[p]? = some a)
    (placeB : start.backlog[q]? = some b) (faulty : fault b.id ≠ none) (behind : q / 128 ≤ p / 128) (n : Nat) :
    a ∈ (drains tantivy extractBody fault n start).backlog := by
  obtain ⟨k, -, drained, ahead⟩ := h.stays tantivy (fun q _ => Nat.zero_le _) n
  have late : k ≤ p / 128 := (ahead q ⟨b, placeB, faulty⟩).trans behind
  have left : BATCH * k ≤ p := by
    change 128 * k ≤ p
    omega
  rw [drained.backlog]
  refine List.mem_of_getElem? (i := p - BATCH * k) ?_
  rw [List.getElem?_drop, Nat.add_sub_cancel' left, place]

/-- What is in the backlog is not marked. -/
private theorem IndexWorld.not_marked {m : Message} (left : m ∈ w.backlog) :
    ¬ ∃ m' ∈ w.messages, m'.id = m.id ∧ m'.indexed = true := by
  rintro ⟨m', stored, same, marked⟩
  obtain ⟨stored', waits⟩ := IndexWorld.mem_backlog.mp left
  rw [Keyed.Table.eq_of_key stored stored' same, waits] at marked
  cases marked

/-- Drains settle the messages that can be read exactly where each of them is in an earlier batch than every message with a
lasting fault. -/
theorem drains_settle_iff (tantivy : Tantivy) (extractBody : Bytes → Option String)
    (fault : MessageId → Option ReadFault)
    (start : IndexWorld) (docs : List Document) (i : DiskIndex) (opened : start.writer = some docs)
    (onDisk : start.index = some i) :
    (∃ n, ∀ k, n ≤ k → ∀ m ∈ start.messages, m.indexed = false → fault m.id = none → (bodyOf extractBody start m).isSome = true →
        (∃ m' ∈ (drains tantivy extractBody fault k start).messages, m'.id = m.id ∧ m'.indexed = true) ∧
          ∃ i, (drains tantivy extractBody fault k start).index = some i ∧ copies m.id i.docs = 1) ↔
      ∀ p q a b, start.backlog[p]? = some a → fault a.id = none → (bodyOf extractBody start a).isSome = true →
        start.backlog[q]? = some b → fault b.id ≠ none → p / 128 < q / 128 := by
  have first : Drained extractBody start 0 start := .begin opened onDisk
  constructor
  · rintro ⟨n, settled⟩ p q a b place calm readable placeB faulty
    by_contra behind
    obtain ⟨stored, waits⟩ := IndexWorld.mem_backlog.mp (List.mem_of_getElem? place)
    exact IndexWorld.not_marked (first.waits place placeB faulty (not_lt.mp behind) n)
      (settled n le_rfl a stored waits calm readable).1
  · intro apart
    obtain ⟨n, ahead, reached⟩ : ∃ n, (∀ q, FaultyAt fault start q → n ≤ q / 128) ∧
      ∀ p a, start.backlog[p]? = some a →
        fault a.id = none → (bodyOf extractBody start a).isSome = true → p / 128 < n := by
      classical
      by_cases some : ∃ q, FaultyAt fault start q
      · obtain ⟨b, placeB, faulty⟩ := Nat.find_spec some
        exact ⟨Nat.find some / 128, fun q faulty => Nat.div_le_div_right (Nat.find_min' some faulty),
          fun p a place calm readable => apart p _ a b place calm readable placeB faulty⟩
      · refine ⟨start.backlog.length, fun q faulty => absurd ⟨q, faulty⟩ some, fun p a place _ _ => ?_⟩
        exact (Nat.div_le_self _ _).trans_lt (List.getElem?_eq_some_iff.mp place).1
    refine ⟨n, fun k le m stored waits calm readable => ?_⟩
    obtain ⟨k', le', drained, -⟩ := (first.run tantivy ahead).stays tantivy ahead (k - n)
    have whole : drains tantivy extractBody fault (k - n) (drains tantivy extractBody fault n start) =
        drains tantivy extractBody fault k start := by
      rw [drains, drains, ← Function.iterate_add_apply, Nat.sub_add_cancel le]
      rfl
    rw [whole] at drained
    obtain ⟨p, place⟩ := List.mem_iff_getElem?.mp (IndexWorld.mem_backlog.mpr ⟨stored, waits⟩)
    have early : m ∈ start.backlog.take (BATCH * k') := by
      refine List.mem_of_getElem? (i := p) ?_
      rw [List.getElem?_take_of_lt, place]
      have := reached p m place calm readable
      change p < 128 * k'
      omega
    obtain ⟨_, i', _, onDisk', indexed⟩ := drained.indexed
    exact ⟨drained.marked m early, i', onDisk', (indexed m early readable).2⟩

end Drain

namespace TornBlob

def row (id : MessageId) (hash : ContentHash) : Message where
  rfc822MessageId := "<m@example.com>"
  contentHash := hash
  subject := none
  fromAddress := "bob@example.com"
  fromName := none
  toAddresses := []
  ccAddresses := []
  bccAddresses := []
  replyToAddresses := []
  sentDate := none
  inReplyTo := none
  references := []
  snippet := ""
  sizeBytes := 0
  id := id
  version := 1
  accountId := 1
  hasAttachments := false
  attachmentCount := 0
  indexed := false

def world : IndexWorld where
  messages := ⟨[row 1 ⟨.replicate 32 1⟩, row 2 ⟨.replicate 32 2⟩], by decide⟩
  raw _ hash := if hash = ⟨.replicate 32 2⟩ then some [104, 105] else none
  index := some ⟨buildSchema, []⟩
  sidecar := some "1"
  writer := some []
  release := currentRelease
  serving := true
  fetched _ := none
  holdings := .all

def plainText (raw : Bytes) : Option String := some (String.ofList (raw.map fun b => Char.ofNat b.toNat))

def words : Tantivy := ⟨fun _ => [], fun seconds => seconds⟩

def undecryptable (id : MessageId) : Option ReadFault := if id = 1 then some ⟨.decryptionFailed, nofun⟩ else none

def behind : Message := row 2 ⟨.replicate 32 2⟩

private theorem backlog_world : world.backlog = [row 1 ⟨.replicate 32 1⟩, behind] := by decide

end TornBlob

/-- Without a fault one drain does both. -/
theorem drains_settle_calm : ∃ n, ∀ k, n ≤ k → ∀ m ∈ TornBlob.world.messages, m.indexed = false →
    (none : Option ReadFault) = none →
    (bodyOf TornBlob.plainText TornBlob.world m).isSome = true →
      (∃ m' ∈ (drains TornBlob.words TornBlob.plainText (fun _ => none) k TornBlob.world).messages, m'.id = m.id ∧ m'.indexed = true) ∧
        ∃ i, (drains TornBlob.words TornBlob.plainText (fun _ => none) k TornBlob.world).index =
          some i ∧ copies m.id i.docs = 1 :=
  (drains_settle_iff TornBlob.words TornBlob.plainText (fun _ => none) TornBlob.world [] ⟨buildSchema, []⟩ rfl rfl).mpr
    fun _ _ _ _ _ _ _ _ faulty => absurd rfl faulty

/-- The blob that does not decrypt keeps the message behind it out of the index for good. -/
theorem torn_blob_wedges : (bodyOf TornBlob.plainText TornBlob.world TornBlob.behind).isSome = true ∧
    TornBlob.undecryptable TornBlob.behind.id = none ∧ ¬ ∃ n,
      ∃ m' ∈ (drains TornBlob.words TornBlob.plainText TornBlob.undecryptable n TornBlob.world).messages,
        m'.id = TornBlob.behind.id ∧ m'.indexed = true := by
  refine ⟨by decide, rfl, ?_⟩
  rintro ⟨n, marked⟩
  have first : Drained TornBlob.plainText TornBlob.world 0 TornBlob.world := .begin (show _ = some [] from rfl) rfl
  exact IndexWorld.not_marked (first.waits (p := 1) (q := 0) (b := TornBlob.row 1 ⟨.replicate 32 1⟩)
    (by rw [TornBlob.backlog_world]; rfl) (by rw [TornBlob.backlog_world]; rfl)
      (fun calm => by cases calm) le_rfl n) marked

end MailKeep
