import MailKeep.Search.Convergence

/-! Every run of the indexer keeps the index convergent. -/
namespace MailKeep
open Program IndexStore

/-- Messages arrive while a process works: new rows wait to be indexed, and blobs come and go. -/
structure Ingests (s t : IndexWorld) : Prop where
  rest : t = { s with messages := t.messages, raw := t.raw }
  rows : ∀ m ∈ t.messages, m ∈ s.messages ∨ m.indexed = false

theorem Ingests.refl (s : IndexWorld) : Ingests s s := ⟨rfl, fun _ hm => .inl hm⟩

theorem Ingests.trans {a b c : IndexWorld} (h : Ingests a b) (h' : Ingests b c) : Ingests a c where
  rest := by rw [h'.rest, h.rest]
  rows := fun m hm => (h'.rows m hm).elim (h.rows m) .inr

theorem Ingests.unmarked {s t : IndexWorld} {ids : MessageId → Prop} (h : Ingests s t)
    (hu : Unmarked ids s) : Unmarked ids t :=
  fun m hm hid => (h.rows m hm).elim (fun hs => hu m hs hid) id

/-- What an assertion may speak of besides the rows. -/
theorem Ingests.same {s t : IndexWorld} (h : Ingests s t) : t.index = s.index ∧ t.sidecar = s.sidecar ∧
    t.writer = s.writer ∧ t.release = s.release ∧ t.serving = s.serving ∧ t.fetched = s.fetched ∧
    t.holdings = s.holdings := by
  rw [h.rest]
  exact ⟨rfl, rfl, rfl, rfl, rfl, rfl, rfl⟩

section Programs
variable {extractBody : Bytes → Option String}

def indexContract (extractBody : Bytes → Option String) : Contract indexStore where
  allowed := fun _ _ _ => True
  valid := Converging extractBody
  rely := Ingests
  guar := fun _ _ => True

theorem indexContract_stable : (indexContract extractBody).Stable := ⟨Ingests.refl, Ingests.trans⟩

def Steady (P : IndexWorld → Prop) : Prop := ∀ s t, P s → Ingests s t → P t

/-- What a step leaves: `mid` where its reply is a success, `E` where it is a failure. -/
def Outcome {ε α : Type} (extractBody : Bytes → Option String) (mid : α → IndexWorld → Prop) (E : IndexWorld → Prop)
    (x : Except ε α × IndexWorld) : Prop :=
  Converging extractBody x.2 ∧ (∀ a, x.1 = .ok a → mid a x.2) ∧ ∀ e, x.1 = .error e → E x.2

variable {ε ε' α β : Type} {post : β → IndexWorld → Prop} {err : ε' → IndexWorld → Prop} {s : IndexWorld}
  {mid : α → IndexWorld → Prop} {P E : IndexWorld → Prop} {w w' : IndexWorld}

theorem Outcome.ok {a : α} (h : Converging extractBody w) (hm : mid a w) :
    Outcome extractBody mid E ((.ok a, w) : Except ε α × IndexWorld) :=
  ⟨h, fun _ ha => Except.ok.inj ha ▸ hm, fun _ he => by cases he⟩

theorem Outcome.error {e : ε} (h : Converging extractBody w) (hE : E w) :
    Outcome extractBody mid E ((.error e, w) : Except ε α × IndexWorld) :=
  ⟨h, fun _ ha => (by cases ha), fun _ _ => hE⟩

theorem Outcome.fallible {toError : ε → ε'} {a : α} {c : Option (Fault ε)} (before : Converging extractBody w ∧ E w)
    (after : Converging extractBody w' ∧ mid a w' ∧ E w') :
    Outcome extractBody mid E (fallible toError a w w' c) := by
  rcases c with _ | ⟨e, _ | _⟩
  · exact .ok after.1 after.2.1
  · exact .error before.1 before.2
  · exact .error after.1 after.2.2

/-- A step of which nothing depends on whether it fails. -/
theorem Outcome.unchanged {toError : ε → ε'} {a : α} {c : Option (Fault ε)}
    (h : Converging extractBody w) (hm : mid a w)
    (hE : E w) : Outcome extractBody mid E (MailKeep.fallible toError a w w c) := .fallible ⟨h, hE⟩ ⟨h, hm, hE⟩

theorem IndexStore.perform_rule (o : IndexOp) (mid : o.Value → IndexWorld → Prop) (hP : Steady P)
    (hmid : ∀ r, Steady (mid r)) (hs : P s)
    (step : ∀ w c, Converging extractBody w → P w →
      Converging extractBody (indexExec o c w).2 ∧ mid (indexExec o c w).1 (indexExec o c w).2) :
    SafeAct (indexContract extractBody) mid err (perform o) s := by
  intro w hw hr c _
  obtain ⟨h1, h2⟩ := step w c hw (hP _ _ hs hr)
  exact ⟨h1, trivial, fun t _ ht => hmid _ _ _ h2 ht⟩

/-- One operation in a sequence; `k` reads its reply as a success or a failure. -/
theorem IndexStore.step_rule (o : IndexOp) (k : o.Value → Except ε α) {toError : ε → ε'} {f : α → IndexAction ε' β}
    (mid : α → IndexWorld → Prop) (hP : Steady P) (hE : Steady E) (hmid : ∀ a, Steady (mid a)) (hs : P s)
    (step : ∀ w c, Converging extractBody w → P w →
      Outcome extractBody mid E (k (indexExec o c w).1, (indexExec o c w).2))
    (herr : ∀ e t, E t → err e t)
    (next : ∀ a t, Converging extractBody t → mid a t → SafeAct (indexContract extractBody) post err (f a) t) :
    SafeAct (indexContract extractBody) post err (perform o >>= fun r => orElse toError (k r) >>= f) s := by
  refine SafeAct.seq indexContract_stable (IndexStore.perform_rule o (fun r t => (∀ a, k r = .ok a → mid a t) ∧
    ∀ e, k r = .error e → E t) hP ?_ hs step) fun r t ht hr => ?_
  · exact fun r s t h hi => ⟨fun a ha => hmid a _ _ (h.1 a ha) hi, fun e he => hE _ _ (h.2 e he) hi⟩
  · cases hk : k r with
    | ok a => exact next a t ht (hr.1 a hk)
    | error e => exact SafeAct.throw fun u _ hu => herr _ _ (hE _ _ (hr.2 e hk) hu)

/-- The last operation of a sequence. -/
theorem IndexStore.last_rule (o : IndexOp) (k : o.Value → Except ε α) {toError : ε → ε'}
    (mid : α → IndexWorld → Prop)
    (hP : Steady P) (hE : Steady E) (hmid : ∀ a, Steady (mid a)) (hs : P s)
    (step : ∀ w c, Converging extractBody w → P w →
      Outcome extractBody mid E (k (indexExec o c w).1, (indexExec o c w).2))
    (herr : ∀ e t, E t → err e t) :
    SafeAct (indexContract extractBody) mid err (perform o >>= fun r => orElse toError (k r)) s := by
  have := @IndexStore.step_rule extractBody _ _ _ _ mid err s P E o k toError pure mid hP hE hmid hs step herr
    fun a t _ hm => SafeAct.pure fun u _ hu => hmid a _ _ hm hu
  simpa only [bind_pure] using this

def Down (r : Release) (w : IndexWorld) : Prop := w.release = r ∧ w.writer = none

def Up (r : Release) (w : IndexWorld) : Prop := w.release = r ∧ ∃ docs, w.writer = some docs

/-- A fact about what ingests leave alone. -/
theorem Steady.of_same (h : ∀ s t : IndexWorld, t.index = s.index → t.sidecar = s.sidecar → t.writer = s.writer →
    t.release = s.release → t.fetched = s.fetched → P s → P t) : Steady P := by
  intro s t hs hi
  obtain ⟨h1, h2, h3, h4, -, h6, -⟩ := hi.same
  exact h s t h1 h2 h3 h4 h6 hs

theorem Steady.and {Q : IndexWorld → Prop} (hP : Steady P) (hQ : Steady Q) : Steady fun w => P w ∧ Q w :=
  fun s t h hi => ⟨hP s t h.1 hi, hQ s t h.2 hi⟩

theorem steady_true : Steady fun _ => True := fun _ _ _ _ => trivial

theorem steady_down {r : Release} : Steady (Down r) := by
  refine .of_same fun s t _ _ hw hr _ h => ?_
  rw [Down, hw, hr]
  exact h

theorem steady_up {r : Release} : Steady (Up r) := by
  refine .of_same fun s t _ _ hw hr _ h => ?_
  rw [Up, hw, hr]
  exact h

private theorem steady_stale : Steady fun w => ¬ w.Recorded := by
  refine .of_same fun s t _ hc _ hr _ h => ?_
  rw [IndexWorld.Recorded, hc, hr]
  exact h

theorem steady_unmarked {ids : MessageId → Prop} : Steady (Unmarked ids) := fun _ _ h hi => hi.unmarked h

theorem steady_rebuildable : Steady Rebuildable := by
  intro s t h hi hr
  obtain ⟨-, hc, -, hrel, -⟩ := hi.same
  exact hi.unmarked (h (by rwa [IndexWorld.Recorded, hc, hrel] at hr))

private theorem removeEntries_rule {r : Release} (entries : List DirEntry) (s : IndexWorld)
    (hs : Down r s ∧ Rebuildable s) :
    SafeAct (indexContract extractBody) (fun _ w => Down r w ∧ Rebuildable w) (fun _ _ => True)
      (removeEntries entries) s := by
  induction entries generalizing s with
  | nil => exact SafeAct.pure fun _ _ ht => (steady_down.and steady_rebuildable) _ _ hs ht
  | cons e entries ih =>
    refine IndexStore.step_rule (.removeEntry e) id (fun _ w => Down r w ∧ Rebuildable w)
      (steady_down.and steady_rebuildable) steady_true
      (fun _ => steady_down.and steady_rebuildable) hs (fun w c hw hp => ?_) (fun _ _ _ => trivial)
        fun _ t _ ht => ih t ht
    obtain ⟨h1, h2, h3, h4⟩ := hw.remove hp.2 hp.1.2 e
    exact .fallible ⟨hw, trivial⟩ ⟨h1, ⟨⟨h4.trans hp.1.1, h3⟩, h2⟩, trivial⟩

private theorem openOrCreate_rule {r : Release} (hs : Down r s) :
    SafeAct (indexContract extractBody) (fun _ w => Up r w) (fun _ _ => True) (openOrCreate r.schema) s := by
  refine IndexStore.step_rule .createDirAll id (fun _ w => Down r w) steady_down steady_true
    (fun _ => steady_down) hs
    (fun w c hw hp => .unchanged hw hp trivial) (fun _ _ _ => trivial) fun _ t _ ht => ?_
  refine SafeAct.seq indexContract_stable (IndexStore.perform_rule .openIndex (fun existing w => Down r w ∧
    (existing.any (· ≠ r.schema) = true → Rebuildable w)) steady_down ?_ ht fun w readable hw hp => ⟨hw, hp, ?_⟩)
    fun existing t _ ht => ?_
  · exact fun existing s t h hi => ⟨steady_down _ _ h.1 hi, fun hx => steady_rebuildable _ _ (h.2 hx) hi⟩
  · intro hx hc
    rcases hw.opens hc with unmarked | ⟨i, hi, hschema⟩
    · exact unmarked
    cases readable with
    | false => cases hx
    | true =>
      have : i.schema ≠ r.schema := by simpa [indexExec, hi] using hx
      exact absurd (hschema.trans (congrArg Release.schema hp.1)) this
  have opens : ∀ u, Converging extractBody u → Down r u → SafeAct (indexContract extractBody) (fun _ w => Up r w)
      (fun _ _ => True)
      (perform (.openOrCreate r.schema) >>= fun reply => orElse SearchIndexError.openIndex reply) u := by
    intro u _ hdown
    refine IndexStore.last_rule (.openOrCreate r.schema) id (fun _ w => Up r w) steady_down steady_true
      (fun _ => steady_up) hdown (fun w c hw hp => ?_) fun _ _ _ => trivial
    have hrel : r.schema = w.release.schema := congrArg Release.schema hp.1.symm
    change Outcome extractBody _ _ (indexExec (.openOrCreate r.schema) c w)
    cases hi : w.index with
    | none =>
      obtain ⟨h1, h2⟩ := hw.create hi hp.2
      rcases c with _ | ⟨e, _ | _⟩
      · simp only [indexExec, hi]
        exact .ok (hrel ▸ h2) ⟨hp.1, _, rfl⟩
      · simp only [indexExec, hi]
        exact .error hw trivial
      · simp only [indexExec, hi]
        exact .error (hrel ▸ h1) trivial
    | some i =>
      by_cases hsch : i.schema = r.schema
      · rcases c with _ | f
        · simp only [indexExec, hi, hsch, ne_eq, not_true_eq_false, if_false]
          have h1 := hw.open hi (hsch.trans hrel)
          rw [hi] at h1
          exact .ok h1 ⟨hp.1, _, rfl⟩
        · simp only [indexExec, hi, hsch, ne_eq, not_true_eq_false, if_false]
          exact .error hw trivial
      · simp only [indexExec, hi, ne_eq, hsch, not_false_eq_true, if_true]
        exact .error hw trivial
  dsimp only
  split
  · rename_i hx
    have wiped : SafeAct (indexContract extractBody) (fun _ w => Down r w)
        (fun _ _ => True) clearDirContents t := by
      refine IndexStore.step_rule .readDir id (fun _ w => Down r w ∧ Rebuildable w)
        (steady_down.and steady_rebuildable) steady_true
        (fun _ => steady_down.and steady_rebuildable) ⟨ht.1, ht.2 hx⟩
          (fun w c hw hp => ⟨hw, fun _ _ => hp, fun _ _ => trivial⟩)
        (fun _ _ _ => trivial) fun entries u hu hp => ?_
      exact Safe.weaken (removeEntries_rule entries u hp) fun x _ _ h => match x with
        | .ok _ => h.1
        | .error _ => trivial
    exact SafeAct.seq indexContract_stable wiped fun _ u hu hdown => opens u hu hdown
  · exact opens t ‹_› ht.1

private theorem clearIndex_rule {r : Release} (hs : Up r s ∧ ¬ s.Recorded) :
    SafeAct (indexContract extractBody) (fun _ w => Up r w) (fun _ w => Up r w) clearIndex s := by
  have stale : Steady fun w => Up r w ∧ ¬ w.Recorded := steady_up.and steady_stale
  refine IndexStore.step_rule .lockWriter id (fun _ w => Up r w ∧ ¬ w.Recorded) stale steady_up (fun _ => stale) hs
    (fun w c hw hp => .unchanged hw hp hp.1) (fun _ _ h => h) fun _ t _ ht => ?_
  refine IndexStore.step_rule .deleteAllDocuments id (fun _ w => Up r w) stale steady_up (fun _ => steady_up) ht
    (fun w c hw hp => ?_) (fun _ _ h => h) fun _ u _ hu => ?_
  · obtain ⟨⟨hrel, docs, hd⟩, hstale⟩ := hp
    have hdocs : w.writer.map (fun _ => ([] : List Document)) = some [] := by rw [hd]; rfl
    change Outcome extractBody _ _
      (fallible id () w { w with writer := w.writer.map fun _ => [], holdings := w.dropped } c)
    rw [hdocs]
    exact .fallible ⟨hw, hrel, docs, hd⟩ ⟨hw.deleteAll hd hstale, ⟨hrel, _, rfl⟩, hrel, _, rfl⟩
  · refine IndexStore.last_rule .commit id (fun _ w => Up r w) steady_up steady_up (fun _ => steady_up) hu
      (fun w c hw hp => ?_) fun _ _ h => h
    obtain ⟨hrel, docs, hd⟩ := hp
    exact .fallible ⟨hw, hrel, docs, hd⟩ ⟨hw.commit hd, ⟨hrel, docs, hd⟩, hrel, docs, hd⟩

def Queued (r : Release) (w : IndexWorld) : Prop := Up r w ∧ Unmarked (fun _ => True) w

theorem steady_queued {r : Release} : Steady (Queued r) := steady_up.and steady_unmarked

theorem Queued.sidecar {r : Release} (hw : Converging extractBody w) (h : Queued r w) (text : String) :
    Converging extractBody { w with sidecar := some text } ∧ Queued r { w with sidecar := some text } := by
  obtain ⟨⟨hrel, docs, hd⟩, hu⟩ := h
  exact ⟨hw.of_unmarked hd rfl rfl rfl hu, ⟨hrel, docs, hd⟩, hu⟩

private theorem writeVersion_rule {r : Release} {version : U32} (hs : Queued r s) :
    SafeAct (indexContract extractBody) (fun _ w => Up r w) (fun _ w => Up r w) (writeVersion version) s := by
  refine IndexStore.step_rule .truncateSidecar id (fun _ w => Queued r w) steady_queued steady_up
    (fun _ => steady_queued) hs
    (fun w c hw hp => .fallible ⟨hw, hp.1⟩ ⟨(hp.sidecar hw "").1, (hp.sidecar hw "").2, hp.1⟩) (fun _ _ h => h)
    fun _ t _ ht => ?_
  refine IndexStore.last_rule (.writeSidecar (toString version.val)) id (fun _ w => Up r w) steady_queued steady_up
    (fun _ => steady_up) ht (fun w c hw hp => ?_) fun _ _ h => h
  rcases c with _ | ⟨error, left⟩
  · exact .ok (hp.sidecar hw _).1 hp.1
  · exact .error (hp.sidecar hw left).1 hp.1

private theorem reconcileOnStartup_rule {r : Release} {dir : String} (hs : Up r s) :
    SafeAct (indexContract extractBody) (fun _ w => Up r w) (fun _ w => Up r w)
      (reconcileOnStartup dir r.schemaVersion) s := by
  refine SafeAct.seq indexContract_stable (IndexStore.perform_rule .readSidecar (fun sidecar w => Up r w ∧
    (needsRebuild r.schemaVersion sidecar = true → ¬ w.Recorded)) steady_up ?_ hs fun w c hw hp => ⟨hw, hp, ?_⟩)
    fun sidecar t _ ht => ?_
  · exact fun sidecar s t h hi => ⟨steady_up _ _ h.1 hi, fun hx => steady_stale _ _ (h.2 hx) hi⟩
  · intro hx hc
    have hc : readVersion w.sidecar = some r.schemaVersion := hp.1 ▸ hc
    simp [needsRebuild, indexExec, hc] at hx
  split
  · rename_i hx
    apply SafeAct.seq indexContract_stable (clearIndex_rule ⟨ht.1, ht.2 hx⟩)
    intro _ u _ hu
    refine IndexStore.step_rule .resetAllIndexed id (fun _ w => Queued r w) steady_up steady_up
      (fun _ => steady_queued) hu
      (fun w c hw hp => ?_) (fun _ _ h => h) fun _ v hv hq => ?_
    · obtain ⟨hrel, docs, hd⟩ := hp
      exact .fallible ⟨hw, hrel, docs, hd⟩
        ⟨hw.of_unmarked hd rfl rfl rfl unmarked_reset, ⟨⟨hrel, docs, hd⟩, unmarked_reset⟩, hrel, docs, hd⟩
    · apply SafeAct.seq indexContract_stable (SafeAct.attempt indexContract_stable (writeVersion_rule hq))
      intro x y _ hx
      cases x with
      | ok _ => exact SafeAct.pure fun _ _ hi => steady_up _ _ (hx.1 _ rfl) hi
      | error _ => exact SafeAct.throw fun _ _ hi => steady_up _ _ (hx.2 _ rfl) hi
  · exact SafeAct.pure fun _ _ hi => steady_up _ _ ht.1 hi

private theorem startup_rule {r : Release} {dir : String} (hs : Down r s) :
    SafeAct (indexContract extractBody) (fun _ _ => True) (fun _ _ => True) (startup dir r) s := by
  apply SafeAct.seq indexContract_stable (openOrCreate_rule hs)
  intro _ t _ ht
  refine SafeAct.seq indexContract_stable (SafeAct.attempt indexContract_stable (reconcileOnStartup_rule ht))
    fun x u _ hx => ?_
  have hup : Up r u := by
    cases x with
    | ok _ => exact hx.1 _ rfl
    | error _ => exact hx.2 _ rfl
  exact IndexStore.perform_rule .serve (fun _ _ => True) steady_up (fun _ => steady_true) hup fun w c hw hp =>
    ⟨⟨⟨⟨hw.distinct, hw.complete⟩, hw.kept, hw.opens⟩, fun docs hd => ⟨(hw.staged docs hd).distinct,
      (hw.staged docs hd).opened, (hw.staged docs hd).agree⟩, fun _ => hp.2⟩, trivial⟩

section Drain
variable {tantivy : Tantivy}

/-- The process has the index open and the rows of `ids` wait. -/
def Draining (ids : List MessageId) (w : IndexWorld) : Prop :=
  (∃ docs, w.writer = some docs) ∧ Unmarked (· ∈ ids) w

theorem steady_draining {ids : List MessageId} : Steady (Draining ids) := by
  refine Steady.and ?_ steady_unmarked
  exact .of_same fun s t _ _ hw _ _ h => hw ▸ h

/-- The documents of the batch belong to its messages, and each message that could be read has one. -/
structure Fetched (extractBody : Bytes → Option String) (batch : List MessageId × List (MessageId × Document))
    (w : IndexWorld) : Prop where
  owner : ∀ p ∈ batch.2, p.2.messageId = p.1 ∧ p.1 ∈ batch.1
  document : ∀ id ∈ batch.1, w.Readable extractBody id → id ∈ batch.2.map Prod.fst

theorem Fetched.congr {batch : List MessageId × List (MessageId × Document)} {w w' : IndexWorld}
    (h : Fetched extractBody batch w) (hf : w'.fetched = w.fetched) : Fetched extractBody batch w' where
  owner := h.owner
  document := by
    rintro id hid ⟨raw, body, h1, h2⟩
    exact h.document id hid ⟨raw, body, hf ▸ h1, h2⟩

private theorem steady_fetched {batch : List MessageId × List (MessageId × Document)} :
    Steady (Fetched extractBody batch) :=
  .of_same fun _ _ _ _ _ _ hf h => h.congr hf

private theorem listUnindexed_rows {w : IndexWorld} {limit : Nat} {m : Message} (h : m ∈ w.listUnindexed limit) :
    m ∈ w.messages ∧ m.indexed = false := by
  simpa [Keyed.Table.mem_def] using Ranked.mem_sortDesc.mp (List.mem_of_mem_take h)

private theorem listUnindexed_nodup {w : IndexWorld} {limit : Nat} :
    ((w.listUnindexed limit).map Message.id).Nodup := by
  have hrows : ((w.messages.rows.filter fun m => !m.indexed).map Message.id).Nodup :=
    w.messages.nodup.sublist (List.filter_sublist.map _)
  exact ((((List.perm_insertionSort _ _).map _).nodup_iff).mpr hrows).sublist ((List.take_sublist _ _).map _)

/-- What one message adds to the batch, given the last read of its blob. -/
structure Taken (extractBody : Bytes → Option String) (msg : Message) (reply : Except Error Bytes)
    (docs : List (MessageId × Document)) : Prop where
  owner : ∀ p ∈ docs, p.2.messageId = p.1 ∧ p.1 = msg.id
  document : ∀ raw body, reply = .ok raw → extractBody raw = some body → msg.id ∈ docs.map Prod.fst

theorem Fetched.cons {msg : Message} {reply : Except Error Bytes} {docs : List (MessageId × Document)}
    {rest : List MessageId × List (MessageId × Document)} {w : IndexWorld} (h : Fetched extractBody rest w)
    (ht : Taken extractBody msg reply docs) (hf : w.fetched msg.id = some reply) :
    Fetched extractBody (msg.id :: rest.1, docs ++ rest.2) w where
  owner := by
    intro p hp
    rcases List.mem_append.mp hp with hd | hr
    · obtain ⟨h1, h2⟩ := ht.owner p hd
      exact ⟨h1, h2 ▸ List.mem_cons_self ..⟩
    · obtain ⟨h1, h2⟩ := h.owner p hr
      exact ⟨h1, List.mem_cons_of_mem _ h2⟩
  document := by
    intro id hid hr
    rw [List.map_append, List.mem_append]
    rcases List.mem_cons.mp hid with rfl | hid
    · obtain ⟨raw, body, h1, h2⟩ := hr
      exact .inl (ht.document raw body (Option.some.inj (hf.symm.trans h1)) h2)
    · exact .inr (h.document id hid hr)

private theorem fetchBatch_rule (all : List MessageId) (msgs : List Message) (s : IndexWorld)
    (hmem : ∀ m ∈ msgs, m.id ∈ all) (hnd : (msgs.map Message.id).Nodup) (hs : Draining all s) :
    SafeAct (indexContract extractBody) (fun batch w => batch.1 = msgs.map Message.id ∧ Draining all w ∧
        Fetched extractBody batch w ∧ ∀ id, id ∉ msgs.map Message.id → w.fetched id = s.fetched id)
      (fun _ _ => True) (fetchBatch tantivy extractBody msgs) s := by
  have steady : ∀ (s : IndexWorld) (msgs : List Message) (batch : List MessageId × List (MessageId × Document)),
      Steady fun w => batch.1 = msgs.map Message.id ∧ Draining all w ∧ Fetched extractBody batch w ∧
        ∀ id, id ∉ msgs.map Message.id → w.fetched id = s.fetched id := by
    intro s msgs batch t u h hi
    exact ⟨h.1, steady_draining _ _ h.2.1 hi, steady_fetched _ _ h.2.2.1 hi,
      fun id hid => hi.same.2.2.2.2.2.1 ▸ h.2.2.2 id hid⟩
  induction msgs generalizing s with
  | nil =>
    refine SafeAct.pure fun _ _ hi => steady s [] ([], []) _ _
      ⟨rfl, hs, ⟨fun _ h => (by cases h), fun _ h => (by cases h)⟩,
      fun _ _ => rfl⟩ hi
  | cons msg msgs ih =>
    obtain ⟨hnot, hnd⟩ := List.nodup_cons.mp hnd
    have hfetch : Steady fun t : IndexWorld => Draining all t ∧ t.fetched = s.fetched := by
      refine steady_draining.and (.of_same fun s t _ _ _ _ hf h => hf.trans h)
    refine SafeAct.seq indexContract_stable (IndexStore.perform_rule (.getRaw msg) (fun reply t => Draining all t ∧
      t.fetched = Function.update s.fetched msg.id (some reply)) hfetch ?_ ⟨hs, rfl⟩ fun w c hw hp => ⟨?_, ?_, ?_⟩)
      fun reply t ht hreply => ?_
    · exact fun reply => steady_draining.and (.of_same fun s t _ _ _ _ hf h => hf.trans h)
    · exact hw.fetch (fun m hm hid => hp.1.2 m hm (hid ▸ hmem msg (List.mem_cons_self ..))) _
    · exact hp.1
    · exact congrArg (fun f => Function.update f msg.id _) hp.2
    · have next : ∀ docs, Taken extractBody msg reply docs → SafeAct (indexContract extractBody)
          (fun batch w => batch.1 = (msg :: msgs).map Message.id ∧ Draining all w ∧ Fetched extractBody batch w ∧
            ∀ id, id ∉ (msg :: msgs).map Message.id → w.fetched id = s.fetched id) (fun _ _ => True)
          (fetchBatch tantivy extractBody msgs >>= fun rest => pure (msg.id :: rest.1, docs ++ rest.2)) t := by
        intro docs hdocs
        refine SafeAct.seq indexContract_stable (ih t (fun m hm => hmem m (List.mem_cons_of_mem _ hm)) hnd hreply.1)
          fun rest u _ hrest => ?_
        obtain ⟨hids, hdrain, hfetched, hkeep⟩ := hrest
        have hmsg : u.fetched msg.id = some reply := by rw [hkeep _ hnot, hreply.2, Function.update_self]
        refine SafeAct.pure fun _ v hi => steady s (msg :: msgs) _ _ _
          ⟨?_, hdrain, hfetched.cons hdocs hmsg, fun id hid => ?_⟩ hi
        · rw [List.map_cons, hids]
        · rw [List.map_cons, List.mem_cons, not_or] at hid
          rw [hkeep id hid.2, hreply.2, Function.update_of_ne hid.1]
      cases reply with
      | ok raw =>
        cases hb : extractBody raw with
        | some body =>
          simp only [hb]
          refine next [(msg.id, toDocument tantivy msg body)] ⟨?_, fun _ _ _ _ => by simp⟩
          intro p hp
          obtain rfl := List.mem_singleton.mp hp
          exact ⟨rfl, rfl⟩
        | none =>
          simp only [hb]
          refine next [] ⟨fun _ h => (by cases h), ?_⟩
          rintro _ body ⟨⟩ h
          rw [hb] at h
          cases h
      | error e =>
        cases e
        case blobNotFound => exact next [] ⟨fun _ h => (by cases h), fun _ _ h => by cases h⟩
        all_goals exact SafeAct.throw fun _ _ _ => trivial

/-- The writer has one document for each message of `done`. -/
def Adding (extractBody : Bytes → Option String) (batch : List MessageId × List (MessageId × Document))
    (done : List MessageId) (w : IndexWorld) : Prop :=
  (∃ docs, w.writer = some docs ∧ ∀ id ∈ done, copies id docs = 1) ∧ Unmarked (· ∈ batch.1) w ∧
    Fetched extractBody batch w

theorem steady_adding {batch : List MessageId × List (MessageId × Document)} {done : List MessageId} :
    Steady (Adding extractBody batch done) := by
  refine Steady.and ?_ (steady_unmarked.and steady_fetched)
  exact .of_same fun s t _ _ hw _ _ h => hw ▸ h

/-- A document is deleted and then added, so its message has one, and each other as many as before. -/
private theorem addAll_rule (batch : List MessageId × List (MessageId × Document)) (docs : List (MessageId × Document))
    (done : List MessageId) (s : IndexWorld) (hsub : ∀ p ∈ docs, p ∈ batch.2)
    (hs : Adding extractBody batch done s) :
    SafeAct (indexContract extractBody) (fun _ w => Adding extractBody batch (docs.map Prod.fst ++ done) w)
      (fun _ _ => True) (addAll docs) s := by
  induction docs generalizing done s with
  | nil => exact SafeAct.pure fun _ _ hi => steady_adding _ _ hs hi
  | cons p docs ih =>
    obtain ⟨messageId, doc⟩ := p
    have hdeleted : Steady fun w => (∃ staged, w.writer = some staged ∧ copies messageId staged = 0 ∧
        ∀ i ∈ done, i ≠ messageId → copies i staged = 1) ∧ Unmarked (· ∈ batch.1) w ∧
          Fetched extractBody batch w := by
      refine Steady.and ?_ (steady_unmarked.and steady_fetched)
      exact .of_same fun s t _ _ hw _ _ h => hw ▸ h
    refine SafeAct.seq indexContract_stable
      (IndexStore.perform_rule (.deleteTerm messageId) (fun _ w => (∃ staged, w.writer = some staged ∧
      copies messageId staged = 0 ∧ ∀ i ∈ done, i ≠ messageId → copies i staged = 1) ∧ Unmarked (· ∈ batch.1) w ∧
        Fetched extractBody batch w) steady_adding (fun _ => hdeleted) hs fun w _ hw hp => ?_) fun _ t _ ht => ?_
    · obtain ⟨⟨staged, hd, hone⟩, hu, hf⟩ := hp
      obtain ⟨hid, hbatch⟩ := hf.owner _ (hsub _ (List.mem_cons_self ..))
      have hwriter : w.writer.map (fun docs => docs.filter fun d => d.messageId ≠ messageId) =
          some (staged.filter fun d => d.messageId ≠ messageId) := by rw [hd]; rfl
      simp only [indexExec, hwriter]
      refine ⟨hw.stage hd ((hw.staged staged hd).distinct.filter _) fun m hm hx => copies_delete_other ?_ _,
        ⟨_, rfl, copies_delete_self messageId staged,
          fun i hi hne => (copies_delete_other hne staged).trans (hone i hi)⟩, hu, hf.congr rfl⟩
      rintro rfl
      rw [hu m hm hbatch] at hx
      cases hx
    · refine IndexStore.step_rule (.addDocument doc) id
        (fun _ w => Adding extractBody batch (messageId :: done) w) hdeleted
        steady_true (fun _ => steady_adding) ht (fun w c hw hp => ?_) (fun _ _ _ => trivial) fun _ u _ hu => ?_
      · obtain ⟨⟨staged, hd, h0, hone⟩, hu, hf⟩ := hp
        obtain ⟨hid, hbatch⟩ := hf.owner _ (hsub _ (List.mem_cons_self ..))
        have hid : doc.messageId = messageId := hid
        have hwriter : w.writer.map (fun docs => docs ++ [doc]) = some (staged ++ [doc]) := by rw [hd]; rfl
        change Outcome extractBody _ _ (fallible _ () w { w with writer := w.writer.map fun docs => docs ++ [doc] } c)
        rw [hwriter]
        have hconv : Converging extractBody { w with writer := some (staged ++ [doc]) } := by
          apply hw.stage hd ((hw.staged staged hd).distinct.add (hid.symm ▸ h0))
          intro m hm hx
          rw [copies_add, if_neg, Nat.add_zero]
          intro he
          rw [hu m hm (he ▸ hid.symm ▸ hbatch)] at hx
          cases hx
        refine .fallible ⟨hw, trivial⟩ ⟨hconv, ⟨⟨_, rfl, fun i hi => ?_⟩, hu, hf.congr rfl⟩, trivial⟩
        rw [copies_add, hid]
        by_cases he : i = messageId
        · rw [he, h0, if_pos rfl]
        · rw [if_neg (Ne.symm he), Nat.add_zero]
          exact hone i ((List.mem_cons.mp hi).resolve_left he) he
      · apply Safe.weaken (ih (messageId :: done) u (fun p hp => hsub p (List.mem_cons_of_mem _ hp)) hu)
        intro x v _ h
        cases x with
        | ok _ =>
          obtain ⟨⟨staged, hd, hone⟩, hrest⟩ := h
          refine ⟨⟨staged, hd, fun i hi => hone i ?_⟩, hrest⟩
          simpa [or_left_comm] using hi
        | error _ => trivial

/-- The index has the document of each message of the batch that could be read. -/
def Written (extractBody : Bytes → Option String) (ids : List MessageId) (w : IndexWorld) : Prop :=
  ∃ i, w.index = some i ∧ w.writer = some i.docs ∧ ∀ id ∈ ids, w.Readable extractBody id → copies id i.docs = 1

private theorem steady_written {ids : List MessageId} : Steady (Written extractBody ids) := by
  refine .of_same fun s t hi _ hw _ hf h => ?_
  obtain ⟨i, h1, h2, h3⟩ := h
  refine ⟨i, hi.trans h1, hw.trans h2, fun id hid hr => h3 id hid ?_⟩
  obtain ⟨raw, body, hr1, hr2⟩ := hr
  exact ⟨raw, body, hf ▸ hr1, hr2⟩

private theorem writeBatch_rule {batch : List MessageId × List (MessageId × Document)} (hd : Draining batch.1 s)
    (hf : Fetched extractBody batch s) :
    SafeAct (indexContract extractBody) (fun _ w => Written extractBody batch.1 w)
      (fun _ _ => True) (writeBatch batch.2) s := by
  obtain ⟨⟨docs, hw⟩, hu⟩ := hd
  have start : Adding extractBody batch [] s := ⟨⟨docs, hw, fun _ h => (by cases h)⟩, hu, hf⟩
  refine IndexStore.step_rule .lockWriter id (fun _ w => Adding extractBody batch [] w) steady_adding steady_true
    (fun _ => steady_adding) start (fun w c hw hp => .unchanged hw hp trivial)
      (fun _ _ _ => trivial) fun _ t _ ht => ?_
  apply SafeAct.seq indexContract_stable (addAll_rule batch batch.2 [] t (fun _ h => h) ht)
  intro _ u _ hu
  refine IndexStore.last_rule .commit id (fun _ w => Written extractBody batch.1 w) steady_adding steady_true
    (fun _ => steady_written) hu (fun w c hw hp => ?_) fun _ _ _ => trivial
  obtain ⟨⟨staged, hd, hone⟩, -, hf⟩ := hp
  obtain ⟨i, hi, -⟩ := (hw.staged staged hd).opened
  refine .fallible ⟨hw, trivial⟩ ⟨hw.commit hd, ⟨⟨i.schema, staged⟩, ?_, hd, fun id hid hr => hone id ?_⟩, trivial⟩
  · simp [IndexWorld.committed, hi, hd]
  · exact List.mem_append_left _ (hf.document id hid hr)

private theorem drainOnce_rule (hs : ∃ docs, s.writer = some docs) :
    SafeAct (indexContract extractBody) (fun _ _ => True) (fun _ _ => True) (drainOnce tantivy extractBody) s := by
  have hopen : Steady fun w => ∃ docs : List Document, w.writer = some docs :=
    .of_same fun _ _ _ _ hw _ _ h => hw ▸ h
  have hlisted : ∀ msgs : List Message, Steady fun w => Draining (msgs.map Message.id) w ∧
      (msgs.map Message.id).Nodup :=
    fun msgs => steady_draining.and fun _ _ h _ => h
  refine IndexStore.step_rule (.listUnindexed BATCH) id (fun msgs w => Draining (msgs.map Message.id) w ∧
    (msgs.map Message.id).Nodup) hopen steady_true hlisted hs (fun w c hw hp => ?_)
      (fun _ _ _ => trivial) fun msgs t _ ht => ?_
  · change Outcome extractBody _ _
      (fallible (fun e => Error.repositoryError (handleDberr e)) (w.listUnindexed BATCH) w w c)
    refine .unchanged hw ⟨⟨hp, fun m hm hid => ?_⟩, listUnindexed_nodup⟩ trivial
    obtain ⟨m', hm', he⟩ := List.mem_map.mp hid
    obtain ⟨h1, h2⟩ := listUnindexed_rows hm'
    rw [← Keyed.Table.eq_of_key h1 hm he]
    exact h2
  · split
    · exact SafeAct.pure fun _ _ _ => trivial
    · refine SafeAct.seq indexContract_stable (fetchBatch_rule (msgs.map Message.id) msgs t
        (fun m hm => List.mem_map_of_mem hm) ht.2 ht.1) fun batch u _ hb => ?_
      obtain ⟨hids, hdrain, hfetched, -⟩ := hb
      apply SafeAct.seq indexContract_stable (writeBatch_rule (hids ▸ hdrain) hfetched)
      intro _ v _ hwritten
      refine IndexStore.step_rule (.markIndexed batch.1) id (fun _ _ => True) steady_written steady_true
        (fun _ => steady_true) hwritten (fun w c hw hp => ?_) (fun _ _ _ => trivial)
        fun _ _ _ _ => SafeAct.pure fun _ _ _ => trivial
      obtain ⟨i, hi, hd, hone⟩ := hp
      change Outcome extractBody _ _ (fallible (fun e => Error.repositoryError (handleDberr e)) () w
        (w.setIndexed (fun m => batch.1.contains m.id) true) c)
      exact .fallible ⟨hw, trivial⟩ ⟨hw.mark batch.1 hd hi fun id hid => ⟨hone id hid, rfl⟩, trivial, trivial⟩

end Drain
end Programs

structure Recording (s t : IndexWorld) : Prop where
  row : ∃ (parsed : ParsedMessage) (id : MessageId) (accountId : AccountId),
    s.messages.insert (parsed.toRow id accountId) = some t.messages
  rest : t = { s with messages := t.messages, raw := t.raw }

/-- The process is gone, with what its writer had not committed, and `next` is installed. -/
def IndexWorld.crashed (s : IndexWorld) (next : Release) : IndexWorld :=
  { s with writer := none, serving := false, holdings := s.holdings.reopened, release := next }

/-- A process of another release follows only where the sidecar does not have its version, no row is marked, or the index
has its schema and has thrown nothing away while rows were marked. -/
def Handover (s : IndexWorld) (next : Release) : Prop :=
  next = s.release ∨ readVersion s.sidecar ≠ some next.schemaVersion ∨ Unmarked (fun _ => True) s ∨
    s.holdings ≠ .lost ∧ ∃ i, s.index = some i ∧ i.schema = next.schema

/-- A process starts with `startup`, and drains from then on; `may` says which release may follow a crash. -/
def indexing (tantivy : Tantivy) (extractBody : Bytes → Option String) (dir : String)
    (may : IndexWorld → Release → Prop) :
    System indexStore Unit Unit where
  allowed := fun _ _ _ => True
  root := fun w _ p =>
    w.writer = none ∧ p = ((startup dir w.release).run >>= fun _ => .ret ()) ∨
      w.serving = true ∧ p = ((drainOnce tantivy extractBody).run >>= fun _ => .ret ())
  env := Recording
  crash := fun s t => ∃ next, may s next ∧ t = s.crashed next

section Soundness
variable {extractBody : Bytes → Option String} {s t : IndexWorld}

theorem Recording.ingests (h : Recording s t) : Ingests s t where
  rest := h.rest
  rows := by
    obtain ⟨parsed, id, accountId, hi⟩ := h.row
    intro m hm
    rcases (Keyed.Table.mem_of_insert hi).mp hm with hs | rfl
    · exact .inl hs
    · exact .inr rfl

theorem Ingests.complete (hi : Ingests s t) (h : Complete extractBody s) : Complete extractBody t := by
  intro m hm hx hb
  rcases hi.rows m hm with hs | hf
  · obtain ⟨hidx, -, -, -, -, hfetched, -⟩ := hi.same
    obtain ⟨raw, body, hf, hbody⟩ := hb
    rw [hidx]
    exact h m hs hx ⟨raw, body, hfetched ▸ hf, hbody⟩
  · rw [hf] at hx
    cases hx

theorem Converging.ingests (h : Converging extractBody s) (hi : Ingests s t) : Converging extractBody t := by
  obtain ⟨h1, h2, h3, h4, h5, -, h7⟩ := hi.same
  have hrec : t.Recorded → s.Recorded := by
    rw [IndexWorld.Recorded, IndexWorld.Recorded, h2, h4]
    exact id
  refine ⟨⟨⟨fun i hidx => h.distinct i (h1 ▸ hidx), fun hr => hi.complete (h.complete (hrec hr))⟩,
    fun whole => hi.complete (h.kept (h7 ▸ whole)), fun hr => ?_⟩, fun docs hd => ?_, fun hs => ?_⟩
  · rw [h1, h4]
    exact (h.opens (hrec hr)).imp_left hi.unmarked
  · obtain ⟨hdistinct, hopened, hagree⟩ := h.staged docs (h3 ▸ hd)
    refine ⟨hdistinct, by rwa [h1, h4], fun sure i hidx m hm hx => ?_⟩
    rcases hi.rows m hm with hs | hf
    · exact hagree (sure.imp hrec fun all => h7 ▸ all) i (h1 ▸ hidx) m hs hx
    · rw [hf] at hx
      cases hx
  · rw [h3]
    exact h.serving (h5 ▸ hs)

private theorem Consistent.at_rest (h : Consistent extractBody s) (hw : s.writer = none) (hs : s.serving = false) :
    Converging extractBody s where
  toConsistent := h
  staged := fun docs hd => by rw [hw] at hd; cases hd
  serving := fun h => by rw [hs] at h; cases h

/-- Where another release follows, what it needs of the index is what the handover asks. -/
theorem Consistent.crashed (h : Consistent extractBody s) {next : Release} (may : Handover s next) :
    Converging extractBody (s.crashed next) := by
  have kept : s.holdings.reopened ≠ .lost → Complete extractBody s :=
    fun whole => h.kept fun lost => whole (by rw [lost]; rfl)
  have opens : readVersion s.sidecar = some next.schemaVersion → Complete extractBody s ∧
      (Unmarked (fun _ => True) s ∨ ∃ i, s.index = some i ∧ i.schema = next.schema) := by
    intro hr
    rcases may with rfl | stale | unmarked | ⟨whole, opened⟩
    · exact ⟨h.complete hr, h.opens hr⟩
    · exact absurd hr stale
    · exact ⟨unmarked.complete, .inl unmarked⟩
    · exact ⟨h.kept whole, .inr opened⟩
  exact Consistent.at_rest ⟨⟨h.distinct, fun hr => (opens hr).1⟩, kept, fun hr => (opens hr).2⟩ rfl rfl

private theorem indexing_sound (tantivy : Tantivy) (extractBody : Bytes → Option String) (dir : String) :
    (indexing tantivy extractBody dir Handover).Sound (fun _ => indexContract extractBody) (fun _ _ _ => True)
      (Converging extractBody) where
  stable := fun _ => indexContract_stable
  valid_iff := fun _ _ => Iff.rfl
  allows := fun _ _ _ _ _ => trivial
  agree := fun i j h => absurd (Subsingleton.elim i j) h
  env := fun _ _ hv he => ⟨hv.ingests he.ingests, fun _ => he.ingests⟩
  crash := by
    rintro _ _ hv ⟨next, may, rfl⟩
    exact hv.toConsistent.crashed may
  root := by
    rintro w _ p hv (⟨hw, rfl⟩ | ⟨hs, rfl⟩)
    · exact Safe.bind indexContract_stable (Safe.weaken (startup_rule ⟨rfl, hw⟩) fun _ _ _ _ _ _ _ => trivial)
    · exact Safe.bind indexContract_stable (Safe.weaken (drainOnce_rule (hv.serving hs)) fun _ _ _ _ _ _ _ => trivial)

end Soundness

/-- From any consistent state at rest, in every order of recordings, startups, drains and crashes whose handovers from one
release to another are as above: no message ever has two documents, and where the sidecar has the installed version each
marked row whose blob could be read and parsed has exactly one. -/
theorem index_converges {tantivy : Tantivy} {extractBody : Bytes → Option String} {dir : String} {w : IndexWorld}
    {c : Config indexStore Unit Unit} (rest : w.writer = none ∧ w.serving = false)
    (start : Consistent extractBody w)
    (run : (indexing tantivy extractBody dir Handover).Reaches (.idle w) c) : Convergent extractBody c.state :=
  ((indexing_sound tantivy extractBody dir).reaches (.idle (start.at_rest rest.1 rest.2)) run).1.toConvergent

def emptyIndexWorld : IndexWorld where
  messages := .empty
  raw := fun _ _ => none
  index := none
  sidecar := none
  writer := none
  release := currentRelease
  serving := false
  fetched := fun _ => none
  holdings := .all

/-- No step fails. -/
def smooth : (o : IndexOp) → o.Choice
  | .openIndex => true
  | .readDir => .ok []
  | .readSidecar | .deleteTerm _ | .serve => ()
  | .writeSidecar _ | .getRaw _ => none
  | .resetAllIndexed | .listUnindexed _ | .markIndexed _ => none
  | .createDirAll | .removeEntry _ | .openOrCreate _ | .truncateSidecar | .lockWriter | .deleteAllDocuments
  | .addDocument _ | .commit => none

def plainTantivy : Tantivy := ⟨fun _ => [], id⟩

def plainText : Bytes → Option String := fun _ => some ""

def newMail : ParsedMessage where
  rfc822MessageId := ""
  contentHash := ⟨Vector.replicate 32 1⟩
  subject := none
  fromAddress := "you@example.org"
  fromName := none
  toAddresses := []
  ccAddresses := []
  bccAddresses := []
  replyToAddresses := []
  sentDate := none
  inReplyTo := none
  references := []
  snippet := ""
  sizeBytes := 1
  attachments := []

theorem newMail_ids : ([newMail.toRow 10 1].map Message.id).Nodup := List.nodup_singleton _

def withNewMail (w : IndexWorld) : IndexWorld :=
  { w with messages := ⟨[newMail.toRow 10 1], newMail_ids⟩, raw := fun _ _ => some [1] }

/-- A release with the same schema that extracts the body in another way. -/
def nextRelease : Release := ⟨2, buildSchema⟩

section Scenario
variable {ε α : Type} {may : IndexWorld → Release → Prop} {c d : Config indexStore Unit Unit}

/-- The process goes on with `p` for `n` operations. -/
def performed (p : IndexAction ε α) (n : Nat) (c : Config indexStore Unit Unit) : Config indexStore Unit Unit :=
  (List.replicate n ()).foldl (fun c i => c.advance smooth i) (c.set c.state () (p.run >>= fun _ => .ret ()))

private theorem reaches_performed {p : IndexAction ε α} (n : Nat) (free : ¬ d.Busy ())
    (root : (indexing plainTantivy plainText "index" may).root d.state () (p.run >>= fun _ => .ret ()))
    (h : (indexing plainTantivy plainText "index" may).Reaches c d) :
    (indexing plainTantivy plainText "index" may).Reaches c (performed p n d) :=
  (h.tail (.start () _ free root)).trans (System.reaches_schedule (fun _ _ _ => trivial) _ (List.replicate n ()))

private theorem free_of_return (h : c.threads () = some (.ret ())) : ¬ c.Busy () := by
  rintro ⟨_, _, busy⟩
  cases h.symm.trans busy

private theorem free_of_idle {s : IndexWorld} : ¬ (Config.idle s : Config indexStore Unit Unit).Busy () := by
  rintro ⟨_, _, busy⟩
  cases busy

def firstStart : Config indexStore Unit Unit :=
  performed (startup "index" currentRelease) 11 (Config.idle emptyIndexWorld)

/-- A message arrives, and `n` operations of a drain follow. -/
def firstDrain (n : Nat) : Config indexStore Unit Unit :=
  performed (drainOnce plainTantivy plainText) n ⟨withNewMail firstStart.state, firstStart.threads⟩

private theorem firstDrain_reached (n : Nat) :
    (indexing plainTantivy plainText "index" may).Reaches (.idle emptyIndexWorld) (firstDrain n) := by
  have started : (indexing plainTantivy plainText "index" may).Reaches (.idle emptyIndexWorld) firstStart :=
    reaches_performed 11 free_of_idle (.inl ⟨rfl, rfl⟩) .refl
  have recorded : Recording firstStart.state (withNewMail firstStart.state) := ⟨⟨newMail, 10, 1, rfl⟩, rfl⟩
  have returned : firstStart.threads () = some (.ret ()) := rfl
  have serving : firstStart.state.serving = true := rfl
  exact reaches_performed n (free_of_return returned) (.inr ⟨serving, rfl⟩) (started.tail (.outside _ recorded))

/-- The process dies after `n` operations of the drain, and the next release starts. -/
def upgrading (n k : Nat) : Config indexStore Unit Unit :=
  performed (startup "index" nextRelease) k (Config.idle ((firstDrain n).state.crashed nextRelease))

private theorem upgrading_reached (n k : Nat) (h : may (firstDrain n).state nextRelease) :
    (indexing plainTantivy plainText "index" may).Reaches (.idle emptyIndexWorld) (upgrading n k) :=
  reaches_performed k free_of_idle (.inl ⟨rfl, rfl⟩) ((firstDrain_reached n).tail (.crash _ ⟨_, h, rfl⟩))

/-- The batch is committed when the process dies, but not marked; the next release indexes the message again. -/
def upgraded : Config indexStore Unit Unit := performed (drainOnce plainTantivy plainText) 7 (upgrading 6 11)

private theorem emptyIndexWorld_consistent : Consistent plainText emptyIndexWorld where
  distinct := fun _ h => by cases h
  complete := fun h => by cases h
  kept := fun _ _ hm => by cases hm
  opens := fun h => by cases h

theorem index_converges_upgraded : Convergent plainText upgraded.state := by
  have stale : Handover (firstDrain 6).state nextRelease := .inr (.inl (by decide +kernel))
  exact index_converges ⟨rfl, rfl⟩ emptyIndexWorld_consistent
    (reaches_performed 7 (free_of_return rfl) (.inr ⟨rfl, rfl⟩) (upgrading_reached 6 11 stale))

example : readVersion upgraded.state.sidecar = some 2 ∧
    upgraded.state.index.map (fun i => copies 10 i.docs) = some 1 := by decide +kernel

/-- The next release dies when it has cleared the index, and the earlier one starts again. -/
def revived : Config indexStore Unit Unit :=
  performed (startup "index" currentRelease) 5 (Config.idle ((upgrading 7 7).state.crashed currentRelease))

/-- The earlier release takes the emptied index for complete, also where different schemas have different versions. -/
theorem index_emptied_by_upgrade : ¬ ∀ (schemaOf : U32 → IndexSchema) (tantivy : Tantivy)
    (extractBody : Bytes → Option String)
    (dir : String) (w : IndexWorld) (c : Config indexStore Unit Unit),
    w.writer = none ∧ w.serving = false → w.release.schema = schemaOf w.release.schemaVersion →
    Consistent extractBody w →
    (indexing tantivy extractBody dir fun _ next => next.schema = schemaOf next.schemaVersion).Reaches (.idle w) c →
    Convergent extractBody c.state := by
  intro h
  have reached : (indexing plainTantivy plainText "index" fun _ next => next.schema = buildSchema).Reaches
      (.idle emptyIndexWorld) revived :=
    reaches_performed 5 free_of_idle (.inl ⟨rfl, rfl⟩) ((upgrading_reached 7 7 rfl).tail (.crash _ ⟨_, rfl, rfl⟩))
  have converged := h (fun _ => buildSchema) plainTantivy plainText "index" _ _
    ⟨rfl, rfl⟩ rfl emptyIndexWorld_consistent reached
  have recorded : readVersion revived.state.sidecar = some currentRelease.schemaVersion := by decide +kernel
  have marked : (newMail.toRow 10 1).withIndexed true ∈ revived.state.messages := by
    rw [Keyed.Table.mem_def]
    exact List.mem_singleton.mpr rfl
  obtain ⟨i, hi, hone⟩ := converged.complete recorded _ marked rfl ⟨[1], "", rfl, rfl⟩
  have empty : revived.state.index = some ⟨buildSchema, []⟩ := rfl
  cases empty.symm.trans hi
  cases hone

end Scenario

end MailKeep
