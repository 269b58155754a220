import MailKeep.Search.Indexer

/-! The index converges to the message rows: over every order of ingests, drains, restarts and crashes. -/
namespace MailKeep
open Program IndexStore

def copies (id : MessageId) (docs : List Document) : Nat := docs.countP fun d => d.messageId = id

def Distinct (docs : List Document) : Prop := (docs.map Document.messageId).Nodup

namespace IndexWorld

/-- The sidecar has the version of the release that is installed. -/
def Recorded (w : IndexWorld) : Prop := readVersion w.sidecar = some w.release.schemaVersion

/-- The last read of the blob of the message gave bytes that parse. -/
def Readable (extractBody : Bytes → Option String) (w : IndexWorld) (id : MessageId) : Prop :=
  ∃ raw body, w.fetched id = some (.ok raw) ∧ extractBody raw = some body

end IndexWorld

def Unmarked (ids : MessageId → Prop) (w : IndexWorld) : Prop := ∀ m ∈ w.messages, ids m.id → m.indexed = false

/-- Every marked row whose blob could be read and parsed has one document. -/
def Complete (extractBody : Bytes → Option String) (w : IndexWorld) : Prop :=
  ∀ m ∈ w.messages, m.indexed = true → w.Readable extractBody m.id → ∃ i, w.index = some i ∧ copies m.id i.docs = 1

/-- No message has two documents, and where the sidecar has the installed version every marked row whose blob could be
read and parsed has one. -/
structure Convergent (extractBody : Bytes → Option String) (w : IndexWorld) : Prop where
  distinct : ∀ i, w.index = some i → Distinct i.docs
  complete : w.Recorded → Complete extractBody w

/-- Between two processes the index is complete too if nothing was thrown away, and while rows are marked the sidecar has
the installed version only of an index with the installed schema. -/
structure Consistent (extractBody : Bytes → Option String) (w : IndexWorld) : Prop
    extends Convergent extractBody w where
  kept : w.holdings ≠ .lost → Complete extractBody w
  opens : w.Recorded → Unmarked (fun _ => True) w ∨ ∃ i, w.index = some i ∧ i.schema = w.release.schema

/-- The writer's documents are distinct too, and agree with the index on the marked rows, unless it is to be rebuilt. -/
structure Staged (w : IndexWorld) (staged : List Document) : Prop where
  distinct : Distinct staged
  opened : ∃ i, w.index = some i ∧ i.schema = w.release.schema
  agree : w.Recorded ∨ w.holdings = .all → ∀ i, w.index = some i →
    ∀ m ∈ w.messages, m.indexed = true → copies m.id staged = copies m.id i.docs

structure Converging (extractBody : Bytes → Option String) (w : IndexWorld) :
    Prop extends Consistent extractBody w where
  staged : ∀ docs, w.writer = some docs → Staged w docs
  serving : w.serving = true → ∃ docs, w.writer = some docs

theorem copies_delete_self (id : MessageId) (docs : List Document) :
    copies id (docs.filter fun d => d.messageId ≠ id) = 0 := by
  simp [copies, List.countP_filter]

theorem copies_delete_other {id id' : MessageId} (h : id' ≠ id) (docs : List Document) :
    copies id' (docs.filter fun d => d.messageId ≠ id) = copies id' docs := by
  rw [copies, copies, List.countP_filter]
  apply List.countP_congr
  intro d _
  by_cases hd : d.messageId = id'
  · simp [hd, h]
  · simp [hd]

theorem copies_add (id : MessageId) (docs : List Document) (doc : Document) :
    copies id (docs ++ [doc]) = copies id docs + if doc.messageId = id then 1 else 0 := by
  simp [copies, List.countP_append, List.countP_cons]

theorem Distinct.filter {docs : List Document} (h : Distinct docs) (p : Document → Bool) :
    Distinct (docs.filter p) :=
  h.sublist (docs.filter_sublist.map _)

theorem Distinct.add {docs : List Document} (h : Distinct docs) {doc : Document}
    (hd : copies doc.messageId docs = 0) :
    Distinct (docs ++ [doc]) := by
  rw [copies, List.countP_eq_zero] at hd
  rw [Distinct, List.map_append, List.map_singleton, List.nodup_append]
  refine ⟨h, List.nodup_singleton _, ?_⟩
  rintro _ ha _ hb rfl
  obtain ⟨d, hdm, hid⟩ := List.mem_map.mp ha
  rw [List.mem_singleton] at hb
  exact hd d hdm (by simp [hid, hb])

section Steps
variable {extractBody : Bytes → Option String} {w : IndexWorld}

theorem Unmarked.complete (h : Unmarked (fun _ => True) w) : Complete extractBody w :=
  fun m hm hx => by rw [h m hm trivial] at hx; cases hx

/-- The sidecar has another version, or no row is marked. -/
def Rebuildable (w : IndexWorld) : Prop := w.Recorded → Unmarked (fun _ => True) w

private theorem IndexWorld.unmarked_of_discarded (h : w.discarded ≠ .lost) : Unmarked (fun _ => True) w := by
  intro m hm _
  by_contra hx
  refine h (if_pos (List.any_eq_true.mpr ⟨m, hm, ?_⟩))
  simpa using hx

private theorem IndexWorld.unmarked_of_dropped (h : w.dropped = .all) : Unmarked (fun _ => True) w := by
  intro m hm _
  by_contra hx
  rw [IndexWorld.dropped, if_pos (List.any_eq_true.mpr ⟨m, hm, by simpa using hx⟩)] at h
  cases held : w.holdings <;> (rw [held] at h; cases h)

/-- Nothing is asked of an index that has lost documents, while it can be rebuilt. -/
theorem Converging.discarded {w' : IndexWorld} (h : Converging extractBody w) (free : Rebuildable w')
    (rows : w'.messages = w.messages) (lost : w'.holdings = w.discarded)
    (distinct : ∀ i, w'.index = some i → Distinct i.docs) (hw : w.writer = none)
    (closed : w'.writer = none) (serving : w'.serving = w.serving) : Converging extractBody w' where
  distinct := distinct
  complete := fun hr => (free hr).complete
  kept := fun whole m hm hx => by
    have unmarked : Unmarked (fun _ => True) w := IndexWorld.unmarked_of_discarded (lost ▸ whole)
    rw [unmarked m (rows ▸ hm) trivial] at hx
    cases hx
  opens := fun hr => .inl (free hr)
  staged := fun docs hd => by cases closed.symm.trans hd
  serving := fun on => by
    obtain ⟨docs, hd⟩ := h.serving (serving ▸ on)
    cases hw.symm.trans hd

theorem Converging.remove (h : Converging extractBody w) (free : Rebuildable w) (hw : w.writer = none) (e : DirEntry) :
    Converging extractBody (w.remove e) ∧ Rebuildable (w.remove e) ∧ (w.remove e).writer = none ∧
      (w.remove e).release = w.release := by
  cases e with
  | metaFile => exact ⟨h.discarded free rfl rfl (fun _ hi => by cases hi) hw hw rfl, free, hw, rfl⟩
  | versionFile =>
    have stale : ¬ (w.remove .versionFile).Recorded := by rintro ⟨⟩
    refine ⟨⟨⟨⟨h.distinct, fun hc => absurd hc stale⟩, h.kept, fun hc => absurd hc stale⟩,
      fun docs hd => ?_, h.serving⟩, fun hc => absurd hc stale, hw, rfl⟩
    cases hw.symm.trans hd
  | segment holds =>
    refine ⟨h.discarded free rfl rfl (fun i hi => ?_) hw hw rfl, free, hw, rfl⟩
    obtain ⟨j, hj, rfl⟩ := Option.map_eq_some_iff.mp hi
    exact (h.distinct j hj).filter _
  | other => exact ⟨h, free, hw, rfl⟩

theorem Converging.create (h : Converging extractBody w) (hi : w.index = none) (hw : w.writer = none) :
    Converging extractBody { w with index := some ⟨w.release.schema, []⟩, holdings := w.discarded } ∧
      Converging extractBody
        { w with index := some ⟨w.release.schema, []⟩, writer := some [], holdings := w.discarded } := by
  have free : Rebuildable w := by
    intro hr
    rcases h.opens hr with unmarked | ⟨i, hi', -⟩
    · exact unmarked
    · cases hi.symm.trans hi'
  have empty : ∀ i, some (⟨w.release.schema, []⟩ : DiskIndex) = some i → Distinct i.docs := by
    rintro i ⟨⟩
    exact List.nodup_nil
  have created : Converging extractBody { w with index := some ⟨w.release.schema, []⟩, holdings := w.discarded } :=
    h.discarded free rfl rfl empty hw hw rfl
  refine ⟨created, ⟨⟨empty, created.complete⟩, created.kept, created.opens⟩, ?_, fun _ => ⟨[], rfl⟩⟩
  rintro docs ⟨⟩
  refine ⟨List.nodup_nil, ⟨_, rfl, rfl⟩, fun sure i _ m hm hx => ?_⟩
  have unmarked : Unmarked (fun _ => True) w :=
    sure.elim free fun all => IndexWorld.unmarked_of_discarded fun lost => by cases all.symm.trans lost
  rw [unmarked m hm trivial] at hx
  cases hx

theorem Converging.open (h : Converging extractBody w) {i : DiskIndex} (hi : w.index = some i)
    (hs : i.schema = w.release.schema) : Converging extractBody { w with writer := some i.docs } := by
  refine ⟨⟨⟨h.distinct, h.complete⟩, h.kept, h.opens⟩, ?_, fun _ => ⟨_, rfl⟩⟩
  rintro docs ⟨⟩
  exact ⟨h.distinct i hi, ⟨i, hi, hs⟩, fun _ j hj _ _ _ => by cases hi.symm.trans hj; rfl⟩

/-- The writer changes only what it has for messages that are not marked. -/
theorem Converging.stage (h : Converging extractBody w) {docs docs' : List Document} (hw : w.writer = some docs)
    (hd : Distinct docs') (hc : ∀ m ∈ w.messages, m.indexed = true → copies m.id docs' = copies m.id docs) :
    Converging extractBody { w with writer := some docs' } := by
  refine ⟨⟨⟨h.distinct, h.complete⟩, h.kept, h.opens⟩, ?_, fun _ => ⟨_, rfl⟩⟩
  rintro _ ⟨⟩
  have staged := h.staged docs hw
  exact ⟨hd, staged.opened, fun sure i hi m hm hx => (hc m hm hx).trans (staged.agree sure i hi m hm hx)⟩

/-- All documents are to go with the next commit, of an index that is to be rebuilt. -/
theorem Converging.deleteAll (h : Converging extractBody w) {docs : List Document} (hw : w.writer = some docs)
    (stale : ¬ w.Recorded) : Converging extractBody { w with writer := some [], holdings := w.dropped } where
  distinct := h.distinct
  complete := fun hr => absurd hr stale
  kept := fun whole => h.kept fun lost => whole (by simp [IndexWorld.dropped, lost, Holdings.drop])
  opens := fun hr => absurd hr stale
  staged := by
    rintro _ ⟨⟩
    refine ⟨List.nodup_nil, (h.staged docs hw).opened, fun sure i _ m hm hx => ?_⟩
    rw [IndexWorld.unmarked_of_dropped (sure.resolve_left stale) m hm trivial] at hx
    cases hx
  serving := fun _ => ⟨_, rfl⟩

theorem Converging.commit (h : Converging extractBody w) {docs : List Document} (hw : w.writer = some docs) :
    Converging extractBody w.committed := by
  have staged := h.staged docs hw
  obtain ⟨i, hi, hs⟩ := staged.opened
  have hindex : w.committed.index = some ⟨i.schema, docs⟩ := by simp [IndexWorld.committed, hi, hw]
  have whole (sure : w.Recorded ∨ w.holdings = .all) : Complete extractBody w.committed := by
    intro m hm hx hb
    have before : Complete extractBody w :=
      sure.elim h.complete fun all => h.kept fun lost => by cases all.symm.trans lost
    obtain ⟨j, hj, hone⟩ := before m hm hx hb
    exact ⟨_, hindex, (staged.agree sure j hj m hm hx).trans hone⟩
  refine ⟨⟨⟨fun j hj => ?_, fun hr => whole (.inl hr)⟩, fun kept => whole (.inr ?_), fun hr => ?_⟩,
    fun docs' hw' => ?_, h.serving⟩
  · rw [hindex] at hj
    cases hj
    exact staged.distinct
  · change w.holdings.commit ≠ .lost at kept
    cases held : w.holdings with
    | all => rfl
    | dropping => rw [held] at kept; exact absurd rfl kept
    | lost => rw [held] at kept; exact absurd rfl kept
  · exact (h.opens hr).imp_right fun _ => ⟨_, hindex, hs⟩
  · obtain rfl : docs = docs' := Option.some.inj (hw.symm.trans hw')
    exact ⟨staged.distinct, ⟨_, hindex, hs⟩, fun _ j hj _ _ _ => by cases hindex.symm.trans hj; rfl⟩

/-- Rows are marked whose messages the index is complete for. -/
theorem Converging.mark (h : Converging extractBody w) {docs : List Document} {i : DiskIndex} (ids : List MessageId)
    (hw : w.writer = some docs) (hi : w.index = some i)
    (hone : ∀ id ∈ ids, (w.Readable extractBody id → copies id i.docs = 1) ∧ copies id docs = copies id i.docs) :
    Converging extractBody (w.setIndexed (fun m => ids.contains m.id) true) := by
  have row : ∀ m ∈ (w.setIndexed (fun m => ids.contains m.id) true).messages, m.indexed = true →
      m.id ∈ ids ∨ ∃ m' ∈ w.messages, m'.id = m.id ∧ m'.indexed = true := by
    intro m hm hx
    obtain ⟨m', hm', rfl⟩ := IndexWorld.mem_setIndexed.mp hm
    by_cases hp : ids.contains m'.id = true
    · rw [if_pos hp]
      exact .inl (by simpa using hp)
    · rw [if_neg hp] at hx ⊢
      exact .inr ⟨m', hm', rfl, hx⟩
  have marked (before : Complete extractBody w) :
      Complete extractBody (w.setIndexed (fun m => ids.contains m.id) true) := by
    intro m hm hx hb
    rcases row m hm hx with hid | ⟨m', hm', hid, hx'⟩
    · exact ⟨i, hi, (hone m.id hid).1 hb⟩
    · exact hid ▸ before m' hm' hx' (hid ▸ hb)
  have opened := (h.staged docs hw).opened
  refine ⟨⟨⟨h.distinct, fun hr => marked (h.complete hr)⟩, fun kept => marked (h.kept kept), fun _ => .inr opened⟩,
    fun docs' hw' => ⟨(h.staged docs' hw').distinct, opened, fun sure j hj m hm hx => ?_⟩, h.serving⟩
  obtain rfl : docs = docs' := Option.some.inj (hw.symm.trans hw')
  rcases row m hm hx with hid | ⟨m', hm', hid, hx'⟩
  · cases hi.symm.trans hj
    exact (hone m.id hid).2
  · exact hid ▸ (h.staged docs hw).agree sure j hj m' hm' hx'

theorem unmarked_reset : Unmarked (fun _ => True) (w.setIndexed (fun _ => true) false) := by
  intro m hm _
  obtain ⟨m', -, rfl⟩ := IndexWorld.mem_setIndexed.mp hm
  rfl

/-- Where no row is marked, nothing but the schema and distinctness is asked of the index. -/
theorem Converging.of_unmarked {w' : IndexWorld} (h : Converging extractBody w) {docs : List Document}
    (hw : w.writer = some docs) (hindex : w'.index = w.index) (hwriter : w'.writer = w.writer)
    (hrel : w'.release = w.release) (hu : Unmarked (fun _ => True) w') : Converging extractBody w' := by
  obtain ⟨i, hi, hs⟩ := (h.staged docs hw).opened
  refine ⟨⟨⟨fun j hj => h.distinct j (hindex ▸ hj), fun _ => hu.complete⟩, fun _ => hu.complete, fun _ => .inl hu⟩,
    fun docs' hd => ⟨(h.staged docs' (hwriter ▸ hd)).distinct, ⟨i, hindex ▸ hi, hrel ▸ hs⟩, fun _ _ _ m hm hx => ?_⟩,
    fun _ => ⟨docs, hwriter.trans hw⟩⟩
  rw [hu m hm trivial] at hx
  cases hx

/-- What was fetched may change for messages that are not marked. -/
theorem Converging.fetch (h : Converging extractBody w) {id : MessageId} (hu : Unmarked (· = id) w)
    (reply : Except Error Bytes) :
    Converging extractBody { w with fetched := Function.update w.fetched id (some reply) } := by
  have same (before : Complete extractBody w) :
      Complete extractBody { w with fetched := Function.update w.fetched id (some reply) } := by
    intro m hm hx hb
    have hne : m.id ≠ id := fun he => by rw [hu m hm he] at hx; cases hx
    obtain ⟨raw, body, hf, hbody⟩ := hb
    exact before m hm hx ⟨raw, body, by simpa [Function.update_of_ne hne] using hf, hbody⟩
  exact ⟨⟨⟨h.distinct, fun hr => same (h.complete hr)⟩, fun kept => same (h.kept kept), h.opens⟩,
    fun docs hd => ⟨(h.staged docs hd).distinct, (h.staged docs hd).opened, (h.staged docs hd).agree⟩, h.serving⟩

end Steps
end MailKeep
