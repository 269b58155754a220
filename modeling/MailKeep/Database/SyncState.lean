import MailKeep.Database.Schema

/-! The writes of a sync pass: the folder's cursor, and dropping the folder's locations. -/
namespace MailKeep

def Folder.synced (f : Folder) (uidvalidity lastUid : U32) (syncedAt : DateTimeUtc) : Folder :=
  { f with
    version := f.version + 1
    uidvalidity := some uidvalidity
    lastUid := lastUid
    lastSyncedAt := some syncedAt }

@[simp] theorem Folder.synced_id (f : Folder) (uidvalidity lastUid : U32) (syncedAt : DateTimeUtc) :
    (f.synced uidvalidity lastUid syncedAt).id = f.id := rfl

def Database.setSyncState (db : Database) (folderId : FolderId) (uidvalidity lastUid : U32)
    (syncedAt : DateTimeUtc) : Database :=
  { db with
    folders := db.folders.update (·.id = folderId) (·.synced uidvalidity lastUid syncedAt)
      fun f => f.synced_id uidvalidity lastUid syncedAt }

def Database.dropLocations (db : Database) (folderId : FolderId) : Database :=
  { db with locations := db.locations.filter (·.folderId ≠ folderId) }

def FolderRepository.updateSyncState (folderId : FolderId) (uidvalidity lastUid : U32)
    (syncedAt : DateTimeUtc) : Transaction Unit := fun db =>
  if folderId = 0 then .error (.invalidId folderId)
  else match db.folders.find? folderId with
  | none => .error (.repositoryError .notFound)
  | some _ => .ok ((), db.setSyncState folderId uidvalidity lastUid syncedAt)

def MessageLocationRepository.deleteByFolderId (folderId : FolderId) : Transaction Nat := fun db =>
  if folderId = 0 then .error (.invalidId folderId)
  else .ok (db.locations.count (·.folderId = folderId), db.dropLocations folderId)

theorem FolderRepository.updateSyncState_ok {folderId : FolderId} {uidvalidity lastUid : U32}
    {syncedAt : DateTimeUtc} {db db' : Database}
    (h : updateSyncState folderId uidvalidity lastUid syncedAt db = .ok ((), db')) :
    (∃ f ∈ db.folders, f.id = folderId) ∧ db' = db.setSyncState folderId uidvalidity lastUid syncedAt := by
  unfold updateSyncState at h
  split at h
  · cases h
  · split at h
    · cases h
    · rename_i f hf
      cases h
      exact ⟨⟨f, Keyed.Table.find?_eq_some.mp hf⟩, rfl⟩

theorem MessageLocationRepository.deleteByFolderId_ok {folderId : FolderId} {n : Nat} {db db' : Database}
    (h : deleteByFolderId folderId db = .ok (n, db')) : db' = db.dropLocations folderId := by
  unfold deleteByFolderId at h
  split at h <;> cases h
  rfl

theorem Database.mem_setSyncState {db : Database} {folderId : FolderId} {uidvalidity lastUid : U32}
    {syncedAt : DateTimeUtc} {f : Folder} :
    f ∈ (db.setSyncState folderId uidvalidity lastUid syncedAt).folders ↔
      ∃ g ∈ db.folders, f = if g.id = folderId then g.synced uidvalidity lastUid syncedAt else g := by
  rw [setSyncState, Keyed.Table.mem_update]
  simp only [decide_eq_true_eq]

@[simp] theorem Database.mem_dropLocations {db : Database} {folderId : FolderId} {l : MessageLocation} :
    l ∈ (db.dropLocations folderId).locations ↔ l ∈ db.locations ∧ l.folderId ≠ folderId := by
  simp [dropLocations]

end MailKeep
