import MailKeep.Users.Sessions

/-! Whether the first administrator is made once: the request that makes him lists the users and adds
him in two transactions. -/
namespace MailKeep
open Program

/-- By the history since a listing that found nobody, somebody with this id is there. -/
def Present (id : UserId) : List SiteEvent → Prop
  | [] => False
  | .added _ u :: older => u.id = id ∨ Present id older
  | .gone g :: older => g ≠ id ∧ Present id older
  | .rewrote _ :: older | .loaded _ :: older => Present id older

def Vacant (since : List SiteEvent) : Prop := ∀ id, ¬ Present id since

def SiteEvent.bootstraps : SiteEvent → Bool
  | added (some (.registerAdmin _ _ _ _)) _ => true
  | _ => false

def Users.Has (users : Users) (id : UserId) : Prop := ∃ u ∈ users, u.id = id

section
variable {before after : Users} {since : List SiteEvent} {e : Option SiteEvent}

theorem Present.push (effect : SiteEvent.Effect before after e)
    (h : ∀ id, before.Has id ↔ Present id since) (id : UserId) :
    after.Has id ↔ Present id (e.toList ++ since) := by
  cases e with
  | none =>
    obtain rfl := effect
    exact h id
  | some e =>
    cases e with
    | loaded a =>
      obtain rfl := effect
      exact h id
    | added request u =>
      change after.Has id ↔ u.id = id ∨ Present id since
      rw [← h id]
      constructor
      · rintro ⟨v, hv, rfl⟩
        rcases (effect.2 v).mp hv with hv | rfl
        · exact .inr ⟨v, hv, rfl⟩
        · exact .inl rfl
      · rintro (rfl | ⟨v, hv, rfl⟩)
        · exact ⟨u, (effect.2 u).mpr (.inr rfl), rfl⟩
        · exact ⟨v, (effect.2 v).mpr (.inl hv), rfl⟩
    | rewrote u =>
      obtain ⟨v, hv, hid, hmem⟩ := effect
      change after.Has id ↔ Present id since
      rw [← h id]
      constructor
      · rintro ⟨w, hw, rfl⟩
        rcases (hmem w).mp hw with rfl | ⟨hw, -⟩
        · exact ⟨v, hv, hid.symm⟩
        · exact ⟨w, hw, rfl⟩
      · rintro ⟨w, hw, rfl⟩
        by_cases he : w.id = v.id
        · exact ⟨u, (hmem u).mpr (.inl rfl), hid.trans he.symm⟩
        · exact ⟨w, (hmem w).mpr (.inr ⟨hw, he⟩), rfl⟩
    | gone g =>
      obtain ⟨u, ⟨-, hmem⟩, rfl⟩ := effect
      change after.Has id ↔ u.id ≠ id ∧ Present id since
      rw [← h id]
      constructor
      · rintro ⟨w, hw, rfl⟩
        obtain ⟨hw, he⟩ := (hmem w).mp hw
        exact ⟨fun same => he same.symm, w, hw, rfl⟩
      · rintro ⟨other, w, hw, rfl⟩
        exact ⟨w, (hmem w).mpr ⟨hw, fun same => other same.symm⟩, rfl⟩

end

/-- A listing from the start that finds nobody has found an empty table. -/
private theorem UserRepository.listUsers_nobody {pageSize : Option Nat} {users users' : Users} {found : List User}
    (h : listUsers none pageSize users = .ok (found, users')) (nobody : found.isEmpty = true) :
      users.rows = [] := by
  have all : ∀ u : User, decide ((Option.none : Option UserId).getD 0 ≤ u.id) = true :=
    fun u => decide_eq_true (Nat.zero_le _)
  have sorted : found = [] → Ranked.sortDesc (fun u : User => OrderDual.toDual u.id) users.rows = [] := by
    rintro rfl
    unfold listUsers at h
    split at h
    · cases h
    · rename_i positive
      have listed := congrArg Prod.fst (Except.ok.inj h)
      dsimp only at listed
      rw [List.filter_eq_self.mpr fun u _ => all u] at listed
      cases pageSize with
      | none => exact listed
      | some n => exact (List.take_eq_nil_iff.mp listed).resolve_left fun zero => positive (zero ▸ rfl)
  rw [← List.length_eq_zero_iff, ← Ranked.length_sortDesc fun u : User => OrderDual.toDual u.id,
    sorted (List.isEmpty_iff.mp nobody), List.length_nil]

/-- What a transaction a request has checked for does to the rows: SuperAdmins stay, and nobody else becomes one
by an edit. -/
structure Careful (before after : Users) (e : Option SiteEvent) : Prop where
  rows : ∀ w ∈ after, (∃ request, e = some (.added request w) ∧ ∀ v ∈ before, v.id ≠ w.id) ∨
    ∃ v ∈ before, v.id = w.id ∧ (.superAdmin ∈ w.capabilities ↔ .superAdmin ∈ v.capabilities)
  supers : ∀ v ∈ before, .superAdmin ∈ v.capabilities → ∃ w ∈ after, .superAdmin ∈ w.capabilities
  ids : ∀ v ∈ before, after.Has v.id ∨ e = some (.gone v.id)

theorem Careful.refl (users : Users) {e : Option SiteEvent} : Careful users users e where
  rows w hw := .inr ⟨w, hw, rfl, Iff.rfl⟩
  supers v hv hs := ⟨v, hv, hs⟩
  ids v hv := .inl ⟨v, hv, rfl⟩

section
variable {before after : Users} {request : Option Request}

theorem Careful.added {u : User} (h : before.Adds after u) : Careful before after (some (.added request u)) where
  rows w hw := by
    rcases (h.2 w).mp hw with hw | rfl
    · exact .inr ⟨w, hw, rfl, Iff.rfl⟩
    · exact .inl ⟨request, rfl, h.1⟩
  supers v hv hs := ⟨v, (h.2 v).mpr (.inl hv), hs⟩
  ids v hv := .inl ⟨v, (h.2 v).mpr (.inl hv), rfl⟩

theorem Careful.rewrote {u v : User} (h : before.Rewrites after u v)
    (same : .superAdmin ∈ v.capabilities ↔ .superAdmin ∈ u.capabilities) :
      Careful before after (some (.rewrote v)) := by
  obtain ⟨hu, hid, hmem⟩ := h
  refine ⟨fun w hw => .inr ?_, fun w hw hs => ?_, fun w hw => .inl ?_⟩
  · rcases (hmem w).mp hw with rfl | ⟨hw, -⟩
    · exact ⟨u, hu, hid.symm, same⟩
    · exact ⟨w, hw, rfl, Iff.rfl⟩
  · by_cases he : w.id = u.id
    · obtain rfl := Users.eq_of_id hw hu he
      exact ⟨v, (hmem v).mpr (.inl rfl), same.mpr hs⟩
    · exact ⟨w, (hmem w).mpr (.inr ⟨hw, he⟩), hs⟩
  · by_cases he : w.id = u.id
    · exact ⟨v, (hmem v).mpr (.inl rfl), hid.trans he.symm⟩
    · exact ⟨w, (hmem w).mpr (.inr ⟨hw, he⟩), rfl⟩

theorem Careful.gone {u : User} (h : before.Removes after u) (plain : .superAdmin ∉ u.capabilities) :
    Careful before after (some (.gone u.id)) := by
  obtain ⟨hu, hmem⟩ := h
  refine ⟨fun w hw => .inr ⟨w, ((hmem w).mp hw).1, rfl, Iff.rfl⟩, fun w hw hs => ?_, fun w hw => ?_⟩
  · refine ⟨w, (hmem w).mpr ⟨hw, fun he => ?_⟩, hs⟩
    exact plain (Users.eq_of_id hw hu he ▸ hs)
  · by_cases he : w.id = u.id
    · exact .inr (by rw [he])
    · exact .inl ⟨w, (hmem w).mpr ⟨hw, he⟩, rfl⟩

end

/-- A transaction that is ready, where the row its thread has looked up is SuperAdmin's just if the row of now is. -/
theorem UserTxn.careful {cases : Unicode.CaseData} {d : UserDraw} {t : UserTxn} {r : t.Result}
    {before after : Users}
    {request : Request} {actor : Option AuthUser} {seen : Seen} (h : t.body cases d before = .ok (r, after))
    (ready : t.Ready request actor seen)
    (known : ∀ u, seen.read = some u → ∀ v ∈ before, v.id = u.id → (.superAdmin ∈ v.capabilities ↔ .superAdmin ∈ u.capabilities)) :
    Careful before after (t.event? (some request) r) := by
  rcases UserTxn.body_cases h with rfl | ⟨user, rfl⟩ | ⟨user, rfl⟩ | ⟨id, rfl⟩
  · exact .refl _
  · exact Careful.added (UserTxn.effect h (some request))
  · obtain ⟨u, hread, hid, -, same⟩ := ready.updates user rfl
    obtain ⟨v, hv, hid', -, rfl, hmem⟩ := UserRepository.updateUser_ok h
    obtain ⟨version, he⟩ := UserRepository.updated_eq d.swap v user
    have written : .superAdmin ∈ (UserRepository.updated d.swap v user).capabilities ↔
        .superAdmin ∈ user.capabilities := by
      rw [he]
      exact UserRepository.mem_serialize
    have rewrites : before.Rewrites after v (UserRepository.updated d.swap v user) :=
      ⟨hv, UserRepository.updated_id _ _ _, hid' ▸ hmem⟩
    exact Careful.rewrote rewrites (written.trans (same.trans (known u hread v hv (hid'.trans hid.symm)).symm))
  · obtain ⟨u, hread, hid, plain⟩ := ready.deletes id rfl
    obtain ⟨hr, hid', hmem⟩ := UserRepository.deleteUser_ok h
    refine Careful.gone ⟨hr, hid' ▸ hmem⟩ fun hs => plain ?_
    exact (known u hread r hr (hid'.trans hid.symm)).mp hs

/-- At most one first administrator, and he stays; what threads have seen of the users is still right about them. -/
structure Founded {ι : Type} (s : Frontend ι) (places : ι → Standing) : Prop where
  serving : ∀ i, s.serving i = (places i).serving
  listed : ∀ i, (places i).seen.nobody = true → ∀ id, s.users.Has id ↔ Present id (s.since i)
  found : ∀ i u, (places i).seen.read = some u → s.users.Has u.id ∨ .gone u.id ∈ s.log
  supers : ∀ i u, (places i).seen.read = some u → ∀ v ∈ s.users, v.id = u.id →
    (.superAdmin ∈ v.capabilities ↔ .superAdmin ∈ u.capabilities)
  once : (s.log.filter SiteEvent.bootstraps).length ≤ 1
  kept : (∃ e ∈ s.log, e.bootstraps = true) → ∃ v ∈ s.users, .superAdmin ∈ v.capabilities

/-- A token is new, and a register_admin request inserts only where whoever came since it looked is gone. -/
def Bootable {ι : Type} (s : Frontend ι) (i : ι) (token : UserId) : Prop :=
  .gone token ∉ s.log ∧ ∀ request, s.request i = some request → request.Bootstraps → Vacant (s.since i)

/-- What the reply to an operation makes of the page and of what its thread knows of it. -/
private theorem page_cases {platform : Platform} {cases : Unicode.CaseData} {s : Server} (o : UserOp) (c : o.Choice)
    (since : List SiteEvent) (nobody : Bool) :
    let reply := ((userStore platform cases).exec o c s).1
    o.page since reply = since ∧ nobodyAfter nobody o reply = nobody ∨
      o.page since reply = [] ∧ (nobodyAfter nobody o reply = true →
        ((userStore platform cases).exec o c s).2.users.rows = []) := by
  cases o with
  | encryptPassword _ | loginUser _ _ => exact .inl ⟨rfl, rfl⟩
  | transact t =>
    cases t with
    | findById _ | findByUsername _ | findByEmail _ | addUser _ | updateUser _ | deleteUser _ =>
      exact .inl ⟨rfl, rfl⟩
    | listUsers startId pageSize =>
      change let reply := (s.transact cases (.listUsers startId pageSize) c).1
        UserOp.page since (.transact (.listUsers startId pageSize)) reply = since ∧
            nobodyAfter nobody (.transact (.listUsers startId pageSize)) reply = nobody ∨
          UserOp.page since (.transact (.listUsers startId pageSize)) reply = [] ∧
            (nobodyAfter nobody (.transact (.listUsers startId pageSize)) reply = true →
              (s.transact cases (.listUsers startId pageSize) c).2.users.rows = [])
      cases c with
      | error e => cases startId <;> exact .inl ⟨rfl, rfl⟩
      | ok d =>
        dsimp only [Server.transact]
        split
        · cases startId <;> exact .inl ⟨rfl, rfl⟩
        · rename_i found users hb
          obtain rfl := UserRepository.listUsers_ok hb
          cases startId with
          | none => exact .inr ⟨rfl, UserRepository.listUsers_nobody hb⟩
          | some id => exact .inr ⟨rfl, nofun⟩

variable {ι : Type} [DecidableEq ι] {platform : Platform} {cases : Unicode.CaseData}

namespace Founded
variable {s : Frontend ι} {places : ι → Standing}

omit [DecidableEq ι] in
theorem load (h : Founded s places) (a : AuthUser) : Founded (s.push (some (.loaded a))) places where
  serving := h.serving
  listed := h.listed
  found i u hu := (h.found i u hu).imp_right (List.mem_cons_of_mem _)
  supers := h.supers
  once := h.once
  kept := by
    rintro ⟨e, he, hb⟩
    rcases List.mem_cons.mp he with rfl | he
    · cases hb
    · exact h.kept ⟨e, he, hb⟩

theorem session (h : Founded s places) {i : ι} {request : Request} {actor : Option AuthUser} :
    Founded { s with serving := Function.update s.serving i (some (request, actor)) }
      (Function.update places i ⟨some (request, actor), (places i).seen⟩) where
  serving := serving_session h.serving (request, actor) (places i).seen
  listed j hj := h.listed j (seen_update (some (request, actor)) j ▸ hj)
  found j u hu := h.found j u (seen_update (some (request, actor)) j ▸ hu)
  supers j u hu := h.supers j u (seen_update (some (request, actor)) j ▸ hu)
  once := h.once
  kept := h.kept

end Founded

/-- What is known of a row a request adds. -/
private theorem added_ready {s : Frontend ι} {i : ι} {o : UserOp} {c : o.Choice}
    {request : Request} {actor : Option AuthUser}
    {seen : Seen} (serves : s.request i = some request) (ready : o.Ready request actor seen)
    (ok : (siteSystem ι platform cases Bootable).allowed s (.user i o) c) {by' : Option Request} {u : User}
    (h : o.event? (s.request i) ((userStore platform cases).exec o c s.server).1 = some (.added by' u)) :
    by' = some request ∧ .gone u.id ∉ s.log ∧
      (request.Bootstraps → Vacant (s.since i) ∧ seen.nobody = true ∧ .superAdmin ∈ u.capabilities) := by
  cases o with
  | encryptPassword _ | loginUser _ _ => cases h
  | transact t =>
    change UserOp.event? (s.request i) (.transact t) (s.server.transact cases t c).1 = some (.added by' u) at h
    cases c with
    | error e => cases h
    | ok d =>
      dsimp only [Server.transact] at h
      split at h
      · cases h
      · rename_i r users hb
        cases t with
        | findById _ | findByUsername _ | findByEmail _ | listUsers _ _ | updateUser _ | deleteUser _ => cases h
        | addUser user =>
          cases h
          obtain ⟨hid, -, -, hc, -⟩ := UserRepository.addUser_ok hb
          obtain ⟨new, vacant⟩ := ok
          obtain ⟨-, first, -⟩ := ready.adds user rfl
          refine ⟨serves, hid ▸ new, fun bootstraps => ⟨vacant request serves bootstraps, (first bootstraps).1, ?_⟩⟩
          rw [hc]
          exact UserRepository.mem_serialize.mpr (first bootstraps).2

private theorem op_careful {s : Server} {o : UserOp} {c : o.Choice} {request : Request}
    {actor : Option AuthUser} {seen : Seen}
    (ready : o.Ready request actor seen) (known : ∀ u, seen.read = some u → ∀ v ∈ s.users, v.id = u.id →
      (.superAdmin ∈ v.capabilities ↔ .superAdmin ∈ u.capabilities)) :
    Careful s.users ((userStore platform cases).exec o c s).2.users
      (o.event? (some request) ((userStore platform cases).exec o c s).1) := by
  cases o with
  | encryptPassword _ | loginUser _ _ => exact .refl _
  | transact t =>
    change Careful s.users (s.transact cases t c).2.users
      (UserOp.event? (some request) (.transact t) (s.transact cases t c).1)
    unfold Server.transact
    split
    · exact .refl _
    · split
      · exact .refl _
      · rename_i r users hb
        exact UserTxn.careful hb ready known

section
variable {before after : Users} {e : Option SiteEvent} {log : List SiteEvent}

private theorem found_push {id : UserId} (careful : Careful before after e) (h : before.Has id ∨ .gone id ∈ log) :
    after.Has id ∨ .gone id ∈ e.toList ++ log := by
  rcases h with ⟨v, hv, rfl⟩ | gone
  · rcases careful.ids v hv with has | rfl
    · exact .inl has
    · exact .inr List.mem_cons_self
  · exact .inr (List.mem_append_right _ gone)

/-- What is right of a row that was looked up stays right: nobody new takes its id. -/
private theorem supers_push {u : User} (careful : Careful before after e)
    (new : ∀ request w, e = some (.added request w) → .gone w.id ∉ log) (found : before.Has u.id ∨ .gone u.id ∈ log)
    (h : ∀ v ∈ before, v.id = u.id → (.superAdmin ∈ v.capabilities ↔ .superAdmin ∈ u.capabilities)) :
    ∀ v ∈ after, v.id = u.id → (.superAdmin ∈ v.capabilities ↔ .superAdmin ∈ u.capabilities) := by
  intro w hw hid
  rcases careful.rows w hw with ⟨request, he, fresh⟩ | ⟨v, hv, hid', same⟩
  · rcases found with ⟨v, hv, hid'⟩ | gone
    · exact absurd (hid'.trans hid.symm) (fresh v hv)
    · exact absurd (hid ▸ gone) (new request w he)
  · exact same.trans (h v hv (hid'.trans hid))

/-- A first administrator is made where there is nobody, so there was none before him. -/
private theorem once_push (boots : ∀ e', e = some e' → e'.bootstraps = true → before.rows = [])
    (kept : (∃ e ∈ log, e.bootstraps = true) → ∃ v ∈ before, .superAdmin ∈ v.capabilities)
    (once : (log.filter SiteEvent.bootstraps).length ≤ 1) :
    ((e.toList ++ log).filter SiteEvent.bootstraps).length ≤ 1 := by
  cases e with
  | none => exact once
  | some e =>
    change ((e :: log).filter SiteEvent.bootstraps).length ≤ 1
    rw [List.filter_cons]
    split
    · rename_i hb
      have none : log.filter SiteEvent.bootstraps = [] := by
        apply List.filter_eq_nil_iff.mpr
        intro e' he' hb'
        obtain ⟨v, hv, -⟩ := kept ⟨e', he', hb'⟩
        rw [Users.mem_def, Keyed.Table.mem_def, boots e rfl hb] at hv
        cases hv
      rw [none]
      exact le_refl 1
    · exact once

private theorem kept_push (careful : Careful before after e)
    (boots : ∀ e', e = some e' → e'.bootstraps = true → ∃ v ∈ after, .superAdmin ∈ v.capabilities)
    (kept : (∃ e ∈ log, e.bootstraps = true) → ∃ v ∈ before, .superAdmin ∈ v.capabilities) :
    (∃ e' ∈ e.toList ++ log, e'.bootstraps = true) → ∃ v ∈ after, .superAdmin ∈ v.capabilities := by
  rintro ⟨e', he', hb⟩
  rcases List.mem_append.mp he' with he' | he'
  · exact boots e' (Option.mem_toList.mp he') hb
  · obtain ⟨v, hv, hs⟩ := kept ⟨e', he', hb⟩
    exact careful.supers v hv hs

end

private theorem bootstraps_added {e : SiteEvent} (h : e.bootstraps = true) :
    ∃ request u, e = .added (some request) u ∧ request.Bootstraps := by
  unfold SiteEvent.bootstraps at h
  split at h
  · exact ⟨_, _, rfl, trivial⟩
  · cases h

namespace Founded
variable {s : Frontend ι} {places : ι → Standing}

omit [DecidableEq ι] in
private theorem vacant_iff (h : Founded s places) {i : ι} (nobody : (places i).seen.nobody = true) :
    s.users.rows = [] ↔ Vacant (s.since i) := by
  constructor
  · intro empty id present
    obtain ⟨v, hv, -⟩ := (h.listed i nobody id).mpr present
    rw [Users.mem_def, Keyed.Table.mem_def, empty] at hv
    cases hv
  · intro vacant
    apply List.eq_nil_iff_forall_not_mem.mpr
    intro v hv
    exact vacant v.id ((h.listed i nobody v.id).mp ⟨v, hv, rfl⟩)

/-- A page that lists nobody, read by the operation or before it, still says who has come since. -/
private theorem listed_serve (h : Founded s places) {i : ι} {o : UserOp} {c : o.Choice} (j : ι)
    (hj : (Function.update places i ⟨(places i).serving,
      (places i).seen.after o (s.serve platform cases i o c).1⟩ j).seen.nobody = true) (id : UserId) :
    (s.serve platform cases i o c).2.users.Has id ↔ Present id ((s.serve platform cases i o c).2.since j) := by
  have effect : SiteEvent.Effect s.users (s.serve platform cases i o c).2.users
      (o.event? (s.request i) (s.serve platform cases i o c).1) :=
    o.effect c (s.request i)
  have since : (s.serve platform cases i o c).2.since = Function.update
      (fun j => (o.event? (s.request i) (s.serve platform cases i o c).1).toList ++ s.since j) i
      (o.page ((o.event? (s.request i) (s.serve platform cases i o c).1).toList ++ s.since i)
        (s.serve platform cases i o c).1) := rfl
  rw [since]
  by_cases same : j = i
  · subst same
    rw [Function.update_self] at hj ⊢
    change _ ↔ Present id (o.page _ ((userStore platform cases).exec o c s.server).1)
    rcases page_cases o c ((o.event? (s.request j) (s.serve platform cases j o c).1).toList ++ s.since j)
      (places j).seen.nobody with ⟨page, kept⟩ | ⟨page, empty⟩
    · rw [page]
      exact Present.push effect (h.listed j (kept.symm.trans hj)) id
    · rw [page]
      refine iff_of_false ?_ fun present => present
      rintro ⟨v, hv, -⟩
      rw [Users.mem_def, Keyed.Table.mem_def] at hv
      exact absurd (empty hj ▸ hv) List.not_mem_nil
  · rw [Function.update_of_ne same] at hj ⊢
    exact Present.push effect (h.listed j hj) id

/-- A user operation of a request that has checked for it. -/
theorem serve (h : Founded s places) {i : ι} {o : UserOp} {c : o.Choice} {request : Request}
    {actor : Option AuthUser}
    (here : (places i).serving = some (request, actor)) (ready : o.Ready request actor (places i).seen)
    (ok : (siteSystem ι platform cases Bootable).allowed s (.user i o) c) :
    Founded (s.serve platform cases i o c).2 (Function.update places i
      ⟨(places i).serving, (places i).seen.after o (s.serve platform cases i o c).1⟩) := by
  have serves : s.request i = some request := by
    rw [Frontend.request, h.serving i, here]
    rfl
  have careful : Careful s.users (s.serve platform cases i o c).2.users
      (o.event? (s.request i) (s.serve platform cases i o c).1) :=
    serves ▸ op_careful ready (h.supers i)
  have new : ∀ request' u, o.event? (s.request i) (s.serve platform cases i o c).1 = some (.added request' u) →
      .gone u.id ∉ s.log :=
    fun _ _ he => (added_ready serves ready ok he).2.1
  have effect : SiteEvent.Effect s.users (s.serve platform cases i o c).2.users
      (o.event? (s.request i) (s.serve platform cases i o c).1) :=
    o.effect c (s.request i)
  have boots : ∀ e, o.event? (s.request i) (s.serve platform cases i o c).1 = some e → e.bootstraps = true →
      s.users.rows = [] ∧ ∃ v ∈ (s.serve platform cases i o c).2.users, .superAdmin ∈ v.capabilities := by
    intro e he hb
    obtain ⟨request', u, rfl, first⟩ := bootstraps_added hb
    obtain ⟨same, -, facts⟩ := added_ready serves ready ok he
    obtain rfl := Option.some.inj same
    obtain ⟨vacant, nobody, super⟩ := facts first
    rw [he] at effect
    exact ⟨(h.vacant_iff nobody).mpr vacant, u, (effect.2 u).mpr (.inr rfl), super⟩
  have read : ∀ j u, (Function.update places i ⟨(places i).serving,
      (places i).seen.after o (s.serve platform cases i o c).1⟩ j).seen.read = some u →
      (places j).seen.read = some u ∨ u ∈ s.users ∧ (s.serve platform cases i o c).2.users = s.users := by
    intro j u hu
    by_cases same : j = i
    · subst same
      rw [Function.update_self] at hu
      exact foundAfter_exec hu
    · rw [Function.update_of_ne same] at hu
      exact .inl hu
  refine ⟨fun j => (h.serving j).trans (serving_update _ j).symm, fun j hj => h.listed_serve j hj,
    fun j u hu => ?_, fun j u hu => ?_,
    once_push (fun e he hb => (boots e he hb).1) h.kept h.once,
      kept_push careful (fun e he hb => (boots e he hb).2) h.kept⟩
  · rcases read j u hu with old | ⟨hu, same⟩
    · exact found_push careful (h.found j u old)
    · exact .inl ⟨u, same ▸ hu, rfl⟩
  · rcases read j u hu with old | ⟨hu, same⟩
    · exact supers_push careful new (h.found j u old) (h.supers j u old)
    · exact fun v hv hid => Users.eq_of_id (same ▸ hv) hu hid ▸ Iff.rfl

end Founded
private theorem siteSystem_founded : (frontendPlaces ι platform cases).Keeps
    (siteSystem ι platform cases Bootable) Founded where
  begins s places i p founded root _ := by
    obtain ⟨client, request, rfl⟩ := root
    refine ⟨places i, request.serve_fits i (places i) client, ?_⟩
    rw [Function.update_eq_self]
    exact founded
  op s places i o c founded ready ok := by
    cases o with
    | session me client request =>
      obtain rfl := ready
      exact founded.session
    | user me o =>
      obtain ⟨rfl, request, actor, here, ready⟩ := ready
      exact founded.serve here ready ok
  env s t places founded outside := by
    obtain ⟨u, -, rfl⟩ := outside
    exact founded.load u.authUser
  crash _ _ _ _ crash := crash.elim

omit [DecidableEq ι] in
private theorem founded_opened (server : Server) : Founded (Frontend.opened ι server) fun _ =>
    ⟨none, none, false⟩ where
  serving _ := rfl
  listed _ h := by cases h
  found _ _ h := by cases h
  supers _ _ h := by cases h
  once := Nat.zero_le 1
  kept := by
    rintro ⟨e, he, -⟩
    cases he

/-- In every run in which each register_admin request inserts only where whoever came since it looked is
gone again, at most one of them ever does; and where one is about to insert, the table is empty just if so. -/
theorem bootstrap_once {server : Server} {c : Config (frontend ι platform cases) ι (Except ServerFnError Reply)}
    (run : (siteSystem ι platform cases Bootable).Reaches (.idle (Frontend.opened ι server)) c) :
    (c.state.log.filter SiteEvent.bootstraps).length ≤ 1 ∧
      ∀ (i me : ι) (user : NewUser) (next : (FrontendOp.user me (.transact (.addUser user))).Value →
          Prog (frontendSignature ι) (Except ServerFnError Reply)) (request : Request) (actor : Option AuthUser),
        c.threads i = some (.call (FrontendOp.user me (.transact (.addUser user))) next) →
        c.state.serving i = some (request, actor) → request.Bootstraps →
        (c.state.users.rows = [] ↔ Vacant (c.state.since i)) := by
  obtain ⟨places, linked, founded⟩ := siteSystem_founded.reaches (Discipline.linked_idle _ _)
    (founded_opened server) run
  refine ⟨founded.once, fun i me user next request actor at_insert serves bootstraps => ?_⟩
  obtain ⟨⟨rfl, request', actor', here, ready⟩, -⟩ := (linked i).1 _ at_insert
  obtain ⟨rfl, rfl⟩ := Prod.mk.inj (Option.some.inj (here.symm.trans ((founded.serving me).symm.trans serves)))
  exact founded.vacant_iff ((ready.adds user rfl).2.1 bootstraps).1

def emptyServer : Server := ⟨.empty, fun _ => none⟩

def claimAdmin (name : String) : Request := .registerAdmin name name "secret" (name ++ "@x.org")

def withTokens (me : Nat) : (o : FrontendOp Nat) → o.Choice
  | .session _ _ _ => none
  | .user _ o => drawing (me + 1) o

abbrev bootSystem (may : Frontend Nat → Nat → UserId → Prop) := siteSystem Nat plainPlatform latinCases may

def twoClaims : Config (frontend Nat plainPlatform latinCases) Nat (Except ServerFnError Reply) :=
  ((Config.idle (Frontend.opened Nat emptyServer)).set (Frontend.opened Nat emptyServer) 0
    ((claimAdmin "ann").serve plainPlatform 0 0)).set (Frontend.opened Nat emptyServer) 1
    ((claimAdmin "eve").serve plainPlatform 1 1)

private theorem twoClaims_reached {may : Frontend Nat → Nat → UserId → Prop} :
    (bootSystem may).Reaches (.idle (Frontend.opened Nat emptyServer)) twoClaims := by
  have first : (bootSystem may).Step (.idle (Frontend.opened Nat emptyServer))
      ((Config.idle (Frontend.opened Nat emptyServer)).set (Frontend.opened Nat emptyServer) 0
        ((claimAdmin "ann").serve plainPlatform 0 0)) :=
    System.step_start rfl ⟨_, _, rfl⟩
  have second : (bootSystem may).Step ((Config.idle (Frontend.opened Nat emptyServer)).set (Frontend.opened Nat emptyServer) 0
      ((claimAdmin "ann").serve plainPlatform 0 0)) twoClaims :=
    System.step_start rfl ⟨_, _, rfl⟩
  exact (Relation.ReflTransGen.single first).tail second

/-- Both look before either inserts, and both are first. -/
theorem bootstrap_twice : ∃ c d : Config (frontend Nat plainPlatform latinCases) Nat (Except ServerFnError Reply),
    (bootSystem fun _ _ _ => True).Reaches (.idle (Frontend.opened Nat emptyServer)) c ∧
      (bootSystem fun _ _ _ => True).Reaches c d ∧
      (∃ user next, c.threads 1 = some (.call (FrontendOp.user 1 (.transact (.addUser user))) next)) ∧
      c.state.users.rows.map User.username = ["ann"] ∧
      d.result? 0 = some (.ok .done) ∧ d.result? 1 = some (.ok .done) ∧
      d.state.users.rows.map (fun u => (u.username, u.capabilities)) = [("ann", [.superAdmin]), ("eve", [.superAdmin])] ∧
      (d.state.log.filter SiteEvent.bootstraps).length = 2 := by
  have anonymous (s : Frontend Nat) (client : ClientId) :
      ∀ a, (none : Option AuthUser) = some a → .loaded a ∈ s.log ∧ s.server.login client = some a.id :=
    fun a ha => (by cases ha)
  have permits : (bootSystem fun _ _ _ => True).Permits withTokens twoClaims [0, 0, 1, 1, 0, 0, 0, 1] :=
    ⟨anonymous _ 0, trivial, anonymous _ 1, trivial, trivial, trivial, trivial, trivial, trivial⟩
  have ends : (bootSystem fun _ _ _ => True).Permits withTokens
      ([0, 0, 1, 1, 0, 0, 0, 1].foldl (fun c i => c.advance (withTokens i) i) twoClaims) [1, 1] :=
    ⟨trivial, trivial, trivial⟩
  refine ⟨_, _, twoClaims_reached.trans permits.reaches, ends.reaches, ⟨_, _, rfl⟩, ?_, ?_, ?_, ?_, ?_⟩
  · rfl
  · rfl
  · rfl
  · rfl
  · rfl

/-- The second looks when the first has inserted. -/
theorem bootstrap_once_second : ∃ c : Config (frontend Nat plainPlatform latinCases) Nat
    (Except ServerFnError Reply),
    c.result? 0 = some (.ok .done) ∧ c.result? 1 = some (.error "Admin already exists") ∧
      (c.state.log.filter SiteEvent.bootstraps).length ≤ 1 := by
  have anonymous (s : Frontend Nat) (client : ClientId) :
      ∀ a, (none : Option AuthUser) = some a → .loaded a ∈ s.log ∧ s.server.login client = some a.id :=
    fun a ha => (by cases ha)
  have bootable : Bootable ([0, 0, 0].foldl (fun c i => c.advance (withTokens i) i) twoClaims).state 0 1 :=
    ⟨List.not_mem_nil, fun _ _ _ id present => present⟩
  have permits : (bootSystem Bootable).Permits withTokens twoClaims [0, 0, 0, 0, 0, 1, 1] :=
    ⟨anonymous _ 0, trivial, trivial, bootable, trivial, anonymous _ 1, trivial, trivial⟩
  refine ⟨_, ?_, ?_, (bootstrap_once (twoClaims_reached.trans permits.reaches)).1⟩
  · rfl
  · rfl

end MailKeep
