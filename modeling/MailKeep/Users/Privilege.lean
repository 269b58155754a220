import MailKeep.Users.Site

/-! Administrative requests never hand out a role the actor may not hand out, whatever their payloads
and however long ago the actor's permissions were loaded. -/
namespace MailKeep
open Program

def Users.Holds (users : Users) (id : UserId) (c : Capability) : Prop :=
  ∃ u ∈ users, u.id = id ∧ c ∈ u.capabilities

def Request.Administrative : Request → Prop
  | adminCreateUser _ _ _ _ _ | adminUpdateUser _ _ _ _ _ | adminDeleteUser _ => True
  | _ => False

def Visit.Administrative : Visit → Prop
  | loaded _ => True
  | served _ request _ _ _ _ => request.Administrative

/-- An actor without SuperAdmin gives nobody a role he did not hold, and leaves every SuperAdmin as he was. -/
def Visit.NoEscalation : Visit → Prop
  | loaded _ => True
  | served _ _ actor _ before after => (∀ a, actor = some a → ¬ before.Holds a.id .superAdmin) →
    (∀ id c, after.Holds id c → before.Holds id c) ∧ ∀ u ∈ before, .superAdmin ∈ u.capabilities → u ∈ after

variable {platform : Platform} {cases : Unicode.CaseData} {before after : Users} {actor : Option AuthUser}

private theorem holds_adds {u : User} {id : UserId} {c : Capability} (h : before.Adds after u) :
    after.Holds id c ↔ before.Holds id c ∨ u.id = id ∧ c ∈ u.capabilities := by
  unfold Users.Holds
  simp only [h.2]
  constructor
  · rintro ⟨w, hw | rfl, hid, hc⟩
    · exact .inl ⟨w, hw, hid, hc⟩
    · exact .inr ⟨hid, hc⟩
  · rintro (⟨w, hw, hid, hc⟩ | ⟨hid, hc⟩)
    · exact ⟨w, .inl hw, hid, hc⟩
    · exact ⟨u, .inr rfl, hid, hc⟩

private theorem holds_rewrites {u v : User} {id : UserId} {c : Capability} (h : before.Rewrites after u v)
    (same : c ∈ v.capabilities ↔ c ∈ u.capabilities) : after.Holds id c ↔ before.Holds id c := by
  obtain ⟨hu, hid, hmem⟩ := h
  unfold Users.Holds
  simp only [hmem]
  constructor
  · rintro ⟨w, rfl | ⟨hw, -⟩, rfl, hc⟩
    · exact ⟨u, hu, hid.symm, same.mp hc⟩
    · exact ⟨w, hw, rfl, hc⟩
  · rintro ⟨w, hw, rfl, hc⟩
    by_cases he : w.id = u.id
    · obtain rfl := Users.eq_of_id hw hu he
      exact ⟨v, .inl rfl, hid, same.mpr hc⟩
    · exact ⟨w, .inr ⟨hw, he⟩, rfl, hc⟩

private theorem holds_removes {u : User} {id : UserId} {c : Capability} (h : before.Removes after u) :
    after.Holds id c ↔ before.Holds id c ∧ (id = u.id → c ∉ u.capabilities) := by
  obtain ⟨hu, hmem⟩ := h
  unfold Users.Holds
  simp only [hmem]
  constructor
  · rintro ⟨w, ⟨hw, hne⟩, rfl, hc⟩
    exact ⟨⟨w, hw, rfl, hc⟩, fun he => absurd he hne⟩
  · rintro ⟨⟨w, hw, rfl, hc⟩, hn⟩
    refine ⟨w, ⟨hw, fun he => ?_⟩, rfl, hc⟩
    exact hn he (Users.eq_of_id hw hu he ▸ hc)

/-- No administrative request moves the set of those who hold SuperAdmin. -/
theorem Request.Effect.superAdmins {request : Request} (admin : request.Administrative)
    (h : request.Effect platform actor before after) (id : UserId) :
    after.Holds id .superAdmin ↔ before.Holds id .superAdmin := by
  rcases h with rfl | h
  · exact Iff.rfl
  cases request with
  | adminCreateUser =>
    obtain ⟨u, a, hw, -, hn, -⟩ := h
    rw [holds_adds hw]
    exact ⟨fun h => h.resolve_right fun h => hn h.2, .inl⟩
  | adminUpdateUser =>
    obtain ⟨u, v, a, hw, -, -, -, same, -⟩ := h
    exact holds_rewrites hw same
  | adminDeleteUser =>
    obtain ⟨u, a, hw, -, hn⟩ := h
    rw [holds_removes hw]
    exact ⟨And.left, fun h => ⟨h, fun _ => hn⟩⟩
  | _ => exact admin.elim

/-- A request of an actor whose permissions lack SuperAdmin. -/
private theorem Request.Effect.noEscalation {request : Request} (admin : request.Administrative)
    (h : request.Effect platform actor before after) (weak : ∀ a, actor = some a → a.has .superAdmin = false) :
    (∀ id c, after.Holds id c → before.Holds id c) ∧ ∀ u ∈ before, .superAdmin ∈ u.capabilities → u ∈ after := by
  rcases h with rfl | h
  · exact ⟨fun _ _ h => h, fun _ hu _ => hu⟩
  cases request with
  | adminCreateUser =>
    obtain ⟨u, a, hw, ha, hn, hadmin⟩ := h
    refine ⟨fun id c hc => ?_, fun w hw' _ => (hw.2 w).mpr (.inl hw')⟩
    rcases (holds_adds hw).mp hc with hc | ⟨-, hc⟩
    · exact hc
    · cases c with
      | superAdmin => exact absurd hc hn
      | admin => exact absurd (hadmin hc) (by simp [weak a ha.1])
  | adminUpdateUser =>
    obtain ⟨u, v, a, hw, ha, -, hsuper, same, hadmin⟩ := h
    have lacks : a.has .superAdmin = false := weak a ha.1
    refine ⟨fun id c hc => ?_, fun w hw' hc => ?_⟩
    · cases c with
      | superAdmin => exact (holds_rewrites hw same).mp hc
      | admin =>
        obtain ⟨w, hw', hid, hc⟩ := hc
        rcases (hw.2.2 w).mp hw' with rfl | ⟨hb, -⟩
        · exact absurd (hadmin hc) (by simp [lacks])
        · exact ⟨w, hb, hid, hc⟩
    · refine (hw.2.2 w).mpr (.inr ⟨hw', fun he => ?_⟩)
      exact absurd (hsuper (Users.eq_of_id hw' hw.1 he ▸ hc)) (by simp [lacks])
  | adminDeleteUser =>
    obtain ⟨u, a, hw, -, hn⟩ := h
    refine ⟨fun id c hc => ((holds_removes hw).mp hc).1, fun w hw' hc => (hw.2 w).mpr ⟨hw', fun he => ?_⟩⟩
    exact hn (Users.eq_of_id hw' hw.1 he ▸ hc)
  | _ => exact admin.elim

/-- What a run of administrative requests keeps: those who held SuperAdmin at its start still do and
nobody else does, so permissions loaded on the way with SuperAdmin in them belong to one of them. -/
private structure Sealed (start : Server) (site : Site) : Prop where
  superAdmins : ∀ id, site.server.users.Holds id .superAdmin ↔ start.users.Holds id .superAdmin
  loaded : ∀ a, .loaded a ∈ site.history → a.has .superAdmin = true → start.users.Holds a.id .superAdmin
  visits : ∀ v ∈ site.history, v.NoEscalation

private theorem sealed_step {start : Server} {site site' : Site} (h : Sealed start site)
    (step : Site.Step platform cases site site') (admin : ∀ v ∈ site'.history, v.Administrative) :
      Sealed start site' := by
  cases step with
  | load u hu =>
    refine ⟨h.superAdmins, fun a ha hs => ?_, fun v hv => ?_⟩
    · rcases List.mem_cons.mp ha with ha | ha
      · cases ha
        exact (h.superAdmins _).mp ⟨u, hu, rfl, (u.authUser_has _).mp hs⟩
      · exact h.loaded a ha hs
    · rcases List.mem_cons.mp hv with rfl | hv
      · trivial
      · exact h.visits v hv
  | serve client request actor known rest server run =>
    have isAdmin : request.Administrative := admin _ List.mem_cons_self
    have effect := request.effect run
    refine ⟨fun id => (effect.superAdmins isAdmin id).trans (h.superAdmins id), fun a ha hs => ?_, fun v hv => ?_⟩
    · rcases List.mem_cons.mp ha with ha | ha
      · cases ha
      · exact h.loaded a ha hs
    · rcases List.mem_cons.mp hv with rfl | hv
      · intro weak
        apply effect.noEscalation isAdmin
        intro a ha
        by_contra hs
        rw [Bool.not_eq_false] at hs
        exact weak a ha ((h.superAdmins _).mpr (h.loaded a (known a ha).1 hs))
      · exact h.visits v hv

/-- Over every sequence of administrative requests the set of users who hold SuperAdmin stays the same,
and no request of an actor without it hands out a role or touches a SuperAdmin. -/
theorem privilege_never_escalated {start : Server} {site : Site}
    (run : Site.Reaches platform cases ⟨start, []⟩ site) (admin : ∀ v ∈ site.history, v.Administrative) :
    (∀ id, site.server.users.Holds id .superAdmin ↔ start.users.Holds id .superAdmin) ∧
      ∀ v ∈ site.history, v.NoEscalation := by
  have key : Sealed start site := by
    induction run with
    | refl => exact ⟨fun _ => Iff.rfl, fun _ h => (by cases h), fun _ h => (by cases h)⟩
    | tail _ step ih =>
      refine sealed_step (ih fun v hv => admin v ?_) step admin
      cases step <;> exact List.mem_cons_of_mem _ hv
  exact ⟨key.superAdmins, key.visits⟩

/-- An administrator adds a user. -/
theorem privilege_never_escalated_newUser : ∃ site : Site, site.server.users.rows.map User.username = ["ann", "ben"] ∧
    (∀ id, site.server.users.Holds id .superAdmin ↔ annServer.users.Holds id .superAdmin) ∧
      ∀ v ∈ site.history, v.NoEscalation := by
  have load : Site.Step plainPlatform latinCases ⟨annServer, []⟩ ⟨annServer, [.loaded ann.authUser]⟩ :=
    .load ⟨annServer, []⟩ ann (List.mem_singleton.mpr rfl)
  have serve := Site.Step.serve ⟨annServer, [.loaded ann.authUser]⟩ 0
    (.adminCreateUser "ben" "Ben" "ben@x.org" "secret" []) (some ann.authUser)
    (fun a ha => by cases ha; exact ⟨List.mem_singleton.mpr rfl, rfl⟩) _ _
    (reaches_drawing plainPlatform latinCases 2 8 _)
  refine ⟨_, ?_, privilege_never_escalated ((Relation.ReflTransGen.single load).tail serve) ?_⟩
  · rfl
  · intro v hv
    rcases List.mem_cons.mp hv with rfl | hv
    · trivial
    · rcases List.mem_singleton.mp hv with rfl
      trivial

end MailKeep
