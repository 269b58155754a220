import MailKeep.Users.Site

/-! Who can change a password. The handler that completes a forced change checks that one is pending;
that its client went through the login is left to the clients. -/
namespace MailKeep
open Program

variable (platform : Platform)

/-- The client was told the user's token by a login with the password the user has. -/
def Proved (client : ClientId) (u : User) (earlier : List Visit) : Prop :=
  ∃ username password actor before after,
    .served client (.performLogin username password) actor
      (some (.ok (.login (some (platform.formatToken u.id))))) before after ∈ earlier ∧
    u.checkPassword platform password = true

/-- A forced change is asked for by a client that went through the login. -/
def Visit.Guarded : Visit → List Visit → Prop
  | served client (.changeInitialPassword token newPassword) _ _ before _, earlier =>
    ∀ u ∈ before, platform.parseToken token = .ok u.id → u.changePasswordOnLogin = true →
      isBlank newPassword = false → Proved platform client u earlier
  | _, _ => True

def AuthUser.MayEdit (a : AuthUser) (u : User) : Prop :=
  a.has .superAdmin = true ∨ a.has .admin = true ∧ .superAdmin ∉ u.capabilities

/-- A password hash changes by proof of the old password or by an administrator who may edit the user. -/
def Visit.Lawful : Visit → List Visit → Prop
  | loaded _, _ => True
  | served client request actor _ before after, earlier =>
    ∀ u ∈ before, ∀ v ∈ after, v.id = u.id → v.passwordHash ≠ u.passwordHash →
      (∃ current newPassword a, request = .changePassword current newPassword ∧ actor = some a ∧ a.id = u.id ∧
        u.checkPassword platform current = true) ∨
      (∃ token fullName email password capabilities a,
        request = .adminUpdateUser token fullName email password capabilities ∧ actor = some a ∧
        platform.parseToken token = .ok u.id ∧ a.MayEdit u) ∨
      ∃ token newPassword, request = .changeInitialPassword token newPassword ∧
        platform.parseToken token = .ok u.id ∧ Proved platform client u earlier

variable {platform : Platform} {cases : Unicode.CaseData} {before after : Users}

private theorem unchanged_of_adds {w u v : User} (h : before.Adds after w) (hu : u ∈ before) (hv : v ∈ after)
    (hid : v.id = u.id) : v = u := by
  rcases (h.2 v).mp hv with hv | rfl
  · exact Users.eq_of_id hv hu hid
  · exact absurd hid.symm (h.1 u hu)

/-- A row that differs afterwards is the one that was replaced. -/
private theorem replaced_of_rewrites {x y u v : User} (h : before.Rewrites after x y)
    (hu : u ∈ before) (hv : v ∈ after)
    (hid : v.id = u.id) (hne : v.passwordHash ≠ u.passwordHash) : x = u ∧ y = v := by
  rcases (h.2.2 v).mp hv with rfl | ⟨hv, hx⟩
  · exact ⟨Users.eq_of_id h.1 hu (h.2.1.symm.trans hid), rfl⟩
  · exact absurd (congrArg User.passwordHash (Users.eq_of_id hv hu hid)) hne

private theorem unchanged_of_removes {w u v : User} (h : before.Removes after w) (hu : u ∈ before) (hv : v ∈ after)
    (hid : v.id = u.id) : v = u :=
  Users.eq_of_id ((h.2 v).mp hv).1 hu hid

/-- A guarded request changes password hashes lawfully. -/
private theorem lawful_of_effect {client : ClientId} {request : Request} {actor : Option AuthUser}
    {answer : Option (Except ServerFnError Reply)} {earlier : List Visit}
    (effect : request.Effect platform actor before after)
    (guarded : (Visit.served client request actor answer before after).Guarded platform earlier) :
    (Visit.served client request actor answer before after).Lawful platform earlier := by
  intro u hu v hv hid hne
  rcases effect with rfl | h
  · exact absurd (congrArg User.passwordHash (Users.eq_of_id hv hu hid)) hne
  cases request with
  | performLogin => exact h.elim
  | oidcCallback => exact h.elim
  | listUsersAdmin => exact h.elim
  | registerAdmin =>
    obtain ⟨w, hw⟩ := h
    exact absurd (congrArg User.passwordHash (unchanged_of_adds hw hu hv hid)) hne
  | adminCreateUser =>
    obtain ⟨w, a, hw, -⟩ := h
    exact absurd (congrArg User.passwordHash (unchanged_of_adds hw hu hv hid)) hne
  | adminDeleteUser =>
    obtain ⟨w, a, hw, -⟩ := h
    exact absurd (congrArg User.passwordHash (unchanged_of_removes hw hu hv hid)) hne
  | updateProfile =>
    obtain ⟨x, y, hw, hh⟩ := h
    obtain ⟨rfl, rfl⟩ := replaced_of_rewrites hw hu hv hid hne
    exact absurd hh hne
  | changePassword current newPassword =>
    obtain ⟨x, y, a, hw, ha, hi, checked⟩ := h
    obtain ⟨rfl, rfl⟩ := replaced_of_rewrites hw hu hv hid hne
    exact .inl ⟨current, newPassword, a, rfl, ha, hi.symm, checked⟩
  | adminUpdateUser token fullName email password capabilities =>
    obtain ⟨x, y, a, hw, ⟨ha, may⟩, parsed, hsuper, -⟩ := h
    obtain ⟨rfl, rfl⟩ := replaced_of_rewrites hw hu hv hid hne
    refine .inr (.inl ⟨token, fullName, email, password, capabilities, a, rfl, ha, parsed, ?_⟩)
    rcases may with may | may
    · exact .inl may
    · by_cases hs : .superAdmin ∈ x.capabilities
      · exact .inl (hsuper hs)
      · exact .inr ⟨may, hs⟩
  | changeInitialPassword token newPassword =>
    obtain ⟨x, y, hw, blank, parsed, pending⟩ := h
    obtain ⟨rfl, rfl⟩ := replaced_of_rewrites hw hu hv hid hne
    exact .inr (.inr ⟨token, newPassword, rfl, parsed, guarded x hu parsed pending blank⟩)

/-- In every history in which forced changes are only asked for by clients that went through the login,
every change of a password hash is lawful. -/
theorem password_changes_lawful {start : Server} {site : Site} (run : Site.Reaches platform cases ⟨start, []⟩ site)
    (guarded : Always (Visit.Guarded platform) site.history) : Always (Visit.Lawful platform) site.history := by
  induction run with
  | refl => exact always_nil
  | tail _ step ih =>
    cases step with
    | load u hu => exact (ih (always_cons.mp guarded).2).push trivial
    | serve client request actor known rest server served =>
      obtain ⟨now, earlier⟩ := always_cons.mp guarded
      exact (ih earlier).push (lawful_of_effect (request.effect served) now)

def annPending : Server where
  users := ⟨⟨[{ ann with changePasswordOnLogin := true }], by simp⟩, by simp, by simp⟩
  login _ := none

/-- What becomes of a server that serves one request of a client without a session. -/
def afterRequest (request : Request) (n : Nat) (site : Site) : Site :=
  let end_ := (userStore plainPlatform latinCases).follow (drawing 2) n
    ((request.handle plainPlatform 0 none).run, site.server)
  ⟨end_.2, .served 0 request none (answer? end_.1) site.server.users end_.2.users :: site.history⟩

private theorem step_afterRequest (request : Request) (n : Nat) (site : Site) :
    Site.Step plainPlatform latinCases site (afterRequest request n site) :=
  .serve site 0 request none (fun _ h => by cases h) _ _ (reaches_drawing plainPlatform latinCases 2 n _)

/-- The user logs in with the password he was given, then sets his own. -/
theorem password_changes_lawful_firstLogin :
    ∃ site : Site, site.server.users.rows.map User.passwordHash = ["salt$mine"] ∧
      Always (Visit.Lawful plainPlatform) site.history := by
  refine ⟨afterRequest (.changeInitialPassword "U_1" "mine") 8 (afterRequest (.performLogin "ann" "secret") 8 ⟨annPending, []⟩),
    rfl, password_changes_lawful
      ((Relation.ReflTransGen.single (step_afterRequest _ _ _)).tail (step_afterRequest _ _ _)) ?_⟩
  refine (always_nil.push trivial).push fun u hu _ _ _ => ?_
  rcases List.mem_singleton.mp hu with rfl
  exact ⟨"ann", "secret", none, _, _, List.mem_singleton.mpr rfl, rfl⟩

/-- Anyone who knows the token of a user with a pending change can set his password. -/
theorem password_changed_by_token :
    ∃ site : Site, Site.Reaches plainPlatform latinCases ⟨annPending, []⟩ site ∧
      ¬ Always (Visit.Lawful plainPlatform) site.history := by
  refine ⟨afterRequest (.changeInitialPassword "U_1" "evil") 8 ⟨annPending, []⟩, .single (step_afterRequest _ _ _), fun h => ?_⟩
  have now := (always_cons.mp h).1 _ (List.mem_singleton.mpr rfl) ⟨1, 2, "ann", "Ann", "salt$evil", ⟨"ann@x.org", by decide⟩, [.admin], false⟩
    (List.mem_singleton.mpr rfl) rfl (by decide)
  rcases now with ⟨_, _, _, h, -⟩ | ⟨_, _, _, _, _, _, h, -⟩ | ⟨_, _, -, -, _, _, _, _, _, h, -⟩
  · cases h
  · cases h
  · cases h

end MailKeep
