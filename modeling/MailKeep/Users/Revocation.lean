import MailKeep.Users.Sessions

/-! Whether an administrator's authority still stands where his requests write: the handlers check what
his session has kept of it. -/
namespace MailKeep
open Program

/-- By the history since the actor was loaded, his row is not deleted and its last write left him the capability. -/
def Stands (a : AuthUser) (c : Capability) : List SiteEvent → Prop
  | [] => False
  | .loaded b :: older => if b = a then a.has c = true else Stands a c older
  | .added _ u :: older | .rewrote u :: older => if u.id = a.id then c ∈ u.capabilities else Stands a c older
  | .gone id :: older => id ≠ a.id ∧ Stands a c older

/-- What the checks of a request that writes these capabilities require: SuperAdmin where it deals in a role, else either. -/
def Requires (capabilities : List Capability) (holds : Capability → Prop) : Prop :=
  (holds .superAdmin ∨ holds .admin) ∧ (.superAdmin ∈ capabilities ∨ .admin ∈ capabilities → holds .superAdmin)

theorem Requires.congr {capabilities : List Capability} {P Q : Capability → Prop} (h : ∀ c, P c ↔ Q c) :
    Requires capabilities P ↔ Requires capabilities Q := by
  rw [Requires, Requires, h, h]

section
variable {before after : Users} {id : UserId} {c : Capability}

theorem Users.Adds.holds {u : User} (h : before.Adds after u) :
    after.Holds id c ↔ if u.id = id then c ∈ u.capabilities else before.Holds id c := by
  split
  · rename_i same
    constructor
    · rintro ⟨w, hw, hid, hc⟩
      rcases (h.2 w).mp hw with hw | rfl
      · exact absurd (hid.trans same.symm) (h.1 w hw)
      · exact hc
    · exact fun hc => ⟨u, (h.2 u).mpr (.inr rfl), same, hc⟩
  · rename_i other
    constructor
    · rintro ⟨w, hw, hid, hc⟩
      rcases (h.2 w).mp hw with hw | rfl
      · exact ⟨w, hw, hid, hc⟩
      · exact absurd hid other
    · rintro ⟨w, hw, hid, hc⟩
      exact ⟨w, (h.2 w).mpr (.inl hw), hid, hc⟩

theorem Users.Rewrites.holds {u v : User} (h : before.Rewrites after u v) :
    after.Holds id c ↔ if v.id = id then c ∈ v.capabilities else before.Holds id c := by
  obtain ⟨hu, hid, hmem⟩ := h
  split
  · rename_i same
    constructor
    · rintro ⟨w, hw, hw', hc⟩
      rcases (hmem w).mp hw with rfl | ⟨-, other⟩
      · exact hc
      · exact absurd (hw'.trans (same.symm.trans hid)) other
    · exact fun hc => ⟨v, (hmem v).mpr (.inl rfl), same, hc⟩
  · rename_i other
    constructor
    · rintro ⟨w, hw, hw', hc⟩
      rcases (hmem w).mp hw with rfl | ⟨hw, -⟩
      · exact absurd hw' other
      · exact ⟨w, hw, hw', hc⟩
    · rintro ⟨w, hw, hw', hc⟩
      exact ⟨w, (hmem w).mpr (.inr ⟨hw, fun he => other (hid.trans (he.symm.trans hw'))⟩), hw', hc⟩

theorem Users.Removes.holds {u : User} (h : before.Removes after u) :
    after.Holds id c ↔ u.id ≠ id ∧ before.Holds id c := by
  constructor
  · rintro ⟨w, hw, rfl, hc⟩
    obtain ⟨hw, other⟩ := (h.2 w).mp hw
    exact ⟨fun same => other same.symm, w, hw, rfl, hc⟩
  · rintro ⟨other, w, hw, rfl, hc⟩
    exact ⟨w, (h.2 w).mpr ⟨hw, fun same => other same.symm⟩, rfl, hc⟩

/-- An event moves what the actor holds and what stands of it alike. -/
theorem Stands.push {a : AuthUser} {log : List SiteEvent} {e : Option SiteEvent}
    (effect : SiteEvent.Effect before after e)
    (fresh : ∀ b, e ≠ some (.loaded b)) (h : before.Holds a.id c ↔ Stands a c log) :
    after.Holds a.id c ↔ Stands a c (e.toList ++ log) := by
  cases e with
  | none =>
    obtain rfl := effect
    exact h
  | some e =>
    cases e with
    | loaded b => exact absurd rfl (fresh b)
    | added request u =>
      apply (Users.Adds.holds effect).trans
      rw [h]
      rfl
    | rewrote u =>
      obtain ⟨v, effect⟩ := effect
      apply effect.holds.trans
      rw [h]
      rfl
    | gone id =>
      obtain ⟨u, effect, rfl⟩ := effect
      apply effect.holds.trans
      rw [h]
      rfl

end

/-- What actors hold is what stands of it by the history; each request's actor is one that was loaded. -/
structure Loaded {ι : Type} (s : Frontend ι) (places : ι → Standing) : Prop where
  serving : ∀ i, s.serving i = (places i).serving
  actors : ∀ i request a, (places i).serving = some (request, some a) → .loaded a ∈ s.log
  stands : ∀ a c, .loaded a ∈ s.log → (s.users.Holds a.id c ↔ Stands a c s.log)

variable {ι : Type} [DecidableEq ι] {platform : Platform} {cases : Unicode.CaseData}

namespace Loaded
variable {s : Frontend ι} {places : ι → Standing}

omit [DecidableEq ι] in
theorem load (h : Loaded s places) {u : User} (hu : u ∈ s.users) :
    Loaded (s.push (some (.loaded u.authUser))) places where
  serving := h.serving
  actors i request a hi := List.mem_cons_of_mem _ (h.actors i request a hi)
  stands a c ha := by
    change s.users.Holds a.id c ↔ if u.authUser = a then a.has c = true else Stands a c s.log
    split
    · rename_i same
      subst same
      rw [u.authUser_has c]
      constructor
      · rintro ⟨v, hv, hid, hc⟩
        exact Users.eq_of_id hv hu hid ▸ hc
      · exact fun hc => ⟨u, hu, rfl, hc⟩
    · rename_i other
      rcases List.mem_cons.mp ha with he | ha
      · exact absurd (SiteEvent.loaded.inj he).symm other
      · exact h.stands a c ha

theorem session (h : Loaded s places) {i : ι} {request : Request} {actor : Option AuthUser}
    (known : ∀ a, actor = some a → .loaded a ∈ s.log) :
    Loaded { s with serving := Function.update s.serving i (some (request, actor)) }
      (Function.update places i ⟨some (request, actor), (places i).seen⟩) where
  serving := serving_session h.serving (request, actor) (places i).seen
  actors j request' a hi := by
    by_cases hj : j = i
    · subst hj
      rw [Function.update_self] at hi
      cases hi
      exact known a rfl
    · rw [Function.update_of_ne hj] at hi
      exact h.actors j request' a hi
  stands := h.stands

theorem serve (h : Loaded s places) {i : ι} {o : UserOp} {c : o.Choice} {seen : Seen} :
    Loaded (s.serve platform cases i o c).2 (Function.update places i ⟨(places i).serving, seen⟩) where
  serving j := (h.serving j).trans (serving_update seen j).symm
  actors j request a hi := List.mem_append_right _ (h.actors j request a ((serving_update seen j).symm.trans hi))
  stands a c' ha := by
    have fresh : ∀ b, o.event? (s.request i) ((userStore platform cases).exec o c s.server).1 ≠ some (.loaded b) :=
      fun b => UserOp.event?_ne_loaded
    have before : .loaded a ∈ s.log := by
      rcases List.mem_append.mp ha with he | ha
      · exact absurd (Option.mem_toList.mp he) (fresh a)
      · exact ha
    exact Stands.push (o.effect c (s.request i)) fresh (h.stands a c' before)

end Loaded

private theorem siteSystem_loaded {may : Frontend ι → ι → UserId → Prop} :
    (frontendPlaces ι platform cases).Keeps (siteSystem ι platform cases may) Loaded where
  begins s places i p loaded root _ := by
    obtain ⟨client, request, rfl⟩ := root
    refine ⟨places i, request.serve_fits i (places i) client, ?_⟩
    rw [Function.update_eq_self]
    exact loaded
  op s places i o c loaded ready ok := by
    cases o with
    | session me client request =>
      obtain rfl := ready
      exact loaded.session fun a ha => (ok a ha).1
    | user me o =>
      obtain ⟨rfl, -⟩ := ready
      exact loaded.serve
  env s t places loaded outside := by
    obtain ⟨u, hu, rfl⟩ := outside
    exact loaded.load hu
  crash _ _ _ _ crash := crash.elim

omit [DecidableEq ι] in
private theorem loaded_opened (server : Server) : Loaded (Frontend.opened ι server) fun _ =>
    ⟨none, none, false⟩ where
  serving _ := rfl
  actors _ _ _ h := by cases h
  stands _ _ h := by cases h

/-- Wherever an administration request is about to write, its actor's permissions were loaded at some
time before with what its checks require; and his row still has that if and only if it still stands by
the history since. -/
theorem authority_stands_iff {server : Server} {c : Config (frontend ι platform cases) ι (Except ServerFnError Reply)}
    (run : (siteSystem ι platform cases fun _ _ _ => True).Reaches (.idle (Frontend.opened ι server)) c)
    {i me : ι} {t : UserTxn} {next : (FrontendOp.user me (.transact t)).Value → Prog (frontendSignature ι) (Except ServerFnError Reply)}
    {request : Request} {actor : Option AuthUser} {capabilities : List Capability}
    (at_write : c.threads i = some (.call (FrontendOp.user me (.transact t)) next))
    (serves : c.state.serving i = some (request, actor)) (admin : request.Administrative)
    (writes : t.written = some capabilities) :
    ∃ a, actor = some a ∧ .loaded a ∈ c.state.log ∧ Requires capabilities (fun c' => a.has c' = true) ∧
      (Requires capabilities (c.state.users.Holds a.id) ↔ Requires capabilities fun c' => Stands a c' c.state.log) := by
  obtain ⟨places, linked, loaded⟩ := siteSystem_loaded.reaches (Discipline.linked_idle _ _)
    (loaded_opened server) run
  obtain ⟨⟨rfl, request', actor', here, ready⟩, -⟩ := (linked i).1 _ at_write
  obtain ⟨rfl, rfl⟩ := Prod.mk.inj (Option.some.inj (here.symm.trans ((loaded.serving me).symm.trans serves)))
  obtain ⟨a, ⟨rfl, either⟩, required⟩ := ready.authorised admin capabilities writes
  have known := loaded.actors me request' a here
  exact ⟨a, rfl, known, ⟨either, required⟩, Requires.congr fun c' => loaded.stands a c' known⟩

def boss : User := ⟨1, 1, "boss", "Boss", "salt$secret", ⟨"boss@x.org", by decide⟩, [.superAdmin], false⟩

def ben : User := ⟨2, 1, "ben", "Ben", "salt$secret", ⟨"ben@x.org", by decide⟩, [.admin], false⟩

/-- An administrator, and the SuperAdmin who deletes him while both are logged in. -/
def pairServer : Server where
  users := ⟨⟨[boss, ben], by simp [boss, ben]⟩, by simp [boss, ben], by simp [boss, ben]⟩
  login client := some (if client = 0 then 1 else 2)

def pairLoaded : Frontend Nat :=
  ((Frontend.opened Nat pairServer).push (some (.loaded boss.authUser))).push (some (.loaded ben.authUser))

/-- The sessions of the two, in an environment in which nothing fails. -/
def asPair (me : Nat) : (o : FrontendOp Nat) → o.Choice
  | .session _ _ _ => some (if me = 0 then boss else ben).authUser
  | .user _ o => drawing 3 o

abbrev pairSystem := siteSystem Nat plainPlatform latinCases fun _ _ _ => True

def fireBen : Request := .adminDeleteUser "U_2"

def hireEve : Request := .adminCreateUser "eve" "Eve" "eve@x.org" "secret" []

def bothServed : Config (frontend Nat plainPlatform latinCases) Nat (Except ServerFnError Reply) :=
  ((Config.idle pairLoaded).set pairLoaded 0 (fireBen.serve plainPlatform 0 0)).set pairLoaded 1
    (hireEve.serve plainPlatform 1 1)

private theorem bothServed_reached : pairSystem.Reaches (.idle (Frontend.opened Nat pairServer)) bothServed := by
  have loadBoss : pairSystem.Step (.idle (Frontend.opened Nat pairServer))
      (.idle ((Frontend.opened Nat pairServer).push (some (.loaded boss.authUser)))) :=
    .outside _ ⟨boss, List.mem_cons_self, rfl⟩
  have loadBen : pairSystem.Step (.idle ((Frontend.opened Nat pairServer).push (some (.loaded boss.authUser))))
      (.idle pairLoaded) :=
    .outside _ ⟨ben, List.mem_cons_of_mem _ List.mem_cons_self, rfl⟩
  have fire : pairSystem.Step (.idle pairLoaded)
      ((Config.idle pairLoaded).set pairLoaded 0 (fireBen.serve plainPlatform 0 0)) :=
    System.step_start rfl ⟨_, _, rfl⟩
  have hire : pairSystem.Step ((Config.idle pairLoaded).set pairLoaded 0 (fireBen.serve plainPlatform 0 0)) bothServed :=
    System.step_start rfl ⟨_, _, rfl⟩
  exact (((Relation.ReflTransGen.single loadBoss).tail loadBen).tail fire).tail hire

/-- The SuperAdmin's deletion has gone through when the administrator's request is about to add a user. -/
private def fired : Config (frontend Nat plainPlatform latinCases) Nat (Except ServerFnError Reply) :=
  [0, 0, 0, 1, 1].foldl (fun c i => c.advance (asPair i) i) bothServed

private theorem fired_reached : pairSystem.Reaches (.idle (Frontend.opened Nat pairServer)) fired := by
  have asBoss : ∀ a, some boss.authUser = some a → .loaded a ∈ pairLoaded.log ∧
      pairLoaded.server.login 0 = some a.id := by
    intro a ha
    cases ha
    exact ⟨List.mem_cons_of_mem _ List.mem_cons_self, rfl⟩
  have asBen (s : Frontend Nat) (log : .loaded ben.authUser ∈ s.log) (login : s.server.login = pairServer.login) :
      ∀ a, some ben.authUser = some a → .loaded a ∈ s.log ∧ s.server.login 1 = some a.id := by
    intro a ha
    cases ha
    exact ⟨log, congrFun login 1⟩
  have permits : pairSystem.Permits asPair bothServed [0, 0, 0, 1, 1] :=
    ⟨asBoss, trivial, trivial, asBen _ (List.mem_cons_of_mem _ List.mem_cons_self) rfl, trivial, trivial⟩
  exact bothServed_reached.trans permits.reaches

private def newEve : NewUser := ⟨"eve", "Eve", "salt$secret", ⟨"eve@x.org", by decide⟩, [], true⟩

/-- The deleted administrator adds a user. -/
theorem authority_revoked_usable : ∃ c c' : Config (frontend Nat plainPlatform latinCases) Nat
    (Except ServerFnError Reply),
    pairSystem.Reaches (.idle (Frontend.opened Nat pairServer)) c ∧ pairSystem.Step c c' ∧
      c.result? 0 = some (.ok .done) ∧ c.state.serving 1 = some (hireEve, some ben.authUser) ∧
      c'.state.log = .added (some hireEve) ⟨3, 1, "eve", "Eve", "salt$secret", ⟨"eve@x.org", by decide⟩, [], true⟩ :: c.state.log ∧
      c.state.users.rows.map User.username = ["boss"] ∧ c'.state.users.rows.map User.username = ["boss", "eve"] ∧
      ∀ u ∈ c.state.users, u.id ≠ ben.authUser.id := by
  refine ⟨fired, fired.advance (asPair 1) 1, fired_reached, ?_, rfl, rfl, rfl, rfl, rfl, ?_⟩
  · exact System.step_advance rfl trivial
  · intro u hu
    rcases List.mem_singleton.mp hu with rfl
    decide

/-- The same request while its actor's row is still there. -/
theorem authority_stands_iff_hired : ∃ (c : Config (frontend Nat plainPlatform latinCases) Nat (Except ServerFnError Reply))
    (a : AuthUser), some ben.authUser = some a ∧ .loaded a ∈ c.state.log ∧ Requires [] (fun c' => a.has c' = true) ∧
      (Requires [] (c.state.users.Holds a.id) ↔ Requires [] fun c' => Stands a c' c.state.log) := by
  have permits : pairSystem.Permits asPair bothServed [1, 1] := by
    refine ⟨?_, trivial, trivial⟩
    intro a ha
    cases ha
    exact ⟨List.mem_cons_self, rfl⟩
  exact ⟨_, authority_stands_iff (bothServed_reached.trans permits.reaches) (i := 1) (t := .addUser newEve) rfl rfl trivial rfl⟩

end MailKeep
