import MailKeep.Users.Lookups

/-! Requests that are served side by side. The session layer hands each the user it has loaded at some
earlier time, and every transaction on the users is a step of its own. -/
namespace MailKeep
open Program

inductive SiteEvent
  | loaded (actor : AuthUser)
  | added (request : Option Request) (u : User)
  | rewrote (u : User)
  | gone (id : UserId)

/-- What a transaction that has gone through leaves in the history. -/
def UserTxn.event? (request : Option Request) : (t : UserTxn) → t.Result → Option SiteEvent
  | addUser _, u => some (.added request u)
  | updateUser _, u => some (.rewrote u)
  | deleteUser _, u => some (.gone u.id)
  | _, _ => none

def UserOp.event? (request : Option Request) : (o : UserOp) → o.Value → Option SiteEvent
  | transact t, .ok r => t.event? request r
  | _, _ => none

theorem UserOp.event?_ne_loaded {request : Option Request} {o : UserOp} {r : o.Value} {a : AuthUser} :
    o.event? request r ≠ some (.loaded a) := by
  cases o with
  | encryptPassword _ | loginUser _ _ => nofun
  | transact t =>
    cases r with
    | error e => nofun
    | ok r => cases t <;> nofun

def SiteEvent.Effect (before after : Users) : Option SiteEvent → Prop
  | some (.added _ u) => before.Adds after u
  | some (.rewrote u) => ∃ v, before.Rewrites after v u
  | some (.gone id) => ∃ u, before.Removes after u ∧ u.id = id
  | some (.loaded _) | none => after = before

theorem UserTxn.effect {cases : Unicode.CaseData} {d : UserDraw} {t : UserTxn} {r : t.Result} {before after : Users}
    (h : t.body cases d before = .ok (r, after)) (request : Option Request) :
    SiteEvent.Effect before after (t.event? request r) := by
  cases t with
  | findById id => exact (UserRepository.findById_ok h).1
  | findByUsername | findByEmail =>
    cases h
    rfl
  | listUsers => exact UserRepository.listUsers_ok h
  | addUser user =>
    obtain ⟨hid, -, -, -, fresh, hmem⟩ := UserRepository.addUser_ok h
    exact ⟨hid ▸ fresh, hmem⟩
  | updateUser user =>
    obtain ⟨v, hv, hid, -, rfl, hmem⟩ := UserRepository.updateUser_ok h
    exact ⟨v, hv, UserRepository.updated_id _ _ _, hid ▸ hmem⟩
  | deleteUser id =>
    obtain ⟨hu, hid, hmem⟩ := UserRepository.deleteUser_ok h
    exact ⟨r, ⟨hu, hid ▸ hmem⟩, rfl⟩

theorem UserOp.effect {platform : Platform} {cases : Unicode.CaseData} {s : Server} (o : UserOp) (c : o.Choice)
    (request : Option Request) : SiteEvent.Effect s.users ((userStore platform cases).exec o c s).2.users
      (o.event? request ((userStore platform cases).exec o c s).1) := by
  cases o with
  | encryptPassword _ | loginUser _ _ => rfl
  | transact t =>
    change SiteEvent.Effect s.users (s.transact cases t c).2.users
      (UserOp.event? request (.transact t) (s.transact cases t c).1)
    unfold Server.transact
    split
    · rfl
    · split
      · rfl
      · rename_i r users hb
        exact UserTxn.effect hb request

/-- `log` is a history, newest first, and `since i` what it has got since the last listing of a thread. -/
structure Frontend (ι : Type) where
  server : Server
  log : List SiteEvent
  serving : ι → Option (Request × Option AuthUser)
  since : ι → List SiteEvent

inductive FrontendOp (ι : Type)
  | session (me : ι) (client : ClientId) (request : Request)
  | user (me : ι) (o : UserOp)

abbrev FrontendOp.Value : FrontendOp ι → Type
  | session _ _ _ => Option AuthUser
  | user _ o => o.Value

/-- The session layer answers with what it has kept of a user, if it has. -/
abbrev FrontendOp.Choice : FrontendOp ι → Type
  | session _ _ _ => Option AuthUser
  | user _ o => o.Choice

def UserOp.page (since : List SiteEvent) : (o : UserOp) → o.Value → List SiteEvent
  | transact (.listUsers _ _), .ok _ => []
  | _, _ => since

namespace Frontend
variable {ι : Type}

abbrev users (s : Frontend ι) : Users := s.server.users

def push (s : Frontend ι) (e : Option SiteEvent) : Frontend ι :=
  { s with log := e.toList ++ s.log, since := fun i => e.toList ++ s.since i }

def request (s : Frontend ι) (me : ι) : Option Request := (s.serving me).map Prod.fst

/-- The server loads a user for the sessions that are his. -/
def Loads (s t : Frontend ι) : Prop := ∃ u ∈ s.users, t = s.push (some (.loaded u.authUser))

variable [DecidableEq ι]

def serve (platform : Platform) (cases : Unicode.CaseData) (s : Frontend ι) (me : ι) (o : UserOp) (c : o.Choice) :
    o.Value × Frontend ι :=
  let (reply, server) := (userStore platform cases).exec o c s.server
  let pushed := { s with server := server }.push (o.event? (s.request me) reply)
  (reply, { pushed with since := Function.update pushed.since me (o.page (pushed.since me) reply) })

end Frontend

abbrev frontendSignature (ι : Type) : Signature := ⟨FrontendOp ι, FrontendOp.Value⟩

abbrev frontend (ι : Type) [DecidableEq ι] (platform : Platform) (cases : Unicode.CaseData) : Machine where
  toSignature := frontendSignature ι
  State := Frontend ι
  Choice := FrontendOp.Choice
  exec
    | .session me _ request, actor, s => (actor, { s with serving := Function.update s.serving me (some (request, actor)) })
    | .user me o, c, s => s.serve platform cases me o c

def Frontend.opened (ι : Type) (server : Server) : Frontend ι := ⟨server, [], fun _ => none, fun _ => []⟩

def servedBy (me : ι) : Embedding userSignature (frontendSignature ι) := ⟨.user me, fun _ r => r⟩

def Request.serve (platform : Platform) (me : ι) (client : ClientId) (request : Request) :
    Prog (frontendSignature ι) (Except ServerFnError Reply) :=
  .call (FrontendOp.session me client request) fun actor =>
    (request.handle platform client actor).run.embed (servedBy me)

variable {ι : Type} [DecidableEq ι] {platform : Platform} {cases : Unicode.CaseData}

/-- Any number of requests. A user is added where `may` lets the thread add him with the token drawn. -/
def siteSystem (ι : Type) [DecidableEq ι] (platform : Platform) (cases : Unicode.CaseData)
    (may : Frontend ι → ι → UserId → Prop) : System (frontend ι platform cases) ι (Except ServerFnError Reply) where
  allowed
    | s, .session _ client _, actor => ∀ a, actor = some a → .loaded a ∈ s.log ∧ s.server.login client = some a.id
    | s, .user me (.transact (.addUser _)), .ok d => may s me d.token
    | _, _, _ => True
  root _ i p := ∃ (client : ClientId) (request : Request), p = request.serve platform i client
  env := Frontend.Loads
  crash _ _ := False

/-- Where a thread stands: the request it serves and what it has seen. -/
structure Standing where
  serving : Option (Request × Option AuthUser)
  seen : Seen

def frontendPlaces (ι : Type) [DecidableEq ι] (platform : Platform) (cases : Unicode.CaseData) :
    Discipline (frontend ι platform cases) ι Standing where
  start := ⟨none, none, false⟩
  ready
    | i, _, .session me _ _ => me = i
    | i, place, .user me o => me = i ∧ ∃ request actor, place.serving = some (request, actor) ∧
      o.Ready request actor place.seen
  after
    | place, .session _ _ request, actor => ⟨some (request, actor), place.seen⟩
    | place, .user _ o, reply => ⟨place.serving, place.seen.after o reply⟩
  done _ := True

theorem Request.serve_fits (i : ι) (place : Standing) (client : ClientId) (request : Request) :
    (frontendPlaces ι platform cases).Fits i place (request.serve platform i client) := by
  refine ⟨rfl, fun actor => ?_⟩
  have follows : (userPlaces ι platform cases request actor).Leads i (fun _ _ => True) place.seen
      (request.handle platform client actor).run :=
    Request.follows client
  have embedded : (frontendPlaces ι platform cases).Leads i (fun _ _ => True) ⟨some (request, actor), place.seen⟩
      ((request.handle platform client actor).run.embed (servedBy i)) := by
    refine Discipline.Leads.embed (N := frontend ι platform cases) (servedBy i)
      (Standing.mk (some (request, actor))) (fun _ _ => True) ?_ ?_ follows
    · exact fun q o ready => ⟨rfl, request, actor, rfl, ready⟩
    · exact fun q o r => rfl
  exact Discipline.Leads.fits embedded

section
variable {s : Frontend ι} {places : ι → Standing} {i : ι}

theorem serving_session (h : ∀ j, s.serving j = (places j).serving) (x : Request × Option AuthUser)
    (seen : Seen) (j : ι) :
    Function.update s.serving i (some x) j = (Function.update places i ⟨some x, seen⟩ j).serving := by
  by_cases hj : j = i
  · subst hj
    rw [Function.update_self, Function.update_self]
  · rw [Function.update_of_ne hj, Function.update_of_ne hj]
    exact h j

theorem serving_update (seen : Seen) (j : ι) :
    (Function.update places i ⟨(places i).serving, seen⟩ j).serving = (places j).serving := by
  rw [Function.update_apply]
  split
  · rename_i hj
    rw [hj]
  · rfl

theorem seen_update (serving : Option (Request × Option AuthUser)) (j : ι) :
    (Function.update places i ⟨serving, (places i).seen⟩ j).seen = (places j).seen := by
  rw [Function.update_apply]
  split
  · rename_i hj
    rw [hj]
  · rfl

end
end MailKeep
