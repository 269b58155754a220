import MailKeep.Accounts.Deletion

/-! The two ways an account goes, by its own deletion and with its owner, one after the other: what each leaves
outside the database. -/
namespace MailKeep
open Program Installation

namespace Installation

def stop (s : Installation) (accountId : AccountId) : Installation :=
  { s with running := Function.update s.running accountId false }

def deleteRows (s : Installation) (gone : AccountId → Bool) : Installation :=
  { s with world := { s.world with db := s.world.db.deleteAccounts gone } }

def removed (s : Installation) (accountId : AccountId) (store : Store) : Installation :=
  (s.removePart accountId none store).clean accountId store

def withoutAccount (s : Installation) (accountId : AccountId) : Installation :=
  (((((s.stop accountId).deleteRows (· = accountId)).removed accountId .raw).removed accountId .attachments).removed
    accountId .docs)

def withoutUser (s : Installation) (users : Users) (id : UserId) : Installation :=
  { s.deleteRows fun a => (s.world.db.accounts.find? a).any (·.userId = id) with users := users }

end Installation

section
variable {computeHash : Bytes → ContentHash} {platform : Platform} {cases : Unicode.CaseData}

abbrev anyhow (computeHash : Bytes → ContentHash) (platform : Platform) (cases : Unicode.CaseData) :
    (installation computeHash platform cases).Allowed := fun _ _ _ => True

private theorem removeOrWarn_runs {s t : Installation} {accountId : AccountId} {store : Store} {u : Unit}
    (h : Runs (anyhow computeHash platform cases) (removeOrWarn accountId store).run s (.ok u) t) :
    t = s.removed accountId store ∧ t.warnings.length = s.warnings.length ∨
      s.warnings.length < t.warnings.length := by
  obtain ⟨r, mid, hr, h⟩ := runs_seq.mp h
  obtain ⟨c, -, rfl, rfl⟩ := runs_op.mp (runs_attempt.mp hr)
  cases c with
  | none =>
    obtain ⟨-, rfl⟩ := runs_ret.mp h
    exact .inl ⟨rfl, congrArg List.length (s.removePart_history accountId none store).2⟩
  | some f =>
    obtain ⟨-, -, -, rfl⟩ := runs_op.mp h
    have warned : (s.removePart accountId (some f) store).warnings.length = s.warnings.length :=
      congrArg List.length (s.removePart_history accountId (some f) store).2
    exact .inr (Nat.lt_succ_of_le warned.ge)

/-- Without a warning every store has been cleaned. -/
private theorem deleteAccount_runs {s t : Installation} {userId : UserId} {accountId : AccountId} {u : Unit}
    (h : Runs (anyhow computeHash platform cases) (deleteAccount userId accountId).run s (.ok u) t)
    (quiet : t.warnings = s.warnings) :
    t = (((s.deleteRows (· = accountId)).removed accountId .raw).removed accountId .attachments).removed accountId .docs := by
  obtain ⟨account, s₁, hd, h⟩ := runs_seq.mp h
  obtain ⟨c, -, hok, hs₁⟩ := runs_op.mp hd
  obtain ⟨db, hdb, hs⟩ := transact_ok hok
  obtain ⟨-, rfl, rfl⟩ := AccountService.deleteAccount_ok hdb
  obtain rfl : s₁ = s.deleteRows (· = account.id) := hs₁.symm.trans hs
  obtain ⟨_, s₂, raw, h⟩ := runs_seq.mp h
  obtain ⟨_, s₃, attachments, docs⟩ := runs_seq.mp h
  have same : (s.deleteRows (· = account.id)).warnings.length = t.warnings.length := congrArg List.length quiet.symm
  have through : s₂ = (s.deleteRows (· = account.id)).removed account.id .raw ∧
    s₃ = s₂.removed account.id .attachments ∧
      t = s₃.removed account.id .docs := by
    rcases removeOrWarn_runs raw with ⟨h₂, _⟩ | _
    all_goals rcases removeOrWarn_runs attachments with ⟨h₃, _⟩ | _
    all_goals rcases removeOrWarn_runs docs with ⟨h₄, _⟩ | _
    · exact ⟨h₂, h₃, h₄⟩
    all_goals omega
  obtain ⟨rfl, rfl, rfl⟩ := through
  rfl

variable {parseAccountToken : String → Except Error AccountId}

/-- The request of an account's owner that reports no failure. -/
private theorem accountRequest_runs {s t : Installation} {actor : Option AuthUser}
    {accountToken : String} {u : Unit}
    (h : Runs (anyhow computeHash platform cases) (AccountActions.deleteAccount parseAccountToken actor accountToken).run
      s (.ok u) t) (quiet : t.warnings = s.warnings) :
    ∃ account ∈ s.world.db.accounts, t = s.withoutAccount account.id := by
  obtain ⟨user, s₁, hu, h₁⟩ := runs_seq.mp h
  obtain ⟨-, rfl⟩ := runs_liftResult.mp hu
  obtain ⟨accountId, s₂, hi, h₂⟩ := runs_seq.mp h₁
  obtain ⟨-, rfl⟩ := runs_liftResult.mp (runs_mapErr.mp hi)
  obtain ⟨account, s₃, hg, h₃⟩ := runs_seq.mp h₂
  obtain ⟨c, -, hok, hs₃⟩ := runs_op.mp (runs_mapErr.mp hg)
  obtain ⟨db, hdb, hs⟩ := transact_ok hok
  obtain ⟨rfl, hm, rfl, -⟩ := AccountService.ownAccount_ok hdb
  obtain rfl : s₃ = s := hs₃.symm.trans hs
  obtain ⟨r, s₄, ha, h₄⟩ := runs_seq.mp h₃
  obtain ⟨_, _, _, rfl⟩ := runs_op.mp (runs_attempt.mp ha)
  exact ⟨account, hm, deleteAccount_runs (runs_mapErr.mp h₄) quiet⟩

private theorem userTransact_ok {s : Installation} {t : UserTxn} {c : Except DbErr UserDraw} {r : t.Result}
    (h : ((installation computeHash platform cases).exec (.user (.transact t)) c s).1 = .ok r) :
    ∃ d users, t.body cases d s.users = .ok (r, users) ∧
      ((installation computeHash platform cases).exec (.user (.transact t)) c s).2 =
        { s with users := users, world := { s.world with db := s.cascade (.transact t) (.ok r) } } := by
  change (Server.transact cases ⟨s.users, s.login⟩ t c).1 = .ok r at h
  change ∃ d users, _ ∧ ({ s with
    users := (Server.transact cases ⟨s.users, s.login⟩ t c).2.users
    login := (Server.transact cases ⟨s.users, s.login⟩ t c).2.login
    world := { s.world with db := s.cascade (.transact t) (Server.transact cases ⟨s.users, s.login⟩ t c).1 } } : Installation) = _
  rw [h]
  cases c with
  | error e => cases h
  | ok d =>
    unfold Server.transact at h ⊢
    dsimp only at h ⊢
    split at h
    · cases h
    · rename_i found users hb
      cases h
      exact ⟨d, users, hb, rfl⟩

/-- The request of an administrator that reports no failure. -/
private theorem userRequest_runs {s t : Installation} {actor : Option AuthUser} {token : String} {reply : Reply}
    (h : Runs (anyhow computeHash platform cases) (onUsers.act (adminDeleteUser platform actor token)).run s (.ok reply) t) :
    ∃ id users, platform.parseToken token = .ok id ∧ t = s.withoutUser users id := by
  unfold adminDeleteUser requireAdmin authenticatedUser MailKeep.orElse at h
  simp only [Embedding.act_bind, Embedding.act_mapErr, Embedding.act_liftResult, Embedding.act_reject, Embedding.act_pure] at h
  obtain ⟨a, s₁, ha, h₁⟩ := runs_seq.mp h
  have unchanged : s₁ = s := by
    obtain ⟨b, s₂, hb, h₂⟩ := runs_seq.mp ha
    obtain ⟨_, rfl⟩ := runs_liftResult.mp hb
    obtain ⟨_, s₃, hr, h₃⟩ := runs_seq.mp h₂
    obtain ⟨_, rfl⟩ := runs_reject.mp hr
    exact (runs_ret.mp h₃).2.symm
  subst unchanged
  obtain ⟨_, s₂, hr, h₂⟩ := runs_seq.mp h₁
  obtain ⟨_, rfl⟩ := runs_reject.mp hr
  obtain ⟨id, s₃, hp, h₃⟩ := runs_seq.mp h₂
  obtain ⟨parsed, rfl⟩ := runs_liftResult.mp (runs_mapErr.mp hp)
  obtain ⟨found, s₄, hf, h₄⟩ := runs_seq.mp h₃
  obtain ⟨c, _, hok, hs₄⟩ := runs_op.mp (runs_mapErr.mp hf)
  obtain ⟨d, users, hbody, hexec⟩ := userTransact_ok hok
  obtain ⟨rfl, hfound⟩ := UserRepository.findById_ok hbody
  obtain rfl : s₄ = s₁ := hs₄.symm.trans hexec
  obtain ⟨user, s₅, hu, h₅⟩ := runs_seq.mp h₄
  obtain ⟨hsome, rfl⟩ := runs_liftResult.mp hu
  have same : user.id = id := by
    cases found with
    | none => cases hsome
    | some v =>
      cases hsome
      exact (Keyed.Table.find?_eq_some.mp hfound.symm).2
  obtain ⟨_, s₆, hs, h₆⟩ := runs_seq.mp h₅
  obtain ⟨_, rfl⟩ := runs_reject.mp hs
  obtain ⟨gone, s₇, hd, h₇⟩ := runs_seq.mp h₆
  obtain ⟨c', _, hok', hs₇⟩ := runs_op.mp (runs_mapErr.mp hd)
  obtain ⟨d', users, hbody', hexec'⟩ := userTransact_ok hok'
  obtain ⟨_, rfl⟩ := runs_ret.mp h₇
  exact ⟨id, users, parsed, (hs₇.symm.trans hexec').trans (by rw [same]; rfl)⟩

end

/-- A request that deletes: an owner's for an account, or an administrator's for a user. -/
inductive Removal
  | account (actor : Option AuthUser) (accountToken : String)
  | user (actor : Option AuthUser) (token : String)

/-- Only the deletion of an account commits the index, with all that its writer holds. -/
def Removal.commits : Removal → Bool
  | account _ _ => true
  | user _ _ => false

def Removal.user? (platform : Platform) : Removal → Option UserId
  | account _ _ => none
  | user _ token => (platform.parseToken token).toOption

def Removal.program (platform : Platform) (parseAccountToken : String → Except Error AccountId) :
    Removal → InstallationAction ServerFnError Unit
  | account actor accountToken => AccountActions.deleteAccount parseAccountToken actor accountToken
  | user actor token => do let _ ← onUsers.act (adminDeleteUser platform actor token)

/-- Requests served one after the other, each with the installation it found; none reports a failure. -/
inductive Removals (computeHash : Bytes → ContentHash) (platform : Platform) (cases : Unicode.CaseData)
    (parseAccountToken : String → Except Error AccountId) :
    Installation → List (Removal × Installation) → Installation → Prop
  | none (s : Installation) : Removals computeHash platform cases parseAccountToken s [] s
  | next {s t s' : Installation} {r : Removal} {rest : List (Removal × Installation)}
      (runs : Runs (anyhow computeHash platform cases) (r.program platform parseAccountToken).run s (.ok ()) t)
      (quiet : t.warnings = s.warnings) (then_ : Removals computeHash platform cases parseAccountToken t rest s') :
      Removals computeHash platform cases parseAccountToken s ((r, s) :: rest) s'

namespace Installation

/-- Nothing of the account is left outside the database, and no task syncs it. -/
def Bare (s : Installation) (accountId : AccountId) : Prop := s.Erased accountId ∧ s.running accountId = false

/-- The installation with the index that later requests will have committed. -/
def asOf (s : Installation) (rest : List (Removal × Installation)) : Installation :=
  if rest.any (·.1.commits) then s.commit else s

variable {s : Installation}

private theorem asOf_cons (s : Installation) (r : Removal) (t : Installation) (rest : List (Removal × Installation)) :
    s.asOf ((r, t) :: rest) = if r.commits then s.commit else s.asOf rest := by
  cases h : r.commits <;> simp only [asOf, List.any_cons, h, Bool.true_or, Bool.false_or, if_true, Bool.false_eq_true, if_false]

private theorem withoutAccount_asOf (s : Installation) (id : AccountId) (rest : List (Removal × Installation)) :
    (s.withoutAccount id).asOf rest = s.withoutAccount id := by
  unfold asOf
  split <;> rfl

private theorem withoutAccount_holds (s : Installation) (id k : AccountId) (store : Store) :
    (s.withoutAccount id).Holds k store ↔ k ≠ id ∧ s.commit.Holds k store := by
  cases store with
  | raw =>
    change (∃ hash, removeBlobs s.world.raw id (fun _ => false) k hash ≠ none) ↔ k ≠ id ∧
      ∃ hash, s.world.raw k hash ≠ none
    simp [removeBlobs]
  | attachments =>
    change (∃ hash, removeBlobs s.world.attachments id (fun _ => false) k hash ≠ none) ↔
      k ≠ id ∧ ∃ hash, s.world.attachments k hash ≠ none
    simp [removeBlobs]
  | docs =>
    change (∃ d ∈ s.writer.filter fun d => d.accountId ≠ id, d.accountId = k) ↔ k ≠ id ∧
      ∃ d ∈ s.writer, d.accountId = k
    constructor
    · rintro ⟨d, hd, rfl⟩
      obtain ⟨hm, other⟩ := List.mem_filter.mp hd
      exact ⟨of_decide_eq_true other, d, hm, rfl⟩
    · rintro ⟨other, d, hm, rfl⟩
      exact ⟨d, List.mem_filter.mpr ⟨hm, decide_eq_true other⟩, rfl⟩

private theorem withoutAccount_bare (s : Installation) (id k : AccountId) :
    (s.withoutAccount id).Bare k ↔ k = id ∨ s.commit.Bare k := by
  have running : (s.withoutAccount id).running k = if k = id then false else s.running k := by
    change Function.update s.running id false k = _
    rw [Function.update_apply]
  unfold Bare Erased
  simp only [withoutAccount_holds, running]
  by_cases same : k = id
  · simp [same]
  · simp only [same, not_false_eq_true, ne_eq, true_and, if_false, false_or]
    rfl

private theorem withoutUser_bare (s : Installation) (users : Users) (id : UserId) (rest : List (Removal × Installation))
    (k : AccountId) : ((s.withoutUser users id).asOf rest).Bare k ↔ (s.asOf rest).Bare k := by
  unfold asOf
  split
  all_goals exact and_congr_left' (forall_congr' fun store => not_congr (holds_congr rfl rfl rfl k store))

private theorem mem_withoutAccount {id : AccountId} {a : Account} :
    a ∈ (s.withoutAccount id).world.db.accounts ↔ a ∈ s.world.db.accounts ∧ a.id ≠ id := by
  change a ∈ s.world.db.accounts.filter _ ↔ _
  simp

private theorem mem_withoutUser {users : Users} {id : UserId} {a : Account} :
    a ∈ (s.withoutUser users id).world.db.accounts ↔ a ∈ s.world.db.accounts ∧ a.userId ≠ id := by
  change a ∈ s.world.db.accounts.filter _ ↔ _
  rw [Keyed.Table.mem_filter]
  apply and_congr_right
  intro ha
  dsimp only
  rw [Keyed.Table.find?_eq_some.mpr ⟨ha, rfl⟩]
  simp

end Installation

/-- Each user deleted owned only accounts of which nothing was left, nor would the later commits have left anything. -/
def Harmless (platform : Platform) : List (Removal × Installation) → Prop
  | [] => True
  | (r, s) :: rest =>
    (∀ id, r.user? platform = some id → ∀ a ∈ s.world.db.accounts, a.userId = id → (s.asOf rest).Bare a.id) ∧
      Harmless platform rest

section
variable {computeHash : Bytes → ContentHash} {platform : Platform} {cases : Unicode.CaseData}
  {parseAccountToken : String → Except Error AccountId} {s s' : Installation}
    {requests : List (Removal × Installation)}

/-- What a request does that reports no failure. -/
private theorem Removal.effect {r : Removal} {t : Installation}
    (h : Runs (anyhow computeHash platform cases) (r.program platform parseAccountToken).run s (.ok ()) t)
    (quiet : t.warnings = s.warnings) :
    (r.commits = true ∧ r.user? platform = none ∧ ∃ account ∈ s.world.db.accounts, t = s.withoutAccount account.id) ∨
      r.commits = false ∧ ∃ id users, r.user? platform = some id ∧ t = s.withoutUser users id := by
  cases r with
  | account actor accountToken => exact .inl ⟨rfl, rfl, accountRequest_runs h quiet⟩
  | user actor token =>
    obtain ⟨reply, mid, hr, h'⟩ := runs_seq.mp h
    obtain ⟨_, rfl⟩ := runs_ret.mp h'
    obtain ⟨id, users, parsed, ht⟩ := userRequest_runs hr
    exact .inr ⟨rfl, id, users, by simp only [user?, parsed]; rfl, ht⟩

/-- Requests only take rows away. -/
theorem Removals.accounts (h : Removals computeHash platform cases parseAccountToken s requests s') :
    ∀ a ∈ s'.world.db.accounts, a ∈ s.world.db.accounts := by
  induction h with
  | none s => exact fun a ha => ha
  | next runs quiet then_ ih =>
    intro a ha
    have ha := ih a ha
    rcases Removal.effect runs quiet with ⟨-, -, account, -, rfl⟩ | ⟨-, id, users, -, rfl⟩
    · exact (mem_withoutAccount.mp ha).1
    · exact (mem_withoutUser.mp ha).1

/-- What is left of an account without a row is what the commits to come leave. -/
private theorem Removals.bare_iff (h : Removals computeHash platform cases parseAccountToken s requests s')
    {id : AccountId}
    (gone : ∀ a ∈ s.world.db.accounts, a.id ≠ id) : s'.Bare id ↔ (s.asOf requests).Bare id := by
  induction h with
  | none s => exact Iff.rfl
  | next runs quiet then_ ih =>
    rw [asOf_cons]
    rcases Removal.effect runs quiet with ⟨commits, -, account, ha, rfl⟩ | ⟨silent, user, users, -, rfl⟩
    · rw [ih fun a ha => gone a (mem_withoutAccount.mp ha).1, if_pos commits, withoutAccount_asOf, withoutAccount_bare]
      exact or_iff_right (Ne.symm (gone account ha))
    · rw [ih fun a ha => gone a (mem_withoutUser.mp ha).1, if_neg (by simp [silent]), withoutUser_bare]

/-- The accounts that go with a request are judged by what it leaves of them, the others by the requests to come. -/
private theorem Removals.split {t : Installation}
    (h : Removals computeHash platform cases parseAccountToken t requests s')
    (goes : Account → Prop) (rows : ∀ a, a ∈ t.world.db.accounts ↔ a ∈ s.world.db.accounts ∧ ¬ goes a) :
    (∀ a ∈ s.world.db.accounts, (∀ b ∈ s'.world.db.accounts, b.id ≠ a.id) → s'.Bare a.id) ↔
      (∀ a ∈ s.world.db.accounts, goes a → (t.asOf requests).Bare a.id) ∧
        ∀ a ∈ t.world.db.accounts, (∀ b ∈ s'.world.db.accounts, b.id ≠ a.id) → s'.Bare a.id := by
  have alone : ∀ a ∈ s.world.db.accounts, goes a → ∀ b ∈ t.world.db.accounts, b.id ≠ a.id := by
    intro a ha ga b hb same
    obtain ⟨hb, stays⟩ := (rows b).mp hb
    exact stays (Keyed.Table.eq_of_key hb ha same ▸ ga)
  constructor
  · intro all
    refine ⟨fun a ha ga => ?_, fun a ha gone => all a ((rows a).mp ha).1 gone⟩
    exact (h.bare_iff (alone a ha ga)).mp (all a ha fun b hb => alone a ha ga b (h.accounts b hb))
  · rintro ⟨now, later⟩ a ha gone
    by_cases ga : goes a
    · exact (h.bare_iff (alone a ha ga)).mpr (now a ha ga)
    · exact later a ((rows a).mpr ⟨ha, ga⟩) gone

/-- After any sequence of deletions that report no failure, every account whose row has disappeared is bare, just
where the deletions of users found nothing of their accounts that they would have had to clean up. -/
theorem gone_accounts_bare_iff (h : Removals computeHash platform cases parseAccountToken s requests s') :
    (∀ a ∈ s.world.db.accounts, (∀ b ∈ s'.world.db.accounts, b.id ≠ a.id) → s'.Bare a.id) ↔
      Harmless platform requests := by
  induction h with
  | none s => exact iff_of_true (fun a ha gone => absurd rfl (gone a ha)) trivial
  | @next s t s' r rest runs quiet then_ ih =>
    rcases Removal.effect runs quiet with ⟨-, none, account, -, rfl⟩ | ⟨-, user, users, some, rfl⟩
    · rw [then_.split (·.id = account.id) fun a => mem_withoutAccount, ih]
      refine and_congr_left' (iff_of_true (fun a _ goes => ?_) fun id hid => (by cases none.symm.trans hid))
      rw [withoutAccount_asOf, withoutAccount_bare]
      exact .inl goes
    · rw [then_.split (·.userId = user) fun a => mem_withoutUser, ih]
      refine and_congr_left' ⟨fun left id hid a ha owned => ?_, fun left a ha owned => ?_⟩
      · obtain rfl : user = id := Option.some.inj (some.symm.trans hid)
        exact (withoutUser_bare s users user rest a.id).mp (left a ha owned)
      · exact (withoutUser_bare s users user rest a.id).mpr (left user some a ha owned)

end

def emileLetter : Installation := { oneLetter with users := emileAlone }

def byEmile : Removal := .account (some emile.authUser) "1"

def byAdmin : Removal := .user (some ⟨2, "root", ["Admin"]⟩) "U_1"

def served (r : Removal) : Prog installationSignature (Except ServerFnError Unit) × Installation :=
  (installation firstByte plainPlatform latinCases).follow unfailing 6
    ((r.program plainPlatform fun _ => .ok 1).run, emileLetter)

private theorem removals_served {r : Removal} (returned : (served r).1 = .ret (.ok ()))
    (quiet : (served r).2.warnings = emileLetter.warnings) :
    Removals firstByte plainPlatform latinCases (fun _ => .ok 1) emileLetter [(r, emileLetter)] (served r).2 := by
  have run : Reaches (anyhow firstByte plainPlatform latinCases)
    ((r.program plainPlatform fun _ => .ok 1).run, emileLetter)
      (served r) := reaches_follow (fun _ _ => trivial) 6 _
  have ended : served r = (.ret (.ok ()), (served r).2) := Prod.ext returned rfl
  rw [ended] at run
  exact .next run quiet (.none _)

theorem gone_accounts_bare_byEmile :
    (∀ a ∈ emileLetter.world.db.accounts, (∀ b ∈ (served byEmile).2.world.db.accounts, b.id ≠ a.id) →
      (served byEmile).2.Bare a.id) ↔ Harmless plainPlatform [(byEmile, emileLetter)] :=
  gone_accounts_bare_iff (removals_served rfl rfl)

/-- The administrator deletes the user: the account goes, its blob stays. -/
theorem gone_account_not_bare :
    ∃ s', Removals firstByte plainPlatform latinCases (fun _ => .ok 1) emileLetter [(byAdmin, emileLetter)] s' ∧
      workAccount ∈ emileLetter.world.db.accounts ∧ (∀ b ∈ s'.world.db.accounts, b.id ≠ workAccount.id) ∧
        ¬ s'.Bare workAccount.id := by
  refine ⟨_, removals_served rfl rfl, List.mem_singleton.mpr rfl, fun b hb => (by cases hb), fun bare => ?_⟩
  exact bare.1 .raw ⟨newMail.contentHash, fun h => by cases h⟩

end MailKeep
