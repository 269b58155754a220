import MailKeep.Users.Requests

/-! Who a login finds. The unique index compares user names exactly, the lookup folds ASCII letters
on one side and lower-cases in full on the other. -/
namespace MailKeep
open Program

/-- Nothing fails. -/
def answering (platform : Platform) (cases : Unicode.CaseData) : (userStore platform cases).Allowed := fun _ o c =>
  match o, c with
  | .transact _, .error _ => False
  | _, _ => True

/-- The name lower-cases to what the lookup's side of the comparison makes of it, and no other name does. -/
structure Findable (cases : Unicode.CaseData) (users : Users) (u : User) : Prop where
  folds : Unicode.asciiLower u.username = cases.toLowercase u.username
  alone : ∀ v ∈ users, v.username ≠ u.username → Unicode.asciiLower v.username ≠ cases.toLowercase u.username

variable {platform : Platform} {cases : Unicode.CaseData}

theorem mem_lookup {users : Users} {name : String} {u : User} :
    u ∈ users.rows.filter (UserRepository.lowerNameEq cases name) ↔
      u ∈ users ∧ Unicode.asciiLower u.username = cases.toLowercase name := by
  simp [UserRepository.lowerNameEq, Users.mem_def, Keyed.Table.mem_def]

/-- A login asks the store once, and any row its filter leaves may be the answer. -/
theorem isValidLogin_runs {username password : String} {s s' : Server} {r : Except Error (Option User)} :
    Runs (answering platform cases) (isValidLogin platform username password).run s r s' ↔
      s' = s ∧ ∃ pick, r = .ok ((UserRepository.one pick (s.users.rows.filter
        (UserRepository.lowerNameEq cases username))).filter (·.checkPassword platform password)) := by
  constructor
  · intro h
    rcases Relation.ReflTransGen.cases_head h with h | ⟨x, hs, hr⟩
    · cases h
    · cases hs with
      | call c ok =>
        cases c with
        | error e => exact ok.elim
        | ok d =>
          rcases Relation.ReflTransGen.cases_head hr with h | ⟨y, hs', -⟩
          · cases h
            exact ⟨rfl, d.pick, rfl⟩
          · cases hs'
  · rintro ⟨rfl, pick, rfl⟩
    exact .single (@Step.call (userStore platform cases) _ (answering platform cases) (.transact (.findByUsername username)) _ s'
      (.ok ⟨0, false, pick⟩) trivial)

/-- A user logs in under the stored name, whatever the store answers first, exactly where the name is
findable. Nobody is found under a name that differs by more than letter case. -/
theorem isValidLogin_iff (platform : Platform) (cases : Unicode.CaseData) (users : Users)
    (login : ClientId → Option UserId) :
    (∀ u ∈ users, ∀ p, u.checkPassword platform p = true →
      ((∀ r s', Runs (answering platform cases)
          (isValidLogin platform u.username p).run ⟨users, login⟩ r s' → r = .ok (some u)) ↔
            Findable cases users u)) ∧
      ∀ s q u s', Runs (answering platform cases)
        (isValidLogin platform s q).run ⟨users, login⟩ (.ok (some u)) s' →
          u ∈ users ∧ cases.toLowercase u.username = cases.toLowercase s := by
  refine ⟨fun u hu p hp => ⟨fun h => ?_, fun h r s' hr => ?_⟩, fun s q u s' hr => ?_⟩
  · have found : ∀ pick, (UserRepository.one pick (users.rows.filter
        (UserRepository.lowerNameEq cases u.username))).filter (·.checkPassword platform p) = some u := by
      intro pick
      exact Except.ok.inj (h _ ⟨users, login⟩ (isValidLogin_runs.mpr ⟨rfl, pick, rfl⟩))
    have first := found 0
    rw [Option.filter_eq_some_iff] at first
    refine ⟨(mem_lookup.mp (UserRepository.one_eq_some first.1)).2, fun v hv hne he => ?_⟩
    obtain ⟨pick, hpick⟩ := UserRepository.one_surjective (mem_lookup.mpr ⟨hv, he⟩)
    have other := found pick
    rw [hpick, Option.filter_eq_some_iff] at other
    exact hne (congrArg User.username (Option.some.inj other.1))
  · obtain ⟨-, pick, rfl⟩ := isValidLogin_runs.mp hr
    have hmem : u ∈ users.rows.filter (UserRepository.lowerNameEq cases u.username) := mem_lookup.mpr ⟨hu, h.folds⟩
    cases hone : UserRepository.one pick (users.rows.filter (UserRepository.lowerNameEq cases u.username)) with
    | none =>
      rw [UserRepository.one_eq_none.mp hone] at hmem
      exact absurd hmem List.not_mem_nil
    | some v =>
      obtain ⟨hv, hfold⟩ := mem_lookup.mp (UserRepository.one_eq_some hone)
      have : v = u := Users.eq_of_username hv hu (not_not.mp fun hne => h.alone v hv hne hfold)
      rw [this, Option.filter_some, if_pos hp]
  · obtain ⟨-, pick, he⟩ := isValidLogin_runs.mp hr
    obtain ⟨hone, -⟩ := Option.filter_eq_some_iff.mp (Except.ok.inj he).symm
    obtain ⟨hu, hfold⟩ := mem_lookup.mp (UserRepository.one_eq_some hone)
    refine ⟨hu, ?_⟩
    rw [← cases.toLowercase_asciiLower, hfold, cases.toLowercase_toLowercase]

/-- An excerpt of the character database: ASCII, one accented letter and the Greek sigma. -/
def latinCases : Unicode.CaseData where
  lower c := if c.toNat < 128 then [c.toLower] else if c = 'É' then ['é'] else if c = 'Σ' then ['σ'] else [c]
  cased c := c.toLower.isAlpha || decide (c ∈ ['É', 'é', 'Σ', 'σ', 'ς'])
  caseIgnorable _ := false
  lower_ascii c h := if_pos h
  lower_lower c d h := by
    by_cases hc : c.toNat < 128
    · rw [if_pos hc, List.mem_singleton] at h
      rcases Unicode.toLower_eq_or_ascii c with he | ⟨-, hl⟩
      · rw [h, he, if_pos hc, he]
      · rw [h, if_pos hl, Unicode.toLower_toLower]
    · rw [if_neg hc] at h
      split at h
      · rw [List.mem_singleton.mp h]
        decide
      · split at h
        · rw [List.mem_singleton.mp h]
          decide
        · rename_i h1 h2
          rw [List.mem_singleton.mp h, if_neg hc, if_neg h1, if_neg h2]
  lower_sigma := by decide
  lower_final := by decide
  cased_toLower c := by
    rcases Unicode.toLower_eq_or_ascii c with h | ⟨hc, hl⟩
    · rw [h, h]
    · have plain : ∀ e : Char, e.toNat < 128 → e ∉ ['É', 'é', 'Σ', 'σ', 'ς'] := by
        intro e he
        simp only [List.mem_cons, List.not_mem_nil, or_false, not_or]
        refine ⟨?_, ?_, ?_, ?_, ?_⟩ <;> rintro rfl <;> exact absurd he (by decide)
      simp only [plain c hc, plain _ hl, Unicode.toLower_toLower]
  caseIgnorable_toLower _ := rfl

/-- A stand-in for the hash: the salt, then the password. -/
def plainPlatform : Platform where
  encryptPassword salt password := .ok (salt ++ "$" ++ password)
  verifyPassword hash password := ('$' :: password.toList).isSuffixOf hash.toList
  formatToken id := "U_" ++ toString id
  parseToken token := match (token.toList.drop 2).foldl (fun n c => 10 * n + (c.toNat - 48)) 0 with
    | 0 => .error (.invalidToken token)
    | n + 1 => .ok (n + 1)

def emile : User := ⟨1, 1, "Émile", "Émile", "salt$secret", ⟨"e@x.org", by decide⟩, [], false⟩

def emileAlone : Users := ⟨⟨[emile], by simp⟩, by simp, by simp⟩

/-- The user just added is not found under the name he was added with. -/
theorem isValidLogin_misses_accent :
    UserRepository.addUser 1 false ⟨"Émile", "Émile", "salt$secret", ⟨"e@x.org", by decide⟩, [], false⟩ Users.empty =
        .ok (emile, emileAlone) ∧
      emile ∈ emileAlone ∧ emile.checkPassword plainPlatform "secret" = true ∧
      Runs (answering plainPlatform latinCases)
        (isValidLogin plainPlatform "Émile" "secret").run ⟨emileAlone, fun _ => none⟩ (.ok none)
        ⟨emileAlone, fun _ => none⟩ := by
  refine ⟨rfl, List.mem_singleton.mpr rfl, by decide, isValidLogin_runs.mpr ⟨rfl, 0, ?_⟩⟩
  rfl

end MailKeep
