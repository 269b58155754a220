import MailKeep.Search.AccountScope

/-! What the account hints of a query select. -/
namespace MailKeep

variable (lib : TextLibrary)

/-- The account has the name of a plain hint, up to case, or not that of a negated one. -/
def Hint.SatisfiedBy (hint : Hint) (a : Account) : Prop :=
  if hint.1 then lib.toLowercase a.displayName ≠ lib.toLowercase hint.2
  else lib.toLowercase a.displayName = lib.toLowercase hint.2

def NamesDistinct (accounts : List Account) : Prop := (accounts.map fun a => lib.toLowercase a.displayName).Nodup

def Hint.Allows (resolve : String → Option AccountId) (hint : Hint) (id : AccountId) : Prop :=
  if hint.1 then resolve (lib.toLowercase hint.2) ≠ some id else resolve (lib.toLowercase hint.2) = some id

variable {lib} {accounts : List Account}

/-- A hint takes ids away and never looks at what the hints before it have left. -/
private theorem mem_applyHint {resolve : String → Option AccountId} {scope : Finset AccountId}
    {hint : Hint} {id : AccountId} :
    id ∈ applyHint lib resolve scope hint ↔ id ∈ scope ∧ hint.Allows lib resolve id := by
  unfold applyHint Hint.Allows
  dsimp only
  split
  · split
    · rename_i other found
      rw [Finset.mem_erase, found, ne_eq, ne_eq, Option.some.injEq, eq_comm (a := id)]
      exact and_comm
    · rename_i unknown
      rw [unknown]
      exact (and_iff_left (by simp)).symm
  · split
    · rename_i other found
      rw [found, Option.some.injEq]
      split
      · rename_i within
        rw [Finset.mem_singleton]
        constructor
        · rintro rfl
          exact ⟨within, rfl⟩
        · exact fun h => h.2.symm
      · rename_i outside
        apply iff_of_false (Finset.notMem_empty _)
        rintro ⟨within, rfl⟩
        exact outside within
    · rename_i unknown
      rw [unknown]
      simp

private theorem mem_foldl_applyHint {resolve : String → Option AccountId} {hints : List Hint}
    {scope : Finset AccountId} {id : AccountId} :
    id ∈ hints.foldl (applyHint lib resolve) scope ↔ id ∈ scope ∧ ∀ hint ∈ hints, hint.Allows lib resolve id := by
  induction hints generalizing scope with
  | nil => simp
  | cons hint hints ih => rw [List.foldl_cons, ih, mem_applyHint, List.forall_mem_cons, and_assoc]

private theorem mem_resolveScope {hints : List Hint} {id : AccountId} :
    id ∈ resolveScope lib accounts hints ↔
      (∃ a ∈ accounts, a.id = id) ∧ ∀ hint ∈ hints, hint.Allows lib (nameMap lib accounts) id := by
  rw [resolveScope, mem_foldl_applyHint, List.mem_toFinset, List.mem_map]

private theorem nameMap_concat (a : Account) : nameMap lib (accounts ++ [a]) =
    Function.update (nameMap lib accounts) (lib.toLowercase a.displayName) (some a.id) := by
  rw [nameMap, List.foldl_append]
  rfl

/-- With distinct names nothing is overwritten. -/
private theorem nameMap_eq_some (distinct : NamesDistinct lib accounts) {name : String} {id : AccountId} :
    nameMap lib accounts name = some id ↔ ∃ a ∈ accounts, lib.toLowercase a.displayName = name ∧ a.id = id := by
  induction accounts using List.reverseRecOn with
  | nil => simp [nameMap]
  | append_singleton accounts last ih =>
    unfold NamesDistinct at distinct
    rw [List.map_append, List.nodup_append] at distinct
    obtain ⟨before, -, apart⟩ := distinct
    have other : ∀ a ∈ accounts, lib.toLowercase a.displayName ≠ lib.toLowercase last.displayName :=
      fun a ha => apart _ (List.mem_map_of_mem ha) _ (List.mem_singleton.mpr rfl)
    rw [nameMap_concat, Function.update_apply]
    split
    · rename_i own
      subst own
      constructor
      · intro h
        exact ⟨last, List.mem_append_right _ (List.mem_singleton.mpr rfl), rfl, Option.some.inj h⟩
      · rintro ⟨a, ha, name, rfl⟩
        rcases List.mem_append.mp ha with earlier | h
        · exact absurd name (other a earlier)
        · rw [List.mem_singleton.mp h]
    · rename_i differs
      rw [ih before]
      constructor
      · rintro ⟨a, ha, h⟩
        exact ⟨a, List.mem_append_left _ ha, h⟩
      · rintro ⟨a, ha, name, h⟩
        rcases List.mem_append.mp ha with earlier | same
        · exact ⟨a, earlier, name, h⟩
        · rw [List.mem_singleton.mp same] at name
          exact absurd name.symm differs

/-- With distinct names and ids the hint leaves an account just where the account satisfies it. -/
private theorem Hint.allows_iff (distinct : NamesDistinct lib accounts) (ids : (accounts.map Account.id).Nodup)
    {hint : Hint} {a : Account}
    (ha : a ∈ accounts) : hint.Allows lib (nameMap lib accounts) a.id ↔ hint.SatisfiedBy lib a := by
  have named : nameMap lib accounts (lib.toLowercase hint.2) = some a.id ↔
      lib.toLowercase a.displayName = lib.toLowercase hint.2 := by
    rw [nameMap_eq_some distinct]
    constructor
    · rintro ⟨b, hb, name, same⟩
      rwa [List.inj_on_of_nodup_map ids hb ha same] at name
    · exact fun name => ⟨a, ha, name, rfl⟩
  unfold Hint.Allows Hint.SatisfiedBy
  split
  · exact not_congr named
  · exact named

/-- Each hint is a condition by itself, so neither their order nor how often one is given counts; among accounts of
distinct names the scope is what satisfies them all. -/
theorem account_scope_declarative (lib : TextLibrary) (owned : Keyed.Table Account.id) (hints : List Hint) :
    (∀ id ∈ resolveScope lib owned.rows hints, ∃ a ∈ owned, a.id = id) ∧
      (∀ again : List Hint, (∀ hint, hint ∈ again ↔ hint ∈ hints) →
        resolveScope lib owned.rows again = resolveScope lib owned.rows hints) ∧
      (NamesDistinct lib owned.rows →
        (∀ id, id ∈ resolveScope lib owned.rows hints ↔ ∃ a ∈ owned, a.id = id ∧ ∀ hint ∈ hints, hint.SatisfiedBy lib a) ∧
          ∀ name, (∀ a ∈ owned, lib.toLowercase a.displayName ≠ lib.toLowercase name) →
            resolveScope lib owned.rows ((false, name) :: hints) = ∅ ∧
              resolveScope lib owned.rows ((true, name) :: hints) = resolveScope lib owned.rows hints) := by
  have spec : NamesDistinct lib owned.rows → ∀ (hints : List Hint) (id : AccountId),
      id ∈ resolveScope lib owned.rows hints ↔ ∃ a ∈ owned, a.id = id ∧ ∀ hint ∈ hints, hint.SatisfiedBy lib a := by
    intro distinct hints id
    rw [mem_resolveScope]
    constructor
    · rintro ⟨⟨a, ha, rfl⟩, allowed⟩
      exact ⟨a, ha, rfl, fun hint hh => (Hint.allows_iff distinct owned.nodup ha).mp (allowed hint hh)⟩
    · rintro ⟨a, ha, rfl, satisfied⟩
      exact ⟨⟨a, ha, rfl⟩, fun hint hh => (Hint.allows_iff distinct owned.nodup ha).mpr (satisfied hint hh)⟩
  refine ⟨fun id h => (mem_resolveScope.mp h).1, fun again same => ?_, fun distinct => ⟨spec distinct hints, fun name unknown => ⟨?_, ?_⟩⟩⟩
  · ext id
    simp only [mem_resolveScope, same]
  · apply Finset.eq_empty_of_forall_notMem
    intro id h
    obtain ⟨a, ha, -, satisfied⟩ := (spec distinct _ id).mp h
    exact unknown a ha (satisfied _ List.mem_cons_self)
  · ext id
    rw [spec distinct, spec distinct]
    refine exists_congr fun a => and_congr_right fun ha => and_congr_right fun _ => ?_
    rw [List.forall_mem_cons]
    exact and_iff_right (unknown a ha)

theorem account_scope_two : NamesDistinct TwoAccounts.textLibrary TwoAccounts.store.accounts.rows ∧
    resolveScope TwoAccounts.textLibrary TwoAccounts.store.accounts.rows [(false, "spam"), (false, "WORK")] = ∅ ∧
    resolveScope TwoAccounts.textLibrary TwoAccounts.store.accounts.rows [(true, "spam"), (false, "WORK")] = {1} := by
  have distinct : NamesDistinct TwoAccounts.textLibrary TwoAccounts.store.accounts.rows := by
    unfold NamesDistinct
    decide
  have unknown : ∀ a ∈ TwoAccounts.store.accounts,
      TwoAccounts.textLibrary.toLowercase a.displayName ≠ TwoAccounts.textLibrary.toLowercase "spam" := by
    intro a ha
    rcases List.mem_cons.mp ha with rfl | ha
    · decide
    · rw [List.mem_singleton.mp ha]
      decide
  have spec := ((account_scope_declarative TwoAccounts.textLibrary TwoAccounts.store.accounts [(false, "WORK")]).2.2 distinct).2
    "spam" unknown
  refine ⟨distinct, spec.1, spec.2.trans ?_⟩
  decide

end MailKeep
