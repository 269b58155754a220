import MailKeep.Frontend.Completion
import MailKeep.Users.Login
import Mathlib.Data.List.DropRight

/-! The search box: the text shown in it, the query submitted, and going round the completions with Tab. -/
namespace MailKeep

/-- `SEARCH_QUERY`, `ACTIVE_SEARCH` and the signals of `SearchBar`. -/
structure SearchBox where
  query : List Char
  active : Option (List Char)
  completion : List Char
  cyclePrefix : List Char
  cycleIdx : Nat
deriving DecidableEq

/-- What happens to the box. It is cleared by its button, with Home, with the results and where an account is selected. -/
inductive SearchEvent
  | input (value : List Char)
  | enter
  | tab
  | escape
  | otherKey
  | clear
  | remount
deriving DecidableEq

namespace SearchBox

def empty : SearchBox := ⟨[], none, [], [], 0⟩

def settled (box : SearchBox) : SearchBox := { box with completion := [], cyclePrefix := [], cycleIdx := 0 }

section
variable (D : Unicode.CaseData)

/-- No result where the handler panics. -/
def tab (box : SearchBox) : Option SearchBox :=
  if box.cyclePrefix ≠ [] ∧ box.completion ≠ [] then do
    let applied ← applyCompletion box.query box.completion
    return { box with query := applied, cycleIdx := box.cycleIdx + 1, completion := [] }
  else if box.completion ≠ [] then do
    let applied ← applyCompletion box.query box.completion
    return { box with
      query := applied
      cyclePrefix := lastWord box.query
      cycleIdx := box.cycleIdx + 1
      completion := [] }
  else if box.cyclePrefix ≠ [] then do
    match ← nextCycleInput D box.query box.cyclePrefix box.cycleIdx with
    | some cycled => return { box with cycleIdx := box.cycleIdx + 1, query := cycled, completion := [] }
    | none => return { box with cycleIdx := box.cycleIdx + 1 }
  else return box

def step (box : SearchBox) : SearchEvent → Option SearchBox
  | .input value => some
    { box with query := value, cyclePrefix := [], cycleIdx := 0, completion := computeCompletion D value 0 }
  | .enter =>
    let trimmed := trim box.query
    some { box.settled with active := if trimmed.isEmpty then none else some trimmed }
  | .tab => box.tab D
  | .escape => some <|
    if box.completion ≠ [] ∨ box.cyclePrefix ≠ [] then box.settled else { box with query := [], active := none }
  | .otherKey => some <| if box.completion ≠ [] ∨ box.cyclePrefix ≠ [] then box.settled else box
  | .clear => some { box with query := [], active := none }
  | .remount => some box.settled

def run (box : SearchBox) (events : List SearchEvent) : Option SearchBox := events.foldlM (step D) box

end

end SearchBox

section
variable {D : Unicode.CaseData}

theorem unbroken_letters {text : List Char} (letters : text.all Char.isLower = true) : Unbroken text :=
  fun c hc => isWhitespace_letter (List.all_eq_true.mp letters c hc)

theorem Unbroken.append {a b : List Char} (first : Unbroken a) (second : Unbroken b) : Unbroken (a ++ b) :=
  List.forall_mem_append.mpr ⟨first, second⟩

private theorem unbroken_colon : Unbroken [':'] := List.forall_mem_singleton.mpr rfl

/-- A word is its negation and what follows, which has none or is negated twice. -/
theorem splitNegation_eq {word neg bare : List Char} (halves : splitNegation word = (neg, bare)) :
    word = neg ++ bare ∧ (neg = [] ∨ neg = ['!']) := by
  unfold splitNegation at halves
  split at halves
  · cases halves
    exact ⟨rfl, .inr rfl⟩
  · cases halves
    exact ⟨rfl, .inl rfl⟩

private theorem unbroken_negation {neg : List Char} (mark : neg = [] ∨ neg = ['!']) : Unbroken neg := by
  rcases mark with rfl | rfl
  · exact fun c hc => absurd hc List.not_mem_nil
  · exact List.forall_mem_singleton.mpr rfl

/-- The candidate that a number counts to. -/
theorem getD_mem {names : List (List Char)} (offered : names ≠ []) (idx : Nat) :
    names.getD (idx % names.length) [] ∈ names := by
  have bound : idx % names.length < names.length := Nat.mod_lt _ (List.length_pos_iff.mpr offered)
  rw [List.getD_eq_getElem?_getD, List.getElem?_eq_getElem bound]
  exact List.getElem_mem bound

variable {word : List Char}

private theorem word_ne_nil (offered : (offerFor D word).candidates ≠ []) : word ≠ [] := by
  rintro rfl
  exact offered rfl

private theorem offered_of_suffix {idx : Nat} (shown : (offerFor D word).suffix idx ≠ []) :
    (offerFor D word).candidates ≠ [] := by
  intro none_
  apply shown
  unfold Offer.suffix
  rw [none_]
  rfl

private theorem Offer.front_behind_unbroken (offered : (offerFor D word).candidates ≠ []) :
    Unbroken (offerFor D word).front ∧ Unbroken (offerFor D word).behind := by
  rcases offerFor_cases offered with
    ⟨neg, bare, halves, -, -, offer⟩ | ⟨neg, field, value, values, halves, -, -, fixed, offer⟩
  · rw [offer]
    exact ⟨unbroken_negation (splitNegation_eq halves).2, unbroken_colon⟩
  · rw [offer]
    have letters : Unbroken (D.lowerFrom [] field) := by
      rw [(lowerFrom_field fixed).2]
      exact unbroken_letters (fixedValues_eq_some fixed).1
    exact ⟨((unbroken_negation (splitNegation_eq halves).2).append letters).append unbroken_colon, fun c hc => absurd hc List.not_mem_nil⟩

private theorem suffix_unbroken (idx : Nat) : Unbroken ((offerFor D word).suffix idx) := by
  unfold Offer.suffix
  by_cases offered : (offerFor D word).candidates = []
  · rw [offered]
    exact fun c hc => absurd hc List.not_mem_nil
  · rw [if_neg (by simp [offered])]
    have candidate := unbroken_letters (mem_candidates (getD_mem offered idx)).1
    exact Unbroken.append (fun c hc => candidate c (List.drop_subset _ _ hc)) (Offer.front_behind_unbroken offered).2

private theorem cycled_unbroken (offered : (offerFor D word).candidates ≠ []) (idx : Nat) : Unbroken
    ((offerFor D word).cycled idx) :=
  ((Offer.front_behind_unbroken offered).1.append (unbroken_letters (mem_candidates (getD_mem offered idx)).1)).append
    (Offer.front_behind_unbroken offered).2

end

namespace SearchBox
variable {D : Unicode.CaseData} {box : SearchBox} {front shown word : List Char}

/-- Tab puts the ghost text behind the word and remembers the word. -/
theorem tab_ghost (ghost : box.completion ≠ []) (fresh : box.cyclePrefix = []) (query : box.query = front ++ word)
    (ends : EndsBlank front) (unbroken : Unbroken word) : box.tab D = if WideSpace front then none else some
      { box with
        query := front ++ word ++ box.completion
        cyclePrefix := lastWord box.query
        cycleIdx := box.cycleIdx + 1
        completion := [] } := by
  unfold tab
  rw [if_neg (fun both => both.1 fresh), if_pos ghost, applyCompletion, query, splitAtByte_lastSpace ends unbroken]
  by_cases wide : WideSpace front
  · rw [if_pos wide, if_pos wide]
    rfl
  · rw [if_neg wide, if_neg wide]
    rfl

/-- Tab again puts the next candidate in the place of the last word. -/
private theorem tab_cycling (idle : box.completion = []) (word_ : box.cyclePrefix = word)
    (offered : (offerFor D word).candidates ≠ []) (query : box.query = front ++ shown) (ends : EndsBlank front)
    (unbroken : Unbroken shown) (narrow : ¬ WideSpace front) : box.tab D = some { box with
      query := if (offerFor D word).candidates.length < 2 then box.query else front ++ (offerFor D word).cycled box.cycleIdx
      cycleIdx := box.cycleIdx + 1 } := by
  unfold tab
  rw [if_neg (fun both => both.2 idle), if_neg (fun ghost => ghost idle), if_pos (word_ ▸ word_ne_nil offered), query, word_,
    nextCycleInput_eq ends unbroken offered, if_neg narrow]
  by_cases few : (offerFor D word).candidates.length < 2
  · rw [if_pos few, if_pos few]
    simp
  · rw [if_neg few, if_neg few]
    simp [idle]

/-- Tab does nothing where there is nothing to complete. -/
private theorem tab_idle (idle : box.completion = []) (fresh : box.cyclePrefix = []) : box.tab D = some box := by
  unfold tab
  rw [if_neg (fun both => both.2 idle), if_neg (fun ghost => ghost idle), if_neg (fun cycling => cycling fresh)]
  rfl

theorem run_cons (event : SearchEvent) (events : List SearchEvent) :
    box.run D (event :: events) = (box.step D event).bind fun next => next.run D events := rfl

private theorem run_append (events more : List SearchEvent) :
    box.run D (events ++ more) = (box.run D events).bind fun next => next.run D more :=
  List.foldlM_append

private theorem run_idle (idle : box.completion = []) (fresh : box.cyclePrefix = []) (k : Nat) :
    box.run D (List.replicate k .tab) = some box := by
  induction k with
  | zero => rfl
  | succ k ih =>
    have first : box.step D .tab = some box := tab_idle idle fresh
    rw [List.replicate_succ, run_cons, first]
    exact ih

/-- Further Tabs count round the candidates, from the number the box has reached. -/
private theorem run_cycling (idle : box.completion = []) (word_ : box.cyclePrefix = word)
    (offered : (offerFor D word).candidates ≠ []) (query : box.query = front ++ shown) (ends : EndsBlank front)
    (unbroken : Unbroken shown) (narrow : ¬ WideSpace front) (k : Nat) :
    box.run D (List.replicate k .tab) = some { box with
      query := if k = 0 ∨ (offerFor D word).candidates.length < 2 then box.query
        else front ++ (offerFor D word).cycled (box.cycleIdx + k - 1)
      cycleIdx := box.cycleIdx + k } := by
  induction k generalizing box shown with
  | zero => rw [if_pos (.inl rfl)]; rfl
  | succ k ih =>
    have first := tab_cycling idle word_ offered query ends unbroken narrow
    rw [List.replicate_succ, run_cons, show box.step D .tab = _ from first, Option.bind_some]
    by_cases few : (offerFor D word).candidates.length < 2
    · have rest := @ih { box with cycleIdx := box.cycleIdx + 1 } shown idle word_ query unbroken
      rw [if_pos (.inr few)] at rest
      rw [if_pos few, if_pos (.inr few), rest, Nat.add_right_comm]
      rfl
    · have rest := @ih { box with query := front ++ (offerFor D word).cycled box.cycleIdx, cycleIdx := box.cycleIdx + 1 }
        _ idle word_ rfl (cycled_unbroken offered _)
      rw [if_neg few, if_neg (by omega), rest]
      cases k with
      | zero => rfl
      | succ k =>
        have turn : box.cycleIdx + 1 + (k + 1) = box.cycleIdx + (k + 1 + 1) := by omega
        rw [if_neg (by omega), turn]

/-- Text typed into the box and one Tab or more behind it. Without ghost text nothing happens. With it, the first Tab panics
where the white space in front of the last word takes more than one byte, and otherwise puts it behind the word; each
further Tab puts the next of several candidates in the place of the word, round and round. -/
theorem typed_then_tabs (box : SearchBox) (ends : EndsBlank front) (unbroken : Unbroken word) (k : Nat) :
    box.run D (.input (front ++ word) :: List.replicate (k + 1) .tab) =
      if (offerFor D word).suffix 0 = [] then
        some { box with query := front ++ word, completion := [], cyclePrefix := [], cycleIdx := 0 }
      else if WideSpace front then none
      else some
        { box with
          query :=
            if k = 0 ∨ (offerFor D word).candidates.length < 2 then front ++ word ++ (offerFor D word).suffix 0
            else front ++ (offerFor D word).cycled k
          completion := []
          cyclePrefix := word
          cycleIdx := k + 1 } := by
  have ghost := computeCompletion_eq D ends unbroken 0
  rw [run_cons, step, Option.bind_some, ghost]
  by_cases nothing : (offerFor D word).suffix 0 = []
  · rw [if_pos nothing, nothing]
    exact run_idle rfl rfl (k + 1)
  rw [if_neg nothing, List.replicate_succ, run_cons, step, tab_ghost nothing rfl rfl ends unbroken]
  by_cases wide : WideSpace front
  · rw [if_pos wide, if_pos wide]
    rfl
  have offered := offered_of_suffix nothing
  have remembered : lastWord (front ++ word) = word := lastWord_append ends unbroken (word_ne_nil offered)
  rw [if_neg wide, if_neg wide, Option.bind_some]
  dsimp only
  rw [remembered, run_cycling rfl rfl offered (List.append_assoc _ _ _) ends (unbroken.append (suffix_unbroken 0)) wide]
  simp only [Nat.zero_add, Nat.add_comm 1 k, Nat.add_sub_cancel]

/-- `mail A` and Tab three times: the third of the names that begin with `a`. -/
theorem typed_then_tabs_mailA : empty.run latinCases (.input "mail A".toList :: List.replicate 3 .tab) =
    some ⟨"mail attachments:".toList, none, [], ['A'], 3⟩ :=
  (typed_then_tabs empty (show EndsBlank "mail ".toList by decide) (show Unbroken ['A'] by decide) 2).trans (by decide)

def typedLast (events : List SearchEvent) : List Char :=
  events.foldl (fun typed event => match event with | .input value => value | _ => typed) []

def frontOf (text : List Char) : List Char := (text.reverse.dropWhile (!isWhitespace ·)).reverse

/-- Going round the candidates of the last word of a text: the box shows the text with its ghost text, a candidate behind
the words before it, or, once it was cleared, nothing or a candidate alone. -/
inductive Cycles (D : Unicode.CaseData) (typed : List Char) (box : SearchBox) : Prop
  | mk (front : List Char) (whole : typed = front ++ box.cyclePrefix) (ends : EndsBlank front)
    (unbroken : Unbroken box.cyclePrefix) (narrow : ¬ WideSpace front)
    (offered : (offerFor D box.cyclePrefix).candidates ≠ [])
    (shown : box.query = typed ++ computeCompletion D typed 0 ∨ box.query = [] ∨
      ∃ kept idx, (kept = front ∨ kept = []) ∧ box.query = kept ++ (offerFor D box.cyclePrefix).cycled idx)

/-- A query that was submitted is not blank and has no white space at its ends. -/
def Trimmed (query : List Char) : Prop :=
  query ≠ [] ∧ (∀ c ∈ query.head?, isWhitespace c = false) ∧ ∀ c ∈ query.getLast?, isWhitespace c = false

/-- What holds of the box when `typed` was typed last. -/
structure Follows (D : Unicode.CaseData) (typed : List Char) (box : SearchBox) : Prop where
  alone : box.completion ≠ [] → box.cyclePrefix = []
  ghost : box.completion ≠ [] → box.completion = computeCompletion D typed 0 ∧ (box.query = typed ∨ box.query = [])
  cycling : box.cyclePrefix ≠ [] → Cycles D typed box
  submitted : ∀ query ∈ box.active, Trimmed query

private theorem trim_trimmed {text : List Char} (filled : trim text ≠ []) : Trimmed (trim text) := by
  have within : trim text <+: text.dropWhile isWhitespace := List.rdropWhile_prefix isWhitespace _
  refine ⟨filled, ?_, ?_⟩
  · intro c hc
    obtain ⟨more, whole⟩ := within
    have first : (text.dropWhile isWhitespace).head? = some c := by
      rw [← whole, List.head?_append_of_ne_nil _ filled]
      exact hc
    have visible := List.head?_dropWhile_not isWhitespace text
    rw [first] at visible
    simpa using visible
  · intro c hc
    have visible := List.rdropWhile_last_not isWhitespace (text.dropWhile isWhitespace) filled
    rw [← Option.some_inj.mp ((List.getLast?_eq_some_getLast filled).symm.trans hc)]
    exact Bool.eq_false_iff.mpr visible

private theorem frontOf_append (ends : EndsBlank front) (unbroken : Unbroken word) : frontOf
    (front ++ word) = front := by
  rw [frontOf, dropWhile_word ends unbroken, List.reverse_reverse]

variable {typed : List Char}

theorem Follows.settled (follows : box.Follows D typed) : box.settled.Follows D typed where
  alone _ := rfl
  ghost some_ := absurd rfl some_
  cycling some_ := absurd rfl some_
  submitted := follows.submitted

theorem Follows.cleared (follows : box.Follows D typed) :
    Follows D typed { box with query := [], active := none } where
  alone := follows.alone
  ghost some_ := ⟨(follows.ghost some_).1, .inr rfl⟩
  cycling some_ := by
    obtain ⟨front, whole, ends, unbroken, narrow, offered, -⟩ := follows.cycling some_
    exact ⟨front, whole, ends, unbroken, narrow, offered, .inr (.inl rfl)⟩
  submitted _ none_ := by cases none_

private theorem computeCompletion_word {front word : List Char} (ends : EndsBlank front) (unbroken : Unbroken word)
    (ghost : computeCompletion D (front ++ word) 0 ≠ []) :
    (offerFor D word).candidates ≠ [] ∧ lastWord (front ++ word) = word := by
  rw [computeCompletion_eq D ends unbroken] at ghost
  have offered := offered_of_suffix ghost
  exact ⟨offered, lastWord_append ends unbroken (word_ne_nil offered)⟩

/-- While Tab goes round, the white space in front of the last word is narrow, and another candidate may stand behind it. -/
theorem Cycles.parts (cycles : Cycles D typed box) : ∃ kept shown, box.query = kept ++ shown ∧ EndsBlank kept ∧
    Unbroken shown ∧ ¬ WideSpace kept ∧ ∀ idx i,
      Cycles D typed { box with query := kept ++ (offerFor D box.cyclePrefix).cycled idx, cycleIdx := i } := by
  obtain ⟨front, whole, ends, unbroken, narrow, offered, shown⟩ := cycles
  have next (kept : List Char) (of : kept = front ∨ kept = []) (idx i : Nat) :
      Cycles D typed { box with query := kept ++ (offerFor D box.cyclePrefix).cycled idx, cycleIdx := i } :=
    ⟨front, whole, ends, unbroken, narrow, offered, .inr (.inr ⟨kept, idx, of, rfl⟩)⟩
  have blank : EndsBlank [] := fun c hc => by cases hc
  have noSpace : ¬ WideSpace [] := Bool.false_ne_true
  rcases shown with completed | cleared | ⟨kept, idx, rfl | rfl, cycled⟩
  · rw [whole, List.append_assoc, computeCompletion_eq D ends unbroken] at completed
    exact ⟨front, _, completed, ends, unbroken.append (suffix_unbroken 0), narrow, next front (.inl rfl)⟩
  · exact ⟨[], [], cleared, blank, fun c hc => absurd hc List.not_mem_nil, noSpace, next [] (.inr rfl)⟩
  · exact ⟨kept, _, cycled, ends, cycled_unbroken offered idx, narrow, next kept (.inl rfl)⟩
  · exact ⟨[], _, cycled, blank, cycled_unbroken offered idx, noSpace, next [] (.inr rfl)⟩

theorem Cycles.offered (cycles : Cycles D typed box) : (offerFor D box.cyclePrefix).candidates ≠ [] := by
  obtain ⟨-, -, -, -, -, offered, -⟩ := cycles
  exact offered

/-- Tab on the ghost text, in a box that shows what was typed or was cleared. -/
theorem Follows.tab_ghost (follows : box.Follows D typed) (ghost : box.completion ≠ [])
    (ends : EndsBlank front) (unbroken : Unbroken word) (query : box.query = front ++ word) (narrow : ¬ WideSpace front) :
    Follows D typed
      { box with
        query := front ++ word ++ box.completion
        cyclePrefix := lastWord box.query
        cycleIdx := box.cycleIdx + 1
        completion := [] } := by
  obtain ⟨completes, shows⟩ := follows.ghost ghost
  refine ⟨fun some_ => absurd rfl some_, fun some_ => absurd rfl some_, fun filled => ?_, follows.submitted⟩
  have stands : box.query = typed := by
    refine shows.resolve_right fun cleared => filled ?_
    rw [cleared]
    rfl
  have whole : typed = front ++ word := stands.symm.trans query
  rw [completes, whole] at ghost
  obtain ⟨offered, last⟩ := computeCompletion_word ends unbroken ghost
  have remembered : lastWord box.query = word := by rw [query, last]
  rw [remembered]
  exact ⟨front, whole, ends, unbroken, narrow, offered, .inl (by rw [completes, whole])⟩

/-- Tab panics in one case only, and otherwise goes on as it should. -/
theorem Follows.tab (follows : box.Follows D typed) :
    if box.completion ≠ [] ∧ WideSpace (frontOf box.query) then box.tab D = none
    else ∃ next, box.tab D = some next ∧ next.Follows D typed := by
  by_cases ghost : box.completion = []
  · rw [if_neg fun both => both.1 ghost]
    by_cases fresh : box.cyclePrefix = []
    · exact ⟨box, tab_idle ghost fresh, follows⟩
    · obtain ⟨kept, shown, query, ends, unbroken, narrow, next⟩ := (follows.cycling fresh).parts
      have tabbed := tab_cycling ghost rfl (follows.cycling fresh).offered query ends unbroken narrow
      refine ⟨_, tabbed, fun some_ => absurd ghost some_, fun some_ => absurd ghost some_, fun _ => ?_, follows.submitted⟩
      split_ifs
      · obtain ⟨front, whole, ends, unbroken, narrow, offered, shown⟩ := follows.cycling fresh
        exact ⟨front, whole, ends, unbroken, narrow, offered, shown⟩
      · exact next _ _
  · obtain ⟨front, word, query, ends, unbroken⟩ := exists_lastWord box.query
    have tabbed := SearchBox.tab_ghost (D := D) ghost (follows.alone ghost) query ends unbroken
    have front_ : frontOf box.query = front := by rw [query, frontOf_append ends unbroken]
    rw [front_]
    by_cases wide : WideSpace front
    · rw [if_pos ⟨ghost, wide⟩, tabbed, if_pos wide]
    · rw [if_neg fun both => wide both.2, tabbed, if_neg wide]
      exact ⟨_, rfl, follows.tab_ghost ghost ends unbroken query wide⟩

theorem Follows.step {events : List SearchEvent} (follows : box.Follows D (typedLast events)) (event : SearchEvent) :
    if event = .tab ∧ box.completion ≠ [] ∧ WideSpace (frontOf box.query) then box.step D event = none
    else ∃ next, box.step D event = some next ∧ next.Follows D (typedLast (events ++ [event])) := by
  have kept (other : ∀ value, event ≠ .input value) : typedLast (events ++ [event]) = typedLast events := by
    rw [typedLast, List.foldl_append]
    cases event with
    | input value => exact absurd rfl (other value)
    | enter => rfl
    | tab => rfl
    | escape => rfl
    | otherKey => rfl
    | clear => rfl
    | remount => rfl
  cases event with
  | input value =>
    rw [if_neg (fun tab => by cases tab.1)]
    have typed : typedLast (events ++ [.input value]) = value := by rw [typedLast, List.foldl_append]; rfl
    rw [typed]
    exact ⟨_, rfl, fun _ => rfl, fun _ => ⟨rfl, .inl rfl⟩, fun some_ => absurd rfl some_, follows.submitted⟩
  | enter =>
    rw [if_neg (fun tab => by cases tab.1), kept nofun]
    refine ⟨_, rfl, fun _ => rfl, fun some_ => absurd rfl some_, fun some_ => absurd rfl some_, ?_⟩
    intro query submitted
    dsimp only at submitted
    split at submitted
    · cases submitted
    · rename_i filled
      cases submitted
      exact trim_trimmed (mt List.isEmpty_iff.mpr filled)
  | tab =>
    rw [kept nofun]
    simp only [true_and]
    exact follows.tab
  | escape =>
    rw [if_neg (fun tab => by cases tab.1), kept nofun]
    refine ⟨_, rfl, ?_⟩
    split
    · exact follows.settled
    · exact follows.cleared
  | otherKey =>
    rw [if_neg (fun tab => by cases tab.1), kept nofun]
    refine ⟨_, rfl, ?_⟩
    split
    · exact follows.settled
    · exact follows
  | clear =>
    rw [if_neg (fun tab => by cases tab.1), kept nofun]
    exact ⟨_, rfl, follows.cleared⟩
  | remount =>
    rw [if_neg (fun tab => by cases tab.1), kept nofun]
    exact ⟨_, rfl, follows.settled⟩

private theorem empty_follows : Follows D (typedLast []) empty :=
  ⟨fun _ => rfl, fun some_ => absurd rfl some_, fun some_ => absurd rfl some_, fun _ none_ => by cases none_⟩

theorem follows_of_run {events : List SearchEvent} (ran : empty.run D events = some box) :
    box.Follows D (typedLast events) := by
  induction events using List.reverseRecOn generalizing box with
  | nil =>
    cases ran
    exact empty_follows
  | append_singleton events event ih =>
    rw [run_append, Option.bind_eq_some_iff] at ran
    obtain ⟨before, ran, stepped⟩ := ran
    rw [run_cons, Option.bind_eq_some_iff] at stepped
    obtain ⟨next, stepped, rest⟩ := stepped
    cases rest
    have step := (ih ran).step event
    split at step
    · rw [step] at stepped
      cases stepped
    · obtain ⟨found, ran, follows⟩ := step
      cases ran.symm.trans stepped
      exact follows

/-- In every session the ghost text is the completion of the text typed last, behind that text or in a box cleared since; while
Tab goes round there is none; and the only event that panics is Tab behind ghost text where the white space in front of the
last word takes more than one byte. -/
theorem search_sessions (events : List SearchEvent) (box : SearchBox) (ran : empty.run D events = some box) :
    box.Follows D (typedLast events) ∧ ∀ event, box.step D event = none ↔
      event = .tab ∧ box.completion ≠ [] ∧ WideSpace (frontOf box.query) := by
  have follows := follows_of_run ran
  refine ⟨follows, fun event => ?_⟩
  have step := follows.step event
  split at step
  · rename_i panics
    exact iff_of_true step panics
  · rename_i fine
    obtain ⟨next, stepped, -⟩ := step
    refine iff_of_false (fun none_ => ?_) fine
    rw [none_] at stepped
    cases stepped

/-- `a` and Tab, then the clear button: one Tab more writes `after:` into the empty box. -/
theorem search_sessions_clearedTab :
    let events := [.input ['a'], .tab, .clear, .tab]
    let box : SearchBox := ⟨"after:".toList, none, [], ['a'], 2⟩
    empty.run latinCases events = some box ∧ box.Follows latinCases ['a'] ∧ box.step latinCases .tab ≠ none := by
  have ran : empty.run latinCases [.input ['a'], .tab, .clear, .tab] = some ⟨"after:".toList, none, [], ['a'], 2⟩ := by decide
  obtain ⟨follows, panics⟩ := search_sessions _ _ ran
  exact ⟨ran, follows, fun none_ => absurd ((panics .tab).mp none_).2.1 (by decide)⟩

end SearchBox

end MailKeep
