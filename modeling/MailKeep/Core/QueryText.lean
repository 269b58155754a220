import MailKeep.Calendar.Civil
import MailKeep.Core.Query
import Mathlib.Data.List.Basic

/-! Writing a query out and reading it back. -/
namespace MailKeep

variable (lib : TextLibrary)

def TextField.word : TextField → List Char
  | .subject => "subject".toList
  | .sender => "from".toList
  | .recipient => "to".toList

def DateBound.word : DateBound → List Char
  | .before => "before".toList
  | .after => "after".toList
  | .on => "date".toList

/-- The name of the field; wanted attachments have two spellings. -/
def Term.field (has : Bool) : Term → Option (List Char)
  | .bare _ => none
  | .text field _ => some field.word
  | .date bound _ => some bound.word
  | .attachments true => some (if has then "has".toList else "attachments".toList)
  | .attachments false => some "attachments".toList
  | .account _ => some "account".toList
  | .folder _ => some "folder".toList

def Term.hint (has : Bool) (term : Term) : List Char :=
  match term.field has with
  | some field => field ++ [':']
  | none => []

def Term.value (has : Bool) : Term → List Char
  | .bare value => value.toList
  | .text _ value => value.toList
  | .date _ day => Calendar.ymd day
  | .attachments true => if has then "attachment".toList else "some".toList
  | .attachments false => "none".toList
  | .account name => name.toList
  | .folder name => name.toList

def Clause.render (has : Bool) (clause : Clause) : List Char :=
  (if clause.negated then ['!'] else []) ++ clause.term.hint has ++ '"' :: clause.term.value has ++ ['"']

structure Gap where
  text : String
  nonempty : text ≠ ""
  white : ∀ c ∈ text.toList, isWhitespace c = true

/-- What the writer of a query chooses at each clause: the white space behind it and how it asks for attachments. -/
structure Layout where
  gap : Nat → Gap
  has : Nat → Bool

def renderFrom (layout : Layout) : Nat → List Clause → List Char
  | _, [] => []
  | i, [clause] => clause.render (layout.has i)
  | i, clause :: next :: rest =>
    clause.render (layout.has i) ++ (layout.gap i).text.toList ++ renderFrom layout (i + 1) (next :: rest)

def renderQuery (layout : Layout) (clauses : List Clause) : String := String.ofList (renderFrom layout 0 clauses)

/-- The text has a colon, before it the name of a field and behind it a value of that field. -/
def ReadsAsHint (text : List Char) : Prop :=
  ∃ field value, splitOnce text = some (field, value) ∧ (parseField lib field value).isSome

def Quotable (value : String) : Prop := value ≠ "" ∧ '"' ∉ value.toList

def Term.Representable : Term → Prop
  | .bare value => Quotable value ∧ value.toList.head? ≠ some '!' ∧ ¬ ReadsAsHint lib value.toList
  | .text _ value => Quotable value
  | .date _ day => Calendar.FourDigitYear day
  | .attachments _ => True
  | .account name => Quotable name
  | .folder name => Quotable name

/-- Parsing with `%Y-%m-%d` undoes formatting with it, for the years of four digits. -/
def TextLibrary.UndoesDates : Prop :=
  ∀ date, Calendar.FourDigitYear date → lib.parseDate (String.ofList (Calendar.ymd date)) = some date

theorem tokenizeFrom_quote (current rest : List Char) {inQuotes started : Bool}
    (open_ : inQuotes = true → started = true) :
    tokenizeFrom current inQuotes started ('"' :: rest) = tokenizeFrom current (!inQuotes) true rest := by
  rw [tokenizeFrom]
  cases inQuotes with
  | true => rw [open_ rfl]; rfl
  | false => rfl

theorem tokenizeFrom_kept {c : Char} (unquoted : c ≠ '"') (current rest : List Char) {inQuotes started : Bool}
    (open_ : inQuotes = true → started = true) (kept : inQuotes = true ∨ isWhitespace c = false) :
    tokenizeFrom current inQuotes started (c :: rest) = tokenizeFrom (current ++ [c]) inQuotes true rest := by
  rw [tokenizeFrom]
  cases inQuotes with
  | true => rw [if_pos rfl, if_neg unquoted, open_ rfl]
  | false =>
    have visible : isWhitespace c ≠ true := by
      rw [kept.resolve_left Bool.false_ne_true]
      exact Bool.false_ne_true
    rw [if_neg Bool.false_ne_true, if_neg unquoted, if_neg visible]

theorem tokenizeFrom_whitespace {c : Char} (white : isWhitespace c = true) {current : List Char} (rest : List Char)
    {started : Bool} (fresh : started = false → current = []) : tokenizeFrom current false started (c :: rest) =
      tokenizeFrom current false started [] ++ tokenizeFrom [] false false rest := by
  have unquoted : c ≠ '"' := by
    rintro rfl
    cases white
  have ended : tokenizeFrom current false started [] = if started then [current] else [] := rfl
  rw [ended, tokenizeFrom, if_neg Bool.false_ne_true, if_neg unquoted, if_pos white]
  cases started with
  | true => rfl
  | false => rw [fresh rfl]; rfl

theorem tokenizeFrom_gap {gap : List Char} (white : ∀ c ∈ gap, isWhitespace c = true) (rest : List Char) :
    tokenizeFrom [] false false (gap ++ rest) = tokenizeFrom [] false false rest := by
  induction gap with
  | nil => rfl
  | cons c gap ih =>
    rw [List.forall_mem_cons] at white
    rw [List.cons_append, tokenizeFrom_whitespace white.1 _ (fun _ => rfl), ih white.2]
    rfl

/-- White space behind a text that leaves no quote open ends its tokens. -/
theorem tokenizeFrom_append {space : Char} (white : isWhitespace space = true) (rest text : List Char)
    {current : List Char} {inQuotes started : Bool} (open_ : inQuotes = true → started = true)
    (fresh : started = false → current = []) (closed : text.count '"' % 2 = inQuotes.toNat) :
    tokenizeFrom current inQuotes started (text ++ space :: rest) =
      tokenizeFrom current inQuotes started text ++ tokenizeFrom [] false false rest := by
  induction text generalizing current inQuotes started with
  | nil =>
    cases inQuotes with
    | true => cases closed
    | false => exact tokenizeFrom_whitespace white rest fresh
  | cons c text ih =>
    rw [List.cons_append]
    by_cases quote : c = '"'
    · subst quote
      rw [List.count_cons_self] at closed
      rw [tokenizeFrom_quote _ _ open_, tokenizeFrom_quote _ _ open_]
      apply ih (fun _ => rfl) (fun absurd_ => by cases absurd_)
      cases inQuotes <;> simp at closed ⊢ <;> omega
    · rw [List.count_cons_of_ne quote] at closed
      by_cases kept : inQuotes = true ∨ isWhitespace c = false
      · rw [tokenizeFrom_kept quote _ _ open_ kept, tokenizeFrom_kept quote _ _ open_ kept]
        exact ih (fun _ => rfl) (fun absurd_ => by cases absurd_) closed
      · rw [not_or, Bool.not_eq_true, Bool.not_eq_false] at kept
        obtain ⟨outside, blank⟩ := kept
        subst outside
        rw [tokenizeFrom_whitespace blank _ fresh, tokenizeFrom_whitespace blank text fresh,
          ih (fun absurd_ => by cases absurd_) (fun _ => rfl) closed, List.append_assoc]

private theorem parse_append (a b : String) (gap : Gap) (closed : a.toList.count '"' % 2 = 0) :
    parse lib (a ++ gap.text ++ b) = parse lib a ++ parse lib b := by
  obtain ⟨space, more, text⟩ : ∃ space more, gap.text.toList = space :: more :=
    List.exists_cons_of_ne_nil fun none => gap.nonempty (String.toList_eq_nil_iff.mp none)
  have white := gap.white
  rw [text, List.forall_mem_cons] at white
  have tokens : tokenize (a ++ gap.text ++ b) = tokenize a ++ tokenize b := by
    simp only [tokenize]
    rw [String.toList_append, String.toList_append, text, List.append_assoc, List.cons_append,
      tokenizeFrom_append white.1 _ _ (fun absurd_ => by cases absurd_) (fun _ => rfl) closed,
        tokenizeFrom_gap white.2]
  rw [parse, tokens, List.filterMap_append]
  rfl

private theorem tokenizeFrom_inside {value : List Char} (plain : '"' ∉ value) (current : List Char) :
    tokenizeFrom current true true (value ++ ['"']) = [current ++ value] := by
  induction value generalizing current with
  | nil => rw [List.nil_append, tokenizeFrom_quote _ _ (fun _ => rfl), List.append_nil]; rfl
  | cons c value ih =>
    rw [List.mem_cons, not_or] at plain
    rw [List.cons_append, tokenizeFrom_kept (Ne.symm plain.1) _ _ (fun _ => rfl) (.inl rfl), ih plain.2, List.append_assoc]
    rfl

/-- A quoted value is one token with what stands before the quotes. -/
private theorem tokenizeFrom_quoted {front value : List Char} (tight : ∀ c ∈ front, c ≠ '"' ∧ isWhitespace c = false)
    (plain : '"' ∉ value) (current : List Char) (started : Bool) :
    tokenizeFrom current false started (front ++ '"' :: value ++ ['"']) = [current ++ (front ++ value)] := by
  have shut {started : Bool} : false = true → started = true := fun absurd_ => by cases absurd_
  induction front generalizing current started with
  | nil =>
    rw [List.nil_append, List.cons_append, tokenizeFrom_quote _ _ shut]
    exact tokenizeFrom_inside plain current
  | cons c front ih =>
    rw [List.forall_mem_cons] at tight
    rw [List.cons_append, List.cons_append, tokenizeFrom_kept tight.1.1 _ _ shut (.inr tight.1.2), ih tight.2, List.append_assoc]
    rfl

theorem splitOnce_append {field : List Char} (plain : ':' ∉ field) (value : List Char) :
    splitOnce (field ++ ':' :: value) = some (field, value) := by
  induction field with
  | nil => rfl
  | cons c field ih =>
    rw [List.mem_cons, not_or] at plain
    rw [List.cons_append, splitOnce, if_neg (Ne.symm plain.1), ih plain.2]
    rfl

private theorem parseTerm_field {field value : List Char} {term : Term} (plain : ':' ∉ field)
    (known : parseField lib field value = some term) : parseTerm lib (field ++ ':' :: value) = term := by
  unfold parseTerm
  rw [splitOnce_append plain]
  simp only [known, Option.getD_some]

theorem parseTerm_bare {text : List Char} (bare : ¬ ReadsAsHint lib text) :
    parseTerm lib text = .bare (String.ofList text) := by
  unfold parseTerm
  split
  · rename_i field value split_
    have none : parseField lib field value = none :=
      Option.not_isSome_iff_eq_none.mp fun some => bare ⟨field, value, split_, some⟩
    rw [none]
    rfl
  · rfl

theorem parseToken_content {content : List Char} (nonempty : content ≠ []) (plain : content.head? ≠ some '!')
    (negated : Bool) : parseToken lib ((if negated then ['!'] else []) ++ content) = some
      ⟨negated, parseTerm lib content⟩ := by
  obtain ⟨c, content, rfl⟩ := List.exists_cons_of_ne_nil nonempty
  have other : c ≠ '!' := fun eq => plain (congrArg some eq)
  cases negated <;> simp [parseToken, other]

private theorem Term.field_letters {has : Bool} {term : Term} {field : List Char}
    (named : term.field has = some field) :
    field.all Char.isLower = true := by
  cases term with
  | bare => cases named
  | text sort => cases sort <;> cases named <;> decide
  | date bound => cases bound <;> cases named <;> decide
  | attachments wanted => cases wanted <;> cases has <;> cases named <;> decide
  | account => cases named; decide
  | folder => cases named; decide

/-- A hint is made of letters and a colon. -/
private theorem Term.mem_hint {has : Bool} {term : Term} {c : Char} (mem : c ∈ term.hint has) :
    c = ':' ∨ c.isLower = true := by
  unfold Term.hint at mem
  split at mem
  · rename_i named
    rcases List.mem_append.mp mem with letter | colon
    · exact .inr (List.all_eq_true.mp (Term.field_letters named) c letter)
    · exact .inl (List.mem_singleton.mp colon)
  · cases mem

theorem isWhitespace_letter {c : Char} (letter : c.isLower = true) : isWhitespace c = false := by
  obtain ⟨above, below⟩ := Bool.and_eq_true_iff.mp letter
  have low : 97 ≤ c.toNat := of_decide_eq_true above
  have high : c.toNat ≤ 122 := of_decide_eq_true below
  unfold isWhitespace
  simp only [Bool.or_eq_false_iff, Bool.and_eq_false_iff, decide_eq_false_iff_not, beq_eq_false_iff_ne]
  omega

private theorem Term.hint_tight (term : Term) (has : Bool) : ∀ c ∈ term.hint has, c ≠ '"' ∧ isWhitespace c = false := by
  intro c mem
  rcases Term.mem_hint mem with rfl | letter
  · decide
  · refine ⟨?_, isWhitespace_letter letter⟩
    rintro rfl
    cases letter

theorem Quotable.value_ne_nil {value : String} (quotable : Quotable value) : value.toList ≠ [] :=
  fun none => quotable.1 (String.toList_eq_nil_iff.mp none)

private theorem Term.Representable.value_plain {lib : TextLibrary} {term : Term}
    (representable : term.Representable lib) (has : Bool) :
    '"' ∉ term.value has := by
  cases term with
  | bare => exact representable.1.2
  | text => exact representable.2
  | date => exact fun mem => (Calendar.mem_ymd mem).elim (by decide) (by decide)
  | attachments wanted => cases wanted <;> cases has <;> decide
  | account => exact representable.2
  | folder => exact representable.2

theorem Term.Representable.value_ne_nil {lib : TextLibrary} {term : Term}
    (representable : term.Representable lib) (has : Bool) :
    term.value has ≠ [] := by
  cases term with
  | bare => exact representable.1.value_ne_nil
  | text => exact Quotable.value_ne_nil representable
  | date => exact Calendar.ymd_ne_nil _
  | attachments wanted => cases wanted <;> cases has <;> decide
  | account => exact Quotable.value_ne_nil representable
  | folder => exact Quotable.value_ne_nil representable

private theorem Term.bare_of_field {has : Bool} {term : Term} (unnamed : term.field has = none) :
    ∃ value, term = .bare value := by
  cases term with
  | bare value => exact ⟨value, rfl⟩
  | attachments wanted => cases wanted <;> cases unnamed
  | text => cases unnamed
  | date => cases unnamed
  | account => cases unnamed
  | folder => cases unnamed

private theorem Term.hint_field {has : Bool} {term : Term} {field : List Char} (named : term.field has = some field) :
    term.hint has = field ++ [':'] := by
  rw [Term.hint, named]

private theorem Term.Representable.content_head {lib : TextLibrary} {term : Term}
    (representable : term.Representable lib) (has : Bool) :
    (term.hint has ++ term.value has).head? ≠ some '!' := by
  cases named : term.field has with
  | some field =>
    have nonempty : term.hint has ≠ [] := by simp [Term.hint_field named]
    rw [List.head?_append_of_ne_nil _ nonempty]
    intro first
    exact (Term.mem_hint (List.mem_of_head? first)).elim (by decide) fun letter => by cases letter
  | none =>
    obtain ⟨value, rfl⟩ := Term.bare_of_field named
    exact representable.2.1

/-- Every field reads its own values. -/
private theorem parseField_value (undoes : lib.UndoesDates) {term : Term}
    (representable : term.Representable lib) {has : Bool}
    {field : List Char} (named : term.field has = some field) :
      parseField lib field (term.value has) = some term := by
  have filled : (term.value has).isEmpty ≠ true := fun none =>
    representable.value_ne_nil has (List.isEmpty_iff.mp none)
  cases term with
  | bare => cases named
  | text sort value =>
    have same : String.ofList (Term.value has (.text sort value)) = value := String.ofList_toList
    rw [parseField, if_neg filled, same]
    cases sort <;> cases named
    · exact if_pos rfl
    · exact (if_neg (by decide)).trans (if_pos rfl)
    · exact (if_neg (by decide)).trans ((if_neg (by decide)).trans (if_pos rfl))
  | date bound day =>
    have read : lib.parseDate (String.ofList (Term.value has (.date bound day))) = some day :=
      undoes day representable
    rw [parseField, if_neg filled, read]
    cases bound <;> cases named <;>
      rw [if_neg (by decide), if_neg (by decide), if_neg (by decide), if_neg (by decide), if_neg (by decide)]
    · exact if_pos rfl
    · exact (if_neg (by decide)).trans (if_pos rfl)
    · exact (if_neg (by decide)).trans ((if_neg (by decide)).trans (if_pos rfl))
  | attachments wanted => cases wanted <;> cases has <;> cases named <;> rfl
  | account name =>
    have same : String.ofList (Term.value has (.account name)) = name := String.ofList_toList
    cases named
    rw [parseField, if_neg filled, same, if_neg (by decide), if_neg (by decide), if_neg (by decide), if_pos rfl]
  | folder name =>
    have same : String.ofList (Term.value has (.folder name)) = name := String.ofList_toList
    cases named
    rw [parseField, if_neg filled, same, if_neg (by decide), if_neg (by decide), if_neg (by decide), if_neg (by decide),
      if_pos rfl]

/-- The content of a clause is read as its term. -/
private theorem parseTerm_content (undoes : lib.UndoesDates) {term : Term}
    (representable : term.Representable lib) (has : Bool) :
    parseTerm lib (term.hint has ++ term.value has) = term := by
  cases named : term.field has with
  | some field =>
    have colon : ':' ∉ field := fun mem => by cases List.all_eq_true.mp (Term.field_letters named) _ mem
    rw [Term.hint_field named, List.append_assoc]
    exact parseTerm_field lib colon (parseField_value lib undoes representable named)
  | none =>
    obtain ⟨value, rfl⟩ := Term.bare_of_field named
    apply (parseTerm_bare lib representable.2.2).trans
    exact congrArg Term.bare String.ofList_toList

private theorem tokenize_clause {clause : Clause} (representable : clause.term.Representable lib) (has : Bool) :
    tokenize (String.ofList (clause.render has)) =
      [(if clause.negated then ['!'] else []) ++ (clause.term.hint has ++ clause.term.value has)] := by
  have tight : ∀ c ∈ (if clause.negated then ['!'] else []) ++ clause.term.hint has, c ≠ '"' ∧ isWhitespace c = false := by
    refine List.forall_mem_append.mpr ⟨?_, clause.term.hint_tight has⟩
    cases clause.negated with
    | true => exact List.forall_mem_singleton.mpr ⟨by decide, rfl⟩
    | false => exact fun c mem => absurd mem List.not_mem_nil
  rw [tokenize, String.toList_ofList, Clause.render, tokenizeFrom_quoted tight (representable.value_plain has)]
  rw [List.nil_append, List.append_assoc]

private theorem parse_clause (undoes : lib.UndoesDates) {clause : Clause}
    (representable : clause.term.Representable lib) (has : Bool) :
    parse lib (String.ofList (clause.render has)) = [clause] := by
  have content : clause.term.hint has ++ clause.term.value has ≠ [] :=
    fun none => representable.value_ne_nil has (List.append_eq_nil_iff.mp none).2
  rw [parse, tokenize_clause lib representable has]
  rw [List.filterMap_cons_some (parseToken_content lib content (representable.content_head has) clause.negated),
    parseTerm_content lib undoes representable has]
  rfl

private theorem render_closed {clause : Clause} (representable : clause.term.Representable lib) (has : Bool) :
    (clause.render has).count '"' % 2 = 0 := by
  have value := List.count_eq_zero.mpr (representable.value_plain has)
  have hint : (clause.term.hint has).count '"' = 0 :=
    List.count_eq_zero.mpr fun mem => (clause.term.hint_tight has _ mem).1 rfl
  have mark : (if clause.negated then ['!'] else []).count '"' = 0 := by cases clause.negated <;> decide
  rw [Clause.render, List.count_append, List.count_append, List.count_append, List.count_cons_self, value, hint, mark]
  rfl

private theorem parse_renderFrom (undoes : lib.UndoesDates) (layout : Layout) {clauses : List Clause}
    (representable : ∀ clause ∈ clauses, clause.term.Representable lib) (i : Nat) :
    parse lib (String.ofList (renderFrom layout i clauses)) = clauses := by
  induction clauses generalizing i with
  | nil => rfl
  | cons clause rest ih =>
    rw [List.forall_mem_cons] at representable
    cases rest with
    | nil => exact parse_clause lib undoes representable.1 _
    | cons next rest =>
      have text : String.ofList (renderFrom layout i (clause :: next :: rest)) = String.ofList
        (clause.render (layout.has i)) ++
          (layout.gap i).text ++ String.ofList (renderFrom layout (i + 1) (next :: rest)) := by
        rw [renderFrom, String.ofList_append, String.ofList_append, String.ofList_toList]
      rw [text, parse_append lib _ _ _ (by rw [String.toList_ofList]; exact render_closed lib representable.1 _),
        parse_clause lib undoes representable.1, ih representable.2]
      rfl

/-- The parser undoes rendering, and it is compositional where no quote is left open. -/
theorem parse_undoes_render (undoes : lib.UndoesDates) : (∀ (layout : Layout) (clauses : List Clause),
      (∀ clause ∈ clauses, clause.term.Representable lib) → parse lib (renderQuery layout clauses) = clauses) ∧
    ∀ (a b : String) (gap : Gap), a.toList.count '"' % 2 = 0 → parse lib (a ++ gap.text ++ b) = parse lib a ++ parse lib b :=
  ⟨fun layout _ representable => parse_renderFrom lib undoes layout representable 0, parse_append lib⟩

/-- ASCII lower-casing, and dates of exactly the form `YYYY-MM-DD`. -/
def plainLibrary : TextLibrary where
  toLowercase s := String.ofList (s.toList.map asciiLower)
  parseDate text := Calendar.readYmd text.toList
  maxDate := 95026236

private theorem plainLibrary_undoes : plainLibrary.UndoesDates := fun date four => by
  have read := Calendar.readYmd_ymd four
  rw [← String.toList_ofList (l := Calendar.ymd date)] at read
  exact read

/-- Three spaces after each clause; attachments are asked for with `has`. -/
def wideLayout : Layout where
  gap _ := ⟨"   ", by decide, List.all_eq_true.mp rfl⟩
  has _ := true

/-- `!subject:"a: b"   "re:lunch"   after:"2024-02-29"   has:"attachment"`. -/
def lunchQuery : List Clause :=
  [⟨true, .text .subject "a: b"⟩, ⟨false, .bare "re:lunch"⟩, ⟨false, .date .after 19782⟩, ⟨false, .attachments true⟩]

private theorem lunchQuery_representable : ∀ clause ∈ lunchQuery, clause.term.Representable plainLibrary := by
  simp only [lunchQuery, List.forall_mem_cons]
  refine ⟨⟨by decide, by decide⟩, ⟨⟨by decide, by decide⟩, by decide, ?_⟩, ⟨by decide, by decide⟩, trivial, ?_⟩
  rotate_left
  · exact fun _ mem => absurd mem List.not_mem_nil
  rintro ⟨field, value, split, known⟩
  cases split
  exact absurd known (by decide)

theorem parse_undoes_render_lunch :
    parse plainLibrary (renderQuery wideLayout lunchQuery) = lunchQuery ∧
      parse plainLibrary ("\"a b\"" ++ "   " ++ "!c\"") = parse plainLibrary "\"a b\"" ++ parse plainLibrary "!c\"" :=
  ⟨(parse_undoes_render plainLibrary plainLibrary_undoes).1 wideLayout lunchQuery lunchQuery_representable,
    (parse_undoes_render plainLibrary plainLibrary_undoes).2 _ _ (wideLayout.gap 0) (by decide)⟩

end MailKeep
