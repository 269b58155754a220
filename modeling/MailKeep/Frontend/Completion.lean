import MailKeep.Core.QueryText
import MailKeep.Parser.Render
import MailKeep.Unicode.LetterCase
import Mathlib.Data.List.TakeWhile

/-! The ghost text of the search box: field names and fixed values that complete the last word. -/
namespace MailKeep

def fieldNames : List (List Char) :=
  ["account", "folder", "subject", "from", "to", "before", "after", "date", "attachments", "has"].map String.toList

def fixedValues (field : List Char) : Option (List (List Char)) :=
  if eqIgnoreAsciiCase field "attachments".toList then some ["none".toList, "some".toList]
  else if eqIgnoreAsciiCase field "has".toList then some ["attachment".toList]
  else none

/-- `split_whitespace().last().unwrap_or("")`. -/
def lastWord (input : List Char) : List Char :=
  ((input.reverse.dropWhile isWhitespace).takeWhile (!isWhitespace ·)).reverse

/-- `rfind(char::is_whitespace).map_or(0, |i| i + 1)`, in bytes. -/
def lastSpace (input : List Char) : Nat :=
  match input.reverse.dropWhile (!isWhitespace ·) with
  | [] => 0
  | _ :: before => byteLength before.reverse + 1

/-- A leading `!`, and what it negates. -/
def splitNegation : List Char → List Char × List Char
  | '!' :: rest => (['!'], rest)
  | token => ([], token)

def startingWith (start : List Char) (names : List (List Char)) : List (List Char) :=
  names.filter (start.isPrefixOf ·)

/-- What is missing of the match with the number `idx`, counted round. -/
def missing (lower : List Char) (matches_ : List (List Char)) (idx : Nat) : List Char :=
  (matches_.getD (idx % matches_.length) []).drop lower.length

section
variable (D : Unicode.CaseData)

def computeCompletion (input : List Char) (cycleIdx : Nat) : List Char :=
  if input.isEmpty || input.getLast?.any isWhitespace then []
  else
    let bare := (splitNegation (lastWord input)).2
    if bare.isEmpty then []
    else match splitOnce bare with
    | some (field, partialValue) =>
      match fixedValues field with
      | none => []
      | some values =>
        if partialValue.isEmpty then []
        else
          let lower := D.lowerFrom [] partialValue
          let matches_ := startingWith lower values
          if matches_.isEmpty then [] else missing lower matches_ cycleIdx
    | none =>
      let lower := D.lowerFrom [] bare
      let matches_ := startingWith lower fieldNames
      if matches_.isEmpty then [] else missing lower matches_ cycleIdx ++ [':']

/-- No result where the slices panic. -/
def applyCompletion (input suffix : List Char) : Option (List Char) :=
  (splitAtByte (lastSpace input) input).map fun (front, token) => front ++ token ++ suffix

/-- No result where the slice panics, `some none` where there is nothing to cycle through. -/
def nextCycleInput (currentInput cyclePrefix : List Char) (cycleIdx : Nat) : Option (Option (List Char)) := do
  let (front, _) ← splitAtByte (lastSpace currentInput) currentInput
  let (neg, bare) := splitNegation cyclePrefix
  let lower := D.lowerFrom [] bare
  match splitOnce lower with
  | some (field, partialValue) =>
    match fixedValues field with
    | none => return none
    | some values =>
      let matches_ := startingWith partialValue values
      if matches_.length < 2 then return none
      else return some (front ++ neg ++ field ++ [':'] ++ matches_.getD (cycleIdx % matches_.length) [])
  | none =>
    let matches_ := startingWith lower fieldNames
    if matches_.length < 2 then return none
    else return some (front ++ neg ++ matches_.getD (cycleIdx % matches_.length) [] ++ [':'])

end

def EndsBlank (front : List Char) : Prop := ∀ c ∈ front.getLast?, isWhitespace c = true

def Unbroken (word : List Char) : Prop := ∀ c ∈ word, isWhitespace c = false

/-- The white space in front of the last word takes more than one byte. -/
def WideSpace (front : List Char) : Prop := front.getLast?.any (1 < ·.utf8Size) = true

instance (front : List Char) : Decidable (EndsBlank front) :=
  decidable_of_iff (front.getLast?.all isWhitespace = true) (by cases last : front.getLast? <;> simp [EndsBlank, last])

instance (word : List Char) : Decidable (Unbroken word) :=
  decidable_of_iff (word.all (!isWhitespace ·) = true) (by simp [Unbroken])

instance (front : List Char) : Decidable (WideSpace front) :=
  inferInstanceAs (Decidable (front.getLast?.any (1 < ·.utf8Size) = true))

/-- What is in front of the last word, the word included where it is blank. -/
theorem exists_lastWord (text : List Char) : ∃ front word, text = front ++ word ∧ EndsBlank front ∧ Unbroken word := by
  refine ⟨(text.reverse.dropWhile (!isWhitespace ·)).reverse, (text.reverse.takeWhile (!isWhitespace ·)).reverse, ?_, ?_, ?_⟩
  · rw [← List.reverse_append, List.takeWhile_append_dropWhile, List.reverse_reverse]
  · intro c hc
    rw [List.getLast?_reverse] at hc
    have not_ := List.head?_dropWhile_not (!isWhitespace ·) text.reverse
    rw [hc] at not_
    simpa using not_
  · intro c hc
    have kept := List.mem_takeWhile_imp (List.mem_reverse.mp hc)
    simpa using kept

section
variable {front word : List Char}

theorem dropWhile_word (ends : EndsBlank front) (unbroken : Unbroken word) :
    (front ++ word).reverse.dropWhile (!isWhitespace ·) = front.reverse := by
  rw [List.reverse_append, List.dropWhile_append_of_pos]
  · cases h : front.reverse with
    | nil => rfl
    | cons c rest =>
      have blank : isWhitespace c = true := ends c (by rw [← List.head?_reverse, h]; rfl)
      exact List.dropWhile_cons_of_neg (by simp [blank])
  · intro c hc
    simp [unbroken c (List.mem_reverse.mp hc)]

theorem lastWord_append (ends : EndsBlank front) (unbroken : Unbroken word) (nonempty : word ≠ []) :
    lastWord (front ++ word) = word := by
  have start : (front ++ word).reverse.dropWhile isWhitespace = word.reverse ++ front.reverse := by
    rw [List.reverse_append]
    cases h : word.reverse with
    | nil => exact absurd (List.reverse_eq_nil_iff.mp h) nonempty
    | cons c rest =>
      have visible : isWhitespace c = false := unbroken c (List.mem_reverse.mp (h ▸ List.mem_cons_self))
      exact List.dropWhile_cons_of_neg (by simp [visible])
  have taken : (word.reverse ++ front.reverse).takeWhile (!isWhitespace ·) = word.reverse := by
    rw [List.takeWhile_append_of_pos]
    · cases h : front.reverse with
      | nil => simp
      | cons c rest =>
        have blank : isWhitespace c = true := ends c (by rw [← List.head?_reverse, h]; rfl)
        rw [List.takeWhile_cons_of_neg (by simp [blank]), List.append_nil]
    · intro c hc
      simp [unbroken c (List.mem_reverse.mp hc)]
  unfold lastWord
  rw [start, taken, List.reverse_reverse]

private theorem byteLength_append (a b : List Char) : byteLength (a ++ b) = byteLength a + byteLength b := by
  simp [byteLength]

/-- A slice that ends inside a character panics. -/
private theorem splitAtByte_inside (before rest : List Char) {c : Char} {n : Nat} (pos : 0 < n)
    (inside : n < c.utf8Size) :
    splitAtByte (byteLength before + n) (before ++ c :: rest) = none := by
  apply Option.not_isSome_iff_eq_none.mp
  rw [Option.isSome_iff_exists]
  rintro ⟨⟨front, back⟩, found⟩
  obtain ⟨whole, length⟩ := splitAtByte_eq_some.mp found
  rcases List.append_eq_append_iff.mp whole with ⟨more, rfl, cut⟩ | ⟨more, rfl, -⟩
  · rw [byteLength_append] at length
    cases more with
    | nil =>
      rw [byteLength_nil] at length
      omega
    | cons d more =>
      obtain ⟨rfl, -⟩ := List.cons.inj cut
      rw [byteLength_cons] at length
      omega
  · rw [byteLength_append] at length
    omega

/-- The slices at the last white space succeed unless it takes more than one byte. -/
theorem splitAtByte_lastSpace (ends : EndsBlank front) (unbroken : Unbroken word) :
    splitAtByte (lastSpace (front ++ word)) (front ++ word) =
      if WideSpace front then none else some (front, word) := by
  have spaces := dropWhile_word ends unbroken
  unfold lastSpace
  rw [spaces]
  cases last : front.reverse with
  | nil =>
    obtain rfl := List.reverse_eq_nil_iff.mp last
    exact splitAtByte_eq_some.mpr ⟨rfl, rfl⟩
  | cons c before =>
    obtain rfl : front = before.reverse ++ [c] := by
      rw [← List.reverse_reverse front, last, List.reverse_cons]
    have wide : WideSpace (before.reverse ++ [c]) ↔ 1 < c.utf8Size := by simp [WideSpace]
    have pos := c.utf8Size_pos
    dsimp only
    by_cases h : WideSpace (before.reverse ++ [c])
    · rw [if_pos h, List.append_assoc]
      exact splitAtByte_inside before.reverse word Nat.one_pos (wide.mp h)
    · rw [if_neg h]
      have narrow := mt wide.mpr h
      refine splitAtByte_eq_some.mpr ⟨rfl, ?_⟩
      rw [byteLength_append, byteLength_cons, byteLength_nil]
      omega

end

/-- Behind `front` stands one of the candidates, of which `typed` is the beginning, and behind it `behind`. -/
structure Offer where
  front : List Char
  typed : List Char
  candidates : List (List Char)
  behind : List Char
deriving DecidableEq

namespace Offer

/-- What is missing of the first candidate, which ghosts behind the word. -/
def suffix (o : Offer) (idx : Nat) : List Char :=
  if o.candidates.isEmpty then [] else missing o.typed o.candidates idx ++ o.behind

def cycled (o : Offer) (idx : Nat) : List Char :=
  o.front ++ o.candidates.getD (idx % o.candidates.length) [] ++ o.behind

end Offer

section
variable (D : Unicode.CaseData)

/-- Without a colon the word is the beginning of a field name; with one it is a field and the beginning of a value, of which
at least a character was typed. -/
def offerFor (word : List Char) : Offer :=
  let (neg, bare) := splitNegation word
  match splitOnce bare with
  | some (field, value) =>
    let lower := D.lowerFrom [] value
    ⟨neg ++ D.lowerFrom [] field ++ [':'], lower,
      if value.isEmpty then [] else startingWith lower ((fixedValues field).getD []), []⟩
  | none =>
    let lower := D.lowerFrom [] bare
    ⟨neg, lower, if bare.isEmpty then [] else startingWith lower fieldNames, [':']⟩

end

private theorem splitOnce_eq_none {s : List Char} : splitOnce s = none ↔ ':' ∉ s := by
  induction s with
  | nil => simp [splitOnce]
  | cons c s ih =>
    rw [splitOnce]
    by_cases colon : c = ':'
    · simp [colon]
    · simp [colon, Ne.symm colon, ih]

private theorem splitOnce_eq_some {s field value : List Char} (h : splitOnce s = some (field, value)) :
    s = field ++ ':' :: value ∧ ':' ∉ field := by
  induction s generalizing field with
  | nil => cases h
  | cons c s ih =>
    rw [splitOnce] at h
    by_cases colon : c = ':'
    · rw [if_pos colon] at h
      cases h
      exact ⟨by rw [colon]; rfl, List.not_mem_nil⟩
    · rw [if_neg colon] at h
      obtain ⟨⟨rest, value'⟩, found, eq⟩ := Option.map_eq_some_iff.mp h
      cases eq
      obtain ⟨rfl, plain⟩ := ih found
      exact ⟨rfl, by simp [Ne.symm colon, plain]⟩

/-- The ghost text is what the offer for the last word is missing. -/
theorem computeCompletion_eq (D : Unicode.CaseData) {front word : List Char} (ends : EndsBlank front)
    (unbroken : Unbroken word) (idx : Nat) :
    computeCompletion D (front ++ word) idx = (offerFor D word).suffix idx := by
  by_cases nonempty : word = []
  · subst nonempty
    have blank : ((front ++ []).isEmpty || (front ++ []).getLast?.any isWhitespace) = true := by
      rw [List.append_nil]
      cases h : front.getLast? with
      | none => simp [List.getLast?_eq_none_iff.mp h]
      | some c => simp [ends c h]
    unfold computeCompletion
    rw [if_pos blank]
    rfl
  · have visible : ((front ++ word).isEmpty || (front ++ word).getLast?.any isWhitespace) = false := by
      obtain ⟨c, hc⟩ := Option.isSome_iff_exists.mp (List.getLast?_isSome.mpr nonempty)
      have last : isWhitespace c = false := unbroken c (List.mem_of_getLast? hc)
      simp [List.getLast?_append, hc, last, nonempty]
    have word_ : lastWord (front ++ word) = word := lastWord_append ends unbroken nonempty
    unfold computeCompletion
    rw [if_neg (by rw [visible]; exact Bool.false_ne_true), word_]
    dsimp only
    cases colon : splitOnce (splitNegation word).2 with
    | none =>
      simp only [offerFor, Offer.suffix, colon]
      by_cases bare : (splitNegation word).2.isEmpty
      · simp [bare]
      · simp [bare]
    | some pair =>
      obtain ⟨field, value⟩ := pair
      have bare : (splitNegation word).2.isEmpty = false := by
        rw [(splitOnce_eq_some colon).1]
        simp
      simp only [offerFor, Offer.suffix, colon]
      rw [if_neg (by rw [bare]; exact Bool.false_ne_true)]
      cases fixed : fixedValues field with
      | none => simp [startingWith]
      | some values =>
        by_cases typed : value.isEmpty
        · simp [typed]
        · simp [typed]

theorem fieldNames_letters : ∀ name ∈ fieldNames, name.all Char.isLower = true := by decide

theorem toNat_of_isLower {c : Char} (letter : c.isLower = true) : c.toNat < 128 := by
  obtain ⟨-, below⟩ := Bool.and_eq_true_iff.mp letter
  have high : c.toNat ≤ 122 := of_decide_eq_true below
  omega

private theorem asciiLower_eq_toLower (c : Char) : asciiLower c = c.toLower := by
  unfold asciiLower
  by_cases upper : 'A' ≤ c ∧ c ≤ 'Z'
  · rw [if_pos upper]
    have low : 65 ≤ c.val.toNat := upper.1
    have high : c.val.toNat ≤ 90 := upper.2
    apply Char.ext
    rw [Unicode.val_toLower, if_pos ⟨upper.1, upper.2⟩]
    apply UInt32.toNat_inj.mp
    have sum : (c.val + 32).toNat = c.val.toNat + 32 := by
      rw [UInt32.toNat_add]
      have : (32 : UInt32).toNat = 32 := rfl
      omega
    rw [sum]
    have valid : (c.toNat + 32).isValidChar := .inl (by change c.val.toNat + 32 < 0xd800; omega)
    rw [Char.ofNat, dif_pos valid]
    rfl
  · rw [if_neg upper]
    exact (Char.ext ((Unicode.val_toLower c).trans (if_neg fun h => upper ⟨h.1, h.2⟩))).symm

private theorem toNat_of_asciiLower {c : Char} (letter : (asciiLower c).isLower = true) : c.toNat < 128 := by
  rw [asciiLower_eq_toLower] at letter
  rcases Unicode.toLower_eq_or_ascii c with same | ⟨small, -⟩
  · exact toNat_of_isLower (same ▸ letter)
  · exact small

/-- A field with fixed values is one of two names, in any case. -/
theorem fixedValues_eq_some {field : List Char} {values : List (List Char)} (fixed : fixedValues field = some values) :
    (field.map asciiLower).all Char.isLower = true ∧ fixedValues (field.map asciiLower) = some values ∧
      ∀ value ∈ values, value.all Char.isLower = true := by
  unfold fixedValues at fixed
  by_cases attachments : eqIgnoreAsciiCase field "attachments".toList
  · rw [if_pos attachments] at fixed
    cases fixed
    rw [show field.map asciiLower = "attachments".toList.map asciiLower from beq_iff_eq.mp attachments]
    decide
  · rw [if_neg attachments] at fixed
    by_cases has : eqIgnoreAsciiCase field "has".toList
    · rw [if_pos has] at fixed
      cases fixed
      rw [show field.map asciiLower = "has".toList.map asciiLower from beq_iff_eq.mp has]
      decide
    · rw [if_neg has] at fixed
      cases fixed

theorem mem_startingWith {start name : List Char} {names : List (List Char)} :
    name ∈ startingWith start names ↔ name ∈ names ∧ start <+: name := by
  rw [startingWith, List.mem_filter, List.isPrefixOf_iff_prefix]

private theorem all_of_prefix {start name : List Char} (letters : name.all Char.isLower = true)
    (within : start <+: name) :
    start.all Char.isLower = true :=
  List.all_eq_true.mpr fun c hc => List.all_eq_true.mp letters c (within.subset hc)

section
variable {D : Unicode.CaseData}

theorem sigma_of_letters {before text : List Char} (letters : (D.lowerFrom before text).all Char.isLower = true) :
    'Σ' ∉ text :=
  D.sigma_not_mem fun d hd => toNat_of_isLower (List.all_eq_true.mp letters d hd)

theorem lowerFrom_field {field : List Char} {values : List (List Char)} (fixed : fixedValues field = some values) :
    'Σ' ∉ field ∧ D.lowerFrom [] field = field.map asciiLower := by
  have small : ∀ c ∈ field, c.toNat < 128 := fun c hc =>
    toNat_of_asciiLower (List.all_eq_true.mp (fixedValues_eq_some fixed).1 _ (List.mem_map_of_mem hc))
  have plain : 'Σ' ∉ field := fun sigma => absurd (small _ sigma) (by decide)
  refine ⟨plain, ?_⟩
  rw [D.lowerFrom_eq_flatMap [] plain, List.map_eq_flatMap]
  exact List.flatMap_congr fun c hc => by rw [D.lower_ascii c (small c hc), asciiLower_eq_toLower]

/-- Lowering a hint whole lowers its two sides. -/
private theorem lowerFrom_hint {field value : List Char} (plainField : 'Σ' ∉ field) (plainValue : 'Σ' ∉ value) :
    D.lowerFrom [] (field ++ ':' :: value) = D.lowerFrom [] field ++ ':' :: D.lowerFrom [] value := by
  have plain : 'Σ' ∉ field ++ ':' :: value := by
    rw [List.mem_append, List.mem_cons]
    exact not_or.mpr ⟨plainField, not_or.mpr ⟨by decide, plainValue⟩⟩
  have colon : D.lower ':' = [':'] := D.lower_ascii ':' (by decide)
  rw [D.lowerFrom_eq_flatMap [] plain, D.lowerFrom_eq_flatMap [] plainField, D.lowerFrom_eq_flatMap [] plainValue,
    List.flatMap_append, List.flatMap_cons, colon]
  rfl

/-- What an offer with candidates was made from: the beginning of a field name, or of a value behind a field. -/
theorem offerFor_cases {word : List Char} (offered : (offerFor D word).candidates ≠ []) :
    (∃ neg bare, splitNegation word = (neg, bare) ∧ bare ≠ [] ∧ ':' ∉ bare ∧
      offerFor D word = ⟨neg, D.lowerFrom [] bare, startingWith (D.lowerFrom [] bare) fieldNames, [':']⟩) ∨
    ∃ neg field value values, splitNegation word = (neg, field ++ ':' :: value) ∧ ':' ∉ field ∧ value ≠ [] ∧
      fixedValues field = some values ∧ offerFor D word =
        ⟨neg ++ D.lowerFrom [] field ++ [':'], D.lowerFrom [] value, startingWith (D.lowerFrom [] value) values, []⟩ := by
  rcases halves : splitNegation word with ⟨neg, bare⟩
  unfold offerFor at offered ⊢
  rw [halves] at offered ⊢
  dsimp only at offered ⊢
  cases colon : splitOnce bare with
  | none =>
    left
    rw [colon] at offered
    have filled : bare ≠ [] := by
      rintro rfl
      exact offered rfl
    refine ⟨neg, bare, rfl, filled, splitOnce_eq_none.mp colon, ?_⟩
    simp [filled]
  | some pair =>
    obtain ⟨field, value⟩ := pair
    right
    rw [colon] at offered
    obtain ⟨rfl, plain⟩ := splitOnce_eq_some colon
    have filled : value ≠ [] := by
      rintro rfl
      exact offered rfl
    cases fixed : fixedValues field with
    | none => simp [fixed, startingWith] at offered
    | some values => exact ⟨neg, field, value, values, rfl, plain, filled, fixed, by simp [filled, fixed]⟩

/-- Every candidate is a lower-case word that begins with what was typed, lowered. -/
theorem mem_candidates {word name : List Char} (mem : name ∈ (offerFor D word).candidates) :
    name.all Char.isLower = true ∧ (offerFor D word).typed <+: name := by
  rcases offerFor_cases (List.ne_nil_of_mem mem) with
    ⟨neg, bare, -, -, -, offer⟩ | ⟨neg, field, value, values, -, -, -, fixed, offer⟩
  · rw [offer] at mem ⊢
    obtain ⟨named, within⟩ := mem_startingWith.mp mem
    exact ⟨fieldNames_letters _ named, within⟩
  · rw [offer] at mem ⊢
    obtain ⟨named, within⟩ := mem_startingWith.mp mem
    exact ⟨(fixedValues_eq_some fixed).2.2 _ named, within⟩

theorem typed_letters {word : List Char} (offered : (offerFor D word).candidates ≠ []) :
    (offerFor D word).typed.all Char.isLower = true := by
  obtain ⟨name, more, names⟩ := List.exists_cons_of_ne_nil offered
  obtain ⟨letters, within⟩ := mem_candidates (names ▸ List.mem_cons_self : name ∈ (offerFor D word).candidates)
  exact all_of_prefix letters within

private theorem not_mem_letters {text : List Char} {c : Char} (letters : text.all Char.isLower = true)
    (other : c.isLower = false) :
    c ∉ text := by
  intro mem
  rw [List.all_eq_true.mp letters c mem] at other
  cases other

/-- With the same word, Tab goes round its candidates: the prefix is offered anew, whatever stands in the box now. -/
theorem nextCycleInput_eq {front shown word : List Char} (ends : EndsBlank front) (unbroken : Unbroken shown)
    (offered : (offerFor D word).candidates ≠ []) (idx : Nat) :
    nextCycleInput D (front ++ shown) word idx = if WideSpace front then none else some
      (if (offerFor D word).candidates.length < 2 then none else some (front ++ (offerFor D word).cycled idx)) := by
  unfold nextCycleInput
  rw [splitAtByte_lastSpace ends unbroken]
  by_cases wide : WideSpace front
  · rw [if_pos wide, if_pos wide]
    rfl
  rw [if_neg wide, if_neg wide]
  have letters := typed_letters offered
  rcases offerFor_cases offered with
    ⟨neg, bare, halves, filled, plain, offer⟩ | ⟨neg, field, value, values, halves, plain, filled, fixed, offer⟩
  · rw [offer] at letters
    have none_ : splitOnce (D.lowerFrom [] bare) = none :=
      splitOnce_eq_none.mpr (not_mem_letters letters rfl)
    simp only [Option.bind_eq_bind, Option.bind_some, halves, none_, offer, Offer.cycled, List.append_assoc]
    split_ifs <;> rfl
  · rw [offer] at letters
    obtain ⟨fieldPlain, fieldLower⟩ := lowerFrom_field (D := D) fixed
    obtain ⟨fieldLetters, fixedLower, -⟩ := fixedValues_eq_some fixed
    have lowered := lowerFrom_hint (D := D) fieldPlain (sigma_of_letters letters)
    have found : splitOnce (D.lowerFrom [] (field ++ ':' :: value)) = some (field.map asciiLower, D.lowerFrom [] value) := by
      rw [lowered, fieldLower]
      exact splitOnce_append (not_mem_letters fieldLetters rfl) _
    simp only [Option.bind_eq_bind, Option.bind_some, halves, found, fixedLower, offer, Offer.cycled, fieldLower,
      List.append_assoc, List.append_nil]
    split_ifs <;> rfl

end

end MailKeep
