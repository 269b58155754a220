import MailKeep.Core.Query
import MailKeep.Scan.Find
import Mathlib.Data.List.Basic

/-! Stripping HTML for the index. Offsets are characters: lower-casing ASCII keeps the length of the
text, and a match of an ASCII needle begins and ends between characters. -/
namespace MailKeep

/-- The end tag looked for, if the lower-cased tag seems to open a script or style element. -/
def endTag (lower : List Char) : Option (List Char) :=
  if "<script".toList.isPrefixOf lower then some "</script".toList
  else if "<style".toList.isPrefixOf lower then some "</style".toList
  else none

/-- What follows the tag, or the element, at the front; nothing if it is unterminated. -/
def skipTag (tag : List Char) : Option (List Char) :=
  let lower := tag.map asciiLower
  match endTag lower with
  | some close => (Scan.find close lower).bind fun e => Scan.after '>' (tag.drop e)
  | none => Scan.after '>' tag

private theorem skipTag_length {tag next : List Char} (skipped : skipTag tag = some next) :
    next.length < tag.length := by
  unfold skipTag at skipped
  cases found : endTag (tag.map asciiLower) with
  | some close =>
    simp only [found] at skipped
    obtain ⟨e, -, skipped⟩ := Option.bind_eq_some_iff.mp skipped
    exact (Scan.after_length skipped).trans_le (List.length_drop ▸ Nat.sub_le _ _)
  | none =>
    simp only [found] at skipped
    exact Scan.after_length skipped

/-- `html_to_text`: the text before each tag, then what the rest yields behind it. -/
def htmlToText (rest : List Char) : List Char :=
  match tag : rest.dropWhile (· ≠ '<') with
  | [] => rest
  | c :: more =>
    match skipped : skipTag (c :: more) with
    | some next =>
      have : next.length < rest.length := (skipTag_length skipped).trans_le
        (tag ▸ (List.dropWhile_sublist _).length_le)
      rest.takeWhile (· ≠ '<') ++ htmlToText next
    | none => rest.takeWhile (· ≠ '<')
termination_by rest.length

theorem htmlToText_eq (rest : List Char) : htmlToText rest =
    rest.takeWhile (· ≠ '<') ++ ((skipTag (rest.dropWhile (· ≠ '<'))).map htmlToText).getD [] := by
  rw [htmlToText]
  split
  · rename_i dropped
    have whole := List.takeWhile_append_dropWhile (p := (· ≠ '<')) (l := rest)
    rw [dropped, List.append_nil] at whole
    rw [dropped, whole]
    exact (List.append_nil rest).symm
  · rename_i c more dropped
    have here : skipTag (rest.dropWhile (· ≠ '<')) = skipTag (c :: more) := congrArg skipTag dropped
    rw [here]
    split <;> rename_i skipped <;> simp [skipped]

private theorem htmlToText_nil : htmlToText [] = [] := by
  rw [htmlToText_eq]
  rfl

theorem htmlToText_tag (more : List Char) : htmlToText ('<' :: more) =
    ((skipTag ('<' :: more)).map htmlToText).getD [] :=
  htmlToText_eq _

private theorem htmlToText_cons {c : Char} (visible : c ≠ '<') (rest : List Char) :
    htmlToText (c :: rest) = c :: htmlToText rest := by
  rw [htmlToText_eq, htmlToText_eq rest, List.takeWhile_cons, List.dropWhile_cons, if_pos (decide_eq_true visible),
    if_pos (decide_eq_true visible), List.cons_append]

/-- Text is kept. -/
private theorem htmlToText_append {text : List Char} (visible : '<' ∉ text) (rest : List Char) :
    htmlToText (text ++ rest) = text ++ htmlToText rest := by
  induction text with
  | nil => rfl
  | cons c text ih =>
    rw [List.mem_cons, not_or] at visible
    rw [List.cons_append, htmlToText_cons (Ne.symm visible.1), ih visible.2, List.cons_append]

/-- No markup is left, whatever the input. -/
private theorem htmlToText_stripped (html : List Char) : '<' ∉ htmlToText html := by
  induction len : html.length using Nat.strong_induction_on generalizing html with
  | _ n ih =>
    cases html with
    | nil =>
      rw [htmlToText_nil]
      exact List.not_mem_nil
    | cons c rest =>
      by_cases opens : c = '<'
      · subst opens
        rw [htmlToText_tag]
        cases skipped : skipTag ('<' :: rest) with
        | none => exact List.not_mem_nil
        | some next => exact ih _ (len ▸ skipTag_length skipped) next rfl
      · rw [htmlToText_cons opens, List.mem_cons, not_or]
        exact ⟨Ne.symm opens, ih _ (len ▸ Nat.lt_succ_self _) rest rfl⟩

def isTagSpace (c : Char) : Bool := c = ' ' || c = '\t' || c = '\n' || c = '\x0C' || c = '\r'

structure TagName where
  text : List Char
  nonempty : text ≠ []
  unbroken : ∀ c ∈ text, c ≠ '>' ∧ c ≠ '/' ∧ isTagSpace c = false

/-- What stands between the name of a tag and its `>`. -/
structure Attributes where
  text : List Char
  unclosed : '>' ∉ text
  apart : ∀ c, text.head? = some c → c = '/' ∨ isTagSpace c = true

inductive Hidden
  | script
  | style
deriving DecidableEq

def Hidden.name : Hidden → List Char
  | .script => "script".toList
  | .style => "style".toList

structure OrdinaryTag where
  closing : Bool
  name : TagName
  attributes : Attributes
  ordinary : ∀ element : Hidden, name.text.map asciiLower ≠ element.name

structure HiddenTags where
  element : Hidden
  opening : List Char
  openingSpelled : opening.map asciiLower = element.name
  attributes : Attributes
  closing : List Char
  closingSpelled : closing.map asciiLower = element.name
  closingAttributes : Attributes

inductive Markup
  | ordinary (tag : OrdinaryTag)
  | hidden (tags : HiddenTags)

def Hidden.start (element : Hidden) : List Char := '<' :: element.name

def Hidden.mark (element : Hidden) : List Char := '<' :: '/' :: element.name

/-- The opening tag of a name, up to its `>`. -/
def openTag (name : List Char) (attributes : Attributes) : List Char := '<' :: name ++ attributes.text

def OrdinaryTag.inside (tag : OrdinaryTag) : List Char :=
  if tag.closing then '<' :: '/' :: tag.name.text ++ tag.attributes.text else openTag tag.name.text tag.attributes

/-- A document: visible text, tags, and hidden elements with their content. -/
inductive Piece
  | text (chunk : List Char) (visible : '<' ∉ chunk)
  | ordinary (tag : OrdinaryTag)
  | hidden (tags : HiddenTags) (content : List Char) (unended : ¬ tags.element.mark <:+: content.map asciiLower)

def Piece.render : Piece → List Char
  | .text chunk _ => chunk
  | .ordinary tag => tag.inside ++ ['>']
  | .hidden tags content _ => openTag tags.opening tags.attributes ++ '>' :: content ++
      '<' :: '/' :: tags.closing ++ tags.closingAttributes.text ++ ['>']

def Piece.visible : Piece → List Char
  | .text chunk _ => chunk
  | .ordinary _ => []
  | .hidden _ _ _ => []

def Piece.markup : Piece → Option Markup
  | .text _ _ => none
  | .ordinary tag => some (.ordinary tag)
  | .hidden tags _ _ => some (.hidden tags)

def document (pieces : List Piece) : List Char := pieces.flatMap Piece.render

def visibleText (pieces : List Piece) : List Char := pieces.flatMap Piece.visible

def markupOf (pieces : List Piece) : List Markup := pieces.filterMap Piece.markup

/-- An opening tag is either not taken for a hidden element or left at its own `>`; a hidden element is not left there. -/
def Markup.Plain : Markup → Prop
  | .ordinary tag => tag.closing = true ∨ ∀ element : Hidden, element.name <+: tag.name.text.map asciiLower →
      element.mark <:+: tag.inside.map asciiLower
  | .hidden tags => ¬ tags.element.mark <:+: (openTag tags.opening tags.attributes).map asciiLower

private theorem Hidden.name_letters (element : Hidden) :
    element.name.all Char.isLower = true := by cases element <;> decide

private theorem Hidden.mem_name {element : Hidden} {c : Char} (mem : c ∈ element.name) : c.isLower = true :=
  List.all_eq_true.mp element.name_letters c mem

private theorem endTag_start {element : Hidden} {lower : List Char} (opens : element.start <+: lower) :
    endTag lower = some element.mark := by
  cases element with
  | script => exact if_pos (List.isPrefixOf_iff_prefix.mpr opens)
  | style =>
    have other : ¬ "<script".toList <+: lower := by
      intro script
      exact absurd (List.prefix_of_prefix_length_le opens script (by decide)) (by decide)
    unfold endTag
    rw [if_neg fun script => other (List.isPrefixOf_iff_prefix.mp script)]
    exact if_pos (List.isPrefixOf_iff_prefix.mpr opens)

private theorem endTag_none {lower : List Char} (plain : ∀ element : Hidden, ¬ element.start <+: lower) :
    endTag lower = none :=
  (if_neg fun script => plain .script (List.isPrefixOf_iff_prefix.mp script)).trans
    (if_neg fun style => plain .style (List.isPrefixOf_iff_prefix.mp style))

/-- Behind the name stands a symbol that is no letter. -/
theorem Attributes.behind (attributes : Attributes) (rest : List Char) :
    ∃ c more, attributes.text ++ '>' :: rest = c :: more ∧ asciiLower c = c ∧ c.isLower = false := by
  cases text : attributes.text with
  | nil => exact ⟨'>', rest, rfl, by decide, by decide⟩
  | cons c more =>
    refine ⟨c, more ++ '>' :: rest, rfl, ?_⟩
    have sort := attributes.apart c (by rw [text]; rfl)
    simp only [isTagSpace, Bool.or_eq_true, decide_eq_true_eq] at sort
    rcases sort with rfl | (((rfl | rfl) | rfl) | rfl) | rfl <;> decide

private theorem openTag_start_iff (name : List Char) (attributes : Attributes) (rest : List Char) (element : Hidden) :
    element.start <+: (openTag name attributes ++ '>' :: rest).map asciiLower ↔
      element.name <+: name.map asciiLower := by
  obtain ⟨c, more, behind, same, low⟩ := attributes.behind rest
  have foreign : c ∉ element.name := fun mem => by
    rw [Hidden.mem_name mem] at low
    cases low
  have shape : (openTag name attributes ++ '>' :: rest).map asciiLower =
      '<' :: (name.map asciiLower ++ c :: more.map asciiLower) := by
    rw [openTag, List.append_assoc, behind, List.cons_append, List.map_cons, List.map_append, List.map_cons, same]
    rfl
  rw [shape, Hidden.start, List.cons_prefix_cons]
  constructor
  · rintro ⟨-, found⟩
    exact Scan.prefix_of_prefix_cut foreign found
  · intro found
    exact ⟨rfl, found.trans (List.prefix_append _ _)⟩

/-- From the front of the tag to behind the `>` that follows the first mark of the element. -/
def leave (element : Hidden) (tag : List Char) : Option (List Char) :=
  (Scan.find element.mark (tag.map asciiLower)).bind fun e => Scan.after '>' (tag.drop e)

theorem skipTag_hidden {element : Hidden} {tag : List Char} (opens : element.start <+: tag.map asciiLower) :
    skipTag tag = leave element tag := by
  unfold skipTag leave
  simp only [endTag_start opens]

private theorem skipTag_ordinary {tag : List Char}
    (plain : ∀ element : Hidden, ¬ element.start <+: tag.map asciiLower) :
    skipTag tag = Scan.after '>' tag := by
  unfold skipTag
  simp only [endTag_none plain]

private theorem leave_append {element : Hidden} {front rest : List Char}
    (clear : Scan.Clear element.mark (front.map asciiLower) (rest.map asciiLower)) :
    leave element (front ++ rest) = leave element rest := by
  unfold leave
  rw [List.map_append, clear.find_append, List.length_map, Option.bind_map]
  congr 1
  funext e
  simp only [Function.comp_apply, List.drop_append, List.drop_eq_nil_of_le (Nat.le_add_right _ e), Nat.add_sub_cancel_left,
    List.nil_append]

/-- A mark before the first `>` leaves the element there. -/
private theorem leave_inside {element : Hidden} {inside : List Char} (open_ : '>' ∉ inside)
    (marked : element.mark <:+: inside.map asciiLower) (rest : List Char) :
    leave element (inside ++ '>' :: rest) = some rest := by
  obtain ⟨e, within, found⟩ := Scan.find_le_of_infix marked (('>' :: rest).map asciiLower)
  rw [List.length_map] at within
  rw [leave, List.map_append, found, Option.bind_some, List.drop_append_of_le_length within]
  exact Scan.after_append (fun mem => open_ (List.mem_of_mem_drop mem)) rest

/-- Without one, the element goes on behind the tag. -/
private theorem leave_beyond {element : Hidden} {inside : List Char}
    (unmarked : ¬ element.mark <:+: inside.map asciiLower)
    (rest : List Char) : leave element (inside ++ '>' :: rest) = leave element rest := by
  rw [List.append_cons]
  apply leave_append
  rw [List.map_append]
  have foreign : '>' ∉ element.mark := by cases element <;> decide
  exact Scan.Clear.of_cut foreign (List.cons_ne_nil _ _) unmarked

/-- Only letters become letters. -/
private theorem asciiLower_eq {c d : Char} (low : d < 'a') (eq : asciiLower c = d) : c = d := by
  unfold asciiLower at eq
  split at eq
  · rename_i capital
    have lower : 65 ≤ c.toNat := capital.1
    have upper : c.toNat ≤ 90 := capital.2
    have small : d.toNat < 97 := low
    have valid : (c.toNat + 32).isValidChar := .inl (by omega)
    have letter : d.toNat = c.toNat + 32 := by
      rw [← eq, Char.ofNat, dif_pos valid]
      rfl
    omega
  · exact eq

private theorem leave_text {element : Hidden} {text : List Char} (visible : '<' ∉ text) (rest : List Char) :
    leave element (text ++ rest) = leave element rest := by
  refine leave_append (Scan.Clear.of_head fun mem => ?_)
  obtain ⟨c, mem, lt⟩ := List.mem_map.mp mem
  exact visible (asciiLower_eq (by decide) lt ▸ mem)

theorem unclosed {element : Hidden} {name : List Char} (spelled : name.map asciiLower = element.name) :
    '>' ∉ name := by
  intro mem
  have letter := Hidden.mem_name (spelled ▸ List.mem_map_of_mem mem)
  cases letter

/-- Behind its content, a hidden element ends with its closing tag. -/
private theorem leave_content {element : Hidden} {content closing : List Char}
    (unended : ¬ element.mark <:+: content.map asciiLower)
    (spelled : closing.map asciiLower = element.name) (attributes : Attributes) (rest : List Char) :
    leave element (content ++ '<' :: '/' :: (closing ++ attributes.text ++ '>' :: rest)) = some rest := by
  have foreign : '<' ∉ '/' :: element.name := by cases element <;> decide
  have clear : Scan.Clear element.mark (content.map asciiLower)
      (('<' :: '/' :: (closing ++ attributes.text ++ '>' :: rest)).map asciiLower) :=
        Scan.Clear.of_begins foreign unended
  rw [leave_append clear]
  have shape : '<' :: '/' :: (closing ++ attributes.text ++ '>' :: rest) =
      ('<' :: '/' :: closing ++ attributes.text) ++ '>' :: rest := rfl
  rw [shape]
  refine leave_inside ?_ ?_ rest
  · simp only [List.cons_append, List.mem_cons, List.mem_append, not_or]
    exact ⟨by decide, by decide, unclosed spelled, attributes.unclosed⟩
  · rw [List.map_append]
    refine List.IsPrefix.isInfix (List.IsPrefix.trans ?_ (List.prefix_append _ _))
    rw [List.map_cons, List.map_cons, spelled]
    exact List.prefix_rfl

private theorem openTag_unclosed {name : List Char} (unclosed : '>' ∉ name) (attributes : Attributes) :
    '>' ∉ openTag name attributes := by
  simp only [openTag, List.cons_append, List.mem_cons, List.mem_append, not_or]
  exact ⟨by decide, unclosed, attributes.unclosed⟩

theorem TagName.unclosed (name : TagName) : '>' ∉ name.text := fun mem => (name.unbroken _ mem).1 rfl

private theorem OrdinaryTag.inside_unclosed (tag : OrdinaryTag) : '>' ∉ tag.inside := by
  unfold OrdinaryTag.inside
  split
  · simp only [List.cons_append, List.mem_cons, List.mem_append, not_or]
    exact ⟨by decide, by decide, tag.name.unclosed, tag.attributes.unclosed⟩
  · exact openTag_unclosed tag.name.unclosed tag.attributes

private theorem OrdinaryTag.start_closing {tag : OrdinaryTag} (closing : tag.closing = true)
    (rest : List Char) (element : Hidden) :
    ¬ element.start <+: (tag.inside ++ '>' :: rest).map asciiLower := by
  rw [OrdinaryTag.inside, if_pos closing]
  cases element <;> exact fun found => absurd (List.cons_prefix_cons.mp (List.cons_prefix_cons.mp found).2).1 (by decide)

private theorem OrdinaryTag.start_opening {tag : OrdinaryTag} (opens : tag.closing ≠ true)
    (rest : List Char) (element : Hidden) :
    element.start <+: (tag.inside ++ '>' :: rest).map asciiLower ↔
      element.name <+: tag.name.text.map asciiLower := by
  rw [OrdinaryTag.inside, if_neg opens]
  exact openTag_start_iff tag.name.text tag.attributes rest element

theorem HiddenTags.start (tags : HiddenTags) (rest : List Char) :
    tags.element.start <+: (openTag tags.opening tags.attributes ++ '>' :: rest).map asciiLower :=
  (openTag_start_iff tags.opening tags.attributes rest tags.element).mpr (tags.openingSpelled ▸ List.prefix_rfl)

private theorem skipTag_ordinaryTag {tag : OrdinaryTag} (plain : (Markup.ordinary tag).Plain) (rest : List Char) :
    skipTag (tag.inside ++ '>' :: rest) = some rest := by
  by_cases taken : ∃ element : Hidden, element.start <+: (tag.inside ++ '>' :: rest).map asciiLower
  · obtain ⟨element, start⟩ := taken
    have opens : tag.closing ≠ true := fun closing => tag.start_closing closing rest element start
    rw [skipTag_hidden start]
    exact leave_inside tag.inside_unclosed (plain.resolve_left opens element ((tag.start_opening opens rest element).mp start)) rest
  · rw [skipTag_ordinary (not_exists.mp taken)]
    exact Scan.after_append tag.inside_unclosed rest

private theorem skipTag_hiddenTags {tags : HiddenTags} {content : List Char} (plain : (Markup.hidden tags).Plain)
    (unended : ¬ tags.element.mark <:+: content.map asciiLower) (rest : List Char) :
    skipTag ((Piece.hidden tags content unended).render ++ rest) = some rest := by
  have shape : (Piece.hidden tags content unended).render ++ rest = openTag tags.opening tags.attributes ++
      '>' :: (content ++ '<' :: '/' :: (tags.closing ++ tags.closingAttributes.text ++ '>' :: rest)) := by
    simp [Piece.render]
  rw [shape, skipTag_hidden (tags.start _), leave_beyond plain]
  exact leave_content unended tags.closingSpelled tags.closingAttributes rest

/-- The scanner skips to what follows the markup. -/
theorem htmlToText_skip {tag next : List Char} (begins : tag.head? = some '<') (skipped : skipTag tag = some next) :
    htmlToText tag = htmlToText next := by
  obtain ⟨more, rfl⟩ := List.head?_eq_some_iff.mp begins
  rw [htmlToText_tag, skipped]
  rfl

private theorem OrdinaryTag.inside_begins (tag : OrdinaryTag) : tag.inside.head? = some '<' := by
  unfold OrdinaryTag.inside
  split <;> rfl

/-- A plain piece yields its visible text. -/
private theorem htmlToText_piece {piece : Piece} (plain : ∀ m, piece.markup = some m → m.Plain) (rest : List Char) :
    htmlToText (piece.render ++ rest) = piece.visible ++ htmlToText rest := by
  cases piece with
  | text chunk visible => exact htmlToText_append visible rest
  | ordinary tag =>
    refine htmlToText_skip ?_ ?_
    · rw [Piece.render, List.append_assoc, List.head?_append, tag.inside_begins]
      rfl
    · rw [Piece.render, List.append_assoc]
      exact skipTag_ordinaryTag (plain _ rfl) rest
  | hidden tags content unended => exact htmlToText_skip rfl (skipTag_hiddenTags (plain _ rfl) unended rest)

/-- A document of plain markup yields its visible text. -/
private theorem htmlToText_document {pieces : List Piece} (plain : ∀ m ∈ markupOf pieces, m.Plain) :
    htmlToText (document pieces) = visibleText pieces := by
  induction pieces with
  | nil => exact htmlToText_nil
  | cons piece pieces ih =>
    rw [document, List.flatMap_cons, htmlToText_piece fun m eq => plain m (List.mem_filterMap.mpr ⟨piece, List.mem_cons_self, eq⟩)]
    rw [visibleText, List.flatMap_cons]
    refine congrArg _ (ih fun m mem => plain m ?_)
    obtain ⟨other, mem, eq⟩ := List.mem_filterMap.mp mem
    exact List.mem_filterMap.mpr ⟨other, List.mem_cons_of_mem _ mem, eq⟩

/-- Whatever text and content stand around and inside this markup, the text is what is kept. -/
def KeepsText (markup : List Markup) : Prop :=
  ∀ pieces, markupOf pieces = markup → htmlToText (document pieces) = visibleText pieces

def Markup.bare : Markup → Piece
  | .ordinary tag => .ordinary tag
  | .hidden tags => .hidden tags [] fun mark => absurd (List.infix_nil.mp mark) (List.cons_ne_nil _ _)

private theorem Markup.bare_markup (m : Markup) : m.bare.markup = some m := by cases m <;> rfl

private theorem Markup.bare_visible (m : Markup) : m.bare.visible = [] := by cases m <;> rfl

private theorem markupOf_bare (markup : List Markup) : markupOf (markup.map Markup.bare) = markup := by
  rw [markupOf, List.filterMap_map]
  exact (List.filterMap_congr fun m _ => m.bare_markup).trans List.filterMap_some

private theorem visibleText_bare (markup : List Markup) : visibleText (markup.map Markup.bare) = [] :=
  List.flatMap_eq_nil_iff.mpr fun piece mem => by
    obtain ⟨m, -, rfl⟩ := List.mem_map.mp mem
    exact m.bare_visible

/-- A tag taken for a hidden element swallows the text behind it. -/
private theorem skipTag_swallows {tag : OrdinaryTag} (mistaken : ¬ (Markup.ordinary tag).Plain) :
    ∃ element : Hidden, ∀ text rest, '<' ∉ text → skipTag (tag.inside ++ '>' :: (text ++ rest)) =
      leave element rest := by
  rw [Markup.Plain, not_or] at mistaken
  obtain ⟨opens, taken⟩ := mistaken
  push Not at taken
  obtain ⟨element, named, unmarked⟩ := taken
  refine ⟨element, fun text rest visible => ?_⟩
  rw [skipTag_hidden ((tag.start_opening opens _ element).mpr named), leave_beyond unmarked, leave_text visible]

theorem KeepsText.plain {m : Markup} {markup : List Markup} (keeps : KeepsText (m :: markup)) : m.Plain := by
  by_contra mistaken
  have bare := markupOf_bare markup
  have silent := visibleText_bare markup
  cases m with
  | ordinary tag =>
    obtain ⟨element, swallows⟩ := skipTag_swallows mistaken
    -- What the scanner makes of the document does not depend on the text behind the tag.
    have kept (text : List Char) (visible : '<' ∉ text) :
        ((leave element (document (markup.map Markup.bare))).map htmlToText).getD [] = text := by
      have whole := keeps (.ordinary tag :: .text text visible :: markup.map Markup.bare)
        (congrArg (Markup.ordinary tag :: ·) bare)
      have shape : document (.ordinary tag :: .text text visible :: markup.map Markup.bare) =
          tag.inside ++ '>' :: (text ++ document (markup.map Markup.bare)) := by
        simp [document, Piece.render]
      have seen : visibleText (.ordinary tag :: .text text visible :: markup.map Markup.bare) = text := by
        rw [visibleText, List.flatMap_cons, List.flatMap_cons]
        exact (congrArg (text ++ ·) silent).trans (List.append_nil text)
      rw [shape, seen] at whole
      obtain ⟨more, begins⟩ := List.head?_eq_some_iff.mp tag.inside_begins
      rw [← whole, ← swallows text _ visible, begins, List.cons_append, htmlToText_tag]
    exact absurd ((kept [] List.not_mem_nil).symm.trans (kept ['x'] (by decide))) (by decide)
  | hidden tags =>
    have marked : tags.element.mark <:+: (openTag tags.opening tags.attributes).map asciiLower :=
      not_not.mp mistaken
    have unended : ¬ tags.element.mark <:+: ['x'].map asciiLower := fun mark =>
      absurd (mark.length_le) (by cases tags.element <;> decide)
    have whole := keeps (.hidden tags ['x'] unended :: markup.map Markup.bare)
      (congrArg (Markup.hidden tags :: ·) bare)
    have seen : visibleText (.hidden tags ['x'] unended :: markup.map Markup.bare) = [] := silent
    let rest := '<' :: '/' :: (tags.closing ++ tags.closingAttributes.text ++ '>' :: document (markup.map Markup.bare))
    have shape : document (.hidden tags ['x'] unended :: markup.map Markup.bare) =
        openTag tags.opening tags.attributes ++ '>' :: 'x' :: rest := by
      simp [document, Piece.render, rest]
    have skipped : skipTag (openTag tags.opening tags.attributes ++ '>' :: 'x' :: rest) = some ('x' :: rest) := by
      rw [skipTag_hidden (tags.start _)]
      exact leave_inside (openTag_unclosed (unclosed tags.openingSpelled) tags.attributes) marked _
    rw [shape, seen, htmlToText_skip rfl skipped, htmlToText_cons (by decide)] at whole
    exact absurd whole (List.cons_ne_nil _ _)

theorem KeepsText.tail {m : Markup} {markup : List Markup} (keeps : KeepsText (m :: markup)) :
    KeepsText markup := by
  intro pieces of
  have marked : ∀ other, m.bare.markup = some other → other.Plain := by
    intro other eq
    rw [m.bare_markup] at eq
    cases eq
    exact keeps.plain
  have whole := keeps (m.bare :: pieces) (by rw [markupOf, List.filterMap_cons_some m.bare_markup]; exact congrArg (m :: ·) of)
  rw [document, List.flatMap_cons, htmlToText_piece marked, visibleText, List.flatMap_cons] at whole
  exact List.append_cancel_left whole

private theorem keepsText_iff (markup : List Markup) : KeepsText markup ↔ ∀ m ∈ markup, m.Plain := by
  constructor
  · intro keeps
    induction markup with
    | nil => exact fun m mem => absurd mem List.not_mem_nil
    | cons m markup ih => exact List.forall_mem_cons.mpr ⟨keeps.plain, ih keeps.tail⟩
  · rintro plain pieces rfl
    exact htmlToText_document plain

/-- Stripping always ends, without markup; it keeps exactly the visible text around and inside the given markup
if and only if no opening tag is taken for a hidden element and no hidden element is left at its opening tag. -/
theorem htmlToText_keeps_text_iff (html : List Char) (markup : List Markup) : '<' ∉ htmlToText html ∧
    ((∀ pieces, markupOf pieces = markup → htmlToText (document pieces) = visibleText pieces) ↔ ∀ m ∈ markup, m.Plain) :=
  ⟨htmlToText_stripped html, keepsText_iff markup⟩

/-- Style content goes, the paragraph stays. -/
example : htmlToText "<style>.a{}</style><p>Visible</p>".toList = "Visible".toList := by
  have style : skipTag ('<' :: "style>.a{}</style><p>Visible</p>".toList) = some "<p>Visible</p>".toList := by decide
  have p : skipTag ('<' :: "p>Visible</p>".toList) = some "Visible</p>".toList := by decide
  have close : skipTag ('<' :: "/p>".toList) = some [] := by decide
  calc htmlToText ('<' :: "style>.a{}</style><p>Visible</p>".toList)
    _ = htmlToText "<p>Visible</p>".toList := htmlToText_skip rfl style
    _ = htmlToText ("Visible".toList ++ '<' :: "/p>".toList) := htmlToText_skip rfl p
    _ = "Visible".toList ++ htmlToText [] := by rw [htmlToText_append (by decide), htmlToText_skip rfl close]
    _ = "Visible".toList := by rw [htmlToText_nil, List.append_nil]

/-- A tag whose name only begins with the name of a script. -/
def scriptyTag : OrdinaryTag where
  closing := false
  name := ⟨"scripty".toList, by decide, by simp [isTagSpace]⟩
  attributes := ⟨[], by decide, nofun⟩
  ordinary element := by cases element <;> decide

/-- The text behind that tag is lost: `<scripty>hello` yields nothing. -/
theorem scripty_swallows : ¬ ∀ pieces, htmlToText (document pieces) = visibleText pieces := by
  intro keeps
  have kept := keeps [.ordinary scriptyTag, .text "hello".toList (by decide)]
  have whole : document [.ordinary scriptyTag, .text "hello".toList (by decide)] = '<' :: "scripty>hello".toList := by decide
  have swallowed : skipTag ('<' :: "scripty>hello".toList) = none := by decide
  rw [whole, htmlToText_tag, swallowed] at kept
  exact absurd kept (by decide)

end MailKeep
