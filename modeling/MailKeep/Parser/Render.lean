import MailKeep.Core.Query
import Mathlib.Algebra.BigOperators.Group.List.Basic
import Mathlib.Data.Char

/-! Rendering a message: which image sources the sanitizer keeps, rewrites and drops. -/
namespace MailKeep

/-- `str::len`: the length in UTF-8. -/
def byteLength (s : List Char) : Nat := (s.map Char.utf8Size).sum

/-- `s[..n]` and `s[n..]`; no result where the slices panic, `n` being past the end or inside a character. -/
def splitAtByte : Nat → List Char → Option (List Char × List Char)
  | 0, s => some ([], s)
  | _ + 1, [] => none
  | n + 1, c :: s =>
    if c.utf8Size ≤ n + 1 then (splitAtByte (n + 1 - c.utf8Size) s).map fun (front, back) => (c :: front, back)
    else none

/-- `trim_start_matches` and `trim_end_matches` of one character, around a trimmed id. -/
def normalizeCid (id : List Char) : List Char :=
  (((trim id).dropWhile (· = '<')).reverse.dropWhile (· = '>')).reverse

abbrev CidMap := List Char → Option String

structure InlinePart where
  contentId : Option String
  contentType : String
  decoded : Bytes

/-- A part without a Content-ID is skipped, one with a known id replaces the part before it. -/
def insertPart (base64 : Bytes → String) (map : CidMap) (part : InlinePart) : CidMap :=
  match part.contentId with
  | none => map
  | some cid => Function.update map (normalizeCid cid.toList)
      (some ("data:" ++ part.contentType ++ ";base64," ++ base64 part.decoded))

def buildCidMap (base64 : Bytes → String) (parts : List InlinePart) : CidMap :=
  parts.foldl (insertPart base64) fun _ => none

/-- The new value of the attribute, if it is kept, and the removed-remote flag. -/
structure Rewritten where
  value : Option String
  removedRemote : Bool
deriving DecidableEq

def isRemote (trimmed : List Char) : Bool :=
  let lower := trimmed.map asciiLower
  "http://".toList.isPrefixOf lower || "https://".toList.isPrefixOf lower || "//".toList.isPrefixOf lower

/-- `rewrite_img_src`; no result where it panics. -/
def rewriteImgSrc (value : String) (loadRemote : Bool) (cidMap : CidMap) (removedRemote : Bool) :
    Option Rewritten := do
  let trimmed := trim value.toList
  let passThrough : Rewritten :=
    if isRemote trimmed then
      if loadRemote then ⟨some value, removedRemote⟩ else ⟨none, true⟩
    else ⟨some value, removedRemote⟩
  if 4 ≤ byteLength trimmed then
    let (scheme, cid) ← splitAtByte 4 trimmed
    if eqIgnoreAsciiCase scheme "cid:".toList then
      return ⟨cidMap (normalizeCid cid), removedRemote⟩
    return passThrough
  return passThrough

def attributeFilter (loadRemote : Bool) (cidMap : CidMap) (element name value : String) (removedRemote : Bool) :
    Option Rewritten :=
  if element = "img" ∧ name = "src" then rewriteImgSrc value loadRemote cidMap removedRemote
  else some ⟨some value, removedRemote⟩

def rewriteSources (loadRemote : Bool) (cidMap : CidMap) (removedRemote : Bool) :
    List String → Option (List (Option String) × Bool)
  | [] => some ([], removedRemote)
  | value :: rest => do
    let first ← attributeFilter loadRemote cidMap "img" "src" value removedRemote
    let (values, removed) ← rewriteSources loadRemote cidMap first.removedRemote rest
    return (first.value :: values, removed)

@[simp] theorem byteLength_nil : byteLength [] = 0 := rfl

@[simp] theorem byteLength_cons (c : Char) (s : List Char) : byteLength (c :: s) = c.utf8Size + byteLength s := rfl

private theorem byteLength_eq_zero {s : List Char} : byteLength s = 0 ↔ s = [] := by
  cases s with
  | nil => simp
  | cons c s =>
    have := c.utf8Size_pos
    simp
    omega

private theorem splitAtByte_zero {s front back : List Char} :
    splitAtByte 0 s = some (front, back) ↔ s = front ++ back ∧ byteLength front = 0 := by
  rw [byteLength_eq_zero]
  constructor
  · intro h
    rw [splitAtByte] at h
    cases h
    exact ⟨rfl, rfl⟩
  · rintro ⟨rfl, rfl⟩
    rw [splitAtByte]
    rfl

/-- The slices succeed just where some beginning of the text has that length. -/
theorem splitAtByte_eq_some {n : Nat} {s front back : List Char} :
    splitAtByte n s = some (front, back) ↔ s = front ++ back ∧ byteLength front = n := by
  induction s generalizing n front with
  | nil =>
    cases n with
    | zero => exact splitAtByte_zero
    | succ n =>
      apply iff_of_false (by simp [splitAtByte])
      rintro ⟨whole, length⟩
      obtain ⟨rfl, rfl⟩ := List.append_eq_nil_iff.mp whole.symm
      cases length
  | cons c s ih =>
    have wide := c.utf8Size_pos
    cases n with
    | zero => exact splitAtByte_zero
    | succ n =>
      rw [splitAtByte]
      split
      · rename_i fits
        rw [Option.map_eq_some_iff]
        constructor
        · rintro ⟨⟨rest, back'⟩, found, h⟩
          cases h
          obtain ⟨whole, length⟩ := ih.mp found
          refine ⟨by rw [whole, List.cons_append], ?_⟩
          rw [byteLength_cons, length]
          omega
        · rintro ⟨whole, length⟩
          cases front with
          | nil => cases length
          | cons c' rest =>
            rw [List.cons_append, List.cons.injEq] at whole
            obtain ⟨rfl, whole⟩ := whole
            rw [byteLength_cons] at length
            exact ⟨(rest, back), ih.mpr ⟨whole, by omega⟩, rfl⟩
      · rename_i straddles
        apply iff_of_false (by simp)
        rintro ⟨whole, length⟩
        cases front with
        | nil => cases length
        | cons c' rest =>
          rw [List.cons_append, List.cons.injEq] at whole
          rw [← whole.1, byteLength_cons] at length
          omega

private theorem splitAtByte_isSome {n : Nat} {s : List Char} :
    (splitAtByte n s).isSome = true ↔ ∃ front, front <+: s ∧ byteLength front = n := by
  rw [Option.isSome_iff_exists]
  constructor
  · rintro ⟨⟨front, back⟩, found⟩
    obtain ⟨whole, length⟩ := splitAtByte_eq_some.mp found
    exact ⟨front, ⟨back, whole.symm⟩, length⟩
  · rintro ⟨front, ⟨back, whole⟩, length⟩
    exact ⟨(front, back), splitAtByte_eq_some.mpr ⟨whole.symm, length⟩⟩

/-- Rendering an image source returns exactly where its trimmed text is shorter than four bytes or has a character
boundary after them. -/
theorem rewriteImgSrc_returns_iff (value : String) (loadRemote : Bool) (cidMap : CidMap) (removedRemote : Bool) :
    (rewriteImgSrc value loadRemote cidMap removedRemote).isSome = true ↔
      (4 ≤ byteLength (trim value.toList) → ∃ front, front <+: trim value.toList ∧ byteLength front = 4) := by
  rw [rewriteImgSrc]
  dsimp only
  split
  · rename_i long
    rw [← splitAtByte_isSome, forall_prop_of_true long]
    cases splitAtByte 4 (trim value.toList) with
    | none => exact Iff.rfl
    | some parts =>
      refine iff_of_true ?_ rfl
      dsimp only [bind, Option.bind]
      split <;> rfl
  · rename_i short
    exact iff_of_true rfl fun long => absurd long short

/-- `aaaé` is five bytes long, and the fourth is the first of `é`. -/
theorem rewriteImgSrc_panics : ¬ ∀ (value : String) (loadRemote : Bool) (cidMap : CidMap) (removedRemote : Bool),
    (rewriteImgSrc value loadRemote cidMap removedRemote).isSome = true := by
  intro returns
  exact absurd (returns "aaaé" false (fun _ => none) false) (by decide)

end MailKeep
