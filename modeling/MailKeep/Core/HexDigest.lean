import MailKeep.Core.Types
import Mathlib.Data.List.Forall2

/-! Content hashes as text: which strings the reader of 64 hexadecimal digits accepts, and as what. -/
namespace MailKeep

def utf8Bytes (s : List Char) : Bytes := s.flatMap String.utf8EncodeChar

/-- `as_chunks::<2>`: neighbours in pairs, without what is left over at the end. -/
def asChunks {α : Type} : List α → List (α × α)
  | a :: b :: rest => (a, b) :: asChunks rest
  | [_] | [] => []

/-- How many bytes a character has that begins with this one; none where no character does. -/
def utf8Width (b : UInt8) : Nat :=
  if b < 0x80 then 1
  else if 0xC2 ≤ b ∧ b ≤ 0xDF then 2
  else if 0xE0 ≤ b ∧ b ≤ 0xEF then 3
  else if 0xF0 ≤ b ∧ b ≤ 0xF4 then 4
  else 0

/-- Whether `b` may follow `a` as the second byte of a character. -/
def utf8Second (a b : UInt8) : Bool :=
  if a = 0xE0 then 0xA0 ≤ b && b ≤ 0xBF
  else if a = 0xED then 0x80 ≤ b && b ≤ 0x9F
  else if a = 0xF0 then 0x90 ≤ b && b ≤ 0xBF
  else if a = 0xF4 then 0x80 ≤ b && b ≤ 0x8F
  else 0x80 ≤ b && b ≤ 0xBF

def Utf8Error.invalid (index : Nat) : String := "invalid utf-8 sequence of 1 bytes from index " ++ toString index

def Utf8Error.incomplete (index : Nat) : String := "incomplete utf-8 byte sequence from index " ++ toString index

/-- `str::from_utf8` of two bytes. -/
def fromUtf8 (pair : UInt8 × UInt8) : Except String Bytes :=
  let (a, b) := pair
  if utf8Width a = 1 then
    if utf8Width b = 1 then .ok [a, b]
    else .error (if utf8Width b = 0 then Utf8Error.invalid 1 else Utf8Error.incomplete 1)
  else if utf8Width a = 0 ∨ utf8Second a b = false then .error (Utf8Error.invalid 0)
  else if utf8Width a = 2 then .ok [a, b]
  else .error (Utf8Error.incomplete 0)

/-- `to_digit(16)`. -/
def toDigit (b : UInt8) : Option Nat :=
  if '0'.toUInt8 ≤ b ∧ b ≤ '9'.toUInt8 then some (b.toNat - 48)
  else if 'a'.toUInt8 ≤ b ∧ b ≤ 'f'.toUInt8 then some (b.toNat - 87)
  else if 'A'.toUInt8 ≤ b ∧ b ≤ 'F'.toUInt8 then some (b.toNat - 55)
  else none

def parseDigits (result : Nat) : Bytes → Except String UInt8
  | [] => .ok (UInt8.ofNat result)
  | b :: rest =>
    match toDigit b with
    | none => .error "invalid digit found in string"
    | some d =>
      if result * 16 + d < 256 then parseDigits (result * 16 + d) rest
      else .error "number too large to fit in target type"

/-- `u8::from_str_radix` in base 16: a plus sign may stand before the digits, a minus sign may not. -/
def fromStrRadix : Bytes → Except String UInt8
  | [] => .error "cannot parse integer from empty string"
  | b :: rest =>
    if rest = [] ∧ (b = '+'.toUInt8 ∨ b = '-'.toUInt8) then .error "invalid digit found in string"
    else parseDigits 0 (if b = '+'.toUInt8 then rest else b :: rest)

namespace ContentHash

def hexPair (pair : UInt8 × UInt8) : Except Error UInt8 := do
  let hex ← (fromUtf8 pair).mapError .validation
  (fromStrRadix hex).mapError .validation

def fromHex (s : String) : Except Error ContentHash :=
  let bytes := utf8Bytes s.toList
  if bytes.length ≠ 64 then .error (.validation ("ContentHash hex must be 64 chars, got " ++ toString bytes.length))
  else do
    let out ← (asChunks bytes).mapM hexPair
    return ⟨Vector.ofFn fun i => out.getD i 0⟩

end ContentHash

def isHexDigit (c : Char) : Bool := ('0' ≤ c && c ≤ '9') || ('a' ≤ c && c ≤ 'f') || ('A' ≤ c && c ≤ 'F')

def HexDigest (s : String) : Prop := s.toList.length = 64 ∧ ∀ c ∈ s.toList, isHexDigit c = true

def HexPairs (s : String) : Prop :=
  s.toList.length = 64 ∧ ∀ p ∈ asChunks s.toList, (p.1 = '+' ∨ isHexDigit p.1 = true) ∧ isHexDigit p.2 = true

def SignedPairs (s : String) : Prop := HexPairs s ∧ '+' ∈ s.toList

def Accepted (s : String) : Prop := ∃ hash, ContentHash.fromHex s = .ok hash

/-- The string is accepted just if it is 64 digits, and then reads back in lower case. -/
structure DecodesExactly (s : String) : Prop where
  accepted : Accepted s ↔ HexDigest s
  spelling : ∀ hash, ContentHash.fromHex s = .ok hash → hash.asHex = s.toLower

private theorem utf8EncodeChar_ascii {c : Char} (ascii : c.toNat < 128) : String.utf8EncodeChar c = [c.toUInt8] :=
  String.utf8EncodeChar_eq_singleton (Char.utf8Size_eq_one_iff.mpr (by
    rw [UInt32.le_iff_toNat_le]
    exact Nat.le_of_lt_succ ascii))

/-- Any other character has a byte that no ASCII character has. -/
private theorem utf8EncodeChar_wide {c : Char} (wide : 128 ≤ c.toNat) :
    ∃ b ∈ String.utf8EncodeChar c, 128 ≤ b.toNat := by
  have high : ∀ n, n < 128 → 128 ≤ (UInt8.ofNat (n + 128)).toNat := by
    intro n hn
    rw [UInt8.toNat_ofNat']
    omega
  fun_cases String.utf8EncodeChar c with
  | case1 v small => exact absurd small (not_le.mpr wide)
  | case2 v _ _ => exact ⟨_, List.mem_cons_self, high (v / 64 % 32 + 64) (by omega)⟩
  | case3 v _ _ _ => exact ⟨_, List.mem_cons_self, high (v / 4096 % 16 + 96) (by omega)⟩
  | case4 v _ _ _ => exact ⟨_, List.mem_cons_self, high (v / 262144 % 8 + 112) (by omega)⟩

private theorem utf8Bytes_ascii {s : List Char} (ascii : ∀ c ∈ s, c.toNat < 128) :
    utf8Bytes s = s.map Char.toUInt8 := by
  induction s with
  | nil => rfl
  | cons c s ih =>
    rw [List.forall_mem_cons] at ascii
    rw [utf8Bytes, List.flatMap_cons, utf8EncodeChar_ascii ascii.1, List.map_cons, ← ih ascii.2]
    rfl

private theorem ascii_of_utf8Bytes {s : List Char} (low : ∀ b ∈ utf8Bytes s, b.toNat < 128) :
    ∀ c ∈ s, c.toNat < 128 := by
  intro c hc
  by_contra wide
  obtain ⟨b, hb, high⟩ := utf8EncodeChar_wide (not_lt.mp wide)
  exact absurd (low b (List.mem_flatMap.mpr ⟨c, hc, hb⟩)) (not_lt.mpr high)

section
variable {α β : Type}

private theorem asChunks_map (f : α → β) (l : List α) : asChunks (l.map f) = (asChunks l).map (Prod.map f f) := by
  fun_induction asChunks l with
  | case1 a b rest ih => exact congrArg (_ :: ·) ih
  | case2 => rfl
  | case3 => rfl

private theorem asChunks_length (l : List α) : (asChunks l).length = l.length / 2 := by
  fun_induction asChunks l with
  | case1 a b rest ih =>
    simp only [List.length_cons, ih]
    omega
  | case2 => simp
  | case3 => simp

/-- Nothing is left over of an even number. -/
private theorem asChunks_flatten {l : List α} (even : 2 ∣ l.length) : (asChunks l).flatMap
    (fun p => [p.1, p.2]) = l := by
  fun_induction asChunks l with
  | case1 a b rest ih =>
    have rest_even : 2 ∣ rest.length := by
      simp only [List.length_cons] at even
      omega
    rw [List.flatMap_cons, ih rest_even]
    rfl
  | case2 => simp at even
  | case3 => rfl

private theorem asChunks_flatMap (f g : α → β) (l : List α) : asChunks (l.flatMap fun a => [f a, g a]) =
    l.map fun a => (f a, g a) := by
  induction l with
  | nil => rfl
  | cons a l ih => exact congrArg ((f a, g a) :: ·) ih

theorem forall_asChunks {l : List α} (even : 2 ∣ l.length) {P : α → Prop} :
    (∀ p ∈ asChunks l, P p.1 ∧ P p.2) ↔ ∀ a ∈ l, P a := by
  have whole : ∀ a, a ∈ l ↔ ∃ p ∈ asChunks l, a ∈ [p.1, p.2] := by
    intro a
    rw [← List.mem_flatMap, asChunks_flatten even]
  constructor
  · intro h a ha
    obtain ⟨p, hp, ha⟩ := (whole a).mp ha
    rcases List.mem_pair.mp ha with rfl | rfl
    · exact (h p hp).1
    · exact (h p hp).2
  · intro h p hp
    exact ⟨h _ ((whole _).mpr ⟨p, hp, by simp⟩), h _ ((whole _).mpr ⟨p, hp, by simp⟩)⟩

end

def leadDigit (b : UInt8) : Option Nat := if b = '+'.toUInt8 then some 0 else toDigit b

theorem hexByte_toList (b : UInt8) :
    (ContentHash.hexByte b).toList = [Nat.digitChar (b.toNat / 16), Nat.digitChar (b.toNat % 16)] := by
  have byte := b.toNat_lt
  rw [ContentHash.hexByte]
  by_cases small : b.toNat < 16
  · rw [Nat.toDigits_of_lt_base small, Nat.div_eq_of_lt small, Nat.mod_eq_of_lt small]
    simp
  · rw [Nat.toDigits_of_base_le (by decide) (not_lt.mp small), Nat.toDigits_of_lt_base (by omega)]
    simp

/-- Over the ASCII characters: the digits are those of either case, and a value is written in lower case. -/
private theorem toDigit_ascii {c : Char} (ascii : c.toNat < 128) :
    (toDigit c.toUInt8).isSome = isHexDigit c ∧ ∀ d, toDigit c.toUInt8 = some d → d < 16 ∧
      d.digitChar = c.toLower := by
  have table : ∀ n : Fin 128, (toDigit (Char.ofNat n).toUInt8).isSome = isHexDigit (Char.ofNat n) ∧
      ∀ d ∈ toDigit (Char.ofNat n).toUInt8, d < 16 ∧ d.digitChar = (Char.ofNat n).toLower := by
    decide +kernel
  have := table ⟨c.toNat, ascii⟩
  rwa [Char.ofNat_toNat] at this

private theorem leadDigit_ascii {c : Char} (ascii : c.toNat < 128) :
    (leadDigit c.toUInt8).isSome ↔ c = '+' ∨ isHexDigit c = true := by
  have table : ∀ n : Fin 128, (leadDigit (Char.ofNat n).toUInt8).isSome ↔ Char.ofNat n = '+' ∨
      isHexDigit (Char.ofNat n) = true := by
    decide +kernel
  have := table ⟨c.toNat, ascii⟩
  rwa [Char.ofNat_toNat] at this

theorem isHexDigit_ascii {c : Char} (digit : isHexDigit c = true) : c.toNat < 128 := by
  have below : ∀ {last : Char}, last.toNat < 128 → c ≤ last → c.toNat < 128 :=
    fun low high => (UInt32.le_iff_toNat_le.mp high).trans_lt low
  simp only [isHexDigit, Bool.or_eq_true, Bool.and_eq_true, decide_eq_true_eq] at digit
  rcases digit with (⟨-, high⟩ | ⟨-, high⟩) | ⟨-, high⟩
  · exact below (by decide) high
  · exact below (by decide) high
  · exact below (by decide) high

private theorem fromUtf8_ok {a b : UInt8} {hex : Bytes} (h : fromUtf8 (a, b) = .ok hex) : hex = [a, b] := by
  unfold fromUtf8 at h
  dsimp only at h
  split at h
  · split at h <;> cases h
    rfl
  · split at h
    · cases h
    · split at h <;> cases h
      rfl

theorem toDigit_low {b : UInt8} {d : Nat} (h : toDigit b = some d) : b.toNat < 128 ∧ d < 16 := by
  have table : ∀ n : Fin 256, ∀ d ∈ toDigit (UInt8.ofNat n), (UInt8.ofNat n).toNat < 128 ∧ d < 16 := by
    decide +kernel
  have := table ⟨b.toNat, b.toNat_lt⟩ d
  rw [UInt8.ofNat_toNat] at this
  exact this h

private theorem leadDigit_low {b : UInt8} {d : Nat} (h : leadDigit b = some d) : b.toNat < 128 ∧ d < 16 := by
  unfold leadDigit at h
  split at h
  · rename_i plus
    cases h
    subst plus
    decide
  · exact ⟨(toDigit_low h).1, (toDigit_low h).2⟩

private theorem fromUtf8_low {a b : UInt8} (ha : a.toNat < 128) (hb : b.toNat < 128) : fromUtf8 (a, b) = .ok
    [a, b] := by
  have width : ∀ {c : UInt8}, c.toNat < 128 → utf8Width c = 1 := fun low => if_pos (UInt8.lt_iff_toNat_lt.mpr low)
  unfold fromUtf8
  dsimp only
  rw [if_pos (width ha), if_pos (width hb)]

/-- Two digits never overflow a byte. -/
private theorem parseDigits_pair {x : Nat} (small : x < 16) {b v : UInt8} :
    parseDigits x [b] = .ok v ↔ ∃ y, toDigit b = some y ∧ v = UInt8.ofNat (x * 16 + y) := by
  rw [parseDigits]
  cases digit : toDigit b with
  | none => simp
  | some y =>
    have fits : x * 16 + y < 256 := by
      have := (toDigit_low digit).2
      omega
    simp [fits, parseDigits, eq_comm]

private theorem fromStrRadix_pair {a b v : UInt8} : fromStrRadix [a, b] = .ok v ↔
    ∃ x y, leadDigit a = some x ∧ toDigit b = some y ∧ v = UInt8.ofNat (x * 16 + y) := by
  rw [fromStrRadix, if_neg (by simp), leadDigit]
  split
  · rw [parseDigits_pair (by decide)]
    simp
  · rw [parseDigits]
    cases digit : toDigit a with
    | none => simp
    | some x =>
      have small := (toDigit_low digit).2
      change (if 0 * 16 + x < 256 then parseDigits (0 * 16 + x) [b] else _) = _ ↔ _
      rw [if_pos (by omega), Nat.zero_mul, Nat.zero_add, parseDigits_pair small]
      simp

/-- A pair is a digit that comes after a digit or after a plus sign. -/
theorem hexPair_iff {a b v : UInt8} : ContentHash.hexPair (a, b) = .ok v ↔
    ∃ x y, leadDigit a = some x ∧ toDigit b = some y ∧ v = UInt8.ofNat (x * 16 + y) := by
  rw [← fromStrRadix_pair, ContentHash.hexPair]
  constructor
  · intro h
    cases decoded : fromUtf8 (a, b) with
    | error e => rw [decoded] at h; cases h
    | ok hex =>
      obtain rfl := fromUtf8_ok decoded
      rw [decoded] at h
      cases read : fromStrRadix [a, b] with
      | error e => simp [read, Except.mapError, bind, Except.bind] at h
      | ok w => simpa [read, Except.mapError, bind, Except.bind] using h
  · intro read
    obtain ⟨x, y, hx, hy, -⟩ := fromStrRadix_pair.mp read
    rw [fromUtf8_low (leadDigit_low hx).1 (toDigit_low hy).1]
    simp [Except.mapError, bind, Except.bind, read]

private theorem mapM_ok {α β ε : Type} {f : α → Except ε β} {l : List α} {out : List β} :
    l.mapM f = .ok out ↔ l.map f = out.map .ok := by
  induction l generalizing out with
  | nil => simp [pure, Except.pure, eq_comm]
  | cons a l ih =>
    rw [List.mapM_cons, List.map_cons, eq_comm (b := out.map _), List.map_eq_cons_iff]
    cases head : f a with
    | error e => simp [bind, Except.bind]
    | ok b =>
      cases tail : l.mapM f with
      | error e => simp [bind, Except.bind, eq_comm, ← ih, tail]
      | ok bs => simp [bind, Except.bind, pure, Except.pure, eq_comm, ← ih, tail]

private theorem exists_map_ok {α β ε : Type} {f : α → Except ε β} {l : List α} (each : ∀ a ∈ l, ∃ b, f a = .ok b) :
    ∃ out : List β, l.map f = out.map .ok := by
  induction l with
  | nil => exact ⟨[], rfl⟩
  | cons a l ih =>
    rw [List.forall_mem_cons] at each
    obtain ⟨b, hb⟩ := each.1
    obtain ⟨out, hout⟩ := ih each.2
    exact ⟨b :: out, by rw [List.map_cons, hb, hout, List.map_cons]⟩

/-- A list of 32 bytes is what an array of 32 that is filled from it has. -/
private theorem toList_ofFn_getD {out : List UInt8} (full : out.length = 32) :
    (Vector.ofFn fun i : Fin 32 => out.getD i 0).toList = out := by
  apply List.ext_getElem
  · rw [Vector.length_toList, full]
  · intro i _ hi
    simp [List.getElem?_eq_getElem hi]

private theorem fromHex_ok {s : String} {hash : ContentHash} : ContentHash.fromHex s = .ok hash ↔
    (utf8Bytes s.toList).length = 64 ∧ (asChunks (utf8Bytes s.toList)).map ContentHash.hexPair =
      hash.bytes.toList.map .ok := by
  rw [ContentHash.fromHex, ← mapM_ok]
  split
  · rename_i short
    simp [short]
  · rename_i full
    rw [not_not] at full
    cases read : (asChunks (utf8Bytes s.toList)).mapM ContentHash.hexPair with
    | error e => simp [bind, Except.bind]
    | ok out =>
      have count : out.length = 32 := by
        have := congrArg List.length (mapM_ok.mp read)
        rw [List.length_map, List.length_map, asChunks_length, full] at this
        exact this.symm
      have array : (⟨Vector.ofFn fun i : Fin 32 => out.getD i 0⟩ : ContentHash) = hash ↔
          out = hash.bytes.toList := by
        rw [ContentHash.mk.injEq, ← Vector.toList_inj, toList_ofFn_getD count]
      simpa [bind, Except.bind, pure, Except.pure, full] using array

/-- Every byte is read, so an accepted string is ASCII. -/
theorem fromHex_chars {s : String} {hash : ContentHash} : ContentHash.fromHex s = .ok hash ↔
    s.toList.length = 64 ∧ (∀ c ∈ s.toList, c.toNat < 128) ∧
      (asChunks s.toList).map (fun p => ContentHash.hexPair (p.1.toUInt8, p.2.toUInt8)) =
        hash.bytes.toList.map .ok := by
  have pairs : (asChunks (s.toList.map Char.toUInt8)).map ContentHash.hexPair =
      (asChunks s.toList).map fun p => ContentHash.hexPair (p.1.toUInt8, p.2.toUInt8) := by
    rw [asChunks_map, List.map_map]
    rfl
  rw [fromHex_ok]
  constructor
  · rintro ⟨full, read⟩
    have low : ∀ b ∈ utf8Bytes s.toList, b.toNat < 128 := by
      rw [← forall_asChunks (by omega)]
      intro p hp
      have mem := List.mem_map_of_mem (f := ContentHash.hexPair) hp
      rw [read] at mem
      obtain ⟨v, -, hv⟩ := List.mem_map.mp mem
      obtain ⟨x, y, hx, hy, -⟩ := hexPair_iff.mp hv.symm
      exact ⟨(leadDigit_low hx).1, (toDigit_low hy).1⟩
    have ascii := ascii_of_utf8Bytes low
    rw [utf8Bytes_ascii ascii, List.length_map] at full
    rw [utf8Bytes_ascii ascii, pairs] at read
    exact ⟨full, ascii, read⟩
  · rintro ⟨full, ascii, read⟩
    rw [utf8Bytes_ascii ascii, List.length_map, pairs]
    exact ⟨full, read⟩

/-- Which pairs of characters are read. -/
private theorem hexPair_chars {p : Char × Char} (low : p.1.toNat < 128 ∧ p.2.toNat < 128) :
    (∃ v, ContentHash.hexPair (p.1.toUInt8, p.2.toUInt8) = .ok v) ↔
      (p.1 = '+' ∨ isHexDigit p.1 = true) ∧ isHexDigit p.2 = true := by
  rw [← leadDigit_ascii low.1, ← (toDigit_ascii low.2).1, Option.isSome_iff_exists, Option.isSome_iff_exists]
  simp only [hexPair_iff]
  constructor
  · rintro ⟨v, x, y, hx, hy, -⟩
    exact ⟨⟨x, hx⟩, y, hy⟩
  · rintro ⟨⟨x, hx⟩, y, hy⟩
    exact ⟨_, x, y, hx, hy, rfl⟩

namespace HexPairs
variable {s : String}

theorem ascii (h : HexPairs s) : ∀ c ∈ s.toList, c.toNat < 128 := by
  rw [← forall_asChunks (by rw [h.1]; decide)]
  intro p hp
  obtain ⟨lead, digit⟩ := h.2 p hp
  refine ⟨?_, isHexDigit_ascii digit⟩
  rcases lead with plus | lead
  · rw [plus]
    decide
  · exact isHexDigit_ascii lead

/-- Without a plus sign all are digits. -/
theorem digits (h : HexPairs s) (unsigned : '+' ∉ s.toList) : HexDigest s := by
  have even : 2 ∣ s.toList.length := by
    rw [h.1]
    decide
  have other : ∀ p ∈ asChunks s.toList, p.1 ≠ '+' ∧ p.2 ≠ '+' :=
    (forall_asChunks even).mpr fun c hc => ne_of_mem_of_not_mem hc unsigned
  refine ⟨h.1, (forall_asChunks even).mp fun p hp => ?_⟩
  obtain ⟨lead, digit⟩ := h.2 p hp
  exact ⟨lead.resolve_left (other p hp).1, digit⟩

end HexPairs

theorem HexDigest.pairs {s : String} (h : HexDigest s) : HexPairs s := by
  refine ⟨h.1, fun p hp => ?_⟩
  have := (forall_asChunks (P := fun c => isHexDigit c = true) (by rw [h.1]; decide)).mpr h.2 p hp
  exact ⟨.inr this.1, this.2⟩

theorem HexDigest.unsigned {s : String} (h : HexDigest s) : '+' ∉ s.toList := by
  intro plus
  have digit := h.2 _ plus
  revert digit
  decide

private theorem accepted_iff {s : String} : Accepted s ↔ HexPairs s := by
  constructor
  · rintro ⟨hash, read⟩
    obtain ⟨full, ascii, read⟩ := fromHex_chars.mp read
    refine ⟨full, fun p hp => ?_⟩
    have low := (forall_asChunks (by rw [full]; decide)).mpr ascii p hp
    have mem := List.mem_map_of_mem (f := fun p : Char × Char => ContentHash.hexPair (p.1.toUInt8, p.2.toUInt8)) hp
    rw [read] at mem
    obtain ⟨v, -, hv⟩ := List.mem_map.mp mem
    exact (hexPair_chars low).mp ⟨v, hv.symm⟩
  · intro h
    have each : ∀ p ∈ asChunks s.toList, ∃ v, ContentHash.hexPair (p.1.toUInt8, p.2.toUInt8) = .ok v := by
      intro p hp
      have low := (forall_asChunks (by rw [h.1]; decide)).mpr h.ascii p hp
      exact (hexPair_chars low).mpr (h.2 p hp)
    obtain ⟨out, read⟩ := exists_map_ok each
    have count : out.length = 32 := by
      have := congrArg List.length read
      rw [List.length_map, List.length_map, asChunks_length, h.1] at this
      exact this.symm
    refine ⟨⟨Vector.ofFn fun i : Fin 32 => out.getD i 0⟩, fromHex_chars.mpr ⟨h.1, h.ascii, ?_⟩⟩
    rw [read, toList_ofFn_getD count]

private theorem asHex_toList (hash : ContentHash) : hash.asHex.toList =
    hash.bytes.toList.flatMap fun b => [Nat.digitChar (b.toNat / 16), Nat.digitChar (b.toNat % 16)] := by
  rw [ContentHash.asHex, String.toList_join, List.flatMap_map]
  congr 1
  funext b
  exact hexByte_toList b

private theorem leadDigit_of_toDigit {b : UInt8} {d : Nat} (digit : toDigit b = some d) : leadDigit b = some d := by
  unfold leadDigit
  split
  · rename_i plus
    rw [plus] at digit
    cases digit
  · exact digit

/-- A pair of digits is written as these digits in lower case. -/
private theorem hexPair_spelling {p : Char × Char} {v : UInt8} (digits : isHexDigit p.1 = true ∧ isHexDigit p.2 = true)
    (read : ContentHash.hexPair (p.1.toUInt8, p.2.toUInt8) = .ok v) :
    [Nat.digitChar (v.toNat / 16), Nat.digitChar (v.toNat % 16)] = [p.1.toLower, p.2.toLower] := by
  obtain ⟨x, y, hx, hy, rfl⟩ := hexPair_iff.mp read
  have first := toDigit_ascii (isHexDigit_ascii digits.1)
  obtain ⟨d, hd⟩ := Option.isSome_iff_exists.mp (first.1.trans digits.1)
  obtain rfl := Option.some.inj (hx.symm.trans (leadDigit_of_toDigit hd))
  obtain ⟨small, lead⟩ := first.2 x hd
  obtain ⟨small', digit⟩ := (toDigit_ascii (isHexDigit_ascii digits.2)).2 y hy
  have value : (UInt8.ofNat (x * 16 + y)).toNat = x * 16 + y :=
    UInt8.toNat_ofNat_of_lt' (show x * 16 + y < 256 by omega)
  have high : (x * 16 + y) / 16 = x := by omega
  have low : (x * 16 + y) % 16 = y := by omega
  rw [value, high, low, lead, digit]

private theorem pairs_spelling {pairs : List (Char × Char)} {out : List UInt8}
    (digits : ∀ p ∈ pairs, isHexDigit p.1 = true ∧ isHexDigit p.2 = true)
    (read : pairs.map (fun p => ContentHash.hexPair (p.1.toUInt8, p.2.toUInt8)) = out.map .ok) :
    out.flatMap (fun b => [Nat.digitChar (b.toNat / 16), Nat.digitChar (b.toNat % 16)]) =
      pairs.flatMap fun p => [p.1.toLower, p.2.toLower] := by
  induction pairs generalizing out with
  | nil =>
    rw [List.map_nil, eq_comm, List.map_eq_nil_iff] at read
    rw [read]
    rfl
  | cons p pairs ih =>
    rw [List.map_cons, eq_comm, List.map_eq_cons_iff] at read
    obtain ⟨v, rest, rfl, hv, read⟩ := read
    rw [List.forall_mem_cons] at digits
    rw [List.flatMap_cons, List.flatMap_cons, hexPair_spelling digits.1 hv.symm, ih digits.2 read.symm]

private theorem asHex_of_fromHex {s : String} {hash : ContentHash} (digest : HexDigest s)
    (read : ContentHash.fromHex s = .ok hash) :
    hash.asHex = s.toLower := by
  obtain ⟨full, -, read⟩ := fromHex_chars.mp read
  have even : 2 ∣ s.toList.length := by
    rw [full]
    decide
  have digits := (forall_asChunks even).mpr digest.2
  have lower : (asChunks s.toList).flatMap (fun p => [p.1.toLower, p.2.toLower]) = s.toList.map Char.toLower := by
    rw [← asChunks_flatten (l := s.toList.map Char.toLower) (by rwa [List.length_map]), asChunks_map, List.flatMap_map]
    rfl
  apply String.toList_inj.mp
  rw [asHex_toList, pairs_spelling digits read, lower]
  exact (String.toList_map ..).symm

/-- A hash is read back from its text. -/
private theorem fromHex_asHex (hash : ContentHash) : ContentHash.fromHex hash.asHex = .ok hash := by
  have written : ∀ n : Fin 16, (Nat.digitChar n).toNat < 128 ∧ toDigit (Nat.digitChar n).toUInt8 = some n.val := by
    decide
  have high : ∀ b : UInt8, b.toNat / 16 < 16 := fun b => by
    have := b.toNat_lt
    omega
  have low : ∀ b : UInt8, b.toNat % 16 < 16 := fun b => Nat.mod_lt _ (by decide)
  rw [fromHex_chars, asHex_toList]
  refine ⟨?_, ?_, ?_⟩
  · simp [List.length_flatMap]
  · intro c hc
    obtain ⟨b, -, hc⟩ := List.mem_flatMap.mp hc
    rcases List.mem_pair.mp hc with rfl | rfl
    · exact (written ⟨_, high b⟩).1
    · exact (written ⟨_, low b⟩).1
  · rw [asChunks_flatMap, List.map_map]
    refine List.map_congr_left fun b _ => hexPair_iff.mpr ?_
    refine ⟨_, _, leadDigit_of_toDigit (written ⟨_, high b⟩).2, (written ⟨_, low b⟩).2, ?_⟩
    rw [Nat.div_add_mod' b.toNat 16, UInt8.ofNat_toNat]

/-- The text of a hash reads back as the hash. A string decodes exactly unless its pairs are digits after
digits and after plus signs, with a plus sign among them; and two strings that do and name one blob differ in case alone. -/
theorem fromHex_exact (s : String) :
    (∀ hash : ContentHash, ContentHash.fromHex hash.asHex = .ok hash) ∧
    (DecodesExactly s ↔ ¬ SignedPairs s) ∧
    ∀ t hash, ¬ SignedPairs s → ¬ SignedPairs t → ContentHash.fromHex s = .ok hash →
      ContentHash.fromHex t = .ok hash →
      s.toLower = t.toLower := by
  have exact_iff : ∀ s, DecodesExactly s ↔ ¬ SignedPairs s := by
    intro s
    constructor
    · rintro decodes ⟨pairs, plus⟩
      exact (decodes.accepted.mp (accepted_iff.mpr pairs)).unsigned plus
    · intro unsigned
      have digest : Accepted s → HexDigest s := by
        intro accepted
        have pairs := accepted_iff.mp accepted
        exact pairs.digits fun plus => unsigned ⟨pairs, plus⟩
      refine ⟨⟨digest, fun h => accepted_iff.mpr h.pairs⟩, fun hash read => ?_⟩
      exact asHex_of_fromHex (digest ⟨hash, read⟩) read
  refine ⟨fromHex_asHex, exact_iff s, fun t hash hs ht first second => ?_⟩
  rw [← ((exact_iff s).mpr hs).spelling hash first, ← ((exact_iff t).mpr ht).spelling hash second]

def signedDigits : String := String.ofList (List.replicate 32 ['+', 'a']).flatten

private theorem asChunks_replicate {α : Type} (n : Nat) (a b : α) :
    asChunks (List.replicate n [a, b]).flatten = List.replicate n (a, b) := by
  induction n with
  | zero => rfl
  | succ n ih => exact congrArg ((a, b) :: ·) ih

/-- They are accepted as a hash whose text is another. -/
theorem fromHex_signedDigits : ContentHash.fromHex signedDigits = .ok ⟨Vector.replicate 32 10⟩ ∧
    ¬ DecodesExactly signedDigits := by
  have chars : signedDigits.toList = (List.replicate 32 ['+', 'a']).flatten := String.toList_ofList
  have mem : ∀ c, c ∈ signedDigits.toList ↔ c = '+' ∨ c = 'a' := by
    intro c
    rw [chars, List.mem_flatten]
    constructor
    · rintro ⟨pair, mem, hc⟩
      rw [List.eq_of_mem_replicate mem] at hc
      simpa using hc
    · intro hc
      exact ⟨_, List.mem_replicate.mpr ⟨by decide, rfl⟩, by simpa using hc⟩
  have read : ContentHash.fromHex signedDigits = .ok ⟨Vector.replicate 32 10⟩ := by
    refine fromHex_chars.mpr ⟨?_, ?_, ?_⟩
    · rw [chars, List.length_flatten, List.map_replicate]
      rfl
    · intro c hc
      rcases (mem c).mp hc with rfl | rfl <;> decide
    · have pair : ContentHash.hexPair ('+'.toUInt8, 'a'.toUInt8) = .ok 10 := by decide
      rw [chars, asChunks_replicate, List.map_replicate, pair, Vector.toList_replicate, List.map_replicate]
  refine ⟨read, fun decodes => ?_⟩
  have digest := decodes.accepted.mp ⟨_, read⟩
  exact digest.unsigned ((mem '+').mpr (.inl rfl))

end MailKeep
