import MailKeep.Core.QueryText
import MailKeep.Scan.Stretches
import Mathlib.Data.List.GetD

/-! The tokens of a query against the places of its characters. -/
namespace MailKeep

variable {cs : List Char} {n a p : Nat}

def charAt (cs : List Char) (p : Nat) : Char := cs.getD p ' '

def quoted (cs : List Char) (p : Nat) : Bool := (cs.take p).count '"' % 2 = 1

def unquotedSpace (cs : List Char) (p : Nat) : Bool := isWhitespace (charAt cs p) && !quoted cs p

def notQuote (cs : List Char) (p : Nat) : Bool := charAt cs p ≠ '"'

/-- The places of all characters but the double quotes and the white space outside quotes. -/
def keptPlaces (cs : List Char) : List Nat := Scan.keptBelow (unquotedSpace cs) (notQuote cs) cs.length

def queryStretches (cs : List Char) : List (Nat × Nat) := Scan.stretches (unquotedSpace cs) cs.length

def stretchText (cs : List Char) (s : Nat × Nat) : List Char := (Scan.keptWithin (notQuote cs) s).map (charAt cs)

private theorem drop_charAt (h : n < cs.length) : cs.drop n = charAt cs n :: cs.drop (n + 1) := by
  rw [charAt, List.getD_eq_getElem _ _ h, List.drop_eq_getElem_cons h]

private theorem quoted_succ (h : n < cs.length) : quoted cs
    (n + 1) = if charAt cs n = '"' then !quoted cs n else quoted cs n := by
  rw [quoted, quoted, charAt, List.getD_eq_getElem _ _ h, List.take_succ_eq_append_getElem h, List.count_append,
    List.count_singleton]
  by_cases quote : cs[n] = '"'
  · simp only [quote, beq_self_eq_true, if_true]
    grind
  · simp [quote]

private theorem unquotedSpace_of_quoted (h : quoted cs n = true) : unquotedSpace cs n = false := by
  rw [unquotedSpace, h, Bool.not_true, Bool.and_false]

private theorem unquotedSpace_of_quote (h : charAt cs n = '"') : unquotedSpace cs n = false := by
  rw [unquotedSpace, h]
  rfl

/-- A quote is open only within a stretch. -/
private theorem opened_of_quoted (h : quoted cs n = true) (le : n ≤ cs.length) :
    (Scan.opened (unquotedSpace cs) n).isSome = true := by
  cases n with
  | zero => cases h
  | succ n =>
    have free : unquotedSpace cs n = false := by
      rw [quoted_succ le] at h
      split at h
      · rename_i quote
        exact unquotedSpace_of_quote quote
      · exact unquotedSpace_of_quoted h
    rw [Scan.opened_of_free free]
    rfl

private theorem stretchText_self (cs : List Char) (n : Nat) : stretchText cs (n, n) = [] := by
  simp [stretchText, Scan.keptWithin, Scan.interval]

private theorem stretchText_succ (h : a ≤ n) :
    stretchText cs (a, n + 1) = stretchText cs (a, n) ++ if charAt cs n = '"' then [] else [charAt cs n] := by
  rw [stretchText, Scan.keptWithin, Scan.interval_succ h, List.filter_append, List.map_append]
  by_cases quote : charAt cs n = '"'
  · simp [stretchText, Scan.keptWithin, notQuote, quote]
  · simp [stretchText, Scan.keptWithin, notQuote, quote]

/-- The token being read after `n` characters. -/
def currentToken (cs : List Char) (n : Nat) : List Char :=
  (Scan.opened (unquotedSpace cs) n).elim [] fun a => stretchText cs (a, n)

private theorem currentToken_succ (free : unquotedSpace cs n = false) :
    currentToken cs (n + 1) = currentToken cs n ++ if charAt cs n = '"' then [] else [charAt cs n] := by
  rw [currentToken, currentToken, Scan.opened_of_free free, Option.elim_some]
  cases ho : Scan.opened (unquotedSpace cs) n with
  | none => rw [Option.getD_none, stretchText_succ le_rfl, stretchText_self, Option.elim_none]
  | some a => exact stretchText_succ (Scan.opened_eq_some.mp ho).nonempty.le

/-- The tokens that have ended, and the state of the loop, after the first `n` characters. -/
private theorem tokenize_read (le : n ≤ cs.length) : tokenizeFrom [] false false cs =
    (Scan.closed (unquotedSpace cs) n).map (stretchText cs) ++
      tokenizeFrom (currentToken cs n) (quoted cs n) (Scan.opened (unquotedSpace cs) n).isSome (cs.drop n) := by
  induction n with
  | zero => rfl
  | succ n ih =>
    rw [ih (Nat.le_of_succ_le le), drop_charAt le, quoted_succ le, Scan.closed]
    have started : quoted cs n = true → (Scan.opened (unquotedSpace cs) n).isSome = true :=
      fun h => opened_of_quoted h (Nat.le_of_succ_le le)
    cases gap : unquotedSpace cs n with
    | false =>
      rw [currentToken_succ gap, Scan.opened_of_free gap, if_neg Bool.false_ne_true, List.append_nil, Option.isSome_some]
      by_cases quote : charAt cs n = '"'
      · rw [if_pos quote, if_pos quote, List.append_nil, quote, tokenizeFrom_quote _ _ started]
      · have kept : quoted cs n = true ∨ isWhitespace (charAt cs n) = false := by
          rw [unquotedSpace, Bool.and_eq_false_iff] at gap
          exact gap.symm.imp_left fun h => by rwa [Bool.not_eq_false'] at h
        rw [if_neg quote, if_neg quote, tokenizeFrom_kept quote _ _ started kept]
    | true =>
      have blank : isWhitespace (charAt cs n) = true ∧ quoted cs n = false := by
        rw [unquotedSpace, Bool.and_eq_true, Bool.not_eq_true'] at gap
        exact gap
      have other : charAt cs n ≠ '"' := by
        intro quote
        rw [unquotedSpace_of_quote quote] at gap
        cases gap
      have next : currentToken cs (n + 1) = [] := by
        rw [currentToken, Scan.opened_of_gap gap]
        rfl
      rw [next, Scan.opened_of_gap gap, if_neg other, if_pos rfl, blank.2, Option.isSome_none]
      cases ho : Scan.opened (unquotedSpace cs) n with
      | none =>
        have fresh : currentToken cs n = [] := by
          rw [currentToken, ho]
          rfl
        rw [tokenizeFrom_whitespace blank.1 _ fun _ => fresh]
        simp [tokenizeFrom]
      | some a =>
        have current : currentToken cs n = stretchText cs (a, n) := by
          rw [currentToken, ho]
          rfl
        rw [tokenizeFrom_whitespace blank.1 _ fun h => by cases h]
        simp [tokenizeFrom, current]

private theorem tokenize_stretches (input : String) :
    tokenize input = (queryStretches input.toList).map (stretchText input.toList) := by
  rw [tokenize, tokenize_read le_rfl, List.drop_length, queryStretches, Scan.stretches, List.map_append]
  cases ho : Scan.opened (unquotedSpace input.toList) input.toList.length with
  | none => simp [tokenizeFrom]
  | some a => simp [tokenizeFrom, currentToken, ho]

def OnlyQuotes (cs : List Char) (s : Nat × Nat) : Prop := ∀ p, s.1 ≤ p → p < s.2 → charAt cs p = '"'

private theorem stretchText_eq_nil {s : Nat × Nat} : stretchText cs s = [] ↔ OnlyQuotes cs s := by
  simp [stretchText, Scan.keptWithin, OnlyQuotes, notQuote]

/-- The tokens have the kept characters in order. Two of these are in one token exactly if no white space outside
quotes lies between them. Each token comes from one maximal stretch without such white space, and it is empty
exactly if the stretch has double quotes only. -/
theorem tokenize_exact (input : String) :
    (tokenize input).flatten = (keptPlaces input.toList).map (charAt input.toList) ∧
    (∀ i j p q, i < j → (keptPlaces input.toList)[i]? = some p → (keptPlaces input.toList)[j]? = some q →
      (Scan.blockOf (tokenize input) i = Scan.blockOf (tokenize input) j ↔
        ∀ r, p < r → r < q → unquotedSpace input.toList r = false)) ∧
    (queryStretches input.toList).Pairwise (fun s t => s.2 < t.1) ∧
    (∀ a b, (a, b) ∈ queryStretches input.toList ↔ Scan.Stretch (unquotedSpace input.toList) input.toList.length a b) ∧
    tokenize input = (queryStretches input.toList).map (stretchText input.toList) ∧
    ∀ s ∈ queryStretches input.toList, stretchText input.toList s = [] ↔ OnlyQuotes input.toList s := by
  have blocks : tokenize input =
      ((queryStretches input.toList).map (Scan.keptWithin (notQuote input.toList))).map
        (List.map (charAt input.toList)) := by
    rw [tokenize_stretches, List.map_map]
    rfl
  refine ⟨?_, ?_, Scan.stretches_pairwise _ _, fun a b => Scan.mem_stretches, tokenize_stretches input,
    fun s _ => stretchText_eq_nil⟩
  · rw [blocks, ← List.map_flatten, queryStretches, Scan.flatten_keptWithin]
    rfl
  · intro i j p q hij hi hj
    rw [blocks, Scan.blockOf_map, Scan.blockOf_map]
    exact Scan.blockOf_eq_iff hij hi hj

/-- An empty run of quotes, a quote inside a word and one that is left open. -/
example : tokenize "\"\" a\"b c\"d \" e" = [[], "ab cd".toList, " e".toList] := by decide

end MailKeep
