import MailKeep.Parser.Render
import Mathlib.Data.List.DropRight

/-! What a browser makes of the image sources that blocking lets through. -/
namespace MailKeep

def isControlOrSpace (c : Char) : Bool := c.toNat ≤ 0x20

/-- How a browser reads a URL: stripped at both ends, without TAB, LF and CR, `\` as `/`. -/
def browserForm (value : List Char) : List Char :=
  let stripped := ((value.dropWhile isControlOrSpace).reverse.dropWhile isControlOrSpace).reverse
  (stripped.filter fun c => !(c = '\t' || c = '\n' || c = '\r')).map fun c => if c = '\\' then '/' else c

/-- A browser takes the URL to another host. -/
def BrowserRemote (value : List Char) : Prop :=
  let form := (browserForm value).map asciiLower
  "http:".toList <+: form ∨ "https:".toList <+: form ∨ "//".toList <+: form

instance (value : List Char) : Decidable (BrowserRemote value) := inferInstanceAs (Decidable (_ ∨ _ ∨ _))

def DataUri (value : List Char) : Prop := "data:".toList <+: value

/-- The trimmed text begins with `cid:`, in any case. -/
def CidReference (trimmed : List Char) : Prop := "cid:".toList <+: trimmed.map asciiLower

def CidMap.Inline (cidMap : CidMap) : Prop := ∀ cid uri, cidMap cid = some uri → DataUri uri.toList

theorem CidMap.Inline.insertPart {cidMap : CidMap} (inline : cidMap.Inline)
    (base64 : Bytes → String) (part : InlinePart) :
    (MailKeep.insertPart base64 cidMap part).Inline := by
  unfold MailKeep.insertPart
  split
  · exact inline
  · intro cid uri found
    rw [Function.update_apply] at found
    split at found
    · cases found
      simp [DataUri]
    · exact inline cid uri found

/-- The map the renderer builds is of that kind. -/
private theorem buildCidMap_inline (base64 : Bytes → String) (parts : List InlinePart) :
    (buildCidMap base64 parts).Inline :=
  List.foldlRecOn parts _ (fun _ _ found => by cases found) fun _ inline part _ => inline.insertPart base64 part

private theorem isControlOrSpace_tab {c : Char} (other : isControlOrSpace c = false) :
    (c = '\t' || c = '\n' || c = '\r') = false := by
  by_contra h
  rw [Bool.not_eq_false, Bool.or_eq_true, Bool.or_eq_true, decide_eq_true_eq, decide_eq_true_eq, decide_eq_true_eq] at h
  rcases h with (rfl | rfl) | rfl <;> cases other

/-- The first character that is neither a control nor a space comes first. -/
private theorem browserForm_head {value : List Char} {c : Char} {rest : List Char}
    (begins : value.dropWhile isControlOrSpace = c :: rest) :
    ∃ tail, browserForm value = (if c = '\\' then '/' else c) :: tail := by
  have other : isControlOrSpace c = false := by
    have := List.head?_dropWhile_not isControlOrSpace value
    rw [begins] at this
    simpa using this
  obtain ⟨middle, stripped⟩ : ∃ middle, ((c :: rest).reverse.dropWhile isControlOrSpace).reverse = c :: middle := by
    rw [List.reverse_cons, List.dropWhile_append]
    split
    · exact ⟨[], by simp [other]⟩
    · exact ⟨_, by rw [List.reverse_append]; rfl⟩
  rw [browserForm, begins, stripped, List.filter_cons_of_pos (by rw [isControlOrSpace_tab other]; rfl), List.map_cons]
  exact ⟨_, rfl⟩

/-- What a browser takes elsewhere begins, behind controls and spaces, with an `h` or a slash. -/
theorem BrowserRemote.begins {value : List Char} (remote : BrowserRemote value) :
    ∃ c rest, value.dropWhile isControlOrSpace = c :: rest ∧
      (asciiLower c = 'h' ∨ asciiLower c = '/' ∨ c = '\\') := by
  cases begins : value.dropWhile isControlOrSpace with
  | nil =>
    unfold BrowserRemote browserForm at remote
    rw [begins] at remote
    simp at remote
  | cons c rest =>
    refine ⟨c, rest, rfl, ?_⟩
    obtain ⟨tail, form⟩ := browserForm_head begins
    unfold BrowserRemote at remote
    rw [form, List.map_cons] at remote
    split at remote
    · exact .inr (.inr ‹_›)
    · rcases remote with http | https | slashes
      · exact .inl (List.cons_prefix_cons.mp (show 'h' :: "ttp:".toList <+: _ from http)).1.symm
      · exact .inl (List.cons_prefix_cons.mp (show 'h' :: "ttps:".toList <+: _ from https)).1.symm
      · exact .inr (.inl (List.cons_prefix_cons.mp (show '/' :: "/".toList <+: _ from slashes)).1.symm)

private theorem DataUri.not_remote {value : List Char} (inline : DataUri value) : ¬ BrowserRemote value := by
  intro remote
  obtain ⟨rest, rfl⟩ := inline
  obtain ⟨c, tail, begins, first⟩ := remote.begins
  have d : ("data:".toList ++ rest).dropWhile isControlOrSpace = 'd' :: ("ata:".toList ++ rest) := by
    rw [show "data:".toList ++ rest = 'd' :: ("ata:".toList ++ rest) from rfl, List.dropWhile_cons_of_neg (by decide)]
  rw [d, List.cons.injEq] at begins
  rw [← begins.1] at first
  exact absurd first (by decide)

private theorem asciiLower_whitespace {c : Char} (white : isWhitespace c = true) : asciiLower c = c := by
  apply if_neg
  intro capital
  have lower : 65 ≤ c.toNat := capital.1
  have upper : c.toNat ≤ 90 := capital.2
  unfold isWhitespace at white
  simp only [Bool.or_eq_true, Bool.and_eq_true, decide_eq_true_eq, beq_iff_eq] at white
  omega

private theorem asciiLower_control {c : Char} (control : isControlOrSpace c = true) : asciiLower c = c := by
  apply if_neg
  intro capital
  have lower : 65 ≤ c.toNat := capital.1
  have upper : c.toNat ≤ 32 := of_decide_eq_true control
  omega

/-- Behind its white space a reference begins with a `c`. -/
theorem CidReference.begins {value : List Char} (cid : CidReference (trim value)) :
    ∃ x rest, value.dropWhile isWhitespace = x :: rest ∧ asciiLower x = 'c' := by
  have front : trim value <+: value.dropWhile isWhitespace := List.rdropWhile_prefix _ _
  cases trimmed : trim value with
  | nil =>
    rw [trimmed] at cid
    exact absurd (List.prefix_nil.mp cid) (by decide)
  | cons x t =>
    rw [trimmed] at cid front
    obtain ⟨more, whole⟩ := front
    exact ⟨x, t ++ more, whole.symm, (List.cons_prefix_cons.mp (show 'c' :: "id:".toList <+: _ from cid)).1.symm⟩

/-- White space, `c` and `C` are no first characters of what a browser takes elsewhere. -/
private theorem CidReference.not_remote {value : List Char} (cid : CidReference (trim value)) :
    ¬ BrowserRemote value := by
  intro remote
  obtain ⟨c, rest, begins, first⟩ := remote.begins
  have other : asciiLower c = 'c' ∨ isWhitespace c = true := by
    obtain ⟨x, tail, behind, low⟩ := cid.begins
    have plain : isControlOrSpace x = false := by
      by_contra control
      rw [Bool.not_eq_false] at control
      rw [asciiLower_control control] at low
      rw [low] at control
      cases control
    rw [← List.takeWhile_append_dropWhile (p := isWhitespace) (l := value), behind, List.dropWhile_append] at begins
    split at begins
    · rw [List.dropWhile_cons_of_neg (by rw [plain]; decide), List.cons.injEq] at begins
      exact .inl (begins.1 ▸ low)
    · rename_i some
      cases left : (value.takeWhile isWhitespace).dropWhile isControlOrSpace with
      | nil => exact absurd (by rw [left]; rfl) some
      | cons y more =>
        rw [left, List.cons_append, List.cons.injEq] at begins
        have white : y ∈ value.takeWhile isWhitespace := List.dropWhile_subset _ (left ▸ List.mem_cons_self)
        exact .inr (begins.1 ▸ List.mem_takeWhile_imp white)
  rcases other with low | white
  · rw [low] at first
    rcases first with h | h | rfl
    · exact absurd h (by decide)
    · exact absurd h (by decide)
    · exact absurd low (by decide)
  · rw [asciiLower_whitespace white] at first
    rcases first with rfl | rfl | rfl <;> exact absurd white (by decide)

private theorem CidReference.not_literal {trimmed : List Char} (cid : CidReference trimmed) :
    isRemote trimmed = false := by
  obtain ⟨rest, low⟩ := cid
  unfold isRemote
  rw [← low]
  rfl

variable {value : String} {cidMap : CidMap} {removedRemote : Bool}

/-- What a source becomes while remote images are blocked. -/
inductive Blocked (value : String) (cidMap : CidMap) (removedRemote : Bool) : Rewritten → Prop
  | cid (id : List Char) (reference : CidReference (trim value.toList)) :
    Blocked value cidMap removedRemote ⟨cidMap id, removedRemote⟩
  | dropped (literal : isRemote (trim value.toList) = true) : Blocked value cidMap removedRemote ⟨none, true⟩
  | kept (plain : isRemote (trim value.toList) = false) :
    Blocked value cidMap removedRemote ⟨some value, removedRemote⟩

private theorem rewriteImgSrc_blocked {rewritten : Rewritten}
    (returned : rewriteImgSrc value false cidMap removedRemote = some rewritten) :
    Blocked value cidMap removedRemote rewritten := by
  have passed : Blocked value cidMap removedRemote
      (if isRemote (trim value.toList) then if false then ⟨some value, removedRemote⟩ else ⟨none, true⟩
        else ⟨some value, removedRemote⟩) := by
    split
    · exact .dropped ‹_›
    · exact .kept (Bool.eq_false_iff.mpr ‹_›)
  rw [rewriteImgSrc] at returned
  dsimp only at returned
  split at returned
  · cases slices : splitAtByte 4 (trim value.toList) with
    | none =>
      rw [slices] at returned
      cases returned
    | some parts =>
      obtain ⟨scheme, id⟩ := parts
      rw [slices] at returned
      dsimp only [bind, Option.bind] at returned
      split at returned
      · rename_i same
        cases returned
        refine .cid _ ?_
        rw [CidReference, (splitAtByte_eq_some.mp slices).1, List.map_append, beq_iff_eq.mp same]
        exact List.prefix_append _ _
      · cases returned
        exact passed
  · cases returned
    exact passed

namespace Blocked
variable {rewritten : Rewritten}

/-- Only what is no literal remote URL can get past the filter as itself. -/
private theorem safe_iff (blocked : Blocked value cidMap removedRemote rewritten) (inline : cidMap.Inline) :
    (∀ v, rewritten.value = some v → ¬ BrowserRemote v.toList) ↔
      (BrowserRemote value.toList → isRemote (trim value.toList) = true) := by
  cases blocked with
  | cid id reference =>
    exact iff_of_true (fun v found => (inline id v found).not_remote) fun remote =>
      absurd remote reference.not_remote
  | dropped literal => exact iff_of_true (fun v found => by cases found) fun _ => literal
  | kept plain =>
    rw [plain]
    constructor
    · intro safe remote
      exact absurd remote (safe value rfl)
    · rintro literal v ⟨⟩ remote
      exact absurd (literal remote) Bool.false_ne_true

/-- The flag is raised by what is dropped for being remote. -/
private theorem flag_iff (blocked : Blocked value cidMap removedRemote rewritten) :
    rewritten.removedRemote = true ↔ removedRemote = true ∨ rewritten.value = none ∧
      isRemote (trim value.toList) = true := by
  cases blocked with
  | cid id reference => simp [reference.not_literal]
  | dropped literal => simp [literal]
  | kept plain => simp

end Blocked

/-- The sources of a document and what has become of them. -/
private theorem rewriteSources_blocked {sources : List String} {values : List (Option String)} {removed : Bool}
    (returned : rewriteSources false cidMap removedRemote sources = some (values, removed)) :
    List.Forall₂ (fun source value => ∃ before after, Blocked source cidMap before ⟨value, after⟩) sources values ∧
      (removed = true ↔ removedRemote = true ∨ ∃ source, (source, none) ∈ sources.zip values ∧ isRemote (trim source.toList) = true) := by
  induction sources generalizing values removed removedRemote with
  | nil =>
    cases returned
    exact ⟨.nil, by simp⟩
  | cons source sources ih =>
    rw [rewriteSources, attributeFilter, if_pos ⟨rfl, rfl⟩] at returned
    obtain ⟨first, head, returned⟩ := Option.bind_eq_some_iff.mp returned
    obtain ⟨⟨rest, after⟩, tail, returned⟩ := Option.bind_eq_some_iff.mp returned
    cases returned
    obtain ⟨each, flag⟩ := ih tail
    have blocked := rewriteImgSrc_blocked head
    refine ⟨.cons ⟨_, _, blocked⟩ each, ?_⟩
    rw [flag, blocked.flag_iff, or_assoc, List.zip_cons_cons]
    apply or_congr_right
    constructor
    · rintro (⟨dropped, literal⟩ | ⟨other, found, literal⟩)
      · exact ⟨source, by rw [dropped]; exact List.mem_cons_self, literal⟩
      · exact ⟨other, List.mem_cons_of_mem _ found, literal⟩
    · rintro ⟨other, found, literal⟩
      rcases List.mem_cons.mp found with here | later
      · obtain ⟨rfl, dropped⟩ := Prod.mk.inj here
        exact .inl ⟨dropped.symm, literal⟩
      · exact .inr ⟨other, later, literal⟩

/-- Each source by itself decides whether something remote gets past the filter. -/
private theorem safe_all_iff (inline : cidMap.Inline) {sources : List String} {values : List (Option String)}
    (each : List.Forall₂ (fun source value => ∃ before after, Blocked source cidMap before ⟨value, after⟩) sources values) :
    (∀ v, some v ∈ values → ¬ BrowserRemote v.toList) ↔
      ∀ source ∈ sources, BrowserRemote source.toList → isRemote (trim source.toList) = true := by
  induction each with
  | nil => simp
  | cons head _ ih =>
    obtain ⟨before, after, blocked⟩ := head
    rw [List.forall_mem_cons, ← ih, ← blocked.safe_iff inline]
    constructor
    · intro safe
      exact ⟨fun v same => safe v (same ▸ List.mem_cons_self), fun v later => safe v (List.mem_cons_of_mem _ later)⟩
    · rintro ⟨first, rest⟩ v found
      rcases List.mem_cons.mp found with here | later
      · exact first v here.symm
      · exact rest v later

/-- Blocking works for a document whose sources are plain about being remote, and the flag tells whether one was dropped
for it. -/
theorem remote_images_blocked_iff (cidMap : CidMap) (inline : cidMap.Inline) (sources : List String)
    (values : List (Option String)) (removed : Bool) (returned : rewriteSources false cidMap false sources = some (values, removed)) :
    ((∀ v, some v ∈ values → ¬ BrowserRemote v.toList) ↔
      ∀ source ∈ sources, BrowserRemote source.toList → isRemote (trim source.toList) = true) ∧
      (removed = true ↔ ∃ source, (source, none) ∈ sources.zip values ∧ isRemote (trim source.toList) = true) := by
  obtain ⟨each, flag⟩ := rewriteSources_blocked returned
  refine ⟨safe_all_iff inline each, flag.trans ?_⟩
  exact or_iff_right Bool.false_ne_true

/-- A remote image, one that is attached under its Content-ID, and one that is named by a path. -/
private def threeSources : List String := [" HTTPS://evil.example/p.gif", "CID:logo", "cover.png"]

private def logo : InlinePart := ⟨some " <logo> ", "image/png", []⟩

theorem remote_images_blocked_attached : ¬ BrowserRemote "data:image/png;base64,iVBO".toList ∧
    ∃ source, (source, none) ∈ threeSources.zip [none, some "data:image/png;base64,iVBO", some "cover.png"] ∧
      isRemote (trim source.toList) = true :=
  have blocked := remote_images_blocked_iff (buildCidMap (fun _ => "iVBO") [logo]) (buildCidMap_inline _ _) threeSources
    [none, some "data:image/png;base64,iVBO", some "cover.png"] true (by decide +kernel)
  ⟨blocked.1.mpr (by decide) "data:image/png;base64,iVBO" (by decide), blocked.2.mp rfl⟩

/-- A TAB inside the prefix, and the browser still fetches the image. -/
theorem tab_is_kept : ¬ ∀ (value : String) (cidMap : CidMap), cidMap.Inline → ∀ rewritten,
    rewriteImgSrc value false cidMap false = some rewritten → ∀ v, rewritten.value = some v →
      ¬ BrowserRemote v.toList := by
  intro blocks
  exact blocks "ht\ttp://evil.example/p.gif" (fun _ => none) (fun _ _ found => by cases found)
    ⟨some "ht\ttp://evil.example/p.gif", false⟩ (by decide) _ rfl (.inl (by decide))

end MailKeep
