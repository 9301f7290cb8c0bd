import Mathlib.Data.List.Infix
import RichStyle.Proofs.Reading

/-!
# Printing and reading clean sheets

A text is clean if its lexemes are harmless, its parentheses balanced and its semicolons inside
them.  Sheets made of clean texts are printed so that reading gives them back.
-/

namespace RichStyle

open Text
open Source (Absent Inert startsBlank)
open Lexeme (kinds Tidy Whole)

/-! ## Balanced parentheses -/

namespace Kind

/-- No parenthesis closes before it opens, and each that opens closes. -/
def Balanced (ks : List Kind) : Prop :=
  (∀ before ∈ ks.inits, before.count closeParen ≤ before.count openParen) ∧
    ks.count closeParen = ks.count openParen

/-- Each `k` stands inside parentheses. -/
def Enclosed (k : Kind) (ks : List Kind) : Prop :=
  ∀ before ∈ ks.inits, before ++ [k] <+: ks → before.count closeParen < before.count openParen

instance (ks : List Kind) : Decidable (Balanced ks) :=
  inferInstanceAs (Decidable (_ ∧ _))

instance (k : Kind) (ks : List Kind) : Decidable (Enclosed k ks) :=
  inferInstanceAs (Decidable (∀ _ ∈ _, _))

/-- As long as no parenthesis closes too early, the depth counts those that are open. -/
theorem foldl_parenDepth (ks : List Kind)
    (h : ∀ before, before <+: ks → before.count closeParen ≤ before.count openParen) :
    ks.foldl parenDepth 0 + ks.count closeParen = ks.count openParen := by
  induction ks using List.reverseRecOn with
  | nil => rfl
  | append_singleton ks k ih =>
      have hks := ih fun before hbefore => h before (hbefore.trans (List.prefix_append ks [k]))
      have hlast := h (ks ++ [k]) List.prefix_rfl
      simp only [List.foldl_append, List.foldl_cons, List.foldl_nil, List.count_append] at hlast ⊢
      cases k <;> simp [parenDepth] at hlast ⊢ <;> omega

theorem depthAfter?_eq_some {depth : Nat} {ks : List Kind}
    (h : ∀ before k after, ks = before ++ k :: after →
      Ending.of? (before.foldl parenDepth depth) k = none) :
    depthAfter? depth ks = some (ks.foldl parenDepth depth) := by
  induction ks generalizing depth with
  | nil => rfl
  | cons k ks ih =>
      have hk : Ending.of? depth k = none := h [] k ks rfl
      rw [depthAfter?, hk]
      refine ih fun before j after hks => h (k :: before) j after ?_
      rw [hks, List.cons_append]

theorem hidesColons_eq_true {depth : Nat} {ks : List Kind}
    (h : ∀ before after, ks = before ++ colon :: after → before.foldl parenDepth depth ≠ 0) :
    hidesColons depth ks = true := by
  induction ks generalizing depth with
  | nil => rfl
  | cons k ks ih =>
      have hks : hidesColons (k.parenDepth depth) ks = true := by
        refine ih fun before after hks => h (k :: before) after ?_
        rw [hks, List.cons_append]
      have hk : k = colon → depth ≠ 0 := by
        rintro rfl
        exact h [] ks rfl
      simpa [hidesColons, hks, imp_iff_not_or] using hk

section Balanced

variable {ks before after : List Kind} {k : Kind}

/-- What is enclosed in balanced parentheses stands at a depth that is not zero. -/
theorem Balanced.depth_ne_zero (h : Balanced ks) (hk : Enclosed k ks)
    (hks : ks = before ++ k :: after) : before.foldl parenDepth 0 ≠ 0 := by
  have hprefix : before <+: ks := ⟨k :: after, hks.symm⟩
  have hdepth := foldl_parenDepth before fun b hb =>
    h.1 b ((List.mem_inits b ks).2 (hb.trans hprefix))
  have hlt := hk before ((List.mem_inits before ks).2 hprefix) ⟨after, by simp [hks]⟩
  omega

theorem Balanced.depthAfter? (h : Balanced ks) (hsemi : Enclosed semicolon ks)
    (hbrace : ∀ k ∈ ks, k ≠ openBrace ∧ k ≠ closeBrace) : depthAfter? 0 ks = some 0 := by
  have hzero : ks.foldl parenDepth 0 = 0 := by
    have hdepth := foldl_parenDepth ks fun b hb => h.1 b ((List.mem_inits b ks).2 hb)
    have htotal := h.2
    omega
  have hopen : ∀ before k after, ks = before ++ k :: after →
      Ending.of? (before.foldl parenDepth 0) k = none := by
    intro before k after hks
    have hk := hbrace k (by simp [hks])
    cases k with
    | openBrace => exact absurd rfl hk.1
    | closeBrace => exact absurd rfl hk.2
    | semicolon => simp [Ending.of?, h.depth_ne_zero hsemi hks]
    | _ => rfl
  rw [depthAfter?_eq_some hopen, hzero]

theorem Balanced.hidesColons (h : Balanced ks) (hcolon : Enclosed colon ks) :
    hidesColons 0 ks = true :=
  hidesColons_eq_true fun _ _ hks => h.depth_ne_zero hcolon hks

end Balanced

end Kind

/-! ## Clean texts -/

/-- Lexemes that may stand in a clean text. -/
def Lexeme.isClean (l : Lexeme) : Bool :=
  match l.kind with
  | .plain | .colon | .openParen | .closeParen | .semicolon => true
  | .quoted => l.isClosed && !l.text.contains '\n'
  | .blank => l.text == [' ']
  | .openBrace | .closeBrace | .comment => false

/-- Texts that stay what they are in print. -/
structure Text.Clean (text : List Char) : Prop where
  lexemes : ∀ l ∈ Lexeme.split text, l.isClean = true
  unpadded : Unpadded text
  balanced : Kind.Balanced (kinds text)
  semicolons : Kind.Enclosed .semicolon (kinds text)
  noTheme : ¬ "@theme".toList <:+: text
  noImport : ¬ "@import".toList <:+: text

/-- Declarations of clean texts, with no colon outside parentheses in the property. -/
structure Declaration.Clean (d : Declaration) : Prop where
  property : Text.Clean d.property.toList
  property_ne : d.property ≠ ""
  property_colons : Kind.Enclosed .colon (kinds d.property.toList)
  value : Text.Clean d.value.toList

/-- Rules of clean texts. -/
structure Rule.Clean (r : Rule) : Prop where
  selector : Text.Clean r.selector.toList
  selector_ne : r.selector ≠ ""
  declarations : ∀ d ∈ r.declarations, d.Clean

instance (text : List Char) : Decidable (Text.Clean text) :=
  decidable_of_iff ((∀ l ∈ Lexeme.split text, l.isClean = true) ∧ Unpadded text ∧
      Kind.Balanced (kinds text) ∧ Kind.Enclosed .semicolon (kinds text) ∧
      ¬ "@theme".toList <:+: text ∧ ¬ "@import".toList <:+: text)
    ⟨fun ⟨h₁, h₂, h₃, h₄, h₅, h₆⟩ => ⟨h₁, h₂, h₃, h₄, h₅, h₆⟩,
      fun h => ⟨h.lexemes, h.unpadded, h.balanced, h.semicolons, h.noTheme, h.noImport⟩⟩

instance (d : Declaration) : Decidable d.Clean :=
  decidable_of_iff (Text.Clean d.property.toList ∧ d.property ≠ "" ∧
      Kind.Enclosed .colon (kinds d.property.toList) ∧ Text.Clean d.value.toList)
    ⟨fun ⟨h₁, h₂, h₃, h₄⟩ => ⟨h₁, h₂, h₃, h₄⟩,
      fun h => ⟨h.property, h.property_ne, h.property_colons, h.value⟩⟩

instance (r : Rule) : Decidable r.Clean :=
  decidable_of_iff (Text.Clean r.selector.toList ∧ r.selector ≠ "" ∧
      ∀ d ∈ r.declarations, d.Clean)
    ⟨fun ⟨h₁, h₂, h₃⟩ => ⟨h₁, h₂, h₃⟩, fun h => ⟨h.selector, h.selector_ne, h.declarations⟩⟩

theorem Lexeme.isClosed_of_isClean {l : Lexeme} (h : l.isClean = true) : l.isClosed = true := by
  unfold isClean at h
  unfold isClosed
  split at h <;> simp_all [isClosed]

namespace Text.Clean

variable {text : List Char}

theorem tidy (h : Clean text) : Tidy (Lexeme.split text) := by
  refine (Lexeme.neat_of_start (fun l hl => ?_) h.unpadded.start).tidy h.unpadded
  have hclean := h.lexemes l hl
  refine ⟨Lexeme.whole_of_isClosed hl (Lexeme.isClosed_of_isClean hclean), ?_, ?_⟩
  · refine ⟨?_, ?_, ?_⟩ <;> intro hk <;> simp [Lexeme.isClean, hk] at hclean
  · intro hk
    simpa [Lexeme.isClean, hk] using hclean

theorem depthAfter? (h : Clean text) : Kind.depthAfter? 0 (kinds text) = some 0 := by
  refine h.balanced.depthAfter? h.semicolons fun k hk => ?_
  obtain ⟨l, hl, rfl⟩ := List.mem_map.1 hk
  have hinner := h.tidy.inner l hl
  exact ⟨hinner.1, hinner.2.1⟩

end Text.Clean

theorem Declaration.Clean.printable {d : Declaration} (h : d.Clean) : d.Printable where
  property := h.property.tidy
  property_ne := by simpa using h.property_ne
  property_closed := h.property.depthAfter?
  property_colons := h.property.balanced.hidesColons h.property_colons
  value := h.value.tidy.toNeat

theorem Rule.Clean.printable {r : Rule} (h : r.Clean) : r.Printable where
  selector := h.selector.tidy
  selector_ne := by simpa using h.selector_ne
  selector_open := ⟨0, h.selector.depthAfter?⟩
  declarations := fun d hd => (h.declarations d hd).printable

/-! ## Words that printing does not make -/

section Words

variable {word : List Char}

/-- The characters that are printed between pieces. -/
def Sheet.glue : List Char :=
  [' ', '\n', '\x7b', '\x7d', ':', ';']

variable (hglue : ∀ c ∈ Sheet.glue, c ∉ word)

include hglue

theorem not_infix_declarations {ds : List Declaration} {rest : List Char}
    (hds : ∀ d ∈ ds, ¬ word <:+: d.property.toList ∧ ¬ word <:+: d.value.toList)
    (hrest : ¬ word <:+: rest) :
    ¬ word <:+: (String.join (ds.map Sheet.printDeclaration)).toList ++ rest := by
  induction ds with
  | nil => simpa using hrest
  | cons d ds ih =>
      have htail := ih fun e he => hds e (by simp [he])
      obtain ⟨hproperty, hvalue⟩ := hds d (by simp)
      have hline : ¬ word <:+: d.value.toList ++ ';' :: '\n' ::
          ((String.join (ds.map Sheet.printDeclaration)).toList ++ rest) :=
        not_infix_append (hglue _ (by decide)) hvalue
          (not_infix_cons (hglue _ (by decide)) htail)
      have hdecl := not_infix_cons (hglue ' ' (by decide)) (not_infix_cons (hglue ' ' (by decide))
        (not_infix_append (hglue ':' (by decide)) hproperty
          (not_infix_cons (hglue ' ' (by decide)) hline)))
      simpa [Sheet.printDeclaration, String.toList_join] using hdecl

theorem not_infix_print {rules : List Rule}
    (hword : word ≠ [])
    (hrules : ∀ r ∈ rules, ¬ word <:+: r.selector.toList ∧ ∀ d ∈ r.declarations,
      ¬ word <:+: d.property.toList ∧ ¬ word <:+: d.value.toList) :
    ¬ word <:+: (Sheet.print rules false).toList := by
  induction rules with
  | nil => simpa [Sheet.print] using hword
  | cons r rules ih =>
      have htail := ih fun q hq => hrules q (by simp [hq])
      obtain ⟨hselector, hds⟩ := hrules r (by simp)
      have hend : ¬ word <:+: '\x7d' :: '\n' :: '\n' :: (Sheet.print rules false).toList :=
        not_infix_cons (hglue _ (by decide)) (not_infix_cons (hglue _ (by decide))
          (not_infix_cons (hglue _ (by decide)) htail))
      have hrule := not_infix_append (hglue ' ' (by decide)) hselector
        (not_infix_cons (hglue '\x7b' (by decide)) (not_infix_cons (hglue '\n' (by decide))
          (not_infix_declarations hglue hds hend)))
      simpa [Sheet.print, Sheet.printRule, String.toList_join] using hrule

end Words

/-! ## Clean sheets -/

theorem Declaration.Printable.kind_ne_comment {d : Declaration} (h : d.Printable) {l : Lexeme}
    (hl : l ∈ d.lexemes) : l.kind ≠ .comment := by
  simp only [lexemes, List.mem_cons, List.mem_append, List.not_mem_nil, or_false] at hl
  rcases hl with rfl | hl | rfl | rfl | hl | rfl
  · decide
  · exact (h.property.inner l hl).2.2
  · decide
  · decide
  · exact (h.value.inner l hl).2.2
  · decide

theorem Rule.Printable.kind_ne_comment {r : Rule} (h : r.Printable) {l : Lexeme}
    (hl : l ∈ r.lexemes) : l.kind ≠ .comment := by
  simp only [lexemes, List.mem_cons, List.mem_append, List.not_mem_nil, or_false] at hl
  rcases hl with hl | rfl | rfl | hl | rfl | rfl | rfl
  · exact (h.selector.inner l hl).2.2
  · decide
  · decide
  · obtain ⟨d, hd, hl⟩ := List.mem_flatMap.1 hl
    exact (h.declarations d hd).kind_ne_comment hl
  · decide
  · decide
  · decide

theorem Sheet.absent_startsComment_print {rules : List Rule} (h : ∀ r ∈ rules, r.Printable) :
    Absent startsComment (print rules false).toList := by
  rw [Source.absent_startsComment_iff, split_print h]
  intro l hl
  obtain ⟨r, hr, hl⟩ := List.mem_flatMap.1 hl
  exact (h r hr).kind_ne_comment hl

theorem Sheet.inert_print {rules : List Rule} (h : ∀ r ∈ rules, r.Clean) :
    Inert (print rules false).toList where
  noComment := absent_startsComment_print fun r hr => (h r hr).printable
  noImport := fun line hline => by
    refine Source.importTarget_of_not_infix (not_infix_print (by simp [Sheet.glue]) (by decide) ?_) hline
    intro r hr
    have hr := h r hr
    exact ⟨hr.selector.noImport, fun d hd =>
      ⟨(hr.declarations d hd).property.noImport, (hr.declarations d hd).value.noImport⟩⟩
  noTheme := by
    refine Source.absent_of_not_infix Source.themeKeyword
      (not_infix_print (by simp [Sheet.glue, Source.themeKeyword_eq]) (by decide) ?_) ?_
    · intro r hr
      have hr := h r hr
      exact ⟨hr.selector.noTheme, fun d hd =>
        ⟨(hr.declarations d hd).property.noTheme, (hr.declarations d hd).value.noTheme⟩⟩
    · intro r hr
      exact (Bool.and_eq_true _ _ ▸ hr).1

/-- Reading undoes the printing of a clean sheet. -/
theorem Sheet.read_print_clean {rules : List Rule} (h : ∀ r ∈ rules, r.Clean)
    (withBanner : Bool) :
    ∃ qs, read (print rules withBanner).toList = .ok ⟨⟨qs, []⟩, []⟩ ∧
      qs.map Rule.placeless = rules.map fun r => r.reclassified.placeless := by
  have hclosed : ∀ r ∈ rules, ∀ d ∈ r.declarations, d.Closed := fun r hr d hd =>
    let hvalue := ((h r hr).declarations d hd).value
    ⟨hvalue.depthAfter?, hvalue.unpadded⟩
  obtain ⟨qs, hqs, hread⟩ :=
    read_print withBanner (fun r hr => (h r hr).printable) hclosed (inert_print h)
  exact ⟨qs, hread, hqs⟩

/-- Quotes and parentheses keep braces, colons and semicolons in their place. -/
theorem Sheet.read_print_clean_quoted :
    let rules : List Rule :=
      [⟨"a:is(.b;c) > \"\x7b\"", [⟨"--x(y:z)", "f(';' ; url(a:b)) \"\x7d\"", true, .unknown⟩,
        ⟨"depth", "", false, .unknown⟩], .unknown⟩, ⟨"p", [], .unknown⟩]
    (∀ r ∈ rules, r.Clean) ∧
      ∃ qs, read (print rules true).toList = .ok ⟨⟨qs, []⟩, []⟩ ∧
        qs.map Rule.placeless = rules.map fun r => r.reclassified.placeless :=
  ⟨by decide +kernel, read_print_clean (by decide +kernel) true⟩

end RichStyle
