import RichStyle.Proofs.Recompile
import RichStyle.Proofs.Roundtrip
import RichStyle.Proofs.Spacing

/-!
# The ends of lowered values

A value is written in front of a semicolon and has to end there.  What lowering makes of a value with
balanced parentheses is balanced again and shows no semicolon, except where the argument of a call is
taken out of its parentheses: the outer ones need not belong together.  A glow without a color ends
with a blank.  Every other lowered declaration is read back as it was written.
-/

namespace RichStyle

open Text
open Source (Absent Settled startsBlank)
open Lexeme (kinds)

/-! ## Marks outside strings -/

namespace Text

/-- The punctuation marks of a text that stand outside strings. -/
def outerMarks : List Char → List Kind
  | [] => []
  | c :: s =>
      if isQuote c then outerMarks (quotedRun c s).2
      else (Kind.ofPunctuation? c).toList ++ outerMarks s
termination_by s => s.length
decreasing_by
  · exact Nat.lt_succ_of_le (quotedRun_rest_le c s)
  · exact Nat.lt_succ_self _

theorem outerMarks_quote {q : Char} {s : List Char} (hq : isQuote q = true) :
    outerMarks (q :: s) = outerMarks (quotedRun q s).2 := by
  rw [outerMarks, if_pos hq]

theorem outerMarks_cons {c : Char} {s : List Char} (hc : isQuote c = false) :
    outerMarks (c :: s) = (Kind.ofPunctuation? c).toList ++ outerMarks s := by
  rw [outerMarks, if_neg (by simp [hc])]

theorem outerMarks_append {a b : List Char} (ha : Settled a) :
    outerMarks (a ++ b) = outerMarks a ++ outerMarks b := by
  induction ha with
  | nil => rw [outerMarks]; rfl
  | plain hc hs ih =>
      rw [List.cons_append, outerMarks_cons hc, outerMarks_cons hc, ih, List.append_assoc]
  | quoted hq ht hs ih =>
      rw [List.cons_append, List.append_assoc, outerMarks_quote hq, outerMarks_quote hq,
        quotedRun_of_closes _ hq ht, quotedRun_of_closes _ hq ht, ih]

theorem outerMarks_of_unquoted {s : List Char} (h : s.any isQuote = false) :
    outerMarks s = s.filterMap Kind.ofPunctuation? := by
  induction s with
  | nil => rw [outerMarks]; rfl
  | cons c s ih =>
      obtain ⟨hc, hs⟩ : isQuote c = false ∧ s.any isQuote = false := by simpa using h
      rw [outerMarks_cons hc, ih hs, List.filterMap_cons]
      cases Kind.ofPunctuation? c <;> rfl

end Text

theorem Orderly.outerMarks_eq {ks : List Kind} {s : List Char} (h : Orderly ks s) :
    outerMarks s = ks := by
  induction h with
  | nil => rw [outerMarks]
  | mark hk hopen hclose hs ih =>
      rw [outerMarks_cons (Lexeme.not_quote_of_punctuation (Lexeme.isPunctuation_of_kind hk)), hk, ih]
      rfl
  | plain hc hs ih =>
      simp only [isDelimiter, Bool.or_eq_false_iff] at hc
      rw [outerMarks_cons hc.1.2, Lexeme.ofPunctuation_of_ordinary hc.1.1, ih]
      rfl
  | space hb hs ih =>
      rw [outerMarks_cons rfl, ih]
      rfl
  | quoted hq ht hs ih => rw [outerMarks_quote hq, quotedRun_of_closes _ hq ht, ih]

theorem Orderly.settled {ks : List Kind} {s : List Char} (h : Orderly ks s) : Settled s := by
  induction h with
  | nil => exact .nil
  | mark hk hopen hclose hs ih =>
      exact .plain (Lexeme.not_quote_of_punctuation (Lexeme.isPunctuation_of_kind hk)) ih
  | plain hc hs ih =>
      simp only [isDelimiter, Bool.or_eq_false_iff] at hc
      exact .plain hc.1.2 ih
  | space hb hs ih => exact .plain rfl ih
  | quoted hq ht hs ih => exact .quoted hq ht ih

theorem Orderly.not_brace {ks : List Kind} {s : List Char} (h : Orderly ks s) :
    ∀ k ∈ ks, k ≠ .openBrace ∧ k ≠ .closeBrace := by
  induction h with
  | nil => simp
  | mark hk hopen hclose hs ih => exact List.forall_mem_cons.2 ⟨⟨hopen, hclose⟩, ih⟩
  | plain hc hs ih | space hb hs ih | quoted hq ht hs ih => exact ih

/-- Characters that are neither punctuation nor quotes. -/
def Text.isMarkless (c : Char) : Bool :=
  !isQuote c && !isPunctuation c

theorem Text.settled_of_markless {s : List Char} (h : s.all isMarkless = true) : Settled s := by
  refine Source.settled_of_unquoted fun c hc => ?_
  have hmarkless := List.all_eq_true.1 h c hc
  simp only [isMarkless, Bool.and_eq_true, Bool.not_eq_true'] at hmarkless
  exact hmarkless.1

theorem Text.outerMarks_of_markless {s : List Char} (h : s.all isMarkless = true) :
    outerMarks s = [] := by
  induction s with
  | nil => rw [outerMarks]
  | cons c s ih =>
      obtain ⟨⟨hquote, hmark⟩, hs⟩ : (isQuote c = false ∧ isPunctuation c = false) ∧
          s.all isMarkless = true := by simpa [isMarkless] using h
      rw [outerMarks_cons hquote, Lexeme.ofPunctuation_of_ordinary hmark, ih hs]
      rfl

theorem Text.markless_of_isOrdinary {s : List Char} (h : isOrdinary s = true) :
    s.all isMarkless = true := by
  refine List.all_eq_true.2 fun c hc => ?_
  have hordinary := List.all_eq_true.1 h c hc
  simp only [isDelimiter, Bool.not_or, Bool.and_eq_true, Bool.not_eq_true'] at hordinary
  simp [isMarkless, hordinary]

/-! ## Balanced parentheses and depth -/

namespace Kind

theorem ending_of_depthAfter? {depth final : Nat} {before after : List Kind} {k : Kind}
    (h : depthAfter? depth (before ++ k :: after) = some final) :
    Ending.of? (before.foldl parenDepth depth) k = none := by
  rw [depthAfter?_append] at h
  obtain ⟨mid, hbefore, h⟩ := Option.bind_eq_some_iff.1 h
  rw [depthAfter?_eq_foldl hbefore]
  rw [depthAfter?] at h
  split at h
  · cases h
  · next hnone => exact hnone

/-- A depth that stops at zero is never less than what the parentheses add up to. -/
theorem add_count_le_foldl (depth : Nat) (ks : List Kind) :
    depth + ks.count openParen ≤ ks.foldl parenDepth depth + ks.count closeParen := by
  induction ks generalizing depth with
  | nil => simp
  | cons k ks ih =>
      have hrest := ih (k.parenDepth depth)
      cases k <;> simp [parenDepth] at hrest ⊢ <;> omega

/-- Where as many parentheses close as open, a depth of zero at the end is never stopped on the way,
and so the parentheses are balanced. -/
theorem depthAfter?_eq_zero_iff {ks : List Kind}
    (hcount : ks.count closeParen = ks.count openParen)
    (hbrace : ∀ k ∈ ks, k ≠ openBrace ∧ k ≠ closeBrace) :
    depthAfter? 0 ks = some 0 ↔ Balanced ks ∧ Enclosed semicolon ks := by
  constructor
  · intro h
    have hbalanced : Balanced ks := by
      refine ⟨fun before hbefore => ?_, hcount⟩
      obtain ⟨after, rfl⟩ := (List.mem_inits before ks).1 hbefore
      have hfinal := depthAfter?_eq_foldl h
      have hafter := add_count_le_foldl (before.foldl parenDepth 0) after
      rw [List.foldl_append] at hfinal
      rw [List.count_append, List.count_append] at hcount
      omega
    refine ⟨hbalanced, fun before hbefore hsemi => ?_⟩
    obtain ⟨after, rfl⟩ := hsemi
    rw [List.append_assoc, List.singleton_append] at h
    have hnone := ending_of_depthAfter? h
    have hdepth := foldl_parenDepth before fun b hb =>
      hbalanced.1 b ((List.mem_inits b _).2
        (hb.trans ((List.prefix_append before [semicolon]).trans (List.prefix_append _ after))))
    have hne : before.foldl parenDepth 0 ≠ 0 := by
      intro hzero
      rw [hzero] at hnone
      cases hnone
    omega
  · intro h
    exact h.1.depthAfter? h.2 hbrace

end Kind

/-- Texts in which as many parentheses close as open, all of them, and no semicolon is bare. -/
structure Text.Sealed (s : List Char) : Prop where
  count : (outerMarks s).count .closeParen = (outerMarks s).count .openParen
  depth : Kind.depthAfter? 0 (outerMarks s) = some 0

theorem IsOrderly.sealed_iff {s : List Char} (h : IsOrderly s) :
    Sealed s ↔ Kind.Balanced (outerMarks s) ∧ Kind.Enclosed .semicolon (outerMarks s) := by
  obtain ⟨ks, hs⟩ := h
  have hbrace : ∀ k ∈ outerMarks s, k ≠ .openBrace ∧ k ≠ .closeBrace := by
    rw [hs.outerMarks_eq]
    exact hs.not_brace
  constructor
  · intro h
    exact (Kind.depthAfter?_eq_zero_iff h.count hbrace).1 h.depth
  · intro h
    exact ⟨h.1.2, (Kind.depthAfter?_eq_zero_iff h.1.2 hbrace).2 h⟩

/-- A value that was read and has balanced parentheses is sealed. -/
theorem Declaration.AsRead.sealed {d : Declaration} (h : d.AsRead)
    (hbalanced : Kind.Balanced (outerMarks d.value.toList)) : Sealed d.value.toList := by
  obtain ⟨ks, hks, depth, hdepth⟩ := h.value_open
  rw [← hks.outerMarks_eq] at hdepth
  have hzero := Kind.foldl_parenDepth _ fun b hb => hbalanced.1 b ((List.mem_inits b _).2 hb)
  rw [Kind.depthAfter?_eq_foldl hdepth] at hzero
  have htotal := hbalanced.2
  refine ⟨htotal, ?_⟩
  rw [hdepth]
  congr 1
  omega

namespace Text.Sealed

variable {a b s : List Char}

theorem append (hsettled : Settled a) (ha : Sealed a) (hb : Sealed b) : Sealed (a ++ b) := by
  constructor
  · rw [outerMarks_append hsettled, List.count_append, List.count_append, ha.count, hb.count]
  · rw [outerMarks_append hsettled, Kind.depthAfter?_append, ha.depth]
    exact hb.depth

theorem of_unquoted (hquote : s.any isQuote = false)
    (h : (s.filterMap Kind.ofPunctuation?).count .closeParen =
        (s.filterMap Kind.ofPunctuation?).count .openParen ∧
      Kind.depthAfter? 0 (s.filterMap Kind.ofPunctuation?) = some 0) : Sealed s := by
  rw [← outerMarks_of_unquoted hquote] at h
  exact ⟨h.1, h.2⟩

theorem of_markless (h : s.all isMarkless = true) : Sealed s := by
  constructor
  · rw [outerMarks_of_markless h]
    rfl
  · rw [outerMarks_of_markless h]
    rfl

/-- A call of a function whose argument has no marks. -/
theorem call (hfront : a.any isQuote = false) (hs : s.all isMarkless = true)
    (hback : b.any isQuote = false)
    (hmarks : a.filterMap Kind.ofPunctuation? ++ b.filterMap Kind.ofPunctuation? =
      [.openParen, .closeParen]) : Sealed (a ++ (s ++ b)) := by
  have hall : outerMarks (a ++ (s ++ b)) = [.openParen, .closeParen] := by
    rw [outerMarks_append (Source.settled_literal hfront),
      outerMarks_append (settled_of_markless hs), outerMarks_of_markless hs,
      outerMarks_of_unquoted hfront, outerMarks_of_unquoted hback, List.nil_append, hmarks]
  constructor
  · rw [hall]
    rfl
  · rw [hall]
    rfl

end Text.Sealed

/-! ## Forms that end where they should -/

/-- What lowering writes if it is sealed and has no blank at its end. -/
structure IsSealedForm (f : String × String) : Prop where
  isSealed : Sealed f.2.toList
  finish : ∀ c ∈ f.2.toList.getLast?, isBlank c = false

theorem Unpadded.finish_append {s : List Char} (h : Unpadded s) (hne : s ≠ []) (front : List Char) :
    ∀ c ∈ (front ++ s).getLast?, isBlank c = false := by
  rw [List.getLast?_append_of_ne_nil front hne]
  exact h.finish

namespace IsSealedForm

theorem of_value {name : String} {value : List Char} (h : Sealed value) (hpad : Unpadded value) :
    IsSealedForm (name, String.ofList value) := by
  constructor
  · simpa using h
  · simpa using hpad.finish

theorem of_magnitude (name : String) (m : Magnitude) : IsSealedForm (name, m.plainText) :=
  ⟨.of_markless (markless_of_isOrdinary m.isOrdinary_plainText),
    (unpadded_of_isOrdinary m.isOrdinary_plainText).finish⟩

end IsSealedForm

theorem Circle.markless_corner (sides index : Nat) :
    (corner sides index).all isMarkless = true := by
  have hx := markless_of_isOrdinary (isOrdinary_percentage (hundredths (sin (angle sides index))))
  have hy := markless_of_isOrdinary (isOrdinary_percentage (hundredths (-cos (angle sides index))))
  have hspace : isMarkless ' ' = true := by decide
  simp only [corner, List.all_append, List.all_cons, hx, hy, hspace, Bool.and_self]

theorem Text.markless_intercalate {parts : List (List Char)}
    (h : ∀ p ∈ parts, p.all isMarkless = true) :
    ((", ".toList).intercalate parts).all isMarkless = true := by
  have hcomma : (", ".toList).all isMarkless = true := by decide
  induction parts with
  | nil => rfl
  | cons p parts ih =>
      obtain ⟨hp, hparts⟩ := List.forall_mem_cons.1 h
      cases parts with
      | nil => simpa using hp
      | cons q parts =>
          rw [List.intercalate_cons_cons, List.all_append, List.all_append, hp, hcomma, ih hparts]
          rfl

namespace Declaration

variable {value : List Char}

theorem isSealedForm_polygon (sides : Nat) : IsSealedForm ("clip-path", Circle.polygon sides) := by
  have hcorners : ∀ p ∈ (List.range sides).map (Circle.corner sides), p.all isMarkless = true := by
    intro p hp
    obtain ⟨index, -, rfl⟩ := List.mem_map.1 hp
    exact Circle.markless_corner sides index
  have htext : (Circle.polygon sides).toList = "polygon(".toList ++
      ((", ".toList).intercalate ((List.range sides).map (Circle.corner sides)) ++ [')']) := by
    unfold Circle.polygon
    rw [String.toList_ofList, List.append_assoc]
  have hend : Unpadded [')'] := by decide
  constructor
  · rw [htext]
    exact .call (by decide) (markless_intercalate hcorners) (by decide) (by decide)
  · rw [htext, ← List.append_assoc]
    exact hend.finish_append (by simp) _

theorem isSealedForm_shadow (hvalue : Sealed value) (hsettled : Settled value) (size : Magnitude) :
    IsSealedForm ("box-shadow", "0 " ++ String.ofList value ++ " " ++ size.plainText ++
      "rem rgba(0,0,0,.15)") := by
  have htext : ("0 " ++ String.ofList value ++ " " ++ size.plainText ++ "rem rgba(0,0,0,.15)").toList =
      "0 ".toList ++ (value ++ (' ' :: size.plainText.toList ++ "rem rgba(0,0,0,.15)".toList)) := by
    simp
  have hsize : (' ' :: size.plainText.toList).all isMarkless = true := by
    have hspace : isMarkless ' ' = true := by decide
    rw [List.all_cons, hspace, markless_of_isOrdinary (Magnitude.isOrdinary_plainText _)]
    rfl
  have hblur : Sealed (' ' :: size.plainText.toList ++ "rem rgba(0,0,0,.15)".toList) :=
    .append (settled_of_markless hsize) (.of_markless hsize) (.of_unquoted (by decide) (by decide))
  have hend : Unpadded "rem rgba(0,0,0,.15)".toList := by decide
  constructor
  · rw [htext]
    exact .append (Source.settled_literal (by decide)) (.of_markless (by decide))
      (.append hsettled hvalue hblur)
  · rw [htext, ← List.append_assoc, ← List.append_assoc]
    exact hend.finish_append (by decide) _

theorem isSealedForm_grid (hvalue : Sealed value) (hsettled : Settled value) (hpad : Unpadded value)
    (hne : value ≠ []) :
    IsSealedForm ("background-size", String.ofList value ++ " " ++ String.ofList value) := by
  have htwice : Sealed (value ++ (" ".toList ++ value)) :=
    .append hsettled hvalue
      (.append (Source.settled_literal (by decide)) (.of_markless (by decide)) hvalue)
  have hfinish := hpad.finish_append hne (value ++ " ".toList)
  exact ⟨by simpa using htwice, by simpa using hfinish⟩

theorem isSealedForm_around {name before after : String}
    (hbefore : before.toList.any isQuote = false) (hafter : after.toList.any isQuote = false)
    (hmarks : before.toList.filterMap Kind.ofPunctuation? ++
      after.toList.filterMap Kind.ofPunctuation? = [.openParen, .closeParen])
    (hne : after.toList ≠ []) (hpad : Unpadded after.toList) (size : Magnitude) :
    IsSealedForm (name, before ++ size.plainText ++ after) := by
  have hsize := markless_of_isOrdinary size.isOrdinary_plainText
  have hcall : Sealed (before.toList ++ (size.plainText.toList ++ after.toList)) :=
    .call hbefore hsize hafter hmarks
  constructor
  · simpa using hcall
  · rw [String.toList_append]
    exact hpad.finish_append hne _

theorem isSealedForm_fixed {property : Property} {f : String × String}
    (h : (property, f) ∈ fixedForms) : IsSealedForm f := by
  have hall : (fixedForms.all fun e => !e.2.2.toList.any isQuote &&
      (((e.2.2.toList.filterMap Kind.ofPunctuation?).count .closeParen ==
          (e.2.2.toList.filterMap Kind.ofPunctuation?).count .openParen) &&
        Kind.depthAfter? 0 (e.2.2.toList.filterMap Kind.ofPunctuation?) == some 0) &&
      decide (Unpadded e.2.2.toList)) = true := by
    decide +kernel
  have htext := List.all_eq_true.1 hall _ h
  simp only [Bool.and_eq_true, Bool.not_eq_true', beq_iff_eq, decide_eq_true_eq] at htext
  exact ⟨.of_unquoted htext.1.1 htext.1.2, htext.2.finish⟩

/-- The two forms of a glow; the first ends with the color. -/
theorem sealed_glow (hvalue : Sealed value) :
    Sealed ("0 0 20px " ++ String.ofList value).toList := by
  have htext : ("0 0 20px " ++ String.ofList value).toList = "0 0 20px ".toList ++ value := by simp
  rw [htext]
  exact .append (Source.settled_literal (by decide)) (.of_markless (by decide)) hvalue

/-- Every form of a sealed value is sealed and has no blank at its end, but for the radius of a
rounded box and a glow without a color. -/
theorem isSealedForm_of_writes {property : Property} {f : String × String}
    (hvalue : Sealed value) (hsettled : Settled value) (hpad : Unpadded value)
    (h : Writes value property f)
    (hshape : property = .shape → ∀ radius, Shape.read? value ≠ some (.roundedRect radius))
    (hglow : property = .glowColor → value ≠ []) : IsSealedForm f := by
  cases h with
  | fixed hf => exact isSealedForm_fixed hf
  | passed => exact .of_value hvalue hpad
  | radius hread => exact absurd hread (hshape rfl _)
  | polygon sides => exact isSealedForm_polygon sides
  | shadow => exact isSealedForm_shadow hvalue hsettled _
  | glow =>
      have hfinish := hpad.finish_append (hglow rfl) "0 0 20px ".toList
      exact ⟨sealed_glow hvalue, by simpa using hfinish⟩
  | grid hne => exact isSealedForm_grid hvalue hsettled hpad hne
  | intensity size => exact .of_magnitude _ size
  | fog size =>
      exact isSealedForm_around (by decide) (by decide) (by decide) (by decide) (by decide) size
  | bloom size =>
      exact isSealedForm_around (by decide) (by decide) (by decide) (by decide) (by decide) size

end Declaration

/-! ## Arguments taken out of their parentheses -/

theorem Orderly.of_ordinary_append {ks : List Kind} {s t : List Char} (ht : isOrdinary t = true)
    (h : Orderly ks (t ++ s)) : Orderly ks s := by
  induction t with
  | nil => exact h
  | cons c t ih =>
      obtain ⟨hc, ht⟩ : isDelimiter c = false ∧ isOrdinary t = true := by
        simpa [isOrdinary] using ht
      simp only [isDelimiter, Bool.or_eq_false_iff] at hc
      obtain ⟨rest, hrest, hks⟩ := h.tail hc.1.2
      rw [Lexeme.ofPunctuation_of_ordinary hc.1.1] at hks
      subst hks
      exact ih ht hrest

/-- The marks of a call are those of its argument and the outer parentheses. -/
theorem Value.outerMarks_argument {ks : List Kind} {name value argument : List Char}
    (hname : isOrdinary name = true) (hvalue : Orderly ks value)
    (h : argument? name value = some argument) :
    ks = .openParen :: (outerMarks argument ++ [.closeParen]) := by
  obtain ⟨afterName, hafter, h⟩ := Option.bind_eq_some_iff.1 h
  obtain ⟨opened, hopened, h⟩ := Option.bind_eq_some_iff.1 h
  obtain ⟨inside, hinside, h⟩ := Option.bind_eq_some_iff.1 h
  obtain rfl := Option.some.inj h
  rw [dropLeading?_eq_some_iff.1 hafter] at hvalue
  have hrest := Orderly.trimStart (hvalue.of_ordinary_append hname)
  rw [dropLeading?_eq_some_iff.1 hopened] at hrest
  obtain ⟨rest, hopen, rfl⟩ := hrest.tail (by decide)
  rw [dropTrailing?_eq_some_iff.1 hinside] at hopen
  obtain ⟨inner, hinner, rfl⟩ := hopen.dropLast (by decide)
  have htrim : outerMarks (trim inside) = inner := Orderly.outerMarks_eq hinner.trimStart.trimEnd
  rw [htrim]
  rfl

/-- In a balanced call as many parentheses close as open in the argument. -/
theorem Shape.count_radius {value : List Char} {radius : String} (hvalue : IsOrderly value)
    (hcount : (outerMarks value).count .closeParen = (outerMarks value).count .openParen)
    (h : read? value = some (.roundedRect radius)) :
    (outerMarks radius.toList).count .closeParen = (outerMarks radius.toList).count .openParen := by
  obtain ⟨ks, hks⟩ := hvalue
  have hmarks := Value.outerMarks_argument (by decide) hks (argument_of_roundedRect h)
  rw [hks.outerMarks_eq, hmarks] at hcount
  simpa using hcount

namespace Declaration

/-- The radius of a rounded box, taken out of its parentheses, is balanced and shows no semicolon. -/
def RadiusBalanced (d : Declaration) : Prop :=
  ∀ radius, Property.ofName? d.property = some .shape →
    Shape.read? d.trimmed = some (.roundedRect radius) →
      Kind.Balanced (outerMarks radius.toList) ∧ Kind.Enclosed .semicolon (outerMarks radius.toList)

theorem AsRead.trimmed_eq {d : Declaration} (h : d.AsRead) : d.trimmed = d.value.toList := by
  have htrim := Lexeme.trim_of_unpadded h.value_unpadded (a := []) (b := []) (by simp) (by simp)
  rwa [List.append_nil, List.nil_append] at htrim

theorem closed_iff {d : Declaration} (hvalue : IsOrderly d.value.toList)
    (hcomment : Absent startsComment d.value.toList) :
    d.Closed ↔ Kind.depthAfter? 0 (outerMarks d.value.toList) = some 0 ∧ Unpadded d.value.toList := by
  obtain ⟨ks, hks⟩ := hvalue
  have hdepth := hks.depthAfter?_kinds hcomment
  rw [hks.outerMarks_eq]
  constructor
  · intro h
    exact ⟨hdepth.symm.trans h.depth, h.unpadded⟩
  · intro h
    exact ⟨hdepth.trans h.1, h.2⟩

theorem IsPlain.reclassified_eq {d : Declaration} (h : d.IsPlain) : d.reclassified = d := by
  have hrich : Property.isRich d.property = d.rich := h.property_plain.trans h.not_rich.symm
  simp only [reclassified, classified, hrich]

end Declaration

/-! ## Reading a rule back -/

namespace Sheet

variable {r : Rule}

theorem reclassified_of_isPlain (h : r.IsPlain) : r.reclassified = r := by
  have hds : r.declarations.map Declaration.reclassified = r.declarations := by
    conv_rhs => rw [← List.map_id r.declarations]
    exact List.map_congr_left fun d hd => (h.isPlain d hd).reclassified_eq
  simp only [Rule.reclassified, hds]

/-- A plain rule is read back exactly if each of its values ends at its semicolon. -/
theorem read_back_iff (withBanner : Bool) (hr : r.IsPlain)
    (hinert : Source.Inert (print [r] false).toList) :
    (∃ q, read (print [r] withBanner).toList = .ok ⟨⟨[q], []⟩, []⟩ ∧ q.placeless = r.placeless) ↔
      ∀ d ∈ r.declarations, d.Closed := by
  have hprintable : ∀ q ∈ [r], q.Printable :=
    printable_of_written (List.forall_mem_singleton.2 hr.toWritten) hinert.noComment
  constructor
  · rintro ⟨q, hread, hq⟩
    refine forall_mem_of_before fun ds d more hds hclosed => ?_
    have hrules : [r] = [] ++ ⟨r.selector, ds ++ d :: more, r.span⟩ :: [] := by
      rw [← hds]
      rfl
    have hd : d.Written := hr.declarations d (by simp [hds])
    obtain ⟨qs, es, p, place, others, rest, value, hqs, hes, hreading, hvalue⟩ :=
      exists_read_print hrules hprintable hinert (by simp) hclosed hd.value_start hread rfl
    obtain rfl : qs = [] := by simpa using hqs
    obtain ⟨rfl, -⟩ := List.cons.inj hreading
    -- the declaration stands where it was printed, so that it has its own value again
    have hplace := congrArg Rule.declarations hq
    simp only [Rule.placeless, hds, List.map_append, List.map_cons] at hplace
    have hlength : (es.map Declaration.placeless).length = (ds.map Declaration.placeless).length := by
      rw [hes]
      simp
    obtain ⟨hsame, -⟩ := List.cons.inj (List.append_inj hplace hlength).2
    have hsame : value = d.value := by
      simpa only [Declaration.placeless, Declaration.classified] using congrArg Declaration.value hsame
    exact hvalue [] [] (by rw [hsame])
  · intro hclosed
    obtain ⟨qs, hqs, hread⟩ := read_print withBanner hprintable
      (List.forall_mem_singleton.2 hclosed) hinert
    rw [List.map_singleton, reclassified_of_isPlain hr] at hqs
    obtain ⟨q, rest, rfl, hq, hrest⟩ := List.map_eq_cons_iff.1 hqs
    obtain rfl : rest = [] := by simpa using hrest
    exact ⟨q, hread, hq⟩

end Sheet

/-! ## Lowered declarations -/

namespace Declaration

section Lowered

variable {d : Declaration} {selector : String} {ds : List Declaration} (hd : d.AsRead)
  (hbalanced : Kind.Balanced (outerMarks d.value.toList))
  (hlower : d.lower selector = .ok (.plain ds))
include hd hbalanced hlower

/-- Either a radius is all that is written, or every value that is written is sealed and has no
blank at its end, but for a glow without a color. -/
theorem lower_cases :
    (∃ radius, Property.ofName? d.property = some .shape ∧
      Shape.read? d.trimmed = some (.roundedRect radius) ∧
      ds = [classified "border-radius" radius d.span]) ∨
    ((∀ radius, Property.ofName? d.property = some .shape →
        Shape.read? d.trimmed ≠ some (.roundedRect radius)) ∧
      (∀ e ∈ ds, Sealed e.value.toList) ∧
      ((∀ e ∈ ds, ∀ c ∈ e.value.toList.getLast?, isBlank c = false) ↔
        (Property.ofName? d.property = some .glowColor → d.value ≠ ""))) := by
  obtain ⟨property, hname, ⟨forms, hforms, hds⟩ | ⟨-, kind, -, hds⟩⟩ := lower_eq_ok_iff.1 hlower
  case inr => cases hds
  obtain rfl := Lowered.plain.inj hds
  have htrimmed := hd.trimmed_eq
  have hempty : d.value = "" ↔ d.trimmed = [] := by rw [htrimmed, String.toList_eq_nil_iff]
  simp only [hname, Option.some.injEq, List.forall_mem_map, classified]
  by_cases hshape : property = .shape ∧ ∃ radius, Shape.read? d.trimmed = some (.roundedRect radius)
  · obtain ⟨rfl, radius, hradius⟩ := hshape
    obtain rfl : [lowerShape (.roundedRect radius)] = forms := by
      simpa [plainForm?, hradius] using hforms
    exact .inl ⟨radius, rfl, hradius, rfl⟩
  · refine .inr ⟨fun radius hp hread => hshape ⟨hp, radius, hread⟩, ?_⟩
    obtain ⟨ks, hks⟩ := hd.value
    have hsealed := hd.sealed hbalanced
    rw [← htrimmed] at hsealed hks
    by_cases hglow : property = .glowColor ∧ d.trimmed = []
    · obtain ⟨rfl, hnil⟩ := hglow
      rw [hnil] at hforms hsealed
      obtain rfl := Option.some.inj hforms
      have hbright : Sealed "brightness(1.2)".toList := .of_unquoted (by decide) (by decide)
      refine ⟨List.forall_mem_cons.2 ⟨sealed_glow hsealed, List.forall_mem_singleton.2 hbright⟩, ?_⟩
      refine iff_of_false (fun h => ?_) fun h => h rfl (hempty.2 hnil)
      have hspace := (List.forall_mem_cons.1 h).1 ' ' (by decide)
      revert hspace
      decide
    · have hall : ∀ f ∈ forms, IsSealedForm f := fun f hf =>
        isSealedForm_of_writes hsealed hks.settled (unpadded_trim _) (writes_of_plainForm? hforms f hf)
          (fun hp radius hread => hshape ⟨hp, radius, hread⟩) fun hp hnil => hglow ⟨hp, hnil⟩
      refine ⟨fun f hf => (hall f hf).isSealed, iff_of_true (fun f hf => (hall f hf).finish) ?_⟩
      exact fun hp hnil => hglow ⟨hp, hempty.1 hnil⟩

/-- Lowered values are balanced and show no semicolon unless a radius fails to be so. -/
theorem lower_balanced_iff :
    (∀ e ∈ ds, Kind.Balanced (outerMarks e.value.toList) ∧
      Kind.Enclosed .semicolon (outerMarks e.value.toList)) ↔ d.RadiusBalanced := by
  have hplain := isPlain_of_lower hd hlower
  rcases lower_cases hd hbalanced hlower with ⟨radius, hname, hread, rfl⟩ | ⟨hshape, hsealed, -⟩
  · rw [List.forall_mem_singleton]
    simp only [classified]
    constructor
    · intro h other _ hother
      obtain rfl : radius = other := by simpa [hread] using hother
      exact h
    · intro h
      exact h radius hname hread
  · refine iff_of_true (fun e he => ?_) fun radius hname hread => absurd hread (hshape radius hname)
    exact (IsOrderly.sealed_iff (hplain e he).value).1 (hsealed e he)

/-- Lowered values end at their semicolons unless a radius fails to be balanced or a glow has no
color. -/
theorem lower_closed_iff (hcomment : ∀ e ∈ ds, Absent startsComment e.value.toList) :
    (∀ e ∈ ds, e.Closed) ↔
      d.RadiusBalanced ∧ (Property.ofName? d.property = some .glowColor → d.value ≠ "") := by
  have hplain := isPlain_of_lower hd hlower
  have hclosed (e : Declaration) (he : e ∈ ds) := closed_iff (hplain e he).value (hcomment e he)
  rw [← lower_balanced_iff hd hbalanced hlower]
  have hsealed (e : Declaration) (he : e ∈ ds) := IsOrderly.sealed_iff (hplain e he).value
  rcases lower_cases hd hbalanced hlower with ⟨radius, hname, hread, rfl⟩ | ⟨-, hall, hfinish⟩
  · have hother : Property.ofName? d.property = some .glowColor → d.value ≠ "" := by
      rw [hname]
      intro h
      cases h
    have hargument := Shape.argument_of_roundedRect hread
    have hcount := Shape.count_radius (IsOrderly.trim hd.value)
      (by rw [← trimmed, hd.trimmed_eq]; exact hbalanced.2) hread
    have hradius := hclosed _ (List.mem_singleton_self _)
    have hmarks := hsealed _ (List.mem_singleton_self _)
    rw [and_iff_left hother, List.forall_mem_singleton, List.forall_mem_singleton, hradius, ← hmarks]
    simp only [classified]
    constructor
    · intro h
      exact ⟨hcount, h.1⟩
    · intro h
      exact ⟨h.depth, Value.unpadded_argument hargument⟩
  · rw [← hfinish]
    constructor
    · intro h
      refine ⟨fun e he => (hsealed e he).1 (hall e he), fun e he => ?_⟩
      exact (h e he).unpadded.finish
    · intro h e he
      exact (hclosed e he).2 ⟨(hall e he).depth, (hplain e he).value_start, h.2 e he⟩

end Lowered

end Declaration

/--
What a declaration that was read is lowered to, if the parentheses of its value are balanced.  The
lowered values are balanced again and show no semicolon exactly if this holds of the radius that is
taken out of a call of `rounded-rect`.  Written into a rule, and if nothing there is taken for a
comment, an import or a theme, they are read back, none of them rich, exactly if moreover a glow has
a color.
-/
theorem Sheet.lowered_read_back_iff {s : List Char} {reading : Reading} {r : Rule} {d : Declaration}
    {ds : List Declaration} (hread : read s = .ok reading) (hr : r ∈ reading.sheet.rules)
    (hd : d ∈ r.declarations) (hbalanced : Kind.Balanced (outerMarks d.value.toList))
    (hlower : d.lower r.selector = .ok (.plain ds)) :
    ((∀ e ∈ ds, Kind.Balanced (outerMarks e.value.toList) ∧
        Kind.Enclosed .semicolon (outerMarks e.value.toList)) ↔ d.RadiusBalanced) ∧
    ∀ withBanner, Source.Inert (print [⟨r.selector, ds, r.span⟩] false).toList →
      ((∃ q, read (print [⟨r.selector, ds, r.span⟩] withBanner).toList = .ok ⟨⟨[q], []⟩, []⟩ ∧
          q.placeless = Rule.placeless ⟨r.selector, ds, r.span⟩ ∧
          ∀ e ∈ q.declarations, e.rich = false) ↔
        d.RadiusBalanced ∧ (Property.ofName? d.property = some .glowColor → d.value ≠ "")) := by
  have hrule := read_asRead hread r hr
  have hasRead := hrule.asRead d hd
  refine ⟨Declaration.lower_balanced_iff hasRead hbalanced hlower, fun withBanner hinert => ?_⟩
  have hplain := Declaration.isPlain_of_lower hasRead hlower
  have hkept : Rule.IsPlain ⟨r.selector, ds, r.span⟩ :=
    ⟨⟨hrule.selector, hrule.selector_unpadded, hrule.selector_ne,
      fun e he => (hplain e he).toWritten⟩, hplain⟩
  have hcomment : ∀ e ∈ ds, Absent startsComment e.value.toList := by
    have hprintable := printable_of_written (List.forall_mem_singleton.2 hkept.toWritten)
      hinert.noComment _ (List.mem_singleton_self _)
    intro e he
    rw [Source.absent_startsComment_iff]
    exact fun l hl => ((hprintable.declarations e he).value.inner l hl).2.2
  rw [← Declaration.lower_closed_iff hasRead hbalanced hlower hcomment,
    ← read_back_iff withBanner hkept hinert]
  constructor
  · intro ⟨q, hq, hsame, _⟩
    exact ⟨q, hq, hsame⟩
  · intro ⟨q, hq, hsame⟩
    refine ⟨q, hq, hsame, fun e he => ?_⟩
    have hmem : e.placeless ∈ q.placeless.declarations := List.mem_map_of_mem he
    rw [hsame] at hmem
    obtain ⟨f, hf, hplace⟩ := List.mem_map.1 hmem
    calc e.rich = e.placeless.rich := rfl
      _ = f.placeless.rich := by rw [hplace]
      _ = false := (hplain f hf).not_rich

/-- A semicolon inside a call stays in its parentheses when the call is an argument. -/
theorem Sheet.lowered_read_back_iff_nested :
    let d : Declaration := ⟨"shape", "rounded-rect(f(x;y) \")\")", true, ⟨1, 4⟩⟩
    let e : Declaration := ⟨"border-radius", "f(x;y) \")\"", false, ⟨1, 4⟩⟩
    read ".a\x7bshape:rounded-rect(f(x;y) \")\")\x7d".toList =
        .ok ⟨⟨[⟨".a", [d], ⟨1, 1⟩⟩], []⟩, []⟩ ∧
      Kind.Balanced (outerMarks d.value.toList) ∧ d.lower ".a" = .ok (.plain [e]) ∧
      Source.Inert (print [⟨".a", [e], ⟨1, 1⟩⟩] false).toList ∧
      ∃ q, read (print [⟨".a", [e], ⟨1, 1⟩⟩] true).toList = .ok ⟨⟨[q], []⟩, []⟩ ∧
        q.placeless = Rule.placeless ⟨".a", [e], ⟨1, 1⟩⟩ ∧ ∀ e ∈ q.declarations, e.rich = false := by
  intro d e
  have hread : read ".a\x7bshape:rounded-rect(f(x;y) \")\")\x7d".toList =
      .ok ⟨⟨[⟨".a", [d], ⟨1, 1⟩⟩], []⟩, []⟩ := by
    decide +kernel
  have hbalanced : Kind.Balanced (outerMarks d.value.toList) := by decide +kernel
  have hlower : d.lower ".a" = .ok (.plain [e]) := by decide +kernel
  have hinert : Source.Inert (print [⟨".a", [e], ⟨1, 1⟩⟩] false).toList :=
    ⟨by decide +kernel, by decide +kernel, by decide +kernel⟩
  have hvalues : ∀ e' ∈ [e], Kind.Balanced (outerMarks e'.value.toList) ∧
      Kind.Enclosed .semicolon (outerMarks e'.value.toList) := by
    decide +kernel
  have hglow : Property.ofName? d.property = some .glowColor → d.value ≠ "" := by decide
  obtain ⟨hradius, hback⟩ := lowered_read_back_iff hread (List.mem_singleton_self _)
    (List.mem_singleton_self _) hbalanced hlower
  exact ⟨hread, hbalanced, hlower, hinert, (hback true hinert).2 ⟨hradius.1 hvalues, hglow⟩⟩

/-- The parentheses around an argument need not belong together, and keep semicolons from ending the
value until they are taken away.  A glow without a color is read back without its last space. -/
theorem Sheet.lower_bares_argument :
    let shape (value : String) : Declaration := ⟨"shape", value, true, ⟨1, 4⟩⟩
    let radius (value : String) : Declaration := ⟨"border-radius", value, false, ⟨1, 4⟩⟩
    read ".a\x7bshape:rounded-rect(1;b:c)\x7d".toList =
        .ok ⟨⟨[⟨".a", [shape "rounded-rect(1;b:c)"], ⟨1, 1⟩⟩], []⟩, []⟩ ∧
      (shape "rounded-rect(1;b:c)").lower ".a" = .ok (.plain [radius "1;b:c"]) ∧
      Kind.Balanced (outerMarks "rounded-rect(1;b:c)".toList) ∧
      ¬ Kind.Enclosed .semicolon (outerMarks "1;b:c".toList) ∧
    read ".a\x7bshape:rounded-rect(a) (b)\x7d".toList =
        .ok ⟨⟨[⟨".a", [shape "rounded-rect(a) (b)"], ⟨1, 1⟩⟩], []⟩, []⟩ ∧
      (shape "rounded-rect(a) (b)").lower ".a" = .ok (.plain [radius "a) (b"]) ∧
      Kind.Balanced (outerMarks "rounded-rect(a) (b)".toList) ∧
      ¬ Kind.Balanced (outerMarks "a) (b".toList) ∧
    read ".a\x7bglow-color:\x7d".toList =
        .ok ⟨⟨[⟨".a", [⟨"glow-color", "", true, ⟨1, 4⟩⟩], ⟨1, 1⟩⟩], []⟩, []⟩ ∧
      Declaration.lower ".a" ⟨"glow-color", "", true, ⟨1, 4⟩⟩ =
        .ok (.plain [⟨"box-shadow", "0 0 20px ", false, ⟨1, 4⟩⟩,
          ⟨"filter", "brightness(1.2)", false, ⟨1, 4⟩⟩]) ∧
      read ".a \x7b\n  box-shadow: 0 0 20px ;\n  filter: brightness(1.2);\n\x7d\n\n".toList =
        .ok ⟨⟨[⟨".a", [⟨"box-shadow", "0 0 20px", false, ⟨2, 3⟩⟩,
          ⟨"filter", "brightness(1.2)", false, ⟨3, 3⟩⟩], ⟨1, 1⟩⟩], []⟩, []⟩ := by
  decide +kernel

end RichStyle
