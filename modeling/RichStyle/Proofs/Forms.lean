import RichStyle.Proofs.Lowering
import RichStyle.Proofs.Written

/-!
# What lowering writes

The plain forms of rich declarations are made of fixed texts, of numbers and of parts of the value
that was read.  They are written the way a reading writes, and none of them is rich.
-/

namespace RichStyle

open Text
open Source (Absent startsBlank)

/-! ## Orderly texts -/

/-- Texts that are orderly, whatever their marks. -/
def IsOrderly (s : List Char) : Prop :=
  ∃ marks, Orderly marks s

namespace IsOrderly

variable {s t : List Char}

theorem append (hs : IsOrderly s) (ht : IsOrderly t)
    (hjoint : s.getLast? = some ' ' → startsBlank t = false) : IsOrderly (s ++ t) := by
  obtain ⟨marks, hs⟩ := hs
  obtain ⟨more, ht⟩ := ht
  exact ⟨marks ++ more, hs.append ht hjoint⟩

theorem spaced (hs : IsOrderly s) (hlast : s.getLast? ≠ some ' ') (ht : IsOrderly t)
    (hstart : startsBlank t = false) : IsOrderly (s ++ ' ' :: t) := by
  obtain ⟨more, ht⟩ := ht
  exact hs.append ⟨more, .space hstart ht⟩ fun h => absurd h hlast

theorem trim (hs : IsOrderly s) : IsOrderly (Text.trim s) := by
  obtain ⟨marks, hs⟩ := hs
  exact ⟨marks, hs.trimStart.trimEnd⟩

theorem of_append (ht : t.all (fun c => !isQuote c) = true) (h : IsOrderly (t ++ s)) :
    IsOrderly s := by
  induction t with
  | nil => exact h
  | cons c t ih =>
      obtain ⟨hc, ht⟩ : isQuote c = false ∧ t.all (fun c => !isQuote c) = true := by
        simpa using ht
      obtain ⟨marks, h⟩ := h
      obtain ⟨rest, hrest, -⟩ := h.tail hc
      exact ih ht ⟨rest, hrest⟩

end IsOrderly

theorem Text.startsBlank_append {s t : List Char} (hs : startsBlank s = false)
    (ht : s = [] → startsBlank t = false) : startsBlank (s ++ t) = false := by
  cases s with
  | nil => exact ht rfl
  | cons c s => exact hs

theorem Unpadded.getLast_ne {s : List Char} (h : Unpadded s) : s.getLast? ≠ some ' ' := by
  intro hlast
  have hspace := h.finish ' ' hlast
  contradiction

theorem Text.unpadded_trim (s : List Char) : Unpadded (trim s) := by
  refine unpadded_trimEnd ?_
  unfold trimStart
  induction s with
  | nil => rfl
  | cons c s ih =>
      cases hc : isBlank c with
      | true => rwa [List.dropWhile_cons_of_pos hc]
      | false => rwa [List.dropWhile_cons_of_neg (by simp [hc])]

/-- Texts without strings and braces whose blanks are single spaces. -/
def isUnquoted : List Char → Bool
  | [] => true
  | c :: s =>
      !isQuote c && c != '{' && c != '}' && (!isBlank c || (c == ' ' && !startsBlank s)) &&
        isUnquoted s

theorem IsOrderly.of_isUnquoted {s : List Char} (h : isUnquoted s = true) : IsOrderly s := by
  induction s with
  | nil => exact ⟨[], .nil⟩
  | cons c s ih =>
      simp only [isUnquoted, Bool.and_eq_true, Bool.not_eq_true', bne_iff_ne, Bool.or_eq_true,
        beq_iff_eq] at h
      obtain ⟨⟨⟨⟨hquote, hopen⟩, hclose⟩, hblank⟩, hs⟩ := h
      obtain ⟨marks, hs⟩ := ih hs
      cases hk : Kind.ofPunctuation? c with
      | some kind =>
          refine ⟨kind :: marks, .mark hk ?_ ?_ hs⟩
          · rintro rfl
            exact hopen (Lexeme.eq_of_kind hk rfl)
          · rintro rfl
            exact hclose (Lexeme.eq_of_kind hk rfl)
      | none =>
          rcases hblank with hblank | ⟨rfl, hstart⟩
          · refine ⟨marks, .plain ?_ hs⟩
            simp [isDelimiter, Lexeme.not_punctuation_of_kind hk, hquote, hblank]
          · exact ⟨marks, .space hstart hs⟩

/-! ## Numbers -/

theorem not_delimiter_of_isDigit {c : Char} (h : c.isDigit = true) : isDelimiter c = false := by
  have hrange : 48 ≤ c.toNat ∧ c.toNat ≤ 57 := by
    simpa [Char.isDigit, UInt32.le_iff_toNat_le] using h
  have hne : ∀ d : Char, d.toNat < 48 ∨ 57 < d.toNat → (c == d) = false := by
    intro d hd
    rw [beq_eq_false_iff_ne]
    rintro rfl
    omega
  have hblank : isBlank c = false := by
    simp only [isBlank, Bool.or_eq_false_iff, Bool.and_eq_false_iff, decide_eq_false_iff_not,
      beq_eq_false_iff_ne]
    omega
  simp [isDelimiter, isPunctuation, isQuote, hblank, hne]

/-- Texts without delimiters. -/
def isOrdinary (s : List Char) : Bool :=
  s.all fun c => !isDelimiter c

section Ordinary

variable {s t : List Char}

theorem isOrdinary_append (hs : isOrdinary s = true) (ht : isOrdinary t = true) :
    isOrdinary (s ++ t) = true := by
  rw [isOrdinary, List.all_append]
  exact Bool.and_eq_true_iff.2 ⟨hs, ht⟩

theorem isOrdinary_of_subset (h : ∀ c, c ∈ t → c ∈ s) (hs : isOrdinary s = true) :
    isOrdinary t = true :=
  List.all_eq_true.2 fun c hc => List.all_eq_true.1 hs c (h c hc)

theorem isOrdinary_of_digits (h : ∀ c ∈ s, c.isDigit = true) : isOrdinary s = true := by
  refine List.all_eq_true.2 fun c hc => ?_
  rw [not_delimiter_of_isDigit (h c hc)]
  rfl

theorem orderly_of_isOrdinary (h : isOrdinary s = true) : Orderly [] s := by
  have hplain : ∀ c ∈ s, isDelimiter c = false := by
    simpa [isOrdinary] using h
  have hs := Orderly.plain_append hplain .nil
  rwa [List.append_nil] at hs

theorem IsOrderly.of_isOrdinary (h : isOrdinary s = true) : IsOrderly s :=
  ⟨[], orderly_of_isOrdinary h⟩

theorem unpadded_of_isOrdinary (h : isOrdinary s = true) : Unpadded s := by
  have hblank : ∀ c ∈ s, isBlank c = false := by
    intro c hc
    have hordinary := List.all_eq_true.1 h c hc
    exact not_blank_of_ordinary (by simpa using hordinary)
  constructor
  · cases s with
    | nil => rfl
    | cons c s => exact hblank c (by simp)
  · intro c hc
    exact hblank c (List.mem_of_getLast? hc)

end Ordinary

namespace Number

theorem isOrdinary_digits (n : Nat) : isOrdinary (digits n) = true :=
  isOrdinary_of_digits fun _ hc => Nat.isDigit_of_mem_toDigits (by omega) (by omega) hc

theorem isOrdinary_paddedDigits (width n : Nat) : isOrdinary (paddedDigits width n) = true := by
  refine isOrdinary_append (isOrdinary_of_digits fun c hc => ?_) (isOrdinary_digits n)
  rw [(List.mem_replicate.1 hc).2]
  rfl

end Number

theorem Decimal.isOrdinary_positional (d : Decimal) : isOrdinary d.positional = true := by
  have hall := Number.isOrdinary_paddedDigits ((-d.exponent).toNat + 1)
    (d.digits * Nat.pow 10 d.exponent.toNat)
  unfold positional
  simp only
  split
  · exact isOrdinary_of_subset (fun c => List.mem_of_mem_take) hall
  · refine isOrdinary_append (isOrdinary_of_subset (fun c => List.mem_of_mem_take) hall) ?_
    rw [← List.singleton_append]
    exact isOrdinary_append (by decide) (isOrdinary_of_subset (fun c => List.mem_of_mem_drop) hall)

theorem Magnitude.isOrdinary_plainText (m : Magnitude) : isOrdinary m.plainText.toList = true := by
  cases m with
  | finite units => simpa [plainText] using (Decimal.shortest .larger units).isOrdinary_positional
  | infinite => decide

namespace Circle

theorem isOrdinary_percentage (h : Nat) : isOrdinary (percentage h) = true := by
  have hplaces := isOrdinary_append (t := ['%']) (Number.isOrdinary_paddedDigits 2 (h % 100))
    (by decide)
  have hpoint := isOrdinary_append (s := ['.']) (by decide) hplaces
  simpa [percentage] using isOrdinary_append (Number.isOrdinary_digits (h / 100)) hpoint

theorem percentage_ne_nil (h : Nat) : percentage h ≠ [] := by
  simp [percentage]

theorem isOrderly_corner (sides index : Nat) :
    IsOrderly (corner sides index) ∧ startsBlank (corner sides index) = false := by
  have hx := isOrdinary_percentage (hundredths (sin (angle sides index)))
  have hy := isOrdinary_percentage (hundredths (-cos (angle sides index)))
  constructor
  · exact .spaced (.of_isOrdinary hx) (unpadded_of_isOrdinary hx).getLast_ne (.of_isOrdinary hy)
      (unpadded_of_isOrdinary hy).start
  · exact startsBlank_append (unpadded_of_isOrdinary hx).start fun h =>
      absurd h (percentage_ne_nil _)

/-- Orderly texts with commas between them. -/
theorem isOrderly_intercalate {parts : List (List Char)}
    (h : ∀ p ∈ parts, IsOrderly p ∧ startsBlank p = false) :
    IsOrderly ((", ".toList).intercalate parts) ∧
      startsBlank ((", ".toList).intercalate parts) = false := by
  induction parts with
  | nil => exact ⟨.of_isUnquoted rfl, rfl⟩
  | cons p parts ih =>
      obtain ⟨hp, hstart⟩ := h p (by simp)
      cases parts with
      | nil => simpa using h p (by simp)
      | cons q parts =>
          obtain ⟨hrest, hblank⟩ := ih fun r hr => h r (by simp [hr])
          have hcomma : IsOrderly (", ".toList ++ (", ".toList).intercalate (q :: parts)) :=
            .append (.of_isUnquoted (by decide)) hrest fun _ => hblank
          rw [List.intercalate_cons_cons, List.append_assoc]
          exact ⟨hp.append hcomma fun _ => rfl, startsBlank_append hstart fun _ => rfl⟩

theorem isOrderly_polygon (sides : Nat) : IsOrderly (polygon sides).toList := by
  have hcorners : ∀ p ∈ (List.range sides).map (corner sides),
      IsOrderly p ∧ startsBlank p = false := by
    intro p hp
    obtain ⟨index, -, rfl⟩ := List.mem_map.1 hp
    exact isOrderly_corner sides index
  obtain ⟨hlist, hstart⟩ := isOrderly_intercalate hcorners
  unfold polygon
  rw [String.toList_ofList]
  refine .append (.append (.of_isUnquoted (by decide)) hlist fun _ => hstart)
    (.of_isUnquoted (by decide)) fun _ => ?_
  decide

theorem startsBlank_polygon (sides : Nat) : startsBlank (polygon sides).toList = false := by
  unfold polygon
  rw [String.toList_ofList, List.append_assoc]
  exact startsBlank_append (by decide) fun h => by contradiction

end Circle

/-! ## Arguments of calls -/

theorem Value.isOrderly_argument {name value argument : List Char}
    (hname : name.all (fun c => !isQuote c) = true) (hvalue : IsOrderly value)
    (h : argument? name value = some argument) : IsOrderly argument := by
  obtain ⟨afterName, hafter, h⟩ := Option.bind_eq_some_iff.1 h
  obtain ⟨opened, hopened, h⟩ := Option.bind_eq_some_iff.1 h
  obtain ⟨inside, hinside, h⟩ := Option.bind_eq_some_iff.1 h
  obtain rfl := Option.some.inj h
  rw [dropLeading?_eq_some_iff.1 hafter] at hvalue
  obtain ⟨marks, hrest⟩ := IsOrderly.of_append hname hvalue
  have hstart : IsOrderly (trimStart afterName) := ⟨marks, hrest.trimStart⟩
  rw [dropLeading?_eq_some_iff.1 hopened] at hstart
  obtain ⟨marks, hopen⟩ := IsOrderly.of_append (by decide) hstart
  rw [dropTrailing?_eq_some_iff.1 hinside] at hopen
  obtain ⟨rest, hrest, -⟩ := hopen.dropLast (by decide)
  exact IsOrderly.trim ⟨rest, hrest⟩

theorem Value.unpadded_argument {name value argument : List Char}
    (h : argument? name value = some argument) : Unpadded argument := by
  obtain ⟨afterName, -, h⟩ := Option.bind_eq_some_iff.1 h
  obtain ⟨opened, -, h⟩ := Option.bind_eq_some_iff.1 h
  obtain ⟨inside, -, h⟩ := Option.bind_eq_some_iff.1 h
  obtain rfl := Option.some.inj h
  exact unpadded_trim inside

theorem Shape.argument_of_roundedRect {value : List Char} {radius : String}
    (h : read? value = some (.roundedRect radius)) :
    Value.argument? "rounded-rect".toList value = some radius.toList := by
  unfold read? at h
  split at h
  · cases h
  · split at h
    · next argument hargument =>
        split at h
        · cases h
        · obtain rfl : String.ofList argument = radius := by simpa using h
          rw [hargument, String.toList_ofList]
    · split at h
      · split at h <;> cases h
      · cases h

/-! ## Plain forms -/

/-- The properties that lowering writes. -/
def plainNames : List String :=
  ["border-radius", "clip-path", "box-shadow", "transform-style", "filter", "background",
   "backdrop-filter", "image-rendering", "background-size", "transition-timing-function",
   "--light-mode", "--light-intensity", "--particle", "--film-grain"]

/-- What lowering writes for a property. -/
structure IsPlainForm (f : String × String) : Prop where
  name : f.1 ∈ plainNames
  value : IsOrderly f.2.toList
  start : startsBlank f.2.toList = false

namespace IsPlainForm

theorem of_value {name : String} {value : List Char} (hname : name ∈ plainNames)
    (hvalue : IsOrderly value) (hstart : startsBlank value = false) :
    IsPlainForm (name, String.ofList value) :=
  ⟨hname, by simpa using hvalue, by simpa using hstart⟩

theorem of_magnitude {name : String} (hname : name ∈ plainNames) (m : Magnitude) :
    IsPlainForm (name, m.plainText) :=
  ⟨hname, .of_isOrdinary m.isOrdinary_plainText, (unpadded_of_isOrdinary m.isOrdinary_plainText).start⟩

end IsPlainForm

namespace Declaration

variable {value : List Char}

theorem writes_name {property : Property} {f : String × String} (h : Writes value property f) :
    f.1 ∈ plainNames := by
  cases h with
  | fixed hf =>
      have hall : (fixedForms.all fun e => plainNames.contains e.2.1) = true := by decide
      exact List.contains_iff_mem.1 (List.all_eq_true.1 hall _ hf)
  | passed hname =>
      have hall : (passedOn.all fun e => plainNames.contains e.2) = true := by decide
      exact List.contains_iff_mem.1 (List.all_eq_true.1 hall _ hname)
  | _ => simp [plainNames]

theorem isPlainForm_shadow (hvalue : IsOrderly value) (hpad : Unpadded value) (hne : value ≠ [])
    (size : Magnitude) :
    IsPlainForm ("box-shadow", "0 " ++ String.ofList value ++ " " ++ size.plainText ++
      "rem rgba(0,0,0,.15)") := by
  have hsize := size.isOrdinary_plainText
  have hblur : IsOrderly (size.plainText.toList ++ "rem rgba(0,0,0,.15)".toList) :=
    .append (.of_isOrdinary hsize) (.of_isUnquoted (by decide)) fun _ => by decide
  have hshadow := hvalue.spaced hpad.getLast_ne hblur
    (startsBlank_append (unpadded_of_isOrdinary hsize).start fun _ => by decide)
  have hlayer := IsOrderly.spaced (s := ['0']) (.of_isUnquoted (by decide)) (by decide) hshadow
    (startsBlank_append hpad.start fun hnil => absurd hnil hne)
  refine ⟨by simp [plainNames], ?_, ?_⟩
  · simpa using hlayer
  · simp only [String.toList_append, List.append_assoc]
    rfl

theorem isPlainForm_around {name before after : String} (hname : name ∈ plainNames)
    (hbefore : isUnquoted before.toList = true) (hstart : startsBlank before.toList = false)
    (hafter : isUnquoted after.toList = true) (hend : startsBlank after.toList = false)
    (size : Magnitude) : IsPlainForm (name, before ++ size.plainText ++ after) := by
  have hsize := size.isOrdinary_plainText
  have hopen := (IsOrderly.of_isUnquoted hbefore).append (.of_isOrdinary hsize)
    fun _ => (unpadded_of_isOrdinary hsize).start
  have hall := hopen.append (.of_isUnquoted hafter) fun _ => hend
  refine ⟨hname, ?_, ?_⟩
  · simpa using hall
  · simp only [String.toList_append]
    exact startsBlank_append
      (startsBlank_append hstart fun _ => (unpadded_of_isOrdinary hsize).start) fun _ => hend

/-- Every form of an orderly value is orderly. -/
theorem isPlainForm_of_writes {property : Property} {f : String × String} (hvalue : IsOrderly value)
    (hpad : Unpadded value) (h : Writes value property f) : IsPlainForm f := by
  have hname := writes_name h
  cases h with
  | fixed hf =>
      have hall : (fixedForms.all fun e =>
          isUnquoted e.2.2.toList && !startsBlank e.2.2.toList) = true := by decide +kernel
      have htext := List.all_eq_true.1 hall _ hf
      simp only [Bool.and_eq_true, Bool.not_eq_true'] at htext
      exact ⟨hname, .of_isUnquoted htext.1, htext.2⟩
  | passed => exact .of_value hname hvalue hpad.start
  | radius hread =>
      have hradius := Shape.argument_of_roundedRect hread
      exact ⟨hname, Value.isOrderly_argument (by decide) hvalue hradius,
        (Value.unpadded_argument hradius).start⟩
  | polygon sides => exact ⟨hname, Circle.isOrderly_polygon sides, Circle.startsBlank_polygon sides⟩
  | shadow hread =>
      have hne : value ≠ [] := by
        rintro rfl
        contradiction
      exact isPlainForm_shadow hvalue hpad hne _
  | glow =>
      have hglow := IsOrderly.append (s := "0 0 20px ".toList) (.of_isUnquoted (by decide)) hvalue
        fun _ => hpad.start
      refine ⟨hname, by simpa using hglow, ?_⟩
      simp only [String.toList_append]
      exact startsBlank_append (by decide) fun _ => by contradiction
  | grid hne =>
      have hsize := hvalue.spaced hpad.getLast_ne hvalue hpad.start
      refine ⟨hname, by simpa using hsize, ?_⟩
      simp only [String.toList_append, String.toList_ofList, List.append_assoc]
      exact startsBlank_append hpad.start fun hnil => absurd hnil hne
  | intensity size => exact .of_magnitude hname size
  | fog size => exact isPlainForm_around hname (by decide) (by decide) (by decide) (by decide) size
  | bloom size => exact isPlainForm_around hname (by decide) (by decide) (by decide) (by decide) size

end Declaration

/-! ## Lowered rules -/

theorem mapM_append_eq_ok {ε α β : Type} {f : α → Except ε β} {xs ys : List α} {zs : List β}
    (h : (xs ++ ys).mapM f = .ok zs) :
    ∃ as bs, xs.mapM f = .ok as ∧ ys.mapM f = .ok bs ∧ zs = as ++ bs := by
  rw [List.mapM_append] at h
  obtain ⟨as, has, h⟩ := except_bind_eq_ok.1 h
  obtain ⟨bs, hbs, h⟩ := except_bind_eq_ok.1 h
  exact ⟨as, bs, has, hbs, (Except.ok.inj h).symm⟩

theorem plainNames_spec {name : String} (h : name ∈ plainNames) :
    name ≠ "" ∧ isOrdinary name.toList = true ∧ Property.isRich name = false := by
  have hall : (plainNames.all fun name =>
      name != "" && isOrdinary name.toList && !Property.isRich name) = true := by decide +kernel
  simpa [and_assoc] using List.all_eq_true.1 hall name h

/-- Written declarations that are not rich, whatever their flag or their property is asked. -/
structure Declaration.IsPlain (d : Declaration) : Prop extends d.Written where
  not_rich : d.rich = false
  property_plain : Property.isRich d.property = false

/-- Written rules without rich declarations. -/
structure Rule.IsPlain (r : Rule) : Prop extends r.Written where
  isPlain : ∀ d ∈ r.declarations, d.IsPlain

namespace Declaration

theorem isPlain_of_isPlainForm {f : String × String} (h : IsPlainForm f) (p : Span) :
    (classified f.1 f.2 p).IsPlain := by
  obtain ⟨hne, hordinary, hplain⟩ := plainNames_spec h.name
  have hrich : (classified f.1 f.2 p).rich = false := by
    simpa only [classified] using hplain
  exact ⟨⟨⟨[], orderly_of_isOrdinary hordinary, rfl, rfl⟩, unpadded_of_isOrdinary hordinary, hne,
    h.value, h.start⟩, hrich, hplain⟩

theorem isPlain_of_lower {d : Declaration} {selector : String} {l : Lowered} (hd : d.AsRead)
    (h : d.lower selector = .ok l) : ∀ e ∈ l.declarations, e.IsPlain := by
  have htrim : IsOrderly d.trimmed := IsOrderly.trim hd.value
  obtain ⟨property, -, ⟨forms, hforms, rfl⟩ | ⟨-, kind, -, rfl⟩⟩ := lower_eq_ok_iff.1 h
  · intro e he
    obtain ⟨f, hf, rfl⟩ := List.mem_map.1 he
    have hform := isPlainForm_of_writes htrim (unpadded_trim _) (writes_of_plainForm? hforms f hf)
    exact isPlain_of_isPlainForm hform d.span
  · simp [Lowered.declarations]

theorem isPlain_of_lowerIfRich {d : Declaration} {selector : String} {l : Lowered} (hd : d.AsRead)
    (h : d.lowerIfRich selector = .ok l) : ∀ e ∈ l.declarations, e.IsPlain := by
  rcases lowerIfRich_eq_ok_iff.1 h with ⟨-, hl⟩ | ⟨hrich, rfl⟩
  · exact isPlain_of_lower hd hl
  · exact List.forall_mem_singleton.2 ⟨hd.toWritten, hrich, hd.rich_eq ▸ hrich⟩

end Declaration

namespace Sheet

theorem isPlain_of_lowerRule {r : Rule} {l : LoweredRule} (hr : r.AsRead)
    (h : lowerRule r = .ok l) : (keptRule l).IsPlain := by
  obtain ⟨lowered, hlowered, hl⟩ := except_bind_eq_ok.1 h
  obtain rfl := Except.ok.inj hl
  have hall : ∀ d ∈ lowered.flatMap Lowered.declarations, d.IsPlain := by
    intro e he
    obtain ⟨l, hl, he⟩ := List.mem_flatMap.1 he
    obtain ⟨d, hd, hlower⟩ := exists_of_mem_mapM hlowered hl
    exact Declaration.isPlain_of_lowerIfRich (hr.asRead d hd) hlower e he
  exact ⟨⟨hr.selector, hr.selector_unpadded, hr.selector_ne, fun d hd => (hall d hd).toWritten⟩,
    hall⟩

/-- The rules that lowering leaves are plain. -/
theorem isPlain_of_lower {rules : List Rule} {plain : Plain} (hrules : ∀ r ∈ rules, r.AsRead)
    (h : lower rules = .ok plain) : ∀ r ∈ plain.rules, r.IsPlain := by
  obtain ⟨lowered, hlowered, hplain⟩ := except_bind_eq_ok.1 h
  obtain rfl := Except.ok.inj hplain
  intro r hr
  obtain ⟨l, hl, rfl⟩ := List.mem_map.1 hr
  obtain ⟨q, hq, hlower⟩ := exists_of_mem_mapM hlowered hl
  exact isPlain_of_lowerRule (hrules q hq) hlower

/-! ## Rules without rich declarations -/

/-- A rule whose declarations all stay. -/
def unlowered (r : Rule) : LoweredRule :=
  (r, r.declarations.map fun d => .plain [d])

theorem keptRule_unlowered (r : Rule) : keptRule (unlowered r) = r := by
  simp [keptRule, unlowered, Lowered.declarations, List.flatMap_map]

theorem map_keptRule_unlowered (rules : List Rule) :
    (rules.map unlowered).map keptRule = rules := by
  simp [Function.comp_def, keptRule_unlowered]

theorem ruleBindings_unlowered (r : Rule) : ruleBindings (unlowered r) = [] := by
  simp [ruleBindings, unlowered]

theorem lowerIfRich_of_notRich {ds : List Declaration} (selector : String)
    (h : ∀ d ∈ ds, d.rich = false) :
    ds.mapM (Declaration.lowerIfRich selector) = .ok (ds.map fun d => .plain [d]) := by
  exact mapM_of_ok fun d hd => Declaration.lowerIfRich_eq_ok_iff.2 (.inr ⟨h d hd, rfl⟩)

section NotRich

variable {rules : List Rule} (h : ∀ r ∈ rules, ∀ d ∈ r.declarations, d.rich = false)
include h

theorem check_of_notRich : check rules = [] := by
  refine List.flatMap_eq_nil_iff.2 fun r hr => List.filterMap_eq_nil_iff.2 fun d hd => ?_
  rw [Declaration.diagnostic?, h r hr d hd, if_neg (by simp)]

theorem lowerRule_of_notRich : rules.mapM lowerRule = .ok (rules.map unlowered) := by
  refine mapM_of_ok fun r hr => ?_
  rw [lowerRule, lowerIfRich_of_notRich r.selector (h r hr)]
  rfl

theorem lower_of_notRich : lower rules = .ok ⟨rules, .empty⟩ := by
  have hbindings : (rules.map unlowered).flatMap ruleBindings = [] := by
    simp [List.flatMap_map, ruleBindings_unlowered]
  rw [lower, lowerRule_of_notRich h]
  change Except.ok (Plain.mk ((rules.map unlowered).map keptRule)
    (collect ((rules.map unlowered).flatMap ruleBindings))) = _
  rw [map_keptRule_unlowered, hbindings]
  rfl

end NotRich

/-- Lowering keeps the rules without rich declarations at the start of a sheet, and the declarations
that are not rich at the start of the next rule. -/
theorem exists_of_lower_append {qs rules : List Rule} {ds more : List Declaration}
    {selector : String} {p : Span} {plain : Plain}
    (hqs : ∀ q ∈ qs, ∀ d ∈ q.declarations, d.rich = false) (hds : ∀ d ∈ ds, d.rich = false)
    (h : lower (qs ++ ⟨selector, ds ++ more, p⟩ :: rules) = .ok plain) :
    ∃ kept rest, plain.rules = qs ++ ⟨selector, ds ++ kept, p⟩ :: rest := by
  obtain ⟨lowered, hlowered, hplain⟩ := except_bind_eq_ok.1 h
  obtain rfl := Except.ok.inj hplain
  obtain ⟨as, bs, has, hbs, rfl⟩ := mapM_append_eq_ok hlowered
  rw [lowerRule_of_notRich hqs] at has
  obtain rfl := Except.ok.inj has
  rw [List.mapM_cons] at hbs
  obtain ⟨l, hl, hbs⟩ := except_bind_eq_ok.1 hbs
  obtain ⟨ls, -, hbs⟩ := except_bind_eq_ok.1 hbs
  obtain rfl := Except.ok.inj hbs
  obtain ⟨forms, hforms, hl⟩ := except_bind_eq_ok.1 hl
  obtain rfl := Except.ok.inj hl
  obtain ⟨stay, others, hstay, -, rfl⟩ := mapM_append_eq_ok hforms
  rw [lowerIfRich_of_notRich selector hds] at hstay
  obtain rfl := Except.ok.inj hstay
  refine ⟨others.flatMap Lowered.declarations, ls.map keptRule, ?_⟩
  rw [List.map_append, map_keptRule_unlowered]
  simp [keptRule, List.flatMap_map, Lowered.declarations]

end Sheet

end RichStyle
