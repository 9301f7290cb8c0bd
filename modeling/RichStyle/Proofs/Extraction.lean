import Mathlib.Data.List.Induction
import RichStyle.Proofs.Merging
import RichStyle.Proofs.Outcomes
import RichStyle.Proofs.Recompile
import RichStyle.Proofs.Spacing

/-!
# Where assets come from

The bindings of a sheet are put into its assets one after the other, so of all declarations that bind
a property of a selector the last one is found there.  Nothing else is, and a declaration that binds
a property leaves nothing in the sheet.
-/

namespace RichStyle

open Text

/-! ## Putting bindings in -/

theorem Table.isEmpty_insert {α : Type} (t : Table α) (key : String) (value : α) :
    (t.insert key value).isEmpty = false := by
  have hget : (t.insert key value).get? key = some value := by simp [get?_insert]
  rw [isEmpty, List.isEmpty_eq_false_iff]
  intro hnil
  simp [get?, hnil, lookup] at hget

namespace Assets

/-- The value that a property of a selector has in a section. -/
def value? (a : Assets) (kind : AssetKind) (selector property : String) : Option String :=
  ((a.ofKind kind).get? selector).bind fun entry => entry.get? property

theorem get?_insert (a : Assets) (kind other : AssetKind) (selector property value key : String) :
    ((a.insert kind selector property value).ofKind other).get? key =
      if kind = other ∧ selector = key then
        some ((((a.ofKind other).get? key).getD .empty).insert property value)
      else (a.ofKind other).get? key := by
  have hsection : (a.insert kind selector property value).ofKind other =
      if kind = other then bind (a.ofKind other) selector property value else a.ofKind other := by
    cases kind <;> cases other <;> rfl
  rw [hsection]
  by_cases hkind : kind = other
  · by_cases hselector : selector = key
    · simp [hkind, hselector, bind, Table.get?_insert]
    · simp [hkind, hselector, bind, Table.get?_insert]
  · simp [hkind]

theorem value?_insert (a : Assets) (kind other : AssetKind)
    (selector property value key name : String) :
    (a.insert kind selector property value).value? other key name =
      if kind = other ∧ selector = key ∧ property = name then some value
      else a.value? other key name := by
  rw [value?, get?_insert]
  by_cases hplace : kind = other ∧ selector = key
  · rw [if_pos hplace, Option.bind_some, Table.get?_insert]
    by_cases hproperty : property = name
    · simp [hplace, hproperty]
    · simp only [hproperty, if_false, and_false, value?]
      cases (a.ofKind other).get? key <;> rfl
  · rw [if_neg hplace, if_neg fun h => hplace ⟨h.1, h.2.1⟩]
    rfl

/-- No selector stands in a section without a property. -/
def NoneHollow (a : Assets) : Prop :=
  ∀ kind selector entry, (a.ofKind kind).get? selector = some entry → entry.isEmpty = false

theorem noneHollow_empty : NoneHollow .empty := by
  intro kind selector entry h
  cases kind <;> cases h

theorem NoneHollow.insert {a : Assets} (h : a.NoneHollow) (kind : AssetKind)
    (selector property value : String) : (a.insert kind selector property value).NoneHollow := by
  intro other key entry hentry
  rw [get?_insert] at hentry
  split at hentry
  · obtain rfl := Option.some.inj hentry
    exact Table.isEmpty_insert _ _ _
  · exact h other key entry hentry

end Assets

/-- The value that a binding gives a property of a selector in a section. -/
def Binding.value? (b : Binding) (kind : AssetKind) (selector property : String) : Option String :=
  if b.kind = kind ∧ b.selector = selector ∧ b.property = property then some b.value else none

namespace Sheet

theorem collect_concat (bs : List Binding) (b : Binding) :
    collect (bs ++ [b]) = (collect bs).insert b.kind b.selector b.property b.value := by
  simp [collect]

/-- Of all bindings of a property the last one stays. -/
theorem value?_collect (bs : List Binding) (kind : AssetKind) (selector property : String) :
    (collect bs).value? kind selector property =
      (bs.filterMap fun b => b.value? kind selector property).getLast? := by
  induction bs using List.reverseRecOn with
  | nil => cases kind <;> rfl
  | append_singleton bs b ih =>
      rw [collect_concat, Assets.value?_insert, List.filterMap_append, ih]
      by_cases hb : b.kind = kind ∧ b.selector = selector ∧ b.property = property
      · simp [Binding.value?, hb]
      · simp [Binding.value?, hb]

theorem noneHollow_collect (bs : List Binding) : (collect bs).NoneHollow := by
  induction bs using List.reverseRecOn with
  | nil => exact Assets.noneHollow_empty
  | append_singleton bs b ih =>
      rw [collect_concat]
      exact ih.insert _ _ _ _

end Sheet

/-! ## Declarations that bind -/

namespace Declaration

variable {d : Declaration} {selector : String} {kind : AssetKind}

/-- Whether a declaration is lowered to an asset of a kind. -/
def bindsIn (selector : String) (kind : AssetKind) (d : Declaration) : Bool :=
  match d.lower selector with
  | .ok (.asset other _ _) => other == kind
  | _ => false

theorem lower_asset {property value : String}
    (h : d.lower selector = .ok (.asset kind property value)) :
    property = Property.normalName d.property ∧ value = assetValue kind d.trimmed := by
  obtain ⟨p, -, ⟨forms, -, hl⟩ | ⟨-, other, -, hl⟩⟩ := lower_eq_ok_iff.1 h
  · cases hl
  · obtain ⟨rfl, rfl, rfl⟩ := Lowered.asset.inj hl
    exact ⟨rfl, rfl⟩

theorem bindsIn_iff : d.bindsIn selector kind = true ↔ d.lower selector =
    .ok (.asset kind (Property.normalName d.property) (assetValue kind d.trimmed)) := by
  unfold bindsIn
  constructor
  · intro h
    split at h
    · next other property value hl =>
        obtain rfl := eq_of_beq h
        obtain ⟨rfl, rfl⟩ := lower_asset hl
        exact hl
    · contradiction
  · intro h
    simp [h]

theorem isRich_of_bindsIn (h : d.bindsIn selector kind = true) : Property.isRich d.property = true := by
  obtain ⟨property, hname, -⟩ := lower_eq_ok_iff.1 (bindsIn_iff.1 h)
  rw [Property.isRich_eq_isSome, hname]
  rfl

/-- Whether a declaration of a rule binds a property of a selector in a section. -/
def bindsAt (own : String) (kind : AssetKind) (selector property : String) (d : Declaration) : Bool :=
  own == selector && d.bindsIn own kind && Property.normalName d.property == property

end Declaration

/-- What a lowered declaration of a rule binds. -/
def Lowered.binding? (own : String) : Lowered → Option Binding
  | plain _ => none
  | asset kind property value => some ⟨kind, own, property, value⟩

/-- A declaration with the flag of its property gives a value just where it is said to. -/
theorem Declaration.value?_of_lowerIfRich {d : Declaration} {own : String} {l : Lowered}
    (hrich : d.rich = Property.isRich d.property) (h : d.lowerIfRich own = .ok l)
    (kind : AssetKind) (selector property : String) :
    ((l.binding? own).bind fun b => b.value? kind selector property) =
      if d.bindsAt own kind selector property then some (assetValue kind d.trimmed) else none := by
  rcases lowerIfRich_eq_ok_iff.1 h with ⟨-, hl⟩ | ⟨hplain, rfl⟩
  · cases l with
    | plain ds => simp [Lowered.binding?, bindsAt, bindsIn, hl]
    | asset other name value =>
        obtain ⟨rfl, rfl⟩ := lower_asset hl
        by_cases hkind : other = kind
        · subst hkind
          simp [Lowered.binding?, Binding.value?, bindsAt, bindsIn, hl]
        · simp [Lowered.binding?, Binding.value?, bindsAt, bindsIn, hl, hkind]
  · -- the name of a declaration that is not rich stands for no property at all
    have hbinds : d.bindsIn own kind = false := by
      rw [Bool.eq_false_iff]
      intro hbinds
      rw [hrich, isRich_of_bindsIn hbinds] at hplain
      contradiction
    simp [Lowered.binding?, bindsAt, hbinds]

namespace Sheet

/-- The declarations that bind a property of a selector in a section, over all rules and in their
order. -/
def binders (rules : List Rule) (kind : AssetKind) (selector property : String) :
    List Declaration :=
  rules.flatMap fun r => r.declarations.filter (Declaration.bindsAt r.selector kind selector property)

theorem ruleBindings_eq (l : LoweredRule) :
    ruleBindings l = l.2.filterMap (Lowered.binding? l.1.selector) := rfl

section Values

variable (kind : AssetKind) (selector property : String)

theorem values_of_lowered {own : String} {ds : List Declaration} {ls : List Lowered}
    (hrich : ∀ d ∈ ds, d.rich = Property.isRich d.property)
    (h : List.Forall₂ (fun d l => d.lowerIfRich own = .ok l) ds ls) :
    (ls.filterMap (Lowered.binding? own)).filterMap (fun b => b.value? kind selector property) =
      (ds.filter (Declaration.bindsAt own kind selector property)).map fun d =>
        Declaration.assetValue kind d.trimmed := by
  rw [List.filterMap_filterMap]
  induction h with
  | nil => rfl
  | @cons d l ds ls hl _ ih =>
      obtain ⟨hd, hds⟩ := List.forall_mem_cons.1 hrich
      have hstep := Declaration.value?_of_lowerIfRich hd hl kind selector property
      by_cases hat : d.bindsAt own kind selector property = true
      · rw [if_pos hat] at hstep
        simp only [List.filterMap_cons, hstep, List.filter_cons_of_pos hat, List.map_cons, ih hds]
      · rw [if_neg hat] at hstep
        simp only [List.filterMap_cons, hstep, List.filter_cons_of_neg hat, ih hds]

theorem values_of_rules {rules : List Rule} {ls : List LoweredRule}
    (hrich : ∀ r ∈ rules, ∀ d ∈ r.declarations, d.rich = Property.isRich d.property)
    (h : List.Forall₂ (fun r l => lowerRule r = .ok l) rules ls) :
    (ls.flatMap ruleBindings).filterMap (fun b => b.value? kind selector property) =
      (binders rules kind selector property).map fun d =>
        Declaration.assetValue kind d.trimmed := by
  unfold binders
  induction h with
  | nil => rfl
  | @cons r l rules ls hl _ ih =>
      obtain ⟨hr, hrules⟩ := List.forall_mem_cons.1 hrich
      obtain ⟨rfl, hds⟩ := lowerRule_eq_ok_iff.1 hl
      rw [List.flatMap_cons, List.filterMap_append, ih hrules, ruleBindings_eq,
        values_of_lowered kind selector property hr hds, List.flatMap_cons, List.map_append]

/-- The last declaration that binds a property of a selector gives its value. -/
theorem value?_of_lower {rules : List Rule} {plain : Plain}
    (hrich : ∀ r ∈ rules, ∀ d ∈ r.declarations, d.rich = Property.isRich d.property)
    (h : lower rules = .ok plain) :
    plain.assets.value? kind selector property =
      (binders rules kind selector property).getLast?.map fun d =>
        Declaration.assetValue kind d.trimmed := by
  obtain ⟨ls, hls, rfl⟩ := lower_eq_ok_iff.1 h
  rw [value?_collect, values_of_rules kind selector property hrich hls, List.getLast?_map]

end Values

theorem noneHollow_of_lower {rules : List Rule} {plain : Plain} (h : lower rules = .ok plain) :
    plain.assets.NoneHollow := by
  obtain ⟨ls, -, rfl⟩ := lower_eq_ok_iff.1 h
  exact noneHollow_collect _

theorem mem_binders {rules : List Rule} {kind : AssetKind} {selector property : String}
    {d : Declaration} (h : d ∈ binders rules kind selector property) :
    ∃ r ∈ rules, d ∈ r.declarations ∧ d.bindsIn r.selector kind = true := by
  obtain ⟨r, hr, hd⟩ := List.mem_flatMap.1 h
  obtain ⟨hd, hat⟩ := List.mem_filter.1 hd
  simp only [Declaration.bindsAt, Bool.and_eq_true] at hat
  exact ⟨r, hr, hd, hat.1.2⟩

end Sheet

/-! ## Values -/

/-- A text without the two equal quotes around it, or the text itself if there are none. -/
inductive Text.Unquotes : List Char → List Char → Prop
  | quoted {q : Char} (hq : isQuote q = true) (s : List Char) : Unquotes (q :: (s ++ [q])) s
  | bare {s : List Char} (h : ∀ q t, isQuote q = true → s ≠ q :: (t ++ [q])) : Unquotes s s

theorem Text.unquotes_iff {s t : List Char} : Unquotes s t ↔ t = (unwrapQuotes? s).getD s := by
  cases hinside : unwrapQuotes? s with
  | some inside =>
      obtain ⟨q, hq, rfl⟩ := unwrapQuotes?_eq_some_iff.1 hinside
      constructor
      · intro h
        generalize hs : q :: (inside ++ [q]) = s at h
        cases h with
        | quoted _ t => simp_all
        | bare h => exact absurd hs.symm (h q inside hq)
      · intro h
        rw [h]
        exact .quoted hq inside
  | none =>
      have hbare : ∀ q t, isQuote q = true → s ≠ q :: (t ++ [q]) := by
        intro q t hq hs
        rw [unwrapQuotes?_eq_some_iff.2 ⟨q, hq, hs⟩] at hinside
        contradiction
      constructor
      · intro h
        cases h with
        | quoted hq t => exact absurd rfl (hbare _ t hq)
        | bare _ => rfl
      · intro h
        rw [h]
        exact .bare hbare

namespace Declaration

variable {d : Declaration} {selector : String}

/-- The value of a declaration as an asset: without blanks around it, and for a sound without
quotes. -/
def HasAssetValue (d : Declaration) (kind : AssetKind) (value : String) : Prop :=
  match kind with
  | .audio => Unquotes (trim d.value.toList) value.toList
  | .texture | .material => value.toList = trim d.value.toList

theorem hasAssetValue_iff {kind : AssetKind} {value : String} :
    d.HasAssetValue kind value ↔ value = assetValue kind d.trimmed := by
  have htext {s : List Char} : value.toList = s ↔ value = String.ofList s := by
    rw [← String.toList_inj, String.toList_ofList]
  cases kind with
  | audio =>
      rw [HasAssetValue, unquotes_iff, htext, assetValue, Value.unquoted, trimmed, Lexeme.trim_trim]
  | texture | material => exact htext

/-- A sound without a file is an error. -/
theorem unquoted_ne_nil (hbinds : d.bindsIn selector .audio = true)
    (hfree : ∀ f ∈ d.finding?, f.severity ≠ .error) : Value.unquoted d.trimmed ≠ [] := by
  intro hnil
  obtain ⟨property, hname, ⟨forms, -, hl⟩ | ⟨-, kind, hkind, hl⟩⟩ :=
    lower_eq_ok_iff.1 (bindsIn_iff.1 hbinds)
  · cases hl
  · obtain ⟨rfl, -⟩ := Lowered.asset.inj hl
    cases property with
    | hoverSfx | clickSfx | cursorMoveSfx | ambientSound =>
        have hfinding : d.finding? = some (.soundMissing d.property) := by
          simp [finding?, hname, Property.isSound, hnil]
        exact hfree _ hfinding rfl
    | _ => simp [assetKind?] at hkind

/-- A rich declaration either binds a property and leaves nothing in the sheet, or leaves plain
declarations and binds nothing. -/
theorem bindsIn_or_plain {l : Lowered} (hrich : d.rich = true) (h : d.lower selector = .ok l) :
    (∃ kind, d.bindsIn selector kind = true ∧ Leaves selector d []) ∨
      ((∀ kind, d.bindsIn selector kind = false) ∧ ∃ ds, l = .plain ds ∧ Leaves selector d ds) := by
  have hleaves := Leaves.lowered hrich h
  cases l with
  | plain ds => exact .inr ⟨fun kind => by simp [bindsIn, h], ds, rfl, hleaves⟩
  | asset kind property value => exact .inl ⟨kind, by simp [bindsIn, h], hleaves⟩

end Declaration

/--
The assets of a compiled source hold, for every property of a selector, the value of the last
declaration that is lowered to an asset under this name, and nothing else.  No selector is there
without a property and no sound without a file.  The sheet is printed with every rich declaration
replaced: those that are assets leave nothing in it, and the others bind nothing.
-/
theorem compile_extracts {banner : Bool} {source : String} {output : Output}
    (h : compile banner source = .ok output) :
    ∃ reading plain, Sheet.read source.toList = .ok reading ∧
      (∀ kind selector property value,
        output.assets.value? kind selector property = some value ↔
          ∃ d, (Sheet.binders reading.sheet.rules kind selector property).getLast? = some d ∧
            d.HasAssetValue kind value) ∧
      (∀ kind selector entry,
        (output.assets.ofKind kind).get? selector = some entry → entry.isEmpty = false) ∧
      (∀ selector property value,
        output.assets.value? .audio selector property = some value → value ≠ "") ∧
      output.css = Sheet.print plain banner ∧
      List.Forall₂ Rule.Replaced reading.sheet.rules plain ∧
      ∀ r ∈ reading.sheet.rules, ∀ d ∈ r.declarations, d.rich = true →
        (∃ kind, d.bindsIn r.selector kind = true ∧ d.Leaves r.selector []) ∨
        ((∀ kind, d.bindsIn r.selector kind = false) ∧
          ∃ ds, d.lower r.selector = .ok (.plain ds) ∧ d.Leaves r.selector ds) := by
  obtain ⟨reading, plain, hread, hlower, hcss, hassets, -⟩ := exists_of_compile h
  have hrich : ∀ r ∈ reading.sheet.rules, ∀ d ∈ r.declarations,
      d.rich = Property.isRich d.property := fun r hr d hd =>
    ((Sheet.read_asRead hread r hr).asRead d hd).rich_eq
  have herror : ∀ e ∈ Sheet.check reading.sheet.rules, e.isError = false := fun e he =>
    errorFree_of_compile hread h e (List.mem_append_right _ he)
  have hvalue : ∀ kind selector property value,
      output.assets.value? kind selector property = some value ↔
        ∃ d, (Sheet.binders reading.sheet.rules kind selector property).getLast? = some d ∧
          d.HasAssetValue kind value := by
    intro kind selector property value
    rw [hassets, Sheet.value?_of_lower kind selector property hrich hlower, Option.map_eq_some_iff]
    refine exists_congr fun d => and_congr_right fun _ => ?_
    rw [Declaration.hasAssetValue_iff, eq_comm]
  refine ⟨reading, plain.rules, hread, hvalue, hassets ▸ Sheet.noneHollow_of_lower hlower, ?_, hcss,
    Sheet.replaced_of_lower hlower, ?_⟩
  · intro selector property value hbound
    obtain ⟨d, hlast, hd⟩ := (hvalue _ _ _ _).1 hbound
    obtain ⟨r, hr, hmem, hbinds⟩ := Sheet.mem_binders (List.mem_of_getLast? hlast)
    have hflag : d.rich = true := (hrich r hr d hmem).trans (Declaration.isRich_of_bindsIn hbinds)
    have hfile := Declaration.unquoted_ne_nil hbinds
      (Sheet.severity_of_errorFree herror hr hmem hflag)
    rw [Declaration.hasAssetValue_iff.1 hd]
    simpa [Declaration.assetValue] using hfile
  · intro r hr d hd hflag
    obtain ⟨l, hl⟩ := Declaration.exists_lower r.selector
      (Sheet.severity_of_errorFree herror hr hd hflag)
    rcases Declaration.bindsIn_or_plain hflag hl with hasset | ⟨hnone, ds, rfl, hleaves⟩
    · exact .inl hasset
    · exact .inr ⟨hnone, ds, hl, hleaves⟩

/-- A selector with two rules, whose second one gives other values to the same properties. -/
theorem compile_extracts_repeated :
    let source := ".a\x7bHover-SFX:\"x.mp3\";material:glass\x7d.b\x7btexture:t.png\x7d" ++
      ".a\x7bhover-sfx: 'y.mp3' ;material:wood\x7d"
    let one (selector property value : String) : Section :=
      Table.empty.insert selector (Table.empty.insert property value)
    let output : Output := ⟨".a \x7b\n  backdrop-filter: blur(12px);\n  background: " ++
      "rgba(255,255,255,.1);\n\x7d\n\n.b \x7b\n\x7d\n\n.a \x7b\n\x7d\n\n",
      ⟨one ".a" "hover-sfx" "y.mp3", one ".b" "texture" "t.png", one ".a" "material" "wood"⟩, [],
      ⟨3, 0, 0⟩⟩
    compile false source = .ok output ∧
    ∃ reading plain, Sheet.read source.toList = .ok reading ∧
      (∃ d, (Sheet.binders reading.sheet.rules .audio ".a" "hover-sfx").getLast? = some d ∧
        d.HasAssetValue .audio "y.mp3") ∧
      (∃ d, (Sheet.binders reading.sheet.rules .material ".a" "material").getLast? = some d ∧
        d.HasAssetValue .material "wood") ∧
      "y.mp3" ≠ "" ∧ output.css = Sheet.print plain false ∧
      List.Forall₂ Rule.Replaced reading.sheet.rules plain := by
  intro source one output
  have h : compile false source = .ok output := by decide +kernel
  obtain ⟨reading, plain, hread, hvalue, -, hsound, hcss, hreplaced, -⟩ := compile_extracts h
  have hbound : output.assets.value? .audio ".a" "hover-sfx" = some "y.mp3" := by decide +kernel
  have hwood : output.assets.value? .material ".a" "material" = some "wood" := by decide +kernel
  exact ⟨h, reading, plain, hread, (hvalue _ _ _ _).1 hbound, (hvalue _ _ _ _).1 hwood,
    hsound _ _ _ hbound, hcss, hreplaced⟩

end RichStyle
