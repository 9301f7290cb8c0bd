import RichStyle.Proofs.Forms

/-!
# What becomes of a declaration

Lowering replaces every rich declaration in its place and keeps all others.  What it writes is never
rich, so a lowered sheet has nothing to check and nothing to lower.  A rich declaration that comes to
nothing at all is a pixel grid that is switched off, or a strength about which there is a warning.
-/

namespace RichStyle

theorem Property.name_of_ofName? {name : String} {property : Property}
    (h : ofName? name = some property) : property.name = normalName name := by
  simpa using List.find?_some h

/-! ## Replacing declarations -/

namespace Declaration

variable {d : Declaration} {selector : String}

/-- Whatever the value, lowering writes no rich declaration. -/
theorem notRich_of_lower {l : Lowered} (h : d.lower selector = .ok l) :
    ∀ e ∈ l.declarations, e.rich = false := by
  obtain ⟨property, -, ⟨forms, hforms, rfl⟩ | ⟨-, kind, -, rfl⟩⟩ := lower_eq_ok_iff.1 h
  · intro e he
    obtain ⟨f, hf, rfl⟩ := List.mem_map.1 he
    obtain ⟨-, -, hplain⟩ := plainNames_spec (writes_name (writes_of_plainForm? hforms f hf))
    simpa only [classified] using hplain
  · simp [Lowered.declarations]

/-- What a declaration leaves in a rule: a rich one the declarations it is lowered to, and any other
itself. -/
inductive Leaves (selector : String) : Declaration → List Declaration → Prop
  | itself {d : Declaration} (h : d.rich = false) : Leaves selector d [d]
  | lowered {d : Declaration} {l : Lowered} (h : d.rich = true) (hl : d.lower selector = .ok l) :
      Leaves selector d l.declarations

theorem leaves_of_lowerIfRich {l : Lowered} (h : d.lowerIfRich selector = .ok l) :
    Leaves selector d l.declarations := by
  rcases lowerIfRich_eq_ok_iff.1 h with ⟨hrich, hl⟩ | ⟨hrich, rfl⟩
  · exact .lowered hrich hl
  · exact .itself hrich

theorem Leaves.notRich {ds : List Declaration} (h : Leaves selector d ds) :
    ∀ e ∈ ds, e.rich = false := by
  cases h with
  | itself h => simpa using h
  | lowered _ hl => exact notRich_of_lower hl

theorem Leaves.kept_sublist {ds : List Declaration} {parts : List (List Declaration)}
    (h : List.Forall₂ (Leaves selector) ds parts) :
    (ds.filter fun d => !d.rich).Sublist parts.flatten := by
  induction h with
  | nil => exact List.nil_sublist _
  | @cons d part ds parts hd _ ih =>
      cases hd with
      | itself hrich =>
          rw [List.filter_cons_of_pos (by simp [hrich])]
          exact ih.cons_cons d
      | lowered hrich _ =>
          rw [List.filter_cons_of_neg (by simp [hrich])]
          exact ih.trans (List.sublist_append_right _ _)

end Declaration

/-- The same rule with every declaration replaced, in its place, by what it leaves. -/
structure Rule.Replaced (r s : Rule) : Prop where
  selector : s.selector = r.selector
  span : s.span = r.span
  declarations : ∃ parts, List.Forall₂ (Declaration.Leaves r.selector) r.declarations parts ∧
    s.declarations = parts.flatten

namespace Rule.Replaced

variable {r s : Rule}

theorem kept (h : r.Replaced s) :
    (r.declarations.filter fun d => !d.rich).Sublist s.declarations := by
  obtain ⟨parts, hparts, hds⟩ := h.declarations
  rw [hds]
  exact Declaration.Leaves.kept_sublist hparts

theorem notRich (h : r.Replaced s) : ∀ d ∈ s.declarations, d.rich = false := by
  obtain ⟨parts, hparts, hds⟩ := h.declarations
  intro e he
  rw [hds] at he
  obtain ⟨part, hpart, he⟩ := List.mem_flatten.1 he
  obtain ⟨d, -, hleaves⟩ := exists_of_forall₂ hparts hpart
  exact hleaves.notRich e he

end Rule.Replaced

namespace Sheet

theorem lowerRule_eq_ok_iff {r : Rule} {l : LoweredRule} :
    lowerRule r = .ok l ↔ l.1 = r ∧
      List.Forall₂ (fun d x => d.lowerIfRich r.selector = .ok x) r.declarations l.2 := by
  rw [← mapM_eq_ok_iff, lowerRule, except_bind_eq_ok]
  constructor
  · rintro ⟨ls, hls, hl⟩
    obtain rfl := Except.ok.inj hl
    exact ⟨rfl, hls⟩
  · rintro ⟨rfl, hls⟩
    exact ⟨l.2, hls, rfl⟩

theorem lower_eq_ok_iff {rules : List Rule} {plain : Plain} :
    lower rules = .ok plain ↔ ∃ ls, List.Forall₂ (fun r l => lowerRule r = .ok l) rules ls ∧
      plain = ⟨ls.map keptRule, collect (ls.flatMap ruleBindings)⟩ := by
  simp only [← mapM_eq_ok_iff]
  rw [lower, except_bind_eq_ok]
  simp only [Except.ok.injEq, eq_comm]

theorem replaced_keptRule {r : Rule} {l : LoweredRule} (h : lowerRule r = .ok l) :
    r.Replaced (keptRule l) := by
  obtain ⟨rfl, hls⟩ := lowerRule_eq_ok_iff.1 h
  refine ⟨rfl, rfl, l.2.map Lowered.declarations, ?_, rfl⟩
  rw [List.forall₂_map_right_iff]
  exact hls.imp fun d x hx => Declaration.leaves_of_lowerIfRich hx

/-- Lowering replaces the declarations of every rule and nothing else. -/
theorem replaced_of_lower {rules : List Rule} {plain : Plain} (h : lower rules = .ok plain) :
    List.Forall₂ Rule.Replaced rules plain.rules := by
  obtain ⟨ls, hls, rfl⟩ := lower_eq_ok_iff.1 h
  rw [List.forall₂_map_right_iff]
  exact hls.imp fun r l hl => replaced_keptRule hl

theorem notRich_of_replaced {rules others : List Rule} (h : List.Forall₂ Rule.Replaced rules others) :
    ∀ s ∈ others, ∀ d ∈ s.declarations, d.rich = false := by
  intro s hs
  obtain ⟨r, -, hr⟩ := exists_of_forall₂ h hs
  exact hr.notRich

/--
Lowering keeps the rules and, in their order, the declarations that are not rich; it replaces the
others in their places.  What it gives has no rich declaration, passes the check without a word, and
stays as it is when it is lowered again.
-/
theorem lower_settles {rules : List Rule} {plain : Plain} (h : lower rules = .ok plain) :
    List.Forall₂ Rule.Replaced rules plain.rules ∧
    List.Forall₂ (fun r s => (r.declarations.filter fun d => !d.rich).Sublist s.declarations)
      rules plain.rules ∧
    (∀ s ∈ plain.rules, ∀ d ∈ s.declarations, d.rich = false) ∧
    check plain.rules = [] ∧
    lower plain.rules = .ok ⟨plain.rules, .empty⟩ := by
  have hreplaced := replaced_of_lower h
  have hplain := notRich_of_replaced hreplaced
  exact ⟨hreplaced, hreplaced.imp fun _ _ hr => hr.kept, hplain, check_of_notRich hplain,
    lower_of_notRich hplain⟩

/-- A rule with a shape that is not taken for rich, a glow and a sound. -/
theorem lower_settles_glow :
    let shape : Declaration := ⟨"shape", "circle", false, ⟨1, 4⟩⟩
    let color : Declaration := ⟨"color", "red", false, ⟨3, 1⟩⟩
    let rules : List Rule := [⟨".a", [shape, ⟨" Glow-Color", "red", true, ⟨2, 1⟩⟩, color,
      ⟨"click-sfx", "'a.mp3'", true, ⟨0, 0⟩⟩], ⟨1, 1⟩⟩]
    let lowered : List Rule := [⟨".a", [shape, ⟨"box-shadow", "0 0 20px red", false, ⟨2, 1⟩⟩,
      ⟨"filter", "brightness(1.2)", false, ⟨2, 1⟩⟩, color], ⟨1, 1⟩⟩]
    lower rules = .ok ⟨lowered, Assets.empty.insert .audio ".a" "click-sfx" "a.mp3"⟩ ∧
    List.Forall₂ Rule.Replaced rules lowered ∧
    List.Forall₂ (fun r s => (r.declarations.filter fun d => !d.rich).Sublist s.declarations)
      rules lowered ∧
    (∀ s ∈ lowered, ∀ d ∈ s.declarations, d.rich = false) ∧
    check lowered = [] ∧ lower lowered = .ok ⟨lowered, .empty⟩ := by
  intro shape color rules lowered
  have h : lower rules =
      .ok ⟨lowered, Assets.empty.insert .audio ".a" "click-sfx" "a.mp3"⟩ := by decide +kernel
  exact ⟨h, lower_settles h⟩

end Sheet

/-! ## Declarations that come to nothing -/

namespace Declaration

theorem lowerPixelGrid_eq_nil_iff {value : List Char} :
    lowerPixelGrid value = [] ↔ value = "off".toList ∨ value = "none".toList := by
  unfold lowerPixelGrid
  split
  · next hoff => simpa using hoff
  · next hon =>
      refine iff_of_false ?_ (by simpa using hon)
      split
      · split <;> simp
      · simp

theorem lowerStrength_eq_nil_iff {property before after : String} {value : List Char} :
    lowerStrength property before after value = [] ↔ Strength.read? value = none := by
  unfold lowerStrength
  cases Strength.read? value <;> simp

theorem plainForm?_eq_nil_iff {property : Property} {value : List Char} :
    plainForm? property value = some [] ↔
      (property = .pixelGrid ∧ (value = "off".toList ∨ value = "none".toList)) ∨
      ((property = .fogDensity ∨ property = .bloomStrength) ∧ Strength.read? value = none) := by
  cases property with
  | pixelGrid => simp [plainForm?, lowerPixelGrid_eq_nil_iff]
  | fogDensity | bloomStrength => simp [plainForm?, lowerStrength_eq_nil_iff]
  | material =>
      simp only [plainForm?]
      split
      · simp
      · split <;> simp
  | _ => simp [plainForm?]

/-- A strength that cannot be read is not one from zero to one. -/
theorem finding?_of_unreadable {d : Declaration} {property : Property}
    (hname : Property.ofName? d.property = some property)
    (hproperty : property = .fogDensity ∨ property = .bloomStrength)
    (hread : Strength.read? d.trimmed = none) :
    d.finding? = some (.outsideUnitInterval d.property (String.ofList d.trimmed)) := by
  have hunit : isUnitStrength d.trimmed = false := by simp [isUnitStrength, hread]
  rcases hproperty with rfl | rfl <;>
    simp [finding?, hname, hunit, Property.isSound, Property.isUnitInterval]

end Declaration

theorem Finding.span_reportedFor (f : Finding) (selector property : String) (p : Span) :
    (f.reportedFor selector property p).span = if p.isUnknown then none else some p := by
  unfold reportedFor reported Diagnostic.placed
  split <;> rfl

namespace Sheet

theorem severity_of_errorFree {rules : List Rule} (herror : ∀ e ∈ check rules, e.isError = false)
    {r : Rule} (hr : r ∈ rules) {d : Declaration} (hd : d ∈ r.declarations) (hrich : d.rich = true) :
    ∀ f ∈ d.finding?, f.severity ≠ .error :=
  Declaration.severity_of_errorFree hrich fun e he => herror e (mem_check hr hd he)

/--
In a sheet without errors every rich declaration can be lowered, and none is lost without a word: it
comes to plain declarations or to an asset, or it switches a pixel grid off, or a warning names it.
-/
theorem rich_accounted {rules : List Rule} (herror : ∀ e ∈ check rules, e.isError = false)
    {r : Rule} (hr : r ∈ rules) {d : Declaration} (hd : d ∈ r.declarations) (hrich : d.rich = true) :
    ∃ l, d.lower r.selector = .ok l ∧
      ((∃ e es, l = .plain (e :: es)) ∨
        (∃ kind property value, l = .asset kind property value) ∨
        (Property.normalName d.property = "pixel-grid" ∧
          (d.trimmed = "off".toList ∨ d.trimmed = "none".toList)) ∨
        ∃ w ∈ check rules, w.severity = .warning ∧ w.selector = some r.selector ∧
          w.property = some d.property ∧
          w.span = if d.span.isUnknown then none else some d.span) := by
  obtain ⟨l, hl⟩ := Declaration.exists_lower r.selector (severity_of_errorFree herror hr hd hrich)
  refine ⟨l, hl, ?_⟩
  obtain ⟨property, hname, ⟨forms, hforms, rfl⟩ | ⟨-, kind, -, rfl⟩⟩ :=
    Declaration.lower_eq_ok_iff.1 hl
  · cases forms with
    | cons f fs => exact .inl ⟨_, _, rfl⟩
    | nil =>
        -- lowering passes over a strength that it cannot read, and only the check speaks of it
        rcases Declaration.plainForm?_eq_nil_iff.1 hforms with ⟨rfl, hoff⟩ | ⟨hproperty, hread⟩
        · exact .inr (.inr (.inl ⟨(Property.name_of_ofName? hname).symm, hoff⟩))
        · have hfinding := Declaration.finding?_of_unreadable hname hproperty hread
          have hwarning := mem_check hr hd (Declaration.mem_diagnostic? r.selector hrich hfinding)
          exact .inr (.inr (.inr ⟨_, hwarning, Finding.severity_reportedFor .., rfl, rfl,
            Finding.span_reportedFor ..⟩))
  · exact .inr (.inl ⟨_, _, _, rfl⟩)

/-- A fog whose density is no number. -/
theorem rich_accounted_fog :
    let fog : Declaration := ⟨"Fog-Density", " thick", true, ⟨2, 3⟩⟩
    let rules : List Rule := [⟨".a", [fog], ⟨1, 1⟩⟩]
    (∀ e ∈ check rules, e.isError = false) ∧ fog.lower ".a" = .ok (.plain []) ∧
    ∃ w ∈ check rules, w.severity = .warning ∧ w.selector = some ".a" ∧
      w.property = some "Fog-Density" ∧ w.span = some ⟨2, 3⟩ := by
  intro fog rules
  have herror : ∀ e ∈ check rules, e.isError = false := by decide +kernel
  have hfog : fog.lower ".a" = .ok (.plain []) := by decide +kernel
  obtain ⟨l, hl, hcases⟩ := rich_accounted herror (List.mem_singleton_self _)
    (List.mem_singleton_self fog) rfl
  obtain rfl := Except.ok.inj (hfog.symm.trans hl)
  rcases hcases with ⟨e, es, h⟩ | ⟨kind, property, value, h⟩ | ⟨h, -⟩ | hwarning
  · simp at h
  · simp at h
  · exact absurd h (by decide +kernel)
  · exact ⟨herror, hfog, hwarning⟩

end Sheet

end RichStyle
