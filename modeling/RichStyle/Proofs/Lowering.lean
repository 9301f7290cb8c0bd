import Mathlib.Data.List.Forall2
import RichStyle.Compile

/-!
# Lowering after a check

The check and the lowering of a declaration are two case analyses over the same properties.  A value
that the check does not refuse can be lowered, so a sheet without errors always compiles.
-/

namespace RichStyle

section MapM

variable {ε α β : Type} {f : α → Except ε β}

theorem mapM_eq_ok_iff {xs : List α} {ys : List β} :
    xs.mapM f = .ok ys ↔ List.Forall₂ (fun x y => f x = .ok y) xs ys := by
  induction xs generalizing ys with
  | nil =>
      rw [List.mapM_nil, List.forall₂_nil_left_iff]
      exact ⟨fun h => (Except.ok.inj h).symm, fun h => congrArg Except.ok h.symm⟩
  | cons x xs ih =>
      rw [List.mapM_cons, List.forall₂_cons_left_iff]
      constructor
      · intro h
        cases hx : f x with
        | error e => simp [hx, bind, Except.bind] at h
        | ok y =>
            cases hxs : xs.mapM f with
            | error e => simp [hx, hxs, bind, Except.bind] at h
            | ok zs =>
                have hys : y :: zs = ys := by
                  simpa [hx, hxs, bind, Except.bind, pure, Except.pure] using h
                exact ⟨y, zs, rfl, ih.1 hxs, hys.symm⟩
      · rintro ⟨y, zs, hx, hxs, rfl⟩
        rw [hx, ih.2 hxs]
        rfl

theorem exists_mapM_eq_ok {xs : List α} (h : ∀ x ∈ xs, ∃ y, f x = .ok y) :
    ∃ ys, xs.mapM f = .ok ys := by
  induction xs with
  | nil => exact ⟨[], rfl⟩
  | cons x xs ih =>
      obtain ⟨y, hy⟩ := h x (by simp)
      obtain ⟨ys, hys⟩ := ih fun z hz => h z (by simp [hz])
      exact ⟨y :: ys, mapM_eq_ok_iff.2 (.cons hy (mapM_eq_ok_iff.1 hys))⟩

theorem mapM_of_ok {xs : List α} {g : α → β} (h : ∀ x ∈ xs, f x = .ok (g x)) :
    xs.mapM f = .ok (xs.map g) := by
  rw [mapM_eq_ok_iff, List.forall₂_map_right_iff, List.forall₂_same]
  exact h

theorem exists_of_forall₂ {R : α → β → Prop} {xs : List α} {ys : List β}
    (h : List.Forall₂ R xs ys) {y : β} (hy : y ∈ ys) : ∃ x ∈ xs, R x y := by
  induction h with
  | nil => simp at hy
  | @cons x z xs zs hx _ ih =>
      rcases List.mem_cons.1 hy with rfl | hy
      · exact ⟨x, by simp, hx⟩
      · obtain ⟨w, hw, hwy⟩ := ih hy
        exact ⟨w, by simp [hw], hwy⟩

theorem exists_of_mem_mapM {xs : List α} {ys : List β} (h : xs.mapM f = .ok ys) {y : β}
    (hy : y ∈ ys) : ∃ x ∈ xs, f x = .ok y :=
  exists_of_forall₂ (mapM_eq_ok_iff.1 h) hy

end MapM

/-! ## One declaration -/

theorem Finding.severity_reportedFor (f : Finding) (selector property : String) (p : Span) :
    (f.reportedFor selector property p).severity = f.severity := by
  unfold reportedFor reported Diagnostic.placed
  split <;> rfl

theorem Finding.isError_reportedFor (f : Finding) (selector property : String) (p : Span) :
    (f.reportedFor selector property p).isError = (f.severity == .error) := by
  rw [Diagnostic.isError, severity_reportedFor]

namespace Declaration

theorem shapeFinding_severity (value : List Char) : (shapeFinding value).severity = .error := by
  unfold shapeFinding
  split
  · split <;> rfl
  · rfl

/-- A declaration is lowered to the plain form that its property has for the value, and to an asset if
there is none. -/
theorem lower_eq_ok_iff {d : Declaration} {selector : String} {l : Lowered} :
    d.lower selector = .ok l ↔ ∃ property, Property.ofName? d.property = some property ∧
      ((∃ forms, plainForm? property d.trimmed = some forms ∧
          l = .plain (forms.map fun f => classified f.1 f.2 d.span)) ∨
        (plainForm? property d.trimmed = none ∧ ∃ kind, assetKind? property = some kind ∧
          l = .asset kind (Property.normalName d.property) (assetValue kind d.trimmed))) := by
  unfold lower
  cases hname : Property.ofName? d.property with
  | none => simp
  | some property =>
      cases hform : plainForm? property d.trimmed with
      | some forms => simp [hform, eq_comm]
      | none =>
          cases hkind : assetKind? property with
          | none => simp [hform, hkind]
          | some kind => simp [hform, hkind, eq_comm]

theorem exists_lower_of_form {d : Declaration} {property : Property} (selector : String)
    (hname : Property.ofName? d.property = some property)
    (h : (plainForm? property d.trimmed).isSome ∨ (assetKind? property).isSome) :
    ∃ l, d.lower selector = .ok l := by
  cases hform : plainForm? property d.trimmed with
  | some forms => exact ⟨_, lower_eq_ok_iff.2 ⟨property, hname, .inl ⟨forms, hform, rfl⟩⟩⟩
  | none =>
      rw [hform] at h
      obtain ⟨kind, hkind⟩ := Option.isSome_iff_exists.1 (h.resolve_left (by simp))
      exact ⟨_, lower_eq_ok_iff.2 ⟨property, hname, .inr ⟨hform, kind, hkind, rfl⟩⟩⟩

/-- A value without an error has a plain form or is an asset. -/
theorem exists_lower {d : Declaration} (selector : String)
    (h : ∀ f ∈ d.finding?, f.severity ≠ .error) : ∃ l, d.lower selector = .ok l := by
  cases hname : Property.ofName? d.property with
  | none =>
      have hunknown := h (.unknownProperty d.property) (by simp [finding?, hname])
      exact absurd rfl hunknown
  | some property =>
      refine exists_lower_of_form selector hname ?_
      -- only three properties have neither a plain form for every value nor an asset
      cases property with
      | shape =>
          cases hread : Shape.read? d.trimmed with
          | none =>
              have hshape := h (shapeFinding d.trimmed) (by simp [finding?, hname, hread])
              exact absurd (shapeFinding_severity _) hshape
          | some s => exact .inl (by simp [plainForm?, hread])
      | shadowType =>
          cases hread : Shadow.read? d.trimmed with
          | none =>
              have hshadow := h (.invalidValue "shadow-type" (String.ofList d.trimmed))
                (by simp [finding?, hname, hread])
              exact absurd rfl hshadow
          | some s => exact .inl (by simp [plainForm?, hread])
      | depth =>
          cases hread : Depth.read? d.trimmed with
          | none =>
              have hdepth := h (.invalidValue "depth" (String.ofList d.trimmed))
                (by simp [finding?, hname, hread])
              exact absurd rfl hdepth
          | some s => exact .inl (by simp [plainForm?, hread])
      | material | texture | reflectivity | roughness | metallic => exact .inr rfl
      | hoverSfx | clickSfx | cursorMoveSfx | ambientSound => exact .inr rfl
      | _ => exact .inl rfl

/-- Forms that do not depend on the value. -/
def fixedForms : List (Property × String × String) :=
  [(.shape, "border-radius", "50%"), (.shadowType, "box-shadow", Shadow.soft.boxShadow),
   (.shadowType, "box-shadow", Shadow.hard.boxShadow),
   (.shadowType, "box-shadow", Shadow.contact.boxShadow),
   (.depth, "transform-style", "preserve-3d"), (.glowColor, "filter", "brightness(1.2)"),
   (.material, "background", brushedMetal), (.material, "backdrop-filter", "blur(12px)"),
   (.material, "background", "rgba(255,255,255,.1)"), (.pixelGrid, "image-rendering", "pixelated")]

/-- Properties that pass the value on under another name. -/
def passedOn : List (Property × String) :=
  [(.curve, "transition-timing-function"), (.lightIntensity, "--light-mode"),
   (.lightIntensity, "--light-intensity"), (.particle, "--particle"), (.filmGrain, "--film-grain")]

/-- The forms that a property may have for a value, one case for each way to make a text. -/
inductive Writes (value : List Char) : Property → String × String → Prop
  | fixed {property : Property} {f : String × String} (h : (property, f) ∈ fixedForms) :
      Writes value property f
  | passed {property : Property} {name : String} (h : (property, name) ∈ passedOn) :
      Writes value property (name, String.ofList value)
  | radius {radius : String} (h : Shape.read? value = some (.roundedRect radius)) :
      Writes value .shape ("border-radius", radius)
  | polygon (sides : Nat) : Writes value .shape ("clip-path", Circle.polygon sides)
  | shadow {size : Magnitude} (h : Depth.read? value = some (.rem size)) :
      Writes value .depth ("box-shadow", "0 " ++ String.ofList value ++ " " ++
        (size.scale 2 1).plainText ++ "rem rgba(0,0,0,.15)")
  | glow : Writes value .glowColor ("box-shadow", "0 0 20px " ++ String.ofList value)
  | grid (h : value ≠ []) : Writes value .pixelGrid
      ("background-size", String.ofList value ++ " " ++ String.ofList value)
  | intensity (size : Magnitude) :
      Writes value .lightIntensity ("--light-intensity", size.plainText)
  | fog (size : Magnitude) :
      Writes value .fogDensity ("backdrop-filter", "blur(" ++ size.plainText ++ "px)")
  | bloom (size : Magnitude) : Writes value .bloomStrength
      ("filter", "drop-shadow(0 0 " ++ size.plainText ++ "px currentColor)")

theorem writes_of_plainForm? {property : Property} {value : List Char}
    {forms : List (String × String)} (h : plainForm? property value = some forms) :
    ∀ f ∈ forms, Writes value property f := by
  cases property with
  | shape =>
      obtain ⟨shape, hread, rfl⟩ := Option.map_eq_some_iff.1 h
      refine List.forall_mem_singleton.2 ?_
      cases shape with
      | circle => exact .fixed (by simp [fixedForms, lowerShape])
      | roundedRect radius => exact .radius hread
      | polygon sides => exact .polygon sides
  | shadowType =>
      obtain ⟨shadow, -, rfl⟩ := Option.map_eq_some_iff.1 h
      refine List.forall_mem_singleton.2 (.fixed ?_)
      cases shadow <;> simp [fixedForms]
  | depth =>
      obtain ⟨depth, hread, rfl⟩ := Option.map_eq_some_iff.1 h
      refine List.forall_mem_singleton.2 ?_
      cases depth with
      | preserve => exact .fixed (by simp [fixedForms, lowerDepth])
      | rem size => exact .shadow hread
  | glowColor =>
      obtain rfl := Option.some.inj h
      exact List.forall_mem_cons.2 ⟨.glow, List.forall_mem_singleton.2 (.fixed (by simp [fixedForms]))⟩
  | material =>
      simp only [plainForm?] at h
      split at h
      · obtain rfl := Option.some.inj h
        exact List.forall_mem_singleton.2 (.fixed (by simp [fixedForms]))
      · split at h
        · obtain rfl := Option.some.inj h
          exact List.forall_mem_cons.2 ⟨.fixed (by simp [fixedForms]),
            List.forall_mem_singleton.2 (.fixed (by simp [fixedForms]))⟩
        · cases h
  | pixelGrid =>
      obtain rfl := Option.some.inj h
      have hpixelated : Writes value .pixelGrid ("image-rendering", "pixelated") :=
        .fixed (by simp [fixedForms])
      unfold lowerPixelGrid
      split
      · simp
      · split
        · split
          · exact List.forall_mem_cons.2 ⟨hpixelated, List.forall_mem_singleton.2 (.grid (by simp))⟩
          · exact List.forall_mem_singleton.2 hpixelated
        · exact List.forall_mem_singleton.2 hpixelated
  | lightIntensity =>
      obtain rfl := Option.some.inj h
      refine List.forall_mem_singleton.2 ?_
      unfold lowerLight
      split
      · exact .passed (by simp [passedOn])
      · split
        · exact .intensity _
        · exact .passed (by simp [passedOn])
  | fogDensity =>
      obtain rfl := Option.some.inj h
      unfold lowerStrength
      split
      · exact List.forall_mem_singleton.2 (.fog _)
      · simp
  | bloomStrength =>
      obtain rfl := Option.some.inj h
      unfold lowerStrength
      split
      · exact List.forall_mem_singleton.2 (.bloom _)
      · simp
  | curve | particle | filmGrain =>
      obtain rfl := Option.some.inj h
      exact List.forall_mem_singleton.2 (.passed (by simp [passedOn]))
  | texture | reflectivity | roughness | metallic | hoverSfx | clickSfx | cursorMoveSfx
    | ambientSound => cases h

theorem lowerIfRich_eq_ok_iff {d : Declaration} {selector : String} {l : Lowered} :
    d.lowerIfRich selector = .ok l ↔
      (d.rich = true ∧ d.lower selector = .ok l) ∨ (d.rich = false ∧ l = .plain [d]) := by
  unfold lowerIfRich
  cases d.rich with
  | true => simp
  | false => simp [eq_comm]

theorem mem_diagnostic? {d : Declaration} {f : Finding} (selector : String) (hrich : d.rich = true)
    (hf : f ∈ d.finding?) :
    f.reportedFor selector d.property d.span ∈ d.diagnostic? selector := by
  rw [diagnostic?, if_pos hrich]
  exact Option.mem_map_of_mem _ hf

theorem severity_of_errorFree {d : Declaration} {selector : String} (hrich : d.rich = true)
    (h : ∀ e ∈ d.diagnostic? selector, e.isError = false) :
    ∀ f ∈ d.finding?, f.severity ≠ .error := by
  intro f hf
  have hfree := h _ (mem_diagnostic? selector hrich hf)
  rw [Finding.isError_reportedFor] at hfree
  simpa using hfree

theorem exists_lowerIfRich {d : Declaration} {selector : String}
    (h : ∀ e ∈ d.diagnostic? selector, e.isError = false) :
    ∃ l, d.lowerIfRich selector = .ok l := by
  cases hrich : d.rich with
  | false => exact ⟨.plain [d], lowerIfRich_eq_ok_iff.2 (.inr ⟨hrich, rfl⟩)⟩
  | true =>
      obtain ⟨l, hl⟩ := exists_lower selector (severity_of_errorFree hrich h)
      exact ⟨l, lowerIfRich_eq_ok_iff.2 (.inl ⟨hrich, hl⟩)⟩

end Declaration

/-! ## Sheets and sources -/

namespace Sheet

theorem mem_check {rules : List Rule} {r : Rule} {d : Declaration} {e : Diagnostic} (hr : r ∈ rules)
    (hd : d ∈ r.declarations) (he : e ∈ d.diagnostic? r.selector) : e ∈ check rules :=
  List.mem_flatMap.2 ⟨r, hr, List.mem_filterMap.2 ⟨d, hd, he⟩⟩

/-- Rules whose values have no errors can be lowered, whichever declarations are marked as rich. -/
theorem exists_lower {rules : List Rule} (h : ∀ e ∈ check rules, e.isError = false) :
    ∃ plain, lower rules = .ok plain := by
  have hrule : ∀ r ∈ rules, ∃ l, lowerRule r = .ok l := by
    intro r hr
    have hds : ∀ d ∈ r.declarations, ∃ l, d.lowerIfRich r.selector = .ok l := by
      intro d hd
      exact Declaration.exists_lowerIfRich fun e he => h e (mem_check hr hd he)
    obtain ⟨ls, hls⟩ := exists_mapM_eq_ok hds
    exact ⟨(r, ls), by rw [lowerRule, hls]; rfl⟩
  obtain ⟨ls, hls⟩ := exists_mapM_eq_ok hrule
  exact ⟨_, by rw [lower, hls]; rfl⟩

end Sheet

namespace Diagnostic

theorem hasErrors_eq_false_iff {ds : List Diagnostic} :
    hasErrors ds = false ↔ ∀ d ∈ ds, d.isError = false := by
  simp [hasErrors]

theorem errors_eq_nil {ds : List Diagnostic} (h : ∀ d ∈ ds, d.isError = false) :
    errors ds = [] := by
  rw [errors, List.filter_eq_nil_iff]
  intro d hd
  simp [h d hd]

end Diagnostic

theorem Counts.of_errorFree {rules : List Rule} {ds : List Diagnostic}
    (h : ∀ d ∈ ds, d.isError = false) :
    Counts.of rules ds = ⟨.ofNat rules.length, 0, .ofNat ds.length⟩ := by
  simp [Counts.of, Diagnostic.warningCount, Diagnostic.errorCount, Diagnostic.errors_eq_nil h]

namespace Analysis

theorem output_of_error {a : Analysis} (banner : Bool) (h : ∃ d ∈ a.diagnostics, d.isError = true) :
    a.output banner = .error (.invalid (Diagnostic.errors a.diagnostics)) := by
  have herrors : Diagnostic.hasErrors a.diagnostics = true := List.any_eq_true.2 h
  simp [output, Diagnostic.settle, herrors]

theorem output_of_errorFree {reading : Sheet.Reading} (banner : Bool)
    (h : ∀ d ∈ (ofReading reading).diagnostics, d.isError = false) :
    ∃ plain, Sheet.lower reading.sheet.rules = .ok plain ∧
      (ofReading reading).output banner = .ok ⟨Sheet.print plain.rules banner, plain.assets,
        (ofReading reading).diagnostics, .of reading.sheet.rules (ofReading reading).diagnostics⟩ := by
  have herrors := Diagnostic.hasErrors_eq_false_iff.2 h
  have hvalues : ∀ e ∈ Sheet.check reading.sheet.rules, e.isError = false := fun e he =>
    h e (List.mem_append_right _ he)
  obtain ⟨plain, hplain⟩ := Sheet.exists_lower hvalues
  refine ⟨plain, hplain, ?_⟩
  simp only [output, Diagnostic.settle, herrors]
  change (Sheet.lower reading.sheet.rules >>= _) = _
  rw [hplain]
  rfl

end Analysis

section Read

variable {source : String} {malformed : Malformed} {reading : Sheet.Reading}

theorem check_of_malformed (h : Sheet.read source.toList = .error malformed) :
    check source = .error (.malformed malformed) := by
  simp [check, Analysis.ofSource, h, bind, Except.bind]

theorem compile_of_malformed (banner : Bool) (h : Sheet.read source.toList = .error malformed) :
    compile banner source = .error (.malformed malformed) := by
  simp [compile, Analysis.ofSource, h, bind, Except.bind]

theorem check_of_read (h : Sheet.read source.toList = .ok reading) :
    check source = .ok (Analysis.ofReading reading).diagnostics := by
  simp [check, Analysis.ofSource, h, bind, Except.bind]

theorem compile_of_read (banner : Bool) (h : Sheet.read source.toList = .ok reading) :
    compile banner source = (Analysis.ofReading reading).output banner := by
  simp [compile, Analysis.ofSource, h, bind, Except.bind]

theorem errorFree_of_compile {banner : Bool} {output : Output}
    (hread : Sheet.read source.toList = .ok reading) (h : compile banner source = .ok output) :
    ∀ d ∈ (Analysis.ofReading reading).diagnostics, d.isError = false := by
  intro d hd
  rw [Bool.eq_false_iff]
  intro herror
  rw [compile_of_read banner hread, Analysis.output_of_error banner ⟨d, hd, herror⟩] at h
  contradiction

end Read

/-- Compiling a source fails and succeeds as its check says. -/
theorem compile_follows_check (banner : Bool) (source : String) :
    (∀ e, check source = .error e → compile banner source = .error e) ∧
    (∀ ds, check source = .ok ds → (∃ d ∈ ds, d.isError = true) →
      compile banner source = .error (.invalid (ds.filter Diagnostic.isError))) ∧
    (∀ ds, check source = .ok ds → (∀ d ∈ ds, d.isError = false) →
      ∃ reading output, Sheet.read source.toList = .ok reading ∧
        compile banner source = .ok output ∧ output.warnings = ds ∧
        output.counts = ⟨.ofNat reading.sheet.rules.length, 0, .ofNat ds.length⟩) ∧
    (∀ rules, (∀ d ∈ Sheet.check rules, d.isError = false) →
      ∃ plain, Sheet.lower rules = .ok plain) ∧
    ∀ selector property, compile banner source ≠ .error (.notRich selector property) := by
  cases hread : Sheet.read source.toList with
  | error malformed =>
      rw [check_of_malformed hread, compile_of_malformed banner hread]
      refine ⟨?_, ?_, ?_, fun rules => Sheet.exists_lower, ?_⟩
      · intro e he
        rw [Except.error.inj he]
      · intro ds hds
        contradiction
      · intro ds hds
        contradiction
      · intro selector property h
        simp at h
  | ok reading =>
      rw [check_of_read hread, compile_of_read banner hread]
      refine ⟨?_, ?_, ?_, fun rules => Sheet.exists_lower, ?_⟩
      · intro e he
        contradiction
      · intro ds hds herror
        obtain rfl := Except.ok.inj hds
        exact Analysis.output_of_error banner herror
      · intro ds hds herror
        obtain rfl := Except.ok.inj hds
        obtain ⟨plain, -, hout⟩ := Analysis.output_of_errorFree banner herror
        exact ⟨reading, _, rfl, hout, rfl, Counts.of_errorFree herror⟩
      · intro selector property h
        by_cases herror : ∃ d ∈ (Analysis.ofReading reading).diagnostics, d.isError = true
        · rw [Analysis.output_of_error banner herror] at h
          simp at h
        · have hfree : ∀ d ∈ (Analysis.ofReading reading).diagnostics, d.isError = false := by
            simpa using herror
          obtain ⟨plain, -, hout⟩ := Analysis.output_of_errorFree banner hfree
          rw [hout] at h
          simp at h

/-- A source that cannot be read, one with an invalid depth, and one with a warning only. -/
theorem compile_follows_check_cases :
    let light := (Finding.unknownLight "2").reportedFor ".a" "light-intensity"
    let depth := (Finding.invalidValue "depth" "x").reportedFor ".a" "depth" ⟨1, 4⟩
    compile true "\x7d" = .error (.malformed ⟨.strayClose, ⟨1, 1⟩⟩) ∧
    compile true ".a\x7bdepth:x;light-intensity:2\x7d" = .error (.invalid [depth]) ∧
    ∃ reading output,
      Sheet.read ".a\x7bdepth:3d;light-intensity:2\x7d".toList = .ok reading ∧
      compile true ".a\x7bdepth:3d;light-intensity:2\x7d" = .ok output ∧
      output.warnings = [light ⟨1, 13⟩] ∧
      output.counts = ⟨.ofNat reading.sheet.rules.length, 0, .ofNat 1⟩ := by
  intro light depth
  exact ⟨(compile_follows_check true _).1 _ (by decide +kernel),
    (compile_follows_check true _).2.1 [depth, light ⟨1, 12⟩] (by decide +kernel)
      (by decide +kernel),
    (compile_follows_check true _).2.2.1 [light ⟨1, 13⟩] (by decide +kernel) (by decide +kernel)⟩

end RichStyle
