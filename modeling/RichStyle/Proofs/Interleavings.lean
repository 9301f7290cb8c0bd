import Mathlib.Data.List.Pairwise
import RichStyle.Proofs.History

/-!
# Compilations side by side

Modules of different files are compiled side by side, each beginning once and ending once.  If no
two of them bind the same selector, what is merged in the end does not depend on which of them
began or ended first.
-/

namespace RichStyle

open Settings (moduleKey)

namespace Session

/-- A module to be compiled. -/
structure Job where
  id : String
  code : String
deriving DecidableEq

/-- The compilation of a module begins or ends. -/
inductive Turn where
  | begin (job : Job)
  | finish (job : Job)
deriving DecidableEq

/-- Each job begins once and ends once, and it begins before it ends. -/
structure Interleaves (jobs : List Job) (turns : List Turn) : Prop where
  complete : turns.Perm (jobs.map .begin ++ jobs.map .finish)
  ordered : ∀ job ∈ jobs, turns.idxOf (.begin job) < turns.idxOf (.finish job)

/-- What a turn does to a session.  A compilation that ends is named by the place where it began. -/
def Turn.action (banner : Bool) (turns : List Turn) : Turn → Action
  | begin job => .begin job.id
  | finish job => .conclude (turns.idxOf (.begin job)) (compile banner job.code)

/-- The history of a session in which these turns are taken and nothing else happens. -/
def historyOf (banner : Bool) (turns : List Turn) : List Action :=
  turns.map (Turn.action banner turns)

/-- Jobs for different source files that compile and bind different selectors. -/
structure Independent (settings : Settings) (jobs : List Job) (output : Job → Output) : Prop where
  owned : ∀ job ∈ jobs, settings.owns job.id = true
  keys : (jobs.map fun job => moduleKey job.id).Nodup
  compiles : ∀ job ∈ jobs, compile settings.banner job.code = .ok (output job)
  apart : jobs.Pairwise fun a b => (output a).assets.Apart (output b).assets

/-- Merges outputs one after the other. -/
def mergeOutputs (outputs : List Output) : Assets × Counts :=
  outputs.foldl (fun acc result => (acc.1.merge result.assets, acc.2.add result.counts))
    (.empty, .zero)

section Turns

variable {settings : Settings} {banner : Bool} {jobs : List Job} {turns : List Turn} {i : Nat}

theorem Interleaves.begin_mem_iff (h : Interleaves jobs turns) {job : Job} :
    Turn.begin job ∈ turns ↔ job ∈ jobs := by
  simp [h.complete.mem_iff]

theorem Interleaves.finish_mem_iff (h : Interleaves jobs turns) {job : Job} :
    Turn.finish job ∈ turns ↔ job ∈ jobs := by
  simp [h.complete.mem_iff]

theorem Interleaves.nodup (h : Interleaves jobs turns) (hjobs : jobs.Nodup) : turns.Nodup := by
  rw [h.complete.nodup_iff, List.nodup_append]
  refine ⟨hjobs.map fun a b => Turn.begin.inj, hjobs.map fun a b => Turn.finish.inj, ?_⟩
  simp

theorem idxOf_eq (hnodup : turns.Nodup) {turn : Turn} (h : turns[i]? = some turn) :
    turns.idxOf turn = i := by
  obtain ⟨hlt, rfl⟩ := List.getElem?_eq_some_iff.1 h
  exact hnodup.idxOf_getElem i hlt

theorem begin_of_historyOf {id : String}
    (h : (historyOf banner turns)[i]? = some (.begin id)) :
    ∃ job, turns[i]? = some (.begin job) ∧ job.id = id := by
  rw [historyOf, List.getElem?_map] at h
  obtain ⟨turn, hturn, haction⟩ := Option.map_eq_some_iff.1 h
  cases turn with
  | begin job => exact ⟨job, hturn, Action.begin.inj haction⟩
  | finish job => cases haction

theorem conclude_of_historyOf {place : Nat} {result : Except CompileError Output}
    (h : (historyOf banner turns)[i]? = some (.conclude place result)) :
    ∃ job, turns[i]? = some (.finish job) ∧ place = turns.idxOf (.begin job) ∧
      result = compile banner job.code := by
  rw [historyOf, List.getElem?_map] at h
  obtain ⟨turn, hturn, haction⟩ := Option.map_eq_some_iff.1 h
  cases turn with
  | begin job => cases haction
  | finish job =>
      obtain ⟨hplace, hresult⟩ := Action.conclude.inj haction
      exact ⟨job, hturn, hplace.symm, hresult.symm⟩

theorem historyOf_ne_hotUpdate (file : String) :
    (historyOf banner turns)[i]? ≠ some (.hotUpdate file) := by
  intro h
  rw [historyOf, List.getElem?_map] at h
  obtain ⟨turn, -, haction⟩ := Option.map_eq_some_iff.1 h
  cases turn <;> cases haction

end Turns

/-! ## Every interleaving can be run -/

section Run

variable {settings : Settings} {jobs : List Job} {output : Job → Output} {turns : List Turn}

theorem Independent.nodup (h : Independent settings jobs output) : jobs.Nodup :=
  h.keys.of_map _

theorem Independent.eq_of_key (h : Independent settings jobs output) {a b : Job} (ha : a ∈ jobs)
    (hb : b ∈ jobs) (hkey : moduleKey a.id = moduleKey b.id) : a = b :=
  List.inj_on_of_nodup_map h.keys ha hb hkey

/-- The jobs that have begun and not ended among some turns are going on. -/
def GoingOn (turns done : List Turn) (c : Course) : Prop :=
  ∀ job, .begin job ∈ done → .finish job ∉ done → ∃ g ∈ c.going, g.place = turns.idxOf (.begin job)

theorem GoingOn.begin {done : List Turn} {c : Course} {job : Job} {s : Session} {g : Going}
    (h : GoingOn turns done c) (hplace : g.place = turns.idxOf (.begin job)) :
    GoingOn turns (done ++ [.begin job]) ⟨s, g :: c.going, c.clock + 1⟩ := by
  intro other hbegun hopen
  simp only [List.mem_append, List.mem_singleton, Turn.begin.injEq] at hbegun
  rcases hbegun with hbegun | rfl
  · obtain ⟨e, he, hother⟩ := h other hbegun fun hmem => hopen (List.mem_append_left _ hmem)
    exact ⟨e, List.mem_cons_of_mem g he, hother⟩
  · exact ⟨g, List.mem_cons_self, hplace⟩

theorem GoingOn.finish {done : List Turn} {c : Course} {job : Job} {s : Session}
    (h : GoingOn turns done c) (hbegun : Turn.begin job ∈ turns) :
    GoingOn turns (done ++ [.finish job])
      ⟨s, c.going.filter (·.place ≠ turns.idxOf (.begin job)), c.clock + 1⟩ := by
  intro other hother hopen
  simp only [List.mem_append, List.mem_singleton, reduceCtorEq, or_false, Turn.finish.injEq,
    not_or] at hother hopen
  obtain ⟨e, he, hplace⟩ := h other hother hopen.1
  refine ⟨e, List.mem_filter.2 ⟨he, ?_⟩, hplace⟩
  have hne : turns.idxOf (.begin job) ≠ turns.idxOf (.begin other) := by
    intro heq
    exact hopen.2 (Turn.begin.inj ((List.idxOf_inj hbegun).1 heq)).symm
  simpa [hplace] using hne.symm

/-- A run of an interleaving never gets stuck: by induction on the turns that have been taken. -/
theorem Independent.exists_run_of_prefix (hjobs : Independent settings jobs output)
    (hturns : Interleaves jobs turns) {done : List Turn} (hdone : done <+: turns) :
    ∃ c, Course.run settings (done.map (Turn.action settings.banner turns)) = some c ∧
      GoingOn turns done c := by
  have hnodup := hturns.nodup hjobs.nodup
  induction done using List.reverseRecOn with
  | nil => exact ⟨.start, rfl, by simp [GoingOn]⟩
  | append_singleton done turn ih =>
      obtain ⟨c, hrun, hgoing⟩ := ih ((List.prefix_append done [turn]).trans hdone)
      obtain ⟨rest, hrest⟩ := hdone
      have hnext : turns[done.length]? = some turn := by simp [← hrest]
      have hidx : turns.idxOf turn = done.length := idxOf_eq hnodup hnext
      have hmem : turn ∈ turns := List.mem_of_getElem? hnext
      rw [List.map_append, List.map_singleton, Course.run_snoc, hrun, Option.bind_some]
      cases turn with
      | begin job =>
          have howns := hjobs.owned job (hturns.begin_mem_iff.1 hmem)
          have hclock : c.clock = turns.idxOf (.begin job) := by
            rw [hidx, (tracks_run hrun).clock, List.length_map]
          simp only [Turn.action, Course.step, howns, if_true]
          exact ⟨_, rfl, hgoing.begin hclock⟩
      | finish job =>
          have hjob := hturns.finish_mem_iff.1 hmem
          have hbegun : Turn.begin job ∈ done := by
            have hlt := hturns.ordered job hjob
            have hget := List.getElem?_idxOf (hturns.begin_mem_iff.2 hjob)
            rw [hidx] at hlt
            generalize turns.idxOf (.begin job) = place at hlt hget
            rw [← hrest, List.append_assoc, List.getElem?_append_left hlt] at hget
            exact List.mem_of_getElem? hget
          have hopen : Turn.finish job ∉ done := by
            intro hin
            rw [← hrest, List.append_assoc] at hnodup
            exact (List.nodup_append.1 hnodup).2.2 _ hin _ (by simp) rfl
          obtain ⟨g, hg, hplace⟩ := hgoing job hbegun hopen
          have hfind : (c.find? (turns.idxOf (.begin job))).isSome := by
            rw [Course.find?, List.find?_isSome]
            exact ⟨g, hg, by simpa using hplace⟩
          obtain ⟨e, he⟩ := Option.isSome_iff_exists.1 hfind
          simp only [Turn.action, Course.step, he]
          exact ⟨_, rfl, hgoing.finish (hturns.begin_mem_iff.2 hjob)⟩

theorem Independent.exists_run (hjobs : Independent settings jobs output)
    (hturns : Interleaves jobs turns) :
    ∃ c, Course.run settings (historyOf settings.banner turns) = some c := by
  obtain ⟨c, hc, -⟩ := hjobs.exists_run_of_prefix hturns List.prefix_rfl
  exact ⟨c, hc⟩

/-! ## What is held in the end -/

theorem not_changedAt_historyOf {banner : Bool} (key : String) (i : Nat) :
    ¬ ChangedAt (historyOf banner turns) key i := by
  rintro ⟨file, hfile, -⟩
  exact historyOf_ne_hotUpdate file hfile

/-- A result is kept where a job ends, and it is the output of the job. -/
theorem Independent.keptAt_iff (hjobs : Independent settings jobs output)
    (hturns : Interleaves jobs turns) {key : String} {i : Nat} {result : Output} :
    KeptAt (historyOf settings.banner turns) key i result ↔
      ∃ job ∈ jobs, turns[i]? = some (.finish job) ∧ moduleKey job.id = key ∧
        output job = result := by
  constructor
  · rintro ⟨place, id, hi, -, hplace, hkey, -⟩
    obtain ⟨job, hjob, hbegun, hresult⟩ := conclude_of_historyOf hi
    obtain ⟨other, hother, rfl⟩ := begin_of_historyOf hplace
    have hmem := hturns.finish_mem_iff.1 (List.mem_of_getElem? hjob)
    rw [hbegun, List.getElem?_idxOf (hturns.begin_mem_iff.2 hmem)] at hother
    obtain rfl := Turn.begin.inj (Option.some.inj hother)
    rw [hjobs.compiles job hmem] at hresult
    exact ⟨job, hmem, hjob, hkey, (Except.ok.inj hresult).symm⟩
  · rintro ⟨job, hmem, hjob, rfl, rfl⟩
    have hbegun := List.getElem?_idxOf (hturns.begin_mem_iff.2 hmem)
    have hlt := hturns.ordered job hmem
    rw [idxOf_eq (hturns.nodup hjobs.nodup) hjob] at hlt
    refine ⟨turns.idxOf (.begin job), job.id, ?_, hlt, ?_, rfl, ?_⟩
    · simp [historyOf, List.getElem?_map, hjob, Turn.action, hjobs.compiles job hmem]
    · simp [historyOf, List.getElem?_map, hbegun, Turn.action]
    · intro j _ _
      exact not_changedAt_historyOf _ j

theorem Independent.lastAt_iff (hjobs : Independent settings jobs output)
    (hturns : Interleaves jobs turns) {key : String} {i : Nat} {result : Output} :
    LastAt settings (historyOf settings.banner turns) key i result ↔
      KeptAt (historyOf settings.banner turns) key i result := by
  refine ⟨LastAt.kept, fun h => ⟨h, ?_, ?_⟩⟩
  · intro j file _ hfile
    exact absurd hfile (historyOf_ne_hotUpdate file)
  · intro j later hj hlater
    obtain ⟨job, hmem, hjob, hkey, -⟩ := (hjobs.keptAt_iff hturns).1 h
    obtain ⟨other, hother, hfinish, hsame, -⟩ := (hjobs.keptAt_iff hturns).1 hlater
    obtain rfl := hjobs.eq_of_key hmem hother (hkey.trans hsame.symm)
    have hnodup := hturns.nodup hjobs.nodup
    have hi := idxOf_eq hnodup hjob
    have hj' := idxOf_eq hnodup hfinish
    omega

theorem Holds.nodup_keys {history : List Action} {s : Session} {last : List Finished}
    (h : Holds settings history s last) : (last.map Finished.key).Nodup := by
  have hkeys := s.modules.nodup_keys
  rw [(h.entries.map Prod.fst).nodup_iff] at hkeys
  simpa [Function.comp_def] using hkeys

/-- The results that a session holds in the end are the outputs of the jobs. -/
theorem Independent.last_perm (hjobs : Independent settings jobs output)
    (hturns : Interleaves jobs turns) {s : Session} {last : List Finished}
    (h : Holds settings (historyOf settings.banner turns) s last) :
    (last.map fun f => (f.key, f.output)).Perm
      (jobs.map fun job => (moduleKey job.id, output job)) := by
  have hlast : (last.map fun f => (f.key, f.output)).Nodup := by
    apply List.Nodup.of_map Prod.fst
    simpa [Function.comp_def] using h.nodup_keys
  have hall : (jobs.map fun job => (moduleKey job.id, output job)).Nodup := by
    apply List.Nodup.of_map Prod.fst
    simpa [Function.comp_def] using hjobs.keys
  rw [List.perm_ext_iff_of_nodup hlast hall]
  rintro ⟨key, result⟩
  simp only [List.mem_map, Prod.mk.injEq]
  constructor
  · rintro ⟨f, hf, rfl, rfl⟩
    have hkept := ((h.exact f.key f.place f.output).2 ⟨f, hf, rfl, rfl, rfl⟩).kept
    obtain ⟨job, hmem, -, hkey, hout⟩ := (hjobs.keptAt_iff hturns).1 hkept
    exact ⟨job, hmem, hkey, hout⟩
  · rintro ⟨job, hmem, rfl, rfl⟩
    have hfinish := List.getElem?_idxOf (hturns.finish_mem_iff.2 hmem)
    have hkept := (hjobs.keptAt_iff hturns).2 ⟨job, hmem, hfinish, rfl, rfl⟩
    obtain ⟨f, hf, hkey, -, hout⟩ := (h.exact _ _ _).1 ((hjobs.lastAt_iff hturns).2 hkept)
    exact ⟨f, hf, hkey, hout⟩

/-! ## Merging in any order -/

theorem Independent.apart_of_ne (hjobs : Independent settings jobs output) {a b : Job}
    (ha : a ∈ jobs) (hb : b ∈ jobs) (hne : a ≠ b) :
    (output a).assets.Apart (output b).assets := by
  have : Std.Symm fun a b : Job => (output a).assets.Apart (output b).assets :=
    ⟨fun _ _ => Assets.Apart.symm⟩
  exact hjobs.apart.forall ha hb hne

/-- Outputs that bind different selectors may be merged in any order. -/
theorem mergeOutputs_perm {outputs others : List Output} (hperm : outputs.Perm others)
    (hapart : ∀ a ∈ outputs, ∀ b ∈ outputs, a = b ∨ a.assets.Apart b.assets) :
    mergeOutputs outputs = mergeOutputs others := by
  apply hperm.foldl_eq'
  intro a ha b hb acc
  rcases hapart a ha b hb with hab | hab
  · rw [hab]
  · rw [Assets.merge_right_comm hab, Counts.add_right_comm]

theorem Independent.mergeOutputs_perm (hjobs : Independent settings jobs output)
    {others : List Output} (hperm : (jobs.map output).Perm others) :
    mergeOutputs (jobs.map output) = mergeOutputs others := by
  apply Session.mergeOutputs_perm hperm
  simp only [List.forall_mem_map]
  intro a ha b hb
  by_cases hab : a = b
  · exact .inl (congrArg output hab)
  · exact .inr (hjobs.apart_of_ne ha hb hab)

/-- Whatever the turns, the session merges the outputs of the jobs. -/
theorem Independent.merged_eq (hjobs : Independent settings jobs output)
    (hturns : Interleaves jobs turns) {c : Course}
    (hrun : Course.run settings (historyOf settings.banner turns) = some c) :
    c.session.merged = mergeOutputs (jobs.map output) := by
  obtain ⟨last, hlast⟩ := (tracks_run hrun).modules
  have hperm : (last.map Finished.output).Perm (jobs.map output) := by
    simpa [Function.comp_def] using (hjobs.last_perm hturns hlast).map Prod.snd
  have hmerged : c.session.merged = mergeOutputs (last.map Finished.output) := by
    rw [hlast.merged_eq, mergeOutputs, List.foldl_map, List.foldl_map]
  rw [hmerged, hjobs.mergeOutputs_perm hperm.symm]

/-- No binding is lost when independent jobs are merged: the job could as well be the last one. -/
theorem Independent.get?_mergeOutputs (hjobs : Independent settings jobs output) {job : Job}
    (hjob : job ∈ jobs) {kind : AssetKind} {selector : String} {properties : Table String}
    (h : ((output job).assets.ofKind kind).get? selector = some properties) :
    ((mergeOutputs (jobs.map output)).1.ofKind kind).get? selector = some properties := by
  obtain ⟨before, after, hsplit⟩ := List.append_of_mem (List.mem_map_of_mem (f := output) hjob)
  have hperm : (jobs.map output).Perm ((before ++ after) ++ [output job]) := by
    rw [hsplit]
    exact List.perm_middle.trans (List.perm_append_singleton _ _).symm
  rw [hjobs.mergeOutputs_perm hperm, mergeOutputs, List.foldl_append, List.foldl_cons,
    List.foldl_nil, Assets.get?_merge, h]
  rfl

/--
Independent jobs that are compiled side by side come to the same assets and counts however they
interleave, and the binding of every one of them is there.
-/
theorem merged_of_interleaves (hjobs : Independent settings jobs output) {turns₁ turns₂ : List Turn}
    (h₁ : Interleaves jobs turns₁) (h₂ : Interleaves jobs turns₂) :
    ∃ c₁ c₂, Course.run settings (historyOf settings.banner turns₁) = some c₁ ∧
      Course.run settings (historyOf settings.banner turns₂) = some c₂ ∧
      c₁.session.merged = c₂.session.merged ∧
      ∀ job ∈ jobs, ∀ kind selector properties,
        ((output job).assets.ofKind kind).get? selector = some properties →
        (c₁.session.merged.1.ofKind kind).get? selector = some properties := by
  obtain ⟨c₁, hrun₁⟩ := hjobs.exists_run h₁
  obtain ⟨c₂, hrun₂⟩ := hjobs.exists_run h₂
  have hmerged₁ := hjobs.merged_eq h₁ hrun₁
  have hmerged₂ := hjobs.merged_eq h₂ hrun₂
  refine ⟨c₁, c₂, hrun₁, hrun₂, hmerged₁.trans hmerged₂.symm, ?_⟩
  intro job hjob kind selector properties h
  rw [hmerged₁]
  exact hjobs.get?_mergeOutputs hjob h

end Run

/-- Two modules that bind different selectors of one section, once nested and once one by one. -/
theorem merged_of_interleaves_two :
    let a : Job := ⟨"/a.csspp", ".a\x7bhover-sfx:'a.mp3'\x7d"⟩
    let b : Job := ⟨"/b.csspp?inline", ".b\x7bhover-sfx:b.ogg\x7d"⟩
    let sound (name : String) : Table String := Table.empty.insert "hover-sfx" name
    ∃ c₁ c₂,
      Course.run .default (historyOf true [.begin a, .begin b, .finish b, .finish a]) = some c₁ ∧
      Course.run .default (historyOf true [.begin a, .finish a, .begin b, .finish b]) = some c₂ ∧
      c₁.session.merged = c₂.session.merged ∧
      c₁.session.merged.1.audio.get? ".a" = some (sound "a.mp3") ∧
      c₁.session.merged.1.audio.get? ".b" = some (sound "b.ogg") := by
  intro a b sound
  let result (selector name : String) : Output :=
    ⟨Sheet.banner ++ selector ++ " \x7b\n\x7d\n\n",
      ⟨Table.empty.insert selector (sound name), .empty, .empty⟩, [], ⟨1, 0, 0⟩⟩
  let output (job : Job) : Output := if job = a then result ".a" "a.mp3" else result ".b" "b.ogg"
  have hapart : (output a).assets.Apart (output b).assets := by
    intro kind selector
    by_cases hselector : ".a" = selector
    · subst hselector
      exact .inr (by cases kind <;> decide)
    · exact .inl (by cases kind <;> simp [output, result, Assets.ofKind, Table.get?_insert, hselector])
  have hjobs : Independent .default [a, b] output :=
    ⟨by decide +kernel, by decide +kernel, by decide +kernel, by simpa using hapart⟩
  have hnested : Interleaves [a, b] [.begin a, .begin b, .finish b, .finish a] :=
    ⟨by decide +kernel, by decide +kernel⟩
  have hserial : Interleaves [a, b] [.begin a, .finish a, .begin b, .finish b] :=
    ⟨by decide +kernel, by decide +kernel⟩
  obtain ⟨c₁, c₂, hrun₁, hrun₂, hmerged, hbound⟩ :=
    merged_of_interleaves hjobs hnested hserial
  exact ⟨c₁, c₂, hrun₁, hrun₂, hmerged, hbound a (by simp) .audio ".a" _ (by decide +kernel),
    hbound b (by simp) .audio ".b" _ (by decide +kernel)⟩

end Session

end RichStyle
