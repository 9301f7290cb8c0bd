import Mathlib.Data.List.Induction
import RichStyle.Proofs.Merging

/-!
# The history of a session

What a session holds is a matter of its history alone: of where compilations began and ended and
where files changed.  A history is run action by action; `Tracks` is what every run keeps.
-/

namespace RichStyle

open Settings (moduleKey)

namespace Session

/-! ## Running a history -/

/-- One thing that happens.  A compilation is named by the place in the history where it began. -/
inductive Action where
  | begin (id : String)
  | conclude (place : Nat) (result : Except CompileError Output)
  | hotUpdate (file : String)

/-- A compilation that has begun and not ended. -/
structure Going where
  place : Nat
  id : String
  ticket : Ticket

/-- A session, the compilations that are going on, and the place of the next action. -/
structure Course where
  session : Session
  going : List Going
  clock : Nat

namespace Course

/-- Nothing has happened. -/
def start : Course := ⟨.start, [], 0⟩

/-- The compilation that began at a place, if it is still going on. -/
def find? (c : Course) (place : Nat) : Option Going :=
  c.going.find? fun g => g.place == place

/-- Only source files are compiled, and each compilation ends at most once. -/
def step (settings : Settings) (c : Course) : Action → Option Course
  | .begin id =>
      if settings.owns id then
        some ⟨(c.session.begin id).2, ⟨c.clock, id, (c.session.begin id).1⟩ :: c.going, c.clock + 1⟩
      else none
  | .conclude place result => do
      let g ← c.find? place
      some ⟨(c.session.conclude g.ticket g.id result).1, c.going.filter (·.place ≠ place),
        c.clock + 1⟩
  | .hotUpdate file => some ⟨(c.session.hotUpdate settings file).1, c.going, c.clock + 1⟩

/-- The course of a history from the start on. -/
def run (settings : Settings) (history : List Action) : Option Course :=
  history.foldlM (step settings) start

end Course

/-! ## Where things happen -/

section Places

variable (settings : Settings) (history : List Action) (key : String)

/-- The file with a key changes at a place. -/
def ChangedAt (i : Nat) : Prop :=
  ∃ file, history[i]? = some (.hotUpdate file) ∧ moduleKey file = key

/-- A compilation of a file finishes at a place, and the file has not changed since it began. -/
def KeptAt (i : Nat) (output : Output) : Prop :=
  ∃ place id, history[i]? = some (.conclude place (.ok output)) ∧ place < i ∧
    history[place]? = some (.begin id) ∧ moduleKey id = key ∧
    ∀ j, place < j → j < i → ¬ ChangedAt history key j

/-- No source file changes after a place. -/
def QuietAfter (i : Nat) : Prop :=
  ∀ j file, i < j → history[j]? = some (.hotUpdate file) → settings.owns file = false

/-- A result is kept at a place, and neither a change nor another result of its file follows. -/
structure LastAt (i : Nat) (output : Output) : Prop where
  kept : KeptAt history key i output
  quiet : QuietAfter settings history i
  last : ∀ j later, i < j → ¬ KeptAt history key j later

/-- After a history, an action keeps a result of a file. -/
def Keeps (a : Action) (output : Output) : Prop :=
  ∃ place id, a = .conclude place (.ok output) ∧ history[place]? = some (.begin id) ∧
    moduleKey id = key ∧ ∀ j, place < j → ¬ ChangedAt history key j

end Places

section Grow

variable {settings : Settings} {history : List Action} {key : String} {a : Action} {i : Nat}
  {output : Output}

theorem getElem?_snoc {α : Type} {l : List α} {a b : α} {i : Nat} :
    (l ++ [a])[i]? = some b ↔ l[i]? = some b ∨ (i = l.length ∧ a = b) := by
  rcases Nat.lt_trichotomy i l.length with h | h | h
  · simp [List.getElem?_append, h, Nat.ne_of_lt h]
  · simp [h]
  · have hout : l[i]? = none := List.getElem?_eq_none (by omega)
    have hlong : (l ++ [a])[i]? = none := List.getElem?_eq_none (by simp; omega)
    simp [hout, hlong, Nat.ne_of_gt h]

theorem lt_length_of_getElem? {α : Type} {l : List α} {b : α} {i : Nat} (h : l[i]? = some b) :
    i < l.length :=
  (List.getElem?_eq_some_iff.1 h).1

theorem changedAt_snoc : ChangedAt (history ++ [a]) key i ↔
    ChangedAt history key i ∨
      (i = history.length ∧ ∃ file, a = .hotUpdate file ∧ moduleKey file = key) := by
  simp only [ChangedAt, getElem?_snoc]
  constructor
  · rintro ⟨file, h | ⟨rfl, rfl⟩, hkey⟩
    · exact .inl ⟨file, h, hkey⟩
    · exact .inr ⟨rfl, file, rfl, hkey⟩
  · rintro (⟨file, h, hkey⟩ | ⟨rfl, file, rfl, hkey⟩)
    · exact ⟨file, .inl h, hkey⟩
    · exact ⟨file, .inr ⟨rfl, rfl⟩, hkey⟩

theorem ChangedAt.lt_length (h : ChangedAt history key i) : i < history.length := by
  obtain ⟨file, hi, -⟩ := h
  exact lt_length_of_getElem? hi

theorem KeptAt.lt_length (h : KeptAt history key i output) : i < history.length := by
  obtain ⟨place, id, hi, -⟩ := h
  exact lt_length_of_getElem? hi

theorem keptAt_snoc : KeptAt (history ++ [a]) key i output ↔
    KeptAt history key i output ∨ (i = history.length ∧ Keeps history key a output) := by
  constructor
  · rintro ⟨place, id, hi, hlt, hplace, hkey, hquiet⟩
    have hstill : ∀ j, place < j → j < i → ¬ ChangedAt history key j := fun j hj hji hchange =>
      hquiet j hj hji (changedAt_snoc.2 (.inl hchange))
    rcases getElem?_snoc.1 hplace with hbegun | ⟨rfl, rfl⟩
    · rcases getElem?_snoc.1 hi with hi | ⟨rfl, rfl⟩
      · exact .inl ⟨place, id, hi, hlt, hbegun, hkey, hstill⟩
      · refine .inr ⟨rfl, place, id, rfl, hbegun, hkey, fun j hj hchange => ?_⟩
        exact hstill j hj hchange.lt_length hchange
    · -- the compilation would end before it began
      rcases getElem?_snoc.1 hi with hi | ⟨rfl, -⟩
      · have := lt_length_of_getElem? hi
        omega
      · omega
  · rintro (⟨place, id, hi, hlt, hplace, hkey, hquiet⟩ | ⟨rfl, place, id, rfl, hplace, hkey, hquiet⟩)
    · refine ⟨place, id, getElem?_snoc.2 (.inl hi), hlt, getElem?_snoc.2 (.inl hplace), hkey, ?_⟩
      intro j hj hji hchange
      rcases changedAt_snoc.1 hchange with hchange | ⟨rfl, -⟩
      · exact hquiet j hj hji hchange
      · have := lt_length_of_getElem? hi
        omega
    · refine ⟨place, id, getElem?_snoc.2 (.inr ⟨rfl, rfl⟩), lt_length_of_getElem? hplace,
        getElem?_snoc.2 (.inl hplace), hkey, ?_⟩
      intro j hj hji hchange
      rcases changedAt_snoc.1 hchange with hchange | ⟨rfl, -⟩
      · exact hquiet j hj hchange
      · omega

theorem quietAfter_snoc (hi : i < history.length) : QuietAfter settings (history ++ [a]) i ↔
    QuietAfter settings history i ∧ ∀ file, a = .hotUpdate file → settings.owns file = false := by
  constructor
  · intro h
    refine ⟨fun j file hj hfile => h j file hj (getElem?_snoc.2 (.inl hfile)), ?_⟩
    intro file hfile
    exact h history.length file hi (getElem?_snoc.2 (.inr ⟨rfl, hfile⟩))
  · rintro ⟨hquiet, hlast⟩ j file hj hfile
    rcases getElem?_snoc.1 hfile with hfile | ⟨-, hfile⟩
    · exact hquiet j file hj hfile
    · exact hlast file hfile

theorem quietAfter_length : QuietAfter settings (history ++ [a]) history.length := by
  intro j file hj hfile
  rcases getElem?_snoc.1 hfile with hfile | ⟨rfl, -⟩
  · have := lt_length_of_getElem? hfile
    omega
  · omega

/-- What an action keeps is determined by the action. -/
theorem Keeps.unique {other : String} {later : Output} (h : Keeps history key a output)
    (h' : Keeps history other a later) : other = key ∧ later = output := by
  obtain ⟨place, id, rfl, hplace, rfl, -⟩ := h
  obtain ⟨place', id', ha, hplace', rfl, -⟩ := h'
  obtain ⟨rfl, hresult⟩ := Action.conclude.inj ha
  rw [hplace] at hplace'
  obtain rfl := Action.begin.inj (Option.some.inj hplace')
  exact ⟨rfl, (Except.ok.inj hresult).symm⟩

/-- An action that neither changes a source file nor keeps a result leaves the last results. -/
theorem lastAt_snoc_of_idle (hquiet : ∀ file, a = .hotUpdate file → settings.owns file = false)
    (hidle : ∀ key output, ¬ Keeps history key a output) :
    LastAt settings (history ++ [a]) key i output ↔ LastAt settings history key i output := by
  have hkept : ∀ i output, KeptAt (history ++ [a]) key i output ↔ KeptAt history key i output := by
    intro i output
    rw [keptAt_snoc]
    simp [hidle]
  constructor
  · intro h
    have hi := (hkept i output).1 h.kept
    exact ⟨hi, ((quietAfter_snoc hi.lt_length).1 h.quiet).1,
      fun j later hj hlater => h.last j later hj ((hkept j later).2 hlater)⟩
  · intro h
    exact ⟨(hkept i output).2 h.kept, (quietAfter_snoc h.kept.lt_length).2 ⟨h.quiet, hquiet⟩,
      fun j later hj hlater => h.last j later hj ((hkept j later).1 hlater)⟩

/-- After a change of a source file there are no last results. -/
theorem not_lastAt_snoc_change {file : String} (howns : settings.owns file = true) :
    ¬ LastAt settings (history ++ [.hotUpdate file]) key i output := by
  intro h
  rcases keptAt_snoc.1 h.kept with hkept | ⟨-, place, id, ha, -⟩
  · have hfalse := ((quietAfter_snoc hkept.lt_length).1 h.quiet).2 file rfl
    rw [howns] at hfalse
    contradiction
  · contradiction

/-- A result that is kept takes the place of the last result of its file. -/
theorem lastAt_snoc_of_keeps {other : String} {later : Output} (h : Keeps history key a output) :
    LastAt settings (history ++ [a]) other i later ↔
      (other ≠ key ∧ LastAt settings history other i later) ∨
        (other = key ∧ i = history.length ∧ later = output) := by
  have hquiet : ∀ file, a = .hotUpdate file → settings.owns file = false := by
    obtain ⟨place, id, rfl, -⟩ := h
    intro file hfile
    contradiction
  have hnew : KeptAt (history ++ [a]) key history.length output := keptAt_snoc.2 (.inr ⟨rfl, h⟩)
  constructor
  · intro hlast
    rcases keptAt_snoc.1 hlast.kept with hkept | ⟨rfl, hkeeps⟩
    · refine .inl ⟨?_, hkept, ((quietAfter_snoc hkept.lt_length).1 hlast.quiet).1, ?_⟩
      · rintro rfl
        exact hlast.last _ _ hkept.lt_length hnew
      · intro j result hj hresult
        exact hlast.last j result hj (keptAt_snoc.2 (.inl hresult))
    · obtain ⟨rfl, rfl⟩ := h.unique hkeeps
      exact .inr ⟨rfl, rfl, rfl⟩
  · rintro (⟨hne, hlast⟩ | ⟨rfl, rfl, rfl⟩)
    · refine ⟨keptAt_snoc.2 (.inl hlast.kept),
        (quietAfter_snoc hlast.kept.lt_length).2 ⟨hlast.quiet, hquiet⟩, ?_⟩
      intro j result hj hresult
      rcases keptAt_snoc.1 hresult with hresult | ⟨-, hkeeps⟩
      · exact hlast.last j result hj hresult
      · exact hne (h.unique hkeeps).1
    · refine ⟨hnew, quietAfter_length, fun j result hj hresult => ?_⟩
      have hlt := hresult.lt_length
      simp at hlt
      omega

end Grow

/-! ## What a session remembers of its history -/

theorem generation_change (s : Session) (file key : String) :
    (s.change file).generation key =
      if moduleKey file = key then s.generation key + 1 else s.generation key := by
  simp only [generation, change, Table.get?_insert]
  split
  · next h => simp [h]
  · rfl

section Conclude

variable {s : Session} {ticket : Ticket}

theorem conclude_stale (id : String) (output : Output)
    (h : s.generation ticket.key ≠ ticket.generation) :
    (s.conclude ticket id (.ok output)).1 = s.abandon ∧
      (s.conclude ticket id (.ok output)).2.1 = .none := by
  simp [conclude, finish, isStale, h]

theorem conclude_fresh (id : String) (output : Output)
    (h : s.generation ticket.key = ticket.generation) :
    (s.conclude ticket id (.ok output)).1 =
        s.abandon.retain ticket.key output.assets output.counts ∧
      (s.conclude ticket id (.ok output)).2.1 = .module (moduleCode output.css) := by
  simp [conclude, finish, isStale, h]

end Conclude

/-- A compilation that is going on has begun, and its ticket is good until its file changes. -/
structure Going.Fits (settings : Settings) (history : List Action) (s : Session) (g : Going) :
    Prop where
  begun : history[g.place]? = some (.begin g.id)
  owned : settings.owns g.id = true
  key : g.ticket.key = moduleKey g.id
  le : g.ticket.generation ≤ s.generation g.ticket.key
  fresh_iff : s.generation g.ticket.key = g.ticket.generation ↔
    ∀ j, g.place < j → ¬ ChangedAt history g.ticket.key j

/-- A result that is kept, with the place where it was finished and its number. -/
structure Finished where
  place : Nat
  key : String
  output : Output
  seq : Nat

/-- What a session keeps of it. -/
def Finished.retained (f : Finished) : Retained :=
  ⟨f.output.assets, f.output.counts, f.seq⟩

/-- The last results of a history, in order, are what a session holds. -/
structure Holds (settings : Settings) (history : List Action) (s : Session)
    (last : List Finished) : Prop where
  ordered : last.Pairwise fun a b => a.place < b.place ∧ a.seq < b.seq
  numbered : ∀ f ∈ last, f.seq < s.nextSeq
  exact : ∀ key i output, LastAt settings history key i output ↔
    ∃ f ∈ last, f.key = key ∧ f.place = i ∧ f.output = output
  entries : s.modules.entries.Perm (last.map fun f => (f.key, f.retained))

/-- A course agrees with its history. -/
structure Tracks (settings : Settings) (history : List Action) (c : Course) : Prop where
  clock : c.clock = history.length
  going : ∀ g ∈ c.going, g.Fits settings history c.session
  modules : ∃ last, Holds settings history c.session last

section Grow

variable {settings : Settings} {history : List Action} {a : Action} {s t : Session} {g : Going}
  {last : List Finished}

theorem Going.Fits.snoc (h : g.Fits settings history s)
    (ht : t.generation g.ticket.key = s.generation g.ticket.key)
    (ha : ∀ file, a = .hotUpdate file → moduleKey file ≠ g.ticket.key) :
    g.Fits settings (history ++ [a]) t where
  begun := getElem?_snoc.2 (.inl h.begun)
  owned := h.owned
  key := h.key
  le := ht ▸ h.le
  fresh_iff := by
    rw [ht, h.fresh_iff]
    constructor
    · intro hquiet j hj hchange
      rcases changedAt_snoc.1 hchange with hchange | ⟨-, file, hfile, hkey⟩
      · exact hquiet j hj hchange
      · exact ha file hfile hkey
    · intro hquiet j hj hchange
      exact hquiet j hj (changedAt_snoc.2 (.inl hchange))

/-- A change of its file makes a ticket stale. -/
theorem Going.Fits.change {file : String} (h : g.Fits settings history s)
    (hfile : moduleKey file = g.ticket.key) :
    g.Fits settings (history ++ [.hotUpdate file]) (s.change file) where
  begun := getElem?_snoc.2 (.inl h.begun)
  owned := h.owned
  key := h.key
  le := by
    have hle := h.le
    rw [generation_change, if_pos hfile]
    omega
  fresh_iff := by
    have hle := h.le
    rw [generation_change, if_pos hfile]
    constructor
    · intro heq
      omega
    · intro hquiet
      have hchange : ChangedAt (history ++ [.hotUpdate file]) g.ticket.key history.length :=
        changedAt_snoc.2 (.inr ⟨rfl, file, rfl, hfile⟩)
      exact absurd hchange (hquiet _ (lt_length_of_getElem? h.begun))

theorem Holds.snoc_of_idle (h : Holds settings history s last) (hmodules : t.modules = s.modules)
    (hseq : t.nextSeq = s.nextSeq)
    (hquiet : ∀ file, a = .hotUpdate file → settings.owns file = false)
    (hidle : ∀ key output, ¬ Keeps history key a output) :
    Holds settings (history ++ [a]) t last where
  ordered := h.ordered
  numbered := hseq ▸ h.numbered
  exact := fun key i output => by rw [lastAt_snoc_of_idle hquiet hidle, h.exact]
  entries := hmodules ▸ h.entries

theorem Holds.snoc_change {file : String} (howns : settings.owns file = true) :
    Holds settings (history ++ [.hotUpdate file]) (s.change file) [] where
  ordered := .nil
  numbered := by simp
  exact := fun key i output => by simp [not_lastAt_snoc_change howns]
  entries := by simp [change, Table.empty]

/-- Finished results have their places before the end of the history. -/
theorem Holds.place_lt (h : Holds settings history s last) {f : Finished} (hf : f ∈ last) :
    f.place < history.length :=
  ((h.exact f.key f.place f.output).2 ⟨f, hf, rfl, rfl, rfl⟩).kept.lt_length

theorem Holds.snoc_of_keeps (h : Holds settings history s last) {key : String} {output : Output}
    (hkeeps : Keeps history key a output) :
    Holds settings (history ++ [a]) (s.retain key output.assets output.counts)
      (last.filter (·.key ≠ key) ++ [⟨history.length, key, output, s.nextSeq⟩]) where
  ordered := by
    refine List.pairwise_append.2 ⟨h.ordered.filter _, List.pairwise_singleton _ _, ?_⟩
    intro f hf e he
    obtain rfl := List.mem_singleton.1 he
    have hmem := (List.mem_filter.1 hf).1
    exact ⟨h.place_lt hmem, h.numbered f hmem⟩
  numbered := by
    intro f hf
    rcases List.mem_append.1 hf with hf | hf
    · have hlt := h.numbered f (List.mem_filter.1 hf).1
      exact Nat.lt_succ_of_lt hlt
    · obtain rfl := List.mem_singleton.1 hf
      exact Nat.lt_succ_self _
  exact := by
    intro other i later
    rw [lastAt_snoc_of_keeps hkeeps, h.exact]
    constructor
    · rintro (⟨hne, f, hf, rfl, rfl, rfl⟩ | ⟨rfl, rfl, rfl⟩)
      · exact ⟨f, List.mem_append_left _ (List.mem_filter.2 ⟨hf, by simpa using hne⟩), rfl, rfl, rfl⟩
      · exact ⟨_, List.mem_append_right _ (List.mem_singleton.2 rfl), rfl, rfl, rfl⟩
    · rintro ⟨f, hf, rfl, rfl, rfl⟩
      rcases List.mem_append.1 hf with hf | hf
      · obtain ⟨hmem, hne⟩ := List.mem_filter.1 hf
        exact .inl ⟨by simpa using hne, f, hmem, rfl, rfl, rfl⟩
      · obtain rfl := List.mem_singleton.1 hf
        exact .inr ⟨rfl, rfl, rfl⟩
  entries := by
    have hinsert := Table.insertEntry_perm key
      (⟨output.assets, output.counts, s.nextSeq⟩ : Retained) s.modules.sorted
    have hfilter := h.entries.filter fun e => e.1 ≠ key
    rw [List.filter_map] at hfilter
    have hswap := (hfilter.cons (key, ⟨output.assets, output.counts, s.nextSeq⟩)).trans
      (List.perm_append_singleton _ _).symm
    simpa [retain, Table.insert, Finished.retained, Function.comp_def] using hinsert.trans hswap

end Grow

/-! ## Every step and every run -/

theorem generation_conclude (s : Session) (ticket : Ticket) (id key : String)
    (result : Except CompileError Output) :
    (s.conclude ticket id result).1.generation key = s.generation key := by
  cases result with
  | error e => rfl
  | ok output =>
      by_cases h : s.generation ticket.key = ticket.generation
      · rw [(conclude_fresh id output h).1]
        rfl
      · rw [(conclude_stale id output h).1]
        rfl

theorem owns_eq_of_moduleKey (settings : Settings) {a b : String} (h : moduleKey a = moduleKey b) :
    settings.owns a = settings.owns b := by
  simp [Settings.owns, h]

section Run

variable {settings : Settings} {history : List Action} {a : Action} {c d : Course} {g : Going}
  {place : Nat} {output : Output}

theorem Course.find?_spec (h : c.find? place = some g) : g ∈ c.going ∧ g.place = place :=
  ⟨List.mem_of_find?_eq_some h, by simpa using List.find?_some h⟩

/-- A result is kept exactly if the ticket is still good. -/
theorem Going.Fits.keeps_iff {key : String} {later : Output}
    (h : g.Fits settings history c.session) :
    Keeps history key (.conclude g.place (.ok output)) later ↔
      key = moduleKey g.id ∧ later = output ∧
        c.session.generation g.ticket.key = g.ticket.generation := by
  rw [h.fresh_iff, h.key]
  constructor
  · rintro ⟨place, id, ha, hplace, rfl, hquiet⟩
    obtain ⟨rfl, hresult⟩ := Action.conclude.inj ha
    rw [h.begun] at hplace
    obtain rfl := Action.begin.inj (Option.some.inj hplace)
    exact ⟨rfl, (Except.ok.inj hresult).symm, hquiet⟩
  · rintro ⟨rfl, rfl, hquiet⟩
    exact ⟨g.place, g.id, rfl, h.begun, rfl, hquiet⟩

theorem Tracks.begin (h : Tracks settings history c) {id : String}
    (howns : settings.owns id = true) :
    Tracks settings (history ++ [.begin id]) ⟨(c.session.begin id).2,
      ⟨c.clock, id, (c.session.begin id).1⟩ :: c.going, c.clock + 1⟩ where
  clock := by simp [h.clock]
  going := by
    intro g hg
    rcases List.mem_cons.1 hg with rfl | hg
    · refine ⟨getElem?_snoc.2 (.inr ⟨h.clock, rfl⟩), howns, rfl, Nat.le_refl _, ?_⟩
      refine ⟨fun _ j hj hchange => ?_, fun _ => rfl⟩
      have hlt := hchange.lt_length
      have hclock := h.clock
      simp at hlt hj
      omega
    · refine (h.going g hg).snoc rfl ?_
      intro file hfile
      contradiction
  modules := by
    obtain ⟨last, hlast⟩ := h.modules
    refine ⟨last, hlast.snoc_of_idle rfl rfl ?_ ?_⟩
    · intro file hfile
      contradiction
    · rintro key output ⟨place, id, ha, -⟩
      contradiction

theorem Tracks.hotUpdate (h : Tracks settings history c) (file : String) :
    Tracks settings (history ++ [.hotUpdate file])
      ⟨(c.session.hotUpdate settings file).1, c.going, c.clock + 1⟩ := by
  obtain ⟨last, hlast⟩ := h.modules
  cases howns : settings.owns file with
  | true =>
      simp only [Session.hotUpdate, howns, if_true]
      refine ⟨by simp [h.clock], fun g hg => ?_, [], Holds.snoc_change howns⟩
      by_cases hkey : moduleKey file = g.ticket.key
      · exact (h.going g hg).change hkey
      · refine (h.going g hg).snoc (by simp [generation_change, hkey]) ?_
        rintro _ ⟨rfl⟩
        exact hkey
  | false =>
      simp only [Session.hotUpdate, howns]
      refine ⟨by simp [h.clock], fun g hg => ?_, last, hlast.snoc_of_idle rfl rfl ?_ ?_⟩
      · have hg := h.going g hg
        refine hg.snoc rfl ?_
        rintro _ ⟨rfl⟩ hkey
        rw [hg.key] at hkey
        rw [owns_eq_of_moduleKey settings hkey, hg.owned] at howns
        contradiction
      · rintro _ ⟨rfl⟩
        exact howns
      · rintro key output ⟨place, id, ha, -⟩
        contradiction

theorem Tracks.conclude (h : Tracks settings history c) (hg : c.find? place = some g)
    (result : Except CompileError Output) :
    Tracks settings (history ++ [.conclude place result])
      ⟨(c.session.conclude g.ticket g.id result).1, c.going.filter (·.place ≠ place),
        c.clock + 1⟩ := by
  obtain ⟨hmem, rfl⟩ := Course.find?_spec hg
  have hfits := h.going g hmem
  obtain ⟨last, hlast⟩ := h.modules
  have hquiet : ∀ file, Action.conclude g.place result = .hotUpdate file →
      settings.owns file = false := by
    intro file hfile
    contradiction
  refine ⟨by simp [h.clock], fun e he => ?_, ?_⟩
  · refine (h.going e (List.mem_filter.1 he).1).snoc (generation_conclude ..) ?_
    intro file hfile
    contradiction
  · cases result with
    | error e =>
        refine ⟨last, hlast.snoc_of_idle rfl rfl hquiet ?_⟩
        rintro key output ⟨place, id, ha, -⟩
        have hresult := (Action.conclude.inj ha).2
        contradiction
    | ok output =>
        by_cases hfresh : c.session.generation g.ticket.key = g.ticket.generation
        · rw [(conclude_fresh g.id output hfresh).1]
          have hkeeps : Keeps history g.ticket.key (.conclude g.place (.ok output)) output :=
            hfits.keeps_iff.2 ⟨hfits.key, rfl, hfresh⟩
          have habandon : Holds settings history c.session.abandon last :=
            ⟨hlast.ordered, hlast.numbered, hlast.exact, hlast.entries⟩
          exact ⟨_, habandon.snoc_of_keeps hkeeps⟩
        · rw [(conclude_stale g.id output hfresh).1]
          refine ⟨last, hlast.snoc_of_idle rfl rfl hquiet fun key later hkeeps => ?_⟩
          exact hfresh (hfits.keeps_iff.1 hkeeps).2.2

/-- Whatever happens next, a course that agrees with its history goes on to do so. -/
theorem Tracks.step (h : Tracks settings history c) (hstep : c.step settings a = some d) :
    Tracks settings (history ++ [a]) d := by
  cases a with
  | begin id =>
      rw [Course.step] at hstep
      split at hstep
      · next howns =>
          obtain rfl := Option.some.inj hstep
          exact h.begin howns
      · contradiction
  | conclude place result =>
      obtain ⟨g, hg, hd⟩ := Option.bind_eq_some_iff.1 hstep
      obtain rfl := Option.some.inj hd
      exact h.conclude hg result
  | hotUpdate file =>
      obtain rfl := Option.some.inj hstep
      exact h.hotUpdate file

theorem Course.run_snoc (settings : Settings) (history : List Action) (a : Action) :
    run settings (history ++ [a]) = (run settings history).bind (step settings · a) := by
  simp [run, List.foldlM_append]

theorem tracks_start (settings : Settings) : Tracks settings [] .start where
  clock := rfl
  going := by simp [Course.start]
  modules := by
    refine ⟨[], .nil, by simp, fun key i output => ?_, .nil⟩
    have hnone : ¬ LastAt settings [] key i output := fun h => absurd h.kept.lt_length (by simp)
    simp [hnone]

theorem tracks_run (h : Course.run settings history = some c) : Tracks settings history c := by
  induction history using List.reverseRecOn generalizing c with
  | nil =>
      obtain rfl := Option.some.inj h
      exact tracks_start settings
  | append_singleton history a ih =>
      rw [Course.run_snoc] at h
      obtain ⟨b, hb, hstep⟩ := Option.bind_eq_some_iff.1 h
      exact (ih hb).step hstep

/-- The state just before an element of a list is taken up, and just after it. -/
theorem foldlM_take {α β : Type} {f : β → α → Option β} {init e : β} {l : List α} {x : α} {i : Nat}
    (h : l.foldlM f init = some e) (hi : l[i]? = some x) :
    ∃ b d, (l.take i).foldlM f init = some b ∧ f b x = some d ∧
      (l.take (i + 1)).foldlM f init = some d := by
  have htake : l.take (i + 1) = l.take i ++ [x] := by
    rw [List.take_add_one, hi, Option.toList_some]
  have hrun : ∃ d, (l.take (i + 1)).foldlM f init = some d := by
    rw [← List.take_append_drop (i + 1) l, List.foldlM_append] at h
    obtain ⟨d, hd, -⟩ := Option.bind_eq_some_iff.1 h
    exact ⟨d, hd⟩
  obtain ⟨d, hd⟩ := hrun
  have hsnoc := hd
  rw [htake, List.foldlM_append] at hsnoc
  obtain ⟨b, hb, hstep⟩ := Option.bind_eq_some_iff.1 hsnoc
  exact ⟨b, d, hb, by simpa using hstep, hd⟩

/-! ## What follows from agreement -/

theorem changedAt_take {key : String} {i j : Nat} :
    ChangedAt (history.take i) key j ↔ j < i ∧ ChangedAt history key j := by
  simp only [ChangedAt, List.getElem?_take]
  by_cases h : j < i <;> simp [h]

theorem KeptAt.of_take {key : String} {i n : Nat} (h : KeptAt (history.take n) key i output) :
    KeptAt history key i output := by
  obtain ⟨place, id, hi, hlt, hplace, hkey, hquiet⟩ := h
  have hget : ∀ {j : Nat} {b}, (history.take n)[j]? = some b → history[j]? = some b := by
    intro j b hj
    rw [List.getElem?_take] at hj
    split at hj
    · exact hj
    · contradiction
  have hin : i < n := by
    have := lt_length_of_getElem? hi
    rw [List.length_take] at this
    omega
  refine ⟨place, id, hget hi, hlt, hget hplace, hkey, fun j hj hji hchange => ?_⟩
  exact hquiet j hj hji (changedAt_take.2 ⟨by omega, hchange⟩)

/-- A compilation gives nothing exactly if its file has changed since it began. -/
theorem Tracks.discarded_iff (h : Tracks settings history c) (hg : c.find? place = some g) :
    (c.session.conclude g.ticket g.id (.ok output)).2.1 = .none ↔
      ∃ j, place < j ∧ ChangedAt history (moduleKey g.id) j := by
  obtain ⟨hmem, rfl⟩ := Course.find?_spec hg
  have hfits := h.going g hmem
  have hfresh := hfits.fresh_iff
  rw [← hfits.key]
  by_cases heq : c.session.generation g.ticket.key = g.ticket.generation
  · rw [(conclude_fresh g.id output heq).2]
    have hquiet := hfresh.1 heq
    constructor
    · intro hnone
      contradiction
    · rintro ⟨j, hj, hchange⟩
      exact absurd hchange (hquiet j hj)
  · rw [(conclude_stale g.id output heq).2]
    have hchange := mt hfresh.2 heq
    simpa using hchange

theorem Holds.get?_eq_some_iff {s : Session} {last : List Finished} {key : String} {r : Retained}
    (h : Holds settings history s last) :
    s.modules.get? key = some r ↔ ∃ f ∈ last, f.key = key ∧ f.retained = r := by
  rw [Table.get?_eq_some_iff, h.entries.mem_iff, List.mem_map]
  simp [Prod.ext_iff]

/-- Among the results of a file that survive there is a last one. -/
theorem exists_lastAt {key : String} {i : Nat} (hkept : KeptAt history key i output)
    (hquiet : QuietAfter settings history i) : ∃ j later, LastAt settings history key j later := by
  induction hn : history.length - i using Nat.strongRecOn generalizing i output with
  | _ n ih =>
      by_cases hlater : ∃ j later, i < j ∧ KeptAt history key j later
      · obtain ⟨j, later, hj, hlater⟩ := hlater
        have hlt := hlater.lt_length
        refine ih (history.length - j) (by omega) hlater ?_ rfl
        exact fun k file hk => hquiet k file (by omega)
      · refine ⟨i, output, hkept, hquiet, fun j later hj hkept => ?_⟩
        exact hlater ⟨j, later, hj, hkept⟩

/-- Sorting by number gives the results in the order of their places. -/
theorem Holds.inOrder_eq {s : Session} {last : List Finished}
    (h : Holds settings history s last) :
    inOrder (s.modules.entries.map Prod.snd) = last.map Finished.retained := by
  have hperm : (s.modules.entries.map Prod.snd).Perm (last.map Finished.retained) := by
    simpa [Function.comp_def] using h.entries.map Prod.snd
  exact inOrder_eq_of_perm hperm (List.pairwise_map.2 (h.ordered.imp fun hab => hab.2))

theorem Holds.merged_eq {s : Session} {last : List Finished} (h : Holds settings history s last) :
    s.merged = (last.map fun f => (f.place, f.output)).foldl
      (fun acc e => (acc.1.merge e.2.assets, acc.2.add e.2.counts)) (.empty, .zero) := by
  rw [merged, mergeModules, h.inOrder_eq, List.foldl_map, List.foldl_map]
  rfl

theorem Course.exists_conclude {i : Nat} {result : Except CompileError Output}
    (h : run settings history = some c) (hi : history[i]? = some (.conclude place result)) :
    ∃ b g, run settings (history.take i) = some b ∧ b.find? place = some g ∧
      run settings (history.take (i + 1)) = some ⟨(b.session.conclude g.ticket g.id result).1,
        b.going.filter (·.place ≠ place), b.clock + 1⟩ := by
  obtain ⟨b, d, hb, hstep, hd⟩ := foldlM_take h hi
  obtain ⟨g, hg, hsome⟩ := Option.bind_eq_some_iff.1 hstep
  rw [← Option.some.inj hsome] at hd
  exact ⟨b, g, hb, hg, hd⟩

theorem Course.conclude_eq_none_iff {i : Nat} (h : run settings history = some c)
    (hi : history[i]? = some (.conclude place (.ok output))) :
    ∃ b g, run settings (history.take i) = some b ∧ b.find? place = some g ∧
      history[place]? = some (.begin g.id) ∧
      ((b.session.conclude g.ticket g.id (.ok output)).2.1 = .none ↔
        ∃ j, place < j ∧ j < i ∧ ChangedAt history (moduleKey g.id) j) := by
  obtain ⟨b, g, hb, hg, -⟩ := exists_conclude h hi
  have htracks := tracks_run hb
  obtain ⟨hmem, hplace⟩ := find?_spec hg
  refine ⟨b, g, hb, hg, ?_, ?_⟩
  · have hbegun := (htracks.going g hmem).begun
    rw [hplace, List.getElem?_take] at hbegun
    split at hbegun
    · exact hbegun
    · contradiction
  · rw [htracks.discarded_iff hg]
    simp only [changedAt_take]

theorem Course.modules_eq_of_not_keptAt {i : Nat} {result : Except CompileError Output}
    (h : run settings history = some c) (hi : history[i]? = some (.conclude place result))
    (hnot : ∀ key output, ¬ KeptAt history key i output) :
    ∃ b d, run settings (history.take i) = some b ∧ run settings (history.take (i + 1)) = some d ∧
      d.session.modules = b.session.modules := by
  obtain ⟨b, g, hb, hg, hd⟩ := exists_conclude h hi
  refine ⟨b, _, hb, hd, ?_⟩
  cases result with
  | error e => rfl
  | ok output =>
      obtain ⟨hmem, rfl⟩ := find?_spec hg
      have hfits := (tracks_run hb).going g hmem
      by_cases hfresh : b.session.generation g.ticket.key = g.ticket.generation
      · have hkeeps : Keeps (history.take i) (moduleKey g.id) (.conclude g.place (.ok output)) output :=
          hfits.keeps_iff.2 ⟨rfl, rfl, hfresh⟩
        have hlength : (history.take i).length = i :=
          List.length_take_of_le (Nat.le_of_lt (lt_length_of_getElem? hi))
        have hkept : KeptAt (history.take (i + 1)) (moduleKey g.id) i output := by
          rw [List.take_add_one, hi, Option.toList_some]
          exact keptAt_snoc.2 (.inr ⟨hlength.symm, hkeeps⟩)
        exact absurd hkept.of_take (hnot _ _)
      · rw [(conclude_stale g.id output hfresh).1]
        rfl

/-- What a session answers and what it holds, said by its history alone. -/
structure FollowsHistory (settings : Settings) (history : List Action) (c : Course) : Prop where
  /-- A compilation gives nothing exactly if its file changed while it was going on. -/
  answers : ∀ i place output, history[i]? = some (.conclude place (.ok output)) →
    ∃ b g, Course.run settings (history.take i) = some b ∧ b.find? place = some g ∧
      history[place]? = some (.begin g.id) ∧
      ((b.session.conclude g.ticket g.id (.ok output)).2.1 = .none ↔
        ∃ j, place < j ∧ j < i ∧ ChangedAt history (moduleKey g.id) j)
  /-- A file is held exactly if a result of it was kept and no source file has changed since. -/
  held_iff : ∀ key, (c.session.modules.get? key).isSome ↔
    ∃ i output, KeptAt history key i output ∧ QuietAfter settings history i
  /-- What is held is the last such result. -/
  held : ∀ key r, c.session.modules.get? key = some r →
    ∃ i output, LastAt settings history key i output ∧ r.assets = output.assets ∧
      r.counts = output.counts
  /-- The last results are merged in the order in which they finished. -/
  merged : ∃ last : List (Nat × Output), last.Pairwise (fun a b => a.1 < b.1) ∧
    (∀ i output, (i, output) ∈ last ↔ ∃ key, LastAt settings history key i output) ∧
    c.session.merged = last.foldl
      (fun acc e => (acc.1.merge e.2.assets, acc.2.add e.2.counts)) (.empty, .zero)
  /-- A compilation that fails or is discarded leaves what is held. -/
  unmoved : ∀ i place result, history[i]? = some (.conclude place result) →
    (∀ key output, ¬ KeptAt history key i output) →
    ∃ b d, Course.run settings (history.take i) = some b ∧
      Course.run settings (history.take (i + 1)) = some d ∧
      d.session.modules = b.session.modules

/-- However compilations and changes interleave, a session follows its history. -/
theorem session_follows_history (h : Course.run settings history = some c) :
    FollowsHistory settings history c := by
  obtain ⟨last, hlast⟩ := (tracks_run h).modules
  refine ⟨fun i place output hi => Course.conclude_eq_none_iff h hi, fun key => ?_,
    fun key r hr => ?_, ⟨last.map fun f => (f.place, f.output), ?_, fun i output => ?_,
      hlast.merged_eq⟩, fun i place result hi => Course.modules_eq_of_not_keptAt h hi⟩
  · constructor
    · intro hsome
      obtain ⟨r, hr⟩ := Option.isSome_iff_exists.1 hsome
      obtain ⟨f, hf, rfl, -⟩ := hlast.get?_eq_some_iff.1 hr
      have hlastAt := (hlast.exact f.key f.place f.output).2 ⟨f, hf, rfl, rfl, rfl⟩
      exact ⟨f.place, f.output, hlastAt.kept, hlastAt.quiet⟩
    · rintro ⟨i, output, hkept, hquiet⟩
      obtain ⟨j, later, hlastAt⟩ := exists_lastAt hkept hquiet
      obtain ⟨f, hf, hkey, -⟩ := (hlast.exact key j later).1 hlastAt
      rw [hlast.get?_eq_some_iff.2 ⟨f, hf, hkey, rfl⟩]
      rfl
  · obtain ⟨f, hf, rfl, rfl⟩ := hlast.get?_eq_some_iff.1 hr
    exact ⟨f.place, f.output, (hlast.exact _ _ _).2 ⟨f, hf, rfl, rfl, rfl⟩, rfl, rfl⟩
  · exact List.pairwise_map.2 (hlast.ordered.imp fun hab => hab.1)
  · simp only [List.mem_map, Prod.mk.injEq, hlast.exact]
    constructor
    · rintro ⟨f, hf, hplace, houtput⟩
      exact ⟨f.key, f, hf, rfl, hplace, houtput⟩
    · rintro ⟨key, f, hf, -, hplace, houtput⟩
      exact ⟨f, hf, hplace, houtput⟩

end Run

/--
Two compilations of one file overlap with one of another.  A change of the first file discards both
of its results and clears the other; one more compilation is kept.
-/
theorem session_follows_history_overlap :
    let output : Output := ⟨"", .empty, [], ⟨1, 0, 0⟩⟩
    let history : List Action :=
      [.begin "a.csspp", .begin "b.csspp", .begin "a.csspp?inline", .conclude 1 (.ok output),
        .hotUpdate "a.csspp?t=1", .conclude 2 (.ok output), .begin "a.csspp",
        .conclude 6 (.ok output), .conclude 0 (.ok output)]
    ∃ c, Course.run .default history = some c ∧ FollowsHistory .default history c ∧
      c.session.modules.entries = [("a.csspp", ⟨.empty, ⟨1, 0, 0⟩, 1⟩)] := by
  intro output history
  have hrun : (Course.run .default history).map (·.session.modules.entries) =
      some [("a.csspp", ⟨.empty, ⟨1, 0, 0⟩, 1⟩)] := by
    decide +kernel
  obtain ⟨c, hc, hentries⟩ := Option.map_eq_some_iff.1 hrun
  exact ⟨c, hc, session_follows_history hc, hentries⟩

end Session

end RichStyle
