import Mathlib.Data.Set.Card
import RichStyle.Files.Tree
import RichStyle.Proofs.History

/-!
# Sessions on a host

On a host compilations begin and end, files change, and now and then the record is asked for, all of
it in any order.  `Moved` says once what each of these does; the invariants of a session follow from
it, one step at a time.
-/

namespace RichStyle

namespace Session

variable {σ : Type}

/-! ## Asking for the record -/

section Requests

variable (files : Files (StateM σ)) (settings : Settings) (timestamp : String) {s : Session}
  (directory : Option String) (bundle : List String) (found : σ)

theorem requestBundle_of_busy (h : 0 < s.inFlight) :
    s.requestBundle files settings timestamp directory bundle found = (none, found) := by
  rw [requestBundle, if_pos h]
  rfl

theorem requestBundle_of_free (h : s.inFlight = 0) :
    s.requestBundle files settings timestamp directory bundle found =
      (some (s.writeBundle files settings timestamp directory bundle found).1,
        (s.writeBundle files settings timestamp directory bundle found).2) := by
  simp only [requestBundle, h, Nat.lt_irrefl, if_false, bind, StateT.bind]
  rfl

/-- Whether the record is written or not, only the phase changes, and it is idle in the end. -/
theorem writeBundle_session (s : Session) :
    (s.writeBundle files settings timestamp directory bundle found).1.1 = s.settle := by
  unfold writeBundle
  split
  · rfl
  · simp only [bind, StateT.bind]
    split
    split <;> rfl

end Requests

/-! ## Running a host -/

/--
One thing that happens on a host: something in the history of its session, or a request for the
record.  A request finds the files in some state, whatever has become of them in the meantime.
-/
inductive Move (σ : Type) where
  | act (action : Action)
  | request (timestamp : String) (directory : Option String) (bundle : List String) (found : σ)

namespace Course

/-- A request that has to wait changes nothing; it may be made again at any time. -/
def move (files : Files (StateM σ)) (settings : Settings) (c : Course) : Move σ → Option Course
  | .act action => c.step settings action
  | .request timestamp directory bundle found =>
      match (c.session.requestBundle files settings timestamp directory bundle found).1 with
      | none => some { c with clock := c.clock + 1 }
      | some answer => some { c with session := answer.1, clock := c.clock + 1 }

/-- The course of a host from the start on. -/
def host (files : Files (StateM σ)) (settings : Settings) (moves : List (Move σ)) :
    Option Course :=
  moves.foldlM (move files settings) start

end Course

/-- What a move can do to a course, one case for each kind of move. -/
inductive Moved (settings : Settings) (c : Course) : Move σ → Course → Prop
  | begin (id : String) : Moved settings c (.act (.begin id))
      ⟨(c.session.begin id).2, ⟨c.clock, id, (c.session.begin id).1⟩ :: c.going, c.clock + 1⟩
  | conclude {g : Going} (hg : g ∈ c.going) (result : Except CompileError Output) :
      Moved settings c (.act (.conclude g.place result))
        ⟨(c.session.conclude g.ticket g.id result).1, c.going.filter (·.place ≠ g.place),
          c.clock + 1⟩
  | hotUpdate (file : String) : Moved settings c (.act (.hotUpdate file))
      ⟨(c.session.hotUpdate settings file).1, c.going, c.clock + 1⟩
  | wait (timestamp : String) (directory : Option String) (bundle : List String) (found : σ)
      (hbusy : 0 < c.session.inFlight) : Moved settings c (.request timestamp directory bundle found)
        ⟨c.session, c.going, c.clock + 1⟩
  | settle (timestamp : String) (directory : Option String) (bundle : List String) (found : σ)
      (hfree : c.session.inFlight = 0) :
      Moved settings c (.request timestamp directory bundle found)
        ⟨c.session.settle, c.going, c.clock + 1⟩

section Run

variable {files : Files (StateM σ)} {settings : Settings} {moves : List (Move σ)} {m : Move σ}
  {c d : Course} {i : Nat}

theorem Course.moved (h : c.move files settings m = some d) : Moved settings c m d := by
  cases m with
  | act action =>
      cases action with
      | begin id =>
          simp only [move, step] at h
          split at h
          · obtain rfl := Option.some.inj h
            exact .begin id
          · cases h
      | conclude place result =>
          obtain ⟨g, hg, hd⟩ := Option.bind_eq_some_iff.1 h
          obtain rfl := Option.some.inj hd
          obtain ⟨hmem, rfl⟩ := find?_spec hg
          exact .conclude hmem result
      | hotUpdate file =>
          obtain rfl := Option.some.inj h
          exact .hotUpdate file
  | request timestamp directory bundle found =>
      by_cases hbusy : 0 < c.session.inFlight
      · rw [move, requestBundle_of_busy _ _ _ _ _ _ hbusy] at h
        obtain rfl := Option.some.inj h
        exact .wait _ _ _ _ hbusy
      · have hfree : c.session.inFlight = 0 := by omega
        rw [move, requestBundle_of_free _ _ _ _ _ _ hfree] at h
        obtain rfl := Option.some.inj h
        rw [writeBundle_session]
        exact .settle _ _ _ _ hfree

/-- What holds at the start and is kept by every move holds after every run. -/
theorem Course.host_induction {P : List (Move σ) → Course → Prop} (hstart : P [] start)
    (hstep : ∀ {moves c m d}, P moves c → Moved settings c m d → P (moves ++ [m]) d)
    (h : host files settings moves = some c) : P moves c := by
  induction moves using List.reverseRecOn generalizing c with
  | nil =>
      obtain rfl := Option.some.inj h
      exact hstart
  | append_singleton moves m ih =>
      rw [host, List.foldlM_append] at h
      obtain ⟨b, hb, hm⟩ := Option.bind_eq_some_iff.1 h
      exact hstep (ih hb) (moved (by simpa using hm))

/-! ## Compilations in flight -/

/-- A compilation begins at a place, and nowhere does it end. -/
def OpenAt (moves : List (Move σ)) (i : Nat) : Prop :=
  (∃ id, moves[i]? = some (.act (.begin id))) ∧
    ∀ (j : Nat) result, moves[j]? ≠ some (.act (.conclude i result))

theorem OpenAt.lt_length (h : OpenAt moves i) : i < moves.length := by
  obtain ⟨⟨id, hid⟩, -⟩ := h
  exact lt_length_of_getElem? hid

/-- A move other than a beginning can only close a place. -/
theorem openAt_snoc (hm : ∀ id, m ≠ .act (.begin id)) :
    OpenAt (moves ++ [m]) i ↔ OpenAt moves i ∧ ∀ result, m ≠ .act (.conclude i result) := by
  simp only [OpenAt, ne_eq, getElem?_snoc]
  constructor
  · rintro ⟨⟨id, hid | ⟨-, hid⟩⟩, hopen⟩
    · exact ⟨⟨⟨id, hid⟩, fun j result hj => hopen j result (.inl hj)⟩,
        fun result hresult => hopen _ result (.inr ⟨rfl, hresult⟩)⟩
    · exact absurd hid (hm id)
  · rintro ⟨⟨⟨id, hid⟩, hopen⟩, hlast⟩
    refine ⟨⟨id, .inl hid⟩, ?_⟩
    rintro j result (hj | ⟨-, hj⟩)
    · exact hopen j result hj
    · exact hlast result hj

/-- The compilations that are going on are those that have begun and not ended. -/
structure Tickets (moves : List (Move σ)) (c : Course) : Prop where
  clock : c.clock = moves.length
  distinct : (c.going.map Going.place).Nodup
  open_iff : ∀ i, i ∈ c.going.map Going.place ↔ OpenAt moves i
  begun : ∀ (j place : Nat) result, moves[j]? = some (.act (.conclude place result)) →
    place < moves.length
  counted : c.session.inFlight = c.going.length

theorem tickets_start : Tickets ([] : List (Move σ)) .start where
  clock := rfl
  distinct := .nil
  open_iff := by simp [Course.start, OpenAt]
  begun := by simp
  counted := rfl

theorem Tickets.begin (h : Tickets moves c) (id : String) {s : Session}
    (hs : s.inFlight = c.session.inFlight + 1) (ticket : Ticket) :
    Tickets (moves ++ [.act (.begin id)]) ⟨s, ⟨c.clock, id, ticket⟩ :: c.going, c.clock + 1⟩ where
  clock := by simp [h.clock]
  distinct := by
    refine List.nodup_cons.2 ⟨fun hmem => ?_, h.distinct⟩
    have hlt := ((h.open_iff c.clock).1 hmem).lt_length
    have hclock := h.clock
    omega
  open_iff := by
    intro i
    rw [List.map_cons, List.mem_cons, h.open_iff, h.clock]
    simp only [OpenAt, ne_eq, getElem?_snoc]
    constructor
    · rintro (rfl | ⟨⟨other, hother⟩, hopen⟩)
      · refine ⟨⟨id, .inr ⟨rfl, rfl⟩⟩, ?_⟩
        rintro j result (hj | ⟨-, hj⟩)
        · have hlt := h.begun j _ result hj
          omega
        · cases hj
      · refine ⟨⟨other, .inl hother⟩, ?_⟩
        rintro j result (hj | ⟨-, hj⟩)
        · exact hopen j result hj
        · cases hj
    · rintro ⟨⟨other, hother | ⟨hi, -⟩⟩, hopen⟩
      · exact .inr ⟨⟨other, hother⟩, fun j result hj => hopen j result (.inl hj)⟩
      · exact .inl hi
  begun := by
    intro j place result hj
    rcases getElem?_snoc.1 hj with hj | ⟨-, hj⟩
    · have hlt := h.begun j place result hj
      simp
      omega
    · cases hj
  counted := by simp [hs, h.counted]

theorem length_filter_place {going : List Going} {g : Going}
    (hdistinct : (going.map Going.place).Nodup) (hg : g ∈ going) :
    going.length = (going.filter (·.place ≠ g.place)).length + 1 := by
  have hmem : g.place ∈ going.map Going.place := List.mem_map_of_mem hg
  have herase := List.length_erase_of_mem hmem
  have hpos := List.length_pos_of_mem hg
  rw [hdistinct.erase_eq_filter, List.filter_map, List.length_map, List.length_map] at herase
  have hsame : going.filter ((fun place => place != g.place) ∘ Going.place) =
      going.filter (·.place ≠ g.place) := by
    apply List.filter_congr
    intro e _
    by_cases he : e.place = g.place <;> simp [he]
  rw [hsame] at herase
  omega

theorem Tickets.conclude (h : Tickets moves c) {g : Going} (hg : g ∈ c.going)
    (result : Except CompileError Output) {s : Session}
    (hs : s.inFlight = c.session.inFlight - 1) :
    Tickets (moves ++ [.act (.conclude g.place result)])
      ⟨s, c.going.filter (·.place ≠ g.place), c.clock + 1⟩ where
  clock := by simp [h.clock]
  distinct := h.distinct.sublist (List.filter_sublist.map Going.place)
  open_iff := by
    intro i
    rw [openAt_snoc (by simp), ← h.open_iff]
    simp only [List.mem_map, List.mem_filter, ne_eq, decide_not, Bool.not_eq_true',
      decide_eq_false_iff_not, Move.act.injEq, Action.conclude.injEq, not_and]
    constructor
    · rintro ⟨e, ⟨he, hne⟩, rfl⟩
      exact ⟨⟨e, he, rfl⟩, fun _ heq => absurd heq.symm hne⟩
    · rintro ⟨⟨e, he, rfl⟩, hne⟩
      exact ⟨e, ⟨he, fun heq => hne result heq.symm rfl⟩, rfl⟩
  begun := by
    intro j place later hj
    rw [List.length_append, List.length_singleton]
    rcases getElem?_snoc.1 hj with hj | ⟨-, hj⟩
    · have hlt := h.begun j place later hj
      omega
    · cases hj
      have hlt := ((h.open_iff g.place).1 (List.mem_map_of_mem hg)).lt_length
      omega
  counted := by
    have hlength := length_filter_place h.distinct hg
    have hcounted := h.counted
    show s.inFlight = (c.going.filter (·.place ≠ g.place)).length
    omega

theorem Tickets.other (h : Tickets moves c) (hbegin : ∀ id, m ≠ .act (.begin id))
    (hconclude : ∀ place result, m ≠ .act (.conclude place result)) {s : Session}
    (hs : s.inFlight = c.session.inFlight) : Tickets (moves ++ [m]) ⟨s, c.going, c.clock + 1⟩ where
  clock := by simp [h.clock]
  distinct := h.distinct
  open_iff := by
    intro i
    rw [h.open_iff, openAt_snoc hbegin]
    simp [hconclude]
  begun := by
    intro j place result hj
    rcases getElem?_snoc.1 hj with hj | ⟨-, hj⟩
    · have hlt := h.begun j place result hj
      simp
      omega
    · exact absurd hj (hconclude place result)
  counted := hs.trans h.counted

/-- Ending a compilation lowers the count; its result is kept as the last one, or not at all. -/
theorem conclude_cases (s : Session) (ticket : Ticket) (id : String)
    (result : Except CompileError Output) :
    (s.conclude ticket id result).1 = s.abandon ∨
      ∃ output : Output, (s.conclude ticket id result).1 =
        s.abandon.retain ticket.key output.assets output.counts := by
  cases result with
  | error e => exact .inl rfl
  | ok output =>
      by_cases hfresh : s.generation ticket.key = ticket.generation
      · exact .inr ⟨output, (conclude_fresh id output hfresh).1⟩
      · exact .inl (conclude_stale id output hfresh).1

theorem conclude_inFlight (s : Session) (ticket : Ticket) (id : String)
    (result : Except CompileError Output) :
    (s.conclude ticket id result).1.inFlight = s.inFlight - 1 := by
  rcases conclude_cases s ticket id result with hs | ⟨output, hs⟩ <;> rw [hs] <;> rfl

theorem conclude_phase (s : Session) (ticket : Ticket) (id : String)
    (result : Except CompileError Output) :
    (s.conclude ticket id result).1.phase = s.phase := by
  rcases conclude_cases s ticket id result with hs | ⟨output, hs⟩ <;> rw [hs] <;> rfl

theorem hotUpdate_cases (settings : Settings) (s : Session) (file : String) :
    (s.hotUpdate settings file).1 = s ∨ (s.hotUpdate settings file).1 = s.change file := by
  unfold hotUpdate
  split
  · exact .inr rfl
  · exact .inl rfl

theorem hotUpdate_inFlight (settings : Settings) (s : Session) (file : String) :
    (s.hotUpdate settings file).1.inFlight = s.inFlight := by
  rcases hotUpdate_cases settings s file with hs | hs <;> rw [hs]
  rfl

theorem hotUpdate_phase (settings : Settings) (s : Session) (file : String) :
    (s.hotUpdate settings file).1.phase = s.phase := by
  rcases hotUpdate_cases settings s file with hs | hs <;> rw [hs]
  rfl

theorem Tickets.step (h : Tickets moves c) (hm : Moved settings c m d) :
    Tickets (moves ++ [m]) d := by
  cases hm with
  | begin id => exact h.begin id rfl _
  | conclude hg result => exact h.conclude hg result (conclude_inFlight ..)
  | hotUpdate file => exact h.other (by simp) (by simp) (hotUpdate_inFlight ..)
  | wait timestamp directory bundle found hbusy => exact h.other (by simp) (by simp) rfl
  | settle timestamp directory bundle found hfree => exact h.other (by simp) (by simp) rfl

theorem tickets_host (h : Course.host files settings moves = some c) : Tickets moves c :=
  Course.host_induction tickets_start Tickets.step h

/-- Nothing is in flight exactly if every compilation that has begun has ended. -/
theorem Tickets.inFlight_eq_zero_iff (h : Tickets moves c) :
    c.session.inFlight = 0 ↔ ∀ i, ¬ OpenAt moves i := by
  simp only [h.counted, List.length_eq_zero_iff, ← h.open_iff, List.mem_map, not_exists, not_and]
  constructor
  · intro hnil i g hg
    simp [hnil] at hg
  · intro hnone
    apply List.eq_nil_iff_forall_not_mem.2
    intro g hg
    exact hnone g.place g hg rfl

theorem Tickets.encard_open (h : Tickets moves c) :
    {i | OpenAt moves i}.encard = c.session.inFlight := by
  have hset : {i | OpenAt moves i} = ((c.going.map Going.place).toFinset : Set Nat) := by
    ext i
    simp only [Set.mem_ofPred_eq, List.coe_toFinset, ← h.open_iff]
  rw [hset, Set.encard_coe_eq_coe_finsetCard, List.toFinset_card_of_nodup h.distinct,
    List.length_map, h.counted]

/-! ## The phase -/

/-- Whenever a compilation is in flight the session is compiling, and it is never left bundling. -/
structure InPhase (s : Session) : Prop where
  transforming : 0 < s.inFlight → s.phase = .transforming
  notBundling : s.phase ≠ .bundling

theorem InPhase.step (h : InPhase c.session) (hm : Moved settings c m d) : InPhase d.session := by
  cases hm with
  | begin id => exact ⟨fun _ => rfl, by simp [Session.begin]⟩
  | @conclude g hg result =>
      refine ⟨fun hpos => ?_, ?_⟩
      · rw [conclude_inFlight] at hpos
        rw [conclude_phase]
        exact h.transforming (by omega)
      · rw [conclude_phase]
        exact h.notBundling
  | hotUpdate file =>
      refine ⟨?_, ?_⟩
      · rw [hotUpdate_inFlight, hotUpdate_phase]
        exact h.transforming
      · rw [hotUpdate_phase]
        exact h.notBundling
  | wait timestamp directory bundle found hbusy => exact h
  | settle timestamp directory bundle found hfree =>
      exact ⟨fun hpos => absurd hfree (Nat.ne_of_gt hpos), by simp [Session.settle]⟩

theorem inPhase_host (h : Course.host files settings moves = some c) : InPhase c.session :=
  Course.host_induction (P := fun _ c => InPhase c.session)
    ⟨by simp [Course.start, start], by simp [Course.start, start]⟩ InPhase.step h

/-! ## The numbers of modules -/

/-- The modules of a session have different numbers, all of them given before the next one. -/
structure Numbered (s : Session) : Prop where
  distinct : (s.modules.entries.map fun e => e.2.seq).Nodup
  below : ∀ e ∈ s.modules.entries, e.2.seq < s.nextSeq

theorem Numbered.retain {s : Session} (h : Numbered s) (key : String) (assets : Assets)
    (counts : Counts) : Numbered (s.retain key assets counts) := by
  have hperm := Table.insertEntry_perm key (⟨assets, counts, s.nextSeq⟩ : Retained) s.modules.sorted
  constructor
  · change ((Table.insertEntry key _ s.modules.entries).map _).Nodup
    rw [(hperm.map _).nodup_iff, List.map_cons, List.nodup_cons]
    refine ⟨fun hmem => ?_, h.distinct.sublist (List.filter_sublist.map _)⟩
    obtain ⟨e, he, hseq⟩ := List.mem_map.1 hmem
    exact Nat.ne_of_lt (h.below e (List.mem_filter.1 he).1) hseq
  · intro e he
    change e.2.seq < s.nextSeq + 1
    rcases Table.mem_insertEntry he with rfl | he
    · exact Nat.lt_succ_self s.nextSeq
    · have hlt := h.below e he
      omega

theorem Numbered.step (h : Numbered c.session) (hm : Moved settings c m d) :
    Numbered d.session := by
  cases hm with
  | begin id => exact ⟨h.distinct, h.below⟩
  | @conclude g hg result =>
      have habandon : Numbered c.session.abandon := ⟨h.distinct, h.below⟩
      rcases conclude_cases c.session g.ticket g.id result with hs | ⟨output, hs⟩
      · rw [hs]
        exact habandon
      · rw [hs]
        exact habandon.retain _ _ _
  | hotUpdate file =>
      rcases hotUpdate_cases settings c.session file with hs | hs
      · rw [hs]
        exact h
      · rw [hs]
        exact ⟨by simp [change, Table.empty], by simp [change, Table.empty]⟩
  | wait timestamp directory bundle found hbusy => exact h
  | settle timestamp directory bundle found hfree => exact ⟨h.distinct, h.below⟩

theorem numbered_host (h : Course.host files settings moves = some c) : Numbered c.session :=
  Course.host_induction (P := fun _ c => Numbered c.session)
    ⟨by simp [Course.start, start, Table.empty], by simp [Course.start, start, Table.empty]⟩
    Numbered.step h

/-! ## What holds on every host -/

/-- The state of a session after some moves of its host. -/
structure Sound (files : Files (StateM σ)) (settings : Settings) (moves : List (Move σ))
    (c : Course) : Prop where
  /-- As many compilations are in flight as have begun and not ended. -/
  counted : {i | OpenAt moves i}.encard = c.session.inFlight
  /-- The end of a compilation never finds the count at zero. -/
  released : ∀ (i place : Nat) result, moves[i]? = some (.act (.conclude place result)) →
    ∃ b d, Course.host files settings (moves.take i) = some b ∧
      Course.host files settings (moves.take (i + 1)) = some d ∧
      b.session.inFlight = d.session.inFlight + 1
  phase : InPhase c.session
  numbered : Numbered c.session
  /-- The modules may be found in any order. -/
  anyOrder : ∀ modules, modules.Perm (c.session.modules.entries.map Prod.snd) →
    mergeModules modules = c.session.merged

/-- However the moves of a host interleave, its session is sound. -/
theorem host_sound (h : Course.host files settings moves = some c) :
    Sound files settings moves c := by
  have hnumbered := numbered_host h
  refine ⟨(tickets_host h).encard_open, ?_, inPhase_host h, hnumbered, ?_⟩
  · intro i place result hi
    obtain ⟨b, d, hb, hmove, hd⟩ := foldlM_take h hi
    refine ⟨b, d, hb, hd, ?_⟩
    have htickets := tickets_host hb
    cases Course.moved hmove with
    | @conclude g hg _ =>
        have hpos : 0 < b.session.inFlight := by
          rw [htickets.counted]
          exact List.length_pos_of_mem hg
        rw [conclude_inFlight]
        omega
  · intro modules hperm
    apply mergeModules_eq_of_perm hperm
    simpa [Function.comp_def] using hnumbered.distinct

end Run

/--
A request waits for a compilation whose file then changes; the next one is kept, and the record is
written.
-/
theorem host_sound_waiting :
    let output : Output := ⟨"", .empty, [], ⟨1, 0, 0⟩⟩
    let request : Move FileTree := .request "now" none [] (.empty [])
    let moves : List (Move FileTree) :=
      [.act (.begin "a.csspp"), request, .act (.hotUpdate "a.csspp"), .act (.begin "a.csspp"),
        .act (.conclude 0 (.ok output)), .act (.conclude 3 (.ok output)), request]
    ∃ c, Course.host FileTree.files .default moves = some c ∧
      Sound FileTree.files .default moves c ∧ c.session.phase = .idle ∧
      c.session.modules.entries = [("a.csspp", ⟨.empty, ⟨1, 0, 0⟩, 0⟩)] := by
  intro output request moves
  have hhost : (Course.host FileTree.files .default moves).map
      (fun c => (c.session.phase, c.session.modules.entries)) =
        some (.idle, [("a.csspp", ⟨.empty, ⟨1, 0, 0⟩, 0⟩)]) := by
    decide +kernel
  obtain ⟨c, hc, hseen⟩ := Option.map_eq_some_iff.1 hhost
  obtain ⟨hphase, hentries⟩ := Prod.mk.inj hseen
  exact ⟨c, hc, host_sound hc, hphase, hentries⟩

end Session

end RichStyle
