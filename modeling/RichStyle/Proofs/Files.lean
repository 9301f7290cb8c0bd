import RichStyle.Files.Tree

/-!
# Writing files

What can come of writing a file in a directory, whatever the files are kept in; and for the files of
a tree, that a text which is written to a file is read back from it and that no other file changes.  The
way to the file leads through directories only, so it stays the same when directories are made and when
the file is put in its place.  Of several texts that are written to one place the last stays.
-/

namespace RichStyle

variable {σ : Type}

namespace Files

/-- A file holds what was written to it: a write is complete, or it reports an error. -/
def Faithful (files : Files (StateM σ)) : Prop :=
  ∀ {path text : String} {t written : σ}, files.writeText path text t = (.ok (), written) →
    (files.readText path written).1 = .ok text

/-- What can come of writing a file in a directory, and the state in which it leaves the files. -/
inductive WritesIn (files : Files (StateM σ)) (directory path text : String) (t : σ) :
    Except FileError Unit → σ → Prop where
  | noDirectory {cause : FileCause} {left : σ}
      (hmake : files.createDirs directory t = (.error cause, left)) :
      WritesIn files directory path text t (.error ⟨directory, cause⟩) left
  | noFile {made left : σ} {cause : FileCause}
      (hmake : files.createDirs directory t = (.ok (), made))
      (hwrite : files.writeText path text made = (.error cause, left)) :
      WritesIn files directory path text t (.error ⟨path, cause⟩) left
  | written {made left : σ} (hmake : files.createDirs directory t = (.ok (), made))
      (hwrite : files.writeText path text made = (.ok (), left)) :
      WritesIn files directory path text t (.ok ()) left

theorem writesIn (files : Files (StateM σ)) (directory path text : String) (t : σ) :
    WritesIn files directory path text t (files.writeIn directory path text t).1
      (files.writeIn directory path text t).2 := by
  cases hmake : files.createDirs directory t with
  | mk outcome made =>
      cases outcome with
      | error cause =>
          simp only [writeIn, bind, StateT.bind, hmake]
          exact .noDirectory hmake
      | ok =>
          cases hwrite : files.writeText path text made with
          | mk outcome left =>
              simp only [writeIn, write, bind, StateT.bind, hmake, hwrite]
              cases outcome with
              | error cause => exact .noFile hmake hwrite
              | ok => exact .written hmake hwrite

theorem write_eq_ok (files : Files (StateM σ)) {path text : String} {t left : σ}
    (h : files.write path text t = (.ok (), left)) :
    files.writeText path text t = (.ok (), left) := by
  cases hwrite : files.writeText path text t with
  | mk outcome after =>
      simp only [write, bind, StateT.bind, hwrite] at h
      cases outcome with
      | error cause => cases h
      | ok =>
          cases h
          rfl

/-- A new file is written when the directory that is to hold it, if there is to be one, is made. -/
theorem writeNew_cases (files : Files (StateM σ)) {path text : String} {t left : σ}
    (h : files.writeNew path text t = (.ok (), left)) :
    ∃ made, (made = t ∨ ∃ directory, files.createDirs directory t = (.ok (), made)) ∧
      files.writeText path text made = (.ok (), left) := by
  cases hparent : Path.parent? path with
  | none =>
      simp only [writeNew, hparent] at h
      exact ⟨t, .inl rfl, files.write_eq_ok h⟩
  | some directory =>
      simp only [writeNew, hparent] at h
      split at h
      · exact ⟨t, .inl rfl, files.write_eq_ok h⟩
      · have hwrites := files.writesIn directory path text t
        rw [h] at hwrites
        cases hwrites with
        | @written made _ hmake hwrite => exact ⟨made, .inr ⟨directory, hmake⟩, hwrite⟩

end Files

namespace FileTree

variable {t written : FileTree} {names other : List String} {node : Node}

theorem node?_set_of_ne (h : other ≠ names) : (t.set names node).node? other = t.node? other := by
  have hbeq : (other == names) = false := beq_false_of_ne h
  have hlookup : (t.nodes.filter fun e => e.1 != names).lookup other = t.nodes.lookup other := by
    induction t.nodes with
    | nil => rfl
    | cons e nodes ih =>
        obtain ⟨key, node⟩ := e
        by_cases hkey : key = names
        · subst hkey
          simp [List.lookup_cons, hbeq, ih]
        · simp [List.lookup_cons, hkey, ih]
  simp [node?, set, List.lookup_cons, hbeq, hlookup]

theorem node?_set_self (h : t.node? names ≠ some .directory) :
    (t.set names node).node? names = some node := by
  unfold node? at h ⊢
  by_cases hinside : names.isPrefixOf t.directory = true
  · simp [hinside] at h
  · simp [set, hinside]

/-! ## Ways through directories -/

/-- The directories of one tree are directories of the other, so every way through them stays. -/
structure KeepsDirectories (t u : FileTree) : Prop where
  directory : u.directory = t.directory
  node : ∀ names, t.node? names = some .directory → u.node? names = some .directory

theorem KeepsDirectories.trans {u v : FileTree} (h : t.KeepsDirectories u) (h' : u.KeepsDirectories v) :
    t.KeepsDirectories v :=
  ⟨h'.directory.trans h.directory, fun names hnames => h'.node names (h.node names hnames)⟩

theorem keepsDirectories_set (h : t.node? names ≠ some .directory) (node : Node) :
    t.KeepsDirectories (t.set names node) := by
  refine ⟨rfl, fun other hother => ?_⟩
  have hne : other ≠ names := fun heq => h (heq ▸ hother)
  rw [node?_set_of_ne hne]
  exact hother

section Ways

variable {u : FileTree} (h : t.KeepsDirectories u)
include h

theorem KeepsDirectories.follow {directory found : List String}
    (hfound : t.follow directory names = .ok found) : u.follow directory names = .ok found := by
  fun_induction FileTree.follow t directory names with
  | case1 directory => exact hfound
  | case2 directory names ih =>
      rw [FileTree.follow]
      exact ih hfound
  | case3 directory name names hname hdirectory ih =>
      rw [FileTree.follow, h.node _ hdirectory]
      · exact ih hfound
      · exact hname
  | case4 => cases hfound
  | case5 => cases hfound

theorem KeepsDirectories.target {path : String} {target : Target}
    (htarget : t.target path = .ok target) : u.target path = .ok target := by
  have hbind : ∀ {names : List String} {make : List String → Target},
      (do .ok (make (← t.follow (t.origin path) names)) : Except FileCause Target) = .ok target →
        (do .ok (make (← u.follow (t.origin path) names))) = Except.ok target := by
    intro names make hmake
    cases hfound : t.follow (t.origin path) names with
    | error cause =>
        rw [hfound] at hmake
        cases hmake
    | ok found =>
        rw [hfound] at hmake
        rw [h.follow hfound]
        exact hmake
  have horigin : u.origin path = t.origin path := by rw [origin, origin, h.directory]
  simp only [FileTree.target, horigin] at htarget ⊢
  split at htarget
  · cases htarget
  · next hpath =>
      rw [if_neg hpath]
      split at htarget
      · exact htarget
      · split at htarget
        · next hdirectory =>
            rw [if_pos hdirectory]
            exact hbind htarget
        · next hdirectory =>
            rw [if_neg hdirectory]
            exact hbind htarget

end Ways

/-! ## Making directories -/

/-- Directories have been made where nothing stood; all else is as it was. -/
structure Grows (t u : FileTree) : Prop where
  directory : u.directory = t.directory
  node : ∀ names, u.node? names = t.node? names ∨
    t.node? names = none ∧ u.node? names = some .directory

namespace Grows

variable {t u v : FileTree}

theorem refl (t : FileTree) : t.Grows t := ⟨rfl, fun _ => .inl rfl⟩

theorem trans (h : t.Grows u) (h' : u.Grows v) : t.Grows v := by
  refine ⟨h'.directory.trans h.directory, fun names => ?_⟩
  rcases h'.node names with hv | ⟨hu, hv⟩
  · rw [hv]
    exact h.node names
  · rcases h.node names with hsame | ⟨hnone, hdirectory⟩
    · exact .inr ⟨hsame.symm.trans hu, hv⟩
    · rw [hdirectory] at hu
      cases hu

theorem keepsDirectories (h : t.Grows u) : t.KeepsDirectories u := by
  refine ⟨h.directory, fun names hnames => ?_⟩
  rcases h.node names with hsame | ⟨hnone, -⟩
  · rw [hsame]
    exact hnames
  · rw [hnames] at hnone
    cases hnone

theorem file_iff (h : t.Grows u) (names : List String) (content : ByteArray) :
    u.node? names = some (.file content) ↔ t.node? names = some (.file content) := by
  rcases h.node names with hsame | ⟨hnone, hdirectory⟩
  · rw [hsame]
  · simp [hnone, hdirectory]

end Grows

section Directories

variable {made : FileTree} {path : String}

theorem grows_createDir (h : t.createDir path = .ok made) : t.Grows made := by
  unfold createDir at h
  cases htarget : t.target path with
  | error cause => simp [htarget, bind, Except.bind] at h
  | ok target =>
      simp only [htarget, bind, Except.bind] at h
      split at h
      · cases h
      · next hnone =>
          cases h
          refine ⟨rfl, fun names => ?_⟩
          by_cases heq : names = target.names
          · subst heq
            exact .inr ⟨hnone, node?_set_self (by simp [hnone])⟩
          · exact .inl (node?_set_of_ne heq)

theorem grows_ensureDir (h : t.ensureDir path = .ok made) : t.Grows made := by
  unfold ensureDir at h
  split at h
  · next hmade =>
      cases h
      exact grows_createDir hmade
  · split at h
    · cases h
      exact .refl t
    · cases h

/-- Whatever comes of it, making directories changes nothing that was there. -/
theorem grows_createDirsWithin (fuel : Nat) (t : FileTree) (path : String) :
    t.Grows (createDirsWithin fuel t path).2 := by
  induction fuel generalizing path with
  | zero => exact .refl t
  | succ fuel ih =>
      rw [createDirsWithin]
      split
      · exact .refl t
      · split
        · next hmade => exact grows_ensureDir hmade
        · split
          · exact .refl t
          · next directory hdirectory =>
              have hrest := ih directory
              split
              · next heq =>
                  rw [heq] at hrest
                  exact hrest
              · next left heq =>
                  rw [heq] at hrest
                  split
                  · next hmade => exact hrest.trans (grows_ensureDir hmade)
                  · exact hrest
        · exact .refl t

theorem grows_createDirs (t : FileTree) (path : String) : t.Grows (t.createDirs path).2 :=
  grows_createDirsWithin _ t path

end Directories

/-! ## Places of files -/

/-- Where the file stands that a path leads to; it need not be there. -/
def place? (t : FileTree) (path : String) : Option (List String) :=
  match t.target path with
  | .ok target => if target.asDirectory then none else some target.names
  | .error _ => none

theorem place?_eq_some_iff {path : String} :
    t.place? path = some names ↔
      ∃ target, t.target path = .ok target ∧ target.asDirectory = false ∧ target.names = names := by
  unfold place?
  cases t.target path with
  | error cause => simp
  | ok target => cases hdirectory : target.asDirectory <;> simp [hdirectory]

theorem KeepsDirectories.place? {u : FileTree} {path : String} (h : t.KeepsDirectories u)
    (hplace : t.place? path = some names) : u.place? path = some names := by
  obtain ⟨target, htarget, hrest⟩ := place?_eq_some_iff.1 hplace
  exact place?_eq_some_iff.2 ⟨target, h.target htarget, hrest⟩

theorem readText_of_place {path text : String} (hplace : t.place? path = some names)
    (hnode : t.node? names = some (.file text.toUTF8)) : t.readText path = .ok text := by
  obtain ⟨target, htarget, hdirectory, rfl⟩ := place?_eq_some_iff.1 hplace
  have hcontent : t.content path = .ok text.toUTF8 := by
    simp [content, htarget, hnode, hdirectory, bind, Except.bind]
  have htext : String.fromUTF8? text.toUTF8 = some text := dif_pos text.isValidUTF8
  simp only [readText, hcontent, htext, bind, Except.bind]

/-- Paths that lead to one place give the same text. -/
theorem readText_congr {path other : String} (hpath : t.place? path = some names)
    (hother : t.place? other = some names) : t.readText path = t.readText other := by
  obtain ⟨target, htarget, hdirectory, rfl⟩ := place?_eq_some_iff.1 hpath
  obtain ⟨same, hsame, hfile, hnames⟩ := place?_eq_some_iff.1 hother
  have hcontent : t.content path = t.content other := by
    simp [content, htarget, hsame, hdirectory, hfile, hnames, bind, Except.bind]
  rw [readText, readText, hcontent]

/-- A text has been written to the place where a path leads.  Directories may have been made on the way;
no other file has changed. -/
structure Wrote (t : FileTree) (path text : String) (names : List String) (u : FileTree) : Prop where
  keeps : t.KeepsDirectories u
  place : u.place? path = some names
  node : u.node? names = some (.file text.toUTF8)
  others : ∀ other, other ≠ names → ∀ content,
    u.node? other = some (.file content) ↔ t.node? other = some (.file content)

/-! ## Writing -/

theorem writeText_spec {path text : String} (h : t.writeText path text = .ok written) :
    ∃ target, t.target path = .ok target ∧ target.asDirectory = false ∧
      t.node? target.names ≠ some .directory ∧
      written = t.set target.names (.file text.toUTF8) := by
  unfold writeText at h
  cases htarget : t.target path with
  | error cause => simp [htarget, bind, Except.bind] at h
  | ok target =>
      simp only [htarget, bind, Except.bind] at h
      split at h
      · cases h
      · next hdirectory =>
          split at h
          · cases h
          · next hnode =>
              cases h
              exact ⟨target, rfl, by simpa using hdirectory, hnode, rfl⟩

section Writing

variable {u : FileTree} {path text : String}

theorem Wrote.readText (h : t.Wrote path text names u) : u.readText path = .ok text :=
  readText_of_place h.place h.node

theorem wrote_of_writeText (h : t.writeText path text = .ok u) :
    ∃ names, t.Wrote path text names u := by
  obtain ⟨target, htarget, hdirectory, hnode, rfl⟩ := writeText_spec h
  have hkeeps := keepsDirectories_set hnode (.file text.toUTF8)
  refine ⟨target.names, hkeeps, ?_, node?_set_self hnode, fun other hne content => ?_⟩
  · exact place?_eq_some_iff.2 ⟨target, hkeeps.target htarget, hdirectory, rfl⟩
  · rw [node?_set_of_ne hne]

theorem Wrote.after_grows {made : FileTree} (hgrows : t.Grows made)
    (h : made.Wrote path text names u) : t.Wrote path text names u where
  keeps := hgrows.keepsDirectories.trans h.keeps
  place := h.place
  node := h.node
  others other hne content := (h.others other hne content).trans (hgrows.file_iff other content)

theorem files_writeText (h : files.writeText path text t = (.ok (), u)) :
    t.writeText path text = .ok u := by
  simp only [files] at h
  split at h
  · next heq =>
      cases h
      exact heq
  · cases h

/-- The files of a tree hold what was written to them. -/
theorem faithful_files : files.Faithful := by
  intro path text t written h
  obtain ⟨names, hwrote⟩ := wrote_of_writeText (files_writeText h)
  exact hwrote.readText

theorem wrote_of_writeNew (h : files.writeNew path text t = (.ok (), u)) :
    ∃ names, t.Wrote path text names u := by
  obtain ⟨made, hmade, hwrite⟩ := files.writeNew_cases h
  obtain ⟨names, hwrote⟩ := wrote_of_writeText (files_writeText hwrite)
  rcases hmade with rfl | ⟨directory, hmake⟩
  · exact ⟨names, hwrote⟩
  · have hgrows : t.Grows (t.createDirs directory).2 := grows_createDirs t directory
    have heq : t.createDirs directory = (.ok (), made) := hmake
    rw [heq] at hgrows
    exact ⟨names, hwrote.after_grows hgrows⟩

end Writing

/-! ## Writing several files -/

/-- Texts have been written to paths one after the other.  A path gives its text unless a later one leads
to the same place, and no file elsewhere has changed. -/
structure WroteAll (t : FileTree) (entries : List (String × String)) (u : FileTree) : Prop where
  keeps : t.KeepsDirectories u
  placed : ∀ e ∈ entries, ∃ names, u.place? e.1 = some names
  last : ∀ before e after, entries = before ++ e :: after →
    (∀ later ∈ after, u.place? later.1 ≠ u.place? e.1) → u.readText e.1 = .ok e.2
  others : ∀ names, (∀ e ∈ entries, u.place? e.1 ≠ some names) → ∀ content,
    u.node? names = some (.file content) ↔ t.node? names = some (.file content)

theorem WroteAll.nil (t : FileTree) : t.WroteAll [] t where
  keeps := ⟨rfl, fun _ h => h⟩
  placed := by simp
  last := by simp
  others _ _ _ := Iff.rfl

theorem Wrote.cons {u v : FileTree} {entry : String × String} {entries : List (String × String)}
    (h : t.Wrote entry.1 entry.2 names u) (hrest : u.WroteAll entries v) :
    t.WroteAll (entry :: entries) v := by
  have hplace : v.place? entry.1 = some names := hrest.keeps.place? h.place
  refine ⟨h.keeps.trans hrest.keeps, List.forall_mem_cons.2 ⟨⟨names, hplace⟩, hrest.placed⟩, ?_, ?_⟩
  · intro before e after heq hlater
    cases before with
    | nil =>
        -- nothing later leads to `names`, so what was written there is still there
        obtain ⟨rfl, rfl⟩ := List.cons.inj heq
        rw [hplace] at hlater
        exact readText_of_place hplace ((hrest.others names hlater _).2 h.node)
    | cons _ before =>
        obtain ⟨-, heq⟩ := List.cons.inj heq
        exact hrest.last before e after heq hlater
  · intro other hother content
    obtain ⟨hne, hother⟩ := List.forall_mem_cons.1 hother
    have hnames : other ≠ names := fun heq => hne (heq ▸ hplace)
    exact (hrest.others other hother content).trans (h.others other hnames content)

theorem wroteAll_of_writeAll {u : FileTree} {entries : List (String × String)}
    (h : files.writeAll entries t = (.ok (), u)) : t.WroteAll entries u := by
  induction entries generalizing t with
  | nil =>
      cases h
      exact .nil u
  | cons entry entries ih =>
      cases hwrite : files.writeNew entry.1 entry.2 t with
      | mk outcome made =>
          simp only [Files.writeAll, bind, StateT.bind, hwrite] at h
          cases outcome with
          | error e => cases h
          | ok =>
              obtain ⟨names, hwrote⟩ := wrote_of_writeNew hwrite
              exact hwrote.cons (ih h)

end FileTree

end RichStyle
