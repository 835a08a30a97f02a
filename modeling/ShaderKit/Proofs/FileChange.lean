import Mathlib.Data.List.Infix
import ShaderKit.FileSystem.Canonical
import ShaderKit.Proofs.Success

/-!
# What it changes to write a file

Writing a file puts a file at one place where no directory is.  All other places keep what they
have, and all places that are directories stay so.  Hence a path that led somewhere leads to the
same place afterwards (`locate_set`), and unless that is the place of the file, what is read there
is the same (`read_set_of_ne`); and the path that was written to can be read, and holds what was
written (`CreatesAt.read_set`).

The last section is about two paths to one file.  If a file can be read by one path and written by
another, then `samePlace` says so (`ne_of_samePlace_eq_false`), provided that no place on the way is
too deep for a full path (`IsShallow`).
-/

set_option autoImplicit false

namespace ShaderKit
namespace FileSystem

variable {fs : FileSystem} {place other : Place} {path name : String} {data : List UInt8}

/-! ## Places -/

theorem lookup_filter_of_ne {nodes : List (Place × Node)} (h : other ≠ place) :
    (nodes.filter (·.1 ≠ place)).lookup other = nodes.lookup other := by
  induction nodes with
  | nil => rfl
  | cons entry nodes ih =>
    obtain ⟨p, node⟩ := entry
    by_cases hp : p = place
    · subst hp
      rw [List.filter_cons_of_neg (by simp), ih, List.lookup_cons, beq_false_of_ne h]
    · rw [List.filter_cons_of_pos (by simpa using hp), List.lookup_cons, List.lookup_cons, ih]

theorem node?_set_self {node : Node} (h : place ≠ []) :
    (fs.set place node).node? place = some node := by
  rw [node?, if_neg (by simpa using h), set, List.lookup_cons_self]

theorem node?_set_of_ne {node : Node} (h : other ≠ place) :
    (fs.set place node).node? other = fs.node? other := by
  rw [node?, node?, set, List.lookup_cons, beq_false_of_ne h]
  exact congrArg _ (lookup_filter_of_ne h)

/-- Of two things put at one place, the second stays. -/
theorem set_set (first second : Node) :
    (fs.set place first).set place second = fs.set place second := by
  simp only [set, List.filter_cons_of_neg, List.filter_filter, ne_eq, decide_not, decide_true,
    Bool.not_true, Bool.false_eq_true, not_false_eq_true, Bool.and_self]

/-- The root is a directory. -/
theorem ne_nil_of_not_isDirectory (h : fs.isDirectory place = false) : place ≠ [] := by
  rintro rfl
  cases h

/-- A file in a place without a directory leaves all directories as they are. -/
theorem isDirectory_set (h : fs.isDirectory place = false) :
    (fs.set place (.file data)).isDirectory other = fs.isDirectory other := by
  by_cases hother : other = place
  · subst hother
    rw [h, isDirectory, node?_set_self (ne_nil_of_not_isDirectory h)]
    rfl
  · rw [isDirectory, isDirectory, node?_set_of_ne hother]

/-- What was at a place is still something. -/
theorem isSome_node?_set {node : Node} (h : (fs.node? other).isSome) :
    ((fs.set place node).node? other).isSome := by
  by_cases hother : other = place
  · subst hother
    by_cases hroot : other = []
    · subst hroot
      rfl
    · rw [node?_set_self hroot]
      rfl
  · rwa [node?_set_of_ne hother]

/-! ## Steps -/

/-- A name that a directory can hold. -/
structure IsEntryName (name : String) : Prop where
  ne_current : name ≠ "."
  ne_parent : name ≠ ".."
  size_le : name.utf8ByteSize ≤ maxNameSize

theorem enter_eq_ok_iff : fs.enter place name = .ok other ↔
    fs.isDirectory place = true ∧
      ((name = "." ∧ other = place) ∨ (name = ".." ∧ other = place.tail) ∨
        (IsEntryName name ∧ (fs.node? (name :: place)).isSome ∧ other = name :: place)) := by
  cases hdir : fs.isDirectory place with
  | false => simp [enter, hdir]
  | true =>
    simp only [enter, hdir, Bool.not_true, Bool.false_eq_true, if_false, true_and]
    by_cases hcurrent : name = "."
    · subst hcurrent
      have hname : ¬ IsEntryName "." := fun h => h.ne_current rfl
      simpa [hname] using eq_comm
    · by_cases hparent : name = ".."
      · subst hparent
        have hname : ¬ IsEntryName ".." := fun h => h.ne_parent rfl
        simpa [hname] using eq_comm
      · simp only [hcurrent, hparent, if_false, false_and, false_or]
        by_cases hsize : maxNameSize < name.utf8ByteSize
        · have hname : ¬ IsEntryName name := fun h => Nat.not_lt.2 h.size_le hsize
          simp [hsize, hname]
        · have hname : IsEntryName name := ⟨hcurrent, hparent, Nat.not_lt.1 hsize⟩
          cases fs.node? (name :: place) with
          | none => simp [hsize]
          | some node => simpa [hsize, hname] using eq_comm

theorem enter_set (h : fs.isDirectory place = false) {p q : Place}
    (hstep : fs.enter p name = .ok q) :
    (fs.set place (.file data)).enter p name = .ok q := by
  rw [enter_eq_ok_iff] at hstep ⊢
  rw [isDirectory_set h]
  obtain ⟨hp, hcurrent | hparent | ⟨hname, hnode, rfl⟩⟩ := hstep
  · exact ⟨hp, .inl hcurrent⟩
  · exact ⟨hp, .inr (.inl hparent)⟩
  · exact ⟨hp, .inr (.inr ⟨hname, isSome_node?_set hnode, rfl⟩)⟩

theorem walk_cons_eq_ok_iff {steps : List String} : fs.walk place (name :: steps) = .ok other ↔
    ∃ p, fs.enter place name = .ok p ∧ fs.walk p steps = .ok other := by
  rw [walk, List.foldlM_cons, bind_eq_ok_iff]
  rfl

theorem walk_append_singleton {steps : List String} {dir : Place}
    (hsteps : fs.walk place steps = .ok dir) :
    fs.walk place (steps ++ [name]) = fs.enter dir name := by
  rw [walk] at hsteps
  rw [walk, List.foldlM_append, hsteps]
  exact bind_pure (fs.enter dir name)

theorem walk_set (h : fs.isDirectory place = false) {p q : Place} {steps : List String}
    (hwalk : fs.walk p steps = .ok q) : (fs.set place (.file data)).walk p steps = .ok q := by
  induction steps generalizing p with
  | nil => exact hwalk
  | cons name steps ih =>
    obtain ⟨next, hstep, hrest⟩ := walk_cons_eq_ok_iff.1 hwalk
    exact walk_cons_eq_ok_iff.2 ⟨next, enter_set h hstep, ih hrest⟩

/-! ## Paths -/

theorem settle_eq_ok_iff : fs.settle path place = .ok other ↔
    place = other ∧ (Path.endsInSlash path = true → fs.isDirectory place = true) := by
  rw [settle]
  cases Path.endsInSlash path <;> cases fs.isDirectory place <;> simp

theorem locate_eq_ok_iff : fs.locate path = .ok place ↔
    checkPath path = .ok () ∧ fs.walk (fs.start path) (Path.pieces path) = .ok place ∧
      (Path.endsInSlash path = true → fs.isDirectory place = true) := by
  rw [locate, bind_eq_ok_iff]
  constructor
  · rintro ⟨⟨⟩, hcheck, h⟩
    obtain ⟨p, hwalk, h⟩ := bind_eq_ok_iff.1 h
    obtain ⟨rfl, hslash⟩ := settle_eq_ok_iff.1 h
    exact ⟨hcheck, hwalk, hslash⟩
  · rintro ⟨hcheck, hwalk, hslash⟩
    exact ⟨(), hcheck, bind_eq_ok_iff.2 ⟨place, hwalk, settle_eq_ok_iff.2 ⟨rfl, hslash⟩⟩⟩

/-- A path that leads somewhere leads to the same place once a file has been written. -/
theorem locate_set (h : fs.isDirectory place = false) (hpath : fs.locate path = .ok other) :
    (fs.set place (.file data)).locate path = .ok other := by
  rw [locate_eq_ok_iff] at hpath ⊢
  rw [isDirectory_set h]
  exact ⟨hpath.1, walk_set h hpath.2.1, hpath.2.2⟩

theorem read_of_locate (h : fs.locate path = .ok place) : fs.read path =
    match fs.node? place with
    | some (.file data) => .ok data
    | some .directory => .error .isADirectory
    | some .fullDevice => .ok []
    | none => .error .notFound := by
  rw [read, h]
  rfl

/-- What can be read is somewhere. -/
theorem exists_locate_of_read_eq_ok (h : fs.read path = .ok data) :
    ∃ place, fs.locate path = .ok place ∧ (fs.node? place).isSome := by
  rw [read, bind_eq_ok_iff] at h
  obtain ⟨place, hlocate, h⟩ := h
  refine ⟨place, hlocate, ?_⟩
  cases hnode : fs.node? place with
  | none =>
    rw [hnode] at h
    cases h
  | some node => rfl

/-- Somewhere else, the same is read. -/
theorem read_set_of_ne (h : fs.isDirectory place = false) (hpath : fs.locate path = .ok other)
    (hne : other ≠ place) : (fs.set place (.file data)).read path = fs.read path := by
  rw [read_of_locate hpath, read_of_locate (locate_set h hpath), node?_set_of_ne hne]

/-! ## Writing -/

/-- A path leads through directories to a place that can hold a file. -/
structure CreatesAt (fs : FileSystem) (path : String) (place : Place) : Prop where
  checked : checkPath path = .ok ()
  no_slash : Path.endsInSlash path = false
  free : fs.isDirectory place = false
  entry : ∃ steps name dir, Path.pieces path = steps ++ [name] ∧ IsEntryName name ∧
    fs.walk (fs.start path) steps = .ok dir ∧ fs.isDirectory dir = true ∧ place = name :: dir

theorem createsAt_of_placeToWrite (h : fs.placeToWrite path = .ok place) :
    fs.CreatesAt path place := by
  rw [placeToWrite, bind_eq_ok_iff] at h
  obtain ⟨⟨⟩, hcheck, h⟩ := h
  cases hlast : (Path.pieces path).getLast? with
  | none =>
    simp only [hlast] at h
    cases h
  | some name =>
    simp only [hlast] at h
    obtain ⟨dir, hwalk, h⟩ := bind_eq_ok_iff.1 h
    simp only [bind, Except.bind, pure, Except.pure, throw, throwThe, MonadExceptOf.throw] at h
    split_ifs at h with hdir hspelling hsize hplace
    cases h
    simp only [Bool.not_eq_true, Bool.not_eq_false', Bool.or_eq_true, decide_eq_true_eq,
      not_or] at hdir hspelling hplace
    exact ⟨hcheck, hspelling.2, hplace, _, name, dir,
      (List.dropLast_append_getLast? name hlast).symm,
      ⟨hspelling.1.1, hspelling.1.2, Nat.not_lt.1 hsize⟩, hwalk, hdir, rfl⟩

/-- Once there is something at the place, the path leads there. -/
theorem CreatesAt.locate (h : fs.CreatesAt path place) (hnode : (fs.node? place).isSome) :
    fs.locate path = .ok place := by
  obtain ⟨steps, name, dir, hpieces, hname, hwalk, hdir, rfl⟩ := h.entry
  refine locate_eq_ok_iff.2 ⟨h.checked, ?_, by simp [h.no_slash]⟩
  rw [hpieces, walk_append_singleton hwalk]
  exact enter_eq_ok_iff.2 ⟨hdir, .inr (.inr ⟨hname, hnode, rfl⟩)⟩

/-- Writing a file does not prevent it from being written again. -/
theorem CreatesAt.set (h : fs.CreatesAt path place) :
    (fs.set place (.file data)).CreatesAt path place where
  checked := h.checked
  no_slash := h.no_slash
  free := by rw [isDirectory_set h.free, h.free]
  entry := by
    obtain ⟨steps, name, dir, hpieces, hname, hwalk, hdir, hplace⟩ := h.entry
    refine ⟨steps, name, dir, hpieces, hname, walk_set h.free hwalk, ?_, hplace⟩
    rw [isDirectory_set h.free, hdir]

/-- What was written is read. -/
theorem CreatesAt.read_set (h : fs.CreatesAt path place) :
    (fs.set place (.file data)).read path = .ok data := by
  have hnode : (fs.set place (.file data)).node? place = some (.file data) :=
    node?_set_self (ne_nil_of_not_isDirectory h.free)
  have hlocate := h.set.locate (by rw [hnode]; rfl)
  rw [read_of_locate hlocate, hnode]

/-! ## The same file -/

/-- No place that a path leads through is too deep. -/
def IsShallow (fs : FileSystem) (path : String) : Prop :=
  ∀ steps place, steps <+: Path.pieces path → fs.walk (fs.start path) steps = .ok place →
    fullPathSize place < pathSizeLimit

/-- A path of a single step leads through two places at most. -/
theorem isShallow_of_pieces_eq_singleton (hpieces : Path.pieces path = [name])
    (hstart : fullPathSize (fs.start path) < pathSizeLimit)
    (hnext : ∀ p, fs.enter (fs.start path) name = .ok p → fullPathSize p < pathSizeLimit) :
    fs.IsShallow path := by
  intro steps p hsteps hwalk
  rw [hpieces] at hsteps
  rcases List.prefix_cons_iff.1 hsteps with rfl | ⟨rest, rfl, hrest⟩
  · cases hwalk
    exact hstart
  · rw [List.prefix_nil.1 hrest] at hwalk
    obtain ⟨next, hstep, hdone⟩ := walk_cons_eq_ok_iff.1 hwalk
    cases hdone
    exact hnext _ hstep

theorem enterInFull_of_enter (h : fs.enter place name = .ok other)
    (hsize : fullPathSize other < pathSizeLimit) : fs.enterInFull place name = .ok other := by
  rw [enterInFull, h]
  simp [bind, Except.bind, Nat.not_le.2 hsize, pure, Except.pure]

theorem foldlM_enterInFull_of_walk {p q : Place} {steps : List String}
    (hshallow : ∀ before r, before <+: steps → fs.walk p before = .ok r →
      fullPathSize r < pathSizeLimit)
    (h : fs.walk p steps = .ok q) : steps.foldlM fs.enterInFull p = .ok q := by
  induction steps generalizing p with
  | nil => exact h
  | cons name steps ih =>
    obtain ⟨next, hstep, hrest⟩ := walk_cons_eq_ok_iff.1 h
    have hnext : fullPathSize next < pathSizeLimit :=
      hshallow [name] next (List.prefix_append [name] steps)
        (walk_cons_eq_ok_iff.2 ⟨next, hstep, rfl⟩)
    rw [List.foldlM_cons, enterInFull_of_enter hstep hnext]
    exact ih (fun before r hbefore hr => hshallow (name :: before) r
      (List.cons_prefix_cons.2 ⟨rfl, hbefore⟩) (walk_cons_eq_ok_iff.2 ⟨next, hstep, hr⟩)) hrest

/-- A path that leads somewhere leads there in the end as well. -/
theorem canonicalPlace_of_locate (hshallow : fs.IsShallow path) (h : fs.locate path = .ok place) :
    fs.canonicalPlace path = .ok place := by
  obtain ⟨hcheck, hwalk, hslash⟩ := locate_eq_ok_iff.1 h
  obtain ⟨⟨⟩, hspelling, -⟩ := bind_eq_ok_iff.1 hcheck
  rw [canonicalPlace]
  exact bind_eq_ok_iff.2 ⟨(), hspelling, bind_eq_ok_iff.2
    ⟨place, foldlM_enterInFull_of_walk hshallow hwalk, settle_eq_ok_iff.2 ⟨rfl, hslash⟩⟩⟩

/-- Of two paths that are not the same file, writing to one does not change what is at the other, if
nothing on the way is too deep. -/
theorem ne_of_samePlace_eq_false {source target : String}
    (h : fs.samePlace source target = false)
    (hsource : fs.IsShallow source) (htarget : fs.IsShallow target)
    (hread : fs.locate source = .ok other) (hnode : (fs.node? other).isSome)
    (hwrite : fs.CreatesAt target place) : other ≠ place := by
  rintro rfl
  have hsource' := canonicalPlace_of_locate hsource hread
  have htarget' := canonicalPlace_of_locate htarget (hwrite.locate hnode)
  simp [samePlace, hsource', htarget'] at h

end FileSystem
end ShaderKit
