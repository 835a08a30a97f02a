import ShaderKit.Include.Search
import ShaderKit.Proofs.FileChange

/-!
# Which include file is found

What a path leads to is said here without looking anything up: each name of the path leads from one
place to the next (`StepsTo`), names in a row lead somewhere (`LeadsTo`), and a path is that of a
file if a file is where its names lead (`IsFile`).  A name that is put behind a directory leads on
from where the directory is, and a name that begins at the root leaves the directory aside
(`isFile_join_iff`, `join_of_isAbsolute`).

A lookup takes the first directory in which the name is that of a file (`FindsFirst`).  So
directories that do not have the file can come and go, and what is behind the first match does not
matter at all.  If there is no match, the failure lists the directories, unless there are none: then
it says so.
-/

set_option autoImplicit false

namespace ShaderKit

/-! ## Where paths lead -/

namespace FileSystem

variable {fs : FileSystem} {place next last : Place} {path dir name : String}
  {steps more : List String} {data : List UInt8}

/-- A name leads from a place to another one. -/
inductive StepsTo (fs : FileSystem) : Place → String → Place → Prop where
  | here {place : Place} : StepsTo fs place "." place
  | up {place : Place} : StepsTo fs place ".." place.tail
  | down {place : Place} {name : String} : IsEntryName name → (fs.node? (name :: place)).isSome →
      StepsTo fs place name (name :: place)

/-- Names in a row lead from a place to another one, through directories only. -/
inductive LeadsTo (fs : FileSystem) : Place → List String → Place → Prop where
  | arrived {place : Place} : LeadsTo fs place [] place
  | onward {place next last : Place} {name : String} {steps : List String} :
      fs.isDirectory place = true → StepsTo fs place name next → LeadsTo fs next steps last →
      LeadsTo fs place (name :: steps) last

/-- The path is that of a regular file, with the given content. -/
structure IsFile (fs : FileSystem) (path : String) (data : List UInt8) : Prop where
  ne_empty : path ≠ ""
  zero_not_mem : '\x00' ∉ path.toList
  size_lt : path.utf8ByteSize < pathSizeLimit
  no_slash : Path.endsInSlash path = false
  leads : ∃ place, fs.LeadsTo (fs.start path) (Path.pieces path) place ∧
    fs.node? place = some (.file data)

theorem enter_eq_ok_iff_stepsTo :
    fs.enter place name = .ok next ↔ fs.isDirectory place = true ∧ fs.StepsTo place name next := by
  rw [enter_eq_ok_iff]
  refine and_congr_right fun _ => ⟨?_, ?_⟩
  · rintro (⟨rfl, rfl⟩ | ⟨rfl, rfl⟩ | ⟨hname, hnode, rfl⟩)
    · exact .here
    · exact .up
    · exact .down hname hnode
  · intro h
    cases h with
    | here => exact .inl ⟨rfl, rfl⟩
    | up => exact .inr (.inl ⟨rfl, rfl⟩)
    | down hname hnode => exact .inr (.inr ⟨hname, hnode, rfl⟩)

theorem walk_eq_ok_iff : fs.walk place steps = .ok last ↔ fs.LeadsTo place steps last := by
  induction steps generalizing place with
  | nil =>
    constructor
    · intro h
      cases h
      exact .arrived
    · intro h
      cases h
      rfl
  | cons name steps ih =>
    rw [walk_cons_eq_ok_iff]
    constructor
    · rintro ⟨next, hstep, hrest⟩
      obtain ⟨hdir, hstep⟩ := enter_eq_ok_iff_stepsTo.1 hstep
      exact .onward hdir hstep (ih.1 hrest)
    · intro h
      cases h with
      | onward hdir hstep hrest =>
        exact ⟨_, enter_eq_ok_iff_stepsTo.2 ⟨hdir, hstep⟩, ih.2 hrest⟩

theorem checkPath_eq_ok_iff : checkPath path = .ok () ↔
    path ≠ "" ∧ '\x00' ∉ path.toList ∧ path.utf8ByteSize < pathSizeLimit := by
  rw [checkPath, bind_eq_ok_iff, checkSpelling]
  by_cases hzero : '\x00' ∈ path.toList
  · simp [hzero]
  · by_cases hempty : path = ""
    · simp [hempty]
    · by_cases hsize : path.utf8ByteSize < pathSizeLimit
      · simp [hzero, hempty, hsize, pure, Except.pure]
      · simp [hzero, hempty, hsize, Nat.not_lt.1 hsize, throw, throwThe, MonadExceptOf.throw]

/-- What is found at a path is the file that the path is that of. -/
theorem regularFile?_eq_some_iff : fs.regularFile? path = some data ↔ fs.IsFile path data := by
  constructor
  · intro h
    rw [regularFile?] at h
    split at h
    · rename_i place hlocate
      split at h
      · rename_i hnode
        cases h
        obtain ⟨hcheck, hwalk, hslash⟩ := locate_eq_ok_iff.1 hlocate
        obtain ⟨hempty, hzero, hsize⟩ := checkPath_eq_ok_iff.1 hcheck
        have hfile : fs.isDirectory place = false := by simp [isDirectory, hnode]
        exact ⟨hempty, hzero, hsize, by simpa [hfile] using hslash,
          place, walk_eq_ok_iff.1 hwalk, hnode⟩
      · cases h
    · cases h
  · rintro ⟨hempty, hzero, hsize, hslash, place, hleads, hnode⟩
    have hlocate : fs.locate path = .ok place :=
      locate_eq_ok_iff.2 ⟨checkPath_eq_ok_iff.2 ⟨hempty, hzero, hsize⟩,
        walk_eq_ok_iff.2 hleads, by simp [hslash]⟩
    simp only [regularFile?, hlocate, hnode]

/-! ## Names in directories -/

theorem leadsTo_append_iff : fs.LeadsTo place (steps ++ more) last ↔
    ∃ between, fs.LeadsTo place steps between ∧ fs.LeadsTo between more last := by
  induction steps generalizing place with
  | nil =>
    constructor
    · exact fun h => ⟨place, .arrived, h⟩
    · rintro ⟨between, hnone, h⟩
      cases hnone
      exact h
  | cons name steps ih =>
    constructor
    · intro h
      cases h with
      | onward hdir hstep hrest =>
        obtain ⟨between, hfirst, hsecond⟩ := ih.1 hrest
        exact ⟨between, .onward hdir hstep hfirst, hsecond⟩
    · rintro ⟨between, hfirst, hsecond⟩
      cases hfirst with
      | onward hdir hstep hrest => exact .onward hdir hstep (ih.2 ⟨between, hrest, hsecond⟩)

end FileSystem

namespace Path

variable {dir name : String}

/-- A name that begins at the root stays as it is. -/
theorem join_of_isAbsolute (h : isAbsolute name = true) : join dir name = name := by
  simp [join, h]

/-- A name that does not begin at the root stands behind its directory, with one slash between. -/
theorem join_cases (dir : String) (h : isAbsolute name = false) :
    (dir = "" ∧ join dir name = name) ∨
      ∃ front, (dir.toList = front ∨ dir.toList = front ++ ['/']) ∧ dir ≠ "" ∧
        (join dir name).toList = front ++ '/' :: name.toList := by
  by_cases hdir : dir = ""
  · exact .inl ⟨hdir, by simp [join, hdir]⟩
  · right
    by_cases hslash : endsInSlash dir = true
    · have hlast : dir.toList.getLast? = some '/' := by simpa [endsInSlash] using hslash
      obtain ⟨front, hfront⟩ := List.getLast?_eq_some_iff.1 hlast
      exact ⟨front, .inr hfront, hdir, by simp [join, h, hdir, hslash, hfront]⟩
    · exact ⟨dir.toList, .inl rfl, hdir, by simp [join, h, hdir, hslash]⟩

theorem pieces_join (h : isAbsolute name = false) :
    pieces (join dir name) = pieces dir ++ pieces name := by
  rcases join_cases dir h with ⟨rfl, hjoin⟩ | ⟨front, hfront, -, hjoin⟩
  · rw [hjoin]
    rfl
  · rw [pieces, pieces, pieces, hjoin, Text.splitOn_append_cons]
    rcases hfront with hfront | hfront
    · rw [hfront]
      simp
    · rw [hfront, Text.splitOn_append_cons]
      simp [Text.splitOn]

theorem isAbsolute_join (h : isAbsolute name = false) :
    isAbsolute (join dir name) = isAbsolute dir := by
  rcases join_cases dir h with ⟨rfl, hjoin⟩ | ⟨front, hfront, hdir, hjoin⟩
  · rw [hjoin, h]
    rfl
  · have hne : dir.toList ≠ [] := fun hnil => hdir (String.toList_eq_nil_iff.1 hnil)
    rw [isAbsolute, isAbsolute, hjoin]
    rcases hfront with hfront | hfront
    · rw [hfront] at hne ⊢
      rw [List.head?_append_of_ne_nil _ hne]
    · cases front with
      | nil => simp [hfront]
      | cons c front => simp [hfront]

theorem endsInSlash_join (hname : name ≠ "") (h : isAbsolute name = false) :
    endsInSlash (join dir name) = endsInSlash name := by
  rcases join_cases dir h with ⟨rfl, hjoin⟩ | ⟨front, -, -, hjoin⟩
  · rw [hjoin]
  · obtain ⟨c, rest, hrest⟩ := List.exists_cons_of_ne_nil
      fun hnil : name.toList = [] => hname (String.toList_eq_nil_iff.1 hnil)
    rw [endsInSlash, endsInSlash, hjoin, hrest, List.getLast?_append, List.getLast?_cons_cons]
    simp [List.getLast?_cons]

end Path

namespace FileSystem

variable {fs : FileSystem} {dir name : String} {data : List UInt8}

/-- A name in a directory is that of a file if it leads on to one from where the directory is. -/
theorem isFile_join_iff (hname : name ≠ "") (h : Path.isAbsolute name = false) :
    fs.IsFile (Path.join dir name) data ↔
      checkPath (Path.join dir name) = .ok () ∧ Path.endsInSlash name = false ∧
        ∃ around place, fs.LeadsTo (fs.start dir) (Path.pieces dir) around ∧
          fs.LeadsTo around (Path.pieces name) place ∧ fs.node? place = some (.file data) := by
  have hstart : fs.start (Path.join dir name) = fs.start dir := by
    rw [start, start, Path.isAbsolute_join h]
  constructor
  · rintro ⟨hempty, hzero, hsize, hslash, place, hleads, hnode⟩
    rw [hstart, Path.pieces_join h, leadsTo_append_iff] at hleads
    rw [Path.endsInSlash_join hname h] at hslash
    obtain ⟨around, hdir, hleads⟩ := hleads
    exact ⟨checkPath_eq_ok_iff.2 ⟨hempty, hzero, hsize⟩, hslash, around, place, hdir, hleads, hnode⟩
  · rintro ⟨hcheck, hslash, around, place, hdir, hleads, hnode⟩
    obtain ⟨hempty, hzero, hsize⟩ := checkPath_eq_ok_iff.1 hcheck
    refine ⟨hempty, hzero, hsize, ?_, place, ?_, hnode⟩
    · rw [Path.endsInSlash_join hname h, hslash]
    · rw [hstart, Path.pieces_join h, leadsTo_append_iff]
      exact ⟨around, hdir, hleads⟩

end FileSystem

/-! ## The first match -/

namespace Include

variable {fs : FileSystem} {search : SearchPath} {name : String} {handle : Handle}

/-- A directory has a regular file of that name. -/
def Offers (fs : FileSystem) (name dir : String) : Prop :=
  ∃ data, fs.IsFile (Path.join dir name) data

/-- What a lookup makes of a directory. -/
def offer? (fs : FileSystem) (name dir : String) : Option Handle :=
  (fs.regularFile? (Path.join dir name)).map fun data => ⟨Path.join dir name, data⟩

theorem offer?_eq_some_iff {dir : String} : offer? fs name dir = some handle ↔
    handle.path = Path.join dir name ∧ fs.IsFile (Path.join dir name) handle.data := by
  rw [offer?, Option.map_eq_some_iff]
  constructor
  · rintro ⟨data, hfile, rfl⟩
    exact ⟨rfl, FileSystem.regularFile?_eq_some_iff.1 hfile⟩
  · rintro ⟨hpath, hfile⟩
    exact ⟨handle.data, FileSystem.regularFile?_eq_some_iff.2 hfile, by rw [← hpath]⟩

theorem offer?_eq_none_iff {dir : String} : offer? fs name dir = none ↔ ¬ Offers fs name dir := by
  rw [Option.eq_none_iff_forall_ne_some]
  constructor
  · rintro h ⟨data, hfile⟩
    exact h ⟨_, data⟩ (offer?_eq_some_iff.2 ⟨rfl, hfile⟩)
  · intro h handle hhandle
    exact h ⟨_, (offer?_eq_some_iff.1 hhandle).2⟩

theorem resolve_eq (hname : name ≠ "") : resolve fs search name =
    if search.directories = [] then .error .noSearchPaths
    else match search.directories.findSome? (offer? fs name) with
      | some handle => .ok handle
      | none => .error (.notFound name search.directories) := by
  rw [resolve, if_neg (by simpa using hname)]
  simp only [List.isEmpty_iff]
  rfl

/-- What is found is what the first directory offers that offers anything. -/
theorem resolve_eq_ok_iff (hname : name ≠ "") : resolve fs search name = .ok handle ↔
    search.directories.findSome? (offer? fs name) = some handle := by
  rw [resolve_eq hname]
  split
  · rename_i hnone
    simp [hnone]
  · cases search.directories.findSome? (offer? fs name) <;> simp

theorem resolve_eq_ok_iff_exists (hname : name ≠ "") : resolve fs search name = .ok handle ↔
    ∃ before dir after, search.directories = before ++ dir :: after ∧
      (∀ d ∈ before, ¬ Offers fs name d) ∧ handle.path = Path.join dir name ∧
      fs.IsFile (Path.join dir name) handle.data := by
  rw [resolve_eq_ok_iff hname, List.findSome?_eq_some_iff]
  constructor
  · rintro ⟨before, dir, after, hsplit, hdir, hbefore⟩
    obtain ⟨hpath, hfile⟩ := offer?_eq_some_iff.1 hdir
    exact ⟨before, dir, after, hsplit, fun d hd => offer?_eq_none_iff.1 (hbefore d hd), hpath,
      hfile⟩
  · rintro ⟨before, dir, after, hsplit, hbefore, hpath, hfile⟩
    exact ⟨before, dir, after, hsplit, offer?_eq_some_iff.2 ⟨hpath, hfile⟩,
      fun d hd => offer?_eq_none_iff.2 (hbefore d hd)⟩

theorem exists_resolve_eq_ok_iff (hname : name ≠ "") :
    (∃ handle, resolve fs search name = .ok handle) ↔
      ∃ dir ∈ search.directories, Offers fs name dir := by
  simp only [resolve_eq_ok_iff hname, ← Option.isSome_iff_exists, List.findSome?_isSome_iff]
  refine exists_congr fun dir => and_congr_right fun _ => ?_
  rw [Option.isSome_iff_ne_none, Ne, offer?_eq_none_iff, not_not]

/-- Directories without the file make no difference, wherever they are. -/
theorem findSome?_offer?_of_not_offers {dir : String} (hdir : ¬ Offers fs name dir)
    (before after : List String) :
    (before ++ dir :: after).findSome? (offer? fs name) =
      (before ++ after).findSome? (offer? fs name) := by
  rw [List.findSome?_append, List.findSome?_cons, offer?_eq_none_iff.2 hdir, List.findSome?_append]

/-- What a lookup makes of the directories: the first match is found, with its whole content, and
nothing but the first match matters. -/
structure FindsFirst (fs : FileSystem) (search : SearchPath) (name : String) : Prop where
  /-- A lookup succeeds if a directory has the file, and only then. -/
  succeeds_iff : (∃ handle, resolve fs search name = .ok handle) ↔
    search.directories ≠ [] ∧ ∃ dir ∈ search.directories, Offers fs name dir
  /-- Directories without the file are passed over. -/
  first : ∀ before dir after data, search.directories = before ++ dir :: after →
    (∀ d ∈ before, ¬ Offers fs name d) → fs.IsFile (Path.join dir name) data →
    resolve fs search name = .ok ⟨Path.join dir name, data⟩
  /-- A failure lists the whole search path. -/
  notFound : search.directories ≠ [] → (∀ dir ∈ search.directories, ¬ Offers fs name dir) →
    resolve fs search name = .error (.notFound name search.directories)
  /-- Without directories there is nothing to list. -/
  nowhere : search.directories = [] → resolve fs search name = .error .noSearchPaths
  appended : ∀ handle more, resolve fs search name = .ok handle →
    resolve fs ⟨search.directories ++ more⟩ name = .ok handle
  inserted : ∀ handle before dir after, resolve fs search name = .ok handle →
    search.directories = before ++ after → ¬ Offers fs name dir →
    resolve fs ⟨before ++ dir :: after⟩ name = .ok handle
  removed : ∀ handle before dir after, resolve fs search name = .ok handle →
    search.directories = before ++ dir :: after → ¬ Offers fs name dir →
    resolve fs ⟨before ++ after⟩ name = .ok handle
  /-- The handler gives that answer, however the name is written and whoever asks. -/
  anyone : ∀ books kind parent, (searchHandler fs search).acquire books ⟨kind, name, parent⟩ =
    (resolve fs search name, match resolve fs search name with
      | .ok _ => ⟨books.outstanding + 1, books.unresolved⟩
      | .error _ => ⟨books.outstanding, books.unresolved ++ [name]⟩)

/-- **The first directory wins that has a regular file of that name**, and nothing else matters. -/
theorem resolve_findsFirst (fs : FileSystem) (search : SearchPath) {name : String}
    (hname : name ≠ "") : FindsFirst fs search name where
  succeeds_iff := by
    rw [exists_resolve_eq_ok_iff hname]
    refine ⟨?_, And.right⟩
    rintro ⟨dir, hdir, hoffers⟩
    exact ⟨List.ne_nil_of_mem hdir, dir, hdir, hoffers⟩
  first before dir after data hsplit hbefore hfile :=
    (resolve_eq_ok_iff_exists hname).2 ⟨before, dir, after, hsplit, hbefore, rfl, hfile⟩
  notFound hsome hnone := by
    have hfound : search.directories.findSome? (offer? fs name) = none :=
      List.findSome?_eq_none_iff.2 fun dir hdir => offer?_eq_none_iff.2 (hnone dir hdir)
    rw [resolve_eq hname, if_neg hsome, hfound]
  nowhere hnone := by rw [resolve_eq hname, if_pos hnone]
  appended handle more h := by
    rw [resolve_eq_ok_iff hname] at h ⊢
    rw [List.findSome?_append, h]
    rfl
  inserted handle before dir after h hsplit hdir := by
    rw [resolve_eq_ok_iff hname] at h ⊢
    rw [findSome?_offer?_of_not_offers hdir, ← hsplit, h]
  removed handle before dir after h hsplit hdir := by
    rw [resolve_eq_ok_iff hname] at h ⊢
    rw [← findSome?_offer?_of_not_offers hdir, ← hsplit, h]
  anyone books kind parent := by
    cases hanswer : resolve fs search name <;> simp [searchHandler, Books.acquire, hanswer]

/-- A directory and a file are in the way of a file. -/
def shadowedFiles : FileSystem where
  nodes := [(["a"], .directory), (["l.h", "a"], .directory), (["b"], .file []),
    (["c"], .directory), (["l.h", "c"], .file [0x78, 0x0A])]
  current := ["a"]

theorem resolve_findsFirst_shadowedFiles :
    "l.h" ≠ "" ∧
      resolve shadowedFiles ⟨[".", "../b", "/c/", "."]⟩ "l.h" = .ok ⟨"/c/l.h", [0x78, 0x0A]⟩ ∧
      resolve shadowedFiles ⟨["/c/", "."]⟩ "l.h" = .ok ⟨"/c/l.h", [0x78, 0x0A]⟩ ∧
      resolve shadowedFiles ⟨["."]⟩ "l.h" = .error (.notFound "l.h" ["."]) := by
  have hname : "l.h" ≠ "" := by decide
  have hdirectory : ¬ Offers shadowedFiles "l.h" "." := offer?_eq_none_iff.1 (by decide)
  have hthrough : ¬ Offers shadowedFiles "l.h" "../b" := offer?_eq_none_iff.1 (by decide)
  have hfile : shadowedFiles.IsFile (Path.join "/c/" "l.h") [0x78, 0x0A] :=
    FileSystem.regularFile?_eq_some_iff.1 (by decide)
  have hfound : resolve shadowedFiles ⟨[".", "../b", "/c/", "."]⟩ "l.h" =
      .ok ⟨"/c/l.h", [0x78, 0x0A]⟩ :=
    (resolve_findsFirst shadowedFiles ⟨[".", "../b", "/c/", "."]⟩ hname).first [".", "../b"] "/c/"
      ["."] _ rfl (by simp [hdirectory, hthrough]) hfile
  have hwithout :=
    (resolve_findsFirst shadowedFiles _ hname).removed _ [] "." _ hfound rfl hdirectory
  exact ⟨hname, hfound,
    (resolve_findsFirst shadowedFiles _ hname).removed _ [] "../b" _ hwithout rfl hthrough,
    (resolve_findsFirst shadowedFiles ⟨["."]⟩ hname).notFound (by simp) (by simp [hdirectory])⟩

/-- **A failed lookup need not list anything**: without directories it says that there are none. -/
theorem not_notFound_without_directories :
    ¬ ∀ (fs : FileSystem) (search : SearchPath) (name : String), name ≠ "" →
      (∀ dir ∈ search.directories, ¬ Offers fs name dir) →
      resolve fs search name = .error (.notFound name search.directories) := by
  intro h
  have hfailure := h ⟨[], []⟩ ⟨[]⟩ "a.h" (by decide) (by simp)
  rw [resolve_eq (by decide), if_pos rfl] at hfailure
  cases hfailure

end Include

end ShaderKit
