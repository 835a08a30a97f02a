import Mathlib.Data.List.Induction
import ShaderKit.Proofs.IncludeLookup

/-!
# The books of a resolver

A resolver answers requests and takes handles back, while files around it are written and removed.
A history is a list of such events, in any order (`ResolverEvent`), and `run` is what it leads to.
The handles that were given out are numbered in the order of the requests; a history is possible if
it only gives back handles that are still out (`IsPossible`).

After any possible history the books are right (`Balanced`): they have as many handles as are out,
and the names that were asked for in vain.  A handle that is out has what its file had when it was
opened.
-/

set_option autoImplicit false

namespace ShaderKit
namespace Include

/-! ## Histories -/

/-- What can happen to a resolver and to the files around it. -/
inductive ResolverEvent where
  | opened (request : Request)
  /-- The handle with this number is given back. -/
  | closed (number : Nat)
  /-- A file is created, or gets another content. -/
  | wrote (path : String) (data : List UInt8)
  | removed (path : String)
  deriving DecidableEq, Repr

/-- A resolver, the files around it, and the handles that it has given out. -/
structure ResolverState where
  files : FileSystem
  books : Books := {}
  /-- In the order of the requests; `none` stands for a handle that was given back. -/
  handles : List (Option Handle) := []
  deriving DecidableEq, Repr

namespace ResolverState

variable (search : SearchPath)

/-- The handle with a number is still out. -/
def IsHeld (s : ResolverState) (number : Nat) (handle : Handle) : Prop :=
  s.handles[number]? = some (some handle)

instance (s : ResolverState) (number : Nat) (handle : Handle) :
    Decidable (s.IsHeld number handle) :=
  inferInstanceAs (Decidable (_ = _))

/-- The number of handles that are still out. -/
def heldCount (s : ResolverState) : Nat := s.handles.countP (·.isSome)

/-- What an event leads to. -/
def step (s : ResolverState) : ResolverEvent → ResolverState
  | .opened request =>
    match (searchHandler s.files search).acquire s.books request with
    | (.ok handle, books) => { s with books, handles := s.handles ++ [some handle] }
    | (.error _, books) => { s with books }
  | .closed number =>
    match s.handles[number]? with
    | some (some handle) =>
      { s with
        books := (searchHandler s.files search).release s.books handle
        handles := s.handles.set number none }
    | _ => s
  | .wrote path data => { s with files := s.files.putFile path data }
  | .removed path => { s with files := s.files.removeFile path }

/-- What a history leads to. -/
def run (s : ResolverState) (events : List ResolverEvent) : ResolverState :=
  events.foldl (step search) s

/-- The answers that are given in a history, each with its request. -/
def answers (s : ResolverState) : List ResolverEvent → List (Request × Except Failure Handle)
  | [] => []
  | .opened request :: events =>
    (request, resolve s.files search request.name) ::
      answers (s.step search (.opened request)) events
  | e :: events => answers (s.step search e) events

/-- The number of requests that were answered with a handle. -/
def openedCount (s : ResolverState) (events : List ResolverEvent) : Nat :=
  (s.answers search events).countP (·.2.isOk)

/-- The names that were asked for in vain. -/
def failedNames (s : ResolverState) (events : List ResolverEvent) : List String :=
  ((s.answers search events).filter (!·.2.isOk)).map (·.1.name)

/-- A history gives back only handles that are still out. -/
def IsPossible (s : ResolverState) (events : List ResolverEvent) : Prop :=
  ∀ before number after, events = before ++ .closed number :: after →
    ∃ handle, (s.run search before).IsHeld number handle

end ResolverState

/-- The number of handles that are given back in a history. -/
def closedCount (events : List ResolverEvent) : Nat :=
  events.countP fun e => match e with
    | .closed _ => true
    | _ => false

namespace ResolverState

variable {search : SearchPath} {s s' : ResolverState} {events more : List ResolverEvent}
  {e : ResolverEvent} {handle : Handle} {number : Nat}

/-! ## One event -/

/-- What an event does: a handle is given out, a name is not found, a handle is given back, or only
the files change. -/
inductive Stepped (search : SearchPath) (s : ResolverState) :
    ResolverEvent → ResolverState → Prop where
  | found {request : Request} {handle : Handle} :
      resolve s.files search request.name = .ok handle →
      Stepped search s (.opened request)
        ⟨s.files, ⟨s.books.outstanding + 1, s.books.unresolved⟩, s.handles ++ [some handle]⟩
  | missed {request : Request} {failure : Failure} :
      resolve s.files search request.name = .error failure →
      Stepped search s (.opened request)
        ⟨s.files, ⟨s.books.outstanding, s.books.unresolved ++ [request.name]⟩, s.handles⟩
  | returned {number : Nat} {handle : Handle} : s.IsHeld number handle →
      Stepped search s (.closed number)
        ⟨s.files, ⟨s.books.outstanding - 1, s.books.unresolved⟩, s.handles.set number none⟩
  | wrote {path : String} {data : List UInt8} :
      Stepped search s (.wrote path data) ⟨s.files.putFile path data, s.books, s.handles⟩
  | removed {path : String} :
      Stepped search s (.removed path) ⟨s.files.removeFile path, s.books, s.handles⟩

theorem stepped_step (hclosed : ∀ number, e = .closed number → ∃ handle, s.IsHeld number handle) :
    Stepped search s e (s.step search e) := by
  cases e with
  | opened request =>
    cases hanswer : resolve s.files search request.name with
    | ok handle =>
      simp only [step, searchHandler, hanswer, Books.acquire]
      exact .found hanswer
    | error failure =>
      simp only [step, searchHandler, hanswer, Books.acquire]
      exact .missed hanswer
  | closed number =>
    obtain ⟨handle, hheld⟩ := hclosed number rfl
    have hget : s.handles[number]? = some (some handle) := hheld
    simp only [step, hget, searchHandler, Books.release]
    exact .returned hheld
  | wrote path data => exact .wrote
  | removed path => exact .removed

theorem heldCount_pos_of_isHeld (h : s.IsHeld number handle) : 0 < s.heldCount := by
  rw [heldCount, List.countP_pos_iff]
  exact ⟨some handle, List.mem_of_getElem? h, rfl⟩

/-- The books have as many handles as are out, and stay so. -/
theorem Stepped.outstanding_eq (h : Stepped search s e s')
    (hs : s.books.outstanding = s.heldCount) : s'.books.outstanding = s'.heldCount := by
  rw [heldCount] at hs ⊢
  cases h with
  | found => simp [hs]
  | returned hheld =>
    obtain ⟨hlt, hget⟩ := List.getElem?_eq_some_iff.1 hheld
    rw [List.countP_set hlt, hget]
    exact congrArg (· - 1) hs
  | missed | wrote | removed => exact hs

theorem Stepped.outstanding_add (h : Stepped search s e s')
    (hs : s.books.outstanding = s.heldCount) :
    s'.books.outstanding + closedCount [e] = s.books.outstanding + s.openedCount search [e] := by
  cases h with
  | found hanswer => simp [closedCount, openedCount, answers, hanswer, Except.isOk, Except.toBool]
  | missed hanswer => simp [closedCount, openedCount, answers, hanswer, Except.isOk, Except.toBool]
  | returned hheld => exact Nat.sub_add_cancel (hs ▸ heldCount_pos_of_isHeld hheld)
  | wrote | removed => rfl

theorem Stepped.unresolved_eq (h : Stepped search s e s') :
    s'.books.unresolved = s.books.unresolved ++ s.failedNames search [e] := by
  cases h with
  | found hanswer => simp [failedNames, answers, hanswer, Except.isOk, Except.toBool]
  | missed hanswer => simp [failedNames, answers, hanswer, Except.isOk, Except.toBool]
  | returned | wrote | removed => exact (List.append_nil _).symm

theorem Stepped.length_handles (h : Stepped search s e s') :
    s'.handles.length = s.handles.length + s.openedCount search [e] := by
  cases h with
  | found hanswer => simp [openedCount, answers, hanswer, Except.isOk, Except.toBool]
  | missed hanswer => simp [openedCount, answers, hanswer, Except.isOk, Except.toBool]
  | returned => exact List.length_set
  | wrote | removed => rfl

/-- A handle that is out after an event was out before it, and the event has not given it back, or
it is what the event has found. -/
theorem Stepped.isHeld (h : Stepped search s e s') (hheld : s'.IsHeld number handle) :
    (s.IsHeld number handle ∧ e ≠ .closed number) ∨
      ∃ request, e = .opened request ∧ number = s.handles.length ∧
        resolve s.files search request.name = .ok handle := by
  cases h with
  | @found request found hanswer =>
    rw [IsHeld, List.getElem?_append] at hheld
    split at hheld
    · exact .inl ⟨hheld, by simp⟩
    · obtain ⟨hlt, hget⟩ := List.getElem?_eq_some_iff.1 hheld
      obtain rfl : number = s.handles.length := by
        rw [List.length_singleton] at hlt
        omega
      have hfound : found = handle := by simpa using hget
      exact .inr ⟨request, rfl, rfl, hfound ▸ hanswer⟩
  | @returned other _ hother =>
    rw [IsHeld, List.getElem?_set] at hheld
    split at hheld
    · split at hheld <;> cases hheld
    · rename_i hne
      exact .inl ⟨hheld, by simpa using hne⟩
  | missed | wrote | removed => exact .inl ⟨hheld, by simp⟩

/-! ## Many events -/

theorem isPossible_nil : s.IsPossible search [] := fun before number after hsplit => by
  cases before <;> cases hsplit

theorem isPossible_cons (hclosed : ∀ number, e = .closed number → ∃ handle, s.IsHeld number handle)
    (h : (s.step search e).IsPossible search events) : s.IsPossible search (e :: events) := by
  intro before number after hsplit
  cases before with
  | nil =>
    cases hsplit
    exact hclosed number rfl
  | cons _ before =>
    cases hsplit
    exact h before number after rfl

theorem run_append_singleton :
    s.run search (events ++ [e]) = (s.run search events).step search e := by
  rw [run, run, List.foldl_append]
  rfl

theorem answers_append : s.answers search (events ++ more) =
    s.answers search events ++ (s.run search events).answers search more := by
  induction events generalizing s with
  | nil => rfl
  | cons e events ih =>
    cases e with
    | opened request => exact congrArg _ ih
    | closed number => exact ih
    | wrote path data => exact ih
    | removed path => exact ih

theorem openedCount_append : s.openedCount search (events ++ more) =
    s.openedCount search events + (s.run search events).openedCount search more := by
  rw [openedCount, answers_append, List.countP_append]
  rfl

theorem failedNames_append : s.failedNames search (events ++ more) =
    s.failedNames search events ++ (s.run search events).failedNames search more := by
  rw [failedNames, answers_append, List.filter_append, List.map_append]
  rfl

theorem IsPossible.of_append (h : s.IsPossible search (events ++ more)) :
    s.IsPossible search events := fun before number after hsplit =>
  h before number (after ++ more) (by rw [hsplit, List.append_assoc, List.cons_append])

theorem IsPossible.stepped (h : s.IsPossible search (events ++ [e])) :
    Stepped search (s.run search events) e (s.run search (events ++ [e])) := by
  rw [run_append_singleton]
  exact stepped_step fun number he => h events number [] (he ▸ rfl)

theorem IsPossible.outstanding_eq (h : s.IsPossible search events)
    (hs : s.books.outstanding = s.heldCount) :
    (s.run search events).books.outstanding = (s.run search events).heldCount := by
  induction events using List.reverseRecOn with
  | nil => exact hs
  | append_singleton events e ih => exact h.stepped.outstanding_eq (ih h.of_append)

theorem IsPossible.outstanding_add (h : s.IsPossible search events)
    (hs : s.books.outstanding = s.heldCount) :
    (s.run search events).books.outstanding + closedCount events =
      s.books.outstanding + s.openedCount search events := by
  induction events using List.reverseRecOn with
  | nil => rfl
  | append_singleton events e ih =>
    have hlast := h.stepped.outstanding_add (h.of_append.outstanding_eq hs)
    have hfirst := ih h.of_append
    rw [openedCount_append, closedCount, List.countP_append]
    rw [closedCount] at hfirst hlast
    omega

theorem IsPossible.unresolved_eq (h : s.IsPossible search events) :
    (s.run search events).books.unresolved =
      s.books.unresolved ++ s.failedNames search events := by
  induction events using List.reverseRecOn with
  | nil => exact (List.append_nil _).symm
  | append_singleton events e ih =>
    rw [h.stepped.unresolved_eq, ih h.of_append, failedNames_append, List.append_assoc]

theorem IsPossible.length_handles (h : s.IsPossible search events) :
    (s.run search events).handles.length = s.handles.length + s.openedCount search events := by
  induction events using List.reverseRecOn with
  | nil => rfl
  | append_singleton events e ih =>
    rw [h.stepped.length_handles, ih h.of_append, openedCount_append, Nat.add_assoc]

/-- Where a handle comes from that is out: a request that found it, after which it was not given
back. -/
theorem IsPossible.exists_of_isHeld (h : s.IsPossible search events) (hs : s.handles = [])
    (hheld : (s.run search events).IsHeld number handle) :
    ∃ before request after, events = before ++ .opened request :: after ∧
      s.openedCount search before = number ∧ .closed number ∉ after ∧
      resolve (s.run search before).files search request.name = .ok handle := by
  induction events using List.reverseRecOn with
  | nil =>
    change s.handles[number]? = _ at hheld
    rw [hs] at hheld
    cases hheld
  | append_singleton events e ih =>
    rcases h.stepped.isHeld hheld with ⟨hbefore, hne⟩ | ⟨request, rfl, hnumber, hfound⟩
    · obtain ⟨before, request, after, rfl, hcount, hafter, hfound⟩ := ih h.of_append hbefore
      refine ⟨before, request, after ++ [e], by simp, hcount, ?_, hfound⟩
      simp [hafter, hne.symm]
    · have hlength := h.of_append.length_handles
      rw [hs, List.length_nil, Nat.zero_add] at hlength
      exact ⟨events, request, [], rfl, hlength.symm.trans hnumber.symm, by simp, hfound⟩

end ResolverState

open ResolverState

/-- The books are right after a history that began with empty ones. -/
structure Balanced (search : SearchPath) (files : FileSystem) (events : List ResolverEvent) :
    Prop where
  /-- As many handles are out as the books say. -/
  held : (run search ⟨files, {}, []⟩ events).books.outstanding =
    (run search ⟨files, {}, []⟩ events).heldCount
  /-- These are the ones that were given out and not given back. -/
  difference : (run search ⟨files, {}, []⟩ events).books.outstanding + closedCount events =
    openedCount search ⟨files, {}, []⟩ events
  /-- No handle is ever given back when the books have none. -/
  covered : ∀ before number after, events = before ++ .closed number :: after →
    0 < (run search ⟨files, {}, []⟩ before).books.outstanding
  unresolved : (run search ⟨files, {}, []⟩ events).books.unresolved =
    failedNames search ⟨files, {}, []⟩ events
  /-- A handle that is out was given out for a request and not given back since, and it has the path
  and the content of the file that was found then. -/
  kept : ∀ number handle, (run search ⟨files, {}, []⟩ events).IsHeld number handle →
    ∃ before request after, events = before ++ .opened request :: after ∧
      openedCount search ⟨files, {}, []⟩ before = number ∧ .closed number ∉ after ∧
      resolve (run search ⟨files, {}, []⟩ before).files search request.name = .ok handle ∧
      (run search ⟨files, {}, []⟩ before).files.IsFile handle.path handle.data

/-- What a lookup finds is a file, with its content. -/
theorem isFile_of_resolve_eq_ok {files : FileSystem} {search : SearchPath} {name : String}
    {handle : Handle} (h : resolve files search name = .ok handle) :
    files.IsFile handle.path handle.data := by
  have hname : name ≠ "" := by
    rintro rfl
    simp [resolve] at h
  obtain ⟨_, dir, _, -, -, hpath, hfile⟩ := (resolve_eq_ok_iff_exists hname).1 h
  rwa [hpath]

/-- **The books of a resolver are right after any history**, and what is out does not change,
however the files do. -/
theorem run_balanced (search : SearchPath) (files : FileSystem) (events : List ResolverEvent)
    (h : IsPossible search ⟨files, {}, []⟩ events) : Balanced search files events where
  held := h.outstanding_eq rfl
  difference := (h.outstanding_add rfl).trans (Nat.zero_add _)
  covered before number after hsplit := by
    subst hsplit
    obtain ⟨handle, hheld⟩ := h before number after rfl
    rw [h.of_append.outstanding_eq rfl]
    exact heldCount_pos_of_isHeld hheld
  unresolved := h.unresolved_eq
  kept number handle hheld := by
    obtain ⟨before, request, after, hsplit, hcount, hafter, hfound⟩ := h.exists_of_isHeld rfl hheld
    exact ⟨before, request, after, hsplit, hcount, hafter, hfound, isFile_of_resolve_eq_ok hfound⟩

/-- A file in the root, which is the current directory. -/
def singleFile : FileSystem where
  nodes := [(["a"], .file [0x78])]
  current := []

/-- The file is asked for in quotation marks, from no file. -/
def asked (name : String) : ResolverEvent := .opened ⟨.quoted, name, none⟩

/-- The file is opened twice, overwritten, opened again, removed, and asked for once more; of the
first two handles one is given back. -/
def overwriting : List ResolverEvent :=
  [asked "a", asked "a", asked "m", .wrote "a" [0x79], .closed 0, asked "a", .removed "a",
    asked "a"]

theorem run_balanced_overwriting :
    IsPossible ⟨["."]⟩ ⟨singleFile, {}, []⟩ overwriting ∧
      (run ⟨["."]⟩ ⟨singleFile, {}, []⟩ overwriting).books = ⟨2, ["m", "a"]⟩ ∧
      (run ⟨["."]⟩ ⟨singleFile, {}, []⟩ overwriting).handles =
        [none, some ⟨"./a", [0x78]⟩, some ⟨"./a", [0x79]⟩] ∧
      2 + closedCount overwriting = openedCount ⟨["."]⟩ ⟨singleFile, {}, []⟩ overwriting := by
  have hpossible : IsPossible ⟨["."]⟩ ⟨singleFile, {}, []⟩ overwriting := by
    refine isPossible_cons nofun (isPossible_cons nofun (isPossible_cons nofun
      (isPossible_cons nofun (isPossible_cons ?_ (isPossible_cons nofun
        (isPossible_cons nofun (isPossible_cons nofun isPossible_nil)))))))
    rintro number ⟨⟩
    exact ⟨⟨"./a", [0x78]⟩, by decide⟩
  have hbooks : (run ⟨["."]⟩ ⟨singleFile, {}, []⟩ overwriting).books = ⟨2, ["m", "a"]⟩ := by decide
  refine ⟨hpossible, hbooks, by decide, ?_⟩
  rw [← (run_balanced _ _ _ hpossible).difference, hbooks]

end Include
end ShaderKit
