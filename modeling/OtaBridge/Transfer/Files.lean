import OtaBridge.Logic.Paths
import OtaBridge.Transfer.Sender

/-!
# The files of the test application

The server of the Ubuntu test application sends the file that its client names: `requestFile` puts the
name behind `data/server/` and asks for a regular file, and nothing else. A name that nowhere climbs
higher than it has descended keeps the server to that directory as long as nobody has put a link there.
A link there is followed out of it, and for every regular file of the machine that is not too deep there
is a name for which it is sent (`requests_reach`).
-/

namespace OtaBridge.Transfer

open Logic.Paths

/-- A place on the machine of the server, the innermost name first. -/
abbrev Place := List Text

/-- The files of a machine, as far as the server may search them; it was started in `cwd`. -/
structure FileTree where
  dir : Place → Bool
  file : Place → Option (List Byte)
  /-- The text of a symbolic link, which is not empty. -/
  link : Place → Option Text
  cwd : Place
  /-- How many links one path may lead through. -/
  maxLinks : Nat
  /-- The first length of a path that is too long. -/
  pathMax : Nat

def slash : Byte := 47

def dot : Byte := 46

/-- What a component of a path does. -/
def move (c : Text) : Move Text :=
  if c = [] ∨ c = [dot] then .stay else if c = [dot, dot] then .up else .down c

def moves (path : Text) : List (Move Text) := (path.splitOn slash).map move

/-- `path.c_str()`, which ends at the first zero byte. -/
def cString (path : Text) : Text := path.takeWhile (· ≠ 0)

def isAbsolute (path : Text) : Bool := path.head? = some slash

def FileTree.target (t : FileTree) (p : Place) : Option (Target Text) :=
  (t.link p).map fun path => ⟨isAbsolute path, moves path⟩

/-- The place that `stat(2)` and `open(2)` find. -/
def FileTree.resolve (t : FileTree) (path : Text) : Option Place :=
  if path.length < t.pathMax then
    follow t.dir t.target t.maxLinks (if isAbsolute path then [] else t.cwd) (moves path)
  else none

/-- `fileExists`, with what the file holds. -/
def FileTree.regular (t : FileTree) (path : Text) : Option (List Byte) := (t.resolve (cString path)).bind t.file

/-- `CHUNK_SIZE` of the test application. -/
def appsChunkSize : Nat := 4096

/-- The reply of `requestFile`, and the events of the thread it starts. -/
def requestFile (t : FileTree) (filename : Text) (read : FileRead) : Bool × List ChunkEvent :=
  let filePath := ascii "data/server/" ++ filename
  match t.regular filePath with
  | some bytes => (true, sendChunks appsChunkSize read bytes)
  | none => (false, [])

/-- A name that a directory can have an entry under. -/
structure Proper (name : Text) : Prop where
  nonempty : name ≠ []
  noDot : name ≠ [dot]
  noDots : name ≠ [dot, dot]
  noSlash : slash ∉ name
  noNul : 0 ∉ name

/-- Every entry is in a directory, under a proper name, and is of one kind. -/
structure FileTree.WellFormed (t : FileTree) : Prop where
  root : t.dir [] = true
  parent : ∀ name p, t.dir (name :: p) = true ∨ (t.file (name :: p)).isSome → t.dir p = true ∧ Proper name
  apart : ∀ p, t.dir p = true → t.file p = none ∧ t.link p = none
  plain : ∀ p, (t.file p).isSome → t.link p = none

/-- `data/server` -/
def FileTree.served (t : FileTree) : Place := ascii "server" :: ascii "data" :: t.cwd

section Places

variable {t : FileTree} {p q : Place} {name c : Text} {bytes : List Byte}

theorem Proper.move (h : Proper c) : move c = .down c := by
  rw [Transfer.move, if_neg (not_or.2 ⟨h.nonempty, h.noDot⟩), if_neg h.noDots]

/-- What is above a directory is one. -/
theorem FileTree.WellFormed.above (h : t.WellFormed) (here : t.dir p = true) (under : q <:+ p) : t.dir q = true := by
  induction p with
  | nil =>
    obtain rfl := List.suffix_nil.1 under
    exact here
  | cons name p ih =>
    rcases List.suffix_cons_iff.1 under with rfl | under
    · exact here
    · exact ih (h.parent name p (.inl here)).1 under

theorem FileTree.WellFormed.proper_of_dir (h : t.WellFormed) (here : t.dir p = true) : ∀ name, name ∈ p → Proper name := by
  induction p with
  | nil => exact fun _ mem => by cases mem
  | cons name p ih =>
    obtain ⟨parent, proper⟩ := h.parent name p (.inl here)
    exact List.forall_mem_cons.2 ⟨proper, ih parent⟩

/-- A regular file is in a directory. -/
theorem FileTree.WellFormed.file (h : t.WellFormed) {bytes : List Byte} (found : t.file p = some bytes) :
    ∃ name q, p = name :: q ∧ t.dir q = true ∧ ∀ n, n ∈ p → Proper n := by
  cases p with
  | nil =>
    rw [(h.apart [] h.root).1] at found
    cases found
  | cons name q =>
    obtain ⟨parent, proper⟩ := h.parent name q (.inr (by rw [found]; rfl))
    exact ⟨name, q, rfl, parent, List.forall_mem_cons.2 ⟨proper, h.proper_of_dir parent⟩⟩

/-! ## The path of a request -/

theorem cString_served (filename : Text) :
    cString (ascii "data/server/" ++ filename) = ascii "data/server/" ++ cString filename :=
  List.takeWhile_append_of_pos (List.all_eq_true.1 rfl)

theorem moves_served (filename : Text) :
    moves (ascii "data/server/" ++ filename) = .down (ascii "data") :: .down (ascii "server") :: moves filename := by
  have path : ascii "data/server/" ++ filename = ascii "data" ++ slash :: (ascii "server" ++ slash :: filename) := rfl
  rw [moves, path, List.splitOn_append_cons_self_of_not_mem (by decide),
    List.splitOn_append_cons_self_of_not_mem (by decide)]
  rfl

theorem FileTree.WellFormed.target (h : t.WellFormed) : ∀ p, t.dir p = true → t.target p = none := by
  intro p here
  rw [FileTree.target, (h.apart p here).2]
  rfl

/-- A request that is not too long walks from `data/server`. -/
theorem resolve_served (h : t.WellFormed) (served : t.dir t.served = true) {filename : Text}
    (fits : (cString (ascii "data/server/" ++ filename)).length < t.pathMax) :
    t.resolve (cString (ascii "data/server/" ++ filename)) =
      follow t.dir t.target t.maxLinks t.served (moves (cString filename)) := by
  have data := (h.parent _ _ (.inl served)).1
  have cwd := (h.parent _ _ (.inl data)).1
  rw [FileTree.resolve, if_pos fits, cString_served, moves_served]
  have first : (Move.down (ascii "data")).link t.target t.cwd = none := h.target _ data
  have second : (Move.down (ascii "server")).link t.target (ascii "data" :: t.cwd) = none := h.target _ served
  exact (follow_cons cwd first).trans (follow_cons data second)

/-- A request that is accepted was not too long. -/
theorem fits_of_resolve {path : Text} (found : t.resolve path = some p) : path.length < t.pathMax := by
  by_contra long
  rw [FileTree.resolve, if_neg long] at found
  cases found

/-! ## The name of a file -/

/-- A name that climbs to the root and descends to `p`. -/
def climb (t : FileTree) (p : Place) : Text :=
  [slash].intercalate (List.replicate t.served.length [dot, dot] ++ p.reverse)

theorem not_mem_intercalate {a : Byte} (ne : a ≠ slash) {cs : List Text} (none : ∀ c, c ∈ cs → a ∉ c) :
    a ∉ [slash].intercalate cs := by
  induction cs with
  | nil => exact List.not_mem_nil
  | cons c cs ih =>
    have rest := ih fun d mem => none d (List.mem_cons_of_mem c mem)
    have front := none c List.mem_cons_self
    by_cases empty : cs = []
    · subst empty
      simpa using front
    · rw [List.intercalate_cons_of_ne_nil empty]
      simp [front, rest, ne]

/-- What components do that are neither empty nor broken by a slash or a zero byte. -/
theorem moves_intercalate {cs : List Text} (plain : ∀ c, c ∈ cs → slash ∉ c ∧ 0 ∉ c) (some : cs ≠ []) :
    cString ([slash].intercalate cs) = [slash].intercalate cs ∧ moves ([slash].intercalate cs) = cs.map move := by
  constructor
  · refine List.takeWhile_eq_self_iff.2 fun a mem => decide_eq_true fun nul => ?_
    exact not_mem_intercalate (by decide) (fun c inside => (plain c inside).2) (nul ▸ mem)
  · rw [moves, List.splitOn_intercalate slash (fun c mem => (plain c mem).1) some]

theorem map_move (proper : ∀ name, name ∈ p → Proper name) : p.reverse.map move = p.reverse.map .down :=
  List.map_congr_left fun name mem => (proper name (List.mem_reverse.1 mem)).move

theorem climb_eq (proper : ∀ name, name ∈ p → Proper name) (some : p ≠ []) :
    cString (climb t p) = climb t p ∧
      moves (climb t p) = List.replicate t.served.length .up ++ p.reverse.map .down := by
  have component : ∀ c, c ∈ List.replicate t.served.length [dot, dot] ++ p.reverse → slash ∉ c ∧ 0 ∉ c := by
    intro c mem
    rcases List.mem_append.1 mem with up | down
    · rw [List.eq_of_mem_replicate up]
      decide
    · have here := proper c (List.mem_reverse.1 down)
      exact ⟨here.noSlash, here.noNul⟩
  obtain ⟨whole, steps⟩ := moves_intercalate component (by simp [some])
  refine ⟨whole, steps.trans ?_⟩
  rw [List.map_append, List.map_replicate, map_move proper]
  rfl

/-- The path of a file from the root. -/
def absolute (p : Place) : Text := slash :: [slash].intercalate p.reverse

theorem moves_absolute (proper : ∀ name, name ∈ p → Proper name) (some : p ≠ []) :
    moves (absolute p) = .stay :: p.reverse.map .down := by
  have component : ∀ c, c ∈ p.reverse → slash ∉ c ∧ 0 ∉ c := fun c mem =>
    ⟨(proper c (List.mem_reverse.1 mem)).noSlash, (proper c (List.mem_reverse.1 mem)).noNul⟩
  have rest := (moves_intercalate component (by simp [some])).2
  rw [map_move proper] at rest
  rw [← rest]
  exact congrArg (List.map move) (List.splitOn_append_cons_self_of_not_mem List.not_mem_nil _)

/-- From the root down to a file. -/
theorem FileTree.WellFormed.walk_file (h : t.WellFormed) (found : t.file p = some bytes) :
    p ≠ [] ∧ (∀ name, name ∈ p → Proper name) ∧ t.target p = none ∧ walk t.dir [] (p.reverse.map .down) = some p := by
  obtain ⟨name, q, rfl, parent, proper⟩ := h.file found
  refine ⟨List.cons_ne_nil _ _, proper, ?_, walk_downs fun n r under => ?_⟩
  · rw [FileTree.target, h.plain _ (by rw [found]; rfl)]
    rfl
  · rcases List.suffix_cons_iff.1 under with same | inner
    · obtain ⟨-, rfl⟩ := List.cons.inj same
      exact parent
    · exact h.above parent ((List.suffix_cons n r).trans inner)

end Places

/-! ## What a request reaches -/

section Requests

variable {t : FileTree} {filename : Text} {bytes : List Byte}

theorem requestFile_of_some (found : t.regular (ascii "data/server/" ++ filename) = some bytes) (read : FileRead) :
    requestFile t filename read = (true, sendChunks appsChunkSize read bytes) := by
  simp only [requestFile, found]

theorem requestFile_of_none (found : t.regular (ascii "data/server/" ++ filename) = none) (read : FileRead) :
    requestFile t filename read = (false, []) := by
  simp only [requestFile, found]

end Requests

/-- What the server sends, and to which names. -/
structure Reach (t : FileTree) : Prop where
  /-- A name that nowhere climbs higher than it has descended, where nothing in `data/server` is a link. -/
  inside : (∀ p, t.served <:+ p → t.link p = none) → ∀ filename read, Stays 0 (moves (cString filename)) →
    (requestFile t filename read).1 = true →
    ∃ p bytes, t.served <:+ p ∧ t.file p = some bytes ∧
      (requestFile t filename read).2 = sendChunks appsChunkSize read bytes
  /-- A link in `data/server` to any regular file. -/
  through : ∀ name p bytes, Proper name → t.link (name :: t.served) = some (absolute p) → t.file p = some bytes →
    0 < t.maxLinks → (ascii "data/server/" ++ name).length < t.pathMax →
    ∀ read, requestFile t name read = (true, sendChunks appsChunkSize read bytes)
  /-- Every regular file of the machine, unless the path to it is too long. -/
  everywhere : ∀ p bytes, t.file p = some bytes → (ascii "data/server/" ++ climb t p).length < t.pathMax →
    ∀ read, requestFile t (climb t p) read = (true, sendChunks appsChunkSize read bytes)

theorem Proper.moves (h : Proper name) : cString name = name ∧ moves name = [.down name] := by
  have plain : ∀ c, c ∈ [name] → slash ∉ c ∧ 0 ∉ c := by simp [h.noSlash, h.noNul]
  obtain ⟨whole, steps⟩ := moves_intercalate plain (List.cons_ne_nil _ _)
  rw [List.intercalate_singleton] at whole steps
  exact ⟨whole, steps.trans (congrArg (fun m => [m]) h.move)⟩

/-- **What a request reaches.** -/
theorem requests_reach {t : FileTree} (wellFormed : t.WellFormed) (served : t.dir t.served = true) : Reach t where
  inside unlinked filename read stays accepted := by
    cases found : t.regular (ascii "data/server/" ++ filename) with
    | none =>
      rw [requestFile_of_none found] at accepted
      cases accepted
    | some bytes =>
      rw [requestFile_of_some found]
      obtain ⟨p, walks, file⟩ := Option.bind_eq_some_iff.1 found
      rw [resolve_served wellFormed served (fits_of_resolve walks)] at walks
      refine ⟨p, bytes, suffix_of_follow (fun q under => ?_) stays walks, file, rfl⟩
      rw [FileTree.target, unlinked q under]
      rfl
  through name p bytes proper linked found room fits := by
    obtain ⟨nonempty, names, last, down⟩ := wellFormed.walk_file found
    obtain ⟨whole, steps⟩ := proper.moves
    have linking : (Move.down name).link t.target t.served = some ⟨true, .stay :: p.reverse.map .down⟩ := by
      rw [Move.link, FileTree.target, linked, Option.map_some, moves_absolute names nonempty]
      rfl
    have walks : walk t.dir [] (.stay :: p.reverse.map .down) = some p := (walk_cons wellFormed.root).trans down
    refine requestFile_of_some ?_
    have short : (cString (ascii "data/server/" ++ name)).length < t.pathMax := by rwa [cString_served, whole]
    obtain ⟨n, more⟩ := Nat.exists_eq_succ_of_ne_zero (Nat.ne_of_gt room)
    rw [FileTree.regular, resolve_served wellFormed served short, whole, steps, more]
    have reached : follow t.dir t.target (n + 1) t.served [.down name] = some p := by
      refine (walkWith_link served linking).trans ?_
      rw [List.append_nil]
      exact follow_of_walk wellFormed.target last walks
    rw [reached]
    exact found
  everywhere p bytes found fits := by
    obtain ⟨nonempty, names, last, down⟩ := wellFormed.walk_file found
    obtain ⟨whole, steps⟩ := climb_eq (t := t) names nonempty
    have up := walk_ups fun r under => wellFormed.above served under
    have short : (cString (ascii "data/server/" ++ climb t p)).length < t.pathMax := by rwa [cString_served, whole]
    refine requestFile_of_some ?_
    rw [FileTree.regular, resolve_served wellFormed served short, whole, steps,
      follow_of_walk wellFormed.target last (walk_trans up down)]
    exact found

/-- A machine with a key outside the directory of the server, and in that directory perhaps a link. -/
def keyTree (pub : Option Text) : FileTree where
  dir p := p ∈ [[], [ascii "data"], [ascii "server", ascii "data"]]
  file p := if p = [ascii "key"] then some [7] else none
  link p := if p = [ascii "pub", ascii "server", ascii "data"] then pub else none
  cwd := []
  maxLinks := 40
  pathMax := 4096

theorem wellFormed_keyTree (pub : Option Text) : (keyTree pub).WellFormed where
  root := rfl
  parent name p entry := by
    have entries : (name = ascii "data" ∧ p = []) ∨ (name = ascii "server" ∧ p = [ascii "data"]) ∨
        (name = ascii "key" ∧ p = []) := by
      rcases entry with dir | file
      · simpa [keyTree, or_assoc] using Or.inl (b := name = ascii "key" ∧ p = []) (of_decide_eq_true dir)
      · refine .inr (.inr ?_)
        by_contra other
        have outside : (keyTree pub).file (name :: p) = none := if_neg fun same => other (List.cons.inj same)
        rw [outside] at file
        cases file
    rcases entries with ⟨rfl, rfl⟩ | ⟨rfl, rfl⟩ | ⟨rfl, rfl⟩
    · exact ⟨rfl, by decide, by decide, by decide, by decide, by decide⟩
    · exact ⟨rfl, by decide, by decide, by decide, by decide, by decide⟩
    · exact ⟨rfl, by decide, by decide, by decide, by decide, by decide⟩
  apart p here := by
    refine ⟨if_neg fun key => ?_, if_neg fun linked => ?_⟩
    · subst key
      exact absurd here Bool.false_ne_true
    · subst linked
      exact absurd here Bool.false_ne_true
  plain p file := by
    refine if_neg fun linked => ?_
    subst linked
    exact absurd file Bool.false_ne_true

example : climb (keyTree none) [ascii "key"] = ascii "../../key" := by decide

theorem requests_reach_key : Reach (keyTree none) ∧ Reach (keyTree (some (absolute [ascii "key"]))) :=
  ⟨requests_reach (wellFormed_keyTree none) rfl, requests_reach (wellFormed_keyTree _) rfl⟩

end OtaBridge.Transfer
