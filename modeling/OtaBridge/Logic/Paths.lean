import Mathlib.Data.List.Basic

/-!
# Walks in a tree of directories

A place in the tree is the list of the names that lead to it, the innermost one first. A walk makes one
move after another, each of them from a directory, and `follow` makes a walk that follows the links it
comes to. Where there are no links, one that nowhere has gone up more often than down stays under its start
(`suffix_of_follow`), and going up often enough and then down leads anywhere (`walk_ups`, `walk_downs`).
-/

namespace Logic.Paths

variable {ν : Type*}

inductive Move (ν : Type*) where
  | stay
  | up
  | down (name : ν)
  deriving DecidableEq, Repr

/-- From the root there is no way up. -/
def Move.apply : Move ν → List ν → List ν
  | .stay, p => p
  | .up, p => p.tail
  | .down name, p => name :: p

/-- What a link leads to: moves, from the root or from where the link is. -/
structure Target (ν : Type*) where
  root : Bool
  moves : List (Move ν)

/-- The link that a move from `p` comes to. -/
def Move.link (link : List ν → Option (Target ν)) (p : List ν) : Move ν → Option (Target ν)
  | .down name => link (name :: p)
  | _ => none

/-- Where the moves lead to, if all of them but the last are to directories; `next` goes on behind a link. -/
def walkWith (dir : List ν → Bool) (link : List ν → Option (Target ν))
    (next : List ν → List (Move ν) → Option (List ν)) : List ν → List (Move ν) → Option (List ν)
  | p, [] => some p
  | p, m :: ms =>
    if dir p then
      match m.link link p with
      | none => walkWith dir link next (m.apply p) ms
      | some target => next (if target.root then [] else p) (target.moves ++ ms)
    else none

/-- A walk that follows at most `n` links. -/
def follow (dir : List ν → Bool) (link : List ν → Option (Target ν)) : ℕ → List ν → List (Move ν) → Option (List ν)
  | 0 => walkWith dir link fun _ _ => none
  | n + 1 => walkWith dir link (follow dir link n)

/-- A walk in a tree without links. -/
def walk (dir : List ν → Bool) : List ν → List (Move ν) → Option (List ν) := walkWith dir (fun _ => none) fun _ _ => none

/-- From depth `d` on, the moves nowhere go up more often than there is room. -/
def Stays : ℕ → List (Move ν) → Prop
  | _, [] => True
  | d, .stay :: ms => Stays d ms
  | 0, .up :: _ => False
  | d + 1, .up :: ms => Stays d ms
  | d, .down _ :: ms => Stays (d + 1) ms

section Walks

variable {dir : List ν → Bool} {link : List ν → Option (Target ν)} {next : List ν → List (Move ν) → Option (List ν)}
variable {p q r base : List ν} {m : Move ν} {ms ns : List (Move ν)} {n : ℕ}

theorem walkWith_cons (here : dir p = true) (plain : m.link link p = none) :
    walkWith dir link next p (m :: ms) = walkWith dir link next (m.apply p) ms := by
  rw [walkWith, if_pos here, plain]

theorem walkWith_link {target : Target ν} (here : dir p = true) (found : m.link link p = some target) :
    walkWith dir link next p (m :: ms) = next (if target.root then [] else p) (target.moves ++ ms) := by
  rw [walkWith, if_pos here, found]

theorem walk_cons (here : dir p = true) : walk dir p (m :: ms) = walk dir (m.apply p) ms :=
  walkWith_cons here (by cases m <;> rfl)

/-- The first move of a walk. -/
theorem walk_cases (walks : walk dir p (m :: ms) = some q) : dir p = true ∧ walk dir (m.apply p) ms = some q := by
  have here : dir p = true := by
    by_contra outside
    rw [walk, walkWith, if_neg outside] at walks
    cases walks
  rw [walk_cons here] at walks
  exact ⟨here, walks⟩

theorem walk_trans (first : walk dir p ms = some q) (then_ : walk dir q ns = some r) : walk dir p (ms ++ ns) = some r := by
  induction ms generalizing p with
  | nil =>
    obtain rfl : p = q := Option.some.inj first
    exact then_
  | cons m ms ih =>
    obtain ⟨here, rest⟩ := walk_cases first
    rw [List.cons_append, walk_cons here]
    exact ih rest

/-- Links are neither directories nor where a walk ends, so a walk that finds its way meets none. -/
theorem walkWith_of_walk (apart : ∀ p, dir p = true → link p = none) (last : link q = none)
    (walks : walk dir p ms = some q) : walkWith dir link next p ms = some q := by
  induction ms generalizing p with
  | nil => exact walks
  | cons m ms ih =>
    obtain ⟨here, rest⟩ := walk_cases walks
    have plain : link (m.apply p) = none := by
      cases ms with
      | nil =>
        obtain rfl : m.apply p = q := Option.some.inj rest
        exact last
      | cons m' ms => exact apart _ (walk_cases rest).1
    have unlinked : m.link link p = none := by
      cases m with
      | down name => exact plain
      | _ => rfl
    rw [walkWith_cons here unlinked]
    exact ih rest

variable (dir link) in
theorem follow_eq (n : ℕ) : ∃ next, follow dir link n = walkWith dir link next := by
  cases n with
  | zero => exact ⟨_, rfl⟩
  | succ n => exact ⟨_, rfl⟩

theorem follow_cons (here : dir p = true) (plain : m.link link p = none) :
    follow dir link n p (m :: ms) = follow dir link n (m.apply p) ms := by
  obtain ⟨next, same⟩ := follow_eq dir link n
  rw [same, walkWith_cons here plain]

theorem follow_of_walk (apart : ∀ p, dir p = true → link p = none) (last : link q = none)
    (walks : walk dir p ms = some q) : follow dir link n p ms = some q := by
  obtain ⟨next, same⟩ := follow_eq dir link n
  rw [same]
  exact walkWith_of_walk apart last walks

/-- A walk that stays ends under its start, if there is no link there. -/
theorem suffix_of_walkWith {d : ℕ} (unlinked : ∀ q, base <:+ q → link q = none) (stays : Stays d ms)
    (depth : p.length = base.length + d) (under : base <:+ p) (walks : walkWith dir link next p ms = some q) :
    base <:+ q := by
  induction ms generalizing p d with
  | nil =>
    obtain rfl := Option.some.inj walks
    exact under
  | cons m ms ih =>
    have here : dir p = true := by
      by_contra outside
      rw [walkWith, if_neg outside] at walks
      cases walks
    cases m with
    | stay =>
      rw [walkWith_cons here rfl] at walks
      exact ih stays depth under walks
    | up =>
      rw [walkWith_cons here rfl] at walks
      cases d with
      | zero => exact stays.elim
      | succ d =>
        obtain ⟨front, rfl⟩ := under
        obtain ⟨name, front, rfl⟩ : ∃ name rest, front = name :: rest := by
          refine List.exists_cons_of_ne_nil fun empty => ?_
          rw [empty, List.nil_append] at depth
          omega
        refine ih stays ?_ (List.suffix_append front base) walks
        rw [List.length_append, List.length_cons] at depth
        rw [List.length_append]
        omega
    | down name =>
      have deeper : base <:+ name :: p := under.trans (List.suffix_cons name p)
      rw [walkWith_cons (m := .down name) here (unlinked _ deeper)] at walks
      refine ih stays ?_ deeper walks
      rw [List.length_cons, depth, Nat.add_assoc]

theorem suffix_of_follow (unlinked : ∀ q, p <:+ q → link q = none) (stays : Stays 0 ms)
    (walks : follow dir link n p ms = some q) : p <:+ q := by
  obtain ⟨next, same⟩ := follow_eq dir link n
  rw [same] at walks
  exact suffix_of_walkWith unlinked stays rfl (List.suffix_refl p) walks

/-- Up to the root, through directories. -/
theorem walk_ups (dirs : ∀ q, q <:+ p → dir q = true) : walk dir p (List.replicate p.length .up) = some [] := by
  induction p with
  | nil => rfl
  | cons name p ih =>
    rw [List.length_cons, List.replicate_succ, walk_cons (dirs _ (List.suffix_refl _))]
    exact ih fun q under => dirs q (under.trans (List.suffix_cons name p))

/-- And down to a place, through the directories above it. -/
theorem walk_downs (dirs : ∀ name q, name :: q <:+ p → dir q = true) : walk dir [] (p.reverse.map .down) = some p := by
  induction p with
  | nil => rfl
  | cons name p ih =>
    have before := ih fun n q under => dirs n q (under.trans (List.suffix_cons name p))
    rw [List.reverse_cons, List.map_append]
    refine walk_trans before ?_
    rw [List.map_singleton, walk_cons (dirs name p (List.suffix_refl _))]
    rfl

end Walks

end Logic.Paths
