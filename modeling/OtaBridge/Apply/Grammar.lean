import OtaBridge.Apply.Args

/-!
# The grammar of the command line

`parseArgs` once more, with the index that the `for` loop and `needValue` both advance, and the
positions of `argv` that are read. The arguments it takes are those that split into blocks of an
option and its value, where a value may look like an option (`accepts_grammar`): every vector is
blocks, as many as there are, and a rest that no block stands in front of (`exists_blocks`).
-/

namespace OtaBridge.Apply

/-- The `for` loop from index `i` on, and the positions it reads. -/
def parseFrom (argv : List Text) (i : Nat) (a : Args) : Parsed × List Nat :=
  if i < argv.length then
    let k := argv.getD i []
    let needValue (set : Text → Args) : Parsed × List Nat :=
      if argv.length ≤ i + 1 then (.throw (.missingValue k), [i])
      else
        let (parsed, reads) := parseFrom argv (i + 2) (set (argv.getD (i + 1) []))
        (parsed, i :: (i + 1) :: reads)
    if k = ascii "--image" then needValue fun v => { a with image := v }
    else if k = ascii "--bootconf" then needValue fun v => { a with bootconf := v }
    else if k = ascii "--dry-run" then
      let (parsed, reads) := parseFrom argv (i + 1) { a with dryRun := true }
      (parsed, i :: reads)
    else if k = ascii "-h" ∨ k = ascii "--help" then (.exit, [i])
    else (.throw (.unknownArgument k), [i])
  else (.args a, [])
termination_by argv.length - i

def parseArgsReading (argv : List Text) : Parsed × List Nat :=
  match parseFrom argv 1 {} with
  | (.args a, reads) => (if a.image = [] then .throw .missingImage else .args a, reads)
  | other => other

/-! ## Indices -/

theorem drop_eq_getD {argv : List Text} {i : Nat} (h : i < argv.length) :
    argv.drop i = argv.getD i [] :: argv.drop (i + 1) := by
  rw [List.drop_eq_getElem_cons h, List.getD_eq_getElem?_getD, List.getElem?_eq_getElem h, Option.getD_some]

/-- The result is that of the arguments that are left, and what was read stands in `argv`. -/
def Follows (argv : List Text) (r : Parsed × List Nat) (p : Parsed) : Prop := r.1 = p ∧ ∀ j, j ∈ r.2 → j < argv.length

/-- `needValue` at index `i`, and the loop behind it. -/
theorem follows_value {argv : List Text} {i : Nat} (inside : i < argv.length) (k : Text) (set : Text → Args)
    (behind : ∀ a, Follows argv (parseFrom argv (i + 2) a) (parseLoop (argv.drop (i + 2)) a)) :
    Follows argv
      (if argv.length ≤ i + 1 then (.throw (.missingValue k), [i])
        else ((parseFrom argv (i + 2) (set (argv.getD (i + 1) []))).1,
          i :: (i + 1) :: (parseFrom argv (i + 2) (set (argv.getD (i + 1) []))).2))
      (match argv.drop (i + 1) with
        | [] => .throw (.missingValue k)
        | v :: rest => parseLoop rest (set v)) := by
  by_cases ends : argv.length ≤ i + 1
  · rw [if_pos ends, List.drop_of_length_le ends]
    exact ⟨rfl, fun j mem => (List.mem_singleton.1 mem) ▸ inside⟩
  · obtain ⟨same, reads⟩ := behind (set (argv.getD (i + 1) []))
    rw [if_neg ends, drop_eq_getD (Nat.not_le.1 ends)]
    refine ⟨same, fun j mem => ?_⟩
    rcases List.mem_cons.1 mem with rfl | mem
    · exact inside
    rcases List.mem_cons.1 mem with rfl | mem
    · exact Nat.not_le.1 ends
    · exact reads j mem

/-- The loop over indices is the loop over the arguments that are left. -/
theorem parseFrom_follows (argv : List Text) (i : Nat) (a : Args) :
    Follows argv (parseFrom argv i a) (parseLoop (argv.drop i) a) := by
  induction n : argv.length - i using Nat.strongRecOn generalizing i a with
  | ind n ih =>
    by_cases inside : i < argv.length
    · have next := fun a => ih _ (by omega) (i + 1) a rfl
      have behind := fun a => ih _ (by omega) (i + 2) a rfl
      have here : ∀ j, j ∈ [i] → j < argv.length := fun j mem => (List.mem_singleton.1 mem) ▸ inside
      rw [parseFrom, if_pos inside, drop_eq_getD inside]
      unfold parseLoop
      by_cases image : argv.getD i [] = ascii "--image"
      · rw [if_pos image, if_pos image]
        exact follows_value inside _ (fun v => { a with image := v }) behind
      rw [if_neg image, if_neg image]
      by_cases bootconf : argv.getD i [] = ascii "--bootconf"
      · rw [if_pos bootconf, if_pos bootconf]
        exact follows_value inside _ (fun v => { a with bootconf := v }) behind
      rw [if_neg bootconf, if_neg bootconf]
      by_cases dryRun : argv.getD i [] = ascii "--dry-run"
      · rw [if_pos dryRun, if_pos dryRun]
        obtain ⟨same, reads⟩ := next { a with dryRun := true }
        exact ⟨same, fun j mem => (List.mem_cons.1 mem).elim (fun e => e ▸ inside) (reads j)⟩
      rw [if_neg dryRun, if_neg dryRun]
      by_cases help : argv.getD i [] = ascii "-h" ∨ argv.getD i [] = ascii "--help"
      · rw [if_pos help, if_pos help]
        exact ⟨rfl, here⟩
      · rw [if_neg help, if_neg help]
        exact ⟨rfl, here⟩
    · rw [parseFrom, if_neg inside, List.drop_of_length_le (Nat.not_lt.1 inside)]
      exact ⟨rfl, fun j mem => absurd mem List.not_mem_nil⟩

theorem parseArgsReading_follows (argv : List Text) : Follows argv (parseArgsReading argv) (parseArgs argv) := by
  obtain ⟨same, reads⟩ := parseFrom_follows argv 1 {}
  unfold parseArgsReading parseArgs
  rw [← same]
  cases loop : parseFrom argv 1 {} with
  | mk parsed read =>
    rw [loop] at reads
    cases parsed <;> exact ⟨rfl, reads⟩

/-! ## Blocks -/

/-- An option with its value. -/
inductive Block where
  | image (v : Text)
  | bootconf (v : Text)
  | dryRun
  deriving DecidableEq, Repr

namespace Block

def words : Block → List Text
  | image v => [ascii "--image", v]
  | bootconf v => [ascii "--bootconf", v]
  | dryRun => [ascii "--dry-run"]

def image? : Block → Option Text
  | image v => some v
  | _ => none

def bootconf? : Block → Option Text
  | bootconf v => some v
  | _ => none

/-- Blocks of the same option. -/
def SameKind : Block → Block → Prop
  | image _, image _ => True
  | bootconf _, bootconf _ => True
  | dryRun, dryRun => True
  | _, _ => False

/-- What one block makes of the result. -/
def apply (a : Args) : Block → Args
  | image v => { a with image := v }
  | bootconf v => { a with bootconf := v }
  | dryRun => { a with dryRun := true }

theorem apply_comm {b c : Block} (h : ¬ SameKind b c) (a : Args) : apply (apply a b) c = apply (apply a c) b := by
  cases b <;> cases c <;> first | rfl | exact absurd trivial h

end Block

/-- The arguments that blocks consist of. -/
def wordsOf (bs : List Block) : List Text := bs.flatMap Block.words

def IsHelp (k : Text) : Prop := k = ascii "-h" ∨ k = ascii "--help"

/-- What blocks mean: the last value of each option counts. -/
structure Meaning (bs : List Block) (a : Args) : Prop where
  image : (bs.filterMap Block.image?).getLast? = some a.image
  nonempty : a.image ≠ []
  bootconf : a.bootconf = ((bs.filterMap Block.bootconf?).getLast?).getD (ascii "/boot/extlinux/extlinux.conf")
  dryRun : a.dryRun = true ↔ .dryRun ∈ bs

section Blocks

variable {bs : List Block} {a : Args}

theorem parseLoop_dryRun (rest : List Text) (a : Args) :
    parseLoop (ascii "--dry-run" :: rest) a = parseLoop rest { a with dryRun := true } := by
  have image : ascii "--dry-run" ≠ ascii "--image" := by decide
  have bootconf : ascii "--dry-run" ≠ ascii "--bootconf" := by decide
  rw [parseLoop.eq_def]
  exact (if_neg image).trans ((if_neg bootconf).trans (if_pos rfl))

theorem parseLoop_help {k : Text} (help : IsHelp k) (rest : List Text) (a : Args) :
    parseLoop (k :: rest) a = .exit := by
  have image : k ≠ ascii "--image" := by rcases help with rfl | rfl <;> decide
  have bootconf : k ≠ ascii "--bootconf" := by rcases help with rfl | rfl <;> decide
  have dryRun : k ≠ ascii "--dry-run" := by rcases help with rfl | rfl <;> decide
  rw [parseLoop.eq_def]
  exact (if_neg image).trans ((if_neg bootconf).trans ((if_neg dryRun).trans (if_pos help)))

/-- The loop takes one block after the other. -/
theorem parseLoop_words (bs : List Block) (rest : List Text) (a : Args) :
    parseLoop (wordsOf bs ++ rest) a = parseLoop rest (bs.foldl Block.apply a) := by
  induction bs generalizing a with
  | nil => rfl
  | cons b bs ih =>
    rw [List.foldl_cons, ← ih]
    cases b with
    | image v => rfl
    | bootconf v => rfl
    | dryRun => exact parseLoop_dryRun _ a

/-- How the loop ends, by what stands behind the blocks. -/
theorem exists_blocks (ws : List Text) (a : Args) : ∃ bs rest, ws = wordsOf bs ++ rest ∧
    ((rest = [] ∧ parseLoop ws a = .args (bs.foldl Block.apply a)) ∨
      (∃ k r, rest = k :: r ∧ IsHelp k ∧ parseLoop ws a = .exit) ∨ ∃ e, parseLoop ws a = .throw e) := by
  fun_induction parseLoop ws a with
  | case1 a => exact ⟨[], [], rfl, .inl ⟨rfl, rfl⟩⟩
  | case2 a => exact ⟨[], _, rfl, .inr (.inr ⟨_, rfl⟩)⟩
  | case3 a v rest ih =>
    obtain ⟨bs, rest, rfl, ends⟩ := ih
    exact ⟨.image v :: bs, rest, rfl, ends⟩
  | case4 a => exact ⟨[], _, rfl, .inr (.inr ⟨_, rfl⟩)⟩
  | case5 a v rest image ih =>
    obtain ⟨bs, rest, rfl, ends⟩ := ih
    exact ⟨.bootconf v :: bs, rest, rfl, ends⟩
  | case6 rest a image bootconf ih =>
    obtain ⟨bs, rest, rfl, ends⟩ := ih
    exact ⟨.dryRun :: bs, rest, rfl, ends⟩
  | case7 k rest a image bootconf dryRun help => exact ⟨[], k :: rest, rfl, .inr (.inl ⟨k, rest, rfl, help, rfl⟩)⟩
  | case8 k rest a image bootconf dryRun other => exact ⟨[], k :: rest, rfl, .inr (.inr ⟨_, rfl⟩)⟩

/-- What the blocks leave in the result. -/
theorem foldl_apply (bs : List Block) (a : Args) :
    (bs.foldl Block.apply a).image = ((bs.filterMap Block.image?).getLast?).getD a.image ∧
      (bs.foldl Block.apply a).bootconf = ((bs.filterMap Block.bootconf?).getLast?).getD a.bootconf ∧
      ((bs.foldl Block.apply a).dryRun = true ↔ a.dryRun = true ∨ .dryRun ∈ bs) := by
  induction bs generalizing a with
  | nil => simp
  | cons b bs ih =>
    obtain ⟨image, bootconf, dryRun⟩ := ih (b.apply a)
    rw [List.foldl_cons, image, bootconf, dryRun]
    cases b <;> simp [Block.apply, Block.image?, Block.bootconf?, List.getLast?_cons]

/-- Blocks with an image are a result, and this is the only one. -/
theorem meaning_iff : Meaning bs a ↔ bs.foldl Block.apply {} = a ∧ a.image ≠ [] := by
  obtain ⟨image, bootconf, dryRun⟩ := foldl_apply bs {}
  constructor
  · intro h
    rw [h.image, Option.getD_some] at image
    refine ⟨?_, h.nonempty⟩
    have flag : (bs.foldl Block.apply {}).dryRun = a.dryRun := by
      rw [Bool.eq_iff_iff, dryRun, h.dryRun]
      simp
    obtain ⟨i, c, d⟩ := a
    exact Args.mk.injEq .. ▸ ⟨image, bootconf.trans h.bootconf.symm, flag⟩
  · rintro ⟨rfl, nonempty⟩
    refine ⟨?_, nonempty, bootconf, dryRun.trans (by simp)⟩
    cases last : (bs.filterMap Block.image?).getLast? with
    | none =>
      rw [last] at image
      exact absurd image nonempty
    | some v =>
      rw [image, last]
      rfl

/-- `parseArgs` accepts exactly its grammar. -/
structure AcceptsGrammar (argv : List Text) (r : Parsed × List Nat) : Prop where
  returns : ∀ a, r.1 = .args a ↔ ∃ bs, argv.drop 1 = wordsOf bs ∧ Meaning bs a
  exits : r.1 = .exit ↔ ∃ bs k rest, argv.drop 1 = wordsOf bs ++ k :: rest ∧ IsHelp k
  throws : (¬ ∃ a, r.1 = .args a) → r.1 ≠ .exit → ∃ e, r.1 = .throw e
  /-- The order of blocks of different kinds does not matter, whatever stands around them. -/
  exchange : ∀ pre b c rest, ¬ Block.SameKind b c → argv.drop 1 = wordsOf (pre ++ [b, c]) ++ rest →
    ∀ program, (parseArgsReading (program :: (wordsOf (pre ++ [c, b]) ++ rest))).1 = r.1
  reads : ∀ i, i ∈ r.2 → i < argv.length

variable {argv : List Text}

/-- `parseArgs` where the arguments are blocks. -/
theorem parseArgs_words (words : argv.drop 1 = wordsOf bs) (meaning : Meaning bs a) : parseArgs argv = .args a := by
  obtain ⟨rfl, nonempty⟩ := meaning_iff.1 meaning
  rw [parseArgs, words, ← List.append_nil (wordsOf bs), parseLoop_words]
  exact if_neg nonempty

theorem words_of_args (returned : parseArgs argv = .args a) : ∃ bs, argv.drop 1 = wordsOf bs ∧ Meaning bs a := by
  obtain ⟨bs, rest, split, ends⟩ := exists_blocks (argv.drop 1) {}
  unfold parseArgs at returned
  rcases ends with ⟨rfl, loop⟩ | ⟨k, r, rfl, help, loop⟩ | ⟨e, loop⟩ <;> rw [loop] at returned
  · rw [List.append_nil] at split
    by_cases nonempty : (bs.foldl Block.apply {}).image = []
    · exact absurd ((if_pos nonempty).symm.trans returned) nofun
    · have same := Parsed.args.inj ((if_neg nonempty).symm.trans returned)
      exact ⟨bs, split, meaning_iff.2 ⟨same, same ▸ nonempty⟩⟩
  · cases returned
  · cases returned

theorem words_of_exit (exited : parseArgs argv = .exit) :
    ∃ bs k rest, argv.drop 1 = wordsOf bs ++ k :: rest ∧ IsHelp k := by
  obtain ⟨bs, rest, split, ends⟩ := exists_blocks (argv.drop 1) {}
  unfold parseArgs at exited
  rcases ends with ⟨rfl, loop⟩ | ⟨k, r, rfl, help, loop⟩ | ⟨e, loop⟩ <;> rw [loop] at exited
  · by_cases nonempty : (bs.foldl Block.apply {}).image = []
    · exact absurd ((if_pos nonempty).symm.trans exited) nofun
    · exact absurd ((if_neg nonempty).symm.trans exited) nofun
  · exact ⟨bs, k, r, split, help⟩
  · cases exited

/-- Only what the blocks in front leave matters to the rest. -/
theorem parseArgs_congr {bs' : List Block} {rest : List Text} (program : Text)
    (words : argv.drop 1 = wordsOf bs ++ rest) (same : bs'.foldl Block.apply {} = bs.foldl Block.apply {}) :
    parseArgs (program :: (wordsOf bs' ++ rest)) = parseArgs argv := by
  rw [parseArgs, parseArgs, words, List.drop_succ_cons, List.drop_zero, parseLoop_words, parseLoop_words, same]

/-- **The command line parser accepts exactly its grammar.** -/
theorem accepts_grammar (argv : List Text) : AcceptsGrammar argv (parseArgsReading argv) := by
  obtain ⟨same, reads⟩ := parseArgsReading_follows argv
  constructor
  · intro a
    rw [same]
    exact ⟨words_of_args, fun ⟨bs, words, meaning⟩ => parseArgs_words words meaning⟩
  · rw [same]
    refine ⟨words_of_exit, fun ⟨bs, k, rest, words, help⟩ => ?_⟩
    rw [parseArgs, words, parseLoop_words, parseLoop_help help]
  · intro notArgs notExit
    rw [same] at notArgs notExit ⊢
    cases parsed : parseArgs argv with
    | args a => exact absurd ⟨a, parsed⟩ notArgs
    | exit => exact absurd parsed notExit
    | throw e => exact ⟨e, rfl⟩
  · intro pre b c rest different words program
    rw [same, (parseArgsReading_follows _).1]
    apply parseArgs_congr program words
    rw [List.foldl_append, List.foldl_append]
    exact (Block.apply_comm different _).symm
  · exact reads

end Blocks

end OtaBridge.Apply
