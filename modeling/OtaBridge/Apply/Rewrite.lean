import OtaBridge.Apply.BootConfig
import OtaBridge.Logic.Words

/-!
# The edit against the rewriting of whole arguments

`switchArgs` replaces every whitespace-delimited label argument. The edit of the source works on
the first occurrence of each pattern and does not look at what stands around it, so it is that
rewriting exactly where the other slot's pattern occurs once and as a whole argument, or does not
occur and an own pattern, if any, is a whole argument somewhere (`switches_iff`).
-/

namespace OtaBridge.Apply

open Logic.Substring Logic.Words

/-- Every argument that is exactly a label argument replaced by the one of slot `s`. -/
def switchArgs (t : Text) (s : Slot) : Text :=
  mapWords isspace (fun w => if w = Slot.A.rootArg ∨ w = Slot.B.rootArg then s.rootArg else w) t

/-- Some argument is exactly a label argument. -/
def HasArg (t : Text) : Prop := Slot.A.rootArg ∈ words isspace t ∨ Slot.B.rootArg ∈ words isspace t

instance (t : Text) : Decidable (HasArg t) :=
  inferInstanceAs (Decidable (Slot.A.rootArg ∈ words isspace t ∨ Slot.B.rootArg ∈ words isspace t))

/-- The edit of `t` for slot `s` switches every root argument and nothing else. -/
structure Switches (t : Text) (s : Slot) : Prop where
  rewrites : updateExtlinuxRootPartlabel t s.label =
    if HasArg t then .ok (switchArgs t s) else .error .noRootEntry
  boots : ∀ u, updateExtlinuxRootPartlabel t s.label = .ok u →
    ∀ w, w ∈ words isspace u → w = Slot.A.rootArg ∨ w = Slot.B.rootArg → w = s.rootArg
  idempotent : ∀ u, updateExtlinuxRootPartlabel t s.label = .ok u →
    updateExtlinuxRootPartlabel u s.label = .ok u

theorem names_of_mem_words {t : Text} {s : Slot} (h : s.rootArg ∈ words isspace t) : Names t s :=
  exists_at_iff_infix.2 (infix_of_mem_words h)

theorem rootArg_cases {w : Text} (s : Slot) :
    w = Slot.A.rootArg ∨ w = Slot.B.rootArg ↔ w = s.rootArg ∨ w = s.other.rootArg := by
  cases s
  · exact Iff.rfl
  · exact Or.comm

theorem hasArg_cases {t : Text} (s : Slot) :
    HasArg t ↔ s.rootArg ∈ words isspace t ∨ s.other.rootArg ∈ words isspace t := by
  cases s
  · exact Iff.rfl
  · exact Or.comm

/-- Without an argument of the other slot there is nothing to switch. -/
theorem switchArgs_eq_self {t : Text} {s : Slot} (no : s.other.rootArg ∉ words isspace t) :
    switchArgs t s = t := by
  refine mapWords_eq_self fun w hw => ?_
  split
  · next arg =>
    rcases (rootArg_cases s).1 arg with e | e
    · exact e.symm
    · exact absurd (e ▸ hw) no
  · rfl

/-- Where the other slot's pattern occurs once, as a whole argument, switching the arguments
overwrites that occurrence. -/
theorem switchArgs_eq_replaceFirst {t : Text} {s : Slot} (once : occurrences s.other.rootArg t = 1)
    (whole : s.other.rootArg ∈ words isspace t) :
    switchArgs t s = replaceFirst t s.other.rootArg s.rootArg := by
  obtain ⟨i, word⟩ := mem_words_iff_wordAt.1 whole
  obtain ⟨j, -, only⟩ := (occurrences_eq_one (rootArg_ne_nil _)).1 once
  obtain rfl := only i word.stands
  have found : find s.other.rootArg t = some i :=
    (find_eq_some (rootArg_ne_nil _)).2 ⟨word.stands, fun k hk h => by have := only k h; omega⟩
  have front : (t.take i).length = i := by
    have := word.stands.length_le (rootArg_ne_nil _)
    rw [List.length_take]
    omega
  have split := word.stands.eq_append
  -- no other argument of the other slot, before or behind
  have before : s.other.rootArg ∉ words isspace (t.take i) := by
    intro mem
    obtain ⟨k, h⟩ := names_of_mem_words mem
    have le := h.length_le (rootArg_ne_nil _)
    have pos := List.length_pos_iff.2 (rootArg_ne_nil s.other)
    have inside := (h.append_right (by omega) s.other.rootArg).append_right
      (by rw [List.length_append]; omega) (t.drop (i + s.other.rootArg.length))
    rw [← split] at inside
    have := only k inside
    omega
  have behind : s.other.rootArg ∉ words isspace (t.drop (i + s.other.rootArg.length)) := by
    intro mem
    obtain ⟨k, h⟩ := names_of_mem_words mem
    have pos := List.length_pos_iff.2 (rootArg_ne_nil s.other)
    have inside := h.append_left (t.take i ++ s.other.rootArg)
    rw [← split, List.length_append, front] at inside
    have := only _ inside
    omega
  have rewritten := word.delimited.mapWords_append
    fun w => if w = Slot.A.rootArg ∨ w = Slot.B.rootArg then s.rootArg else w
  rw [← split] at rewritten
  change switchArgs t s = switchArgs _ s ++ _ ++ switchArgs _ s at rewritten
  rw [rewritten, switchArgs_eq_self before, switchArgs_eq_self behind, if_pos ((rootArg_cases s).2 (.inr rfl)),
    replaceFirst, found]
  rfl

/-- Overwriting the only occurrence of a slot's pattern leaves none. -/
theorem not_names_replaceFirst {t : Text} {s : Slot} (once : occurrences s.other.rootArg t = 1) :
    ¬ Names (replaceFirst t s.other.rootArg s.rootArg) s.other := by
  obtain ⟨j, stands, only⟩ := (occurrences_eq_one (rootArg_ne_nil _)).1 once
  obtain ⟨i, found, -⟩ := exists_find (rootArg_ne_nil _) stands
  have here := stands_of_find found
  rw [replaceFirst_of_find found]
  rintro ⟨k, h⟩
  rcases (Code.at_replaceAt (c := rootArgs) here s).1 h with ⟨-, e⟩ | ⟨ne, old⟩
  · exact s.other_ne e
  · exact ne ((only k old).trans (only i here).symm)

/-- What the edit must leave for a second edit to change nothing. -/
theorem occurrences_of_idempotent {t : Text} {s : Slot} (named : Names t s.other)
    (same : replaceFirst (replaceFirst t s.other.rootArg s.rootArg) s.other.rootArg s.rootArg =
      replaceFirst t s.other.rootArg s.rootArg) :
    occurrences s.other.rootArg t = 1 := by
  have gone : ¬ Names (replaceFirst t s.other.rootArg s.rootArg) s.other :=
    fun left => replaceFirst_ne left s.other_ne.symm same
  obtain ⟨i, found, -⟩ := exists_find (rootArg_ne_nil _) named.choose_spec
  have stands := stands_of_find found
  refine (occurrences_eq_one (rootArg_ne_nil _)).2 ⟨i, stands, fun j h => ?_⟩
  by_contra ne
  refine gone ⟨j, ?_⟩
  rw [replaceFirst_of_find found]
  exact (Code.at_replaceAt (c := rootArgs) stands s).2 (.inr ⟨ne, h⟩)

/-- **When the edit switches the arguments and nothing else.** -/
theorem switches_iff (t : Text) (s : Slot) :
    Switches t s ↔
      (Names t s.other → occurrences s.other.rootArg t = 1 ∧ s.other.rootArg ∈ words isspace t) ∧
      (¬ Names t s.other → Names t s → s.rootArg ∈ words isspace t) := by
  constructor
  · intro h
    constructor
    · intro named
      have edited := update_of_names s ((names_cases s).2 (.inr named))
      have again := (update_ok_iff.1 (h.idempotent _ edited)).2
      refine ⟨occurrences_of_idempotent named again.symm, ?_⟩
      by_contra part
      have rewrites := h.rewrites
      rw [edited, switchArgs_eq_self part] at rewrites
      split at rewrites
      · exact replaceFirst_ne named s.other_ne.symm (Except.ok.inj rewrites)
      · cases rewrites
    · intro unnamed named
      have edited := update_of_names s ((names_cases s).2 (.inl named))
      have rewrites := h.rewrites
      rw [edited] at rewrites
      split at rewrites
      · next arg => exact ((hasArg_cases s).1 arg).resolve_right fun mem => unnamed (names_of_mem_words mem)
      · cases rewrites
  · rintro ⟨single, own⟩
    -- the edited text, and that it no longer names the other slot
    have gone : ∀ u, updateExtlinuxRootPartlabel t s.label = .ok u → ¬ Names u s.other := by
      intro u edited
      obtain ⟨-, rfl⟩ := update_ok_iff.1 edited
      by_cases named : Names t s.other
      · exact not_names_replaceFirst (single named).1
      · rwa [replaceFirst_of_not_names named]
    refine ⟨?_, ?_, ?_⟩
    · rw [update_eq]
      by_cases named : Names t s.other
      · rw [if_pos ((names_cases s).2 (.inr named)), if_pos ((hasArg_cases s).2 (.inr (single named).2)),
          switchArgs_eq_replaceFirst (single named).1 (single named).2]
      · have part : s.other.rootArg ∉ words isspace t := fun mem => named (names_of_mem_words mem)
        rw [replaceFirst_of_not_names named, switchArgs_eq_self part]
        have both : (Names t .A ∨ Names t .B) ↔ HasArg t := by
          rw [names_cases s, hasArg_cases s]
          exact ⟨fun h => .inl (own named (h.resolve_right named)),
            fun h => .inl (names_of_mem_words (h.resolve_right part))⟩
        simp only [both]
    · intro u edited w mem arg
      rcases (rootArg_cases s).1 arg with e | e
      · exact e
      · exact absurd (names_of_mem_words (e ▸ mem)) (gone u edited)
    · intro u edited
      have named : Names u s := by
        obtain ⟨named, rfl⟩ := update_ok_iff.1 edited
        exact names_replaceFirst named
      exact update_ok_iff.2 ⟨(names_cases s).2 (.inl named), (replaceFirst_of_not_names (gone u edited) _).symm⟩

/-- Two boot entries for slot A: the edit switches the first, and the second at the next run. -/
theorem not_switches_two_entries :
    ¬ Switches (ascii "APPEND root=PARTLABEL=rootfsA ro\nAPPEND root=PARTLABEL=rootfsA\n") .B := by
  intro h
  have first : At Slot.A.rootArg (ascii "APPEND root=PARTLABEL=rootfsA ro\nAPPEND root=PARTLABEL=rootfsA\n") 7 := by
    decide
  have second : At Slot.A.rootArg (ascii "APPEND root=PARTLABEL=rootfsA ro\nAPPEND root=PARTLABEL=rootfsA\n") 40 := by
    decide
  have again := (update_ok_iff.1 (h.idempotent _ (update_of_names .B (.inl ⟨7, first⟩)))).2
  obtain ⟨i, -, only⟩ := (occurrences_eq_one (rootArg_ne_nil .A)).1
    (occurrences_of_idempotent (s := .B) ⟨7, first⟩ again.symm)
  have e := only 7 first
  have e' := only 40 second
  omega

end OtaBridge.Apply
