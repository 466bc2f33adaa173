import Mathlib.Data.List.TakeWhile
import Mathlib.Data.Nat.Digits.Defs
import OtaBridge.Transfer.Number

/-!
# Numerals in number files

`readUint32FromFile` gives back every number below 2^32 that its file spells, in decimal or with a
`0x` in hexadecimal (`round_trip`). What else it makes of a first line is less than that: it stops at
the first byte that is no digit without looking further, takes signs, looks for the `0x` only at the
very front, and overwrites `valueOut` with a failing extraction (`reads_soundly_iff`).
-/

namespace OtaBridge.Transfer

open Logic.Substring

/-- A numeral of `v`: digits, with any number of zeros in front and letters in either case. -/
structure Numeral (base : Nat) (t : Text) (v : Nat) : Prop where
  nonempty : t ≠ []
  value : ∃ ds : List Nat, t.map (digit base) = ds.map some ∧ Nat.ofDigits base ds.reverse = v

/-- How a number file spells `v`. -/
inductive Spells : Text → UInt32 → Prop where
  | decimal {t : Text} {v : UInt32} : Numeral 10 t v.toNat → Spells t v
  | hexadecimal {p t : Text} {v : UInt32} :
    p = ascii "0x" ∨ p = ascii "0X" → Numeral 16 t v.toNat → Spells (p ++ t) v

def Blank (t : Text) : Prop := ∀ b, b ∈ t → isspace b = true

instance (t : Text) : Decidable (Blank t) := List.decidableBAll (fun b => isspace b = true) t

/-- What `std::getline` reads first. -/
def firstLine (content : List Byte) : Text := content.takeWhile (· ≠ 10)

/-! ## Digits -/

section Digits

variable {base : Nat} {b : Byte} {t rest : Text}

theorem ofDigits_eq (base : Nat) (ds : List Nat) : ofDigits base ds = Nat.ofDigits base ds.reverse := by
  rw [Nat.ofDigits_eq_foldr, List.foldr_reverse, ofDigits]
  congr 1
  funext v d
  rw [Nat.cast_id, Nat.mul_comm, Nat.add_comm]

/-- White space and signs are below the digits. -/
theorem digit_of_lt (base : Nat) (h : b < 48) : digit base b = none := by
  have below : ∀ lo : Byte, 48 ≤ lo → ¬ lo ≤ b := fun lo le ge => absurd (UInt8.le_trans le ge) (UInt8.not_le.2 h)
  rw [digit, if_neg fun d => below 48 (by decide) d.1, if_neg fun d => below 97 (by decide) d.1,
    if_neg fun d => below 65 (by decide) d.1]
  rfl

theorem isspace_lt (h : isspace b = true) : b < 48 := by
  simp only [isspace, Bool.or_eq_true, beq_iff_eq, Bool.and_eq_true, decide_eq_true_eq] at h
  rcases h with rfl | ⟨-, le⟩
  · decide
  · exact UInt8.lt_of_le_of_lt le (by decide)

theorem digits_append {ds : List Nat} (h : t.map (digit base) = ds.map some)
    (stop : ∀ b, b ∈ rest.head? → digit base b = none) : digits base (t ++ rest) = ds := by
  induction t generalizing ds with
  | nil =>
    obtain rfl : ds = [] := by simpa using h.symm
    cases rest with
    | nil => rfl
    | cons b rest => simp [digits, stop b rfl]
  | cons b t ih =>
    cases ds with
    | nil => cases h
    | cons d ds =>
      rw [List.map_cons, List.map_cons, List.cons.injEq] at h
      rw [List.cons_append, digits, h.1, ih h.2]

theorem Numeral.digit {v : Nat} (h : Numeral base t v) (mem : b ∈ t) : ∃ d, digit base b = some d := by
  obtain ⟨ds, digits, -⟩ := h.value
  have here : Transfer.digit base b ∈ t.map (Transfer.digit base) := List.mem_map_of_mem mem
  rw [digits] at here
  obtain ⟨d, -, e⟩ := List.mem_map.1 here
  exact ⟨d, e.symm⟩

theorem Numeral.ge {v : Nat} (h : Numeral base t v) (mem : b ∈ t) : ¬ b < 48 := by
  intro lt
  obtain ⟨d, some⟩ := h.digit mem
  rw [digit_of_lt base lt] at some
  cases some

/-- What the digits in front of `rest` come to. -/
theorem Numeral.read {v : Nat} (h : Numeral base t v) (stop : ∀ b, b ∈ rest.head? → Transfer.digit base b = none) :
    digits base (t ++ rest) ≠ [] ∧ ofDigits base (digits base (t ++ rest)) = v := by
  obtain ⟨ds, digits, value⟩ := h.value
  rw [digits_append digits stop, ofDigits_eq]
  refine ⟨?_, value⟩
  rintro rfl
  exact h.nonempty (List.map_eq_nil_iff.1 digits)

theorem stop_of_blank (blank : Blank t) : ∀ b, b ∈ t.head? → digit base b = none := fun b mem =>
  digit_of_lt base (isspace_lt (blank b (List.mem_of_mem_head? mem)))

end Digits

/-! ## Extraction -/

section Extraction

variable {p t ws rest s : Text} {v : UInt32}

/-- White space in front is skipped. -/
theorem extractUint32_blank_append (base : Nat) (blank : Blank ws) (s : Text) (out : UInt32) :
    extractUint32 base (ws ++ s) out = extractUint32 base s out := by
  rw [extractUint32, extractUint32, List.dropWhile_append_of_pos blank]

/-- With nothing but white space there is nothing to extract. -/
theorem extractUint32_blank (base : Nat) (blank : Blank s) (out : UInt32) :
    extractUint32 base s out = (false, out) := by
  rw [extractUint32, List.dropWhile_eq_nil_iff.2 blank]

/-- Otherwise the value is overwritten. -/
theorem extractUint32_out (base : Nat) (some : ¬ Blank s) (out out' : UInt32) :
    extractUint32 base s out = extractUint32 base s out' := by
  unfold extractUint32
  split
  · next none => exact absurd (List.dropWhile_eq_nil_iff.1 none) some
  · rfl

/-- A number without a sign in front. -/
theorem extractUint32_unsigned {base : Nat} {c : Byte} (front : ¬ c < 48) {read : Text}
    (skip : (if base = 16 then skipHexPrefix (c :: s) else c :: s) = read) (some : digits base read ≠ [])
    (value : ofDigits base (digits base read) = v.toNat) (out : UInt32) :
    extractUint32 base (c :: s) out = (true, v) := by
  have digit : ¬ isspace c = true := fun space => front (isspace_lt space)
  have unsigned : ¬ (c = 45 ∨ c = 43) := by rintro (rfl | rfl) <;> exact front (by decide)
  have positive : (c == 45) = false := beq_eq_false_iff_ne.2 fun e => unsigned (.inl e)
  simp only [extractUint32, List.dropWhile_cons_of_neg digit, if_neg unsigned, skip, if_neg some, value, positive]
  rw [if_neg (Nat.not_le.2 v.toNat_lt_size)]
  simp

theorem extractUint32_decimal (numeral : Numeral 10 t v.toNat)
    (stop : ∀ b, b ∈ rest.head? → digit 10 b = none) (out : UInt32) :
    extractUint32 10 (t ++ rest) out = (true, v) := by
  obtain ⟨some, value⟩ := numeral.read stop
  cases t with
  | nil => exact absurd rfl numeral.nonempty
  | cons c t => exact extractUint32_unsigned (numeral.ge List.mem_cons_self) (if_neg (by decide)) some value out

theorem extractUint32_hexadecimal (hex : p = ascii "0x" ∨ p = ascii "0X") (numeral : Numeral 16 t v.toNat)
    (stop : ∀ b, b ∈ rest.head? → digit 16 b = none) (out : UInt32) :
    extractUint32 16 (p ++ (t ++ rest)) out = (true, v) := by
  obtain ⟨some, value⟩ := numeral.read stop
  rcases hex with rfl | rfl
  · exact extractUint32_unsigned (c := 48) (s := 120 :: (t ++ rest)) (by decide) (if_pos rfl) some value out
  · exact extractUint32_unsigned (c := 48) (s := 88 :: (t ++ rest)) (by decide) (if_pos rfl) some value out

end Extraction

/-! ## Reading a file -/

section Files

variable {content p s t ws ws' : Text} {v : UInt32}

/-- The base is chosen by the very front of the line. -/
theorem readUint32_of_line (line : firstLine content = s) (nonempty : s ≠ []) (out : UInt32) :
    readUint32FromFile (some content) out =
      if ascii "0x" <+: s ∨ ascii "0X" <+: s then extractUint32 16 s out else extractUint32 10 s out := by
  subst line
  have front : (find (ascii "0x") (firstLine content) = some 0 ∨ find (ascii "0X") (firstLine content) = some 0) ↔
      (ascii "0x" <+: firstLine content ∨ ascii "0X" <+: firstLine content) :=
    or_congr (find_eq_zero (by decide)) (find_eq_zero (by decide))
  exact (if_neg nonempty).trans (if_congr front rfl rfl)

theorem readUint32_decimal (numeral : Numeral 10 t v.toNat) (before : Blank ws) (after : Blank ws')
    (line : firstLine content = ws ++ (t ++ ws')) (out : UInt32) :
    readUint32FromFile (some content) out = (true, v) := by
  have clear : ∀ x, isspace x = false → digit 10 x = none → x ∉ ws ++ (t ++ ws') := by
    intro x visible letter mem
    rcases List.mem_append.1 mem with front | mem
    · rw [before x front] at visible
      cases visible
    rcases List.mem_append.1 mem with inside | back
    · obtain ⟨d, found⟩ := numeral.digit inside
      rw [letter] at found
      cases found
    · rw [after x back] at visible
      cases visible
  have noPrefix : ¬ (ascii "0x" <+: ws ++ (t ++ ws') ∨ ascii "0X" <+: ws ++ (t ++ ws')) := by
    rintro (front | front)
    · exact clear 120 (by decide) (by decide) (front.subset (by decide))
    · exact clear 88 (by decide) (by decide) (front.subset (by decide))
  have nonempty : ws ++ (t ++ ws') ≠ [] := by simp [numeral.nonempty]
  rw [readUint32_of_line line nonempty, if_neg noPrefix, extractUint32_blank_append 10 before,
    extractUint32_decimal numeral (stop_of_blank after)]

theorem readUint32_hexadecimal (hex : p = ascii "0x" ∨ p = ascii "0X") (numeral : Numeral 16 t v.toNat)
    (after : Blank ws') (line : firstLine content = p ++ (t ++ ws')) (out : UInt32) :
    readUint32FromFile (some content) out = (true, v) := by
  have there : ascii "0x" <+: p ++ (t ++ ws') ∨ ascii "0X" <+: p ++ (t ++ ws') := by
    rcases hex with rfl | rfl
    · exact .inl (List.prefix_append _ _)
    · exact .inr (List.prefix_append _ _)
  have nonempty : p ++ (t ++ ws') ≠ [] := by simp [numeral.nonempty]
  rw [readUint32_of_line line nonempty, if_pos there, extractUint32_hexadecimal hex numeral (stop_of_blank after)]

/-- A `0x` behind white space is read as the number 0. -/
theorem readUint32_indented (hex : p = ascii "0x" ∨ p = ascii "0X") (before : Blank ws) (indented : ws ≠ [])
    (line : firstLine content = ws ++ (p ++ s)) (out : UInt32) :
    readUint32FromFile (some content) out = (true, 0) := by
  obtain ⟨b, ws, rfl⟩ := List.exists_cons_of_ne_nil indented
  have visible : b ≠ 48 := by
    rintro rfl
    exact absurd (before 48 List.mem_cons_self) (by decide)
  have noPrefix : ¬ (ascii "0x" <+: b :: ws ++ (p ++ s) ∨ ascii "0X" <+: b :: ws ++ (p ++ s)) := by
    rintro (⟨r, e⟩ | ⟨r, e⟩) <;> exact visible (List.head_eq_of_cons_eq e).symm
  have zero : Numeral 10 [48] (0 : UInt32).toNat := ⟨by decide, [0], rfl, rfl⟩
  rw [readUint32_of_line line (List.cons_ne_nil _ _), if_neg noPrefix, extractUint32_blank_append 10 before]
  rcases hex with rfl | rfl
  · show extractUint32 10 ([48] ++ 120 :: s) out = (true, 0)
    exact extractUint32_decimal zero (by rintro c ⟨⟩; decide) out
  · show extractUint32 10 ([48] ++ 88 :: s) out = (true, 0)
    exact extractUint32_decimal zero (by rintro c ⟨⟩; decide) out

/-- What a blank first line leaves. -/
theorem readUint32_blank (blank : Blank (firstLine content)) (out : UInt32) :
    readUint32FromFile (some content) out = (false, out) := by
  by_cases nonempty : firstLine content = []
  · exact if_pos nonempty
  · rw [readUint32_of_line rfl nonempty, extractUint32_blank 16 blank, extractUint32_blank 10 blank, ite_self]

/-- With anything on the first line the value is overwritten. -/
theorem readUint32_out (visible : ¬ Blank (firstLine content)) (out out' : UInt32) :
    readUint32FromFile (some content) out = readUint32FromFile (some content) out' := by
  have nonempty : firstLine content ≠ [] := fun empty => visible (by simp [empty, Blank])
  rw [readUint32_of_line rfl nonempty, readUint32_of_line rfl nonempty, extractUint32_out 16 visible out out',
    extractUint32_out 10 visible out out']

/-- What a spelled number consists of. -/
theorem Spells.mem {b : Byte} (h : Spells t v) (mem : b ∈ t) : ¬ b < 48 := by
  cases h with
  | decimal numeral => exact numeral.ge mem
  | @hexadecimal p t v hex numeral =>
    rcases List.mem_append.1 mem with front | inside
    · have letters : p.all (48 ≤ ·) = true := by rcases hex with rfl | rfl <;> decide
      have digit := of_decide_eq_true (List.all_eq_true.1 letters b front)
      exact UInt8.not_lt.2 digit
    · exact numeral.ge inside

/-- What `std::getline` takes of a line. -/
theorem firstLine_append {line rest : Text} (sameLine : (10 : Byte) ∉ line)
    (further : rest = [] ∨ ∃ more, rest = 10 :: more) : firstLine (line ++ rest) = line := by
  have all : ∀ b, b ∈ line → decide (b ≠ 10) = true := fun b mem =>
    decide_eq_true fun e => sameLine (e ▸ mem)
  rw [firstLine, List.takeWhile_append_of_pos all]
  rcases further with rfl | ⟨more, rfl⟩ <;> simp

/-- **Number files round-trip**: whatever spells the number and ends its line is read as that number. -/
theorem round_trip (v : UInt32) (t ws rest : Text) (spells : Spells t v) (blank : Blank ws)
    (sameLine : (10 : Byte) ∉ ws) (further : rest = [] ∨ ∃ more, rest = 10 :: more) (out : UInt32) :
    readUint32FromFile (some (t ++ ws ++ rest)) out = (true, v) := by
  have line : firstLine (t ++ ws ++ rest) = t ++ ws := by
    apply firstLine_append _ further
    exact fun mem => (List.mem_append.1 mem).elim (fun inside => spells.mem inside (by decide)) sameLine
  cases spells with
  | decimal numeral =>
    have none : Blank [] := fun _ mem => absurd mem List.not_mem_nil
    exact readUint32_decimal numeral none blank (show firstLine _ = [] ++ (t ++ ws) from line) out
  | hexadecimal hex numeral =>
    rw [List.append_assoc _ _ ws] at line ⊢
    exact readUint32_hexadecimal hex numeral blank line out

/-- A hexadecimal numeral in front of a carriage return. -/
theorem round_trip_hexadecimal :
    readUint32FromFile (some (ascii "0X001f" ++ [13] ++ ascii "\nv2")) 7 = (true, 31) :=
  round_trip 31 (ascii "0X001f") [13] (ascii "\nv2")
    (.hexadecimal (p := ascii "0X") (t := ascii "001f") (.inr rfl) ⟨by decide, [0, 0, 1, 15], by decide, by decide⟩)
    (by decide) (by decide) (.inr ⟨ascii "v2", by decide⟩) 7

/-- A number is accepted only for its own spelling, and a refused file changes nothing. -/
structure ReadsSoundly (file : FileState) : Prop where
  accepted : ∀ out v, readUint32FromFile file out = (true, v) → ∃ content ws t ws',
    file = some content ∧ firstLine content = ws ++ (t ++ ws') ∧ Blank ws ∧ Blank ws' ∧ Spells t v
  refused : ∀ out v, readUint32FromFile file out = (false, v) → v = out

/-- A first line that is blank, or spells a number; with a `0x` that stands in front or does not matter. -/
def Readable (file : FileState) : Prop :=
  ∀ content, file = some content → Blank (firstLine content) ∨
    ∃ ws t ws' v, firstLine content = ws ++ (t ++ ws') ∧ Blank ws ∧ Blank ws' ∧ Spells t v ∧
      (Numeral 10 t v.toNat ∨ ws = [] ∨ v = 0)

/-- A readable line that is not blank is read as the number it spells. -/
theorem readUint32_readable (line : firstLine content = ws ++ (t ++ ws')) (before : Blank ws) (after : Blank ws')
    (spells : Spells t v) (plain : Numeral 10 t v.toNat ∨ ws = [] ∨ v = 0) (out : UInt32) :
    readUint32FromFile (some content) out = (true, v) := by
  cases spells with
  | decimal numeral => exact readUint32_decimal numeral before after line out
  | hexadecimal hex numeral =>
    rw [List.append_assoc] at line
    by_cases indented : ws = []
    · subst indented
      exact readUint32_hexadecimal hex numeral after line out
    · rcases plain with decimal | none | rfl
      · rw [← List.append_assoc _ _ ws'] at line
        exact readUint32_decimal decimal before after line out
      · exact absurd none indented
      · exact readUint32_indented hex before indented line out

theorem reads_soundly_of_readable {file : FileState} (h : Readable file) : ReadsSoundly file := by
  cases file with
  | none => exact ⟨fun out v read => (nomatch read), fun out v read => (congrArg Prod.snd read).symm⟩
  | some content =>
    rcases h content rfl with blank | ⟨ws, t, ws', v, line, before, after, spells, plain⟩
    · constructor
      · intro out v read
        rw [readUint32_blank blank] at read
        cases read
      · intro out v read
        rw [readUint32_blank blank] at read
        exact (congrArg Prod.snd read).symm
    · constructor
      · intro out w read
        rw [readUint32_readable line before after spells plain] at read
        obtain rfl : v = w := congrArg Prod.snd read
        exact ⟨content, ws, t, ws', rfl, line, before, after, spells⟩
      · intro out w read
        rw [readUint32_readable line before after spells plain] at read
        cases read

theorem ReadsSoundly.readable {file : FileState} (h : ReadsSoundly file) : Readable file := by
  rintro content rfl
  by_cases blank : Blank (firstLine content)
  · exact .inl blank
  right
  have read : ∀ out, readUint32FromFile (some content) out = readUint32FromFile (some content) 0 :=
    fun out => readUint32_out blank out 0
  cases result : readUint32FromFile (some content) 0 with
  | mk ok v =>
    cases ok with
    | false =>
      -- the value written would have to be both
      have zero := h.refused 0 v result
      have one := h.refused 1 v ((read 1).trans result)
      rw [zero] at one
      exact absurd one (by decide)
    | true =>
      obtain ⟨_, ws, t, ws', ⟨⟩, line, before, after, spells⟩ := h.accepted 0 v result
      refine ⟨ws, t, ws', v, line, before, after, spells, ?_⟩
      cases spells with
      | decimal numeral => exact .inl numeral
      | hexadecimal hex numeral =>
        by_cases indented : ws = []
        · exact .inr (.inl indented)
        · rw [List.append_assoc] at line
          rw [readUint32_indented hex before indented line] at result
          exact .inr (.inr (congrArg Prod.snd result).symm)

/-- **When number files are read soundly.** -/
theorem reads_soundly_iff (file : FileState) : ReadsSoundly file ↔ Readable file :=
  ⟨ReadsSoundly.readable, reads_soundly_of_readable⟩

/-- A dotted version is read as its first number. -/
theorem not_reads_soundly_dotted : ¬ ∀ file, ReadsSoundly file := by
  intro sound
  have read : readUint32FromFile (some (ascii "1.2")) 0 = (true, 1) := by decide
  obtain ⟨_, ws, t, ws', ⟨⟩, line, before, after, spells⟩ := (sound _).accepted 0 1 read
  -- the dot would be white space or part of a numeral
  have dot : (46 : Byte) ∈ ws ++ (t ++ ws') := by
    rw [← line]
    decide
  rcases List.mem_append.1 dot with front | dot
  · exact absurd (before 46 front) (by decide)
  rcases List.mem_append.1 dot with inside | back
  · exact spells.mem inside (by decide)
  · exact absurd (after 46 back) (by decide)

end Files

end OtaBridge.Transfer
