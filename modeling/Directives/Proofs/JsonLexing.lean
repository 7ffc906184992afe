import Directives.Json.Parser
/-!
The words of JSON text are read back as they were printed: quoted text, whatever characters it holds,
and decimal numbers. A number is read to its end, so that what follows it may not go on with it.
-/

namespace Directives.Json

/-! ## Quoted text -/

/-- The part of quoted text stands for the character by itself. -/
inductive TextPart.Shows : TextPart → Char → Prop where
  | char (c : Char) : Shows (.char c) c
  | code {c : Char} (control : c.toNat < 32) : Shows (.code c.toNat) c

theorem joinParts?_cons {part : TextPart} {c : Char} (h : part.Shows c) (parts : List TextPart) :
    joinParts? (part :: parts) = (joinParts? parts).map (c :: ·) := by
  cases h with
  | char => rw [joinParts?]
  | code control =>
    have notLeading : isLeading c.toNat = false := by
      simp only [isLeading, Bool.and_eq_false_iff, decide_eq_false_iff_not]
      omega
    have notTrailing : isTrailing c.toNat = false := by
      simp only [isTrailing, Bool.and_eq_false_iff, decide_eq_false_iff_not]
      omega
    cases parts with
    | nil => simp [joinParts?, notLeading, notTrailing]
    | cons next rest => cases next <;> simp [joinParts?, notLeading, notTrailing]

theorem readParts_escaped {e c : Char} (h : escaped? e = some c) (cs : List Char) :
    readParts ('\\' :: e :: cs) =
      (readParts cs).map fun (parts, rest) => (.char c :: parts, rest) := by
  have short : e ≠ 'u' := by
    rintro rfl
    cases h
  rw [readParts, h]
  · cases readParts cs <;> rfl
  · rintro _ _ _ _ _ rfl
    contradiction

theorem hexValue4?_control :
    ∀ n < 32, hexValue4? '0' '0' (hexDigit (n / 16)) (hexDigit (n % 16)) = some n := by
  decide

theorem readParts_escape (c : Char) : ∃ part : TextPart, part.Shows c ∧ ∀ cs,
    readParts (escape c ++ cs) = (readParts cs).map fun (parts, rest) => (part :: parts, rest) := by
  unfold escape
  split
  · exact ⟨_, .char _, readParts_escaped rfl⟩
  · exact ⟨_, .char _, readParts_escaped rfl⟩
  · exact ⟨_, .char _, readParts_escaped rfl⟩
  · exact ⟨_, .char _, readParts_escaped rfl⟩
  · exact ⟨_, .char _, readParts_escaped rfl⟩
  · exact ⟨_, .char _, readParts_escaped rfl⟩
  · exact ⟨_, .char _, readParts_escaped rfl⟩
  · rename_i quote backslash _ _ _ _ _
    split
    · rename_i control
      refine ⟨_, .code control, fun cs => ?_⟩
      have long := hexValue4?_control c.toNat control
      simp only [List.cons_append, List.nil_append]
      rw [readParts, long]
      cases readParts cs <;> rfl
    · rename_i plain
      refine ⟨_, .char c, fun cs => ?_⟩
      rw [List.cons_append, List.nil_append, readParts, if_neg plain]
      · exact quote
      · exact fun _ _ _ _ _ is _ => backslash is
      · exact fun _ _ is _ => backslash is

/-- Quoted text is read up to its closing quote, whatever characters it holds. -/
theorem readText_quoted (s : String) (rest : List Char) :
    readText (s.toList.flatMap escape ++ '"' :: rest) = some (some s, rest) := by
  have parts (cs : List Char) : ∃ parts, readParts (cs.flatMap escape ++ '"' :: rest) =
      some (parts, rest) ∧ joinParts? parts = some cs := by
    induction cs with
    | nil => exact ⟨[], rfl, rfl⟩
    | cons c cs ih =>
      obtain ⟨parts, read, joined⟩ := ih
      obtain ⟨part, shows, first⟩ := readParts_escape c
      refine ⟨part :: parts, ?_, ?_⟩
      · rw [List.flatMap_cons, List.append_assoc, first, read, Option.map_some]
      · rw [joinParts?_cons shows, joined, Option.map_some]
  obtain ⟨parts, read, joined⟩ := parts s.toList
  rw [readText, read, Option.map_some]
  dsimp only
  rw [joined, Option.map_some, String.ofList_toList]

/-! ## Numbers -/

/-- A number ends where this follows. -/
def EndsNumber (rest : List Char) : Prop :=
  ∀ c ∈ rest.head?, c.isDigit = false ∧ c ≠ '.' ∧ c ≠ 'e' ∧ c ≠ 'E'

theorem endsNumber_nil : EndsNumber [] := by
  intro c hc
  cases hc

theorem head?_toDigits_of_pos (n : Nat) (pos : 0 < n) : (Nat.toDigits 10 n).head? ≠ some '0' := by
  induction n using Nat.strongRecOn with
  | ind n ih =>
    by_cases small : n < 10
    · rw [Nat.toDigits_of_lt_base small]
      have digits : ∀ d < 10, 0 < d → [Nat.digitChar d].head? ≠ some '0' := by decide
      exact digits n small pos
    · have large : 10 ≤ n := Nat.le_of_not_lt small
      have shorter : 0 < n / 10 := Nat.div_pos large (by decide)
      have first := ih (n / 10) (Nat.div_lt_self pos (by decide)) shorter
      rw [Nat.toDigits_of_base_le (by decide) large]
      cases digits : Nat.toDigits 10 (n / 10) with
      | nil => exact absurd digits Nat.toDigits_ne_nil
      | cons d ds =>
        rw [digits] at first
        exact first

theorem readDigits_toDigits (n : Nat) {rest : List Char} (ends : EndsNumber rest) :
    readDigits (Nat.toDigits 10 n ++ rest) = some (Nat.toDigits 10 n, rest) := by
  have all : ∀ c ∈ Nat.toDigits 10 n, c.isDigit = true :=
    fun c hc => Nat.isDigit_of_mem_toDigits (by decide) (by decide) hc
  have taken : rest.takeWhile Char.isDigit = [] := by
    cases rest with
    | nil => rfl
    | cons c cs => rw [List.takeWhile_cons_of_neg (by simp [(ends c rfl).1])]
  have dropped : rest.dropWhile Char.isDigit = rest := by
    cases rest with
    | nil => rfl
    | cons c cs => rw [List.dropWhile_cons_of_neg (by simp [(ends c rfl).1])]
  unfold readDigits
  rw [List.takeWhile_append_of_pos all, List.dropWhile_append_of_pos all, taken, dropped,
    List.append_nil]
  split
  · rename_i none
    exact absurd none Nat.toDigits_ne_nil
  · rfl

theorem skipFraction_of_endsNumber {rest : List Char} (ends : EndsNumber rest) :
    skipFraction rest = some (false, rest) := by
  unfold skipFraction
  split
  · exact absurd rfl (ends '.' rfl).2.1
  · rfl

theorem skipExponent_of_endsNumber {rest : List Char} (ends : EndsNumber rest) :
    skipExponent rest = some (false, rest) := by
  cases rest with
  | nil => rfl
  | cons c cs =>
    obtain ⟨-, -, lower, upper⟩ := ends c rfl
    unfold skipExponent
    exact if_neg (by simp [lower, upper])

/-- The digits of a number are read as that number. -/
theorem readNumber_toDigits (negative : Bool) (n : Nat) {rest : List Char} (ends : EndsNumber rest) :
    readNumber negative (Nat.toDigits 10 n ++ rest) =
      some (if negative then (if n = 0 then .negZero else .int (-n)) else .int n, rest) := by
  have leading : ¬((Nat.toDigits 10 n).head? = some '0' ∧ (Nat.toDigits 10 n).length ≠ 1) := by
    rintro ⟨zero, long⟩
    rcases Nat.eq_zero_or_pos n with rfl | pos
    · exact long rfl
    · exact head?_toDigits_of_pos n pos zero
  simp only [readNumber, readDigits_toDigits n ends, skipFraction_of_endsNumber ends,
    skipExponent_of_endsNumber ends, Nat.ofDigitChars_ten_toDigits, Option.bind_eq_bind,
    Option.bind_some]
  simp only [Bool.and_eq_true, decide_eq_true_eq, leading, if_false, Bool.or_self]
  rfl

/-- A decimal number is read as it was printed. -/
theorem readNumber_decimal (v : Int) {rest : List Char} (ends : EndsNumber rest) :
    (∃ d ds, decimal v ++ rest = d :: ds ∧ d.isDigit = true ∧
        readNumber false (d :: ds) = some (.int v, rest)) ∨
      ∃ ds, decimal v ++ rest = '-' :: ds ∧ readNumber true ds = some (.int v, rest) := by
  cases v with
  | ofNat n =>
    obtain ⟨d, ds, digits⟩ := List.exists_cons_of_ne_nil (Nat.toDigits_ne_nil (n := n) (b := 10))
    have isDigit : d.isDigit = true :=
      Nat.isDigit_of_mem_toDigits (by decide) (by decide) (digits ▸ List.mem_cons_self)
    refine .inl ⟨d, ds ++ rest, ?_, isDigit, ?_⟩
    · rw [decimal, digits, List.cons_append]
    · rw [← List.cons_append, ← digits, readNumber_toDigits false n ends]
      rfl
  | negSucc n =>
    refine .inr ⟨Nat.toDigits 10 (n + 1) ++ rest, rfl, ?_⟩
    rw [readNumber_toDigits true (n + 1) ends]
    rfl

end Directives.Json
