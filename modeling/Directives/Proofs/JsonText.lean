import Directives.Proofs.JsonLexing
/-!
The text of a value is read as that value, however it is laid out, unless the value holds what no
text stands for or is higher than the reader allows. What may stand around a value in a text is
blank, and ends a number.
-/

namespace Directives.Json

mutual

/-- Nothing in the value is unreadable. -/
def Readable : Json → Prop
  | .unreadable => False
  | .arr items => ItemsReadable items
  | .obj members => MembersReadable members
  | _ => True

def ItemsReadable : List Json → Prop
  | [] => True
  | j :: rest => j.Readable ∧ ItemsReadable rest

def MembersReadable : List (String × Json) → Prop
  | [] => True
  | (_, j) :: rest => j.Readable ∧ MembersReadable rest

end

/-! ## What stands between values -/

theorem skipBlanks_cons_of_not_blank {c : Char} (h : isBlank c = false) (cs : List Char) :
    skipBlanks (c :: cs) = c :: cs := by
  rw [skipBlanks, List.dropWhile_cons_of_neg (by simp [h])]

theorem skipBlanks_break (layout : Layout) (indent : Nat) (cs : List Char) :
    skipBlanks (layout.break indent ++ cs) = skipBlanks cs := by
  have blanks : ∀ c ∈ layout.break indent, isBlank c = true := by
    intro c hc
    cases layout with
    | compact => cases hc
    | pretty =>
      rcases List.mem_cons.mp hc with rfl | hc
      · rfl
      · rw [List.eq_of_mem_replicate hc]
        rfl
  exact List.dropWhile_append_of_pos blanks

theorem skipBlanks_colon (layout : Layout) (cs : List Char) :
    ∃ cs', skipBlanks (layout.colon ++ cs) = ':' :: cs' ∧ skipBlanks cs' = skipBlanks cs := by
  cases layout with
  | compact => exact ⟨cs, rfl, rfl⟩
  | pretty => exact ⟨' ' :: cs, rfl, rfl⟩

section
variable {layout : Layout} {indent : Nat} {rest : List Char}

theorem itemChars_false_cons (j : Json) (items : List Json) :
    itemChars layout indent false (j :: items) =
      ',' :: itemChars layout indent true (j :: items) := by
  simp [itemChars]

theorem memberChars_false_cons (m : String × Json) (members : List (String × Json)) :
    memberChars layout indent false (m :: members) =
      ',' :: memberChars layout indent true (m :: members) := by
  simp [memberChars]

/-- After an item comes a comma, the end of the array, or a new line. -/
theorem endsNumber_itemChars (items : List Json) :
    EndsNumber (itemChars layout indent false items ++ rest) := by
  cases items with
  | nil => cases layout <;> simp [EndsNumber, itemChars, Layout.break]
  | cons j items => simp [EndsNumber, itemChars]

theorem endsNumber_memberChars (members : List (String × Json)) :
    EndsNumber (memberChars layout indent false members ++ rest) := by
  cases members with
  | nil => cases layout <;> simp [EndsNumber, memberChars, Layout.break]
  | cons m members => simp [EndsNumber, memberChars]

/-- A value begins with a character that is not blank and ends no array. -/
theorem chars_eq_cons (layout : Layout) (indent : Nat) (j : Json) :
    ∃ c cs, j.chars layout indent = c :: cs ∧ isBlank c = false ∧ c ≠ ']' := by
  cases j with
  | int v =>
    have begins : ∀ c, c.isDigit = true → isBlank c = false ∧ c ≠ ']' := by
      intro c isDigit
      constructor
      · simp only [isBlank, Bool.or_eq_false_iff, decide_eq_false_iff_not]
        refine ⟨⟨⟨?_, ?_⟩, ?_⟩, ?_⟩ <;> rintro rfl <;> cases isDigit
      · rintro rfl
        cases isDigit
    rcases readNumber_decimal v endsNumber_nil with ⟨d, ds, is, isDigit, -⟩ | ⟨ds, is, -⟩
    · rw [List.append_nil] at is
      exact ⟨d, ds, is, begins d isDigit⟩
    · rw [List.append_nil] at is
      exact ⟨_, _, is, rfl, by decide⟩
  | bool b => cases b <;> exact ⟨_, _, rfl, rfl, by decide⟩
  | _ => exact ⟨_, _, rfl, rfl, by decide⟩

theorem skipBlanks_chars (j : Json) :
    skipBlanks (j.chars layout indent ++ rest) = j.chars layout indent ++ rest := by
  obtain ⟨c, cs, is, notBlank, -⟩ := chars_eq_cons layout indent j
  rw [is, List.cons_append, skipBlanks_cons_of_not_blank notBlank]

/-- After the blanks before the first item comes its text. -/
theorem skipBlanks_itemChars (layout : Layout) (indent : Nat) (j : Json) (items : List Json)
    (rest : List Char) : skipBlanks (itemChars layout indent true (j :: items) ++ rest) =
      j.chars layout (indent + 1) ++ (itemChars layout indent false items ++ rest) := by
  rw [itemChars, if_pos rfl, List.nil_append, List.append_assoc, List.append_assoc,
    skipBlanks_break, skipBlanks_chars]

theorem skipBlanks_memberChars (layout : Layout) (indent : Nat) (name : String) (j : Json)
    (members : List (String × Json)) (rest : List Char) :
    skipBlanks (memberChars layout indent true ((name, j) :: members) ++ rest) =
      quoted name ++ (layout.colon ++
        (j.chars layout (indent + 1) ++ (memberChars layout indent false members ++ rest))) := by
  rw [memberChars, if_pos rfl, List.nil_append, List.append_assoc, List.append_assoc,
    List.append_assoc, List.append_assoc, skipBlanks_break]
  rfl

/-! How much text is left: every value and every separator takes some. -/

theorem length_itemChars (layout : Layout) (indent : Nat) (j : Json) (items : List Json) :
    (j.chars layout (indent + 1)).length + (itemChars layout indent false items).length ≤
      (itemChars layout indent true (j :: items)).length := by
  simp only [itemChars, List.length_append, if_true]
  omega

theorem length_itemChars_pos (layout : Layout) (indent : Nat) (items : List Json) :
    0 < (itemChars layout indent false items).length := by
  cases items <;> simp [itemChars]

theorem length_memberChars (layout : Layout) (indent : Nat) (name : String) (j : Json)
    (members : List (String × Json)) :
    (j.chars layout (indent + 1)).length + (memberChars layout indent false members).length ≤
      (memberChars layout indent true ((name, j) :: members)).length := by
  simp only [memberChars, List.length_append, if_true]
  omega

theorem length_memberChars_pos (layout : Layout) (indent : Nat) (members : List (String × Json)) :
    0 < (memberChars layout indent false members).length := by
  cases members <;> simp [memberChars]

theorem length_itemChars_of_ne_nil (layout : Layout) (indent : Nat) {items : List Json}
    (more : items ≠ []) :
    (itemChars layout indent true items).length < (itemChars layout indent false items).length := by
  cases items with
  | nil => contradiction
  | cons j items => simp [itemChars]

theorem length_memberChars_of_ne_nil (layout : Layout) (indent : Nat)
    {members : List (String × Json)} (more : members ≠ []) :
    (memberChars layout indent true members).length <
      (memberChars layout indent false members).length := by
  cases members with
  | nil => contradiction
  | cons m members => simp [memberChars]

/-! ## Reading values -/

variable {fuel depth : Nat} {cs : List Char}

theorem readValue_of_digit {d : Char} {ds : List Char} (isDigit : d.isDigit = true)
    (after : skipBlanks cs = d :: ds) :
    readValue (fuel + 1) depth cs = readNumber false (d :: ds) := by
  rw [readValue, after]
  split
  all_goals first | rfl | (rename_i is; cases is; cases isDigit)

/-- Members whose names are readable make up an object. -/
theorem objectOf_readable (members : List (String × Json)) :
    objectOf (members.map fun m => (some m.1, m.2)) = .obj members := by
  have all : (members.map fun m => (some m.1, m.2)).mapM (fun m => m.1.map (·, m.2)) =
      some members := by
    induction members with
    | nil => rfl
    | cons m members ih => simp [ih]
  rw [objectOf, all]

theorem readValue_of_items {c : Char} {inside tail : List Char} {items : List Json}
    (after : skipBlanks cs = '[' :: inside) (first : skipBlanks inside = c :: tail) (more : c ≠ ']')
    (deep : depth ≠ 0) (read : readItems fuel (depth - 1) (c :: tail) = some (items, rest)) :
    readValue (fuel + 1) depth cs = some (.arr items, rest) := by
  simp only [readValue, after, first]
  split
  · rename_i ends
    cases ends
    contradiction
  · rw [read, Option.map_some]
    dsimp only
    rw [if_neg deep]

theorem readValue_of_members {c : Char} {inside tail : List Char} {members : List (String × Json)}
    (after : skipBlanks cs = '\x7b' :: inside) (first : skipBlanks inside = c :: tail)
    (more : c ≠ '\x7d') (deep : depth ≠ 0)
    (read : readMembers fuel (depth - 1) (c :: tail) =
      some (members.map fun m => (some m.1, m.2), rest)) :
    readValue (fuel + 1) depth cs = some (.obj members, rest) := by
  simp only [readValue, after, first]
  split
  · rename_i ends
    cases ends
    contradiction
  · rw [read, Option.map_some]
    dsimp only
    rw [if_neg deep, objectOf_readable]

/-- Items are read up to the end of the array, if the first one is read up to where it ends, and the
others after the comma. -/
theorem readItems_of_first {j : Json} {items : List Json}
    (first : readValue fuel depth cs = some (j, itemChars layout indent false items ++ rest))
    (others : items ≠ [] → readItems fuel depth (itemChars layout indent true items ++ rest) =
      some (items, rest)) :
    readItems (fuel + 1) depth cs = some (j :: items, rest) := by
  rw [readItems, first]
  dsimp only
  cases items with
  | nil =>
    have ends : skipBlanks (itemChars layout indent false [] ++ rest) = ']' :: rest := by
      rw [itemChars, if_neg (by decide), List.append_assoc, skipBlanks_break]
      rfl
    rw [ends]
    rfl
  | cons j' items =>
    have goesOn := skipBlanks_cons_of_not_blank (c := ',') rfl
      (itemChars layout indent true (j' :: items) ++ rest)
    rw [itemChars_false_cons, List.cons_append, goesOn]
    exact congrArg (Option.map _) (others (List.cons_ne_nil j' items))

theorem readMembers_of_first (layout : Layout) (indent : Nat) {name : String} {j : Json}
    {members : List (String × Json)} {value : List Char}
    (after : skipBlanks cs = quoted name ++ (layout.colon ++ value))
    (first : ∀ cs', skipBlanks cs' = skipBlanks value →
      readValue fuel depth cs' = some (j, memberChars layout indent false members ++ rest))
    (others : members ≠ [] →
      readMembers fuel depth (memberChars layout indent true members ++ rest) =
        some (members.map fun m => (some m.1, m.2), rest)) :
    readMembers (fuel + 1) depth cs =
      some (((name, j) :: members).map fun m => (some m.1, m.2), rest) := by
  obtain ⟨value', colon, same⟩ := skipBlanks_colon layout value
  have text : quoted name ++ (layout.colon ++ value) =
      '"' :: (name.toList.flatMap escape ++ '"' :: (layout.colon ++ value)) := by
    rw [quoted, List.cons_append, List.append_assoc]
    rfl
  rw [readMembers, after, text]
  simp only [readText_quoted, colon, first value' same]
  cases members with
  | nil =>
    have ends : skipBlanks (memberChars layout indent false [] ++ rest) = '\x7d' :: rest := by
      rw [memberChars, if_neg (by decide), List.append_assoc, skipBlanks_break]
      rfl
    rw [ends]
    rfl
  | cons m members =>
    have goesOn := skipBlanks_cons_of_not_blank (c := ',') rfl
      (memberChars layout indent true (m :: members) ++ rest)
    rw [memberChars_false_cons, List.cons_append, goesOn]
    exact congrArg (Option.map _) (others (List.cons_ne_nil m members))

end

mutual

-- Reading a value and then its items takes two units of fuel, and the value a character at least;
-- so does each item, with the comma after it.

/-- A value is read up to its end, from what it was printed as. -/
theorem readValue_chars (layout : Layout) (indent fuel depth : Nat) (j : Json)
    {cs rest : List Char} (readable : j.Readable) (low : j.height ≤ depth)
    (enough : 2 * (j.chars layout indent).length ≤ fuel) (ends : EndsNumber rest)
    (after : skipBlanks cs = j.chars layout indent ++ rest) :
    readValue fuel depth cs = some (j, rest) := by
  obtain ⟨fuel, rfl⟩ : ∃ n, fuel = n + 1 := by
    obtain ⟨c, cs, is, -⟩ := chars_eq_cons layout indent j
    rw [is, List.length_cons] at enough
    exact ⟨fuel - 1, by omega⟩
  match j with
  | .null =>
    rw [readValue, after]
    rfl
  | .bool b =>
    cases b
    · rw [readValue, after]
      rfl
    · rw [readValue, after]
      rfl
  | .int v =>
    rw [chars] at after
    rcases readNumber_decimal v ends with ⟨d, ds, is, isDigit, read⟩ | ⟨ds, is, read⟩
    · rw [readValue_of_digit isDigit (after.trans is), read]
    · rw [readValue, after, is]
      exact read
  | .negZero =>
    rw [readValue, after]
    exact readNumber_toDigits true 0 ends
  | .str s =>
    have text : quoted s ++ rest = '"' :: (s.toList.flatMap escape ++ '"' :: rest) := by
      rw [quoted, List.cons_append, List.append_assoc]
      rfl
    rw [readValue, after, chars, text]
    exact congrArg (Option.map _) (readText_quoted s rest)
  | .arr items =>
    rw [height] at low
    have deep : depth ≠ 0 := by omega
    rw [chars, List.length_cons] at enough
    rw [chars, List.cons_append] at after
    match items with
    | [] =>
      rw [readValue, after]
      exact congrArg some (congrArg (·, rest) (if_neg deep))
    | j :: items =>
      obtain ⟨c, tail, is, -, more⟩ := chars_eq_cons layout (indent + 1) j
      have first := skipBlanks_itemChars layout indent j items rest
      rw [is, List.cons_append] at first
      refine readValue_of_items after first more deep ?_
      refine readItems_chars layout indent fuel (depth - 1) (j :: items)
        (List.cons_ne_nil _ _) readable (by omega) (by omega) ?_
      rw [first, ← List.cons_append, ← is, skipBlanks_chars]
  | .obj members =>
    rw [height] at low
    have deep : depth ≠ 0 := by omega
    rw [chars, List.length_cons] at enough
    rw [chars, List.cons_append] at after
    match members with
    | [] =>
      rw [readValue, after]
      exact congrArg some (congrArg (·, rest) (if_neg deep))
    | (name, j) :: members =>
      have first := skipBlanks_memberChars layout indent name j members rest
      refine readValue_of_members after first (by decide) deep ?_
      refine readMembers_chars layout indent fuel (depth - 1) ((name, j) :: members)
        (List.cons_ne_nil _ _) readable (by omega) (by omega) ?_
      rw [first]
      exact skipBlanks_cons_of_not_blank (c := '"') rfl _
  | .unreadable => cases readable

/-- Items are read up to the end of their array. -/
theorem readItems_chars (layout : Layout) (indent fuel depth : Nat) (items : List Json)
    {cs rest : List Char} (any : items ≠ []) (readable : ItemsReadable items)
    (low : itemsHeight items ≤ depth)
    (enough : 2 * (itemChars layout indent true items).length ≤ fuel)
    (after : skipBlanks cs = skipBlanks (itemChars layout indent true items ++ rest)) :
    readItems fuel depth cs = some (items, rest) := by
  match items with
  | [] => contradiction
  | j :: items =>
    have length := length_itemChars layout indent j items
    have pos := length_itemChars_pos layout indent items
    obtain ⟨fuel, rfl⟩ : ∃ n, fuel = n + 1 := ⟨fuel - 1, by omega⟩
    rw [itemsHeight] at low
    rw [skipBlanks_itemChars] at after
    have first := readValue_chars layout (indent + 1) fuel depth j readable.1 (by omega) (by omega)
      (endsNumber_itemChars items) after
    refine readItems_of_first first fun more => ?_
    refine readItems_chars layout indent fuel depth items more readable.2 (by omega) ?_ rfl
    have shorter := length_itemChars_of_ne_nil layout indent more
    omega

/-- Members are read up to the end of their object. -/
theorem readMembers_chars (layout : Layout) (indent fuel depth : Nat)
    (members : List (String × Json)) {cs rest : List Char} (any : members ≠ [])
    (readable : MembersReadable members) (low : membersHeight members ≤ depth)
    (enough : 2 * (memberChars layout indent true members).length ≤ fuel)
    (after : skipBlanks cs = skipBlanks (memberChars layout indent true members ++ rest)) :
    readMembers fuel depth cs = some (members.map fun m => (some m.1, m.2), rest) := by
  match members with
  | [] => contradiction
  | (name, j) :: members =>
    have length := length_memberChars layout indent name j members
    have pos := length_memberChars_pos layout indent members
    obtain ⟨fuel, rfl⟩ : ∃ n, fuel = n + 1 := ⟨fuel - 1, by omega⟩
    rw [membersHeight] at low
    rw [skipBlanks_memberChars] at after
    refine readMembers_of_first layout indent after (fun cs' same => ?_) fun more => ?_
    · -- The name and the colon are read already; blanks may be left before the value.
      rw [skipBlanks_chars] at same
      exact readValue_chars layout (indent + 1) fuel depth j readable.1 (by omega) (by omega)
        (endsNumber_memberChars members) same
    · refine readMembers_chars layout indent fuel depth members more readable.2 (by omega) ?_ rfl
      have shorter := length_memberChars_of_ne_nil layout indent more
      omega

end

/-- Text that was printed is read as the value that was printed. -/
theorem parse?_text (layout : Layout) {depth : Nat} {j : Json} (readable : j.Readable)
    (low : j.height ≤ depth) : parse? depth (j.text layout) = some j := by
  have whole : skipBlanks (j.chars layout 0) = j.chars layout 0 ++ [] := by
    rw [← skipBlanks_chars, List.append_nil]
  have read := readValue_chars layout 0 (2 * (j.chars layout 0).length + 2) depth j readable low
    (by omega) endsNumber_nil whole
  rw [parse?, text, String.toList_ofList, read]
  rfl

end Directives.Json
