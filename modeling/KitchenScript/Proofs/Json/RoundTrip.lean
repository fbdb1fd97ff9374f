import KitchenScript.Json.Printer
import KitchenScript.Json.Reader

/-!
# Reading what was written

The reader gives back every value that is written with one item to a line.  The values are those
that have a written form of their own: whole numbers of 64 bits, and no fractions or unreadable
literals.  The reader's bound on nesting is the length of the text, and the written form of a value
is always longer than the reader goes deep into it.
-/

namespace KitchenScript.Json

mutual

/-- The value is written in a way that shows what it is. -/
def Exact : Json → Prop
  | .int n => n.natAbs < wordBound
  | .fraction _ => False
  | .unreadable => False
  | .array items => ExactItems items
  | .object fields => ExactFields fields
  | _ => True

def ExactItems : List Json → Prop
  | [] => True
  | item :: rest => Exact item ∧ ExactItems rest

def ExactFields : List (String × Json) → Prop
  | [] => True
  | (_, value) :: rest => Exact value ∧ ExactFields rest

end

theorem exactItems_iff {items : List Json} : ExactItems items ↔ ∀ item ∈ items, Exact item := by
  induction items with
  | nil => simp [ExactItems]
  | cons item rest ih => simp [ExactItems, ih]

namespace Reader

/-! ## Texts -/

theorem hexValue?_hexDigit {n : Nat} (h : n < 16) : hexValue? (hexDigit n) = some n := by
  have hall : ∀ m : Fin 16, hexValue? (hexDigit m) = some m.val := by decide
  exact hall ⟨n, h⟩

theorem hexUnit?_control {n : Nat} (h : n < 32) :
    hexUnit? '0' '0' (hexDigit (n / 16)) (hexDigit (n % 16)) = some n := by
  have hzero : hexValue? '0' = some 0 := by decide
  have hhigh := hexValue?_hexDigit (n := n / 16) (by omega)
  have hlow := hexValue?_hexDigit (n := n % 16) (by omega)
  simp only [hexUnit?, hzero, hhigh, hlow, Option.bind_eq_bind, Option.bind_some, Option.pure_def,
    Option.some.injEq]
  omega

/-- A character that is written as itself gives its code. -/
theorem textCodes?_plain {c : Char} (hquote : c ≠ '"') (hslash : c ≠ '\\')
    (hcontrol : ¬c.toNat < 32)
    (rest : List Char) :
    textCodes? (c :: rest) = (textCodes? rest).map fun found => (c.toNat :: found.1, found.2) := by
  have htest : (c.toNat < 32 || c == '\\') = false := by simp [hcontrol, hslash]
  rw [textCodes?]
  · simp only [htest, Bool.false_eq_true, ↓reduceIte]
    cases textCodes? rest <;> rfl
  · exact hquote
  · intro _ _ _ _ _ hc
    exact absurd hc hslash
  · intro _ _ hc
    exact absurd hc hslash

theorem textCodes?_short {e c : Char} (h : shortEscape? e = some c) (hu : e ≠ 'u')
    (rest : List Char) :
    textCodes? ('\\' :: e :: rest) =
      (textCodes? rest).map fun found => (c.toNat :: found.1, found.2) := by
  rw [textCodes?]
  · simp only [h, Option.bind_eq_bind, Option.bind_some]
    cases textCodes? rest <;> rfl
  · intro _ _ _ _ _ he
    exact absurd he hu

theorem textCodes?_escapeChar (c : Char) (rest : List Char) :
    textCodes? (escapeChar c ++ rest) =
      (textCodes? rest).map fun found => (c.toNat :: found.1, found.2) := by
  unfold escapeChar
  -- the seven characters with an escape of their own, the other controls, and the rest
  iterate 7
    split
    · subst c
      exact textCodes?_short rfl (by decide) rest
  rename_i hquote hslash _ _ _ _ _
  split
  · rename_i hcontrol
    simp only [List.cons_append, List.nil_append, textCodes?, hexUnit?_control hcontrol,
      Option.bind_eq_bind, Option.bind_some]
    cases textCodes? rest <;> rfl
  · rename_i hcontrol
    exact textCodes?_plain hquote hslash hcontrol rest

theorem textCodes?_escaped (cs rest : List Char) :
    textCodes? (cs.flatMap escapeChar ++ '"' :: rest) = some (cs.map Char.toNat, rest) := by
  induction cs with
  | nil => rfl
  | cons c cs ih =>
      rw [List.flatMap_cons, List.append_assoc, textCodes?_escapeChar, ih]
      rfl

/-- No character has the code of half a surrogate pair. -/
theorem not_half (c : Char) : isHighHalf c.toNat = false ∧ isLowHalf c.toNat = false := by
  have hvalid : c.toNat < 0xD800 ∨ (0xDFFF < c.toNat ∧ c.toNat < 0x110000) := c.valid
  simp only [isHighHalf, isLowHalf, Bool.and_eq_false_iff, decide_eq_false_iff_not]
  omega

theorem codesToChars?_map_toNat (cs : List Char) : codesToChars? (cs.map Char.toNat) = some cs := by
  induction cs with
  | nil => rfl
  | cons c cs ih =>
      obtain ⟨hhigh, hlow⟩ := not_half c
      cases cs with
      | nil => simp [codesToChars?, hhigh, hlow]
      | cons d cs =>
          rw [List.map_cons, List.map_cons, codesToChars?, ← List.map_cons, ih]
          simp [hhigh, hlow]

theorem text?_escaped (s : String) (rest : List Char) :
    text? (s.toList.flatMap escapeChar ++ '"' :: rest) = some (some s, rest) := by
  simp [text?, textCodes?_escaped, codesToChars?_map_toNat]

/-! ## Numbers -/

theorem keep_of_lt (digits : List Char) (kept : Nat)
    (h : Nat.ofDigitChars 10 digits kept < wordBound) :
    Scaled.keep kept digits = (Nat.ofDigitChars 10 digits kept, digits.length) := by
  induction digits generalizing kept with
  | nil => rfl
  | cons c digits ih =>
      have hlonger : kept * 10 + (c.toNat - '0'.toNat) = 10 * kept + (c.toNat - '0'.toNat) := by
        omega
      rw [Nat.ofDigitChars_cons] at h ⊢
      have hle : 10 * kept + (c.toNat - '0'.toNat) ≤
          Nat.ofDigitChars 10 digits (10 * kept + (c.toNat - '0'.toNat)) := by
        rw [Nat.ofDigitChars_eq_ofDigitChars_zero]
        exact Nat.le_trans (Nat.le_mul_of_pos_left _ (Nat.pow_pos (by omega)))
          (Nat.le_add_right _ _)
      rw [Scaled.keep, hlonger]
      simp only [Nat.lt_of_le_of_lt hle h, ↓reduceIte, ih _ h, List.length_cons]

theorem roundToDouble_lt {n : Nat} (h : n < wordBound) : roundToDouble n < 2 * wordBound := by
  have hlog : n.log2 < 64 := by
    by_cases hzero : n = 0
    · subst n
      decide
    · exact (Nat.log2_lt hzero).mpr h
  have hunit : 2 ^ (n.log2 + 1 - 53) ≤ 2 ^ 64 := Nat.pow_le_pow_right (by decide) (by omega)
  have hbelow : n / 2 ^ (n.log2 + 1 - 53) * 2 ^ (n.log2 + 1 - 53) ≤ n := Nat.div_mul_le_self _ _
  have hword : wordBound = 2 ^ 64 := rfl
  unfold roundToDouble
  dsimp only [Nat.pow_eq]
  split
  · rw [Nat.succ_mul]
    omega
  · omega

/-- A number of 64 bits has a finite double. -/
theorem isFinite_ofLiteral {digits : List Char} (h : Nat.ofDigitChars 10 digits 0 < wordBound) :
    (Scaled.ofLiteral digits [] 0).isFinite = true := by
  have hkept : Scaled.ofLiteral digits [] 0 = ⟨Nat.ofDigitChars 10 digits 0, 0⟩ := by
    simp [Scaled.ofLiteral, keep_of_lt digits 0 h, Scaled.keep]
  have hone : roundToDouble (Nat.pow 10 (0 : Int).toNat) = 1 := by decide
  have hbound : 2 * wordBound < doubleBound := by decide +kernel
  have hrounded := roundToDouble_lt h
  simp only [hkept, Scaled.isFinite, hone, Nat.mul_one, Bool.or_eq_true, Bool.and_eq_true,
    decide_eq_true_eq]
  exact .inr ⟨by decide, by omega⟩

/-- Nothing that belongs to a number comes next. -/
def AfterValue (rest : List Char) : Prop :=
  ∀ c ∈ rest.head?, c.isDigit = false ∧ c ≠ '.' ∧ c ≠ 'e' ∧ c ≠ 'E'

theorem number_parts {digits rest : List Char} (hdigits : ∀ c ∈ digits, c.isDigit = true)
    (hrest : AfterValue rest) :
    (digits ++ rest).takeWhile Char.isDigit = digits ∧
      (digits ++ rest).dropWhile Char.isDigit = rest ∧
      fractionPart? rest = some ([], rest) ∧ exponentPart? rest = some (0, [], rest) := by
  cases rest with
  | nil =>
      have htake : (digits ++ []).takeWhile Char.isDigit = digits ++ [].takeWhile Char.isDigit :=
        List.takeWhile_append_of_pos hdigits
      have hdrop : (digits ++ []).dropWhile Char.isDigit = [].dropWhile Char.isDigit :=
        List.dropWhile_append_of_pos hdigits
      exact ⟨by simpa using htake, hdrop, rfl, rfl⟩
  | cons c rest =>
      obtain ⟨hc, hpoint, he, hE⟩ := hrest c rfl
      refine ⟨?_, ?_, ?_, ?_⟩
      · rw [List.takeWhile_append_of_pos hdigits, List.takeWhile_cons_of_neg (by simp [hc]),
          List.append_nil]
      · rw [List.dropWhile_append_of_pos hdigits, List.dropWhile_cons_of_neg (by simp [hc])]
      · rw [fractionPart?]
        intro _ heq
        exact hpoint (List.cons.inj heq).1
      · simp [exponentPart?, he, hE]

/-- A number is written without superfluous zeros. -/
theorem head?_toDigits_ne {n : Nat} (h : n ≠ 0) : (Nat.toDigits 10 n).head? ≠ some '0' := by
  induction n using Nat.strongRecOn with
  | ind n ih =>
      by_cases hsmall : n < 10
      · have hall : ∀ m : Fin 10, m.val ≠ 0 → (Nat.toDigits 10 m.val).head? ≠ some '0' := by decide
        exact hall ⟨n, hsmall⟩ h
      · have hhead := ih (n / 10) (by omega) (by omega)
        rw [Nat.toDigits_of_base_le (by decide) (by omega), List.head?_append]
        cases hfirst : (Nat.toDigits 10 (n / 10)).head? with
        | none => simp at hfirst
        | some c => rwa [hfirst] at hhead

/-- The number that digits and a sign spell. -/
theorem number?_digits (negative : Bool) {digits rest : List Char} (hne : digits ≠ [])
    (hdigits : ∀ c ∈ digits, c.isDigit = true)
    (hzero : digits.length = 1 ∨ digits.head? ≠ some '0') (hrest : AfterValue rest) :
    number? ((if negative then ['-'] else []) ++ (digits ++ rest)) =
      some (numberValue negative digits [] 0 [], rest) := by
  obtain ⟨htake, hdrop, hfraction, hexponent⟩ := number_parts hdigits hrest
  have hwell : (digits.isEmpty || (digits.length != 1 && digits.head? == some '0')) = false := by
    rcases hzero with hone | hhead
    · simp [hne, hone]
    · simp [hne, hhead]
  cases negative with
  | true =>
      simp [number?, htake, hdrop, hwell, hfraction, hexponent]
  | false =>
      obtain ⟨c, cs, rfl⟩ := List.exists_cons_of_ne_nil hne
      have hsign : c ≠ '-' := by
        rintro rfl
        exact absurd (hdigits '-' (by simp)) (by decide)
      rw [List.cons_append] at htake hdrop
      simpa [number?, hsign, htake, hdrop, hfraction, hexponent] using hwell

theorem numberValue_toDigits (negative : Bool) {n : Nat} (h : n < wordBound)
    (hsign : negative = true → n ≠ 0) :
    numberValue negative (Nat.toDigits 10 n) [] 0 [] =
      .int (if negative then -(n : Int) else n) := by
  have hvalue : Nat.ofDigitChars 10 (Nat.toDigits 10 n) 0 = n :=
    Nat.ofDigitChars_toDigits (by decide) (by decide)
  have hfinite : (Scaled.ofLiteral (Nat.toDigits 10 n) [] 0).isFinite = true :=
    isFinite_ofLiteral (by rwa [hvalue])
  have hminus : (negative && n == 0) = false := by
    cases negative with
    | true => simpa using hsign rfl
    | false => rfl
  simp [numberValue, hfinite, hvalue, hminus]

/-- A whole number is written as a sign, if it is negative, and its digits. -/
theorem exists_scalar_int (n : Int) :
    ∃ negative m, n = (if negative then -(m : Int) else m) ∧ m = n.natAbs ∧
      (negative = true → m ≠ 0) ∧
      scalar (.int n) = (if negative then ['-'] else []) ++ Nat.toDigits 10 m := by
  cases n with
  | ofNat m => exact ⟨false, m, rfl, rfl, nofun, Nat.toList_repr⟩
  | negSucc m =>
      refine ⟨true, m + 1, rfl, rfl, by simp, ?_⟩
      rw [← Nat.toList_repr]
      exact String.toList_append

theorem number?_scalar {n : Int} (h : n.natAbs < wordBound) {rest : List Char}
    (hrest : AfterValue rest) : number? (scalar (.int n) ++ rest) = some (.int n, rest) := by
  obtain ⟨negative, m, hn, hm, hsign, hwritten⟩ := exists_scalar_int n
  rw [← hm] at h
  have hzero : (Nat.toDigits 10 m).length = 1 ∨ (Nat.toDigits 10 m).head? ≠ some '0' := by
    by_cases hnone : m = 0
    · rw [hnone]
      exact .inl rfl
    · exact .inr (head?_toDigits_ne hnone)
  rw [hwritten, List.append_assoc, number?_digits negative Nat.toDigits_ne_nil
    (fun c hc => Nat.isDigit_of_mem_toDigits (by decide) (by decide) hc) hzero hrest,
    numberValue_toDigits negative h hsign, hn]

theorem exists_cons_scalar_int (n : Int) :
    ∃ c cs, scalar (.int n) = c :: cs ∧ (c = '-' ∨ c.isDigit = true) := by
  obtain ⟨negative, m, -, -, -, hwritten⟩ := exists_scalar_int n
  cases negative with
  | true => exact ⟨'-', _, hwritten, .inl rfl⟩
  | false =>
      obtain ⟨c, cs, hcs⟩ := List.exists_cons_of_ne_nil (Nat.toDigits_ne_nil (n := m) (b := 10))
      have hdigit : c.isDigit = true :=
        Nat.isDigit_of_mem_toDigits (b := 10) (n := m) (by decide) (by decide) (by simp [hcs])
      exact ⟨c, cs, hwritten.trans hcs, .inr hdigit⟩

/-! ## Values -/

theorem skipSpaces_of_head {cs : List Char} (h : ∀ c ∈ cs.head?, isSpace c = false) :
    skipSpaces cs = cs := by
  cases cs with
  | nil => rfl
  | cons c cs => simp [skipSpaces, h c rfl]

theorem skipSpaces_newLine (level : Nat) (cs : List Char) :
    skipSpaces (newLine level ++ cs) = skipSpaces cs := by
  have hblank : ∀ c ∈ newLine level, isSpace c = true := by
    intro c hc
    rcases List.mem_cons.mp hc with rfl | hc
    · rfl
    · rw [List.eq_of_mem_replicate hc]
      rfl
  exact List.dropWhile_append_of_pos hblank

theorem skipSpaces_skipSpaces (cs : List Char) : skipSpaces (skipSpaces cs) = skipSpaces cs := by
  apply skipSpaces_of_head
  intro c hc
  have hall := List.head?_dropWhile_not isSpace cs
  rw [show (cs.dropWhile isSpace).head? = some c from hc] at hall
  simpa using hall

/-- What the written form of a value begins with; no bracket is closed by it. -/
def Opens (c : Char) : Prop :=
  isSpace c = false ∧ c ≠ ']' ∧ c ≠ '\x7d'

theorem skipSpaces_of_opens {c : Char} (h : Opens c) (cs : List Char) :
    skipSpaces (c :: cs) = c :: cs :=
  skipSpaces_of_head (by simpa using h.1)

/-- A number begins with a sign or a digit, as no other value does. -/
theorem value?_number {c : Char} (h : c = '-' ∨ c.isDigit = true) (fuel : Nat) (cs : List Char) :
    Opens c ∧ value? (fuel + 1) (c :: cs) = number? (c :: cs) := by
  have hne : ∀ d : Char, (d = '-' ∨ d.isDigit = true) → d ∉ [' ', '\n', '\t', '\r', ']', '\x7d',
      'n', 't', 'f', '"', '[', '\x7b'] := by
    intro d hd hmem
    simp only [List.mem_cons, List.not_mem_nil, or_false] at hmem
    rcases hmem with rfl | rfl | rfl | rfl | rfl | rfl | rfl | rfl | rfl | rfl | rfl | rfl <;>
      exact absurd hd (by decide)
  have hc := hne c h
  simp only [List.mem_cons, List.not_mem_nil, or_false, not_or] at hc
  have hopens : Opens c := by
    simp [Opens, isSpace, hc]
  refine ⟨hopens, ?_⟩
  rw [value?, skipSpaces_of_opens hopens]
  split
  case h_7 => rfl
  all_goals
    rename_i heq
    cases heq
    simp at hc

theorem value?_skipSpaces (fuel : Nat) (cs : List Char) :
    value? fuel (skipSpaces cs) = value? fuel cs := by
  cases fuel with
  | zero => rfl
  | succ fuel => rw [value?, value?, skipSpaces_skipSpaces]

theorem items?_skipSpaces (fuel : Nat) (cs : List Char) :
    items? fuel (skipSpaces cs) = items? fuel cs := by
  cases fuel with
  | zero => rfl
  | succ fuel => rw [items?, items?, value?_skipSpaces]

theorem fields?_skipSpaces (fuel : Nat) (cs : List Char) :
    fields? fuel (skipSpaces cs) = fields? fuel cs := by
  cases fuel with
  | zero => rfl
  | succ fuel => rw [fields?, fields?, skipSpaces_skipSpaces]

theorem value?_newLine (fuel level : Nat) (cs : List Char) :
    value? fuel (newLine level ++ cs) = value? fuel cs := by
  rw [← value?_skipSpaces, skipSpaces_newLine, value?_skipSpaces]

theorem value?_array {cs : List Char} (h : ∀ tail, skipSpaces cs ≠ ']' :: tail) (fuel : Nat) :
    value? (fuel + 1) ('[' :: cs) =
      (items? fuel cs).map fun found => (.array found.1, found.2) := by
  rw [value?, skipSpaces_of_opens (by simp [Opens, isSpace])]
  simp only
  rw [items?_skipSpaces]
  cases items? fuel cs <;> rfl

theorem value?_object {cs : List Char} (h : ∀ tail, skipSpaces cs ≠ '\x7d' :: tail) (fuel : Nat) :
    value? (fuel + 1) ('\x7b' :: cs) =
      (fields? fuel cs).map fun found => (objectOf found.1, found.2) := by
  rw [value?, skipSpaces_of_opens (by simp [Opens, isSpace])]
  simp only
  rw [fields?_skipSpaces]
  cases fields? fuel cs <;> rfl

theorem value?_quote (fuel : Nat) (s : String) (rest : List Char) :
    value? (fuel + 1) (quote s ++ rest) = some (.text s, rest) := by
  have htext : quote s ++ rest = '"' :: (s.toList.flatMap escapeChar ++ '"' :: rest) := by
    simp [quote]
  rw [htext, value?, skipSpaces_of_opens (by simp [Opens, isSpace])]
  simp [text?_escaped]

/-- The fields of an object that was read with all its names. -/
def named (fields : List (String × Json)) : List (Option String × Json) :=
  fields.map fun f => (some f.1, f.2)

theorem objectOf_named (fields : List (String × Json)) :
    objectOf (named fields) = .object fields := by
  have hnames : (named fields).mapM (fun (f : Option String × Json) => f.1.map (·, f.2)) =
      some fields := by
    induction fields with
    | nil => rfl
    | cons f rest ih =>
        rw [named, List.map_cons, List.mapM_cons, ← named, ih]
        rfl
  rw [objectOf, hnames]

theorem exists_opens_indented {j : Json} (hj : j.Exact) (level : Nat) :
    ∃ c cs, indented level j = c :: cs ∧ Opens c := by
  match j with
  | .null => exact ⟨'n', _, rfl, by simp [Opens, isSpace]⟩
  | .bool true => exact ⟨'t', _, rfl, by simp [Opens, isSpace]⟩
  | .bool false => exact ⟨'f', _, rfl, by simp [Opens, isSpace]⟩
  | .int n =>
      obtain ⟨c, cs, hcs, hc⟩ := exists_cons_scalar_int n
      exact ⟨c, cs, hcs, (value?_number hc 0 []).1⟩
  | .text s => exact ⟨'"', _, rfl, by simp [Opens, isSpace]⟩
  | .array [] => exact ⟨'[', _, rfl, by simp [Opens, isSpace]⟩
  | .array (_ :: _) => exact ⟨'[', _, by rw [indented]; rfl, by simp [Opens, isSpace]⟩
  | .object [] => exact ⟨'\x7b', _, rfl, by simp [Opens, isSpace]⟩
  | .object (_ :: _) => exact ⟨'\x7b', _, by rw [indented]; rfl, by simp [Opens, isSpace]⟩

/-- What stands behind an item or a field: a comma and the others, if there are any. -/
def further {α : Type} (write : List α → List Char) : List α → List Char
  | [] => []
  | next :: others => ',' :: write (next :: others)

theorem indentedItems_cons (level : Nat) (item : Json) (items : List Json) :
    indentedItems level (item :: items) =
      newLine level ++ (indented level item ++ further (indentedItems level) items) := by
  cases items <;> simp [indentedItems, further]

theorem indentedFields_cons (level : Nat) (name : String) (value : Json)
    (fields : List (String × Json)) :
    indentedFields level ((name, value) :: fields) =
      newLine level ++ (quote name ++ (':' :: ' ' :: (indented level value ++
        further (indentedFields level) fields))) := by
  cases fields <;> simp [indentedFields, further]

theorem length_newLine_pos (level : Nat) : 0 < (newLine level).length :=
  Nat.succ_pos _

theorem skipSpaces_closing (level : Nat) {c : Char} (h : isSpace c = false) (rest : List Char) :
    skipSpaces (newLine level ++ c :: rest) = c :: rest := by
  rw [skipSpaces_newLine]
  exact skipSpaces_of_head (by simpa using h)

theorem afterValue_further {α : Type} (write : List α → List Char) (others : List α)
    (closing : Nat) (cs : List Char) :
    AfterValue (further write others ++ (newLine closing ++ cs)) := by
  cases others with
  | nil => simp [AfterValue, further, newLine, Char.isDigit]
  | cons _ _ => simp [AfterValue, further, Char.isDigit]

theorem skipSpaces_further_cons {α : Type} (write : List α → List Char) (next : α)
    (others : List α) (cs : List Char) :
    skipSpaces (further write (next :: others) ++ cs) = ',' :: (write (next :: others) ++ cs) :=
  skipSpaces_of_head (by simp [further, isSpace])

theorem value?_space (fuel : Nat) (cs : List Char) : value? fuel (' ' :: cs) = value? fuel cs := by
  rw [← value?_skipSpaces, ← value?_skipSpaces fuel cs]
  rfl

mutual

/-- The reader gives back an indented value, whatever follows it. -/
theorem value?_indented (j : Json) (hj : j.Exact) (level fuel : Nat) (rest : List Char)
    (hfuel : (indented level j).length ≤ fuel) (hrest : AfterValue rest) :
    value? fuel (indented level j ++ rest) = some (j, rest) := by
  obtain ⟨c, cs, hcs, hopens⟩ := exists_opens_indented hj level
  cases fuel with
  | zero => simp [hcs] at hfuel
  | succ fuel =>
    match j with
    | .null | .bool true | .bool false | .array [] | .object [] => rfl
    | .int n =>
        obtain ⟨d, ds, hds, hd⟩ := exists_cons_scalar_int n
        have hread := number?_scalar hj hrest
        have htext : indented level (.int n) = d :: ds := hds
        rw [hds, List.cons_append] at hread
        rw [htext, List.cons_append, (value?_number hd fuel _).2, hread]
    | .text s => exact value?_quote fuel s rest
    | .array (item :: items) =>
        have htext : indented level (.array (item :: items)) ++ rest =
            '[' :: (indentedItems (level + 1) (item :: items) ++
              (newLine level ++ ']' :: rest)) := by
          simp [indented]
        have hlong : (indentedItems (level + 1) (item :: items)).length ≤ fuel := by
          simp only [indented, List.length_append, List.length_cons] at hfuel
          omega
        obtain ⟨d, ds, hds, hd⟩ := exists_opens_indented hj.1 (level + 1)
        rw [htext, value?_array,
          items?_indented item items hj.1 hj.2 (level + 1) level fuel rest hlong]
        · rfl
        · intro tail heq
          rw [indentedItems_cons, List.append_assoc, skipSpaces_newLine, hds] at heq
          simp only [List.cons_append, skipSpaces_of_opens hd] at heq
          exact hd.2.1 (List.cons.inj heq).1
    | .object ((name, value) :: fields) =>
        have htext : indented level (.object ((name, value) :: fields)) ++ rest =
            '\x7b' :: (indentedFields (level + 1) ((name, value) :: fields) ++
              (newLine level ++ '\x7d' :: rest)) := by
          simp [indented]
        have hlong : (indentedFields (level + 1) ((name, value) :: fields)).length ≤ fuel := by
          simp only [indented, List.length_append, List.length_cons] at hfuel
          omega
        rw [htext, value?_object,
          fields?_indented name value fields hj.1 hj.2 (level + 1) level fuel rest hlong]
        · simp [objectOf_named]
        · intro tail heq
          rw [indentedFields_cons, List.append_assoc, skipSpaces_newLine] at heq
          cases heq
termination_by fuel

theorem items?_indented (item : Json) (items : List Json) (hitem : item.Exact)
    (hitems : ExactItems items) (level closing fuel : Nat) (rest : List Char)
    (hfuel : (indentedItems level (item :: items)).length ≤ fuel) :
    items? fuel (indentedItems level (item :: items) ++ (newLine closing ++ ']' :: rest)) =
      some (item :: items, rest) := by
  have hline := length_newLine_pos level
  rw [indentedItems_cons, List.length_append, List.length_append] at hfuel
  cases fuel with
  | zero => omega
  | succ fuel =>
    have hvalue := value?_indented item hitem level fuel
      (further (indentedItems level) items ++ (newLine closing ++ ']' :: rest)) (by omega)
      (afterValue_further _ items closing _)
    rw [indentedItems_cons, List.append_assoc, List.append_assoc, items?, value?_newLine, hvalue]
    match items with
    | [] => simp [further, skipSpaces_closing closing (c := ']') rfl]
    | next :: others =>
        rw [further, List.length_cons] at hfuel
        have hothers := items?_indented next others hitems.1 hitems.2 level closing fuel rest
          (by omega)
        simp [skipSpaces_further_cons, hothers]
termination_by fuel

theorem fields?_indented (name : String) (value : Json) (fields : List (String × Json))
    (hvalue : value.Exact) (hfields : ExactFields fields) (level closing fuel : Nat)
    (rest : List Char)
    (hfuel : (indentedFields level ((name, value) :: fields)).length ≤ fuel) :
    fields? fuel (indentedFields level ((name, value) :: fields) ++
        (newLine closing ++ '\x7d' :: rest)) =
      some (named ((name, value) :: fields), rest) := by
  have hline := length_newLine_pos level
  simp only [indentedFields_cons, List.length_append, List.length_cons] at hfuel
  cases fuel with
  | zero => omega
  | succ fuel =>
    have hread := value?_indented value hvalue level fuel
      (further (indentedFields level) fields ++ (newLine closing ++ '\x7d' :: rest)) (by omega)
      (afterValue_further _ fields closing _)
    have hname : ∀ tail, skipSpaces (quote name ++ tail) =
        '"' :: (name.toList.flatMap escapeChar ++ '"' :: tail) := by
      intro tail
      rw [skipSpaces_of_head (by simp [quote, isSpace])]
      simp [quote]
    have hcolon : ∀ tail, skipSpaces (':' :: tail) = ':' :: tail := fun tail =>
      skipSpaces_of_head (by simp [isSpace])
    simp only [indentedFields_cons, List.append_assoc, List.cons_append, fields?,
      skipSpaces_newLine, hname, text?_escaped, Option.bind_eq_bind, Option.bind_some, hcolon,
      value?_space, hread]
    match fields with
    | [] => simp [further, skipSpaces_closing closing (c := '\x7d') rfl, named]
    | (next, content) :: others =>
        rw [further, List.length_cons] at hfuel
        have hothers := fields?_indented next content others hfields.1 hfields.2 level closing fuel
          rest (by omega)
        simp [skipSpaces_further_cons, hothers, named]
termination_by fuel

end

end Reader

/-- A value that has a written form of its own is read back from it. -/
theorem read?_pretty {j : Json} (hj : j.Exact) : read? j.pretty = some j := by
  have hread := Reader.value?_indented j hj 0 ((indented 0 j).length + 1) [] (Nat.le_succ _)
    (by simp [Reader.AfterValue])
  rw [List.append_nil] at hread
  have hchars : j.pretty.toList = indented 0 j := String.toList_ofList
  have hbind : read? j.pretty = (some (j, ([] : List Char))).bind fun found =>
      if (Reader.skipSpaces found.2).isEmpty then some found.1 else none := by
    rw [← hread, ← hchars]
    rfl
  rw [hbind, Option.bind_some]
  rfl

end KitchenScript.Json
