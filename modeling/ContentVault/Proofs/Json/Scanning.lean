import ContentVault.Json.Printer
import ContentVault.Json.Token
import ContentVault.Proofs.Text.Spelling
import Mathlib.Data.List.TakeDrop

/-! # Printed JSON, cut into tokens

    The printer puts no white space between tokens, so the lexer has to find
    their ends by itself.  A bracket, a separator or the closing quote of a
    string is complete with its last character; a number or a word is complete
    only when the next character comes, and the printer never lets a number
    or word be followed by a character that could belong to it (`Breaks`).

    Main statement: `scan_chars`, the text of a sound value in front of
    anything that breaks is cut into the tokens of the value. -/

namespace ContentVault.Json

/-! ## Values that have a text -/

/-- Whether the literal of a number is one: its fraction has digits only. -/
def Number.IsSound (n : Number) : Prop := ∀ c ∈ n.fraction, c.isDigit = true

mutual

/-- Whether a value is all that its text says: every number is a literal, and
    no string has half a surrogate pair in it. -/
def IsSound : Json → Prop
  | .number n => n.IsSound
  | .array items => AreSoundItems items
  | .object members => AreSoundMembers members
  | .garbled => False
  | _ => True

/-- `IsSound`, for every item. -/
def AreSoundItems : List Json → Prop
  | [] => True
  | item :: items => item.IsSound ∧ AreSoundItems items

/-- `IsSound`, for every member. -/
def AreSoundMembers : List (String × Json) → Prop
  | [] => True
  | (_, value) :: members => value.IsSound ∧ AreSoundMembers members

end

@[simp] theorem isSound_ofNat (n : Nat) : IsSound (.ofNat n) := fun _ h => nomatch h

mutual

/-- The tokens of a value. -/
def tokens : Json → List Token
  | .array items => .beginArray :: itemsTokens items ++ [.endArray]
  | .object members => .beginObject :: membersTokens members ++ [.endObject]
  | value => [.scalar value]

/-- The tokens of the items of an array. -/
def itemsTokens : List Json → List Token
  | [] => []
  | [item] => tokens item
  | item :: items => tokens item ++ .comma :: itemsTokens items

/-- The tokens of the members of an object. -/
def membersTokens : List (String × Json) → List Token
  | [] => []
  | [(name, value)] => .scalar (.string name) :: .colon :: tokens value
  | (name, value) :: members =>
    .scalar (.string name) :: .colon :: tokens value ++ .comma :: membersTokens members

end

/-! ## Digits -/

theorem spanDigits_append {digits rest : List Char} (hdigits : ∀ c ∈ digits, c.isDigit = true)
    (hrest : Text.NoDigit rest) : spanDigits (digits ++ rest) = (digits, rest) := by
  have hstop : rest.takeWhile Char.isDigit = [] ∧ rest.dropWhile Char.isDigit = rest := by
    cases rest with
    | nil => exact ⟨rfl, rfl⟩
    | cons c rest =>
        have hc : ¬ c.isDigit = true := by
          rw [hrest c rfl]
          decide
        exact ⟨List.takeWhile_cons_of_neg hc, List.dropWhile_cons_of_neg hc⟩
  unfold spanDigits
  rw [List.span_eq_takeWhile_dropWhile, List.takeWhile_append_of_pos hdigits,
    List.dropWhile_append_of_pos hdigits, hstop.1, hstop.2, List.append_nil]

/-- Only zero is written with a zero in front. -/
theorem eq_zero_of_head_zero (n : Nat) (h : (Nat.toDigits 10 n).head? = some '0') : n = 0 := by
  induction n using Nat.strongRecOn with
  | ind n ih =>
      by_cases hn : n < 10
      · rw [Nat.toDigits_of_lt_base hn] at h
        have hall : ∀ m, m < 10 → [m.digitChar].head? = some '0' → m = 0 := by decide
        exact hall n hn h
      · rw [Nat.toDigits_of_base_le (by decide) (Nat.le_of_not_lt hn),
          List.head?_append] at h
        cases hhead : (Nat.toDigits 10 (n / 10)).head? with
        | none => exact absurd (List.head?_eq_none_iff.mp hhead) Nat.toDigits_ne_nil
        | some c =>
            rw [hhead] at h
            have hzero := ih (n / 10) (by omega) (hhead.trans h)
            omega

/-- No number is written with a superfluous zero. -/
theorem no_leading_zero (n : Nat) :
    ((Nat.toDigits 10 n).head? == some '0' && decide ((Nat.toDigits 10 n).length > 1)) = false := by
  cases hh : ((Nat.toDigits 10 n).head? == some '0') with
  | false => rfl
  | true =>
      rw [eq_zero_of_head_zero n (eq_of_beq hh)]
      rfl

/-! ## Numbers -/

namespace Number

/-- The exponent of a literal, as it is written. -/
def exponentChars : Option Int → List Char
  | none => []
  | some (.ofNat e) => 'e' :: Nat.toDigits 10 e
  | some (.negSucc e) => 'e' :: '-' :: Nat.toDigits 10 (e + 1)

theorem noDigit_exponentChars (e : Option Int) : Text.NoDigit (exponentChars e) := by
  match e with
  | none => exact fun c hc => nomatch hc
  | some (.ofNat n) => exact Text.noDigit_cons _ rfl
  | some (.negSucc n) => exact Text.noDigit_cons _ rfl

theorem exponent?_exponentChars (e : Option Int) : exponent? (exponentChars e) = some e := by
  have hall : ∀ n, (Nat.toDigits 10 n).all Char.isDigit = true := fun n =>
    List.all_eq_true.mpr fun c hc => Text.isDigit_of_mem_toDigits hc
  have hsome : ∀ n, (Nat.toDigits 10 n).isEmpty = false := fun n =>
    List.isEmpty_eq_false_iff.mpr Nat.toDigits_ne_nil
  match e with
  | none => rfl
  | some (.negSucc n) =>
      show exponent? ('e' :: '-' :: Nat.toDigits 10 (n + 1)) = _
      unfold exponent?
      simp only [true_or, if_true, hsome, hall, Text.digitsValue_toDigits, Bool.not_false, Bool.and_self,
        Option.some.injEq]
      omega
  | some (.ofNat n) =>
      show exponent? ('e' :: Nat.toDigits 10 n) = _
      have hdigits : ∀ c ∈ Nat.toDigits 10 n, c.isDigit = true := fun c hc =>
        Text.isDigit_of_mem_toDigits hc
      have hv := Text.digitsValue_toDigits n
      have hempty := hsome n
      have hd := hall n
      -- the first digit is not taken for a sign
      generalize Nat.toDigits 10 n = digits at *
      unfold exponent?
      simp only [true_or, if_true]
      split
      · exact absurd (hdigits _ List.mem_cons_self) (by decide)
      · exact absurd (hdigits _ List.mem_cons_self) (by decide)
      · simp [hempty, hd, hv]

/-- The digits of a literal are read up to its fraction or its exponent. -/
theorem unsigned?_chars (negative : Bool) (whole : Nat) {fraction : List Char} (e : Option Int)
    (h : ∀ c ∈ fraction, c.isDigit = true) :
    unsigned? negative (Nat.toDigits 10 whole ++
      ((if fraction.isEmpty then [] else '.' :: fraction) ++ exponentChars e))
      = some ⟨negative, whole, fraction, e⟩ := by
  have hwhole : ∀ c ∈ Nat.toDigits 10 whole, c.isDigit = true := fun c hc =>
    Text.isDigit_of_mem_toDigits hc
  have hsome : (Nat.toDigits 10 whole).isEmpty = false :=
    List.isEmpty_eq_false_iff.mpr Nat.toDigits_ne_nil
  have hzero := no_leading_zero whole
  have hvalue := Text.digitsValue_toDigits whole
  have hexp := exponent?_exponentChars e
  have hstop := noDigit_exponentChars e
  cases fraction with
  | nil =>
      have hspan := spanDigits_append hwhole hstop
      unfold unsigned?
      simp only [List.isEmpty_nil, if_true, List.nil_append, hspan, hsome, hzero, Bool.or_self,
        Bool.false_eq_true, if_false, hvalue]
      split
      · rename_i heq
        match e, heq with
        | some (.ofNat n), heq => cases heq
        | some (.negSucc n), heq => cases heq
      · rw [hexp]
        rfl
  | cons c cs =>
      -- the digits in front of the point, then those after it
      have hpoint : Text.NoDigit ('.' :: (c :: cs ++ exponentChars e)) := Text.noDigit_cons _ rfl
      have hspan := spanDigits_append hwhole hpoint
      have hspan' := spanDigits_append h hstop
      unfold unsigned?
      simp only [List.isEmpty_cons, Bool.false_eq_true, if_false, List.cons_append]
        at hspan hspan' ⊢
      simp only [hspan, hspan', hsome, hzero, Bool.or_self, Bool.false_eq_true, if_false, hvalue,
        List.isEmpty_cons, hexp]
      rfl

/-- The parts of a literal, one after the other. -/
theorem chars_eq (negative : Bool) (whole : Nat) (fraction : List Char) (e : Option Int) :
    chars ⟨negative, whole, fraction, e⟩ = (if negative then ['-'] else []) ++
      (Nat.toDigits 10 whole ++ ((if fraction.isEmpty then [] else '.' :: fraction)
        ++ exponentChars e)) := by
  simp only [chars, List.append_assoc]
  rfl

/-- A literal is read as it was written. -/
theorem ofChars?_chars {n : Number} (h : n.IsSound) : ofChars? n.chars = some n := by
  obtain ⟨negative, whole, fraction, e⟩ := n
  have hread := unsigned?_chars negative whole e h
  rw [chars_eq]
  cases negative with
  | true => exact hread
  | false =>
      -- the first digit is not taken for a sign
      obtain ⟨d, ds, hdigits, hd⟩ := Text.toDigits_eq_cons whole
      rw [hdigits] at hread ⊢
      show ofChars? (d :: (ds ++ _)) = _
      unfold ofChars?
      split
      · rename_i heq
        cases heq
        exact absurd hd (by decide)
      · exact hread

end Number

/-! ## Steps -/

/-- A step of the lexer, and then the rest. -/
theorem scan_step {l next : Lexeme} {c : Char} {tokens : List Token}
    (h : l.step c = some (tokens, next)) (done : List Token) (rest : List Char) :
    scanFrom l done ((c :: rest).map some)
      = scanFrom next (tokens.reverse ++ done) (rest.map some) := by
  have hread : l.read (some c) = some (tokens, next) := h
  rw [List.map_cons, scanFrom, hread]

/-- Punctuation is a token of its own. -/
theorem scan_mark {c : Char} {t : Token} (h : start c = some ([t], .nothing)) (done : List Token)
    (rest : List Char) :
    scanFrom .nothing done ((c :: rest).map some)
      = scanFrom .nothing (t :: done) (rest.map some) := by
  have hstep : Lexeme.nothing.step c = some ([t], .nothing) := h
  exact scan_step hstep done rest

/-- Characters that a lexeme only collects. -/
theorem scan_collect (collect : List Char → Lexeme) {cs : List Char}
    (h : ∀ c ∈ cs, ∀ begun, (collect begun).step c = some ([], collect (c :: begun)))
    (begun rest : List Char) (done : List Token) :
    scanFrom (collect begun) done ((cs ++ rest).map some)
      = scanFrom (collect (cs.reverse ++ begun)) done (rest.map some) := by
  induction cs generalizing begun with
  | nil => rfl
  | cons c cs ih =>
      rw [List.cons_append, scan_step (h c List.mem_cons_self begun), List.reverse_cons,
        List.append_assoc]
      exact ih (fun d hd => h d (List.mem_cons_of_mem _ hd)) (c :: begun)

/-! ## Ends of numbers and words -/

/-- A text that nothing in front of it can go on with. -/
def Breaks (cs : List Char) : Prop :=
  ∀ c ∈ cs.head?, isNumberChar c = false ∧ c.isLower = false

theorem breaks_nil : Breaks [] := fun _ h => nomatch h

theorem breaks_cons {c : Char} (rest : List Char) (hnumber : isNumberChar c = false)
    (hlower : c.isLower = false) : Breaks (c :: rest) := by
  intro d hd
  rw [← Option.some.inj hd]
  exact ⟨hnumber, hlower⟩

/-- A lexeme that waits for the next character is complete in front of one
    that breaks. -/
theorem scan_pending {l : Lexeme} {t : Token} (hfinish : l.finish = some [t])
    (hstep : ∀ c, isNumberChar c = false → c.isLower = false →
      l.step c = (start c).map fun (tokens, next) => (t :: tokens, next))
    {rest : List Char} (hrest : Breaks rest) (done : List Token) :
    scanFrom l done (rest.map some) = scanFrom .nothing (t :: done) (rest.map some) := by
  cases rest with
  | nil =>
      -- the lexeme ends with the text
      show l.finish.map _ = _
      rw [hfinish]
      show some (done.reverse ++ [t]) = some ((t :: done).reverse ++ [])
      rw [List.reverse_cons, List.append_nil]
  | cons c rest =>
      -- the next character begins something else
      obtain ⟨hnumber, hlower⟩ := hrest c rfl
      have hread : l.read (some c) = (start c).map fun (tokens, next) => (t :: tokens, next) :=
        hstep c hnumber hlower
      have hfresh : Lexeme.nothing.read (some c) = start c := rfl
      rw [List.map_cons, scanFrom, scanFrom, hread, hfresh]
      cases start c with
      | none => rfl
      | some p =>
          show scanFrom p.2 ((t :: p.1).reverse ++ done) _ = _
          rw [List.reverse_cons, List.append_assoc]
          rfl

/-! ## Numbers -/

theorem start_number {c : Char} (h : c = '-' ∨ c.isDigit = true) :
    start c = some ([], .number [c]) := by
  have hne : ∀ d, ¬ (d = '-' ∨ d.isDigit = true) → c ≠ d := by
    rintro d hd rfl
    exact hd h
  unfold start
  rw [if_neg (not_or.mpr ⟨hne _ (by decide), not_or.mpr ⟨hne _ (by decide),
      not_or.mpr ⟨hne _ (by decide), hne _ (by decide)⟩⟩⟩),
    if_neg (hne _ (by decide)), if_neg (hne _ (by decide)), if_neg (hne _ (by decide)),
    if_neg (hne _ (by decide)), if_neg (hne _ (by decide)), if_neg (hne _ (by decide)),
    if_neg (hne _ (by decide)), if_pos h]

theorem isNumberChar_of_isDigit {c : Char} (h : c.isDigit = true) : isNumberChar c = true := by
  unfold isNumberChar
  rw [h]
  rfl

theorem isNumberChar_of_mem_exponentChars {e : Option Int} {c : Char}
    (h : c ∈ Number.exponentChars e) : isNumberChar c = true := by
  match e, h with
  | some (.ofNat n), h =>
      rcases List.mem_cons.mp h with rfl | h
      · rfl
      · exact isNumberChar_of_isDigit (Text.isDigit_of_mem_toDigits h)
  | some (.negSucc n), h =>
      rcases List.mem_cons.mp h with rfl | h
      · rfl
      · rcases List.mem_cons.mp h with rfl | h
        · rfl
        · exact isNumberChar_of_isDigit (Text.isDigit_of_mem_toDigits h)

/-- A literal begins like one, and all of it belongs to it. -/
theorem Number.chars_cons {n : Number} (h : n.IsSound) :
    ∃ c cs, n.chars = c :: cs ∧ (c = '-' ∨ c.isDigit = true) ∧
      ∀ d ∈ cs, isNumberChar d = true := by
  obtain ⟨negative, whole, fraction, e⟩ := n
  have hwhole : ∀ c ∈ Nat.toDigits 10 whole, isNumberChar c = true := fun c hc =>
    isNumberChar_of_isDigit (Text.isDigit_of_mem_toDigits hc)
  have hrest : ∀ c ∈ (if fraction.isEmpty then [] else '.' :: fraction) ++ exponentChars e,
      isNumberChar c = true := by
    intro c hc
    rcases List.mem_append.mp hc with hc | hc
    · split at hc
      · cases hc
      · rcases List.mem_cons.mp hc with rfl | hc
        · rfl
        · exact isNumberChar_of_isDigit (h c hc)
    · exact isNumberChar_of_mem_exponentChars hc
  rw [chars_eq]
  cases negative with
  | true =>
      refine ⟨'-', Nat.toDigits 10 whole ++ _, rfl, Or.inl rfl, fun d hd => ?_⟩
      rcases List.mem_append.mp hd with hd | hd
      · exact hwhole d hd
      · exact hrest d hd
  | false =>
      obtain ⟨c, cs, hdigits, hc⟩ := Text.toDigits_eq_cons whole
      rw [hdigits] at hwhole ⊢
      refine ⟨c, _, rfl, Or.inr hc, fun d hd => ?_⟩
      rcases List.mem_append.mp hd with hd | hd
      · exact hwhole d (List.mem_cons_of_mem _ hd)
      · exact hrest d hd

/-- A literal in front of anything that breaks is a token. -/
theorem scan_number {n : Number} (h : n.IsSound) {rest : List Char} (hrest : Breaks rest)
    (done : List Token) :
    scanFrom .nothing done ((n.chars ++ rest).map some)
      = scanFrom .nothing (.scalar (.number n) :: done) (rest.map some) := by
  obtain ⟨c, cs, hchars, hc, hcs⟩ := n.chars_cons h
  have hread : Number.ofChars? (cs.reverse ++ [c]).reverse = some n := by
    rw [List.reverse_append, List.reverse_reverse, List.reverse_singleton, List.singleton_append,
      ← hchars]
    exact Number.ofChars?_chars h
  have hbegin : Lexeme.nothing.step c = some ([], .number [c]) := start_number hc
  rw [hchars, List.cons_append, scan_step hbegin, List.reverse_nil, List.nil_append,
    scan_collect .number fun d hd _ => if_pos (hcs d hd)]
  refine scan_pending ?_ (fun d hnumber _ => ?_) hrest done
  · show (Number.ofChars? _).map _ = _
    rw [hread]
    rfl
  · show (if isNumberChar d then _ else _) = _
    rw [hnumber, hread]
    cases start d <;> rfl

/-! ## Words -/

/-- A word in front of anything that breaks is a token. -/
theorem scan_word {c : Char} {cs : List Char} {v : Json} (hstart : start c = some ([], .word [c]))
    (hcs : cs.all Char.isLower = true) (hv : word? (c :: cs) = some v) {rest : List Char}
    (hrest : Breaks rest) (done : List Token) :
    scanFrom .nothing done ((c :: cs ++ rest).map some)
      = scanFrom .nothing (.scalar v :: done) (rest.map some) := by
  have hread : word? (cs.reverse ++ [c]).reverse = some v := by
    rw [List.reverse_append, List.reverse_reverse]
    exact hv
  have hbegin : Lexeme.nothing.step c = some ([], .word [c]) := hstart
  rw [List.cons_append, scan_step hbegin, List.reverse_nil, List.nil_append,
    scan_collect .word fun d hd _ => if_pos (List.all_eq_true.mp hcs d hd)]
  refine scan_pending ?_ (fun d _ hlower => ?_) hrest done
  · show (word? _).map _ = _
    rw [hread]
    rfl
  · show (if d.isLower then _ else _) = _
    rw [hlower, hread]
    cases start d <;> rfl

/-! ## Strings -/

/-- Whatever escape a character is written with, it is what is read. -/
theorem scan_escapeChar (c : Char) (s : Spelling) (done : List Token) (rest : List Char) :
    scanFrom (.string s) done ((escapeChar c ++ rest).map some)
      = scanFrom (.string (s.push c)) done (rest.map some) := by
  by_cases hshort : c ∈ ['"', '\\', '\x08', '\t', '\n', '\x0c', '\r']
  · simp only [List.mem_cons, List.not_mem_nil, or_false] at hshort
    rcases hshort with rfl | rfl | rfl | rfl | rfl | rfl | rfl <;> rfl
  · -- six characters for a control character, else the character itself
    simp only [List.mem_cons, List.not_mem_nil, or_false, not_or] at hshort
    obtain ⟨h1, h2, h3, h4, h5, h6, h7⟩ := hshort
    unfold escapeChar
    rw [if_neg h1, if_neg h2, if_neg h3, if_neg h4, if_neg h5, if_neg h6, if_neg h7]
    by_cases hcontrol : c.toNat < 0x20
    · rw [if_pos hcontrol]
      have hhigh := Text.hexValue?_hexDigit (c.toNat / 16) (by omega)
      have hlow := Text.hexValue?_hexDigit (c.toNat % 16) (by omega)
      have hunit : s.pushUnit ((0 * 16 + c.toNat / 16) * 16 + c.toNat % 16) = s.push c := by
        have hvalue : (0 * 16 + c.toNat / 16) * 16 + c.toNat % 16 = c.toNat := by omega
        rw [hvalue]
        unfold Spelling.pushUnit
        rw [if_neg (by omega), if_neg (by omega), Char.ofNat_toNat]
      have hthird : (Lexeme.unit s 2 0).step (Text.hexDigit (c.toNat / 16))
          = some ([], .unit s 3 (0 * 16 + c.toNat / 16)) := by
        show (Text.hexValue? _ >>= _) = _
        rw [hhigh]
        rfl
      have hfourth : (Lexeme.unit s 3 (0 * 16 + c.toNat / 16)).step (Text.hexDigit (c.toNat % 16))
          = some ([], .string (s.push c)) := by
        show (Text.hexValue? _ >>= _) = _
        rw [hlow, ← hunit]
        rfl
      show scanFrom (.unit s 2 0) done
        ((Text.hexDigit (c.toNat / 16) :: Text.hexDigit (c.toNat % 16) :: rest).map some) = _
      rw [scan_step hthird, scan_step hfourth]
      rfl
    · rw [if_neg hcontrol]
      have hstep : (Lexeme.string s).step c = some ([], .string (s.push c)) := by
        show (if c = '"' then _ else _) = _
        rw [if_neg h1, if_neg h2, if_neg hcontrol]
      rw [List.singleton_append, scan_step hstep]
      rfl

/-- A string is read up to its closing quote. -/
theorem scan_escaped (cs begun : List Char) (done : List Token) (rest : List Char) :
    scanFrom (.string ⟨begun, true, none⟩) done ((cs.flatMap escapeChar ++ '"' :: rest).map some)
      = scanFrom .nothing (.scalar (.string (String.ofList (begun.reverse ++ cs))) :: done)
          (rest.map some) := by
  induction cs generalizing begun with
  | nil =>
      rw [List.append_nil]
      rfl
  | cons c cs ih =>
      have hpush : Spelling.push ⟨begun, true, none⟩ c = ⟨c :: begun, true, none⟩ := rfl
      rw [List.flatMap_cons, List.append_assoc, scan_escapeChar, hpush, ih, List.reverse_cons,
        List.append_assoc]
      rfl

/-- A string is a token. -/
theorem scan_quote (s : String) (done : List Token) (rest : List Char) :
    scanFrom .nothing done ((quote s ++ rest).map some)
      = scanFrom .nothing (.scalar (.string s) :: done) (rest.map some) := by
  have hquote : quote s ++ rest = '"' :: (s.toList.flatMap escapeChar ++ '"' :: rest) := by
    unfold quote
    simp only [List.cons_append, List.append_assoc, List.nil_append]
  have hescaped := scan_escaped s.toList [] done rest
  rw [List.reverse_nil, List.nil_append, String.ofList_toList] at hescaped
  rw [hquote]
  exact hescaped

/-! ## Values -/

mutual

/-- The text of a value in front of anything that breaks is cut into the
    tokens of the value. -/
theorem scan_chars : ∀ (v : Json), v.IsSound → ∀ {rest : List Char}, Breaks rest →
    ∀ done : List Token, scanFrom .nothing done ((chars v ++ rest).map some)
      = scanFrom .nothing ((tokens v).reverse ++ done) (rest.map some)
  | .null, _, _, hrest, done => scan_word rfl (by decide) rfl hrest done
  | .bool true, _, _, hrest, done => scan_word rfl (by decide) rfl hrest done
  | .bool false, _, _, hrest, done => scan_word rfl (by decide) rfl hrest done
  | .number n, h, _, hrest, done => scan_number h hrest done
  | .string s, _, rest, _, done => scan_quote s done rest
  | .array items, h, rest, _, done => by
      simp only [chars, tokens, List.append_assoc, List.cons_append, List.nil_append]
      rw [scan_mark rfl, scan_items items h (breaks_cons rest rfl rfl), scan_mark rfl]
      simp only [List.reverse_cons, List.reverse_append, List.append_assoc]
      rfl
  | .object members, h, rest, _, done => by
      simp only [chars, tokens, List.append_assoc, List.cons_append, List.nil_append]
      rw [scan_mark rfl, scan_members members h (breaks_cons rest rfl rfl), scan_mark rfl]
      simp only [List.reverse_cons, List.reverse_append, List.append_assoc]
      rfl

/-- `scan_chars`, for the items of an array. -/
theorem scan_items : ∀ (items : List Json), AreSoundItems items → ∀ {rest : List Char},
    Breaks rest → ∀ done : List Token,
    scanFrom .nothing done ((itemsChars items ++ rest).map some)
      = scanFrom .nothing ((itemsTokens items).reverse ++ done) (rest.map some)
  | [], _, _, _, _ => rfl
  | [item], h, _, hrest, done => scan_chars item h.1 hrest done
  | item :: next :: items, h, rest, hrest, done => by
      have hnext := scan_items (next :: items) h.2 hrest
      simp only [itemsChars, itemsTokens, List.append_assoc, List.cons_append] at hnext ⊢
      rw [scan_chars item h.1 (breaks_cons _ rfl rfl), scan_mark rfl, hnext]
      simp only [List.reverse_append, List.reverse_cons, List.append_assoc]
      rfl

/-- `scan_chars`, for the members of an object. -/
theorem scan_members : ∀ (members : List (String × Json)), AreSoundMembers members →
    ∀ {rest : List Char}, Breaks rest → ∀ done : List Token,
    scanFrom .nothing done ((membersChars members ++ rest).map some)
      = scanFrom .nothing ((membersTokens members).reverse ++ done) (rest.map some)
  | [], _, _, _, _ => rfl
  | [(name, value)], h, rest, hrest, done => by
      simp only [membersChars, membersTokens, List.append_assoc, List.cons_append]
      rw [scan_quote, scan_mark rfl, scan_chars value h.1 hrest]
      simp only [List.reverse_cons, List.append_assoc]
      rfl
  | (name, value) :: next :: members, h, rest, hrest, done => by
      have hnext := scan_members (next :: members) h.2 hrest
      simp only [membersChars, membersTokens, List.append_assoc, List.cons_append] at hnext ⊢
      rw [scan_quote, scan_mark rfl, scan_chars value h.1 (breaks_cons _ rfl rfl), scan_mark rfl,
        hnext]
      simp only [List.reverse_append, List.reverse_cons, List.append_assoc]
      rfl

end

end ContentVault.Json
