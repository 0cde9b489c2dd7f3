import ContentVault.Json.Reader
import ContentVault.Proofs.Json.Scanning

/-! # Printed JSON, read back

    The reader completes a value with its last token and puts it into the
    array or object that is open around it, whatever has been read before
    (`run_tokens`).  Together with the tokens of a printed text this makes
    printing lossless on sound values: `parse?_render`. -/

namespace ContentVault.Json

namespace Reader

/-! ## Reading the tokens of a value -/

/-- Whether a value may come next. -/
def Awaits (e : Expect) : Prop := e = .value ∨ e = .itemOrEnd

theorem step_scalar {e : Expect} (he : Awaits e) (stack : List Frame) (v : Json) :
    step ⟨stack, e⟩ (.scalar v) = complete stack v := by
  rcases he with rfl | rfl <;> rfl

theorem step_beginArray {e : Expect} (he : Awaits e) (stack : List Frame) :
    step ⟨stack, e⟩ .beginArray = some ⟨.array [] :: stack, .itemOrEnd⟩ := by
  rcases he with rfl | rfl <;> rfl

theorem step_beginObject {e : Expect} (he : Awaits e) (stack : List Frame) :
    step ⟨stack, e⟩ .beginObject = some ⟨.object [] true :: stack, .nameOrEnd⟩ := by
  rcases he with rfl | rfl <;> rfl

theorem run_step {r s : Reader} {t : Token} (h : r.step t = some s) (rest : List Token) :
    r.run (t :: rest) = s.run rest := by
  rw [run, h]

/-- Whether the name of a member may come next. -/
def AwaitsName (e : Expect) : Prop := e = .name ∨ e = .nameOrEnd

theorem step_name {e : Expect} (he : AwaitsName e) (stack : List Frame)
    (members : List (String × Json)) (name : String) :
    step ⟨.object members true :: stack, e⟩ (.scalar (.string name))
      = some ⟨.member members true (some name) :: stack, .colon⟩ := by
  rcases he with rfl | rfl <;> rfl

mutual

/-- The tokens of a value are read as that value. -/
theorem run_tokens : ∀ (v : Json) {e : Expect}, Awaits e → ∀ {stack : List Frame} {r : Reader},
    complete stack v = some r → ∀ rest : List Token,
    run ⟨stack, e⟩ (tokens v ++ rest) = run r rest
  | .null, _, he, stack, _, hr, rest => run_step ((step_scalar he stack _).trans hr) rest
  | .bool _, _, he, stack, _, hr, rest => run_step ((step_scalar he stack _).trans hr) rest
  | .number _, _, he, stack, _, hr, rest => run_step ((step_scalar he stack _).trans hr) rest
  | .string _, _, he, stack, _, hr, rest => run_step ((step_scalar he stack _).trans hr) rest
  | .garbled, _, he, stack, _, hr, rest => run_step ((step_scalar he stack _).trans hr) rest
  | .array [], e, he, stack, r, hr, rest => by
      have hclose : step ⟨.array [] :: stack, .itemOrEnd⟩ .endArray = some r := hr
      show run ⟨stack, e⟩ (.beginArray :: .endArray :: rest) = _
      rw [run_step (step_beginArray he stack), run_step hclose]
  | .array (item :: items), e, he, stack, r, hr, rest => by
      -- the array is open, and nothing is in it yet
      simp only [tokens, List.cons_append, List.append_assoc, List.nil_append]
      rw [run_step (step_beginArray he stack)]
      exact run_items (item :: items) (List.cons_ne_nil item items) (Or.inr rfl) [] hr rest
  | .object [], e, he, stack, r, hr, rest => by
      have hclose : step ⟨.object [] true :: stack, .nameOrEnd⟩ .endObject = some r := hr
      show run ⟨stack, e⟩ (.beginObject :: .endObject :: rest) = _
      rw [run_step (step_beginObject he stack), run_step hclose]
  | .object (m :: members), e, he, stack, r, hr, rest => by
      -- a name comes first, and no member is open
      simp only [tokens, List.cons_append, List.append_assoc, List.nil_append]
      rw [run_step (step_beginObject he stack)]
      exact run_members (m :: members) (List.cons_ne_nil m members) (Or.inr rfl) [] hr rest

/-- `run_tokens`, for the items of an array that is open. -/
theorem run_items : ∀ (items : List Json), items ≠ [] → ∀ {e : Expect}, Awaits e →
    ∀ (done : List Json) {stack : List Frame} {r : Reader},
    complete stack (.array (done.reverse ++ items)) = some r → ∀ rest : List Token,
    run ⟨.array done :: stack, e⟩ (itemsTokens items ++ .endArray :: rest) = run r rest
  | [], hne, _, _, _, _, _, _, _ => absurd rfl hne
  | [item], _, e, he, done, stack, r, hr, rest => by
      have hclose : step ⟨.array (item :: done) :: stack, .separator⟩ .endArray = some r := by
        rw [← hr, ← List.reverse_cons]
        rfl
      rw [itemsTokens, run_tokens item he rfl, run_step hclose]
  | item :: next :: items, _, e, he, done, stack, r, hr, rest => by
      have hcomma : step ⟨.array (item :: done) :: stack, .separator⟩ .comma
          = some ⟨.array (item :: done) :: stack, .value⟩ := rfl
      have hlist : (item :: done).reverse ++ next :: items
          = done.reverse ++ item :: next :: items := by
        rw [List.reverse_cons, List.append_assoc]
        rfl
      rw [itemsTokens, List.append_assoc, run_tokens item he rfl, List.cons_append, run_step hcomma]
      · exact run_items (next :: items) (List.cons_ne_nil next items) (Or.inl rfl) (item :: done)
          (hlist ▸ hr) rest
      · exact List.cons_ne_nil next items

/-- `run_tokens`, for the members of an object that is open. -/
theorem run_members : ∀ (members : List (String × Json)), members ≠ [] → ∀ {e : Expect},
    AwaitsName e → ∀ (done : List (String × Json)) {stack : List Frame} {r : Reader},
    complete stack (.object (done.reverse ++ members)) = some r → ∀ rest : List Token,
    run ⟨.object done true :: stack, e⟩ (membersTokens members ++ .endObject :: rest) = run r rest
  | [], hne, _, _, _, _, _, _, _ => absurd rfl hne
  | [(name, value)], _, e, he, done, stack, r, hr, rest => by
      have hcolon : step ⟨.member done true (some name) :: stack, .colon⟩ .colon
          = some ⟨.member done true (some name) :: stack, .value⟩ := rfl
      have hclose : step ⟨.object ((name, value) :: done) true :: stack, .separator⟩ .endObject
          = some r := by
        rw [← hr, ← List.reverse_cons]
        rfl
      simp only [membersTokens, List.cons_append]
      rw [run_step (step_name he stack done name), run_step hcolon,
        run_tokens value (Or.inl rfl) rfl, run_step hclose]
  | (name, value) :: next :: members, _, e, he, done, stack, r, hr, rest => by
      have hcolon : step ⟨.member done true (some name) :: stack, .colon⟩ .colon
          = some ⟨.member done true (some name) :: stack, .value⟩ := rfl
      have hcomma : step ⟨.object ((name, value) :: done) true :: stack, .separator⟩ .comma
          = some ⟨.object ((name, value) :: done) true :: stack, .name⟩ := rfl
      have hlist : ((name, value) :: done).reverse ++ next :: members
          = done.reverse ++ (name, value) :: next :: members := by
        rw [List.reverse_cons, List.append_assoc]
        rfl
      simp only [membersTokens, List.cons_append, List.append_assoc]
      rw [run_step (step_name he stack done name), run_step hcolon,
        run_tokens value (Or.inl rfl) rfl, run_step hcomma]
      exact run_members (next :: members) (List.cons_ne_nil next members) (Or.inl rfl)
        ((name, value) :: done) (hlist ▸ hr) rest

end

end Reader

/-! ## Reading a text -/

/-- The characters of a sound value spell it. -/
theorem parseChars?_chars {v : Json} (h : v.IsSound) :
    parseChars? ((chars v).map some) = some v := by
  have hscan : Token.scan? ((chars v).map some) = some (tokens v) := by
    have hchars := scan_chars v h breaks_nil []
    rw [List.append_nil, List.append_nil] at hchars
    refine hchars.trans ?_
    show some ((tokens v).reverse.reverse ++ []) = _
    rw [List.reverse_reverse, List.append_nil]
  have hrun : Reader.initial.run (tokens v) = some ⟨[], .nothing v⟩ := by
    have hvalue : Reader.run ⟨[], .value⟩ (tokens v ++ []) = Reader.run ⟨[], .nothing v⟩ [] :=
      Reader.run_tokens v (Or.inl rfl) rfl []
    rw [List.append_nil] at hvalue
    exact hvalue
  unfold parseChars?
  rw [hscan]
  show (Reader.initial.run (tokens v) >>= Reader.result?) = _
  rw [hrun]
  rfl

/-- Printing a sound value loses nothing. -/
theorem parse?_render {v : Json} (h : v.IsSound) : parse? v.render = some v := by
  unfold parse? render
  rw [String.toList_ofList]
  exact parseChars?_chars h

/-- The same for the bytes of the text. -/
theorem parseBytes?_render {v : Json} (h : v.IsSound) :
    parseBytes? (Bytes.ofString v.render) = some v := by
  rw [parseBytes?_ofString]
  exact parse?_render h

end ContentVault.Json
