import ContentVault.Digest.Basic
import ContentVault.Proofs.Text.Spelling
import ContentVault.Proofs.Text.Trimming

/-! # A digest that people paste

    A digest that comes from outside is compared as a text: blanks are taken off
    at both ends, and the letter case of what remains does not count.  What such
    a text has to look like can be said without trimming and without comparing
    texts (`IsHexOf`): some blanks, two digits for each byte, in either case, and
    some blanks.

    Main statement: `isSpelled_iff`. -/

namespace ContentVault

namespace Text

/-- Whether a text is a byte string in hexadecimal, in digits of either case,
    with any blanks around it. -/
def IsHexOf (s : String) (bs : Bytes) : Prop :=
  ∃ before digits after : List Char, s.toList = before ++ digits ++ after ∧
    (∀ c ∈ before, isBlank c = true) ∧ (∀ c ∈ after, isBlank c = true) ∧
    unhexChars? digits = some bs

/-! ## Digits in either case -/

/-- Only the capital letters of ASCII have a lower case of their own. -/
theorem toNat_toLower (c : Char) :
    c.toLower.toNat = if 65 ≤ c.toNat ∧ c.toNat ≤ 90 then c.toNat + 32 else c.toNat := by
  unfold Char.toLower
  split
  · rename_i h
    have hcapital : 65 ≤ c.toNat ∧ c.toNat ≤ 90 := h
    rw [if_pos hcapital]
    show (c.val + 32).toNat = c.val.toNat + 32
    have hsmall : c.val.toNat ≤ 90 := hcapital.2
    rw [UInt32.toNat_add]
    exact Nat.mod_eq_of_lt (by have : (32 : UInt32).toNat = 32 := rfl; omega)
  · rename_i h
    have hother : ¬(65 ≤ c.toNat ∧ c.toNat ≤ 90) := h
    rw [if_neg hother]

theorem toNat_hexDigit : ∀ n, n < 16 → (hexDigit n).toNat = if n < 10 then 48 + n else 87 + n := by
  decide

theorem hexValue?_eq_some_iff {c : Char} {n : Nat} : hexValue? c = some n ↔
    (48 ≤ c.toNat ∧ c.toNat ≤ 57 ∧ n + 48 = c.toNat) ∨
    (97 ≤ c.toNat ∧ c.toNat ≤ 102 ∧ n + 87 = c.toNat) ∨
    (65 ≤ c.toNat ∧ c.toNat ≤ 70 ∧ n + 55 = c.toNat) := by
  unfold hexValue?
  dsimp only
  split
  · rw [Option.some_inj]
    omega
  · split
    · rw [Option.some_inj]
      omega
    · split
      · rw [Option.some_inj]
        omega
      · refine iff_of_false nofun ?_
        omega

theorem hexValue?_lt {c : Char} {n : Nat} (h : hexValue? c = some n) : n < 16 := by
  rw [hexValue?_eq_some_iff] at h
  omega

/-- The digit of a number, in lower case, and the number that a digit stands for. -/
theorem toLower_eq_hexDigit_iff {c : Char} {n : Nat} (hn : n < 16) :
    c.toLower = hexDigit n ↔ hexValue? c = some n := by
  rw [← Char.toNat_inj, toNat_toLower, toNat_hexDigit n hn, hexValue?_eq_some_iff]
  split
  · split
    · omega
    · omega
  · split
    · omega
    · omega

/-- What two digits and the rest spell. -/
theorem unhexChars?_cons_iff {c d : Char} {rest : List Char} {bytes : Bytes} :
    unhexChars? (c :: d :: rest) = some bytes ↔
      ∃ b bs, bytes = b :: bs ∧ hexValue? c = some (b.toNat / 16) ∧
        hexValue? d = some (b.toNat % 16) ∧ unhexChars? rest = some bs := by
  rw [unhexChars?]
  constructor
  · intro h
    obtain ⟨high, hhigh, h⟩ := Option.bind_eq_some_iff.mp h
    obtain ⟨low, hlow, h⟩ := Option.bind_eq_some_iff.mp h
    obtain ⟨bs, hrest, h⟩ := Option.bind_eq_some_iff.mp h
    have h1 := hexValue?_lt hhigh
    have h2 := hexValue?_lt hlow
    have hb : (UInt8.ofNat (16 * high + low)).toNat = 16 * high + low := by
      rw [UInt8.toNat_ofNat']
      omega
    refine ⟨UInt8.ofNat (16 * high + low), bs, (Option.some.inj h).symm, ?_, ?_, hrest⟩
    · rw [hb, hhigh]
      exact congrArg some (by omega)
    · rw [hb, hlow]
      exact congrArg some (by omega)
  · rintro ⟨b, bs, rfl, hhigh, hlow, hrest⟩
    rw [hhigh, hlow, hrest]
    show some (UInt8.ofNat (16 * (b.toNat / 16) + b.toNat % 16) :: bs) = _
    rw [Nat.div_add_mod, UInt8.ofNat_toNat]

/-- Characters in lower case are the digits of the bytes that they spell. -/
theorem map_toLower_eq_hexChars_iff {cs : List Char} {bs : Bytes} :
    cs.map Char.toLower = hexChars bs ↔ unhexChars? cs = some bs := by
  induction bs generalizing cs with
  | nil =>
      match cs with
      | [] => exact iff_of_true rfl rfl
      | [c] => exact iff_of_false nofun nofun
      | c :: d :: rest =>
          refine iff_of_false (List.cons_ne_nil _ _) fun h => ?_
          obtain ⟨b, bs, hcons, -⟩ := unhexChars?_cons_iff.mp h
          cases hcons
  | cons b bs ih =>
      match cs with
      | [] => exact iff_of_false nofun nofun
      | [c] => exact iff_of_false (fun h => nomatch (List.cons.inj h).2) nofun
      | c :: d :: rest =>
          have hb := b.toNat_lt
          have hhigh := toLower_eq_hexDigit_iff (c := c) (n := b.toNat / 16) (by omega)
          have hlow := toLower_eq_hexDigit_iff (c := d) (n := b.toNat % 16) (by omega)
          rw [unhexChars?_cons_iff]
          constructor
          · intro h
            obtain ⟨hc, h⟩ := List.cons.inj h
            obtain ⟨hd, h⟩ := List.cons.inj h
            exact ⟨b, bs, rfl, hhigh.mp hc, hlow.mp hd, ih.mp h⟩
          · rintro ⟨b', bs', hcons, hc, hd, h⟩
            cases hcons
            exact congrArg₂ _ (hhigh.mpr hc) (congrArg₂ _ (hlow.mpr hd) (ih.mpr h))

/-- A text needs two digits for each byte. -/
theorem IsHexOf.length_le {s : String} {bs : Bytes} (h : IsHexOf s bs) :
    2 * bs.length ≤ s.toList.length := by
  obtain ⟨before, digits, after, hsplit, -, -, hdigits⟩ := h
  have hlength := congrArg List.length (map_toLower_eq_hexChars_iff.mpr hdigits)
  rw [List.length_map, length_hexChars] at hlength
  rw [hsplit, List.length_append, List.length_append]
  omega

/-- A digit in lower case is its own lower case. -/
theorem lower_hex (bs : Bytes) : lower (hex bs) = hexChars bs := by
  rw [lower, hex, String.toList_ofList, map_toLower_eq_hexChars_iff]
  exact unhexChars?_hexChars bs

theorem not_isBlank_of_hexValue {c : Char} {n : Nat} (h : hexValue? c = some n) :
    isBlank c = false := by
  rw [hexValue?_eq_some_iff] at h
  refine Bool.eq_false_iff.mpr fun hblank => ?_
  simp only [isBlank, Bool.or_eq_true, Bool.and_eq_true, decide_eq_true_eq, beq_iff_eq] at hblank
  omega

/-- No digit is a blank. -/
theorem not_isBlank_of_unhex {digits : List Char} {bs : Bytes}
    (h : unhexChars? digits = some bs) : ∀ c ∈ digits, isBlank c = false := by
  induction digits using unhexChars?.induct generalizing bs with
  | case1 => nofun
  | case2 c d rest ih =>
      obtain ⟨b, bs, -, hc, hd, hrest⟩ := unhexChars?_cons_iff.mp h
      intro x hx
      rcases List.mem_cons.mp hx with rfl | hx
      · exact not_isBlank_of_hexValue hc
      · rcases List.mem_cons.mp hx with rfl | hx
        · exact not_isBlank_of_hexValue hd
        · exact ih hrest x hx
  | case3 c => cases h

end Text

namespace Fingerprint

/-- A text passes for a digest exactly if it is its bytes in hexadecimal, in any
    letter case and with any blanks around it. -/
theorem isSpelled_iff {a : DigestAlgorithm} {data : Bytes} {expected : String} :
    (ofBytes a data).isSpelled expected = true ↔ Text.IsHexOf expected (a.digest data) := by
  have htext : (ofBytes a data).isSpelled expected = true ↔
      Text.unhexChars? (Text.trimChars expected.toList) = some (a.digest data) := by
    rw [isSpelled, Text.equalsIgnoringCase_iff, ofBytes, Text.lower_hex, Text.lower, Text.trim,
      String.toList_ofList, eq_comm, Text.map_toLower_eq_hexChars_iff]
  rw [htext]
  constructor
  · intro h
    obtain ⟨before, after, hsplit, hbefore, hafter⟩ := Text.trimChars_split expected.toList
    exact ⟨before, _, after, hsplit, hbefore, hafter, h⟩
  · rintro ⟨before, digits, after, hsplit, hbefore, hafter, hdigits⟩
    rw [hsplit, Text.trimChars_of_framed hbefore (Text.not_isBlank_of_unhex hdigits) hafter]
    exact hdigits

end Fingerprint

end ContentVault
