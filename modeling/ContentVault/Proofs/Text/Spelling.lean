import ContentVault.Text.Base64
import ContentVault.Text.Decimal
import ContentVault.Text.Hex

/-! # Digits, read back

    Hexadecimal and Base64 both write a byte string digit by digit.  Every
    digit is read as the number it was written for (`hexValue?_hexDigit`,
    `value?_symbol`); from there the texts are read back group by group
    (`unhex?_hex`, `decode?_encode`).  All the readers of decimal numbers
    weigh the digits in the same way (`weigh_eq`). -/

namespace ContentVault.Text

/-! ## Decimal numbers -/

/-- The weighing that every reader of decimal digits does. -/
theorem weigh_eq (digits : List Char) (start : Nat) :
    digits.foldl (fun n c => n * 10 + (c.toNat - 48)) start
      = Nat.ofDigitChars 10 digits start := by
  rw [Nat.ofDigitChars_eq_foldl]
  congr 1
  funext n c
  rw [Nat.mul_comm]
  rfl

/-- A number that was written is read back. -/
theorem digitsValue_toDigits (n : Nat) : digitsValue (Nat.toDigits 10 n) = n := by
  unfold digitsValue
  rw [weigh_eq, Nat.ofDigitChars_ten_toDigits]

/-- A text that no digit begins. -/
def NoDigit (cs : List Char) : Prop := ∀ c ∈ cs.head?, c.isDigit = false

theorem noDigit_cons {c : Char} (rest : List Char) (h : c.isDigit = false) :
    NoDigit (c :: rest) := by
  intro d hd
  rw [← Option.some.inj hd]
  exact h

theorem isDigit_of_mem_toDigits {n : Nat} {c : Char} (h : c ∈ Nat.toDigits 10 n) :
    c.isDigit = true := Nat.isDigit_of_mem_toDigits (by decide) (by decide) h

/-- A number is written with at least one digit. -/
theorem toDigits_eq_cons (n : Nat) :
    ∃ d ds, Nat.toDigits 10 n = d :: ds ∧ d.isDigit = true := by
  cases hdigits : Nat.toDigits 10 n with
  | nil => exact absurd hdigits Nat.toDigits_ne_nil
  | cons d ds =>
      have hmem : d ∈ Nat.toDigits 10 n := by
        rw [hdigits]
        exact List.mem_cons_self
      exact ⟨d, ds, rfl, isDigit_of_mem_toDigits hmem⟩

/-! ## Hexadecimal -/

/-- A digit is read as the number it was written for. -/
theorem hexValue?_hexDigit : ∀ n, n < 16 → hexValue? (hexDigit n) = some n := by decide

/-- Writing loses nothing. -/
theorem unhexChars?_hexChars (bs : Bytes) : unhexChars? (hexChars bs) = some bs := by
  induction bs with
  | nil => rfl
  | cons b bs ih =>
      have hb := b.toNat_lt
      have hhigh := hexValue?_hexDigit (b.toNat / 16) (by omega)
      have hlow := hexValue?_hexDigit (b.toNat % 16) (by omega)
      have hbyte : UInt8.ofNat (16 * (b.toNat / 16) + b.toNat % 16) = b := by
        rw [Nat.div_add_mod]
        exact UInt8.ofNat_toNat
      show (do
        let high ← hexValue? (hexDigit (b.toNat / 16))
        let low ← hexValue? (hexDigit (b.toNat % 16))
        let bytes ← unhexChars? (hexChars bs)
        return UInt8.ofNat (16 * high + low) :: bytes) = _
      rw [hhigh, hlow, ih]
      exact congrArg (fun c => some (c :: bs)) hbyte

/-- A byte string in hexadecimal is read back. -/
theorem unhex?_hex (bs : Bytes) : unhex? (hex bs) = some bs := by
  unfold unhex? hex
  rw [String.toList_ofList]
  exact unhexChars?_hexChars bs

/-- The digits are those that can stand in any text. -/
theorem hexDigit_mem : ∀ n, n < 16 → hexDigit n ∈ "0123456789abcdef".toList := by decide

theorem hexChars_mem {bs : Bytes} {c : Char} (h : c ∈ hexChars bs) :
    c ∈ "0123456789abcdef".toList := by
  induction bs with
  | nil => cases h
  | cons b bs ih =>
      have hb := b.toNat_lt
      rcases List.mem_cons.mp h with rfl | h
      · exact hexDigit_mem _ (by omega)
      · rcases List.mem_cons.mp h with rfl | h
        · exact hexDigit_mem _ (by omega)
        · exact ih h

/-! ## Base64 -/

namespace Base64

/-- A digit is read as the number it was written for. -/
theorem value?_symbol : ∀ n, n < 64 → value? (symbol n) = some n := by decide

/-- No digit is taken for padding. -/
theorem symbol_ne_padding : ∀ n, n < 64 → symbol n ≠ '=' := by decide

/-- Three bytes in four digits, whatever comes after them. -/
theorem decodeChars?_group (n : Nat) (hn : n < 16777216) (rest : List Char) :
    decodeChars? (symbol (n / 262144) :: symbol (n / 4096 % 64) :: symbol (n / 64 % 64) ::
        symbol (n % 64) :: rest)
      = (decodeChars? rest).map
          ([UInt8.ofNat (n / 65536), UInt8.ofNat (n / 256 % 256), UInt8.ofNat (n % 256)] ++ ·) := by
  have hgroup : group? (symbol (n / 262144)) (symbol (n / 4096 % 64)) (symbol (n / 64 % 64))
      (symbol (n % 64))
      = some [UInt8.ofNat (n / 65536), UInt8.ofNat (n / 256 % 256), UInt8.ofNat (n % 256)] := by
    have hsum : n / 262144 * 262144 + n / 4096 % 64 * 4096 + n / 64 % 64 * 64 + n % 64 = n := by
      omega
    unfold group?
    rw [value?_symbol _ (by omega), value?_symbol _ (by omega), value?_symbol _ (by omega),
      value?_symbol _ (by omega)]
    simp only [Option.bind_eq_bind, Option.bind_some, hsum]
    rfl
  have hlast : symbol (n % 64) ≠ '=' := symbol_ne_padding _ (by omega)
  rw [decodeChars?.eq_4 _ _ _ _ _ (fun _ h _ => hlast h) (fun h _ => hlast h), hgroup]
  cases decodeChars? rest <;> rfl

/-- Writing loses nothing. -/
theorem decodeChars?_encodeChars (bs : Bytes) : decodeChars? (encodeChars bs) = some bs := by
  fun_induction encodeChars bs with
  | case1 => rfl
  | case2 a n =>
      have ha := a.toNat_lt
      have hx : value? (symbol (n / 4)) = some (n / 4) := value?_symbol _ (by omega)
      have hy : value? (symbol (n % 4 * 16)) = some (n % 4 * 16) := value?_symbol _ (by omega)
      have hbyte : n / 4 * 4 + n % 4 * 16 / 16 = n := by omega
      have hzero : n % 4 * 16 % 16 = 0 := by omega
      show lastOne? _ _ = _
      unfold lastOne?
      rw [hx, hy]
      simp only [Option.bind_eq_bind, Option.bind_some, hbyte, hzero, if_true]
      exact congrArg (fun c => some [c]) UInt8.ofNat_toNat
  | case3 a b n =>
      have ha := a.toNat_lt
      have hb := b.toNat_lt
      have hx : value? (symbol (n / 1024)) = some (n / 1024) := value?_symbol _ (by omega)
      have hy : value? (symbol (n / 16 % 64)) = some (n / 16 % 64) := value?_symbol _ (by omega)
      have hz : value? (symbol (n % 16 * 4)) = some (n % 16 * 4) := value?_symbol _ (by omega)
      -- the last digit holds four bits of the second byte, and two bits of nothing
      have hsum : n / 1024 * 1024 + n / 16 % 64 * 16 + n % 16 * 4 / 4 = n := by omega
      have hzero : n % 16 * 4 % 4 = 0 := by omega
      have hfirst : n / 256 = a.toNat := by omega
      have hsecond : n % 256 = b.toNat := by omega
      have hdigit : symbol (n % 16 * 4) ≠ '=' := symbol_ne_padding _ (by omega)
      rw [decodeChars?.eq_3 _ _ _ hdigit]
      unfold lastTwo?
      rw [hx, hy, hz]
      simp only [Option.bind_eq_bind, Option.bind_some, hsum, hzero, if_true, hfirst, hsecond,
        UInt8.ofNat_toNat]
      rfl
  | case4 a b c rest n ih =>
      have ha := a.toNat_lt
      have hb := b.toNat_lt
      have hc := c.toNat_lt
      have hfirst : n / 65536 = a.toNat := by omega
      have hsecond : n / 256 % 256 = b.toNat := by omega
      have hthird : n % 256 = c.toNat := by omega
      rw [decodeChars?_group n (by omega), ih, hfirst, hsecond, hthird, UInt8.ofNat_toNat,
        UInt8.ofNat_toNat, UInt8.ofNat_toNat]
      rfl

/-- A byte string in Base64 is read back. -/
@[simp] theorem decode?_encode (bs : Bytes) : decode? (encode bs) = some bs := by
  unfold decode? encode
  rw [String.toList_ofList]
  exact decodeChars?_encodeChars bs

end Base64

end ContentVault.Text
