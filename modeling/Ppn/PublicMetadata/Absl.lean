import Ppn.PublicMetadata.Bytes

/-!
# The `absl` string helpers `fingerprint.cc` leans on

`FingerprintPublicMetadata` builds its hash input with `absl::StrCat` and
turns the digest into an integer through `absl::BytesToHexString` and
`absl::SimpleHexAtoi`. None of the three is code of this repository, but the
fingerprint is only as exact as they are, so each is modelled here after the
library: `StrCat` of an integer writes its decimal digits behind a minus sign
when negative; `BytesToHexString` writes two lower-case digits per byte;
`SimpleHexAtoi` trims ASCII whitespace, takes an optional sign and an
optional `0x`, and then runs the overflow-checked digit loop of
`safe_parse_positive_int` in 64-bit arithmetic.

The two facts the fingerprint needs are `decimalValue_decimal`, which makes
the decimal writer injective, and `simpleHexAtoi_bytesToHexString`: the hex
text of at most eight bytes parses back, with no overflow check firing, as
the number the bytes spell in network order.
-/

namespace Ppn

/-! ## Decimal digits -/

/-- The decimal digits of `n`, most significant first, in front of `ds`;
`fuel` bounds the number of digits. -/
def decimalCore : Nat → Nat → List UInt8 → List UInt8
  | 0, _, ds => ds
  | fuel + 1, n, ds =>
    let ds := UInt8.ofNat (48 + n % 10) :: ds
    if n / 10 = 0 then ds else decimalCore fuel (n / 10) ds

/-- The decimal digits of `n`, as `absl::StrCat` writes an unsigned integer. -/
def decimal (n : Nat) : List UInt8 := decimalCore (n + 1) n []

/-- `absl::StrCat` of a signed integer: `-` before the digits of a negative
value's magnitude. -/
def strCatInt (v : Int) : List UInt8 :=
  if v < 0 then 45 :: decimal v.natAbs else decimal v.natAbs

/-- The number a string of decimal digits spells. -/
def decimalValue (ds : List UInt8) : Nat :=
  ds.foldl (fun acc c => acc * 10 + (c.toNat - 48)) 0

theorem decimalCore_value {fuel n : Nat} (ds : List UInt8) (h : n < fuel) :
    (decimalCore fuel n ds).foldl (fun acc c => acc * 10 + (c.toNat - 48)) 0 =
      ds.foldl (fun acc c => acc * 10 + (c.toNat - 48)) n := by
  induction fuel generalizing n ds with
  | zero => omega
  | succ fuel ih =>
    have hd : (UInt8.ofNat (48 + n % 10)).toNat - 48 = n % 10 := by
      rw [toNat_ofNat_byte, Nat.mod_eq_of_lt (by omega), Nat.add_sub_cancel_left]
    have hdigit : (UInt8.ofNat (48 + n % 10) :: ds).foldl (fun acc c => acc * 10 + (c.toNat - 48))
        (n / 10) = ds.foldl (fun acc c => acc * 10 + (c.toNat - 48)) n := by
      rw [List.foldl_cons, hd, Nat.div_add_mod']
    simp only [decimalCore]
    split
    · next hlast => rw [← hdigit, hlast]
    · rw [ih _ (by omega), hdigit]

theorem decimalValue_decimal (n : Nat) : decimalValue (decimal n) = n :=
  decimalCore_value [] (Nat.lt_succ_self n)

theorem decimal_injective {m n : Nat} (h : decimal m = decimal n) : m = n := by
  rw [← decimalValue_decimal m, h, decimalValue_decimal]

/-- Every character `decimalCore` writes is a digit, apart from those of `ds`. -/
theorem mem_decimalCore {fuel n : Nat} {ds : List UInt8} {c : UInt8}
    (h : c ∈ decimalCore fuel n ds) : c ∈ ds ∨ 48 ≤ c.toNat := by
  induction fuel generalizing n ds with
  | zero => exact .inl h
  | succ fuel ih =>
    have hdigit : ∀ {c}, c ∈ UInt8.ofNat (48 + n % 10) :: ds → c ∈ ds ∨ 48 ≤ c.toNat := by
      intro c hc
      rcases List.mem_cons.mp hc with rfl | hc
      · exact .inr (by rw [toNat_ofNat_byte]; omega)
      · exact .inl hc
    simp only [decimalCore] at h
    split at h
    · exact hdigit h
    · exact (ih h).elim hdigit .inr

theorem eq_zero_of_decimal_eq_nil {n : Nat} (h : decimal n = []) : n = 0 := by
  rw [← decimalValue_decimal n, h]
  rfl

/-- `StrCat` writes distinct integers as distinct strings. -/
theorem strCatInt_injective {a b : Int} (h : strCatInt a = strCatInt b) : a = b := by
  have hdigit : ∀ n, 45 :: decimal n ≠ decimal a.natAbs ∧ 45 :: decimal n ≠ decimal b.natAbs := by
    refine fun n => ⟨fun h' => ?_, fun h' => ?_⟩ <;>
    · rcases mem_decimalCore (h' ▸ List.mem_cons_self _ _) with h | h
      · cases h
      · exact absurd h (by decide)
  unfold strCatInt at h
  split_ifs at h with ha hb hb
  · have := decimal_injective (List.cons_injective h); omega
  · exact absurd h (hdigit _).2
  · exact absurd h.symm (hdigit _).1
  · have := decimal_injective h; omega

theorem strCatInt_ne_nil {v : Int} (h : v ≠ 0) : strCatInt v ≠ [] := by
  unfold strCatInt
  split
  · exact List.cons_ne_nil _ _
  · exact fun hnil => h (Int.natAbs_eq_zero.mp (eq_zero_of_decimal_eq_nil hnil))

/-! ## `absl::BytesToHexString` -/

/-- The ASCII code of the hex digit `d < 16`, lower case. -/
def hexDigitChar (d : Nat) : UInt8 :=
  UInt8.ofNat (if d < 10 then 48 + d else 87 + d)

/-- The two hex digits of a byte, high half first. -/
def byteToHex (b : UInt8) : List UInt8 :=
  [hexDigitChar (b.toNat / 16), hexDigitChar (b.toNat % 16)]

/-- `absl::BytesToHexString`. -/
def bytesToHexString (bs : List UInt8) : List UInt8 := bs.flatMap byteToHex

@[simp] theorem bytesToHexString_nil : bytesToHexString [] = [] := rfl

@[simp] theorem bytesToHexString_cons (b : UInt8) (bs : List UInt8) :
    bytesToHexString (b :: bs) = hexDigitChar (b.toNat / 16) :: hexDigitChar (b.toNat % 16) ::
      bytesToHexString bs := rfl

/-- The first `2 * n` hex digits are the hex text of the first `n` bytes. -/
theorem take_bytesToHexString (n : Nat) (bs : List UInt8) :
    (bytesToHexString bs).take (2 * n) = bytesToHexString (bs.take n) := by
  induction bs generalizing n with
  | nil => simp
  | cons b bs ih =>
    cases n with
    | zero => rfl
    | succ n => simp [Nat.mul_succ, ih]

/-! ## `absl::SimpleHexAtoi` -/

/-- `kAsciiToInt`: the digit value of a character in bases up to 36, and 36
for anything that is no digit. -/
def asciiToInt (c : UInt8) : Nat :=
  if 48 ≤ c.toNat ∧ c.toNat ≤ 57 then c.toNat - 48
  else if 65 ≤ c.toNat ∧ c.toNat ≤ 90 then c.toNat - 55
  else if 97 ≤ c.toNat ∧ c.toNat ≤ 122 then c.toNat - 87
  else 36

/-- `absl::ascii_isspace`: space, `\t`, `\n`, `\v`, `\f` and `\r`. -/
def asciiIsSpace (c : UInt8) : Bool :=
  c.toNat = 32 || (9 ≤ c.toNat && c.toNat ≤ 13)

/-- The text between leading and trailing `ascii_isspace` characters. -/
def stripAsciiWhitespace (text : List UInt8) : List UInt8 :=
  ((text.dropWhile asciiIsSpace).reverse.dropWhile asciiIsSpace).reverse

/-- `safe_parse_sign_and_base` at base 16: after whitespace, an optional `+`
or `-` and an optional `0x` or `0X`, the digits and whether the sign was `-`;
`none` when any of the three steps leaves nothing. -/
def safeParseSignAndBase16 (text : List UInt8) : Option (List UInt8 × Bool) :=
  match stripAsciiWhitespace text with
  | [] => none
  | c :: rest =>
    let negative := c.toNat = 45
    let text := if negative ∨ c.toNat = 43 then rest else c :: rest
    match text with
    | [] => none
    | c₀ :: c₁ :: digits =>
      if c₀.toNat = 48 ∧ (c₁.toNat = 120 ∨ c₁.toNat = 88) then
        if digits = [] then none else some (digits, negative)
      else some (text, negative)
    | _ => some (text, negative)

/-- `std::numeric_limits<uint64_t>::max()`. -/
def uint64Max : UInt64 := 0xFFFFFFFFFFFFFFFF

/-- `safe_parse_positive_int` at base 16 into a `uint64_t`: before each digit
the value must not exceed `kVmaxOverBase[16]`, and after the shift there must
be room for the digit. -/
def safeParsePositiveInt : List UInt8 → UInt64 → Option UInt64
  | [], value => some value
  | c :: rest, value =>
    let digit := UInt64.ofNat (asciiToInt c)
    if 16 ≤ digit then none
    else if uint64Max / 16 < value then none
    else if uint64Max - digit < value * 16 then none
    else safeParsePositiveInt rest (value * 16 + digit)

/-- `absl::SimpleHexAtoi` into a `uint64_t`; `none` is a `false` return. -/
def simpleHexAtoi (text : List UInt8) : Option UInt64 :=
  match safeParseSignAndBase16 text with
  | some (digits, false) => safeParsePositiveInt digits 0
  | _ => none

/-! ## Hex text of bytes parses back

Each step of the digit loop shifts the value four bits and adds a digit, so
after `k` digits the value is below `16 ^ k`. Sixteen digits fit in 64 bits
exactly: before the last one the value is at most `16 ^ 15 - 1`, which is
`kVmaxOverBase[16]`, and after the shift there is room for any digit. -/

/-- The number a string of hex digits spells, read after `acc`. -/
def hexFold (acc : Nat) (cs : List UInt8) : Nat :=
  cs.foldl (fun acc c => acc * 16 + asciiToInt c) acc

@[simp] theorem hexFold_nil (acc : Nat) : hexFold acc [] = acc := rfl

@[simp] theorem hexFold_cons (acc : Nat) (c : UInt8) (cs : List UInt8) :
    hexFold acc (c :: cs) = hexFold (acc * 16 + asciiToInt c) cs := rfl

theorem le_hexFold (acc : Nat) (cs : List UInt8) : acc ≤ hexFold acc cs := by
  induction cs generalizing acc with
  | nil => exact Nat.le_refl _
  | cons c cs ih =>
    rw [hexFold_cons]
    exact Nat.le_trans (by omega) (ih _)

theorem le_iff_toNat_le {x y : UInt64} : x ≤ y ↔ x.toNat ≤ y.toNat :=
  UInt64.le_def.trans BitVec.le_def

theorem asciiToInt_le (c : UInt8) : asciiToInt c ≤ 36 := by
  unfold asciiToInt
  split_ifs <;> omega

/-- One iteration of the digit loop, in numbers: the three checks pass exactly
when the character is a hex digit and the shifted-in value fits in 64 bits,
and the loop then goes on from that value. -/
theorem safeParsePositiveInt_cons_eq (c : UInt8) (cs : List UInt8) (value : UInt64) :
    safeParsePositiveInt (c :: cs) value =
      if asciiToInt c < 16 ∧ value.toNat * 16 + asciiToInt c < 2 ^ 64 then
        safeParsePositiveInt cs (UInt64.ofNat (value.toNat * 16 + asciiToInt c))
      else none := by
  have h16 : (16 : UInt64).toNat = 16 := rfl
  have hmax : uint64Max.toNat = 2 ^ 64 - 1 := rfl
  have hle := asciiToInt_le c
  have hdigit : (UInt64.ofNat (asciiToInt c)).toNat = asciiToInt c := by
    rw [toNat_ofNat_word]; omega
  have hdigitCheck : 16 ≤ UInt64.ofNat (asciiToInt c) ↔ 16 ≤ asciiToInt c := by
    rw [le_iff_toNat_le, hdigit, h16]
  have hdivCheck : uint64Max / 16 < value ↔ (2 ^ 64 - 1) / 16 < value.toNat := by
    rw [lt_iff_toNat_lt, UInt64.toNat_div, hmax, h16]
  have hroomCheck (hdiv : value.toNat ≤ (2 ^ 64 - 1) / 16) :
      uint64Max - UInt64.ofNat (asciiToInt c) < value * 16 ↔
        2 ^ 64 ≤ value.toNat * 16 + asciiToInt c := by
    rw [lt_iff_toNat_lt, UInt64.toNat_sub_of_le _ _ (by rw [le_iff_toNat_le, hmax, hdigit]; omega),
      toNat_mul_word, h16, Nat.mod_eq_of_lt (by omega), hdigit, hmax]
    omega
  rw [safeParsePositiveInt]
  by_cases hd : asciiToInt c < 16
  · have hd' : ¬16 ≤ UInt64.ofNat (asciiToInt c) := hdigitCheck.not.mpr (Nat.not_le.mpr hd)
    by_cases hdiv : value.toNat ≤ (2 ^ 64 - 1) / 16
    · have hdiv' : ¬uint64Max / 16 < value := hdivCheck.not.mpr (Nat.not_lt.mpr hdiv)
      by_cases hfit : value.toNat * 16 + asciiToInt c < 2 ^ 64
      · rw [if_neg hd', if_neg hdiv', if_neg ((hroomCheck hdiv).not.mpr (Nat.not_le.mpr hfit)),
          if_pos ⟨hd, hfit⟩]
        congr 1
        exact UInt64.toNat.inj (by
          rw [toNat_add_word, toNat_mul_word, h16, hdigit, toNat_ofNat_word,
            Nat.mod_eq_of_lt (Nat.lt_of_le_of_lt (Nat.le_add_right _ _) hfit)])
      · rw [if_neg hd', if_neg hdiv', if_pos ((hroomCheck hdiv).mpr (Nat.le_of_not_lt hfit)),
          if_neg (fun h => hfit h.2)]
    · rw [if_neg hd', if_pos (hdivCheck.mpr (Nat.lt_of_not_le hdiv)), if_neg (by omega)]
  · rw [if_pos (hdigitCheck.mpr (Nat.le_of_not_lt hd)), if_neg (fun h => hd h.1)]

/-- A digit whose shifted-in value still fits passes all three checks. -/
theorem safeParsePositiveInt_cons {c : UInt8} {cs : List UInt8} {value : UInt64}
    (hd : asciiToInt c < 16) (hfit : value.toNat * 16 + asciiToInt c < 2 ^ 64) :
    safeParsePositiveInt (c :: cs) value =
      safeParsePositiveInt cs (UInt64.ofNat (value.toNat * 16 + asciiToInt c)) := by
  rw [safeParsePositiveInt_cons_eq, if_pos ⟨hd, hfit⟩]

/-- A character the loop gets past is a hex digit whose shifted-in value fits. -/
theorem safeParsePositiveInt_cons_eq_some {c : UInt8} {cs : List UInt8} {value v : UInt64}
    (h : safeParsePositiveInt (c :: cs) value = some v) :
    asciiToInt c < 16 ∧ value.toNat * 16 + asciiToInt c < 2 ^ 64 ∧
      safeParsePositiveInt cs (UInt64.ofNat (value.toNat * 16 + asciiToInt c)) = some v := by
  rw [safeParsePositiveInt_cons_eq] at h
  split_ifs at h with hc
  exact ⟨hc.1, hc.2, h⟩

/-- On digits whose value fits in 64 bits, no check of the loop fires and the
value is the number the digits spell. -/
theorem safeParsePositiveInt_eq (cs : List UInt8) (value : UInt64)
    (hdigits : ∀ c ∈ cs, asciiToInt c < 16) (hfit : hexFold value.toNat cs < 2 ^ 64) :
    safeParsePositiveInt cs value = some (UInt64.ofNat (hexFold value.toNat cs)) := by
  induction cs generalizing value with
  | nil => rw [hexFold_nil, safeParsePositiveInt, ofNat_toNat_word]
  | cons c cs ih =>
    rw [hexFold_cons] at hfit ⊢
    have hstep := Nat.lt_of_le_of_lt (le_hexFold _ cs) hfit
    have hnext : (UInt64.ofNat (value.toNat * 16 + asciiToInt c)).toNat =
        value.toNat * 16 + asciiToInt c := by
      rw [toNat_ofNat_word, Nat.mod_eq_of_lt hstep]
    rw [safeParsePositiveInt_cons (hdigits c (List.mem_cons_self _ _)) hstep,
      ih _ (fun c hc => hdigits c (List.mem_cons_of_mem _ hc)) (by rwa [hnext]), hnext]

/-- The loop's two overflow checks are exact: it succeeds exactly when every
character is a hex digit and the number they spell after `value` fits in 64
bits, and it returns that number. -/
theorem safeParsePositiveInt_eq_some_iff (cs : List UInt8) (value v : UInt64) :
    safeParsePositiveInt cs value = some v ↔
      (∀ c ∈ cs, asciiToInt c < 16) ∧ hexFold value.toNat cs < 2 ^ 64 ∧
        v.toNat = hexFold value.toNat cs := by
  constructor
  · intro h
    induction cs generalizing value with
    | nil =>
      obtain rfl := Option.some.inj h
      exact ⟨nofun, value.toNat_lt_size, rfl⟩
    | cons c cs ih =>
      obtain ⟨hd, hfit, hrest⟩ := safeParsePositiveInt_cons_eq_some h
      have hnext : (UInt64.ofNat (value.toNat * 16 + asciiToInt c)).toNat =
          value.toNat * 16 + asciiToInt c := by
        rw [toNat_ofNat_word, Nat.mod_eq_of_lt hfit]
      obtain ⟨hdigits, hlt, hv⟩ := ih _ hrest
      rw [hnext] at hlt hv
      exact ⟨List.forall_mem_cons.mpr ⟨hd, hdigits⟩, hlt, hv⟩
  · rintro ⟨hdigits, hfit, hv⟩
    rw [safeParsePositiveInt_eq cs value hdigits hfit, ← hv, ofNat_toNat_word]

theorem hexDigitChar_toNat {d : Nat} (h : d < 16) :
    (hexDigitChar d).toNat = if d < 10 then 48 + d else 87 + d := by
  rw [hexDigitChar, toNat_ofNat_byte]
  split <;> omega

theorem asciiToInt_hexDigitChar {d : Nat} (h : d < 16) : asciiToInt (hexDigitChar d) = d := by
  have digits : ∀ d : Fin 16, asciiToInt (hexDigitChar d) = d := by decide
  exact digits ⟨d, h⟩

theorem hexFold_bytesToHexString (acc : Nat) (bs : List UInt8) :
    hexFold acc (bytesToHexString bs) = bs.foldl (fun acc b => acc * 256 + b.toNat) acc := by
  induction bs generalizing acc with
  | nil => rfl
  | cons b bs ih =>
    have hb := toNat_lt_byte b
    rw [bytesToHexString_cons, hexFold_cons, hexFold_cons, asciiToInt_hexDigitChar (by omega),
      asciiToInt_hexDigitChar (by omega), ih, List.foldl_cons]
    congr 1
    omega

theorem mem_bytesToHexString {c : UInt8} {bs : List UInt8} (h : c ∈ bytesToHexString bs) :
    ∃ d < 16, c = hexDigitChar d := by
  induction bs with
  | nil => cases h
  | cons b bs ih =>
    have hb := toNat_lt_byte b
    rcases List.mem_cons.mp h with rfl | h
    · exact ⟨_, by omega, rfl⟩
    rcases List.mem_cons.mp h with rfl | h
    · exact ⟨_, by omega, rfl⟩
    · exact ih h

theorem dropWhile_eq_self {p : UInt8 → Bool} {l : List UInt8} (h : ∀ c ∈ l, p c = false) :
    l.dropWhile p = l := by
  cases l with
  | nil => rfl
  | cons c l => rw [List.dropWhile_cons, if_neg (by simp [h c (List.mem_cons_self _ _)])]

theorem stripAsciiWhitespace_eq_self {l : List UInt8} (h : ∀ c ∈ l, asciiIsSpace c = false) :
    stripAsciiWhitespace l = l := by
  rw [stripAsciiWhitespace, dropWhile_eq_self h,
    dropWhile_eq_self (fun c hc => h c (List.mem_reverse.mp hc)), List.reverse_reverse]

theorem hexDigitChar_range {d : Nat} (h : d < 16) :
    48 ≤ (hexDigitChar d).toNat ∧ (hexDigitChar d).toNat ≤ 102 ∧ (hexDigitChar d).toNat ≠ 88 := by
  rw [hexDigitChar_toNat h]
  split <;> omega

/-- Hex text is one unsigned run of digits: no whitespace to trim, no sign and
no `0x` prefix. -/
theorem safeParseSignAndBase16_bytesToHexString {bs : List UInt8} (h : bs ≠ []) :
    safeParseSignAndBase16 (bytesToHexString bs) = some (bytesToHexString bs, false) := by
  have hspace : ∀ c ∈ bytesToHexString bs, asciiIsSpace c = false := by
    intro c hc
    obtain ⟨d, hd, rfl⟩ := mem_bytesToHexString hc
    have := hexDigitChar_range hd
    simp only [asciiIsSpace, Bool.or_eq_false_iff, decide_eq_false_iff_not, Bool.and_eq_false_iff]
    omega
  obtain ⟨b, bs, rfl⟩ := List.exists_cons_of_ne_nil h
  have h₀ := @hexDigitChar_range (b.toNat / 16) (by have := toNat_lt_byte b; omega)
  have h₁ := @hexDigitChar_range (b.toNat % 16) (Nat.mod_lt _ (by decide))
  rw [safeParseSignAndBase16, stripAsciiWhitespace_eq_self hspace, bytesToHexString_cons]
  have hsign : ¬((hexDigitChar (b.toNat / 16)).toNat = 45 ∨
      (hexDigitChar (b.toNat / 16)).toNat = 43) := by omega
  have hprefix : ¬((hexDigitChar (b.toNat / 16)).toNat = 48 ∧
      ((hexDigitChar (b.toNat % 16)).toNat = 120 ∨ (hexDigitChar (b.toNat % 16)).toNat = 88)) := by
    omega
  simp only [if_neg hsign, if_neg hprefix, Option.some.injEq, Prod.mk.injEq, true_and,
    decide_eq_false_iff_not]
  omega

/-- The hex text of one to eight bytes parses back as the number they spell
in network order. -/
theorem simpleHexAtoi_bytesToHexString {bs : List UInt8} (h : bs ≠ []) (hlen : bs.length ≤ 8) :
    simpleHexAtoi (bytesToHexString bs) = some (UInt64.ofNat (ofBeBytes bs)) := by
  have hval : hexFold (0 : UInt64).toNat (bytesToHexString bs) = ofBeBytes bs :=
    hexFold_bytesToHexString 0 bs
  have hfit : ofBeBytes bs < 2 ^ 64 :=
    Nat.lt_of_lt_of_le (ofBeBytes_lt bs) (by
      rw [show (2 : Nat) ^ 64 = 256 ^ 8 by decide]
      exact Nat.pow_le_pow_right (by decide) hlen)
  rw [simpleHexAtoi, safeParseSignAndBase16_bytesToHexString h]
  simp only
  rw [safeParsePositiveInt_eq _ _ _ (by rwa [hval]), hval]
  intro c hc
  obtain ⟨d, hd, rfl⟩ := mem_bytesToHexString hc
  rw [asciiToInt_hexDigitChar hd]
  exact hd

end Ppn
