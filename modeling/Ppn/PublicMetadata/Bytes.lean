import Mathlib.Data.List.Basic
import Mathlib.Algebra.Group.Nat.Basic

/-!
# Network-order bytes and `std::string` comparison

`serialize.cc` turns a `uint64_t` into an eight-byte `std::string` and back,
and promises that the strings sort as the integers do. Both halves of that
promise are facts about two things this file defines once: the `w` bytes of a
natural number in network order, most significant first, and the order
`std::string::compare` puts on byte strings.

`beBytes` recurses from the low end, one byte per step, so every arithmetic
side condition is a division or remainder by the literal 256 and `omega`
closes it. The comparison lemma is proved along the same recursion: equal
prefixes defer to the last byte, and a natural compares to another exactly as
its quotient by 256 does, ties broken by the remainders.
-/

namespace Ppn

/-- The `w` bytes of `n`, most significant first; bits at and above `8 * w` are
dropped. -/
def beBytes : Nat → Nat → List UInt8
  | 0, _ => []
  | w + 1, n => beBytes w (n / 256) ++ [UInt8.ofNat (n % 256)]

/-- The natural number a byte string spells in network order. -/
def ofBeBytes (bs : List UInt8) : Nat :=
  bs.foldl (fun acc b => acc * 256 + b.toNat) 0

/-! ## Machine words through `toNat` -/

theorem toNat_ofNat_byte (k : Nat) : (UInt8.ofNat k).toNat = k % 256 :=
  BitVec.toNat_ofNat ..

theorem toNat_ofNat_word (k : Nat) : (UInt64.ofNat k).toNat = k % 2 ^ 64 :=
  BitVec.toNat_ofNat ..

theorem toNat_lt_byte (b : UInt8) : b.toNat < 256 := b.toNat_lt_size

theorem toNat_lt_word (x : UInt64) : x.toNat < 256 ^ 8 := x.toNat_lt_size

theorem ofNat_toNat_word (x : UInt64) : UInt64.ofNat x.toNat = x :=
  UInt64.toNat.inj (by rw [toNat_ofNat_word]; exact Nat.mod_eq_of_lt (toNat_lt_word x))

theorem toNat_mul_word (a b : UInt64) : (a * b).toNat = a.toNat * b.toNat % 2 ^ 64 :=
  BitVec.toNat_mul ..

theorem toNat_add_word (a b : UInt64) : (a + b).toNat = (a.toNat + b.toNat) % 2 ^ 64 :=
  BitVec.toNat_add ..

theorem lt_iff_toNat_lt {x y : UInt64} : x < y ↔ x.toNat < y.toNat :=
  UInt64.lt_def.trans BitVec.lt_def

/-! ## Network order -/

@[simp] theorem beBytes_zero (n : Nat) : beBytes 0 n = [] := rfl

@[simp] theorem ofBeBytes_nil : ofBeBytes [] = 0 := rfl

@[simp] theorem ofBeBytes_snoc (bs : List UInt8) (b : UInt8) :
    ofBeBytes (bs ++ [b]) = ofBeBytes bs * 256 + b.toNat := by
  simp [ofBeBytes]

@[simp] theorem length_beBytes (w n : Nat) : (beBytes w n).length = w := by
  induction w generalizing n with
  | zero => rfl
  | succ w ih => simp [beBytes, ih]

theorem ofBeBytes_beBytes (w n : Nat) : ofBeBytes (beBytes w n) = n % 256 ^ w := by
  induction w generalizing n with
  | zero => simp [Nat.mod_one]
  | succ w ih =>
    rw [beBytes, ofBeBytes_snoc, ih, toNat_ofNat_byte, Nat.pow_succ', Nat.mod_mul]
    omega

theorem ofBeBytes_lt (bs : List UInt8) : ofBeBytes bs < 256 ^ bs.length := by
  induction bs using List.reverseRecOn with
  | nil => simp
  | append_singleton bs b ih =>
    have hb := toNat_lt_byte b
    rw [ofBeBytes_snoc, List.length_append, List.length_singleton, Nat.pow_succ]
    omega

theorem beBytes_ofBeBytes (bs : List UInt8) : beBytes bs.length (ofBeBytes bs) = bs := by
  induction bs using List.reverseRecOn with
  | nil => rfl
  | append_singleton bs b ih =>
    have hb := toNat_lt_byte b
    have hdiv : (ofBeBytes bs * 256 + b.toNat) / 256 = ofBeBytes bs := by omega
    have hmod : (ofBeBytes bs * 256 + b.toNat) % 256 = b.toNat := by omega
    rw [List.length_append, List.length_singleton, beBytes, ofBeBytes_snoc, hdiv, hmod, ih]
    exact congrArg (fun b => bs ++ [b]) (UInt8.toNat.inj (toNat_ofNat_byte _ ▸ by omega))

theorem beBytes_ofBeBytes_of_length {bs : List UInt8} {w : Nat} (h : bs.length = w) :
    beBytes w (ofBeBytes bs) = bs :=
  h ▸ beBytes_ofBeBytes bs

/-! ## `std::string::compare`

`char_traits<char>::compare` compares the common prefix reading each `char` as
`unsigned char`; when the prefix ties, the shorter string sorts first. The
result's sign is an `Ordering` here, and `operator<` is the `lt` case. -/

/-- `std::string::compare`, as the sign of its result. -/
def stringCompare : List UInt8 → List UInt8 → Ordering
  | [], [] => .eq
  | [], _ :: _ => .lt
  | _ :: _, [] => .gt
  | a :: as, b :: bs => (compare a.toNat b.toNat).then (stringCompare as bs)

/-- `operator<` on `std::string`. -/
def stringLess (a b : List UInt8) : Prop := stringCompare a b = .lt

instance (a b : List UInt8) : Decidable (stringLess a b) :=
  inferInstanceAs (Decidable (stringCompare a b = .lt))

theorem ordering_then_eq (o : Ordering) : o.then .eq = o := by cases o <;> rfl

theorem ordering_then_assoc (a b c : Ordering) : (a.then b).then c = a.then (b.then c) := by
  cases a <;> rfl

/-- On strings of one length, appending one byte to each defers to that byte
exactly when the prefixes tie. -/
theorem stringCompare_snoc {as bs : List UInt8} (h : as.length = bs.length) (a b : UInt8) :
    stringCompare (as ++ [a]) (bs ++ [b]) = (stringCompare as bs).then (compare a.toNat b.toNat) := by
  induction as generalizing bs with
  | nil =>
    cases bs with
    | nil => exact ordering_then_eq _
    | cons => simp at h
  | cons x as ih =>
    cases bs with
    | nil => simp at h
    | cons y bs =>
      rw [List.cons_append, List.cons_append, stringCompare, stringCompare,
        ih (by simpa using h), ordering_then_assoc]

/-- A natural compares to another as its quotient by 256 does, ties broken by
the remainders. -/
theorem compare_div_mod (m n : Nat) :
    compare m n = (compare (m / 256) (n / 256)).then (compare (m % 256) (n % 256)) := by
  rcases Nat.lt_trichotomy (m / 256) (n / 256) with h | h | h
  · rw [Nat.compare_eq_lt.2 h, Nat.compare_eq_lt.2 (by omega)]; rfl
  · rw [h, Nat.compare_eq_eq.2 rfl, Ordering.then]
    rcases Nat.lt_trichotomy (m % 256) (n % 256) with h' | h' | h'
    · rw [Nat.compare_eq_lt.2 h', Nat.compare_eq_lt.2 (by omega)]
    · rw [Nat.compare_eq_eq.2 h', Nat.compare_eq_eq.2 (by omega)]
    · rw [Nat.compare_eq_gt.2 h', Nat.compare_eq_gt.2 (by omega)]
  · rw [Nat.compare_eq_gt.2 h, Nat.compare_eq_gt.2 (by omega)]; rfl

theorem stringCompare_beBytes {w m n : Nat} (hm : m < 256 ^ w) (hn : n < 256 ^ w) :
    stringCompare (beBytes w m) (beBytes w n) = compare m n := by
  induction w generalizing m n with
  | zero =>
    simp only [Nat.pow_zero, Nat.lt_one_iff] at hm hn
    subst hm hn
    rfl
  | succ w ih =>
    rw [Nat.pow_succ] at hm hn
    rw [beBytes, beBytes, stringCompare_snoc (by simp), toNat_ofNat_byte, toNat_ofNat_byte,
      Nat.mod_mod, Nat.mod_mod, ih (by omega) (by omega), compare_div_mod m n]

end Ppn
