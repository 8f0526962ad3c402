import Ppn.PublicMetadata.Bytes

/-!
# The sortable key codec of `serialize.cc`

`BytesFromUint64` runs its argument through `htobe64` and copies the eight
bytes the result occupies in host memory into the key; `BytesToUint64` copies
eight bytes into a `uint64_t` and runs it through `htobe64` again. What the
key holds therefore depends on two platform facts the file selects with the
preprocessor: the host's byte order, which decides what `memcpy` sees, and
`htobe64`, which is a byte swap on a little-endian host and the identity on a
big-endian one. The model takes the byte order as a parameter and both
functions are stated on either host.

Everything rests on `bytesFromUint64_eq` and `bytesToUint64_eq`: on both
hosts the key is the network-order spelling of the integer and back. The
round trips, the bijection, and the order promise of the comment on
`BytesFromUint64` are then the facts of `Bytes.lean` about `beBytes`.
-/

namespace Ppn

/-- The byte order of the host `serialize.cc` is built for. -/
inductive Endian where
  | little
  | big
  deriving DecidableEq, Repr

/-- The eight bytes a `uint64_t` occupies in host memory, lowest address first:
what `memcpy(dst, &v, sizeof(v))` copies out. -/
def hostBytes : Endian → UInt64 → List UInt8
  | .little, v => (beBytes 8 v.toNat).reverse
  | .big, v => beBytes 8 v.toNat

/-- The `uint64_t` whose host memory holds the eight bytes `bs`: what
`memcpy(&v, src, sizeof(v))` copies in. -/
def ofHostBytes : Endian → List UInt8 → UInt64
  | .little, bs => UInt64.ofNat (ofBeBytes bs.reverse)
  | .big, bs => UInt64.ofNat (ofBeBytes bs)

/-- A 64-bit byte swap: the eight bytes of `v` in the opposite order. -/
def bswap64 (v : UInt64) : UInt64 :=
  UInt64.ofNat (ofBeBytes (beBytes 8 v.toNat).reverse)

/-- `htobe64`, as the preprocessor block selects it: `htonll`,
`OSSwapHostToBigInt64` or `<endian.h>`, all of them a byte swap on a
little-endian host and the identity on a big-endian one. -/
def htobe64 : Endian → UInt64 → UInt64
  | .little, v => bswap64 v
  | .big, v => v

/-- `BytesFromUint64(fp, key)`: the key after `resize(8)` and the `memcpy` of
`htobe64(fp)`. -/
def bytesFromUint64 (e : Endian) (fp : UInt64) : List UInt8 :=
  hostBytes e (htobe64 e fp)

/-- `Uint64ToBytes(fp)`: a fresh key filled by `BytesFromUint64`. -/
def uint64ToBytes (e : Endian) (fp : UInt64) : List UInt8 :=
  bytesFromUint64 e fp

/-- `BytesToUint64(key)`. `DCHECK_EQ(key.size(), sizeof(value))` is the
function's precondition; a key of another size is `none`. -/
def bytesToUint64 (e : Endian) (key : List UInt8) : Option UInt64 :=
  if key.length = 8 then some (htobe64 e (ofHostBytes e key)) else none

/-! ## What the two functions compute -/

theorem ofBeBytes_lt_size {bs : List UInt8} (h : bs.length = 8) :
    ofBeBytes bs < UInt64.size := by
  have := ofBeBytes_lt bs
  rwa [h] at this

theorem toNat_ofNat_ofBeBytes {bs : List UInt8} (h : bs.length = 8) :
    (UInt64.ofNat (ofBeBytes bs)).toNat = ofBeBytes bs :=
  UInt64.toNat_ofNat_of_lt (ofBeBytes_lt_size h)

theorem ofNat_ofBeBytes_beBytes (x : UInt64) :
    UInt64.ofNat (ofBeBytes (beBytes 8 x.toNat)) = x := by
  apply UInt64.toNat.inj
  rw [toNat_ofNat_ofBeBytes (length_beBytes 8 _), ofBeBytes_beBytes,
    Nat.mod_eq_of_lt (toNat_lt_word x)]

theorem bswap64_bswap64 (v : UInt64) : bswap64 (bswap64 v) = v := by
  have hlen : (beBytes 8 v.toNat).reverse.length = 8 := by simp
  rw [bswap64, bswap64, toNat_ofNat_ofBeBytes hlen, beBytes_ofBeBytes_of_length hlen,
    List.reverse_reverse, ofNat_ofBeBytes_beBytes]

/-- `BytesToUint64` undoes the host-to-network conversion with `htobe64`
itself, not `be64toh`: on both hosts the conversion is its own inverse. -/
theorem htobe64_htobe64 (e : Endian) (v : UInt64) : htobe64 e (htobe64 e v) = v := by
  cases e with
  | little => exact bswap64_bswap64 v
  | big => rfl

/-- On either host the key is the integer's eight bytes in network order. -/
theorem bytesFromUint64_eq (e : Endian) (fp : UInt64) :
    bytesFromUint64 e fp = beBytes 8 fp.toNat := by
  cases e with
  | big => rfl
  | little =>
    have hlen : (beBytes 8 fp.toNat).reverse.length = 8 := by simp
    simp only [bytesFromUint64, hostBytes, htobe64, bswap64, toNat_ofNat_ofBeBytes hlen,
      beBytes_ofBeBytes_of_length hlen, List.reverse_reverse]

/-- On either host an eight-byte key reads back as the number it spells in
network order. -/
theorem bytesToUint64_eq (e : Endian) {key : List UInt8} (h : key.length = 8) :
    bytesToUint64 e key = some (UInt64.ofNat (ofBeBytes key)) := by
  rw [bytesToUint64, if_pos h]
  cases e with
  | big => rfl
  | little =>
    have hrev : key.reverse.length = 8 := by simpa using h
    simp only [htobe64, bswap64, ofHostBytes, toNat_ofNat_ofBeBytes hrev,
      beBytes_ofBeBytes_of_length hrev, List.reverse_reverse]

theorem bytesToUint64_eq_none (e : Endian) {key : List UInt8} (h : key.length ≠ 8) :
    bytesToUint64 e key = none := if_neg h

@[simp] theorem length_uint64ToBytes (e : Endian) (x : UInt64) :
    (uint64ToBytes e x).length = 8 := by
  rw [uint64ToBytes, bytesFromUint64_eq, length_beBytes]

theorem bytesToUint64_uint64ToBytes (e : Endian) (x : UInt64) :
    bytesToUint64 e (uint64ToBytes e x) = some x := by
  rw [bytesToUint64_eq e (length_uint64ToBytes e x), uint64ToBytes, bytesFromUint64_eq,
    ofNat_ofBeBytes_beBytes]

theorem uint64ToBytes_ofNat_ofBeBytes (e : Endian) {s : List UInt8} (h : s.length = 8) :
    uint64ToBytes e (UInt64.ofNat (ofBeBytes s)) = s := by
  rw [uint64ToBytes, bytesFromUint64_eq, toNat_ofNat_ofBeBytes h, beBytes_ofBeBytes_of_length h]

/-! ## The codec is a bijection -/

/-- `Uint64ToBytes` produces eight bytes and `BytesToUint64` undoes it; every
eight-byte string is the key of the integer `BytesToUint64` reads from it.
Both on a little-endian and on a big-endian host. -/
theorem uint64ToBytes_bijection (e : Endian) :
    (∀ x : UInt64, (uint64ToBytes e x).length = 8 ∧
      bytesToUint64 e (uint64ToBytes e x) = some x) ∧
    (∀ s : List UInt8, s.length = 8 →
      ∃ x, bytesToUint64 e s = some x ∧ uint64ToBytes e x = s) :=
  ⟨fun x => ⟨length_uint64ToBytes e x, bytesToUint64_uint64ToBytes e x⟩,
    fun _ h => ⟨_, bytesToUint64_eq e h, uint64ToBytes_ofNat_ofBeBytes e h⟩⟩

theorem uint64ToBytes_bijection_sample :
    ∃ x, bytesToUint64 .little [0, 0, 0, 0, 0, 0, 1, 2] = some x ∧
      uint64ToBytes .little x = [0, 0, 0, 0, 0, 0, 1, 2] :=
  (uint64ToBytes_bijection .little).2 _ rfl

/-- Keys are portable between hosts: a little-endian and a big-endian build
write the same key for every integer and read every string as the same
integer. -/
theorem uint64ToBytes_host_independent (x : UInt64) (key : List UInt8) :
    uint64ToBytes .little x = uint64ToBytes .big x ∧
      bytesToUint64 .little key = bytesToUint64 .big key := by
  refine ⟨by rw [uint64ToBytes, uint64ToBytes, bytesFromUint64_eq, bytesFromUint64_eq], ?_⟩
  by_cases h : key.length = 8
  · rw [bytesToUint64_eq _ h, bytesToUint64_eq _ h]
  · rw [bytesToUint64_eq_none _ h, bytesToUint64_eq_none _ h]

/-! ## Keys sort as the integers do -/

/-- The sign of `std::string::compare` on two keys is the sign of comparing
the integers, so `operator<` on keys is `<` on the integers, on either host. -/
theorem uint64ToBytes_compare (e : Endian) (x y : UInt64) :
    stringCompare (uint64ToBytes e x) (uint64ToBytes e y) = compare x.toNat y.toNat ∧
      (x < y ↔ stringLess (uint64ToBytes e x) (uint64ToBytes e y)) := by
  have hcmp : stringCompare (uint64ToBytes e x) (uint64ToBytes e y) = compare x.toNat y.toNat := by
    rw [uint64ToBytes, uint64ToBytes, bytesFromUint64_eq, bytesFromUint64_eq]
    exact stringCompare_beBytes (toNat_lt_word x) (toNat_lt_word y)
  exact ⟨hcmp, by rw [stringLess, hcmp, Nat.compare_eq_lt, lt_iff_toNat_lt]⟩

end Ppn
