import Ppn.PublicMetadata.Serialize
import Ppn.PublicMetadata.Absl
import Mathlib.Algebra.BigOperators.Ring
import Mathlib.Data.List.GetD

/-!
# `FingerprintPublicMetadata`

The fingerprint of a `PublicMetadata` is SHA-256 of the fields concatenated
in tag order, with defaults omitted, cut down to 64 bits. The cut is made
through text: the 64-byte digest buffer is written out in hex, the first
sixteen hex digits are taken, and `SimpleHexAtoi` reads them back. Two things
are proved about it.

The detour through text is exact. For every digest, whatever its bytes, the
parse succeeds — no overflow check fires even on eight `0xff` bytes — and the
fingerprint is the first eight digest bytes read in network order, the very
number `BytesToUint64` reads from them (`fingerprintPublicMetadata_first_eight`).
The hash function is a parameter: nothing here depends on which bytes it
returns, only on their number.

The input is not an injective encoding of the metadata. With no separator
between the fields, moving a boundary keeps the bytes: a seconds value of 12
with 3 nanos reads as 1 second with 23 nanos. That is the only way two
metadata values meet: when every field keeps its width, equal inputs mean
equal fields (`fingerprintInput_ne_of_same_widths`).
-/

namespace Ppn

/-- `EVP_MAX_MD_SIZE`: the size the `digest` buffer is resized to. -/
def evpMaxMdSize : Nat := 64

/-- The `exit_location` message, with the two fields the fingerprint reads. -/
structure Location where
  country : List UInt8
  cityGeoId : List UInt8
  deriving DecidableEq, Repr

/-- `google.protobuf.Timestamp`: an `int64` and an `int32`. -/
structure Timestamp where
  seconds : Int
  nanos : Int
  seconds_range : -2 ^ 63 ≤ seconds ∧ seconds < 2 ^ 63
  nanos_range : -2 ^ 31 ≤ nanos ∧ nanos < 2 ^ 31
  deriving DecidableEq, Repr

/-- `PublicMetadata`, with the fields the fingerprint reads. An unset message
field reads as its default instance, as the generated accessors return it. -/
structure PublicMetadata where
  exitLocation : Location
  serviceType : List UInt8
  expiration : Timestamp
  deriving DecidableEq, Repr

/-- `OmitDefault(value)`: nothing for `0`, else `StrCat(value)`. -/
def omitDefault (value : Int) : List UInt8 :=
  if value = 0 then [] else strCatInt value

/-- The `StrCat` that `FingerprintPublicMetadata` hashes. -/
def fingerprintInput (metadata : PublicMetadata) : List UInt8 :=
  metadata.exitLocation.country ++ metadata.exitLocation.cityGeoId ++ metadata.serviceType ++
    omitDefault metadata.expiration.seconds ++ omitDefault metadata.expiration.nanos

/-- The `digest` buffer after `EVP_Digest` wrote `written` from `&digest[0]`:
`EVP_MAX_MD_SIZE` zero bytes, overwritten from the start. -/
def digestBuffer (written : List UInt8) : List UInt8 :=
  written ++ (List.replicate evpMaxMdSize 0).drop written.length

/-- `FingerprintPublicMetadata`. `evpDigest` is `EVP_Digest` with the SHA-256
hasher: `none` for a return other than 1, else the bytes it writes. An error
is the message of the `InternalError` returned. -/
def fingerprintPublicMetadata (evpDigest : List UInt8 → Option (List UInt8))
    (metadata : PublicMetadata) : Except String UInt64 :=
  match evpDigest (fingerprintInput metadata) with
  | none => .error "EVP_Digest failed"
  | some written =>
    match simpleHexAtoi ((bytesToHexString (digestBuffer written)).take 16) with
    | none => .error "SimpleHexAtoi failed"
    | some fingerprint => .ok fingerprint

/-! ## The fingerprint is the digest's first eight bytes -/

theorem length_take_digestBuffer (written : List UInt8) :
    ((digestBuffer written).take 8).length = 8 := by
  rw [List.length_take, digestBuffer, List.length_append, List.length_drop, List.length_replicate,
    evpMaxMdSize]
  omega

theorem take_digestBuffer {written : List UInt8} (h : 8 ≤ written.length) :
    (digestBuffer written).take 8 = written.take 8 :=
  List.take_append_of_le_length h

/-- Whatever `EVP_Digest` writes, the hex detour succeeds: the fingerprint is
the first eight bytes of the buffer, read in network order. -/
theorem fingerprintPublicMetadata_eq_ok {evpDigest : List UInt8 → Option (List UInt8)}
    {metadata : PublicMetadata} {written : List UInt8}
    (hevp : evpDigest (fingerprintInput metadata) = some written) :
    fingerprintPublicMetadata evpDigest metadata =
      .ok (UInt64.ofNat (ofBeBytes ((digestBuffer written).take 8))) := by
  have hlen := length_take_digestBuffer written
  have hparse : simpleHexAtoi ((bytesToHexString (digestBuffer written)).take 16) =
      some (UInt64.ofNat (ofBeBytes ((digestBuffer written).take 8))) := by
    rw [show 16 = 2 * 8 from rfl, take_bytesToHexString]
    exact simpleHexAtoi_bytesToHexString (List.ne_nil_of_length_pos (by omega)) hlen.le
  simp only [fingerprintPublicMetadata, hevp, hparse]

/-- The only error `FingerprintPublicMetadata` returns is a failed
`EVP_Digest`: the `SimpleHexAtoi failed` branch is dead. -/
theorem fingerprintPublicMetadata_error {evpDigest : List UInt8 → Option (List UInt8)}
    {metadata : PublicMetadata} {message : String}
    (h : fingerprintPublicMetadata evpDigest metadata = .error message) :
    evpDigest (fingerprintInput metadata) = none ∧ message = "EVP_Digest failed" := by
  cases hevp : evpDigest (fingerprintInput metadata) with
  | none =>
    simp only [fingerprintPublicMetadata, hevp, Except.error.injEq] at h
    exact ⟨rfl, h.symm⟩
  | some written => simp [fingerprintPublicMetadata_eq_ok hevp] at h

theorem fingerprintPublicMetadata_error_failed_digest :
    fingerprintPublicMetadata (fun _ => none) ⟨⟨[85, 83], []⟩, [], ⟨900, 0, by decide, by decide⟩⟩ =
        .error "EVP_Digest failed" ∧
      (none : Option (List UInt8)) = none ∧ "EVP_Digest failed" = "EVP_Digest failed" :=
  ⟨rfl, @fingerprintPublicMetadata_error (fun _ => none)
    ⟨⟨[85, 83], []⟩, [], ⟨900, 0, by decide, by decide⟩⟩ "EVP_Digest failed" rfl⟩

/-- The number a byte string spells, as the sum of its bytes' positional
values. -/
theorem ofBeBytes_eq_sum (bs : List UInt8) :
    ofBeBytes bs = ∑ i in Finset.range bs.length, (bs.getD i 0).toNat * 256 ^ (bs.length - 1 - i) := by
  induction bs using List.reverseRecOn with
  | nil => rfl
  | append_singleton bs b ih =>
    rw [ofBeBytes_snoc, ih, List.length_append, List.length_singleton, Finset.sum_range_succ,
      Finset.sum_mul, List.getD_append_right _ _ _ _ (Nat.le_refl _), Nat.sub_self,
      List.getD_cons_zero, Nat.add_sub_cancel, Nat.sub_self, Nat.pow_zero, Nat.mul_one]
    congr 1
    refine Finset.sum_congr rfl fun i hi => ?_
    rw [Finset.mem_range] at hi
    rw [List.getD_append _ _ _ _ hi, Nat.mul_assoc, ← Nat.pow_succ]
    congr 3
    omega

theorem ofBeBytes_take_eight {d : List UInt8} (h : 8 ≤ d.length) :
    ofBeBytes (d.take 8) = ∑ i in Finset.range 8, (d.getD i 0).toNat * 256 ^ (7 - i) := by
  rw [ofBeBytes_eq_sum, List.length_take, Nat.min_eq_left h]
  refine Finset.sum_congr rfl fun i hi => ?_
  rw [List.getD_eq_getElem?_getD, List.getD_eq_getElem?_getD,
    List.getElem?_take_of_lt (Finset.mem_range.mp hi)]

/-- Whatever `EVP_Digest` writes, as long as it is at least eight bytes (a
SHA-256 digest is 32), the fingerprint is returned and is the first eight
bytes in network order, with no overflow: the number `BytesToUint64` reads
from them on either host. -/
theorem fingerprintPublicMetadata_first_eight
    {evpDigest : List UInt8 → Option (List UInt8)} {metadata : PublicMetadata}
    {d : List UInt8} (hevp : evpDigest (fingerprintInput metadata) = some d) (hlen : 8 ≤ d.length) :
    ∃ fingerprint, fingerprintPublicMetadata evpDigest metadata = .ok fingerprint ∧
      fingerprint.toNat = ∑ i in Finset.range 8, (d.getD i 0).toNat * 256 ^ (7 - i) ∧
      ∀ e : Endian, bytesToUint64 e (d.take 8) = some fingerprint := by
  have hlen8 : (d.take 8).length = 8 := by simp [hlen]
  refine ⟨_, fingerprintPublicMetadata_eq_ok hevp, ?_, fun e => ?_⟩
  · rw [take_digestBuffer hlen, toNat_ofNat_ofBeBytes hlen8, ofBeBytes_take_eight hlen]
  · rw [take_digestBuffer hlen, bytesToUint64_eq e hlen8]

theorem fingerprintPublicMetadata_all_ones :
    ∃ fingerprint, fingerprintPublicMetadata (fun _ => some (List.replicate 32 0xff))
        ⟨⟨[85, 83], []⟩, [], ⟨900, 0, by decide, by decide⟩⟩ = .ok fingerprint ∧
      fingerprint.toNat = ∑ i in Finset.range 8,
        ((List.replicate 32 (0xff : UInt8)).getD i 0).toNat * 256 ^ (7 - i) ∧
      ∀ e : Endian, bytesToUint64 e ((List.replicate 32 (0xff : UInt8)).take 8) = some fingerprint :=
  fingerprintPublicMetadata_first_eight rfl (by decide)

/-! ## Which metadata values share an input -/

/-- The five fields the fingerprint reads. -/
def fingerprintFields (metadata : PublicMetadata) :
    List UInt8 × List UInt8 × List UInt8 × Int × Int :=
  (metadata.exitLocation.country, metadata.exitLocation.cityGeoId, metadata.serviceType,
    metadata.expiration.seconds, metadata.expiration.nanos)

theorem omitDefault_injective {a b : Int} (h : omitDefault a = omitDefault b) : a = b := by
  unfold omitDefault at h
  split_ifs at h with ha hb hb
  · omega
  · exact absurd h.symm (strCatInt_ne_nil hb)
  · exact absurd h (strCatInt_ne_nil ha)
  · exact strCatInt_injective h

/-- Moving a field boundary keeps the bytes: seconds 12 with nanos 3 hash the
same input as seconds 1 with nanos 23. -/
theorem fingerprintInput_shifted_boundary :
    fingerprintFields ⟨⟨[85, 83], []⟩, [], ⟨12, 3, by decide, by decide⟩⟩ ≠
        fingerprintFields ⟨⟨[85, 83], []⟩, [], ⟨1, 23, by decide, by decide⟩⟩ ∧
      fingerprintInput ⟨⟨[85, 83], []⟩, [], ⟨12, 3, by decide, by decide⟩⟩ =
        fingerprintInput ⟨⟨[85, 83], []⟩, [], ⟨1, 23, by decide, by decide⟩⟩ := by
  decide

/-- Metadata values that differ in a fingerprinted field hash different inputs
whenever no boundary moves: the three strings and the rendering of `seconds`
have the same widths in both (the width of `nanos` then follows). -/
theorem fingerprintInput_ne_of_same_widths {m₁ m₂ : PublicMetadata}
    (hfields : fingerprintFields m₁ ≠ fingerprintFields m₂)
    (hcountry : m₁.exitLocation.country.length = m₂.exitLocation.country.length)
    (hcity : m₁.exitLocation.cityGeoId.length = m₂.exitLocation.cityGeoId.length)
    (hservice : m₁.serviceType.length = m₂.serviceType.length)
    (hseconds : (omitDefault m₁.expiration.seconds).length =
      (omitDefault m₂.expiration.seconds).length) :
    fingerprintInput m₁ ≠ fingerprintInput m₂ := by
  intro h
  obtain ⟨h, hnanos⟩ := List.append_inj h (by simp; omega)
  obtain ⟨h, hsec⟩ := List.append_inj h (by simp; omega)
  obtain ⟨h, hserv⟩ := List.append_inj h (by simp; omega)
  obtain ⟨hctry, hcty⟩ := List.append_inj h hcountry
  exact hfields (by
    simp only [fingerprintFields, hctry, hcty, hserv, omitDefault_injective hsec,
      omitDefault_injective hnanos])

theorem fingerprintInput_ne_other_country :
    fingerprintFields ⟨⟨[85, 83], []⟩, [], ⟨900, 0, by decide, by decide⟩⟩ ≠
        fingerprintFields ⟨⟨[67, 65], []⟩, [], ⟨900, 0, by decide, by decide⟩⟩ ∧
      fingerprintInput ⟨⟨[85, 83], []⟩, [], ⟨900, 0, by decide, by decide⟩⟩ ≠
        fingerprintInput ⟨⟨[67, 65], []⟩, [], ⟨900, 0, by decide, by decide⟩⟩ :=
  ⟨by decide, fingerprintInput_ne_of_same_widths (by decide) rfl rfl rfl rfl⟩

end Ppn
