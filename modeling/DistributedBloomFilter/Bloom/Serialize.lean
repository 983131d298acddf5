import DistributedBloomFilter.Bloom.Counting
import DistributedBloomFilter.Lib.BigEndian
import DistributedBloomFilter.Lib.Crc32

/-!
# The serialized form of a filter

`Serialize` and `Deserialize` of `pkg/bloom/counting.go`: four bytes `m`, four bytes `k`, the counters, and the CRC-32
of all that.  The checksum is a parameter `crc32`; nothing here depends on which function it is.  The two are inverse
to each other: every filter within the bounds is read back, and every string that is accepted is the one `Serialize`
writes.
-/

namespace DistributedBloomFilter

open BigEndian (putUint32 uint32)

def MaxFilterSize : Nat := 100 * 1024 * 1024

def MaxHashFunctions : Nat := 20

def ErrChecksumMismatch : String := "checksum mismatch: data may be corrupted"

def ErrInvalidData : String := "invalid bloom filter data"

variable (crc32 : Bytes → UInt32)

namespace CountingBloomFilter

/-- The header and the counters; the conversions of `m` and `k` to `uint32` wrap. -/
def payload (f : CountingBloomFilter) : Bytes :=
  putUint32 (UInt32.ofNat f.m) ++ putUint32 (UInt32.ofNat f.k) ++ f.counters

def serialize (f : CountingBloomFilter) : Bytes := f.payload ++ putUint32 (crc32 f.payload)

end CountingBloomFilter

/-- `Deserialize`, with its checks in the order of the source. -/
def deserialize (data : Bytes) : Except String CountingBloomFilter :=
  if data.length < 12 then .error ErrInvalidData
  else
    let m := (uint32 data).toNat
    let k := (uint32 (data.drop 4)).toNat
    if m > MaxFilterSize then .error ErrInvalidData
    else if k < 1 ∨ k > MaxHashFunctions then .error ErrInvalidData
    else if h : data.length = 8 + m + 4 then
      if uint32 (data.drop (8 + m)) ≠ crc32 (data.take (8 + m)) then .error ErrChecksumMismatch
      else .ok
        { m := m
          k := k
          counters := (data.drop 8).take m
          length_counters := by simp only [List.length_take, List.length_drop]; omega }
    else .error ErrInvalidData

namespace CountingBloomFilter

variable {crc32} (f : CountingBloomFilter)

theorem length_payload : f.payload.length = 8 + f.m := by
  simp only [payload, List.length_append, BigEndian.length_putUint32, f.length_counters]

theorem length_serialize : (f.serialize crc32).length = 8 + f.m + 4 := by
  simp [serialize, length_payload]

private theorem uint32_serialize : uint32 (f.serialize crc32) = UInt32.ofNat f.m := by
  simp only [serialize, payload, List.append_assoc]
  exact BigEndian.uint32_putUint32 ..

private theorem uint32_drop_four_serialize : uint32 ((f.serialize crc32).drop 4) = UInt32.ofNat f.k := by
  simp only [serialize, payload, List.append_assoc]
  exact BigEndian.uint32_putUint32 ..

/-- `Deserialize` reads back what `Serialize` wrote, for every shape its bounds admit. -/
theorem deserialize_serialize (hm : f.m ≤ MaxFilterSize) (hk : 1 ≤ f.k) (hk' : f.k ≤ MaxHashFunctions) :
    deserialize crc32 (f.serialize crc32) = .ok f := by
  have em : (uint32 (f.serialize crc32)).toNat = f.m := by
    rw [uint32_serialize, UInt32.toNat_ofNat']
    exact Nat.mod_eq_of_lt (by unfold MaxFilterSize at hm; omega)
  have ek : (uint32 ((f.serialize crc32).drop 4)).toNat = f.k := by
    rw [uint32_drop_four_serialize, UInt32.toNat_ofNat']
    exact Nat.mod_eq_of_lt (by unfold MaxHashFunctions at hk'; omega)
  have hlen : (f.serialize crc32).length = 8 + f.m + 4 := f.length_serialize
  have htake : (f.serialize crc32).take (8 + f.m) = f.payload := List.take_left' f.length_payload
  have hsum : uint32 ((f.serialize crc32).drop (8 + f.m)) = crc32 f.payload := by
    have hdrop : (f.serialize crc32).drop (8 + f.m) = putUint32 (crc32 f.payload) :=
      List.drop_left' f.length_payload
    rw [hdrop, ← List.append_nil (putUint32 _)]
    exact BigEndian.uint32_putUint32 ..
  have hcounters : ((f.serialize crc32).drop 8).take f.m = f.counters := by
    have hdrop : (f.serialize crc32).drop 8 = f.counters ++ putUint32 (crc32 f.payload) := by
      simp only [serialize, payload, List.append_assoc]
      rfl
    rw [hdrop]
    exact List.take_left' f.length_counters
  unfold deserialize
  rw [if_neg (by omega)]
  simp only [em, ek]
  rw [if_neg (by omega), if_neg (by omega), dif_pos hlen, if_neg (by rw [hsum, htake]; simp)]
  simp only [hcounters]

/-- Everything `Deserialize` has seen of a string it accepts. -/
private theorem deserialize_ok {data : Bytes} {f : CountingBloomFilter} (h : deserialize crc32 data = .ok f) :
    data.length = 8 + f.m + 4 ∧ f.m = (uint32 data).toNat ∧ f.k = (uint32 (data.drop 4)).toNat ∧
      f.counters = (data.drop 8).take f.m ∧ uint32 (data.drop (8 + f.m)) = crc32 (data.take (8 + f.m)) ∧
      f.m ≤ MaxFilterSize ∧ 1 ≤ f.k ∧ f.k ≤ MaxHashFunctions := by
  unfold deserialize at h
  dsimp only at h
  split_ifs at h with hshort hm hk hlen hsum
  obtain rfl := Except.ok.inj h
  obtain ⟨hk, hk'⟩ := not_or.1 hk
  exact ⟨hlen, rfl, rfl, rfl, not_not.1 hsum, Nat.not_lt.1 hm, Nat.not_lt.1 hk, Nat.not_lt.1 hk'⟩

/-- A filter that was loaded is within the limits of `Deserialize`. -/
theorem bounds_of_deserialize {data : Bytes} {f : CountingBloomFilter} (h : deserialize crc32 data = .ok f) :
    f.m ≤ MaxFilterSize ∧ 1 ≤ f.k ∧ f.k ≤ MaxHashFunctions :=
  (deserialize_ok h).2.2.2.2.2

theorem m_of_deserialize {data : Bytes} {f : CountingBloomFilter} (h : deserialize crc32 data = .ok f) :
    f.m = (uint32 data).toNat :=
  (deserialize_ok h).2.1

/-- A string that `Deserialize` accepts is what `Serialize` writes of the filter. -/
theorem serialize_of_deserialize {data : Bytes} {f : CountingBloomFilter} (h : deserialize crc32 data = .ok f) :
    f.serialize crc32 = data := by
  obtain ⟨hlen, hm, hk, hcounters, hsum, _⟩ := deserialize_ok h
  have hpayload : f.payload = data.take (8 + f.m) := by
    rw [payload, hcounters, hk, UInt32.ofNat_toNat, hm, UInt32.ofNat_toNat, ← hm,
      BigEndian.putUint32_uint32 (by omega), BigEndian.putUint32_uint32 (by rw [List.length_drop]; omega),
      ← List.take_add, ← List.take_add]
  -- the checksum is the last four bytes
  have hfour : (data.drop (8 + f.m)).length = 4 := by rw [List.length_drop]; omega
  have hcrc : putUint32 (uint32 (data.drop (8 + f.m))) = data.drop (8 + f.m) := by
    rw [BigEndian.putUint32_uint32 (Nat.le_of_eq hfour.symm), List.take_of_length_le (Nat.le_of_eq hfour)]
  rw [serialize, hpayload, ← hsum, hcrc, List.take_append_drop]

variable (crc32) in
/-- `Serialize` and `Deserialize` are inverse to each other, and so no filter has two serialized forms. -/
theorem serialize_deserialize_inverse :
    (∀ f : CountingBloomFilter, f.m ≤ MaxFilterSize → 1 ≤ f.k → f.k ≤ MaxHashFunctions →
      deserialize crc32 (f.serialize crc32) = .ok f) ∧
    (∀ (data : Bytes) (f : CountingBloomFilter), deserialize crc32 data = .ok f → f.serialize crc32 = data) ∧
    (∀ (data data' : Bytes) (f : CountingBloomFilter),
      deserialize crc32 data = .ok f → deserialize crc32 data' = .ok f → data = data') := by
  refine ⟨fun f hm hk hk' => f.deserialize_serialize hm hk hk', fun data f h => serialize_of_deserialize h, ?_⟩
  intro data data' f h h'
  rw [← serialize_of_deserialize h, serialize_of_deserialize h']

/-- Two counters of which the first one is not zero are read back, written again, and written by no other string. -/
theorem serialize_deserialize_inverse_two :
    let f : CountingBloomFilter := { m := 2, k := 1, counters := [1, 0], length_counters := rfl }
    let data : Bytes := [0, 0, 0, 2, 0, 0, 0, 1, 1, 0, 0x6C, 0xCC, 0x22, 0x29]
    deserialize Crc32.checksum (f.serialize Crc32.checksum) = .ok f ∧ f.serialize Crc32.checksum = data ∧
      ∀ data', deserialize Crc32.checksum data' = .ok f → data' = data := by
  intro f data
  have hdata : deserialize Crc32.checksum data = .ok f := by decide +kernel
  obtain ⟨hread, hwrite, hunique⟩ := serialize_deserialize_inverse Crc32.checksum
  exact ⟨hread f (by decide) (by decide) (by decide), hwrite data f hdata,
    fun data' h => hunique data' data f h hdata⟩

end CountingBloomFilter

/-- A string that is not as long as its first four bytes say is refused. -/
theorem deserialize_of_length_ne {data : Bytes} (h : data.length ≠ 8 + (uint32 data).toNat + 4) :
    deserialize crc32 data = .error ErrInvalidData := by
  unfold deserialize
  dsimp only
  rw [dif_neg h]
  split_ifs
  all_goals rfl

/-- A string whose first byte is more than 6 announces more than `MaxFilterSize` counters. -/
theorem deserialize_first_byte {b : UInt8} (hb : 6 < b.toNat) (rest : Bytes) :
    deserialize crc32 (b :: rest) = .error ErrInvalidData := by
  unfold deserialize
  split
  · rfl
  · rename_i hlen
    rcases rest with _ | ⟨c, _ | ⟨d, _ | ⟨e, rest⟩⟩⟩
    iterate 3 · simp at hlen
    rw [if_pos]
    rw [BigEndian.toNat_uint32_cons, MaxFilterSize]
    omega

end DistributedBloomFilter
