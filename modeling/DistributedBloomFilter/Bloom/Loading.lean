import DistributedBloomFilter.Bloom.Cache

/-!
# Loading a stored filter

Which filters can be stored and loaded again, and which damage to a stored filter `Deserialize` notices.

The constructor takes any `m` and `k`, `Serialize` keeps them modulo `2 ^ 32`, and `Deserialize` has limits of its
own. No operation changes the shape of a filter, so whether it can be loaded is decided when it is created
(`loadsBack_iff`).

`Deserialize` accepts only what `Serialize` writes, so a damaged string it accepts is the stored form of another
filter of the same length.  The two have the same checksum or the same contents, and a CRC-32 does not confuse two
contents that differ inside four consecutive bytes (`deserialize_damaged`).
-/

namespace DistributedBloomFilter

open BigEndian (putUint32)

/-! ### Which filters can be loaded -/

namespace CountingBloomFilter

/-- The filter is read back from its stored form. -/
def LoadsBack (crc32 : Bytes → UInt32) (f : CountingBloomFilter) : Prop :=
  ∃ g, deserialize crc32 (f.serialize crc32) = .ok g ∧ g.m = f.m ∧ g.k = f.k ∧ g.counters = f.counters

variable (sum32 crc32 : Bytes → UInt32)

/-- The filter after some calls of its methods. -/
def callAll (f : CountingBloomFilter) (calls : List FilterCall) : CountingBloomFilter :=
  Run.exec (fun f c => (f.call sum32 crc32 c).1) f calls

theorem shape_call (f : CountingBloomFilter) (c : FilterCall) :
    (f.call sum32 crc32 c).1.m = f.m ∧ (f.call sum32 crc32 c).1.k = f.k := by
  cases c with
  | batchRemove items => exact f.batchRemove_shape sum32 items
  | _ => exact ⟨rfl, rfl⟩

/-- No sequence of calls changes the shape of the filter. -/
theorem shape_callAll (f : CountingBloomFilter) (calls : List FilterCall) :
    (f.callAll sum32 crc32 calls).m = f.m ∧ (f.callAll sum32 crc32 calls).k = f.k := by
  induction calls generalizing f with
  | nil => exact ⟨rfl, rfl⟩
  | cons c calls ih =>
    obtain ⟨hm, hk⟩ := f.shape_call sum32 crc32 c
    obtain ⟨hm', hk'⟩ := ih (f.call sum32 crc32 c).1
    exact ⟨hm'.trans hm, hk'.trans hk⟩

/-- A filter is read back from its stored form when its shape is within the limits of `Deserialize`, and only then. -/
theorem loadsBack_iff_shape {f : CountingBloomFilter} (hk : 1 ≤ f.k) :
    f.LoadsBack crc32 ↔ f.m ≤ MaxFilterSize ∧ f.k ≤ MaxHashFunctions := by
  constructor
  · rintro ⟨g, hg, hm, hk, _⟩
    obtain ⟨hmax, _, hmax'⟩ := bounds_of_deserialize hg
    exact ⟨hm ▸ hmax, hk ▸ hmax'⟩
  · rintro ⟨hm, hk'⟩
    exact ⟨f, f.deserialize_serialize hm hk hk', rfl, rfl, rfl⟩

/-- The filter a server runs, after any calls, is read back from its stored form exactly when the server was started
with an `m` and a `k` within the limits of `Deserialize`. -/
theorem loadsBack_iff {m k : Nat} (hk : 1 ≤ k) (calls : List FilterCall) :
    ((newCountingBloomFilter m k).callAll sum32 crc32 calls).LoadsBack crc32 ↔
      m ≤ MaxFilterSize ∧ k ≤ MaxHashFunctions := by
  obtain ⟨em, ek⟩ := (newCountingBloomFilter m k).shape_callAll sum32 crc32 calls
  rw [loadsBack_iff_shape crc32 (by rw [ek]; exact hk), em, ek]
  exact Iff.rfl

theorem loadsBack_two_counters :
    ((newCountingBloomFilter 2 1).callAll Murmur3.sum32 Crc32.checksum [.add 0 [97], .remove [97]]).LoadsBack
      Crc32.checksum ↔ 2 ≤ MaxFilterSize ∧ 1 ≤ MaxHashFunctions :=
  loadsBack_iff Murmur3.sum32 Crc32.checksum (by decide) _

/-- With 21 hash functions the stored form is refused; with `2 ^ 32 + 1` it is read as that of a filter with one. -/
theorem not_loadsBack_many_hashes :
    deserialize Crc32.checksum ((newCountingBloomFilter 2 21).serialize Crc32.checksum) = .error ErrInvalidData ∧
    deserialize Crc32.checksum ((newCountingBloomFilter 2 (2 ^ 32 + 1)).serialize Crc32.checksum) =
      .ok (newCountingBloomFilter 2 1) ∧
    ¬ (newCountingBloomFilter 2 21).LoadsBack Crc32.checksum ∧
    ¬ (newCountingBloomFilter 2 (2 ^ 32 + 1)).LoadsBack Crc32.checksum := by
  refine ⟨by decide +kernel, by decide +kernel, ?_, ?_⟩ <;>
    rw [loadsBack_iff_shape _ (by decide)] <;> decide

end CountingBloomFilter

/-! ### Damage inside a window -/

/-- The two strings agree outside the `width` bytes from `start` on. -/
def DiffersWithin (d d' : Bytes) (start width : Nat) : Prop :=
  ∀ i, ¬ (start ≤ i ∧ i < start + width) → d'[i]? = d[i]?

namespace DiffersWithin

variable {d d' : Bytes} {start width : Nat}

theorem take_eq (h : DiffersWithin d d' start width) {n : Nat} (hn : n ≤ start) : d'.take n = d.take n := by
  apply List.ext_getElem?
  intro i
  simp only [List.getElem?_take]
  by_cases hi : i < n
  · rw [if_pos hi, if_pos hi, h i (by omega)]
  · rw [if_neg hi, if_neg hi]

theorem drop_eq (h : DiffersWithin d d' start width) {n : Nat} (hn : start + width ≤ n) : d'.drop n = d.drop n := by
  apply List.ext_getElem?
  intro i
  rw [List.getElem?_drop, List.getElem?_drop, h (n + i) (by omega)]

/-- A window at the head of two strings with equal tails is a window of the heads. -/
theorem of_append {p p' c : Bytes} (h : DiffersWithin (p ++ c) (p' ++ c) start width) (hlen : p'.length = p.length) :
    DiffersWithin p p' start width := by
  intro i hi
  by_cases hp : i < p.length
  · have hi' := h i hi
    rwa [List.getElem?_append_left (hlen ▸ hp), List.getElem?_append_left hp] at hi'
  · rw [List.getElem?_eq_none (by omega), List.getElem?_eq_none (by omega)]

/-- The checksum tells two messages apart that differ inside a window of four bytes. -/
theorem eq_of_checksum_eq (h : DiffersWithin d d' start width) (hw : width ≤ 4) (hlen : d'.length = d.length)
    (hsum : Crc32.checksum d' = Crc32.checksum d) : d' = d := by
  have hsplit : ∀ l : Bytes, l = l.take start ++ (l.drop start).take width ++ l.drop (start + width) := by
    intro l
    rw [← List.take_add, List.take_append_drop]
  have hbefore : d'.take start = d.take start := h.take_eq (Nat.le_refl _)
  have hafter : d'.drop (start + width) = d.drop (start + width) := h.drop_eq (Nat.le_refl _)
  have hinside : (d'.drop start).take width = (d.drop start).take width := by
    have hsum' : Crc32.checksum (d.take start ++ (d'.drop start).take width ++ d.drop (start + width)) =
        Crc32.checksum (d.take start ++ (d.drop start).take width ++ d.drop (start + width)) := by
      rw [← hsplit d, ← hsum, ← hbefore, ← hafter, ← hsplit d']
    refine Crc32.eq_of_checksum_eq ?_ ?_ hsum'
    · simp only [List.length_take, List.length_drop, hlen]
    · rw [List.length_take]; omega
  rw [hsplit d', hbefore, hinside, hafter, ← hsplit d]

end DiffersWithin

namespace CountingBloomFilter

/-- A string of the length of a stored filter that differs from it only inside four consecutive bytes, all of them
before the checksum or all of them in the checksum, is refused. -/
theorem deserialize_damaged {f : CountingBloomFilter} {d' : Bytes} {start width : Nat}
    (hlen : d'.length = (f.serialize Crc32.checksum).length) (hne : d' ≠ f.serialize Crc32.checksum)
    (hwidth : width ≤ 4) (hwindow : start + width ≤ 8 + f.m ∨ 8 + f.m ≤ start)
    (hdiff : DiffersWithin (f.serialize Crc32.checksum) d' start width) :
    ∃ err, deserialize Crc32.checksum d' = .error err := by
  cases hd : deserialize Crc32.checksum d' with
  | error err => exact ⟨err, rfl⟩
  | ok g =>
    -- an accepted string is the stored form of `g`, which has as many counters as `f`
    obtain rfl := serialize_of_deserialize hd
    have hm : g.m = f.m := by rw [length_serialize, length_serialize] at hlen; omega
    have hpayload : g.payload.length = f.payload.length := by rw [length_payload, length_payload, hm]
    refine absurd ?_ hne
    have heq : g.payload = f.payload := by
      rcases hwindow with hbefore | hafter
      · -- the checksums agree
        have hsum : putUint32 (Crc32.checksum g.payload) = putUint32 (Crc32.checksum f.payload) := by
          have hdrop := hdiff.drop_eq hbefore
          rwa [serialize, serialize, ← f.length_payload, List.drop_left, ← hpayload, List.drop_left] at hdrop
        rw [serialize, serialize, hsum] at hdiff
        exact (hdiff.of_append hpayload).eq_of_checksum_eq hwidth hpayload (BigEndian.putUint32_injective hsum)
      · have htake := hdiff.take_eq hafter
        rwa [serialize, serialize, ← f.length_payload, List.take_left, ← hpayload, List.take_left] at htake
    rw [serialize, serialize, heq]

/-- The first counter of a stored filter overwritten. -/
theorem deserialize_damaged_counter :
    ∃ err, deserialize Crc32.checksum (((newCountingBloomFilter 2 1).serialize Crc32.checksum).set 8 1) =
      .error err := by
  have hdiff : DiffersWithin ((newCountingBloomFilter 2 1).serialize Crc32.checksum)
      (((newCountingBloomFilter 2 1).serialize Crc32.checksum).set 8 1) 8 1 := by
    intro i hi
    exact List.getElem?_set_ne (by omega)
  exact deserialize_damaged (List.length_set ..) (by decide +kernel) (by decide) (.inl (by decide)) hdiff

end CountingBloomFilter

end DistributedBloomFilter
