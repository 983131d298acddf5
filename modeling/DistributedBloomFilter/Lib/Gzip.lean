import DistributedBloomFilter.Lib.Crc32
import Mathlib.Data.List.Infix
import Mathlib.Tactic.Common

/-!
# A lossless stream format

What a program may rely on when it writes a stream with `compress/gzip` and reads it back: the reader returns what was
written, at whatever level and in however many pieces, and, where that is needed, it refuses a stream that was cut
short (`RejectsPrefixes`).  `stored` is such a format, for evaluation: gzip with stored blocks only.  Its reader knows
no optional fields of the header and no compressed blocks; it accepts the other streams that `compress/gzip` accepts.
-/

namespace Gzip

def BestSpeed : Int := 1

def BestCompression : Int := 9

/-- The check of `gzip.NewWriterLevel`; the least level is `HuffmanOnly`. -/
def newWriterLevel (level : Int) : Except String Unit :=
  if level < -2 ∨ BestCompression < level then .error ("gzip: invalid compression level: " ++ toString level)
  else .ok ()

/-- A writer for the pieces of a stream, `NewReader`, and `io.ReadAll` of the reader. -/
structure Format where
  compress : Int → List (List UInt8) → List UInt8
  newReader : List UInt8 → Except String Unit
  readAll : List UInt8 → Except String (List UInt8)
  lossless : ∀ level pieces, newReader (compress level pieces) = .ok () ∧
    readAll (compress level pieces) = .ok pieces.flatten

/-- The reader does not get to the end. -/
def Format.Rejects (g : Format) (stream : List UInt8) : Prop :=
  (∃ err, g.newReader stream = .error err) ∨ ∃ err, g.readAll stream = .error err

/-- Every strict prefix of a complete stream is refused. -/
def Format.RejectsPrefixes (g : Format) : Prop :=
  ∀ level pieces cut, cut <+: g.compress level pieces → cut ≠ g.compress level pieces → g.Rejects cut

namespace Format

variable {g : Format}

theorem not_rejects_compress (g : Format) (level : Int) (pieces : List (List UInt8)) :
    ¬ g.Rejects (g.compress level pieces) := by
  obtain ⟨hreader, hread⟩ := g.lossless level pieces
  rintro (⟨err, h⟩ | ⟨err, h⟩)
  · rw [hreader] at h; cases h
  · rw [hread] at h; cases h

/-- A complete stream is not empty: two contents cannot both have the empty stream, and so it is a strict prefix. -/
theorem compress_ne_nil (h : g.RejectsPrefixes) (level : Int) (pieces : List (List UInt8)) :
    g.compress level pieces ≠ [] := by
  intro hnil
  have hother : g.compress level [0 :: pieces.flatten] ≠ [] := by
    intro hnil'
    have hread := (g.lossless level pieces).2
    rw [hnil, ← hnil', (g.lossless level _).2] at hread
    have hlen := congrArg List.length (Except.ok.inj hread)
    simp at hlen
  exact g.not_rejects_compress level pieces
    (hnil ▸ h level [0 :: pieces.flatten] [] List.nil_prefix hother.symm)

end Format

/-! ### Streams of stored blocks -/

/-- A number in two bytes, the low one first. -/
private def le16 (n : Nat) : List UInt8 := [UInt8.ofNat n, UInt8.ofNat (n / 256)]

private def le32 (n : Nat) : List UInt8 := le16 n ++ le16 (n / 65536)

/-- The identification, the method `deflate`, no flags, no time, a hint of the level, and an unknown system. -/
private def header (level : Int) : List UInt8 :=
  [0x1F, 0x8B, 8, 0, 0, 0, 0, 0, if level = BestCompression then 2 else if level = BestSpeed then 4 else 0, 255]

/-- A stored block: its type, with a bit for the last one, its length, the complement of that, and the bytes. -/
private def block (final : Bool) (data : List UInt8) : List UInt8 :=
  (if final then 1 else 0) :: (le16 data.length ++ le16 (65535 - data.length) ++ data)

private def blocks : Nat → List UInt8 → List UInt8
  | 0, data => block true data
  | n + 1, data =>
    if data.length ≤ 65535 then block true data
    else block false (data.take 65535) ++ blocks n (data.drop 65535)

/-- The checksum and the length of the data. -/
private def trailer (data : List UInt8) : List UInt8 := le32 (Crc32.checksum data).toNat ++ le32 data.length

private def readHeader (stream : List UInt8) : Except String (List UInt8) :=
  if stream = [] then .error "EOF"
  else if stream.length < 10 then .error "unexpected EOF"
  else if stream.take 4 ≠ [0x1F, 0x8B, 8, 0] then .error "gzip: invalid header"
  else .ok (stream.drop 10)

/-- The data up to the last block, and the rest of the stream. -/
private def readBlocks : Nat → List UInt8 → Except String (List UInt8 × List UInt8)
  | n + 1, b :: l₀ :: l₁ :: c₀ :: c₁ :: rest =>
    if b.toNat / 2 % 4 ≠ 0 ∨ c₀.toNat + 256 * c₁.toNat ≠ 65535 - (l₀.toNat + 256 * l₁.toNat) then
      .error "flate: corrupt input"
    else if rest.length < l₀.toNat + 256 * l₁.toNat then .error "unexpected EOF"
    else if b.toNat % 2 = 1 then .ok (rest.take (l₀.toNat + 256 * l₁.toNat), rest.drop (l₀.toNat + 256 * l₁.toNat))
    else
      match readBlocks n (rest.drop (l₀.toNat + 256 * l₁.toNat)) with
      | .error err => .error err
      | .ok (data, rest') => .ok (rest.take (l₀.toNat + 256 * l₁.toNat) ++ data, rest')
  | _, _ => .error "unexpected EOF"

/-- `io.ReadAll` of a reader in its multistream mode: one member after the other until the stream is over. -/
private def readMembers : Nat → List UInt8 → Except String (List UInt8)
  | 0, _ => .error "unexpected EOF"
  | n + 1, stream =>
    match readHeader stream with
    | .error err => .error err
    | .ok body =>
      match readBlocks body.length body with
      | .error err => .error err
      | .ok (data, rest) =>
        if rest.length < 8 then .error "unexpected EOF"
        else if rest.take 8 ≠ trailer data then .error "gzip: invalid checksum"
        else if rest.drop 8 = [] then .ok data
        else
          match readMembers n (rest.drop 8) with
          | .error err => .error err
          | .ok more => .ok (data ++ more)

private theorem toNat_le16 {n : Nat} (h : n ≤ 65535) :
    (UInt8.ofNat n).toNat + 256 * (UInt8.ofNat (n / 256)).toNat = n := by
  simp only [UInt8.toNat_ofNat']
  omega

private theorem length_header (level : Int) : (header level).length = 10 := rfl

private theorem length_trailer (data : List UInt8) : (trailer data).length = 8 := rfl

private theorem length_block (final : Bool) (data : List UInt8) : (block final data).length = data.length + 5 := by
  simp [block, le16]

/-- The reader at the front of a block. -/
private theorem readBlocks_head {len : Nat} (h : len ≤ 65535) (final : Bool) (n : Nat) (rest : List UInt8) :
    readBlocks (n + 1) ((if final then 1 else 0) :: (le16 len ++ le16 (65535 - len) ++ rest)) =
      if rest.length < len then .error "unexpected EOF"
      else if final then .ok (rest.take len, rest.drop len)
      else
        match readBlocks n (rest.drop len) with
        | .error err => .error err
        | .ok (data, rest') => .ok (rest.take len ++ data, rest') := by
  have htype : (if final then 1 else 0 : UInt8).toNat / 2 % 4 = 0 := by cases final <;> rfl
  have hfinal : (if final then 1 else 0 : UInt8).toNat % 2 = 1 ↔ final = true := by cases final <;> decide
  show readBlocks (n + 1) (_ :: _ :: _ :: _ :: _ :: rest) = _
  rw [readBlocks, toNat_le16 h, toNat_le16 (Nat.sub_le 65535 len),
    if_neg (fun hbad => hbad.elim (fun hne => hne htype) fun hne => hne rfl)]
  simp only [hfinal]

private theorem readBlocks_block {data : List UInt8} (h : data.length ≤ 65535) (final : Bool) (n : Nat)
    (rest : List UInt8) : readBlocks (n + 1) (block final data ++ rest) =
      if final then .ok (data, rest)
      else
        match readBlocks n rest with
        | .error err => .error err
        | .ok (more, rest') => .ok (data ++ more, rest') := by
  rw [block, List.cons_append, List.append_assoc, readBlocks_head h, List.length_append, if_neg (by omega),
    List.take_left, List.drop_left]

/-- A block that was cut short is noticed. -/
private theorem readBlocks_take_block {data : List UInt8} (h : data.length ≤ 65535) (final : Bool) {k : Nat}
    (hk : k < (block final data).length) (n : Nat) :
    ∃ err, readBlocks n ((block final data).take k) = .error err := by
  cases n with
  | zero => exact ⟨_, rfl⟩
  | succ n =>
    rw [length_block] at hk
    match k with
    | 0 | 1 | 2 | 3 | 4 => exact ⟨_, rfl⟩
    | k + 5 =>
      have htake : (block final data).take (k + 5) =
          (if final then 1 else 0) :: (le16 data.length ++ le16 (65535 - data.length) ++ data.take k) := rfl
      rw [htake, readBlocks_head h, if_pos (by rw [List.length_take]; omega)]
      exact ⟨_, rfl⟩

private theorem readBlocks_blocks {n : Nat} {data : List UInt8} (h : data.length ≤ n + 65535) (rest : List UInt8)
    {fuel : Nat} (hfuel : n < fuel) : readBlocks fuel (blocks n data ++ rest) = .ok (data, rest) := by
  induction n generalizing data fuel with
  | zero =>
    obtain ⟨fuel, rfl⟩ := Nat.exists_eq_add_of_lt hfuel
    rw [blocks, Nat.zero_add, readBlocks_block (by omega)]
    rfl
  | succ n ih =>
    cases fuel with
    | zero => omega
    | succ fuel =>
      rw [blocks]
      split
      · rw [readBlocks_block (by omega)]
        rfl
      · have htake : (data.take 65535).length ≤ 65535 := List.length_take_le _ _
        rw [List.append_assoc, readBlocks_block htake, ih (by rw [List.length_drop]; omega) (by omega)]
        show Except.ok (data.take 65535 ++ data.drop 65535, rest) = _
        rw [List.take_append_drop]

private theorem readBlocks_take_blocks {n : Nat} {data : List UInt8} (h : data.length ≤ n + 65535) {k : Nat}
    (hk : k < (blocks n data).length) (fuel : Nat) :
    ∃ err, readBlocks fuel ((blocks n data).take k) = .error err := by
  induction n generalizing data k fuel with
  | zero =>
    rw [blocks] at hk ⊢
    exact readBlocks_take_block (by omega) true hk fuel
  | succ n ih =>
    rw [blocks] at hk ⊢
    split at hk
    · rename_i hshort
      rw [if_pos hshort]
      exact readBlocks_take_block hshort true hk fuel
    · rename_i hlong
      have htake : (data.take 65535).length ≤ 65535 := List.length_take_le _ _
      rw [if_neg hlong, List.take_append]
      rw [List.length_append] at hk
      by_cases hcut : k < (block false (data.take 65535)).length
      · rw [Nat.sub_eq_zero_of_le (Nat.le_of_lt hcut), List.take_zero, List.append_nil]
        exact readBlocks_take_block htake false hcut fuel
      · -- the first block is complete
        rw [List.take_of_length_le (Nat.le_of_not_lt hcut)]
        cases fuel with
        | zero => exact ⟨_, rfl⟩
        | succ fuel =>
          have hdrop : (data.drop 65535).length ≤ n + 65535 := by rw [List.length_drop]; omega
          have hrest : k - (block false (data.take 65535)).length < (blocks n (data.drop 65535)).length := by omega
          obtain ⟨err, herr⟩ := ih hdrop hrest fuel
          rw [readBlocks_block htake, herr]
          exact ⟨err, rfl⟩

private theorem length_lt_blocks (n : Nat) (data : List UInt8) : data.length < (blocks n data).length := by
  induction n generalizing data with
  | zero =>
    rw [blocks, length_block]
    omega
  | succ n ih =>
    rw [blocks]
    split
    · rw [length_block]
      omega
    · have hdrop := ih (data.drop 65535)
      rw [List.length_drop] at hdrop
      rw [List.length_append, length_block, List.length_take]
      omega

/-- A member with stored blocks. -/
private def member (level : Int) (data : List UInt8) : List UInt8 :=
  header level ++ (blocks data.length data ++ trailer data)

private theorem readHeader_of_short {stream : List UInt8} (h : stream.length < 10) :
    ∃ err, readHeader stream = .error err := by
  rw [readHeader, if_pos h]
  split
  · exact ⟨_, rfl⟩
  · exact ⟨_, rfl⟩

private theorem readHeader_append (level : Int) (rest : List UInt8) :
    readHeader (header level ++ rest) = .ok rest := by
  have hne : header level ++ rest ≠ [] := List.cons_ne_nil _ _
  have hlen : ¬ (header level ++ rest).length < 10 := by
    rw [List.length_append]
    exact Nat.not_lt.2 (Nat.le_add_right 10 rest.length)
  rw [readHeader, if_neg hne, if_neg hlen, if_neg (fun h => h rfl)]
  rfl

/-- The reader behind the header and the blocks of a member. -/
private theorem readMembers_blocks (level : Int) (data rest : List UInt8) (n : Nat) :
    readMembers (n + 1) (header level ++ (blocks data.length data ++ rest)) =
      if rest.length < 8 then .error "unexpected EOF"
      else if rest.take 8 ≠ trailer data then .error "gzip: invalid checksum"
      else if rest.drop 8 = [] then .ok data
      else
        match readMembers n (rest.drop 8) with
        | .error err => .error err
        | .ok more => .ok (data ++ more) := by
  have hfuel : data.length < (blocks data.length data ++ rest).length := by
    have := length_lt_blocks data.length data
    rw [List.length_append]
    omega
  simp only [readMembers, readHeader_append, readBlocks_blocks (Nat.le_add_right _ _) rest hfuel]

private theorem readMembers_member (level : Int) (data : List UInt8) (n : Nat) :
    readMembers (n + 1) (member level data) = .ok data := by
  have hdrop : (trailer data).drop 8 = [] := rfl
  rw [member, readMembers_blocks, length_trailer, if_neg (Nat.lt_irrefl 8), if_neg (fun h => h rfl), if_pos hdrop]

private theorem readMembers_take_member (level : Int) (data : List UInt8) {k : Nat}
    (hk : k < (blocks data.length data ++ trailer data).length) (n : Nat) :
    ∃ err, readMembers n (header level ++ (blocks data.length data ++ trailer data).take k) = .error err := by
  cases n with
  | zero => exact ⟨_, rfl⟩
  | succ n =>
    rw [List.take_append]
    rw [List.length_append, length_trailer] at hk
    by_cases hcut : k < (blocks data.length data).length
    · obtain ⟨err, herr⟩ :=
        readBlocks_take_blocks (Nat.le_add_right _ _) hcut ((blocks data.length data).take k).length
      rw [Nat.sub_eq_zero_of_le (Nat.le_of_lt hcut), List.take_zero, List.append_nil]
      exact ⟨err, by simp only [readMembers, readHeader_append, herr]⟩
    · -- the blocks are complete, and the trailer is not
      rw [List.take_of_length_le (Nat.le_of_not_lt hcut), readMembers_blocks, List.length_take, length_trailer,
        if_pos (by omega)]
      exact ⟨_, rfl⟩

/-- `compress/gzip` without compression. -/
def stored : Format where
  compress level pieces := member level pieces.flatten
  newReader stream := (readHeader stream).map fun _ => ()
  readAll stream := readMembers stream.length stream
  lossless level pieces := ⟨by rw [member, readHeader_append]; rfl, readMembers_member level pieces.flatten _⟩

theorem stored_rejectsPrefixes : stored.RejectsPrefixes := by
  intro level pieces cut hcut hne
  by_cases hshort : cut.length < 10
  · obtain ⟨err, herr⟩ := readHeader_of_short hshort
    exact .inl ⟨err, congrArg (Except.map fun _ => ()) herr⟩
  · have hlen : cut.length < (member level pieces.flatten).length :=
      lt_of_le_of_ne hcut.length_le fun heq => hne (hcut.eq_of_length heq)
    have hbody : cut.length - 10 <
      (blocks pieces.flatten.length pieces.flatten ++ trailer pieces.flatten).length := by
      rw [member, List.length_append, length_header] at hlen
      omega
    have hmember : cut = header level ++
        (blocks pieces.flatten.length pieces.flatten ++ trailer pieces.flatten).take (cut.length - 10) := by
      have htake : cut = (member level pieces.flatten).take cut.length := List.prefix_iff_eq_take.1 hcut
      rw [member, List.take_append, length_header, List.take_of_length_le (Nat.le_of_not_lt hshort)] at htake
      exact htake
    obtain ⟨err, herr⟩ := readMembers_take_member level pieces.flatten hbody cut.length
    rw [← hmember] at herr
    exact .inr ⟨err, herr⟩

end Gzip
