import DocumentModel.Text.Base64

/-! Bytes read back from their text over sixty-four symbols.

The symbols of a sequence of bytes stand for groups of six bits, and padding fills the last
four of them (`encode_eq`). Joining the groups gives the bytes back without a bit left over
(`join_sextets`), and none of the reader's complaints applies: `ofText_toText`. -/
namespace DocumentModel.Base64

/-! ### Groups of six bits -/

/-- The groups of six bits that a sequence of bytes is cut into, filled up with zeros. -/
def sextets : List UInt8 → List Nat
  | [] => []
  | [a] => [a.toNat / 4, a.toNat % 4 * 16]
  | [a, b] => [a.toNat / 4, a.toNat % 4 * 16 + b.toNat / 16, b.toNat % 16 * 4]
  | a :: b :: c :: rest =>
    a.toNat / 4 :: (a.toNat % 4 * 16 + b.toNat / 16) :: (b.toNat % 16 * 4 + c.toNat / 64) ::
      (c.toNat % 64) :: sextets rest

/-- The count of padding bytes after the symbols. -/
def padCount : List UInt8 → Nat
  | [] => 0
  | [_] => 2
  | [_, _] => 1
  | _ :: _ :: _ :: rest => padCount rest

theorem encode_eq (bytes : List UInt8) :
    encode bytes = (sextets bytes).map symbol ++ List.replicate (padCount bytes) pad := by
  fun_induction encode bytes with
  | case1 => rfl
  | case2 => rfl
  | case3 => rfl
  | case4 a b c rest ih => simp [sextets, padCount, ih]

theorem sextets_lt (bytes : List UInt8) : ∀ n ∈ sextets bytes, n < 64 := by
  fun_induction sextets bytes with
  | case1 => simp
  | case2 a =>
    have := a.toNat_lt
    simp only [List.mem_cons, List.not_mem_nil, or_false, forall_eq_or_imp, forall_eq]
    omega
  | case3 a b =>
    have := a.toNat_lt
    have := b.toNat_lt
    simp only [List.mem_cons, List.not_mem_nil, or_false, forall_eq_or_imp, forall_eq]
    omega
  | case4 a b c rest ih =>
    have := a.toNat_lt
    have := b.toNat_lt
    have := c.toNat_lt
    simp only [List.mem_cons, forall_eq_or_imp]
    exact ⟨by omega, by omega, by omega, by omega, ih⟩

/-- Symbols come in fours, with the padding: all symbols, or two or three of the last. -/
theorem length_sextets (bytes : List UInt8) :
    (sextets bytes).length % 4 = 0 ∧ padCount bytes = 0 ∨
      2 ≤ (sextets bytes).length % 4 ∧ 0 < padCount bytes ∧
        (sextets bytes).length % 4 + padCount bytes = 4 := by
  fun_induction sextets bytes with
  | case1 => exact .inl ⟨rfl, rfl⟩
  | case2 a => exact .inr ⟨Nat.le_refl 2, Nat.two_pos, rfl⟩
  | case3 a b => exact .inr ⟨Nat.le_succ 2, Nat.one_pos, rfl⟩
  | case4 a b c rest ih =>
    simp only [List.length_cons, padCount]
    omega

/-- The groups of some bytes join to the bytes, with no bit left over. -/
theorem join_sextets (bytes : List UInt8) : join (sextets bytes) = (bytes, 0) := by
  fun_induction sextets bytes with
  | case1 => rfl
  | case2 a =>
    have ha : a.toNat / 4 * 4 + a.toNat % 4 * 16 / 16 = a.toNat := by omega
    have hleft : a.toNat % 4 * 16 % 16 = 0 := by omega
    simp only [join, ha, hleft, UInt8.ofNat_toNat]
  | case3 a b =>
    have hb := b.toNat_lt
    have ha : a.toNat / 4 * 4 + (a.toNat % 4 * 16 + b.toNat / 16) / 16 = a.toNat := by omega
    have hb : (a.toNat % 4 * 16 + b.toNat / 16) % 16 * 16 + b.toNat % 16 * 4 / 4 = b.toNat := by
      omega
    have hleft : b.toNat % 16 * 4 % 4 = 0 := by omega
    simp only [join, ha, hb, hleft, UInt8.ofNat_toNat]
  | case4 a b c rest ih =>
    have hb := b.toNat_lt
    have hc := c.toNat_lt
    have ha : a.toNat / 4 * 4 + (a.toNat % 4 * 16 + b.toNat / 16) / 16 = a.toNat := by omega
    have hb : (a.toNat % 4 * 16 + b.toNat / 16) % 16 * 16 +
        (b.toNat % 16 * 4 + c.toNat / 64) / 4 = b.toNat := by omega
    have hc : (b.toNat % 16 * 4 + c.toNat / 64) % 4 * 64 + c.toNat % 64 = c.toNat := by omega
    simp only [join, ih, ha, hb, hc, UInt8.ofNat_toNat]

/-! ### Symbols -/

theorem symbol_ne_pad : ∀ n < 64, (symbol n != pad) = true := by decide

theorem symbol_lt : ∀ n < 64, (symbol n).toNat < 128 := by decide

/-- Groups are read back from their symbols. -/
theorem filterMap_sextet?_symbol {groups : List Nat} (h : ∀ n ∈ groups, n < 64) :
    (groups.map symbol).filterMap sextet? = groups := by
  induction groups with
  | nil => rfl
  | cons n rest ih =>
    have hn := sextet?_symbol n (h n (List.mem_cons_self ..))
    have ih := ih fun m hm => h m (List.mem_cons_of_mem n hm)
    rw [List.map_cons, List.filterMap_cons_some hn, ih]

/-- None of the symbols of groups is complained about. -/
theorem find?_zipIdx_symbol {groups : List Nat} (h : ∀ n ∈ groups, n < 64) :
    (groups.map symbol).zipIdx.find? (fun s => (sextet? s.1).isNone) = none := by
  rw [List.find?_eq_none]
  intro hgiven
  obtain ⟨b, i⟩ := hgiven
  intro hmem
  obtain ⟨n, hn, rfl⟩ := List.mem_map.1 (List.fst_mem_of_mem_zipIdx hmem)
  simp [sextet?_symbol n (h n hn)]

/-! ### Reading what was written -/

theorem length_encode (bytes : List UInt8) : (encode bytes).length % 4 = 0 := by
  rw [encode_eq, List.length_append, List.length_map, List.length_replicate]
  have := length_sextets bytes
  omega

theorem ne_pad_of_mem (bytes : List UInt8) :
    ∀ b ∈ (sextets bytes).map symbol, (b != pad) = true := by
  intro b hb
  obtain ⟨n, hn, rfl⟩ := List.mem_map.1 hb
  exact symbol_ne_pad n (sextets_lt bytes n hn)

theorem takeWhile_encode (bytes : List UInt8) :
    (encode bytes).takeWhile (· != pad) = (sextets bytes).map symbol := by
  rw [encode_eq, List.takeWhile_append_of_pos (ne_pad_of_mem bytes)]
  simp

theorem dropWhile_encode (bytes : List UInt8) :
    (encode bytes).dropWhile (· != pad) = List.replicate (padCount bytes) pad := by
  rw [encode_eq, List.dropWhile_append_of_pos (ne_pad_of_mem bytes)]
  simp

/-- The padding that was written is the padding that is required. -/
theorem padding_allowed (bytes : List UInt8) :
    ¬(List.replicate (padCount bytes) pad ≠ [] ∧
      ¬((List.replicate (padCount bytes) pad).all (· == pad) = true ∧
        2 ≤ ((sextets bytes).map symbol).length % 4 ∧
        ((sextets bytes).map symbol).length % 4 +
          (List.replicate (padCount bytes) pad).length ≤ 4)) := by
  have hlen := length_sextets bytes
  intro hgiven
  obtain ⟨hne, hbad⟩ := hgiven
  have hpos : padCount bytes ≠ 0 := by simpa using hne
  apply hbad
  rw [List.length_map, List.length_replicate]
  exact ⟨by simp, by omega, by omega⟩

theorem decode_encode (bytes : List UInt8) : decode (encode bytes) = .ok bytes := by
  have hlt := sextets_lt bytes
  simp only [decode, takeWhile_encode, dropWhile_encode, length_encode,
    find?_zipIdx_symbol hlt, if_neg (padding_allowed bytes), filterMap_sextet?_symbol hlt,
    join_sextets]
  rfl

theorem utf8EncodeChar_ofNat : ∀ n < 128, String.utf8EncodeChar (Char.ofNat n) = [.ofNat n] := by
  decide

theorem lt_of_mem_encode {bytes : List UInt8} {b : UInt8} (h : b ∈ encode bytes) :
    b.toNat < 128 := by
  rw [encode_eq] at h
  rcases List.mem_append.1 h with h | h
  · obtain ⟨n, hn, rfl⟩ := List.mem_map.1 h
    exact symbol_lt n (sextets_lt bytes n hn)
  · rw [List.eq_of_mem_replicate h]
    decide

/-- A text of bytes below the non-ASCII ones has these bytes as its UTF-8 form. -/
theorem utf8_of_ascii {bytes : List UInt8} (h : ∀ b ∈ bytes, b.toNat < 128) :
    (bytes.map fun b => Char.ofNat b.toNat).flatMap String.utf8EncodeChar = bytes := by
  induction bytes with
  | nil => rfl
  | cons b rest ih =>
    have hb := utf8EncodeChar_ofNat b.toNat (h b (List.mem_cons_self ..))
    rw [List.map_cons, List.flatMap_cons, hb, ih fun c hc => h c (List.mem_cons_of_mem b hc),
      UInt8.ofNat_toNat]
    rfl

/-- **Every sequence of bytes is read back from its text.** -/
theorem ofText_toText (bytes : List UInt8) : ofText (toText bytes) = .ok bytes := by
  rw [ofText, toText, String.toList_ofList, utf8_of_ascii fun _ => lt_of_mem_encode,
    decode_encode]

end DocumentModel.Base64
