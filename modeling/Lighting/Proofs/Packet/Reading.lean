import Mathlib.Algebra.Ring.Nat
import Lighting.Proofs.Packet.Decoding
import Lighting.Proofs.Packet.Entries

/-!
# Packets that are read

Between the octets of a frame and those of its packet lie three steps: text, blanks and digits.  A
frame is `Spelt` if they lead to a packet, and then decoding comes down to what is said of the
packet itself (`decode_of_spelt`): whether its octets add up to zero and what its entries report.
Upper-case digits spell the octets they were made from (`spelt_hexUpper`).
-/

namespace Lighting

namespace Text

theorem trim_of_not_blank {cs : List Char} (solid : ∀ c ∈ cs, isBlank c = false) :
    trim cs = cs := by
  have whole {ds : List Char} (solid : ∀ c ∈ ds, isBlank c = false) :
      ds.dropWhile isBlank = ds := by
    cases ds with
    | nil => rfl
    | cons c ds => exact List.dropWhile_cons_of_neg (by simp [solid c])
  unfold trim trimBoth
  rw [whole solid, whole fun c hc => solid c (List.mem_reverse.mp hc), List.reverse_reverse]

theorem length_trim_le (cs : List Char) : (trim cs).length ≤ cs.length := by
  unfold trim trimBoth
  rw [List.length_reverse]
  refine Nat.le_trans (List.dropWhile_sublist _).length_le ?_
  rw [List.length_reverse]
  exact (List.dropWhile_sublist _).length_le

theorem not_isBlank_upperHex {n : Nat} (h : n < 16) : isBlank (upperHex n) = false := by
  have solid : ∀ n < 16, isBlank (upperHex n) = false := by decide
  exact solid n h

namespace Utf8

/-- Characters of one octet each are as many as their octets. -/
theorem size_of_low {cs : List Char} (low : ∀ c ∈ cs, c.utf8Size = 1) : size cs = cs.length := by
  induction cs with
  | nil => rfl
  | cons c cs ih =>
      obtain ⟨first, low⟩ := List.forall_mem_cons.mp low
      rw [size, first, ih low, List.length_cons, Nat.add_comm]

/-- A character takes an octet at least. -/
theorem length_le_of_decode {octets : List UInt8} {cs : List Char} (h : decode octets = some cs) :
    cs.length ≤ octets.length := by
  fun_induction decode octets generalizing cs with
  | case1 =>
      cases h
      exact Nat.le_refl _
  | case2 a rest lead ih =>
      obtain ⟨ds, tail, rfl⟩ := Option.map_eq_some_iff.mp h
      exact Nat.succ_le_succ (ih tail)
  | case3 | case4 | case5 =>
      rename_i ih
      obtain ⟨_, -, h⟩ := Option.bind_eq_some_iff.mp h
      obtain ⟨ds, tail, rfl⟩ := Option.map_eq_some_iff.mp h
      have := ih tail
      simp only [List.length_cons]
      omega
  | case6 => cases h

end Utf8

end Text

namespace Packet

open Text

variable {frame packet body : List UInt8}

/-- The text of a frame, without the blanks at its ends, spells the octets of a packet. -/
def Spelt (frame packet : List UInt8) : Prop :=
  ∃ cs, Utf8.decode frame = some cs ∧ Spells (trim cs) packet

/-! ## Digits -/

theorem Spells.length_eq {cs : List Char} (h : Spells cs packet) :
    cs.length = 2 * packet.length := by
  induction h with
  | nil => rfl
  | cons pair rest ih =>
      rw [List.length_cons, List.length_cons, List.length_cons, ih]
      omega

theorem pairValue?_octetUpper (b : UInt8) :
    pairValue? (upperHex (b.toNat / 16)) (upperHex (b.toNat % 16)) = some b := by
  have high : b.toNat / 16 < 16 := Nat.div_lt_of_lt_mul b.toNat_lt
  have low : b.toNat % 16 < 16 := Nat.mod_lt _ (by decide)
  have digit : ∀ n < 16, upperHex n ≠ '+' := by decide
  rw [pairValue?, if_neg (digit _ high), hexValue?_upperHex high, hexValue?_upperHex low]
  simp only [Nat.div_add_mod, UInt8.ofNat_toNat]

theorem spells_hexUpper (packet : List UInt8) : Spells (hexUpper packet) packet := by
  induction packet with
  | nil => exact .nil
  | cons b packet ih => exact .cons (pairValue?_octetUpper b) ih

/-- The characters of digits are those of the values below sixteen. -/
theorem exists_of_mem_hexUpper {c : Char} (h : c ∈ hexUpper packet) : ∃ n < 16, upperHex n = c := by
  obtain ⟨b, -, digit⟩ := List.mem_flatMap.mp h
  rcases List.mem_pair.mp digit with rfl | rfl
  · exact ⟨_, Nat.div_lt_of_lt_mul b.toNat_lt, rfl⟩
  · exact ⟨_, Nat.mod_lt _ (by decide), rfl⟩

/-- Characters of one octet each are text as they are. -/
theorem decode_octets {cs : List Char} (low : ∀ c ∈ cs, c.utf8Size = 1) :
    Utf8.decode (octets cs) = some cs := by
  have same : octets cs = Utf8.encode cs := by
    induction cs with
    | nil => rfl
    | cons c cs ih =>
        obtain ⟨first, low⟩ := List.forall_mem_cons.mp low
        show UInt8.ofNat c.toNat :: octets cs = String.utf8EncodeChar c ++ Utf8.encode cs
        rw [String.utf8EncodeChar_eq_singleton first, ih low]
        rfl
  rw [same, Utf8.decode_encode]

/-- **Upper-case digits spell the octets they were made from.** -/
theorem spelt_hexUpper (packet : List UInt8) : Spelt (octets (hexUpper packet)) packet := by
  refine ⟨hexUpper packet, decode_octets fun c hc => ?_, ?_⟩
  · obtain ⟨n, small, rfl⟩ := exists_of_mem_hexUpper hc
    exact utf8Size_of_hexValue? (hexValue?_upperHex small)
  · rw [trim_of_not_blank fun c hc => ?_]
    · exact spells_hexUpper packet
    · obtain ⟨n, small, rfl⟩ := exists_of_mem_hexUpper hc
      exact not_isBlank_upperHex small

/-! ## Packets -/

/-- **What a frame means is what its packet means.** -/
theorem decode_of_spelt (spelt : Spelt frame packet) (two : 2 ≤ packet.length) :
    ∃ text, decode frame = readPacket text packet := by
  obtain ⟨cs, text, spells⟩ := spelt
  refine ⟨trim cs, ?_⟩
  have long : 4 ≤ frame.length := by
    have := spells.length_eq
    have := length_trim_le cs
    have := Utf8.length_le_of_decode text
    omega
  have line : confirmation? frame = none := by
    match frame, long with
    | _ :: _ :: _ :: _, _ => rfl
  have size := spells.size_eq
  have read : readHex (trim cs) = .ok packet := by
    rw [readHex, if_neg (by omega)]
    exact readPairs_eq_ok_iff.mpr spells
  rw [decode, line]
  simp only [decodeLine, text, if_neg (show ¬ Utf8.size (trim cs) ≤ 1 by omega), read]
  rfl

/-- The octets of a packet, its checksum included, add up to zero. -/
theorem sum_append_checksum (body : List UInt8) : sum (body ++ [checksum body]) = 0 := by
  rw [sum, List.foldl_append, checksum, UInt8.zero_sub]
  exact UInt8.add_right_neg _

/-- The sum is carried round past 255. -/
theorem toNat_sum (packet : List UInt8) :
    (sum packet).toNat = (packet.map UInt8.toNat).sum % 256 := by
  have carried (a : UInt8) : (packet.foldl (· + ·) a).toNat =
      (a.toNat + (packet.map UInt8.toNat).sum) % 256 := by
    induction packet generalizing a with
    | nil => exact (Nat.mod_eq_of_lt a.toNat_lt).symm
    | cons b packet ih =>
        rw [List.foldl_cons, ih, UInt8.toNat_add, List.map_cons, List.sum_cons, Nat.mod_add_mod,
          Nat.add_assoc]
  rw [sum, carried, UInt8.toNat_zero, Nat.zero_add]

/-- What the octets between the head of a lighting packet and its checksum mean: what the entries
there report, and nothing if there is no report. -/
def readBody (source : UInt8) (body : List UInt8) : Except DecodeError Inbound :=
  match readReports source body with
  | none => .error .truncated
  | some [] => .ok .unrecognized
  | some reports => .ok (.status reports)

/-- **A lighting packet whose octets add up to zero means what its entries report.** -/
theorem decode_of_spelt_packet {source routing check : UInt8}
    (spelt : Spelt frame ([header, source, lighting, routing] ++ body ++ [check]))
    (zero : sum ([header, source, lighting, routing] ++ body ++ [check]) = 0) :
    decode frame = readBody source body := by
  obtain ⟨text, decoded⟩ := decode_of_spelt spelt (Nat.le_add_left 2 _)
  rw [decoded, readPacket, if_neg (not_not.mpr zero), List.dropLast_concat]
  rfl

theorem readReports_of_readPacket {text : List Char} {reports : List Report}
    (h : readPacket text packet = .ok (.status reports)) :
    ∃ source body, readReports source body = some reports := by
  unfold readPacket at h
  split at h
  · cases h
  · split at h
    · split at h
      · cases h
      · split at h
        · cases h
        · cases h
        · rename_i row
          cases h
          exact ⟨_, _, row⟩
    · cases h

/-- All reports come from the entries of a row. -/
theorem readReports_of_decode {reports : List Report} (h : decode frame = .ok (.status reports)) :
    ∃ source body, readReports source body = some reports := by
  unfold decode decodeLine at h
  split at h
  · cases h
  · split at h
    · cases h
    · dsimp only at h
      split at h
      · cases h
      · rename_i cs _ _
        cases read : readHex (trim cs) with
        | error e => rw [read] at h; cases h
        | ok packet => rw [read] at h; exact readReports_of_readPacket h

end Packet

end Lighting
