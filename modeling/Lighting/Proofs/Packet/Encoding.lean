import Lighting.Packet.Codec

/-!
# What a line says

A line spells out its packet octet by octet, and every packet that carries a command has the address
in the same place.  So two commands for different addresses never come to the same line, whatever they
ask for and whatever number the lines bear.
-/

namespace Lighting.Packet

theorem octetUpper_inj {a b : UInt8}
    (same : octets (Text.octetUpper a) = octets (Text.octetUpper b)) : a = b := by
  have digit : ∀ m < 16, ∀ n < 16,
      UInt8.ofNat (Text.upperHex m).toNat = UInt8.ofNat (Text.upperHex n).toNat → m = n := by decide
  obtain ⟨high, rest⟩ := List.cons.inj same
  obtain ⟨low, -⟩ := List.cons.inj rest
  have high := digit _ (Nat.div_lt_of_lt_mul a.toNat_lt) _ (Nat.div_lt_of_lt_mul b.toNat_lt) high
  have low := digit _ (Nat.mod_lt _ (by decide)) _ (Nat.mod_lt _ (by decide)) low
  exact UInt8.toNat_inj.mp (by omega)

/-- The tenth and eleventh octet of a line spell its address. -/
theorem address_encode (c : Command) (nonce : UInt64) :
    ((encode c nonce).drop 9).take 2 = octets (Text.octetUpper c.address.octet) := by
  obtain ⟨id, address, action, madeAt⟩ := c
  cases action <;> rfl

/-- **Lines for different addresses differ.** -/
theorem address_of_encode_eq {c c' : Command} {nonce nonce' : UInt64}
    (same : encode c nonce = encode c' nonce') : c.address = c'.address := by
  have octet := octetUpper_inj ((address_encode c nonce).symm.trans (same ▸ address_encode c' nonce'))
  obtain ⟨_, ⟨octet'⟩, _, _⟩ := c
  obtain ⟨_, ⟨octet''⟩, _, _⟩ := c'
  exact congrArg Address.mk octet

end Lighting.Packet
