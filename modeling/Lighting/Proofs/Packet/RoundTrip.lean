import Lighting.Proofs.Packet.Reading
import Lighting.Proofs.Rate

/-!
# What was sent is what is reported

A command goes out as one entry of a packet.  The bus shows what units send in packets of the same
make, with any number of entries, so that a unit that passes commands on shows what each of them
came down to.  Decoding such a line gives one report for each command, in their order: the address
and the level that were asked for, and the time that the ramp takes at the shortest rate that lasts
long enough.

Writing and reading keep tables of their own.  That they agree is said once for each entry
(`report_entry`); the entries of a row are taken apart in `Entries`.
-/

namespace Lighting.Packet

open Text

/-- The octets of a command in a packet. -/
def carried (c : Command) : List UInt8 := (entry c.action c.address).write

/-- The line on which the bus shows that unit `s` has sent commands. -/
def monitored (s : UInt8) (cs : List Command) : List UInt8 :=
  let body := [header, s, lighting, 0] ++ cs.flatMap carried
  octets (hexUpper (body ++ [checksum body]))

/-- A report says of a command that unit `s` has sent what was asked for. -/
structure Reports (s : UInt8) (c : Command) (r : Report) : Prop where
  /-- The address is the one that was asked. -/
  address : r.address = c.address
  /-- The level is the one that the command ends with. -/
  level : r.level = c.target
  /-- The unit is the one that sent it. -/
  source : r.source = some s
  /-- The level is reached when the shortest rate that lasts long enough is done, whether the spans
  are compared in nanoseconds or in rounded seconds. -/
  transition : ∃ rate : Rate, rate.IsShortestFor c.transition ∧
    Rate.coveringSeconds? c.transition = some rate ∧ r.transition = rate.duration
  /-- Only a ramp takes time. -/
  instant : (∃ level duration, c.action = .ramp level duration) ∨ r.transition = .zero

variable {c : Command} {cs : List Command} {s : UInt8}

/-! ## One command -/

/-- **The line of a command.** -/
theorem encode_eq (c : Command) (nonce : UInt64) :
    ∃ check, encode c nonce =
        0x5C :: octets (hexUpper ([0x05, 0x38, 0x00] ++ carried c ++ [check])) ++
          [(matchKey c nonce).token, 0x0D] ∧
      (([0x05, 0x38, 0x00] ++ carried c ++ [check]).map UInt8.toNat).sum % 256 = 0 := by
  refine ⟨checksum ([0x05, 0x38, 0x00] ++ carried c), rfl, ?_⟩
  rw [← toNat_sum, sum_append_checksum]
  rfl

/-- The shortest rate for a command that takes no time takes none either. -/
theorem transition_of_zero (still : c.transition = .zero) : ∃ rate : Rate,
    rate.IsShortestFor c.transition ∧ Rate.coveringSeconds? c.transition = some rate ∧
      Duration.zero = rate.duration := by
  have found : Rate.covering? .zero = some .instant := by decide
  rw [still, Rate.coveringSeconds?_eq]
  exact ⟨.instant, Rate.covering?_eq_some_iff.mp found, found, Rate.duration_instant.symm⟩

/-- **The entry that carries a command is known, and reports what was asked for.** -/
theorem report_entry (short : c.transition ≤ .ofSeconds 1020) (s : UInt8) :
    (entry c.action c.address).IsKnown ∧
      ∃ r, (entry c.action c.address).report? s = some r ∧ Reports s c r := by
  cases c with | mk id address action madeAt =>
  cases action with
  | on => exact ⟨trivial, _, rfl, rfl, rfl, rfl, transition_of_zero rfl, Or.inr rfl⟩
  | off => exact ⟨trivial, _, rfl, rfl, rfl, rfl, transition_of_zero rfl, Or.inr rfl⟩
  | setLevel level =>
      have known : Rate.instant ∈ Rate.all := by decide
      refine ⟨known, _, rfl, rfl, rfl, rfl, ?_, Or.inr Rate.duration_instant⟩
      rw [Rate.duration_instant]
      exact transition_of_zero rfl
  | ramp level duration =>
      obtain ⟨rate, found⟩ := Option.isSome_iff_exists.mp (Rate.isSome_covering?_iff.mpr short)
      have shortest := Rate.covering?_eq_some_iff.mp found
      have rounded := (Rate.coveringSeconds?_eq duration).trans found
      rw [entry, show Rate.covering? duration = some rate from found]
      exact ⟨shortest.mem, _, rfl, rfl, rfl, rfl, ⟨rate, shortest, rounded, rfl⟩,
        Or.inl ⟨level, duration, rfl⟩⟩

/-! ## Several commands -/

/-- The entries of commands report them one by one. -/
theorem forall₂_filterMap_report (short : ∀ c ∈ cs, c.transition ≤ .ofSeconds 1020) (s : UInt8) :
    List.Forall₂ (Reports s) cs
      ((cs.map fun c => entry c.action c.address).filterMap (Entry.report? s)) := by
  induction cs with
  | nil => exact .nil
  | cons c cs ih =>
      obtain ⟨first, short⟩ := List.forall_mem_cons.mp short
      obtain ⟨-, r, report, told⟩ := report_entry first s
      rw [List.map_cons, List.filterMap_cons_some report]
      exact .cons told (ih short)

/-- The row of what commands come down to reads back. -/
theorem read_flatMap_carried (short : ∀ c ∈ cs, c.transition ≤ .ofSeconds 1020) :
    Entries.read (cs.flatMap carried) = some (cs.map fun c => entry c.action c.address) := by
  have row : cs.flatMap carried =
      (cs.map fun c => entry c.action c.address).flatMap Entry.write := by
    rw [List.flatMap_map]
    rfl
  rw [row, Entries.read_flatMap_write]
  intro e he
  obtain ⟨c, hc, rfl⟩ := List.mem_map.mp he
  exact (report_entry (short c hc) 0).1

/-- **Encoding and decoding agree.**  The line of a command is a backslash, the upper-case digits of
a packet whose octets add up to zero, the confirmation character of its key and a carriage return.
The line on which the bus shows that a unit has sent the same octets, those of any number of
commands one behind the other, decodes to one report for each of them: the address and the level
that were asked for, and the time that the shortest rate takes that lasts long enough. -/
theorem encode_decode_agree (s : UInt8) (some : cs ≠ [])
    (short : ∀ c ∈ cs, c.transition ≤ .ofSeconds 1020) :
    (∀ c ∈ cs, ∀ nonce, ∃ check, encode c nonce =
        0x5C :: octets (hexUpper ([0x05, 0x38, 0x00] ++ carried c ++ [check])) ++
          [(matchKey c nonce).token, 0x0D] ∧
      (([0x05, 0x38, 0x00] ++ carried c ++ [check]).map UInt8.toNat).sum % 256 = 0) ∧
    ∃ reports, decode (monitored s cs) = .ok (.status reports) ∧
      List.Forall₂ (Reports s) cs reports := by
  have told := forall₂_filterMap_report short s
  refine ⟨fun c _ nonce => encode_eq c nonce, _, ?_, told⟩
  have zero := sum_append_checksum ([header, s, lighting, 0] ++ cs.flatMap carried)
  rw [monitored, decode_of_spelt_packet (spelt_hexUpper _) zero, readBody, readReports,
    read_flatMap_carried short, Option.map_some]
  -- a report for each command is a report
  cases reports : (cs.map fun c => entry c.action c.address).filterMap (Entry.report? s) with
  | nil =>
      rw [reports] at told
      cases told
      exact absurd rfl some
  | cons r rs => rfl

/-- A ramp to darkness in ten seconds, which goes at the rate of twelve, and a switch. -/
theorem encode_decode_agree_of_fade :
    let fade : Command := ⟨.first, ⟨5⟩, .ramp .off (.ofSeconds 10), .start⟩
    let switch : Command := ⟨⟨2⟩, ⟨6⟩, .on, .start⟩
    (∀ c ∈ [fade, switch], c.transition ≤ .ofSeconds 1020) ∧
      (∃ reports, decode (monitored 0x10 [fade, switch]) = .ok (.status reports) ∧
        List.Forall₂ (Reports 0x10) [fade, switch] reports) ∧
      decode (monitored 0x10 [fade, switch]) = .ok (.status
        [⟨⟨5⟩, .off, .ofSeconds 12, some 0x10⟩, ⟨⟨6⟩, .full, .zero, some 0x10⟩]) :=
  have short : ∀ c ∈ ([⟨.first, ⟨5⟩, .ramp .off (.ofSeconds 10), .start⟩,
      ⟨⟨2⟩, ⟨6⟩, .on, .start⟩] : List Command), c.transition ≤ .ofSeconds 1020 := by decide
  ⟨short, (encode_decode_agree 0x10 (by simp) short).2, by decide +kernel⟩

end Lighting.Packet
