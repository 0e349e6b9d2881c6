import Lighting.Proofs.Dispatcher.Step
import Lighting.Proofs.Packet.Reading

/-!
# Noise

Not every frame that comes in has something to say to the dispatcher.  Some cannot be read or do not
concern lighting, some confirm another line than the one that waits, and some report only addresses
that are left alone.  All of that is noise: a frame that is noise leaves the dispatcher as it is
(`onFrame_of_isNoise`), with its agenda, its running number and its outbox.  So a run is the same
without the noise in it, frame by frame and line by line.

What is noise depends on the dispatcher that hears it, as a confirmation may answer the line in
flight or one that was given up.  Hence `withoutNoise` goes through a run with the dispatcher at
hand.

### Packets that are cut short

A lighting packet may be right in its sum and still end inside an entry.  Then it is read as an
error, and is noise as a whole: the entries before the one that is cut short are not taken over.
-/

namespace Lighting

namespace Packet

/-- A lighting packet whose octets add up to zero and end inside an entry. -/
def IsCutShort (frame : List UInt8) : Prop :=
  ∃ (source routing check : UInt8) (es : List Entry) (cut packet : List UInt8),
    packet = [header, source, lighting, routing] ++ (es.flatMap Entry.write ++ cut) ++ [check] ∧
      (∀ e ∈ es, e.IsKnown) ∧ Entries.IsCut cut ∧ Spelt frame packet ∧ sum packet = 0

theorem decode_of_isCutShort {frame : List UInt8} (short : IsCutShort frame) :
    decode frame = .error .truncated := by
  obtain ⟨source, routing, check, es, cut, packet, rfl, known, inside, spelt, zero⟩ := short
  rw [decode_of_spelt_packet spelt zero, readBody, readReports,
    Entries.read_flatMap_write_append_of_isCut known inside]
  rfl

end Packet

namespace Dispatcher

variable {d : Dispatcher} {frame : List UInt8} {now : Instant}

/-- Whether a frame has nothing to say: it cannot be read, does not concern lighting, confirms
another line than the one in flight, or reports only addresses that are left alone. -/
def isNoise (d : Dispatcher) (frame : List UInt8) : Bool :=
  match Packet.decode frame with
  | .error _ => true
  | .ok .unrecognized => true
  | .ok (.confirmation c) => d.inFlight.all fun a => c.token != a.key.token
  | .ok (.status reports) => reports.all fun r => d.excluded.get r.address

/-- Whether a step is a frame that is noise. -/
def Step.isNoise (d : Dispatcher) : Step → Bool
  | .frame octets _ => d.isNoise octets
  | _ => false

/-- The steps of a run without the frames that are noise when they come in.  Where the run stops,
nothing comes in any more. -/
def withoutNoise (d : Dispatcher) : List Step → List Step
  | [] => []
  | s :: rest =>
    let later := match d.step s with
      | .ok r => r.2.withoutNoise rest
      | .error _ => rest
    if s.isNoise d then later else s :: later

/-! ## One frame -/

theorem onConfirmation_of_other {c : Packet.Confirmation}
    (other : (d.inFlight.all fun a => c.token != a.key.token) = true) :
    d.onConfirmation c now = .ok d := by
  unfold onConfirmation
  cases flight : d.inFlight with
  | none => rfl
  | some a =>
      rw [flight, Option.all_some, bne_iff_ne] at other
      have silent : a.key.matches c = false := by
        rw [Packet.MatchKey.matches, beq_eq_false_iff_ne.mpr other, Bool.false_and, Bool.false_and]
      simp only [silent, Bool.false_eq_true, if_false]

theorem onReports_of_excluded {reports : List Packet.Report}
    (all : (reports.all fun r => d.excluded.get r.address) = true) :
    onReports now reports d = .ok d := by
  induction reports with
  | nil => rfl
  | cons r rs ih =>
      obtain ⟨first, all⟩ := Bool.and_eq_true_iff.mp all
      have idle : d.onReport now r = .ok d := if_pos first
      rw [onReports, idle]
      exact ih all

/-- **A frame that is noise leaves the dispatcher as it is.** -/
theorem onFrame_of_isNoise (noise : d.isNoise frame = true)
    (whole : Packet.decode frame ≠ .error .splitCharacter) : d.onFrame now frame = .ok d := by
  unfold isNoise at noise
  unfold onFrame
  cases decoded : Packet.decode frame with
  | error e =>
      rw [decoded] at whole
      cases e <;> first | rfl | exact absurd rfl whole
  | ok inbound =>
      rw [decoded] at noise
      cases inbound with
      | unrecognized => rfl
      | confirmation c => exact onConfirmation_of_other noise
      | status reports => exact onReports_of_excluded noise

/-! ## Whole runs -/

theorem step_of_isNoise {s : Step} (noise : s.isNoise d = true)
    (whole : ∀ octets now, s = .frame octets now → Packet.decode octets ≠ .error .splitCharacter) :
    d.step s = .ok (none, d) := by
  cases s with
  | frame octets now =>
      rw [step, onFrame_of_isNoise noise (whole octets now rfl)]
      rfl
  | _ => cases noise

/-- A step that changes nothing and sends nothing may be left out. -/
theorem run_cons_of_idle {s : Step} (idle : d.step s = .ok (none, d)) (rest : List Step) :
    d.run (s :: rest) = d.run rest := by
  rw [run_cons, idle]
  show (d.run rest).map _ = _
  cases d.run rest <;> rfl

/-- Runs that begin with the same step are the same if they go on in the same way. -/
theorem run_cons_congr {s : Step} {rest rest' : List Step}
    (same : ∀ frame d', d.step s = .ok (frame, d') → d'.run rest = d'.run rest') :
    d.run (s :: rest) = d.run (s :: rest') := by
  rw [run_cons, run_cons]
  cases first : d.step s with
  | error stop => rfl
  | ok r =>
      show (r.2.run rest).map _ = (r.2.run rest').map _
      rw [same r.1 r.2 first]

/-- A run is the same without its noise. -/
theorem run_withoutNoise {steps : List Step}
    (whole : ∀ octets now, .frame octets now ∈ steps →
      Packet.decode octets ≠ .error .splitCharacter) :
    d.run (d.withoutNoise steps) = d.run steps := by
  induction steps generalizing d with
  | nil => rfl
  | cons s rest ih =>
      have later {d' : Dispatcher} : d'.run (d'.withoutNoise rest) = d'.run rest :=
        ih fun octets now there => whole octets now (List.mem_cons_of_mem s there)
      rw [withoutNoise]
      by_cases noise : s.isNoise d = true
      · have idle := step_of_isNoise noise fun octets now same =>
          whole octets now (same ▸ List.mem_cons_self)
        rw [if_pos noise, idle, run_cons_of_idle idle]
        exact later
      · rw [if_neg noise]
        refine run_cons_congr fun frame d' first => ?_
        rw [first]
        exact later

/-- **Noise has no effect.**  Take any run whose frames can all be decoded, to a meaning or to an
error. Without the frames that cannot be read, that do not concern lighting, that confirm another
line than the one in flight, or that report only addresses that are left alone, it sends the same
lines and leaves the dispatcher the same, with all that it tells.  A lighting packet that ends
inside an entry is such a frame as a whole, whatever entries stand before the one that is cut short.
-/
theorem noise_has_no_effect {steps : List Step}
    (whole : ∀ octets now, .frame octets now ∈ steps →
      Packet.decode octets ≠ .error .splitCharacter) :
    d.run (d.withoutNoise steps) = d.run steps ∧
      ∀ frame, Packet.IsCutShort frame → Packet.decode frame = .error .truncated ∧
        ∀ (d : Dispatcher) (now : Instant),
          d.isNoise frame = true ∧ d.onFrame now frame = .ok d := by
  refine ⟨run_withoutNoise whole, fun frame short => ?_⟩
  have decoded := Packet.decode_of_isCutShort short
  have noise (d : Dispatcher) : d.isNoise frame = true := by rw [isNoise, decoded]
  exact ⟨decoded, fun d now => ⟨noise d, onFrame_of_isNoise (noise d) (decoded ▸ nofun)⟩⟩

/-- The second command is in flight when the answer to the first comes once more.  That answer, an
octet that is no text, a report for an address that is left alone and a packet that ends inside its
second entry are noise; the answer to the second command is not. -/
theorem noise_has_no_effect_of_four :
    let steps : List Step :=
      [.linkUp, .enqueue ⟨⟨1⟩, ⟨4⟩, .on, .start⟩ .start, .poll .start,
        .frame (Packet.octets "h.".toList) (.ofMillis 10),
        .enqueue ⟨⟨2⟩, ⟨6⟩, .on, .start⟩ (.ofMillis 10), .poll (.ofMillis 200),
        .frame (Packet.octets "h.".toList) (.ofMillis 210), .frame [0xFF] (.ofMillis 220),
        .frame (Packet.octets "05013800790742".toList) (.ofMillis 230),
        .frame (Packet.octets "0501380079040A0437".toList) (.ofMillis 240),
        .frame (Packet.octets "i.".toList) (.ofMillis 250)]
    (∀ octets now, .frame octets now ∈ steps → Packet.decode octets ≠ .error .splitCharacter) ∧
      (create .standard [⟨7⟩]).run ((create .standard [⟨7⟩]).withoutNoise steps) =
        (create .standard [⟨7⟩]).run steps ∧
      ((create .standard [⟨7⟩]).withoutNoise steps).length = 7 ∧
      ((create .standard [⟨7⟩]).run steps).toOption.map (fun r => r.2.outbox.length) = some 5 := by
  intro steps
  have whole : ∀ octets now, .frame octets now ∈ steps →
      Packet.decode octets ≠ .error .splitCharacter := by
    intro octets now there
    simp only [steps, List.mem_cons, Step.frame.injEq, reduceCtorEq, List.not_mem_nil, false_or,
      or_false] at there
    rcases there with ⟨rfl, -⟩ | ⟨rfl, -⟩ | ⟨rfl, -⟩ | ⟨rfl, -⟩ | ⟨rfl, -⟩ | ⟨rfl, -⟩ <;>
      decide +kernel
  exact ⟨whole, (noise_has_no_effect whole).1, by decide +kernel, by decide +kernel⟩

end Dispatcher

end Lighting
