import Lighting.Proofs.Packet.Reading

/-!
# The grammar of a lighting packet

The body of a lighting packet is a row of entries with a tail behind it.  An entry has one of four
forms (`Form`), and its command code says which, and how many octets it takes (`length?`).  The tail
is what no entry can be taken off: it is empty, or begins with an octet that is no command code, or
ends inside its entry (`Tail`).

Every row of octets can be parted so (`exists_parted`), and in one way only (`Parted.unique`): codes
are told apart by their first octet, so that where one entry ends the next step is never a choice.
Reading finds that way (`Parted.readReports_eq`).  The grammar is written down here octet by octet and apart
from the tables that reading and writing go by; `form_iff` says that they agree.
-/

namespace Lighting.Packet.Entries

/-! ## The grammar -/

/-- The forms of an entry: its octets, and what unit `source` reports by it. -/
inductive Form (source : UInt8) : Entry → List UInt8 → Option Report → Prop where
  /-- Full brightness. -/
  | on (ga : UInt8) : Form source (.on ga) [0x79, ga] (some ⟨⟨ga⟩, ⟨255⟩, .zero, some source⟩)
  /-- Darkness. -/
  | off (ga : UInt8) : Form source (.off ga) [0x01, ga] (some ⟨⟨ga⟩, ⟨0⟩, .zero, some source⟩)
  /-- The end of a ramp, which names no level. -/
  | endRamp (ga : UInt8) : Form source (.endRamp ga) [0x09, ga] none
  /-- A ramp at one of the sixteen rates. -/
  | ramp {rate : Rate} (native : rate ∈ Rate.all) (ga level : UInt8) :
      Form source (.ramp rate ga level) [rate.code, ga, level]
        (some ⟨⟨ga⟩, ⟨level⟩, rate.duration, some source⟩)

/-- How many octets an entry with this command code takes; none if it is no command code. -/
def length? (code : UInt8) : Option Nat :=
  if code = 0x79 ∨ code = 0x01 ∨ code = 0x09 then some 2
  else if ∃ rate ∈ Rate.all, rate.code = code then some 3
  else none

/-- What may stand behind the entries of a row. -/
inductive Ending where
  /-- Nothing. -/
  | whole
  /-- An octet that is no command code, and anything after it. -/
  | foreign
  /-- The beginning of an entry. -/
  | cut
deriving DecidableEq

/-- A row of octets that no entry can be taken off, and why. -/
inductive Tail : List UInt8 → Ending → Prop where
  | whole : Tail [] .whole
  | foreign {code : UInt8} {rest : List UInt8} (other : length? code = none) :
      Tail (code :: rest) .foreign
  | cut {code : UInt8} {rest : List UInt8} {n : Nat} (known : length? code = some n)
      (short : (code :: rest).length < n) : Tail (code :: rest) .cut

/-- A row of octets is parted into entries, with what they report, and a tail. -/
inductive Parted (source : UInt8) :
    List UInt8 → List Entry → List Report → List UInt8 → Ending → Prop where
  /-- There is no entry in front. -/
  | tail {octets : List UInt8} {ending : Ending} (ends : Tail octets ending) :
      Parted source octets [] [] octets ending
  /-- There is an entry in front, and what is behind it is parted. -/
  | entry {e : Entry} {es : List Entry} {front more tail : List UInt8} {report : Option Report}
      {reports : List Report} {ending : Ending} (first : Form source e front report)
      (rest : Parted source more es reports tail ending) :
      Parted source (front ++ more) (e :: es) (report.toList ++ reports) tail ending

variable {source : UInt8} {e : Entry} {es es' : List Entry} {octets front rest tail tail' : List UInt8}
  {report : Option Report} {reports reports' : List Report} {ending ending' : Ending}

/-! ## One entry -/

/-- The forms are what is written and reported. -/
theorem form_iff : Form source e front report ↔
    e.IsKnown ∧ front = e.write ∧ report = e.report? source := by
  constructor
  · rintro (ga | ga | ga | ⟨native, ga, level⟩)
    · exact ⟨trivial, rfl, rfl⟩
    · exact ⟨trivial, rfl, rfl⟩
    · exact ⟨trivial, rfl, rfl⟩
    · exact ⟨native, rfl, rfl⟩
  · rintro ⟨known, rfl, rfl⟩
    cases e with
    | on ga => exact .on ga
    | off ga => exact .off ga
    | endRamp ga => exact .endRamp ga
    | ramp rate ga level => exact .ramp known ga level

theorem length?_of_rate {rate : Rate} (native : rate ∈ Rate.all) : length? rate.code = some 3 := by
  have apart : ¬ (rate.code = 0x79 ∨ rate.code = 0x01 ∨ rate.code = 0x09) := by
    obtain ⟨on, off, endRamp⟩ := code_ne native
    rintro (code | code | code)
    · exact on code
    · exact off code
    · exact endRamp code
  rw [length?, if_neg apart, if_pos ⟨rate, native, rfl⟩]

/-- A row begins with an entry if its first octet is a command code and the octets of the entry are
there. -/
theorem exists_form {code : UInt8} {n : Nat} (source : UInt8) (known : length? code = some n)
    (rest : List UInt8) (long : n ≤ (code :: rest).length) :
    ∃ e front report more, Form source e front report ∧ code :: rest = front ++ more := by
  unfold length? at known
  split at known
  · rename_i two
    obtain rfl := Option.some.inj known
    match rest, long with
    | ga :: more, _ =>
        rcases two with rfl | rfl | rfl
        · exact ⟨_, _, _, more, .on ga, rfl⟩
        · exact ⟨_, _, _, more, .off ga, rfl⟩
        · exact ⟨_, _, _, more, .endRamp ga, rfl⟩
  · split at known
    · rename_i three
      obtain rfl := Option.some.inj known
      obtain ⟨rate, native, rfl⟩ := three
      match rest, long with
      | ga :: level :: more, _ => exact ⟨_, _, _, more, .ramp native ga level, rfl⟩
    · cases known

/-- The entry in front is the one that is taken off. -/
theorem next_of_form (form : Form source e front report) (rest : List UInt8) :
    next (front ++ rest) = .entry e rest := by
  obtain ⟨known, rfl, -⟩ := form_iff.mp form
  exact next_write_append known rest

theorem length_pos_of_form (form : Form source e front report) : 0 < front.length := by
  cases form <;> exact Nat.succ_pos _

/-- Every command code is that of an entry. -/
theorem exists_entry {code : UInt8} {n : Nat} (known : length? code = some n) :
    ∃ e : Entry, e.IsKnown ∧ e.write.head? = some code ∧ e.write.length = n := by
  obtain ⟨e, front, report, more, form, row⟩ :=
    exists_form 0 known (List.replicate n 0) (by simp)
  obtain ⟨native, rfl, -⟩ := form_iff.mp form
  have head : e.write.head? = some code := by
    have := congrArg List.head? row
    rw [List.head?_append_of_ne_nil _ (List.ne_nil_of_length_pos (length_pos_of_form form))] at this
    exact this.symm
  refine ⟨e, native, head, ?_⟩
  have size : length? code = some e.write.length := by
    cases form with
    | ramp native ga level =>
        obtain rfl := Option.some.inj head
        exact length?_of_rate native
    | _ =>
        obtain rfl := Option.some.inj head
        rfl
  exact Option.some.inj (size.symm.trans known)

/-- No entry is taken off an octet that is no command code. -/
theorem next_of_foreign {code : UInt8} (other : length? code = none) (rest : List UInt8) :
    next (code :: rest) = .done := by
  unfold length? at other
  split at other
  · cases other
  · rename_i apart
    split at other
    · cases other
    · rename_i noRate
      have unknown : Rate.ofCode? code = none := by
        rw [Option.eq_none_iff_forall_ne_some]
        exact fun rate found => noRate ⟨rate, Rate.ofCode?_eq_some_iff.mp found⟩
      simp only [not_or] at apart
      obtain ⟨on, off, endRamp⟩ := apart
      rw [next.eq_def]
      simp only [onCode, offCode, endRampCode, if_neg on, if_neg off, if_neg endRamp, unknown]

/-- No entry is taken off a tail, and it is an error only if an entry is cut short. -/
theorem next_of_tail (h : Tail tail ending) :
    next tail = if ending = .cut then .truncated else .done := by
  cases h with
  | whole => rfl
  | foreign other => exact next_of_foreign other _
  | cut known short =>
      obtain ⟨e, native, head, size⟩ := exists_entry known
      exact next_of_short native head (size ▸ short)

/-! ## The whole row -/

/-- **Every row can be parted.** -/
theorem exists_parted (source : UInt8) (octets : List UInt8) :
    ∃ es reports tail ending, Parted source octets es reports tail ending := by
  -- on the length, since an entry takes two octets or three
  induction length : octets.length using Nat.strongRecOn generalizing octets with
  | _ n ih =>
    cases octets with
    | nil => exact ⟨_, _, _, _, .tail .whole⟩
    | cons code rest =>
        cases size : length? code with
        | none => exact ⟨_, _, _, _, .tail (.foreign size)⟩
        | some k =>
            by_cases short : (code :: rest).length < k
            · exact ⟨_, _, _, _, .tail (.cut size short)⟩
            · obtain ⟨e, front, report, more, form, row⟩ :=
                exists_form source size rest (Nat.not_lt.mp short)
              have shorter : more.length < n := by
                have := length_pos_of_form form
                rw [← length, row, List.length_append]
                omega
              obtain ⟨es, reports, tail, ending, later⟩ := ih _ shorter more rfl
              rw [row]
              exact ⟨_, _, _, _, .entry form later⟩

theorem Tail.unique (h : Tail tail ending) (h' : Tail tail ending') : ending = ending' := by
  cases h with
  | whole => cases h'; rfl
  | foreign other =>
      cases h' with
      | foreign => rfl
      | cut known => rw [other] at known; cases known
  | cut known short =>
      cases h' with
      | foreign other => rw [other] at known; cases known
      | cut => rfl

/-- A tail does not begin with an entry. -/
theorem Tail.ne_append (h : Tail tail ending) (form : Form source e front report)
    (more : List UInt8) : front ++ more ≠ tail := by
  rintro rfl
  have := (next_of_form form more).symm.trans (next_of_tail h)
  split at this <;> cases this

/-- **A row can be parted in one way only.** -/
theorem Parted.unique (h : Parted source octets es reports tail ending)
    (h' : Parted source octets es' reports' tail' ending') :
    es = es' ∧ reports = reports' ∧ tail = tail' ∧ ending = ending' := by
  induction h generalizing es' reports' tail' ending' with
  | tail ends =>
      cases h' with
      | tail ends' => exact ⟨rfl, rfl, rfl, ends.unique ends'⟩
      | entry first rest => exact absurd rfl (ends.ne_append first _)
  | @entry e es front more tail report reports ending first rest ih =>
      generalize same : front ++ more = octets at h'
      cases h' with
      | tail ends => exact absurd same (ends.ne_append first more)
      | @entry e' es' front' more' _ report' _ _ first' rest' =>
          -- both begin with the entry that is taken off
          have next := (next_of_form first more).symm.trans (same ▸ next_of_form first' more')
          obtain ⟨rfl, rfl⟩ := Next.entry.inj next
          obtain ⟨-, rfl, rfl⟩ := form_iff.mp first
          obtain ⟨-, rfl, rfl⟩ := form_iff.mp first'
          obtain ⟨rfl, rfl, rfl, rfl⟩ := ih rest'
          exact ⟨rfl, rfl, rfl, rfl⟩

/-- What a row is parted into makes up the row. -/
theorem Parted.eq_append (h : Parted source octets es reports tail ending) :
    octets = es.flatMap Entry.write ++ tail ∧ (∀ e ∈ es, e.IsKnown) ∧
      reports = es.filterMap (Entry.report? source) ∧ Tail tail ending := by
  induction h with
  | tail ends => exact ⟨rfl, nofun, rfl, ends⟩
  | entry first rest ih =>
      obtain ⟨known, rfl, rfl⟩ := form_iff.mp first
      obtain ⟨rfl, others, rfl, ends⟩ := ih
      refine ⟨by rw [List.flatMap_cons, List.append_assoc], List.forall_mem_cons.mpr ⟨known, others⟩,
        ?_, ends⟩
      rw [List.filterMap_cons]
      split <;> simp [*]

/-- **Reading a row finds what it is parted into.** -/
theorem Parted.readReports_eq (h : Parted source octets es reports tail ending) :
    readReports source octets = if ending = .cut then none else some reports := by
  obtain ⟨rfl, known, rfl, ends⟩ := h.eq_append
  rw [readReports, read_flatMap_write_append known, read_eq, next_of_tail ends]
  cases ending <;> simp

/-- What a lighting packet says whose octets add up to zero, when its body is parted. -/
theorem Parted.decode_eq {frame : List UInt8} {routing check : UInt8}
    (h : Parted source octets es reports tail ending)
    (spelt : Spelt frame ([header, source, lighting, routing] ++ octets ++ [check]))
    (zero : sum ([header, source, lighting, routing] ++ octets ++ [check]) = 0) :
    decode frame = if ending = .cut then .error .truncated
      else .ok (if reports = [] then .unrecognized else .status reports) := by
  rw [decode_of_spelt_packet spelt zero, readBody, h.readReports_eq]
  cases ending <;> cases reports <;> rfl

/-- **Reading goes by the grammar.**  Every row of octets is parted into entries and a tail, and in one
way only.  If the tail is empty or begins with no command code, reading gives what the entries report,
in their order and each from the given source, and so does a frame that spells a lighting packet
around the row.  If the row ends inside an entry, reading gives nothing, and such a frame is an error
as a whole.  Reading comes to its end in no more rounds than there are octets: with leave for more of
them it reads the same. -/
theorem readReports_grammar (source : UInt8) (octets : List UInt8) :
    (∃! parts : List Entry × List UInt8,
      ∃ reports ending, Parted source octets parts.1 reports parts.2 ending) ∧
    (∀ rounds, octets.length ≤ rounds → readUpTo rounds octets = read octets) ∧
    ∀ es reports tail ending, Parted source octets es reports tail ending →
      (ending = .whole ∨ ending = .foreign →
        readReports source octets = some reports ∧
        ∀ frame routing check,
          Spelt frame ([0x05, source, 0x38, routing] ++ octets ++ [check]) →
          sum ([0x05, source, 0x38, routing] ++ octets ++ [check]) = 0 →
          decode frame = .ok (if reports = [] then .unrecognized else .status reports)) ∧
      (ending = .cut →
        readReports source octets = none ∧
        ∀ frame routing check,
          Spelt frame ([0x05, source, 0x38, routing] ++ octets ++ [check]) →
          sum ([0x05, source, 0x38, routing] ++ octets ++ [check]) = 0 →
          decode frame = .error .truncated ∧
            DecodeError.truncated.message? = some "malformed frame: truncated lighting SAL") := by
  refine ⟨?_, fun rounds enough => readUpTo_congr enough (Nat.le_refl _), ?_⟩
  · obtain ⟨es, reports, tail, ending, parted⟩ := exists_parted source octets
    refine ⟨(es, tail), ⟨reports, ending, parted⟩, fun other ⟨_, _, parted'⟩ => ?_⟩
    obtain ⟨rfl, -, rfl, -⟩ := parted.unique parted'
    rfl
  · intro es reports tail ending parted
    constructor
    · rintro (rfl | rfl) <;>
        exact ⟨parted.readReports_eq, fun _ _ _ spelt zero => parted.decode_eq spelt zero⟩
    · rintro rfl
      exact ⟨parted.readReports_eq, fun _ _ _ spelt zero => ⟨parted.decode_eq spelt zero, rfl⟩⟩

/-- A ramp of four seconds and a switch, and the same with half an entry behind them. -/
theorem readReports_grammar_of_two :
    let row : List UInt8 := [0x0A, 0x03, 0x40, 0x01, 0x04]
    let es : List Entry := [.ramp ⟨0x0A, 4⟩ 3 0x40, .off 4]
    let reports : List Report :=
      [⟨⟨3⟩, ⟨0x40⟩, .ofSeconds 4, some 2⟩, ⟨⟨4⟩, .off, .zero, some 2⟩]
    let whole : List UInt8 := [0x05, 0x02, 0x38, 0x00] ++ row ++ [0x6F]
    let cut : List UInt8 := [0x05, 0x02, 0x38, 0x00] ++ (row ++ [0x79]) ++ [0xF6]
    (Parted 2 row es reports [] .whole ∧ readReports 2 row = some reports ∧
      Spelt (Packet.octets (Text.hexUpper whole)) whole ∧ sum whole = 0 ∧
      decode (Packet.octets (Text.hexUpper whole)) = .ok (.status reports)) ∧
    Parted 2 (row ++ [0x79]) es reports [0x79] .cut ∧ readReports 2 (row ++ [0x79]) = none ∧
      Spelt (Packet.octets (Text.hexUpper cut)) cut ∧ sum cut = 0 ∧
      decode (Packet.octets (Text.hexUpper cut)) = .error .truncated := by
  intro row es reports whole cut
  have native : (⟨0x0A, 4⟩ : Rate) ∈ Rate.all := by decide
  have parted : Parted 2 row es reports [] .whole :=
    .entry (.ramp native 3 0x40) (.entry (.off 4) (.tail .whole))
  have parted' : Parted 2 (row ++ [0x79]) es reports [0x79] .cut :=
    .entry (.ramp native 3 0x40) (.entry (.off 4) (.tail (.cut (n := 2) (by decide) (by decide))))
  have spelt : Spelt (Packet.octets (Text.hexUpper whole)) whole := spelt_hexUpper whole
  have spelt' : Spelt (Packet.octets (Text.hexUpper cut)) cut := spelt_hexUpper cut
  have zero : sum whole = 0 := by decide
  have zero' : sum cut = 0 := by decide
  obtain ⟨read, decoded⟩ := ((readReports_grammar 2 row).2.2 _ _ _ _ parted).1 (Or.inl rfl)
  obtain ⟨nothing, error⟩ := ((readReports_grammar 2 (row ++ [0x79])).2.2 _ _ _ _ parted').2 rfl
  exact ⟨⟨parted, read, spelt, zero, decoded _ 0x00 0x6F spelt zero⟩, parted', nothing, spelt', zero',
    (error _ 0x00 0xF6 spelt' zero').1⟩

end Lighting.Packet.Entries
