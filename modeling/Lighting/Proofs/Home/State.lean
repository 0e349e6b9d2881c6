import Lighting.Proofs.Home.Command
import Lighting.Proofs.Json.RoundTrip

/-!
# A published state, taken as a command

The home may send back what it was shown.  For a device that is only switched this is the name of a
state, which is no JSON and so is taken as a plain text.  For a light it is a flat object: of its six
fields a command knows the first three, and passes over the others.  Either way what is shown names a
state, and what a payload asks for is known from there on (`readCommandBy_of_names`).

Only the transition is not the same number again: seconds become a binary value, which may be rounded,
but not across a whole number of seconds that such a value holds, and a day is one
(`eq_ofSeconds_of_lasts`).

What this asks of a reader of JSON texts is `JsonReader.ReadsBack`: it knows what was written, and takes
no bare word for JSON.  A state comes back by any such reader (`reads_back_by`), and the one of this
library is one (`readsBack_ofJson?`).
-/

namespace Lighting.Home

open Binary (Format Value IsNearest double)
open Json (Document Numeral members numberBody stringBody)
open Text.Utf8 (encode)

variable {json? : JsonReader} {s : DeviceState} {kind : DeviceKind} {d : Wish.Draft}

/-- An action asks for what a state shows: a light that dims is asked for the level that counts, within
the whole seconds of the last change but no more than a day; everything else is switched. -/
inductive Restores (s : DeviceState) : DeviceKind → Action → Prop where
  /-- A light that dims. -/
  | dimmed {action : Action} (level : action.target = s.best)
      (time : action.transition = .ofSeconds (min s.transition.seconds 86400)) :
      Restores s .light action
  /-- Any other device. -/
  | switched {kind : DeviceKind} (other : kind ≠ .light) :
      Restores s kind (if s.isOn then .on else .off)

/-- What is relied on of a reader of JSON texts when a state comes back. -/
structure JsonReader.ReadsBack (json? : JsonReader) : Prop where
  /-- The transitions it reads are finite. -/
  finite : json?.IsFinite
  /-- The word of a state by itself is no JSON of the right form. -/
  word : ∀ on, json? (encode (stateWord on)) = none
  /-- The state of a light has the fields that were written; its seconds become a binary value and may be
  rounded. -/
  light : ∀ s kind, ∃ units : Nat, double.SameSide s.transition.seconds units ∧
    json? (encode (lightState s kind).toText.toList) =
      some ⟨(stateName s).toList, some s.best.toNat, some (.finite units)⟩

/-! ## Names of states -/

theorem stateName_toList (s : DeviceState) : (stateName s).toList = stateWord s.isOn := by
  rw [stateName]
  cases s.isOn <;> rfl

theorem names_stateName (s : DeviceState) : Names s.isOn (stateName s).toList := by
  refine ⟨[], stateWord s.isOn, [], nofun, nofun, ?_, ?_⟩
  · rw [stateName_toList, List.nil_append, List.append_nil]
  · cases s.isOn <;> rfl

/-- The name of a state by itself is a plain text. -/
theorem JsonReader.ReadsBack.isOf_stateName (reader : json?.ReadsBack) (s : DeviceState) :
    Wish.IsOf json? (encode (stateName s).toList) ⟨(stateName s).toList, none, none⟩ := by
  have read := Text.Utf8.decode_encode (stateName s).toList
  refine .text ?_ read ?_
  · rw [stateName_toList]
    exact reader.word s.isOn
  · rw [stateName_toList]
    cases s.isOn <;> rfl

/-! ## Fields -/

namespace Wish.Draft

/-- A field that is written is taken under its name. -/
theorem takeAll_cons (d : Draft) (key : String) (value : Document)
    (fields : List (String × Document)) :
    d.takeAll (members ((key, value) :: fields)) =
      (d.take key.toList value.scalar).bind (·.takeAll (members fields)) := by
  show (Json.stringChars? (stringBody key)).bind _ = _
  rw [Json.stringChars?_stringBody, Option.bind_some]
  rfl

theorem take_state (fresh : d.state = none) (text : String) :
    d.take "state".toList (Document.string text).scalar =
      some { d with state := some text.toList } := by
  simp [take, fresh, Document.scalar, textField?, Json.stringChars?_stringBody]

theorem take_brightness (fresh : d.brightness = none) {n : Nat} (fits : n < Text.signedLimit) :
    d.take "brightness".toList (Document.number n).scalar =
      some { d with brightness := some (some (n : Int)) } := by
  have value : (Numeral.ofDigits (numberBody n)).int64? = some (n : Int) := by
    rw [Numeral.int64?_ofDigits] <;> rw [Json.digitsValue_numberBody]
    exact fits
  simp [take, fresh, Document.scalar, integerField?, value]

theorem take_transition (fresh : d.transition = none) {n : Nat} {x : Value double}
    (value : (Numeral.ofDigits (numberBody n)).value? = some x) :
    d.take "transition".toList (Document.number n).scalar =
      some { d with transition := some (some x) } := by
  simp [take, fresh, Document.scalar, numberField?, value]

/-- Fields of other names are passed over. -/
theorem takeAll_others (d : Draft) {fields : List (String × Document)}
    (others : ∀ field ∈ fields, field.1 ∉ ["state", "brightness", "transition"]) :
    d.takeAll (members fields) = some d := by
  induction fields with
  | nil => rfl
  | cons field fields ih =>
      obtain ⟨other, others⟩ := List.forall_mem_cons.mp others
      simp only [List.mem_cons, List.not_mem_nil, or_false, not_or] at other
      obtain ⟨state, brightness, transition⟩ := other
      rw [takeAll_cons, take, if_neg (mt String.toList_inj.mp state),
        if_neg (mt String.toList_inj.mp brightness), if_neg (mt String.toList_inj.mp transition)]
      exact ih others

end Wish.Draft

/-- The wish of an object that is written. -/
theorem Wish.ofFields?_members (text : String) {level seconds : Nat} {x : Value double}
    {others : List (String × Document)} (fits : level < Text.signedLimit)
    (value : (Numeral.ofDigits (numberBody seconds)).value? = some x)
    (other : ∀ field ∈ others, field.1 ∉ ["state", "brightness", "transition"]) :
    ofFields? (members (("state", .string text) :: ("brightness", .number level) ::
      ("transition", .number seconds) :: others)) = some ⟨text.toList, some level, some x⟩ := by
  rw [ofFields?, Draft.takeAll_cons, Draft.take_state rfl, Option.bind_some,
    Draft.takeAll_cons, Draft.take_brightness rfl fits, Option.bind_some,
    Draft.takeAll_cons, Draft.take_transition rfl value, Option.bind_some,
    Draft.takeAll_others _ other]
  rfl

/-! ## States of lights -/

/-- **What the state of a light asks for**, as this library reads JSON: its name, its level and its
seconds, as a binary value. -/
theorem ofJson?_lightState (s : DeviceState) (kind : DeviceKind) :
    ∃ units : Nat, double.SameSide s.transition.seconds units ∧
      Wish.ofJson? (encode (lightState s kind).toText.toList) =
        some ⟨(stateName s).toList, some s.best.toNat, some (.finite units)⟩ := by
  have word : Numeral.digitsValue (numberBody s.transition.seconds) < Text.wordLimit := by
    rw [Json.digitsValue_numberBody]
    exact Nat.div_lt_of_lt_mul (Nat.lt_of_lt_of_eq s.transition.lt_limit (Nat.mul_comm _ _))
  have octet : s.best.toNat < Text.signedLimit := Nat.lt_trans s.best.toNat_lt (by decide)
  obtain ⟨units, value, sides⟩ := Numeral.exists_value?_ofDigits word
  rw [Json.digitsValue_numberBody] at sides
  refine ⟨units, sides, ?_⟩
  rw [Document.toText, String.toList_ofList, Wish.ofJson?, lightState, Json.read_write,
    Option.bind_some]
  · exact Wish.ofFields?_members (stateName s) octet value (by simp)
  · exact List.cons_ne_nil _ _
  · simp only [List.forall_mem_cons, List.not_mem_nil, false_imp_iff, implies_true, and_true]
    refine ⟨trivial, trivial, trivial, trivial, trivial, ?_⟩
    cases s.source <;> trivial

/-- **This library reads back what it writes.** -/
theorem readsBack_ofJson? : JsonReader.ReadsBack Wish.ofJson? where
  finite := isFinite_ofJson?
  word := fun on => by cases on <;> rfl
  light := ofJson?_lightState

theorem eq_of_means {l level : Level} (means : Means (some l.toNat) level) : level = l := by
  cases means with
  | given near =>
      have octet := l.toNat_lt
      exact Level.ext (by omega)

/-- **A number of seconds lasts that long, or a day.** -/
theorem eq_ofSeconds_of_lasts {n units : Nat} {span : Duration} (sides : double.SameSide n units)
    (lasts : Lasts (some (.finite units)) span) : span = .ofSeconds (min n 86400) := by
  cases lasts with
  | none nothing =>
      -- one second would be some units
      have zero : n = 0 := by
        by_contra more
        have one := (sides 1 (by decide)).1 (Nat.pos_of_ne_zero more)
        have ones := double.units_pos
        omega
      rw [zero]
      rfl
  | some positive near =>
      rw [show (86400 : ℚ) = (86400 : Nat) from rfl, sides.min_toRat (by decide)] at near
      have nanos : span.nanos = min n 86400 * nanosPerSecond :=
        IsNearest.eq (by exact_mod_cast near)
      have inside : min n 86400 * nanosPerSecond < Duration.limit := by
        have short := Nat.min_le_right n 86400
        simp only [Duration.limit, nanosPerSecond]
        omega
      exact Duration.ext (nanos.trans (Duration.nanos_ofNanos inside).symm)

theorem best_eq_off (dark : s.isOn = false) : s.best = .off := by
  rw [DeviceState.isOn, Bool.not_eq_eq_eq_not, Bool.not_false] at dark
  exact Level.isOff_iff.mp dark

/-- What a payload with the name, the level and the seconds of a state asks for restores it. -/
theorem restores_of_asks {level : Level} {span : Duration} {action : Action} (bright : level = s.best)
    (time : span = .ofSeconds (min s.transition.seconds 86400))
    (asks : Asks s.isOn level span kind action) : Restores s kind action := by
  cases asks with
  | switched other => exact .switched other
  | full turn full once => exact .dimmed (full.symm.trans bright) (once.symm.trans time)
  | level turn other => exact .dimmed bright time
  | dark turn once => exact .dimmed (best_eq_off turn).symm (once.symm.trans time)
  | fade turn slow => exact .dimmed (best_eq_off turn).symm time

/-- The state of a light is restored, whether the light dims or not. -/
theorem lightState_reads_back (reader : json?.ReadsBack) (s : DeviceState) (kind : DeviceKind) :
    ∃ action, readCommandBy json? (encode (lightState s kind).toText.toList) kind = .ok action ∧
      Restores s kind action := by
  obtain ⟨units, sides, json⟩ := reader.light s kind
  have isOf := Wish.IsOf.json json
  obtain ⟨level, span, means, lasts, -, taken⟩ :=
    readCommandBy_of_names reader.finite isOf (names_stateName s)
  obtain ⟨action, asks, read⟩ := taken kind
  exact ⟨action, read,
    restores_of_asks (eq_of_means means) (eq_ofSeconds_of_lasts sides lasts) asks⟩

/-- The name of a state restores it where nothing dims. -/
theorem stateName_reads_back (reader : json?.ReadsBack) (s : DeviceState) (other : kind ≠ .light) :
    ∃ action, readCommandBy json? (encode (stateName s).toList) kind = .ok action ∧
      Restores s kind action := by
  obtain ⟨level, span, -, -, -, taken⟩ :=
    readCommandBy_of_names reader.finite (reader.isOf_stateName s) (names_stateName s)
  obtain ⟨action, asks, read⟩ := taken kind
  refine ⟨action, read, ?_⟩
  cases asks with
  | switched => exact .switched other
  | _ => exact absurd rfl other

/-- **A state that is shown comes back, by any reader** that reads back what was written. -/
theorem reads_back_by (reader : json?.ReadsBack) (s : DeviceState) (shown : kind ≠ .ignore) :
    ∃ text action, statePayload s kind = some text ∧
      readCommandBy json? (encode text.toList) kind = .ok action ∧ Restores s kind action := by
  cases kind with
  | ignore => exact absurd rfl shown
  | light =>
      obtain ⟨action, read⟩ := lightState_reads_back reader s .light
      exact ⟨_, action, rfl, read⟩
  | lightNonDimmable =>
      obtain ⟨action, read⟩ := lightState_reads_back reader s .lightNonDimmable
      exact ⟨_, action, rfl, read⟩
  | switch =>
      have other : DeviceKind.switch ≠ .light := nofun
      obtain ⟨action, read⟩ := stateName_reads_back reader s other
      exact ⟨_, action, rfl, read⟩
  | binarySensor =>
      have other : DeviceKind.binarySensor ≠ .light := nofun
      obtain ⟨action, read⟩ := stateName_reads_back reader s other
      exact ⟨_, action, rfl, read⟩

/-- **A state that is shown, taken as a command, asks for itself.**  Every device but one to leave alone
has its state shown, and the payload is taken for the same kind of device. -/
theorem published_reads_back (s : DeviceState) (shown : kind ≠ .ignore) :
    ∃ text action, statePayload s kind = some text ∧
      readCommand (encode text.toList) kind = .ok action ∧ Restores s kind action :=
  reads_back_by readsBack_ofJson? s shown

/-- A light that went to half its brightness within a day and an hour. -/
theorem half_reads_back :
    let s : DeviceState := { DeviceState.unknown ⟨7⟩ with
      target := ⟨128⟩, transition := .ofSeconds 90000 }
    DeviceKind.light ≠ .ignore ∧ ∃ text action, statePayload s .light = some text ∧
      readCommand (encode text.toList) .light = .ok action ∧ action.target = ⟨128⟩ ∧
        action.transition = .ofSeconds 86400 := by
  intro s
  have lit : DeviceKind.light ≠ .ignore := by decide
  obtain ⟨text, action, shown, read, restores⟩ := published_reads_back s lit
  refine ⟨lit, text, action, shown, read, ?_⟩
  have day : min s.transition.seconds 86400 = 86400 := by decide
  cases restores with
  | dimmed level time => exact ⟨level, time.trans (congrArg Duration.ofSeconds day)⟩
  | switched other => exact absurd rfl other

end Lighting.Home
