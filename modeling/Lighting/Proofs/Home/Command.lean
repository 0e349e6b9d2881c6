import Lighting.Home.Payload
import Lighting.Proofs.Binary.Seconds
import Lighting.Proofs.Json.Number
import Lighting.Proofs.Text.Numeral

/-!
# What a command payload asks for

A payload says three things: on or off (`Names`), a level (`Means`), and how long to take (`Lasts`).  The
kind of the device only decides which of these count, and that is one table (`Asks`): a light that dims
goes by all three, everything else by the first.  So a payload is taken for all kinds or for none, and it
is refused for two reasons only (`commands_asked`).

The table comes after the reading.  It could only fail at the span, which is worked out for a light that
dims and for nothing else; but the value of a JSON number is finite, and what is cut off at a day fits
into a span (`exists_transitionSpan?`).

That is all that is used of the reader of JSON texts, so that the table holds by any reader whose
transitions are finite (`asked_by`); the one of this library is such a reader
(`isFinite_ofJson?`).
-/

namespace Lighting.Home

open Binary (Format Value IsNearest double)
open Text (Bare isBlank trim trimBoth)

variable {json? : JsonReader} {payload : List UInt8} {w : Wish} {on : Bool} {level : Level}
  {span : Duration}

/-! ## What a payload says -/

/-- The wish of a payload: that of a JSON text, or a plain text without the blanks and then the
quotation marks around it. -/
inductive Wish.IsOf (json? : JsonReader) (payload : List UInt8) : Wish → Prop where
  /-- The payload is a JSON text of the right form. -/
  | json {w : Wish} (read : json? payload = some w) : IsOf json? payload w
  /-- The payload is another text. -/
  | text {cs state : List Char} (other : json? payload = none)
      (read : Text.Utf8.decode payload = some cs)
      (bare : state = trimBoth Wish.isQuote (trim cs)) : IsOf json? payload ⟨state, none, none⟩

/-- The word of a state, in capitals. -/
def stateWord (on : Bool) : List Char := if on then ['O', 'N'] else ['O', 'F', 'F']

/-- A text names a state: it is the word in letters of any case, with blanks around it. -/
def Names (on : Bool) (state : List Char) : Prop :=
  ∃ left word right, (∀ c ∈ left, isBlank c = true) ∧ (∀ c ∈ right, isBlank c = true) ∧
    state = left ++ word ++ right ∧ word.map Char.toUpper = stateWord on

/-- The level that a brightness means: the nearest one, and full brightness if none is given. -/
inductive Means : Option Int → Level → Prop where
  /-- No brightness is given. -/
  | absent : Means none .full
  /-- A brightness is brought between 0 and 255. -/
  | given {i : Int} {level : Level} (near : (level.toNat : Int) = max 0 (min i 255)) :
      Means (some i) level

/-- The span that a transition lasts: none if it is not given or not positive, otherwise its seconds, cut
off at a day, to the nearest nanosecond. -/
inductive Lasts : Option (Value double) → Duration → Prop where
  /-- No transition is given. -/
  | absent : Lasts none .zero
  /-- The transition is not positive. -/
  | none {units : Int} (nothing : units ≤ 0) : Lasts (some (.finite units)) .zero
  /-- The transition is positive. -/
  | some {units : Int} {span : Duration} (positive : 0 < units)
      (near : IsNearest (min (double.toRat units) 86400 * nanosPerSecond) span.nanos) :
      Lasts (some (.finite units)) span

/-- What a device of each kind is to do, when it is asked to be on or off, at a level and within a
span. -/
inductive Asks (on : Bool) (level : Level) (span : Duration) : DeviceKind → Action → Prop where
  /-- All but lights that dim are switched. -/
  | switched {kind : DeviceKind} (other : kind ≠ .light) :
      Asks on level span kind (if on then .on else .off)
  /-- On, to full brightness at once. -/
  | full (turn : on = true) (bright : level = .full) (once : span = .zero) :
      Asks on level span .light .on
  /-- On, to any other level or slowly. -/
  | level (turn : on = true) (other : ¬ (level = .full ∧ span = .zero)) :
      Asks on level span .light (.ramp level span)
  /-- Off at once. -/
  | dark (turn : on = false) (once : span = .zero) : Asks on level span .light .off
  /-- Off slowly. -/
  | fade (turn : on = false) (slow : span ≠ .zero) : Asks on level span .light (.ramp .off span)

/-- The errors of a payload: it is neither JSON of the right form nor a text, or it names no state. -/
inductive Refused (json? : JsonReader) (payload : List UInt8) : PayloadError → Prop where
  /-- It cannot be read. -/
  | unreadable (json : json? payload = none) (text : Text.Utf8.decode payload = none) :
      Refused json? payload .unreadable
  /-- It names no state. -/
  | state {w : Wish} (read : w.IsOf json? payload) (unknown : ∀ on, ¬ Names on w.state) :
      Refused json? payload (.invalidState w.state)

/-! ## Reading -/

theorem Wish.read?_eq_some_iff :
    Wish.read? json? payload = some w ↔ Wish.IsOf json? payload w := by
  unfold read?
  constructor
  · intro read
    cases json : json? payload with
    | some v =>
        rw [json, Option.some_or] at read
        exact .json (json.trans read)
    | none =>
        rw [json, Option.none_or] at read
        obtain ⟨cs, text, rfl⟩ := Option.map_eq_some_iff.mp read
        exact .text json text rfl
  · rintro (read | ⟨other, read, rfl⟩)
    · rw [read, Option.some_or]
    · rw [other, Option.none_or, ofText?, read, Option.map_some]

theorem Wish.read?_eq_none_iff : Wish.read? json? payload = none ↔
    json? payload = none ∧ Text.Utf8.decode payload = none := by
  rw [read?, Option.or_eq_none_iff, ofText?, Option.map_eq_none_iff]

/-! ## States -/

theorem not_isBlank_of_letter {c : Char} (letter : 65 ≤ c.toUpper.toNat ∧ c.toUpper.toNat ≤ 90) :
    isBlank c = false := by
  have solid : 65 ≤ c.toNat ∧ c.toNat ≤ 122 := by
    unfold Char.toUpper at letter
    split at letter
    · rename_i lower
      simp only [UInt32.le_iff_toNat_le] at lower
      exact ⟨Nat.le_trans (by decide) lower.1, lower.2⟩
    · omega
  simp only [isBlank, Bool.or_eq_false_iff, Bool.and_eq_false_iff, decide_eq_false_iff_not,
    beq_eq_false_iff_ne]
  omega

theorem Wish.isOn?_eq_some_iff : w.isOn? = some on ↔
    (trim w.state).map Char.toUpper = stateWord on := by
  have word (cs : List Char) (text : String) : String.ofList cs = text ↔ cs = text.toList := by
    rw [← String.toList_inj, String.toList_ofList]
  have distinct : stateWord true ≠ stateWord false := by decide
  unfold isOn?
  simp only [word]
  generalize (trim w.state).map Char.toUpper = capitals
  show (if capitals = stateWord true then some true else
    if capitals = stateWord false then some false else none) = some on ↔ capitals = stateWord on
  split
  · rename_i same
    rw [same]
    cases on with
    | true => exact iff_of_true rfl rfl
    | false => exact iff_of_false nofun distinct
  · rename_i notOn
    split
    · rename_i same
      rw [same]
      cases on with
      | true => exact iff_of_false nofun distinct.symm
      | false => exact iff_of_true rfl rfl
    · rename_i notOff
      cases on with
      | true => exact iff_of_false nofun notOn
      | false => exact iff_of_false nofun notOff

/-- **A state is known if it is named.** -/
theorem Wish.isOn?_iff_names : w.isOn? = some on ↔ Names on w.state := by
  rw [isOn?_eq_some_iff]
  constructor
  · intro capitals
    obtain ⟨left, right, front, back, whole⟩ := Text.exists_trimBoth isBlank w.state
    exact ⟨left, _, right, front, back, whole, capitals⟩
  · rintro ⟨left, word, right, front, back, whole, capitals⟩
    have solid : ∀ c ∈ word, isBlank c = false := by
      intro c hc
      refine not_isBlank_of_letter ?_
      have capital : c.toUpper ∈ stateWord on := capitals ▸ List.mem_map_of_mem hc
      have letters : ∀ d ∈ stateWord on, 65 ≤ d.toNat ∧ d.toNat ≤ 90 := by
        cases on <;> simp [stateWord]
      exact letters _ capital
    have bare : Bare isBlank word := ⟨fun c first => solid c (List.mem_of_mem_head? first),
      fun c last => solid c (List.mem_of_mem_getLast? last)⟩
    rw [whole, trim, Text.trimBoth_append bare front back]
    exact capitals

/-! ## Transitions -/

/-- A transition that is not there, or that has a finite value. -/
def IsFinite (x : Option (Value double)) : Prop := ∀ y ∈ x, ∃ units, y = .finite units

theorem isFinite_none : IsFinite none := nofun

/-- What is relied on of a reader of JSON texts: a transition it reads is finite. -/
def JsonReader.IsFinite (json? : JsonReader) : Prop :=
  ∀ {payload w}, json? payload = some w → Home.IsFinite w.transition

theorem isFinite_of_numberField? {scalar : Json.Scalar} {x : Option (Value double)}
    (read : numberField? scalar = some x) : IsFinite x := by
  unfold numberField? at read
  split at read
  · cases read
    exact nofun
  · obtain ⟨y, value, rfl⟩ := Option.map_eq_some_iff.mp read
    rintro _ ⟨⟩
    exact Json.Numeral.exists_finite value
  · cases read

/-- The fields of an object are taken one by one, and none of them makes a transition infinite. -/
theorem isFinite_takeAll {members : List (List UInt8 × Json.Scalar)} {d e : Wish.Draft}
    (finite : IsFinite d.transition.join) (taken : d.takeAll members = some e) :
    IsFinite e.transition.join := by
  induction members generalizing d with
  | nil =>
      cases taken
      exact finite
  | cons member members ih =>
      obtain ⟨key, -, taken⟩ := Option.bind_eq_some_iff.mp taken
      obtain ⟨d', first, rest⟩ := Option.bind_eq_some_iff.mp taken
      refine ih ?_ rest
      unfold Wish.Draft.take at first
      split at first
      · split at first
        · cases first
        · obtain ⟨_, -, rfl⟩ := Option.map_eq_some_iff.mp first
          exact finite
      · split at first
        · split at first
          · cases first
          · obtain ⟨_, -, rfl⟩ := Option.map_eq_some_iff.mp first
            exact finite
        · split at first
          · split at first
            · cases first
            · obtain ⟨x, number, rfl⟩ := Option.map_eq_some_iff.mp first
              exact isFinite_of_numberField? number
          · cases first
            exact finite

theorem isFinite_ofFields? {members : List (List UInt8 × Json.Scalar)}
    (read : Wish.ofFields? members = some w) : IsFinite w.transition := by
  obtain ⟨d, taken, read⟩ := Option.bind_eq_some_iff.mp read
  obtain ⟨state, -, rfl⟩ := Option.map_eq_some_iff.mp read
  exact isFinite_takeAll (d := ⟨none, none, none⟩) isFinite_none taken

theorem isFinite_ofItems? {values : List Json.Scalar} (read : Wish.ofItems? values = some w) :
    IsFinite w.transition := by
  unfold Wish.ofItems? at read
  split at read
  · obtain ⟨state, -, rfl⟩ := Option.map_eq_some_iff.mp read
    exact isFinite_none
  · obtain ⟨state, -, read⟩ := Option.bind_eq_some_iff.mp read
    obtain ⟨brightness, -, read⟩ := Option.bind_eq_some_iff.mp read
    cases read
    exact isFinite_none
  · obtain ⟨state, -, read⟩ := Option.bind_eq_some_iff.mp read
    obtain ⟨brightness, -, read⟩ := Option.bind_eq_some_iff.mp read
    obtain ⟨transition, number, read⟩ := Option.bind_eq_some_iff.mp read
    cases read
    exact isFinite_of_numberField? number
  · cases read

/-- **The transitions of this library's reader are finite.** -/
theorem isFinite_ofJson? : JsonReader.IsFinite Wish.ofJson? := by
  intro payload w read
  obtain ⟨record, -, read⟩ := Option.bind_eq_some_iff.mp read
  cases record with
  | fields members => exact isFinite_ofFields? read
  | items values => exact isFinite_ofItems? read

/-- The transition of a payload is finite. -/
theorem Wish.IsOf.isFinite (h : w.IsOf json? payload) (finite : json?.IsFinite) :
    IsFinite w.transition := by
  cases h with
  | text => exact isFinite_none
  | json read => exact finite read

/-- **Every finite transition lasts a span**, and none lasts longer than a day. -/
theorem exists_transitionSpan? {x : Option (Value double)} (finite : IsFinite x) :
    ∃ span, transitionSpan? x = some span ∧ Lasts x span ∧ span ≤ .ofSeconds 86400 := by
  cases x with
  | none => exact ⟨.zero, rfl, .absent, Nat.zero_le _⟩
  | some y =>
      obtain ⟨units, rfl⟩ := finite y rfl
      by_cases positive : 0 < units
      · obtain ⟨n, rfl⟩ := Int.eq_ofNat_of_zero_le (Int.le_of_lt positive)
        obtain ⟨span, cut, near, short⟩ :=
          Value.seconds?_cut Format.isWide_double (k := maxTransition) (by decide) n
        refine ⟨span, ?_, .some positive near, short⟩
        exact (if_pos (decide_eq_true positive)).trans cut
      · exact ⟨.zero, if_neg (by simpa [Value.lt] using positive), .none (Int.not_lt.mp positive),
          Nat.zero_le _⟩

/-! ## The table -/

theorem means_clamped (brightness : Option Int) :
    Means brightness ((brightness.map Level.clamped).getD .full) := by
  cases brightness with
  | none => exact .absent
  | some i =>
      refine .given ?_
      have octet : (Level.clamped i).toNat = min i.toNat 255 := by
        simp only [Level.clamped, Level.toNat, UInt8.toNat_ofNat']
        omega
      rw [Option.map_some, Option.getD_some, octet]
      omega

theorem asks_dimmedAction (on : Bool) (level : Level) (span : Duration) :
    Asks on level span .light (dimmedAction on level span) := by
  unfold dimmedAction
  simp only [Duration.isZero_iff]
  cases on with
  | true =>
      simp only [if_true]
      split
      · rename_i plain
        exact .full rfl plain.2 plain.1
      · rename_i other
        exact .level rfl fun plain => other plain.symm
  | false =>
      simp only [Bool.false_eq_true, if_false]
      split
      · rename_i once
        exact .dark rfl once
      · rename_i slow
        exact .fade rfl slow

/-- A payload that names a state is taken for every kind. -/
theorem readCommandBy_of_names (finite : json?.IsFinite) (h : w.IsOf json? payload)
    (named : Names on w.state) :
    ∃ level span, Means w.brightness level ∧ Lasts w.transition span ∧ span ≤ .ofSeconds 86400 ∧
      ∀ kind, ∃ action, Asks on level span kind action ∧
        readCommandBy json? payload kind = .ok action := by
  obtain ⟨span, cut, lasts, short⟩ := exists_transitionSpan? (h.isFinite finite)
  refine ⟨_, span, means_clamped w.brightness, lasts, short, fun kind => ?_⟩
  simp only [readCommandBy, Wish.read?_eq_some_iff.mpr h, Wish.isOn?_iff_names.mpr named, cut]
  by_cases dims : kind = .light
  · subst dims
    exact ⟨_, asks_dimmedAction on _ span, rfl⟩
  · have switches : kind.isDimmable = false := by
      cases kind with
      | light => exact absurd rfl dims
      | _ => rfl
    rw [switches]
    exact ⟨_, .switched dims, rfl⟩

/-- A payload that names no state is refused for every kind. -/
theorem readCommandBy_of_refused {e : PayloadError} (h : Refused json? payload e)
    (kind : DeviceKind) : readCommandBy json? payload kind = .error e := by
  cases h with
  | unreadable json text => rw [readCommandBy, Wish.read?_eq_none_iff.mpr ⟨json, text⟩]
  | @state w read unknown =>
      have nothing : w.isOn? = none := Option.eq_none_iff_forall_ne_some.mpr fun on known =>
        unknown on (Wish.isOn?_iff_names.mp known)
      simp only [readCommandBy, Wish.read?_eq_some_iff.mpr read, nothing]

theorem refused_or_names (json? : JsonReader) (payload : List UInt8) :
    (∃ e, Refused json? payload e) ∨ ∃ w on, Wish.IsOf json? payload w ∧ Names on w.state := by
  cases read : Wish.read? json? payload with
  | none =>
      obtain ⟨json, text⟩ := Wish.read?_eq_none_iff.mp read
      exact .inl ⟨_, .unreadable json text⟩
  | some w =>
      have isOf := Wish.read?_eq_some_iff.mp read
      by_cases known : ∃ on, Names on w.state
      · obtain ⟨on, named⟩ := known
        exact .inr ⟨w, on, isOf, named⟩
      · exact .inl ⟨_, .state isOf (not_exists.mp known)⟩

theorem Asks.ramp_le {kind : DeviceKind} {bound duration : Duration} {target : Level}
    (h : Asks on level span kind (.ramp target duration)) (short : span ≤ bound) :
    duration ≤ bound := by
  generalize action : Action.ramp target duration = ramp at h
  cases h with
  | switched => cases on <;> cases action
  | full | dark => cases action
  | level | fade =>
      obtain ⟨-, rfl⟩ := Action.ramp.inj action
      exact short

/-- **What a payload asks for, by any reader** of JSON texts whose transitions are finite. -/
theorem asked_by (finite : json?.IsFinite) (payload : List UInt8) :
    ((∃ e, Refused json? payload e ∧ ∀ kind, readCommandBy json? payload kind = .error e) ∨
      ∃ w on level span, Wish.IsOf json? payload w ∧ Names on w.state ∧ Means w.brightness level ∧
        Lasts w.transition span ∧
        ∀ kind, ∃ action, Asks on level span kind action ∧
          readCommandBy json? payload kind = .ok action) ∧
    (∀ kind kind', (∃ action, readCommandBy json? payload kind = .ok action) ↔
      ∃ action, readCommandBy json? payload kind' = .ok action) ∧
    (∀ kind, readCommandBy json? payload kind ≠ .error .invalidTransition) ∧
    ∀ kind target duration, readCommandBy json? payload kind = .ok (.ramp target duration) →
      duration ≤ .ofSeconds 86400 := by
  rcases refused_or_names json? payload with ⟨e, refused⟩ | ⟨w, on, isOf, named⟩
  · have error := readCommandBy_of_refused refused
    refine ⟨.inl ⟨e, refused, error⟩, fun kind kind' => ?_, fun kind fails => ?_,
      fun kind target duration taken => ?_⟩
    · rw [error kind, error kind']
    · obtain rfl := Except.error.inj ((error kind).symm.trans fails)
      cases refused
    · cases (error kind).symm.trans taken
  · obtain ⟨level, span, means, lasts, short, taken⟩ := readCommandBy_of_names finite isOf named
    refine ⟨.inr ⟨w, on, level, span, isOf, named, means, lasts, taken⟩, fun kind kind' => ?_,
      fun kind fails => ?_, fun kind target duration ramp => ?_⟩
    · exact iff_of_true ((taken kind).imp fun _ => And.right) ((taken kind').imp fun _ => And.right)
    · obtain ⟨action, -, read⟩ := taken kind
      cases read.symm.trans fails
    · obtain ⟨action, asks, read⟩ := taken kind
      obtain rfl := Except.ok.inj (read.symm.trans ramp)
      exact asks.ramp_le short

/-- **What a payload asks for.**  Every payload is refused with the same error for all kinds of devices,
or taken for all kinds, and then one table says what each of them is to do.  The errors are that the
payload cannot be read and that it names no state; none comes from its transition.  No ramp takes longer
than a day. -/
theorem commands_asked (payload : List UInt8) :
    ((∃ e, Refused Wish.ofJson? payload e ∧ ∀ kind, readCommand payload kind = .error e) ∨
      ∃ w on level span, Wish.IsOf Wish.ofJson? payload w ∧ Names on w.state ∧
        Means w.brightness level ∧ Lasts w.transition span ∧
        ∀ kind, ∃ action, Asks on level span kind action ∧ readCommand payload kind = .ok action) ∧
    (∀ kind kind', (∃ action, readCommand payload kind = .ok action) ↔
      ∃ action, readCommand payload kind' = .ok action) ∧
    (∀ kind, readCommand payload kind ≠ .error .invalidTransition) ∧
    ∀ kind target duration, readCommand payload kind = .ok (.ramp target duration) →
      duration ≤ .ofSeconds 86400 :=
  asked_by isFinite_ofJson? payload

/-- A brightness below the range, within two seconds and a half. -/
theorem commands_asked_of_ramp :
    let payload := Text.Utf8.encode
      "\x7b\"state\":\" on\",\"brightness\":-5,\"transition\":2.5\x7d".toList
    readCommand payload .light = .ok (.ramp .off (.ofMillis 2500)) ∧
      Duration.ofMillis 2500 ≤ .ofSeconds 86400 ∧
      ∃ action, readCommand payload .binarySensor = .ok action := by
  intro payload
  have counted : (readCommand payload .light).toOption =
      some (.ramp .off (.ofMillis 2500)) := by decide +kernel
  have read : readCommand payload .light = .ok (.ramp .off (.ofMillis 2500)) := by
    cases asked : readCommand payload .light with
    | error e => rw [asked] at counted; cases counted
    | ok action => rw [asked] at counted; cases counted; rfl
  obtain ⟨-, alike, -, short⟩ := commands_asked payload
  exact ⟨read, short _ _ _ read, (alike .light .binarySensor).mp ⟨_, read⟩⟩

end Lighting.Home
