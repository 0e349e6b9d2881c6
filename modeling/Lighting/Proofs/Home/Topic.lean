import Lighting.Home.Topic
import Lighting.Proofs.Address

/-!
# Topics that commands come in on

A topic is read by taking off what stands in front of the address and behind it.  Each step takes off
exactly one text (`after?_eq_some_iff`, `before?_eq_some_iff`, `splitSlash?_eq_some_iff`), and the name of
a component holds no slash, so that there is only one way to take a topic apart.

What is left is read as any other numeral of an address.  So reading undoes writing, and it takes more
than is written: the topics that are read are those that are written, with the numeral of the address
replaced by any text that stands for it (`readSetTopic_eq_ok_iff`).
-/

namespace Lighting.Home

variable {cs rest : List Char} {front back : String} {a b : Address} {c d : Component} {topic : String}

/-! ## Taking off -/

theorem after?_eq_some_iff : after? front cs = some rest ↔ cs = front.toList ++ rest := by
  unfold after?
  constructor
  · intro taken
    split at taken
    · rename_i begins
      have whole := List.prefix_iff_eq_append.mp (List.isPrefixOf_iff_prefix.mp begins)
      rw [String.length_toList] at whole
      rw [← Option.some.inj taken, whole]
    · cases taken
  · rintro rfl
    rw [if_pos (List.isPrefixOf_iff_prefix.mpr (List.prefix_append _ _)), ← String.length_toList,
      List.drop_left]

theorem before?_eq_some_iff : before? back cs = some rest ↔ cs = rest ++ back.toList := by
  unfold before?
  constructor
  · intro taken
    obtain ⟨tser, front, rfl⟩ := Option.map_eq_some_iff.mp taken
    have whole := congrArg List.reverse (after?_eq_some_iff.mp front)
    simpa using whole
  · rintro rfl
    refine Option.map_eq_some_iff.mpr ⟨rest.reverse, after?_eq_some_iff.mpr ?_, List.reverse_reverse _⟩
    simp

theorem splitSlash?_eq_some_iff {left right : List Char} :
    splitSlash? cs = some (left, right) ↔ '/' ∉ left ∧ cs = left ++ '/' :: right := by
  have other {c : Char} : (c != '/') = true ↔ c ≠ '/' := bne_iff_ne
  unfold splitSlash?
  constructor
  · intro taken
    split at taken
    · rename_i s tail stop
      obtain ⟨rfl, rfl⟩ := Prod.mk.inj (Option.some.inj taken)
      have slash : (s != '/') = false := by
        have := Text.head?_dropWhile_bare (· != '/') cs s
        rw [stop] at this
        exact this rfl
      have free : ∀ c ∈ cs.takeWhile (· != '/'), (c != '/') = true :=
        List.all_eq_true.mp List.all_takeWhile
      refine ⟨fun within => other.mp (free _ within) rfl, ?_⟩
      have whole := List.takeWhile_append_dropWhile (p := (· != '/')) (l := cs)
      rw [stop, show s = '/' by simpa using slash] at whole
      exact whole.symm
    · cases taken
  · rintro ⟨free, rfl⟩
    have front : ∀ c ∈ left, (c != '/') = true := fun c hc =>
      other.mpr fun slash => free (slash ▸ hc)
    rw [List.dropWhile_append_of_pos front, List.takeWhile_append_of_pos front]
    simp

/-! ## Topics -/

/-- The characters of a topic of component `c`, with `cs` where the numeral of the address stands. -/
def place (c : Component) (cs : List Char) : List Char :=
  discoveryRoot.toList ++ '/' :: (c.name.toList ++ '/' :: (entityStem.toList ++ cs))

theorem not_mem_name (c : Component) : '/' ∉ c.name.toList := by
  cases c <;> simp [Component.name]

theorem name_inj (same : c.name.toList = d.name.toList) : c = d := by
  cases c <;> cases d <;> simp [Component.name] at same ⊢

/-- **A topic can be taken apart in one way only.** -/
theorem place_inj {ds : List Char} (same : place c cs = place d ds) : c = d ∧ cs = ds := by
  obtain ⟨-, behind⟩ := List.cons.inj (List.append_cancel_left same)
  have left := splitSlash?_eq_some_iff.mpr
    ⟨not_mem_name c, Eq.refl (c.name.toList ++ '/' :: (entityStem.toList ++ cs))⟩
  have right := splitSlash?_eq_some_iff.mpr ⟨not_mem_name d, behind⟩
  obtain ⟨name, rest⟩ := Prod.mk.inj (Option.some.inj (left.symm.trans right))
  exact ⟨name_inj name, List.append_cancel_left rest⟩

theorem toList_topic (c : Component) (a : Address) :
    (c.topic a).toList = place c (toString a).toList := by
  simp [Component.topic, place]

theorem toString_inj (same : (toString a).toList = (toString b).toList) : a = b := by
  have left : a.IsNumeral (toString b).toList := same ▸ a.isNumeral_toString
  have read := (Address.ofText?_eq_ok_iff.mpr left).symm.trans
    (Address.ofText?_eq_ok_iff.mpr b.isNumeral_toString)
  exact Except.ok.inj read

/-- No two entities have the same topic. -/
theorem topic_inj (same : c.topic a = d.topic b) : c = d ∧ a = b := by
  have places := congrArg String.toList same
  rw [toList_topic, toList_topic] at places
  obtain ⟨component, numeral⟩ := place_inj places
  exact ⟨component, toString_inj numeral⟩

/-! ## Reading -/

theorem toOption_eq_some_iff : (Address.ofText? cs).toOption = some a ↔ a.IsNumeral cs := by
  rw [← Address.ofText?_eq_ok_iff]
  cases Address.ofText? cs <;> simp [Except.toOption]

theorem any_name_iff : (Component.all.any fun c => c.name.toList == cs) = true ↔
    ∃ c : Component, c.name.toList = cs := by
  rw [List.any_eq_true]
  constructor
  · rintro ⟨c, -, named⟩
    exact ⟨c, eq_of_beq named⟩
  · rintro ⟨c, rfl⟩
    exact ⟨c, by cases c <;> simp [Component.all], beq_self_eq_true _⟩

theorem setTopicAddress?_eq_some_iff : setTopicAddress? topic = some a ↔
    ∃ c numeral, a.IsNumeral numeral ∧ topic.toList = place c numeral ++ "/set".toList := by
  have slash : "/".toList = ['/'] := rfl
  simp only [setTopicAddress?, Option.bind_eq_bind, Option.bind_eq_some_iff, Prod.exists,
    after?_eq_some_iff, before?_eq_some_iff, splitSlash?_eq_some_iff, Option.ite_none_right_eq_some,
    toOption_eq_some_iff, any_name_iff, slash]
  constructor
  · rintro ⟨_, root, _, rfl, _, _, ⟨-, rfl⟩, ⟨c, rfl⟩, _, rfl, numeral, rfl, number⟩
    refine ⟨c, numeral, number, ?_⟩
    simp [root, place]
  · rintro ⟨c, numeral, number, written⟩
    refine ⟨_, ?_, _, rfl, c.name.toList, _, ⟨not_mem_name c, rfl⟩, ⟨c, rfl⟩, _, rfl, numeral, rfl,
      number⟩
    simp [written, place]

theorem readSetTopic_eq_ok_iff : readSetTopic topic = .ok a ↔
    ∃ c numeral, a.IsNumeral numeral ∧ topic.toList = place c numeral ++ "/set".toList := by
  rw [← setTopicAddress?_eq_some_iff, readSetTopic]
  split
  · rename_i b read
    rw [read, Except.ok.injEq, Option.some.injEq]
  · rename_i nothing
    rw [nothing]
    exact iff_of_false nofun nofun

/-- The topic that an entity takes commands on is read as its address. -/
theorem readSetTopic_setTopic (c : Component) (a : Address) : readSetTopic (c.setTopic a) = .ok a := by
  refine readSetTopic_eq_ok_iff.mpr ⟨c, (toString a).toList, a.isNumeral_toString, ?_⟩
  rw [Component.setTopic, String.toList_append, toList_topic]

/-- **The topics that commands come in on.**  An address is read from the topics of one of the components
in which a text that stands for the address is the numeral, and from no others.  Among them are those
that are written.  From any other text no address is read, and the error names the text. -/
theorem set_topics_read (topic : String) :
    (∀ a, readSetTopic topic = .ok a ↔
      ∃ (c : Component) (numeral : List Char), a.IsNumeral numeral ∧
        topic = "homeassistant/" ++ c.name ++ "/cbus_" ++ String.ofList numeral ++ "/set") ∧
    (∀ (c : Component) (a : Address), readSetTopic (c.setTopic a) = .ok a) ∧
    ((∃ a, readSetTopic topic = .ok a) ∨ readSetTopic topic = .error ⟨topic⟩) := by
  refine ⟨fun a => ?_, readSetTopic_setTopic, ?_⟩
  · rw [readSetTopic_eq_ok_iff]
    refine exists_congr fun c => exists_congr fun numeral => and_congr_right fun _ => ?_
    rw [← String.toList_inj]
    simp [place, discoveryRoot, entityStem]
  · unfold readSetTopic
    split
    · exact .inl ⟨_, rfl⟩
    · exact .inr rfl

/-- A topic with zeros before the address is read, and is none that is written. -/
theorem zeros_are_read :
    readSetTopic "homeassistant/light/cbus_007/set" = .ok ⟨7⟩ ∧
      ¬ ∃ (c : Component) (a : Address), "homeassistant/light/cbus_007/set" = c.setTopic a := by
  have read : readSetTopic "homeassistant/light/cbus_007/set" = .ok ⟨7⟩ := rfl
  refine ⟨read, ?_⟩
  rintro ⟨c, a, written⟩
  have address : readSetTopic "homeassistant/light/cbus_007/set" = .ok a :=
    written ▸ readSetTopic_setTopic c a
  obtain rfl := Except.ok.inj (address.symm.trans read)
  cases c <;> exact absurd written (by decide)

end Lighting.Home
