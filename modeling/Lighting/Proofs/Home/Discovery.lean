import Lighting.Home.Discovery
import Lighting.Home.Route
import Lighting.Proofs.Device.Map
import Lighting.Proofs.Home.Topic

/-!
# Announcements and the commands they bring

An announcement tells the home where to send commands, and the bridge asks the broker for topics by
filters (`Covers`).  So three things must agree: the topic that is announced, the filters, and what
`route` makes of a topic.

They are told apart by address: the topic and the identifier of an entity both end in its numeral, so no
two of them are the same (`topic_inj`, `uniqueId_inj`); and the bridge has a word where the others have a
numeral (`not_isNumeral_bridge`).
-/

namespace Lighting.Home

open Json (Document)

variable {kinds : DeviceMap} {kind : DeviceKind} {a b : Address} {c d : Component} {m n : Message}
variable {cs ds : List Char}

/-! ## Topic filters -/

/-- The levels of a topic, or of a topic filter. -/
def levels (text : String) : List (List Char) := text.toList.splitOn '/'

/-- A topic filter covers a topic, level by level: a plus sign stands for any one level, and a number
sign at the end for all that follow. -/
inductive Covers : List (List Char) → List (List Char) → Prop where
  /-- Nothing is left. -/
  | done : Covers [] []
  /-- All levels that are left. -/
  | rest {topic : List (List Char)} : Covers [['#']] topic
  /-- Any level. -/
  | any {level : List Char} {filter topic : List (List Char)} (more : Covers filter topic) :
      Covers (['+'] :: filter) (level :: topic)
  /-- The level itself. -/
  | same {level : List Char} {filter topic : List (List Char)} (more : Covers filter topic) :
      Covers (level :: filter) (level :: topic)

theorem not_mem_toString {x : Char} (other : x.isDigit = false) (a : Address) :
    x ∉ (toString a).toList := fun within => by
  rw [Text.isDigit_decimal a.toNat x within] at other
  cases other

/-- A topic that takes commands has four levels. -/
theorem levels_setTopic (c : Component) (a : Address) : levels (c.setTopic a) =
    [discoveryRoot.toList, c.name.toList, entityStem.toList ++ (toString a).toList, "set".toList] := by
  have joined : (c.setTopic a).toList = ['/'].intercalate
      [discoveryRoot.toList, c.name.toList, entityStem.toList ++ (toString a).toList,
        "set".toList] := by
    rw [Component.setTopic, String.toList_append, toList_topic]
    simp [place, List.intercalate]
  rw [levels, joined, List.splitOn_intercalate]
  · simp only [List.forall_mem_cons, List.not_mem_nil, false_imp_iff, implies_true, and_true,
      List.mem_append, not_or]
    exact ⟨by decide, not_mem_name c, ⟨by decide, not_mem_toString rfl a⟩, by decide⟩
  · exact List.cons_ne_nil _ _

/-- **The topic of an entity that takes commands is covered.** -/
theorem covers_setTopic (component : Component.ofKind? kind = some c)
    (takes : kind.acceptsCommands = true) (a : Address) :
    ∃ filter ∈ commandFilters, Covers (levels filter) (levels (c.setTopic a)) := by
  have filters : ∃ filter ∈ commandFilters,
      levels filter = [discoveryRoot.toList, c.name.toList, ['+'], "set".toList] := by
    cases kind with
    | light | lightNonDimmable =>
        obtain rfl := Option.some.inj component
        exact ⟨_, List.mem_cons_self, rfl⟩
    | switch =>
        obtain rfl := Option.some.inj component
        exact ⟨_, List.mem_cons_of_mem _ List.mem_cons_self, rfl⟩
    | binarySensor | ignore => cases takes
  obtain ⟨filter, known, row⟩ := filters
  refine ⟨filter, known, ?_⟩
  rw [row, levels_setTopic]
  exact .same (.same (.any (.same .done)))

/-! ## Identifiers -/

/-- What follows the last `x` in a text. -/
theorem eq_of_append_cons {x : Char} {cs' ds' : List Char} (left : x ∉ ds) (right : x ∉ ds')
    (same : cs ++ x :: ds = cs' ++ x :: ds') : ds = ds' := by
  rcases List.append_eq_append_iff.mp same with ⟨between, -, behind⟩ | ⟨between, -, behind⟩
  · cases between with
    | nil => exact (List.cons.inj behind).2
    | cons y between =>
        obtain ⟨-, rfl⟩ := List.cons.inj behind
        exact absurd (List.mem_append_right _ List.mem_cons_self) left
  · cases between with
    | nil => exact (List.cons.inj behind).2.symm
    | cons y between =>
        obtain ⟨-, rfl⟩ := List.cons.inj behind
        exact absurd (List.mem_append_right _ List.mem_cons_self) right

theorem toList_uniqueId (c : Component) (a : Address) :
    (uniqueId c a).toList = ("cbus_".toList ++ c.name.toList) ++ '_' :: (toString a).toList := by
  simp [uniqueId, entityStem]

/-- No two entities at different addresses have the same identifier. -/
theorem uniqueId_inj (same : uniqueId c a = uniqueId d b) : a = b := by
  have texts := congrArg String.toList same
  rw [toList_uniqueId, toList_uniqueId] at texts
  exact toString_inj
    (eq_of_append_cons (not_mem_toString rfl a) (not_mem_toString rfl b) texts)

theorem toString_ne_bridge (a : Address) : (toString a).toList ≠ "bridge".toList := fun same =>
  not_mem_toString (x := 'b') rfl a (by rw [same]; decide)

theorem uniqueId_ne_bridge (c : Component) (a : Address) : uniqueId c a ≠ bridgeId := by
  intro same
  have texts := congrArg String.toList same
  have bridge : bridgeId.toList = "cbus".toList ++ '_' :: "bridge".toList := rfl
  rw [toList_uniqueId, bridge] at texts
  exact toString_ne_bridge a (eq_of_append_cons (not_mem_toString rfl a) (by decide) texts)

theorem topic_ne_bridge (c : Component) (a : Address) : c.topic a ≠ bridgeTopic := by
  intro same
  have texts := congrArg String.toList same
  have bridge : bridgeTopic.toList = place .binarySensor "bridge".toList := rfl
  rw [toList_topic, bridge] at texts
  exact toString_ne_bridge a (place_inj texts).2

/-! ## Messages -/

/-- The field of a name in a message. -/
def Message.field? (m : Message) (name : String) : Option Document :=
  match m.payload with
  | .object fields => fields.lookup name
  | _ => none

/-- A message announces the entity of an address, and the commands it brings are the entity's.  There is
a topic for commands exactly if the device takes any; the topic is covered by a filter, and what comes in
on it is routed to the address, as its payload is read for the kind of the device. -/
structure Serves (kinds : DeviceMap) (a : Address) (m : Message) : Prop where
  /-- The message is that of the entity. -/
  entity : entityConfig a (kinds.get a) = some m
  /-- There is a topic for commands if the device takes any. -/
  takes : (m.field? "cmd_t").isSome = (kinds.get a).acceptsCommands
  /-- What comes in on that topic is routed. -/
  routed : ∀ field, m.field? "cmd_t" = some field → ∃ topic, field = .string topic ∧
    (∃ filter ∈ commandFilters, Covers (levels filter) (levels topic)) ∧
    ∀ payload, route topic payload kinds =
      ((readCommand payload (kinds.get a)).mapError .payload).map fun action => some (a, action)

theorem exists_entityConfig (shown : kind ≠ .ignore) (a : Address) :
    ∃ c, Component.ofKind? kind = some c ∧
      entityConfig a kind = some ⟨c.configTopic a, .object (entityFields c a kind)⟩ := by
  cases kind with
  | ignore => exact absurd rfl shown
  | _ => exact ⟨_, rfl, rfl⟩

theorem lookup_command (c : Component) (a : Address) (kind : DeviceKind) :
    (entityFields c a kind).lookup "cmd_t" =
      if kind.acceptsCommands then some (.string (c.setTopic a)) else none := by
  cases kind <;> rfl

theorem lookup_uniqueId (c : Component) (a : Address) (kind : DeviceKind) :
    (entityFields c a kind).lookup "unique_id" = some (.string (uniqueId c a)) := by
  cases kind <;> rfl

/-- What comes in on the topic of an entity that takes commands is routed to its address. -/
theorem route_setTopic (takes : (kinds.get a).acceptsCommands = true) (c : Component)
    (payload : List UInt8) : route (c.setTopic a) payload kinds =
      ((readCommand payload (kinds.get a)).mapError .payload).map fun action => some (a, action) := by
  simp only [route, readSetTopic_setTopic, takes, if_true]
  cases readCommand payload (kinds.get a) <;> rfl

/-- **A device that is not left alone is announced, and served.** -/
theorem exists_serves (shown : kinds.get a ≠ .ignore) :
    ∃ m, entityConfig a (kinds.get a) = some m ∧ Serves kinds a m := by
  obtain ⟨c, component, entity⟩ := exists_entityConfig shown a
  refine ⟨_, entity, entity, ?_, fun field there => ?_⟩
  · show ((entityFields c a (kinds.get a)).lookup "cmd_t").isSome = _
    rw [lookup_command]
    cases (kinds.get a).acceptsCommands <;> rfl
  · have found := (lookup_command c a (kinds.get a)).symm.trans there
    obtain ⟨takes, value⟩ := Option.ite_none_right_eq_some.mp found
    exact ⟨c.setTopic a, (Option.some.inj value).symm, covers_setTopic component takes a,
      route_setTopic takes c⟩

/-- Two messages do not get mixed up: they have neither the same topic nor the same identifier. -/
def Message.Apart (m n : Message) : Prop :=
  m.topic ≠ n.topic ∧ m.field? "unique_id" ≠ n.field? "unique_id"

theorem exists_entity (entity : entityConfig a kind = some m) :
    ∃ c, m.topic = c.topic a ++ "/config" ∧
      m.field? "unique_id" = some (.string (uniqueId c a)) := by
  obtain ⟨c, -, rfl⟩ := Option.map_eq_some_iff.mp entity
  exact ⟨c, rfl, lookup_uniqueId c a kind⟩

theorem string_inj {x y : String} (same : some (Document.string x) = some (.string y)) : x = y :=
  Document.string.inj (Option.some.inj same)

/-- The messages of two addresses stay apart, whatever the devices are. -/
theorem apart_of_ne {other : DeviceKind} (ne : a ≠ b) (left : entityConfig a kind = some m)
    (right : entityConfig b other = some n) : m.Apart n := by
  obtain ⟨c, topic, id⟩ := exists_entity left
  obtain ⟨d, topic', id'⟩ := exists_entity right
  rw [Message.Apart, topic, topic', id, id']
  exact ⟨fun same => ne (topic_inj ((String.append_left_inj _).mp same)).2,
    fun same => ne (uniqueId_inj (string_inj same))⟩

/-- The message of the bridge stays apart from that of any entity. -/
theorem apart_bridge (entity : entityConfig a kind = some m) : bridgeConfig.Apart m := by
  obtain ⟨c, topic, id⟩ := exists_entity entity
  have bridge : bridgeConfig.field? "unique_id" = some (.string bridgeId) := rfl
  rw [Message.Apart, topic, id, bridge]
  exact ⟨fun same => topic_ne_bridge c a ((String.append_left_inj _).mp same).symm,
    fun same => uniqueId_ne_bridge c a (string_inj same).symm⟩

theorem forall₂_filterMap {α β : Type} {R : α → β → Prop} {f : α → Option β} {xs : List α}
    (all : ∀ x ∈ xs, ∃ y, f x = some y ∧ R x y) : List.Forall₂ R xs (xs.filterMap f) := by
  induction xs with
  | nil => exact .nil
  | cons x xs ih =>
      obtain ⟨⟨y, value, related⟩, all⟩ := List.forall_mem_cons.mp all
      rw [List.filterMap_cons_some value]
      exact .cons related (ih all)

/-- The messages after the one of the bridge go by the addresses that are shown. -/
theorem discovery_eq (kinds : DeviceMap) : discovery kinds =
    bridgeConfig :: (kinds.addresses (· != .ignore)).filterMap fun a =>
      entityConfig a (kinds.get a) := by
  rw [discovery, DeviceMap.exposed, List.filterMap_map]
  rfl

theorem mem_shown_iff : a ∈ kinds.addresses (· != .ignore) ↔ kinds.get a ≠ .ignore := by
  rw [DeviceMap.mem_addresses, bne_iff_ne]

theorem pairwise_shown (kinds : DeviceMap) :
    (kinds.addresses (· != .ignore)).Pairwise fun a b => a.toNat < b.toNat :=
  kinds.pairwise_addresses _

/-- No two messages get mixed up. -/
theorem pairwise_apart (kinds : DeviceMap) : (discovery kinds).Pairwise Message.Apart := by
  rw [discovery_eq, List.pairwise_cons]
  refine ⟨fun m member => ?_, List.pairwise_filterMap.mpr ?_⟩
  · obtain ⟨a, -, entity⟩ := List.mem_filterMap.mp member
    exact apart_bridge entity
  · refine (pairwise_shown kinds).imp fun {a b} lt m left n right => apart_of_ne ?_ left right
    rintro rfl
    exact Nat.lt_irrefl _ lt

/-- **What is announced is served.**  The announcements are that of the bridge and one for each address
that is not left alone, in ascending order.  No two have the same topic or the same identifier, and none
lacks an identifier.  An entity has a topic for commands exactly if its device takes any; a filter covers
the topic, and a command that comes in on it is routed to the address of the entity, with what its payload
asks of a device of this kind. -/
theorem discovery_serves (kinds : DeviceMap) :
    ∃ addresses messages, discovery kinds = bridgeConfig :: messages ∧
      addresses.Pairwise (fun a b => a.toNat < b.toNat) ∧
      (∀ a, a ∈ addresses ↔ kinds.get a ≠ .ignore) ∧
      List.Forall₂ (Serves kinds) addresses messages ∧
      bridgeConfig.field? "cmd_t" = none ∧
      (discovery kinds).Pairwise Message.Apart ∧
      ∀ m ∈ discovery kinds, ∃ id, m.field? "unique_id" = some (.string id) := by
  refine ⟨_, _, discovery_eq kinds, pairwise_shown kinds, fun a => mem_shown_iff,
    forall₂_filterMap fun a member => exists_serves (mem_shown_iff.mp member), rfl,
    pairwise_apart kinds, ?_⟩
  rw [discovery_eq, List.forall_mem_cons]
  refine ⟨⟨bridgeId, rfl⟩, fun m member => ?_⟩
  obtain ⟨a, -, entity⟩ := List.mem_filterMap.mp member
  obtain ⟨c, -, id⟩ := exists_entity entity
  exact ⟨_, id⟩

end Lighting.Home
