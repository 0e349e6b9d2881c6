import Lighting.Device.Map
import Lighting.Proofs.Address

/-!
# What device maps say

Setting the kind of an address concerns this address only, so an address has the kind that was set last
(`get_setEach`), and of the lists in settings the last one that names it decides (`get_ofLists`).  As
dimmable lights are not stored, a map holds no more than it says: maps that say the same are equal (`ext`),
and every map comes about by setting kinds (`exists_setEach`).
-/

namespace Lighting.DeviceMap

variable {m n : DeviceMap} {a b : Address} {kind : DeviceKind} {p : DeviceKind → Bool}

/-! ## What is said and what is stored -/

theorem get_allLights (a : Address) : allLights.get a = .light := by
  rw [get, allLights, Address.Table.get_fill]
  rfl

theorem getD_entry (kind : DeviceKind) : (entry kind).getD .light = kind := by
  cases kind <;> rfl

theorem get_set (m : DeviceMap) (a b : Address) (kind : DeviceKind) :
    (m.set a kind).get b = if b = a then kind else m.get b := by
  rw [get, set, Address.Table.get_set]
  split
  · exact getD_entry kind
  · rfl

/-- What is stored for an address is told by its kind. -/
theorem stored_eq (m : DeviceMap) (a : Address) : m.stored.get a = entry (m.get a) := by
  have sparse := m.sparse a
  rw [get]
  cases value : m.stored.get a with
  | none => rfl
  | some kind =>
      have other : kind ≠ .light := fun same => sparse (same ▸ value)
      exact (if_neg other).symm

/-- **Maps that say the same are equal.** -/
@[ext] theorem ext (same : ∀ a, m.get a = n.get a) : m = n := by
  have stored : m.stored = n.stored := Address.Table.ext fun a => by
    rw [stored_eq, stored_eq, same a]
  cases m
  cases n
  congr

/-! ## Setting kinds -/

/-- Sets kinds, one after the other. -/
def setEach (m : DeviceMap) (changes : List (Address × DeviceKind)) : DeviceMap :=
  changes.foldl (fun m (a, kind) => m.set a kind) m

/-- **An address has the kind that was set last**, and the one it had if none was set. -/
theorem get_setEach (m : DeviceMap) (changes : List (Address × DeviceKind)) (a : Address) :
    (m.setEach changes).get a =
      ((changes.reverse.find? fun change => change.1 = a).map Prod.snd).getD (m.get a) := by
  -- from the last change, which is the one that counts if it is of the address
  induction changes using List.reverseRecOn with
  | nil => rfl
  | append_singleton changes change ih =>
      obtain ⟨b, kind⟩ := change
      have last : m.setEach (changes ++ [(b, kind)]) = (m.setEach changes).set b kind := by
        rw [setEach, List.foldl_append]
        rfl
      rw [last, get_set, List.reverse_append, List.reverse_singleton, List.singleton_append,
        List.find?_cons]
      by_cases same : a = b
      · simp [same]
      · simp [same, Ne.symm same, ih]

/-- Setting each of many addresses once. -/
theorem get_setEach_map (m : DeviceMap) (as : List Address) (f : Address → DeviceKind) :
    (m.setEach (as.map fun a => (a, f a))).get b = if b ∈ as then f b else m.get b := by
  induction as generalizing m with
  | nil => simp [setEach]
  | cons a as ih =>
      show ((m.set a (f a)).setEach (as.map fun a => (a, f a))).get b = _
      rw [ih, get_set]
      by_cases first : b = a <;> by_cases rest : b ∈ as <;> simp [first, rest]

theorem get_setAll (m : DeviceMap) (as : List Address) (kind : DeviceKind) (b : Address) :
    (m.setAll as kind).get b = if b ∈ as then kind else m.get b := by
  have each : m.setAll as kind = m.setEach (as.map fun a => (a, kind)) := by
    rw [setAll, setEach, List.foldl_map]
  rw [each, get_setEach_map]

/-- Every map comes about by setting kinds. -/
theorem exists_setEach (m : DeviceMap) : ∃ changes, m = allLights.setEach changes := by
  refine ⟨Address.all.map fun a => (a, m.get a), ext fun a => ?_⟩
  rw [get_setEach_map, if_pos (Address.mem_all a)]

/-! ## Lists -/

/-- Of the lists that name an address the last one decides. -/
theorem get_ofLists (lists : DeviceLists) (a : Address) : (ofLists lists).get a =
    if a ∈ (Address.ofList lists.ignored.toList).1 then .ignore
    else if a ∈ (Address.ofList lists.binarySensors.toList).1 then .binarySensor
    else if a ∈ (Address.ofList lists.switches.toList).1 then .switch
    else if a ∈ (Address.ofList lists.nonDimmableLights.toList).1 then .lightNonDimmable
    else .light := by
  simp only [ofLists, DeviceLists.byKind, List.foldl_cons, List.foldl_nil, get_setAll, get_allLights]

theorem listErrors_eq (lists : DeviceLists) : listErrors lists =
    (Address.ofList lists.nonDimmableLights.toList).2 ++ (Address.ofList lists.switches.toList).2 ++
      (Address.ofList lists.binarySensors.toList).2 ++ (Address.ofList lists.ignored.toList).2 := by
  simp [listErrors, DeviceLists.byKind]

/-! ## What is left alone and what is shown -/

theorem mem_addresses : a ∈ m.addresses p ↔ p (m.get a) = true := by
  rw [addresses, List.mem_filter]
  exact and_iff_right (Address.mem_all a)

theorem pairwise_addresses (m : DeviceMap) (p : DeviceKind → Bool) :
    (m.addresses p).Pairwise fun a b => a.toNat < b.toNat :=
  Address.pairwise_all.filter _

theorem excluded_eq (m : DeviceMap) : m.excluded = m.addresses (· == .ignore) := by
  refine List.filter_congr fun a _ => ?_
  rw [stored_eq]
  cases m.get a <;> rfl

theorem mem_excluded : a ∈ m.excluded ↔ m.get a = .ignore := by
  rw [excluded_eq, mem_addresses, beq_iff_eq]

theorem mem_exposed : (a, kind) ∈ m.exposed ↔ m.get a = kind ∧ kind ≠ .ignore := by
  rw [exposed, List.mem_map]
  constructor
  · rintro ⟨b, member, same⟩
    cases same
    exact ⟨rfl, bne_iff_ne.mp (mem_addresses.mp member)⟩
  · rintro ⟨rfl, shown⟩
    exact ⟨a, mem_addresses.mpr (bne_iff_ne.mpr shown), rfl⟩

theorem map_fst_exposed (m : DeviceMap) : m.exposed.map Prod.fst = m.addresses (· != .ignore) := by
  rw [exposed, List.map_map]
  exact List.map_id _

/-- Every address is either left alone or shown. -/
theorem perm_excluded_exposed (m : DeviceMap) :
    (m.excluded ++ m.exposed.map Prod.fst).Perm Address.all := by
  rw [excluded_eq, map_fst_exposed]
  exact List.filter_append_perm (fun a => m.get a == .ignore) Address.all

theorem pairwise_exposed (m : DeviceMap) :
    m.exposed.Pairwise fun shown next => shown.1.toNat < next.1.toNat :=
  List.pairwise_map.mpr (m.pairwise_addresses _)

/-- **Kinds go by precedence, and nothing is lost.**  Of four lists every piece that is not blank gives an
address or an error; the errors come in the order of the lists, and of the lists that name an address the last
one decides about its kind.  Whatever is set of a map, an address has the kind that was set last.  Two maps
are equal exactly if they say the same of every address, as dimmable lights are not stored; and there are no
maps but those that come about by setting kinds.  What is left alone and what is shown makes up all addresses,
each once, and what is shown is in ascending order. -/
theorem kinds_by_precedence :
    (∀ lists : DeviceLists, ∃ lights switches sensors ignored : List Address × List Address.ReadError,
      Address.Reads lists.nonDimmableLights.toList lights ∧
      Address.Reads lists.switches.toList switches ∧
      Address.Reads lists.binarySensors.toList sensors ∧
      Address.Reads lists.ignored.toList ignored ∧
      listErrors lists = lights.2 ++ switches.2 ++ sensors.2 ++ ignored.2 ∧
      ∀ a, (ofLists lists).get a =
        if a ∈ ignored.1 then .ignore else if a ∈ sensors.1 then .binarySensor
        else if a ∈ switches.1 then .switch else if a ∈ lights.1 then .lightNonDimmable
        else .light) ∧
    ∀ m : DeviceMap,
      (∀ changes a, (m.setEach changes).get a =
        ((changes.reverse.find? fun change => change.1 = a).map Prod.snd).getD (m.get a)) ∧
      (∀ n, m = n ↔ ∀ a, m.get a = n.get a) ∧
      (∀ a, m.stored.get a = if m.get a = .light then none else some (m.get a)) ∧
      (∃ changes, m = allLights.setEach changes) ∧
      (m.excluded ++ m.exposed.map Prod.fst).Perm Address.all ∧
      (∀ a, a ∈ m.excluded ↔ m.get a = .ignore) ∧
      (∀ a kind, (a, kind) ∈ m.exposed ↔ m.get a = kind ∧ kind ≠ .ignore) ∧
      m.exposed.Pairwise fun shown next => shown.1.toNat < next.1.toNat := by
  refine ⟨fun lists => ?_, fun m => ?_⟩
  · have read (text : String) : Address.Reads text.toList (Address.ofList text.toList) :=
      Address.reads_iff.mpr rfl
    exact ⟨_, _, _, _, read _, read _, read _, read _, listErrors_eq lists, get_ofLists lists⟩
  · exact ⟨m.get_setEach, fun _ => ⟨fun same a => congrArg (get · a) same, ext⟩, m.stored_eq,
      m.exists_setEach, m.perm_excluded_exposed, fun _ => mem_excluded, fun _ _ => mem_exposed,
      m.pairwise_exposed⟩

end Lighting.DeviceMap
