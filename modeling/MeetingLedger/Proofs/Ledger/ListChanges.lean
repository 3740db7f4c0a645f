import Mathlib.Data.List.TakeWhile
import MeetingLedger.Ledger.History
import MeetingLedger.Proofs.Container.Lookup
import MeetingLedger.Proofs.Json.Equality

/-!
# What a change of lists writes

Values are added field by field, then removed field by field, and both stop at the first field that
holds no list. Whatever was done by then shows in the fields: each holds its old list with the new
values at its end and without the removed ones. So it can be told from the fields before the change
whether it leaves all of them as they were.
-/

namespace MeetingLedger

namespace Instance

section Slots

@[simp] theorem appendNew_nil (items : List Json) : appendNew items [] = items := rfl

/-- The list in a field, empty if the field is absent or holds no list. -/
def slotItems (slot : Option Json) : List Json := (slot.bind Json.array?).getD []

def slotWith (slot : Option Json) (values : List Json) : Option Json :=
  some (.array (appendNew (slotItems slot) values))

def slotWithout (slot : Option Json) (values : List Json) : Option Json :=
  slot.map fun _ => .array ((slotItems slot).filter (!values.contains ·))

def slotChanged (slot : Option Json) (added removed : Option (List Json)) : Option Json :=
  let slot := added.elim slot (slotWith slot)
  removed.elim slot (slotWithout slot)

/-- Changes of a list leave no `null`. -/
theorem slotChanged_ne_null {slot : Option Json} (h : slot ≠ some .null)
    (added removed : Option (List Json)) : slotChanged slot added removed ≠ some .null := by
  cases added <;> cases removed <;> simp [slotChanged, slotWith, slotWithout, h]

variable {i : Instance} {field : String} {items : List Json}

theorem slotItems_of_listAt? (h : i.listAt? field = some items) :
    slotItems (i.get? field) = items := by
  rw [listAt?] at h
  rw [slotItems]
  cases hslot : i.get? field with
  | none =>
    rw [hslot] at h
    exact Option.some.inj h
  | some v =>
    rw [hslot] at h
    rw [Option.bind_some, show v.array? = some items from h, Option.getD_some]

theorem isSome_listAt?_insert (h : i.listAt? field = some items) (items' : List Json)
    (name : String) : (listAt? (i.insert field (.array items')) name).isSome =
      (i.listAt? name).isSome := by
  by_cases hname : name = field
  · rw [hname, h, listAt?, SortedMap.get?_insert_self]
    rfl
  · rw [listAt?, SortedMap.get?_insert_of_ne i hname]
    rfl

end Slots

section Walks

/-- Changes are made one by one up to the first field that holds no list. Each writes its own field
and puts a list where there was one. -/
structure Walks (walk : List (String × List Json) → Instance → Instance × Option String)
    (write : Option Json → List Json → Option Json) : Prop where
  done : ∀ i, walk [] i = (i, none)
  stop : ∀ e es i, i.listAt? e.1 = none → walk (e :: es) i = (i, some e.1)
  step : ∀ e es i, (i.listAt? e.1).isSome = true → ∃ j, walk (e :: es) i = walk es j ∧
    (∀ name, (j.listAt? name).isSome = (i.listAt? name).isSome) ∧
    ∀ name, j.get? name = if e.1 = name then write (i.get? name) e.2 else i.get? name

theorem walks_addValues : Walks addValues slotWith where
  done _ := rfl
  stop e es i h := by rw [addValues, h]
  step e es i h := by
    obtain ⟨items, hitems⟩ := Option.isSome_iff_exists.1 h
    refine ⟨_, by rw [addValues, hitems], isSome_listAt?_insert hitems _, fun name => ?_⟩
    rw [SortedMap.get?_insert]
    simp only [eq_comm (a := name)]
    split
    · rename_i hname
      rw [← hname, slotWith, slotItems_of_listAt? hitems]
    · rfl

theorem walks_removeValues : Walks removeValues slotWithout where
  done _ := rfl
  stop e es i h := by
    have hfield : i.contains e.1 = true := by
      rw [SortedMap.contains, Option.isSome_iff_ne_none]
      intro hnone
      rw [listAt?, hnone] at h
      cases h
    rw [removeValues, if_pos hfield, h]
  step e es i h := by
    obtain ⟨items, hitems⟩ := Option.isSome_iff_exists.1 h
    by_cases hfield : i.contains e.1 = true
    · obtain ⟨v, hv⟩ := Option.isSome_iff_exists.1 hfield
      refine ⟨_, by rw [removeValues, if_pos hfield, hitems], isSome_listAt?_insert hitems _,
        fun name => ?_⟩
      rw [SortedMap.get?_insert]
      simp only [eq_comm (a := name)]
      split
      · rename_i hname
        rw [← hname, slotWithout, slotItems_of_listAt? hitems, hv, Option.map_some]
      · rfl
    · have hnone : i.get? e.1 = none := by simpa [SortedMap.contains] using hfield
      refine ⟨i, by rw [removeValues, if_neg hfield], fun _ => rfl, fun name => ?_⟩
      split
      · rename_i hname
        rw [← hname, hnone]
        rfl
      · rfl

/-- The changes before the first of a field that holds no list. -/
def reached (i : Instance) (changes : ListChanges) : ListChanges :=
  ⟨changes.entries.takeWhile fun e => (i.listAt? e.1).isSome,
    changes.ascending.sublist (List.takeWhile_sublist _)⟩

/-- The first field among changes that holds no list. -/
def blocked? (i : Instance) (changes : ListChanges) : Option String :=
  (changes.entries.find? fun e => (i.listAt? e.1).isNone).map (·.1)

namespace Walks

variable {walk : List (String × List Json) → Instance → Instance × Option String}
  {write : Option Json → List Json → Option Json}

theorem foldl_eq (h : Walks walk write) (es : List (String × List Json)) (i : Instance) :
    (walk es i).2 = (es.find? fun e => (i.listAt? e.1).isNone).map (·.1) ∧
      (∀ name, ((walk es i).1.listAt? name).isSome = (i.listAt? name).isSome) ∧
      ∀ name, (walk es i).1.get? name = (es.takeWhile fun e => (i.listAt? e.1).isSome).foldl
        (fun slot e => if e.1 = name then write slot e.2 else slot) (i.get? name) := by
  induction es generalizing i with
  | nil =>
    rw [h.done]
    exact ⟨rfl, fun _ => rfl, fun _ => rfl⟩
  | cons e es ih =>
    cases hlist : i.listAt? e.1 with
    | none =>
      rw [h.stop e es i hlist]
      exact ⟨by simp [hlist], fun _ => rfl, fun _ => by simp [hlist]⟩
    | some items =>
      obtain ⟨j, hwalk, hlists, hget⟩ := h.step e es i (by rw [hlist]; rfl)
      have hnone (name : String) : (j.listAt? name).isNone = (i.listAt? name).isNone := by
        rw [← Option.not_isSome, hlists, Option.not_isSome]
      obtain ⟨hstop, hlists', hget'⟩ := ih j
      rw [hwalk]
      refine ⟨by simp [hstop, hnone, hlist], fun name => (hlists' name).trans (hlists name),
        fun name => ?_⟩
      rw [hget', List.takeWhile_cons_of_pos (by rw [hlist]; rfl), List.foldl_cons, hget]
      simp only [hlists]

theorem blocked (h : Walks walk write) (i : Instance) (changes : ListChanges) :
    (walk changes.entries i).2 = i.blocked? changes :=
  (h.foldl_eq changes.entries i).1

theorem isSome_listAt? (h : Walks walk write) (i : Instance) (changes : ListChanges)
    (name : String) :
    ((walk changes.entries i).1.listAt? name).isSome = (i.listAt? name).isSome :=
  (h.foldl_eq changes.entries i).2.1 name

theorem get? (h : Walks walk write) (i : Instance) (changes : ListChanges) (name : String) :
    (walk changes.entries i).1.get? name =
      ((i.reached changes).get? name).elim (i.get? name) (write (i.get? name)) :=
  ((h.foldl_eq changes.entries i).2.2 name).trans
    (SortedMap.foldl_entries_at name (fun values slot => write slot values) (i.reached changes) _)

end Walks

end Walks

section Changes

variable {i : Instance} {add remove changes : ListChanges} {name : String}

/-- The removals that are made, none if an addition was stopped. -/
def reachedRemovals (i : Instance) (add remove : ListChanges) : ListChanges :=
  if (i.blocked? add).isSome then ∅ else i.reached remove

theorem get?_reached_of_none (h : changes.get? name = none) :
    (i.reached changes).get? name = none := by
  rw [SortedMap.get?_eq_none_iff] at h ⊢
  exact fun hmem => h (((List.takeWhile_sublist _).map _).subset hmem)

/-- Only changes of lists are reached. -/
theorem get?_reached_of_not_list (h : i.listAt? name = none) :
    (i.reached changes).get? name = none := by
  rw [SortedMap.get?_eq_none_iff]
  intro hmem
  obtain ⟨e, he, rfl⟩ := List.mem_map.1 hmem
  have hlist := List.mem_takeWhile_imp he
  rw [h] at hlist
  cases hlist

theorem get?_reachedRemovals_of_none (h : (i.reached remove).get? name = none) :
    (i.reachedRemovals add remove).get? name = none := by
  rw [reachedRemovals]
  split
  · rfl
  · exact h

theorem reached_congr {j : Instance}
    (h : ∀ name, (j.listAt? name).isSome = (i.listAt? name).isSome) (changes : ListChanges) :
    j.reached changes = i.reached changes ∧ j.blocked? changes = i.blocked? changes := by
  have hnone (name : String) : (j.listAt? name).isNone = (i.listAt? name).isNone := by
    rw [← Option.not_isSome, h, Option.not_isSome]
  exact ⟨SortedMap.ext_entries (by simp only [reached, h]), by simp only [blocked?, hnone]⟩

theorem reached_of_unblocked (h : i.blocked? changes = none) : i.reached changes = changes := by
  rw [blocked?, Option.map_eq_none_iff, List.find?_eq_none] at h
  refine SortedMap.ext_entries (List.takeWhile_eq_self_iff.2 fun e he => ?_)
  rw [← Option.not_isNone, Bool.not_eq_true']
  exact Bool.eq_false_iff.2 (h e he)

/-- A change of lists stops at the first field to add to that holds no list, or else at the first to
remove from. -/
theorem changeLists_blocked (i : Instance) (add remove : ListChanges) :
    (i.changeLists add remove).2 = (i.blocked? add).or (i.blocked? remove) := by
  have hlists := walks_addValues.isSome_listAt? i add
  have hblocked := walks_addValues.blocked i add
  rw [changeLists]
  rcases hresult : addValues add.entries i with ⟨j, _ | field⟩
  · rw [hresult] at hlists hblocked
    rw [← hblocked, Option.none_or, ← (reached_congr hlists remove).2]
    exact walks_removeValues.blocked j remove
  · rw [hresult] at hblocked
    rw [← hblocked]
    rfl

theorem isSome_listAt?_changeLists (i : Instance) (add remove : ListChanges) (name : String) :
    ((i.changeLists add remove).1.listAt? name).isSome = (i.listAt? name).isSome := by
  have hlists := walks_addValues.isSome_listAt? i add name
  rw [changeLists]
  rcases hresult : addValues add.entries i with ⟨j, _ | field⟩
  · rw [hresult] at hlists
    exact (walks_removeValues.isSome_listAt? j remove name).trans hlists
  · rw [hresult] at hlists
    exact hlists

/-- The fields hold what the changes that are reached write, additions before removals. -/
theorem get?_changeLists_eq (i : Instance) (add remove : ListChanges) (name : String) :
    (i.changeLists add remove).1.get? name = slotChanged (i.get? name)
      ((i.reached add).get? name) ((i.reachedRemovals add remove).get? name) := by
  have hadded := walks_addValues.get? i add name
  have hlists := walks_addValues.isSome_listAt? i add
  have hblocked := walks_addValues.blocked i add
  rw [changeLists, reachedRemovals, slotChanged]
  rcases hresult : addValues add.entries i with ⟨j, _ | field⟩
  · rw [hresult] at hadded hlists hblocked
    simp only [← hblocked, ← hadded, Option.isSome_none, Bool.false_eq_true, if_false]
    rw [walks_removeValues.get? j remove name, (reached_congr hlists remove).1]
  · rw [hresult] at hadded hblocked
    simp only [← hblocked, ← hadded, Option.isSome_some, if_true, SortedMap.get?_empty,
      Option.elim_none]

/-- A change that is not refused is made as a whole. -/
theorem get?_changeLists_of_done (h : (i.changeLists add remove).2 = none) (name : String) :
    (i.changeLists add remove).1.get? name =
      slotChanged (i.get? name) (add.get? name) (remove.get? name) := by
  rw [changeLists_blocked, Option.or_eq_none_iff] at h
  rw [get?_changeLists_eq, reachedRemovals, h.1, reached_of_unblocked h.1, Option.isSome_none,
    if_neg Bool.false_ne_true, reached_of_unblocked h.2]

/-- A change of lists leaves the fields alone that it does not name. -/
theorem get?_changeLists (hadd : add.get? name = none) (hremove : remove.get? name = none) :
    (i.changeLists add remove).1.get? name = i.get? name := by
  rw [get?_changeLists_eq, get?_reached_of_none hadd,
    get?_reachedRemovals_of_none (get?_reached_of_none hremove)]
  rfl

end Changes

section Unchanged

/-- Added values stand behind the list, each new to it, and then none of the values is missing. -/
theorem appendNew_eq_append (items values : List Json) : ∃ new,
    appendNew items values = items ++ new ∧
      (∀ v ∈ new, v ∈ values ∧ items.contains v = false) ∧
      ∀ v ∈ values, (items ++ new).contains v = true := by
  induction values generalizing items with
  | nil => exact ⟨[], by simp, nofun, nofun⟩
  | cons v values ih =>
    by_cases hv : items.contains v = true
    · obtain ⟨new, hnew, hfresh, hall⟩ := ih items
      refine ⟨new, by rw [← hnew, appendNew, List.foldl_cons, if_pos hv, appendNew],
        fun w hw => ⟨List.mem_cons_of_mem _ (hfresh w hw).1, (hfresh w hw).2⟩, ?_⟩
      refine List.forall_mem_cons.2 ⟨?_, hall⟩
      simp [hv]
    · obtain ⟨new, hnew, hfresh, hall⟩ := ih (items ++ [v])
      rw [List.append_assoc, List.singleton_append] at hnew hall
      refine ⟨v :: new, by rw [← hnew, appendNew, List.foldl_cons, if_neg hv, appendNew], ?_, ?_⟩
      · refine List.forall_mem_cons.2 ⟨⟨List.mem_cons_self, by simpa using hv⟩, fun w hw => ?_⟩
        obtain ⟨hmem, hnot⟩ := hfresh w hw
        rw [List.contains_append, Bool.or_eq_false_iff] at hnot
        exact ⟨List.mem_cons_of_mem _ hmem, hnot.1⟩
      · refine List.forall_mem_cons.2 ⟨?_, hall⟩
        simp

/-- Adding values and removing others leaves a list as it was just if what is added is in it already
or removed again, and nothing that is in it is removed. -/
theorem filter_appendNew_eq_self_iff {items values removed : List Json} :
    (appendNew items values).filter (!removed.contains ·) = items ↔
      (∀ v ∈ values, items.contains v = true ∨ removed.contains v = true) ∧
        ∀ v ∈ items, removed.contains v = false := by
  obtain ⟨new, hnew, hfresh, hall⟩ := appendNew_eq_append items values
  rw [hnew, List.filter_append]
  constructor
  · intro h
    -- a new value that is kept stands in the list, so it is not new
    have hgone (v : Json) (hv : v ∈ new) : removed.contains v = true := by
      cases hkept : removed.contains v with
      | true => rfl
      | false =>
        have hmem : v ∈ items := by
          rw [← h]
          exact List.mem_append_right _ (List.mem_filter.2 ⟨hv, by rw [hkept]; rfl⟩)
        have hfound := (hfresh v hv).2
        rw [List.contains_iff_exists_mem_beq.2 ⟨v, hmem, BEq.rfl⟩] at hfound
        cases hfound
    refine ⟨fun v hv => ?_, fun v hv => ?_⟩
    · have hthere := hall v hv
      rw [List.contains_append, Bool.or_eq_true] at hthere
      refine hthere.imp_right fun hnew => ?_
      obtain ⟨w, hw, heq⟩ := List.contains_iff_exists_mem_beq.1 hnew
      rw [List.contains_congr heq]
      exact hgone w hw
    · have hnone : new.filter (!removed.contains ·) = [] :=
        List.filter_eq_nil_iff.2 fun w hw => by simpa using hgone w hw
      rw [hnone, List.append_nil, List.filter_eq_self] at h
      simpa using h v hv
  · rintro ⟨hadded, hkept⟩
    rw [List.filter_eq_self.2 fun v hv => by simpa using hkept v hv]
    rw [List.filter_eq_nil_iff.2 fun v hv => ?_, List.append_nil]
    obtain ⟨hmem, hnot⟩ := hfresh v hv
    rw [(hadded v hmem).resolve_left (by simp [hnot])]
    simp

/-- A list in a field stays as it is just if the additions and the removals leave it. -/
theorem slotChanged_array_eq_iff {items : List Json} {added removed : Option (List Json)} :
    slotChanged (some (.array items)) added removed = some (.array items) ↔
      (∀ v ∈ added.getD [], items.contains v = true ∨ (removed.getD []).contains v = true) ∧
        ∀ v ∈ items, (removed.getD []).contains v = false := by
  rw [← filter_appendNew_eq_self_iff]
  cases added <;> cases removed <;>
    simp [slotChanged, slotWith, slotWithout, slotItems, Json.array?, List.filter_eq_self.2]

variable {i : Instance} {add remove : ListChanges} {name : String}

/-- What a change of lists writes is in the fields already: every field that it adds to is there, each
added value is in the list or is removed again, and no value of the list is removed. -/
structure HoldsChanges (i : Instance) (add remove : ListChanges) : Prop where
  added : ∀ e ∈ (i.reached add).entries, i.contains e.1 = true ∧ ∀ v ∈ e.2,
    (slotItems (i.get? e.1)).contains v = true ∨
      (((i.reachedRemovals add remove).get? e.1).getD []).contains v = true
  removed : ∀ e ∈ (i.reachedRemovals add remove).entries, ∀ v ∈ slotItems (i.get? e.1),
    e.2.contains v = false

theorem get?_changeLists_eq_self_iff :
    (i.changeLists add remove).1.get? name = i.get? name ↔
      (∀ values, (i.reached add).get? name = some values → i.contains name = true ∧
        ∀ v ∈ values, (slotItems (i.get? name)).contains v = true ∨
          (((i.reachedRemovals add remove).get? name).getD []).contains v = true) ∧
      ∀ values, (i.reachedRemovals add remove).get? name = some values →
        ∀ v ∈ slotItems (i.get? name), values.contains v = false := by
  rw [get?_changeLists_eq, SortedMap.contains]
  cases hslot : i.get? name with
  | none =>
    cases (i.reached add).get? name <;> cases (i.reachedRemovals add remove).get? name <;>
      simp [slotChanged, slotWith, slotWithout, slotItems]
  | some v =>
    cases hv : v.array? with
    | none =>
      have hlist : i.listAt? name = none := by
        rw [listAt?, hslot]
        exact hv
      rw [get?_reached_of_not_list hlist,
        get?_reachedRemovals_of_none (get?_reached_of_not_list hlist)]
      simp [slotChanged]
    | some items =>
      obtain rfl : v = .array items := by
        cases v <;> simp_all [Json.array?]
      rw [slotChanged_array_eq_iff]
      cases (i.reached add).get? name <;> cases (i.reachedRemovals add remove).get? name <;>
        simp [slotItems, Json.array?]

/-- A change of lists leaves all fields as they are just if they hold what it writes. -/
theorem changeLists_eq_self_iff : (i.changeLists add remove).1 = i ↔ i.HoldsChanges add remove := by
  have hall : (i.changeLists add remove).1 = i ↔
      ∀ name, (i.changeLists add remove).1.get? name = i.get? name :=
    ⟨fun h name => by rw [h], SortedMap.ext_get?⟩
  simp only [hall, get?_changeLists_eq_self_iff]
  constructor
  · intro h
    exact ⟨fun e he => (h e.1).1 e.2 (SortedMap.mem_entries_iff.1 he),
      fun e he => (h e.1).2 e.2 (SortedMap.mem_entries_iff.1 he)⟩
  · rintro ⟨hadded, hremoved⟩ name
    exact ⟨fun values h => hadded (name, values) (SortedMap.mem_entries_iff.2 h),
      fun values h => hremoved (name, values) (SortedMap.mem_entries_iff.2 h)⟩

end Unchanged

end Instance

end MeetingLedger
