/-!
# Sorted maps

Finite maps kept as lists with strictly increasing keys. Every traversal runs in key order, and two
maps that answer every lookup alike are equal.
-/

namespace MeetingLedger

/-- The keys strictly increase. -/
def Ascending {κ α : Type} [Ord κ] (entries : List (κ × α)) : Prop :=
  entries.Pairwise fun a b => compare a.1 b.1 = .lt

namespace Entries

variable {κ α : Type} [Ord κ]

def find? (k : κ) : List (κ × α) → Option α
  | [] => none
  | e :: es =>
    match compare k e.1 with
    | .lt => none
    | .eq => some e.2
    | .gt => find? k es

def put (k : κ) (a : α) : List (κ × α) → List (κ × α)
  | [] => [(k, a)]
  | e :: es =>
    match compare k e.1 with
    | .lt => (k, a) :: e :: es
    | .eq => (k, a) :: es
    | .gt => e :: put k a es

def erase (k : κ) : List (κ × α) → List (κ × α)
  | [] => []
  | e :: es =>
    match compare k e.1 with
    | .lt => e :: es
    | .eq => es
    | .gt => e :: erase k es

/-- An ascending list from entries in any order; of entries with one key the last stays. -/
def ofList (entries : List (κ × α)) : List (κ × α) :=
  entries.foldl (fun es e => put e.1 e.2 es) []

theorem mem_put {k : κ} {a : α} {es : List (κ × α)} {e : κ × α} (h : e ∈ put k a es) :
    e = (k, a) ∨ e ∈ es := by
  induction es with
  | nil => simp_all [put]
  | cons d ds ih =>
    rw [put] at h
    split at h <;> grind

theorem mem_erase {k : κ} {es : List (κ × α)} {e : κ × α} (h : e ∈ erase k es) : e ∈ es := by
  induction es with
  | nil => simp_all [erase]
  | cons d ds ih =>
    rw [erase] at h
    split at h <;> grind

variable [Std.TransOrd κ] [Std.LawfulEqOrd κ]

theorem ascending_put (k : κ) (a : α) {es : List (κ × α)} (h : Ascending es) :
    Ascending (put k a es) := by
  induction es with
  | nil => simp [put, Ascending]
  | cons d ds ih =>
    obtain ⟨hd, hds⟩ := List.pairwise_cons.1 h
    rw [put]
    split
    · rename_i hlt
      refine List.pairwise_cons.2 ⟨fun e he => ?_, h⟩
      rcases List.mem_cons.1 he with rfl | he
      · exact hlt
      · exact Std.TransCmp.lt_trans hlt (hd e he)
    · rename_i heq
      have : k = d.1 := Std.LawfulEqCmp.eq_of_compare heq
      exact List.pairwise_cons.2 ⟨fun e he => by simpa [this] using hd e he, hds⟩
    · rename_i hgt
      refine List.pairwise_cons.2 ⟨fun e he => ?_, ih hds⟩
      rcases mem_put he with rfl | he
      · exact Std.OrientedCmp.gt_iff_lt.1 hgt
      · exact hd e he

omit [Std.TransOrd κ] [Std.LawfulEqOrd κ] in
theorem ascending_erase (k : κ) {es : List (κ × α)} (h : Ascending es) :
    Ascending (erase k es) := by
  induction es with
  | nil => simp [erase, Ascending]
  | cons d ds ih =>
    obtain ⟨hd, hds⟩ := List.pairwise_cons.1 h
    rw [erase]
    split
    · exact h
    · exact hds
    · exact List.pairwise_cons.2 ⟨fun e he => hd e (mem_erase he), ih hds⟩

theorem ascending_ofList (entries : List (κ × α)) : Ascending (ofList entries) := by
  suffices ∀ es : List (κ × α), Ascending es →
      Ascending (entries.foldl (fun es e => put e.1 e.2 es) es) from this [] List.Pairwise.nil
  induction entries with
  | nil => exact fun _ h => h
  | cons e rest ih => exact fun es h => ih _ (ascending_put e.1 e.2 h)

end Entries

/-- A finite map from keys to values. -/
structure SortedMap (κ α : Type) [Ord κ] where
  entries : List (κ × α)
  ascending : Ascending entries

namespace SortedMap

variable {κ α β : Type} [Ord κ]

def empty : SortedMap κ α := ⟨[], List.Pairwise.nil⟩

instance : EmptyCollection (SortedMap κ α) := ⟨empty⟩

instance : Inhabited (SortedMap κ α) := ⟨empty⟩

theorem ext_entries {m n : SortedMap κ α} (h : m.entries = n.entries) : m = n := by
  cases m; cases n; congr

instance [DecidableEq κ] [DecidableEq α] : DecidableEq (SortedMap κ α) := fun m n =>
  if h : m.entries = n.entries then isTrue (ext_entries h)
  else isFalse fun e => h (congrArg entries e)

def get? (m : SortedMap κ α) (k : κ) : Option α := Entries.find? k m.entries

def contains (m : SortedMap κ α) (k : κ) : Bool := (m.get? k).isSome

def keys (m : SortedMap κ α) : List κ := m.entries.map (·.1)

def values (m : SortedMap κ α) : List α := m.entries.map (·.2)

def size (m : SortedMap κ α) : Nat := m.entries.length

def isEmpty (m : SortedMap κ α) : Bool := m.entries.isEmpty

def mapValues (f : κ → α → β) (m : SortedMap κ α) : SortedMap κ β :=
  ⟨m.entries.map fun e => (e.1, f e.1 e.2),
    by simpa [Ascending, List.pairwise_map] using m.ascending⟩

def filter (p : κ → α → Bool) (m : SortedMap κ α) : SortedMap κ α :=
  ⟨m.entries.filter fun e => p e.1 e.2, List.Pairwise.filter _ m.ascending⟩

def erase (m : SortedMap κ α) (k : κ) : SortedMap κ α :=
  ⟨Entries.erase k m.entries, Entries.ascending_erase k m.ascending⟩

variable [Std.TransOrd κ] [Std.LawfulEqOrd κ]

def insert (m : SortedMap κ α) (k : κ) (a : α) : SortedMap κ α :=
  ⟨Entries.put k a m.entries, Entries.ascending_put k a m.ascending⟩

/-- Changes the value under a key, starting from a default where there is none. -/
def update (m : SortedMap κ α) (k : κ) (default : α) (f : α → α) : SortedMap κ α :=
  m.insert k (f ((m.get? k).getD default))

def ofList (entries : List (κ × α)) : SortedMap κ α :=
  ⟨Entries.ofList entries, Entries.ascending_ofList entries⟩

end SortedMap

end MeetingLedger
