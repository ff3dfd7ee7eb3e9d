import Fairway.Text.Utf8

namespace Fairway

/-- Keys with their values, in increasing order of the keys. -/
structure Table where
  entries : List (String × Bytes)
  sorted : entries.Pairwise (·.1 < ·.1)

/-- Whether a key begins with `root`. -/
def under (root key : String) : Bool := root.toList.isPrefixOf key.toList

namespace Table

def empty : Table := ⟨[], .nil⟩

def insertEntry (key : String) (value : Bytes) : List (String × Bytes) → List (String × Bytes)
  | [] => [(key, value)]
  | (k, v) :: rest =>
    if key < k then (key, value) :: (k, v) :: rest
    else if key = k then (key, value) :: rest
    else (k, v) :: insertEntry key value rest

theorem mem_insertEntry {key : String} {value : Bytes} {entries : List (String × Bytes)}
    {entry : String × Bytes} (member : entry ∈ insertEntry key value entries) :
    entry = (key, value) ∨ entry ∈ entries := by
  induction entries with
  | nil => exact .inl (by simpa [insertEntry] using member)
  | cons first rest ih =>
    obtain ⟨k, v⟩ := first
    simp only [insertEntry] at member
    split at member
    case isTrue => simpa using member
    case isFalse =>
      split at member
      case isTrue => exact (List.mem_cons.1 member).imp_right (List.mem_cons_of_mem _)
      case isFalse =>
        rcases List.mem_cons.1 member with same | member
        · exact .inr (same ▸ List.mem_cons_self)
        · exact (ih member).imp_right (List.mem_cons_of_mem _)

theorem sorted_insertEntry (key : String) (value : Bytes) {entries : List (String × Bytes)}
    (sorted : entries.Pairwise (·.1 < ·.1)) :
    (insertEntry key value entries).Pairwise (·.1 < ·.1) := by
  induction entries with
  | nil => simp [insertEntry]
  | cons first rest ih =>
    obtain ⟨k, v⟩ := first
    obtain ⟨before, rest_sorted⟩ := List.pairwise_cons.1 sorted
    simp only [insertEntry]
    split
    case isTrue less =>
      refine List.pairwise_cons.2 ⟨fun entry member => ?_, sorted⟩
      rcases List.mem_cons.1 member with same | member
      · exact same ▸ less
      · exact String.lt_trans less (before entry member)
    case isFalse notLess =>
      split
      case isTrue same =>
        subst same
        exact List.pairwise_cons.2 ⟨before, rest_sorted⟩
      case isFalse different =>
        refine List.pairwise_cons.2 ⟨fun entry member => ?_, ih rest_sorted⟩
        rcases mem_insertEntry member with same | member
        · exact same ▸ Std.lt_of_le_of_ne notLess (Ne.symm different)
        · exact before entry member

def get? (t : Table) (key : String) : Option Bytes := t.entries.lookup key

def insert (t : Table) (key : String) (value : Bytes) : Table :=
  ⟨insertEntry key value t.entries, sorted_insertEntry key value t.sorted⟩

def erase (t : Table) (key : String) : Table :=
  ⟨t.entries.filter (·.1 != key), t.sorted.filter _⟩

/-- The run of entries under `root`: it begins at `root`, and the first key that is not under it ends
it. -/
def scan (t : Table) (root : String) : List (String × Bytes) :=
  (t.entries.dropWhile (·.1 < root)).takeWhile fun (key, _) => under root key

@[simp] theorem get?_empty (key : String) : empty.get? key = none := rfl

theorem lookup_cons_eq (key other : String) (value : Bytes) (rest : List (String × Bytes)) :
    ((key, value) :: rest).lookup other = if other = key then some value else rest.lookup other := by
  by_cases same : other = key
  · simp [same]
  · simp [List.lookup_cons, same, beq_false_of_ne same]

theorem lookup_insertEntry (key other : String) (value : Bytes) (entries : List (String × Bytes)) :
    (insertEntry key value entries).lookup other =
      if other = key then some value else entries.lookup other := by
  induction entries with
  | nil => simp only [insertEntry, lookup_cons_eq]
  | cons first rest ih =>
    obtain ⟨k, v⟩ := first
    simp only [insertEntry]
    split
    case isTrue => simp only [lookup_cons_eq]
    case isFalse =>
      split
      case isTrue same =>
        subst same
        simp only [lookup_cons_eq]
        split <;> rfl
      case isFalse different =>
        simp only [lookup_cons_eq, ih]
        split
        case isTrue found => simp [found, Ne.symm different]
        case isFalse => rfl

theorem get?_insert (t : Table) (key other : String) (value : Bytes) :
    (t.insert key value).get? other = if other = key then some value else t.get? other :=
  lookup_insertEntry key other value t.entries

theorem lookup_filter_ne (key other : String) (entries : List (String × Bytes)) :
    (entries.filter (·.1 != key)).lookup other =
      if other = key then none else entries.lookup other := by
  induction entries with
  | nil => simp
  | cons first rest ih =>
    obtain ⟨k, v⟩ := first
    by_cases gone : k = key
    · subst gone
      simp only [bne_self_eq_false, List.filter_cons, lookup_cons_eq]
      split <;> simp_all
    · have kept : (k != key) = true := by simpa using gone
      simp only [List.filter_cons, kept, if_true, lookup_cons_eq, ih]
      split
      case isTrue found => simp [found, gone]
      case isFalse => rfl

theorem get?_erase (t : Table) (key other : String) :
    (t.erase key).get? other = if other = key then none else t.get? other :=
  lookup_filter_ne key other t.entries

end Table

end Fairway
